import Mathlib.Data.List.Nodup
import Obsplan.Proofs.Binary.Codec
import Obsplan.Value.Binary

/-!
# Values read back from binary

A value whose maps name every entry once, and whose lengths are numbers of 64 bits, is read back as
it was written, whatever follows: every level of nesting takes the bytes of a case number, so the
levels never run out. No other value is ever read.
-/

namespace Obsplan

open Obsplan.Binary

/-! ## Parameters -/

namespace Parameters

theorem setIn_of_notMem {name : String} {value : Value} {entries : List (String × Value)}
    (h : name ∉ entries.map Prod.fst) : setIn name value entries = entries ++ [(name, value)] := by
  induction entries with
  | nil => rfl
  | cons entry entries ih =>
    obtain ⟨k, v⟩ := entry
    simp only [List.map_cons, List.mem_cons, not_or] at h
    simp [setIn, Ne.symm h.1, ih h.2]

theorem foldl_insert {entries : List (String × Value)} {p : Parameters}
    (h : ((p.entries ++ entries).map Prod.fst).Nodup) :
    (entries.foldl (fun p e => p.insert e.1 e.2) p).entries = p.entries ++ entries := by
  induction entries generalizing p with
  | nil => simp
  | cons entry entries ih =>
    obtain ⟨k, v⟩ := entry
    have hsplit : p.entries ++ (k, v) :: entries = p.entries ++ [(k, v)] ++ entries := by simp
    have hnew : k ∉ p.entries.map Prod.fst := by
      rw [List.map_append, List.map_cons, List.nodup_append] at h
      exact fun hk => h.2.2 k hk k List.mem_cons_self rfl
    have hinsert : (p.insert k v).entries = p.entries ++ [(k, v)] := setIn_of_notMem hnew
    rw [List.foldl_cons, ih, hinsert, hsplit]
    rw [hinsert, ← hsplit]
    exact h

theorem mem_setIn {e : String × Value} {name : String} {value : Value}
    {entries : List (String × Value)} (h : e ∈ setIn name value entries) :
    e = (name, value) ∨ e ∈ entries := by
  induction entries with
  | nil => exact .inl (List.mem_singleton.mp h)
  | cons entry entries ih =>
    rw [setIn] at h
    split at h
    · obtain rfl | h := List.mem_cons.mp h
      · exact .inl (by simp [*])
      · exact .inr (List.mem_cons_of_mem _ h)
    · obtain rfl | h := List.mem_cons.mp h
      · exact .inr List.mem_cons_self
      · exact (ih h).imp_right (List.mem_cons_of_mem _)

theorem length_setIn_le (name : String) (value : Value) (entries : List (String × Value)) :
    (setIn name value entries).length ≤ entries.length + 1 := by
  induction entries with
  | nil => exact Nat.le_refl _
  | cons entry entries ih =>
    rw [setIn]
    split
    · exact Nat.le_succ _
    · exact Nat.succ_le_succ ih

/-- At most `count` parameters, each named once and from the given entries. -/
structure Within (count : Nat) (entries : List (String × Value)) (p : Parameters) : Prop where
  nodup : p.names.Nodup
  length_le : p.entries.length ≤ count
  mem : ∀ e ∈ p.entries, e ∈ entries

variable {count : Nat} {entries : List (String × Value)} {p : Parameters}

theorem Within.insert (h : Within count entries p) {name : String} {value : Value}
    (hmem : (name, value) ∈ entries) : Within (count + 1) entries (p.insert name value) where
  nodup := by
    rw [names_insert]
    split
    · exact h.nodup
    · rw [← List.concat_eq_append]
      exact List.Nodup.concat ‹_› h.nodup
  length_le := Nat.le_trans (length_setIn_le _ _ _) (Nat.succ_le_succ h.length_le)
  mem e he := (mem_setIn he).elim (fun heq => heq ▸ hmem) (h.mem e)

theorem Within.foldl {more : List (String × Value)} (h : Within count entries p)
    (hmem : ∀ e ∈ more, e ∈ entries) :
    Within (count + more.length) entries (more.foldl (fun p e => p.insert e.1 e.2) p) := by
  induction more generalizing p count with
  | nil => exact h
  | cons e more ih =>
    obtain ⟨he, hmore⟩ := List.forall_mem_cons.mp hmem
    rw [List.length_cons, Nat.add_comm more.length, ← Nat.add_assoc]
    exact ih (h.insert he) hmore

theorem within_ofList (entries : List (String × Value)) :
    Within entries.length entries (ofList entries) := by
  have hempty : Within 0 entries empty := ⟨List.nodup_nil, Nat.le_refl 0, by simp [empty]⟩
  have hfold : Within (0 + entries.length) entries (ofList entries) := hempty.foldl fun _ => id
  rwa [Nat.zero_add] at hfold

/-- Entries with distinct names are kept as they are. -/
theorem entries_ofList {entries : List (String × Value)} (h : (entries.map Prod.fst).Nodup) :
    (ofList entries).entries = entries := by
  rw [ofList, foldl_insert]
  · rfl
  · exact h

end Parameters

namespace Value

mutual

/-- Every map in the value names each entry once. -/
def Proper : Value → Prop
  | .list items => ProperItems items
  | .map entries => (entries.map Prod.fst).Nodup ∧ ProperEntries entries
  | _ => True

def ProperItems : List Value → Prop
  | [] => True
  | v :: vs => v.Proper ∧ ProperItems vs

def ProperEntries : List (String × Value) → Prop
  | [] => True
  | (_, v) :: entries => v.Proper ∧ ProperEntries entries

end

/-! ## What can be written

Lengths are written with 64 bits. -/

mutual

/-- Every length of the value, and of all that it holds, is a number of 64 bits. -/
def Sized : Value → Prop
  | .text s => s.utf8ByteSize < UInt64.size
  | .list items => items.length < UInt64.size ∧ SizedItems items
  | .map entries => entries.length < UInt64.size ∧ SizedEntries entries
  | _ => True

def SizedItems : List Value → Prop
  | [] => True
  | v :: vs => v.Sized ∧ SizedItems vs

def SizedEntries : List (String × Value) → Prop
  | [] => True
  | (k, v) :: entries => k.utf8ByteSize < UInt64.size ∧ v.Sized ∧ SizedEntries entries

end

/-- A value as it is held in memory: maps name every entry once, and all lengths are numbers of 64
bits. -/
structure Storable (v : Value) : Prop where
  proper : v.Proper
  sized : v.Sized

theorem properItems_iff {items : List Value} : ProperItems items ↔ ∀ v ∈ items, v.Proper := by
  induction items with
  | nil => simp [ProperItems]
  | cons v vs ih => rw [ProperItems, ih, List.forall_mem_cons]

theorem properEntries_iff {entries : List (String × Value)} :
    ProperEntries entries ↔ ∀ e ∈ entries, e.2.Proper := by
  induction entries with
  | nil => simp [ProperEntries]
  | cons e entries ih => rw [ProperEntries, ih, List.forall_mem_cons]

theorem sizedItems_iff {items : List Value} : SizedItems items ↔ ∀ v ∈ items, v.Sized := by
  induction items with
  | nil => simp [SizedItems]
  | cons v vs ih => rw [SizedItems, ih, List.forall_mem_cons]

theorem sizedEntries_iff {entries : List (String × Value)} :
    SizedEntries entries ↔ ∀ e ∈ entries, e.1.utf8ByteSize < UInt64.size ∧ e.2.Sized := by
  induction entries with
  | nil => simp [SizedEntries]
  | cons e entries ih => rw [SizedEntries, ih, List.forall_mem_cons, and_assoc]

theorem storable_text {s : String} : (Value.text s).Storable ↔ s.utf8ByteSize < UInt64.size :=
  ⟨fun h => h.sized, fun h => ⟨trivial, h⟩⟩

theorem storable_list {items : List Value} :
    (Value.list items).Storable ↔ items.length < UInt64.size ∧ ∀ v ∈ items, v.Storable := by
  constructor
  · intro h
    exact ⟨h.sized.1, fun v hv =>
      ⟨properItems_iff.mp h.proper v hv, sizedItems_iff.mp h.sized.2 v hv⟩⟩
  · rintro ⟨hcount, h⟩
    exact ⟨properItems_iff.mpr fun v hv => (h v hv).proper, hcount,
      sizedItems_iff.mpr fun v hv => (h v hv).sized⟩

theorem storable_map {entries : List (String × Value)} :
    (Value.map entries).Storable ↔ entries.length < UInt64.size ∧
      (entries.map Prod.fst).Nodup ∧
      ∀ e ∈ entries, e.1.utf8ByteSize < UInt64.size ∧ e.2.Storable := by
  constructor
  · intro h
    exact ⟨h.sized.1, h.proper.1, fun e he => ⟨(sizedEntries_iff.mp h.sized.2 e he).1,
      properEntries_iff.mp h.proper.2 e he, (sizedEntries_iff.mp h.sized.2 e he).2⟩⟩
  · rintro ⟨hcount, hnodup, h⟩
    exact ⟨⟨hnodup, properEntries_iff.mpr fun e he => (h e he).2.proper⟩, hcount,
      sizedEntries_iff.mpr fun e he => ⟨(h e he).1, (h e he).2.sized⟩⟩

/-- Entries that are set one after the other. -/
theorem storable_ofList {entries : List (String × Value)} (hcount : entries.length < UInt64.size)
    (h : ∀ e ∈ entries, e.1.utf8ByteSize < UInt64.size ∧ e.2.Storable) :
    (Value.map (Parameters.ofList entries).entries).Storable := by
  have hwithin := Parameters.within_ofList entries
  exact storable_map.mpr ⟨Nat.lt_of_le_of_lt hwithin.length_le hcount, hwithin.nodup,
    fun e he => h e (hwithin.mem e he)⟩

/-! ## Encodings -/

def encodeEntry (e : String × Value) : List UInt8 := encodeText e.1 ++ e.2.encode

theorem encodeItems_eq (items : List Value) : encodeItems items = items.flatMap encode := by
  induction items with
  | nil => rfl
  | cons v vs ih => rw [encodeItems, ih, List.flatMap_cons]

theorem encodeEntries_eq (entries : List (String × Value)) :
    encodeEntries entries = entries.flatMap encodeEntry := by
  induction entries with
  | nil => rfl
  | cons e entries ih => rw [encodeEntries, ih, List.flatMap_cons, encodeEntry]

theorem encode_list (items : List Value) :
    encode (.list items) = encodeCase 5 ++ encodeList encode items := by
  rw [encode, encodeItems_eq, encodeList, List.append_assoc]

theorem encode_map (entries : List (String × Value)) :
    encode (.map entries) = encodeCase 6 ++ encodeList encodeEntry entries := by
  rw [encode, encodeEntries_eq, encodeList, List.append_assoc]

theorem length_encodeCase (n : Nat) : (encodeCase n).length = 4 := length_natBytes 4 n

theorem encode_ne_nil (v : Value) : v.encode ≠ [] := by
  cases v <;> simp [encode, encodeCase, natBytes]

theorem encodeEntry_ne_nil (e : String × Value) : encodeEntry e ≠ [] := by
  simp [encodeEntry, encode_ne_nil]

/-- No value is longer than the list it is in. -/
theorem length_encode_le {v : Value} {items : List Value} (h : v ∈ items) :
    v.encode.length + 12 ≤ (encode (.list items)).length := by
  have hle := (List.sublist_flatten_of_mem (List.mem_map_of_mem h (f := encode))).length_le
  rw [encode_list, List.length_append, length_encodeCase, length_encodeList, List.flatMap]
  omega

/-- Neither are an entry's name and value longer than the map. -/
theorem length_encodeEntry_le {e : String × Value} {entries : List (String × Value)}
    (h : e ∈ entries) :
    (encodeText e.1).length + e.2.encode.length + 12 ≤ (encode (.map entries)).length := by
  have hle := (List.sublist_flatten_of_mem (List.mem_map_of_mem h (f := encodeEntry))).length_le
  rw [encodeEntry, List.length_append] at hle
  rw [encode_map, List.length_append, length_encodeCase, length_encodeList, List.flatMap]
  omega

/-- A value whose encoding has a length of 64 bits can be written. -/
theorem sized_of_length {v : Value} (h : v.encode.length < UInt64.size) : v.Sized := by
  induction hn : v.encode.length using Nat.strongRecOn generalizing v with
  | ind n ih =>
    subst hn
    cases v with
    | text s =>
      rw [encode, List.length_append, length_encodeText] at h
      exact Nat.lt_of_le_of_lt (by omega) h
    | list items =>
      refine ⟨?_, sizedItems_iff.mpr fun v hv => ?_⟩
      · have hcount := length_le_flatMap fun v (_ : v ∈ items) => v.encode_ne_nil
        rw [encode_list, List.length_append, length_encodeList] at h
        omega
      · have hle := length_encode_le hv
        exact ih _ (by omega) (by omega) rfl
    | map entries =>
      refine ⟨?_, sizedEntries_iff.mpr fun e he => ?_⟩
      · have hcount := length_le_flatMap fun e (_ : e ∈ entries) => encodeEntry_ne_nil e
        rw [encode_map, List.length_append, length_encodeList] at h
        omega
      · have hle := length_encodeEntry_le he
        rw [length_encodeText] at hle
        exact ⟨by omega, ih _ (by omega) (by omega) rfl⟩
    | _ => trivial

/-! ## Reading back -/

/-- An entry is read back when its value is. -/
theorem reads_decodeEntry {decode : Decoder Value} {e : String × Value}
    (hk : e.1.utf8ByteSize < UInt64.size) (hv : Reads decode e.2.encode e.2) :
    Reads (decodeEntry decode) (encodeEntry e) e :=
  (reads_sizedText hk).bind (hv.last (.pure _))

theorem reads_decodeWithin {v : Value} (hv : v.Storable) {fuel : Nat}
    (hfuel : v.encode.length ≤ fuel) : Reads (decodeWithin fuel) v.encode v := by
  induction fuel generalizing v with
  | zero => exact absurd (List.length_eq_zero_iff.mp (Nat.le_zero.mp hfuel)) v.encode_ne_nil
  | succ fuel ih =>
    cases v with
    | null => exact (reads_case (by decide)).last (.pure _)
    | bool b => exact (reads_case (by decide)).bind ((reads_bool b).last (.pure _))
    | int n =>
      refine (reads_case (by decide)).bind ((reads_word n.toUInt64.toNat_lt).last ?_)
      rw [UInt64.ofNat_toNat, Int64.toInt64_toUInt64]
      exact .pure _
    | float x => exact (reads_case (by decide)).bind ((reads_number x).last (.pure _))
    | text s =>
      exact (reads_case (by decide)).bind ((reads_sizedText (storable_text.mp hv)).last (.pure _))
    | list items =>
      obtain ⟨hcount, hitems⟩ := storable_list.mp hv
      rw [encode_list]
      refine (reads_case (by decide)).bind
        ((reads_countedList hcount fun v hv => ?_).last (.pure _))
      have hle := length_encode_le hv
      exact ih (hitems v hv) (by omega)
    | map entries =>
      obtain ⟨hcount, hnodup, hentries⟩ := storable_map.mp hv
      rw [encode_map]
      refine (reads_case (by decide)).bind (Reads.last (reads_countedList hcount fun e he => ?_) ?_)
      · have hle := length_encodeEntry_le he
        exact reads_decodeEntry (hentries e he).1 (ih (hentries e he).2 (by omega))
      · rw [Parameters.entries_ofList hnodup]
        exact .pure _

theorem Storable.reads {v : Value} (h : v.Storable) : Reads decode v.encode v :=
  fun rest => reads_decodeWithin h (by simp) rest

/-- A value is read back as it was written. -/
theorem reads_decode {v : Value} (hproper : v.Proper) (hlength : v.encode.length < UInt64.size) :
    Reads decode v.encode v :=
  Storable.reads ⟨hproper, sized_of_length hlength⟩

/-! ## Nothing else is read -/

theorem yields_decodeEntry {decode : Decoder Value} (h : Yields decode Storable) :
    Yields (decodeEntry decode) fun e => e.1.utf8ByteSize < UInt64.size ∧ e.2.Storable :=
  Yields.text.bind fun _ hk => h.bind fun _ hv => .pure ⟨hk, hv⟩

theorem yields_decodeWithin (fuel : Nat) : Yields (decodeWithin fuel) Storable := by
  induction fuel with
  | zero => exact .failure
  | succ fuel ih =>
    refine (Yields.any Binary.case).bind fun c _ => ?_
    split
    · exact .pure ⟨trivial, trivial⟩
    · exact (Yields.any _).bind fun _ _ => .pure ⟨trivial, trivial⟩
    · exact (Yields.any _).bind fun _ _ => .pure ⟨trivial, trivial⟩
    · exact (Yields.any _).bind fun _ _ => .pure ⟨trivial, trivial⟩
    · exact Yields.text.bind fun _ hs => .pure (storable_text.mpr hs)
    · exact ih.counted.bind fun _ hitems => .pure (storable_list.mpr hitems)
    · exact (yields_decodeEntry ih).counted.bind fun entries hentries =>
        .pure (storable_ofList hentries.1 hentries.2)
    · exact .failure

/-- The values that can be read at all are those that are held in memory. -/
theorem storable_iff {v : Value} : v.Storable ↔ ∃ bytes rest, decode bytes = some (v, rest) := by
  constructor
  · intro h
    exact ⟨v.encode, [], h.reads.result⟩
  · rintro ⟨bytes, rest, h⟩
    exact yields_decodeWithin _ _ _ _ h

end Value

/-! ## Lists, parameters and options of values -/

theorem Parameters.reads_decode {p : Parameters} (h : (Value.map p.entries).Storable) :
    Reads decode p.encode p := by
  obtain ⟨hcount, hnodup, hentries⟩ := Value.storable_map.mp h
  have hbytes : p.encode = encodeList Value.encodeEntry p.entries := by
    rw [encode, Value.encodeEntries_eq, encodeList]
  rw [hbytes]
  refine Reads.last (reads_countedList hcount fun e he => ?_) ?_
  · exact Value.reads_decodeEntry (hentries e he).1 (hentries e he).2.reads
  · have hp : ofList p.entries = p := congrArg Parameters.mk (entries_ofList hnodup)
    rw [hp]
    exact .pure p

namespace Value

/-- Whatever follows, a value is read back exactly, and so is a list of values, a bag of parameters
and an optional value; bytes begin with the encoding of one value at most. -/
theorem decode_unique :
    (∀ v : Value, v.Storable → ∀ rest, decode (v.encode ++ rest) = some (v, rest)) ∧
    (∀ items : List Value, items.length < UInt64.size → (∀ v ∈ items, v.Storable) → ∀ rest,
      Binary.list decode (encodeList encode items ++ rest) = some (items, rest)) ∧
    (∀ p : Parameters, (Value.map p.entries).Storable → ∀ rest,
      Parameters.decode (p.encode ++ rest) = some (p, rest)) ∧
    (∀ v? : Option Value, (∀ v ∈ v?, v.Storable) → ∀ rest,
      option decode (encodeOption encode v? ++ rest) = some (v?, rest)) ∧
    ∀ v w : Value, v.Storable → w.Storable → ∀ rest rest',
      v.encode ++ rest = w.encode ++ rest' → v = w ∧ rest = rest' := by
  refine ⟨fun v hv => hv.reads, fun items hcount hitems => ?_, fun p hp => ?_, fun v? hv => ?_, ?_⟩
  · exact reads_countedList hcount fun v hv => (hitems v hv).reads
  · exact Parameters.reads_decode hp
  · exact reads_option fun v hv' => (hv v hv').reads
  · intro v w hv hw rest rest' heq
    exact hv.reads.unique hw.reads heq

/-- A list of a map, of nothing and of a number, with an undefined number and a letter of two bytes
in the map. -/
def nested : Value :=
  .list [.map [("b", .float ⟨0x7FF8000000000001⟩), ("a", .text "é")], .null, .int (-1)]

theorem storable_nested : nested.Storable where
  proper := by simp [nested, Proper, ProperItems, ProperEntries]
  sized := by
    simp only [nested, Sized, SizedItems, SizedEntries]
    decide

theorem decode_unique_nested :
    nested.Storable ∧
    decode (nested.encode ++ [7]) = some (nested, [7]) ∧
    Binary.list decode (encodeList encode [nested, .bool true] ++ [7]) =
      some ([nested, .bool true], [7]) ∧
    Parameters.decode (Parameters.encode ⟨[("z", nested), ("a", .null)]⟩ ++ [7]) =
      some (⟨[("z", nested), ("a", .null)]⟩, [7]) ∧
    option decode (encodeOption encode (some nested) ++ [7]) = some (some nested, [7]) ∧
    ∀ rest rest', encode (.int 1) ++ rest ≠ encode (.float ⟨1⟩) ++ rest' := by
  obtain ⟨hvalue, hlist, hparameters, hoption, hdistinct⟩ := decode_unique
  refine ⟨storable_nested, hvalue _ storable_nested _, hlist _ (by decide) ?_ _,
    hparameters _ ?_ _, hoption _ ?_ _, fun rest rest' heq => ?_⟩
  · simp only [List.forall_mem_cons]
    exact ⟨storable_nested, ⟨trivial, trivial⟩, by simp⟩
  · refine storable_map.mpr ⟨by decide, by simp, ?_⟩
    simp only [List.forall_mem_cons]
    exact ⟨⟨by decide, storable_nested⟩, ⟨by decide, trivial, trivial⟩, by simp⟩
  · rintro v ⟨⟩
    exact storable_nested
  · cases (hdistinct (.int 1) (.float ⟨1⟩) ⟨trivial, trivial⟩ ⟨trivial, trivial⟩ rest rest' heq).1

end Value

end Obsplan
