import Mathlib.Algebra.Group.Nat.Defs
import Obsplan.Binary.Basic

/-!
# Reading binary data back

A decoder reads bytes as a value when it takes exactly these bytes from the front of whatever holds
them, and gives the value. One law for each way decoders are put together, and one for each kind of
data; lengths are written with 64 bits, so they have to be less.
-/

namespace Obsplan.Binary

variable {β γ δ : Type}

/-- A decoder reads bytes as a value, whatever follows them. -/
def Reads (decode : Decoder β) (bytes : List UInt8) (x : β) : Prop :=
  ∀ rest, decode (bytes ++ rest) = some (x, rest)

namespace Reads

variable {decode : Decoder β} {next : β → Decoder γ} {bytes more : List UInt8} {x : β} {y : γ}

theorem pure (x : β) : Reads (Pure.pure x) [] x := fun _ => rfl

theorem bind (h : Reads decode bytes x) (h' : Reads (next x) more y) :
    Reads (decode >>= next) (bytes ++ more) y := by
  intro rest
  have hrun : (decode >>= next) (bytes ++ (more ++ rest)) =
      (decode (bytes ++ (more ++ rest))).bind fun p => next p.1 p.2 := rfl
  rw [List.append_assoc, hrun, h]
  exact h' rest

/-- Nothing more is read after the last part. -/
theorem last (h : Reads decode bytes x) (h' : Reads (next x) [] y) :
    Reads (decode >>= next) bytes y := by
  have := h.bind h'
  rwa [List.append_nil] at this

theorem result (h : Reads decode bytes x) : decode bytes = some (x, []) := by
  have := h []
  rwa [List.append_nil] at this

/-- What a decoder reads at the front of some bytes, and what it leaves, is known from the bytes. -/
theorem unique {bytes' rest rest' : List UInt8} {x' : β} (h : Reads decode bytes x)
    (h' : Reads decode bytes' x') (heq : bytes ++ rest = bytes' ++ rest') :
    x = x' ∧ rest = rest' := by
  have hread := h rest
  rw [heq, h' rest'] at hread
  exact Prod.mk.inj (Option.some.inj hread.symm)

end Reads

/-! ## Numbers -/

@[simp] theorem length_natBytes (width n : Nat) : (natBytes width n).length = width := by
  induction width generalizing n with
  | zero => rfl
  | succ width ih => simp [natBytes, ih]

theorem natOf_natBytes {width n : Nat} (h : n < 256 ^ width) : natOf (natBytes width n) = n := by
  induction width generalizing n with
  | zero =>
    simp only [Nat.pow_zero, Nat.lt_one_iff] at h
    simp [natBytes, natOf, h]
  | succ width ih =>
    have hdiv : n / 256 < 256 ^ width := by
      rw [Nat.div_lt_iff_lt_mul (by decide), ← Nat.pow_succ]
      exact h
    have hbyte : (UInt8.ofNat (n % 256)).toNat = n % 256 := by
      simp
    rw [natBytes, natOf, ih hdiv, hbyte, Nat.mod_add_div]

theorem natOf_lt (bytes : List UInt8) : natOf bytes < 256 ^ bytes.length := by
  induction bytes with
  | nil => simp [natOf]
  | cons b bytes ih =>
    have hb := b.toNat_lt
    rw [natOf, List.length_cons, Nat.pow_succ]
    omega

theorem reads_take (bytes : List UInt8) : Reads (take bytes.length) bytes bytes := by
  intro rest
  simp [take]

theorem reads_nat {width n : Nat} (h : n < 256 ^ width) :
    Reads (nat width) (natBytes width n) n := by
  have htake := reads_take (natBytes width n)
  rw [length_natBytes] at htake
  refine htake.last ?_
  rw [natOf_natBytes h]
  exact .pure n

theorem reads_case {n : Nat} (h : n < 256 ^ 4) : Reads case (encodeCase n) n := reads_nat h

theorem reads_word {n : Nat} (h : n < UInt64.size) : Reads word (encodeWord n) n := reads_nat h

theorem reads_bool (b : Bool) : Reads bool (encodeBool b) b := by
  cases b with
  | false => exact (reads_nat (show 0 < 256 ^ 1 by decide)).last (.pure false)
  | true => exact (reads_nat (show 1 < 256 ^ 1 by decide)).last (.pure true)

theorem reads_number (x : Number) : Reads number (encodeNumber x) x := by
  refine (reads_nat x.bits.toNat_lt).last ?_
  rw [UInt64.ofNat_toNat]
  exact .pure x

/-! ## Texts -/

theorem toList_loop (bytes : ByteArray) (i : Nat) (front : List UInt8) :
    ByteArray.toList.loop bytes i front = front.reverse ++ bytes.data.toList.drop i := by
  -- on the number of bytes that are left
  induction h : bytes.size - i generalizing i front with
  | zero =>
    have hle : bytes.data.toList.length ≤ i := Nat.le_of_sub_eq_zero h
    rw [ByteArray.toList.loop, if_neg (by omega), List.drop_eq_nil_of_le hle, List.append_nil]
  | succ n ih =>
    have hlt : i < bytes.size := by omega
    have hbyte : bytes.get! i = bytes.data.toList.get ⟨i, hlt⟩ :=
      getElem!_pos bytes.data i hlt
    rw [ByteArray.toList.loop, if_pos hlt, ih (i + 1) _ (by omega), List.drop_eq_getElem_cons hlt,
      hbyte, List.get_eq_getElem, List.reverse_cons, List.append_assoc, List.singleton_append]

theorem toList_toUTF8 (s : String) : ByteArray.mk s.toUTF8.toList.toArray = s.toUTF8 := by
  rw [ByteArray.toList, toList_loop, List.reverse_nil, List.nil_append, List.drop_zero]

theorem fromUTF8?_toUTF8 (s : String) : String.fromUTF8? s.toUTF8 = some s := dif_pos s.isValidUTF8

theorem length_toList_toUTF8 (s : String) : s.toUTF8.toList.length = s.utf8ByteSize :=
  congrArg ByteArray.size (toList_toUTF8 s)

theorem length_encodeText (s : String) : (encodeText s).length = 8 + s.utf8ByteSize := by
  simp only [encodeText, encodeWord, List.length_append, length_natBytes, length_toList_toUTF8]

/-- A text is read back as soon as its own length is written with 64 bits. -/
theorem reads_sizedText {s : String} (h : s.utf8ByteSize < UInt64.size) :
    Reads text (encodeText s) s := by
  rw [← length_toList_toUTF8] at h
  refine (reads_word h).bind ((reads_take _).last ?_)
  rw [toList_toUTF8, fromUTF8?_toUTF8]
  exact .pure s

theorem reads_text {s : String} (h : (encodeText s).length < UInt64.size) :
    Reads text (encodeText s) s := by
  rw [length_encodeText] at h
  exact reads_sizedText (by omega)

/-! ## Lists and options -/

theorem reads_times {encode : β → List UInt8} {decode : Decoder γ} {view : β → γ} {items : List β}
    (h : ∀ x ∈ items, Reads decode (encode x) (view x)) :
    Reads (times decode items.length) (items.flatMap encode) (items.map view) := by
  induction items with
  | nil => exact .pure []
  | cons x items ih =>
    obtain ⟨hx, hitems⟩ := List.forall_mem_cons.mp h
    exact hx.bind ((ih hitems).last (.pure _))

/-- Every item takes a byte. -/
theorem length_le_flatMap {encode : β → List UInt8} {items : List β}
    (h : ∀ x ∈ items, encode x ≠ []) : items.length ≤ (items.flatMap encode).length := by
  induction items with
  | nil => exact Nat.le_refl _
  | cons x items ih =>
    obtain ⟨hx, hitems⟩ := List.forall_mem_cons.mp h
    have hpos := List.length_pos_iff.mpr hx
    have hrest := ih hitems
    simp only [List.flatMap_cons, List.length_append, List.length_cons]
    omega

theorem length_encodeList (encode : β → List UInt8) (items : List β) :
    (encodeList encode items).length = 8 + (items.flatMap encode).length := by
  simp [encodeList, encodeWord]

/-- A list is read when its items are and their number is written with 64 bits. -/
theorem reads_counted {encode : β → List UInt8} {decode : Decoder γ} {view : β → γ}
    {items : List β} (hcount : items.length < UInt64.size)
    (h : ∀ x ∈ items, Reads decode (encode x) (view x)) :
    Reads (list decode) (encodeList encode items) (items.map view) :=
  (reads_word hcount).bind (reads_times h)

theorem reads_countedList {encode : β → List UInt8} {decode : Decoder β} {items : List β}
    (hcount : items.length < UInt64.size) (h : ∀ x ∈ items, Reads decode (encode x) x) :
    Reads (list decode) (encodeList encode items) items := by
  have hread : Reads (list decode) (encodeList encode items) (items.map id) :=
    reads_counted hcount h
  rwa [List.map_id] at hread

/-- A list is read when its items are, each of which is shorter than the list. -/
theorem reads_listBy {encode : β → List UInt8} {decode : Decoder γ} (view : β → γ) {items : List β}
    (hsome : ∀ x ∈ items, encode x ≠ [])
    (h : ∀ x ∈ items, (encode x).length < UInt64.size → Reads decode (encode x) (view x))
    (hlength : (encodeList encode items).length < UInt64.size) :
    Reads (list decode) (encodeList encode items) (items.map view) := by
  have hcount := length_le_flatMap hsome
  rw [length_encodeList] at hlength
  refine reads_counted (by omega) fun x hx => h x hx ?_
  have hle : (encode x).length ≤ (items.flatMap encode).length :=
    (List.sublist_flatten_of_mem (List.mem_map_of_mem hx)).length_le
  omega

theorem reads_list {encode : β → List UInt8} {decode : Decoder β} {items : List β}
    (hsome : ∀ x ∈ items, encode x ≠ [])
    (h : ∀ x ∈ items, (encode x).length < UInt64.size → Reads decode (encode x) x)
    (hlength : (encodeList encode items).length < UInt64.size) :
    Reads (list decode) (encodeList encode items) items := by
  have hview := reads_listBy id hsome h hlength
  rwa [List.map_id] at hview

theorem reads_option {encode : β → List UInt8} {decode : Decoder β} {x : Option β}
    (h : ∀ y ∈ x, Reads decode (encode y) y) :
    Reads (option decode) (encodeOption encode x) x := by
  cases x with
  | none => exact (reads_bool false).last (.pure none)
  | some y => exact (reads_bool true).bind ((h y rfl).last (.pure (some y)))

/-! ## What decoders can give -/

/-- Whatever a decoder gives has a property. -/
def Yields (decode : Decoder β) (P : β → Prop) : Prop :=
  ∀ bytes x rest, decode bytes = some (x, rest) → P x

namespace Yields

variable {decode : Decoder β} {next : β → Decoder γ} {P : β → Prop} {Q : γ → Prop}

theorem any (decode : Decoder β) : Yields decode fun _ => True := fun _ _ _ _ => trivial

theorem pure {x : β} (h : P x) : Yields (Pure.pure x) P := by
  intro bytes y rest hy
  cases hy
  exact h

theorem failure : Yields (Alternative.failure : Decoder β) P := by
  intro _ _ _ h
  cases h

theorem bind (h : Yields decode P) (h' : ∀ x, P x → Yields (next x) Q) :
    Yields (decode >>= next) Q := by
  intro bytes y rest hy
  have hrun : (decode >>= next) bytes = (decode bytes).bind fun p => next p.1 p.2 := rfl
  rw [hrun, Option.bind_eq_some_iff] at hy
  obtain ⟨⟨x, bytes'⟩, hx, hy⟩ := hy
  exact h' x (h _ _ _ hx) _ _ _ hy

theorem mono {P' : β → Prop} (h : Yields decode P) (hP : ∀ x, P x → P' x) : Yields decode P' :=
  fun bytes x rest hx => hP x (h bytes x rest hx)

theorem take (width : Nat) : Yields (take width) fun bytes => bytes.length = width := by
  intro bytes front rest h
  rw [Binary.take, Option.ite_none_right_eq_some] at h
  obtain ⟨hlength, h⟩ := h
  cases h
  exact hlength

theorem nat (width : Nat) : Yields (nat width) (· < 256 ^ width) :=
  (take width).bind fun bytes hlength => pure (hlength ▸ natOf_lt bytes)

theorem text : Yields text fun s => s.utf8ByteSize < UInt64.size := by
  refine (nat 8).bind fun length hlength => (take length).bind fun bytes hbytes => ?_
  split
  · rename_i s hs
    have hsize : s.utf8ByteSize = bytes.length := by
      rw [String.fromUTF8?] at hs
      split at hs
      · cases hs
        rfl
      · cases hs
    exact pure (by rw [hsize, hbytes]; exact hlength)
  · exact failure

theorem times (h : Yields decode P) (count : Nat) :
    Yields (times decode count) fun items => items.length = count ∧ ∀ x ∈ items, P x := by
  induction count with
  | zero => exact pure (by simp)
  | succ count ih =>
    exact h.bind fun x hx => ih.bind fun items hitems =>
      pure ⟨congrArg (· + 1) hitems.1, List.forall_mem_cons.mpr ⟨hx, hitems.2⟩⟩

theorem counted (h : Yields decode P) :
    Yields (list decode) fun items => items.length < UInt64.size ∧ ∀ x ∈ items, P x :=
  (nat 8).bind fun count hcount => (h.times count).mono fun _ hitems =>
    ⟨hitems.1 ▸ hcount, hitems.2⟩

theorem list (h : Yields decode P) : Yields (list decode) fun items => ∀ x ∈ items, P x :=
  h.counted.mono fun _ => And.right

end Yields

end Obsplan.Binary
