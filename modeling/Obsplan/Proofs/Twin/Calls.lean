import Mathlib.Data.Set.Card
import Obsplan.Proofs.Execution.Invariants
import Obsplan.Proofs.Twin.Activities

/-!
# Twins as ledgers of calls

Whatever is called on a new twin, it holds one node for each key that was ever recorded, in the
order of first recording, and links between them that are made once. A call fails only for a key
that was never recorded, and then nothing changes. Main statement: a twin is restored from what it
holds exactly as it was, the number of the next activity included.
-/

namespace Obsplan.Twin

variable {α : Type} [Coordinate α] {t t' : Twin α} {k : NodeKey}

/-- A call on a twin. -/
inductive Call (α : Type) [Coordinate α] where
  | begin (kind : ActivityKind) (description agent : String)
  | finish (id : UInt64) (status : Status)
  | record (o : Observation α)
  | link (source : NodeKey) (r : Relationship) (target : NodeKey)

namespace Call

/-- The keys that a call records. The activity that it begins gets the number. -/
def keys (number : Nat) : Call α → List NodeKey
  | .begin _ _ agent => [.activity (.ofNat number), .agent agent]
  | .finish _ _ => []
  | .record o => [.observation o.id]
  | .link _ _ _ => []

/-- The keys that must have been recorded for a call to succeed. -/
def needs : Call α → List NodeKey
  | .begin _ _ _ => []
  | .finish id _ => [.activity id]
  | .record _ => []
  | .link source _ target => [source, target]

def begins : Call α → Bool
  | .begin _ _ _ => true
  | _ => false

def observation? : Call α → Option (Observation α)
  | .record o => some o
  | _ => none

/-- What a call does to a twin. It gives the number of an activity that it begins. -/
def edit : Call α → Edit (Twin α) ExecutionError (Option UInt64)
  | .begin kind description agent => do
    let (id, t) := (← get).begin kind description agent
    set t
    return some id
  | .finish id status => do
    finishing id status
    return none
  | .record o => do
    modify fun t => t.record o
    return none
  | .link source r target => do
    linking source r target
    return none

end Call

/-- The answer to a call, and the twin afterwards. -/
def call (t : Twin α) (c : Call α) : Except ExecutionError (Option UInt64) × Twin α := c.edit.on t

/-- The twin after some calls. -/
def after (t : Twin α) (calls : List (Call α)) : Twin α := calls.foldl (fun t c => (t.call c).2) t

/-- The number of activities that some calls begin. -/
def begun (calls : List (Call α)) : Nat := calls.countP Call.begins

/-- The keys that some calls on a new twin record, where activities are numbered in turn. -/
def recorded (calls : List (Call α)) : Set NodeKey :=
  {k | ∃ before c rest, calls = before ++ c :: rest ∧ k ∈ c.keys (begun before + 1)}

/-- The observation of an identifier that some calls record last. -/
def latest? (calls : List (Call α)) (i : Identifier) : Option (Observation α) :=
  (calls.filterMap Call.observation?).reverse.find? fun o => o.id = i

variable {calls : List (Call α)} {c : Call α}

theorem after_concat (t : Twin α) (calls : List (Call α)) (c : Call α) :
    t.after (calls ++ [c]) = ((t.after calls).call c).2 := by
  simp [after]

theorem after_append (t : Twin α) (calls more : List (Call α)) :
    t.after (calls ++ more) = (t.after calls).after more := by
  simp [after]

theorem begun_concat (calls : List (Call α)) (c : Call α) :
    begun (calls ++ [c]) = begun calls + if c.begins then 1 else 0 := by
  simp [begun, List.countP_append, List.countP_singleton]

theorem mem_recorded_concat :
    k ∈ recorded (calls ++ [c]) ↔ k ∈ recorded calls ∨ k ∈ c.keys (begun calls + 1) := by
  constructor
  · rintro ⟨before, d, rest, hsplit, hk⟩
    obtain rfl | ⟨rest, last, rfl⟩ := rest.eq_nil_or_concat
    · obtain ⟨rfl, hlast⟩ := List.append_inj' hsplit rfl
      cases hlast
      exact .inr hk
    · rw [List.concat_eq_append, ← List.cons_append, ← List.append_assoc] at hsplit
      exact .inl ⟨before, d, rest, (List.append_inj' hsplit rfl).1, hk⟩
  · rintro (⟨before, d, rest, rfl, hk⟩ | hk)
    · exact ⟨before, d, rest ++ [c], by simp, hk⟩
    · exact ⟨calls, c, [], rfl, hk⟩

theorem latest?_concat (calls : List (Call α)) (c : Call α) (i : Identifier) :
    latest? (calls ++ [c]) i = match c.observation? with
      | some o => if o.id = i then some o else latest? calls i
      | none => latest? calls i := by
  cases hc : c.observation? with
  | none => simp [latest?, hc]
  | some o => by_cases hi : o.id = i <;> simp [latest?, hc, hi]

/-! ## One call -/

theorem contains_connect (t : Twin α) (e : Edge) (k : NodeKey) :
    (t.connect e).contains k = t.contains k := by
  rw [contains, node?_connect, contains]

theorem contains_put_iff {n : TwinNode α} :
    (t.put n).contains k = true ↔ t.contains k = true ∨ n.key = k := by
  rw [contains_put, Bool.or_eq_true, decide_eq_true_eq, or_comm]

theorem contains_begin_iff {kind : ActivityKind} {description agent : String} :
    (t.begin kind description agent).2.contains k = true ↔
      t.contains k = true ∨ k ∈ [.activity t.nextActivity, .agent agent] := by
  have hnumber : ∀ k, contains { t with nextActivity := t.nextActivity + 1 } k = t.contains k :=
    fun _ => rfl
  unfold begin
  dsimp only
  rw [contains_connect]
  split
  · rename_i hagent
    simp only [contains_put_iff, hnumber, TwinNode.key] at hagent ⊢
    constructor
    · rintro (h | rfl) <;> simp [*]
    · intro h
      simp only [List.mem_cons, List.not_mem_nil, or_false] at h
      rcases h with h | rfl | rfl
      · exact .inl h
      · exact .inr rfl
      · exact hagent
  · simp only [contains_put_iff, hnumber, TwinNode.key, List.mem_cons, List.not_mem_nil, or_false,
      or_assoc, eq_comm (a := k)]

theorem contains_activity_iff {id : UInt64} :
    t.contains (.activity id) = true ↔ ∃ a, t.activity? id = some a := by
  constructor
  · intro h
    obtain ⟨a, ha, -⟩ := activity_of_contains h
    exact ⟨a, ha⟩
  · rintro ⟨a, ha⟩
    obtain ⟨n, hn, -⟩ := Option.bind_eq_some_iff.mp ha
    simp [contains, hn]

/-- An activity is ended in its place. -/
theorem finish_ok {id : UInt64} {status : Status} (h : t.finish id status = .ok t') :
    t.contains (.activity id) = true ∧
      ∃ a : Activity, a.id = id ∧ t' = t.put (.activity a) := by
  rw [finish_of_activity?] at h
  split at h
  · rename_i a ha
    cases h
    have hid : a.id = id := id_of_activity? ha
    exact ⟨contains_activity_iff.mpr ⟨a, ha⟩, { a with status }, hid, rfl⟩
  · cases h

/-- A call changes nothing when it fails, since it looks for all keys that it needs before it changes
anything. -/
theorem atomic_edit (c : Call α) : Edit.Atomic c.edit := by
  cases c with
  | begin kind description agent => exact .of_sure fun _ => ⟨_, rfl⟩
  | record o => exact .of_sure fun _ => ⟨_, rfl⟩
  | finish id status => exact (atomic_finishing id status).bind_sure fun _ => .pure _
  | link source r target => exact (atomic_linking source r target).bind_sure fun _ => .pure _

theorem call_eq_of_error (h : (t.call c).1.isOk = false) : (t.call c).2 = t := by
  cases hresult : (t.call c).1 with
  | error e => exact atomic_edit c t e hresult
  | ok _ =>
    rw [hresult] at h
    cases h

theorem call_finish_ok {id : UInt64} {status : Status} (h : t.finish id status = .ok t') :
    t.call (.finish id status) = (.ok none, t') := by
  rw [call, Call.edit, Edit.on_bind_ok (Edit.on_of_made h)]
  rfl

theorem call_finish_error {id : UInt64} {status : Status} {e : ExecutionError}
    (h : t.finish id status = .error e) : t.call (.finish id status) = (.error e, t) := by
  rw [call, Call.edit, Edit.on_bind_error ((atomic_finishing id status).on_of_made h)]

theorem call_link_ok {source target : NodeKey} {r : Relationship}
    (h : t.link source r target = .ok t') : t.call (.link source r target) = (.ok none, t') := by
  rw [call, Call.edit, Edit.on_bind_ok (Edit.on_of_made h)]
  rfl

theorem call_link_error {source target : NodeKey} {r : Relationship} {e : ExecutionError}
    (h : t.link source r target = .error e) : t.call (.link source r target) = (.error e, t) := by
  rw [call, Call.edit, Edit.on_bind_error ((atomic_linking source r target).on_of_made h)]

/-- A call fails just when it needs a key that is not there. -/
theorem call_isOk (t : Twin α) (c : Call α) :
    (t.call c).1.isOk = true ↔ ∀ k ∈ c.needs, t.contains k = true := by
  cases c with
  | begin kind description agent =>
    exact iff_of_true rfl fun k hk => absurd hk List.not_mem_nil
  | record o => exact iff_of_true rfl fun k hk => absurd hk List.not_mem_nil
  | finish id status =>
    simp only [Call.needs, List.forall_mem_singleton, contains_activity_iff]
    have hfinish := t.finish_of_activity? id status
    cases ha : t.activity? id with
    | none =>
      rw [ha] at hfinish
      simp [call_finish_error hfinish, Except.isOk, Except.toBool]
    | some a =>
      rw [ha] at hfinish
      simp [call_finish_ok hfinish, Except.isOk, Except.toBool]
  | link source r target =>
    simp only [Call.needs, List.forall_mem_cons, List.not_mem_nil, false_implies, implies_true,
      and_true]
    have hlink := t.link_of_contains source r target
    cases hsource : t.contains source <;> cases htarget : t.contains target <;>
      simp only [hsource, htarget, Bool.false_eq_true, if_true, if_false] at hlink
    · simp [call_link_error hlink, Except.isOk, Except.toBool]
    · simp [call_link_error hlink, Except.isOk, Except.toBool]
    · simp [call_link_error hlink, Except.isOk, Except.toBool]
    · simp [call_link_ok hlink, Except.isOk, Except.toBool]

/-- What a call does: it begins an activity, records an observation, ends an activity in its place,
adds an edge, or fails. -/
inductive Does (t : Twin α) : Call α → Except ExecutionError (Option UInt64) × Twin α → Prop where
  | begins {kind : ActivityKind} {description agent : String} :
    Does t (.begin kind description agent)
      (.ok (some (t.begin kind description agent).1), (t.begin kind description agent).2)
  | records {o : Observation α} : Does t (.record o) (.ok none, t.record o)
  | finishes {a : Activity} {status : Status} : t.contains (.activity a.id) = true →
    t.finish a.id status = .ok (t.put (.activity a)) →
    Does t (.finish a.id status) (.ok none, t.put (.activity a))
  | links {e : Edge} : t.link e.source e.relationship e.target = .ok (t.connect e) →
    Does t (.link e.source e.relationship e.target) (.ok none, t.connect e)
  | fails {c : Call α} {e : ExecutionError} : (∀ number, c.keys number = []) → c.begins = false →
    c.observation? = none → Does t c (.error e, t)

theorem call_does (t : Twin α) (c : Call α) : t.Does c (t.call c) := by
  cases c with
  | begin kind description agent => exact .begins
  | record o => exact .records
  | finish id status =>
    cases hfinish : t.finish id status with
    | error e =>
      rw [call_finish_error hfinish]
      exact .fails (fun _ => rfl) rfl rfl
    | ok t' =>
      obtain ⟨hold, a, rfl, rfl⟩ := finish_ok hfinish
      rw [call_finish_ok hfinish]
      exact .finishes hold hfinish
  | link source r target =>
    cases hlink : t.link source r target with
    | error e =>
      rw [call_link_error hlink]
      exact .fails (fun _ => rfl) rfl rfl
    | ok t' =>
      obtain ⟨-, -, rfl⟩ := link_eq hlink
      rw [call_link_ok hlink]
      exact .links (e := ⟨source, r, target⟩) hlink

theorem Stable.call {P : Twin α → Prop} (h : Stable P) (hP : P t) (c : Call α) :
    P (t.call c).2 := by
  have hdoes := t.call_does c
  generalize t.call c = x at hdoes ⊢
  cases hdoes with
  | begins => exact h.begin _ _ _ hP
  | records => exact h.record _ hP
  | finishes _ hfinish => exact h.finish hP hfinish
  | links hlink => exact h.link hP hlink
  | fails => exact hP

theorem Stable.after {P : Twin α → Prop} (h : Stable P) (hP : P t) (calls : List (Call α)) :
    P (t.after calls) := by
  induction calls generalizing t with
  | nil => exact hP
  | cons c calls ih => exact ih (h.call hP c)

/-- A call adds the keys that it records, if the next number is the one it is to give. -/
theorem contains_call {number : Nat} (hnumber : t.nextActivity = .ofNat number) :
    (t.call c).2.contains k = true ↔ t.contains k = true ∨ k ∈ c.keys number := by
  have hdoes := t.call_does c
  generalize t.call c = x at hdoes ⊢
  cases hdoes with
  | begins => rw [Call.keys, ← hnumber, contains_begin_iff]
  | records =>
    rw [record, contains_put_iff, Call.keys, List.mem_singleton, eq_comm (a := k)]
    rfl
  | finishes hold =>
    simp only [Call.keys, contains_put_iff, List.not_mem_nil, or_false]
    exact or_iff_left_of_imp fun hk => hk ▸ hold
  | links => simp [Call.keys, contains_connect]
  | fails hkeys => simp [hkeys]

theorem nextActivity_call (t : Twin α) (c : Call α) :
    (t.call c).2.nextActivity = if c.begins then t.nextActivity + 1 else t.nextActivity := by
  have hdoes := t.call_does c
  generalize t.call c = x at hdoes ⊢
  cases hdoes with
  | begins => exact nextActivity_begin ..
  | records => rfl
  | finishes => exact nextActivity_put _ _
  | links => exact nextActivity_connect _ _
  | fails _ hbegins => rw [hbegins, if_neg Bool.false_ne_true]

theorem observation?_call (t : Twin α) (c : Call α) (i : Identifier) :
    (t.call c).2.observation? i = match c.observation? with
      | some o => if o.id = i then some o else t.observation? i
      | none => t.observation? i := by
  have hdoes := t.call_does c
  generalize t.call c = x at hdoes ⊢
  cases hdoes with
  | begins => exact (Keeps.begin t _ _ _).observation i
  | records => exact observation?_record t _ i
  | finishes => exact (Keeps.put t rfl).observation i
  | links => exact (Keeps.connect t _).observation i
  | fails _ _ hrecords => rw [hrecords]

/-! ## What stays -/

/-- Nodes and edges keep their places. -/
structure Continues (t t' : Twin α) : Prop where
  nodes : t.nodes.map TwinNode.key <+: t'.nodes.map TwinNode.key
  edges : t.edges <+: t'.edges

namespace Continues

theorem refl (t : Twin α) : t.Continues t := ⟨List.prefix_rfl, List.prefix_rfl⟩

theorem trans {t₁ : Twin α} (h : t.Continues t₁) (h' : t₁.Continues t') : t.Continues t' :=
  ⟨h.nodes.trans h'.nodes, h.edges.trans h'.edges⟩

theorem put (t : Twin α) (n : TwinNode α) : t.Continues (t.put n) where
  nodes := by
    rw [Twin.put, keys_putIn]
    split
    · exact List.prefix_rfl
    · exact List.prefix_append _ _
  edges := List.prefix_rfl

theorem connect (t : Twin α) (e : Edge) : t.Continues (t.connect e) where
  nodes := by rw [nodes_connect]
  edges := edges_connect

theorem begin (t : Twin α) (kind : ActivityKind) (description agent : String) :
    t.Continues (t.begin kind description agent).2 := by
  have hnumber : t.Continues { t with nextActivity := t.nextActivity + 1 } :=
    ⟨List.prefix_rfl, List.prefix_rfl⟩
  have hactivity := hnumber.trans (put _ (.activity ⟨t.nextActivity, kind, description, .running⟩))
  unfold Twin.begin
  dsimp only
  split
  · exact hactivity.trans (connect _ _)
  · exact (hactivity.trans (put _ _)).trans (connect _ _)

end Continues

theorem stable_continues (t : Twin α) : Stable t.Continues where
  record o h := h.trans (.put _ _)
  begin kind description agent h := h.trans (.begin _ kind description agent)
  finish h hfinish := by
    obtain ⟨-, a, -, rfl⟩ := finish_ok hfinish
    exact h.trans (.put _ _)
  link h hlink := by
    obtain ⟨-, -, rfl⟩ := link_eq hlink
    exact h.trans (.connect _ _)

/-! ## All calls on a new twin -/

theorem contains_after (calls : List (Call α)) :
    (after {} calls).nextActivity = .ofNat (begun calls + 1) ∧
      ∀ k, (after {} calls).contains k = true ↔ k ∈ recorded calls := by
  induction calls using List.reverseRecOn with
  | nil => exact ⟨rfl, fun k => by simp [after, contains, node?, recorded]⟩
  | append_singleton calls c ih =>
    obtain ⟨hnext, hcontains⟩ := ih
    rw [after_concat, begun_concat, nextActivity_call, hnext]
    refine ⟨?_, fun k => ?_⟩
    · split
      · rw [UInt64.ofNat_add, UInt64.ofNat_add, UInt64.ofNat_add]
        rfl
      · rfl
    · rw [contains_call hnext, hcontains, mem_recorded_concat]

theorem observation?_after (calls : List (Call α)) (i : Identifier) :
    (after {} calls).observation? i = latest? calls i := by
  induction calls using List.reverseRecOn with
  | nil => rfl
  | append_singleton calls c ih => rw [after_concat, observation?_call, latest?_concat, ih]

/-- Activities take the first numbers, one after the other. -/
theorem activity_mem_recorded {id : UInt64} :
    .activity id ∈ recorded calls ↔ ∃ i < begun calls, id = .ofNat (i + 1) := by
  induction calls using List.reverseRecOn with
  | nil => simp [recorded, begun]
  | append_singleton calls c ih =>
    rw [mem_recorded_concat, ih, begun_concat]
    cases c with
    | begin kind description agent =>
      simp only [Call.keys, Call.begins, List.mem_cons, NodeKey.activity.injEq, reduceCtorEq,
        List.not_mem_nil, or_false, if_true]
      constructor
      · rintro (⟨i, hi, rfl⟩ | rfl)
        · exact ⟨i, by omega, rfl⟩
        · exact ⟨begun calls, by omega, rfl⟩
      · rintro ⟨i, hi, rfl⟩
        obtain hi | rfl : i < begun calls ∨ i = begun calls := by omega
        · exact .inl ⟨i, hi, rfl⟩
        · exact .inr rfl
    | _ => simp [Call.keys, Call.begins]

theorem foldl_max_eq {as : List Activity} {n m : UInt64} (hle : ∀ a ∈ as, a.id ≤ m) (hn : n ≤ m)
    (hmem : n = m ∨ ∃ a ∈ as, a.id = m) : as.foldl (fun n a => max n a.id) n = m := by
  have hmax : ∀ n k : UInt64, max n k = if n ≤ k then k else n := fun _ _ => rfl
  induction as generalizing n with
  | nil => simpa using hmem
  | cons a as ih =>
    obtain ⟨ha, has⟩ := List.forall_mem_cons.mp hle
    rw [List.foldl_cons]
    refine ih has ?_ ?_
    · rw [hmax]
      split <;> assumption
    · rw [List.exists_mem_cons_iff] at hmem
      rcases hmem with rfl | rfl | hmem
      · left
        rw [hmax]
        split
        · exact UInt64.le_antisymm ha ‹_›
        · rfl
      · left
        rw [hmax, if_pos hn]
      · exact .inr hmem

theorem maxActivity_eq {m : UInt64} (hle : ∀ id, t.contains (.activity id) = true → id ≤ m)
    (hmem : m = 0 ∨ t.contains (.activity m) = true) : maxActivity t.nodes = m := by
  have hkey : ∀ a ∈ t.nodes.filterMap TwinNode.activity?, t.contains (.activity a.id) = true := by
    intro a ha
    obtain ⟨n, hn, hna⟩ := List.mem_filterMap.mp ha
    cases n with
    | activity b =>
      cases hna
      exact contains_iff.mpr (List.mem_map_of_mem hn)
    | observation o => cases hna
    | agent name => cases hna
  refine foldl_max_eq (fun a ha => hle a.id (hkey a ha)) UInt64.zero_le ?_
  refine hmem.imp Eq.symm fun hm => ?_
  obtain ⟨a, ha, hid⟩ := activity_of_contains hm
  obtain ⟨n, hn, hna⟩ := Option.bind_eq_some_iff.mp ha
  exact ⟨a, List.mem_filterMap.mpr ⟨n, List.mem_of_find?_eq_some hn, hna⟩, hid⟩

/-- A twin holds exactly what some calls on a new one recorded: one node for each key, whose kind
the key tells, the observations as they were recorded last, and edges between these nodes that are
made once. -/
structure Holds (t : Twin α) (calls : List (Call α)) : Prop where
  single : ∀ k ∈ recorded calls, (t.nodes.map TwinNode.key).count k = 1 ∧
    ∃ n, t.node? k = some n ∧ n.key = k
  count : t.nodes.length = (recorded calls).ncard
  observations : ∀ i, t.observation? i = latest? calls i
  edges : t.edges.Nodup
  joined : ∀ e ∈ t.edges, e.source ∈ recorded calls ∧ e.target ∈ recorded calls

theorem sound_after (calls : List (Call α)) : (after {} calls).Sound :=
  stable_sound.after .new calls

theorem holds_after (calls : List (Call α)) : (after {} calls).Holds calls where
  single k hk := by
    have hk : (after {} calls).contains k = true := ((contains_after calls).2 k).mpr hk
    obtain ⟨n, hn⟩ := Option.isSome_iff_exists.mp hk
    exact ⟨List.count_eq_one_of_mem (sound_after calls).keys (contains_iff.mp hk), n, hn,
      key_of_node? hn⟩
  count := by
    have hkeys : recorded calls =
        (((after {} calls).nodes.map TwinNode.key).toFinset : Set NodeKey) := by
      ext k
      rw [← (contains_after calls).2, contains_iff, List.coe_toFinset, Set.mem_ofPred_eq]
    rw [hkeys, Set.ncard_coe_finset, List.toFinset_card_of_nodup (sound_after calls).keys,
      List.length_map]
  observations := observation?_after calls
  edges := (sound_after calls).edges
  joined e he := ⟨((contains_after calls).2 _).mp ((sound_after calls).source e he),
    ((contains_after calls).2 _).mp ((sound_after calls).target e he)⟩

/-- Whatever is called on a new twin, it holds one node for each key ever recorded and no edge
twice. Nothing that it held is lost, and a call that fails, for a key that was not recorded, changes
nothing. It is restored from its snapshot exactly as it is, so what follows is answered alike. -/
theorem restore_after (calls : List (Call α)) (h : begun calls < UInt64.size - 1) :
    (after {} calls).Holds calls ∧
    (∀ before rest, calls = before ++ rest → (after {} before).Continues (after {} calls)) ∧
    (∀ c, (((after {} calls).call c).1.isOk = true ↔ ∀ k ∈ c.needs, k ∈ recorded calls) ∧
      (((after {} calls).call c).1.isOk = false →
        ((after {} calls).call c).2 = after {} calls)) ∧
    ofSnapshot (after {} calls).snapshot = .ok (after {} calls) := by
  obtain ⟨hnext, hcontains⟩ := contains_after calls
  refine ⟨holds_after calls, ?_, fun c => ⟨?_, call_eq_of_error⟩, ?_⟩
  · rintro before rest rfl
    rw [after_append]
    exact (stable_continues _).after (.refl _) rest
  · simp only [call_isOk, hcontains]
  · -- the activities have the numbers up to that of the last one, so the next number follows it
    have hlast : (UInt64.ofNat (begun calls)).toNat = begun calls :=
      UInt64.toNat_ofNat_of_lt' (by omega)
    have hmax : maxActivity (after {} calls).nodes = .ofNat (begun calls) := by
      refine maxActivity_eq (fun id hid => ?_) ?_
      · obtain ⟨i, hi, rfl⟩ := activity_mem_recorded.mp ((hcontains _).mp hid)
        rw [UInt64.le_iff_toNat_le, hlast, UInt64.toNat_ofNat_of_lt' (by omega)]
        exact hi
      · rw [hcontains, activity_mem_recorded]
        cases hbegun : begun calls with
        | zero => exact .inl rfl
        | succ n => exact .inr ⟨n, Nat.lt_succ_self n, rfl⟩
    rw [(sound_after calls).ofSnapshot_snapshot, hmax]
    have hnumber : UInt64.ofNat (begun calls) + 1 = (after {} calls).nextActivity := by
      rw [hnext, UInt64.ofNat_add]
      rfl
    rw [hnumber]

/-- The level of a lake, everywhere. -/
def lakeLevel (level : Int64) : Observation Number :=
  { id := .first
    observable := { concept := ⟨"t:Lake", by decide⟩ }
    scale := .scalar
    coverage := .full .scalar
    value := some (.int level)
    resolved := true }

/-- The lake is observed in a run and once more later on, and an edge from an activity that never
began is refused. -/
def noted : List (Call Number) :=
  [.begin .resolution "run" "a", .record (lakeLevel 1), .begin .contextualization "observe" "a",
    .link (.activity 2) .generated (.observation .first), .finish 2 .succeeded,
    .link (.activity 3) .used (.observation .first), .record (lakeLevel 2)]

theorem restore_after_noted :
    begun noted = 2 ∧ begun noted < UInt64.size - 1 ∧
      (after {} noted).nodes.map TwinNode.key =
        [.activity 1, .agent "a", .observation .first, .activity 2] ∧
      (after {} noted).edges.length = 3 ∧ (after {} noted).Holds noted ∧
      ofSnapshot (after {} noted).snapshot = .ok (after {} noted) := by
  have hfew : begun noted < UInt64.size - 1 := by decide
  obtain ⟨hholds, -, -, hrestore⟩ := restore_after noted hfew
  exact ⟨by decide, hfew, by decide +kernel, by decide +kernel, hholds, hrestore⟩

end Obsplan.Twin
