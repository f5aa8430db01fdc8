import Obsplan.Proofs.Edit.Atomic
import Obsplan.Twin.Basic

/-!
# What a twin holds after a step

Recording replaces the node of the same key and leaves all others. Activities and links change no
observation, and they are never refused for what is in the twin.
-/

namespace Obsplan.Twin

variable {α : Type} [Coordinate α] {t t₁ t' : Twin α} {n : TwinNode α} {k : NodeKey}
  {o : Observation α} {i : Identifier}

/-! ## Nodes -/

theorem find?_putIn (n : TwinNode α) (k : NodeKey) (ns : List (TwinNode α)) :
    (putIn n ns).find? (fun m => m.key = k) =
      if n.key = k then some n else ns.find? fun m => m.key = k := by
  induction ns with
  | nil => by_cases hk : n.key = k <;> simp [putIn, hk]
  | cons m ms ih =>
    by_cases hm : m.key = n.key
    · by_cases hk : n.key = k <;> simp [putIn, hm, hk]
    · by_cases hk : n.key = k
      · have hmk : m.key ≠ k := fun h => hm (h.trans hk.symm)
        simp [putIn, hk, hmk, ih]
      · simp [putIn, hm, hk, List.find?_cons, ih]

theorem node?_put (t : Twin α) (n : TwinNode α) (k : NodeKey) :
    (t.put n).node? k = if n.key = k then some n else t.node? k := find?_putIn n k t.nodes

theorem key_of_node? (h : t.node? k = some n) : n.key = k := by
  simpa using List.find?_some h

@[simp] theorem nodes_connect (t : Twin α) (e : Edge) : (t.connect e).nodes = t.nodes := by
  unfold connect
  split <;> rfl

@[simp] theorem node?_connect (t : Twin α) (e : Edge) : (t.connect e).node? k = t.node? k := by
  simp [node?]

theorem contains_put (t : Twin α) (n : TwinNode α) :
    (t.put n).contains k = (decide (n.key = k) || t.contains k) := by
  by_cases hk : n.key = k <;> simp [contains, node?_put, hk]

theorem contains_record (t : Twin α) (o : Observation α) :
    (t.record o).contains (.observation o.id) = true := by
  simp [record, contains_put, TwinNode.key]

theorem observation?_record (t : Twin α) (o : Observation α) (i : Identifier) :
    (t.record o).observation? i = if o.id = i then some o else t.observation? i := by
  by_cases hi : o.id = i <;>
    simp [observation?, record, node?_put, TwinNode.key, TwinNode.observation?, hi]

theorem activity_of_contains {id : UInt64} (h : t.contains (.activity id) = true) :
    ∃ a, t.activity? id = some a ∧ a.id = id := by
  obtain ⟨n, hn⟩ := Option.isSome_iff_exists.mp h
  have hkey := key_of_node? hn
  cases n with
  | observation o => cases hkey
  | agent name => cases hkey
  | activity a =>
    simp only [TwinNode.key, NodeKey.activity.injEq] at hkey
    exact ⟨a, by simp [activity?, hn, TwinNode.activity?], hkey⟩

/-! ## Edits -/

theorem on_lookUp (t : Twin α) (k : NodeKey) : (lookUp k).on t =
    if t.contains k then (.ok ⟨⟩, t) else (.error (missing k), t) := by
  rw [lookUp, Edit.on_bind_ok (Edit.on_get t)]
  cases t.contains k <;> rfl

/-- Both nodes are looked up before anything is changed. -/
theorem link_of_contains (t : Twin α) (source : NodeKey) (r : Relationship) (target : NodeKey) :
    t.link source r target =
      if t.contains source then
        if t.contains target then .ok (t.connect ⟨source, r, target⟩) else .error (missing target)
      else .error (missing source) := by
  rw [link, Edit.made, linking, Edit.on_bind, on_lookUp]
  cases t.contains source with
  | false => rfl
  | true =>
    rw [if_pos rfl, if_pos rfl]
    dsimp only
    rw [Edit.on_bind, on_lookUp]
    cases t.contains target <;> rfl

theorem finish_of_activity? (t : Twin α) (id : UInt64) (status : Status) :
    t.finish id status = match t.activity? id with
      | some a => .ok (t.put (.activity { a with status }))
      | none => .error (missing (.activity id)) := by
  rw [finish, Edit.made, finishing, Edit.on_bind_ok (Edit.on_get t)]
  cases t.activity? id <;> rfl

theorem reads_lookUp (k : NodeKey) :
    Edit.Reads (lookUp k : Edit (Twin α) ExecutionError PUnit) :=
  .bind .get fun t => by
    split
    · exact .pure _
    · exact .throw _

theorem atomic_linking (source : NodeKey) (r : Relationship) (target : NodeKey) :
    Edit.Atomic (linking source r target : Edit (Twin α) ExecutionError PUnit) :=
  .bind (reads_lookUp _) fun _ => .bind (reads_lookUp _) fun _ => .of_sure (.modify _)

theorem atomic_finishing (id : UInt64) (status : Status) :
    Edit.Atomic (finishing id status : Edit (Twin α) ExecutionError PUnit) :=
  .bind .get fun t => by
    split
    · exact .of_sure (.modify _)
    · exact .of_reads (.throw _)

/-- What a twin refuses is a key that was never recorded. -/
theorem link_error {source target : NodeKey} {r : Relationship} {e : ExecutionError}
    (h : t.link source r target = .error e) : ∃ k, e = missing k := by
  rw [link_of_contains] at h
  split at h
  · split at h
    · cases h
    · exact ⟨target, (Except.error.inj h).symm⟩
  · exact ⟨source, (Except.error.inj h).symm⟩

theorem finish_error {id : UInt64} {status : Status} {e : ExecutionError}
    (h : t.finish id status = .error e) : ∃ k, e = missing k := by
  rw [finish_of_activity?] at h
  split at h
  · cases h
  · exact ⟨_, (Except.error.inj h).symm⟩

/-! ## Steps that change no observation -/

/-- All that a twin holds is held after a step as well, and the observations are the same. -/
structure Keeps (t t' : Twin α) : Prop where
  contains : ∀ k, t.contains k = true → t'.contains k = true
  observation : ∀ i, t'.observation? i = t.observation? i

namespace Keeps

theorem refl (t : Twin α) : t.Keeps t := ⟨fun _ h => h, fun _ => rfl⟩

theorem trans (h : t.Keeps t₁) (h' : t₁.Keeps t') : t.Keeps t' where
  contains k hk := h'.contains k (h.contains k hk)
  observation i := (h'.observation i).trans (h.observation i)

theorem put (t : Twin α) (hn : n.observation? = none) : t.Keeps (t.put n) where
  contains k hk := by simp [contains_put, hk]
  observation i := by
    have hkey : n.key ≠ .observation i := by
      intro hkey
      cases n <;> cases hkey
      cases hn
    simp [observation?, node?_put, hkey]

theorem of_nodes (h : t'.nodes = t.nodes) : t.Keeps t' where
  contains k hk := by simpa [Twin.contains, node?, h] using hk
  observation i := by simp [observation?, node?, h]

theorem connect (t : Twin α) (e : Edge) : t.Keeps (t.connect e) := of_nodes (nodes_connect t e)

theorem begin (t : Twin α) (kind : ActivityKind) (description agent : String) :
    t.Keeps (t.begin kind description agent).2 := by
  have hnumber : t.Keeps { t with nextActivity := t.nextActivity + 1 } := of_nodes rfl
  refine hnumber.trans ((put _ (n := .activity ⟨t.nextActivity, kind, description, .running⟩)
    rfl).trans ?_)
  unfold Twin.begin
  dsimp only
  split
  · exact connect _ _
  · exact (put _ rfl).trans (connect _ _)

end Keeps

theorem contains_of_observation? (h : t.observation? i = some o) :
    t.contains (.observation i) = true := by
  obtain ⟨n, hn, -⟩ := Option.bind_eq_some_iff.mp h
  simp [contains, hn]

theorem contains_begin (t : Twin α) (kind : ActivityKind) (description agent : String) :
    (t.begin kind description agent).2.contains
      (.activity (t.begin kind description agent).1) = true := by
  unfold begin
  dsimp only
  split <;> simp [contains, node?_put, TwinNode.key]

/-- An activity that was begun can be ended. -/
theorem exists_finish {id : UInt64} (h : t.contains (.activity id) = true) (status : Status) :
    ∃ t', t.finish id status = .ok t' ∧ t.Keeps t' := by
  obtain ⟨a, ha, -⟩ := activity_of_contains h
  exact ⟨_, by rw [finish_of_activity?, ha], .put t rfl⟩

/-- What is in the twin can be linked. -/
theorem exists_link {source target : NodeKey} (hs : t.contains source = true)
    (ht : t.contains target = true) (r : Relationship) :
    ∃ t', t.link source r target = .ok t' ∧ t.Keeps t' :=
  ⟨t.connect ⟨source, r, target⟩, by simp [link_of_contains, hs, ht], .connect t _⟩

/-! ## Steps that record an observation -/

/-- An observation is recorded, and no other one is changed. -/
def Gains (t : Twin α) (o : Observation α) (t' : Twin α) : Prop :=
  ∃ t₁, t.Keeps t₁ ∧ (t₁.record o).Keeps t'

namespace Gains

theorem contains (h : t.Gains o t') (hk : t.contains k = true) : t'.contains k = true := by
  obtain ⟨t₁, h₁, h'⟩ := h
  exact h'.contains k (by simp [record, contains_put, h₁.contains k hk])

theorem contains_gained (h : t.Gains o t') : t'.contains (.observation o.id) = true := by
  obtain ⟨t₁, -, h'⟩ := h
  exact h'.contains _ (contains_record t₁ o)

theorem observation (h : t.Gains o t') (i : Identifier) :
    t'.observation? i = if o.id = i then some o else t.observation? i := by
  obtain ⟨t₁, h₁, h'⟩ := h
  rw [h'.observation, observation?_record, h₁.observation]

theorem keeps (h : t.Gains o t₁) (h' : t₁.Keeps t') : t.Gains o t' := by
  obtain ⟨t₂, h₂, h₁⟩ := h
  exact ⟨t₂, h₂, h₁.trans h'⟩

end Gains

end Obsplan.Twin
