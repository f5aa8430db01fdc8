import Obsplan.Proofs.Twin.Growth

/-!
# Activities that are ended

Activities are numbered in turn. A twin closes some activities on its way to another one when these
took the next numbers and none of them is running any more, while all others are as they were.
Doing so in turn, or between beginning an activity and ending it, closes activities again.
-/

namespace Obsplan.Twin

variable {α : Type} [Coordinate α] {t t₁ t₂ t' : Twin α} {count count' : Nat} {id : UInt64}
  {k : NodeKey}

/-! ## Looking up activities -/

theorem activity?_put (t : Twin α) (n : TwinNode α) (id : UInt64) :
    (t.put n).activity? id = if n.key = .activity id then n.activity? else t.activity? id := by
  rw [activity?, node?_put]
  split
  · rfl
  · rfl

@[simp] theorem activity?_connect (t : Twin α) (e : Edge) (id : UInt64) :
    (t.connect e).activity? id = t.activity? id := by
  simp [activity?]

theorem activity?_record (t : Twin α) (o : Observation α) (id : UInt64) :
    (t.record o).activity? id = t.activity? id := by
  rw [record, activity?_put, if_neg (by simp [TwinNode.key])]

theorem contains_foldl_connect (es : List Edge) (k : NodeKey) :
    (es.foldl connect t).contains k = t.contains k := by
  induction es generalizing t with
  | nil => rfl
  | cons e es ih => rw [List.foldl_cons, ih, contains, node?_connect, contains]

theorem activity?_foldl_connect (es : List Edge) (id : UInt64) :
    (es.foldl connect t).activity? id = t.activity? id := by
  induction es generalizing t with
  | nil => rfl
  | cons e es ih => rw [List.foldl_cons, ih, activity?_connect]

theorem activity?_begin (t : Twin α) (kind : ActivityKind) (description agent : String)
    (id : UInt64) :
    (t.begin kind description agent).2.activity? id =
      if t.nextActivity = id then some ⟨t.nextActivity, kind, description, .running⟩
      else t.activity? id := by
  unfold begin
  dsimp only
  split
  · rw [activity?_connect, activity?_put]
    simp only [TwinNode.key, NodeKey.activity.injEq, TwinNode.activity?]
    rfl
  · rw [activity?_connect, activity?_put, if_neg (by simp [TwinNode.key]), activity?_put]
    simp only [TwinNode.key, NodeKey.activity.injEq, TwinNode.activity?]
    rfl

theorem id_of_activity? {a : Activity} (h : t.activity? id = some a) : a.id = id := by
  obtain ⟨n, hn, ha⟩ := Option.bind_eq_some_iff.mp h
  have hkey := key_of_node? hn
  cases n with
  | activity b =>
    cases ha
    simpa [TwinNode.key] using hkey
  | observation o => cases ha
  | agent name => cases ha

/-- Ending an activity changes its status only, and no other activity. -/
theorem activity?_finish {status : Status} (h : t.finish id status = .ok t') (id' : UInt64) :
    t'.activity? id' =
      if id = id' then (t.activity? id).map fun a => { a with status } else t.activity? id' := by
  rw [finish_of_activity?] at h
  split at h
  · rename_i a ha
    cases h
    obtain rfl := id_of_activity? ha
    rw [activity?_put, ha]
    simp only [TwinNode.key, NodeKey.activity.injEq]
    rfl
  · cases h

theorem contains_finish {status : Status} (h : t.finish id status = .ok t')
    (hk : t.contains k = true) : t'.contains k = true := by
  rw [finish_of_activity?] at h
  split at h
  · cases h
    rw [contains_put, hk, Bool.or_true]
  · cases h

/-! ## The next numbers -/

/-- The numbers that the next activities take. -/
def numbers (t : Twin α) (count : Nat) : List UInt64 :=
  (List.range count).map fun k => t.nextActivity + UInt64.ofNat k

theorem numbers_add (hnext : t₁.nextActivity = t.nextActivity + UInt64.ofNat count) :
    t.numbers (count + count') = t.numbers count ++ t₁.numbers count' := by
  unfold numbers
  rw [List.range_add, List.map_append, List.map_map]
  congr 1
  apply List.map_congr_left
  intro k _
  rw [Function.comp_apply, hnext, UInt64.ofNat_add, UInt64.add_assoc]

theorem mem_numbers_add (hnext : t₁.nextActivity = t.nextActivity + UInt64.ofNat count) :
    id ∈ t.numbers (count + count') ↔ id ∈ t.numbers count ∨ id ∈ t₁.numbers count' := by
  rw [numbers_add hnext, List.mem_append]

theorem numbers_one (t : Twin α) : t.numbers 1 = [t.nextActivity] := by
  simp [numbers]

/-! ## Closing -/

/-- So many activities took the next numbers, and none of them is running any more. -/
structure Closes (t : Twin α) (count : Nat) (t' : Twin α) : Prop where
  next : t'.nextActivity = t.nextActivity + UInt64.ofNat count
  contains : ∀ k, t.contains k = true → t'.contains k = true
  closed : ∀ id ∈ t.numbers count, ∃ a, t'.activity? id = some a ∧ a.status ≠ .running
  others : ∀ id, id ∉ t.numbers count → t'.activity? id = t.activity? id

namespace Closes

/-- A step that begins no activity and changes none. -/
theorem still (hnext : t'.nextActivity = t.nextActivity)
    (hcontains : ∀ k, t.contains k = true → t'.contains k = true)
    (hsame : ∀ id, t'.activity? id = t.activity? id) : t.Closes 0 t' where
  next := hnext.trans (UInt64.add_zero _).symm
  contains := hcontains
  closed := by simp [numbers]
  others id _ := hsame id

theorem refl (t : Twin α) : t.Closes 0 t := still rfl (fun _ h => h) fun _ => rfl

theorem record (t : Twin α) (o : Observation α) : t.Closes 0 (t.record o) :=
  still rfl (fun k hk => by rw [Twin.record, contains_put, hk, Bool.or_true])
    (activity?_record t o)

theorem connectAll (t : Twin α) (es : List Edge) : t.Closes 0 (es.foldl connect t) :=
  still (nextActivity_foldl_connect t es)
    (fun k hk => (contains_foldl_connect es k).trans hk) (activity?_foldl_connect es)

theorem link {source target : NodeKey} {r : Relationship}
    (h : t.link source r target = .ok t') : t.Closes 0 t' := by
  obtain ⟨-, -, rfl⟩ := link_eq h
  exact connectAll t [_]

theorem trans (h : t.Closes count t₁) (h' : t₁.Closes count' t') :
    t.Closes (count + count') t' where
  next := by rw [h'.next, h.next, UInt64.ofNat_add, UInt64.add_assoc]
  contains k hk := h'.contains k (h.contains k hk)
  closed id hid := by
    by_cases hlate : id ∈ t₁.numbers count'
    · exact h'.closed id hlate
    · rw [h'.others id hlate]
      exact h.closed id (((mem_numbers_add h.next).mp hid).resolve_right hlate)
  others id hid := by
    rw [mem_numbers_add h.next, not_or] at hid
    exact (h'.others id hid.2).trans (h.others id hid.1)

/-- What is begun, and ended after all in between was closed. -/
theorem bracket {kind : ActivityKind} {description agent : String} {status : Status}
    (h : (t.begin kind description agent).2.Closes count t₁)
    (hfinish : t₁.finish t.nextActivity status = .ok t') (hstatus : status ≠ .running) :
    t.Closes (count + 1) t' := by
  have hnext : (t.begin kind description agent).2.nextActivity =
      t.nextActivity + UInt64.ofNat 1 := nextActivity_begin ..
  have hbegun : t₁.contains (.activity t.nextActivity) = true :=
    h.contains _ (contains_begin ..)
  obtain ⟨own, hown, -⟩ := activity_of_contains hbegun
  have hmem : ∀ id, id ∈ t.numbers (count + 1) ↔ t.nextActivity = id ∨
      id ∈ (t.begin kind description agent).2.numbers count := by
    intro id
    rw [Nat.add_comm, mem_numbers_add hnext, numbers_one, List.mem_singleton, eq_comm]
  constructor
  · rw [nextActivity_finish hfinish, h.next, hnext, UInt64.add_assoc, ← UInt64.ofNat_add,
      Nat.add_comm]
  · exact fun k hk => contains_finish hfinish (h.contains k (Keeps.begin .. |>.contains k hk))
  · intro id hid
    rw [activity?_finish hfinish]
    split
    · exact ⟨_, by rw [hown, Option.map_some], hstatus⟩
    · rename_i hne
      exact h.closed id (((hmem id).mp hid).resolve_left hne)
  · intro id hid
    rw [hmem, not_or] at hid
    rw [activity?_finish hfinish, if_neg hid.1, h.others id hid.2, activity?_begin, if_neg hid.1]

end Closes

end Obsplan.Twin
