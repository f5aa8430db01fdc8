import Obsplan.Proofs.Twin.Sound

/-!
# What a twin gains

Nodes of new keys are put behind those that are there, and so are edges that were not made yet. As
long as the numbers of new activities are free, nothing that was there is replaced.
-/

namespace Obsplan.Twin

variable {α : Type} [Coordinate α] {t t₁ t' : Twin α} {n : TwinNode α} {k : NodeKey}
  {nodes nodes' : List (TwinNode α)} {edges edges' : List Edge} {e : Edge}

/-! ## Nodes among others -/

theorem putIn_append (h : n.key ∉ nodes.map TwinNode.key) (more : List (TwinNode α)) :
    putIn n (nodes ++ more) = nodes ++ putIn n more := by
  induction nodes with
  | nil => rfl
  | cons m ms ih =>
    simp only [List.map_cons, List.mem_cons, not_or] at h
    simp [putIn, Ne.symm h.1, ih h.2]

theorem mem_connect {e' : Edge} : e' ∈ (t.connect e).edges ↔ e' ∈ t.edges ∨ e' = e := by
  unfold connect
  split
  · rename_i he
    exact ⟨.inl, fun h => h.elim id fun heq => heq ▸ he⟩
  · simp

theorem edges_connect : t.edges <+: (t.connect e).edges := by
  unfold connect
  split
  · exact List.prefix_rfl
  · exact List.prefix_append _ _

@[simp] theorem nextActivity_connect (t : Twin α) (e : Edge) :
    (t.connect e).nextActivity = t.nextActivity := by
  unfold connect
  split <;> rfl

@[simp] theorem nextActivity_put (t : Twin α) (n : TwinNode α) :
    (t.put n).nextActivity = t.nextActivity := rfl

@[simp] theorem nextActivity_foldl_connect (t : Twin α) (es : List Edge) :
    (es.foldl connect t).nextActivity = t.nextActivity := by
  induction es generalizing t with
  | nil => rfl
  | cons e es ih => rw [List.foldl_cons, ih, nextActivity_connect]

/-- The agent as a node, unless it is there already. -/
def newAgent (t : Twin α) (agent : String) : List (TwinNode α) :=
  if t.contains (.agent agent) then [] else [.agent agent]

theorem newAgent_of_contains {agent : String} (h : t.contains (.agent agent) = true) :
    t.newAgent agent = [] := if_pos h

theorem mem_newAgent {agent : String} (h : n ∈ t.newAgent agent) : n = .agent agent := by
  unfold newAgent at h
  split at h
  · cases h
  · exact List.mem_singleton.mp h

theorem mem_keys_newAgent {agent : String} (h : k ∈ (t.newAgent agent).map TwinNode.key) :
    k = .agent agent := by
  obtain ⟨n, hn, rfl⟩ := List.mem_map.mp h
  rw [mem_newAgent hn]
  rfl

/-! ## Growing twins -/

/-- A twin has some nodes in addition, and some edges, which may have been there already. -/
structure Grows (t : Twin α) (nodes : List (TwinNode α)) (edges : List Edge) (t' : Twin α) :
    Prop where
  nodes : t'.nodes = t.nodes ++ nodes
  kept : t.edges <+: t'.edges
  edges : ∀ e, e ∈ t'.edges ↔ e ∈ t.edges ∨ e ∈ edges

namespace Grows

theorem refl (t : Twin α) : t.Grows [] [] t :=
  ⟨by simp, List.prefix_rfl, by simp⟩

theorem trans (h : t.Grows nodes edges t₁) (h' : t₁.Grows nodes' edges' t') :
    t.Grows (nodes ++ nodes') (edges ++ edges') t' where
  nodes := by rw [h'.nodes, h.nodes, List.append_assoc]
  kept := h.kept.trans h'.kept
  edges e := by rw [h'.edges, h.edges, List.mem_append, or_assoc]

theorem contains (h : t.Grows nodes edges t') :
    t'.contains k = true ↔ t.contains k = true ∨ k ∈ nodes.map TwinNode.key := by
  rw [contains_iff, contains_iff, h.nodes, List.map_append, List.mem_append]

theorem notContains (h : t.Grows nodes edges t') :
    t'.contains k = false ↔ t.contains k = false ∧ k ∉ nodes.map TwinNode.key := by
  rw [← Bool.not_eq_true, h.contains, not_or, Bool.not_eq_true]

/-- What is new is found among the new nodes. -/
theorem node? (h : t.Grows nodes edges t') (hk : t.contains k = false) :
    t'.node? k = nodes.find? fun m => m.key = k := by
  have hold : t.node? k = none := by simpa [Twin.contains] using hk
  rw [Twin.node?, h.nodes, List.find?_append, ← Twin.node?, hold, Option.none_or]

theorem put (h : t.Grows nodes edges t') (hn : t.contains n.key = false) :
    t.Grows (putIn n nodes) edges (t'.put n) where
  nodes := by
    rw [Bool.eq_false_iff, ne_eq, contains_iff] at hn
    rw [Twin.put, h.nodes, putIn_append hn]
  kept := h.kept
  edges := h.edges

theorem connect (h : t.Grows nodes edges t') (e : Edge) :
    t.Grows nodes (edges ++ [e]) (t'.connect e) where
  nodes := (nodes_connect t' e).trans h.nodes
  kept := h.kept.trans edges_connect
  edges e' := by rw [mem_connect, h.edges, List.mem_append, List.mem_singleton, or_assoc]

theorem connectAll (h : t.Grows nodes edges t') (es : List Edge) :
    t.Grows nodes (edges ++ es) (es.foldl Twin.connect t') := by
  induction es generalizing edges t' with
  | nil => simpa using h
  | cons e es ih => simpa using ih (h.connect e)

/-- A new activity is ended in its place. -/
theorem finish {a : Activity} {status : Status} (h : t.Grows (.activity a :: nodes) edges t₁)
    (hnew : t.contains (.activity a.id) = false) (hfinish : t₁.finish a.id status = .ok t') :
    t.Grows (.activity { a with status } :: nodes) edges t' := by
  have hnode : t₁.node? (.activity a.id) = some (.activity a) := by
    rw [h.node? hnew]
    simp [TwinNode.key]
  have hactivity : t₁.activity? a.id = some a := by
    simp [activity?, hnode, TwinNode.activity?]
  rw [finish_of_activity?, hactivity] at hfinish
  cases hfinish
  simpa [putIn, TwinNode.key] using h.put (n := .activity { a with status }) hnew

/-- The activity and the agent that are new when an activity begins. -/
theorem begin (t : Twin α) (kind : ActivityKind) (description agent : String)
    (hfree : t.contains (.activity t.nextActivity) = false) :
    t.Grows (.activity ⟨t.nextActivity, kind, description, .running⟩ :: t.newAgent agent)
      [⟨.activity t.nextActivity, .associatedWith, .agent agent⟩]
      (t.begin kind description agent).2 := by
  have hnumber : t.Grows [] [] { t with nextActivity := t.nextActivity + 1 } :=
    ⟨by simp, List.prefix_rfl, by simp⟩
  have hactivity := hnumber.put
    (n := .activity ⟨t.nextActivity, kind, description, .running⟩) hfree
  have hsame : (Twin.put { t with nextActivity := t.nextActivity + 1 }
      (.activity ⟨t.nextActivity, kind, description, .running⟩)).contains (.agent agent) =
        t.contains (.agent agent) := by
    rw [contains_put]
    rfl
  unfold Twin.begin newAgent
  dsimp only
  rw [hsame]
  split
  · exact hactivity.connect _
  · rename_i hagent
    exact (hactivity.put (n := .agent agent) (by simpa [TwinNode.key] using hagent)).connect _

theorem contains_agent {agent : String} (h : t.Grows nodes edges t')
    (hsub : t.newAgent agent ⊆ nodes) : t'.contains (.agent agent) = true := by
  rw [h.contains]
  by_cases hknown : t.contains (.agent agent) = true
  · exact .inl hknown
  · rw [newAgent, if_neg hknown] at hsub
    exact .inr (List.mem_map.mpr ⟨_, hsub List.mem_cons_self, rfl⟩)

end Grows

@[simp] theorem nextActivity_begin (t : Twin α) (kind : ActivityKind)
    (description agent : String) :
    (t.begin kind description agent).2.nextActivity = t.nextActivity + 1 := by
  unfold begin
  dsimp only
  split <;> simp

theorem nextActivity_finish {id : UInt64} {status : Status} (h : t.finish id status = .ok t') :
    t'.nextActivity = t.nextActivity := by
  rw [finish_of_activity?] at h
  split at h <;> cases h
  rfl

/-! ## Numbers of activities -/

/-- The next so many numbers of activities are not in use. -/
def Free (t : Twin α) (count : Nat) : Prop :=
  ∀ k < count, t.contains (.activity (t.nextActivity + UInt64.ofNat k)) = false

theorem Free.next {count : Nat} (h : t.Free (count + 1)) :
    t.contains (.activity t.nextActivity) = false := by
  have hzero := h 0 (Nat.succ_pos count)
  rwa [show t.nextActivity + UInt64.ofNat 0 = t.nextActivity from UInt64.add_zero _] at hzero

theorem Free.mono {count count' : Nat} (h : t.Free count) (hle : count' ≤ count) :
    t.Free count' := fun k hk => h k (Nat.lt_of_lt_of_le hk hle)

/-- Once the next number is taken, those after it are still free. -/
theorem Free.taken {count : Nat} (h : t.Free (count + 1)) (hcount : count < UInt64.size)
    (hnext : t'.nextActivity = t.nextActivity + 1)
    (hnew : ∀ id, t'.contains (.activity id) = true →
      t.contains (.activity id) = true ∨ id = t.nextActivity) : t'.Free count := by
  intro k hk
  have hsum : t'.nextActivity + UInt64.ofNat k = t.nextActivity + UInt64.ofNat (k + 1) := by
    rw [hnext, UInt64.add_assoc, UInt64.ofNat_add, UInt64.add_comm 1]
    rfl
  rw [hsum, Bool.eq_false_iff, ne_eq]
  intro hin
  obtain hold | hsame := hnew _ hin
  · rw [h (k + 1) (by omega)] at hold
    cases hold
  · have hzero : UInt64.ofNat (k + 1) = 0 := by simpa using hsame
    have hval := congrArg UInt64.toNat hzero
    rw [UInt64.toNat_ofNat_of_lt' (by omega)] at hval
    cases hval

theorem Free.kept {count : Nat} (h : t.Free count) (hnext : t'.nextActivity = t.nextActivity)
    (hnew : ∀ id, t'.contains (.activity id) = true → t.contains (.activity id) = true) :
    t'.Free count := by
  intro k hk
  rw [hnext, Bool.eq_false_iff, ne_eq]
  intro hin
  exact Bool.eq_false_iff.mp (h k hk) (hnew _ hin)

end Obsplan.Twin
