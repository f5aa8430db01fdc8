import Mathlib.Data.List.Nodup
import Obsplan.Proofs.Twin.Records

/-!
# Twins that can be rebuilt

A twin is made by recording nodes and linking them. So each of its nodes has a key of its own, no
link is made twice, and what is linked is there. Main statements: each way to change a twin keeps
this, and a twin of which it holds is rebuilt from what it holds.
-/

namespace Obsplan

variable {α : Type} [Coordinate α]

/-! ## What recording and linking keep -/

namespace Twin

/-- Nodes have keys of their own, links are made once, and what is linked is there. -/
structure Sound (t : Twin α) : Prop where
  keys : (t.nodes.map TwinNode.key).Nodup
  edges : t.edges.Nodup
  source : ∀ e ∈ t.edges, t.contains e.source = true
  target : ∀ e ∈ t.edges, t.contains e.target = true

variable {t t' : Twin α}

theorem contains_iff {k : NodeKey} : t.contains k = true ↔ k ∈ t.nodes.map TwinNode.key := by
  simp [contains, node?]

theorem keys_putIn (n : TwinNode α) (ns : List (TwinNode α)) :
    (putIn n ns).map TwinNode.key =
      if n.key ∈ ns.map TwinNode.key then ns.map TwinNode.key
      else ns.map TwinNode.key ++ [n.key] := by
  induction ns with
  | nil => rfl
  | cons m ms ih =>
    by_cases hm : m.key = n.key
    · simp [putIn, hm]
    · by_cases hn : n.key ∈ ms.map TwinNode.key <;> simp_all [putIn, Ne.symm hm]

theorem putIn_of_notMem {n : TwinNode α} {ns : List (TwinNode α)}
    (h : n.key ∉ ns.map TwinNode.key) : putIn n ns = ns ++ [n] := by
  induction ns with
  | nil => rfl
  | cons m ms ih =>
    simp only [List.map_cons, List.mem_cons, not_or] at h
    simp [putIn, Ne.symm h.1, ih h.2]

theorem link_eq {source target : NodeKey} {r : Relationship}
    (h : t.link source r target = .ok t') :
    t.contains source = true ∧ t.contains target = true ∧ t' = t.connect ⟨source, r, target⟩ := by
  rw [link_of_contains] at h
  split at h
  · split at h
    · cases h
      exact ⟨‹_›, ‹_›, rfl⟩
    · cases h
  · cases h

namespace Sound

theorem new : Sound ({} : Twin α) where
  keys := List.nodup_nil
  edges := List.nodup_nil
  source _ he := absurd he List.not_mem_nil
  target _ he := absurd he List.not_mem_nil

theorem put (h : t.Sound) (n : TwinNode α) : (t.put n).Sound where
  keys := by
    rw [Twin.put, keys_putIn]
    split
    · exact h.keys
    · rename_i hn
      exact List.concat_eq_append ▸ h.keys.concat hn
  edges := h.edges
  source e he := by simp [contains_put, h.source e he]
  target e he := by simp [contains_put, h.target e he]

theorem connect (h : t.Sound) {e : Edge} (hs : t.contains e.source = true)
    (ht : t.contains e.target = true) : (t.connect e).Sound := by
  unfold Twin.connect
  split
  · exact h
  · rename_i hnew
    refine ⟨h.keys, ?_, ?_, ?_⟩
    · exact List.concat_eq_append ▸ h.edges.concat hnew
    · exact List.forall_mem_append.mpr ⟨h.source, List.forall_mem_singleton.mpr hs⟩
    · exact List.forall_mem_append.mpr ⟨h.target, List.forall_mem_singleton.mpr ht⟩

theorem renumber (h : t.Sound) (n : UInt64) : Sound { t with nextActivity := n } :=
  ⟨h.keys, h.edges, h.source, h.target⟩

theorem link (h : t.Sound) {source target : NodeKey} {r : Relationship}
    (hlink : t.link source r target = .ok t') : t'.Sound := by
  obtain ⟨hs, ht, rfl⟩ := link_eq hlink
  exact h.connect hs ht

theorem begin (h : t.Sound) (kind : ActivityKind) (description agent : String) :
    (t.begin kind description agent).2.Sound := by
  unfold Twin.begin
  dsimp only
  have hactivity := (h.renumber (t.nextActivity + 1)).put
    (.activity ⟨t.nextActivity, kind, description, .running⟩)
  split
  · rename_i hagent
    exact hactivity.connect (by simp [contains_put, TwinNode.key]) hagent
  · exact (hactivity.put (.agent agent)).connect (by simp [contains_put, TwinNode.key])
      (by simp [contains_put, TwinNode.key])

theorem finish (h : t.Sound) {id : UInt64} {status : Status}
    (hfinish : t.finish id status = .ok t') : t'.Sound := by
  rw [finish_of_activity?] at hfinish
  split at hfinish
  · cases hfinish
    exact h.put _
  · cases hfinish

end Sound

/-! ## Rebuilding -/

theorem foldl_put {ns : List (TwinNode α)}
    (h : ((t.nodes ++ ns).map TwinNode.key).Nodup) :
    ns.foldl put t = { t with nodes := t.nodes ++ ns } := by
  induction ns generalizing t with
  | nil => simp
  | cons n ns ih =>
    have hsplit : t.nodes ++ n :: ns = t.nodes ++ [n] ++ ns := by simp
    have hnew : n.key ∉ t.nodes.map TwinNode.key := by
      rw [List.map_append, List.map_cons, List.nodup_append] at h
      exact fun hk => h.2.2 _ hk n.key List.mem_cons_self rfl
    have hput : t.put n = { t with nodes := t.nodes ++ [n] } := by
      rw [put, putIn_of_notMem hnew]
    rw [List.foldl_cons, hput, ih (hsplit ▸ h), hsplit]

theorem linkAll_eq {es : List Edge} (hnodup : (t.edges ++ es).Nodup)
    (hs : ∀ e ∈ es, t.contains e.source = true) (ht : ∀ e ∈ es, t.contains e.target = true) :
    t.linkAll es = .ok { t with edges := t.edges ++ es } := by
  induction es generalizing t with
  | nil => simp [linkAll]
  | cons e es ih =>
    obtain ⟨hsource, hs⟩ := List.forall_mem_cons.mp hs
    obtain ⟨htarget, ht⟩ := List.forall_mem_cons.mp ht
    have hsplit : t.edges ++ e :: es = t.edges ++ [e] ++ es := by simp
    have hnew : e ∉ t.edges := by
      rw [List.nodup_append] at hnodup
      exact fun he => hnodup.2.2 _ he e List.mem_cons_self rfl
    have hlink : t.link e.source e.relationship e.target =
        .ok { t with edges := t.edges ++ [e] } := by
      simp [link_of_contains, hsource, htarget, connect, hnew]
    rw [linkAll, hlink, hsplit]
    exact ih (hsplit ▸ hnodup) hs ht

/-- A sound twin is rebuilt, but for the number of the next activity. -/
theorem Sound.ofSnapshot_snapshot (h : t.Sound) :
    ofSnapshot t.snapshot = .ok { t with nextActivity := maxActivity t.nodes + 1 } := by
  have hnodes : t.nodes.foldl Twin.put ({} : Twin α) = ⟨t.nodes, [], 1⟩ :=
    Twin.foldl_put (t := {}) (by simpa using h.keys)
  have hedges : Twin.linkAll ⟨t.nodes, [], 1⟩ t.edges = .ok ⟨t.nodes, t.edges, 1⟩ :=
    linkAll_eq (by simpa using h.edges) h.source h.target
  rw [ofSnapshot, snapshot]
  dsimp only
  rw [hnodes, hedges]
  rfl

theorem Sound.linkAll {es : List Edge} (hsound : t.Sound) (h : t.linkAll es = .ok t') :
    t'.Sound ∧ t'.nodes = t.nodes := by
  induction es generalizing t with
  | nil =>
    cases h
    exact ⟨hsound, rfl⟩
  | cons e es ih =>
    rw [Twin.linkAll] at h
    cases hlink : t.link e.source e.relationship e.target with
    | error failure =>
      rw [hlink] at h
      cases h
    | ok t₁ =>
      rw [hlink] at h
      obtain ⟨-, -, rfl⟩ := link_eq hlink
      obtain ⟨hsound', hnodes⟩ := ih (hsound.link hlink) h
      exact ⟨hsound', hnodes.trans (nodes_connect t _)⟩

theorem Sound.foldl_put (h : t.Sound) (ns : List (TwinNode α)) : (ns.foldl Twin.put t).Sound := by
  induction ns generalizing t with
  | nil => exact h
  | cons n ns ih => exact ih (h.put n)

theorem putIn_subset (n : TwinNode α) (ns : List (TwinNode α)) : putIn n ns ⊆ n :: ns := by
  induction ns with
  | nil => exact fun _ h => h
  | cons m ms ih =>
    unfold putIn
    split
    · exact List.cons_subset_cons _ (List.subset_cons_self _ _)
    · intro x hx
      rcases List.mem_cons.mp hx with rfl | hx
      · simp
      · rcases List.mem_cons.mp (ih hx) with rfl | hx <;> simp [*]

theorem nodes_foldl_put (t : Twin α) (ns : List (TwinNode α)) :
    (ns.foldl put t).nodes ⊆ t.nodes ++ ns := by
  induction ns generalizing t with
  | nil => simp
  | cons n ns ih =>
    intro x hx
    rcases List.mem_append.mp (ih (t.put n) hx) with hx | hx
    · rcases List.mem_cons.mp (putIn_subset n t.nodes hx) with rfl | hx <;> simp [*]
    · simp [hx]

/-- What is built from a snapshot is sound, and holds nothing else. -/
theorem Sound.of_ofSnapshot {s : Snapshot α} (h : ofSnapshot s = .ok t) :
    t.Sound ∧ t.nodes ⊆ s.nodes := by
  unfold ofSnapshot at h
  dsimp only at h
  cases hlinks : (s.nodes.foldl Twin.put ({} : Twin α)).linkAll s.edges with
  | error e =>
    rw [hlinks] at h
    cases h
  | ok t₁ =>
    rw [hlinks] at h
    cases h
    obtain ⟨hsound, hnodes⟩ := (new.foldl_put s.nodes).linkAll hlinks
    refine ⟨hsound.renumber _, ?_⟩
    simpa [hnodes] using nodes_foldl_put {} s.nodes

end Twin

end Obsplan
