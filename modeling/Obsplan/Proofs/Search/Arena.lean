import Obsplan.Proofs.Search.Steps

/-!
# The nodes of a search

Nodes are numbered in the order in which they are made, and refer to earlier ones only. Whatever a
part of the search does, the nodes that were there before stay, the path is left as it was found,
and no kept branch refers to a node that was dropped.
-/

namespace Obsplan

variable {α : Type} [Coordinate α] {nodes nodes' : List (Node α)}

/-- A node refers to another one. -/
def Refers (nodes : List (Node α)) (i j : Nat) : Prop := ∃ n, nodes[i]? = some n ∧ j ∈ n.children

/-- Nodes are numbered in order and refer to earlier ones only. -/
structure Ordered (nodes : List (Node α)) : Prop where
  numbered : ∀ {i : Nat} {n : Node α}, nodes[i]? = some n → n.id = i
  descending : ∀ {i j : Nat}, Refers nodes i j → j < i

theorem getElem?_extend {i : Nat} {n : Node α} (h : nodes <+: nodes')
    (hn : nodes[i]? = some n) : nodes'[i]? = some n := by
  obtain ⟨more, rfl⟩ := h
  rw [List.getElem?_append_left (List.getElem?_eq_some_iff.mp hn).1, hn]

theorem getElem?_push {i : Nat} {n m : Node α} (h : (nodes ++ [n])[i]? = some m) :
    nodes[i]? = some m ∨ i = nodes.length ∧ m = n := by
  rcases Nat.lt_trichotomy i nodes.length with hi | hi | hi
  · exact .inl (by rwa [List.getElem?_append_left hi] at h)
  · subst hi
    rw [List.getElem?_concat_length, Option.some.injEq] at h
    exact .inr ⟨rfl, h.symm⟩
  · rw [List.getElem?_eq_none (by simp; omega)] at h
    cases h

theorem Refers.lt_length {i j : Nat} (h : Refers nodes i j) : i < nodes.length := by
  obtain ⟨n, hn, -⟩ := h
  exact (List.getElem?_eq_some_iff.mp hn).1

theorem Refers.extend {i j : Nat} (h : nodes <+: nodes') (hr : Refers nodes i j) :
    Refers nodes' i j := by
  obtain ⟨n, hn, hj⟩ := hr
  exact ⟨n, getElem?_extend h hn, hj⟩

theorem Ordered.nil : Ordered ([] : List (Node α)) :=
  ⟨by simp, fun h => by simpa using h.lt_length⟩

theorem Ordered.restrict (h : nodes <+: nodes') (ho : Ordered nodes') : Ordered nodes :=
  ⟨fun hn => ho.numbered (getElem?_extend h hn), fun hr => ho.descending (hr.extend h)⟩

theorem Ordered.push {n : Node α} (ho : Ordered nodes) (hid : n.id = nodes.length)
    (hn : ∀ j ∈ n.children, j < nodes.length) : Ordered (nodes ++ [n]) where
  numbered {i m} hm := by
    rcases getElem?_push hm with hm | ⟨rfl, rfl⟩
    · exact ho.numbered hm
    · exact hid
  descending {i j} hr := by
    obtain ⟨m, hm, hj⟩ := hr
    rcases getElem?_push hm with hm | ⟨rfl, rfl⟩
    · exact ho.descending ⟨m, hm, hj⟩
    · exact hn j hj

namespace Search

variable {s s₁ s' : SearchState α} {out out₁ : List Nat}

/-- The nodes are in order, and kept branches refer to nodes that are there. -/
structure Sound (s : SearchState α) : Prop where
  ordered : Ordered s.nodes
  kept : ∀ e ∈ s.resolved.entries, ∀ i ∈ e.2.nodes, i < s.nodes.length

/-- A part of the search only adds nodes, and what it found is among the nodes. -/
structure Extends (s s' : SearchState α) (out : List Nat) : Prop where
  sound : Sound s'
  nodes : s.nodes <+: s'.nodes
  path : s'.path = s.path
  found : ∀ i ∈ out, i < s'.nodes.length

namespace Extends

theorem refl (hs : Sound s) : Extends s s [] := ⟨hs, List.prefix_rfl, rfl, by simp⟩

theorem trans (h : Extends s s₁ out) (h₁ : Extends s₁ s' out₁) : Extends s s' (out ++ out₁) where
  sound := h₁.sound
  nodes := h.nodes.trans h₁.nodes
  path := h₁.path.trans h.path
  found i hi := by
    rcases List.mem_append.mp hi with hi | hi
    · exact Nat.lt_of_lt_of_le (h.found i hi) h₁.nodes.length_le
    · exact h₁.found i hi

theorem found_append (h : Extends s s' out) {accepted : List Nat}
    (ha : ∀ i ∈ accepted, i < s.nodes.length) : ∀ i ∈ accepted ++ out, i < s'.nodes.length := by
  intro i hi
  rcases List.mem_append.mp hi with hi | hi
  · exact Nat.lt_of_lt_of_le (ha i hi) h.nodes.length_le
  · exact h.found i hi

theorem forget (h : Extends s s' out) : Extends s s' [] := ⟨h.sound, h.nodes, h.path, by simp⟩

/-- Notifications and the clock do not matter. -/
theorem congr (h : Extends s s₁ out) (hn : s'.nodes = s₁.nodes) (hp : s'.path = s₁.path)
    (hr : s'.resolved = s₁.resolved) : Extends s s' out := by
  obtain ⟨⟨ho, hk⟩, hpre, hpath, hf⟩ := h
  exact ⟨⟨hn ▸ ho, by rwa [hr, hn]⟩, hn ▸ hpre, hp.trans hpath, by rwa [hn]⟩

theorem push (hs : Sound s) {o : Observable} {scale : Scale α} {means : Means α}
    {coverage : Coverage α} {links : List Link}
    (hl : ∀ i ∈ links.flatMap Link.nodes, i < s.nodes.length) :
    Extends s (s.push o scale means coverage links).2 [s.nodes.length] where
  sound := ⟨hs.ordered.push rfl hl, fun e he i hi => by
    have := hs.kept e he i hi
    simp; omega⟩
  nodes := List.prefix_append _ _
  path := rfl
  found := by simp

/-- A rollback leads back to the nodes from which a trial started. -/
theorem nodes_rollback (h : Extends s s₁ out) :
    (s₁.rollback s.nodes.length).nodes = s.nodes := by
  rw [SearchState.nodes_rollback, ← List.prefix_iff_eq_take.mp h.nodes]

theorem rollback (h : Extends s s₁ out) : Extends s (s₁.rollback s.nodes.length) [] := by
  have hnodes := h.nodes_rollback
  refine ⟨⟨?_, ?_⟩, ⟨[], by rw [List.append_nil, hnodes]⟩, by simp [h.path], by simp⟩
  · rw [hnodes]; exact h.sound.ordered.restrict h.nodes
  · intro e he i hi
    obtain ⟨hk, hlt⟩ := SearchState.mem_resolved_rollback he
    rw [hnodes]
    by_cases hlen : s.nodes.length < s₁.nodes.length
    · exact hlt hlen i hi
    · have := h.sound.kept e hk i hi
      omega

end Extends

/-! ## What the parts of the search do to the nodes -/

/-- A searcher that extends the nodes by what it finds. -/
def Extending (deeper : Searcher α) : Prop :=
  ∀ {o : Observable} {ctx : Context α} {s s' : SearchState α} {b : Branch α}, Sound s →
    deeper o ctx s = .ok (b, s') → Extends s s' b.nodes

variable {deeper : Searcher α} {m : Model α} {o : Observable} {ctx : Context α} {c : Candidate α}

theorem linkStep_extends (hdeep : Extending deeper) (hs : Sound s) {d : Dependency α}
    {coverage : Coverage α} {res : Option (Link × Coverage α)}
    (h : LinkStep deeper m ctx d coverage s res s') :
    Extends s s' (res.elim [] fun r => r.1.nodes) := by
  cases h with
  | deferred => exact .push hs (by simp)
  | found _ hb _ => exact hdeep hs hb
  | @missing _ s₁ n _ _ _ hb hn _ =>
    have he := hdeep hs hb
    rw [hn] at he
    have he : Extends s (s₁.notify n) [] := he.congr rfl rfl rfl
    exact he.trans (.push he.sound (by simp))
  | refused _ hb => exact (hdeep hs hb).forget.congr rfl rfl rfl

theorem linkRun_extends (hdeep : Extending deeper) (hs : Sound s) {ds : List (Dependency α)}
    {coverage : Coverage α} {res : Option (List Link × Coverage α)}
    (h : LinkRun deeper m o ctx ds coverage s res s') :
    Extends s s' (res.elim [] fun r => r.1.flatMap Link.nodes) := by
  induction h with
  | nil => exact .refl hs
  | cons hstep _ ih =>
    have he := linkStep_extends hdeep hs hstep
    exact he.trans (ih he.sound)
  | refused hstep => exact linkStep_extends hdeep hs hstep
  | refusedLater hstep _ ih =>
    have he := linkStep_extends hdeep hs hstep
    exact he.forget.trans (ih he.sound)

theorem trial_extends (hdeep : Extending deeper) (hs : Sound s) {res : Option (Nat × Coverage α)}
    (h : Trial deeper o ctx c s res s') : Extends s s' (res.elim [] fun r => [r.1]) := by
  cases h with
  | refused hrun => exact linkRun_extends hdeep hs hrun
  | uncovered hrun => exact (linkRun_extends hdeep hs hrun).forget.congr rfl rfl rfl
  | made hrun _ =>
    have he := linkRun_extends hdeep hs hrun
    exact he.forget.trans (.push he.sound he.found)

theorem Sound.look {limits : Limits α} (hs : Sound s) : Extends s (s.look limits).2 [] :=
  (Extends.refl hs).congr (s.nodes_look limits) (s.path_look limits) (s.resolved_look limits)

theorem tryRun_extends {limits : Limits α} (hdeep : Extending deeper) (hs : Sound s)
    {cs : List (Candidate α)} {accepted : List Nat} {covered : Coverage α}
    {res : List Nat × Coverage α} (ha : ∀ i ∈ accepted, i < s.nodes.length)
    (h : TryRun limits deeper o ctx cs accepted covered s res s') : Extends s s' res.1 := by
  induction h with
  | nil => exact ⟨hs, List.prefix_rfl, rfl, ha⟩
  | complete => exact ⟨hs, List.prefix_rfl, rfl, ha⟩
  | @late _ _ _ s _ => exact { hs.look with found := by simpa using ha }
  | @skipped _ _ _ _ s _ _ _ _ _ ih =>
    have he : Extends s (s.look limits).2 [] := hs.look
    exact he.trans (ih he.sound (by simpa using ha))
  | @dropped _ _ _ _ s _ _ _ _ _ _ htrial _ _ ih =>
    have he := (hs.look.trans (trial_extends hdeep hs.look.sound htrial)).rollback
    exact he.trans (ih he.sound (by simpa using he.found_append ha))
  | @accepted _ _ _ _ _ id s s₁ _ _ _ _ htrial _ _ ih =>
    have he : Extends s s₁ [id] := hs.look.trans (trial_extends hdeep hs.look.sound htrial)
    exact he.forget.trans (ih he.sound (he.found_append ha))

theorem entered_sound {limits : Limits α} {found : Candidates α} (hs : Sound s) :
    Sound (entered limits o ctx found s) :=
  ⟨by simpa [entered] using hs.ordered, by simpa [entered] using hs.kept⟩

/-- A branch is put on the path only while it is searched. -/
theorem branchStep_extends {sources : Sources α} {limits : Limits α} {remaining : Nat}
    {b : Branch α} (hdeep : ∀ n < remaining, Extending (branch sources limits n)) (hs : Sound s)
    (h : BranchStep sources limits remaining o ctx s b s') : Extends s s' b.nodes := by
  cases h with
  | cycle => exact (Extends.refl hs).congr rfl rfl rfl
  | tooDeep => exact (Extends.refl hs).congr rfl rfl rfl
  | kept _ hk =>
    refine ⟨hs, List.prefix_rfl, rfl, fun i hi => ?_⟩
    simp only [kept?] at hk
    split at hk
    · exact hs.kept _ (Keyed.mem_of_get? hk) i hi
    · cases hk
  | late => exact hs.look
  | @searched remaining _ _ s s₁ found accepted covered _ _ _ hrun =>
    have he := tryRun_extends (hdeep remaining (by omega)) (entered_sound hs) (by simp) hrun
    refine ⟨⟨?_, ?_⟩, ?_, ?_, ?_⟩
    · simpa [left] using he.sound.ordered
    · intro e hmem i hi
      simp only [left, nodes_conclude, resolved_conclude] at hmem ⊢
      split at hmem
      · rcases Keyed.mem_insert hmem with rfl | hmem
        · exact he.found i (by simpa using hi)
        · exact he.sound.kept e hmem i hi
      · exact he.sound.kept e hmem i hi
    · simpa [left, entered] using he.nodes
    · simp [left, he.path, entered]
    · simpa [left] using he.found

theorem branch_extends (sources : Sources α) (limits : Limits α) (remaining : Nat) :
    Extending (branch sources limits remaining) := by
  induction remaining using Nat.strongRecOn with
  | ind remaining ih => exact fun hs h => branchStep_extends ih hs (branchStep h)

theorem Sound.start : Sound ({} : SearchState α) := ⟨.nil, by simp [Keyed.empty]⟩

end Search

end Obsplan
