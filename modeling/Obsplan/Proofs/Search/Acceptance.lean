import Obsplan.Proofs.Search.Provenance

/-!
# The order of links

The links of a node follow the declarations of its model, and the nodes of a link are in the order
in which they were accepted: a node is numbered when it is accepted, so their numbers ascend.
-/

namespace Obsplan

variable {α : Type} [Coordinate α]

/-- The nodes of every link ascend. -/
def Node.Ascends (n : Node α) : Prop := ∀ l ∈ n.links, l.nodes.Pairwise (· < ·)

/-- There is one link for every dependency that the model of a node declares, in their order. -/
def Node.Declares (n : Node α) : Prop :=
  ∀ m, n.means = .model m → n.links.map Link.observable = m.dependencies.map Dependency.observable

namespace Search

variable {sources : Sources α} {root : Context α} {nodes : List (Node α)} {s s' : SearchState α}

/-! ## Declarations -/

theorem LinkedAll.observables {m : Model α} {ctx : Context α} {ds : List (Dependency α)}
    {coverage coverage' : Coverage α} {links : List Link}
    (h : LinkedAll sources root nodes m ctx ds coverage links coverage') :
    links.map Link.observable = ds.map Dependency.observable := by
  induction h with
  | nil => rfl
  | cons hl _ ih =>
    rw [List.map_cons, List.map_cons, ih]
    cases hl <;> rfl

theorem Made.declares {n : Node α} (h : Made sources root nodes n) : n.Declares := by
  cases h with
  | standIn _ hs =>
    intro m hm
    cases hs <;> cases hm
  | model _ _ hl _ =>
    rintro m ⟨⟩
    exact hl.observables

/-! ## Acceptance -/

/-- Linked and kept nodes ascend. -/
structure InOrder (s : SearchState α) : Prop where
  linked : ∀ n ∈ s.nodes, n.Ascends
  kept : ∀ e ∈ s.resolved.entries, e.2.nodes.Pairwise (· < ·)

namespace InOrder

theorem congr (h : InOrder s) (hn : s'.nodes = s.nodes) (hr : s'.resolved = s.resolved) :
    InOrder s' := ⟨hn ▸ h.linked, hr ▸ h.kept⟩

theorem push (h : InOrder s) {o : Observable} {scale : Scale α} {means : Means α}
    {coverage : Coverage α} {links : List Link} (hl : ∀ l ∈ links, l.nodes.Pairwise (· < ·)) :
    InOrder (s.push o scale means coverage links).2 where
  linked n hn := by
    rcases List.mem_append.mp hn with hn | hn
    · exact h.linked n hn
    · exact List.mem_singleton.mp hn ▸ hl
  kept := h.kept

theorem rollback (h : InOrder s) (checkpoint : Nat) : InOrder (s.rollback checkpoint) where
  linked n hn := by
    rw [SearchState.nodes_rollback] at hn
    exact h.linked n (List.mem_of_mem_take hn)
  kept e he := h.kept e (SearchState.mem_resolved_rollback he).1

end InOrder

/-- A searcher that finds nodes in order. -/
def KeepsOrder (deeper : Searcher α) : Prop :=
  ∀ {o : Observable} {ctx : Context α} {s s' : SearchState α} {b : Branch α}, Sound s →
    InOrder s → deeper o ctx s = .ok (b, s') → InOrder s' ∧ b.nodes.Pairwise (· < ·)

variable {deeper : Searcher α} {m : Model α} {o : Observable} {ctx : Context α} {c : Candidate α}

theorem linkStep_inOrder (hkeep : KeepsOrder deeper) (hs : Sound s) (hi : InOrder s)
    {d : Dependency α} {coverage : Coverage α} {res : Option (Link × Coverage α)}
    (h : LinkStep deeper m ctx d coverage s res s') :
    InOrder s' ∧ ∀ r ∈ res, r.1.nodes.Pairwise (· < ·) := by
  cases h with
  | deferred =>
    refine ⟨hi.push (by simp), ?_⟩
    rintro _ ⟨⟩
    exact List.pairwise_singleton _ _
  | found _ hb _ =>
    obtain ⟨hi', hasc⟩ := hkeep hs hi hb
    refine ⟨hi', ?_⟩
    rintro _ ⟨⟩
    exact hasc
  | @missing _ s₁ n _ _ _ hb _ _ =>
    have hi₁ : InOrder (s₁.notify n) := (hkeep hs hi hb).1.congr rfl rfl
    refine ⟨hi₁.push (by simp), ?_⟩
    rintro _ ⟨⟩
    exact List.pairwise_singleton _ _
  | refused _ hb => exact ⟨(hkeep hs hi hb).1.congr rfl rfl, by simp⟩

theorem linkRun_inOrder (hext : Extending deeper) (hkeep : KeepsOrder deeper) (hs : Sound s)
    (hi : InOrder s) {ds : List (Dependency α)} {coverage : Coverage α}
    {res : Option (List Link × Coverage α)} (h : LinkRun deeper m o ctx ds coverage s res s') :
    InOrder s' ∧ ∀ r ∈ res, ∀ l ∈ r.1, l.nodes.Pairwise (· < ·) := by
  induction h with
  | nil =>
    refine ⟨hi, ?_⟩
    rintro _ ⟨⟩
    simp
  | cons hstep _ ih =>
    obtain ⟨hi₁, hl⟩ := linkStep_inOrder hkeep hs hi hstep
    obtain ⟨hi', hls⟩ := ih (linkStep_extends hext hs hstep).sound hi₁
    refine ⟨hi', ?_⟩
    rintro _ ⟨⟩
    exact List.forall_mem_cons.mpr ⟨hl _ rfl, hls _ rfl⟩
  | refused hstep => exact ⟨(linkStep_inOrder hkeep hs hi hstep).1, by simp⟩
  | refusedLater hstep _ ih =>
    have hi₁ := (linkStep_inOrder hkeep hs hi hstep).1
    exact ⟨(ih (linkStep_extends hext hs hstep).sound hi₁).1, by simp⟩

/-- A node that is made comes after all nodes before the trial. -/
theorem trial_inOrder (hext : Extending deeper) (hkeep : KeepsOrder deeper) (hs : Sound s)
    (hi : InOrder s) {res : Option (Nat × Coverage α)} (h : Trial deeper o ctx c s res s') :
    InOrder s' ∧ ∀ r ∈ res, s.nodes.length ≤ r.1 := by
  cases h with
  | refused hrun => exact ⟨(linkRun_inOrder hext hkeep hs hi hrun).1, by simp⟩
  | uncovered hrun => exact ⟨(linkRun_inOrder hext hkeep hs hi hrun).1.congr rfl rfl, by simp⟩
  | made hrun _ =>
    obtain ⟨hi₁, hl⟩ := linkRun_inOrder hext hkeep hs hi hrun
    refine ⟨hi₁.push (hl _ rfl), ?_⟩
    rintro _ ⟨⟩
    exact (linkRun_extends hext hs hrun).nodes.length_le

theorem tryRun_inOrder {limits : Limits α} (hext : Extending deeper) (hkeep : KeepsOrder deeper)
    (hs : Sound s) (hi : InOrder s) {cs : List (Candidate α)} {accepted : List Nat}
    {covered : Coverage α} {res : List Nat × Coverage α} (hlt : ∀ i ∈ accepted, i < s.nodes.length)
    (hasc : accepted.Pairwise (· < ·))
    (h : TryRun limits deeper o ctx cs accepted covered s res s') :
    InOrder s' ∧ res.1.Pairwise (· < ·) := by
  induction h with
  | nil => exact ⟨hi, hasc⟩
  | complete => exact ⟨hi, hasc⟩
  | late => exact ⟨hi.congr (by simp) (by simp), hasc⟩
  | skipped _ _ _ ih =>
    exact ih hs.look.sound (hi.congr (by simp) (by simp)) (by simpa using hlt) hasc
  | @dropped _ _ _ _ s s₁ _ _ _ _ _ htrial _ _ ih =>
    have hlook : Extends s (s.look limits).2 [] := hs.look
    have hi₁ : InOrder (s.look limits).2 := hi.congr (by simp) (by simp)
    have he := hlook.trans (trial_extends hext hlook.sound htrial)
    exact ih he.rollback.sound ((trial_inOrder hext hkeep hlook.sound hi₁ htrial).1.rollback _)
      (by rwa [he.nodes_rollback]) hasc
  | @accepted _ _ _ _ _ id s s₁ _ _ _ _ htrial _ _ ih =>
    have hlook : Extends s (s.look limits).2 [] := hs.look
    have hi₁ : InOrder (s.look limits).2 := hi.congr (by simp) (by simp)
    have he : Extends s s₁ [id] := hlook.trans (trial_extends hext hlook.sound htrial)
    obtain ⟨hi₂, hmade⟩ := trial_inOrder hext hkeep hlook.sound hi₁ htrial
    have hid : s.nodes.length ≤ id := by simpa using hmade _ rfl
    refine ih he.sound hi₂ (he.found_append hlt) ?_
    refine List.pairwise_append.mpr ⟨hasc, List.pairwise_singleton _ _, fun i hi j hj => ?_⟩
    rw [List.mem_singleton.mp hj]
    exact Nat.lt_of_lt_of_le (hlt i hi) hid

theorem branchStep_inOrder {limits : Limits α} {remaining : Nat} {b : Branch α}
    (hkeep : ∀ n < remaining, KeepsOrder (branch sources limits n)) (hs : Sound s) (hi : InOrder s)
    (h : BranchStep sources limits remaining o ctx s b s') :
    InOrder s' ∧ b.nodes.Pairwise (· < ·) := by
  cases h with
  | cycle => exact ⟨hi.congr rfl rfl, .nil⟩
  | tooDeep => exact ⟨hi.congr rfl rfl, .nil⟩
  | late => exact ⟨hi.congr (by simp) (by simp), .nil⟩
  | kept _ hk =>
    simp only [kept?] at hk
    split at hk
    · exact ⟨hi, hi.kept _ (Keyed.mem_of_get? hk)⟩
    · cases hk
  | @searched remaining _ _ s s₁ found accepted covered _ _ _ hrun =>
    have hi₁ : InOrder (entered limits o ctx found s) :=
      hi.congr (by simp [entered]) (by simp [entered])
    obtain ⟨hi₂, hasc⟩ := tryRun_inOrder (branch_extends sources limits remaining)
      (hkeep remaining (Nat.lt_succ_self _)) (entered_sound hs) hi₁ (by simp) .nil hrun
    refine ⟨⟨by simpa [left] using hi₂.linked, fun e he => ?_⟩, by simpa using hasc⟩
    simp only [left, resolved_conclude] at he
    split at he
    · rcases Keyed.mem_insert he with rfl | he
      · simpa using hasc
      · exact hi₂.kept e he
    · exact hi₂.kept e he

theorem branch_inOrder (sources : Sources α) (limits : Limits α) (remaining : Nat) :
    KeepsOrder (branch sources limits remaining) := by
  induction remaining using Nat.strongRecOn with
  | ind remaining ih => exact fun hs hi h => branchStep_inOrder ih hs hi (branchStep h)

end Search

namespace Resolution

variable {sources : Sources α} {limits : Limits α} {o : Observable} {ctx : Context α}
  {r : Resolution α}

theorem resolve_inOrder (h : resolve sources limits o ctx = .ok r) :
    r.roots.Pairwise (· < ·) ∧ ∀ n ∈ r.nodes, n.Ascends ∧ n.Declares := by
  obtain ⟨b, s, hb, hnodes, hroots, -⟩ := resolve_branch h
  obtain ⟨hi, hasc⟩ := Search.branch_inOrder sources limits _ .start
    ⟨by simp, by simp [Keyed.empty]⟩ hb
  refine ⟨hroots ▸ hasc, fun n hn => ⟨hi.linked n (hnodes ▸ hn), ?_⟩⟩
  obtain ⟨i, hi⟩ := List.mem_iff_getElem?.mp hn
  exact ((resolve_documented h).1 hi).declares

end Resolution

end Obsplan
