import Obsplan.Proofs.Resolution.Roots
import Obsplan.Proofs.Search.Frames

/-!
# What nodes are made for

Nodes are made for what is searched at the time, or for a dependency of a model that has a node. What
a candidate needed is dropped with it when it is refused, so in a resolution every node is for what
was asked for at first, or for what the model of another node needs.
-/

namespace Obsplan

variable {α : Type} [Coordinate α] {nodes nodes' : List (Node α)}

/-- The model of a node needs an observable over a scale. -/
def Needed (nodes : List (Node α)) (o : Observable) (scale : Scale α) : Prop :=
  ∃ n ∈ nodes, ∃ m, n.means = .model m ∧
    ∃ d ∈ m.dependencies, d.observable = o ∧ d.scale.getD n.scale = scale

theorem Needed.extend {o : Observable} {scale : Scale α} (hpre : nodes <+: nodes')
    (h : Needed nodes o scale) : Needed nodes' o scale := by
  obtain ⟨n, hn, hm⟩ := h
  exact ⟨n, hpre.subset hn, hm⟩

/-- An observable is asked for over a scale: at first, or by the model of a node. -/
def Resolution.Asks (r : Resolution α) (o : Observable) (scale : Scale α) : Prop :=
  o = r.observable ∧ scale = r.scale ∨ Needed r.nodes o scale

namespace Search

variable {s s₁ s' : SearchState α} {wanted wanted' : Observable → Scale α → Prop}

/-- A part of the search makes nodes for what is wanted, or for what the model of a node needs. -/
def Answers (wanted : Observable → Scale α → Prop) (s s' : SearchState α) : Prop :=
  ∀ n ∈ s'.nodes, n ∈ s.nodes ∨ wanted n.observable n.scale ∨
    Needed s'.nodes n.observable n.scale

namespace Answers

theorem of_nodes (h : s'.nodes = s.nodes) : Answers wanted s s' := fun _ hn => .inl (h ▸ hn)

theorem trans (h : Answers wanted s s₁) (h₁ : Answers wanted s₁ s')
    (hpre : s₁.nodes <+: s'.nodes) : Answers wanted s s' := by
  intro n hn
  obtain hn | hn := h₁ n hn
  · obtain hn | hn | hn := h n hn
    · exact .inl hn
    · exact .inr (.inl hn)
    · exact .inr (.inr (hn.extend hpre))
  · exact .inr hn

theorem mono (h : Answers wanted s s') (hw : ∀ o scale, wanted o scale → wanted' o scale) :
    Answers wanted' s s' := fun n hn => (h n hn).imp_right (.imp_left (hw _ _))

/-- Only the nodes matter. -/
theorem congr (h : Answers wanted s₁ s') (hn : s₁.nodes = s.nodes) : Answers wanted s s' :=
  fun n hm => by simpa [hn] using h n hm

theorem congr' (h : Answers wanted s s₁) (hn : s'.nodes = s₁.nodes) : Answers wanted s s' := by
  intro n hm
  rw [hn] at hm ⊢
  exact h n hm

theorem push {o : Observable} {scale : Scale α} {means : Means α} {coverage : Coverage α}
    {links : List Link} (h : wanted o scale) :
    Answers wanted s (s.push o scale means coverage links).2 := by
  intro n hn
  rcases List.mem_append.mp hn with hn | hn
  · exact .inl hn
  · obtain rfl := List.mem_singleton.mp hn
    exact .inr (.inl h)

end Answers

/-- A searcher that makes nodes for what it is asked for. -/
def Answering (deeper : Searcher α) : Prop :=
  ∀ {o : Observable} {ctx : Context α} {s s' : SearchState α} {b : Branch α}, Sound s →
    deeper o ctx s = .ok (b, s') → Answers (fun o' scale => o' = o ∧ scale = ctx.scale) s s'

/-- What a model needs in a context. -/
def NeededBy (ds : List (Dependency α)) (ctx : Context α) (o : Observable) (scale : Scale α) :
    Prop :=
  ∃ d ∈ ds, d.observable = o ∧ d.scale.getD ctx.scale = scale

variable {deeper : Searcher α} {m : Model α} {o : Observable} {ctx : Context α} {c : Candidate α}

theorem linkStep_answers (hans : Answering deeper) (hs : Sound s)
    {d : Dependency α} {coverage : Coverage α} {res : Option (Link × Coverage α)}
    (h : LinkStep deeper m ctx d coverage s res s') : Answers (NeededBy [d] ctx) s s' := by
  have hneeded : NeededBy [d] ctx d.observable (d.scale.getD ctx.scale) :=
    ⟨d, List.mem_cons_self, rfl, rfl⟩
  have hwanted : ∀ {s₁ : SearchState α} {b : Branch α},
      deeper d.observable (inner m ctx d) s = .ok (b, s₁) → Answers (NeededBy [d] ctx) s s₁ :=
    fun hb => (hans hs hb).mono fun o' scale ⟨ho, hscale⟩ => by
      rw [ho, hscale]
      exact hneeded
  cases h with
  | deferred => exact .push hneeded
  | found _ hb _ => exact hwanted hb
  | @missing _ s₁ n _ _ _ hb _ _ =>
    have h₁ : Answers (NeededBy [d] ctx) s (s₁.notify n) := (hwanted hb).congr' rfl
    exact h₁.trans (.push hneeded) (List.prefix_append _ _)
  | refused _ hb => exact (hwanted hb).congr' rfl

theorem linkRun_answers (hans : Answering deeper) (hext : Extending deeper) (hs : Sound s)
    {ds : List (Dependency α)} {coverage : Coverage α} {res : Option (List Link × Coverage α)}
    (h : LinkRun deeper m o ctx ds coverage s res s') : Answers (NeededBy ds ctx) s s' := by
  have hhead : ∀ {d : Dependency α} {ds : List (Dependency α)} o' scale,
      NeededBy [d] ctx o' scale → NeededBy (d :: ds) ctx o' scale := by
    rintro d ds o' scale ⟨d', hd', hneeded⟩
    exact ⟨d', List.mem_cons.mpr (.inl (List.mem_singleton.mp hd')), hneeded⟩
  have htail : ∀ {d : Dependency α} {ds : List (Dependency α)} o' scale,
      NeededBy ds ctx o' scale → NeededBy (d :: ds) ctx o' scale := by
    rintro d ds o' scale ⟨d', hd', hneeded⟩
    exact ⟨d', List.mem_cons_of_mem d hd', hneeded⟩
  induction h with
  | nil => exact .of_nodes rfl
  | cons hstep hrun ih =>
    have hs₁ := (linkStep_extends hext hs hstep).sound
    exact ((linkStep_answers hans hs hstep).mono hhead).trans ((ih hs₁).mono htail)
      (linkRun_extends hext hs₁ hrun).nodes
  | refused hstep => exact (linkStep_answers hans hs hstep).mono hhead
  | refusedLater hstep hrun ih =>
    have hs₁ := (linkStep_extends hext hs hstep).sound
    exact ((linkStep_answers hans hs hstep).mono hhead).trans ((ih hs₁).mono htail)
      (linkRun_extends hext hs₁ hrun).nodes

/-- When the node of a candidate is made, what its model needed is needed by a node. -/
theorem trial_answers (hans : Answering deeper) (hext : Extending deeper) (hs : Sound s)
    {made : Nat × Coverage α} (h : Trial deeper o ctx c s (some made) s') :
    Answers (fun o' scale => o' = o ∧ scale = ctx.scale) s s' := by
  cases h with
  | @made links coverage s₁ hrun _ =>
    intro n hn
    rcases List.mem_append.mp hn with hn | hn
    · obtain hn | ⟨d, hd, ho, hscale⟩ | hn := linkRun_answers hans hext hs hrun n hn
      · exact .inl hn
      · exact .inr (.inr ⟨_, List.mem_append_right _ List.mem_cons_self, c.model, rfl, d, hd, ho,
          hscale⟩)
      · exact .inr (.inr (hn.extend (List.prefix_append _ _)))
    · obtain rfl := List.mem_singleton.mp hn
      exact .inr (.inl ⟨rfl, rfl⟩)

theorem tryRun_answers {limits : Limits α} (hans : Answering deeper) (hext : Extending deeper)
    (hs : Sound s) {cs : List (Candidate α)} {accepted : List Nat} {covered : Coverage α}
    {res : List Nat × Coverage α} (ha : ∀ i ∈ accepted, i < s.nodes.length)
    (h : TryRun limits deeper o ctx cs accepted covered s res s') :
    Answers (fun o' scale => o' = o ∧ scale = ctx.scale) s s' := by
  induction h with
  | nil => exact .of_nodes rfl
  | complete => exact .of_nodes rfl
  | late => exact .of_nodes (by simp)
  | @skipped _ _ _ _ s _ _ _ _ _ ih =>
    have hlook : Extends s (s.look limits).2 [] := hs.look
    exact (ih hlook.sound (by simpa using ha)).congr (by simp)
  | @dropped _ _ _ _ s s₁ _ _ _ _ _ htrial _ _ ih =>
    have hlook : Extends s (s.look limits).2 [] := hs.look
    have he := hlook.trans (trial_extends hext hlook.sound htrial)
    exact (ih he.rollback.sound (by rwa [he.nodes_rollback])).congr he.nodes_rollback
  | @accepted _ _ _ _ _ id s s₁ _ _ _ _ htrial _ hrun ih =>
    have hlook : Extends s (s.look limits).2 [] := hs.look
    have he : Extends s s₁ [id] := hlook.trans (trial_extends hext hlook.sound htrial)
    have ha₁ := he.found_append ha
    have h₁ : Answers (fun o' scale => o' = o ∧ scale = ctx.scale) s s₁ :=
      (trial_answers hans hext hlook.sound htrial).congr (by simp)
    exact h₁.trans (ih he.sound ha₁) (tryRun_extends hext he.sound ha₁ hrun).nodes

theorem branchStep_answers {sources : Sources α} {limits : Limits α} {remaining : Nat}
    {b : Branch α} (hans : ∀ n < remaining, Answering (branch sources limits n)) (hs : Sound s)
    (h : BranchStep sources limits remaining o ctx s b s') :
    Answers (fun o' scale => o' = o ∧ scale = ctx.scale) s s' := by
  cases h with
  | cycle => exact .of_nodes rfl
  | tooDeep => exact .of_nodes rfl
  | kept => exact .of_nodes rfl
  | late => exact .of_nodes (by simp)
  | @searched remaining _ _ s s₁ found accepted covered _ _ _ hrun =>
    have h₁ := tryRun_answers (hans remaining (Nat.lt_succ_self _))
      (branch_extends sources limits remaining) (entered_sound hs) (by simp) hrun
    exact (h₁.congr (by simp [entered])).congr' (by simp [left])

theorem branch_answers (sources : Sources α) (limits : Limits α) (remaining : Nat) :
    Answering (branch sources limits remaining) := by
  induction remaining using Nat.strongRecOn with
  | ind remaining ih => exact fun hs h => branchStep_answers ih hs (branchStep h)

end Search

namespace Resolution

variable {sources : Sources α} {limits : Limits α} {o : Observable} {ctx : Context α}
  {r : Resolution α}

/-- Every node of a resolution is for what is asked for. -/
theorem resolve_asks (h : resolve sources limits o ctx = .ok r) :
    ∀ n ∈ r.nodes, r.Asks n.observable n.scale := by
  obtain ⟨b, s, hb, hnodes, -⟩ := resolve_branch h
  obtain ⟨hobservable, hscale, -⟩ := resolve_asked h
  intro n hn
  rw [hnodes] at hn
  obtain hn | hn | hn := Search.branch_answers sources limits _ .start hb n hn
  · cases hn
  · rw [Asks, hobservable, hscale]
    exact .inl hn
  · rw [← hnodes] at hn
    exact .inr hn

end Resolution

end Obsplan
