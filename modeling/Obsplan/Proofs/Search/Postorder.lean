import Obsplan.Proofs.Search.Frames

/-!
# The order in which nodes are made

A search makes a node when everything it refers to was found. So the nodes made for what is found
are numbered without a gap, those for a node right before it and those for the next one right
behind it, and whatever else is referred to was made before all of them. Main statement: all nodes
of a resolution stand in this order below the roots, and a model is never further down than the
limit.
-/

namespace Obsplan

variable {α : Type} [Coordinate α]

/-- The nodes from `lo` up to `hi` were made for the nodes `is`, which were found on a level. -/
inductive Postorder (nodes : List (Node α)) (maxDepth : Nat) : Nat → Nat → Nat → List Nat → Prop where
  | nil {level lo : Nat} : Postorder nodes maxDepth level lo lo []
  /-- A node from before is taken over. -/
  | kept {level lo hi i : Nat} {is : List Nat} : i < lo → Postorder nodes maxDepth level lo hi is →
      Postorder nodes maxDepth level lo hi (i :: is)
  | standIn {level lo hi : Nat} {n : Node α} {is : List Nat} : nodes[lo]? = some n →
      ¬ n.IsModel → n.links = [] → Postorder nodes maxDepth level (lo + 1) hi is →
      Postorder nodes maxDepth level lo hi (lo :: is)
  /-- The nodes for the dependencies of a model come right before it. -/
  | model {level lo hi i : Nat} {n : Node α} {is : List Nat} : nodes[i]? = some n → n.IsModel →
      level ≤ maxDepth → Postorder nodes maxDepth (level + 1) lo i n.children →
      Postorder nodes maxDepth level (i + 1) hi is → Postorder nodes maxDepth level lo hi (i :: is)

namespace Postorder

variable {nodes nodes' : List (Node α)} {maxDepth level lo mid hi : Nat} {is js : List Nat}

theorem le (h : Postorder nodes maxDepth level lo hi is) : lo ≤ hi := by
  induction h with
  | nil => exact Nat.le_refl _
  | kept _ _ ih => exact ih
  | standIn _ _ _ _ ih => omega
  | model _ _ _ _ _ ihchildren ih => omega

theorem append (h : Postorder nodes maxDepth level lo mid is)
    (h' : Postorder nodes maxDepth level mid hi js) :
    Postorder nodes maxDepth level lo hi (is ++ js) := by
  induction h with
  | nil => exact h'
  | kept hi _ ih => exact .kept hi (ih h')
  | standIn hn hm hl _ ih => exact .standIn hn hm hl (ih h')
  | model hn hm hd hchildren _ _ ih => exact .model hn hm hd hchildren (ih h')

theorem extend (hpre : nodes <+: nodes') (h : Postorder nodes maxDepth level lo hi is) :
    Postorder nodes' maxDepth level lo hi is := by
  induction h with
  | nil => exact .nil
  | kept hi _ ih => exact .kept hi ih
  | standIn hn hm hl _ ih => exact .standIn (getElem?_extend hpre hn) hm hl ih
  | model hn hm hd _ _ ihchildren ih => exact .model (getElem?_extend hpre hn) hm hd ihchildren ih

theorem of_lt (h : ∀ i ∈ is, i < lo) : Postorder nodes maxDepth level lo lo is := by
  induction is with
  | nil => exact .nil
  | cons i is ih =>
    obtain ⟨hi, his⟩ := List.forall_mem_cons.mp h
    exact .kept hi (ih his)

end Postorder

namespace Search

variable {limits : Limits α} {level : Nat} {deeper : Searcher α} {m : Model α} {o : Observable}
  {ctx : Context α} {c : Candidate α} {s s₁ s' : SearchState α} {is js : List Nat}

/-! ## What the parts of the search make -/

/-- From one state to another, nodes were stacked up for those found on a level. -/
def Stacks (limits : Limits α) (level : Nat) (s s' : SearchState α) (is : List Nat) : Prop :=
  Postorder s'.nodes limits.maxDepth level s.nodes.length s'.nodes.length is

theorem Stacks.trans (h : Stacks limits level s s₁ is) (h' : Stacks limits level s₁ s' js)
    (hpre : s₁.nodes <+: s'.nodes) : Stacks limits level s s' (is ++ js) :=
  (Postorder.extend hpre h).append h'

/-- Only the nodes matter. -/
theorem Stacks.congr (h : Stacks limits level s₁ s' is) (hn : s.nodes = s₁.nodes) :
    Stacks limits level s s' is := by
  rw [Stacks, hn]
  exact h

theorem Stacks.congr' (h : Stacks limits level s s₁ is) (hn : s'.nodes = s₁.nodes) :
    Stacks limits level s s' is := by
  rw [Stacks, hn]
  exact h

/-- A node that was put behind the others is the last one. -/
theorem push_last (s : SearchState α) (o : Observable) (scale : Scale α) (means : Means α)
    (coverage : Coverage α) (links : List Link) (maxDepth level : Nat) :
    (s.push o scale means coverage links).2.nodes[s.nodes.length]? =
        some ⟨s.nodes.length, o, scale, means, coverage, links⟩ ∧
      Postorder (s.push o scale means coverage links).2.nodes maxDepth level (s.nodes.length + 1)
        (s.push o scale means coverage links).2.nodes.length [] := by
  refine ⟨List.getElem?_concat_length, ?_⟩
  rw [SearchState.nodes_push, List.length_append, List.length_singleton]
  exact .nil

theorem Stacks.standIn {o : Observable} {scale : Scale α} {means : Means α} {coverage : Coverage α}
    (hm : ∀ m, means ≠ .model m) :
    Stacks limits level s (s.push o scale means coverage []).2 [s.nodes.length] := by
  obtain ⟨hlast, hnone⟩ := push_last s o scale means coverage [] limits.maxDepth level
  exact Postorder.standIn hlast (fun ⟨m, h⟩ => hm m h) rfl hnone

theorem Stacks.model {o : Observable} {scale : Scale α} {m : Model α} {coverage : Coverage α}
    {links : List Link} (h : Stacks limits (level + 1) s s₁ (links.flatMap Link.nodes))
    (hlevel : level ≤ limits.maxDepth) :
    Stacks limits level s (s₁.push o scale (.model m) coverage links).2 [s₁.nodes.length] := by
  obtain ⟨hlast, hnone⟩ := push_last s₁ o scale (.model m) coverage links limits.maxDepth level
  have hpre : s₁.nodes <+: (s₁.push o scale (.model m) coverage links).2.nodes :=
    List.prefix_append _ _
  exact Postorder.model hlast ⟨m, rfl⟩ hlevel (Postorder.extend hpre h) hnone

/-- A searcher that stacks up nodes for those that it finds, which are on a level. -/
def StacksOn (limits : Limits α) (level : Nat) (deeper : Searcher α) : Prop :=
  ∀ {o : Observable} {ctx : Context α} {s s' : SearchState α} {b : Branch α}, Sound s →
    deeper o ctx s = .ok (b, s') → Stacks limits level s s' b.nodes

theorem linkStep_stacks (hstacks : StacksOn limits level deeper) (hs : Sound s) {d : Dependency α}
    {coverage coverage' : Coverage α} {link : Link}
    (h : LinkStep deeper m ctx d coverage s (some (link, coverage')) s') :
    Stacks limits level s s' link.nodes := by
  cases h with
  | deferred => exact .standIn (by simp)
  | found _ hb _ => exact hstacks hs hb
  | @missing b s₁ n means _ _ hb hn hstands =>
    have hnone : Stacks limits level s (s₁.notify n) [] := by
      rw [← hn]
      exact (hstacks hs hb).congr' rfl
    have hmeans : ∀ m, means ≠ .model m := by cases hstands <;> simp
    exact hnone.trans (.standIn hmeans) (List.prefix_append _ _)

theorem linkRun_stacks (hext : Extending deeper) (hstacks : StacksOn limits level deeper)
    (hs : Sound s) {ds : List (Dependency α)} {coverage coverage' : Coverage α}
    {links : List Link} {res : Option (List Link × Coverage α)}
    (h : LinkRun deeper m o ctx ds coverage s res s') (hres : res = some (links, coverage')) :
    Stacks limits level s s' (links.flatMap Link.nodes) := by
  induction h generalizing links coverage' with
  | nil =>
    cases hres
    exact .nil
  | cons hstep hrun ih =>
    cases hres
    have he := linkStep_extends hext hs hstep
    exact (linkStep_stacks hstacks hs hstep).trans (ih he.sound rfl)
      (linkRun_extends hext he.sound hrun).nodes
  | refused => cases hres
  | refusedLater => cases hres

theorem trial_stacks (hext : Extending deeper) (hstacks : StacksOn limits (level + 1) deeper)
    (hlevel : level ≤ limits.maxDepth) (hs : Sound s) {id : Nat} {coverage : Coverage α}
    (h : Trial deeper o ctx c s (some (id, coverage)) s') : Stacks limits level s s' [id] := by
  cases h with
  | made hrun _ => exact (linkRun_stacks hext hstacks hs hrun rfl).model hlevel

/-- Nothing remains of the candidates that were dropped between those accepted. -/
theorem tryRun_stacks (hext : Extending deeper)
    (hstacks : StacksOn limits (level + 1) deeper) (hlevel : level ≤ limits.maxDepth) (hs : Sound s)
    {cs : List (Candidate α)} {accepted : List Nat} {covered : Coverage α}
    {res : List Nat × Coverage α} (ha : ∀ i ∈ accepted, i < s.nodes.length)
    (h : TryRun limits deeper o ctx cs accepted covered s res s') :
    ∃ more, res.1 = accepted ++ more ∧ Stacks limits level s s' more := by
  induction h with
  | nil => exact ⟨[], by simp, .nil⟩
  | complete => exact ⟨[], by simp, .nil⟩
  | @late _ _ _ s =>
    have hnone : Stacks limits level s s [] := .nil
    exact ⟨[], by simp, hnone.congr' (by simp)⟩
  | @skipped _ _ _ _ s _ _ _ _ _ ih =>
    obtain ⟨more, hres, hmade⟩ := ih hs.look.sound (by simpa using ha)
    exact ⟨more, hres, hmade.congr (by simp)⟩
  | @dropped _ _ _ _ s s₁ _ _ _ _ _ htrial _ _ ih =>
    have he := hs.look.trans (trial_extends hext hs.look.sound htrial)
    have hnodes : (s₁.rollback s.nodes.length).nodes = s.nodes := he.nodes_rollback
    obtain ⟨more, hres, hmade⟩ := ih he.rollback.sound (by rwa [hnodes])
    exact ⟨more, hres, hmade.congr hnodes.symm⟩
  | @accepted _ _ _ _ _ id s s₁ _ _ _ _ htrial _ hrun ih =>
    have he : Extends s s₁ [id] := hs.look.trans (trial_extends hext hs.look.sound htrial)
    have ha₁ := he.found_append ha
    have hid : Stacks limits level s s₁ [id] :=
      (trial_stacks hext hstacks hlevel hs.look.sound htrial).congr (by simp)
    obtain ⟨more, hres, hmade⟩ := ih he.sound ha₁
    refine ⟨id :: more, by simpa using hres, ?_⟩
    exact hid.trans hmade (tryRun_extends hext he.sound ha₁ hrun).nodes

theorem branchStep_stacks {sources : Sources α} {remaining : Nat} {b : Branch α}
    (hlevel : level + remaining = limits.maxDepth + 1)
    (hstacks : ∀ n < remaining, ∀ level, level + n = limits.maxDepth + 1 →
      StacksOn limits level (branch sources limits n))
    (hs : Sound s) (h : BranchStep sources limits remaining o ctx s b s') :
    Stacks limits level s s' b.nodes := by
  have hnone : Stacks limits level s s [] := .nil
  cases h with
  | cycle => exact hnone.congr' rfl
  | tooDeep => exact hnone.congr' rfl
  | late => exact hnone.congr' (by simp)
  | kept _ hk =>
    simp only [kept?] at hk
    split at hk
    · exact .of_lt (hs.kept _ (Keyed.mem_of_get? hk))
    · cases hk
  | @searched remaining _ _ _ s₁ found accepted covered _ _ _ hrun =>
    obtain ⟨more, hres, hmade⟩ := tryRun_stacks (branch_extends sources limits remaining)
      (hstacks remaining (Nat.lt_succ_self _) (level + 1) (by omega)) (by omega) (entered_sound hs)
      (by simp) hrun
    rw [nodes_conclude_fst, show accepted = more from hres]
    exact (hmade.congr (by simp [entered])).congr' (by simp [left])

theorem branch_stacks (sources : Sources α) (limits : Limits α) (remaining : Nat) :
    ∀ level, level + remaining = limits.maxDepth + 1 →
      StacksOn limits level (branch sources limits remaining) := by
  induction remaining using Nat.strongRecOn with
  | ind remaining ih =>
    exact fun level hlevel _ _ _ _ _ hs h => branchStep_stacks hlevel ih hs (branchStep h)

end Search

/-- All nodes of a resolution were made for its roots. -/
theorem Resolution.resolve_postorder {sources : Sources α} {limits : Limits α} {o : Observable}
    {ctx : Context α} {r : Resolution α} (h : resolve sources limits o ctx = .ok r) :
    Postorder r.nodes limits.maxDepth 0 0 r.nodes.length r.roots := by
  obtain ⟨b, s, hb, hn, hr, -⟩ := resolve_branch h
  rw [hn, hr]
  exact Search.branch_stacks sources limits (limits.maxDepth + 1) 0 (Nat.zero_add _) .start hb

end Obsplan
