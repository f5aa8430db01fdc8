import Obsplan.Proofs.Candidate.Richer
import Obsplan.Proofs.Search.Claims
import Obsplan.Proofs.Search.Uncut

/-!
# Searches over richer sources

Two searches are compared, the second one over sources that offer more. Where no deadline passes,
the limits neither overlook a gap nor pass over a gain in what can be asked for, and no default value
stands for what has to be covered, the second search covers at least what the first one does: a
candidate of the first search is one of the second, which accepts it or covers already what it
would add.
-/

namespace Obsplan.Search

variable {α : Type} [Coordinate α] {sources sources' : Sources α} {limits limits' : Limits α}
  {origin : Observable} {root : Context α} {remaining : Nat} {path : List String}
  {final : List (Node α)} {o : Observable} {ctx : Context α} {c₀ c : Candidate α}

/-! ## What richer sources are asked for -/

section richer

variable (hs : sources.Reliable) (hs' : sources'.Reliable) (hrich : sources.Richer sources')
  (hdepth : limits.maxDepth = limits'.maxDepth)

include hs hs' hrich

/-- A candidate is one of richer sources as well. -/
theorem Ranked.richer (h : Ranked sources o ctx c₀) :
    ∃ c, Ranked sources' o ctx c ∧ c.model = c₀.model ∧ c.coverage = c₀.coverage := by
  obtain ⟨found, hfound, hc₀⟩ := h
  obtain ⟨found', hfound'⟩ :=
    Candidate.exists_lookup hs' o ctx (.remainder ctx.scale (.empty ctx.scale))
  obtain ⟨c, hc, hmodel, hcoverage⟩ := Candidate.mem_lookup_richer hs hs' hrich hfound hfound' hc₀
  exact ⟨c, ⟨found', hfound', hc⟩, hmodel, hcoverage⟩

include hdepth

theorem Asked.richer (h : Asked sources limits origin root remaining path o ctx) :
    Asked sources' limits' origin root remaining path o ctx := by
  induction h with
  | start => exact hdepth ▸ .start
  | needed _ hpath hranked hd hdef ih =>
    obtain ⟨c, hc, hmodel, -⟩ := hranked.richer hs hs' hrich
    rw [← hmodel] at hd ⊢
    exact .needed ih hpath hc hd hdef

theorem Eligible.richer (h : Eligible sources limits origin root remaining path o ctx c₀) :
    ∃ c, Eligible sources' limits' origin root remaining path o ctx c ∧ c.model = c₀.model ∧
      c.coverage = c₀.coverage := by
  obtain ⟨c, hc, hmodel, hcoverage⟩ := h.ranked.richer hs hs' hrich
  exact ⟨c, ⟨h.asked.richer hs hs' hrich hdepth, h.path, hc⟩, hmodel, hcoverage⟩

theorem Arising.richer {key : String} {scale : Scale α} {covered : Coverage α}
    (h : Arising sources limits origin root key scale covered) :
    Arising sources' limits' origin root key scale covered := by
  induction h with
  | empty => exact .empty
  | claim hcan =>
    obtain ⟨c, hc, -, hcoverage⟩ := hcan.richer hs hs' hrich hdepth
    exact hcoverage ▸ .claim hc
  | narrowed hcan hd _ _ ih ihfound =>
    obtain ⟨c, hc, hmodel, -⟩ := hcan.richer hs hs' hrich hdepth
    rw [← hmodel] at hd ihfound
    exact .narrowed hc hd ih ihfound
  | merge _ _ ih ih' => exact ih.merge ih'

end richer

/-! ## Two searches -/

/-- The limits count exactly for what a search can be asked for: coverage that it can compose is
complete just when no point is missing, and what contributes too little to it adds no point. -/
structure Sharp (sources : Sources α) (limits : Limits α) (origin : Observable)
    (root : Context α) : Prop where
  complete : ∀ {remaining : Nat} {path : List String} {o : Observable} {ctx : Context α}
    {covered : Coverage α}, Asked sources limits origin root remaining path o ctx →
      Arising sources limits origin root o.key ctx.scale covered →
        (covered.isComplete limits.tolerance = true ↔ ∀ p ∈ ctx.scale, p ∈ covered.region)
  contributes : ∀ {remaining : Nat} {path : List String} {o : Observable} {ctx : Context α}
    {covered added : Coverage α}, Asked sources limits origin root remaining path o ctx →
      Arising sources limits origin root o.key ctx.scale covered →
      Arising sources limits origin root o.key ctx.scale added →
        covered.gain added < limits.minContribution → added.region ⊆ covered.region

/-- No default value stands for a dependency that narrows the coverage of its model. -/
def Sought (nodes : List (Node α)) (d : Dependency α) (link : Link) : Prop :=
  d.observable.optional = false → d.scale = none →
    ∀ i ∈ link.nodes, ∀ n ∈ nodes[i]?, ∀ value, n.means ≠ .constant value

/-- No default value stands for what a mandatory dependency over the scale of its model needs. -/
def AllSought (nodes : List (Node α)) : Prop :=
  ∀ n ∈ nodes, ∀ m, n.means = .model m → ∀ e ∈ m.dependencies.zip n.links, Sought nodes e.1 e.2

/-- Two searches that try the same model for the same observable. -/
structure Matched (sources sources' : Sources α) (limits limits' : Limits α) (origin : Observable)
    (root : Context α) (remaining : Nat) (path : List String) (o : Observable) (ctx : Context α)
    (c₀ c : Candidate α) : Prop where
  first : Eligible sources limits origin root remaining path o ctx c₀
  second : Eligible sources' limits' origin root remaining path o ctx c
  model : c.model = c₀.model
  coverage : c.coverage = c₀.coverage

/-- Below a path, a searcher covers what another one finds, as far as that stays among the final
nodes. -/
structure Outdoes (sources sources' : Sources α) (limits limits' : Limits α) (origin : Observable)
    (root : Context α) (final : List (Node α)) (remaining : Nat) (path : List String)
    (deeper deeper' : Searcher α) : Prop where
  extending : Extending deeper
  extending' : Extending deeper'
  advancing' : Advancing deeper'
  composing : Composing sources limits origin root remaining path deeper
  composing' : Composing sources' limits' origin root remaining path deeper'
  outdoes : ∀ {o : Observable} {ctx : Context α} {s₀ s₀' s s' : SearchState α} {b₀ b : Branch α},
    Asked sources limits origin root remaining path o ctx →
      Asked sources' limits' origin root remaining path o ctx →
        Steady sources limits origin root path s₀ → Steady sources' limits' origin root path s →
          s.timedOut = false → deeper o ctx s₀ = .ok (b₀, s₀') → s₀'.nodes <+: final →
            deeper' o ctx s = .ok (b, s') → b₀.coverage.region ⊆ b.coverage.region

theorem Matched.needed (h : Matched sources sources' limits limits' origin root remaining path o
    ctx c₀ c) {d : Dependency α} (hd : d ∈ c₀.model.dependencies) (hdef : d.deferred = false) :
    Asked sources limits origin root remaining (pathKey o ctx.scale :: path) d.observable
        (inner c₀.model ctx d) ∧
      Asked sources' limits' origin root remaining (pathKey o ctx.scale :: path) d.observable
        (inner c₀.model ctx d) :=
  ⟨h.first.needed hd hdef, h.model ▸ h.second.needed (h.model ▸ hd) hdef⟩

/-- A searcher makes a node for a candidate, which stays among the final ones. -/
def Makes (sources : Sources α) (limits : Limits α) (origin : Observable) (root : Context α)
    (final : List (Node α)) (path : List String) (deeper : Searcher α) (o : Observable)
    (ctx : Context α) (c : Candidate α) (made : Coverage α) : Prop :=
  ∃ s₀ s₀' id, Steady sources limits origin root (pathKey o ctx.scale :: path) s₀ ∧
    Trial deeper o ctx c s₀ (some (id, made)) s₀' ∧ s₀'.nodes <+: final

section outdoes

variable {deeper deeper' : Searcher α} {s₀ s₀' s s' : SearchState α}

/-! ## Dependencies -/

theorem Outdoes.finds {b₀ b : Branch α}
    (h : Outdoes sources sources' limits limits' origin root final remaining path deeper deeper')
    (hasked : Asked sources limits origin root remaining path o ctx)
    (hasked' : Asked sources' limits' origin root remaining path o ctx)
    (hs₀ : Steady sources limits origin root path s₀)
    (hs : Steady sources' limits' origin root path s) (htime : s.timedOut = false)
    (hb₀ : deeper o ctx s₀ = .ok (b₀, s₀')) (hfinal : s₀'.nodes <+: final)
    (hb : deeper' o ctx s = .ok (b, s')) (hne : b₀.nodes ≠ []) : b.nodes ≠ [] := by
  have hcovering₀ := (h.composing hasked hs₀ hb₀).2
  have hcovering := (h.composing' hasked' hs hb).2
  -- nodes cover a point, which the second searcher has to cover as well
  obtain ⟨p, hp⟩ := Set.nonempty_iff_ne_empty.mpr (mt hcovering₀.empty_iff.mpr hne)
  intro hnone
  have hp := h.outdoes hasked hasked' hs₀ hs htime hb₀ hfinal hb hp
  rw [hcovering.empty_iff.mp hnone] at hp
  cases hp

variable [LawfulCoordinate α]
  (h : Outdoes sources sources' limits limits' origin root final remaining
    (pathKey o ctx.scale :: path) deeper deeper')
  (hm : Matched sources sources' limits limits' origin root remaining path o ctx c₀ c)

include h hm

theorem linkStep_outdoes {d : Dependency α} {covered₀ covered₀' covered : Coverage α} {link : Link}
    {res : Option (Link × Coverage α)}
    (hs₀ : Steady sources limits origin root (pathKey o ctx.scale :: path) s₀)
    (hs : Steady sources' limits' origin root (pathKey o ctx.scale :: path) s)
    (htime : s.timedOut = false) (hd : d ∈ c₀.model.dependencies) (hfinal : s₀'.nodes <+: final)
    (hsought : Sought final d link) (hc₀ : covered₀.Over ctx.scale) (hc : covered.Over ctx.scale)
    (hsub : covered₀.region ⊆ covered.region)
    (h₀ : LinkStep deeper c₀.model ctx d covered₀ s₀ (some (link, covered₀')) s₀')
    (h₁ : LinkStep deeper' c₀.model ctx d covered s res s') :
    ∃ link' covered', res = some (link', covered') ∧ covered₀'.region ⊆ covered'.region := by
  cases h₀ with
  | deferred hdef₀ =>
    cases h₁ with
    | deferred => exact ⟨_, _, rfl, hsub⟩
    | found hdef => simp [hdef] at hdef₀
    | missing hdef => simp [hdef] at hdef₀
    | refused hdef => simp [hdef] at hdef₀
  | found hdef₀ hb₀ hne₀ =>
    obtain ⟨hasked₀, hasked⟩ := hm.needed hd hdef₀
    cases h₁ with
    | deferred hdef => simp [hdef] at hdef₀
    | found _ hb _ =>
      have hout := h.outdoes hasked₀ hasked hs₀ hs htime hb₀ hfinal hb
      have hover₀ := (h.composing hasked₀ hs₀ hb₀).2.arising.over
      have hover := (h.composing' hasked hs hb).2.arising.over
      refine ⟨_, _, rfl, fun p hp => ?_⟩
      obtain ⟨hp, hfound⟩ := (mem_narrowed hc₀ hover₀).mp hp
      exact (mem_narrowed hc hover).mpr
        ⟨hsub hp, fun hmandatory hown => hout (hfound hmandatory hown)⟩
    | missing _ hb hn =>
      exact absurd hn (h.finds hasked₀ hasked hs₀ hs htime hb₀ hfinal hb hne₀)
    | refused _ hb hn =>
      exact absurd hn (h.finds hasked₀ hasked hs₀ hs htime hb₀ hfinal hb hne₀)
  | @missing _ s₁ n means found hdef₀ hb₀ hn hstands =>
    cases h₁ with
    | deferred hdef => simp [hdef] at hdef₀
    | found hdef hb _ =>
      have hover := (h.composing' (hm.needed hd hdef).2 hs hb).2.arising.over
      refine ⟨_, _, rfl, fun p hp => ?_⟩
      refine (mem_narrowed hc hover).mpr ⟨hsub hp, fun hmandatory hown => ?_⟩
      -- what stands in where the coverage narrows would be a default value
      cases hstands with
      | deferred hdef => simp [hdef] at hdef₀
      | constant =>
        exact absurd rfl (hsought hmandatory hown _ List.mem_cons_self _
          (getElem?_extend hfinal List.getElem?_concat_length) _)
      | unresolved _ _ hopt => simp [hopt] at hmandatory
    | missing => exact ⟨_, _, rfl, hsub⟩
    | refused _ _ _ hvalue hmandatory =>
      cases hstands with
      | deferred hdef => simp [hdef] at hdef₀
      | constant _ hvalue₀ => simp [hvalue] at hvalue₀
      | unresolved _ _ hopt => simp [hopt] at hmandatory

theorem linkRun_outdoes {ds : List (Dependency α)} {covered₀ covered₀' covered : Coverage α}
    {links : List Link} {res₀ res : Option (List Link × Coverage α)}
    (hs₀ : Steady sources limits origin root (pathKey o ctx.scale :: path) s₀)
    (hs : Steady sources' limits' origin root (pathKey o ctx.scale :: path) s)
    (htime : s.timedOut = false) (hds : ds ⊆ c₀.model.dependencies) (hfinal : s₀'.nodes <+: final)
    (hsought : ∀ e ∈ ds.zip links, Sought final e.1 e.2)
    (hc₀ : Arising sources limits origin root o.key ctx.scale covered₀)
    (hc : Arising sources' limits' origin root o.key ctx.scale covered)
    (hsub : covered₀.region ⊆ covered.region)
    (h₀ : LinkRun deeper c₀.model o ctx ds covered₀ s₀ res₀ s₀')
    (hres₀ : res₀ = some (links, covered₀'))
    (h₁ : LinkRun deeper' c₀.model o ctx ds covered s res s') :
    ∃ links' covered', res = some (links', covered') ∧ covered₀'.region ⊆ covered'.region := by
  induction h₀ generalizing covered links s res with
  | nil =>
    cases hres₀
    cases h₁ with
    | nil => exact ⟨_, _, rfl, hsub⟩
  | @cons d ds _ _ _ _ _ _ _ _ hstep₀ hrun₀ ih =>
    cases hres₀
    obtain ⟨hd, hds⟩ := List.cons_subset.mp hds
    have he₀ := linkStep_extends h.extending hs₀.sound hstep₀
    obtain ⟨hk₀, hl₀⟩ := linkStep_composes h.composing hm.first hs₀ hd hc₀ hstep₀
    obtain ⟨hsought₁, hsought⟩ := List.forall_mem_cons.mp hsought
    have hprefix := (linkRun_extends h.extending he₀.sound hrun₀).nodes.trans hfinal
    -- the second run cannot be refused where the first one is not, neither here nor later
    have hfirst : ∀ {r s₁}, LinkStep deeper' c₀.model ctx d covered s r s₁ → r ≠ none := by
      rintro _ _ hlink rfl
      obtain ⟨_, _, hsome, -⟩ := linkStep_outdoes h hm hs₀ hs htime hd hprefix hsought₁ hc₀.over
        hc.over hsub hstep₀ hlink
      cases hsome
    have hrest : ∀ {link c₁ s₁ r}, LinkStep deeper' c₀.model ctx d covered s (some (link, c₁)) s₁ →
        LinkRun deeper' c₀.model o ctx ds c₁ s₁ r s' →
          ∃ links' c', r = some (links', c') ∧ covered₀'.region ⊆ c'.region := by
      intro link c₁ s₁ r hlink hrun
      obtain ⟨_, _, hsome, hsub₁⟩ := linkStep_outdoes h hm hs₀ hs htime hd hprefix hsought₁
        hc₀.over hc.over hsub hstep₀ hlink
      cases hsome
      have hlink' := hm.model ▸ hlink
      obtain ⟨hk, hl⟩ := linkStep_composes h.composing' hm.second hs (hm.model ▸ hd) hc hlink'
      have hs₁ := hs.next (linkStep_extends h.extending' hs.sound hlink) hk
      have htime₁ := (linkStep_advances h.advancing' hlink).timedOut.trans htime
      exact ih (hs₀.next he₀ hk₀) hs₁ htime₁ hds hfinal hsought (hl₀ _ rfl).1 (hl _ rfl).1 hsub₁
        rfl hrun
    cases h₁ with
    | refused hlink => exact absurd rfl (hfirst hlink)
    | refusedLater hlink hrun =>
      obtain ⟨_, _, hsome, -⟩ := hrest hlink hrun
      cases hsome
    | cons hlink hrun =>
      obtain ⟨_, _, hsome, hsub'⟩ := hrest hlink hrun
      cases hsome
      exact ⟨_, _, rfl, hsub'⟩
  | refused => cases hres₀
  | refusedLater => cases hres₀

/-! ## Candidates -/

theorem Makes.spec {made : Coverage α}
    (hmakes : Makes sources limits origin root final path deeper o ctx c₀ made) :
    made.Over ctx.scale ∧ made.region ⊆ c.coverage.region ∧ made.region.Nonempty := by
  obtain ⟨s₀, s₀', id, hs₀, htrial, -⟩ := hmakes
  obtain ⟨harising, hsub, hne⟩ :=
    (trial_composes h.extending h.composing hm.first hs₀ htrial).2 _ rfl
  exact ⟨harising.over, hm.coverage ▸ hsub, hne⟩

theorem trial_outdoes {made : Coverage α} {res : Option (Nat × Coverage α)} (hall : AllSought final)
    (hmakes : Makes sources limits origin root final path deeper o ctx c₀ made)
    (hs : Steady sources' limits' origin root (pathKey o ctx.scale :: path) s)
    (htime : s.timedOut = false) (h₁ : Trial deeper' o ctx c s res s') :
    ∃ id made', res = some (id, made') ∧ made.region ⊆ made'.region := by
  obtain ⟨-, -, p, hp⟩ := Makes.spec h hm hmakes
  obtain ⟨s₀, s₀', id, hs₀, htrial, hfinal⟩ := hmakes
  cases htrial with
  | @made links _ s₁ hrun₀ hne =>
    have hnode : (⟨s₁.nodes.length, o, ctx.scale, .model c₀.model, made, links⟩ : Node α) ∈ final :=
      hfinal.subset (List.mem_append_right _ List.mem_cons_self)
    have hrest : ∀ {r s₂}, LinkRun deeper' c.model o ctx c.model.dependencies c.coverage s r s₂ →
        ∃ links' c', r = some (links', c') ∧ made.region ⊆ c'.region := by
      intro r s₂ hrun
      rw [hm.model] at hrun
      refine linkRun_outdoes h hm hs₀ hs htime (List.Subset.refl _)
        ((List.prefix_append _ _).trans hfinal) (hall _ hnode _ rfl) (.claim hm.first)
        (.claim hm.second) (hm.coverage ▸ Set.Subset.rfl) hrun₀ rfl hrun
    cases h₁ with
    | refused hrun =>
      obtain ⟨_, _, hsome, -⟩ := hrest hrun
      cases hsome
    | uncovered hrun hnone =>
      obtain ⟨_, _, hsome, hsub⟩ := hrest hrun
      cases hsome
      obtain ⟨shape, hshape, -⟩ := hsub hp
      rw [hnone] at hshape
      cases hshape
    | made hrun _ =>
      obtain ⟨_, _, hsome, hsub⟩ := hrest hrun
      cases hsome
      exact ⟨_, _, rfl, hsub⟩

omit h hm in
theorem tryRun_makes (hext : Extending deeper)
    (hcomposing : Composing sources limits origin root remaining (pathKey o ctx.scale :: path)
      deeper) {cs : List (Candidate α)}
    (hcs : ∀ c ∈ cs, Eligible sources limits origin root remaining path o ctx c)
    {accepted : List Nat} {covered : Coverage α} {res : List Nat × Coverage α}
    (hs : Steady sources limits origin root (pathKey o ctx.scale :: path) s)
    (hin : ∀ i ∈ accepted, i < s.nodes.length) (hc : covered.Over ctx.scale)
    (hfinal : s'.nodes <+: final) (h₀ : TryRun limits deeper o ctx cs accepted covered s res s')
    {p : Point α} (hp : p ∈ res.2.region) : p ∈ covered.region ∨ ∃ c ∈ cs, ∃ made,
      Makes sources limits origin root final path deeper o ctx c made ∧ p ∈ made.region := by
  induction h₀ with
  | nil => exact .inl hp
  | complete => exact .inl hp
  | late => exact .inl hp
  | skipped _ _ _ ih =>
    obtain hp | ⟨c, hmem, hmade⟩ := ih (List.forall_mem_cons.mp hcs).2 (hs.look limits)
      (by simpa using hin) hc hfinal hp
    · exact .inl hp
    · exact .inr ⟨c, List.mem_cons_of_mem _ hmem, hmade⟩
  | dropped _ _ htrial _ _ ih =>
    obtain ⟨hfirst, hcs⟩ := List.forall_mem_cons.mp hcs
    obtain ⟨he, -, hback⟩ := trial_steady hext hcomposing hfirst hs htrial
    obtain hp | ⟨c, hmem, hmade⟩ := ih hcs hback (by rwa [he.nodes_rollback]) hc hfinal hp
    · exact .inl hp
    · exact .inr ⟨c, List.mem_cons_of_mem _ hmem, hmade⟩
  | @accepted c _ _ _ coverage id s s₁ _ _ _ _ htrial _ hrun ih =>
    obtain ⟨hfirst, hcs⟩ := List.forall_mem_cons.mp hcs
    obtain ⟨he, hs₁, -⟩ := trial_steady hext hcomposing hfirst hs htrial
    have hover := ((trial_composes hext hcomposing hfirst (hs.look limits) htrial).2 _ rfl).1.over
    have hin := he.found_append hin
    obtain hp | ⟨c', hmem, hmade⟩ := ih hcs hs₁ hin (hc.merge _) hfinal hp
    · rcases (Coverage.mem_merge hc hover).mp hp with hp | hp
      · exact .inl hp
      · have hprefix := (tryRun_extends hext he.sound hin hrun).nodes.trans hfinal
        exact .inr ⟨c, List.mem_cons_self, coverage,
          ⟨_, s₁, id, hs.look limits, htrial, hprefix⟩, hp⟩
    · exact .inr ⟨c', List.mem_cons_of_mem _ hmem, hmade⟩

omit hm in
/-- The second searcher covers what the first one makes for its candidates. -/
theorem tryRun_outdoes (hclock : ∀ n, limits'.isLate n = false)
    (hsharp : Sharp sources' limits' origin root) (hall : AllSought final) {cs : List (Candidate α)}
    (hasked : Asked sources' limits' origin root (remaining + 1) path o ctx)
    (hcs : ∀ c ∈ cs, Eligible sources' limits' origin root remaining path o ctx c)
    {accepted : List Nat} {covered : Coverage α} {res : List Nat × Coverage α}
    (hs : Steady sources' limits' origin root (pathKey o ctx.scale :: path) s)
    (htime : s.timedOut = false)
    (hc : Arising sources' limits' origin root o.key ctx.scale covered)
    (h₁ : TryRun limits' deeper' o ctx cs accepted covered s res s') :
    covered.region ⊆ res.2.region ∧ ∀ c ∈ cs, ∀ c₀ made,
      Matched sources sources' limits limits' origin root remaining path o ctx c₀ c →
        Makes sources limits origin root final path deeper o ctx c₀ made →
          made.region ⊆ res.2.region := by
  -- what the first searcher makes does not depend on the second one's state: the induction is on
  -- the second run alone, and each candidate is either accepted or adds no point
  induction h₁ with
  | nil => exact ⟨fun _ hp => hp, by simp⟩
  | complete hcomplete =>
    refine ⟨fun _ hp => hp, fun c _ c₀ made hm hmakes p hp => ?_⟩
    have hover := (Makes.spec h hm hmakes).1
    exact (hsharp.complete hasked hc).mp hcomplete p (hover.scale_eq ▸ hover.proper.inside hp)
  | late hlate => simp [look_onTime hclock htime] at hlate
  | @skipped c _ _ _ _ _ _ _ hgain _ ih =>
    obtain ⟨hcan, hcs⟩ := List.forall_mem_cons.mp hcs
    have htime := (Advances.look hclock _).timedOut.trans htime
    obtain ⟨hsub, hrest⟩ := ih hcs (hs.look limits') htime hc
    refine ⟨hsub, List.forall_mem_cons.mpr ⟨fun c₀ made hm hmakes p hp => ?_, hrest⟩⟩
    have hp := (Makes.spec h hm hmakes).2.1 hp
    exact hsub (hsharp.contributes hasked hc (.claim hcan) hgain hp)
  | @dropped c _ _ _ s s₁ _ _ _ _ _ htrial hless _ ih =>
    obtain ⟨hcan, hcs⟩ := List.forall_mem_cons.mp hcs
    have hmade := (trial_composes h.extending' h.composing' hcan (hs.look limits') htrial).2
    have htime₁ := (Advances.look hclock s).timedOut.trans htime
    have hback :=
      ((Advances.refl _).trans (trial_advances h.advancing' htrial)).rollback s.nodes.length
    obtain ⟨hsub, hrest⟩ := ih hcs (trial_steady h.extending' h.composing' hcan hs htrial).2.2
      (hback.timedOut.trans htime₁) hc
    refine ⟨hsub, List.forall_mem_cons.mpr ⟨fun c₀ made hm hmakes p hp => ?_, hrest⟩⟩
    obtain ⟨id, made', hsome, hmore⟩ :=
      trial_outdoes h hm hall hmakes (hs.look limits') htime₁ htrial
    exact hsub (hsharp.contributes hasked hc (hmade _ hsome).1 (hless _ hsome) (hmore hp))
  | @accepted c _ _ covered coverage id s s₁ _ _ _ _ htrial _ _ ih =>
    obtain ⟨hcan, hcs⟩ := List.forall_mem_cons.mp hcs
    obtain ⟨harising, -⟩ :=
      (trial_composes h.extending' h.composing' hcan (hs.look limits') htrial).2 _ rfl
    have htime₁ := (Advances.look hclock s).timedOut.trans htime
    obtain ⟨hsub, hrest⟩ := ih hcs (trial_steady h.extending' h.composing' hcan hs htrial).2.1
      ((trial_advances h.advancing' htrial).timedOut.trans htime₁) (hc.merge harising)
    have hmem : ∀ p, p ∈ (covered.merge coverage).region ↔
        p ∈ covered.region ∨ p ∈ coverage.region :=
      fun _ => Coverage.mem_merge hc.over harising.over
    refine ⟨fun p hp => hsub ((hmem p).mpr (.inl hp)),
      List.forall_mem_cons.mpr ⟨fun c₀ made hm hmakes p hp => ?_, hrest⟩⟩
    obtain ⟨_, _, hsome, hmore⟩ := trial_outdoes h hm hall hmakes (hs.look limits') htime₁ htrial
    cases hsome
    exact hsub ((hmem p).mpr (.inr (hmore hp)))

end outdoes

/-! ## Branches -/

variable [LawfulCoordinate α] [LegibleCoordinate α]

/-- A search over richer sources covers what a search that uses no branch again finds. -/
theorem branch_outdoes (hreuses : limits.reuses = false) (hclock : ∀ n, limits'.isLate n = false)
    (hs : sources.Reliable) (hs' : sources'.Reliable) (hrich : sources.Richer sources')
    (hsharp : Sharp sources' limits' origin root) (hall : AllSought final) (remaining : Nat)
    (path : List String) :
    Outdoes sources sources' limits limits' origin root final remaining path
      (branch sources limits remaining) (branch sources' limits' remaining) := by
  induction remaining using Nat.strongRecOn generalizing path with
  | ind remaining ih =>
    refine ⟨branch_extends sources limits remaining, branch_extends sources' limits' remaining,
      branch_advances hclock sources' remaining, branch_composes sources limits origin root _ path,
      branch_composes sources' limits' origin root _ path, ?_⟩
    intro o ctx s₀ s₀' s s' b₀ b hasked₀ hasked hs₀ hs₁ htime hb₀ hfinal hb
    cases branchStep hb₀ with
    | cycle => simp [Branch.failed]
    | tooDeep => simp [Branch.failed]
    | late => simp [Branch.failed]
    | kept _ hkept => simp [kept?, hreuses] at hkept
    | @searched remaining _ _ _ s₁₀ found₀ accepted₀ covered₀ hpath₀ _ hfound₀ hrun₀ =>
      have hdeep := ih remaining (Nat.lt_succ_self _) (pathKey o ctx.scale :: path)
      have hpath : pathKey o ctx.scale ∉ path := hs₀.path_eq ▸ hpath₀
      have hcs₀ : ∀ c ∈ found₀.list, Eligible sources limits origin root remaining path o ctx c :=
        fun c hc => ⟨hasked₀, hpath, found₀, hfound₀, hc⟩
      rw [coverage_conclude_fst]
      cases branchStep hb with
      | cycle hpath₁ => exact absurd (hs₁.path_eq ▸ hpath₁) hpath
      | late _ hlate => simp [look_onTime hclock htime] at hlate
      | kept _ hkept =>
        -- wherever it was searched, a kept branch is complete, so no point is missing
        obtain ⟨hcovering, hcomplete⟩ := hs₁.kept.kept hkept
        have hover := (tryRun_composes hdeep.extending hdeep.composing hcs₀ hs₀.entered .empty
          hrun₀).2.arising.over
        exact fun p hp => (hsharp.complete hasked hcovering.arising).mp hcomplete p
          (hover.scale_eq ▸ hover.proper.inside hp)
      | @searched _ _ _ _ s₁ found accepted covered _ _ hfound hrun =>
        rw [coverage_conclude_fst]
        have hcs : ∀ c ∈ found.list, Eligible sources' limits' origin root remaining path o ctx c :=
          fun c hc => ⟨hasked, hpath, found, hfound, hc⟩
        have htime₁ : (entered limits' o ctx found s).timedOut = false :=
          (Advances.look hclock s).timedOut.trans htime
        have hfinal₀ : s₁₀.nodes <+: final := by simpa [left] using hfinal
        intro p hp
        obtain hp | ⟨c₀, hc₀, made, hmakes, hp⟩ := tryRun_makes hdeep.extending hdeep.composing
          hcs₀ hs₀.entered (by simp) (.empty _) hfinal₀ hrun₀ hp
        · simp at hp
        · obtain ⟨c, hc, hmodel, hcoverage⟩ :=
            Candidate.mem_lookup_richer hs hs' hrich hfound₀ hfound hc₀
          exact (tryRun_outdoes hdeep hclock hsharp hall hasked hcs hs₁.entered htime₁ .empty
            hrun).2 c hc c₀ made ⟨hcs₀ c₀ hc₀, hcs c hc, hmodel, hcoverage⟩ hmakes hp

end Obsplan.Search
