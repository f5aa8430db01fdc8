import Obsplan.Proofs.Resolution.Coverage

/-!
# What coverages a search composes

A search is asked for an observable, and then for what its candidates need. All coverages that it
composes for what it is asked are made of what candidates claim: cut down to what is found for their
dependencies, and added up. A branch without nodes covers nothing, one with nodes covers something,
and only branches that count as complete are kept.
-/

namespace Obsplan.Search

variable {α : Type} [Coordinate α] {sources : Sources α} {limits : Limits α} {origin : Observable}
  {root : Context α} {remaining : Nat} {path : List String} {key : String} {scale : Scale α}
  {c : Coverage α} {s s₁ s' : SearchState α} {o : Observable} {ctx : Context α}
  {candidate : Candidate α}

/-! ## What a search is asked for -/

/-- What a search can be asked for, so many levels above the deepest one and below a path: the
observable that it starts with, and what the candidates that it can try need. -/
inductive Asked (sources : Sources α) (limits : Limits α) (origin : Observable) (root : Context α) :
    Nat → List String → Observable → Context α → Prop where
  | start : Asked sources limits origin root (limits.maxDepth + 1) [] origin root
  | needed {remaining : Nat} {path : List String} {o : Observable} {ctx : Context α}
      {candidate : Candidate α} {d : Dependency α} :
      Asked sources limits origin root (remaining + 1) path o ctx → pathKey o ctx.scale ∉ path →
      Ranked sources o ctx candidate → d ∈ candidate.model.dependencies → d.deferred = false →
      Asked sources limits origin root remaining (pathKey o ctx.scale :: path) d.observable
        (inner candidate.model ctx d)

/-- A candidate that a search can try for what it is asked for. -/
structure Eligible (sources : Sources α) (limits : Limits α) (origin : Observable)
    (root : Context α) (remaining : Nat) (path : List String) (o : Observable) (ctx : Context α)
    (candidate : Candidate α) : Prop where
  asked : Asked sources limits origin root (remaining + 1) path o ctx
  path : pathKey o ctx.scale ∉ path
  ranked : Ranked sources o ctx candidate

theorem Eligible.needed (h : Eligible sources limits origin root remaining path o ctx candidate)
    {d : Dependency α} (hd : d ∈ candidate.model.dependencies) (hdef : d.deferred = false) :
    Asked sources limits origin root remaining (pathKey o ctx.scale :: path) d.observable
      (inner candidate.model ctx d) := .needed h.asked h.path h.ranked hd hdef

/-! ## Coverages that arise -/

/-- What a search can compose over a scale for the observables of a key: what candidates claim, that
cut down to what can be composed for a dependency, and unions. -/
inductive Arising (sources : Sources α) (limits : Limits α) (origin : Observable)
    (root : Context α) : String → Scale α → Coverage α → Prop where
  | empty {key : String} {scale : Scale α} :
      Arising sources limits origin root key scale (.empty scale)
  | claim {remaining : Nat} {path : List String} {o : Observable} {ctx : Context α}
      {candidate : Candidate α} :
      Eligible sources limits origin root remaining path o ctx candidate →
      Arising sources limits origin root o.key ctx.scale candidate.coverage
  | narrowed {remaining : Nat} {path : List String} {o : Observable} {ctx : Context α}
      {candidate : Candidate α} {d : Dependency α} {c found : Coverage α} :
      Eligible sources limits origin root remaining path o ctx candidate →
      d ∈ candidate.model.dependencies → Arising sources limits origin root o.key ctx.scale c →
      Arising sources limits origin root d.observable.key (inner candidate.model ctx d).scale
        found →
      Arising sources limits origin root o.key ctx.scale (narrowed d c found)
  | merge {key : String} {scale : Scale α} {c c' : Coverage α} :
      Arising sources limits origin root key scale c →
      Arising sources limits origin root key scale c' →
      Arising sources limits origin root key scale (c.merge c')

theorem Arising.over [LawfulCoordinate α] (h : Arising sources limits origin root key scale c) :
    c.Over scale := by
  induction h with
  | empty => exact .empty _
  | claim hcan => exact hcan.ranked.coverage_eq ▸ Model.over_coverageOver
  | narrowed _ _ _ _ ih _ => exact narrowed_over ih
  | merge _ _ ih _ => exact ih.merge _

/-- What nodes add up to: something arising, and nothing only when there are none. -/
structure Covering (sources : Sources α) (limits : Limits α) (origin : Observable)
    (root : Context α) (key : String) (scale : Scale α) (ids : List Nat) (c : Coverage α) :
    Prop where
  arising : Arising sources limits origin root key scale c
  empty_iff : ids = [] ↔ c.region = ∅

theorem Covering.empty : Covering sources limits origin root key scale [] (.empty scale) :=
  ⟨.empty, by simp⟩

/-- Every kept branch counts as complete. -/
def KeepsWhole (sources : Sources α) (limits : Limits α) (origin : Observable) (root : Context α)
    (s : SearchState α) : Prop :=
  ∀ e ∈ s.resolved.entries, e.2.coverage.isComplete limits.tolerance = true ∧
    ∃ (o : Observable) (ctx : Context α), branchKey o ctx.scale ctx.constraints = e.1 ∧
      Covering sources limits origin root o.key ctx.scale e.2.nodes e.2.coverage

namespace KeepsWhole

theorem start : KeepsWhole sources limits origin root ({} : SearchState α) := by
  simp [KeepsWhole, Keyed.empty]

theorem congr (h : KeepsWhole sources limits origin root s) (hr : s'.resolved = s.resolved) :
    KeepsWhole sources limits origin root s' := by
  intro e he
  rw [hr] at he
  exact h e he

theorem look (h : KeepsWhole sources limits origin root s) (limits' : Limits α) :
    KeepsWhole sources limits origin root (s.look limits').2 := h.congr (s.resolved_look limits')

theorem rollback (h : KeepsWhole sources limits origin root s) (checkpoint : Nat) :
    KeepsWhole sources limits origin root (s.rollback checkpoint) :=
  fun e he => h e (SearchState.mem_resolved_rollback he).1

theorem kept [LegibleCoordinate α] (h : KeepsWhole sources limits origin root s) {b : Branch α}
    (hk : kept? limits o ctx s = some b) :
    Covering sources limits origin root o.key ctx.scale b.nodes b.coverage ∧
      b.coverage.isComplete limits.tolerance = true := by
  simp only [kept?] at hk
  split at hk
  · -- the key tells what is observed and the scale, though not on which path that was searched
    obtain ⟨hcomplete, o', ctx', hkey, hcovering⟩ := h _ (Keyed.mem_of_get? hk)
    obtain ⟨hobserved, hscale, -⟩ := branchKey_injective hkey
    exact ⟨hscale ▸ hobserved ▸ hcovering, hcomplete⟩
  · cases hk

end KeepsWhole

/-- A state in which branches below a path can be searched. -/
structure Steady (sources : Sources α) (limits : Limits α) (origin : Observable) (root : Context α)
    (path : List String) (s : SearchState α) : Prop where
  sound : Sound s
  path_eq : s.path = path
  kept : KeepsWhole sources limits origin root s

namespace Steady

theorem start : Steady sources limits origin root [] ({} : SearchState α) := ⟨.start, rfl, .start⟩

theorem next {out : List Nat} (h : Steady sources limits origin root path s)
    (he : Extends s s' out) (hk : KeepsWhole sources limits origin root s') :
    Steady sources limits origin root path s' := ⟨he.sound, he.path.trans h.path_eq, hk⟩

theorem look (h : Steady sources limits origin root path s) (limits' : Limits α) :
    Steady sources limits origin root path (s.look limits').2 :=
  h.next h.sound.look (h.kept.look limits')

theorem entered {found : Candidates α} (h : Steady sources limits origin root path s) :
    Steady sources limits origin root (pathKey o ctx.scale :: path)
      (entered limits o ctx found s) :=
  ⟨entered_sound h.sound, by simp [Search.entered, h.path_eq],
    h.kept.congr (by simp [Search.entered])⟩

end Steady

theorem isComplete_conclude {accepted : List Nat} {covered : Coverage α}
    (h : (conclude limits o accepted covered s).1.outcome = .resolved) :
    covered.isComplete limits.tolerance = true := by
  unfold conclude at h
  split at h
  · split at h <;> cases h
  · split at h
    · assumption
    · cases h

/-! ## What the parts of the search compose -/

/-- A searcher that finds arising coverage for what can be asked for. -/
def Composing (sources : Sources α) (limits : Limits α) (origin : Observable) (root : Context α)
    (remaining : Nat) (path : List String) (deeper : Searcher α) : Prop :=
  ∀ {o : Observable} {ctx : Context α} {s s' : SearchState α} {b : Branch α},
    Asked sources limits origin root remaining path o ctx →
      Steady sources limits origin root path s → deeper o ctx s = .ok (b, s') →
        KeepsWhole sources limits origin root s' ∧
          Covering sources limits origin root o.key ctx.scale b.nodes b.coverage

variable {deeper : Searcher α} [LawfulCoordinate α]

/-- Narrowing takes points away, and keeps those that the dependency has. -/
theorem mem_narrowed {m : Model α} {d : Dependency α} {found : Coverage α} {p : Point α}
    (hc : c.Over ctx.scale) (hfound : found.Over (inner m ctx d).scale) :
    p ∈ (narrowed d c found).region ↔
      p ∈ c.region ∧ (d.observable.optional = false → d.scale = none → p ∈ found.region) := by
  unfold narrowed
  split
  · rename_i hd
    obtain ⟨hmandatory, hscale⟩ := Bool.and_eq_true_iff.mp hd
    have hscale : d.scale = none := by simpa using hscale
    have hown : found.Over ctx.scale := by simpa [inner, Context.atScale, hscale] using hfound
    rw [Coverage.mem_intersect hc hown]
    have hmandatory : d.observable.optional = false := by simpa using hmandatory
    exact and_congr_right fun _ => ⟨fun hp _ _ => hp, fun hp => hp hmandatory hscale⟩
  · rename_i hd
    refine ⟨fun hp => ⟨hp, fun hmandatory hscale => ?_⟩, fun hp => hp.1⟩
    exact absurd (by simp [hmandatory, hscale]) hd

section composes

variable (hext : Extending deeper)
  (hdeep : Composing sources limits origin root remaining (pathKey o ctx.scale :: path) deeper)
  (hcan : Eligible sources limits origin root remaining path o ctx candidate)

include hdeep hcan

theorem linkStep_composes (hs : Steady sources limits origin root (pathKey o ctx.scale :: path) s)
    {d : Dependency α} (hd : d ∈ candidate.model.dependencies) {res : Option (Link × Coverage α)}
    (hc : Arising sources limits origin root o.key ctx.scale c)
    (h : LinkStep deeper candidate.model ctx d c s res s') :
    KeepsWhole sources limits origin root s' ∧
      ∀ r ∈ res, Arising sources limits origin root o.key ctx.scale r.2 ∧
        r.2.region ⊆ c.region := by
  cases h with
  | deferred =>
    refine ⟨hs.kept.congr rfl, ?_⟩
    rintro _ ⟨⟩
    exact ⟨hc, fun _ hp => hp⟩
  | found hdef hb _ =>
    obtain ⟨hk, hcovering⟩ := hdeep (hcan.needed hd hdef) hs hb
    refine ⟨hk, ?_⟩
    rintro _ ⟨⟩
    exact ⟨.narrowed hcan hd hc hcovering.arising,
      fun _ hp => ((mem_narrowed hc.over hcovering.arising.over).mp hp).1⟩
  | @missing _ s₁ n _ _ hdef hb _ _ =>
    refine ⟨(hdeep (hcan.needed hd hdef) hs hb).1.congr rfl, ?_⟩
    rintro _ ⟨⟩
    exact ⟨hc, fun _ hp => hp⟩
  | refused hdef hb => exact ⟨(hdeep (hcan.needed hd hdef) hs hb).1.congr rfl, by simp⟩

include hext

theorem linkRun_composes (hs : Steady sources limits origin root (pathKey o ctx.scale :: path) s)
    {ds : List (Dependency α)} (hds : ds ⊆ candidate.model.dependencies)
    {res : Option (List Link × Coverage α)}
    (hc : Arising sources limits origin root o.key ctx.scale c)
    (h : LinkRun deeper candidate.model o ctx ds c s res s') :
    KeepsWhole sources limits origin root s' ∧
      ∀ r ∈ res, Arising sources limits origin root o.key ctx.scale r.2 ∧
        r.2.region ⊆ c.region := by
  induction h with
  | nil =>
    refine ⟨hs.kept, ?_⟩
    rintro _ ⟨⟩
    exact ⟨hc, fun _ hp => hp⟩
  | cons hstep _ ih =>
    obtain ⟨hd, hds⟩ := List.cons_subset.mp hds
    obtain ⟨hk₁, hl⟩ := linkStep_composes hdeep hcan hs hd hc hstep
    obtain ⟨hc₁, hsub⟩ := hl _ rfl
    obtain ⟨hk', hls⟩ := ih (hs.next (linkStep_extends hext hs.sound hstep) hk₁) hds hc₁
    refine ⟨hk', ?_⟩
    rintro _ ⟨⟩
    obtain ⟨harising, hsub'⟩ := hls _ rfl
    exact ⟨harising, fun p hp => hsub (hsub' hp)⟩
  | refused hstep =>
    exact ⟨(linkStep_composes hdeep hcan hs (List.cons_subset.mp hds).1 hc hstep).1, by simp⟩
  | refusedLater hstep _ ih =>
    obtain ⟨hd, hds⟩ := List.cons_subset.mp hds
    obtain ⟨hk₁, hl⟩ := linkStep_composes hdeep hcan hs hd hc hstep
    have hs₁ := hs.next (linkStep_extends hext hs.sound hstep) hk₁
    exact ⟨(ih hs₁ hds (hl _ rfl).1).1, by simp⟩

theorem trial_composes (hs : Steady sources limits origin root (pathKey o ctx.scale :: path) s)
    {res : Option (Nat × Coverage α)} (h : Trial deeper o ctx candidate s res s') :
    KeepsWhole sources limits origin root s' ∧
      ∀ r ∈ res, Arising sources limits origin root o.key ctx.scale r.2 ∧
        r.2.region ⊆ candidate.coverage.region ∧ r.2.region.Nonempty := by
  have hds := List.Subset.refl candidate.model.dependencies
  have hclaim := Arising.claim hcan
  cases h with
  | refused hrun => exact ⟨(linkRun_composes hext hdeep hcan hs hds hclaim hrun).1, by simp⟩
  | uncovered hrun =>
    exact ⟨(linkRun_composes hext hdeep hcan hs hds hclaim hrun).1.congr rfl, by simp⟩
  | made hrun hne =>
    obtain ⟨hk₁, hl⟩ := linkRun_composes hext hdeep hcan hs hds hclaim hrun
    obtain ⟨harising, hsub⟩ := hl _ rfl
    refine ⟨hk₁.congr rfl, ?_⟩
    rintro _ ⟨⟩
    exact ⟨harising, hsub, Coverage.region_nonempty hne⟩

/-- The next candidate can be tried after a candidate was. -/
theorem trial_steady (hs : Steady sources limits origin root (pathKey o ctx.scale :: path) s)
    {res : Option (Nat × Coverage α)}
    (h : Trial deeper o ctx candidate (s.look limits).2 res s₁) :
    Extends s s₁ (res.elim [] fun r => [r.1]) ∧
      Steady sources limits origin root (pathKey o ctx.scale :: path) s₁ ∧
      Steady sources limits origin root (pathKey o ctx.scale :: path)
        (s₁.rollback s.nodes.length) := by
  have he := hs.sound.look.trans (trial_extends hext hs.sound.look.sound h)
  have hk := (trial_composes hext hdeep hcan (hs.look limits) h).1
  exact ⟨he, hs.next he hk, hs.next he.rollback (hk.rollback _)⟩

end composes

theorem Covering.accept {accepted : List Nat} {covered coverage : Coverage α} {id : Nat}
    (h : Covering sources limits origin root key scale accepted covered)
    (hc : Arising sources limits origin root key scale coverage) (hne : coverage.region.Nonempty) :
    Covering sources limits origin root key scale (accepted ++ [id]) (covered.merge coverage) where
  arising := h.arising.merge hc
  empty_iff := by
    obtain ⟨p, hp⟩ := hne
    have hmem := (Coverage.mem_merge h.arising.over hc.over).mpr (.inr hp)
    refine ⟨by simp, fun hempty => ?_⟩
    rw [hempty] at hmem
    cases hmem

theorem tryRun_composes (hext : Extending deeper)
    (hdeep : Composing sources limits origin root remaining (pathKey o ctx.scale :: path) deeper)
    {cs : List (Candidate α)}
    (hcs : ∀ c ∈ cs, Eligible sources limits origin root remaining path o ctx c)
    (hs : Steady sources limits origin root (pathKey o ctx.scale :: path) s) {accepted : List Nat}
    {covered : Coverage α} {res : List Nat × Coverage α}
    (hc : Covering sources limits origin root o.key ctx.scale accepted covered)
    (h : TryRun limits deeper o ctx cs accepted covered s res s') :
    KeepsWhole sources limits origin root s' ∧
      Covering sources limits origin root o.key ctx.scale res.1 res.2 := by
  induction h with
  | nil => exact ⟨hs.kept, hc⟩
  | complete => exact ⟨hs.kept, hc⟩
  | late => exact ⟨hs.kept.look limits, hc⟩
  | skipped _ _ _ ih => exact ih (List.forall_mem_cons.mp hcs).2 (hs.look limits) hc
  | dropped _ _ htrial _ _ ih =>
    obtain ⟨hfirst, hcs⟩ := List.forall_mem_cons.mp hcs
    exact ih hcs (trial_steady hext hdeep hfirst hs htrial).2.2 hc
  | accepted _ _ htrial _ _ ih =>
    obtain ⟨hfirst, hcs⟩ := List.forall_mem_cons.mp hcs
    obtain ⟨harising, -, hne⟩ :=
      (trial_composes hext hdeep hfirst (hs.look limits) htrial).2 _ rfl
    exact ih hcs (trial_steady hext hdeep hfirst hs htrial).2.1 (hc.accept harising hne)

theorem branchStep_composes [LegibleCoordinate α] {b : Branch α}
    (hdeep : ∀ n < remaining, ∀ path,
      Composing sources limits origin root n path (branch sources limits n))
    (hasked : Asked sources limits origin root remaining path o ctx)
    (hs : Steady sources limits origin root path s)
    (h : BranchStep sources limits remaining o ctx s b s') :
    KeepsWhole sources limits origin root s' ∧
      Covering sources limits origin root o.key ctx.scale b.nodes b.coverage := by
  cases h with
  | cycle => exact ⟨hs.kept.congr rfl, .empty⟩
  | tooDeep => exact ⟨hs.kept.congr rfl, .empty⟩
  | kept _ hkept => exact ⟨hs.kept, (hs.kept.kept hkept).1⟩
  | late => exact ⟨hs.kept.look limits, .empty⟩
  | @searched remaining _ _ s s₁ found accepted covered hpath _ hfound hrun =>
    have hcs : ∀ c ∈ found.list, Eligible sources limits origin root remaining path o ctx c :=
      fun c hc => ⟨hasked, hs.path_eq ▸ hpath, found, hfound, hc⟩
    obtain ⟨hk₁, hcovering⟩ := tryRun_composes (branch_extends sources limits remaining)
      (hdeep remaining (Nat.lt_succ_self _) _) hcs hs.entered .empty hrun
    refine ⟨fun e he => ?_, by simpa using hcovering⟩
    simp only [left, resolved_conclude] at he
    split at he
    · rename_i hresolved
      rcases Keyed.mem_insert he with rfl | he
      · exact ⟨by simpa using isComplete_conclude hresolved, o, ctx, rfl, by simpa using hcovering⟩
      · exact hk₁ e he
    · exact hk₁ e he

theorem branch_composes [LegibleCoordinate α] (sources : Sources α) (limits : Limits α)
    (origin : Observable) (root : Context α) (remaining : Nat) (path : List String) :
    Composing sources limits origin root remaining path (branch sources limits remaining) := by
  induction remaining using Nat.strongRecOn generalizing path with
  | ind remaining ih => exact fun hasked hs h => branchStep_composes ih hasked hs (branchStep h)

end Obsplan.Search
