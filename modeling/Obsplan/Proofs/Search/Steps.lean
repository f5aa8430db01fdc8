import Obsplan.Resolution.Search

/-!
# The steps of a search

What each part of the search can do, case by case. A part that runs to its end has taken one of the
listed steps, so what the steps preserve is preserved by the search.
-/

namespace Obsplan.Search

variable {α : Type} [Coordinate α]

/-- The context in which a model has its dependency searched. -/
def inner (m : Model α) (ctx : Context α) (d : Dependency α) : Context α :=
  (ctx.constrained (preferences m)).atScale (d.scale.getD ctx.scale)

/-- What stands for a dependency that has no model, and what it covers. -/
inductive StandsIn (d : Dependency α) (scale : Scale α) : Means α → Coverage α → Prop where
  | deferred : d.deferred = true → StandsIn d scale .deferred (.full scale)
  | constant {value : Value} : d.deferred = false → d.observable.defaultValue = some value →
      StandsIn d scale (.constant value) (.full scale)
  | unresolved : d.deferred = false → d.observable.defaultValue = none →
      d.observable.optional = true → StandsIn d scale .unresolved (.empty scale)

/-- The coverage of a model after a dependency was found. -/
def narrowed (d : Dependency α) (coverage found : Coverage α) : Coverage α :=
  if !d.observable.optional && d.scale.isNone then coverage.intersect found else coverage

/-! ## Dependencies -/

/-- How a dependency is linked. -/
inductive LinkStep (deeper : Searcher α) (m : Model α) (ctx : Context α) (d : Dependency α)
    (coverage : Coverage α) (s : SearchState α) :
    Option (Link × Coverage α) → SearchState α → Prop where
  /-- A deferred dependency is not searched. -/
  | deferred : d.deferred = true →
      LinkStep deeper m ctx d coverage s (some (⟨d.observable, [s.nodes.length]⟩, coverage))
        (s.push d.observable (d.scale.getD ctx.scale) .deferred (.full (d.scale.getD ctx.scale)) []).2
  | found {b : Branch α} {s₁ : SearchState α} : d.deferred = false →
      deeper d.observable (inner m ctx d) s = .ok (b, s₁) → b.nodes ≠ [] →
      LinkStep deeper m ctx d coverage s
        (some (⟨d.observable, b.nodes⟩, narrowed d coverage b.coverage)) s₁
  /-- Nothing was found, and something stands in. -/
  | missing {b : Branch α} {s₁ : SearchState α} {n : Notification} {means : Means α}
      {covered : Coverage α} : d.deferred = false →
      deeper d.observable (inner m ctx d) s = .ok (b, s₁) → b.nodes = [] →
      StandsIn d (d.scale.getD ctx.scale) means covered →
      LinkStep deeper m ctx d coverage s (some (⟨d.observable, [s₁.nodes.length]⟩, coverage))
        ((s₁.notify n).push d.observable (d.scale.getD ctx.scale) means covered []).2
  /-- Nothing was found, and the model cannot do without it. -/
  | refused {b : Branch α} {s₁ : SearchState α} {n : Notification} : d.deferred = false →
      deeper d.observable (inner m ctx d) s = .ok (b, s₁) → b.nodes = [] →
      d.observable.defaultValue = none → d.observable.optional = false →
      LinkStep deeper m ctx d coverage s none (s₁.notify n)

theorem linkStep {deeper : Searcher α} {m : Model α} {o : Observable} {ctx : Context α}
    {d : Dependency α} {coverage : Coverage α} {s s' : SearchState α}
    {res : Option (Link × Coverage α)}
    (h : linkDependency deeper m o ctx d coverage s = .ok (res, s')) :
    LinkStep deeper m ctx d coverage s res s' := by
  simp only [linkDependency] at h
  by_cases hd : d.deferred = true
  · simp only [hd, if_true, standIn, Except.ok.injEq, Prod.mk.injEq] at h
    obtain ⟨rfl, rfl⟩ := h
    exact .deferred hd
  · have hd : d.deferred = false := by simpa using hd
    simp only [hd, Bool.false_eq_true, if_false] at h
    match hb : deeper d.observable (inner m ctx d) s with
    | .error e => simp only [inner] at hb; rw [hb] at h; cases h
    | .ok (b, s₁) =>
      have hb' := hb
      simp only [inner] at hb'
      rw [hb'] at h
      change (if b.nodes.isEmpty then _ else _) = _ at h
      by_cases hn : b.nodes = []
      · simp only [hn, List.isEmpty_nil, if_true, linkMissing] at h
        split at h
        · rename_i value hv
          cases h; exact .missing hd hb hn (.constant hd hv)
        · rename_i hv
          by_cases hopt : d.observable.optional = true
          · rw [if_pos hopt] at h
            cases h; exact .missing hd hb hn (.unresolved hd hv hopt)
          · rw [if_neg hopt] at h
            cases h; exact .refused hd hb hn hv (by simpa using hopt)
      · have hn' : b.nodes.isEmpty = false := by simpa using hn
        simp only [hn', Bool.false_eq_true, if_false] at h
        cases h; exact .found hd hb hn

/-- How all dependencies are linked in turn. -/
inductive LinkRun (deeper : Searcher α) (m : Model α) (o : Observable) (ctx : Context α) :
    List (Dependency α) → Coverage α → SearchState α →
    Option (List Link × Coverage α) → SearchState α → Prop where
  | nil {coverage : Coverage α} {s : SearchState α} :
      LinkRun deeper m o ctx [] coverage s (some ([], coverage)) s
  | cons {d : Dependency α} {ds : List (Dependency α)} {coverage coverage₁ coverage₂ : Coverage α}
      {s s₁ s₂ : SearchState α} {link : Link} {links : List Link} :
      LinkStep deeper m ctx d coverage s (some (link, coverage₁)) s₁ →
      LinkRun deeper m o ctx ds coverage₁ s₁ (some (links, coverage₂)) s₂ →
      LinkRun deeper m o ctx (d :: ds) coverage s (some (link :: links, coverage₂)) s₂
  | refused {d : Dependency α} {ds : List (Dependency α)} {coverage : Coverage α}
      {s s₁ : SearchState α} :
      LinkStep deeper m ctx d coverage s none s₁ →
      LinkRun deeper m o ctx (d :: ds) coverage s none s₁
  | refusedLater {d : Dependency α} {ds : List (Dependency α)} {coverage coverage₁ : Coverage α}
      {s s₁ s₂ : SearchState α} {link : Link} :
      LinkStep deeper m ctx d coverage s (some (link, coverage₁)) s₁ →
      LinkRun deeper m o ctx ds coverage₁ s₁ none s₂ →
      LinkRun deeper m o ctx (d :: ds) coverage s none s₂

theorem linkRun {deeper : Searcher α} {m : Model α} {o : Observable} {ctx : Context α}
    {ds : List (Dependency α)} {links : List Link} {coverage : Coverage α} {s s' : SearchState α}
    {res : Option (List Link × Coverage α)}
    (h : linkAll deeper m o ctx ds links coverage s = .ok (res, s')) :
    (res = none ∧ LinkRun deeper m o ctx ds coverage s none s') ∨
      ∃ more coverage', res = some (links ++ more, coverage') ∧
        LinkRun deeper m o ctx ds coverage s (some (more, coverage')) s' := by
  induction ds generalizing links coverage s with
  | nil =>
    simp only [linkAll, Except.ok.injEq, Prod.mk.injEq] at h
    obtain ⟨rfl, rfl⟩ := h
    exact .inr ⟨[], coverage, by simp, .nil⟩
  | cons d ds ih =>
    simp only [linkAll] at h
    match hl : linkDependency deeper m o ctx d coverage s with
    | .error e => rw [hl] at h; cases h
    | .ok (none, s₁) =>
      rw [hl] at h; cases h
      exact .inl ⟨rfl, .refused (linkStep hl)⟩
    | .ok (some (link, coverage₁), s₁) =>
      rw [hl] at h
      rcases ih h with ⟨rfl, hrun⟩ | ⟨more, coverage', rfl, hrun⟩
      · exact .inl ⟨rfl, .refusedLater (linkStep hl) hrun⟩
      · exact .inr ⟨link :: more, coverage', by simp, .cons (linkStep hl) hrun⟩

/-! ## Candidates -/

/-- How a candidate is tried. -/
inductive Trial (deeper : Searcher α) (o : Observable) (ctx : Context α) (c : Candidate α)
    (s : SearchState α) : Option (Nat × Coverage α) → SearchState α → Prop where
  | refused {s₁ : SearchState α} :
      LinkRun deeper c.model o ctx c.model.dependencies c.coverage s none s₁ →
      Trial deeper o ctx c s none s₁
  /-- The dependencies leave nothing of what the model covers. -/
  | uncovered {links : List Link} {coverage : Coverage α} {s₁ : SearchState α} {n : Notification} :
      LinkRun deeper c.model o ctx c.model.dependencies c.coverage s (some (links, coverage)) s₁ →
      coverage.shapes = [] →
      Trial deeper o ctx c s none (s₁.notify n)
  | made {links : List Link} {coverage : Coverage α} {s₁ : SearchState α} :
      LinkRun deeper c.model o ctx c.model.dependencies c.coverage s (some (links, coverage)) s₁ →
      coverage.shapes ≠ [] →
      Trial deeper o ctx c s (some (s₁.nodes.length, coverage))
        (s₁.push o ctx.scale (.model c.model) coverage links).2

theorem trial {deeper : Searcher α} {o : Observable} {ctx : Context α} {c : Candidate α}
    {s s' : SearchState α} {res : Option (Nat × Coverage α)}
    (h : tryCandidate deeper o ctx c s = .ok (res, s')) : Trial deeper o ctx c s res s' := by
  simp only [tryCandidate] at h
  match hl : linkAll deeper c.model o ctx c.model.dependencies [] c.coverage s with
  | .error e => rw [hl] at h; cases h
  | .ok (none, s₁) =>
    rw [hl] at h; cases h
    rcases linkRun hl with ⟨-, hrun⟩ | ⟨_, _, he, -⟩
    · exact .refused hrun
    · cases he
  | .ok (some (links, coverage), s₁) =>
    rw [hl] at h
    rcases linkRun hl with ⟨he, -⟩ | ⟨more, coverage', he, hrun⟩
    · cases he
    · cases he
      change (if coverage.isEmpty then _ else _) = _ at h
      by_cases hc : coverage.shapes = []
      · have hc' : coverage.isEmpty = true := by simp [Coverage.isEmpty, hc]
        simp only [hc', if_true] at h
        cases h; exact .uncovered hrun hc
      · have hc' : coverage.isEmpty = false := by simpa [Coverage.isEmpty] using hc
        simp only [hc', Bool.false_eq_true, if_false] at h
        cases h; exact .made hrun hc

/-- Neither the coverage nor the clock ends the trying of candidates. -/
def GoesOn (limits : Limits α) (covered : Coverage α) (s : SearchState α) : Prop :=
  covered.isComplete limits.tolerance = false ∧ (s.look limits).1 = false

section tryAll

variable {limits : Limits α} {deeper : Searcher α} {o : Observable} {ctx : Context α}
  {c : Candidate α} {cs : List (Candidate α)} {accepted : List Nat} {covered : Coverage α}
  {s s₁ s' : SearchState α}

theorem tryAll_complete (h : covered.isComplete limits.tolerance = true) :
    tryAll limits deeper o ctx cs accepted covered s = .ok ((accepted, covered), s) := by
  cases cs with
  | nil => rfl
  | cons c cs => rw [tryAll, if_pos h]

theorem tryAll_late (hcomplete : covered.isComplete limits.tolerance = false)
    (hlate : (s.look limits).1 = true) :
    tryAll limits deeper o ctx (c :: cs) accepted covered s =
      .ok ((accepted, covered), (s.look limits).2) := by
  simp only [tryAll, hcomplete, hlate, Bool.false_eq_true, if_false, if_true]

section goesOn

variable (hgo : GoesOn limits covered s)

include hgo

theorem tryAll_skipped (hgain : covered.gain c.coverage < limits.minContribution) :
    tryAll limits deeper o ctx (c :: cs) accepted covered s =
      tryAll limits deeper o ctx cs accepted covered (s.look limits).2 := by
  simp only [tryAll, hgo.1, hgo.2, Bool.false_eq_true, if_false, hgain, if_true]

theorem tryAll_dropped {tried : Option (Nat × Coverage α)}
    (hgain : ¬ covered.gain c.coverage < limits.minContribution)
    (h : tryCandidate deeper o ctx c (s.look limits).2 = .ok (tried, s₁))
    (hless : ∀ made ∈ tried, covered.gain made.2 < limits.minContribution) :
    tryAll limits deeper o ctx (c :: cs) accepted covered s =
      tryAll limits deeper o ctx cs accepted covered (s₁.rollback s.nodes.length) := by
  simp only [tryAll, hgo.1, hgo.2, Bool.false_eq_true, if_false, hgain, h, SearchState.nodes_look]
  cases tried with
  | none => rfl
  | some made => exact if_pos (hless _ rfl)

theorem tryAll_accepted {id : Nat} {coverage : Coverage α}
    (hgain : ¬ covered.gain c.coverage < limits.minContribution)
    (h : tryCandidate deeper o ctx c (s.look limits).2 = .ok (some (id, coverage), s₁))
    (hmore : ¬ covered.gain coverage < limits.minContribution) :
    tryAll limits deeper o ctx (c :: cs) accepted covered s =
      tryAll limits deeper o ctx cs (accepted ++ [id]) (covered.merge coverage) s₁ := by
  simp only [tryAll, hgo.1, hgo.2, Bool.false_eq_true, if_false, hgain, h]
  exact if_neg hmore

end goesOn

/-- A candidate has been tried or passed over, and the next ones are tried from here. -/
inductive Tried (limits : Limits α) (deeper : Searcher α) (o : Observable) (ctx : Context α)
    (c : Candidate α) (accepted : List Nat) (covered : Coverage α) (s : SearchState α) :
    List Nat → Coverage α → SearchState α → Prop where
  | skipped : covered.gain c.coverage < limits.minContribution →
      Tried limits deeper o ctx c accepted covered s accepted covered (s.look limits).2
  /-- The candidate is refused, or adds too little. -/
  | dropped {tried : Option (Nat × Coverage α)} {s₁ : SearchState α} :
      ¬ covered.gain c.coverage < limits.minContribution →
      tryCandidate deeper o ctx c (s.look limits).2 = .ok (tried, s₁) →
      (∀ made ∈ tried, covered.gain made.2 < limits.minContribution) →
      Tried limits deeper o ctx c accepted covered s accepted covered
        (s₁.rollback s.nodes.length)
  | accepted {id : Nat} {coverage : Coverage α} {s₁ : SearchState α} :
      ¬ covered.gain c.coverage < limits.minContribution →
      tryCandidate deeper o ctx c (s.look limits).2 = .ok (some (id, coverage), s₁) →
      ¬ covered.gain coverage < limits.minContribution →
      Tried limits deeper o ctx c accepted covered s (accepted ++ [id]) (covered.merge coverage) s₁

theorem Tried.tryAll {accepted' : List Nat} {covered' : Coverage α}
    (h : Tried limits deeper o ctx c accepted covered s accepted' covered' s₁)
    (hgo : GoesOn limits covered s) (cs : List (Candidate α)) :
    tryAll limits deeper o ctx (c :: cs) accepted covered s =
      tryAll limits deeper o ctx cs accepted' covered' s₁ := by
  cases h with
  | skipped hgain => exact tryAll_skipped hgo hgain
  | dropped hgain htried hless => exact tryAll_dropped hgo hgain htried hless
  | accepted hgain htried hmore => exact tryAll_accepted hgo hgain htried hmore

/-- Whether trying candidates ends before the first of them, or goes on behind it. -/
inductive TryStep (limits : Limits α) (deeper : Searcher α) (o : Observable) (ctx : Context α)
    (c : Candidate α) (cs : List (Candidate α)) (accepted : List Nat) (covered : Coverage α)
    (s : SearchState α) : List Nat × Coverage α → SearchState α → Prop where
  | complete : covered.isComplete limits.tolerance = true →
      TryStep limits deeper o ctx c cs accepted covered s (accepted, covered) s
  | late : (s.look limits).1 = true →
      TryStep limits deeper o ctx c cs accepted covered s (accepted, covered) (s.look limits).2
  | goesOn {accepted' : List Nat} {covered' : Coverage α} {s₁ s' : SearchState α}
      {res : List Nat × Coverage α} : GoesOn limits covered s →
      Tried limits deeper o ctx c accepted covered s accepted' covered' s₁ →
      tryAll limits deeper o ctx cs accepted' covered' s₁ = .ok (res, s') →
      TryStep limits deeper o ctx c cs accepted covered s res s'

theorem tryAll_cons {res : List Nat × Coverage α}
    (h : tryAll limits deeper o ctx (c :: cs) accepted covered s = .ok (res, s')) :
    TryStep limits deeper o ctx c cs accepted covered s res s' := by
  by_cases hcomplete : covered.isComplete limits.tolerance = true
  · rw [tryAll_complete hcomplete] at h
    cases h
    exact .complete hcomplete
  have hcomplete : covered.isComplete limits.tolerance = false := by simpa using hcomplete
  by_cases hlate : (s.look limits).1 = true
  · rw [tryAll_late hcomplete hlate] at h
    cases h
    exact .late hlate
  have hgo : GoesOn limits covered s := ⟨hcomplete, by simpa using hlate⟩
  by_cases hgain : covered.gain c.coverage < limits.minContribution
  · rw [tryAll_skipped hgo hgain] at h
    exact .goesOn hgo (.skipped hgain) h
  match ht : tryCandidate deeper o ctx c (s.look limits).2 with
  | .error e =>
    simp only [tryAll, hgo.1, hgo.2, Bool.false_eq_true, if_false, hgain, ht] at h
    cases h
  | .ok (none, s₁) =>
    have hless : ∀ made ∈ (none : Option (Nat × Coverage α)),
        covered.gain made.2 < limits.minContribution := by simp
    rw [tryAll_dropped hgo hgain ht hless] at h
    exact .goesOn hgo (.dropped hgain ht hless) h
  | .ok (some (id, coverage), s₁) =>
    by_cases hmore : covered.gain coverage < limits.minContribution
    · have hless : ∀ made ∈ some (id, coverage), covered.gain made.2 < limits.minContribution := by
        simpa using hmore
      rw [tryAll_dropped hgo hgain ht hless] at h
      exact .goesOn hgo (.dropped hgain ht hless) h
    · rw [tryAll_accepted hgo hgain ht hmore] at h
      exact .goesOn hgo (.accepted hgain ht hmore) h

end tryAll

/-- How the candidates are tried in turn. -/
inductive TryRun (limits : Limits α) (deeper : Searcher α) (o : Observable) (ctx : Context α) :
    List (Candidate α) → List Nat → Coverage α → SearchState α →
    List Nat × Coverage α → SearchState α → Prop where
  | nil {accepted : List Nat} {covered : Coverage α} {s : SearchState α} :
      TryRun limits deeper o ctx [] accepted covered s (accepted, covered) s
  | complete {cs : List (Candidate α)} {accepted : List Nat} {covered : Coverage α}
      {s : SearchState α} : covered.isComplete limits.tolerance = true →
      TryRun limits deeper o ctx cs accepted covered s (accepted, covered) s
  | late {cs : List (Candidate α)} {accepted : List Nat} {covered : Coverage α}
      {s : SearchState α} : (s.look limits).1 = true →
      TryRun limits deeper o ctx cs accepted covered s (accepted, covered) (s.look limits).2
  | skipped {c : Candidate α} {cs : List (Candidate α)} {accepted : List Nat}
      {covered : Coverage α} {s s' : SearchState α} {res : List Nat × Coverage α} :
      GoesOn limits covered s → covered.gain c.coverage < limits.minContribution →
      TryRun limits deeper o ctx cs accepted covered (s.look limits).2 res s' →
      TryRun limits deeper o ctx (c :: cs) accepted covered s res s'
  /-- The candidate is refused, or adds too little. -/
  | dropped {c : Candidate α} {cs : List (Candidate α)} {accepted : List Nat}
      {covered : Coverage α} {s s₁ s' : SearchState α} {tried : Option (Nat × Coverage α)}
      {res : List Nat × Coverage α} :
      GoesOn limits covered s → ¬ covered.gain c.coverage < limits.minContribution →
      Trial deeper o ctx c (s.look limits).2 tried s₁ →
      (∀ made ∈ tried, covered.gain made.2 < limits.minContribution) →
      TryRun limits deeper o ctx cs accepted covered (s₁.rollback s.nodes.length) res s' →
      TryRun limits deeper o ctx (c :: cs) accepted covered s res s'
  | accepted {c : Candidate α} {cs : List (Candidate α)} {accepted : List Nat}
      {covered coverage : Coverage α} {id : Nat} {s s₁ s' : SearchState α}
      {res : List Nat × Coverage α} :
      GoesOn limits covered s → ¬ covered.gain c.coverage < limits.minContribution →
      Trial deeper o ctx c (s.look limits).2 (some (id, coverage)) s₁ →
      ¬ covered.gain coverage < limits.minContribution →
      TryRun limits deeper o ctx cs (accepted ++ [id]) (covered.merge coverage) s₁ res s' →
      TryRun limits deeper o ctx (c :: cs) accepted covered s res s'

theorem tryRun {limits : Limits α} {deeper : Searcher α} {o : Observable} {ctx : Context α}
    {cs : List (Candidate α)} {accepted : List Nat} {covered : Coverage α} {s s' : SearchState α}
    {res : List Nat × Coverage α}
    (h : tryAll limits deeper o ctx cs accepted covered s = .ok (res, s')) :
    TryRun limits deeper o ctx cs accepted covered s res s' := by
  induction cs generalizing accepted covered s with
  | nil =>
    cases h
    exact .nil
  | cons c cs ih =>
    cases tryAll_cons h with
    | complete hcomplete => exact .complete hcomplete
    | late hlate => exact .late hlate
    | goesOn hgo htried hrest =>
      cases htried with
      | skipped hgain => exact .skipped hgo hgain (ih hrest)
      | dropped hgain htry hless => exact .dropped hgo hgain (trial htry) hless (ih hrest)
      | accepted hgain htry hmore => exact .accepted hgo hgain (trial htry) hmore (ih hrest)

/-! ## Branches -/

/-- The state in which the candidates for an observable are tried. -/
def entered (limits : Limits α) (o : Observable) (ctx : Context α) (found : Candidates α)
    (s : SearchState α) : SearchState α :=
  { (s.look limits).2 with
    path := pathKey o ctx.scale :: (s.look limits).2.path
    notifications := (s.look limits).2.notifications ++ found.notifications }

/-- The state after a branch was searched, in which it is kept when it is complete. -/
def left (o : Observable) (ctx : Context α) (b : Branch α) (s : SearchState α) : SearchState α :=
  { s with
    path := s.path.erase (pathKey o ctx.scale)
    resolved := if b.outcome = .resolved then
      s.resolved.insert (branchKey o ctx.scale ctx.constraints) b else s.resolved }

/-- Tells that a branch was cut off because of the path that leads to it. -/
def IsCut (limits : Limits α) (n : Notification) : Prop :=
  n.code = some .circularReferences ∨ n.message = s!"dependency depth exceeds {limits.maxDepth}"

/-- How a branch is searched: it fails at once, is taken over, or its candidates are tried. -/
inductive BranchStep (sources : Sources α) (limits : Limits α) :
    Nat → Observable → Context α → SearchState α → Branch α → SearchState α → Prop where
  | cycle {remaining : Nat} {o : Observable} {ctx : Context α} {s : SearchState α}
      {n : Notification} : pathKey o ctx.scale ∈ s.path → IsCut limits n →
      BranchStep sources limits remaining o ctx s (.failed .cycle ctx.scale) (s.notify n)
  | tooDeep {o : Observable} {ctx : Context α} {s : SearchState α} {n : Notification} :
      pathKey o ctx.scale ∉ s.path → IsCut limits n →
      BranchStep sources limits 0 o ctx s (.failed .depthExceeded ctx.scale) (s.notify n)
  | kept {remaining : Nat} {o : Observable} {ctx : Context α} {s : SearchState α} {b : Branch α} :
      pathKey o ctx.scale ∉ s.path → kept? limits o ctx s = some b →
      BranchStep sources limits (remaining + 1) o ctx s b s
  | late {remaining : Nat} {o : Observable} {ctx : Context α} {s : SearchState α} :
      pathKey o ctx.scale ∉ s.path → (s.look limits).1 = true →
      BranchStep sources limits (remaining + 1) o ctx s (.failed .timedOut ctx.scale)
        (s.look limits).2
  | searched {remaining : Nat} {o : Observable} {ctx : Context α} {s s₁ : SearchState α}
      {found : Candidates α} {accepted : List Nat} {covered : Coverage α} :
      pathKey o ctx.scale ∉ s.path → (s.look limits).1 = false →
      Candidate.lookup sources o ctx (.remainder ctx.scale (.empty ctx.scale)) = .ok found →
      TryRun limits (branch sources limits remaining) o ctx found.list [] (.empty ctx.scale)
        (entered limits o ctx found s) (accepted, covered) s₁ →
      BranchStep sources limits (remaining + 1) o ctx s (conclude limits o accepted covered s₁).1
        (left o ctx (conclude limits o accepted covered s₁).1
          (conclude limits o accepted covered s₁).2)

section conclude

variable (limits : Limits α) (o : Observable) (accepted : List Nat) (covered : Coverage α)
  (s : SearchState α)

@[simp] theorem nodes_conclude_fst : (conclude limits o accepted covered s).1.nodes = accepted := by
  unfold conclude; split
  · split <;> rfl
  · split <;> rfl

@[simp] theorem coverage_conclude_fst :
    (conclude limits o accepted covered s).1.coverage = covered := by
  unfold conclude; split
  · split <;> rfl
  · split <;> rfl

@[simp] theorem nodes_conclude : (conclude limits o accepted covered s).2.nodes = s.nodes := by
  unfold conclude; split
  · split <;> rfl
  · split <;> rfl

@[simp] theorem path_conclude : (conclude limits o accepted covered s).2.path = s.path := by
  unfold conclude; split
  · split <;> rfl
  · split <;> rfl

@[simp] theorem resolved_conclude :
    (conclude limits o accepted covered s).2.resolved = s.resolved := by
  unfold conclude; split
  · split <;> rfl
  · split <;> rfl

theorem notifications_conclude :
    s.notifications <+: (conclude limits o accepted covered s).2.notifications := by
  unfold conclude; split
  · split
    · exact List.prefix_refl _
    · exact List.prefix_append _ _
  · split
    · exact List.prefix_refl _
    · exact List.prefix_append _ _

@[simp] theorem timedOut_conclude :
    (conclude limits o accepted covered s).2.timedOut = s.timedOut := by
  unfold conclude; split
  · split <;> rfl
  · split <;> rfl

end conclude

theorem fresh_tries {sources : Sources α} {limits : Limits α} {deeper : Searcher α}
    {o : Observable} {ctx : Context α} {s s' : SearchState α} {b : Branch α}
    (h : fresh sources limits deeper o ctx s = .ok (b, s')) :
    ∃ found accepted covered s₁,
      Candidate.lookup sources o ctx (.remainder ctx.scale (.empty ctx.scale)) = .ok found ∧
      tryAll limits deeper o ctx found.list [] (.empty ctx.scale)
        { s with
          path := pathKey o ctx.scale :: s.path
          notifications := s.notifications ++ found.notifications } =
            .ok ((accepted, covered), s₁) ∧
      b = (conclude limits o accepted covered s₁).1 ∧
      s' = left o ctx b (conclude limits o accepted covered s₁).2 := by
  simp only [fresh, candidates] at h
  cases hf : Candidate.lookup sources o ctx (.remainder ctx.scale (.empty ctx.scale)) with
  | error e => rw [hf] at h; cases h
  | ok found =>
    rw [hf] at h
    delta Except.mapError at h
    simp only [bind, Except.bind] at h
    split at h
    · cases h
    · rename_i res hres
      split at hres
      · cases hres
      · rename_i tried htried
        obtain ⟨⟨accepted, covered⟩, s₁⟩ := tried
        cases hres
        refine ⟨found, accepted, covered, s₁, rfl, htried, ?_⟩
        split at h
        · rename_i ho
          cases h; exact ⟨rfl, by rw [left, if_pos ho]⟩
        · rename_i ho
          cases h; exact ⟨rfl, by rw [left, if_neg ho]⟩

theorem branchStep {sources : Sources α} {limits : Limits α} {remaining : Nat} {o : Observable}
    {ctx : Context α} {s s' : SearchState α} {b : Branch α}
    (h : branch sources limits remaining o ctx s = .ok (b, s')) :
    BranchStep sources limits remaining o ctx s b s' := by
  unfold branch at h
  split at h
  · cases h; exact .cycle ‹_› (.inl rfl)
  · rename_i hpath
    split at h
    · cases h; exact .tooDeep hpath (.inr rfl)
    · rename_i remaining
      split at h
      · cases h; exact .kept hpath ‹_›
      · change (if (s.look limits).1 = true then _ else _) = _ at h
        split at h
        · cases h; exact .late hpath ‹_›
        · rename_i hlate
          obtain ⟨found, accepted, covered, s₁, hf, htried, rfl, rfl⟩ := fresh_tries h
          exact .searched hpath (by simpa using hlate) hf (tryRun htried)

end Obsplan.Search
