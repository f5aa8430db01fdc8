import Obsplan.Proofs.Context.Preferences
import Obsplan.Proofs.Search.Composition

/-!
# The ideal search

What a search would find if it had all the time and kept nothing: compositions in place of numbered
nodes. It gives up when the path closes to a circle or gets too long. Where it does not give up, a
shorter path and more levels to go change nothing, and nor does a context that ranks alike.
-/

namespace Obsplan.Search

variable {α : Type} [Coordinate α]

/-- What is found for an observable. -/
structure Finding (α : Type) [Coordinate α] where
  outcome : Outcome
  compositions : List (Composition α)
  coverage : Coverage α

/-- Finds what an observable is composed of, or gives up. -/
abbrev Finder (α : Type) [Coordinate α] := Observable → Context α → Option (Finding α)

namespace Ideal

def standIn (d : Dependency α) (scale : Scale α) (means : Means α) (coverage : Coverage α) :
    List (Composition α) := [.node d.observable.key scale means coverage []]

def linkMissing (d : Dependency α) (scale : Scale α) : Option (List (Composition α)) :=
  match d.observable.defaultValue with
  | some value => some (standIn d scale (.constant value) (.full scale))
  | none =>
    if d.observable.optional then some (standIn d scale .unresolved (.empty scale)) else none

def linkDependency (find : Finder α) (m : Model α) (ctx : Context α) (d : Dependency α)
    (coverage : Coverage α) : Option (Option (List (Composition α) × Coverage α)) :=
  let scale := d.scale.getD ctx.scale
  if d.deferred then some (some (standIn d scale .deferred (.full scale), coverage))
  else (find d.observable (inner m ctx d)).map fun found =>
    if found.compositions.isEmpty then (linkMissing d scale).map (·, coverage)
    else some (found.compositions, narrowed d coverage found.coverage)

def linkAll (find : Finder α) (m : Model α) (ctx : Context α) :
    List (Dependency α) → Coverage α →
      Option (Option (List (List (Composition α)) × Coverage α))
  | [], coverage => some (some ([], coverage))
  | d :: ds, coverage =>
    match linkDependency find m ctx d coverage with
    | none => none
    | some none => some none
    | some (some (part, coverage)) =>
      (linkAll find m ctx ds coverage).map fun rest => rest.map fun r => (part :: r.1, r.2)

def tryCandidate (find : Finder α) (o : Observable) (ctx : Context α) (c : Candidate α) :
    Option (Option (Composition α × Coverage α)) :=
  (linkAll find c.model ctx c.model.dependencies c.coverage).map fun linked =>
    linked.bind fun r =>
      if r.2.isEmpty then none
      else some (.node o.key ctx.scale (.model c.model) r.2 r.1, r.2)

def tryAll (limits : Limits α) (find : Finder α) (o : Observable) (ctx : Context α) :
    List (Candidate α) → List (Composition α) → Coverage α →
      Option (List (Composition α) × Coverage α)
  | [], accepted, covered => some (accepted, covered)
  | c :: cs, accepted, covered =>
    if covered.isComplete limits.tolerance then some (accepted, covered)
    else if covered.gain c.coverage < limits.minContribution then
      tryAll limits find o ctx cs accepted covered
    else
      match tryCandidate find o ctx c with
      | none => none
      | some none => tryAll limits find o ctx cs accepted covered
      | some (some (composition, coverage)) =>
        if covered.gain coverage < limits.minContribution then
          tryAll limits find o ctx cs accepted covered
        else tryAll limits find o ctx cs (accepted ++ [composition]) (covered.merge coverage)

def conclude (limits : Limits α) (accepted : List (Composition α)) (covered : Coverage α) :
    Finding α where
  outcome :=
    if accepted.isEmpty then .unresolved
    else if covered.isComplete limits.tolerance then .resolved
    else .partially
  compositions := accepted
  coverage := covered

/-- The ideal search for an observable below a path, with so many levels to go. -/
def branch (sources : Sources α) (limits : Limits α) : Nat → List String → Finder α
  | 0, _, _, _ => none
  | remaining + 1, path, o, ctx =>
    if pathKey o ctx.scale ∈ path then none
    else
      match Candidate.lookup sources o ctx (.remainder ctx.scale (.empty ctx.scale)) with
      | .error _ => none
      | .ok found =>
        (tryAll limits (branch sources limits remaining (pathKey o ctx.scale :: path)) o ctx
          found.list [] (.empty ctx.scale)).map fun r => conclude limits r.1 r.2

/-- It does not matter to the ideal search whether branches are used again. -/
theorem branch_reuses (sources : Sources α) (limits : Limits α) (reuses : Bool) (n : Nat)
    (path : List String) :
    branch sources { limits with reuses } n path = branch sources limits n path := by
  have htry : ∀ (find : Finder α) (o : Observable) (ctx : Context α) (cs : List (Candidate α))
      (accepted : List (Composition α)) (covered : Coverage α),
      tryAll { limits with reuses } find o ctx cs accepted covered =
        tryAll limits find o ctx cs accepted covered := by
    intro find o ctx cs
    induction cs with
    | nil => intro accepted covered; rfl
    | cons c cs ih => intro accepted covered; simp only [tryAll, ih]
  induction n generalizing path with
  | zero => rfl
  | succ n ih =>
    funext o ctx
    simp only [branch, htry, ih]
    rfl

/-! ## Less to give up for -/

/-- What one finder finds, the other one finds as well. -/
def Within (find find' : Finder α) : Prop :=
  ∀ {o : Observable} {ctx : Context α} {found : Finding α},
    find o ctx = some found → find' o ctx = some found

section within

variable {find find' : Finder α} {limits : Limits α} {m : Model α} {o : Observable} {ctx : Context α}

theorem linkDependency_within (hw : Within find find') {d : Dependency α} {coverage : Coverage α}
    {res : Option (List (Composition α) × Coverage α)}
    (h : linkDependency find m ctx d coverage = some res) :
    linkDependency find' m ctx d coverage = some res := by
  unfold linkDependency at h ⊢
  by_cases hd : d.deferred = true
  · rwa [if_pos hd] at h ⊢
  · rw [if_neg hd] at h ⊢
    obtain ⟨found, hfound, hres⟩ := Option.map_eq_some_iff.mp h
    rw [hw hfound, Option.map_some, hres]

theorem linkAll_within (hw : Within find find') {ds : List (Dependency α)} {coverage : Coverage α}
    {res : Option (List (List (Composition α)) × Coverage α)}
    (h : linkAll find m ctx ds coverage = some res) :
    linkAll find' m ctx ds coverage = some res := by
  induction ds generalizing coverage res with
  | nil => exact h
  | cons d ds ih =>
    unfold linkAll at h ⊢
    match hl : linkDependency find m ctx d coverage with
    | none => rw [hl] at h; cases h
    | some none =>
      rw [hl] at h
      rw [linkDependency_within hw hl]
      exact h
    | some (some (part, coverage₁)) =>
      rw [hl] at h
      rw [linkDependency_within hw hl]
      obtain ⟨rest, hrest, hres⟩ := Option.map_eq_some_iff.mp h
      exact Option.map_eq_some_iff.mpr ⟨rest, ih hrest, hres⟩

theorem tryCandidate_within (hw : Within find find') {c : Candidate α}
    {res : Option (Composition α × Coverage α)} (h : tryCandidate find o ctx c = some res) :
    tryCandidate find' o ctx c = some res := by
  obtain ⟨linked, hlinked, hres⟩ := Option.map_eq_some_iff.mp h
  exact Option.map_eq_some_iff.mpr ⟨linked, linkAll_within hw hlinked, hres⟩

theorem tryAll_within (hw : Within find find') {cs : List (Candidate α)}
    {accepted : List (Composition α)} {covered : Coverage α}
    {res : List (Composition α) × Coverage α}
    (h : tryAll limits find o ctx cs accepted covered = some res) :
    tryAll limits find' o ctx cs accepted covered = some res := by
  induction cs generalizing accepted covered with
  | nil => exact h
  | cons c cs ih =>
    unfold tryAll at h ⊢
    by_cases hcomplete : covered.isComplete limits.tolerance = true
    · rwa [if_pos hcomplete] at h ⊢
    rw [if_neg hcomplete] at h ⊢
    by_cases hgain : covered.gain c.coverage < limits.minContribution
    · rw [if_pos hgain] at h ⊢
      exact ih h
    rw [if_neg hgain] at h ⊢
    match ht : tryCandidate find o ctx c with
    | none => rw [ht] at h; cases h
    | some none =>
      rw [ht] at h
      rw [tryCandidate_within hw ht]
      exact ih h
    | some (some (composition, coverage)) =>
      rw [ht] at h
      rw [tryCandidate_within hw ht]
      by_cases hless : covered.gain coverage < limits.minContribution
      · simp only [if_pos hless] at h ⊢
        exact ih h
      · simp only [if_neg hless] at h ⊢
        exact ih h

/-- A shorter path and more levels change nothing. -/
theorem branch_within {sources : Sources α} {n n' : Nat} {path path' : List String} (hn : n ≤ n')
    (hpath : path' ⊆ path) : Within (branch sources limits n path) (branch sources limits n' path') := by
  induction n generalizing n' path path' with
  | zero => intro o ctx found h; cases h
  | succ n ih =>
    intro o ctx found h
    obtain ⟨n', rfl⟩ : ∃ k, n' = k + 1 := ⟨n' - 1, by omega⟩
    unfold branch at h ⊢
    by_cases hmem : pathKey o ctx.scale ∈ path
    · rw [if_pos hmem] at h; cases h
    rw [if_neg hmem] at h
    rw [if_neg fun hmem' => hmem (hpath hmem')]
    match hl : Candidate.lookup sources o ctx (.remainder ctx.scale (.empty ctx.scale)) with
    | .error _ => rw [hl] at h; cases h
    | .ok candidates =>
      rw [hl] at h
      obtain ⟨r, hr, hres⟩ := Option.map_eq_some_iff.mp h
      have hw : Within (branch sources limits n (pathKey o ctx.scale :: path))
          (branch sources limits n' (pathKey o ctx.scale :: path')) :=
        ih (Nat.le_of_succ_le_succ hn) (List.cons_subset_cons _ hpath)
      exact Option.map_eq_some_iff.mpr ⟨r, tryAll_within hw hr, hres⟩

end within

/-! ## Contexts that rank alike -/

/-- A finder that finds the same for what is asked alike. -/
def Fair (find : Finder α) : Prop :=
  ∀ {o o' : Observable} {ctx ctx' : Context α}, o.key = o'.key → Alike ctx ctx' →
    find o ctx = find o' ctx'

section fair

variable {find : Finder α} {limits : Limits α} {m : Model α} {o o' : Observable}
  {ctx ctx' : Context α}

theorem linkDependency_alike (hf : Fair find) (h : Alike ctx ctx') (d : Dependency α)
    (coverage : Coverage α) :
    linkDependency find m ctx d coverage = linkDependency find m ctx' d coverage := by
  simp only [linkDependency, h.scale, hf rfl (h.inner m d)]

theorem linkAll_alike (hf : Fair find) (h : Alike ctx ctx') (ds : List (Dependency α))
    (coverage : Coverage α) : linkAll find m ctx ds coverage = linkAll find m ctx' ds coverage := by
  induction ds generalizing coverage with
  | nil => rfl
  | cons d ds ih => simp only [linkAll, linkDependency_alike hf h, ih]

theorem tryAll_alike (hf : Fair find) (hkey : o.key = o'.key) (h : Alike ctx ctx')
    (cs : List (Candidate α)) (accepted : List (Composition α)) (covered : Coverage α) :
    tryAll limits find o ctx cs accepted covered = tryAll limits find o' ctx' cs accepted covered := by
  have htry : ∀ c, tryCandidate find o ctx c = tryCandidate find o' ctx' c := by
    intro c
    simp only [tryCandidate, linkAll_alike hf h, hkey, h.scale]
  induction cs generalizing accepted covered with
  | nil => rfl
  | cons c cs ih => simp only [tryAll, htry, ih]

theorem branch_fair {sources : Sources α} (hs : sources.Semantic) (n : Nat) (path : List String) :
    Fair (branch sources limits n path) := by
  induction n generalizing path with
  | zero => intro o o' ctx ctx' _ _; rfl
  | succ n ih =>
    intro o o' ctx ctx' hkey h
    have hpath : pathKey o ctx.scale = pathKey o' ctx'.scale := by rw [pathKey, pathKey, hkey, h.scale]
    simp only [branch, hpath]
    simp only [lookup_congr hs hkey h, tryAll_alike (ih _) hkey h, h.scale]

/-- What is asked alike is found alike, wherever the search does not give up. -/
theorem branch_unique {sources : Sources α} (hs : sources.Semantic) {n n' : Nat}
    {path path' : List String} {found found' : Finding α} (hkey : o.key = o'.key)
    (h : Alike ctx ctx') (hfound : branch sources limits n path o ctx = some found)
    (hfound' : branch sources limits n' path' o' ctx' = some found') : found = found' := by
  have hmore := branch_within (Nat.le_max_left n n') (List.nil_subset path) hfound
  have hmore' := branch_within (Nat.le_max_right n n') (List.nil_subset path') hfound'
  rw [branch_fair hs _ _ hkey h, hmore'] at hmore
  exact (Option.some.inj hmore).symm

end fair

end Ideal

end Obsplan.Search
