import Obsplan.Proofs.Resolution.Reuse
import Obsplan.Proofs.Search.Exact
import Obsplan.Proofs.Search.Total

/-!
# Resolutions over richer catalogs

A complete resolution stays complete when the catalog grows, as long as no deadline passes, the
limits count exactly for what can be asked for, no default value covers what was looked for, and
completeness does not rest on branches used again. Each of these matters: a preferred model that
covers less can be accepted first.
-/

namespace Obsplan.Resolution

section branch

variable {α : Type} [Coordinate α] {sources : Sources α} {limits : Limits α} {o : Observable}
  {ctx : Context α} {b : Branch α} {s : SearchState α}

theorem resolve_isComplete
    (h : Search.branch sources limits (limits.maxDepth + 1) o ctx {} = .ok (b, s)) :
    ∃ r, resolve sources limits o ctx = .ok r ∧ r.nodes = s.nodes ∧
      (r.isComplete = true ↔ b.nodes ≠ [] ∧ b.coverage.isComplete limits.tolerance = true) := by
  simp only [resolve, h]
  exact ⟨_, rfl, rfl, by simp [isComplete, isEmpty]⟩

end branch

variable {catalog catalog' : Catalog Number} {taxonomy : Taxonomy} {config : Config}
  {clock : Nat → Bool} {m : Model Number} {o : Observable} {ctx : Context Number}
  {r₀ : Resolution Number}

/-- A complete resolution stays complete when the catalog knows one more model. -/
theorem resolve_richer (hfilled : catalog.Filled) (hnew : catalog.models.get? m.urn = none)
    (hinsert : catalog.insert m = .ok catalog')
    (hclock : ∀ n, (config.limits clock).isLate n = false)
    (hsharp : Search.Sharp (.ofCatalog catalog' taxonomy) (config.limits clock) o ctx)
    (h : resolve (.ofCatalog catalog taxonomy) (fresh (config.limits clock)) o ctx = .ok r₀)
    (hcomplete : r₀.isComplete = true) (hsought : Search.AllSought r₀.nodes) :
    ∃ r, resolve (.ofCatalog catalog' taxonomy) (config.limits clock) o ctx = .ok r ∧
      r.isComplete = true := by
  have hs := Sources.reliable_ofCatalog hfilled taxonomy
  have hs' := Sources.reliable_ofCatalog (hfilled.insert hinsert) taxonomy
  have hrich := Sources.richer_insert hnew hinsert taxonomy
  obtain ⟨b₀, s₀, hb₀, -⟩ := resolve_branch h
  obtain ⟨_, hr₀, hnodes, hiff₀⟩ := resolve_isComplete hb₀
  cases h.symm.trans hr₀
  obtain ⟨hne, hwhole⟩ := hiff₀.mp hcomplete
  obtain ⟨⟨b, s⟩, hb⟩ : Search.Succeeds (Search.branch (.ofCatalog catalog' taxonomy)
      (config.limits clock) ((config.limits clock).maxDepth + 1) o ctx {}) :=
    Search.branch_total (Candidate.exists_lookup hs') _ o ctx {}
  have hreuses : (fresh (config.limits clock)).reuses = false := rfl
  have houtdoes := Search.branch_outdoes hreuses hclock hs hs' hrich hsharp hsought
    ((config.limits clock).maxDepth + 1) []
  have hmore : b₀.coverage.region ⊆ b.coverage.region :=
    houtdoes.outdoes .start .start .start .start rfl hb₀ (hnodes ▸ List.prefix_rfl) hb
  obtain ⟨-, hcovering₀⟩ := houtdoes.composing .start .start hb₀
  obtain ⟨-, hcovering⟩ := houtdoes.composing' .start .start hb
  have hdepth : (fresh (config.limits clock)).maxDepth = (config.limits clock).maxDepth := rfl
  have harising₀ := hcovering₀.arising.richer hs hs' hrich hdepth
  have hall : ∀ p ∈ ctx.scale, p ∈ b.coverage.region := fun p hp =>
    hmore ((hsharp.complete .start harising₀).mp hwhole p hp)
  obtain ⟨r, hr, -, hiff⟩ := resolve_isComplete hb
  have hcovered := (hsharp.complete .start hcovering.arising).mpr hall
  refine ⟨r, hr, hiff.mpr ⟨fun hnone => ?_, hcovered⟩⟩
  obtain ⟨p, hp⟩ := ctx.scale.exists_mem
  exact (hcovering.empty_iff.mp hnone ▸ hall p hp : p ∈ (∅ : Set (Point Number)))

/-! ## Preferred models -/

/-- A catalog that was filled with some models. -/
def holding (models : List (Model Number)) : Catalog Number := (Catalog.empty.insertAll models).1

def years : Scale Number := upTo 8.0 (by decide +kernel)

def overYears : Context Number := { everywhere with scale := years }

/-- Land needs soil, and both are known for all years. Nothing needs rock, which is known for almost
all of them. -/
def plain : List (Model Number) :=
  [needing "x.land" land [soil], needing "y.soil" soil [],
    { needing "x.rock" rock [] with coverage := [upTo 7.95 (by decide +kernel)] }]

/-- Preferred soil, known for the first three years. -/
def early : Model Number :=
  { needing "z.soil" soil [] with coverage := [upTo 3.0 (by decide +kernel)], priority := 1 }

/-- What coverages arise when models apply to all years or to the first three. -/
def spans : List (Coverage Number) :=
  [.empty years, .full years, early.coverageOver years,
    (early.coverageOver years).merge (.full years)]

/-- The models that a search for land comes to. -/
def metModels : List (Model Number) :=
  [needing "x.land" land [soil], needing "y.soil" soil [], early]

theorem serves_early {o : Observable} {m : Model Number} (ho : o ∈ [land, soil])
    (h : Search.Serves (.ofCatalog (holding (plain ++ [early])) {}) o m) :
    m ∈ metModels := by
  have hland : Candidate.found (.ofCatalog (holding (plain ++ [early])) {}) land =
      .ok [(needing "x.land" land [soil], true)] := rfl
  have hsoil : Candidate.found (.ofCatalog (holding (plain ++ [early])) {}) soil =
      .ok [(needing "y.soil" soil [], true), (early, true)] := rfl
  obtain ⟨models, hmodels, f, hf, rfl⟩ := h
  rcases List.mem_pair.mp ho with rfl | rfl
  · cases hland.symm.trans hmodels
    obtain rfl := List.mem_singleton.mp hf
    exact List.mem_cons_self
  · cases hsoil.symm.trans hmodels
    rcases List.mem_pair.mp hf with rfl | rfl <;> simp [metModels]

/-- What models of rock claim does not matter to a search for land. -/
theorem sharp_early :
    Search.Sharp (.ofCatalog (holding (plain ++ [early])) {}) ({} : Config).limits land
      overYears := by
  have hneeds : ∀ m ∈ metModels, ∀ d ∈ m.dependencies, d.observable = soil ∧ d.scale = none := by
    simp [metModels, needing, early, Model.producing]
  have hclaims : ∀ m ∈ metModels, m.coverageOver years ∈ spans := by decide +kernel
  have hclosed : Search.Closed (.ofCatalog (holding (plain ++ [early])) {}) years [land, soil]
      spans := by
    refine ⟨fun o ho m hm d hd => ?_, fun o ho m hm => hclaims m (serves_early ho hm),
      by decide +kernel, by decide +kernel, by decide +kernel⟩
    obtain ⟨hsoil, hown⟩ := hneeds m (serves_early ho hm) d hd
    exact ⟨by simp [hsoil], hown⟩
  exact .of_closed List.mem_cons_self hclosed (by decide +kernel) (by decide +kernel)

theorem resolve_richer_early :
    Search.Sharp (.ofCatalog (holding (plain ++ [early])) {}) ({} : Config).limits land overYears ∧
      ∃ r₀ r, resolve (.ofCatalog (holding plain) {}) (fresh ({} : Config).limits) land overYears =
          .ok r₀ ∧
        r₀.models.map Model.urn = ["y.soil", "x.land"] ∧ r₀.isComplete = true ∧
        resolve (.ofCatalog (holding (plain ++ [early])) {}) ({} : Config).limits land overYears =
          .ok r ∧
        r.models.map Model.urn = ["z.soil", "y.soil", "x.land"] ∧ r.isComplete = true := by
  obtain ⟨r₀, hr₀, hmodels₀, hcomplete₀, hsought⟩ := exists_of_any
    (P := fun r : Resolution Number => r.models.map Model.urn = ["y.soil", "x.land"] ∧
      r.isComplete = true ∧ ∀ n ∈ r.nodes, n.IsModel)
    (x := resolve (.ofCatalog (holding plain) {}) (fresh ({} : Config).limits) land overYears)
    (by decide +kernel)
  obtain ⟨r', hr', hmodels⟩ := exists_of_any
    (P := fun r : Resolution Number => r.models.map Model.urn = ["z.soil", "y.soil", "x.land"])
    (x := resolve (.ofCatalog (holding (plain ++ [early])) {}) ({} : Config).limits land overYears)
    (by decide +kernel)
  have hall : Search.AllSought r₀.nodes := by
    intro n _ m _ e _ _ _ i _ n' hn' value hvalue
    obtain ⟨_, hmodel⟩ := hsought n' (List.mem_of_getElem? hn')
    cases hmodel.symm.trans hvalue
  have hinsert : (holding plain).insert early = .ok (holding (plain ++ [early])) := rfl
  obtain ⟨r, hr, hcomplete⟩ :=
    resolve_richer (.insertAll .empty plain) rfl hinsert (fun _ => rfl) sharp_early hr₀ hcomplete₀
      hall
  cases hr.symm.trans hr'
  exact ⟨sharp_early, r₀, _, hr₀, hmodels₀, hcomplete₀, hr', hmodels, hcomplete⟩

/-- A model takes completeness away from a catalog that was filled with others. -/
def Spoils (config : Config) (clock : Nat → Bool) (ctx : Context Number)
    (models : List (Model Number)) (m : Model Number) : Prop :=
  config.validate.isOk = true ∧ (holding models).Filled ∧
    (holding models).models.get? m.urn = none ∧
    (holding models).insert m = .ok (holding (models ++ [m])) ∧
    (∃ r, resolve (.ofCatalog (holding models) {}) (config.limits clock) land ctx = .ok r ∧
      r.isComplete = true) ∧
    ∃ r, resolve (.ofCatalog (holding (models ++ [m])) {}) (config.limits clock) land ctx = .ok r ∧
      r.isComplete = false

theorem Spoils.of_runs {config : Config} {clock : Nat → Bool} {ctx : Context Number}
    {models : List (Model Number)} {m : Model Number} (hvalid : config.validate.isOk = true)
    (hnew : (holding models).models.get? m.urn = none)
    (hinsert : (holding models).insert m = .ok (holding (models ++ [m])))
    (hbefore : ((resolve (.ofCatalog (holding models) {}) (config.limits clock) land
      ctx).toOption.any fun r => r.isComplete) = true)
    (hafter : ((resolve (.ofCatalog (holding (models ++ [m])) {}) (config.limits clock) land
      ctx).toOption.any fun r => !r.isComplete) = true) : Spoils config clock ctx models m :=
  ⟨hvalid, .insertAll .empty models, hnew, hinsert, exists_of_any (by simpa using hbefore),
    exists_of_any (by simpa using hafter)⟩

def decade : Context Number := { everywhere with scale := upTo 10.0 (by decide +kernel) }

/-- The decade without its first moments. -/
def later : Scale Number := ⟨[⟨.time, 0.000008, 10.0⟩], by decide, by decide +kernel⟩

def clay : Observable := { concept := ⟨"t:Clay", by decide⟩ }

def silt : Observable := { concept := ⟨"t:Silt", by decide⟩ }

/-- A preferred model that covers almost all leaves too little for the one that covers everything.
Tolerated gaps add up. A default value covers more than what is found instead of it. A branch that
is no longer searched early cannot be used again where it is too deep to be searched. The deadline
passes while a preferred model is tried. -/
theorem resolve_richer_spoilt :
    Spoils {} (fun _ => false) decade [needing "a.land" land []]
      { needing "b.land" land [] with coverage := [upTo 9.95 (by decide +kernel)], priority := 1 } ∧
    Spoils {} (fun _ => false) decade
      [needing "x.land" land [soil, water],
        { needing "a.soil" soil [] with coverage := [upTo 9.999992 (by decide +kernel)] },
        needing "b.water" water []]
      { needing "a.water" water [] with coverage := [later], priority := 1 } ∧
    Spoils {} (fun _ => false) decade
      [needing "x.land" land [{ soil with defaultValue := some (.int 1) }]]
      { needing "y.soil" soil [] with coverage := [upTo 5.0 (by decide +kernel)] } ∧
    Spoils { maxDepth := 3 } (fun _ => false) everywhere
      [needing "x.land" land [soil, rock], needing "x.soil" soil [water],
        needing "x.water" water [silt], needing "x.silt" silt [], needing "x.rock" rock [clay],
        needing "x.clay" clay [water]]
      { needing "x.ground" soil [] with priority := 1 } ∧
    Spoils { timeout := some 5 } (fun n => decide (2 ≤ n)) everywhere [needing "a.land" land []]
      { needing "b.land" land [soil] with priority := 1 } := by
  refine ⟨?_, ?_, ?_, ?_, ?_⟩
  · exact .of_runs (by decide +kernel) rfl rfl (by decide +kernel) (by decide +kernel)
  · exact .of_runs (by decide +kernel) rfl rfl (by decide +kernel) (by decide +kernel)
  · exact .of_runs (by decide +kernel) rfl rfl (by decide +kernel) (by decide +kernel)
  · exact .of_runs (by decide +kernel) rfl rfl (by decide +kernel) (by decide +kernel)
  · exact .of_runs (by decide +kernel) rfl rfl (by decide +kernel) (by decide +kernel)

end Obsplan.Resolution
