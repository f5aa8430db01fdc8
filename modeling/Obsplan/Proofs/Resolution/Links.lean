import Obsplan.Proofs.Dataflow.Names
import Obsplan.Proofs.Resolution.Roots

/-!
# Links and declarations

A model has one link for every dependency that it declares, in the order of declaration. The nodes
of a link are models for what the dependency asks for, or a single node of its own stands in: a
deferred one, the default value, or a placeholder where the model can do without it.
-/

namespace Obsplan

open Search

variable {α : Type} [Coordinate α] {nodes nodes' : List (Node α)} {scale : Scale α}
  {d : Dependency α}

/-- When something may satisfy a dependency. -/
def Means.Suits (d : Dependency α) : Means α → Prop
  | .model _ => d.deferred = false
  | .deferred => d.deferred = true
  | .constant value => d.deferred = false ∧ d.observable.defaultValue = some value
  | .unresolved =>
    d.deferred = false ∧ d.observable.defaultValue = none ∧ d.observable.optional = true

/-- A node observes what a dependency of a model over a scale asks for, and may satisfy it. -/
structure Node.Fits (n : Node α) (scale : Scale α) (d : Dependency α) : Prop where
  concept : n.observable.concept = d.observable.concept
  collective : n.observable.collective = d.observable.collective
  mode : n.observable.mode = d.observable.mode
  scale : n.scale = d.scale.getD scale
  means : n.means.Suits d

/-- A link leads to what a dependency of a model over a scale needs. -/
structure Link.Meets (nodes : List (Node α)) (scale : Scale α) (d : Dependency α) (link : Link) :
    Prop where
  observable : link.observable = d.observable
  nonempty : link.nodes ≠ []
  fits : ∀ i ∈ link.nodes, ∃ n, nodes[i]? = some n ∧ n.Fits scale d
  /-- What stands in for a model does so alone. -/
  alone : ∀ i ∈ link.nodes, ∀ n ∈ nodes[i]?, ¬ n.IsModel → link.nodes = [i]
  deferred : d.deferred = true → ∃ i n, link.nodes = [i] ∧ nodes[i]? = some n ∧ n.means = .deferred
  /-- A model that a dependency cannot do without has been found. -/
  mandatory : d.deferred = false → d.observable.defaultValue = none →
    d.observable.optional = false → ∀ i ∈ link.nodes, ∃ n, nodes[i]? = some n ∧ n.IsModel

/-! ## What a search links -/

theorem Search.StandsIn.suits {means : Means α} {covered : Coverage α}
    (h : StandsIn d scale means covered) : means.Suits d := by
  cases h with
  | deferred hdef => exact hdef
  | constant hdef hvalue => exact ⟨hdef, hvalue⟩
  | unresolved hdef hvalue hopt => exact ⟨hdef, hvalue, hopt⟩

theorem Search.StandsIn.not_isModel {n : Node α} {covered : Coverage α}
    (h : StandsIn d scale n.means covered) : ¬ n.IsModel := by
  rintro ⟨m, hm⟩
  rw [hm] at h
  cases h

theorem Link.meets_standIn {i : Nat} {n : Node α} {covered : Coverage α} (hn : nodes[i]? = some n)
    (ho : n.observable = d.observable) (hs : n.scale = d.scale.getD scale)
    (h : StandsIn d (d.scale.getD scale) n.means covered) :
    Link.Meets nodes scale d ⟨d.observable, [i]⟩ where
  observable := rfl
  nonempty := List.cons_ne_nil _ _
  fits j hj := by
    obtain rfl := List.mem_singleton.mp hj
    exact ⟨n, hn, by rw [ho], by rw [ho], by rw [ho], hs, h.suits⟩
  alone j hj _ _ _ := by rw [List.mem_singleton.mp hj]
  deferred hdef := by
    refine ⟨i, n, rfl, hn, ?_⟩
    generalize n.means = means at h
    cases h with
    | deferred => rfl
    | constant hsearched => rw [hdef] at hsearched; cases hsearched
    | unresolved hsearched => rw [hdef] at hsearched; cases hsearched
  mandatory hdef hnone hopt := by
    generalize n.means = means at h
    cases h with
    | deferred hdef' => rw [hdef] at hdef'; cases hdef'
    | constant _ hvalue => rw [hnone] at hvalue; cases hvalue
    | unresolved _ _ hopt' => rw [hopt] at hopt'; cases hopt'

variable [LegibleCoordinate α] {sources : Sources α} {root ctx : Context α} {m : Model α}

theorem Search.Linked.meets {coverage coverage' : Coverage α} {link : Link}
    (h : Linked sources root nodes m ctx d coverage link coverage') :
    link.Meets nodes ctx.scale d := by
  cases h with
  | standIn hs hn => exact Link.meets_standIn hn rfl rfl hs
  | found hdef hfound hne =>
    have hmem := hfound.node_mem
    refine ⟨rfl, hne, fun i hi => ?_, fun i hi n hn hnot => ?_, fun hdef' => ?_,
      fun _ _ _ i hi => ?_⟩
    · obtain ⟨n, hn, hkey, hscale, model, hm⟩ := hmem i hi
      obtain ⟨hconcept, hcollective, hmode⟩ := Observable.key_injective hkey
      refine ⟨n, hn, hconcept, hcollective, hmode, hscale, ?_⟩
      rw [hm]
      exact hdef
    · obtain ⟨n', hn', -, -, hmodel⟩ := hmem i hi
      cases hn.symm.trans hn'
      exact absurd hmodel hnot
    · rw [hdef] at hdef'
      cases hdef'
    · obtain ⟨n, hn, -, -, hmodel⟩ := hmem i hi
      exact ⟨n, hn, hmodel⟩

theorem Search.LinkedAll.meets {ds : List (Dependency α)} {coverage coverage' : Coverage α}
    {links : List Link} (h : LinkedAll sources root nodes m ctx ds coverage links coverage') :
    List.Forall₂ (Link.Meets nodes ctx.scale) ds links := by
  induction h with
  | nil => exact .nil
  | cons hl _ ih => exact .cons hl.meets ih

/-- The links of a model are the declared ones, also after more nodes were made. -/
theorem Search.Made.meets {n : Node α} (hpre : nodes <+: nodes')
    (h : Made sources root nodes n) (hm : n.means = .model m) :
    List.Forall₂ (Link.Meets nodes' n.scale) m.dependencies n.links := by
  cases h with
  | standIn _ hs => exact absurd ⟨m, hm⟩ hs.not_isModel
  | model _ _ hl _ =>
    cases hm
    exact (hl.extend hpre).meets

/-! ## Resolutions -/

namespace Resolution

variable {limits : Limits α} {o : Observable} {r : Resolution α}

omit [LegibleCoordinate α] in
/-- Only models refer to others. -/
theorem isModel_of_refers (h : resolve sources limits o ctx = .ok r) {i j : Nat} {n : Node α}
    (hn : r.nodes[i]? = some n) (hj : j ∈ n.children) : n.IsModel := by
  cases (resolve_documented h).1 hn with
  | standIn => simp [Node.children] at hj
  | model => exact ⟨_, rfl⟩

omit [LegibleCoordinate α] in
/-- What stands in for a model is linked by a model. -/
theorem exists_refers (h : resolve sources limits o ctx = .ok r) {i : Nat} {n : Node α}
    (hn : r.nodes[i]? = some n) (hnot : ¬ n.IsModel) : ∃ j, Refers r.nodes j i := by
  obtain ⟨root, hroot, hreach⟩ :=
    (resolve_wellFormed h).reachable i (List.getElem?_eq_some_iff.mp hn).1
  obtain rfl | ⟨j, -, hrefers⟩ := hreach.cases_tail
  · obtain ⟨n', hn', -, -, hmodel⟩ := (resolve_accepted h).node_mem _ hroot
    cases hn.symm.trans hn'
    exact absurd hmodel hnot
  · exact ⟨j, hrefers⟩

/-- The links of every model are those that it declares, and what stands in for a model does so for
a dependency that admits it. -/
theorem resolve_meets (h : resolve sources limits o ctx = .ok r) :
    (∀ n ∈ r.nodes, ∀ m, n.means = .model m →
      List.Forall₂ (Link.Meets r.nodes n.scale) m.dependencies n.links) ∧
    ∀ {i : Nat} {n : Node α}, r.nodes[i]? = some n → ¬ n.IsModel →
      ∃ parent ∈ r.nodes, ∃ m, parent.means = .model m ∧ ∃ e ∈ m.dependencies.zip parent.links,
        e.2.nodes = [i] ∧ n.Fits parent.scale e.1 := by
  have hmeets : ∀ n ∈ r.nodes, ∀ m, n.means = .model m →
      List.Forall₂ (Link.Meets r.nodes n.scale) m.dependencies n.links := by
    intro n hn m hm
    obtain ⟨i, hn⟩ := List.mem_iff_getElem?.mp hn
    exact ((resolve_documented h).1 hn).meets (List.take_prefix _ _) hm
  refine ⟨hmeets, fun {i n} hn hnot => ?_⟩
  obtain ⟨j, parent, hparent, hchild⟩ := exists_refers h hn hnot
  obtain ⟨m, hm⟩ := isModel_of_refers h hparent hchild
  obtain ⟨link, hlink, hi⟩ := List.mem_flatMap.mp hchild
  have hparent := List.mem_of_getElem? hparent
  have hlinks := hmeets parent hparent m hm
  rw [← List.map_snd_zip hlinks.length_eq.ge] at hlink
  obtain ⟨e, he, rfl⟩ := List.mem_map.mp hlink
  have hmeet : e.2.Meets r.nodes parent.scale e.1 := List.forall₂_zip hlinks he
  obtain ⟨n', hn', hfits⟩ := hmeet.fits i hi
  cases hn.symm.trans hn'
  exact ⟨parent, hparent, m, hm, e, he, hmeet.alone i hi n hn hnot, hfits⟩

/-- Land is found from water; soil is left to the run, has a default value, or can be missing. -/
def soilless : Sources Number :=
  knowing [{ Model.producing "x.land" land with
    dependencies := [{ observable := water }, { observable := soil, deferred := true },
      { observable := { soil with defaultValue := some (.text "clay") } },
      { observable := { soil with optional := true } }] }, needing "x.water" water []]

theorem resolve_meets_soilless :
    ∃ r, resolve soilless ({} : Config).limits land everywhere = .ok r ∧
      (∃ n ∈ r.nodes, ∃ m, n.means = .model m ∧
        n.links.map Link.nodes = [[0], [1], [2], [3]] ∧
        List.Forall₂ (Link.Meets r.nodes n.scale) m.dependencies n.links) ∧
      ∀ i ∈ [1, 2, 3], ∃ n, r.nodes[i]? = some n ∧ ∃ parent ∈ r.nodes, ∃ m,
        parent.means = .model m ∧ ∃ e ∈ m.dependencies.zip parent.links,
          e.2.nodes = [i] ∧ n.Fits parent.scale e.1 := by
  obtain ⟨r, hr, ⟨n, hn, ⟨m, hm⟩, hlinks⟩, hstandIns⟩ := exists_of_any
    (P := fun r : Resolution Number =>
      (∃ n ∈ r.nodes[4]?, n.IsModel ∧ n.links.map Link.nodes = [[0], [1], [2], [3]]) ∧
      ∀ i ∈ [1, 2, 3], ∃ n ∈ r.nodes[i]?, ¬ n.IsModel)
    (x := resolve soilless ({} : Config).limits land everywhere) (by decide +kernel)
  obtain ⟨hmeets, hfits⟩ := resolve_meets hr
  have hn := List.mem_of_getElem? hn
  refine ⟨r, hr, ⟨n, hn, m, hm, hlinks, hmeets n hn m hm⟩, fun i hi => ?_⟩
  obtain ⟨n', hn', hnot⟩ := hstandIns i hi
  exact ⟨n', hn', hfits hn' hnot⟩

end Resolution

end Obsplan
