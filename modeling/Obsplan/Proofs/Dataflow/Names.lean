import Obsplan.Execution
import Obsplan.Proofs.Dataflow.Unfolding
import Obsplan.Proofs.Resolution.Shape
import Obsplan.Proofs.Search.Asked
import Obsplan.Proofs.Search.Keys

/-!
# The names of dependencies

A computation knows the observations of children by names. A child is presented under the name of
what its node was made for, which is the observable that the model declares, or another one that
asks for the same under another name: a branch that is used again keeps the name under which it was
searched first.
-/

namespace Obsplan

open Search

variable {α : Type} [Coordinate α] {nodes nodes' : List (Node α)}

/-! ## What is linked -/

/-- A node that is linked for a dependency asks for the same over the scale of the dependency. When
no model was found, it is for the dependency itself. -/
structure Node.Serves (n : Node α) (d : Dependency α) (scale : Scale α) : Prop where
  key : n.observable.key = d.observable.key
  scale : n.scale = d.scale.getD scale
  standIn : ¬ n.IsModel → n.observable = d.observable

theorem Search.Accepted.node_mem {sources : Sources α} {o : Observable} {ctx : Context α}
    {ids : List Nat} {covered : Coverage α} (h : Accepted sources nodes o ctx ids covered) :
    ∀ i ∈ ids, ∃ n, nodes[i]? = some n ∧ n.observable = o ∧ n.scale = ctx.scale ∧ n.IsModel := by
  induction h with
  | nil => simp
  | snoc _ _ hn ih =>
    refine List.forall_mem_append.mpr ⟨ih, ?_⟩
    simp only [List.mem_singleton, forall_eq]
    exact ⟨_, hn, rfl, rfl, _, rfl⟩

section Linked

variable [LegibleCoordinate α] {sources : Sources α} {root ctx : Context α} {m : Model α}

/-- The nodes found for a dependency are models, also where they are taken over. -/
theorem Search.Found.node_mem {o : Observable} {b : Branch α}
    (h : Found sources root nodes o ctx b) : ∀ i ∈ b.nodes, ∃ n, nodes[i]? = some n ∧
      n.observable.key = o.key ∧ n.scale = ctx.scale ∧ n.IsModel := by
  cases h with
  | failed => simp [Branch.failed]
  | searched _ hkey haccepted =>
    obtain ⟨hobservable, hscale, -⟩ := branchKey_injective hkey
    intro i hi
    obtain ⟨n, hn, rfl, hs, hmodel⟩ := haccepted.node_mem i hi
    exact ⟨n, hn, hobservable, hs.trans hscale, hmodel⟩

theorem Search.Linked.serves {d : Dependency α} {coverage coverage' : Coverage α} {link : Link}
    (h : Linked sources root nodes m ctx d coverage link coverage') :
    ∀ i ∈ link.nodes, ∃ n, nodes[i]? = some n ∧ n.Serves d ctx.scale := by
  cases h with
  | standIn _ hn =>
    simp only [List.mem_singleton, forall_eq]
    exact ⟨_, hn, rfl, rfl, fun _ => rfl⟩
  | found _ hfound =>
    intro i hi
    obtain ⟨n, hn, hkey, hscale, hmodel⟩ := hfound.node_mem i hi
    exact ⟨n, hn, hkey, hscale, fun h => absurd hmodel h⟩

theorem Search.LinkedAll.serves {ds : List (Dependency α)} {coverage coverage' : Coverage α}
    {links : List Link} (h : LinkedAll sources root nodes m ctx ds coverage links coverage') :
    List.Forall₂ (fun d link => ∀ i ∈ link.nodes, ∃ n, nodes[i]? = some n ∧
      n.Serves d ctx.scale) ds links := by
  induction h with
  | nil => exact .nil
  | cons hl _ ih => exact .cons hl.serves ih

/-- What is linked for the dependencies of the model of a node. -/
theorem Search.Made.serves {n : Node α} (h : Made sources root nodes n) (hm : n.means = .model m) :
    List.Forall₂ (fun d link => ∀ i ∈ link.nodes, ∃ c, nodes[i]? = some c ∧ c.Serves d n.scale)
      m.dependencies n.links := by
  cases h with
  | standIn _ hs => cases hs <;> cases hm
  | model _ _ hl _ =>
    cases hm
    exact hl.serves

end Linked

/-! ## Children in groups -/

theorem Run.names_dependencies (results : Keyed Identifier (Observation α))
    (as : List (Actuator α)) :
    (Run.dependencies results as).map Prod.fst =
      as.map fun a => Run.dependencyName a.job.observable := by
  simp [Run.dependencies, Function.comp_def]

theorem UnfoldsAll.split {own : Nat → Identifier} {is js : List Nat} {as : List (Actuator α)}
    (h : UnfoldsAll nodes own (is ++ js) as) :
    ∃ bs cs, as = bs ++ cs ∧ UnfoldsAll nodes own is bs ∧ UnfoldsAll nodes own js cs := by
  induction is generalizing as with
  | nil => exact ⟨[], as, rfl, .nil, h⟩
  | cons i is ih =>
    cases h with
    | cons ha has =>
      obtain ⟨bs, cs, rfl, hbs, hcs⟩ := ih has
      exact ⟨_ :: bs, cs, rfl, .cons ha hbs, hcs⟩

/-- The actuators of linked nodes, one group for every link. -/
theorem UnfoldsAll.groups {own : Nat → Identifier} {links : List Link} {as : List (Actuator α)}
    (h : UnfoldsAll nodes own (links.flatMap Link.nodes) as) :
    ∃ groups : List (List (Actuator α)), as = groups.flatten ∧
      List.Forall₂ (fun l g => UnfoldsAll nodes own l.nodes g) links groups := by
  induction links generalizing as with
  | nil => cases h; exact ⟨[], rfl, .nil⟩
  | cons l ls ih =>
    obtain ⟨bs, cs, rfl, hbs, hcs⟩ := h.split
    obtain ⟨groups, rfl, hgroups⟩ := ih hcs
    exact ⟨bs :: groups, rfl, .cons hbs hgroups⟩

theorem UnfoldsAll.of_mem {own : Nat → Identifier} {is : List Nat} {as : List (Actuator α)}
    (h : UnfoldsAll nodes own is as) : ∀ a ∈ as, ∃ i ∈ is, Unfolds nodes own i a := by
  induction is generalizing as with
  | nil => cases h; simp
  | cons i is ih =>
    cases h with
    | cons ha has =>
      refine List.forall_mem_cons.mpr ⟨⟨i, List.mem_cons_self, ha⟩, fun b hb => ?_⟩
      obtain ⟨j, hj, hb⟩ := ih has b hb
      exact ⟨j, List.mem_cons_of_mem i hj, hb⟩

/-- An actuator carries the observable and the scale of its node. -/
theorem Unfolds.carries {own : Nat → Identifier} {i : Nat} {a : Actuator α} {n : Node α}
    (h : Unfolds nodes own i a) (hn : nodes[i]? = some n) :
    a.job.observable = n.observable ∧ a.job.scale = n.scale := by
  cases h with
  | computed hn' _ hj _ =>
    cases hn.symm.trans hn'
    exact ⟨hj.observable, hj.scale⟩
  | reference hn' hj =>
    cases hn.symm.trans hn'
    exact ⟨hj.observable, hj.scale⟩

namespace Resolution

variable {r : Resolution α} {d : Dataflow α} {own : Nat → Identifier}

/-- Whatever asks for the same as a dependency over its scale has the name that was declared. -/
def NamesAlike (r : Resolution α) (dep : Dependency α) (scale : Scale α) : Prop :=
  ∀ o, r.Asks o (dep.scale.getD scale) → o.key = dep.observable.key →
    Run.dependencyName o = Run.dependencyName dep.observable

/-- How the actuators that stand for a dependency are presented to a model over a scale. -/
structure Presents (r : Resolution α) (own : Nat → Identifier) (scale : Scale α)
    (dep : Dependency α) (link : Link) (group : List (Actuator α)) : Prop where
  unfolds : UnfoldsAll r.nodes own link.nodes group
  /-- They observe what is declared, and are named by something that asks for it. -/
  asked : ∀ c ∈ group, c.job.observable.key = dep.observable.key ∧
    c.job.scale = dep.scale.getD scale ∧ r.Asks c.job.observable c.job.scale
  /-- What stands in for a model that was not found has the declared name. -/
  standIn : (∀ i ∈ link.nodes, ∀ n ∈ r.nodes[i]?, ¬ n.IsModel) → ∀ results,
    ∀ entry ∈ Run.dependencies results group, entry.1 = Run.dependencyName dep.observable
  /-- What is found has the declared name as well, unless the same is asked for by another one. -/
  named : r.NamesAlike dep scale → ∀ results, ∀ entry ∈ Run.dependencies results group,
    entry.1 = Run.dependencyName dep.observable

theorem presents {scale : Scale α} {dep : Dependency α} {link : Link} {group : List (Actuator α)}
    (hasks : ∀ n ∈ r.nodes, r.Asks n.observable n.scale)
    (hserves : ∀ i ∈ link.nodes, ∃ n, r.nodes[i]? = some n ∧ n.Serves dep scale)
    (hgroup : UnfoldsAll r.nodes own link.nodes group) : r.Presents own scale dep link group := by
  have hchild : ∀ c ∈ group, ∃ i ∈ link.nodes, ∃ n, r.nodes[i]? = some n ∧ n.Serves dep scale ∧
      c.job.observable = n.observable ∧ c.job.scale = n.scale := by
    intro c hc
    obtain ⟨i, hi, hunfolds⟩ := hgroup.of_mem c hc
    obtain ⟨n, hn, hserve⟩ := hserves i hi
    exact ⟨i, hi, n, hn, hserve, hunfolds.carries hn⟩
  have hnames : ∀ results, ∀ entry ∈ Run.dependencies results group,
      ∃ c ∈ group, Run.dependencyName c.job.observable = entry.1 := by
    intro results entry hentry
    rw [← List.mem_map, ← Run.names_dependencies results]
    exact List.mem_map_of_mem hentry
  have hasked : ∀ c ∈ group, c.job.observable.key = dep.observable.key ∧
      c.job.scale = dep.scale.getD scale ∧ r.Asks c.job.observable c.job.scale := by
    intro c hc
    obtain ⟨i, -, n, hn, hserve, hobservable, hscale⟩ := hchild c hc
    rw [hobservable, hscale]
    exact ⟨hserve.key, hserve.scale, hasks n (List.mem_of_getElem? hn)⟩
  refine ⟨hgroup, hasked, fun hnone results entry hentry => ?_,
    fun halike results entry hentry => ?_⟩
  · obtain ⟨c, hc, hname⟩ := hnames results entry hentry
    obtain ⟨i, hi, n, hn, hserve, hobservable, -⟩ := hchild c hc
    rw [← hname, hobservable, hserve.standIn (hnone i hi n hn)]
  · obtain ⟨c, hc, hname⟩ := hnames results entry hentry
    obtain ⟨hkey, hscale, hask⟩ := hasked c hc
    rw [← hname]
    exact halike _ (hscale ▸ hask) hkey

theorem presentsAll {scale : Scale α} {ds : List (Dependency α)} {links : List Link}
    {groups : List (List (Actuator α))} (hasks : ∀ n ∈ r.nodes, r.Asks n.observable n.scale)
    (hserves : List.Forall₂ (fun dep link => ∀ i ∈ link.nodes, ∃ n, r.nodes[i]? = some n ∧
      n.Serves dep scale) ds links)
    (hgroups : List.Forall₂ (fun l g => UnfoldsAll r.nodes own l.nodes g) links groups) :
    List.Forall₂ (fun dep entry => r.Presents own scale dep entry.1 entry.2) ds
      (links.zip groups) := by
  induction hserves generalizing groups with
  | nil => exact .nil
  | cons hserve _ ih =>
    cases hgroups with
    | cons hgroup hrest => exact .cons (presents hasks hserve hgroup) (ih hrest)

/-- An actuator that is computed by a model has its children in groups, one for every dependency in
the order of declaration. -/
structure Presented (r : Resolution α) (own : Nat → Identifier) (a : Actuator α) (n : Node α)
    (m : Model α) : Prop where
  node : n ∈ r.nodes
  model : n.means = .model m
  strategy : a.job.strategy = some m.urn
  scale : a.job.scale = n.scale
  groups : ∃ groups : List (List (Actuator α)), a.children = groups.flatten ∧
    groups.length = n.links.length ∧
    List.Forall₂ (fun dep entry => r.Presents own a.job.scale dep entry.1 entry.2) m.dependencies
      (n.links.zip groups)

variable [LegibleCoordinate α] {sources : Sources α} {limits : Limits α} {o : Observable}
  {ctx : Context α} {maxLevel : Option Nat} {allocator rest : Allocator}

theorem presented_of_unfolds (h : resolve sources limits o ctx = .ok r) {i : Nat} {a : Actuator α}
    {urn : String} (ha : Unfolds r.nodes own i a) (hurn : a.job.strategy = some urn) :
    ∃ n m, m.urn = urn ∧ r.Presented own a n m := by
  cases ha with
  | reference _ hj =>
    rw [Actuator.job, hj.strategy] at hurn
    cases hurn
  | @computed _ n j as hn _ hj has =>
    cases hmodel : n.means.model? with
    | none =>
      rw [Actuator.job, hj.standIn hmodel] at hurn
      cases hurn
    | some m =>
      have hmeans : n.means = .model m := by
        cases hm : n.means <;> rw [hm] at hmodel <;> cases hmodel
        rfl
      obtain ⟨-, hstrategy, -⟩ := hj.model m hmeans
      have hmade := (resolve_documented h).1 hn
      obtain ⟨groups, hchildren, hgroups⟩ := has.groups
      have hserves : List.Forall₂ (fun dep link => ∀ i ∈ link.nodes, ∃ c, r.nodes[i]? = some c ∧
          c.Serves dep n.scale) m.dependencies n.links := by
        refine (hmade.serves hmeans).imp fun dep link hlink i hi => ?_
        obtain ⟨c, hc, hserve⟩ := hlink i hi
        exact ⟨c, getElem?_extend (List.take_prefix _ _) hc, hserve⟩
      refine ⟨n, m, ?_, List.mem_of_getElem? hn, hmeans, hstrategy, hj.scale, groups, hchildren,
        hgroups.length_eq.symm, ?_⟩
      · rw [Actuator.job, hstrategy] at hurn
        exact Option.some.inj hurn
      · rw [Actuator.job, hj.scale]
        exact presentsAll (resolve_asks h) hserves hgroups

/-- Every model sees, dependency by dependency, what it needs under a name that is declared for it,
and under the name that it declares itself unless the same is asked for under another one. -/
theorem lower_presents (h : resolve sources limits o ctx = .ok r)
    (hlower : r.lower maxLevel allocator = (.ok d, rest)) :
    ∃ own, UnfoldsAll r.nodes own r.roots d.actuators ∧
      ∀ a ∈ d.walk, ∀ urn, a.job.strategy = some urn → ∃ n m, m.urn = urn ∧
        r.Presented own a n m := by
  obtain ⟨ho, hroots⟩ := resolve_ordered h
  obtain ⟨new, s', hs', -, -⟩ := lower_lowers ho hroots hlower
  obtain ⟨own, hplaces⟩ := Lowering.exists_places s'
  have hunfolds := hs'.unfolds own hplaces
  refine ⟨own, hunfolds, fun a ha urn hurn => ?_⟩
  obtain ⟨i, hi⟩ := hunfolds.of_mem_walkAll ha
  exact presented_of_unfolds h hi hurn

/-! ## Names that differ -/

omit [LegibleCoordinate α] in
/-- The names are alike when all models that declare the same dependency call it the same. -/
theorem namesAlike_of_models {dep : Dependency α} {scale : Scale α}
    (hroot : r.observable.key ≠ dep.observable.key)
    (hmodels : ∀ m ∈ r.models, ∀ d ∈ m.dependencies, d.observable.key = dep.observable.key →
      Run.dependencyName d.observable = Run.dependencyName dep.observable) :
    r.NamesAlike dep scale := by
  rintro o (⟨rfl, -⟩ | ⟨n, hn, m, hm, d, hd, rfl, -⟩) hkey
  · exact absurd hkey hroot
  · exact hmodels m (List.mem_filterMap.mpr ⟨n, hn, by rw [hm, Means.model?]⟩) d hd hkey

/-- An observable that is asked for under a name. -/
def called (name : String) (o : Observable) : Observable := { o with statedName := some name }

/-- Land and soil need the same water under one name. -/
theorem lower_presents_alike :
    ∃ r d rest own, resolve (knowing [needing "x.land" land [called "s" soil, called "w" water],
        needing "x.soil" soil [called "w" water], needing "x.water" water []])
        ({} : Config).limits land everywhere = .ok r ∧
      r.lower none {} = (.ok d, rest) ∧ r.NamesAlike { observable := called "w" water } .scalar ∧
      (∃ a ∈ d.walk, a.job.strategy = some "x.land" ∧
        (Run.dependencies .empty a.children).map Prod.fst = ["s", "w"]) ∧
      ∀ a ∈ d.walk, ∀ urn, a.job.strategy = some urn → ∃ n m, m.urn = urn ∧
        r.Presented own a n m := by
  obtain ⟨r, hr, hroot, hmodels, hwalk⟩ := exists_of_any (P := fun r : Resolution Number =>
      r.observable.key ≠ (called "w" water).key ∧
      (∀ m ∈ r.models, ∀ d ∈ m.dependencies, d.observable.key = (called "w" water).key →
        Run.dependencyName d.observable = Run.dependencyName (called "w" water)) ∧
      ((r.lower none {}).1.toOption.any fun d => decide (∃ a ∈ d.walk,
        a.job.strategy = some "x.land" ∧
        (Run.dependencies .empty a.children).map Prod.fst = ["s", "w"])) = true)
    (x := resolve (knowing [needing "x.land" land [called "s" soil, called "w" water],
      needing "x.soil" soil [called "w" water], needing "x.water" water []])
      ({} : Config).limits land everywhere) (by decide +kernel)
  obtain ⟨d, hd, hwalk⟩ := exists_of_any hwalk
  have hlower : r.lower none {} = (.ok d, (r.lower none {}).2) := Prod.ext hd rfl
  obtain ⟨own, -, hpresented⟩ := lower_presents hr hlower
  exact ⟨r, d, _, own, hr, hlower, namesAlike_of_models hroot hmodels, hwalk, hpresented⟩

/-- Land needs water under two names, and the second one is lost. -/
theorem lower_presents_otherwise :
    ∃ r d rest, resolve (knowing [needing "x.land" land [called "p" water, called "q" water],
        needing "x.water" water []]) ({} : Config).limits land everywhere = .ok r ∧
      r.lower none {} = (.ok d, rest) ∧
      ∃ a ∈ d.walk, ∃ m ∈ r.models, a.job.strategy = some m.urn ∧
        m.dependencies.map (fun dep => Run.dependencyName dep.observable) = ["p", "q"] ∧
        ∀ results, (Run.dependencies results a.children).map Prod.fst = ["p", "p"] := by
  obtain ⟨r, hr, hwalk⟩ := exists_of_any (P := fun r : Resolution Number =>
      ((r.lower none {}).1.toOption.any fun d => decide (∃ a ∈ d.walk, ∃ m ∈ r.models,
        a.job.strategy = some m.urn ∧
        m.dependencies.map (fun dep => Run.dependencyName dep.observable) = ["p", "q"] ∧
        (Run.dependencies .empty a.children).map Prod.fst = ["p", "p"])) = true)
    (x := resolve (knowing [needing "x.land" land [called "p" water, called "q" water],
      needing "x.water" water []]) ({} : Config).limits land everywhere) (by decide +kernel)
  obtain ⟨d, hd, a, ha, m, hm, hstrategy, hdeclared, hnames⟩ := exists_of_any hwalk
  refine ⟨r, d, _, hr, Prod.ext hd rfl, a, ha, m, hm, hstrategy, hdeclared, fun results => ?_⟩
  rw [Run.names_dependencies] at hnames ⊢
  exact hnames

end Resolution

end Obsplan
