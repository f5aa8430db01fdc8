import Mathlib.Data.List.Nodup
import Obsplan.Model.Json

/-!
# Declarations of models

A model may be declared by its name, what it produces and what it depends on. Built from these it
takes its namespace from the name; read from JSON it has the namespace that is written, and none if
there is none.
-/

namespace Obsplan

/-! ## Fields of objects -/

namespace Json

variable {fields fields' : List (String × Json)} {names : List String} {name : String}

/-- Fields with names of their own are found wherever they stand. -/
theorem lookup_perm (h : fields.Perm fields') (hnodup : (fields.map Prod.fst).Nodup)
    (name : String) : fields.lookup name = fields'.lookup name := by
  induction h with
  | nil => rfl
  | cons f _ ih =>
    obtain ⟨k, x⟩ := f
    simp only [List.lookup_cons, ih (List.nodup_cons.mp hnodup).2]
  | swap f g rest =>
    obtain ⟨k, x⟩ := f
    obtain ⟨l, y⟩ := g
    have hne : l ≠ k := by
      simp only [List.map_cons, List.nodup_cons, List.mem_cons, not_or] at hnodup
      exact hnodup.1.1
    by_cases hk : name = k
    · subst hk
      simp [List.lookup_cons, beq_false_of_ne hne.symm]
    · simp [List.lookup_cons, beq_false_of_ne hk]
  | trans hfirst _ ih ih' =>
    exact (ih hnodup).trans (ih' ((hfirst.map Prod.fst).nodup_iff.mp hnodup))

/-- Known fields with names of their own make a record. -/
theorem objectRecord?_of_nodup (hknown : ∀ f ∈ fields, f.1 ∈ names)
    (hnodup : (fields.map Prod.fst).Nodup) : objectRecord? names fields = some fields := by
  have hall : fields.filter (fun f => names.contains f.1) = fields :=
    List.filter_eq_self.mpr fun f hf => List.contains_iff_mem.mpr (hknown f hf)
  have honce : ∀ name, (fields.filter fun f => f.1 == name).length ≤ 1 := by
    intro name
    rw [← List.countP_eq_length_filter]
    have hcount := List.nodup_iff_count_le_one.mp hnodup name
    rwa [List.count, List.countP_map] at hcount
  unfold objectRecord?
  simp only [hall]
  exact if_pos (List.all_eq_true.mpr fun name _ => decide_eq_true (honce name))

end Json

/-! ## Namespaces -/

namespace Model

variable {α : Type} [Coordinate α]

/-- The model without its namespace. -/
def unspaced (m : Model α) : Model α := { m with space := "" }

@[simp] theorem space_unspaced (m : Model α) : m.unspaced.space = "" := rfl

@[simp] theorem urn_unspaced (m : Model α) : m.unspaced.urn = m.urn := rfl

@[simp] theorem priority_unspaced (m : Model α) : m.unspaced.priority = m.priority := rfl

@[simp] theorem coverageOver_unspaced (m : Model α) (scale : Scale α) :
    m.unspaced.coverageOver scale = m.coverageOver scale := rfl

@[simp] theorem observables_unspaced (m : Model α) : m.unspaced.observables = m.observables := rfl

theorem validate_unspaced (m : Model α) : m.unspaced.validate = m.validate.map unspaced := by
  unfold validate
  by_cases hurn : (Text.trimBoth Text.isBlank m.urn.toList).isEmpty = true
  · simp [hurn, Except.map]
  · by_cases hobservables : m.observables.isEmpty = true
    · simp [hurn, hobservables, Except.map]
    · simp [hurn, hobservables, Except.map]

/-- The model with one more dependency. -/
def needs (m : Model α) (d : Dependency α) : Model α :=
  { m with dependencies := m.dependencies ++ [d] }

theorem foldl_needs (m : Model α) (ds : List (Dependency α)) :
    ds.foldl needs m = { m with dependencies := m.dependencies ++ ds } := by
  induction ds generalizing m with
  | nil => simp
  | cons d ds ih => simp [ih, needs]

end Model

/-- What a model is declared by. -/
structure Declaration where
  urn : String
  observable : Observable
  dependencies : List (Dependency Number)

namespace Declaration

variable {d : Declaration} {given : Option String} {j : Json}

/-- The model that is built from a declaration. -/
def model (d : Declaration) : Model Number :=
  d.dependencies.foldl Model.needs (.producing d.urn d.observable)

/-- The namespace that the name of a declaration stands in. -/
def space (d : Declaration) : String := ((Text.splitLast? '.' d.urn).map Prod.fst).getD ""

theorem model_eq (d : Declaration) : d.model =
    { urn := d.urn, space := d.space, observables := [d.observable],
      dependencies := d.dependencies } :=
  Model.foldl_needs ..

/-- An object whose fields, in any order, are the name, the observable and the dependencies of a
declaration, and the namespace if one is given. Without dependencies their field may be left out. -/
def WrittenAs (d : Declaration) (given : Option String) (j : Json) : Prop :=
  ∃ fields produced dependencies, j = .object fields ∧
    fields.Perm ([("urn", .text d.urn), ("observables", .list [produced])] ++
      Json.optionalField "namespace" (given.map .text) ++
      Json.optionalField "dependencies" dependencies) ∧
    Observable.ofJson? produced = some d.observable ∧
    dependencies.elim (some []) (Json.listOf? Dependency.ofJson?) = some d.dependencies

theorem ofJson?_of_writtenAs (h : d.WrittenAs given j) :
    Model.ofJson? j = some { d.model with space := given.getD "" } := by
  obtain ⟨fields, produced, dependencies, rfl, hfields, hproduced, hdependencies⟩ := h
  have hknown : ∀ f ∈ fields, f.1 ∈ ["urn", "version", "namespace", "project", "observables",
      "dependencies", "coverage", "computation", "priority"] := by
    intro f hf
    have hmem := hfields.mem_iff.mp hf
    cases given <;> cases dependencies <;> simp [Json.optionalField] at hmem <;> grind
  have hnodup : (fields.map Prod.fst).Nodup := by
    refine (hfields.map Prod.fst).nodup_iff.mpr ?_
    cases given <;> cases dependencies <;> simp [Json.optionalField]
  have hlookup : ∀ name, fields.lookup name = _ := Json.lookup_perm hfields hnodup
  simp only [Model.ofJson?, Json.record?, Json.objectRecord?_of_nodup hknown hnodup,
    Option.bind_eq_bind, Option.bind_some, Json.Record.get?, Json.Record.getOr?,
    Json.Record.option?, hlookup, model_eq]
  cases given <;> cases dependencies <;>
    simp_all [Json.optionalField, List.lookup_cons, Json.text?, Json.listOf?]

end Declaration

end Obsplan
