import Mathlib.Data.List.Sort
import Mathlib.Data.String.Basic
import Obsplan.Proofs.Context.Preferences

/-!
# Lists of constraints

Whoever looks up a constraint finds the first one of its name. In constraints that were added one
after the other there is no second one, but a list that is taken as it was written may have one.
Main statement: lists that name nothing twice that planning looks at mean the same either way.
-/

namespace Obsplan

/-! ## Sets of texts -/

namespace TextSet

theorem pairwise_insertIn {s : String} {ts : List String} (h : ts.Pairwise (· < ·)) :
    (insertIn s ts).Pairwise (· < ·) := by
  induction ts with
  | nil => exact List.pairwise_singleton _ s
  | cons t ts ih =>
    obtain ⟨ht, hts⟩ := List.pairwise_cons.mp h
    unfold insertIn
    split
    · exact h
    · rename_i hne
      split
      · rename_i hlt
        refine List.pairwise_cons.mpr ⟨fun u hu => ?_, h⟩
        rcases List.mem_cons.mp hu with rfl | hu
        · exact hlt
        · exact lt_trans hlt (ht u hu)
      · rename_i hnlt
        have htlt : t < s := lt_of_le_of_ne (not_lt.mp hnlt) (Ne.symm hne)
        refine List.pairwise_cons.mpr ⟨fun u hu => ?_, ih hts⟩
        rcases mem_insertIn.mp hu with rfl | hu
        · exact htlt
        · exact ht u hu

theorem pairwise_insertAll {a : TextSet} {texts : List String} (h : a.toList.Pairwise (· < ·)) :
    (a.insertAll texts).toList.Pairwise (· < ·) := by
  induction texts generalizing a with
  | nil => exact h
  | cons t texts ih => exact ih (pairwise_insertIn h)

theorem pairwise_ofList (texts : List String) : (ofList texts).toList.Pairwise (· < ·) :=
  pairwise_insertAll .nil

/-- Ascending sets are known by their texts. -/
theorem eq_of_mem_iff {a b : TextSet} (ha : a.toList.Pairwise (· < ·))
    (hb : b.toList.Pairwise (· < ·)) (h : ∀ t, t ∈ a.toList ↔ t ∈ b.toList) : a = b :=
  congrArg mk (ha.eq_of_mem_iff hb fun t => h t)

/-- Lists of the same texts make the same set. -/
theorem ofList_congr {texts texts' : List String} (h : ∀ t, t ∈ texts ↔ t ∈ texts') :
    ofList texts = ofList texts' :=
  eq_of_mem_iff (pairwise_ofList texts) (pairwise_ofList texts') fun t =>
    Search.mem_ofList.trans ((h t).trans Search.mem_ofList.symm)

end TextSet

/-! ## One constraint of a name -/

namespace Constraints

variable {cs cs' : Constraints} {c : Constraint} {list : List Constraint} {name : String}

/-- A name that is given once says the same in a list and in constraints that the list is added
to. -/
theorem values_foldl_add_of_alone (hnone : cs.get? name = none)
    (h : list.Pairwise fun c d => c.name = d.name → c.name ≠ name) :
    (list.foldl add cs).values name = (mk list).values name := by
  induction list generalizing cs with
  | nil => exact congrArg (fun c => (c.map Constraint.values).getD []) hnone
  | cons c list ih =>
    obtain ⟨hc, hlist⟩ := List.pairwise_cons.mp h
    rw [List.foldl_cons]
    by_cases hname : c.name = name
    · -- the name does not come again, so nothing is joined to these values
      subst hname
      rw [values_foldl_add fun d hd hdc => hc d hd hdc.symm rfl, values, get?_add, if_pos rfl, hnone]
      simp [values, get?]
    · rw [ih ((get?_add_of_ne hname).trans hnone) hlist]
      simp [values, get?, hname]

end Constraints

/-! ## The same meaning -/

/-- The names that planning looks at. -/
def Constraint.planningNames : List String :=
  [acceptPartialName, excludeModelName, namespaceName, projectName, modelVersionName, geometryName]

namespace Constraints

/-- Two lists of constraints mean the same to the planner. -/
structure Agree (cs cs' : Constraints) : Prop where
  accepts : cs.acceptPartial? = cs'.acceptPartial?
  excluded : cs.excludedModels = cs'.excludedModels
  namespaces : ∀ n, n ∈ cs.preferredNamespaces ↔ n ∈ cs'.preferredNamespaces
  projects : ∀ p, p ∈ cs.preferredProjects ↔ p ∈ cs'.preferredProjects
  pinned : cs.pinnedVersion? = cs'.pinnedVersion?
  scale : geometry? cs = geometry? cs'

theorem Agree.of_values {cs cs' : Constraints}
    (h : ∀ name ∈ Constraint.planningNames, cs.values name = cs'.values name) : cs.Agree cs' := by
  simp only [Constraint.planningNames, List.forall_mem_cons, List.not_mem_nil, false_imp_iff,
    implies_true, and_true] at h
  obtain ⟨haccept, hexclude, hnamespace, hproject, hversion, hgeometry⟩ := h
  constructor
  · simp only [acceptPartial?, haccept]
  · simp only [excludedModels, texts, hexclude]
  · simp only [preferredNamespaces, texts, hnamespace, implies_true]
  · simp only [preferredProjects, texts, hproject, implies_true]
  · funext urn
    simp only [pinnedVersion?, texts, hversion]
  · unfold geometry?
    rw [hgeometry]

/-- Constraints mean the same as they are written and when each is added to those before. -/
def Settled (cs : Constraints) : Prop := (ofList cs.toList).Agree cs

/-- Names may come again when they mean nothing to the planner. -/
theorem settled_of_pairwise {cs : Constraints} (h : cs.toList.Pairwise fun c d =>
    c.name = d.name → c.name ∉ Constraint.planningNames) : cs.Settled :=
  .of_values fun name hname => values_foldl_add_of_alone rfl <|
    h.imp fun hcd heq hc => hcd heq (by rwa [hc])

end Constraints

end Obsplan
