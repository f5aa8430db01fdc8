import Obsplan.Proofs.Resolution.Shape
import Obsplan.Proofs.Search.Outages
import Obsplan.Proofs.Search.Total

/-!
# Resolutions with lookups that are not answered

Main statement: a catalog or a reasoner that fails to answer either shows in the failure of the whole
search, with the cause and the observable, or it does not show at all. No default value, no other
candidate and no optional dependency ever stands in for an answer that did not come.
-/

namespace Obsplan.Resolution

variable {α : Type} [Coordinate α]

/-- A lookup that fails ends the search with its failure, or the resolution is what it would be if
nothing failed. -/
theorem resolve_interrupted {catalog : Catalog α} {taxonomy : Taxonomy} {sources : Sources α}
    (hcatalog : catalog.Filled)
    (hsources : (Sources.ofCatalog catalog taxonomy).Interrupted sources) (limits : Limits α)
    (o : Observable) (ctx : Context α) :
    ∃ r, resolve (.ofCatalog catalog taxonomy) limits o ctx = .ok r ∧
      (resolve sources limits o ctx = .ok r ∨
        ∃ asked cause, Relation.ReflTransGen sources.Involves o asked ∧
          sources.Unanswered asked cause ∧
          resolve sources limits o ctx = .error (.infrastructure asked.text cause)) := by
  have hlookup : ∀ o ctx remainder, ∃ found,
      Candidate.lookup (Sources.ofCatalog catalog taxonomy) o ctx remainder = .ok found :=
    Candidate.exists_lookup (Sources.reliable_ofCatalog hcatalog taxonomy)
  have htotal : Search.Succeeds (resolve (.ofCatalog catalog taxonomy) limits o ctx) :=
    .bind (Search.branch_total hlookup (limits.maxDepth + 1) o ctx {}) fun _ => .pure _
  have hends : EndsLike (Search.Unmet sources o) (resolve sources limits o ctx)
      (resolve (.ofCatalog catalog taxonomy) limits o ctx) :=
    (Search.branch_endsLike hsources (limits.maxDepth + 1) o ctx {}).before _
  obtain ⟨r, hr⟩ := htotal
  refine ⟨r, hr, ?_⟩
  rcases hends with hsame | ⟨e, ⟨asked, cause, hasked, hcause, rfl⟩, hfails⟩
  · exact .inl (hsame.trans hr)
  · exact .inr ⟨asked, cause, hasked, hcause, hfails⟩

/-- Land is known without anything else, and better with soil, which has a default value. -/
def forgiving : Catalog Number :=
  (Catalog.empty.insertAll [
    { needing "a.land" land [{ soil with optional := true, defaultValue := some (.int 1) }] with
      priority := 1 },
    needing "b.land" land [], needing "c.soil" soil []]).1

/-- The forgiving catalog when it is silent about soil. -/
def silent : Sources Number :=
  (Sources.ofCatalog forgiving {}).withoutModelsFor [soil.concept] (.notFound "soil")

theorem eq_error_of_any {ε β : Type} [DecidableEq ε] {x : Except ε β} {e : ε}
    (h : (match x with | .error e' => decide (e' = e) | .ok _ => false) = true) : x = .error e := by
  cases x with
  | error e' => exact congrArg Except.error (of_decide_eq_true h)
  | ok b => cases h

/-- Soil that cannot be looked up is not made up for, and a reasoner that is not asked is not
missed. -/
theorem resolve_interrupted_forgiving :
    (∃ asked cause, Relation.ReflTransGen silent.Involves land asked ∧
      silent.Unanswered asked cause ∧ asked.text = "optional t:Soil" ∧
      resolve silent ({} : Config).limits land everywhere =
        .error (.infrastructure asked.text cause)) ∧
    ∃ r, resolve (.ofCatalog forgiving {}) ({} : Config).limits land everywhere = .ok r ∧
      resolve ((Sources.ofCatalog forgiving {}).withoutReasoner (.notFound "reasoner"))
        ({} : Config).limits land everywhere = .ok r := by
  have hfilled : forgiving.Filled := .insertAll .empty _
  refine ⟨?_, ?_⟩
  · have hfails : resolve silent ({} : Config).limits land everywhere =
        .error (.infrastructure "optional t:Soil" (.notFound "soil")) :=
      eq_error_of_any (by decide +kernel)
    obtain ⟨r, -, hr | ⟨asked, cause, hasked, hcause, he⟩⟩ := resolve_interrupted hfilled
      (Sources.interrupted_withoutModelsFor (.ofCatalog forgiving {}) [soil.concept]
        (.notFound "soil")) ({} : Config).limits land everywhere
    · cases hr.symm.trans hfails
    · have herror := Except.error.inj (he.symm.trans hfails)
      exact ⟨asked, cause, hasked, hcause, (ResolutionError.infrastructure.inj herror).1, he⟩
  · obtain ⟨r', hr', -⟩ := exists_of_any (P := fun _ : Resolution Number => True)
      (x := resolve ((Sources.ofCatalog forgiving {}).withoutReasoner (.notFound "reasoner"))
        ({} : Config).limits land everywhere) (by decide +kernel)
    obtain ⟨r, hr, hsame | ⟨_, _, -, -, he⟩⟩ := resolve_interrupted hfilled
      (Sources.interrupted_withoutReasoner (.ofCatalog forgiving {}) (.notFound "reasoner"))
      ({} : Config).limits land everywhere
    · exact ⟨r, hr, hsame⟩
    · cases hr'.symm.trans he

end Obsplan.Resolution
