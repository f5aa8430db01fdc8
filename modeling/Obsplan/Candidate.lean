import Obsplan.Catalog.Sources
import Obsplan.Context
import Obsplan.Notification

/-!
# Candidates

The models that could produce an observable over what is still uncovered, the best ones first.
Models that the context prefers come first, then those of higher priority, then those that produce
the observable's own concept, then those that cover more, and at last the name decides.
-/

namespace Obsplan

variable {α : Type} [Coordinate α]

/-- One way to produce an observable. -/
structure Candidate (α : Type) [Coordinate α] where
  model : Model α
  /-- What the model claims of the context's scale. -/
  coverage : Coverage α
  /-- Whether the model produces the observable's own concept and not one below it. -/
  isExact : Bool
  /-- Whether the context prefers the namespace or the project of the model. -/
  isPreferred : Bool

/-- Candidates, and what was worth telling when they were looked up. -/
structure Candidates (α : Type) [Coordinate α] where
  list : List (Candidate α)
  notifications : List Notification

namespace Candidate

/-- The models found for an observable, each with whether it produces the observable's own
concept. -/
def found (s : Sources α) (o : Observable) : Except CatalogError (List (Model α × Bool)) := do
  let own ← s.models o
  let others ← match o.mode with
    | .exact => pure []
    | .any => do
      let concepts ← s.below o.concept
      concepts.mapM fun concept => s.models { concept, collective := o.collective }
  return own.map (·, true) ++ others.flatten.map (·, false)

/-- Found models without those whose name is in `seen` or came before. -/
def distinct (seen : List String) : List (Model α × Bool) → List (Model α × Bool)
  | [] => []
  | (m, isExact) :: rest =>
    if m.urn ∈ seen then distinct seen rest
    else (m, isExact) :: distinct (m.urn :: seen) rest

/-- Why a model that is pinned to a version is refused: it has another version, or the pin is no
version. -/
def pinTrouble? (cs : Constraints) (m : Model α) : Option Notification :=
  (cs.pinnedVersion? m.urn).bind fun pin =>
    match Version.ofText pin with
    | .ok required =>
      if required = m.version then none
      else some (.warning .mismatchedVersion
        (CatalogError.mismatchedVersion m.urn required.text m.version.text).message)
    | .error e => some (.warning .resourceValidation e.message)

/-- The models that the constraints allow, and the warnings about pins. -/
def screen (cs : Constraints) (o : Observable) :
    List (Model α × Bool) → List (Model α × Bool) × List Notification
  | [] => ([], [])
  | (m, isExact) :: rest =>
    let (models, notifications) := screen cs o rest
    if cs.excludedModels.contains m.urn then (models, notifications)
    else match pinTrouble? cs m with
      | some n => (models, n.about o.urn :: notifications)
      | none => ((m, isExact) :: models, notifications)

/-- Whether the constraints prefer the namespace or the project of a model. -/
def prefers (cs : Constraints) (m : Model α) : Bool :=
  cs.preferredNamespaces.contains m.space ||
    m.project.any fun p => cs.preferredProjects.contains p

/-- The candidate that a model makes, if it covers some of what is left. -/
def ofModel? (ctx : Context α) (remainder : Coverage α) (found : Model α × Bool) :
    Option (Candidate α) :=
  let coverage := found.1.coverageOver ctx.scale
  if (coverage.intersect remainder).isEmpty then none
  else some ⟨found.1, coverage, found.2, prefers ctx.constraints found.1⟩

def precedes (a b : Candidate α) : Bool :=
  if a.isPreferred != b.isPreferred then a.isPreferred
  else if a.model.priority ≠ b.model.priority then decide (b.model.priority < a.model.priority)
  else if a.isExact != b.isExact then a.isExact
  else if b.coverage.fraction < a.coverage.fraction then true
  else if a.coverage.fraction < b.coverage.fraction then false
  else decide (a.model.urn < b.model.urn)

/-- The ranked candidates for an observable in a context that contribute to a remainder. The lookup
fails when a collaborator fails or offers a model that cannot be used. -/
def lookup (s : Sources α) (o : Observable) (ctx : Context α) (remainder : Coverage α) :
    Except CatalogError (Candidates α) := do
  let models := distinct [] (← found s o)
  let _ ← models.mapM fun m => m.1.validate
  let (admitted, notifications) := screen ctx.constraints o models
  return ⟨arrange precedes (admitted.filterMap (ofModel? ctx remainder)), notifications⟩

end Candidate

end Obsplan
