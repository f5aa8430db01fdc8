import Obsplan.Candidate
import Obsplan.Failure
import Obsplan.Resolution.Basic

/-!
# The search for a resolution

For an observable the search tries the ranked candidates, resolves the dependencies of each one
before accepting it, and ends as soon as the scale is covered. When a candidate is refused, all
nodes made on its behalf are dropped. Circles, chains of dependencies that get too long and the end
of the available time fail only the branch where they show; a collaborator that fails ends the whole
search.
-/

namespace Obsplan

variable {α : Type} [Coordinate α]

/-- What bounds a search. -/
structure Limits (α : Type) where
  /-- Coverage counts as complete when at most this fraction is missing. -/
  tolerance : α
  /-- Candidates that add less than this fraction are passed over. -/
  minContribution : α
  /-- How long a chain of dependencies may get. -/
  maxDepth : Nat
  /-- Whether the time is up when the clock is looked at for the `n`-th time. -/
  isLate : Nat → Bool := fun _ => false
  /-- Whether a branch that is resolved completely is used again. -/
  reuses : Bool := true

/-- What a search for one observable found. -/
structure Branch (α : Type) [Coordinate α] where
  outcome : Outcome
  nodes : List Nat
  coverage : Coverage α

/-- A branch that found nothing. -/
def Branch.failed (outcome : Outcome) (scale : Scale α) : Branch α := ⟨outcome, [], .empty scale⟩

/-- What a search carries along. -/
structure SearchState (α : Type) [Coordinate α] where
  nodes : List (Node α) := []
  /-- The observables and scales being searched, the innermost first. -/
  path : List String := []
  /-- The branches resolved completely, by observable, scale and preferences. -/
  resolved : Keyed String (Branch α) := .empty
  notifications : List Notification := []
  /-- How often the clock was looked at. -/
  looks : Nat := 0
  /-- Whether the time was found to be up. -/
  timedOut : Bool := false

namespace SearchState

/-- The state with one more notification. -/
def notify (s : SearchState α) (n : Notification) : SearchState α :=
  { s with notifications := s.notifications ++ [n] }

/-- Looks at the clock: whether the time is up, which is told once. -/
def look (limits : Limits α) (s : SearchState α) : Bool × SearchState α :=
  if s.timedOut then (true, s)
  else
    let s' := { s with looks := s.looks + 1 }
    if limits.isLate s.looks then
      (true, { s' with timedOut := true }.notify (.warning .unresolvedReference
        "resolution deadline reached, keeping what was found so far"))
    else (false, s')

/-- The state with one more node, and its number. -/
def push (s : SearchState α) (o : Observable) (scale : Scale α) (means : Means α)
    (coverage : Coverage α) (links : List Link) : Nat × SearchState α :=
  let id := s.nodes.length
  (id, { s with nodes := s.nodes ++ [⟨id, o, scale, means, coverage, links⟩] })

/-- The state without the nodes from `checkpoint` on and the branches that refer to them. -/
def rollback (s : SearchState α) (checkpoint : Nat) : SearchState α :=
  if checkpoint < s.nodes.length then
    { s with
      nodes := s.nodes.take checkpoint
      resolved := s.resolved.keep fun _ b => b.nodes.all fun n => decide (n < checkpoint) }
  else s

variable (s : SearchState α)

@[simp] theorem nodes_notify (n : Notification) : (s.notify n).nodes = s.nodes := rfl

@[simp] theorem path_notify (n : Notification) : (s.notify n).path = s.path := rfl

@[simp] theorem resolved_notify (n : Notification) : (s.notify n).resolved = s.resolved := rfl

@[simp] theorem timedOut_notify (n : Notification) : (s.notify n).timedOut = s.timedOut := rfl

@[simp] theorem notifications_notify (n : Notification) :
    (s.notify n).notifications = s.notifications ++ [n] := rfl

@[simp] theorem nodes_look (limits : Limits α) : (s.look limits).2.nodes = s.nodes := by
  simp only [look]; split
  · rfl
  · split <;> rfl

@[simp] theorem path_look (limits : Limits α) : (s.look limits).2.path = s.path := by
  simp only [look]; split
  · rfl
  · split <;> rfl

@[simp] theorem resolved_look (limits : Limits α) : (s.look limits).2.resolved = s.resolved := by
  simp only [look]; split
  · rfl
  · split <;> rfl

theorem notifications_look (limits : Limits α) :
    s.notifications <+: (s.look limits).2.notifications := by
  simp only [look]; split
  · exact List.prefix_refl _
  · split
    · exact List.prefix_append _ _
    · exact List.prefix_refl _

section push

variable (o : Observable) (scale : Scale α) (means : Means α) (coverage : Coverage α)
  (links : List Link)

@[simp] theorem push_fst : (s.push o scale means coverage links).1 = s.nodes.length := rfl

@[simp] theorem nodes_push : (s.push o scale means coverage links).2.nodes =
    s.nodes ++ [⟨s.nodes.length, o, scale, means, coverage, links⟩] := rfl

@[simp] theorem path_push : (s.push o scale means coverage links).2.path = s.path := rfl

@[simp] theorem resolved_push :
    (s.push o scale means coverage links).2.resolved = s.resolved := rfl

@[simp] theorem timedOut_push :
    (s.push o scale means coverage links).2.timedOut = s.timedOut := rfl

@[simp] theorem notifications_push :
    (s.push o scale means coverage links).2.notifications = s.notifications := rfl

end push

@[simp] theorem nodes_rollback (checkpoint : Nat) :
    (s.rollback checkpoint).nodes = s.nodes.take checkpoint := by
  unfold rollback; split
  · rfl
  · rw [List.take_of_length_le (by omega)]

@[simp] theorem path_rollback (checkpoint : Nat) : (s.rollback checkpoint).path = s.path := by
  unfold rollback; split <;> rfl

@[simp] theorem timedOut_rollback (checkpoint : Nat) :
    (s.rollback checkpoint).timedOut = s.timedOut := by
  unfold rollback; split <;> rfl

@[simp] theorem notifications_rollback (checkpoint : Nat) :
    (s.rollback checkpoint).notifications = s.notifications := by
  unfold rollback; split <;> rfl

/-- What is kept after a rollback refers to no node that was dropped. -/
theorem mem_resolved_rollback {s : SearchState α} {checkpoint : Nat} {e : String × Branch α}
    (h : e ∈ (s.rollback checkpoint).resolved.entries) :
    e ∈ s.resolved.entries ∧ (checkpoint < s.nodes.length → ∀ n ∈ e.2.nodes, n < checkpoint) := by
  unfold rollback at h; split at h
  · simp only [Keyed.keep, List.mem_filter, List.all_eq_true, decide_eq_true_eq] at h
    exact ⟨h.1, fun _ => h.2⟩
  · exact ⟨h, fun hlt => absurd hlt ‹_›⟩

end SearchState

namespace Search

/-- What may not repeat on a path: an observable and a scale. -/
def pathKey (o : Observable) (scale : Scale α) : String := o.key ++ "@" ++ scale.text

/-- Ascending texts without repetitions, one after the other. -/
def joined (texts : List String) : String := ",".intercalate (TextSet.ofList texts).toList

/-- What a branch is kept under. The preferred namespaces and projects belong to it, because the
candidates are ranked by them. -/
def branchKey (o : Observable) (scale : Scale α) (cs : Constraints) : String :=
  pathKey o scale ++ "|" ++ joined cs.preferredNamespaces ++ "|" ++ joined cs.preferredProjects

/-- The preferences that a model hands down to the search for its dependencies. -/
def preferences (m : Model α) : Constraints :=
  .ofList <|
    (if m.space.isEmpty then [] else [.preferNamespace m.space]) ++
    (match m.project with | some p => [.preferProject p] | none => [])

/-- Searches a branch, one level further down. -/
abbrev Searcher (α : Type) [Coordinate α] :=
  Observable → Context α → SearchState α → Except ResolutionError (Branch α × SearchState α)

/-! ## One candidate -/

/-- The link to a node of its own that stands for a dependency. -/
def standIn (d : Dependency α) (scale : Scale α) (means : Means α) (coverage : Coverage α)
    (s : SearchState α) : Link × SearchState α :=
  let (id, s) := s.push d.observable scale means coverage []
  (⟨d.observable, [id]⟩, s)

/-- Links a dependency that nothing was found for: to its default value, or to a placeholder when
the model can do without it. -/
def linkMissing (m : Model α) (o : Observable) (d : Dependency α) (scale : Scale α)
    (s : SearchState α) : Option Link × SearchState α :=
  match d.observable.defaultValue with
  | some value =>
    let s := s.notify ((Notification.info ("using default value " ++ value.display)).about
      d.observable.urn)
    let (link, s) := standIn d scale (.constant value) (.full scale) s
    (some link, s)
  | none =>
    if d.observable.optional then
      let s := s.notify ((Notification.warning .unresolvedReference
        ("optional dependency of " ++ m.urn ++ " left unresolved")).about d.observable.urn)
      let (link, s) := standIn d scale .unresolved (.empty scale) s
      (some link, s)
    else
      (none, s.notify ((Notification.warning .unresolvedReference
        ("model " ++ m.urn ++ " rejected: dependency " ++ d.observable.urn ++
          " could not be resolved")).about o.urn))

/-- Links a dependency, and narrows the coverage to where a mandatory one over the same scale is
covered. There is no link when the dependency is mandatory and nothing was found. -/
def linkDependency (deeper : Searcher α) (m : Model α) (o : Observable) (ctx : Context α)
    (d : Dependency α) (coverage : Coverage α) (s : SearchState α) :
    Except ResolutionError (Option (Link × Coverage α) × SearchState α) :=
  let scale := d.scale.getD ctx.scale
  if d.deferred then
    let (link, s) := standIn d scale .deferred (.full scale) s
    .ok (some (link, coverage), s)
  else do
    let (branch, s) ← deeper d.observable ((ctx.constrained (preferences m)).atScale scale) s
    if branch.nodes.isEmpty then
      let (link, s) := linkMissing m o d scale s
      return (link.map (·, coverage), s)
    else
      let narrowed :=
        if !d.observable.optional && d.scale.isNone then coverage.intersect branch.coverage
        else coverage
      return (some (⟨d.observable, branch.nodes⟩, narrowed), s)

/-- Links all dependencies in turn, until one cannot be linked. -/
def linkAll (deeper : Searcher α) (m : Model α) (o : Observable) (ctx : Context α) :
    List (Dependency α) → List Link → Coverage α → SearchState α →
    Except ResolutionError (Option (List Link × Coverage α) × SearchState α)
  | [], links, coverage, s => .ok (some (links, coverage), s)
  | d :: ds, links, coverage, s => do
    match ← linkDependency deeper m o ctx d coverage s with
    | (some (link, coverage), s) => linkAll deeper m o ctx ds (links ++ [link]) coverage s
    | (none, s) => return (none, s)

/-- Makes the node of a candidate after its dependencies. There is none when the candidate is
refused. -/
def tryCandidate (deeper : Searcher α) (o : Observable) (ctx : Context α) (c : Candidate α)
    (s : SearchState α) : Except ResolutionError (Option (Nat × Coverage α) × SearchState α) := do
  match ← linkAll deeper c.model o ctx c.model.dependencies [] c.coverage s with
  | (none, s) => return (none, s)
  | (some (links, coverage), s) =>
    if coverage.isEmpty then
      return (none, s.notify ((Notification.warning .unresolvedReference
        ("model " ++ c.model.urn ++ " rejected: its dependencies cover none of its extent")).about
          o.urn))
    else
      let (id, s) := s.push o ctx.scale (.model c.model) coverage links
      return (some (id, coverage), s)

/-! ## All candidates -/

/-- Tries the candidates in turn: the accepted nodes and the coverage they add up to. -/
def tryAll (limits : Limits α) (deeper : Searcher α) (o : Observable) (ctx : Context α) :
    List (Candidate α) → List Nat → Coverage α → SearchState α →
    Except ResolutionError ((List Nat × Coverage α) × SearchState α)
  | [], accepted, covered, s => .ok ((accepted, covered), s)
  | c :: cs, accepted, covered, s =>
    if covered.isComplete limits.tolerance then .ok ((accepted, covered), s)
    else
      let (isLate, s) := s.look limits
      if isLate then .ok ((accepted, covered), s)
      else if covered.gain c.coverage < limits.minContribution then
        tryAll limits deeper o ctx cs accepted covered s
      else do
        let checkpoint := s.nodes.length
        match ← tryCandidate deeper o ctx c s with
        | (none, s) => tryAll limits deeper o ctx cs accepted covered (s.rollback checkpoint)
        | (some (id, coverage), s) =>
          if covered.gain coverage < limits.minContribution then
            tryAll limits deeper o ctx cs accepted covered (s.rollback checkpoint)
          else tryAll limits deeper o ctx cs (accepted ++ [id]) (covered.merge coverage) s

/-- The branch of the accepted nodes; that it is not complete is told. -/
def conclude (limits : Limits α) (o : Observable) (accepted : List Nat) (covered : Coverage α)
    (s : SearchState α) : Branch α × SearchState α :=
  if accepted.isEmpty then
    if s.timedOut then (⟨.timedOut, accepted, covered⟩, s)
    else (⟨.unresolved, accepted, covered⟩, s.notify
      ((Notification.warning .unresolvedReference "no model can resolve this observable").about
        o.urn))
  else if covered.isComplete limits.tolerance then (⟨.resolved, accepted, covered⟩, s)
  else (⟨.partially, accepted, covered⟩, s.notify
    ((Notification.warning .unresolvedReference
      ("only " ++ covered.text ++ " could be covered")).about o.urn))

/-- Searches the candidates for an observable. -/
def candidates (sources : Sources α) (limits : Limits α) (deeper : Searcher α) : Searcher α :=
  fun o ctx s => do
    let covered := Coverage.empty ctx.scale
    let found ← (Candidate.lookup sources o ctx (.remainder ctx.scale covered)).mapError
      (.infrastructure o.text)
    let s := { s with notifications := s.notifications ++ found.notifications }
    let ((accepted, covered), s) ← tryAll limits deeper o ctx found.list [] covered s
    return conclude limits o accepted covered s

/-! ## Branches -/

/-- Searches the candidates with the observable on the path, and keeps a branch that is
complete. -/
def fresh (sources : Sources α) (limits : Limits α) (deeper : Searcher α) : Searcher α :=
  fun o ctx s => do
    let key := pathKey o ctx.scale
    let (branch, s) ← candidates sources limits deeper o ctx { s with path := key :: s.path }
    let s := { s with path := s.path.erase key }
    if branch.outcome = .resolved then
      return (branch, { s with
        resolved := s.resolved.insert (branchKey o ctx.scale ctx.constraints) branch })
    else return (branch, s)

/-- The branch kept for an observable in a context, if branches are used again. -/
def kept? (limits : Limits α) (o : Observable) (ctx : Context α) (s : SearchState α) :
    Option (Branch α) :=
  if limits.reuses then s.resolved.get? (branchKey o ctx.scale ctx.constraints) else none

/-- Searches a branch that may reach `remaining` levels down. -/
def branch (sources : Sources α) (limits : Limits α) : Nat → Searcher α
  | remaining, o, ctx, s =>
    if pathKey o ctx.scale ∈ s.path then
      .ok (.failed .cycle ctx.scale, s.notify ((Notification.warning .circularReferences
        s!"circular dependency at depth {limits.maxDepth + 1 - remaining}").about o.urn))
    else
      match remaining with
      | 0 =>
        .ok (.failed .depthExceeded ctx.scale, s.notify ((Notification.warning .unresolvedReference
          s!"dependency depth exceeds {limits.maxDepth}").about o.urn))
      | remaining + 1 =>
        match kept? limits o ctx s with
        | some b => .ok (b, s)
        | none =>
          let (isLate, s) := s.look limits
          if isLate then .ok (.failed .timedOut ctx.scale, s)
          else fresh sources limits (branch sources limits remaining) o ctx s

end Search

/-- Resolves an observable over the scale of a context. -/
def Resolution.resolve (sources : Sources α) (limits : Limits α) (o : Observable)
    (ctx : Context α) : Except ResolutionError (Resolution α) := do
  let (branch, s) ← Search.branch sources limits (limits.maxDepth + 1) o ctx {}
  return {
    observable := o
    scale := ctx.scale
    nodes := s.nodes
    roots := branch.nodes
    coverage := branch.coverage
    outcome := branch.outcome
    notifications := s.notifications
    tolerance := limits.tolerance }

end Obsplan
