import Obsplan.Proofs.Dataflow.Positions

/-!
# Grafted plans

A plan is attached to another one as a whole: its walk stands behind the last actuator below where
it is attached, and its roots are the last children there. All that was there keeps its place, and
what it does but for what it covers. Main statement: a plan is attached in this way, or it is
refused because there is nothing to attach it to.
-/

namespace Obsplan

variable {α : Type} [Coordinate α]

namespace Actuator

/-- The jobs of actuators and of all below them, in the order of the walk, but for what they
cover. -/
def jobsOf (as : List (Actuator α)) : List (Job α) := (walkAll as).map fun a => a.job.uncovered

mutual

theorem map_job_positions (parent : Option Identifier) : (a : Actuator α) →
    (positions parent a).map Position.job = a.walk.map fun b => b.job.uncovered
  | .mk j children => by
    rw [positions, walk, List.map_cons, List.map_cons, map_job_positionsAll _ children]
    rfl

theorem map_job_positionsAll (parent : Option Identifier) : (as : List (Actuator α)) →
    (positionsAll parent as).map Position.job = jobsOf as
  | [] => rfl
  | a :: as => by
    rw [positionsAll, jobsOf, walkAll, List.map_append, List.map_append, map_job_positions parent a,
      map_job_positionsAll parent as]
    rfl

end

end Actuator

/-! ## Adding plans -/

namespace Dataflow

open Way Actuator

variable {d other sum : Dataflow α} {ctx : Context α} {way way' : Way α}
  {below : List (Actuator α)}

/-- The jobs of a plan in the order of the walk, but for what they cover. -/
def jobs (d : Dataflow α) : List (Job α) := jobsOf d.actuators

/-- What a plan is after another one was attached at the end of a way: the way is as it was but for
coverages, and the roots of the other plan are the last ones below it. -/
structure Grafted (d other sum : Dataflow α) (current : Option Identifier) (way way' : Way α)
    (below : List (Actuator α)) : Prop where
  before : d.actuators = fill way below
  after : sum.actuators = fill way' (below ++ other.actuators)
  alike : Alike way way'
  /-- Where the actuators of both stand, in the order of the walk. -/
  positions : d.positions = upTo none way ++ positionsAll current below ++ beyond none way ∧
    sum.positions = upTo none way ++ positionsAll current below ++
      positionsAll current other.actuators ++ beyond none way
  /-- The walk goes through the whole other plan behind all that was below the way. -/
  jobs : d.jobs = (upTo none way).map Position.job ++ jobsOf below ++
      (beyond none way).map Position.job ∧
    sum.jobs = (upTo none way).map Position.job ++ jobsOf below ++ other.jobs ++
      (beyond none way).map Position.job

/-- What a plan has of two that were put together, its actuators and its coverage apart. -/
structure Combined (d other sum : Dataflow α) : Prop where
  requirements : ∀ resource, resource ∈ sum.requirements.toList ↔
    resource ∈ d.requirements.toList ∨ resource ∈ other.requirements.toList
  notifications : sum.notifications = d.notifications ++ other.notifications
  aimed : d.target ≠ none → sum.target = d.target ∧ sum.observable = d.observable
  aimless : d.target = none → sum.target = other.target ∧ sum.observable = other.observable

/-- What a plan has become once another one was to be added to it. -/
def withAdded (d other : Dataflow α) (ctx : Context α) : Dataflow α :=
  ((adding other ctx).on d).2

theorem add_combined (h : d.add other ctx = .ok sum) : d.Combined other sum := by
  obtain ⟨way, below, -, -, rfl⟩ := add_cases h
  refine ⟨fun resource => TextSet.mem_union, rfl, fun haimed => ?_, fun haimless => ?_⟩
  · obtain ⟨i, hi⟩ := Option.ne_none_iff_exists'.mp haimed
    simp [joined, hi]
  · simp [joined, haimless]

theorem map_job_positions (d : Dataflow α) : d.positions.map Position.job = d.jobs :=
  map_job_positionsAll none d.actuators

theorem grafted_of_fill (hway : EndsAt ctx.current way) (hd : d.actuators = fill way below)
    (hsum : sum.actuators = fill (widened other.actuators way) (below ++ other.actuators)) :
    d.Grafted other sum ctx.current way (widened other.actuators way) below := by
  have hfoot : foot none way = ctx.current := foot_endsAt hway
  have halike : Alike way (widened other.actuators way) := alike_widened _ _
  obtain ⟨hup, hsame, hbeyond⟩ := halike.positions none
  have hbefore : d.positions =
      upTo none way ++ positionsAll ctx.current below ++ beyond none way := by
    rw [Dataflow.positions, hd, positionsAll_fill, hfoot]
  have hafter : sum.positions = upTo none way ++ positionsAll ctx.current below ++
      positionsAll ctx.current other.actuators ++ beyond none way := by
    rw [Dataflow.positions, hsum, positionsAll_fill, hup, hsame, hbeyond, hfoot,
      positionsAll_append, ← List.append_assoc]
  refine ⟨hd, hsum, halike, ⟨hbefore, hafter⟩, ?_, ?_⟩
  · rw [← map_job_positions, hbefore]
    simp only [List.map_append, map_job_positionsAll]
  · rw [← map_job_positions, hafter]
    simp only [List.map_append, map_job_positionsAll]
    rfl

/-- A plan is grafted onto another one where the context says, below the first actuator with the
identifier of its observation, or among the roots without one. Only if there is no such actuator it
is refused, and the plan stays as it is. -/
theorem add_grafts (d other : Dataflow α) (ctx : Context α) :
    (∀ hook, ctx.current = some hook → hook ∉ d.ids →
      d.add other ctx = .error (.hookNotFound hook.val ctx.id) ∧ d.withAdded other ctx = d) ∧
    ((∀ hook, ctx.current = some hook → hook ∈ d.ids) →
      ∃ sum way way' below, d.add other ctx = .ok sum ∧ EndsAt ctx.current way ∧
        d.Grafted other sum ctx.current way way' below ∧ d.Combined other sum) := by
  constructor
  · intro hook hcurrent hmissing
    have hadd := add_eq_error hcurrent hmissing other
    exact ⟨hadd, by rw [withAdded, (atomic_adding other ctx).on_of_made hadd]⟩
  · intro hpresent
    obtain ⟨way, below, hway, hd⟩ := exists_endsAt hpresent
    have hadd := add_fill hway hd other
    exact ⟨_, way, _, below, hadd, hway, grafted_of_fill hway hd rfl, add_combined hadd⟩

/-- An actuator that observes dunes, and others below it. -/
def observing (i : Nat) (children : List (Actuator Number)) : Actuator Number :=
  .mk {
    id := (Identifier.ofNat? i).getD .first
    observable := { concept := ⟨"t:Dune", by decide⟩ }
    scale := .scalar
    coverage := .full .scalar } children

def rooted (roots : List (Actuator Number)) : Dataflow Number :=
  { Dataflow.empty .scalar with actuators := roots }

/-- Two roots, the first one with actuators on two levels below it. -/
def nested : Dataflow Number :=
  rooted [observing 1 [observing 2 [observing 3 []], observing 4 []], observing 5 []]

def twoRoots : Dataflow Number := rooted [observing 10 [], observing 11 [observing 12 []]]

/-- A context in an observation. -/
def within (i : Nat) : Context Number :=
  { id := "c", scale := .scalar, current := Identifier.ofNat? i }

theorem add_grafts_nested :
    (∃ sum way way' below, nested.add twoRoots (within 2) = .ok sum ∧
      nested.Grafted twoRoots sum (within 2).current way way' below ∧
      sum.ids.map Identifier.val = [1, 2, 3, 10, 11, 12, 4, 5]) ∧
    nested.add twoRoots (within 9) = .error (.hookNotFound 9 "c") ∧
    nested.withAdded twoRoots (within 9) = nested := by
  constructor
  · have hpresent : ∀ hook, (within 2).current = some hook → hook ∈ nested.ids := by
      intro hook hcurrent
      obtain rfl : ⟨2, by decide, by decide⟩ = hook := Option.some.inj hcurrent
      decide +kernel
    obtain ⟨sum, way, way', below, hsum, -, hgrafted, -⟩ :=
      (add_grafts nested twoRoots (within 2)).2 hpresent
    refine ⟨sum, way, way', below, hsum, hgrafted, ?_⟩
    have hids : (nested.add twoRoots (within 2)).toOption.map (fun d => d.ids.map Identifier.val) =
        some [1, 2, 3, 10, 11, 12, 4, 5] := by decide +kernel
    rw [hsum] at hids
    exact Option.some.inj hids
  · exact (add_grafts nested twoRoots (within 9)).1 ⟨9, by decide, by decide⟩ rfl
      (by decide +kernel)

end Dataflow

end Obsplan
