import Obsplan.Coverage
import Obsplan.Edit
import Obsplan.Failure
import Obsplan.Identifier
import Obsplan.Observable.Basic

/-!
# Twins

A twin records what was observed, by which activities, and who answers for them: a graph of
observations, activities and agents. Each node has a key of its own. Recording a node of a key that
is present replaces it in place, and two nodes are linked at most once in the same way.
-/

namespace Obsplan

variable {α : Type} [Coordinate α]

/-- The result of one actuator. -/
structure Observation (α : Type) [Coordinate α] where
  /-- The identifier of the actuator. -/
  id : Identifier
  observable : Observable
  scale : Scale α
  coverage : Coverage α
  value : Option Value := none
  /-- Whether something could be observed. -/
  resolved : Bool := false

/-- What an activity does. -/
inductive ActivityKind where
  /-- It runs a whole plan. -/
  | resolution
  /-- It computes one observation. -/
  | contextualization
  deriving DecidableEq, Repr

/-- How far an activity has come. -/
inductive Status where
  | running
  | succeeded
  | failed (message : String)
  | cancelled
  deriving DecidableEq, Repr

def Status.text : Status → String
  | .running => "Running"
  | .succeeded => "Succeeded"
  | .failed message => "Failed(" ++ Text.quoted message ++ ")"
  | .cancelled => "Cancelled"

structure Activity where
  id : UInt64
  kind : ActivityKind
  description : String
  status : Status
  deriving DecidableEq, Repr

/-- A node of a twin. -/
inductive TwinNode (α : Type) [Coordinate α] where
  | observation (o : Observation α)
  | activity (a : Activity)
  | agent (name : String)

/-- What tells the nodes of a twin apart. -/
inductive NodeKey where
  | observation (id : Identifier)
  | activity (id : UInt64)
  | agent (name : String)
  deriving DecidableEq

/-- How one node relates to another one. -/
inductive Relationship where
  /-- An activity made an observation. -/
  | generated
  /-- An agent answers for an activity. -/
  | associatedWith
  /-- An observation is a dependency of another one. -/
  | childOf
  /-- An activity read an observation. -/
  | used
  deriving DecidableEq, Repr

structure Edge where
  source : NodeKey
  relationship : Relationship
  target : NodeKey
  deriving DecidableEq

namespace NodeKey

/-- A key in messages. -/
def text : NodeKey → String
  | .observation id => "observation " ++ id.text
  | .activity id => s!"activity {id.toNat}"
  | .agent name => "agent " ++ name

end NodeKey

def Relationship.name : Relationship → String
  | .generated => "generated"
  | .associatedWith => "associated-with"
  | .childOf => "child-of"
  | .used => "used"

/-- An edge in words: where it starts, how it relates, where it ends. -/
def Edge.text (e : Edge) : String :=
  e.source.text ++ " -" ++ e.relationship.name ++ "-> " ++ e.target.text

/-- The relationship that a word stands for. -/
def Relationship.ofName? (s : String) : Option Relationship :=
  [Relationship.generated, .associatedWith, .childOf, .used].find? fun r => r.name == s

namespace TwinNode

def key : TwinNode α → NodeKey
  | .observation o => .observation o.id
  | .activity a => .activity a.id
  | .agent name => .agent name

def observation? : TwinNode α → Option (Observation α)
  | .observation o => some o
  | _ => none

def activity? : TwinNode α → Option Activity
  | .activity a => some a
  | _ => none

end TwinNode

/-- What a twin holds. -/
structure Snapshot (α : Type) [Coordinate α] where
  nodes : List (TwinNode α) := []
  edges : List Edge := []

structure Twin (α : Type) [Coordinate α] where
  /-- The nodes in the order in which their keys were first recorded. -/
  nodes : List (TwinNode α) := []
  /-- The edges in the order in which they were made. -/
  edges : List Edge := []
  /-- The number of the next activity. -/
  nextActivity : UInt64 := 1

namespace Twin

/-- Nodes with one of them recorded. -/
def putIn (n : TwinNode α) : List (TwinNode α) → List (TwinNode α)
  | [] => [n]
  | m :: ms => if m.key = n.key then n :: ms else m :: putIn n ms

/-- The twin with a node recorded. -/
def put (t : Twin α) (n : TwinNode α) : Twin α := { t with nodes := putIn n t.nodes }

def node? (t : Twin α) (k : NodeKey) : Option (TwinNode α) := t.nodes.find? fun n => n.key = k

def contains (t : Twin α) (k : NodeKey) : Bool := (t.node? k).isSome

def activity? (t : Twin α) (id : UInt64) : Option Activity :=
  (t.node? (.activity id)).bind TwinNode.activity?

def observation? (t : Twin α) (id : Identifier) : Option (Observation α) :=
  (t.node? (.observation id)).bind TwinNode.observation?

/-- The twin with an edge, unless it has that edge. -/
def connect (t : Twin α) (e : Edge) : Twin α :=
  if e ∈ t.edges then t else { t with edges := t.edges ++ [e] }

/-- Why a key that was never recorded cannot be used. -/
def missing (k : NodeKey) : ExecutionError := .twin (k.text ++ " is not in the twin")

/-- Fails for a key that was never recorded. -/
def lookUp (k : NodeKey) : Edit (Twin α) ExecutionError PUnit := do
  unless (← get).contains k do throw (missing k)

/-- Links two nodes. -/
def linking (source : NodeKey) (r : Relationship) (target : NodeKey) :
    Edit (Twin α) ExecutionError PUnit := do
  lookUp source
  lookUp target
  modify fun t => t.connect ⟨source, r, target⟩

/-- The twin with two of its nodes linked. -/
def link (t : Twin α) (source : NodeKey) (r : Relationship) (target : NodeKey) :
    Except ExecutionError (Twin α) := (linking source r target).made t

/-- The twin with an observation recorded. -/
def record (t : Twin α) (o : Observation α) : Twin α := t.put (.observation o)

/-- Begins an activity for which an agent answers: its number and the twin afterwards. -/
def begin (t : Twin α) (kind : ActivityKind) (description agent : String) : UInt64 × Twin α :=
  let id := t.nextActivity
  let t := { t with nextActivity := id + 1 }
  let t := t.put (.activity ⟨id, kind, description, .running⟩)
  let t := if t.contains (.agent agent) then t else t.put (.agent agent)
  (id, t.connect ⟨.activity id, .associatedWith, .agent agent⟩)

/-- Ends an activity. -/
def finishing (id : UInt64) (status : Status) : Edit (Twin α) ExecutionError PUnit := do
  match (← get).activity? id with
  | some a => modify fun t => t.put (.activity { a with status })
  | none => throw (missing (.activity id))

/-- The twin with an activity ended. -/
def finish (t : Twin α) (id : UInt64) (status : Status) : Except ExecutionError (Twin α) :=
  (finishing id status).made t

/-- What a node is related to. -/
def related (t : Twin α) (k : NodeKey) (r : Relationship) : List NodeKey :=
  (t.edges.filter fun e => e.source = k ∧ e.relationship = r).map Edge.target

/-- What is related to a node. -/
def relatedTo (t : Twin α) (k : NodeKey) (r : Relationship) : List NodeKey :=
  (t.edges.filter fun e => e.target = k ∧ e.relationship = r).map Edge.source

/-- Observations, and one more, by ascending identifiers. -/
def insertById (o : Observation α) : List (Observation α) → List (Observation α)
  | [] => [o]
  | p :: ps => if p.id.val ≤ o.id.val then p :: insertById o ps else o :: p :: ps

/-- All observations by ascending identifiers. -/
def observations (t : Twin α) : List (Observation α) :=
  (t.nodes.filterMap TwinNode.observation?).foldl (fun os o => insertById o os) []

/-- The greatest identifier of an observation, or zero. -/
def maxObservation (t : Twin α) : Nat :=
  (t.nodes.filterMap TwinNode.observation?).foldl (fun n o => max n o.id.val) 0

/-- The greatest number of an activity, or zero. -/
def maxActivity (nodes : List (TwinNode α)) : UInt64 :=
  (nodes.filterMap TwinNode.activity?).foldl (fun n a => max n a.id) 0

/-- What the twin holds. -/
def snapshot (t : Twin α) : Snapshot α := ⟨t.nodes, t.edges⟩

/-- The twin with edges made one after the other. -/
def linkAll (t : Twin α) : List Edge → Except ExecutionError (Twin α)
  | [] => .ok t
  | e :: es => do
    let t ← t.link e.source e.relationship e.target
    t.linkAll es

/-- The twin that holds what a snapshot tells. New activities are numbered from the greatest number
on. -/
def ofSnapshot (s : Snapshot α) : Except ExecutionError (Twin α) := do
  let t : Twin α := s.nodes.foldl put {}
  let t ← t.linkAll s.edges
  return { t with nextActivity := maxActivity s.nodes + 1 }

end Twin

end Obsplan
