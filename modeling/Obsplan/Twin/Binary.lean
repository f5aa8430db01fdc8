import Obsplan.Observable.Definition
import Obsplan.Scale.Binary
import Obsplan.Twin.Basic
import Obsplan.Value.Binary

/-!
# Twins in binary

A twin is saved as its snapshot in binary, from which it is loaded again. The observable of an
observation is written as its definition, so its default value is lost.
-/

namespace Obsplan

open Obsplan.Binary

namespace Observable

def encode (o : Observable) : List UInt8 := encodeText o.text

def decode : Decoder Observable := do
  match ofText (← Binary.text) with
  | .ok o => return o
  | .error _ => failure

end Observable

namespace Observation

def encode (o : Observation Number) : List UInt8 :=
  o.id.encode ++ o.observable.encode ++ o.scale.encode ++ o.coverage.encode ++
    encodeOption Value.encode o.value ++ encodeBool o.resolved

def decode : Decoder (Observation Number) := do
  let id ← Identifier.decode
  let observable ← Observable.decode
  let scale ← Scale.decode
  let coverage ← Coverage.decode
  let value ← option Value.decode
  let resolved ← bool
  return { id, observable, scale, coverage, value, resolved }

end Observation

namespace ActivityKind

def encode : ActivityKind → List UInt8
  | .resolution => encodeCase 0
  | .contextualization => encodeCase 1

def decode : Decoder ActivityKind := do
  match ← Binary.case with
  | 0 => return .resolution
  | 1 => return .contextualization
  | _ => failure

end ActivityKind

namespace Status

def encode : Status → List UInt8
  | .running => encodeCase 0
  | .succeeded => encodeCase 1
  | .failed message => encodeCase 2 ++ encodeText message
  | .cancelled => encodeCase 3

def decode : Decoder Status := do
  match ← Binary.case with
  | 0 => return .running
  | 1 => return .succeeded
  | 2 => return .failed (← Binary.text)
  | 3 => return .cancelled
  | _ => failure

end Status

def Binary.word64 : Decoder UInt64 := do return UInt64.ofNat (← word)

namespace Activity

def encode (a : Activity) : List UInt8 :=
  encodeWord a.id.toNat ++ a.kind.encode ++ encodeText a.description ++ a.status.encode

def decode : Decoder Activity := do
  let id ← word64
  let kind ← ActivityKind.decode
  let description ← Binary.text
  let status ← Status.decode
  return { id, kind, description, status }

end Activity

namespace TwinNode

def encode : TwinNode Number → List UInt8
  | .observation o => encodeCase 0 ++ o.encode
  | .activity a => encodeCase 1 ++ a.encode
  | .agent name => encodeCase 2 ++ encodeText name

def decode : Decoder (TwinNode Number) := do
  match ← Binary.case with
  | 0 => return .observation (← Observation.decode)
  | 1 => return .activity (← Activity.decode)
  | 2 => return .agent (← Binary.text)
  | _ => failure

end TwinNode

namespace NodeKey

def encode : NodeKey → List UInt8
  | .observation id => encodeCase 0 ++ id.encode
  | .activity id => encodeCase 1 ++ encodeWord id.toNat
  | .agent name => encodeCase 2 ++ encodeText name

def decode : Decoder NodeKey := do
  match ← Binary.case with
  | 0 => return .observation (← Identifier.decode)
  | 1 => return .activity (← word64)
  | 2 => return .agent (← Binary.text)
  | _ => failure

end NodeKey

namespace Relationship

def encode : Relationship → List UInt8
  | .generated => encodeCase 0
  | .associatedWith => encodeCase 1
  | .childOf => encodeCase 2
  | .used => encodeCase 3

def decode : Decoder Relationship := do
  match ← Binary.case with
  | 0 => return .generated
  | 1 => return .associatedWith
  | 2 => return .childOf
  | 3 => return .used
  | _ => failure

end Relationship

namespace Edge

def encode (e : Edge) : List UInt8 :=
  e.source.encode ++ e.relationship.encode ++ e.target.encode

def decode : Decoder Edge := do
  let source ← NodeKey.decode
  let relationship ← Relationship.decode
  let target ← NodeKey.decode
  return { source, relationship, target }

end Edge

namespace Snapshot

def encode (s : Snapshot Number) : List UInt8 :=
  encodeList TwinNode.encode s.nodes ++ encodeList Edge.encode s.edges

def decode : Decoder (Snapshot Number) := do
  let nodes ← list TwinNode.decode
  let edges ← list Edge.decode
  return { nodes, edges }

end Snapshot

namespace Twin

/-- The bytes of a saved twin. -/
def save (t : Twin Number) : List UInt8 := t.snapshot.encode

/-- The twin that bytes hold, which other bytes may follow. -/
def load (bytes : List UInt8) : Except ExecutionError (Twin Number) :=
  match Snapshot.decode bytes with
  | some (s, _) => ofSnapshot s
  | none => .error (.twin "cannot decode the twin")

end Twin

end Obsplan
