import Obsplan.Binary.Basic
import Obsplan.Coverage

/-!
# Scales and coverages in binary
-/

namespace Obsplan

open Obsplan.Binary

namespace Dimension

def encode : Dimension → List UInt8
  | .x => encodeCase 0
  | .y => encodeCase 1
  | .time => encodeCase 2

def decode : Decoder Dimension := do
  match ← Binary.case with
  | 0 => return .x
  | 1 => return .y
  | 2 => return .time
  | _ => failure

end Dimension

namespace Extent

def encode (e : Extent Number) : List UInt8 :=
  e.dimension.encode ++ encodeNumber e.start ++ encodeNumber e.stop

def decode : Decoder (Extent Number) := do
  let dimension ← Dimension.decode
  let start ← number
  let stop ← number
  return ⟨dimension, start, stop⟩

end Extent

namespace Scale

def encode (s : Scale Number) : List UInt8 := encodeList Extent.encode s.extents

/-- A scale, which is checked. -/
def decode : Decoder (Scale Number) := do
  match ofExtents (← list Extent.decode) with
  | .ok s => return s
  | .error _ => failure

end Scale

namespace Coverage

def encode (c : Coverage Number) : List UInt8 :=
  c.scale.encode ++ encodeList Scale.encode c.shapes ++ encodeNumber c.fraction

/-- A coverage, which is taken as it is written. -/
def decode : Decoder (Coverage Number) := do
  let scale ← Scale.decode
  let shapes ← list Scale.decode
  let fraction ← number
  return ⟨scale, shapes, fraction⟩

end Coverage

end Obsplan
