import Obsplan.Json.Decode
import Obsplan.Coverage

/-!
# Scales and coverages in JSON

A scale is a list of extents in any order and is checked when it is read. A coverage is taken as it
is written.
-/

namespace Obsplan

def Dimension.ofJson? (j : Json) : Option Dimension := j.word?.bind Dimension.ofName?

namespace Extent

def toJson (e : Extent Number) : Json :=
  .object [("dimension", .text e.dimension.name), ("start", .float e.start), ("end", .float e.stop)]

def ofJson? (j : Json) : Option (Extent Number) := do
  let r ← j.record? ["dimension", "start", "end"]
  return {
    dimension := ← r.get? "dimension" Dimension.ofJson?
    start := ← r.get? "start" Json.float?
    stop := ← r.get? "end" Json.float? }

end Extent

namespace Scale

def toJson (s : Scale Number) : Json := .list (s.extents.map Extent.toJson)

def ofJson? (j : Json) : Option (Scale Number) :=
  (j.listOf? Extent.ofJson?).bind fun extents => (ofExtents extents).toOption

end Scale

namespace Coverage

def toJson (c : Coverage Number) : Json :=
  .object [("scale", c.scale.toJson), ("covered", .list (c.shapes.map Scale.toJson)),
    ("fraction", .float c.fraction)]

def ofJson? (j : Json) : Option (Coverage Number) := do
  let r ← j.record? ["scale", "covered", "fraction"]
  return {
    scale := ← r.get? "scale" Scale.ofJson?
    shapes := ← r.get? "covered" (Json.listOf? Scale.ofJson?)
    fraction := ← r.get? "fraction" Json.float? }

end Coverage

end Obsplan
