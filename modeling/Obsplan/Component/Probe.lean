import Obsplan.Component.Basic
import Obsplan.Observable.Definition

/-!
# Probes

Components by which a host can watch a run or disturb it.
-/

namespace Obsplan

variable {α : Type} [Coordinate α]

namespace Component

/-- Fails with the message of the call. -/
def fail : Component α := fun call _ =>
  .failure (((call.parameters.get? "message").bind Value.asText?).getD "failed")

def nothing : Component α := fun _ _ => .output none

def cancel : Component α := fun _ _ => .stop (some (.int 1))

def breakDown : Component α := fun _ _ => .breakdown

/-- A dependency as its name and its value. -/
def dependencyText (d : String × Option Value) : String :=
  d.1 ++ "=" ++ (d.2.map Value.display).getD "-"

/-- Yields all that a component sees. -/
def inspect : Component α := fun _ input =>
  .output (some (.map [
    ("observable", .text input.observable.text),
    ("scale", .text input.scale.text),
    ("dependencies", .list (input.dependencies.map fun d => .text (dependencyText d))),
    ("previous", input.previous.getD .null)]))

end Component

/-- The registry of the built-in functions and the probes. -/
def Registry.withProbes : Registry α :=
  ((((Registry.builtIn.register "host.fail" Component.fail).register "host.none"
    Component.nothing).register "host.cancel" Component.cancel).register "host.panic"
    Component.breakDown).register "host.inspect" Component.inspect

end Obsplan
