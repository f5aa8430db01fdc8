import Obsplan.Text.Quoted
import Obsplan.Decimal.Layout

/-!
# Values

Literal values, and the ordered named parameters that carry them. The order of parameters is part of
their identity; setting a name again keeps its place.
-/

namespace Obsplan

inductive Value where
  | null
  | bool (b : Bool)
  | int (n : Int64)
  | float (x : Number)
  | text (s : String)
  | list (items : List Value)
  /-- Named values, each name once. -/
  | map (entries : List (String × Value))

namespace Value

def asText? : Value → Option String
  | .text s => some s
  | _ => none

def asBool? : Value → Option Bool
  | .bool b => some b
  | _ => none

def asNumber? : Value → Option Number
  | .int n => some (Number.ofInt n.toInt)
  | .float x => some x
  | _ => none

/-! ## Equality

Numbers are compared as numbers: the two zeros are equal, and an undefined number differs from
itself. -/

mutual

def same : Value → Value → Bool
  | .null, .null => true
  | .bool a, .bool b => a == b
  | .int a, .int b => a == b
  | .float a, .float b => a == b
  | .text a, .text b => a == b
  | .list as, .list bs => sameItems as bs
  | .map as, .map bs => sameEntries as bs
  | _, _ => false

def sameItems : List Value → List Value → Bool
  | [], [] => true
  | a :: as, b :: bs => same a b && sameItems as bs
  | _, _ => false

def sameEntries : List (String × Value) → List (String × Value) → Bool
  | [], [] => true
  | (k, a) :: as, (l, b) :: bs => k == l && same a b && sameEntries as bs
  | _, _ => false

end

instance : BEq Value := ⟨same⟩

/-! ## Text -/

mutual

/-- A value in messages and encoded plans. -/
def display : Value → String
  | .null => "null"
  | .bool b => if b then "true" else "false"
  | .int n => toString n.toInt
  | .float x => Decimal.valueLayout.write x
  | .text s => Text.quoted s
  | .list items => "[" ++ ", ".intercalate (displayItems items) ++ "]"
  | .map entries => "\x7b" ++ ", ".intercalate (displayEntries entries) ++ "\x7d"

def displayItems : List Value → List String
  | [] => []
  | v :: vs => display v :: displayItems vs

def displayEntries : List (String × Value) → List String
  | [] => []
  | (k, v) :: entries => (k ++ " = " ++ display v) :: displayEntries entries

end

end Value

/-! ## Parameters -/

/-- Named values in the order in which the names were first set. -/
structure Parameters where
  entries : List (String × Value) := []

namespace Parameters

def empty : Parameters := ⟨[]⟩

/-- Named values with one of them set; a name that is present keeps its place. -/
def setIn (name : String) (value : Value) : List (String × Value) → List (String × Value)
  | [] => [(name, value)]
  | (k, v) :: entries =>
    if k = name then (k, value) :: entries else (k, v) :: setIn name value entries

/-- The parameters with one of them set. -/
def insert (p : Parameters) (name : String) (value : Value) : Parameters :=
  ⟨setIn name value p.entries⟩

/-- The parameters set one after the other. -/
def ofList (entries : List (String × Value)) : Parameters :=
  entries.foldl (fun p e => p.insert e.1 e.2) empty

def get? (p : Parameters) (name : String) : Option Value := p.entries.lookup name

def names (p : Parameters) : List String := p.entries.map Prod.fst

def size (p : Parameters) : Nat := p.entries.length

def isEmpty (p : Parameters) : Bool := p.entries.isEmpty

instance : BEq Parameters := ⟨fun p q => Value.sameEntries p.entries q.entries⟩

/-- Parameters in encoded plans. -/
def display (p : Parameters) : String := ", ".intercalate (Value.displayEntries p.entries)

/-- The names after setting one: a new name goes to the end. -/
theorem names_insert (p : Parameters) (name : String) (value : Value) :
    (p.insert name value).names =
      if name ∈ p.names then p.names else p.names ++ [name] := by
  suffices h : ∀ es : List (String × Value), (setIn name value es).map Prod.fst =
      if name ∈ es.map Prod.fst then es.map Prod.fst else es.map Prod.fst ++ [name] from
    h p.entries
  intro es
  induction es with
  | nil => simp [setIn]
  | cons e es ih =>
    obtain ⟨k, v⟩ := e
    by_cases hk : k = name
    · simp [setIn, hk]
    · have hk' : ¬ name = k := fun h => hk h.symm
      simp only [setIn, hk, if_false, List.map_cons, ih, List.mem_cons, hk', false_or]
      by_cases hm : name ∈ es.map Prod.fst <;> simp [hm]

end Parameters

end Obsplan
