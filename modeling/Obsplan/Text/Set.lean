/-!
# Sets of texts

A set of texts is listed in ascending order, each text once. Main statement: a union holds exactly
the texts of its two parts.
-/

namespace Obsplan

structure TextSet where
  /-- The texts in ascending order. -/
  toList : List String := []
  deriving DecidableEq

namespace TextSet

def empty : TextSet := ⟨[]⟩

/-- Ascending texts with one more among them. -/
def insertIn (s : String) : List String → List String
  | [] => [s]
  | t :: ts => if s = t then t :: ts else if s < t then s :: t :: ts else t :: insertIn s ts

def insert (a : TextSet) (s : String) : TextSet := ⟨insertIn s a.toList⟩

def insertAll (a : TextSet) (texts : List String) : TextSet := texts.foldl insert a

def ofList (texts : List String) : TextSet := empty.insertAll texts

/-- The texts of two sets. -/
def union (a b : TextSet) : TextSet := a.insertAll b.toList

def contains (a : TextSet) (s : String) : Bool := a.toList.contains s

theorem mem_insertIn {s t : String} {ts : List String} :
    t ∈ insertIn s ts ↔ t = s ∨ t ∈ ts := by
  induction ts with
  | nil => simp [insertIn]
  | cons u us ih =>
    by_cases h : s = u
    · simp [insertIn, h]
    · by_cases hlt : s < u
      · simp [insertIn, h, hlt]
      · simp only [insertIn, h, hlt, if_false, List.mem_cons, ih]
        constructor
        · rintro (h | h | h) <;> simp [h]
        · rintro (h | h | h) <;> simp [h]

theorem mem_insertAll {t : String} {a : TextSet} {texts : List String} :
    t ∈ (a.insertAll texts).toList ↔ t ∈ a.toList ∨ t ∈ texts := by
  induction texts generalizing a with
  | nil => simp [insertAll]
  | cons s ss ih =>
    have h : a.insertAll (s :: ss) = (a.insert s).insertAll ss := rfl
    rw [h, ih, insert, mem_insertIn, List.mem_cons]
    constructor
    · rintro ((h | h) | h) <;> simp [h]
    · rintro (h | h | h) <;> simp [h]

theorem mem_union {t : String} {a b : TextSet} :
    t ∈ (a.union b).toList ↔ t ∈ a.toList ∨ t ∈ b.toList := mem_insertAll

end TextSet

end Obsplan
