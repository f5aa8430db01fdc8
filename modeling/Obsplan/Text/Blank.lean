/-!
# Blanks

The characters with the Unicode property White_Space, and what depends on them: trimming a text and
cutting it into words. Main statements: a word is never empty and holds no blank.
-/

namespace Obsplan.Text

/-- The white space characters. -/
def isBlank (c : Char) : Bool :=
  let n := c.toNat
  (decide (0x09 ≤ n) && decide (n ≤ 0x0D)) || n == 0x20 || n == 0x85 || n == 0xA0 || n == 0x1680 ||
    (decide (0x2000 ≤ n) && decide (n ≤ 0x200A)) || n == 0x2028 || n == 0x2029 || n == 0x202F ||
    n == 0x205F || n == 0x3000

/-- The characters without the leading ones that satisfy `p`. -/
def trimStart (p : Char → Bool) (cs : List Char) : List Char := cs.dropWhile p

/-- The characters without the leading and the trailing ones that satisfy `p`. -/
def trimBoth (p : Char → Bool) (cs : List Char) : List Char :=
  (trimStart p (trimStart p cs).reverse).reverse

/-- A text without its leading and trailing blanks. -/
def trim (s : String) : String := String.ofList (trimBoth isBlank s.toList)

/-- The runs of characters other than blanks, in order. `word` holds the run being read, last
character first. -/
def wordsFrom (word : List Char) : List Char → List (List Char)
  | [] => if word.isEmpty then [] else [word.reverse]
  | c :: cs =>
    if isBlank c then
      if word.isEmpty then wordsFrom [] cs else word.reverse :: wordsFrom [] cs
    else wordsFrom (c :: word) cs

/-- The words of a text. -/
def words (s : String) : List String := (wordsFrom [] s.toList).map String.ofList

/-- A text cut at every occurrence of a separator character; there is always at least one part. -/
def splitAtChar (sep : Char) : List Char → List (List Char)
  | [] => [[]]
  | c :: cs =>
    if c = sep then [] :: splitAtChar sep cs
    else match splitAtChar sep cs with
      | [] => [[c]]
      | part :: parts => (c :: part) :: parts

/-- A text cut at the first occurrence of a separator character, if there is one. -/
def splitFirst? (sep : Char) (s : String) : Option (String × String) :=
  let cs := s.toList
  match cs.dropWhile (· ≠ sep) with
  | [] => none
  | _ :: after => some (String.ofList (cs.takeWhile (· ≠ sep)), String.ofList after)

/-- A text cut at the last occurrence of a separator character, if there is one. -/
def splitLast? (sep : Char) (s : String) : Option (String × String) :=
  let cs := s.toList.reverse
  match cs.dropWhile (· ≠ sep) with
  | [] => none
  | _ :: before =>
    some (String.ofList before.reverse, String.ofList (cs.takeWhile (· ≠ sep)).reverse)

theorem of_mem_wordsFrom (word cs : List Char) (hw : ∀ c ∈ word, isBlank c = false) :
    ∀ w ∈ wordsFrom word cs, w ≠ [] ∧ ∀ c ∈ w, isBlank c = false := by
  induction cs generalizing word with
  | nil =>
    intro w hmem
    cases word with
    | nil => simp [wordsFrom] at hmem
    | cons a as =>
      simp only [wordsFrom, List.isEmpty_cons, Bool.false_eq_true, if_false,
        List.mem_singleton] at hmem
      subst hmem
      exact ⟨by simp, fun c hc => hw c (List.mem_reverse.1 hc)⟩
  | cons c cs ih =>
    intro w hmem
    by_cases hc : isBlank c = true
    · cases word with
      | nil =>
        simp only [wordsFrom, hc, if_true, List.isEmpty_nil] at hmem
        exact ih [] (by simp) w hmem
      | cons a as =>
        simp only [wordsFrom, hc, if_true, List.isEmpty_cons, Bool.false_eq_true, if_false,
          List.mem_cons] at hmem
        rcases hmem with rfl | hmem
        · exact ⟨by simp, fun c hc => hw c (List.mem_reverse.1 hc)⟩
        · exact ih [] (by simp) w hmem
    · have hf : isBlank c = false := by simpa using hc
      simp only [wordsFrom, hf, Bool.false_eq_true, if_false] at hmem
      refine ih (c :: word) ?_ w hmem
      intro d hd
      rcases List.mem_cons.1 hd with rfl | hd
      · exact hf
      · exact hw d hd

end Obsplan.Text
