import Mathlib.Data.List.DropRight
import Obsplan.Expression

/-!
# The grammar of expressions

A text is cut into words, each as long as it can be: numbers, names and signs, with blanks around
them. The trees of the grammar

    sum     := product (('+' | '-') product)*
    product := factor (('*' | '/') factor)*
    factor  := number | name | '-' factor | '(' sum ')'

are types of their own, so that every tree has the precedence of the signs in it. A tree has its
words, its nesting and, with the values of names, its value. Main statement: a text has at most one
tree.
-/

namespace Obsplan.Expression

/-! ## Words -/

/-- A word of an expression. -/
inductive Token where
  | number (text : String)
  | name (text : String)
  | sign (c : Char)
  deriving DecidableEq, Repr

/-- The characters that are words by themselves. -/
def signs : List Char := ['+', '-', '*', '/', '(', ')']

/-- The longest word at the very front of a text, and what is behind it. -/
def front? : List Char → Option (Token × List Char)
  | [] => none
  | c :: cs =>
    if c ∈ signs then some (.sign c, cs)
    else if isNumberChar c then
      some (.number (String.ofList ((c :: cs).takeWhile isNumberChar)),
        (c :: cs).dropWhile isNumberChar)
    else if startsName c then
      some (.name (String.ofList ((c :: cs).takeWhile continuesName)),
        (c :: cs).dropWhile continuesName)
    else none

/-- The word that comes next in a text, behind the blanks. -/
def next? (cs : List Char) : Option Token := (front? (skipBlanks cs)).map Prod.fst

/-- Reading words from a text, with any blanks before each of them, leaves the rest of it. -/
inductive Lexes : List Char → List Token → List Char → Prop
  | nil (cs : List Char) : Lexes cs [] cs
  | cons {cs mid rest : List Char} {t : Token} {ts : List Token}
      (hfront : front? (skipBlanks cs) = some (t, mid)) (hrest : Lexes mid ts rest) :
      Lexes cs (t :: ts) rest

/-- Reading words and the blanks behind the last one leaves the rest of a text. -/
def Spans (cs : List Char) (ts : List Token) (rest : List Char) : Prop :=
  ∃ mid, Lexes cs ts mid ∧ skipBlanks mid = rest

@[simp] theorem skipBlanks_skipBlanks (cs : List Char) :
    skipBlanks (skipBlanks cs) = skipBlanks cs :=
  List.dropWhile_idempotent Text.isBlank cs

@[simp] theorem next?_skipBlanks (cs : List Char) : next? (skipBlanks cs) = next? cs := by
  simp [next?]

theorem next?_eq_some_iff {cs : List Char} {t : Token} :
    next? cs = some t ↔ ∃ mid, front? (skipBlanks cs) = some (t, mid) := by
  simp [next?]

/-- No sign can stand in a number or begin a name. -/
theorem not_isNumberChar_and_not_startsName {c : Char} (hc : c ∈ signs) :
    isNumberChar c = false ∧ startsName c = false := by
  simp only [signs, List.mem_cons, List.not_mem_nil, or_false] at hc
  obtain rfl | rfl | rfl | rfl | rfl | rfl := hc <;> decide

theorem continuesName_of_startsName {c : Char} (hc : startsName c = true) :
    continuesName c = true := by
  simp only [startsName, Bool.or_eq_true] at hc
  obtain h | h := hc <;> simp [continuesName, h]

theorem front?_sign {c : Char} (hc : c ∈ signs) (cs : List Char) :
    front? (c :: cs) = some (.sign c, cs) := by
  simp [front?, hc]

/-- A sign is at the front exactly if it is the first character. -/
theorem front?_eq_sign_iff {cs rest : List Char} {c : Char} :
    front? cs = some (.sign c, rest) ↔ c ∈ signs ∧ cs = c :: rest := by
  refine ⟨fun h => ?_, fun ⟨hc, h⟩ => h ▸ front?_sign hc rest⟩
  cases cs with
  | nil => simp [front?] at h
  | cons d ds =>
    simp only [front?] at h
    split at h
    · next hd =>
      obtain ⟨rfl, rfl⟩ : d = c ∧ ds = rest := by simpa using h
      exact ⟨hd, rfl⟩
    · split at h
      · simp at h
      · split at h <;> simp at h

/-- A word has at least one character. -/
theorem length_lt_of_front? {cs rest : List Char} {t : Token} (h : front? cs = some (t, rest)) :
    rest.length < cs.length := by
  cases cs with
  | nil => simp [front?] at h
  | cons c cs =>
    have hdrop : ∀ p : Char → Bool, p c = true →
        ((c :: cs).dropWhile p).length < (c :: cs).length := by
      intro p hp
      rw [List.dropWhile_cons_of_pos hp]
      exact Nat.lt_succ_of_le (List.length_dropWhile_le p cs)
    simp only [front?] at h
    split at h
    · cases h
      exact Nat.lt_succ_self _
    · split at h
      · next hnumber =>
        cases h
        exact hdrop _ hnumber
      · split at h
        · next hname =>
          cases h
          exact hdrop _ (continuesName_of_startsName hname)
        · cases h

/-- A sign comes next exactly if it is the next character. -/
theorem next?_eq_sign_iff {cs : List Char} {c : Char} (hc : c ∈ signs) :
    next? cs = some (.sign c) ↔ ∃ mid, skipBlanks cs = c :: mid := by
  simp [next?_eq_some_iff, front?_eq_sign_iff, hc]

theorem length_lt_of_skipBlanks {cs rest : List Char} {t : Token}
    (h : front? (skipBlanks cs) = some (t, rest)) : rest.length < cs.length :=
  Nat.lt_of_lt_of_le (length_lt_of_front? h) (List.length_dropWhile_le Text.isBlank cs)

namespace Lexes

variable {cs rest : List Char} {t : Token} {ts us : List Token}

theorem nil_iff : Lexes cs [] rest ↔ rest = cs :=
  ⟨fun h => by cases h; rfl, fun h => h ▸ .nil cs⟩

theorem cons_iff :
    Lexes cs (t :: ts) rest ↔ ∃ mid, front? (skipBlanks cs) = some (t, mid) ∧ Lexes mid ts rest :=
  ⟨fun h => by cases h with | cons hfront hrest => exact ⟨_, hfront, hrest⟩,
    fun ⟨_, hfront, hrest⟩ => .cons hfront hrest⟩

theorem append_iff :
    Lexes cs (ts ++ us) rest ↔ ∃ mid, Lexes cs ts mid ∧ Lexes mid us rest := by
  induction ts generalizing cs with
  | nil => simp [nil_iff]
  | cons t ts ih =>
    simp only [List.cons_append, cons_iff, ih]
    constructor
    · rintro ⟨mid, hfront, mid', hts, hus⟩
      exact ⟨mid', ⟨mid, hfront, hts⟩, hus⟩
    · rintro ⟨mid', ⟨mid, hfront, hts⟩, hus⟩
      exact ⟨mid, hfront, mid', hts, hus⟩

theorem length_le (h : Lexes cs ts rest) : rest.length ≤ cs.length := by
  induction h with
  | nil cs => exact Nat.le_refl _
  | @cons cs mid rest t ts hfront hrest ih =>
    exact Nat.le_of_lt (Nat.lt_of_le_of_lt ih (length_lt_of_skipBlanks hfront))

end Lexes

namespace Spans

variable {cs rest : List Char} {t : Token} {ts us : List Token}

theorem nil_iff : Spans cs [] rest ↔ skipBlanks cs = rest := by
  simp [Spans, Lexes.nil_iff]

theorem cons_iff :
    Spans cs (t :: ts) rest ↔
      ∃ mid, front? (skipBlanks cs) = some (t, mid) ∧ Spans mid ts rest := by
  simp only [Spans, Lexes.cons_iff]
  constructor
  · rintro ⟨e, ⟨mid, hfront, hts⟩, hrest⟩
    exact ⟨mid, hfront, e, hts, hrest⟩
  · rintro ⟨mid, hfront, e, hts, hrest⟩
    exact ⟨e, ⟨mid, hfront, hts⟩, hrest⟩

/-- Blanks in front of the words do not matter. -/
theorem skipBlanks_iff : Spans (skipBlanks cs) ts rest ↔ Spans cs ts rest := by
  cases ts with
  | nil => simp [nil_iff]
  | cons t ts => simp [cons_iff]

theorem lexes_append_iff :
    Spans cs (ts ++ us) rest ↔ ∃ mid, Lexes cs ts mid ∧ Spans mid us rest := by
  simp only [Spans, Lexes.append_iff]
  constructor
  · rintro ⟨e, ⟨mid, hts, hus⟩, hrest⟩
    exact ⟨mid, hts, e, hus, hrest⟩
  · rintro ⟨mid, hts, e, hus, hrest⟩
    exact ⟨e, ⟨mid, hts, hus⟩, hrest⟩

theorem append_iff : Spans cs (ts ++ us) rest ↔ ∃ mid, Spans cs ts mid ∧ Spans mid us rest := by
  rw [lexes_append_iff]
  constructor
  · rintro ⟨mid, hts, hus⟩
    exact ⟨skipBlanks mid, ⟨mid, hts, rfl⟩, skipBlanks_iff.2 hus⟩
  · rintro ⟨_, ⟨mid, hts, rfl⟩, hus⟩
    exact ⟨mid, hts, skipBlanks_iff.1 hus⟩

theorem length_le (h : Spans cs ts rest) : rest.length ≤ cs.length := by
  obtain ⟨mid, hts, rfl⟩ := h
  exact Nat.le_trans (List.length_dropWhile_le _ mid) hts.length_le

theorem skipBlanks_rest (h : Spans cs ts rest) : skipBlanks rest = rest := by
  obtain ⟨mid, -, rfl⟩ := h
  exact skipBlanks_skipBlanks mid

/-- The word that comes next is the first of those spanned, or the one behind them. -/
theorem next?_eq (h : Spans cs ts rest) : next? cs = ts.head?.or (next? rest) := by
  cases ts with
  | nil => rw [← nil_iff.1 h]; simp
  | cons t ts =>
    obtain ⟨mid, hfront, -⟩ := cons_iff.1 h
    simp [next?, hfront]

/-- A text is cut into words in one way only. -/
theorem unique (h : Spans cs ts []) (h' : Spans cs us []) : ts = us := by
  induction ts generalizing cs us with
  | nil =>
    cases us with
    | nil => rfl
    | cons u us => simp [cons_iff, nil_iff.1 h, front?] at h'
  | cons t ts ih =>
    obtain ⟨mid, hfront, hts⟩ := cons_iff.1 h
    cases us with
    | nil => simp [nil_iff.1 h', front?] at hfront
    | cons u us =>
      obtain ⟨mid', hfront', hus⟩ := cons_iff.1 h'
      obtain ⟨rfl, rfl⟩ : t = u ∧ mid = mid' := by simpa using hfront.symm.trans hfront'
      rw [ih hts hus]

end Spans

/-! ## Trees -/

/-- What joins the factors of a product. -/
inductive Scaling where
  | multiply
  | divide
  deriving DecidableEq, Repr

def Scaling.sign : Scaling → Char
  | .multiply => '*'
  | .divide => '/'

/-- Nothing is divided by zero. -/
def Scaling.result? : Scaling → Number → Number → Option Number
  | .multiply, x, y => some (x * y)
  | .divide, x, y => if y == 0.0 then none else some (x / y)

/-- What joins the products of a sum. -/
inductive Shifting where
  | plus
  | minus
  deriving DecidableEq, Repr

def Shifting.sign : Shifting → Char
  | .plus => '+'
  | .minus => '-'

def Shifting.result : Shifting → Number → Number → Number
  | .plus, x, y => x + y
  | .minus, x, y => x - y

mutual

/-- A number, a name, a factor behind a minus sign or a sum in parentheses. -/
inductive Factor where
  | number (text : String)
  | name (text : String)
  | negated (f : Factor)
  | grouped (s : Sum)

/-- The factors of a product behind the first one, each with the sign before it. -/
inductive Factors where
  | done
  | more (op : Scaling) (f : Factor) (rest : Factors)

/-- A factor and those that follow it. -/
inductive Product where
  | of (first : Factor) (rest : Factors)

/-- The products of a sum behind the first one, each with the sign before it. -/
inductive Terms where
  | done
  | more (op : Shifting) (p : Product) (rest : Terms)

/-- A product and those that follow it. -/
inductive Sum where
  | of (first : Product) (rest : Terms)

end

mutual

/-- The words of a tree from left to right. -/
def Factor.tokens : Factor → List Token
  | .number text => [.number text]
  | .name text => [.name text]
  | .negated f => .sign '-' :: f.tokens
  | .grouped s => .sign '(' :: (s.tokens ++ [.sign ')'])

def Factors.tokens : Factors → List Token
  | .done => []
  | .more op f rest => .sign op.sign :: (f.tokens ++ rest.tokens)

def Product.tokens : Product → List Token
  | .of first rest => first.tokens ++ rest.tokens

def Terms.tokens : Terms → List Token
  | .done => []
  | .more op p rest => .sign op.sign :: (p.tokens ++ rest.tokens)

def Sum.tokens : Sum → List Token
  | .of first rest => first.tokens ++ rest.tokens

end

mutual

/-- How deep parentheses and minus signs before factors nest in a tree. -/
def Factor.nesting : Factor → Nat
  | .number _ => 0
  | .name _ => 0
  | .negated f => f.nesting + 1
  | .grouped s => s.nesting + 1

def Factors.nesting : Factors → Nat
  | .done => 0
  | .more _ f rest => max f.nesting rest.nesting

def Product.nesting : Product → Nat
  | .of first rest => max first.nesting rest.nesting

def Terms.nesting : Terms → Nat
  | .done => 0
  | .more _ p rest => max p.nesting rest.nesting

def Sum.nesting : Sum → Nat
  | .of first rest => max first.nesting rest.nesting

end

mutual

/-- The value of a tree, if its digits form numbers, its names have values and nothing in it is
divided by zero. -/
def Factor.value? (value? : String → Option Number) : Factor → Option Number
  | .number text => Decimal.read? text
  | .name text => value? text
  | .negated f => do
    let x ← f.value? value?
    some (-x)
  | .grouped s => s.value? value?

/-- What a number becomes with the factors that follow it, from left to right. -/
def Factors.value? (value? : String → Option Number) : Factors → Number → Option Number
  | .done, x => some x
  | .more op f rest, x => do
    let y ← f.value? value?
    let z ← op.result? x y
    rest.value? value? z

def Product.value? (value? : String → Option Number) : Product → Option Number
  | .of first rest => do
    let x ← first.value? value?
    rest.value? value? x

/-- What a number becomes with the products that follow it, from left to right. -/
def Terms.value? (value? : String → Option Number) : Terms → Number → Option Number
  | .done, x => some x
  | .more op p rest, x => do
    let y ← p.value? value?
    rest.value? value? (op.result x y)

def Sum.value? (value? : String → Option Number) : Sum → Option Number
  | .of first rest => do
    let x ← first.value? value?
    rest.value? value? x

end

/-- A text derives a tree: it consists of the words of the tree and blanks around them. -/
def Derives (source : String) (s : Sum) : Prop := Spans source.toList s.tokens []

/-! ## One tree for a text -/

/-- No factor of a product follows: the next word does not join one. -/
def EndsProduct (next : Option Token) : Prop := ∀ op : Scaling, next ≠ some (.sign op.sign)

/-- No product of a sum follows, nor a factor of its last product. -/
def EndsSum (next : Option Token) : Prop :=
  EndsProduct next ∧ ∀ op : Shifting, next ≠ some (.sign op.sign)

theorem endsSum_none : EndsSum none := ⟨fun _ => nofun, fun _ => nofun⟩

theorem endsSum_close : EndsSum (some (.sign ')')) := by
  constructor <;> intro op <;> cases op <;> decide

theorem Scaling.sign_mem_signs (op : Scaling) : op.sign ∈ signs := by cases op <;> decide

theorem Shifting.sign_mem_signs (op : Shifting) : op.sign ∈ signs := by cases op <;> decide

theorem Scaling.sign_injective : Function.Injective Scaling.sign := by
  intro op op' h
  cases op <;> cases op' <;> simp_all [Scaling.sign]

theorem Shifting.sign_injective : Function.Injective Shifting.sign := by
  intro op op' h
  cases op <;> cases op' <;> simp_all [Shifting.sign]

/-- A product of a sum ends where the next one follows. -/
theorem Terms.endsProduct (ts : Terms) {next : Option Token} (h : EndsProduct next) :
    EndsProduct (ts.tokens.head?.or next) := by
  cases ts with
  | done => exact h
  | more op =>
    intro op'
    cases op <;> cases op' <;> simp [Terms.tokens, Shifting.sign, Scaling.sign]

mutual

theorem Factor.unique {us us' : List Token} :
    (f f' : Factor) → f.tokens ++ us = f'.tokens ++ us' → f = f' ∧ us = us'
  | .number _, f', h => by cases f' <;> simp_all [Factor.tokens]
  | .name _, f', h => by cases f' <;> simp_all [Factor.tokens]
  | .negated f, f', h => by
    cases f' with
    | negated f' =>
      obtain ⟨rfl, hus⟩ := Factor.unique f f' (by simpa [Factor.tokens] using h)
      exact ⟨rfl, hus⟩
    | _ => simp [Factor.tokens] at h
  | .grouped s, f', h => by
    cases f' with
    | grouped s' =>
      simp only [Factor.tokens, List.cons_append, List.append_assoc, List.cons.injEq,
        true_and] at h
      obtain ⟨rfl, hus⟩ := Sum.unique s s' h endsSum_close endsSum_close
      exact ⟨rfl, by simpa using hus⟩
    | _ => simp [Factor.tokens] at h

theorem Factors.unique {us us' : List Token} :
    (fs fs' : Factors) → fs.tokens ++ us = fs'.tokens ++ us' → EndsProduct us.head? →
      EndsProduct us'.head? → fs = fs' ∧ us = us'
  | .done, .done, h, _, _ => ⟨rfl, h⟩
  | .done, .more op _ _, h, hus, _ => (hus op (congrArg List.head? h)).elim
  | .more op _ _, .done, h, _, hus' => (hus' op (congrArg List.head? h.symm)).elim
  | .more op f fs, .more op' f' fs', h, hus, hus' => by
    simp only [Factors.tokens, List.cons_append, List.append_assoc, List.cons.injEq,
      Token.sign.injEq] at h
    obtain rfl := Scaling.sign_injective h.1
    obtain ⟨rfl, hrest⟩ := Factor.unique f f' h.2
    obtain ⟨rfl, heq⟩ := Factors.unique fs fs' hrest hus hus'
    exact ⟨rfl, heq⟩

theorem Product.unique {us us' : List Token} :
    (p p' : Product) → p.tokens ++ us = p'.tokens ++ us' → EndsProduct us.head? →
      EndsProduct us'.head? → p = p' ∧ us = us'
  | .of f fs, .of f' fs', h, hus, hus' => by
    simp only [Product.tokens, List.append_assoc] at h
    obtain ⟨rfl, hrest⟩ := Factor.unique f f' h
    obtain ⟨rfl, heq⟩ := Factors.unique fs fs' hrest hus hus'
    exact ⟨rfl, heq⟩

theorem Terms.unique {us us' : List Token} :
    (ts ts' : Terms) → ts.tokens ++ us = ts'.tokens ++ us' → EndsSum us.head? →
      EndsSum us'.head? → ts = ts' ∧ us = us'
  | .done, .done, h, _, _ => ⟨rfl, h⟩
  | .done, .more op _ _, h, hus, _ => (hus.2 op (congrArg List.head? h)).elim
  | .more op _ _, .done, h, _, hus' => (hus'.2 op (congrArg List.head? h.symm)).elim
  | .more op p ts, .more op' p' ts', h, hus, hus' => by
    simp only [Terms.tokens, List.cons_append, List.append_assoc, List.cons.injEq,
      Token.sign.injEq] at h
    obtain rfl := Shifting.sign_injective h.1
    obtain ⟨rfl, hrest⟩ := Product.unique p p' h.2
      (by simpa using ts.endsProduct hus.1) (by simpa using ts'.endsProduct hus'.1)
    obtain ⟨rfl, heq⟩ := Terms.unique ts ts' hrest hus hus'
    exact ⟨rfl, heq⟩

theorem Sum.unique {us us' : List Token} :
    (s s' : Sum) → s.tokens ++ us = s'.tokens ++ us' → EndsSum us.head? →
      EndsSum us'.head? → s = s' ∧ us = us'
  | .of p ts, .of p' ts', h, hus, hus' => by
    simp only [Sum.tokens, List.append_assoc] at h
    obtain ⟨rfl, hrest⟩ := Product.unique p p' h
      (by simpa using ts.endsProduct hus.1) (by simpa using ts'.endsProduct hus'.1)
    obtain ⟨rfl, heq⟩ := Terms.unique ts ts' hrest hus hus'
    exact ⟨rfl, heq⟩

end

theorem Derives.unique {source : String} {s s' : Sum} (h : Derives source s)
    (h' : Derives source s') : s = s' := by
  have htokens : s.tokens ++ [] = s'.tokens ++ [] := by rw [Spans.unique h h']
  exact (Sum.unique s s' htokens endsSum_none endsSum_none).1

/-- A minus sign before a factor binds tighter than the one between factors. -/
example : Derives "-a * 2" (.of (.of (.negated (.name "a")) (.more .multiply (.number "2") .done))
    .done) :=
  ⟨_, .cons rfl (.cons rfl (.cons rfl (.cons rfl (.nil _)))), rfl⟩

end Obsplan.Expression
