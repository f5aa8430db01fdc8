import Obsplan.Proofs.Expression.Grammar

/-!
# Expressions are read by their grammar

What each reader accepts is told by the trees of one symbol of the grammar: where it gives a value,
the text begins with the words of a tree, and the value is that of the tree. Main statement: a text
has a value exactly if it derives a tree that nests at most 64 deep and has one.
-/

namespace Obsplan.Expression

variable {value? : String → Option Number} {n : Nat} {cs ds rest : List Char} {x : Number}

theorem bind_eq_ok_iff {α β : Type} {r : Except ExpressionError α}
    {k : α → Except ExpressionError β} {b : β} :
    (r >>= k) = .ok b ↔ ∃ a, r = .ok a ∧ k a = .ok b := by
  cases r <;> simp [bind, Except.bind]

/-! ## One step of a reader -/

theorem readNumber_eq_ok_iff :
    readNumber cs = .ok (x, rest) ↔ cs.dropWhile isNumberChar = rest ∧
      Decimal.read? (String.ofList (cs.takeWhile isNumberChar)) = some x := by
  simp only [readNumber]
  split
  · next y hy => simp [hy, and_comm]
  · next hnone => simp [hnone]

theorem readName_eq_ok_iff :
    readName value? cs = .ok (x, rest) ↔ cs.dropWhile continuesName = rest ∧
      value? (String.ofList (cs.takeWhile continuesName)) = some x := by
  simp only [readName]
  split
  · next y hy => simp [hy, and_comm]
  · next hnone => simp [hnone]

/-- Behind an opening parenthesis a factor goes on with a sum and a closing one. -/
theorem factor_open (hcs : skipBlanks cs = '(' :: ds) :
    factor value? (n + 1) cs = .ok (x, rest) ↔
      ∃ mid, sum (factor value? n) ds = .ok (x, mid) ∧
        front? (skipBlanks mid) = some (.sign ')', rest) := by
  rw [factor, hcs]
  simp only [if_true, bind_eq_ok_iff, Prod.exists]
  constructor
  · rintro ⟨y, mid, hsum, hclose⟩
    split at hclose
    · next hmid =>
      cases hclose
      exact ⟨mid, hsum, hmid ▸ front?_sign (by decide) _⟩
    · cases hclose
  · rintro ⟨mid, hsum, hclose⟩
    obtain ⟨-, hmid⟩ := front?_eq_sign_iff.1 hclose
    exact ⟨x, mid, hsum, by simp [hmid]⟩

/-- Behind a minus sign a factor goes on with another one. -/
theorem factor_minus (hcs : skipBlanks cs = '-' :: ds) :
    factor value? (n + 1) cs = .ok (x, rest) ↔
      ∃ y, factor value? n ds = .ok (y, rest) ∧ -y = x := by
  rw [factor, hcs]
  simp only [Char.reduceEq, if_false, if_true, bind_eq_ok_iff, Prod.exists]
  constructor
  · rintro ⟨y, mid, hfactor, h⟩
    cases h
    exact ⟨y, hfactor, rfl⟩
  · rintro ⟨y, hfactor, rfl⟩
    exact ⟨y, rest, hfactor, rfl⟩

/-- What a factor is depends on its first word. Another sign opens none. -/
theorem factor_eq_ok_iff :
    factor value? n cs = .ok (x, rest) ↔
      (∃ text, front? (skipBlanks cs) = some (.number text, rest) ∧
        Decimal.read? text = some x) ∨
      (∃ text, front? (skipBlanks cs) = some (.name text, rest) ∧ value? text = some x) ∨
      (∃ m mid y, n = m + 1 ∧ front? (skipBlanks cs) = some (.sign '-', mid) ∧
        factor value? m mid = .ok (y, rest) ∧ -y = x) ∨
      (∃ m mid mid', n = m + 1 ∧ front? (skipBlanks cs) = some (.sign '(', mid) ∧
        sum (factor value? m) mid = .ok (x, mid') ∧
        front? (skipBlanks mid') = some (.sign ')', rest)) := by
  cases hcs : skipBlanks cs with
  | nil =>
    rw [factor, hcs]
    simp [front?]
  | cons c ds =>
    by_cases hopen : c = '('
    · subst hopen
      rw [front?_sign (by decide)]
      cases n with
      | zero =>
        rw [factor, hcs]
        simp
      | succ n => simp [factor_open hcs]
    by_cases hminus : c = '-'
    · subst hminus
      rw [front?_sign (by decide)]
      cases n with
      | zero =>
        rw [factor, hcs]
        simp
      | succ n => simp [factor_minus hcs]
    rw [factor, hcs]
    simp only [hopen, hminus, if_false]
    by_cases hsign : c ∈ signs
    · obtain ⟨hnumber, hname⟩ := not_isNumberChar_and_not_startsName hsign
      simp [hnumber, hname, front?_sign hsign, hopen, hminus]
    simp only [front?, hsign, if_false]
    by_cases hnumber : isNumberChar c
    · simp only [hnumber, if_true, readNumber_eq_ok_iff]
      simp
    by_cases hname : startsName c
    · simp only [hnumber, hname, if_true, Bool.false_eq_true, if_false, readName_eq_ok_iff]
      simp
    · simp [hnumber, hname]

/-- One more factor is applied, or no sign between factors follows. -/
theorem factors_succ_eq_ok_iff {factor : Reader} {fuel : Nat} {z : Number} :
    factors factor (fuel + 1) x cs = .ok (z, rest) ↔
      (∃ op : Scaling, ∃ mid y mid' w, front? (skipBlanks cs) = some (.sign op.sign, mid) ∧
        factor mid = .ok (y, mid') ∧ op.result? x y = some w ∧
        factors factor fuel w mid' = .ok (z, rest)) ∨
      EndsProduct (next? cs) ∧ x = z ∧ skipBlanks cs = rest := by
  have hjoined (op : Scaling) {mid} (hcs : skipBlanks cs = op.sign :: mid) :
      ¬ EndsProduct (next? cs) :=
    fun h => h op ((next?_eq_sign_iff op.sign_mem_signs).2 ⟨mid, hcs⟩)
  simp only [factors]
  split
  · next mid hcs =>
    have hmultiply (op : Scaling) : '*' = op.sign ↔ op = .multiply := by cases op <;> decide
    simp [bind_eq_ok_iff, hcs, hjoined .multiply hcs, front?_eq_sign_iff, Scaling.sign_mem_signs,
      hmultiply, Scaling.result?]
  · next mid hcs =>
    have hdivide (op : Scaling) : '/' = op.sign ↔ op = .divide := by cases op <;> decide
    have hdivided (y : Number) (mid : List Char) :
        (if y == 0.0 then .error .divisionByZero else factors factor fuel (x / y) mid) =
            .ok (z, rest) ↔
          ∃ w, Scaling.divide.result? x y = some w ∧ factors factor fuel w mid = .ok (z, rest) := by
      by_cases hy : (y == 0.0) = true <;> simp [Scaling.result?, hy]
    simp [bind_eq_ok_iff, hcs, hjoined .divide hcs, front?_eq_sign_iff, Scaling.sign_mem_signs,
      hdivide, hdivided]
  · next hmultiply hdivide =>
    have hends : EndsProduct (next? cs) := by
      intro op hop
      obtain ⟨mid, hmid⟩ := (next?_eq_sign_iff op.sign_mem_signs).1 hop
      cases op with
      | multiply => exact hmultiply mid hmid
      | divide => exact hdivide mid hmid
    have hnone (op : Scaling) (mid : List Char) :
        front? (skipBlanks cs) ≠ some (.sign op.sign, mid) :=
      fun h => hends op (next?_eq_some_iff.2 ⟨mid, h⟩)
    simp [hends, hnone]

/-- One more product is applied, or no sign between products follows. -/
theorem terms_succ_eq_ok_iff {factor : Reader} {fuel : Nat} {z : Number} :
    terms factor (fuel + 1) x cs = .ok (z, rest) ↔
      (∃ op : Shifting, ∃ mid y mid', front? (skipBlanks cs) = some (.sign op.sign, mid) ∧
        product factor mid = .ok (y, mid') ∧
        terms factor fuel (op.result x y) mid' = .ok (z, rest)) ∨
      (∀ op : Shifting, next? cs ≠ some (.sign op.sign)) ∧ x = z ∧ skipBlanks cs = rest := by
  have hjoined (op : Shifting) {mid} (hcs : skipBlanks cs = op.sign :: mid) :
      ¬ ∀ op : Shifting, next? cs ≠ some (.sign op.sign) :=
    fun h => h op ((next?_eq_sign_iff op.sign_mem_signs).2 ⟨mid, hcs⟩)
  simp only [terms]
  split
  · next mid hcs =>
    have hplus (op : Shifting) : '+' = op.sign ↔ op = .plus := by cases op <;> decide
    simp only [hjoined .plus hcs, false_and, or_false]
    simp [bind_eq_ok_iff, hcs, front?_eq_sign_iff, Shifting.sign_mem_signs, hplus, Shifting.result]
  · next mid hcs =>
    have hminus (op : Shifting) : '-' = op.sign ↔ op = .minus := by cases op <;> decide
    simp only [hjoined .minus hcs, false_and, or_false]
    simp [bind_eq_ok_iff, hcs, front?_eq_sign_iff, Shifting.sign_mem_signs,
      hminus, Shifting.result]
  · next hplus hminus =>
    have hends (op : Shifting) : next? cs ≠ some (.sign op.sign) := by
      intro hop
      obtain ⟨mid, hmid⟩ := (next?_eq_sign_iff op.sign_mem_signs).1 hop
      cases op with
      | plus => exact hplus mid hmid
      | minus => exact hminus mid hmid
    have hnone (op : Shifting) (mid : List Char) :
        front? (skipBlanks cs) ≠ some (.sign op.sign, mid) :=
      fun h => hends op (next?_eq_some_iff.2 ⟨mid, h⟩)
    simp [hends, hnone]

/-! ## What a reader accepts -/

/-- A reader accepts the factors that nest at most `n` deep, with their values. -/
def ReadsFactors (value? : String → Option Number) (n : Nat) (r : Reader) : Prop :=
  ∀ cs x rest, r cs = .ok (x, rest) ↔
    ∃ f : Factor, Lexes cs f.tokens rest ∧ f.nesting ≤ n ∧ f.value? value? = some x

/-- A word and what follows it use up one unit of fuel. -/
theorem length_le_of_front? {mid mid' : List Char} {t : Token} {fuel : Nat}
    (hfront : front? (skipBlanks cs) = some (t, mid)) (hmid : mid'.length ≤ mid.length)
    (hfuel : cs.length ≤ fuel + 1) : mid'.length ≤ fuel := by
  have hshorter := length_lt_of_skipBlanks hfront
  omega

variable {r : Reader}

theorem factors_eq_ok_iff (hr : ReadsFactors value? n r) {fuel : Nat} {z : Number}
    (hfuel : cs.length ≤ fuel) :
    factors r fuel x cs = .ok (z, rest) ↔
      ∃ fs : Factors, Spans cs fs.tokens rest ∧ EndsProduct (next? rest) ∧ fs.nesting ≤ n ∧
        fs.value? value? x = some z := by
  induction fuel generalizing x cs with
  | zero =>
    obtain rfl : cs = [] := by simpa using hfuel
    constructor
    · intro h
      obtain ⟨rfl, rfl⟩ : x = z ∧ [] = rest := by simpa [factors, skipBlanks] using h
      exact ⟨.done, Spans.nil_iff.2 rfl, endsSum_none.1, Nat.zero_le n, rfl⟩
    · rintro ⟨fs, hspans, -, -, hvalue⟩
      cases fs with
      | done =>
        obtain rfl := Spans.nil_iff.1 hspans
        obtain rfl : x = z := by simpa [Factors.value?] using hvalue
        rfl
      | more =>
        obtain ⟨mid, hsign, -⟩ := Spans.cons_iff.1 hspans
        simp [skipBlanks, front?] at hsign
  | succ fuel ih =>
    rw [factors_succ_eq_ok_iff]
    constructor
    · rintro (⟨op, mid, y, mid', w, hsign, hfactor, hw, hrest⟩ | ⟨hends, rfl, rfl⟩)
      · obtain ⟨f, hf, hnesting, hvalue⟩ := (hr _ _ _).1 hfactor
        have hlength := length_le_of_front? hsign hf.length_le hfuel
        obtain ⟨fs, hfs, hends, hnestings, hvalues⟩ := (ih hlength).1 hrest
        refine ⟨.more op f fs, Spans.cons_iff.2 ⟨mid, hsign, ?_⟩, hends, ?_, ?_⟩
        · exact Spans.lexes_append_iff.2 ⟨mid', hf, hfs⟩
        · exact Nat.max_le.2 ⟨hnesting, hnestings⟩
        · simp [Factors.value?, hvalue, hw, hvalues]
      · exact ⟨.done, Spans.nil_iff.2 rfl, by simpa using hends, Nat.zero_le n, rfl⟩
    · rintro ⟨fs, hspans, hends, hnesting, hvalue⟩
      cases fs with
      | done =>
        obtain rfl := Spans.nil_iff.1 hspans
        obtain rfl : x = z := by simpa [Factors.value?] using hvalue
        exact .inr ⟨by simpa using hends, rfl, rfl⟩
      | more op f fs =>
        obtain ⟨mid, hsign, hwords⟩ := Spans.cons_iff.1 hspans
        obtain ⟨mid', hf, hfs⟩ := Spans.lexes_append_iff.1 hwords
        obtain ⟨hnesting, hnestings⟩ := Nat.max_le.1 hnesting
        simp only [Factors.value?, bind, Option.bind_eq_some_iff] at hvalue
        obtain ⟨y, hvalue, w, hw, hvalues⟩ := hvalue
        have hlength := length_le_of_front? hsign hf.length_le hfuel
        exact .inl ⟨op, mid, y, mid', w, hsign, (hr _ _ _).2 ⟨f, hf, hnesting, hvalue⟩, hw,
          (ih hlength).2 ⟨fs, hfs, hends, hnestings, hvalues⟩⟩

theorem product_eq_ok_iff (hr : ReadsFactors value? n r) :
    product r cs = .ok (x, rest) ↔
      ∃ p : Product, Spans cs p.tokens rest ∧ EndsProduct (next? rest) ∧ p.nesting ≤ n ∧
        p.value? value? = some x := by
  simp only [product, bind_eq_ok_iff, Prod.exists]
  constructor
  · rintro ⟨y, mid, hfactor, hfactors⟩
    obtain ⟨f, hf, hnesting, hvalue⟩ := (hr _ _ _).1 hfactor
    obtain ⟨fs, hfs, hends, hnestings, hvalues⟩ := (factors_eq_ok_iff hr (Nat.le_refl _)).1 hfactors
    exact ⟨.of f fs, Spans.lexes_append_iff.2 ⟨mid, hf, hfs⟩, hends,
      Nat.max_le.2 ⟨hnesting, hnestings⟩, by simp [Product.value?, hvalue, hvalues]⟩
  · rintro ⟨⟨f, fs⟩, hspans, hends, hnesting, hvalue⟩
    obtain ⟨mid, hf, hfs⟩ := Spans.lexes_append_iff.1 hspans
    obtain ⟨hnesting, hnestings⟩ := Nat.max_le.1 hnesting
    simp only [Product.value?, bind, Option.bind_eq_some_iff] at hvalue
    obtain ⟨y, hvalue, hvalues⟩ := hvalue
    exact ⟨y, mid, (hr _ _ _).2 ⟨f, hf, hnesting, hvalue⟩,
      (factors_eq_ok_iff hr (Nat.le_refl _)).2 ⟨fs, hfs, hends, hnestings, hvalues⟩⟩

theorem terms_eq_ok_iff (hr : ReadsFactors value? n r) {fuel : Nat} {z : Number}
    (hfuel : cs.length ≤ fuel) (hcs : EndsProduct (next? cs)) :
    terms r fuel x cs = .ok (z, rest) ↔
      ∃ ts : Terms, Spans cs ts.tokens rest ∧ EndsSum (next? rest) ∧ ts.nesting ≤ n ∧
        ts.value? value? x = some z := by
  induction fuel generalizing x cs with
  | zero =>
    obtain rfl : cs = [] := by simpa using hfuel
    constructor
    · intro h
      obtain ⟨rfl, rfl⟩ : x = z ∧ [] = rest := by simpa [terms, skipBlanks] using h
      exact ⟨.done, Spans.nil_iff.2 rfl, endsSum_none, Nat.zero_le n, rfl⟩
    · rintro ⟨ts, hspans, -, -, hvalue⟩
      cases ts with
      | done =>
        obtain rfl := Spans.nil_iff.1 hspans
        obtain rfl : x = z := by simpa [Terms.value?] using hvalue
        rfl
      | more =>
        obtain ⟨mid, hsign, -⟩ := Spans.cons_iff.1 hspans
        simp [skipBlanks, front?] at hsign
  | succ fuel ih =>
    rw [terms_succ_eq_ok_iff]
    constructor
    · rintro (⟨op, mid, y, mid', hsign, hproduct, hrest⟩ | ⟨hends, rfl, rfl⟩)
      · obtain ⟨p, hp, hnext, hnesting, hvalue⟩ := (product_eq_ok_iff hr).1 hproduct
        have hlength := length_le_of_front? hsign hp.length_le hfuel
        obtain ⟨ts, hts, hends, hnestings, hvalues⟩ := (ih hlength hnext).1 hrest
        refine ⟨.more op p ts, Spans.cons_iff.2 ⟨mid, hsign, ?_⟩, hends, ?_, ?_⟩
        · exact Spans.append_iff.2 ⟨mid', hp, hts⟩
        · exact Nat.max_le.2 ⟨hnesting, hnestings⟩
        · simp [Terms.value?, hvalue, hvalues]
      · have hend : EndsSum (next? (skipBlanks cs)) := by simpa [EndsSum] using ⟨hcs, hends⟩
        exact ⟨.done, Spans.nil_iff.2 rfl, hend, Nat.zero_le n, rfl⟩
    · rintro ⟨ts, hspans, hends, hnesting, hvalue⟩
      cases ts with
      | done =>
        obtain rfl := Spans.nil_iff.1 hspans
        obtain rfl : x = z := by simpa [Terms.value?] using hvalue
        exact .inr ⟨by simpa using hends.2, rfl, rfl⟩
      | more op p ts =>
        obtain ⟨mid, hsign, hwords⟩ := Spans.cons_iff.1 hspans
        obtain ⟨mid', hp, hts⟩ := Spans.append_iff.1 hwords
        obtain ⟨hnesting, hnestings⟩ := Nat.max_le.1 hnesting
        simp only [Terms.value?, bind, Option.bind_eq_some_iff] at hvalue
        obtain ⟨y, hvalue, hvalues⟩ := hvalue
        have hnext : EndsProduct (next? mid') := hts.next?_eq ▸ ts.endsProduct hends.1
        have hlength := length_le_of_front? hsign hp.length_le hfuel
        exact .inl ⟨op, mid, y, mid', hsign,
          (product_eq_ok_iff hr).2 ⟨p, hp, hnext, hnesting, hvalue⟩,
          (ih hlength hnext).2 ⟨ts, hts, hends, hnestings, hvalues⟩⟩

theorem sum_eq_ok_iff (hr : ReadsFactors value? n r) :
    sum r cs = .ok (x, rest) ↔
      ∃ s : Sum, Spans cs s.tokens rest ∧ EndsSum (next? rest) ∧ s.nesting ≤ n ∧
        s.value? value? = some x := by
  simp only [sum, bind_eq_ok_iff, Prod.exists]
  constructor
  · rintro ⟨y, mid, hproduct, hterms⟩
    obtain ⟨p, hp, hnext, hnesting, hvalue⟩ := (product_eq_ok_iff hr).1 hproduct
    obtain ⟨ts, hts, hends, hnestings, hvalues⟩ :=
      (terms_eq_ok_iff hr (Nat.le_refl _) hnext).1 hterms
    exact ⟨.of p ts, Spans.append_iff.2 ⟨mid, hp, hts⟩, hends,
      Nat.max_le.2 ⟨hnesting, hnestings⟩, by simp [Sum.value?, hvalue, hvalues]⟩
  · rintro ⟨⟨p, ts⟩, hspans, hends, hnesting, hvalue⟩
    obtain ⟨mid, hp, hts⟩ := Spans.append_iff.1 hspans
    obtain ⟨hnesting, hnestings⟩ := Nat.max_le.1 hnesting
    simp only [Sum.value?, bind, Option.bind_eq_some_iff] at hvalue
    obtain ⟨y, hvalue, hvalues⟩ := hvalue
    have hnext : EndsProduct (next? mid) := hts.next?_eq ▸ ts.endsProduct hends.1
    exact ⟨y, mid, (product_eq_ok_iff hr).2 ⟨p, hp, hnext, hnesting, hvalue⟩,
      (terms_eq_ok_iff hr (Nat.le_refl _) hnext).2 ⟨ts, hts, hends, hnestings, hvalues⟩⟩

/-- One more level of nesting: a factor holds factors and sums of the level below. -/
theorem ReadsFactors.step (hbelow : ∀ m, n = m + 1 → ReadsFactors value? m (factor value? m)) :
    ReadsFactors value? n (factor value? n) := by
  intro cs x rest
  rw [factor_eq_ok_iff]
  constructor
  · rintro (⟨text, hfront, hvalue⟩ | ⟨text, hfront, hvalue⟩ |
      ⟨m, mid, y, rfl, hfront, hfactor, rfl⟩ | ⟨m, mid, mid', rfl, hfront, hsum, hclose⟩)
    · exact ⟨.number text, .cons hfront (.nil rest), Nat.zero_le n, hvalue⟩
    · exact ⟨.name text, .cons hfront (.nil rest), Nat.zero_le n, hvalue⟩
    · obtain ⟨f, hf, hnesting, hvalue⟩ := (hbelow m rfl _ _ _).1 hfactor
      exact ⟨.negated f, .cons hfront hf, Nat.succ_le_succ hnesting,
        by simp [Factor.value?, hvalue]⟩
    · obtain ⟨s, ⟨last, hs, rfl⟩, -, hnesting, hvalue⟩ := (sum_eq_ok_iff (hbelow m rfl)).1 hsum
      rw [skipBlanks_skipBlanks] at hclose
      exact ⟨.grouped s, .cons hfront (Lexes.append_iff.2 ⟨last, hs, .cons hclose (.nil rest)⟩),
        Nat.succ_le_succ hnesting, hvalue⟩
  · rintro ⟨f, hwords, hnesting, hvalue⟩
    cases f with
    | number text =>
      obtain ⟨mid, hfront, hrest⟩ := Lexes.cons_iff.1 hwords
      obtain rfl := Lexes.nil_iff.1 hrest
      exact .inl ⟨text, hfront, hvalue⟩
    | name text =>
      obtain ⟨mid, hfront, hrest⟩ := Lexes.cons_iff.1 hwords
      obtain rfl := Lexes.nil_iff.1 hrest
      exact .inr (.inl ⟨text, hfront, hvalue⟩)
    | negated f =>
      obtain ⟨m, rfl⟩ := Nat.exists_eq_add_one_of_ne_zero (Nat.ne_zero_of_lt hnesting)
      obtain ⟨mid, hfront, hf⟩ := Lexes.cons_iff.1 hwords
      simp only [Factor.value?, bind, Option.bind_eq_some_iff, Option.some.injEq] at hvalue
      obtain ⟨y, hvalue, rfl⟩ := hvalue
      exact .inr (.inr (.inl ⟨m, mid, y, rfl, hfront,
        (hbelow m rfl _ _ _).2 ⟨f, hf, Nat.le_of_succ_le_succ hnesting, hvalue⟩, rfl⟩))
    | grouped s =>
      obtain ⟨m, rfl⟩ := Nat.exists_eq_add_one_of_ne_zero (Nat.ne_zero_of_lt hnesting)
      obtain ⟨mid, hfront, hinside⟩ := Lexes.cons_iff.1 hwords
      obtain ⟨last, hs, hclose⟩ := Lexes.append_iff.1 hinside
      obtain ⟨mid', hclose, hrest⟩ := Lexes.cons_iff.1 hclose
      obtain rfl := Lexes.nil_iff.1 hrest
      have hnext : next? last = some (.sign ')') := by simp [next?, hclose]
      refine .inr (.inr (.inr ⟨m, mid, skipBlanks last, rfl, hfront,
        (sum_eq_ok_iff (hbelow m rfl)).2 ⟨s, ⟨last, hs, rfl⟩, ?_, Nat.le_of_succ_le_succ hnesting,
          hvalue⟩, by simpa using hclose⟩))
      rw [next?_skipBlanks, hnext]
      exact endsSum_close

theorem readsFactors_factor (n : Nat) : ReadsFactors value? n (factor value? n) := by
  induction n with
  | zero => exact .step nofun
  | succ n ih =>
    refine .step fun m hm => ?_
    obtain rfl := Nat.succ.inj hm
    exact ih

/-- The expressions are those of the grammar. A text has at most one tree, and it has a value
exactly if it has a tree that nests at most 64 deep and has a value; then it is that value. -/
theorem evaluate_iff_derives (source : String) (value? : String → Option Number) :
    (∀ s s' : Sum, Derives source s → Derives source s' → s = s') ∧
    ∀ x, evaluate source value? = .ok x ↔
      ∃ s : Sum, Derives source s ∧ s.nesting ≤ 64 ∧ s.value? value? = some x := by
  refine ⟨fun _ _ => Derives.unique, fun x => ?_⟩
  simp only [evaluate, bind_eq_ok_iff, Prod.exists]
  constructor
  · rintro ⟨y, rest, hsum, hend⟩
    obtain ⟨s, hs, -, hnesting, hvalue⟩ := (sum_eq_ok_iff (readsFactors_factor maxNesting)).1 hsum
    split at hend
    · next hrest =>
      cases hend
      obtain rfl : rest = [] := hs.skipBlanks_rest.symm.trans hrest
      exact ⟨s, hs, hnesting, hvalue⟩
    · cases hend
  · rintro ⟨s, hs, hnesting, hvalue⟩
    exact ⟨x, [], (sum_eq_ok_iff (readsFactors_factor maxNesting)).2
      ⟨s, hs, endsSum_none, hnesting, hvalue⟩, rfl⟩

end Obsplan.Expression
