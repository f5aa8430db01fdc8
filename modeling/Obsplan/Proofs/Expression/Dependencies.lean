import Obsplan.Execution
import Obsplan.Proofs.Observable.Definition

/-!
# Dependencies in expressions

A dependency that was given no name is known to computations by the local name of its concept, in
small letters. An expression can consist of such a name alone. Main statement: then it has the value
of the dependency, as long as no hyphen is in the name and the name is not the one that stands for
the output of the call before.
-/

namespace Obsplan

/-! ## Characters of names -/

/-- What holds of the names that are written in few characters holds of all of them. -/
theorem forall_continuesName (P : Char → Prop)
    (h : ∀ n < 0x85, continuesName (Char.ofNat n) = true → P (Char.ofNat n)) {c : Char}
    (hc : continuesName c = true) : P c := by
  have hn := h c.toNat (toNat_of_continuesName hc).2
  rw [Char.ofNat_toNat] at hn
  exact hn hc

theorem continuesName_toLower {c : Char} (hc : continuesName c = true) :
    continuesName c.toLower = true :=
  forall_continuesName (fun c => continuesName c.toLower = true) (by decide +kernel) hc

theorem startsName_toLower {c : Char} (hc : continuesName c = true) :
    startsName c = true → startsName c.toLower = true :=
  forall_continuesName (fun c => startsName c = true → startsName c.toLower = true)
    (by decide +kernel) hc

theorem eq_hyphen_of_toLower {c : Char} (hc : continuesName c = true) :
    c.toLower = '-' → c = '-' :=
  forall_continuesName (fun c => c.toLower = '-' → c = '-') (by decide +kernel) hc

theorem isName_map_toLower {cs : List Char} (h : isName cs = true) :
    isName (cs.map Char.toLower) = true := by
  have hcontinues := isName_continues h
  cases cs with
  | nil => exact h
  | cons c cs =>
    obtain ⟨hfirst, hrest⟩ := List.forall_mem_cons.mp hcontinues
    simp only [isName, Bool.and_eq_true] at h
    simp only [List.map_cons, isName, Bool.and_eq_true, List.all_eq_true, List.forall_mem_map]
    exact ⟨startsName_toLower hfirst h.1, fun d hd => continuesName_toLower (hrest d hd)⟩

theorem Concept.isName_localName (concept : Concept) :
    isName concept.localName.toList = true := by
  have h := concept.isConcept
  unfold Obsplan.isConcept at h
  split at h
  · cases h
  · rename_i colon after hafter
    simp only [Bool.and_eq_true] at h
    rw [localName, hafter, List.drop_one, List.tail_cons, String.toList_ofList]
    exact h.2

namespace Run

variable {o : Observable}

theorem toList_dependencyName (h : o.statedName = none) :
    (dependencyName o).toList = o.concept.localName.toList.map Char.toLower := by
  rw [dependencyName, h, Option.getD_none, String.toList_ofList]

theorem isName_dependencyName (h : o.statedName = none) :
    isName (dependencyName o).toList = true := by
  rw [toList_dependencyName h]
  exact isName_map_toLower o.concept.isName_localName

theorem hyphen_mem_dependencyName (h : o.statedName = none) :
    '-' ∈ (dependencyName o).toList ↔ '-' ∈ o.concept.localName.toList := by
  rw [toList_dependencyName h, List.mem_map]
  constructor
  · rintro ⟨c, hc, hlower⟩
    exact eq_hyphen_of_toLower (isName_continues o.concept.isName_localName c hc) hlower ▸ hc
  · exact fun hc => ⟨'-', hc, rfl⟩

end Run

namespace Expression

/-! ## Reading a name -/

variable {cs : List Char} {value? : String → Option Number} {x : Number} {name : String}

theorem continuesName_of_ne_hyphen {c : Char} (h : Obsplan.continuesName c = true) (hc : c ≠ '-') :
    continuesName c = true := by
  simp only [Obsplan.continuesName, Char.isAlphanum, Bool.or_eq_true, beq_iff_eq, hc,
    or_false] at h
  simp only [continuesName, Text.isAlphabetic, Text.isNumeric, Bool.or_eq_true, beq_iff_eq]
  tauto

theorem startsName_of_startsName {c : Char} (h : Obsplan.startsName c = true) :
    startsName c = true := by
  simp only [Obsplan.startsName, Bool.or_eq_true] at h
  simp only [startsName, Text.isAlphabetic, Bool.or_eq_true]
  tauto

/-- No number, parenthesis or minus sign begins like a name. -/
theorem plain_of_startsName {c : Char} (hc : Obsplan.continuesName c = true) :
    Obsplan.startsName c = true → isNumberChar c = false ∧ c ≠ '(' ∧ c ≠ '-' :=
  forall_continuesName (fun c => Obsplan.startsName c = true →
    isNumberChar c = false ∧ c ≠ '(' ∧ c ≠ '-') (by decide +kernel) hc

/-- Whatever begins like the name of a concept is read as a name. -/
theorem factor_eq_readName (h : isName cs = true) (n : Nat) :
    factor value? n cs = readName value? cs := by
  cases cs with
  | nil => cases h
  | cons c cs =>
    have hcontinues := isName_continues h c List.mem_cons_self
    simp only [isName, Bool.and_eq_true] at h
    obtain ⟨hl, hu⟩ := toNat_of_continuesName hcontinues
    obtain ⟨hnumber, hopen, hminus⟩ := plain_of_startsName hcontinues h.1
    have hblank : skipBlanks (c :: cs) = c :: cs :=
      List.dropWhile_cons_of_neg (by simp [isBlank_eq_false hl hu])
    cases n <;> simp [factor, hblank, hopen, hminus, hnumber, startsName_of_startsName h.1]

theorem factors_nil (r : Reader) (fuel : Nat) : factors r fuel x [] = .ok (x, []) := by
  cases fuel <;> rfl

theorem terms_nil (r : Reader) (fuel : Nat) : terms r fuel x [] = .ok (x, []) := by
  cases fuel <;> rfl

/-- The front of a name up to the first hyphen is looked up; there is no value when that stands for
nothing. -/
theorem evaluate_front (h : isName name.toList = true) {front : String}
    (hfront : name.toList.takeWhile continuesName = front.toList) (hvalue : value? front = none) :
    evaluate name value? = .error (.noValue front) := by
  simp [evaluate, sum, product, factor_eq_readName h, readName, hfront, hvalue, bind, Except.bind]

variable (h : isName name.toList = true) (hplain : '-' ∉ name.toList)

include h hplain

theorem takeWhile_name : name.toList.takeWhile continuesName = name.toList := by
  refine List.takeWhile_eq_self_iff.mpr fun c hc => ?_
  refine continuesName_of_ne_hyphen (isName_continues h c hc) ?_
  rintro rfl
  exact hplain hc

/-- A name without hyphens is read to its end. -/
theorem evaluate_name (hvalue : value? name = some x) : evaluate name value? = .ok x := by
  have htake := takeWhile_name h hplain
  have hdrop : name.toList.dropWhile continuesName = [] :=
    List.dropWhile_eq_nil_iff.mpr (List.takeWhile_eq_self_iff.mp htake)
  have hread : readName value? name.toList = .ok (x, []) := by
    simp [readName, htake, hdrop, hvalue]
  have hproduct : product (factor value? maxNesting) name.toList = .ok (x, []) := by
    simp [product, factor_eq_readName h, hread, factors_nil, bind, Except.bind]
  simp [evaluate, sum, hproduct, terms_nil, bind, Except.bind, skipBlanks]

end Expression

/-! ## Dependencies by their names -/

namespace Component

variable {α : Type} [Coordinate α] {o : Observable} {call : Call} {input : StepInput α} {v : Value}
  {x : Number}

/-- The name of the only dependency stands for its value, unless it is the name that stands for the
output of the call before. -/
theorem numberOf?_dependencyName {name : String} (hvalue : v.asNumber? = some x)
    (hdependencies : input.dependencies = [(name, some v)]) (hprevious : input.previous = none) :
    numberOf? input name = if name = "self" then none else some x := by
  simp [numberOf?, StepInput.dependency?, hdependencies, hprevious, hvalue]

/-- A name whose front stands for nothing has no value. -/
theorem expression_front {name front : String}
    (hcall : call.parameters.get? "expression" = some (.text name))
    (hname : isName name.toList = true)
    (hfront : name.toList.takeWhile Expression.continuesName = front.toList)
    (hnumber : numberOf? input front = none) :
    expression call input = .failure (ExpressionError.noValue front).message := by
  simp only [expression, hcall, Option.bind_some, Value.asText?]
  rw [Expression.evaluate_front hname hfront hnumber]

/-- An expression that is no more than a name without hyphens has the number that the name stands
for. -/
theorem expression_name {name : String}
    (hcall : call.parameters.get? "expression" = some (.text name))
    (hname : isName name.toList = true) (hplain : '-' ∉ name.toList)
    (hnumber : numberOf? input name = some x) : expression call input = .output (some (.float x)) := by
  simp only [expression, hcall, Option.bind_some, Value.asText?]
  rw [Expression.evaluate_name hname hplain hnumber]

/-- An expression that is no more than the name of the only dependency has the value of that as a
64-bit float, unless the name stands for the output of the call before, of which there is none. -/
theorem expression_dependencyName (hname : o.statedName = none)
    (hplain : '-' ∉ o.concept.localName.toList) (hvalue : v.asNumber? = some x)
    (hcall : call.parameters.get? "expression" = some (.text (Run.dependencyName o)))
    (hdependencies : input.dependencies = [(Run.dependencyName o, some v)])
    (hprevious : input.previous = none) :
    expression call input =
      if Run.dependencyName o = "self" then .failure (ExpressionError.noValue "self").message
      else .output (some (.float x)) := by
  have hisName := Run.isName_dependencyName hname
  have hhyphen := (Run.hyphen_mem_dependencyName hname).not.mpr hplain
  have hnumber := numberOf?_dependencyName hvalue hdependencies hprevious
  by_cases hself : Run.dependencyName o = "self"
  · rw [if_pos hself] at hnumber ⊢
    rw [← hself]
    exact expression_front hcall hisName (Expression.takeWhile_name hisName hhyphen) hnumber
  · rw [if_neg hself] at hnumber ⊢
    exact expression_name hcall hisName hhyphen hnumber

/-- The depth of the soil, by a name with all kinds of characters but a hyphen. -/
def soilDepth : Observable := { concept := ⟨"t:Soil_Depth.2", by decide⟩ }

/-- The number two. -/
def two : Number := ⟨0x4000000000000000⟩

/-- A call to compute an expression. -/
def computing (source : String) : Call :=
  { name := BuiltIn.expression.callName, parameters := ⟨[("expression", .text source)]⟩ }

/-- What the first call of a computation sees of its only dependency, whose value is two. -/
def seeing (name : String) : StepInput Number where
  observable := soilDepth
  scale := .scalar
  dependencies := [(name, some (.float two))]

theorem expression_dependencyName_soilDepth :
    Run.dependencyName soilDepth = "soil_depth.2" ∧
    expression (computing "soil_depth.2") (seeing "soil_depth.2") =
      .output (some (.float two)) := by
  have hname : Run.dependencyName soilDepth = "soil_depth.2" := by decide +kernel
  have h : expression (computing "soil_depth.2") (seeing "soil_depth.2") =
      if Run.dependencyName soilDepth = "self" then
        .failure (ExpressionError.noValue "self").message
      else .output (some (.float two)) :=
    expression_dependencyName rfl (by decide +kernel) rfl (by rw [hname]; rfl) (by rw [hname]; rfl)
      rfl
  refine ⟨hname, ?_⟩
  rwa [if_neg (by rw [hname]; decide)] at h

/-- A concept whose name in small letters is that of the output of the call before. -/
def itself : Observable := { concept := ⟨"t:Self", by decide⟩ }

/-- The depth of the soil, by a name with a hyphen. -/
def hyphenated : Observable := { concept := ⟨"t:Soil-Depth", by decide⟩ }

/-- What the first call of a computation sees of its only dependency, whose value is the smallest
positive integer that is no 64-bit float. -/
def counting (name : String) : StepInput Number :=
  { seeing name with dependencies := [(name, some (.int 9007199254740993))] }

/-- Dependencies that an expression cannot name, and one whose value it rounds. -/
theorem expression_dependencyName_fails :
    (Run.dependencyName itself = "self" ∧
      expression (computing "self") (seeing "self") = .failure "no numeric value for \"self\"") ∧
    (Run.dependencyName hyphenated = "soil-depth" ∧
      expression (computing "soil-depth") (seeing "soil-depth") =
        .failure "no numeric value for \"soil\"") ∧
    Run.dependencyName soilDepth = "soil_depth.2" ∧
      expression (computing "soil_depth.2") (counting "soil_depth.2") =
        .output (some (.float (.ofInt 9007199254740992))) := by
  have hself : (ExpressionError.noValue "self").message = "no numeric value for \"self\"" := by
    decide +kernel
  have hsoil : (ExpressionError.noValue "soil").message = "no numeric value for \"soil\"" := by
    decide +kernel
  have hrounded : Number.ofInt 9007199254740993 = .ofInt 9007199254740992 :=
    congrArg Number.mk (show (Number.ofInt 9007199254740993).bits =
      (Number.ofInt 9007199254740992).bits by decide +kernel)
  refine ⟨⟨by decide +kernel, ?_⟩, ⟨by decide +kernel, ?_⟩, by decide +kernel, ?_⟩
  · rw [← hself]
    exact expression_front rfl (by decide +kernel) (by decide +kernel) rfl
  · rw [← hsoil]
    exact expression_front rfl (by decide +kernel) (by decide +kernel) rfl
  · rw [← hrounded]
    exact expression_name rfl (by decide +kernel) (by decide +kernel) rfl

end Component

end Obsplan
