import Obsplan.Proofs.Observable.Definition

/-!
# The grammar of observable definitions

The words of a text are what stands between its blanks. A definition consists of qualifiers, a
concept and names, each name behind a word of its own. Main statement: the definitions that are read
are those of the grammar, and reading undoes writing.
-/

namespace Obsplan

/-! ## Words between blanks -/

namespace Text

/-- A text consists of words, with blanks between them and perhaps around them. -/
inductive Parts : List Char → List String → Prop
  | blank {gap : List Char} (hgap : ∀ c ∈ gap, isBlank c = true) : Parts gap []
  | word {gap rest : List Char} {w : String} {ws : List String}
      (hgap : ∀ c ∈ gap, isBlank c = true) (hw : IsWord w)
      (hend : ∀ c ∈ rest.head?, isBlank c = true) (hrest : Parts rest ws) :
      Parts (gap ++ (w.toList ++ rest)) (w :: ws)

theorem Parts.cons {c : Char} {cs : List Char} {ws : List String} (hc : isBlank c = true)
    (h : Parts cs ws) : Parts (c :: cs) ws := by
  cases h with
  | blank hgap => exact .blank (List.forall_mem_cons.mpr ⟨hc, hgap⟩)
  | word hgap hw hend hrest =>
    exact .word (List.forall_mem_cons.mpr ⟨hc, hgap⟩) hw hend hrest

/-- A word that was read backwards comes first. -/
theorem Parts.first {word rest : List Char} {ws : List String} (hsome : word ≠ [])
    (hplain : ∀ c ∈ word, isBlank c = false) (hend : ∀ c ∈ rest.head?, isBlank c = true)
    (hrest : Parts rest ws) :
    Parts (word.reverse ++ rest) (String.ofList word.reverse :: ws) := by
  have hw : IsWord (String.ofList word.reverse) :=
    ⟨by simpa using hsome, by simpa using hplain⟩
  have h := @Parts.word [] rest _ ws (by simp) hw hend hrest
  rwa [String.toList_ofList] at h

/-- Reading goes on with the word in hand. -/
theorem parts_wordsFrom {word : List Char} (hword : ∀ c ∈ word, isBlank c = false)
    (cs : List Char) :
    Parts (word.reverse ++ cs) ((wordsFrom word cs).map String.ofList) := by
  induction cs generalizing word with
  | nil =>
    cases word with
    | nil => exact .blank (by simp)
    | cons c word => exact .first (by simp) hword (by simp) (.blank (by simp))
  | cons c cs ih =>
    by_cases hc : isBlank c = true
    · have hrest : Parts cs ((wordsFrom [] cs).map String.ofList) := @ih [] (by simp)
      cases word with
      | nil => simpa [wordsFrom, hc] using hrest.cons hc
      | cons d word =>
        simp only [wordsFrom, hc, if_true, List.isEmpty_cons, Bool.false_eq_true, if_false,
          List.map_cons]
        exact .first (by simp) hword (by simpa using hc) (hrest.cons hc)
    · have hplain : isBlank c = false := by simpa using hc
      have h := ih (List.forall_mem_cons.mpr ⟨hplain, hword⟩)
      simpa [wordsFrom, hplain] using h

theorem wordsFrom_blanks {gap : List Char} (hgap : ∀ c ∈ gap, isBlank c = true) (cs : List Char) :
    wordsFrom [] (gap ++ cs) = wordsFrom [] cs := by
  induction gap with
  | nil => rfl
  | cons c gap ih =>
    obtain ⟨hc, hgap⟩ := List.forall_mem_cons.mp hgap
    simp [wordsFrom, hc, ih hgap]

theorem wordsFrom_end {word rest : List Char} (hsome : word ≠ [])
    (hend : ∀ c ∈ rest.head?, isBlank c = true) :
    wordsFrom word rest = word.reverse :: wordsFrom [] rest := by
  cases rest with
  | nil => simp [wordsFrom, hsome]
  | cons c rest =>
    have hc : isBlank c = true := hend c rfl
    simp [wordsFrom, hc, hsome]

theorem Parts.words_eq {cs : List Char} {ws : List String} (h : Parts cs ws) :
    (wordsFrom [] cs).map String.ofList = ws := by
  induction h with
  | @blank gap hgap =>
    have h := wordsFrom_blanks hgap []
    rw [List.append_nil] at h
    rw [h]
    rfl
  | @word gap rest w ws hgap hw hend _ ih =>
    have hrest : wordsFrom w.toList.reverse rest = _ :=
      wordsFrom_end (by simpa using hw.some) hend
    rw [wordsFrom_blanks hgap, wordsFrom_append hw.plain, List.append_nil, hrest,
      List.reverse_reverse, List.map_cons, String.ofList_toList, ih]

/-- The words of a text are the parts between its blanks. -/
theorem words_eq_iff {s : String} {ws : List String} : words s = ws ↔ Parts s.toList ws := by
  constructor
  · rintro rfl
    exact @parts_wordsFrom [] (by simp) s.toList
  · exact Parts.words_eq

end Text

/-! ## Definitions -/

theorem Concept.urn_of_ofText {w : String} {concept : Concept} (h : ofText w = .ok concept) :
    concept.urn = w := by
  by_cases hw : Obsplan.isConcept w.toList = true
  · simp only [ofText, ofText?, dif_pos hw, Except.ok.injEq] at h
    rw [← h]
  · simp [ofText, ofText?, hw] at h

namespace Observable

/-- What can stand before the concept. -/
inductive Qualifier where
  | optional
  | any
  | each
  deriving DecidableEq, Repr

def Qualifier.word : Qualifier → String
  | .optional => "optional"
  | .any => "any"
  | .each => "each"

/-- What a definition is made of. -/
structure Definition where
  qualifiers : List Qualifier
  concept : Concept
  names : List String

namespace Definition

def naming (names : List String) : List String := names.flatMap fun name => ["named", name]

/-- The words of a definition from left to right. -/
def words (d : Definition) : List String :=
  d.qualifiers.map Qualifier.word ++ d.concept.urn :: naming d.names

/-- The observable that a definition means; of several names the last one counts. -/
def observable (d : Definition) : Observable where
  concept := d.concept
  statedName := d.names.getLast?
  collective := d.qualifiers.contains .each
  optional := d.qualifiers.contains .optional
  mode := if .any ∈ d.qualifiers then .any else .exact

end Definition

/-! ## Reading the words of a definition -/

variable {definition : String} {o o' : Observable} {optional collective : Bool} {mode : Matching}
  {ws : List String}

/-- The last of some names counts, and without names the one that there was. -/
theorem readNames_names (names : List String) :
    readNames definition o (Definition.naming names) =
      .ok { o with statedName := names.getLast?.or o.statedName } := by
  induction names generalizing o with
  | nil => rfl
  | cons name names ih =>
    have hlast : (name :: names).getLast? = names.getLast?.or (some name) := by
      cases names <;> simp [List.getLast?_cons]
    change readNames definition { o with statedName := some name } (Definition.naming names) = _
    rw [ih, hlast, Option.or_assoc]
    rfl

theorem eq_naming_of_readNames (h : readNames definition o ws = .ok o') :
    ∃ names, ws = Definition.naming names := by
  induction o, ws using readNames.induct with
  | case1 o => exact ⟨[], rfl⟩
  | case2 o name ws ih =>
    obtain ⟨names, rfl⟩ := ih h
    exact ⟨name :: names, rfl⟩
  | case3 o => cases h
  | case4 o w ws _ _ =>
    rw [readNames] at h
    · cases h
    all_goals assumption

/-- What the qualifiers say is added to what was said before. -/
theorem readWords_words (d : Definition) :
    readWords definition optional collective mode d.words =
      .ok { d.observable with
        optional := optional || d.observable.optional
        collective := collective || d.observable.collective
        mode := if d.observable.mode = .any then .any else mode } := by
  obtain ⟨qualifiers, concept, names⟩ := d
  induction qualifiers generalizing optional collective mode with
  | nil =>
    have h : readNames definition { concept, collective, optional, mode }
        (Definition.naming names) = _ := readNames_names names
    simp [Definition.words, Definition.observable, readWords_urn, h]
  | cons q qualifiers ih =>
    cases q with
    | optional =>
      change readWords definition true collective mode
        (Definition.words ⟨qualifiers, concept, names⟩) = _
      rw [ih]
      simp [Definition.observable]
    | any =>
      change readWords definition optional collective .any
        (Definition.words ⟨qualifiers, concept, names⟩) = _
      rw [ih]
      simp [Definition.observable]
    | each =>
      change readWords definition optional true mode
        (Definition.words ⟨qualifiers, concept, names⟩) = _
      rw [ih]
      simp [Definition.observable]

theorem eq_words_of_readWords (h : readWords definition optional collective mode ws = .ok o) :
    ∃ d : Definition, ws = d.words := by
  induction optional, collective, mode, ws using readWords.induct with
  | case1 => cases h
  | case2 _ _ _ ws ih =>
    obtain ⟨⟨qualifiers, concept, names⟩, rfl⟩ := ih h
    exact ⟨⟨.optional :: qualifiers, concept, names⟩, rfl⟩
  | case3 _ _ _ ws ih =>
    obtain ⟨⟨qualifiers, concept, names⟩, rfl⟩ := ih h
    exact ⟨⟨.any :: qualifiers, concept, names⟩, rfl⟩
  | case4 _ _ _ ws ih =>
    obtain ⟨⟨qualifiers, concept, names⟩, rfl⟩ := ih h
    exact ⟨⟨.each :: qualifiers, concept, names⟩, rfl⟩
  | case5 optional collective mode w ws =>
    rw [readWords] at h
    · cases hconcept : Concept.ofText w with
      | error e =>
        rw [hconcept] at h
        cases h
      | ok concept =>
        rw [hconcept] at h
        obtain ⟨names, rfl⟩ := eq_naming_of_readNames h
        exact ⟨⟨[], concept, names⟩, by rw [← Concept.urn_of_ofText hconcept]; rfl⟩
    all_goals assumption

/-- The definitions that are read are those of the grammar, with what they mean. -/
theorem ofText_eq_ok_iff {s : String} : ofText s = .ok o ↔
    ∃ d : Definition, Text.Parts s.toList d.words ∧ d.observable = o := by
  have hread : ∀ d : Definition, readWords s false false .exact d.words = .ok d.observable := by
    intro d
    have hmode : (if d.observable.mode = .any then .any else .exact) = d.observable.mode := by
      cases d.observable.mode <;> rfl
    rw [readWords_words, hmode, Bool.false_or, Bool.false_or]
  simp only [← Text.words_eq_iff, ofText]
  constructor
  · intro h
    obtain ⟨d, hd⟩ := eq_words_of_readWords h
    rw [hd, hread] at h
    exact ⟨d, hd, Except.ok.inj h⟩
  · rintro ⟨d, hd, rfl⟩
    rw [hd, hread]

/-- No definition gives an observable a name that is no word. -/
theorem isWord_of_ofText {s : String} (h : ofText s = .ok o) :
    ∀ name ∈ o.statedName, Text.IsWord name := by
  obtain ⟨d, hd, rfl⟩ := ofText_eq_ok_iff.mp h
  intro name hname
  have hnaming : name ∈ Definition.naming d.names :=
    List.mem_flatMap.mpr ⟨name, List.mem_of_getLast? hname, by simp⟩
  have hwords : name ∈ Text.words s := by
    rw [Text.words_eq_iff.mpr hd]
    exact List.mem_append_right _ (List.mem_cons_of_mem _ hnaming)
  exact Text.isWord_of_mem_words hwords

theorem ofText_text_eq (hdefault : o.defaultValue = none)
    (hname : ∀ name ∈ o.statedName, Text.IsWord name) : ofText o.text = .ok o := by
  rw [ofText_text hname]
  cases o
  cases hdefault
  rfl

/-- Observables without a default that are named by a word, or not at all, are read back from their
definitions. Nothing else is read from a definition, and what is read is what the words of the text
mean by the grammar. -/
theorem ofText_grammatical :
    (∀ o : Observable, o.defaultValue = none → (∀ name ∈ o.statedName, Text.IsWord name) →
      ofText o.text = .ok o) ∧
    (∀ s o, ofText s = .ok o →
      o.defaultValue = none ∧ (∀ name ∈ o.statedName, Text.IsWord name) ∧ ofText o.text = .ok o) ∧
    ∀ s o, ofText s = .ok o ↔
      ∃ d : Definition, Text.Parts s.toList d.words ∧ d.observable = o := by
  refine ⟨fun o => ofText_text_eq, fun s o h => ?_, fun s o => ofText_eq_ok_iff⟩
  have hname := isWord_of_ofText h
  obtain ⟨d, -, rfl⟩ := ofText_eq_ok_iff.mp h
  exact ⟨rfl, hname, ofText_text_eq rfl hname⟩

/-- Trees, wanted twice in any way, under a name that is the word before it. -/
def trees : Definition where
  qualifiers := [.any, .optional, .any]
  concept := ⟨"ecology:Tree", by decide⟩
  names := ["wood", "named"]

theorem ofText_grammatical_trees :
    ofText " any optional any\tecology:Tree named wood named named" = .ok trees.observable ∧
    trees.observable.text = "optional any ecology:Tree named named" ∧
    ofText "optional any ecology:Tree named named" = .ok trees.observable := by
  obtain ⟨-, hread, hgrammar⟩ := ofText_grammatical
  have hwords :
      Text.words " any optional any\tecology:Tree named wood named named" = trees.words := by
    decide +kernel
  have htext : trees.observable.text = "optional any ecology:Tree named named" := by decide +kernel
  have htrees := (hgrammar _ _).mpr ⟨trees, Text.words_eq_iff.mp hwords, rfl⟩
  obtain ⟨-, -, hback⟩ := hread _ _ htrees
  rw [htext] at hback
  exact ⟨htrees, htext, hback⟩

end Observable

end Obsplan
