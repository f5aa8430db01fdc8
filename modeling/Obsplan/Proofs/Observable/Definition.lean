import Obsplan.Observable.Definition
import Obsplan.Proofs.Search.Keys

/-!
# Observables read back from their definitions

A definition parts its words by blanks, so the name of an observable has to be a word to be read
back. Main statement: an observable that is named by a word, or not at all, is read back from its
definition but for its default value.
-/

namespace Obsplan

/-! ## Words -/

namespace Text

/-- A text with some characters, none of which is a blank. -/
structure IsWord (w : String) : Prop where
  some : w.toList ≠ []
  plain : ∀ c ∈ w.toList, isBlank c = false

theorem isWord_iff {w : String} :
    IsWord w ↔ w.toList.isEmpty = false ∧ w.toList.any isBlank = false := by
  simp only [List.isEmpty_eq_false_iff, List.any_eq_false, Bool.not_eq_true]
  exact ⟨fun h => ⟨h.some, h.plain⟩, fun h => ⟨h.1, h.2⟩⟩

instance (w : String) : Decidable (IsWord w) := decidable_of_iff _ isWord_iff.symm

theorem wordsFrom_append {w : List Char} (h : ∀ c ∈ w, isBlank c = false) (word cs : List Char) :
    wordsFrom word (w ++ cs) = wordsFrom (w.reverse ++ word) cs := by
  induction w generalizing word with
  | nil => rfl
  | cons c w ih =>
    obtain ⟨hc, hw⟩ := List.forall_mem_cons.mp h
    simp [wordsFrom, hc, ih hw]

theorem words_of_isWord {w : String} (h : IsWord w) : words w = [w] := by
  have hfrom := wordsFrom_append h.plain [] []
  simp only [List.append_nil] at hfrom
  simp [words, hfrom, wordsFrom, h.some]

theorem words_append {w : String} (h : IsWord w) (s : String) :
    words (w ++ " " ++ s) = w :: words s := by
  have hfrom := wordsFrom_append h.plain [] (' ' :: s.toList)
  have hblank : isBlank ' ' = true := by decide
  simp only [List.append_nil] at hfrom
  simp [words, String.toList_append, hfrom, wordsFrom, hblank, h.some]

theorem isWord_of_mem_words {s w : String} (h : w ∈ words s) : IsWord w := by
  obtain ⟨cs, hcs, rfl⟩ := List.mem_map.mp h
  obtain ⟨hsome, hplain⟩ := of_mem_wordsFrom [] s.toList (by simp) cs hcs
  exact ⟨by simpa using hsome, by simpa using hplain⟩

end Text

/-! ## Concepts as words -/

theorem toNat_of_continuesName {c : Char} (h : continuesName c = true) :
    0x20 < c.toNat ∧ c.toNat < 0x85 := by
  have halphanum : c.isAlphanum = ((decide ('A'.val ≤ c.val ∧ c.val ≤ 'Z'.val) ||
      (decide ('a'.val ≤ c.val) && decide (c.val ≤ 'z'.val))) ||
      (decide ('0'.val ≤ c.val) && decide (c.val ≤ '9'.val))) := rfl
  simp only [continuesName, halphanum, Bool.or_eq_true, Bool.and_eq_true, decide_eq_true_eq,
    beq_iff_eq, UInt32.le_iff_toNat_le] at h
  rcases h with ((h | rfl) | rfl) | rfl
  · simp [← Char.toNat_val] at h ⊢
    omega
  · decide
  · decide
  · decide

theorem isBlank_eq_false {c : Char} (hl : 0x20 < c.toNat) (hu : c.toNat < 0x85) :
    Text.isBlank c = false := by
  simp [Text.isBlank]
  omega

namespace Concept

theorem colon_mem_urn (concept : Concept) : ':' ∈ concept.urn.toList := by
  obtain ⟨before, after, hparts, -, -⟩ := isConcept_parts concept.isConcept
  simp [hparts]

theorem isWord_urn (concept : Concept) : Text.IsWord concept.urn where
  some := List.ne_nil_of_mem concept.colon_mem_urn
  plain c hc := by
    rcases isConcept_continues concept.isConcept c hc with h | rfl
    · obtain ⟨hl, hu⟩ := toNat_of_continuesName h
      exact isBlank_eq_false hl hu
    · decide

/-- A concept is none of the words that stand before it. -/
theorem urn_ne (concept : Concept) {w : String} (h : ':' ∉ w.toList) : concept.urn ≠ w := by
  rintro rfl
  exact h concept.colon_mem_urn

theorem ofText_urn (concept : Concept) : ofText concept.urn = .ok concept := by
  simp [ofText, ofText?, concept.isConcept]

end Concept

/-! ## The words of a definition -/

namespace Observable

/-- What follows the concept of an observable in its definition. -/
def naming (o : Observable) : List String :=
  match o.statedName with
  | some name => ["named", name]
  | none => []

theorem words_text {o : Observable} (h : ∀ name ∈ o.statedName, Text.IsWord name) :
    Text.words o.text =
      (if o.optional then ["optional"] else []) ++ (if o.mode = .any then ["any"] else []) ++
        (if o.collective then ["each"] else []) ++ o.concept.urn :: o.naming := by
  have hoptional : ∀ s, Text.words ("optional " ++ s) = "optional" :: Text.words s :=
    Text.words_append (w := "optional") (by decide)
  have hany : ∀ s, Text.words ("any " ++ s) = "any" :: Text.words s :=
    Text.words_append (w := "any") (by decide)
  have heach : ∀ s, Text.words ("each " ++ s) = "each" :: Text.words s :=
    Text.words_append (w := "each") (by decide)
  have hconcept := Text.words_of_isWord o.concept.isWord_urn
  have hnamed : ∀ name ∈ o.statedName,
      Text.words (o.concept.urn ++ (" named " ++ name)) = [o.concept.urn, "named", name] := by
    intro name hname
    have hsplit : o.concept.urn ++ (" named " ++ name) =
        o.concept.urn ++ " " ++ ("named" ++ " " ++ name) := by
      rw [show " named " = " " ++ ("named" ++ " ") by decide]
      simp only [String.append_assoc]
    rw [hsplit, Text.words_append o.concept.isWord_urn, Text.words_append (by decide),
      Text.words_of_isWord (h name hname)]
  obtain ⟨concept, statedName, collective, optional, defaultValue, mode⟩ := o
  cases statedName <;> cases optional <;> cases mode <;> cases collective <;>
    simp_all [-String.reduceAppend, text, urn, naming, String.append_assoc]

/-! ## Reading a definition -/

/-- The observable without what stands in for it. -/
def withoutDefault (o : Observable) : Observable := { o with defaultValue := none }

theorem readWords_urn (definition : String) (optional collective : Bool) (mode : Matching)
    (concept : Concept) (ws : List String) :
    readWords definition optional collective mode (concept.urn :: ws) =
      readNames definition { concept, collective, optional, mode } ws := by
  unfold readWords
  split
  · rename_i h
    cases h
  · rename_i h
    exact absurd (List.cons.inj h).1 (concept.urn_ne (by decide))
  · rename_i h
    exact absurd (List.cons.inj h).1 (concept.urn_ne (by decide))
  · rename_i h
    exact absurd (List.cons.inj h).1 (concept.urn_ne (by decide))
  · rename_i h
    cases h
    rw [Concept.ofText_urn]
    rfl

theorem readNames_naming (definition : String) (o : Observable) :
    readNames definition { o.withoutDefault with statedName := none } o.naming =
      .ok o.withoutDefault := by
  obtain ⟨concept, statedName, collective, optional, defaultValue, mode⟩ := o
  cases statedName with
  | none => rfl
  | some name => rfl

/-- An observable that is named by a word, or not at all, is read back but for its default. -/
theorem ofText_text {o : Observable} (h : ∀ name ∈ o.statedName, Text.IsWord name) :
    ofText o.text = .ok o.withoutDefault := by
  rw [ofText, words_text h, ← readNames_naming o.text o]
  generalize o.text = definition
  generalize o.naming = ws
  obtain ⟨concept, statedName, collective, optional, defaultValue, mode⟩ := o
  cases optional <;> cases mode <;> cases collective <;>
    simp [readWords, readWords_urn, withoutDefault]

end Observable

end Obsplan
