import Obsplan.Proofs.Decimal.Text
import Obsplan.Scale.Basic

/-!
# The texts of scales

A scale can be read off its text, so scales of the same text are the same scale. The signs that
part the keys of a search do not occur in it.
-/

namespace Obsplan

open Coordinate

/-- Texts are parted at the first sign that does not occur in front of it. -/
theorem part_unique {c : Char} {front front' rest rest' : List Char} (hf : c ∉ front)
    (hf' : c ∉ front') (h : front ++ c :: rest = front' ++ c :: rest') :
    front = front' ∧ rest = rest' := by
  rcases List.append_eq_append_iff.mp h with ⟨more, rfl, hmore⟩ | ⟨more, rfl, hmore⟩
  · cases more with
    | nil => simpa using hmore
    | cons d more =>
      cases (List.cons.inj hmore).1
      exact absurd (by simp) hf'
  · cases more with
    | nil => simpa using hmore.symm
    | cons d more =>
      cases (List.cons.inj hmore).1
      exact absurd (by simp) hf

theorem mem_intercalate {c : Char} {sep : List Char} {parts : List (List Char)}
    (h : c ∈ sep.intercalate parts) : c ∈ sep ∨ ∃ part ∈ parts, c ∈ part := by
  induction parts with
  | nil => simp at h
  | cons part parts ih =>
    match parts with
    | [] =>
      rw [List.intercalate_singleton] at h
      exact .inr ⟨part, List.mem_cons_self, h⟩
    | next :: parts =>
      rw [List.intercalate_cons_cons, List.mem_append, List.mem_append] at h
      rcases h with (h | h) | h
      · exact .inr ⟨part, List.mem_cons_self, h⟩
      · exact .inl h
      · refine (ih h).imp_right ?_
        rintro ⟨part', hmem, hc⟩
        exact ⟨part', List.mem_cons_of_mem _ hmem, hc⟩

/-- Numbers that can be read off their texts, which are made of digits, points and minus signs. -/
class LegibleCoordinate (α : Type) [Coordinate α] : Prop where
  text_injective {a b : α} : isFinite a = true → isFinite b = true →
    Coordinate.text a = Coordinate.text b → a = b
  mem_text {a : α} {c : Char} : isFinite a = true → c ∈ (Coordinate.text a).toList →
    c.isDigit = true ∨ c = '.' ∨ c = '-'

instance : LegibleCoordinate Number where
  text_injective := Decimal.boundLayout_write_injective
  mem_text ha hc := Decimal.mem_boundLayout_write ha hc

variable {α : Type} [Coordinate α] [LegibleCoordinate α]

theorem Coordinate.notMem_text {a : α} (ha : isFinite a = true) {c : Char}
    (hc : c.isDigit = false ∧ c ≠ '.' ∧ c ≠ '-') : c ∉ (Coordinate.text a).toList := by
  intro hmem
  rcases LegibleCoordinate.mem_text ha hmem with h | h | h
  · exact absurd h (by simp [hc.1])
  · exact hc.2.1 h
  · exact hc.2.2 h

theorem Dimension.notMem_name (d : Dimension) : ∀ c ∈ ['[', '@', '|'], c ∉ d.name.toList := by
  cases d <;> simp [name]

theorem Dimension.name_injective : Function.Injective Dimension.name := by
  intro d e h
  cases d <;> cases e <;> first | rfl | exact absurd h (by decide)

namespace Extent

omit [LegibleCoordinate α] in
theorem toList_text (e : Extent α) : e.text.toList = e.dimension.name.toList ++
    '[' :: ((Coordinate.text e.start).toList ++
      ',' :: ' ' :: ((Coordinate.text e.stop).toList ++ [')'])) := by
  simp [text, String.toList_append]

/-- A valid extent at the front of a text can be read off it. -/
theorem text_append_inj {e e' : Extent α} (he : e.isValid = true) (he' : e'.isValid = true)
    {r r' : List Char} (h : e.text.toList ++ r = e'.text.toList ++ r') : e = e' ∧ r = r' := by
  obtain ⟨hstart, hstop, -⟩ := isValid_iff.mp he
  obtain ⟨hstart', hstop', -⟩ := isValid_iff.mp he'
  simp only [toList_text, List.append_assoc, List.cons_append, List.nil_append] at h
  obtain ⟨hname, h⟩ := part_unique (Dimension.notMem_name _ '[' (by decide))
    (Dimension.notMem_name _ '[' (by decide)) h
  obtain ⟨hs, h⟩ := part_unique (Coordinate.notMem_text hstart (by decide))
    (Coordinate.notMem_text hstart' (by decide)) h
  obtain ⟨ht, h⟩ := part_unique (Coordinate.notMem_text hstop (by decide))
    (Coordinate.notMem_text hstop' (by decide)) (List.cons.inj h).2
  refine ⟨?_, h⟩
  obtain ⟨d, a, b⟩ := e
  obtain ⟨d', a', b'⟩ := e'
  cases Dimension.name_injective (String.toList_inj.mp hname)
  cases LegibleCoordinate.text_injective hstart hstart' (String.toList_inj.mp hs)
  cases LegibleCoordinate.text_injective hstop hstop' (String.toList_inj.mp ht)
  rfl

theorem notMem_text {e : Extent α} (he : e.isValid = true) :
    ∀ c ∈ ['@', '|'], c ∉ e.text.toList := by
  obtain ⟨hstart, hstop, -⟩ := isValid_iff.mp he
  intro c hc
  have hname := Dimension.notMem_name e.dimension c (List.mem_cons_of_mem _ hc)
  have hall : ∀ c ∈ ['@', '|'], (c.isDigit = false ∧ c ≠ '.' ∧ c ≠ '-') ∧
      c ∉ ['[', ',', ' ', ')'] := by
    simp
  have hplain := hall c hc
  have h₁ := Coordinate.notMem_text hstart hplain.1
  have h₂ := Coordinate.notMem_text hstop hplain.1
  have h₃ := hplain.2
  rw [toList_text]
  simp only [List.mem_cons, List.not_mem_nil, or_false, not_or] at h₃
  simp [hname, h₁, h₂, h₃]

end Extent

namespace Scale

/-- The texts of extents one after the other. -/
def listing (extents : List (Extent α)) : List Char :=
  (" ".intercalate (extents.map Extent.text)).toList

omit [LegibleCoordinate α] in
theorem listing_cons_cons (e e' : Extent α) (es : List (Extent α)) :
    listing (e :: e' :: es) = e.text.toList ++ ' ' :: listing (e' :: es) := by
  simp [listing, String.toList_append]

omit [LegibleCoordinate α] in
theorem listing_singleton (e : Extent α) : listing [e] = e.text.toList ++ [] := by simp [listing]

theorem listing_injective {es es' : List (Extent α)} (hes : ∀ e ∈ es, e.isValid = true)
    (hes' : ∀ e ∈ es', e.isValid = true) (hne : es ≠ []) (hne' : es' ≠ [])
    (h : listing es = listing es') : es = es' := by
  induction es generalizing es' with
  | nil => exact absurd rfl hne
  | cons e es ih =>
    obtain ⟨he, hes⟩ := List.forall_mem_cons.mp hes
    match es, es', hne' with
    | [], [e'], _ =>
      rw [listing_singleton, listing_singleton] at h
      rw [(Extent.text_append_inj he (hes' e' List.mem_cons_self) h).1]
    | [], e' :: _ :: _, _ =>
      rw [listing_singleton, listing_cons_cons] at h
      cases (Extent.text_append_inj he (hes' e' List.mem_cons_self) h).2
    | _ :: _, [e'], _ =>
      rw [listing_singleton, listing_cons_cons] at h
      cases (Extent.text_append_inj he (hes' e' List.mem_cons_self) h).2
    | _ :: _, e' :: _ :: _, _ =>
      rw [listing_cons_cons, listing_cons_cons] at h
      obtain ⟨rfl, hrest⟩ := Extent.text_append_inj he (hes' e' List.mem_cons_self) h
      rw [ih hes (fun e he => hes' e (List.mem_cons_of_mem _ he)) (by simp) (by simp)
        (List.cons.inj hrest).2]

omit [LegibleCoordinate α] in
theorem mem_listing {es : List (Extent α)} {c : Char} (h : c ∈ listing es) :
    c = ' ' ∨ ∃ e ∈ es, c ∈ e.text.toList := by
  rw [listing, String.toList_intercalate, List.map_map] at h
  rcases mem_intercalate h with h | ⟨part, hpart, hc⟩
  · exact .inl (by simpa using h)
  · obtain ⟨e, he, rfl⟩ := List.mem_map.mp hpart
    exact .inr ⟨e, he, hc⟩

omit [LegibleCoordinate α] in
theorem bracket_mem_listing {es : List (Extent α)} (hne : es ≠ []) : '[' ∈ listing es := by
  match es, hne with
  | [e], _ => simp [listing_singleton, Extent.toList_text]
  | e :: e' :: es, _ => simp [listing_cons_cons, Extent.toList_text]

omit [LegibleCoordinate α] in
theorem toList_text {s : Scale α} :
    s.text.toList = if s.extents = [] then "scalar".toList else listing s.extents := by
  simp only [text, isScalar, List.isEmpty_iff]
  split
  · rfl
  · rfl

/-- Scales of the same text are the same. -/
theorem text_injective {s t : Scale α} (h : s.text = t.text) : s = t := by
  have hlist := congrArg String.toList h
  rw [toList_text, toList_text] at hlist
  have hext : s.extents = t.extents := by
    by_cases hs : s.extents = [] <;> by_cases ht : t.extents = []
    · rw [hs, ht]
    · rw [if_pos hs, if_neg ht] at hlist
      exact absurd (hlist ▸ bracket_mem_listing ht) (by decide)
    · rw [if_neg hs, if_pos ht] at hlist
      exact absurd (hlist ▸ bracket_mem_listing hs) (by decide)
    · rw [if_neg hs, if_neg ht] at hlist
      exact listing_injective s.valid t.valid hs ht hlist
  obtain ⟨extents, _, _⟩ := s
  cases hext
  rfl

/-- The signs that part keys do not occur in the text of a scale. -/
theorem notMem_text {s : Scale α} : ∀ c ∈ ['@', '|'], c ∉ s.text.toList := by
  intro c hc
  rw [toList_text]
  split
  · revert c; simp
  · intro hmem
    rcases mem_listing hmem with rfl | ⟨e, he, hmem⟩
    · exact absurd hc (by decide)
    · exact Extent.notMem_text (s.valid e he) c hc hmem

end Scale

end Obsplan
