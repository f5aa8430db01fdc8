/-!
# Putting a list in order

A list is put in order by inserting its items one after the other, each behind the last item that it
does not have to precede. Items of which neither has to precede the other keep their order. Main
statement: items that are all apart come out in order.
-/

namespace Obsplan

variable {β : Type}

/-- An item put into a list that is in reverse order. -/
def insertBehind (precedes : β → β → Bool) (x : β) : List β → List β
  | [] => [x]
  | y :: ys => if precedes x y then y :: insertBehind precedes x ys else x :: y :: ys

/-- The items of a list in reverse order, put before those that are in reverse order already. -/
def arrangeOnto (precedes : β → β → Bool) (done : List β) : List β → List β
  | [] => done
  | x :: xs => arrangeOnto precedes (insertBehind precedes x done) xs

/-- The items of a list in order. -/
def arrange (precedes : β → β → Bool) (xs : List β) : List β :=
  (arrangeOnto precedes [] xs).reverse

theorem perm_insertBehind (precedes : β → β → Bool) (x : β) (ys : List β) :
    (insertBehind precedes x ys).Perm (x :: ys) := by
  induction ys with
  | nil => exact .refl _
  | cons y ys ih =>
    by_cases h : precedes x y
    · simp only [insertBehind, h, if_true]
      exact (ih.cons y).trans (.swap x y ys)
    · simp [insertBehind, h]

theorem perm_arrangeOnto (precedes : β → β → Bool) (done xs : List β) :
    (arrangeOnto precedes done xs).Perm (done ++ xs) := by
  induction xs generalizing done with
  | nil => simp [arrangeOnto]
  | cons x xs ih =>
    simp only [arrangeOnto]
    exact (ih _).trans (((perm_insertBehind precedes x done).append_right xs).trans
      List.perm_middle.symm)

theorem perm_arrange (precedes : β → β → Bool) (xs : List β) : (arrange precedes xs).Perm xs := by
  refine (List.reverse_perm _).trans ?_
  simpa using perm_arrangeOnto precedes [] xs

theorem mem_arrange {precedes : β → β → Bool} {xs : List β} {x : β} :
    x ∈ arrange precedes xs ↔ x ∈ xs := (perm_arrange precedes xs).mem_iff

/-! ## Items that are all apart -/

section Order

variable {precedes : β → β → Bool} {done xs : List β} {x : β}

theorem pairwise_insertBehind
    (htrans : ∀ y ∈ done, ∀ z ∈ done, precedes z y → precedes y x → precedes z x)
    (hx : ∀ y ∈ done, precedes x y ∨ precedes y x)
    (h : done.Pairwise fun a b => precedes b a) :
    (insertBehind precedes x done).Pairwise fun a b => precedes b a := by
  induction done with
  | nil => exact List.pairwise_singleton _ x
  | cons y ys ih =>
    obtain ⟨hy, hys⟩ := List.pairwise_cons.mp h
    by_cases hxy : precedes x y
    · simp only [insertBehind, hxy, if_true]
      refine List.pairwise_cons.mpr ⟨fun z hz => ?_, ih ?_ ?_ hys⟩
      · rcases List.mem_cons.mp ((perm_insertBehind precedes x ys).mem_iff.mp hz) with rfl | hz
        · exact hxy
        · exact hy z hz
      · exact fun a ha b hb => htrans a (List.mem_cons_of_mem _ ha) b (List.mem_cons_of_mem _ hb)
      · exact fun a ha => hx a (List.mem_cons_of_mem _ ha)
    · have hyx : precedes y x := (hx y List.mem_cons_self).resolve_left hxy
      simp only [insertBehind, hxy]
      refine List.pairwise_cons.mpr ⟨fun z hz => ?_, h⟩
      rcases List.mem_cons.mp hz with rfl | hz
      · exact hyx
      · exact htrans y List.mem_cons_self z (List.mem_cons_of_mem _ hz) (hy z hz) hyx

theorem pairwise_arrangeOnto
    (htrans : ∀ x ∈ done ++ xs, ∀ y ∈ done ++ xs, ∀ z ∈ done ++ xs,
      precedes z y → precedes y x → precedes z x)
    (hapart : (done ++ xs).Pairwise fun a b => precedes a b ∨ precedes b a)
    (h : done.Pairwise fun a b => precedes b a) :
    (arrangeOnto precedes done xs).Pairwise fun a b => precedes b a := by
  induction xs generalizing done with
  | nil => exact h
  | cons x xs ih =>
    have hperm : (insertBehind precedes x done ++ xs).Perm (done ++ x :: xs) :=
      ((perm_insertBehind precedes x done).append_right xs).trans List.perm_middle.symm
    have hmem : ∀ y ∈ done, y ∈ done ++ x :: xs := fun y hy => List.mem_append_left _ hy
    have hx : x ∈ done ++ x :: xs := by simp
    refine ih (fun a ha b hb c hc => ?_) ((hperm.pairwise_iff Or.symm).mpr hapart) ?_
    · exact htrans a (hperm.mem_iff.mp ha) b (hperm.mem_iff.mp hb) c (hperm.mem_iff.mp hc)
    · refine pairwise_insertBehind (fun y hy z hz => ?_) (fun y hy => ?_) h
      · exact htrans x hx y (hmem y hy) z (hmem z hz)
      · exact ((List.pairwise_append.mp hapart).2.2 y hy x List.mem_cons_self).symm

/-- Items of which one always has to precede the other come out in that order. -/
theorem pairwise_arrange
    (htrans : ∀ x ∈ xs, ∀ y ∈ xs, ∀ z ∈ xs, precedes z y → precedes y x → precedes z x)
    (hapart : xs.Pairwise fun a b => precedes a b ∨ precedes b a) :
    (arrange precedes xs).Pairwise fun a b => precedes a b := by
  rw [arrange, List.pairwise_reverse]
  exact pairwise_arrangeOnto htrans hapart .nil

/-- Items with keys of their own come out in the order of the keys. -/
theorem pairwise_arrange_key {key : β → String} (h : (xs.map key).Nodup) :
    (arrange (fun a b => decide (key a < key b)) xs).Pairwise fun a b => key a < key b := by
  have hapart : xs.Pairwise fun a b => key a < key b ∨ key b < key a := by
    refine (List.pairwise_map.mp h).imp fun {a b} hne => ?_
    by_cases hab : key a < key b
    · exact .inl hab
    · refine .inr (Classical.byContradiction fun hba => hne ?_)
      exact String.le_antisymm (String.not_lt.mp hba) (String.not_lt.mp hab)
  have hsorted := pairwise_arrange (fun x _ y _ z _ => by simpa using String.lt_trans)
    (hapart.imp (S := fun a b => decide (key a < key b) = true ∨ decide (key b < key a) = true)
      (by simp))
  exact hsorted.imp of_decide_eq_true

/-- However items with keys of their own are listed, they come out the same. -/
theorem arrange_key_congr {key : β → String} {ys : List β} (hx : (xs.map key).Nodup)
    (hy : (ys.map key).Nodup) (h : ∀ x, x ∈ xs ↔ x ∈ ys) :
    arrange (fun a b => decide (key a < key b)) xs =
      arrange (fun a b => decide (key a < key b)) ys := by
  have hnodup : ∀ {zs : List β}, (zs.map key).Nodup → zs.Nodup := fun hz =>
    (List.pairwise_map.mp hz).imp fun hne heq => hne (congrArg key heq)
  have hperm : xs.Perm ys := (List.perm_ext_iff_of_nodup (hnodup hx) (hnodup hy)).mpr h
  refine List.Perm.eq_of_pairwise (fun a b _ _ hab hba => ?_) (pairwise_arrange_key hx)
    (pairwise_arrange_key hy)
    ((perm_arrange _ xs).trans (hperm.trans (perm_arrange _ ys).symm))
  exact absurd (String.lt_trans hab hba) (String.lt_irrefl _)

end Order

def arrangeTexts (texts : List String) : List String := arrange (fun s t => decide (s < t)) texts

end Obsplan
