import Obsplan.Edit

/-!
# Atomic edits

An edit that first looks at the state, and fails only then, changes nothing when it fails. What it
does afterwards may be any number of changes that cannot fail.
-/

namespace Obsplan.Edit

variable {σ τ ε β γ : Type} {x : Edit σ ε β} {f : β → Edit σ ε γ}

/-- An edit that changes nothing. -/
def Reads (x : Edit σ ε β) : Prop := ∀ s, (on x s).2 = s

/-- An edit that cannot fail. -/
def Sure (x : Edit σ ε β) : Prop := ∀ s, ∃ b, (on x s).1 = .ok b

/-- An edit that changes nothing when it fails. -/
def Atomic (x : Edit σ ε β) : Prop := ∀ s e, (on x s).1 = .error e → (on x s).2 = s

namespace Reads

theorem pure (b : β) : Reads (Pure.pure b : Edit σ ε β) := fun _ => rfl

theorem throw (e : ε) : Reads (throw e : Edit σ ε β) := fun _ => rfl

theorem get : Reads (get : Edit σ ε σ) := fun _ => rfl

theorem ofExcept (r : Except ε β) : Reads (ofExcept r : Edit σ ε β) := fun s => by
  rw [on_ofExcept]

theorem bind (hx : Reads x) (hf : ∀ b, Reads (f b)) : Reads (x >>= f) := by
  intro s
  have hs := hx s
  rw [on_bind]
  generalize on x s = run at hs
  obtain ⟨e | b, s'⟩ := run
  · exact hs
  · exact (hf b s').trans hs

end Reads

namespace Sure

theorem pure (b : β) : Sure (Pure.pure b : Edit σ ε β) := fun _ => ⟨b, rfl⟩

theorem modify (change : σ → σ) : Sure (modify change : Edit σ ε PUnit) := fun _ => ⟨⟨⟩, rfl⟩

theorem bind (hx : Sure x) (hf : ∀ b, Sure (f b)) : Sure (x >>= f) := by
  intro s
  obtain ⟨b, hb⟩ := hx s
  rw [on_bind]
  generalize on x s = run at hb
  obtain ⟨r, s'⟩ := run
  subst hb
  exact hf b s'

end Sure

namespace Atomic

theorem of_reads (h : Reads x) : Atomic x := fun s _ _ => h s

theorem of_sure (h : Sure x) : Atomic x := by
  intro s e he
  obtain ⟨b, hb⟩ := h s
  cases hb.symm.trans he

/-- What only looks may come first. -/
theorem bind (hx : Reads x) (hf : ∀ b, Atomic (f b)) : Atomic (x >>= f) := by
  intro s e
  have hs := hx s
  rw [on_bind]
  generalize on x s = run at hs
  obtain ⟨e | b, s'⟩ := run
  · exact fun _ => hs
  · obtain rfl : s' = s := hs
    exact hf b s' e

/-- What cannot fail may come last. -/
theorem bind_sure (hx : Atomic x) (hf : ∀ b, Sure (f b)) : Atomic (x >>= f) := by
  intro s e he
  have hs := hx s
  rw [on_bind] at he ⊢
  generalize on x s = run at hs he ⊢
  obtain ⟨e' | b, s'⟩ := run
  · exact hs e' rfl
  · obtain ⟨c, hc⟩ := hf b s'
    cases hc.symm.trans he

variable {x : Edit σ ε PUnit} {s : σ}

theorem on_of_made {e : ε} (hx : Atomic x) (h : made x s = .error e) :
    on x s = (.error e, s) := by
  have hs := hx s
  unfold made at h
  generalize on x s = run at hs h ⊢
  obtain ⟨e' | b, s'⟩ := run
  · cases h
    obtain rfl : s' = s := hs e rfl
    rfl
  · cases h

theorem after_of_made {e : ε} (hx : Atomic x) (h : made x s = .error e) :
    after x s = (s, some e) := by
  rw [after, hx.on_of_made h]

theorem after_of_isSome (hx : Atomic x) (h : (after x s).2.isSome = true) :
    (after x s).1 = s := by
  cases hmade : made x s with
  | error e => rw [hx.after_of_made hmade]
  | ok t =>
    unfold made at hmade
    unfold after at h
    generalize on x s = run at h hmade
    obtain ⟨e | b, s'⟩ := run
    · cases hmade
    · cases h

end Atomic

theorem made_eq_ok {x : Edit σ ε PUnit} {s : σ} {u : PUnit} (h : (on x s).1 = .ok u) :
    made x s = .ok (on x s).2 := by
  unfold made
  generalize on x s = run at h ⊢
  obtain ⟨r, s'⟩ := run
  subst h
  rfl

theorem on_of_made {x : Edit σ ε PUnit} {s t : σ} (h : made x s = .ok t) :
    on x s = (.ok ⟨⟩, t) := by
  unfold made at h
  generalize on x s = run at h ⊢
  obtain ⟨e | b, s'⟩ := run
  · cases h
  · cases h
    rfl

theorem after_of_made {x : Edit σ ε PUnit} {s t : σ} (h : made x s = .ok t) :
    after x s = (t, none) := by
  rw [after, on_of_made h]

end Obsplan.Edit
