/-!
# Edits

An edit changes a state step by step and may fail on the way. Nothing puts back what was changed
before a failure, so an edit that leaves the state alone when it fails does so by the order of its
steps.
-/

namespace Obsplan

/-- A part of a program that changes a state and may fail. What was changed before a failure
stays. -/
abbrev Edit (σ ε : Type) := ExceptT ε (StateM σ)

namespace Edit

variable {σ τ ε β γ : Type}

/-- What an edit gives in a state, and the state afterwards. -/
def on (x : Edit σ ε β) (s : σ) : Except ε β × σ := x.run.run s

/-- The state after an edit, or why the edit failed. -/
def made (x : Edit σ ε PUnit) (s : σ) : Except ε σ :=
  match on x s with
  | (.ok _, s) => .ok s
  | (.error e, _) => .error e

/-- The state after an edit, and why the edit failed. -/
def after (x : Edit σ ε PUnit) (s : σ) : σ × Option ε :=
  match on x s with
  | (.ok _, s) => (s, none)
  | (.error e, s) => (s, some e)

/-- An edit of a part of a state. -/
def within (get : τ → σ) (set : σ → τ → τ) (x : Edit σ ε β) : Edit τ ε β := do
  let (result, s) := on x (get (← MonadState.get))
  modify (set s)
  ofExcept result

@[simp] theorem on_pure (b : β) (s : σ) : on (pure b : Edit σ ε β) s = (.ok b, s) := rfl

@[simp] theorem on_throw (e : ε) (s : σ) : on (throw e : Edit σ ε β) s = (.error e, s) := rfl

@[simp] theorem on_get (s : σ) : on (get : Edit σ ε σ) s = (.ok s, s) := rfl

@[simp] theorem on_modify (f : σ → σ) (s : σ) :
    on (modify f : Edit σ ε PUnit) s = (.ok ⟨⟩, f s) := rfl

@[simp] theorem on_ofExcept (r : Except ε β) (s : σ) :
    on (ofExcept r : Edit σ ε β) s = (r, s) := by
  cases r <;> rfl

theorem on_bind (x : Edit σ ε β) (f : β → Edit σ ε γ) (s : σ) :
    on (x >>= f) s =
      match on x s with
      | (.ok b, s') => on (f b) s'
      | (.error e, s') => (.error e, s') := by
  rcases hx : on x s with ⟨r, s'⟩
  have hx : (StateT.run (ExceptT.run x) s : Id _) = (r, s') := hx
  simp only [on, ExceptT.run_bind, StateT.run_bind, hx]
  cases r <;> rfl

theorem on_tryCatch (x : Edit σ ε β) (f : ε → Edit σ ε β) (s : σ) :
    on (tryCatch x f) s =
      match on x s with
      | (.ok b, s') => (.ok b, s')
      | (.error e, s') => on (f e) s' := by
  rcases hx : on x s with ⟨r, s'⟩
  have hx : (StateT.run x s : Id _) = (r, s') := hx
  simp only [on, tryCatch, tryCatchThe, MonadExceptOf.tryCatch, ExceptT.tryCatch, ExceptT.run_mk,
    StateT.run_bind, hx]
  cases r <;> rfl

theorem on_bind_ok {x : Edit σ ε β} {f : β → Edit σ ε γ} {s s' : σ} {b : β}
    (h : on x s = (.ok b, s')) : on (x >>= f) s = on (f b) s' := by
  rw [on_bind, h]

theorem on_bind_error {x : Edit σ ε β} {f : β → Edit σ ε γ} {s s' : σ} {e : ε}
    (h : on x s = (.error e, s')) : on (x >>= f) s = (.error e, s') := by
  rw [on_bind, h]

theorem exists_of_on_bind {x : Edit σ ε β} {f : β → Edit σ ε γ} {s s' : σ}
    {c : γ} (h : on (x >>= f) s = (.ok c, s')) :
    ∃ b s₁, on x s = (.ok b, s₁) ∧ on (f b) s₁ = (.ok c, s') := by
  rw [on_bind] at h
  split at h
  · rename_i b s₁ hx
    exact ⟨b, s₁, hx, h⟩
  · cases h

theorem on_within (get : τ → σ) (set : σ → τ → τ) (x : Edit σ ε β) (s : τ) :
    on (within get set x) s = ((on x (get s)).1, set (on x (get s)).2 s) := by
  simp [within, on_bind]

end Edit

end Obsplan
