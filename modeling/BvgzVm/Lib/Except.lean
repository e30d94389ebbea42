set_option autoImplicit false

/-! # Sequencing computations that may fail

How a bind in `Except` can end: it succeeds when both parts do, and it fails where the first
failing part does. Two computations that end alike (`Alike`) do so when they are sequenced with
others that do. -/

namespace Fallible

variable {ε α β : Type}

@[simp] theorem ok_bind (a : α) (f : α → Except ε β) : (Except.ok a >>= f) = f a := rfl

@[simp] theorem error_bind (e : ε) (f : α → Except ε β) :
    ((Except.error e : Except ε α) >>= f) = .error e := rfl

theorem bind_eq_ok {x : Except ε α} {f : α → Except ε β} {b : β} :
    (x >>= f) = .ok b ↔ ∃ a, x = .ok a ∧ f a = .ok b := by
  cases x with
  | error e => simp
  | ok a => simp

theorem bind_eq_error {x : Except ε α} {f : α → Except ε β} {e : ε} :
    (x >>= f) = .error e ↔ x = .error e ∨ ∃ a, x = .ok a ∧ f a = .error e := by
  cases x with
  | error e' => simp
  | ok a => simp

theorem toOption_eq_some {x : Except ε α} {a : α} : x.toOption = some a ↔ x = .ok a := by
  cases x with
  | error e => simp [Except.toOption]
  | ok b => simp [Except.toOption]

/-- The computation does not fail with an error in `bad`. -/
def Avoids (bad : ε → Prop) (x : Except ε α) : Prop := ∀ e, bad e → x ≠ .error e

theorem avoids_ok {bad : ε → Prop} (a : α) : Avoids bad (Except.ok a : Except ε α) := by
  intro e _ h
  cases h

theorem avoids_error {bad : ε → Prop} {e : ε} :
    Avoids bad (Except.error e : Except ε α) ↔ ¬ bad e := by
  constructor
  · intro h hb
    exact h e hb rfl
  · intro hb e' he' heq
    obtain rfl := Except.error.inj heq
    exact hb he'

/-- **A bind avoids errors** when both of its parts do. -/
theorem avoids_bind {bad : ε → Prop} {x : Except ε α} {f : α → Except ε β} :
    Avoids bad (x >>= f) ↔ Avoids bad x ∧ ∀ a, x = .ok a → Avoids bad (f a) := by
  cases x with
  | error e =>
      rw [error_bind, avoids_error, avoids_error]
      exact ⟨fun h => ⟨h, fun a ha => by cases ha⟩, And.left⟩
  | ok a =>
      rw [ok_bind]
      refine ⟨fun h => ⟨avoids_ok a, fun a' ha => ?_⟩, fun h => h.2 a rfl⟩
      obtain rfl := Except.ok.inj ha
      exact h

/-! ## Two computations -/

section Alike

variable {ε' α' β' : Type} {R : α → α' → Prop} {S : β → β' → Prop}

/-- Both computations fail, or both succeed with related results. -/
inductive Alike (R : α → α' → Prop) : Except ε α → Except ε' α' → Prop
  | error (e : ε) (e' : ε') : Alike R (.error e) (.error e')
  | ok {a : α} {a' : α'} (h : R a a') : Alike R (.ok a) (.ok a')

/-- **Binds end alike** when both of their parts do. -/
theorem Alike.bind {x : Except ε α} {x' : Except ε' α'} {f : α → Except ε β}
    {f' : α' → Except ε' β'} (h : Alike R x x')
    (hf : ∀ a a', x = .ok a → x' = .ok a' → R a a' → Alike S (f a) (f' a')) :
    Alike S (x >>= f) (x' >>= f') := by
  cases h with
  | error e e' => exact .error e e'
  | ok h => exact hf _ _ rfl rfl h

theorem Alike.mono {R' : α → α' → Prop} {x : Except ε α} {x' : Except ε' α'} (h : Alike R x x')
    (himp : ∀ a a', R a a' → R' a a') : Alike R' x x' := by
  cases h with
  | error e e' => exact .error e e'
  | ok h => exact .ok (himp _ _ h)

/-- A computation and the same one with its results changed. -/
theorem alike_map {R : α → β → Prop} (x : Except ε α) {f : α → β}
    (h : ∀ a, x = .ok a → R a (f a)) : Alike R x (x.map f) := by
  cases x with
  | error e => exact .error e e
  | ok a => exact .ok (h a rfl)

/-- A computation and itself. -/
theorem alike_self {R : α → α → Prop} (x : Except ε α) (h : ∀ a, x = .ok a → R a a) :
    Alike R x x := by
  cases x with
  | error e => exact .error e e
  | ok a => exact .ok (h a rfl)

end Alike

end Fallible
