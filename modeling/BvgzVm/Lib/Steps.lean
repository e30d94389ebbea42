import Mathlib.Tactic

set_option autoImplicit false

/-! # Runs of a partial step function

A system is a function `step : A → S → Option S`, where `A` are the actions and `none` is a step
that the system cannot make. `run` makes a list of steps. What one step preserves a run preserves
(`run_invariant`), and a system that can answer each step of another one can answer its runs
(`Simulates.run`). `Along P` says that `P` holds of every step of a run, in the state before it;
two such conditions are the same along runs if they are the same for a step where an invariant
holds, and the steps that meet them keep it (`along_iff`).
-/

namespace Steps

variable {A S T : Type}

/-- The state after the actions `as`, if every one of them can be made. -/
def run (step : A → S → Option S) : List A → S → Option S
  | [], s => some s
  | a :: as, s => (step a s).bind (run step as)

theorem run_cons {step : A → S → Option S} {a : A} {as : List A} {s s' : S} :
    run step (a :: as) s = some s' ↔ ∃ m, step a s = some m ∧ run step as m = some s' :=
  Option.bind_eq_some_iff

/-- A run splits at every point. -/
theorem run_append {step : A → S → Option S} {as bs : List A} {s s' : S} :
    run step (as ++ bs) s = some s' ↔ ∃ m, run step as s = some m ∧ run step bs m = some s' := by
  induction as generalizing s with
  | nil => simp [run]
  | cons a as ih =>
      rw [List.cons_append, run_cons]
      constructor
      · rintro ⟨m, hm, hrun⟩
        obtain ⟨m', hm', hbs⟩ := ih.1 hrun
        exact ⟨m', run_cons.2 ⟨m, hm, hm'⟩, hbs⟩
      · rintro ⟨m', hm', hbs⟩
        obtain ⟨m, hm, hrun⟩ := run_cons.1 hm'
        exact ⟨m, hm, ih.2 ⟨m', hrun, hbs⟩⟩

/-- **The invariant rule.** -/
theorem run_invariant {step : A → S → Option S} {Inv : S → Prop}
    (hstep : ∀ a s s', Inv s → step a s = some s' → Inv s') {as : List A} {s s' : S}
    (hs : Inv s) (hrun : run step as s = some s') : Inv s' := by
  induction as generalizing s with
  | nil =>
      obtain rfl := Option.some.inj hrun
      exact hs
  | cons a as ih =>
      obtain ⟨m, hm, hrun⟩ := run_cons.1 hrun
      exact ih (hstep a s m hs hm) hrun

/-- `P` holds of every step of the run, with the state before it. -/
def Along (step : A → S → Option S) (P : A → S → Prop) : List A → S → Prop
  | [], _ => True
  | a :: as, s => P a s ∧ ∀ s', step a s = some s' → Along step P as s'

instance decidableAlong {step : A → S → Option S} {P : A → S → Prop}
    [∀ a s, Decidable (P a s)] : (as : List A) → (s : S) → Decidable (Along step P as s)
  | [], _ => isTrue trivial
  | a :: as, s =>
      have hrest : Decidable (∀ s', step a s = some s' → Along step P as s') :=
        match h : step a s with
        | none => isTrue fun s' hs' => by cases hs'
        | some s' =>
            match decidableAlong as s' with
            | isTrue hs' => isTrue fun s'' hs'' => by cases hs''; exact hs'
            | isFalse hs' => isFalse fun hall => hs' (hall s' rfl)
      inferInstanceAs (Decidable (_ ∧ _))

/-- **Two conditions along runs** agree, if they agree for a step where `Inv` holds and where they
hold the step keeps `Inv`. -/
theorem along_iff {step : A → S → Option S} {Inv : S → Prop} {P Q : A → S → Prop}
    (hiff : ∀ a s, Inv s → (P a s ↔ Q a s))
    (hstep : ∀ a s s', Inv s → P a s → step a s = some s' → Inv s') {as : List A} {s : S}
    (hs : Inv s) : Along step P as s ↔ Along step Q as s := by
  induction as generalizing s with
  | nil => exact Iff.rfl
  | cons a as ih =>
      constructor
      · intro h
        refine ⟨(hiff a s hs).1 h.1, ?_⟩
        intro m hm
        exact (ih (hstep a s m hs h.1 hm)).1 (h.2 m hm)
      · intro h
        have hP : P a s := (hiff a s hs).2 h.1
        refine ⟨hP, ?_⟩
        intro m hm
        exact (ih (hstep a s m hs hP hm)).2 (h.2 m hm)

/-- `impl` answers every step of `spec` from related states, and the states stay related. The
relation may count down the steps still to be made, as a bound on a resource needs it. -/
def Simulates (R : Nat → S → T → Prop) (impl : A → S → Option S) (spec : A → T → Option T) :
    Prop :=
  ∀ n a s t t', R (n + 1) s t → spec a t = some t' → ∃ s', impl a s = some s' ∧ R n s' t'

/-- **The simulation rule.** -/
theorem Simulates.run {R : Nat → S → T → Prop} {impl : A → S → Option S}
    {spec : A → T → Option T} (hsim : Simulates R impl spec) {as : List A} {n : Nat} {s : S}
    {t t' : T} (hR : R (as.length + n) s t) (hrun : Steps.run spec as t = some t') :
    ∃ s', Steps.run impl as s = some s' ∧ R n s' t' := by
  induction as generalizing s t with
  | nil =>
      obtain rfl := Option.some.inj hrun
      rw [List.length_nil, Nat.zero_add] at hR
      exact ⟨s, rfl, hR⟩
  | cons a as ih =>
      rw [List.length_cons, Nat.add_right_comm] at hR
      obtain ⟨m, hm, hrun⟩ := run_cons.1 hrun
      obtain ⟨sm, hsm, hRm⟩ := hsim _ a s t m hR hm
      obtain ⟨s', hs', hR'⟩ := ih hRm hrun
      exact ⟨s', run_cons.2 ⟨sm, hsm, hs'⟩, hR'⟩

end Steps
