import Mathlib.Tactic

set_option autoImplicit false

/-! # Simulations with hidden steps

A deterministic system shows something at each step and goes on or comes to its end (`Turn`). It
is simulated by a second system if each of its steps is answered, or is hidden and takes a measure
down (`Simulation`). Then the two show the same: what the first one shows in any number of steps
the second one shows too (`Simulation.forward`), and conversely (`Simulation.backward`), where the
measure keeps the first system from hiding for ever.
-/

namespace Stutter

variable {S T O P : Type}

/-- What a step shows, and the state after it, unless the system has come to its end. -/
structure Turn (O S : Type) where
  shown : List O
  next : Option S

/-- What the system shows in `n` steps. -/
def trace (step : S → Turn O S) : ℕ → S → List O
  | 0, _ => []
  | n + 1, s =>
      (step s).shown ++ match (step s).next with
        | none => []
        | some s' => trace step n s'

/-- The states that the system comes to. -/
inductive Visits (step : S → Turn O S) : S → S → Prop
  | refl (s : S) : Visits step s s
  | step {s s' s'' : S} (h : (step s).next = some s') (rest : Visits step s' s'') :
      Visits step s s''

/-- The states the system comes to in `n` steps. -/
def path (step : S → Turn O S) : ℕ → S → List S
  | 0, _ => []
  | n + 1, s =>
      s :: match (step s).next with
        | none => []
        | some s' => path step n s'

/-- The system comes to its end within `n` steps. -/
def ends (step : S → Turn O S) : ℕ → S → Bool
  | 0, _ => false
  | n + 1, s =>
      match (step s).next with
      | none => true
      | some s' => ends step n s'

/-- Two steps show the same and end in related states, or both are the last one. -/
structure Answers (visible : O → Bool) (Same : O → P → Prop) (R : S → T → Prop) (a : Turn O S)
    (b : Turn P T) : Prop where
  shown : List.Forall₂ Same (a.shown.filter visible) b.shown
  next : (a.next = none ∧ b.next = none) ∨
    ∃ s t, a.next = some s ∧ b.next = some t ∧ R s t

/-- A step that shows nothing, after which the measure is smaller. -/
def Hides (step : S → Turn O S) (visible : O → Bool) (R : S → T → Prop) (measure : S → ℕ) (s : S)
    (t : T) : Prop :=
  (step s).shown.filter visible = [] ∧
    ∃ s', (step s).next = some s' ∧ R s' t ∧ measure s' < measure s

/-- The steps of related states are hidden or answered. -/
def Simulation (step : S → Turn O S) (step' : T → Turn P T) (visible : O → Bool)
    (Same : O → P → Prop) (R : S → T → Prop) (measure : S → ℕ) : Prop :=
  ∀ s t, R s t → Hides step visible R measure s t ∨ Answers visible Same R (step s) (step' t)

section Traces

variable {step : S → Turn O S} {step' : T → Turn P T} {visible : O → Bool} {Same : O → P → Prop}
  {R : S → T → Prop} {measure : S → ℕ}

theorem trace_of_end {s : S} (h : (step s).next = none) (n : ℕ) :
    trace step (n + 1) s = (step s).shown := by
  rw [trace, h, List.append_nil]

theorem trace_of_next {s s' : S} (h : (step s).next = some s') (n : ℕ) :
    trace step (n + 1) s = (step s).shown ++ trace step n s' := by
  rw [trace, h]

/-- The states of a run that ends are those on its path. -/
theorem Visits.mem_path {n : ℕ} {s u : S} (h : Visits step s u) (hends : ends step n s = true) :
    u ∈ path step n s := by
  induction n generalizing s with
  | zero => cases hends
  | succ n ih =>
      rw [path]
      rw [ends] at hends
      cases h with
      | refl => exact List.mem_cons_self
      | step hnext rest =>
          rw [hnext] at hends ⊢
          exact List.mem_cons_of_mem _ (ih rest hends)

/-- A hidden step does not change what is shown afterwards. -/
theorem filter_trace_of_hides {s : S} {t : T} (h : Hides step visible R measure s t) :
    ∃ s', R s' t ∧ measure s' < measure s ∧
      ∀ n, (trace step (n + 1) s).filter visible = (trace step n s').filter visible := by
  rcases h with ⟨hshown, s', hnext, hR, hmeasure⟩
  refine ⟨s', hR, hmeasure, fun n => ?_⟩
  rw [trace_of_next hnext, List.filter_append, hshown, List.nil_append]

/-- An answered step comes first on both sides, if the rest is known. -/
theorem Answers.traces {s : S} {t : T} (h : Answers visible Same R (step s) (step' t)) {n m : ℕ}
    (hrest : ∀ s' t', (step s).next = some s' → (step' t).next = some t' →
      List.Forall₂ Same ((trace step n s').filter visible) (trace step' m t')) :
    List.Forall₂ Same ((trace step (n + 1) s).filter visible) (trace step' (m + 1) t) := by
  rcases h.next with ⟨hend, hend'⟩ | ⟨s', t', hnext, hnext', -⟩
  · rw [trace_of_end hend, trace_of_end hend']
    exact h.shown
  · rw [trace_of_next hnext, trace_of_next hnext', List.filter_append]
    exact List.rel_append h.shown (hrest s' t' hnext hnext')

/-- A simulation of the runs in which every state is plain. -/
theorem simulation_visits {Plain : S → Prop}
    (h : ∀ s t, R s t → Plain s →
      Hides step visible R measure s t ∨ Answers visible Same R (step s) (step' t)) :
    Simulation step step' visible Same (fun s t => R s t ∧ ∀ u, Visits step s u → Plain u)
      measure := by
  rintro s t ⟨hR, hplain⟩
  have hlater {s' : S} (hnext : (step s).next = some s') : ∀ u, Visits step s' u → Plain u :=
    fun u hu => hplain u (.step hnext hu)
  rcases h s t hR (hplain s (.refl s)) with hhides | hanswers
  · rcases hhides with ⟨hshown, s', hnext, hR', hmeasure⟩
    exact Or.inl ⟨hshown, s', hnext, ⟨hR', hlater hnext⟩, hmeasure⟩
  · refine Or.inr ⟨hanswers.shown, ?_⟩
    rcases hanswers.next with hend | ⟨s', t', hnext, hnext', hR'⟩
    · exact Or.inl hend
    · exact Or.inr ⟨s', t', hnext, hnext', hR', hlater hnext⟩

/-- **What the first system shows**, the second one shows. -/
theorem Simulation.forward (hsim : Simulation step step' visible Same R measure) (n : ℕ) {s : S}
    {t : T} (hR : R s t) :
    ∃ m, List.Forall₂ Same ((trace step n s).filter visible) (trace step' m t) := by
  induction n generalizing s t with
  | zero => exact ⟨0, .nil⟩
  | succ n ih =>
      rcases hsim s t hR with hhides | hanswers
      · rcases filter_trace_of_hides hhides with ⟨s', hR', -, htrace⟩
        rw [htrace]
        exact ih hR'
      · rcases hanswers.next with ⟨hend, -⟩ | ⟨s', t', hnext, hnext', hR'⟩
        · refine ⟨0 + 1, hanswers.traces ?_⟩
          intro s' t' hnext _
          rw [hend] at hnext
          cases hnext
        · rcases ih hR' with ⟨m, hm⟩
          refine ⟨m + 1, hanswers.traces ?_⟩
          intro s'' t'' hs ht
          rw [hnext] at hs
          rw [hnext'] at ht
          cases hs
          cases ht
          exact hm

/-- **What the second system shows**, the first one shows. The outer induction is on the steps of
the second one, the inner one on the measure. -/
theorem Simulation.backward (hsim : Simulation step step' visible Same R measure) (m : ℕ) {s : S}
    {t : T} (hR : R s t) :
    ∃ n, List.Forall₂ Same ((trace step n s).filter visible) (trace step' m t) := by
  induction m generalizing s t with
  | zero => exact ⟨0, .nil⟩
  | succ m ih =>
      induction hk : measure s using Nat.strong_induction_on generalizing s with
      | h k ihk =>
          rcases hsim s t hR with hhides | hanswers
          · rcases filter_trace_of_hides hhides with ⟨s', hR', hlt, htrace⟩
            rcases ihk (measure s') (hk ▸ hlt) hR' rfl with ⟨n, hn⟩
            refine ⟨n + 1, ?_⟩
            rw [htrace]
            exact hn
          · rcases hanswers.next with ⟨hend, -⟩ | ⟨s', t', hnext, hnext', hR'⟩
            · refine ⟨0 + 1, hanswers.traces ?_⟩
              intro s' t' hnext _
              rw [hend] at hnext
              cases hnext
            · rcases ih hR' with ⟨n, hn⟩
              refine ⟨n + 1, hanswers.traces ?_⟩
              intro s'' t'' hs ht
              rw [hnext] at hs
              rw [hnext'] at ht
              cases hs
              cases ht
              exact hn

end Traces

end Stutter
