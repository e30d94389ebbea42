import BvgzVm.Debug.Exec

set_option autoImplicit false

/-! # The debugger against the interpreter

Both loops fetch and execute in the same way, so a step of `step_program` is a round of
`execute_vm` after some rounds without an instruction (`stepProgram_spec`), and `run` executes
what `execute_vm` executes until it comes to a breakpoint (`dbgRunLoop_prefix`,
`dbgRunLoop_meets`). There the instruction has been decoded but not executed, and the next
command goes on behind it. A session is transparent as long as it does not go on
(`debugger_transparent`).
-/

namespace BvgzVm

open Fallible

variable {σ : Type}

/-! ## One step -/

/-- `vm'` is `vm` after rounds without an instruction. -/
inductive Idles (defs : List (InstnDef Op)) (host : Host σ) : Vm σ → Vm σ → Prop
  | refl (vm : Vm σ) : Idles defs host vm vm
  | step {vm vm1 vm' : Vm σ} (h : executeRound defs host vm = .ok (.again vm1))
      (rest : Idles defs host vm1 vm') : Idles defs host vm vm'

theorem Idles.trace {defs : List (InstnDef Op)} {host : Host σ} {vm vm' : Vm σ}
    (h : Idles defs host vm vm') :
    ∃ k, ∀ n, executeTrace defs host (n + k) vm = executeTrace defs host n vm' := by
  induction h with
  | refl vm => exact ⟨0, fun n => rfl⟩
  | step hround rest ih =>
      obtain ⟨k, hk⟩ := ih
      refine ⟨k + 1, fun n => ?_⟩
      rw [← hk n, ← Nat.add_assoc, executeTrace, hround]

/-- `execute_vm` comes to an instruction that one of the breakpoints matches. -/
inductive MeetsBreakpoint (defs : List (InstnDef Op)) (host : Host σ)
    (bps : List (UInt32 × BreakPoint)) : Vm σ → Prop
  | here {vm vm' : Vm σ} {instn : Instn} {brk : UInt32 × BreakPoint}
      (hfetch : fetchInstn defs host vm = .ok (.decoded instn vm'))
      (hbrk : hasHitBreakpoint defs vm' instn bps = .ok (some brk)) :
      MeetsBreakpoint defs host bps vm
  | again {vm vm' : Vm σ} (hround : executeRound defs host vm = .ok (.again vm'))
      (rest : MeetsBreakpoint defs host bps vm') : MeetsBreakpoint defs host bps vm
  | ran {vm vm' : Vm σ} {instn : Instn}
      (hround : executeRound defs host vm = .ok (.ran instn vm'))
      (rest : MeetsBreakpoint defs host bps vm') : MeetsBreakpoint defs host bps vm

theorem Idles.meets {defs : List (InstnDef Op)} {host : Host σ}
    {bps : List (UInt32 × BreakPoint)} {vm vm' : Vm σ} (h : Idles defs host vm vm')
    (hm : MeetsBreakpoint defs host bps vm') : MeetsBreakpoint defs host bps vm := by
  induction h with
  | refl vm => exact hm
  | step hround rest ih => exact .again hround (ih hm)

/-- What a step of the debugger is for the interpreter. -/
def StepSpec (defs : List (InstnDef Op)) (host : Host σ) (bps : List (UInt32 × BreakPoint))
    (vm : Vm σ) : StepResult σ → Prop
  | .stopped none vm' => executeRound defs host vm = .ok (.stop vm')
  | .stopped (some instn) vm' => executeRound defs host vm = .ok (.fail instn vm')
  | .ran instn vm' => executeRound defs host vm = .ok (.ran instn vm')
  | .hit _ _ => MeetsBreakpoint defs host bps vm

/-- **A step of the debugger** is a round of the interpreter, after rounds without an
instruction, or it has come to a breakpoint. -/
theorem stepProgram_spec {defs : List (InstnDef Op)} {host : Host σ} {check : Bool}
    {bps : List (UInt32 × BreakPoint)} {fuel : Nat} {vm : Vm σ} {r : StepResult σ}
    (h : stepProgram defs host check bps fuel vm = .ok (some r)) :
    ∃ vm1, Idles defs host vm vm1 ∧ StepSpec defs host bps vm1 r := by
  induction fuel generalizing vm with
  | zero => cases h
  | succ fuel ih =>
      rw [stepProgram] at h
      obtain ⟨fetch, hfetch, h⟩ := bind_eq_ok.1 h
      cases fetch with
      | stop vm' =>
          obtain rfl := Option.some.inj (Except.ok.inj h)
          refine ⟨vm, .refl vm, ?_⟩
          rw [StepSpec, executeRound, hfetch, ok_bind]
      | again vm' =>
          obtain ⟨vm1, hidle, hspec⟩ := ih h
          refine ⟨vm1, .step ?_ hidle, hspec⟩
          rw [executeRound, hfetch, ok_bind]
      | decoded instn vm' =>
          refine ⟨vm, .refl vm, ?_⟩
          have hexec : ∀ r', (vmExecInstn defs host instn vm' >>= fun p =>
              if p.1 < 0 then .ok (some (.stopped (some instn) p.2))
              else countInstn host p.2 >>= fun vm => .ok (some (.ran instn vm))) = .ok (some r') →
              StepSpec defs host bps vm r' := by
            intro r' hr'
            obtain ⟨⟨ret, vm2⟩, hret, hr'⟩ := bind_eq_ok.1 hr'
            by_cases hneg : ret < 0
            · simp only [if_pos hneg] at hr'
              obtain rfl := Option.some.inj (Except.ok.inj hr')
              simp only [StepSpec, executeRound, hfetch, ok_bind, hret, if_pos hneg]
            · simp only [if_neg hneg] at hr'
              obtain ⟨vm3, hcount, hr'⟩ := bind_eq_ok.1 hr'
              obtain rfl := Option.some.inj (Except.ok.inj hr')
              simp only [StepSpec, executeRound, hfetch, ok_bind, hret, if_neg hneg, hcount]
          cases check with
          | false => exact hexec r h
          | true =>
              obtain ⟨brk, hbrk, h⟩ := bind_eq_ok.1 h
              cases brk with
              | none => exact hexec r h
              | some brk =>
                  obtain rfl := Option.some.inj (Except.ok.inj h)
                  exact .here hfetch hbrk

/-! ## One command -/

/-- **What `run` executes** is what `execute_vm` executes. -/
theorem dbgRunLoop_prefix (defs : List (InstnDef Op)) (host : Host σ) (fuel n : Nat)
    (st : DbgState σ) :
    ∃ k, (dbgRunLoop defs host fuel n st).trace <+: executeTrace defs host k st.vm := by
  induction n generalizing st with
  | zero => exact ⟨0, List.nil_prefix⟩
  | succ n ih =>
      rw [dbgRunLoop]
      cases hstep : stepProgram defs host true st.breakpoints fuel st.vm with
      | error u => exact ⟨0, List.nil_prefix⟩
      | ok r =>
          cases r with
          | none => exact ⟨0, List.nil_prefix⟩
          | some r =>
              obtain ⟨vm1, hidle, hspec⟩ := stepProgram_spec hstep
              obtain ⟨k, hk⟩ := hidle.trace
              cases r with
              | hit instn vm' => exact ⟨0, List.nil_prefix⟩
              | stopped last vm' =>
                  cases last with
                  | none => exact ⟨0, List.nil_prefix⟩
                  | some instn =>
                      refine ⟨1 + k, ?_⟩
                      rw [hk 1, executeTrace, (hspec : executeRound defs host vm1 = _)]
                      exact List.prefix_refl _
              | ran instn vm' =>
                  obtain ⟨k', hk'⟩ := ih { st with vm := vm' }
                  refine ⟨k' + 1 + k, ?_⟩
                  rw [hk (k' + 1), executeTrace, (hspec : executeRound defs host vm1 = _)]
                  exact (List.prefix_cons_inj (instn, vm')).2 hk'

/-- `run` only stops at a breakpoint that `execute_vm` comes to. -/
theorem dbgRunLoop_meets {defs : List (InstnDef Op)} {host : Host σ} {fuel n : Nat}
    {st : DbgState σ} (h : (dbgRunLoop defs host fuel n st).finish = .atBreakpoint) :
    MeetsBreakpoint defs host st.breakpoints st.vm := by
  induction n generalizing st with
  | zero => cases h
  | succ n ih =>
      rw [dbgRunLoop] at h
      cases hstep : stepProgram defs host true st.breakpoints fuel st.vm with
      | error u =>
          rw [hstep] at h
          cases h
      | ok r =>
          rw [hstep] at h
          cases r with
          | none => cases h
          | some r =>
              obtain ⟨vm1, hidle, hspec⟩ := stepProgram_spec hstep
              cases r with
              | hit instn vm' => exact hidle.meets hspec
              | stopped last vm' => cases h
              | ran instn vm' =>
                  have hrest : MeetsBreakpoint defs host st.breakpoints vm' := ih h
                  exact hidle.meets (.ran hspec hrest)

/-- `run` never comes back with the machine still going. -/
theorem dbgRunLoop_ne_done (defs : List (InstnDef Op)) (host : Host σ) (fuel n : Nat)
    (st : DbgState σ) : (dbgRunLoop defs host fuel n st).finish ≠ .done := by
  induction n generalizing st with
  | zero =>
      intro h
      cases h
  | succ n ih =>
      rw [dbgRunLoop]
      split
      · intro h
        cases h
      · intro h
        cases h
      · intro h
        cases h
      · intro h
        cases h
      · exact ih _

/-! ## Sessions -/

/-- The commands that make the machine go on. -/
def Command.resumes : Command → Prop
  | .run | .n => True
  | .brk _ | .brkd _ => False

/-- The session does not go on after a `run` that comes to a breakpoint. Before the first `run`
the program is not running and `n` does nothing. -/
def NeverResumes (defs : List (InstnDef Op)) (host : Host σ) : List Command → DbgState σ → Prop
  | [], _ => True
  | .brk arg :: cs, st => NeverResumes defs host cs (dbgBreak arg st)
  | .brkd brkId :: cs, st => NeverResumes defs host cs (dbgBreakDelete brkId st)
  | .n :: cs, st => NeverResumes defs host cs st
  | .run :: cs, st => MeetsBreakpoint defs host st.breakpoints st.vm → ∀ c ∈ cs, ¬ c.resumes

/-- Setting and deleting breakpoints executes nothing. -/
theorem session_of_not_resumes (defs : List (InstnDef Op)) (host : Host σ) (fuel : Nat)
    {cs : List Command} {st : DbgState σ} (h : ∀ c ∈ cs, ¬ c.resumes) :
    session defs host fuel cs st = [] := by
  induction cs generalizing st with
  | nil => rfl
  | cons c cs ih =>
      have hrest : ∀ c ∈ cs, ¬ c.resumes := fun c' hc' => h c' (List.mem_cons_of_mem c hc')
      cases c with
      | run => exact absurd trivial (h .run (by simp))
      | n => exact absurd trivial (h .n (by simp))
      | brk arg => exact ih hrest
      | brkd brkId => exact ih hrest

/-- **Transparency of the debugger.** In every session that does not go on after a breakpoint,
with any event sources and any breakpoints, the instructions that are executed and the machines
they leave are those of `execute_vm` on the same machine. -/
theorem debugger_transparent {defs : List (InstnDef Op)} {host : Host σ} {cs : List Command}
    {st : DbgState σ} (fuel : Nat) (hidle : st.running = false)
    (hnever : NeverResumes defs host cs st) :
    ∃ n, session defs host fuel cs st <+: executeTrace defs host n st.vm := by
  induction cs generalizing st with
  | nil => exact ⟨0, List.nil_prefix⟩
  | cons c cs ih =>
      cases c with
      | brk arg =>
          have hvm : (dbgBreak arg st).vm = st.vm := by cases arg <;> rfl
          have hrun : (dbgBreak arg st).running = false := by cases arg <;> exact hidle
          obtain ⟨n, hn⟩ := ih hrun hnever
          rw [hvm] at hn
          exact ⟨n, hn⟩
      | brkd brkId =>
          have hrun : (dbgBreakDelete brkId st).running = false := hidle
          obtain ⟨n, hn⟩ := ih hrun hnever
          exact ⟨n, hn⟩
      | n =>
          obtain ⟨n, hn⟩ := ih hidle hnever
          refine ⟨n, ?_⟩
          have hstep : runCommand defs host fuel st .n = ⟨[], .done, st⟩ := by
            rw [runCommand, dbgStep, hidle, if_neg Bool.false_ne_true]
          rw [session, hstep]
          exact hn
      | run =>
          obtain ⟨n, hn⟩ := dbgRunLoop_prefix defs host fuel fuel { st with running := true }
          refine ⟨n, ?_⟩
          rw [session, runCommand, dbgRun]
          split
          · next hdone =>
              exact absurd hdone (dbgRunLoop_ne_done defs host fuel fuel _)
          · next hbreak =>
              have hmeets := dbgRunLoop_meets hbreak
              rw [session_of_not_resumes defs host fuel (hnever hmeets), List.append_nil]
              exact hn
          · exact hn
          · exact hn

/-- A machine with two `nop`s and a `ret`. -/
def nopVm : Vm Unit where
  code := ⟨[0, 1, 0, 1, 0x48, 1], by decide⟩
  memory := .empty
  exceptions := 0
  procedures := [newProc 0]
  iptr := 0xffffffff
  instns := 0
  assertId := 0
  instnsSinceLastCleanup := 0
  host := ()

theorem debugger_transparent_nop :
    ∃ n, session stableTable.entries quietHost 8 [.brk (.point (.address 2)), .run]
      ⟨nopVm, false, [], 0⟩ <+: executeTrace stableTable.entries quietHost n nopVm := by
  refine debugger_transparent 8 rfl ?_
  intro _ c hc
  cases hc

/-- Going on from the breakpoint at the second `nop` executes the `ret` behind it. -/
theorem debugger_skips :
    ¬ ∃ n, session stableTable.entries quietHost 8 [.brk (.point (.address 2)), .run, .n]
      ⟨nopVm, false, [], 0⟩ <+: executeTrace stableTable.entries quietHost n nopVm := by
  rintro ⟨n, hn⟩
  have hsession : (session stableTable.entries quietHost 8 [.brk (.point (.address 2)), .run, .n]
      ⟨nopVm, false, [], 0⟩).map (fun e => e.2.iptr) = [0, 4] := by decide +kernel
  have hexecute : (executeTrace stableTable.entries quietHost 2 nopVm).map (fun e => e.2.iptr)
      = [0, 2] := by decide +kernel
  have h1 := (hn.trans (executeTrace_mono _ _ n 2 nopVm)).map (fun e => e.2.iptr)
  have h2 := (executeTrace_mono stableTable.entries quietHost 2 n nopVm).map (fun e => e.2.iptr)
  rw [hsession, Nat.add_comm] at h1
  rw [hexecute] at h2
  have h : ([0, 4] : List UInt32) <+: [0, 2] := List.prefix_of_prefix_length_le h1 h2 (by decide)
  exact absurd h (by decide)

end BvgzVm
