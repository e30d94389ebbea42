import BvgzVm.Syscalls.Runs

set_option autoImplicit false

/-! # The exception word

The functions that look up addresses set an exception where they fail, and some of the system
calls and event handlers that use them go on all the same. The exception word stays zero in a run
in which none of these look-ups fails (`QuietRound`, `exceptions_clear`): the callbacks that are
fired are inside the code and have their arguments, and the system calls that are entered have
arguments for which they set no exception (`QuietCall`).
-/

namespace BvgzVm

open Fallible

variable {ω : Type} {os : Os ω} {defs : List (InstnDef Op)}

/-! ## One round -/

/-- The callbacks are inside the code, and those of terminations have their arguments. -/
def QuietEvents (vm : Vm (Sys ω)) : Prop := EventsInside vm ∧ ExitsReach vm

/-- `cleanup_vm` is called after the instruction that is being counted. -/
def CleanupDue (vm : Vm (Sys ω)) : Prop :=
  (vm.instnsSinceLastCleanup + 1) % vmCleanupPeriodInstns = 0

/-- The machine stops in this round. -/
def Stops (os : Os ω) (defs : List (InstnDef Op)) (vm vm' : Vm (Sys ω)) : Prop :=
  executeRound defs (sysHost os) vm = .ok (.stop vm') ∨
    ∃ instn, executeRound defs (sysHost os) vm = .ok (.fail instn vm')

/-- In each place of the round where events are fired the callbacks are quiet, and so is the
system call that is entered. -/
structure QuietRound (os : Os ω) (defs : List (InstnDef Op)) (vm : Vm (Sys ω)) : Prop where
  /-- events are fired where there is no procedure -/
  idle : vm.procedures = [] → QuietEvents vm
  /-- and at the beginning of each system call -/
  call : ∀ instn vm₁, fetchInstn defs (sysHost os) vm = .ok (.decoded instn vm₁) →
    handlerAt defs (instn.code >>> 3) = .ok .syscall3 → QuietEvents vm₁ ∧
      ∀ k argv retv vm₂, EntersCall os instn vm₁ k argv retv vm₂ → QuietCall os k argv retv vm₂
  /-- and every 20 instructions -/
  cleanup : ∀ instn vm₁ r vm₂, fetchInstn defs (sysHost os) vm = .ok (.decoded instn vm₁) →
    vmExecInstn defs (sysHost os) instn vm₁ = .ok (r, vm₂) → CleanupDue vm₂ → QuietEvents vm₂
  /-- and when the machine has stopped -/
  finish : ∀ vm₁, Stops os defs vm vm₁ → QuietEvents vm₁

/-- What a round does to the exception word: it is zero when the next round begins, and before
and after an instruction that does not fail. It is set by an instruction that fails or by the
decoder, and not when the machine is cleaned up at the end. -/
structure ClearRound (os : Os ω) (defs : List (InstnDef Op)) (vm : Vm (Sys ω)) : Prop where
  next : ∀ vm', nextRound defs os vm = some vm' → vm'.exceptions = 0
  before : ∀ instn vm₁, fetchInstn defs (sysHost os) vm = .ok (.decoded instn vm₁) →
    vm₁.exceptions = 0
  after : ∀ instn vm₁ r vm₂, fetchInstn defs (sysHost os) vm = .ok (.decoded instn vm₁) →
    vmExecInstn defs (sysHost os) instn vm₁ = .ok (r, vm₂) → 0 ≤ r → vm₂.exceptions = 0
  stop : ∀ vm₁, fetchInstn defs (sysHost os) vm = .ok (.stop vm₁) → vm₁.exceptions = 0 ∨
    ∃ p vm₀, vm₀.exceptions = 0 ∧ vmDecodeInstn defs p vm₀ = .ok (none, vm₁)
  finish : ∀ vm₁ vm₂, Stops os defs vm vm₁ → cleanupVm (sysHost os) vm₁ = .ok vm₂ →
    vm₂.exceptions = vm₁.exceptions

/-! ## Each part of a round -/

theorem Fires.clear {n : UInt32} {vm vm' : Vm (Sys ω)} (h : Fires os n vm vm')
    (hquiet : QuietEvents vm) : vm'.exceptions = vm.exceptions :=
  h.quiet hquiet.1 hquiet.2

/-- The machine after the events. -/
theorem fired_clear {vm vm₁ : Vm (Sys ω)} (hzero : vm.exceptions = 0)
    (hidle : vm.procedures = [] → QuietEvents vm)
    (hfired : vm₁ = vm ∨ vm.procedures = [] ∧ ∃ n, Fires os n vm vm₁) : vm₁.exceptions = 0 := by
  rcases hfired with rfl | ⟨hnil, n, hfires⟩
  · exact hzero
  · exact (hfires.clear (hidle hnil)).trans hzero

/-- **An instruction that does not fail** sets no exception. -/
theorem vmExecInstn_clear {instn : Instn} {vm vm' : Vm (Sys ω)} {r : Int}
    (hcall : handlerAt defs (instn.code >>> 3) = .ok .syscall3 → QuietEvents vm ∧
      ∀ k argv retv vm₂, EntersCall os instn vm k argv retv vm₂ → QuietCall os k argv retv vm₂)
    (h : vmExecInstn defs (sysHost os) instn vm = .ok (r, vm')) (hr : 0 ≤ r) :
    vm'.exceptions = vm.exceptions := by
  rcases bind_eq_ok.1 h with ⟨op, hop, hexec⟩
  by_cases hsys : op = .syscall3
  · subst hsys
    have hquiet := hcall hop
    rcases opSyscall3_enters hexec with ⟨n, vm₁, hfires, ⟨hneg, _⟩ | ⟨k, argv, retv, a, hentered, hk⟩⟩
    · exact absurd hr (not_le.2 hneg)
    · calc vm'.exceptions = vm₁.exceptions :=
            (syscall_moves hk).2 (hquiet.2 k argv retv vm₁ hentered)
        _ = vm.exceptions := hfires.clear hquiet.1
  · exact (handlerOf_framed _ _ hsys hexec).quiet hr

theorem countInstn_clear {vm vm' : Vm (Sys ω)} (hdue : CleanupDue vm → QuietEvents vm)
    (h : countInstn (sysHost os) vm = .ok vm') : vm'.exceptions = vm.exceptions := by
  unfold countInstn at h
  dsimp only at h
  split at h
  · next hmod =>
      have hquiet := hdue hmod
      rcases cleanupVm_fires h with ⟨n, hfires⟩
      have hcount : Same vm { vm with
          instns := vm.instns + 1
          instnsSinceLastCleanup := vm.instnsSinceLastCleanup + 1 } :=
        ⟨rfl, rfl, rfl, rfl, rfl, rfl, rfl⟩
      exact hfires.clear ⟨hcount.eventsInside hquiet.1, hcount.exitsReach hquiet.2⟩
  · cases h
    rfl

/-- What stops a round before an instruction: no events are pending, or the decoder fails. -/
theorem fetchInstn_stop {vm vm₁ : Vm (Sys ω)} (hzero : vm.exceptions = 0)
    (hidle : vm.procedures = [] → QuietEvents vm)
    (h : fetchInstn defs (sysHost os) vm = .ok (.stop vm₁)) : vm₁.exceptions = 0 ∨
      ∃ p vm₀, vm₀.exceptions = 0 ∧ vmDecodeInstn defs p vm₀ = .ok (none, vm₁) := by
  rw [fetchInstn_eq] at h
  rcases bind_eq_ok.1 h with ⟨⟨n, vm₂⟩, hevents, hrest⟩
  have hclear : vm₂.exceptions = 0 := by
    split at hevents
    · next hempty =>
        rcases vmFireEvents_fires hevents with ⟨m, hfires, _⟩
        exact (hfires.clear (hidle (List.isEmpty_iff.1 hempty))).trans hzero
    · cases hevents
      exact hzero
  dsimp only at hrest
  unfold fetchAfter at hrest
  split at hrest
  · cases hrest
    exact Or.inl hclear
  · split at hrest
    · cases hrest
    · rcases bind_eq_ok.1 hrest with ⟨⟨p, vm₃⟩, hcurrent, hrest⟩
      have hcur := (vmCurrentProcedure_fetched hcurrent).2.trans hclear
      cases p with
      | none => cases hrest
      | some p =>
          rcases bind_eq_ok.1 hrest with ⟨⟨instn, vm₄⟩, hdecode, hrest⟩
          cases instn with
          | none =>
              cases hrest
              exact Or.inr ⟨p, vm₃, hcur, hdecode⟩
          | some instn => cases hrest

/-- **A quiet round is clear**, if the exception word is zero when it begins. -/
theorem QuietRound.clear {vm : Vm (Sys ω)} (h : QuietRound os defs vm)
    (hzero : vm.exceptions = 0) : ClearRound os defs vm := by
  have hbefore : ∀ instn vm₁, fetchInstn defs (sysHost os) vm = .ok (.decoded instn vm₁) →
      vm₁.exceptions = 0 := by
    intro instn vm₁ hfetch
    rcases fetchInstn_fetched hfetch with ⟨vm₀, hfired, hfetched⟩
    exact hfetched.2.trans (fired_clear hzero h.idle hfired)
  have hafter : ∀ instn vm₁ r vm₂, fetchInstn defs (sysHost os) vm = .ok (.decoded instn vm₁) →
      vmExecInstn defs (sysHost os) instn vm₁ = .ok (r, vm₂) → 0 ≤ r → vm₂.exceptions = 0 := by
    intro instn vm₁ r vm₂ hfetch hexec hr
    exact (vmExecInstn_clear (h.call instn vm₁ hfetch) hexec hr).trans (hbefore instn vm₁ hfetch)
  refine ⟨?_, hbefore, hafter, fun vm₁ => fetchInstn_stop hzero h.idle, ?_⟩
  · intro vm' hnext
    rcases nextRound_cases hnext with hagain | ⟨instn, vm₁, r, vm₂, hfetch, hexec, hr, hcount⟩
    · rcases fetchInstn_fetched hagain with ⟨vm₀, hfired, hfetched⟩
      exact hfetched.2.trans (fired_clear hzero h.idle hfired)
    · exact (countInstn_clear (h.cleanup instn vm₁ r vm₂ hfetch hexec) hcount).trans
        (hafter instn vm₁ r vm₂ hfetch hexec hr)
  · intro vm₁ vm₂ hstops hcleanup
    rcases cleanupVm_fires hcleanup with ⟨n, hfires⟩
    exact hfires.clear (h.finish vm₁ hstops)

/-! ## Every run -/

/-- **The exception word stays zero** in every run of quiet rounds that begins with zero: it is
zero between the rounds and before each instruction, and only an instruction that fails or the
decoder sets it. -/
theorem exceptions_clear {as : List Unit} {vm : Vm (Sys ω)} (hzero : vm.exceptions = 0)
    (hquiet : Steps.Along (rounds defs os) (fun _ => QuietRound os defs) as vm) :
    Steps.Along (rounds defs os) (fun _ => ClearRound os defs) as vm := by
  induction as generalizing vm with
  | nil => trivial
  | cons a as ih =>
      have hclear := hquiet.1.clear hzero
      refine ⟨hclear, ?_⟩
      intro vm' hnext
      exact ih (hclear.next vm' hnext) (hquiet.2 vm' hnext)

/-! ## A system call that goes on with an exception -/

/-- A machine that runs one instruction `syscall k, argv, retv`. -/
def callVm (k argv retv : UInt8) : Vm (Sys Unit) where
  code := ⟨[0x8f, 1, 0, k, argv, retv], by simp⟩
  memory := ⟨List.replicate 24 0, by decide⟩
  exceptions := 0
  procedures := [newProc 0]
  iptr := 0xffffffff
  instns := 0
  assertId := 0
  instnsSinceLastCleanup := 0
  host := newSys ()

/-- The instruction and the machine that are fetched. -/
def callFetched (k argv retv : UInt8) : Option (Instn × Vm (Sys Unit)) :=
  match fetchInstn stableTable.entries (sysHost deadOs) (callVm k argv retv) with
  | .ok (.decoded instn vm) => some (instn, vm)
  | _ => none

/-- The instruction that is fetched, the tables it finds and the counter it leaves. -/
def callSummary (k argv retv : UInt8) :
    Option (Instn × List VmTimer × List VmFd × List VmChild × UInt32) :=
  (callFetched k argv retv).bind fun fetched =>
    (vmExecInstn stableTable.entries (sysHost deadOs) fetched.1 fetched.2).toOption.map fun r =>
      (fetched.1, fetched.2.host.timers, fetched.2.host.io.fds, fetched.2.host.proc.childProc,
        r.2.instnsSinceLastCleanup)

theorem callSummary_of {k argv retv : UInt8} {instn i : Instn} {vm : Vm (Sys Unit)}
    {timers : List VmTimer} {fds : List VmFd} {children : List VmChild} {count : UInt32}
    (hsummary : callSummary k argv retv = some (i, timers, fds, children, count))
    (h : fetchInstn stableTable.entries (sysHost deadOs) (callVm k argv retv) =
      .ok (.decoded instn vm)) :
    instn = i ∧ vm.host.timers = timers ∧ vm.host.io.fds = fds ∧
      vm.host.proc.childProc = children ∧
      ∀ r vm', vmExecInstn stableTable.entries (sysHost deadOs) instn vm = .ok (r, vm') →
        vm'.instnsSinceLastCleanup = count := by
  have hfetched : callFetched k argv retv = some (instn, vm) := by
    unfold callFetched
    simp only [h]
  unfold callSummary at hsummary
  rw [hfetched, Option.bind_some] at hsummary
  rcases Option.map_eq_some_iff.1 hsummary with ⟨⟨r, vm'⟩, hexec, heq⟩
  cases heq
  refine ⟨rfl, rfl, rfl, rfl, ?_⟩
  intro r₂ vm₂ hexec₂
  rw [toOption_eq_some.1 hexec] at hexec₂
  cases hexec₂
  rfl

/-- A machine that goes on has not stopped. -/
theorem not_stops {vm vm' vm₁ : Vm (Sys ω)} (h : nextRound defs os vm = some vm') :
    ¬ Stops os defs vm vm₁ := by
  rintro (hstop | ⟨instn, hfail⟩)
  · rw [nextRound, hstop] at h
    cases h
  · rw [nextRound, hfail] at h
    cases h

/-- `sys_timeout` on a system without a clock reports an error and sets no exception. -/
theorem exceptions_clear_timeout :
    Steps.Along (rounds stableTable.entries deadOs) (fun _ => ClearRound deadOs stableTable.entries)
      [()] (callVm 3 0 16) := by
  have hnext : (nextRound stableTable.entries deadOs (callVm 3 0 16)).isSome = true := by
    decide +kernel
  have hsummary : callSummary 3 0 16 = some (⟨399, 0, [.imm 3, .imm 0, .imm 16]⟩, [], [], [], 0) := by
    decide +kernel
  refine exceptions_clear rfl ⟨⟨?_, ?_, ?_, ?_⟩, fun _ _ => trivial⟩
  · intro hnil
    cases hnil
  · intro instn vm₁ hfetch hop
    rcases callSummary_of hsummary hfetch with ⟨rfl, htimers, hfds, hchildren, _⟩
    refine ⟨⟨⟨?_, ?_, ?_⟩, ?_⟩, ?_⟩
    · intro tmr htmr
      rw [htimers] at htmr
      cases htmr
    · intro fd hfd
      rw [hfds] at hfd
      cases hfd
    · intro ch hch
      rw [hchildren] at hch
      cases hch
    · intro ch hch
      rw [hchildren] at hch
      cases hch
    · intro k argv retv vm₂ hentered
      rcases hentered.syscallId with ⟨id, hid, hk⟩
      have hvalue : argValue ⟨399, 0, [.imm 3, .imm 0, .imm 16]⟩ 0 vm₂ = .ok 3 := rfl
      rw [hvalue] at hid
      cases hid
      cases hk
      trivial
  · intro instn vm₁ r vm₂ hfetch hexec hdue
    rcases callSummary_of hsummary hfetch with ⟨_, _, _, _, hcount⟩
    rw [CleanupDue, hcount r vm₂ hexec] at hdue
    exact absurd hdue (by decide)
  · intro vm₁ hstops
    rcases Option.isSome_iff_exists.1 hnext with ⟨vm', hvm'⟩
    exact absurd hstops (not_stops hvm')

/-- `sys_close` reports an error when it does not find its arguments, and the machine goes on with
an exception. -/
theorem exceptions_afterClose : ∃ vm vm' : Vm (Sys Unit), vm.exceptions = 0 ∧
    nextRound stableTable.entries deadOs vm = some vm' ∧ vm'.exceptions ≠ 0 := by
  have hnext : ((nextRound stableTable.entries deadOs (callVm 5 200 16)).map (·.exceptions)) =
      some vmEMemFault := by decide +kernel
  rcases Option.map_eq_some_iff.1 hnext with ⟨vm', hvm', hexc⟩
  refine ⟨callVm 5 200 16, vm', rfl, hvm', ?_⟩
  rw [hexc]
  decide

end BvgzVm
