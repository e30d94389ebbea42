import BvgzVm.Debug.Exec
import BvgzVm.Instn.Local
import BvgzVm.Syscalls.Calls
import BvgzVm.Syscalls.Fire

set_option autoImplicit false

/-! # Runs of the machine on an operating system

A round of `execute_vm` fires events, decodes and executes an instruction and cleans up. Here is
what each of these parts does to the tables (`fetchInstn_fetched`, `opSyscall3_enters`,
`vmExecInstn_moved`), and so what is true of the callbacks in every machine that a program can
reach (`Reachable.readWriteInside`, `Reachable.exitsInside`). The callbacks of timers, `connect`
and `accept` are not checked where they are stored: with those inside the code as well, a
positive number of events means that there is a procedure (`firedEvents_procedures`).
-/

namespace BvgzVm

open Fallible

variable {ω : Type} {os : Os ω} {defs : List (InstnDef Op)}

/-! ## Fetching -/

/-- The code, the memory and the fields behind the core are the same. -/
structure SameCore (vm vm' : Vm (Sys ω)) : Prop where
  code : vm'.code = vm.code
  memory : vm'.memory = vm.memory
  host : vm'.host = vm.host

theorem SameCore.moved {vm vm' : Vm (Sys ω)} (h : SameCore vm vm') : Moved os vm vm' := by
  refine SameTables.moved os ⟨h.code, ?_, ?_⟩
  · rw [h.host]
  · rw [h.host]

theorem SameCore.eventsInside {vm vm' : Vm (Sys ω)} (h : SameCore vm vm')
    (hinside : EventsInside vm) : EventsInside vm' := by
  refine hinside.mono h.code (by rw [h.memory]) ?_ ?_ ?_
  · rw [h.host]
    exact fun _ => id
  · rw [h.host]
    exact NoNewEvents.refl _
  · rw [h.host]
    exact NoNewCallbacks.refl _

theorem SameCore.exitsReach {vm vm' : Vm (Sys ω)} (h : SameCore vm vm') (hreach : ExitsReach vm) :
    ExitsReach vm' := by
  refine hreach.mono (by rw [h.memory]) ?_
  rw [h.host]
  exact NoNewCallbacks.refl _

/-- What comes of the machine after the events. -/
def Fetched (vm : Vm (Sys ω)) : Fetch (Sys ω) → Prop
  | .stop vm' => SameCore vm vm'
  | .again vm' | .decoded _ vm' => SameCore vm vm' ∧ vm'.exceptions = vm.exceptions

theorem vmCurrentProcedure_fetched {vm vm' : Vm (Sys ω)} {p : Option Proc}
    (h : vmCurrentProcedure vm = .ok (p, vm')) :
    SameCore vm vm' ∧ vm'.exceptions = vm.exceptions := by
  unfold vmCurrentProcedure at h
  split at h
  · cases h
  · split at h
    · cases h
      exact ⟨⟨rfl, rfl, rfl⟩, rfl⟩
    · cases h
      exact ⟨⟨rfl, rfl, rfl⟩, rfl⟩

theorem vmDecodeInstn_fetched {vm vm' : Vm (Sys ω)} {p : Proc} {instn : Option Instn}
    (h : vmDecodeInstn defs p vm = .ok (instn, vm')) :
    SameCore vm vm' ∧ (instn ≠ none → vm'.exceptions = vm.exceptions) := by
  unfold vmDecodeInstn at h
  dsimp only at h
  split at h
  · cases h
  · cases h
    exact ⟨⟨rfl, rfl, rfl⟩, fun hne => absurd rfl hne⟩
  · cases h
    exact ⟨⟨rfl, rfl, rfl⟩, fun _ => rfl⟩

/-- The first half of a round, from the number of events on. -/
def fetchAfter (defs : List (InstnDef Op)) (nEvents : Int) (vm : Vm (Sys ω)) :
    Except Ub (Fetch (Sys ω)) :=
  if nEvents < 0 then .ok (.stop vm)
  else if nEvents = 0 then .ok (.again vm)
  else do
    let (proc, vm) ← vmCurrentProcedure vm
    match proc with
    | none => .ok (.again vm)
    | some proc => do
        let (instn, vm) ← vmDecodeInstn defs proc vm
        match instn with
        | none => .ok (.stop vm)
        | some instn => .ok (.decoded instn vm)

theorem fetchInstn_eq (defs : List (InstnDef Op)) (host : Host (Sys ω)) (vm : Vm (Sys ω)) :
    fetchInstn defs host vm = (if vm.procedures.isEmpty then vmFireEvents host vm
      else .ok (1, vm)) >>= fun events => fetchAfter defs events.1 events.2 := by
  unfold fetchInstn
  split
  · rfl
  · rfl

/-- **The first half of a round**: events are fired if there is no procedure, and then only the
procedures and the instruction pointer change, and the exceptions when the decoder fails. -/
theorem fetchInstn_fetched {vm : Vm (Sys ω)} {f : Fetch (Sys ω)}
    (h : fetchInstn defs (sysHost os) vm = .ok f) :
    ∃ vm₁, (vm₁ = vm ∨ vm.procedures = [] ∧ ∃ n, Fires os n vm vm₁) ∧ Fetched vm₁ f := by
  rw [fetchInstn_eq] at h
  rcases bind_eq_ok.1 h with ⟨⟨n, vm₁⟩, hevents, hrest⟩
  refine ⟨vm₁, ?_, ?_⟩
  · split at hevents
    · next hempty =>
        rcases vmFireEvents_fires hevents with ⟨m, hfires, _⟩
        exact Or.inr ⟨List.isEmpty_iff.1 hempty, m, hfires⟩
    · cases hevents
      exact Or.inl rfl
  · have hself : SameCore vm₁ vm₁ := ⟨rfl, rfl, rfl⟩
    unfold fetchAfter at hrest
    split at hrest
    · cases hrest
      exact hself
    · split at hrest
      · cases hrest
        exact ⟨hself, rfl⟩
      · rcases bind_eq_ok.1 hrest with ⟨⟨p, vm₂⟩, hcurrent, hrest⟩
        have hcur := vmCurrentProcedure_fetched hcurrent
        cases p with
        | none =>
            cases hrest
            exact hcur
        | some p =>
            rcases bind_eq_ok.1 hrest with ⟨⟨instn, vm₃⟩, hdecode, hrest⟩
            have hdec := vmDecodeInstn_fetched hdecode
            have hcore : SameCore vm₁ vm₃ := ⟨hdec.1.code.trans hcur.1.code,
              hdec.1.memory.trans hcur.1.memory, hdec.1.host.trans hcur.1.host⟩
            cases instn with
            | none =>
                cases hrest
                exact hcore
            | some instn =>
                cases hrest
                exact ⟨hcore, (hdec.2 (by simp)).trans hcur.2⟩

/-! ## System calls -/

/-- The instruction enters the system call `k` in the machine `vm₁`, after the events and the
cleanup with which each system call begins. -/
structure EntersCall (os : Os ω) (instn : Instn) (vm : Vm (Sys ω)) (k : Syscall)
    (argv retv : UInt32) (vm₁ : Vm (Sys ω)) : Prop where
  events : ∃ n vm₀, fireVmEvents (sysHost os) vm = .ok (n, vm₀) ∧
    cleanupVm (sysHost os) vm₀ = .ok vm₁
  syscallId : ∃ id, argValue instn 0 vm₁ = .ok id ∧ syscallInc[id.toUInt16.toNat]? = some k
  argv : ∃ x, argValue instn 1 vm₁ = .ok x ∧ argv = x.toUInt32
  retv : ∃ x, argValue instn 2 vm₁ = .ok x ∧ retv = x.toUInt32

/-- **`syscall`** fires events, cleans up and enters a system call, or fails. -/
theorem opSyscall3_enters {instn : Instn} {vm vm' : Vm (Sys ω)} {r : Int}
    (h : opSyscall3 (sysHost os) instn vm = .ok (r, vm')) :
    ∃ n vm₁, Fires os n vm vm₁ ∧ (r < 0 ∧ vm' = vm₁.raise vmEBadSyscallNo ∨
      ∃ k argv retv a, EntersCall os instn vm k argv retv vm₁ ∧
        k.function os argv retv vm₁ = .ok (a, vm')) := by
  rcases bind_eq_ok.1 h with ⟨⟨n, vm₀⟩, hevents, h₁⟩
  rcases bind_eq_ok.1 h₁ with ⟨vm₁, hcleanup, h₂⟩
  rcases bind_eq_ok.1 h₂ with ⟨syscallId, hid, h₃⟩
  rcases bind_eq_ok.1 h₃ with ⟨argv, hargv, h₄⟩
  rcases bind_eq_ok.1 h₄ with ⟨retv, hretv, hrest⟩
  rcases cleanupVm_fires hcleanup with ⟨m, hclean⟩
  refine ⟨n + m, vm₁, (fireVmEvents_fires hevents).trans hclean, ?_⟩
  have htable : (sysHost os).syscallTable[syscallId.toUInt16.toNat]? =
      (syscallInc[syscallId.toUInt16.toNat]?).map fun k vm argv retv =>
        (k.function os argv retv vm).map Prod.snd := List.getElem?_map
  rw [htable] at hrest
  cases hk : syscallInc[syscallId.toUInt16.toNat]? with
  | none =>
      rw [hk] at hrest
      cases hrest
      exact Or.inl ⟨by decide, rfl⟩
  | some k =>
      rw [hk] at hrest
      rcases bind_eq_ok.1 hrest with ⟨vm₂, hcall, hok⟩
      cases hok
      beta_reduce at hcall
      have hentered : EntersCall os instn vm k argv.toUInt32 retv.toUInt32 vm₁ :=
        ⟨⟨n, vm₀, hevents, hcleanup⟩, ⟨syscallId, hid, hk⟩, ⟨argv, hargv, rfl⟩, ⟨retv, hretv, rfl⟩⟩
      cases hf : k.function os argv.toUInt32 retv.toUInt32 vm₁ with
      | error u =>
          rw [hf] at hcall
          cases hcall
      | ok res =>
          rw [hf] at hcall
          cases hcall
          exact Or.inr ⟨k, _, _, res.1, hentered, hf⟩

/-- **An instruction** moves the tables by valid actions. -/
theorem vmExecInstn_moved {instn : Instn} {vm vm' : Vm (Sys ω)} {r : Int}
    (h : vmExecInstn defs (sysHost os) instn vm = .ok (r, vm')) : Moved os vm vm' := by
  rcases bind_eq_ok.1 h with ⟨op, _, hexec⟩
  by_cases hop : op = .syscall3
  · subst hop
    rcases opSyscall3_enters hexec with ⟨n, vm₁, hfires, ⟨_, rfl⟩ | ⟨k, argv, retv, a, _, hcall⟩⟩
    · exact hfires.keeps.moved.trans_tables (sameTables_raise vm₁ _)
    · exact hfires.keeps.moved.trans (syscall_moves hcall).1
  · have hframed := handlerOf_framed _ _ hop hexec
    refine SameTables.moved os ⟨hframed.code, ?_, ?_⟩
    · rw [hframed.host]
    · rw [hframed.host]

/-! ## Rounds -/

theorem countInstn_fires {vm vm' : Vm (Sys ω)} (h : countInstn (sysHost os) vm = .ok vm') :
    ∃ n, Fires os n vm vm' := by
  unfold countInstn at h
  have hcount : Same vm { vm with
      instns := vm.instns + 1
      instnsSinceLastCleanup := vm.instnsSinceLastCleanup + 1 } :=
    ⟨rfl, rfl, rfl, rfl, rfl, rfl, rfl⟩
  dsimp only at h
  split at h
  · rcases cleanupVm_fires h with ⟨n, hfires⟩
    exact ⟨0 + n, (hcount.fires os).trans hfires⟩
  · cases h
    exact ⟨0, hcount.fires os⟩

theorem Fetched.moved {vm vm₁ : Vm (Sys ω)}
    (h : vm₁ = vm ∨ vm.procedures = [] ∧ ∃ n, Fires os n vm vm₁) {vm' : Vm (Sys ω)}
    (hcore : SameCore vm₁ vm') : Moved os vm vm' := by
  rcases h with rfl | ⟨_, n, hfires⟩
  · exact hcore.moved
  · exact hfires.keeps.moved.trans hcore.moved

/-- A round of `execute_vm` that is followed by another one. -/
def nextRound (defs : List (InstnDef Op)) (os : Os ω) (vm : Vm (Sys ω)) : Option (Vm (Sys ω)) :=
  match executeRound defs (sysHost os) vm with
  | .ok (.again vm') | .ok (.ran _ vm') => some vm'
  | _ => none

/-- A round without an instruction, or with one that is executed and counted. -/
theorem nextRound_cases {vm vm' : Vm (Sys ω)} (h : nextRound defs os vm = some vm') :
    fetchInstn defs (sysHost os) vm = .ok (.again vm') ∨
    ∃ instn vm₁ r vm₂, fetchInstn defs (sysHost os) vm = .ok (.decoded instn vm₁) ∧
      vmExecInstn defs (sysHost os) instn vm₁ = .ok (r, vm₂) ∧ 0 ≤ r ∧
      countInstn (sysHost os) vm₂ = .ok vm' := by
  unfold nextRound executeRound at h
  cases hfetch : fetchInstn defs (sysHost os) vm with
  | error u =>
      rw [hfetch] at h
      cases h
  | ok f =>
      rw [hfetch, ok_bind] at h
      cases f with
      | stop vm₁ => cases h
      | again vm₁ =>
          cases h
          exact Or.inl rfl
      | decoded instn vm₁ =>
          dsimp only at h
          cases hexec : vmExecInstn defs (sysHost os) instn vm₁ with
          | error u =>
              rw [hexec] at h
              cases h
          | ok res =>
              rcases res with ⟨r, vm₂⟩
              rw [hexec, ok_bind] at h
              dsimp only at h
              by_cases hr : r < 0
              · rw [if_pos hr] at h
                cases h
              · rw [if_neg hr] at h
                cases hcount : countInstn (sysHost os) vm₂ with
                | error u =>
                    rw [hcount] at h
                    cases h
                | ok vm₃ =>
                    rw [hcount] at h
                    cases h
                    exact Or.inr ⟨instn, vm₁, r, vm₂, rfl, hexec, not_lt.1 hr, hcount⟩

/-- **A round moves the tables** by valid actions. -/
theorem nextRound_moved {vm vm' : Vm (Sys ω)} (h : nextRound defs os vm = some vm') :
    Moved os vm vm' := by
  rcases nextRound_cases h with hagain | ⟨instn, vm₁, r, vm₂, hdecoded, hexec, _, hcount⟩
  · rcases fetchInstn_fetched hagain with ⟨vm₁, hfired, hfetched⟩
    exact Fetched.moved hfired hfetched.1
  · rcases fetchInstn_fetched hdecoded with ⟨vm₀, hfired, hfetched⟩
    rcases countInstn_fires hcount with ⟨n, hfires⟩
    exact ((Fetched.moved hfired hfetched.1).trans (vmExecInstn_moved hexec)).trans
      hfires.keeps.moved

theorem stepProgram_moved {check : Bool} {bps : List (UInt32 × BreakPoint)} {fuel : Nat}
    {vm vm' : Vm (Sys ω)} {instn : Instn} {r : StepResult (Sys ω)}
    (h : stepProgram defs (sysHost os) check bps fuel vm = .ok (some r))
    (hr : r = .ran instn vm' ∨ r = .hit instn vm') : Moved os vm vm' := by
  induction fuel generalizing vm with
  | zero => cases h
  | succ fuel ih =>
      rw [stepProgram] at h
      rcases bind_eq_ok.1 h with ⟨f, hfetch, hrest⟩
      rcases fetchInstn_fetched hfetch with ⟨vm₀, hfired, hfetched⟩
      cases f with
      | stop vm₁ =>
          cases hrest
          rcases hr with hr | hr <;> cases hr
      | again vm₁ => exact (Fetched.moved hfired hfetched.1).trans (ih hrest)
      | decoded instn' vm₁ =>
          have hmoved := Fetched.moved hfired hfetched.1
          have hexec : ∀ {r' : StepResult (Sys ω)}, (vmExecInstn defs (sysHost os) instn' vm₁ >>= fun p =>
              if p.1 < 0 then .ok (some (.stopped (some instn') p.2))
              else countInstn (sysHost os) p.2 >>= fun vm => .ok (some (.ran instn' vm))) =
                .ok (some r') → r' = .ran instn vm' ∨ r' = .hit instn vm' → Moved os vm vm' := by
            intro r' hr' hend
            rcases bind_eq_ok.1 hr' with ⟨⟨ret, vm₂⟩, hret, hcount⟩
            dsimp only at hcount
            split at hcount
            · cases hcount
              rcases hend with hend | hend <;> cases hend
            · rcases bind_eq_ok.1 hcount with ⟨vm₃, hcounted, hok⟩
              cases hok
              rcases hend with hend | hend
              · cases hend
                rcases countInstn_fires hcounted with ⟨n, hfires⟩
                exact (hmoved.trans (vmExecInstn_moved hret)).trans hfires.keeps.moved
              · cases hend
          dsimp only at hrest
          split at hrest
          · rcases bind_eq_ok.1 hrest with ⟨brk, _, hbrk⟩
            cases brk with
            | none => exact hexec hbrk hr
            | some brk =>
                cases hbrk
                rcases hr with hr | hr
                · cases hr
                · cases hr
                  exact hmoved
          · exact hexec hrest hr

/-! ## Every machine that can be reached -/

/-- The machines in which `execute_vm` and the debugger begin a round, for any code, memory and
procedures to begin with. -/
inductive Reachable (os : Os ω) (defs : List (InstnDef Op)) : Vm (Sys ω) → Prop
  | start {vm : Vm (Sys ω)} {world : ω} (hnew : vm.host = newSys world) : Reachable os defs vm
  | round {vm vm' : Vm (Sys ω)} (h : Reachable os defs vm)
      (hround : nextRound defs os vm = some vm') : Reachable os defs vm'
  | step {vm vm' : Vm (Sys ω)} {check : Bool} {bps : List (UInt32 × BreakPoint)} {fuel : Nat}
      {instn : Instn} {r : StepResult (Sys ω)} (h : Reachable os defs vm)
      (hstep : stepProgram defs (sysHost os) check bps fuel vm = .ok (some r))
      (hr : r = .ran instn vm' ∨ r = .hit instn vm') : Reachable os defs vm'

theorem Reachable.moved {vm : Vm (Sys ω)} (h : Reachable os defs vm) :
    ∃ vm₀ : Vm (Sys ω), ∃ world, vm₀.host = newSys world ∧ Moved os vm₀ vm := by
  induction h with
  | start hnew => exact ⟨_, _, hnew, Moved.refl os _⟩
  | round _ hround ih =>
      rcases ih with ⟨vm₀, world, hnew, hmoved⟩
      exact ⟨vm₀, world, hnew, hmoved.trans (nextRound_moved hround)⟩
  | step _ hstep hr ih =>
      rcases ih with ⟨vm₀, world, hnew, hmoved⟩
      exact ⟨vm₀, world, hnew, hmoved.trans (stepProgram_moved hstep hr)⟩

/-- The rounds of `execute_vm`, as a system with one action. -/
def rounds (defs : List (InstnDef Op)) (os : Os ω) : Unit → Vm (Sys ω) → Option (Vm (Sys ω)) :=
  fun _ => nextRound defs os

theorem Reachable.run {n : Nat} {vm vm' : Vm (Sys ω)} (h : Reachable os defs vm)
    (hrun : Steps.run (rounds defs os) (List.replicate n ()) vm = some vm') :
    Reachable os defs vm' :=
  Steps.run_invariant (fun _ _ _ hreach hround => hreach.round hround) h hrun

/-- The callbacks of reads and writes are inside the code. -/
def ReadWriteInside (codesz : Nat) (io : VmIo) : Prop :=
  ∀ fd ∈ io.fds, ∀ ptr len cb, .read ptr len cb ∈ fd.events ∨ .write ptr len cb ∈ fd.events →
    cb.callback.toNat < codesz

/-- The callbacks of terminations are inside the code. -/
def ExitsInside (codesz : Nat) (proc : VmProc) : Prop :=
  ∀ ch ∈ proc.childProc, ∀ cb ∈ ch.exitCb, cb.callback.toNat < codesz

theorem readWriteInside_run {evtSize codesz : Nat} {ops : List IoOp} {io io' : VmIo}
    (hvalid : ∀ op ∈ ops, op.Valid codesz) (h : ReadWriteInside codesz io)
    (hrun : Steps.run (ioStep evtSize) ops io = some io') : ReadWriteInside codesz io' := by
  induction ops generalizing io with
  | nil =>
      cases hrun
      exact h
  | cons op ops ih =>
      rcases Steps.run_cons.1 hrun with ⟨m, hm, hrest⟩
      refine ih (fun op' hop' => hvalid op' (List.mem_cons_of_mem op hop')) ?_ hrest
      have hop := hvalid op (List.mem_cons_self ..)
      intro fd hfd ptr len cb hevt
      rcases hevt with hevt | hevt
      · rcases ioStep_events hm hfd hevt with ⟨fd', hfd', hold⟩ | ⟨i, rfl⟩
        · exact h fd' hfd' ptr len cb (Or.inl hold)
        · exact hop
      · rcases ioStep_events hm hfd hevt with ⟨fd', hfd', hold⟩ | ⟨i, rfl⟩
        · exact h fd' hfd' ptr len cb (Or.inr hold)
        · exact hop

theorem exitsInside_run {codesz : Nat} {ops : List ProcOp} {proc proc' : VmProc}
    (hvalid : ∀ op ∈ ops, op.Valid codesz) (h : ExitsInside codesz proc)
    (hrun : Steps.run procStep ops proc = some proc') : ExitsInside codesz proc' := by
  induction ops generalizing proc with
  | nil =>
      cases hrun
      exact h
  | cons op ops ih =>
      rcases Steps.run_cons.1 hrun with ⟨m, hm, hrest⟩
      refine ih (fun op' hop' => hvalid op' (List.mem_cons_of_mem op hop')) ?_ hrest
      intro ch hch cb hcb
      rcases procStep_callbacks hm hch hcb with ⟨ch', hch', hold⟩ | ⟨pid, rfl⟩
      · exact h ch' hch' cb hold
      · exact hvalid (.register pid cb) (List.mem_cons_self ..)

/-- **What `sys_read`, `sys_write` and `sys_onexit` check** holds in every machine that can be
reached. -/
theorem Reachable.checked {vm : Vm (Sys ω)} (h : Reachable os defs vm) :
    ReadWriteInside vm.code.size vm.host.io ∧ ExitsInside vm.code.size vm.host.proc := by
  rcases h.moved with ⟨vm₀, world, hnew, hmoved⟩
  rcases hmoved.io with ⟨ioOps, hioValid, hioRun⟩
  rcases hmoved.proc with ⟨procOps, hprocValid, hprocRun⟩
  rw [hmoved.code]
  rw [hnew] at hioRun hprocRun
  refine ⟨readWriteInside_run hioValid ?_ hioRun, exitsInside_run hprocValid ?_ hprocRun⟩
  · intro fd hfd
    cases hfd
  · intro ch hch
    cases hch

/-! ## Events and procedures -/

/-- The addresses that are not checked, or not well enough, where they are stored: those of the
timers, and those of the callbacks of `connect` and `accept` that have their arguments. -/
structure UncheckedInside (vm : Vm (Sys ω)) : Prop where
  timers : ∀ tmr ∈ vm.host.timers, tmr.iptr.toNat < vm.code.size
  net : ∀ fd ∈ vm.host.io.fds, ∀ cb, .connect cb ∈ fd.events ∨ .accept cb ∈ fd.events →
    Reaches vm cb.args 16 → cb.callback.toNat < vm.code.size

/-- With the others inside the code, all are. -/
theorem Reachable.eventsInside {vm : Vm (Sys ω)} (h : Reachable os defs vm)
    (hunchecked : UncheckedInside vm) : EventsInside vm where
  timers := hunchecked.timers
  io := by
    intro fd hfd evt hevt
    cases evt with
    | read ptr len cb => exact h.checked.1 fd hfd ptr len cb (Or.inl hevt)
    | write ptr len cb => exact h.checked.1 fd hfd ptr len cb (Or.inr hevt)
    | connect cb => exact hunchecked.net fd hfd cb (Or.inl hevt)
    | accept cb => exact hunchecked.net fd hfd cb (Or.inr hevt)
  exits := h.checked.2

/-- **A positive number of events means that there is a procedure**, in every machine that can be
reached and in which the addresses that are not checked are inside the code. -/
theorem firedEvents_procedures {vm vm' : Vm (Sys ω)} {n : Int} (h : Reachable os defs vm)
    (hunchecked : UncheckedInside vm) (hfire : vmFireEvents (sysHost os) vm = .ok (n, vm'))
    (hpos : 0 < n) : vm'.procedures ≠ [] ∧ vmCurrentProcedure vm' ≠ .error .noProcedure := by
  rcases vmFireEvents_fires hfire with ⟨m, hfires, hcount⟩
  have hne := hfires.counts (h.eventsInside hunchecked) (hcount hpos)
  refine ⟨hne, ?_⟩
  intro herror
  cases hprocs : vm'.procedures with
  | nil => exact hne hprocs
  | cons p ps =>
      unfold vmCurrentProcedure at herror
      rw [hprocs] at herror
      dsimp only at herror
      split at herror
      · cases herror
      · cases herror

/-! ## A timer behind the code -/

/-- An operating system in which every call fails. -/
def deadOs : Os Unit where
  evtSize := 24
  fill _ := 0
  clockGettime w := (.error 1, w)
  nanosleep w := (.error 1, w)
  realloc _ w := (false, w)
  pselect _ _ _ w := (.error 1, w)
  read _ _ w := (.error 1, w)
  write _ _ w := (.error 1, w)
  close _ w := (.error 1, w)
  openFile _ _ w := (.error 1, w)
  stat _ w := (.error 1, w)
  unlink _ w := (.error 1, w)
  lseek _ _ _ w := (.error 1, w)
  mkdir _ w := (.error 1, w)
  rmdir _ w := (.error 1, w)
  opendir _ w := (.error 1, w)
  socket _ w := (.error 1, w)
  setsockopt _ w := (.error 1, w)
  fcntl _ w := (.error 1, w)
  bind _ _ w := (.error 1, w)
  connect _ _ w := (.error 1, w)
  listen _ _ w := (.error 1, w)
  accept _ w := (.error 1, w)
  forkExec _ w := (.error 1, w)
  setupImageGenDir w := (false, w)
  writeImage _ w := (.error 1, w)
  forkRun w := (.error 1, w)
  kill _ w := (.error 1, w)
  waitpid w := (.error 1, w)

/-- One that has a clock. -/
def clockOs : Os Unit := { deadOs with clockGettime := fun w => (.ok ⟨0, 0⟩, w) }

/-- The program `syscall 3, 0, 16; ret` with the arguments of `sys_timeout` at `0`. -/
def timeoutVm (fPtr : UInt8) : Vm (Sys Unit) where
  code := ⟨[0x8f, 1, 0, 3, 0, 16, 0x48, 1], by decide⟩
  memory := ⟨fPtr :: List.replicate 23 0, by simp⟩
  exceptions := 0
  procedures := [newProc 0]
  iptr := 0xffffffff
  instns := 0
  assertId := 0
  instnsSinceLastCleanup := 0
  host := newSys ()

/-- The machine after the two instructions. -/
def timeoutRun (fPtr : UInt8) : Option (Vm (Sys Unit)) :=
  Steps.run (rounds stableTable.entries clockOs) (List.replicate 2 ()) (timeoutVm fPtr)

/-- The number of events and the procedures after them. -/
def eventsAndProcs (vm : Vm (Sys Unit)) : Option (Int × List Proc) :=
  (vmFireEvents (sysHost clockOs) vm).toOption.map fun r => (r.1, r.2.procedures)

theorem timeoutRun_fires {fPtr : UInt8} {n : Int} {procs : List Proc}
    (h : (timeoutRun fPtr).bind eventsAndProcs = some (n, procs)) :
    ∃ vm vm', timeoutRun fPtr = some vm ∧ Reachable clockOs stableTable.entries vm ∧
      vmFireEvents (sysHost clockOs) vm = .ok (n, vm') ∧ vm'.procedures = procs := by
  rcases Option.bind_eq_some_iff.1 h with ⟨vm, hrun, hevents⟩
  rcases Option.map_eq_some_iff.1 hevents with ⟨⟨n', vm'⟩, hfire, hpair⟩
  cases hpair
  exact ⟨vm, vm', hrun, (Reachable.start rfl).run hrun, toOption_eq_some.1 hfire, rfl⟩

/-- A timer for the first instruction is fired. -/
theorem firedEvents_procedures_timer : ∃ vm vm', Reachable clockOs stableTable.entries vm ∧
    vmFireEvents (sysHost clockOs) vm = .ok (1, vm') ∧ vm'.procedures ≠ [] := by
  have hfires : (timeoutRun 0).bind eventsAndProcs = some (1, [newProc 0]) := by decide +kernel
  rcases timeoutRun_fires hfires with ⟨vm, vm', hrun, hreach, hfire, _⟩
  have htables : (timeoutRun 0).map (fun vm => (vm.host.timers, vm.host.io.fds, vm.code.size)) =
      some ([⟨⟨0, 0⟩, 0⟩], [], 8) := by decide +kernel
  rw [hrun, Option.map_some, Option.some.injEq, Prod.mk.injEq, Prod.mk.injEq] at htables
  refine ⟨vm, vm', hreach, hfire, (firedEvents_procedures hreach ⟨?_, ?_⟩ hfire (by decide)).1⟩
  · intro tmr htmr
    rw [htables.1] at htmr
    rw [List.mem_singleton.1 htmr, htables.2.2]
    decide
  · intro fd hfd
    rw [htables.2.1] at hfd
    cases hfd

/-- A timer for the address behind the last byte of the code is accepted. When it is fired, there
is one event and no procedure. -/
theorem firedEvents_noProcedure : ∃ vm vm', Reachable clockOs stableTable.entries vm ∧
    vmFireEvents (sysHost clockOs) vm = .ok (1, vm') ∧ vm'.procedures = [] ∧
      fetchInstn stableTable.entries (sysHost clockOs) vm = .error .noProcedure := by
  have hfires : (timeoutRun 8).bind eventsAndProcs = some (1, []) := by decide +kernel
  rcases timeoutRun_fires hfires with ⟨vm, vm', hrun, hreach, hfire, hnil⟩
  have hprocs : (timeoutRun 8).map (·.procedures) = some [] := by decide +kernel
  rw [hrun, Option.map_some, Option.some.injEq] at hprocs
  refine ⟨vm, vm', hreach, hfire, hnil, ?_⟩
  rw [fetchInstn_eq, hprocs, List.isEmpty_nil, if_pos rfl, hfire, ok_bind]
  show fetchAfter stableTable.entries 1 vm' = _
  rw [fetchAfter, if_neg (by decide), if_neg (by decide), vmCurrentProcedure, hnil]
  rfl

/-! ## Scheduling -/

/-- **A system call but `yield` does not disturb the scheduling**: whatever events are fired in it,
the procedures are as before, the current one first, and new ones are behind them. -/
theorem syscall_schedules {instn : Instn} {vm vm' : Vm (Sys ω)} {r : Int}
    (hop : handlerAt defs (instn.code >>> 3) = .ok .syscall3)
    (hyield : ∀ argv retv vm₁, ¬ EntersCall os instn vm .yield argv retv vm₁)
    (hexec : vmExecInstn defs (sysHost os) instn vm = .ok (r, vm')) :
    (∃ started, vm'.procedures = vm.procedures ++ started) ∧
      ∀ self, vm.procedures.head? = some self → vm'.procedures.head? = some self := by
  have hcall : opSyscall3 (sysHost os) instn vm = .ok (r, vm') := by
    unfold vmExecInstn at hexec
    rw [hop, ok_bind] at hexec
    exact hexec
  have hgrows : vm.procedures <+: vm'.procedures := by
    rcases opSyscall3_enters hcall with ⟨n, vm₁, hfires, ⟨_, rfl⟩ | ⟨k, argv, retv, a, henters, hk⟩⟩
    · exact hfires.keeps.grows
    · by_cases hkind : k = .yield
      · rw [hkind] at henters
        exact absurd henters (hyield argv retv vm₁)
      · exact hfires.keeps.grows.trans (syscall_acts hkind hk).1.grows
  rcases hgrows with ⟨started, hstarted⟩
  refine ⟨⟨started, hstarted.symm⟩, ?_⟩
  intro self hself
  rw [← hstarted, List.head?_append, hself, Option.some_or]

/-- `syscall 3, 0, 16` -/
def timeoutInstn : Instn := ⟨0x18f, 0, [.imm 3, .imm 0, .imm 16]⟩

/-- `timeoutVm` with a timer that has expired. -/
def expiredVm : Vm (Sys Unit) :=
  (timeoutVm 0).withSys fun s => { s with timers := [⟨⟨0, 0⟩, 4⟩] }

/-- A timer fires in the system call: its procedure is behind the current one. -/
theorem syscall_schedules_expired :
    ∃ r vm', vmExecInstn stableTable.entries (sysHost clockOs) timeoutInstn expiredVm =
        .ok (r, vm') ∧
      (∃ started, vm'.procedures = expiredVm.procedures ++ started) ∧
      ∀ self, expiredVm.procedures.head? = some self → vm'.procedures.head? = some self := by
  have hop : handlerAt stableTable.entries (timeoutInstn.code >>> 3) = .ok .syscall3 := by
    decide +kernel
  have hyield : ∀ argv retv vm₁,
      ¬ EntersCall clockOs timeoutInstn expiredVm .yield argv retv vm₁ := by
    intro argv retv vm₁ henters
    rcases henters.syscallId with ⟨id, hid, hyield⟩
    have hthree : argValue timeoutInstn 0 vm₁ = .ok 3 := rfl
    rw [hthree] at hid
    cases hid
    exact absurd hyield (by decide)
  have hsome : (vmExecInstn stableTable.entries (sysHost clockOs) timeoutInstn
      expiredVm).toOption.isSome = true := by
    decide +kernel
  rcases Option.isSome_iff_exists.1 hsome with ⟨⟨r, vm'⟩, hexec⟩
  have hexec := toOption_eq_some.1 hexec
  exact ⟨r, vm', hexec, syscall_schedules hop hyield hexec⟩

end BvgzVm
