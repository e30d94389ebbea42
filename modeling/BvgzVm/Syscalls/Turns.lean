import BvgzVm.Lib.Turns
import BvgzVm.Syscalls.Runs

set_option autoImplicit false

/-! # Procedures that wait

Only the head of `vm->procedures` runs. Whatever it executes, and whatever events are fired while it
does, the procedures behind it keep their addresses, their call stacks and their order, and new ones
queue up behind them. The turn of the head ends in three places of the source: its address is
outside the code, it returns from its last frame, or it yields (`endsTurn`). So the procedure at
place `i` is at place `i - n` when `n` turns have ended, and at the head when `i` have
(`procedures_wait`).
-/

namespace BvgzVm

open Fallible Turns

/-! ## The handlers -/

section Handlers

variable {σ : Type} (host : Host σ) (instn : Instn) {r : Int} {vm vm' : Vm σ}

/-- The head of `vm` is the head of `vm'`, and the procedures that wait in `vm` wait in `vm'`. -/
abbrev Queues (vm vm' : Vm σ) : Prop := Turn false vm.procedures vm'.procedures

/-- `ret` ends the turn: there is no frame, or it returns to `(uint32_t)-1`. -/
def retEnds (vm : Vm σ) : Bool :=
  match vm.procedures with
  | [] => false
  | p :: _ =>
      if p.cstackSz = 0 then true
      else
        match popCallStack host.fill p with
        | .ok (retAddress, _) => retAddress = 0xffffffff
        | .error _ => false

theorem queues_same (h : vm'.procedures = vm.procedures) : Queues vm vm' := by
  rw [Queues, h]
  exact turn_refl _

theorem Local.queues {h : Vm σ → Except Ub (Int × Vm σ)} (hl : Local h)
    (hok : h vm = .ok (r, vm')) : Queues vm vm' := by
  have heq := hl.eq vm vm rfl rfl
  rw [hok] at heq
  have heffect : vm' = vm.effect vm' := congrArg Prod.snd (Except.ok.inj heq)
  exact queues_same (by rw [heffect]; rfl)

theorem doJump_queues {iptr : UInt32} (h : doJump iptr vm = .ok (r, vm')) : Queues vm vm' := by
  unfold doJump at h
  split at h
  · cases h
    exact queues_same rfl
  · split at h
    · cases h
    · next p ps hprocs =>
        cases h
        rw [Queues, hprocs]
        exact turn_head _ _ _

theorem jumpIf_queues {taken : UInt64 → Bool} (h : jumpIf taken host instn vm = .ok (r, vm')) :
    Queues vm vm' := by
  obtain ⟨c, -, hrest⟩ := bind_eq_ok.1 h
  split at hrest
  · obtain ⟨iptr, -, hjump⟩ := bind_eq_ok.1 hrest
    exact doJump_queues hjump
  · cases hrest
    exact queues_same rfl

theorem call3_queues (h : opCall3 host instn vm = .ok (r, vm')) : Queues vm vm' := by
  obtain ⟨iptr, -, h₁⟩ := bind_eq_ok.1 h
  obtain ⟨argv, -, h₂⟩ := bind_eq_ok.1 h₁
  obtain ⟨retv, -, hrest⟩ := bind_eq_ok.1 h₂
  split at hrest
  · cases hrest
  · next p ps hprocs =>
      obtain ⟨p', -, hok⟩ := bind_eq_ok.1 hrest
      cases hok
      rw [Queues, hprocs]
      exact turn_head _ _ _

/-- `ret` takes the head off, or lets it go on where it was called from. -/
theorem ret0_turn (h : opRet0 host instn vm = .ok (r, vm')) :
    Turn (retEnds host vm) vm.procedures vm'.procedures := by
  unfold opRet0 at h
  unfold retEnds
  cases hprocs : vm.procedures with
  | nil => exact turn_nil _ _
  | cons p ps =>
      rw [hprocs] at h
      dsimp only at h ⊢
      split at h
      · next hempty =>
          cases h
          rw [if_pos hempty, Vm.deleteCurrentProcedure, hprocs]
          exact turn_leave _ _
      · next hframes =>
          obtain ⟨⟨retAddress, p'⟩, hpop, hrest⟩ := bind_eq_ok.1 h
          rw [if_neg hframes, hpop]
          dsimp only at hrest ⊢
          split at hrest
          · next hend =>
              cases hrest
              rw [decide_eq_true hend]
              exact turn_leave _ _
          · next hback =>
              cases hrest
              rw [decide_eq_false hback]
              exact turn_head _ _ _

theorem argv1_queues (h : opArgv1 host instn vm = .ok (r, vm')) : Queues vm vm' := by
  unfold opArgv1 at h
  split at h
  · cases h
  · dsimp only at h
    split at h
    · exact (local_lrefSet 4 instn 0 (UInt32.toNat 0)).queues h
    · obtain ⟨args, -, hset⟩ := bind_eq_ok.1 h
      exact (local_lrefSet 4 instn 0 args.toNat).queues hset

theorem retv1_queues (h : opRetv1 host instn vm = .ok (r, vm')) : Queues vm vm' := by
  unfold opRetv1 at h
  split at h
  · cases h
  · split at h
    · cases h
      exact queues_same rfl
    · obtain ⟨retv, -, h₁⟩ := bind_eq_ok.1 h
      split at h₁
      · cases h₁
        exact queues_same rfl
      · obtain ⟨v, -, hstore⟩ := bind_eq_ok.1 h₁
        split at hstore
        · cases hstore
        · cases hstore
          exact queues_same rfl

theorem assert2_queues (h : opAssert2 host instn vm = .ok (r, vm')) : Queues vm vm' := by
  obtain ⟨c, -, hrest⟩ := bind_eq_ok.1 h
  split at hrest
  · obtain ⟨id, -, hok⟩ := bind_eq_ok.1 hrest
    cases hok
    exact queues_same rfl
  · cases hrest
    exact queues_same rfl

/-- **Every instruction but a return and a system call** runs the head and leaves the others. -/
theorem handlerOf_queues {op : Op} (hret : op ≠ .ret0) (hcall : op ≠ .syscall3)
    (h : handlerOf op host instn vm = .ok (r, vm')) : Queues vm vm' := by
  by_cases hbeyond : op.beyondMemory = true
  · cases op with
    | ret0 => exact absurd rfl hret
    | syscall3 => exact absurd rfl hcall
    | jmp1 =>
        obtain ⟨iptr, -, hjump⟩ := bind_eq_ok.1 h
        exact doJump_queues hjump
    | jtrue2 | jfalse2 => exact jumpIf_queues host instn h
    | call3 => exact call3_queues host instn h
    | argv1 => exact argv1_queues host instn h
    | retv1 => exact retv1_queues host instn h
    | assert2 => exact assert2_queues host instn h
    | _ => cases hbeyond
  · exact (handlerOf_local host instn (Bool.eq_false_iff.2 hbeyond)).queues h

end Handlers

/-! ## Rounds -/

variable {ω : Type} {os : Os ω} {defs : List (InstnDef Op)} {vm vm' : Vm (Sys ω)}

/-- The number of a system call, read after the events and the cleanup with which each system call
begins. -/
def enteredSyscallId (os : Os ω) (instn : Instn) (vm : Vm (Sys ω)) : Except Ub UInt64 := do
  let (_, vm) ← fireVmEvents (sysHost os) vm
  let vm ← cleanupVm (sysHost os) vm
  argValue instn 0 vm

/-- The system call is `yield`. -/
def entersYield (os : Os ω) (instn : Instn) (vm : Vm (Sys ω)) : Bool :=
  match enteredSyscallId os instn vm with
  | .ok syscallId => syscallInc[syscallId.toUInt16.toNat]? = some .yield
  | .error _ => false

/-- The instruction ends the turn of the procedure that executes it. -/
def instnEnds (defs : List (InstnDef Op)) (os : Os ω) (instn : Instn) (vm : Vm (Sys ω)) : Bool :=
  match handlerAt defs (instn.code >>> 3) with
  | .ok .ret0 => retEnds (sysHost os) vm
  | .ok .syscall3 => entersYield os instn vm
  | _ => false

/-- The round that begins in `vm` ends the turn of the head: the procedure is deleted before an
instruction is decoded, because its address is outside the code, or its instruction ends the
turn. -/
def endsTurn (defs : List (InstnDef Op)) (os : Os ω) (vm : Vm (Sys ω)) : Bool :=
  match fetchInstn defs (sysHost os) vm with
  | .ok (.again _) => true
  | .ok (.decoded instn vm) => instnEnds defs os instn vm
  | _ => false

/-- `yield` moves the head behind those that wait. -/
theorem sysYield_turn (argv retv : UInt32) {a : Unit}
    (h : (sysYield argv retv : SysM ω Unit) vm = .ok (a, vm')) :
    Turn true vm.procedures vm'.procedures := by
  unfold sysYield at h
  rw [Stateful.bind_of_ok (Stateful.get_run vm)] at h
  cases hprocs : vm.procedures with
  | nil =>
      rw [hprocs] at h
      cases h
  | cons self rest =>
      cases rest with
      | nil =>
          rw [hprocs] at h
          cases h
          exact List.nil_prefix
      | cons next rest =>
          rw [hprocs] at h
          cases h
          exact turn_rotate _ _

/-- The system call that is entered is the one `entersYield` looks for. -/
theorem EntersCall.entersYield {instn : Instn} {k : Syscall} {argv retv : UInt32}
    (h : EntersCall os instn vm k argv retv vm') :
    entersYield os instn vm = decide (k = .yield) := by
  obtain ⟨⟨n, vm₀, hevents, hcleanup⟩, ⟨id, hid, hk⟩, -, -⟩ := h
  have hentered : enteredSyscallId os instn vm = .ok id := by
    rw [enteredSyscallId, hevents, ok_bind]
    dsimp only
    rw [hcleanup, ok_bind, hid]
  rw [BvgzVm.entersYield, hentered]
  simp only [hk, Option.some.injEq]

/-- **An instruction**, a system call with the events it fires included. A machine that goes on has
not failed (`0 ≤ r`). -/
theorem vmExecInstn_turn {instn : Instn} {r : Int} (hr : 0 ≤ r)
    (h : vmExecInstn defs (sysHost os) instn vm = .ok (r, vm')) :
    Turn (instnEnds defs os instn vm) vm.procedures vm'.procedures := by
  obtain ⟨op, hop, hexec⟩ := bind_eq_ok.1 h
  unfold instnEnds
  rw [hop]
  by_cases hcall : op = .syscall3
  · subst hcall
    obtain ⟨n, vm₁, hfires, ⟨hneg, -⟩ | ⟨k, argv, retv, a, henters, hcall⟩⟩ :=
      opSyscall3_enters hexec
    · omega
    · apply Turn.of_prefix hfires.keeps.grows
      dsimp only
      rw [henters.entersYield]
      by_cases hk : k = .yield
      · subst hk
        exact sysYield_turn argv retv hcall
      · rw [decide_eq_false hk]
        exact (turn_refl _).append (syscall_acts hk hcall).1.grows
  · by_cases hret : op = .ret0
    · subst hret
      exact ret0_turn _ instn hexec
    · have hqueues := handlerOf_queues _ _ hret hcall hexec
      cases op with
      | ret0 => exact absurd rfl hret
      | syscall3 => exact absurd rfl hcall
      | _ => exact hqueues

/-- The first half of a round deletes the head, or only moves it on behind its instruction. -/
theorem fetchInstn_turn {f : Fetch (Sys ω)} (h : fetchInstn defs (sysHost os) vm = .ok f) :
    (∀ vm', f = .again vm' → Turn true vm.procedures vm'.procedures) ∧
      ∀ instn vm', f = .decoded instn vm' →
        vm.procedures = [] ∨ vm'.procedures ≠ [] ∧ vm'.procedures.tail = vm.procedures.tail := by
  rw [fetchInstn_eq] at h
  obtain ⟨⟨n, vm₁⟩, hevents, hrest⟩ := bind_eq_ok.1 h
  cases hprocs : vm.procedures with
  | nil =>
      -- nobody waits
      refine ⟨?_, fun _ _ _ => Or.inl rfl⟩
      intro vm' _
      exact turn_nil _ _
  | cons p ps =>
      rw [hprocs, List.isEmpty_cons, if_neg Bool.false_ne_true] at hevents
      cases hevents
      have hcur : fetchAfter defs 1 vm = .ok f := hrest
      rw [fetchAfter, if_neg (by decide), if_neg (by decide), vmCurrentProcedure, hprocs] at hcur
      dsimp only at hcur
      split at hcur
      · cases hcur
        refine ⟨?_, ?_⟩
        · rintro _ ⟨⟩
          rw [Vm.deleteCurrentProcedure, hprocs]
          exact turn_leave _ _
        · intro _ _ heq
          cases heq
      · rw [ok_bind] at hcur
        obtain ⟨⟨instn, vm₂⟩, hdecode, hok⟩ := bind_eq_ok.1 hcur
        cases instn with
        | none =>
            cases hok
            refine ⟨?_, ?_⟩
            · intro _ heq
              cases heq
            · intro _ _ heq
              cases heq
        | some instn =>
            cases hok
            refine ⟨?_, ?_⟩
            · intro _ heq
              cases heq
            rintro _ _ ⟨⟩
            right
            unfold vmDecodeInstn at hdecode
            dsimp only at hdecode
            split at hdecode
            · cases hdecode
            · cases hdecode
            · cases hdecode
              rw [hprocs]
              exact ⟨List.cons_ne_nil _ _, rfl⟩

/-- **A round** leaves the procedures that wait, and takes the head off if it ends its turn. -/
theorem nextRound_turn (h : nextRound defs os vm = some vm') :
    Turn (endsTurn defs os vm) vm.procedures vm'.procedures := by
  unfold endsTurn
  rcases nextRound_cases h with hagain | ⟨instn, vm₁, r, vm₂, hdecoded, hexec, hr, hcount⟩
  · rw [hagain]
    exact (fetchInstn_turn hagain).1 vm' rfl
  · rw [hdecoded]
    obtain ⟨n, hfires⟩ := countInstn_fires hcount
    have hturn : Turn (instnEnds defs os instn vm₁) vm₁.procedures vm'.procedures :=
      (vmExecInstn_turn hr hexec).append hfires.keeps.grows
    rcases (fetchInstn_turn hdecoded).2 instn vm₁ rfl with hnil | ⟨hne, htail⟩
    · rw [hnil]
      exact turn_nil _ _
    · exact hturn.of_tail hne htail

/-! ## Runs -/

/-- How many turns end in the first `n` rounds. -/
def turnsIn (defs : List (InstnDef Op)) (os : Os ω) (n : ℕ) (vm : Vm (Sys ω)) : ℕ :=
  turnsEnded (rounds defs os) (fun _ => endsTurn defs os) (List.replicate n ()) vm

/-- **A procedure that waits** is not touched before its turn. In any run of the machine, with any
events, the procedure at place `i` stands, with the address and the call stack it has, as many
places further in front as turns have ended, as long as these are less than `i`; and when `i` turns
have ended it is the head, with this address and this call stack. -/
theorem procedures_wait {n i : ℕ} {p : Proc}
    (hrun : Steps.run (rounds defs os) (List.replicate n ()) vm = some vm')
    (hp : vm.procedures[i]? = some p) :
    (turnsIn defs os n vm < i → vm'.procedures[i - turnsIn defs os n vm]? = some p) ∧
      (i ≤ turnsIn defs os n vm → ∃ k m, k ≤ n ∧
        Steps.run (rounds defs os) (List.replicate k ()) vm = some m ∧
          turnsIn defs os k vm = i ∧ m.procedures[0]? = some p) := by
  have hturn : ∀ (a : Unit) (s s' : Vm (Sys ω)), rounds defs os a s = some s' →
      Turn (endsTurn defs os s) s.procedures s'.procedures :=
    fun _ _ _ hround => nextRound_turn hround
  constructor
  · intro hlt
    exact place_of_run hturn hrun hp hlt
  · intro hle
    obtain ⟨k, m, hk, hruns, hended, hhead⟩ := head_of_run hturn hrun hp hle
    rw [List.length_replicate] at hk
    rw [List.take_replicate, Nat.min_eq_left hk] at hruns hended
    exact ⟨k, m, hk, hruns, hended, hhead⟩

/-- `timeoutVm` with three procedures at its `ret`. -/
def threeProcsVm : Vm (Sys Unit) :=
  { timeoutVm 0 with procedures := [newProc 6, newProc 6, newProc 6] }

/-- The last of them waits after one round, and is the head after two. -/
theorem procedures_wait_three :
    (∃ vm' : Vm (Sys Unit),
      Steps.run (rounds stableTable.entries clockOs) (List.replicate 1 ()) threeProcsVm =
        some vm' ∧ vm'.procedures[1]? = some (newProc 6)) ∧
      ∃ k m, k ≤ 2 ∧
        Steps.run (rounds stableTable.entries clockOs) (List.replicate k ()) threeProcsVm = some m ∧
          turnsIn stableTable.entries clockOs k threeProcsVm = 2 ∧
            m.procedures[0]? = some (newProc 6) := by
  have hruns (n : ℕ) (hn : n = 1 ∨ n = 2) : (Steps.run (rounds stableTable.entries clockOs)
      (List.replicate n ()) threeProcsVm).isSome = true := by
    rcases hn with rfl | rfl
    · decide +kernel
    · decide +kernel
  have hone : turnsIn stableTable.entries clockOs 1 threeProcsVm = 1 := by decide +kernel
  have htwo : turnsIn stableTable.entries clockOs 2 threeProcsVm = 2 := by decide +kernel
  constructor
  · obtain ⟨vm', hrun⟩ := Option.isSome_iff_exists.1 (hruns 1 (Or.inl rfl))
    have hplace := (procedures_wait (p := newProc 6) hrun (show _[2]? = _ from rfl)).1
    rw [hone] at hplace
    exact ⟨vm', hrun, hplace (by decide)⟩
  · obtain ⟨vm', hrun⟩ := Option.isSome_iff_exists.1 (hruns 2 (Or.inr rfl))
    have hhead := (procedures_wait (p := newProc 6) hrun (show _[2]? = _ from rfl)).2
    rw [htwo] at hhead
    exact hhead (Nat.le_refl 2)

end BvgzVm
