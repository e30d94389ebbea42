import BvgzVm.Syscalls.Reports

set_option autoImplicit false

/-! # Handles

Nine system calls take a handle. Each of them is `resolveHandle`, which subtracts one, narrows the
number to 32 bits and looks the slot up, and then what the call does with the slot that was found
(`HandleCall.function_eq`). So it is `resolveHandle` that decides for which handles a call goes to
a slot (`handle_resolution_iff`).
-/

namespace BvgzVm

open Stateful Std.Do

set_option mvcgen.warning false

variable {ω : Type}

attribute [local spec high] getFd_exact usedFd_exact loadU64_exact fail_exact
  argsRet_derefMem_exact argsRet_deref_exact

attribute [local grind →] Same.memsz eq_of_toNat64

/-! ## The calls, and how they find the slot -/

/-- The system calls that take a handle. -/
inductive HandleCall
  | close | read | write | fsSeek | bind | connect | listen | accept | peerAddress
  deriving DecidableEq, Repr

/-- The entry of the table. -/
def HandleCall.syscall : HandleCall → Syscall
  | .close => .close
  | .read => .read
  | .write => .write
  | .fsSeek => .fsSeek
  | .bind => .bind
  | .connect => .connect
  | .listen => .listen
  | .accept => .accept
  | .peerAddress => .peerAddress

/-- The size of the argument block. -/
def HandleCall.argsz : HandleCall → UInt32
  | .close | .listen => 8
  | .read | .write => 40
  | .fsSeek => 24
  | .bind | .peerAddress => 12
  | .connect => 20
  | .accept => 16

/-- `deref_mem_ptr` or `deref`. -/
def HandleCall.find : HandleCall → UInt32 → UInt32 → SysM ω (Option Nat)
  | .close | .read | .write | .fsSeek => derefMem
  | .bind | .connect | .listen | .accept | .peerAddress => deref

/-- The test of `sys_close` lets the index `n_fds` through. -/
def closeSlot (idx : Nat) : SysM ω (Option VmFd) := do
  if (← get).host.io.fds.length < idx then return none
  else
    let fd ← getFd idx
    if !fd.used then return none else return some fd

def HandleCall.slot : HandleCall → Nat → SysM ω (Option VmFd)
  | .close => closeSlot
  | _ => usedFd

/-- The pointers to the arguments and to the result, and a slot with its number. -/
structure FoundSlot where
  args : Nat
  ret : Nat
  idx : Nat
  fd : VmFd

/-- What the calls begin with. -/
def resolveHandle (k : HandleCall) (argv retv : UInt32) : SysM ω (Option FoundSlot) := do
  let some (args, ret) ← argsRet k.find argv k.argsz retv 1 | return none
  let idx := fdHandleToIdx (← loadU64 args)
  match ← k.slot idx with
  | none =>
      fail eBADF ret 1
      return none
  | some fd => return some ⟨args, ret, idx, fd⟩

/-! ## What the calls do with the slot -/

/-- `sys_close` -/
def closeFound (os : Os ω) (s : FoundSlot) : SysM ω Unit := do
  storeU64 s.ret 0
  if (← call (os.close s.fd.fd)).isNone then failErrno s.ret 1
  onIo' (deallocFd os.evtSize s.idx)

/-- `get_io_task_params` -/
def taskOfFound (s : FoundSlot) : SysM ω (Option IoTask) := do
  let ptr ← loadU32 (s.args + 8)
  let len := (← loadU64 (s.args + 12)).toUInt32
  if (← deref ptr len).isNone then
    fail eFAULT s.ret 1
    return none
  else
    let argsPtr ← loadU32 (s.args + 20)
    if (← deref argsPtr 32).isNone then
      fail eFAULT s.ret 1
      return none
    else
      let fPtr ← loadU32 (s.args + 24)
      if (← get).code.size ≤ fPtr.toNat then
        fail eINVAL s.ret 1
        return none
      else return some ⟨s.ret, ptr, len, fPtr, argsPtr, s.idx⟩

/-- `sys_read` and `sys_write` -/
def requestFound (os : Os ω) (evt : UInt32 → UInt32 → VmCallback → VmIoEvt) (s : FoundSlot) :
    SysM ω Unit := do
  let some task ← taskOfFound s | return
  onIo' (allocEvent os.evtSize task.fd (evt task.ptr task.len ⟨task.fPtr, task.argsPtr⟩))
  storeU64 task.ret 0

/-- `sys_fs_seek` -/
def seekFound (os : Os ω) (s : FoundSlot) : SysM ω Unit := do
  let offset ← loadU64 (s.args + 8)
  let whence ← loadU64 (s.args + 16)
  if 2 < whence then fail eINVAL s.ret 1
  else
    match ← call (os.lseek s.fd.fd offset.toInt64 whence.toNat) with
    | none => failErrno s.ret 1
    | some _ => storeU64 s.ret 0

/-- `sys_bind` -/
def bindFound (os : Os ω) (s : FoundSlot) : SysM ω Unit := do
  match ← deref (← loadU32 (s.args + 8)) 6 with
  | none => fail eFAULT s.ret 1
  | some addrPtr =>
      match ← call (os.bind s.fd.fd (← loadAddr addrPtr)) with
      | none => failErrno s.ret 1
      | some _ => storeU64 s.ret 0

/-- `sys_connect` -/
def connectFound (os : Os ω) (s : FoundSlot) : SysM ω Unit := do
  match ← deref (← loadU32 (s.args + 8)) 6 with
  | none => fail eFAULT s.ret 1
  | some addrPtr =>
      let addr ← loadAddr addrPtr
      onIo' (fun io => .ok (setFd s.idx (fun slot => { slot with data := .sock addr }) io))
      let cbArgs ← loadU32 (s.args + 12)
      let callback ← loadU32 (s.args + 16)
      match ← call (os.connect s.fd.fd addr) with
      | some _ => connected os s.idx ⟨callback, cbArgs⟩ s.ret
      | none =>
          if (← getErrno) = eINPROGRESS then
            onIo' (allocEvent os.evtSize s.idx (.connect ⟨callback, cbArgs⟩))
            storeU64 s.ret 0
          else failErrno s.ret 1

/-- `sys_listen` -/
def listenFound (os : Os ω) (s : FoundSlot) : SysM ω Unit := do
  match ← call (os.listen s.fd.fd listenBacklog) with
  | none => failErrno s.ret 1
  | some _ => storeU64 s.ret 0

/-- `sys_accept` -/
def acceptFound (os : Os ω) (s : FoundSlot) : SysM ω Unit := do
  let cbArgs ← loadU32 (s.args + 8)
  let callback ← loadU32 (s.args + 12)
  onIo' (allocEvent os.evtSize s.idx (.accept ⟨callback, cbArgs⟩))
  storeU64 s.ret 0

/-- `sys_peer_address` -/
def peerAddressFound (s : FoundSlot) : SysM ω Unit := do
  if s.fd.data = .null then fail eBADF s.ret 1
  else
    match ← deref (← loadU32 (s.args + 8)) 6 with
    | none => fail eFAULT s.ret 1
    | some addrPtr =>
        match s.fd.data with
        | .sock addr =>
            storeMem addrPtr 4 addr.sAddr.toNat
            storeMem (addrPtr + 4) 2 addr.sinPort.toNat
            storeU64 s.ret 0
        | _ => ub TableFault.freed.toUb

/-- What the call does with the slot that was found. -/
def HandleCall.found (os : Os ω) : HandleCall → FoundSlot → SysM ω Unit
  | .close => closeFound os
  | .read => requestFound os .read
  | .write => requestFound os .write
  | .fsSeek => seekFound os
  | .bind => bindFound os
  | .connect => connectFound os
  | .listen => listenFound os
  | .accept => acceptFound os
  | .peerAddress => peerAddressFound

/-- Where no slot was found, the call is over. -/
def HandleCall.proceed (k : HandleCall) (os : Os ω) : Option FoundSlot → SysM ω Unit
  | none => return
  | some s => k.found os s

/-- The two parts put together. -/
theorem resolveHandle_proceed (k : HandleCall) (os : Os ω) (argv retv : UInt32) :
    resolveHandle k argv retv >>= k.proceed os = (do
      let some (args, ret) ← argsRet k.find argv k.argsz retv 1 | return
      let idx := fdHandleToIdx (← loadU64 args)
      match ← k.slot idx with
      | none => fail eBADF ret 1
      | some fd => k.found os ⟨args, ret, idx, fd⟩) := by
  unfold resolveHandle
  rw [bind_assoc]
  refine bind_congr fun r => ?_
  rcases r with _ | ⟨args, ret⟩
  · rfl
  · dsimp only
    rw [bind_assoc]
    refine bind_congr fun h => ?_
    rw [bind_assoc]
    refine bind_congr fun fd => ?_
    cases fd with
    | none =>
        dsimp only
        rw [bind_assoc]
        exact bind_pure _
    | some fd => rfl

/-- The test of `sys_close` as a test of the slot. -/
theorem sysClose_proceed (os : Os ω) (argv retv : UInt32) :
    sysClose os argv retv = resolveHandle .close argv retv >>= HandleCall.proceed .close os := by
  rw [resolveHandle_proceed]
  unfold sysClose HandleCall.slot closeSlot
  refine bind_congr fun r => ?_
  rcases r with _ | ⟨args, ret⟩
  · rfl
  · refine bind_congr fun h => ?_
    dsimp only
    rw [bind_assoc]
    refine bind_congr fun vm => ?_
    split
    · rfl
    · rw [bind_assoc]
      refine bind_congr fun fd => ?_
      cases fd.used <;> rfl

/-- `sys_read` and `sys_write` look the slot up in `get_io_task_params`. -/
theorem getIoTaskParams_proceed {k : HandleCall} (os : Os ω) (argv retv : UInt32)
    (evt : UInt32 → UInt32 → VmCallback → VmIoEvt) (hk : k = .read ∨ k = .write)
    (hfound : k.found os = requestFound os evt) :
    (do let some task ← getIoTaskParams argv retv | return
        onIo' (allocEvent os.evtSize task.fd (evt task.ptr task.len ⟨task.fPtr, task.argsPtr⟩))
        storeU64 task.ret 0 : SysM ω Unit) = resolveHandle k argv retv >>= k.proceed os := by
  rw [resolveHandle_proceed, hfound]
  unfold getIoTaskParams
  have hfind : k.find (ω := ω) = derefMem := by rcases hk with rfl | rfl <;> rfl
  have hargsz : k.argsz = 40 := by rcases hk with rfl | rfl <;> rfl
  have hslot : k.slot (ω := ω) = usedFd := by rcases hk with rfl | rfl <;> rfl
  rw [hfind, hargsz, hslot, bind_assoc]
  refine bind_congr fun r => ?_
  rcases r with _ | ⟨args, ret⟩
  · rfl
  · dsimp only
    rw [bind_assoc]
    refine bind_congr fun h => ?_
    rw [bind_assoc]
    refine bind_congr fun fd => ?_
    cases fd with
    | none =>
        have hnone : (none : Option VmFd).isNone = true := rfl
        rw [if_pos hnone, bind_assoc]
        exact bind_pure _
    | some fd =>
        have hsome : ¬ (some fd).isNone = true := Bool.false_ne_true
        rw [if_neg hsome]
        rfl

/-- **Each of the nine calls looks its slot up with `resolveHandle`**, and does the rest with the
slot that was found. -/
theorem HandleCall.function_eq (k : HandleCall) (os : Os ω) (argv retv : UInt32) :
    k.syscall.function os argv retv = resolveHandle k argv retv >>= k.proceed os := by
  cases k with
  | close => exact sysClose_proceed os argv retv
  | read => exact getIoTaskParams_proceed os argv retv .read (Or.inl rfl) rfl
  | write => exact getIoTaskParams_proceed os argv retv .write (Or.inr rfl) rfl
  | fsSeek => exact (resolveHandle_proceed .fsSeek os argv retv).symm
  | bind => exact (resolveHandle_proceed .bind os argv retv).symm
  | connect => exact (resolveHandle_proceed .connect os argv retv).symm
  | listen => exact (resolveHandle_proceed .listen os argv retv).symm
  | accept => exact (resolveHandle_proceed .accept os argv retv).symm
  | peerAddress => exact (resolveHandle_proceed .peerAddress os argv retv).symm

/-! ## The slots that are found -/

/-- The call goes on with slot `i`. -/
def GoesTo (k : HandleCall) (argv retv : UInt32) (vm : Vm (Sys ω)) (i : UInt32) : Prop :=
  ∃ fd, vm.host.io.fds[i.toNat]? = some fd ∧
    resolveHandle k argv retv vm = .ok (some ⟨argv.toNat, retv.toNat, i.toNat, fd⟩, vm)

/-- The call ends with `EBADF`, and the tables are as before. -/
def BadHandle (k : HandleCall) (argv retv : UInt32) (vm : Vm (Sys ω)) : Prop :=
  ∃ vm', resolveHandle k argv retv vm = .ok (none, vm') ∧ Same vm vm' ∧
    vm'.host.errorNo = eBADF ∧ vm'.memory.load retv.toNat 8 = some 1

/-- `i + 1` is the handle of the slot `i`, if it is in use. -/
def IsHandle (io : VmIo) (h : UInt64) (i : UInt32) : Prop :=
  h.toNat = i.toNat + 1 ∧ ∃ fd, io.fds[i.toNat]? = some fd ∧ fd.used = true

/-- The call goes to a slot just when the handle is that of the slot, and other handles are
rejected. -/
def HandleLaw (k : HandleCall) (argv retv : UInt32) (h : UInt64) (vm : Vm (Sys ω)) : Prop :=
  (∀ i, GoesTo k argv retv vm i ↔ IsHandle vm.host.io h i) ∧
    ((∀ i, ¬ IsHandle vm.host.io h i) → BadHandle k argv retv vm)

/-- The slot with the narrowed number is in use and the handle has lost nothing, or there is no
such slot, the result cell is in memory and `sys_close` does not look behind the last slot. -/
def HandleResolvable (k : HandleCall) (retv : UInt32) (h : UInt64) (vm : Vm (Sys ω)) : Prop :=
  match usedSlot (fdHandleToIdx h) vm.host.io with
  | some _ => HandleExact h
  | none => InMemory vm retv 8 ∧ (k = .close → fdHandleToIdx h ≠ vm.host.io.fds.length)

@[local spec high] theorem find_argsRet_exact (k : HandleCall) (s0 : Vm (Sys ω))
    (argv size retv : UInt32) (bad : UInt64) :
    ⦃fun vm => ⌜vm = s0⌝⦄ (argsRet k.find argv size retv bad : SysM ω _)
    ⦃post⟨fun r vm => ⌜r = none ∧ NoArgs bad argv size retv s0 vm ∨
      r = some (argv.toNat, retv.toNat) ∧ vm = s0 ∧ Reaches s0 argv size ∧ Reaches s0 retv 8⌝,
      fun e => ⌜e = .deref ∧ ¬ Reaches s0 argv size ∧ Reaches s0 retv 8 ∧
        s0.memory.size < retv.toNat + 8⌝⟩⦄ := by
  cases k <;> unfold HandleCall.find <;> mvcgen <;> grind

@[local spec high] theorem slot_exact (k : HandleCall) (s0 : Vm (Sys ω)) (idx : ℕ) :
    ⦃fun vm => ⌜vm = s0⌝⦄ (k.slot idx : SysM ω (Option VmFd))
    ⦃post⟨fun r vm => ⌜vm = s0 ∧ r = usedSlot idx s0.host.io ∧
        ¬ (k = .close ∧ idx = s0.host.io.fds.length)⌝,
      fun _ => ⌜k = .close ∧ idx = s0.host.io.fds.length⌝⟩⦄ := by
  by_cases hk : k = .close
  · subst hk
    unfold HandleCall.slot closeSlot usedSlot
    mvcgen
    all_goals grind
  · have hslot : k.slot (ω := ω) = usedFd := by
      cases k <;> first | rfl | exact absurd rfl hk
    rw [hslot]
    mvcgen
    grind

/-- What `resolveHandle` does with a handle that it has been passed. -/
theorem resolveHandle_exact {k : HandleCall} {s0 : Vm (Sys ω)} {argv retv : UInt32} {h : UInt64}
    (hargs : Reaches s0 argv k.argsz) (hret : Reaches s0 retv 8)
    (hload : s0.memory.load argv.toNat 8 = some h.toNat) :
    ⦃fun vm => ⌜vm = s0⌝⦄ resolveHandle k argv retv
    ⦃post⟨fun r vm => ⌜¬ (k = .close ∧ fdHandleToIdx h = s0.host.io.fds.length) ∧
        ((∃ fd, usedSlot (fdHandleToIdx h) s0.host.io = some fd ∧ vm = s0 ∧
          r = some ⟨argv.toNat, retv.toNat, fdHandleToIdx h, fd⟩) ∨
        usedSlot (fdHandleToIdx h) s0.host.io = none ∧ r = none ∧ Same s0 vm ∧
          vm.host.errorNo = eBADF ∧ vm.memory.load retv.toNat 8 = some 1 ∧
          InMemory s0 retv 8)⌝,
      fun _ => ⌜(k = .close ∧ fdHandleToIdx h = s0.host.io.fds.length) ∨
        usedSlot (fdHandleToIdx h) s0.host.io = none ∧ ¬ InMemory s0 retv 8⌝⟩⦄ := by
  unfold resolveHandle
  mvcgen
  all_goals grind [NoArgs, InMemory, Segment.load_eq_none]

/-- The number of a slot has 32 bits. -/
theorem fdHandleToIdx_lt (h : UInt64) : fdHandleToIdx h < 2 ^ 32 := UInt32.toNat_lt _

theorem handleExact_iff (h : UInt64) : HandleExact h ↔ h.toNat = fdHandleToIdx h + 1 := by
  have hlt := fdHandleToIdx_lt h
  have hidx : (fdIdxToHandle (fdHandleToIdx h)).toNat = fdHandleToIdx h + 1 :=
    UInt64.toNat_ofNat_of_lt' (show fdHandleToIdx h + 1 < 2 ^ 64 by omega)
  unfold HandleExact
  rw [← UInt64.toNat_inj, hidx]
  exact eq_comm

/-- A handle is found where its number says. -/
theorem fdHandleToIdx_of_handle {h : UInt64} {i : UInt32} (hi : h.toNat = i.toNat + 1) :
    fdHandleToIdx h = i.toNat := by
  have hlt := i.toNat_lt
  have hle : (1 : UInt64) ≤ h := UInt64.le_iff_toNat_le.2 (by rw [hi]; exact Nat.le_add_left ..)
  have hsub : (h - 1).toNat = i.toNat := by
    rw [UInt64.toNat_sub_of_le _ _ hle, hi]
    rfl
  unfold fdHandleToIdx
  rw [UInt64.toNat_toUInt32, hsub]
  omega

theorem isHandle_iff {io : VmIo} {h : UInt64} {i : UInt32} : IsHandle io h i ↔
    HandleExact h ∧ i.toNat = fdHandleToIdx h ∧ ∃ fd, usedSlot (fdHandleToIdx h) io = some fd := by
  constructor
  · rintro ⟨hi, fd, hfd, hused⟩
    have hidx := fdHandleToIdx_of_handle hi
    refine ⟨(handleExact_iff h).2 (by rw [hidx, hi]), hidx.symm, fd, ?_⟩
    rw [hidx]
    exact usedSlot_eq_some.2 ⟨hfd, hused⟩
  · rintro ⟨hexact, hi, fd, hfd⟩
    rw [← hi] at hfd
    refine ⟨?_, fd, usedSlot_eq_some.1 hfd⟩
    rw [(handleExact_iff h).1 hexact, hi]

/-- The slot that is found when the one with the narrowed number is in use. -/
theorem goesTo_iff {k : HandleCall} {vm : Vm (Sys ω)} {argv retv : UInt32} {h : UInt64}
    {fd : VmFd} (hfd : usedSlot (fdHandleToIdx h) vm.host.io = some fd)
    (hrun : resolveHandle k argv retv vm =
      .ok (some ⟨argv.toNat, retv.toNat, fdHandleToIdx h, fd⟩, vm)) (i : UInt32) :
    GoesTo k argv retv vm i ↔ i.toNat = fdHandleToIdx h := by
  constructor
  · rintro ⟨fd', -, hi⟩
    rw [hrun, Except.ok.injEq, Prod.mk.injEq, Option.some.injEq, FoundSlot.mk.injEq] at hi
    exact hi.1.2.2.1.symm
  · intro hi
    refine ⟨fd, ?_, ?_⟩
    · rw [hi]
      exact (usedSlot_eq_some.1 hfd).1
    · rw [hi]
      exact hrun

/-- **Each of the nine calls goes to the slot of its handle just when the handle is resolvable**:
what comes behind `resolveHandle` does not look at the handle again. -/
theorem handle_resolution_iff (k : HandleCall) (os : Os ω) {vm : Vm (Sys ω)} {argv retv : UInt32}
    {h : UInt64} (hargs : Reaches vm argv k.argsz) (hret : Reaches vm retv 8)
    (hload : vm.memory.load argv.toNat 8 = some h.toNat) :
    k.syscall.function os argv retv = resolveHandle k argv retv >>= k.proceed os ∧
      (HandleLaw k argv retv h vm ↔ HandleResolvable k retv h vm) := by
  refine ⟨k.function_eq os argv retv, ?_⟩
  rcases of_exact (@resolveHandle_exact ω k vm argv retv h hargs hret hload) with ⟨hok, herror⟩
  unfold HandleResolvable
  cases hslot : usedSlot (fdHandleToIdx h) vm.host.io with
  | some fd =>
      have hlength : fdHandleToIdx h ≠ vm.host.io.fds.length :=
        ((List.getElem?_eq_some_iff.1 (usedSlot_eq_some.1 hslot).1).1).ne
      have hrun : resolveHandle k argv retv vm =
          .ok (some ⟨argv.toNat, retv.toNat, fdHandleToIdx h, fd⟩, vm) := by
        cases hres : resolveHandle k argv retv vm with
        | error e => grind
        | ok r => grind
      have hgoes := goesTo_iff hslot hrun
      dsimp only
      constructor
      · intro hlaw
        have hi : (UInt32.ofNat (fdHandleToIdx h)).toNat = fdHandleToIdx h :=
          UInt32.toNat_ofNat_of_lt' (fdHandleToIdx_lt h)
        exact (isHandle_iff.1 ((hlaw.1 _).1 ((hgoes _).2 hi))).1
      · intro hexact
        have hhandle : ∀ i, IsHandle vm.host.io h i ↔ i.toNat = fdHandleToIdx h := by
          intro i
          rw [isHandle_iff]
          exact ⟨fun hi => hi.2.1, fun hi => ⟨hexact, hi, fd, hslot⟩⟩
        refine ⟨fun i => (hgoes i).trans (hhandle i).symm, ?_⟩
        intro hnone
        have hi : (UInt32.ofNat (fdHandleToIdx h)).toNat = fdHandleToIdx h :=
          UInt32.toNat_ofNat_of_lt' (fdHandleToIdx_lt h)
        exact absurd ((hhandle _).2 hi) (hnone _)
  | none =>
      have hhandle : ∀ i, ¬ IsHandle vm.host.io h i := by
        intro i hi
        rcases (isHandle_iff.1 hi).2.2 with ⟨fd, hfd⟩
        rw [hslot] at hfd
        cases hfd
      have hgoes : ∀ i, ¬ GoesTo k argv retv vm i := by
        rintro i ⟨fd, -, hrun⟩
        have hres := hok _ _ hrun
        grind
      dsimp only
      constructor
      · intro hlaw
        rcases hlaw.2 hhandle with ⟨vm', hrun, -⟩
        have hres := hok _ _ hrun
        grind
      · rintro ⟨hcell, hclose⟩
        refine ⟨fun i => iff_of_false (hgoes i) (hhandle i), fun _ => ?_⟩
        cases hres : resolveHandle k argv retv vm with
        | error e => grind
        | ok r =>
          rcases r with ⟨r, vm'⟩
          have hres' := hok _ _ hres
          refine ⟨vm', ?_⟩
          grind

/-- A machine with descriptors and with the handle `2 ^ 32 * hi + lo` at `0`. -/
def handleVm (lo hi : UInt8) (fds : List VmFd) : Vm (Sys Unit) where
  code := .empty
  memory := ⟨[lo, 0, 0, 0, hi, 0, 0, 0] ++ List.replicate 8 0, by simp⟩
  exceptions := 0
  procedures := []
  iptr := 0xffffffff
  instns := 0
  assertId := 0
  instnsSinceLastCleanup := 0
  host := { newSys () with io := ⟨fds, fds.length, 0⟩ }

/-- A descriptor without requests. -/
def openFd : VmFd := ⟨3, true, [], 0, false, false, .null⟩

theorem handle_resolution_iff_first :
    Syscall.listen.function deadOs 0 8 =
        resolveHandle .listen 0 8 >>= HandleCall.proceed .listen deadOs ∧
      (HandleLaw .listen 0 8 1 (handleVm 1 0 [openFd]) ↔
        HandleResolvable .listen 8 1 (handleVm 1 0 [openFd])) :=
  handle_resolution_iff .listen deadOs (by decide) (by decide) (by decide)

/-- `listen` takes the handle `2 ^ 32 + 1` for `1`, and `close` looks for the handle `1` behind the
end of an empty table. -/
theorem handle_narrowed : ¬ HandleLaw .listen 0 8 0x100000001 (handleVm 1 1 [openFd]) ∧
    (handleVm 1 1 [openFd]).memory.load 0 8 = some (0x100000001 : UInt64).toNat ∧
    resolveHandle .close 0 8 (handleVm 1 0 []) = .error .host ∧
      ¬ HandleLaw .close 0 8 1 (handleVm 1 0 []) := by
  have hfault : resolveHandle .close 0 8 (handleVm 1 0 []) = .error .host := by rfl
  refine ⟨?_, by decide, hfault, ?_⟩
  · intro hlaw
    have hgoes : GoesTo .listen 0 8 (handleVm 1 1 [openFd]) 0 := ⟨openFd, rfl, by rfl⟩
    have hhandle := ((hlaw.1 0).1 hgoes).1
    revert hhandle
    decide
  · intro hlaw
    have hnone : ∀ i, ¬ IsHandle (handleVm 1 0 []).host.io 1 i := by
      rintro i ⟨-, fd, hfd, -⟩
      cases hfd
    rcases hlaw.2 hnone with ⟨vm', hrun, -⟩
    rw [hfault] at hrun
    cases hrun

end BvgzVm
