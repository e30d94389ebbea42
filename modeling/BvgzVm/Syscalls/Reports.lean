import BvgzVm.Syscalls.Lengths

set_option autoImplicit false

/-! # Failures that are reported

A call that does not do what it is asked for is to leave its failure value in the result cell and
a number in `error_no`. `Carried` says what each of the calls is asked for, with the numbers that
the guest has passed; `ReportsWhen` is the condition under which nothing else is left behind
(`errors_reported_iff`).
-/

namespace BvgzVm

open Stateful Std.Do

set_option mvcgen.warning false

variable {ω : Type}

attribute [local spec high] ub_exact setErrorNo_exact setErrno_exact getErrno_exact ask_exact
  call_exact deref_exact derefMem_exact loadU32_exact loadU64_exact writeMemBytes_exact
  storeU64_exact readMemBytes_exact readStr_exact ensureNulTermStr_exact fail_exact failErrno_exact
  argsRet_derefMem_exact getFd_exact usedFd_exact onIo'_exact onProc_exact

attribute [local grind →] Same.code Same.memsz Same.exceptions Same.procedures Same.timers Same.io
  Same.proc Stored.same Stored.host SameButTables.only SameButTables.errorNo SameButTables.errno
  TablesOnly.memory TablesOnly.code TablesOnly.world

/-! ## What is asked for -/

/-- The `uint32_t` that the guest has passed at `p`. -/
def word32 (vm : Vm (Sys ω)) (p : ℕ) : UInt32 := UInt32.ofNat ((vm.memory.load p 4).getD 0)

/-- The `uint64_t` that the guest has passed at `p`. -/
def word64 (vm : Vm (Sys ω)) (p : ℕ) : UInt64 := UInt64.ofNat ((vm.memory.load p 8).getD 0)

@[local grind →] theorem word32_of_load {vm : Vm (Sys ω)} {p : ℕ} {v : UInt32}
    (h : vm.memory.load p 4 = some v.toNat) : word32 vm p = v := by
  rw [word32, h, Option.getD_some, UInt32.ofNat_toNat]

@[local grind →] theorem word64_of_load {vm : Vm (Sys ω)} {p : ℕ} {v : UInt64}
    (h : vm.memory.load p 8 = some v.toNat) : word64 vm p = v := by
  rw [word64, h, Option.getD_some, UInt64.ofNat_toNat]

/-- What can be loaded is in memory. -/
theorem inside_of_load {s : Segment} {p w v : ℕ} (h : s.load p w = some v) :
    p + w ≤ s.size := by
  by_contra hlt
  rw [Segment.load_eq_none.2 (not_le.1 hlt)] at h
  cases h

/-- The handle has no bits that `FD_HANDLE_TO_IDX` drops. -/
def HandleExact (handle : UInt64) : Prop := fdIdxToHandle (fdHandleToIdx handle) = handle

/-- `close`: the descriptor of the handle is closed and its slot is given back. -/
def Closed (os : Os ω) (vm : Vm (Sys ω)) (argv : UInt32) (vm' : Vm (Sys ω)) : Prop :=
  HandleExact (word64 vm argv.toNat) ∧
    ∃ fd, usedSlot (fdHandleToIdx (word64 vm argv.toNat)) vm.host.io = some fd ∧
      (os.close fd.fd vm.host.world).1 = .ok () ∧
        deallocFd os.evtSize (fdHandleToIdx (word64 vm argv.toNat)) vm.host.io = .ok vm'.host.io

/-- `kill`: the process with this number has the signal. -/
def Killed (os : Os ω) (vm : Vm (Sys ω)) (argv : UInt32) : Prop :=
  ∃ pid : Int32, ofInt pid = word64 vm argv.toNat ∧ (os.kill pid vm.host.world).1 = .ok ()

/-- `mexpand`: the memory has so many bytes more. -/
def Expanded (vm : Vm (Sys ω)) (argv : UInt32) (vm' : Vm (Sys ω)) : Prop :=
  vm'.memory.size = vm.memory.size + (word64 vm argv.toNat).toNat

/-- `mretract`: the memory has so many bytes less. -/
def Retracted (vm : Vm (Sys ω)) (argv : UInt32) (vm' : Vm (Sys ω)) : Prop :=
  vm'.memory.size + (word64 vm argv.toNat).toNat = vm.memory.size

/-- `fs_seek`: the position of the file is set. -/
def Sought (os : Os ω) (vm : Vm (Sys ω)) (argv : UInt32) : Prop :=
  HandleExact (word64 vm argv.toNat) ∧
    ∃ fd, usedSlot (fdHandleToIdx (word64 vm argv.toNat)) vm.host.io = some fd ∧
      (os.lseek fd.fd (word64 vm (argv.toNat + 8)).toInt64 (word64 vm (argv.toNat + 16)).toNat
        vm.host.world).1 = .ok ()

/-- `codecp`: the bytes of the code are copied, and then the result is stored. -/
def Copied (vm : Vm (Sys ω)) (argv retv : UInt32) (vm' : Vm (Sys ω)) : Prop :=
  ∃ bytes memory, Bytes.read vm.code.bytes (word64 vm argv.toNat).toNat
      (word64 vm (argv.toNat + 8)).toNat = some bytes ∧
    vm.memory.write (word32 vm (argv.toNat + 16)).toNat bytes = some memory ∧
      memory.write retv.toNat (Bytes.toLE 8 0) = some vm'.memory

/-- `onexit`: the callback is registered for the child. -/
def Registered (vm : Vm (Sys ω)) (argv : UInt32) (vm' : Vm (Sys ω)) : Prop :=
  ∃ (pid : Int32) (p : ℕ) (cb : VmCallback), ofInt pid = word64 vm argv.toNat ∧
    cb.args.toUInt64 = word64 vm (argv.toNat + 8) ∧
    cb.callback.toUInt64 = word64 vm (argv.toNat + 16) ∧
      findProc pid vm.host.proc = some p ∧ vm'.host.proc = addExitCallback p cb vm.host.proc

/-- `read` and `write`: the request is with the descriptor of the handle. -/
def Requested (os : Os ω) (vm : Vm (Sys ω)) (argv : UInt32)
    (evt : UInt32 → UInt32 → VmCallback → VmIoEvt) (vm' : Vm (Sys ω)) : Prop :=
  HandleExact (word64 vm argv.toNat) ∧
    ∃ len : UInt32, len.toUInt64 = word64 vm (argv.toNat + 12) ∧
      allocEvent os.evtSize (fdHandleToIdx (word64 vm argv.toNat))
        (evt (word32 vm (argv.toNat + 8)) len
          ⟨word32 vm (argv.toNat + 24), word32 vm (argv.toNat + 20)⟩) vm.host.io =
        .ok vm'.host.io

/-- The strings that the pointers from number `a` on point to. -/
def ArgStrs (vm : Vm (Sys ω)) (argvR a : ℕ) (strs : List (List UInt8)) : Prop :=
  ∀ k str, strs[k]? = some str → NulTerm vm (word32 vm (argvR + 4 * (a + k))).toNat ∧
    str = (vm.memory.bytes.drop (word32 vm (argvR + 4 * (a + k))).toNat).takeWhile (· ≠ 0)

/-- `exec`: a child executes the program with these arguments. -/
def Executed (os : Os ω) (vm : Vm (Sys ω)) (argv : UInt32) (vm' : Vm (Sys ω)) : Prop :=
  InMemory vm (word32 vm (argv.toNat + 8)) (4 * (word64 vm argv.toNat).toNat) ∧
    ∃ strs pid, strs.length = (word64 vm argv.toNat).toNat ∧
      ArgStrs vm (word32 vm (argv.toNat + 8)).toNat 0 strs ∧
      (os.forkExec strs vm.host.world).1 = .ok pid ∧
        saveChildProc pid.1 vm.host.proc = .ok vm'.host.proc

/-- `run`: the image is written and a child runs it. -/
def Ran (os : Os ω) (vm : Vm (Sys ω)) (argv : UInt32) (vm' : Vm (Sys ω)) : Prop :=
  ∃ code mem entryPt image pid, Bytes.read vm.memory.bytes (word32 vm argv.toNat).toNat
      (word64 vm (argv.toNat + 4)).toNat = some code ∧
    Bytes.read vm.memory.bytes (word32 vm (argv.toNat + 12)).toNat
      (word64 vm (argv.toNat + 16)).toNat = some mem ∧
    UInt32.toUInt64 entryPt = word64 vm (argv.toNat + 24) ∧
    writeBvgzImageDirect code mem entryPt bvgzImgFExec = some image ∧
    (os.writeImage image (os.setupImageGenDir vm.host.world).2).1 = .ok () ∧
    (os.forkRun (os.writeImage image (os.setupImageGenDir vm.host.world).2).2).1 = .ok pid ∧
      saveChildProc (Subtype.val pid) vm.host.proc = .ok vm'.host.proc

/-- The call has done what it is asked for. -/
def Carried (os : Os ω) (k : Syscall) (argv retv : UInt32) (vm vm' : Vm (Sys ω)) : Prop :=
  match k with
  | .close => Closed os vm argv vm'
  | .kill => Killed os vm argv
  | .mexpand => Expanded vm argv vm'
  | .mretract => Retracted vm argv vm'
  | .fsSeek => Sought os vm argv
  | .codecp => Copied vm argv retv vm'
  | .onexit => Registered vm argv vm'
  | .read => Requested os vm argv .read vm'
  | .write => Requested os vm argv .write vm'
  | .exec => Executed os vm argv vm'
  | .run => Ran os vm argv vm'
  | _ => True

/-! ## What is reported -/

/-- The failure value is in the result cell, `0` for `exec` and `run` and another number for the
others, and `error_no` is set. -/
def Reported (k : Syscall) (retv : UInt32) (vm' : Vm (Sys ω)) : Prop :=
  vm'.host.errorNo ≠ 0 ∧
    ∃ v, vm'.memory.load retv.toNat 8 = some v ∧ (v = 0 ↔ k = .exec ∨ k = .run)

/-- The operating system gives a number other than `0` for what has failed. -/
structure ErrnoSet (os : Os ω) : Prop where
  close : ∀ fd w e, (os.close fd w).1 = .error e → e ≠ 0
  lseek : ∀ fd offset whence w e, (os.lseek fd offset whence w).1 = .error e → e ≠ 0
  kill : ∀ pid w e, (os.kill pid w).1 = .error e → e ≠ 0
  forkExec : ∀ argv w e, (os.forkExec argv w).1 = .error e → e ≠ 0
  forkRun : ∀ w e, (os.forkRun w).1 = .error e → e ≠ 0
  writeImage : ∀ bytes w e, (os.writeImage bytes w).1 = .error e → e ≠ 0

variable {os : Os ω} {s0 : Vm (Sys ω)} {argv retv : UInt32}

attribute [local grind =] InMemory HandleExact raise_memory raise_host reaches_raise

attribute [local grind →] eq_of_toNat32 eq_of_toNat64

@[local grind →] theorem InMemory.reaches_result (h : InMemory s0 retv 8) : Reaches s0 retv 8 :=
  (@Fits.reaches_iff ω s0 retv 8 h.fits).2 h

theorem errors_ne_zero : eFAULT ≠ 0 ∧ eINVAL ≠ 0 ∧ eBADF ≠ 0 ∧ eCHILD ≠ 0 ∧ eNOMEM ≠ 0 := by
  decide

theorem sysClose_reports (hos : ErrnoSet os) (hret : InMemory s0 retv 8) :
    ⦃fun vm => ⌜vm = s0⌝⦄ sysClose os argv retv
    ⦃post⟨fun _ vm => ⌜(Closed os s0 argv vm ∨ Reported .close retv vm) ↔
        (Reaches s0 argv 8 → ∀ fd,
          usedSlot (fdHandleToIdx (word64 s0 argv.toNat)) s0.host.io = some fd →
          (os.close fd.fd s0.host.world).1 = .ok () → HandleExact (word64 s0 argv.toNat))⌝,
      fun _ => ⌜True⌝⟩⦄ := by
  have hclose := hos.close
  have herrors := errors_ne_zero
  have hslot := @usedSlot_eq_some
  unfold sysClose
  mvcgen
  all_goals grind [Closed, Reported, NoArgs]

/-- An `int` that is stored as a `uint64_t` can be read back. -/
@[local grind =] theorem toInt32_ofInt (p : Int32) : (ofInt p).toUInt32.toInt32 = p := by
  apply Int32.toBitVec_inj.1
  calc (ofInt p).toUInt32.toInt32.toBitVec = p.toInt64.toBitVec.setWidth 32 := rfl
    _ = p.toInt64.toBitVec.signExtend 32 := (BitVec.signExtend_eq_setWidth_of_le _ (by decide)).symm
    _ = p.toBitVec := congrArg Int32.toBitVec (Int32.toInt32_toInt64 p)

theorem sysKill_reports (hos : ErrnoSet os) (hret : InMemory s0 retv 8) :
    ⦃fun vm => ⌜vm = s0⌝⦄ sysKill os argv retv
    ⦃post⟨fun _ vm => ⌜(Killed os s0 argv ∨ Reported .kill retv vm) ↔
        (Reaches s0 argv 8 →
          (os.kill (word64 s0 argv.toNat).toUInt32.toInt32 s0.host.world).1 = .ok () →
            ofInt (word64 s0 argv.toNat).toUInt32.toInt32 = word64 s0 argv.toNat)⌝,
      fun _ => ⌜True⌝⟩⦄ := by
  have hkill := hos.kill
  have herrors := errors_ne_zero
  unfold sysKill
  mvcgen
  all_goals grind [Killed, Reported, NoArgs]

theorem sysFsSeek_reports (hos : ErrnoSet os) (hret : InMemory s0 retv 8) :
    ⦃fun vm => ⌜vm = s0⌝⦄ sysFsSeek os argv retv
    ⦃post⟨fun _ vm => ⌜(Sought os s0 argv ∨ Reported .fsSeek retv vm) ↔
        (Reaches s0 argv 24 → ∀ fd,
          usedSlot (fdHandleToIdx (word64 s0 argv.toNat)) s0.host.io = some fd →
          ¬ 2 < word64 s0 (argv.toNat + 16) →
          (os.lseek fd.fd (word64 s0 (argv.toNat + 8)).toInt64
            (word64 s0 (argv.toNat + 16)).toNat s0.host.world).1 = .ok () →
            HandleExact (word64 s0 argv.toNat))⌝, fun _ => ⌜True⌝⟩⦄ := by
  have hlseek := hos.lseek
  have herrors := errors_ne_zero
  unfold sysFsSeek
  mvcgen
  all_goals grind [Sought, Reported, NoArgs]

@[local spec high] theorem setMemory_exact (s0 : Vm (Sys ω)) (memory : Segment) :
    ⦃fun vm => ⌜vm = s0⌝⦄ (setMemory memory : SysM ω Unit)
    ⦃post⟨fun _ vm => ⌜vm = { s0 with memory }⌝, fun _ => ⌜False⌝⟩⦄ := by
  refine exact_of ?_ (fun e h => by cases h)
  intro a s' h
  cases h
  rfl

theorem size_resizeSegment (fill : Nat → UInt8) (s : Segment) (size : Nat) :
    (resizeSegment fill s size).size = size % 2 ^ 32 := Bytes.length_resize ..

theorem load_resizeSegment {fill : Nat → UInt8} {s : Segment} {size p w v : Nat}
    (hp : p + w ≤ s.size) (h : (resizeSegment fill s size).load p w = some v) :
    s.load p w = some v := Bytes.load_resize hp h

@[local spec high] theorem reallocMemory_exact (os : Os ω) (s0 : Vm (Sys ω)) {size ret : ℕ}
    (hret : ret + 8 ≤ s0.memory.size) :
    ⦃fun vm => ⌜vm = s0⌝⦄ reallocMemory os size ret
    ⦃post⟨fun _ vm => ⌜((os.realloc size s0.host.world).1 = true ∧
          vm.memory.size = size % 2 ^ 32 ∧ ∀ v, vm.memory.load ret 8 = some v → v = 0) ∨
        (os.realloc size s0.host.world).1 = false ∧ vm.host.errorNo = eNOMEM ∧
          vm.memory.load ret 8 = some 1⌝, fun _ => ⌜True⌝⟩⦄ := by
  have hload := fun (fill : Nat → UInt8) (s : Segment) v =>
    @load_resizeSegment fill s size ret 8 v
  unfold reallocMemory
  mvcgen
  all_goals grind [size_resizeSegment]

theorem sysMexpand_reports (hret : InMemory s0 retv 8) :
    ⦃fun vm => ⌜vm = s0⌝⦄ sysMexpand os argv retv
    ⦃post⟨fun _ vm => ⌜(Expanded s0 argv vm ∨ Reported .mexpand retv vm) ↔
        (Reaches s0 argv 8 →
          (os.realloc ((s0.memory.size + (word64 s0 argv.toNat).toNat) % 2 ^ 64)
            s0.host.world).1 = true →
            s0.memory.size + (word64 s0 argv.toNat).toNat < 2 ^ 32)⌝, fun _ => ⌜True⌝⟩⦄ := by
  have herrors := errors_ne_zero
  have hsize := s0.memory.size_lt'
  unfold sysMexpand
  mvcgen
  all_goals grind [Expanded, Reported, NoArgs]

theorem sysMretract_reports (hret : InMemory s0 retv 8) :
    ⦃fun vm => ⌜vm = s0⌝⦄ sysMretract os argv retv
    ⦃post⟨fun _ vm => ⌜Retracted s0 argv vm ∨ Reported .mretract retv vm⌝,
      fun _ => ⌜True⌝⟩⦄ := by
  have herrors := errors_ne_zero
  have hsize := s0.memory.size_lt'
  unfold sysMretract
  mvcgen
  all_goals grind [Retracted, Reported, NoArgs]

/-- A result cell holds a number other than `0`. -/
theorem word64_ne_zero (vm : Vm (Sys ω)) (p : ℕ) :
    word64 vm p ≠ 0 ↔ ∃ v, vm.memory.load p 8 = some v ∧ v ≠ 0 := by
  unfold word64
  cases hload : vm.memory.load p 8 with
  | none => simp
  | some v =>
      have hlt : v < 2 ^ 64 := Segment.load_lt hload
      have hv : (UInt64.ofNat v).toNat = v := UInt64.toNat_ofNat_of_lt' hlt
      rw [Option.getD_some, ne_eq, ← UInt64.toNat_inj, hv]
      simp

theorem sysCodecp_reports (hret : InMemory s0 retv 8) :
    ⦃fun vm => ⌜vm = s0⌝⦄ sysCodecp argv retv
    ⦃post⟨fun _ vm => ⌜(Copied s0 argv retv vm ∨ Reported .codecp retv vm) ↔
        (Reaches s0 argv 20 →
          s0.code.size < (word64 s0 argv.toNat + word64 s0 (argv.toNat + 8)).toNat →
            word64 s0 retv.toNat ≠ 0)⌝, fun _ => ⌜True⌝⟩⦄ := by
  have herrors := errors_ne_zero
  have hcell := word64_ne_zero s0 retv.toNat
  have hrange : ∀ (start size : UInt64) bytes,
      Bytes.read s0.code.bytes start.toNat size.toNat = some bytes →
        (start + size).toNat ≤ s0.code.size := by
    intro start size bytes h
    rw [UInt64.toNat_add]
    exact (Nat.mod_le _ _).trans (Bytes.read_eq_some.1 h).1
  unfold sysCodecp
  mvcgen
  all_goals grind [Copied, Reported, NoArgs, Stored]

/-- A number that has 32 bits keeps them. -/
theorem toUInt64_toUInt32_iff (x : UInt64) : x.toUInt32.toUInt64 = x ↔ x.toNat < 2 ^ 32 := by
  rw [← UInt64.toNat_inj, UInt32.toNat_toUInt64, UInt64.toNat_toUInt32]
  omega

theorem sysOnexit_reports (hret : InMemory s0 retv 8) :
    ⦃fun vm => ⌜vm = s0⌝⦄ sysOnexit argv retv
    ⦃post⟨fun _ vm => ⌜(Registered s0 argv vm ∨ Reported .onexit retv vm) ↔
        (Reaches s0 argv 8 → Reaches s0 (word64 s0 (argv.toNat + 8)).toUInt32 56 →
          (word64 s0 (argv.toNat + 16)).toNat < s0.code.size →
          findProc (word64 s0 argv.toNat).toUInt32.toInt32 s0.host.proc ≠ none →
            ofInt (word64 s0 argv.toNat).toUInt32.toInt32 = word64 s0 argv.toNat ∧
              (word64 s0 (argv.toNat + 8)).toNat < 2 ^ 32)⌝, fun _ => ⌜True⌝⟩⦄ := by
  have herrors := errors_ne_zero
  have hcodesz := s0.code.size_lt'
  unfold sysOnexit
  mvcgen
  all_goals grind [Registered, Reported, NoArgs, UInt32.toUInt32_toUInt64, toUInt64_toUInt32_iff]

/-- The arguments of `read` and `write` pass the checks. -/
def IoTaken (vm : Vm (Sys ω)) (argv : UInt32) : Prop :=
  Reaches vm argv 40 ∧ usedSlot (fdHandleToIdx (word64 vm argv.toNat)) vm.host.io ≠ none ∧
    Reaches vm (word32 vm (argv.toNat + 8)) (word64 vm (argv.toNat + 12)).toUInt32 ∧
    Reaches vm (word32 vm (argv.toNat + 20)) 32 ∧
      (word32 vm (argv.toNat + 24)).toNat < vm.code.size

@[local spec high] theorem getIoTaskParams_task (hret : InMemory s0 retv 8) :
    ⦃fun vm => ⌜vm = s0⌝⦄ (getIoTaskParams argv retv : SysM ω _)
    ⦃post⟨fun r vm => ⌜(r = none ∧ ¬ IoTaken s0 argv ∧ vm.host.errorNo ≠ 0 ∧
          vm.memory.load retv.toNat 8 = some 1) ∨
        vm = s0 ∧ IoTaken s0 argv ∧ r = some ⟨retv.toNat, word32 s0 (argv.toNat + 8),
          (word64 s0 (argv.toNat + 12)).toUInt32, word32 s0 (argv.toNat + 24),
          word32 s0 (argv.toNat + 20), fdHandleToIdx (word64 s0 argv.toNat)⟩⌝,
      fun _ => ⌜True⌝⟩⦄ := by
  have herrors := errors_ne_zero
  unfold getIoTaskParams
  mvcgen
  all_goals grind [IoTaken, NoArgs, Option.isNone_iff_eq_none]

theorem sysRead_reports (hret : InMemory s0 retv 8) :
    ⦃fun vm => ⌜vm = s0⌝⦄ sysRead os argv retv
    ⦃post⟨fun _ vm => ⌜(Requested os s0 argv .read vm ∨ Reported .read retv vm) ↔
        (IoTaken s0 argv → HandleExact (word64 s0 argv.toNat) ∧
          (word64 s0 (argv.toNat + 12)).toNat < 2 ^ 32)⌝, fun _ => ⌜True⌝⟩⦄ := by
  unfold sysRead
  mvcgen
  all_goals grind [Requested, Reported, UInt32.toUInt32_toUInt64, toUInt64_toUInt32_iff]

theorem sysWrite_reports (hret : InMemory s0 retv 8) :
    ⦃fun vm => ⌜vm = s0⌝⦄ sysWrite os argv retv
    ⦃post⟨fun _ vm => ⌜(Requested os s0 argv .write vm ∨ Reported .write retv vm) ↔
        (IoTaken s0 argv → HandleExact (word64 s0 argv.toNat) ∧
          (word64 s0 (argv.toNat + 12)).toNat < 2 ^ 32)⌝, fun _ => ⌜True⌝⟩⦄ := by
  unfold sysWrite
  mvcgen
  all_goals grind [Requested, Reported, UInt32.toUInt32_toUInt64, toUInt64_toUInt32_iff]

@[local spec high] theorem forked_exact (s0 : Vm (Sys ω)) (r : Option Pid) (ret : ℕ) :
    ⦃fun vm => ⌜vm = s0⌝⦄ (forked r ret : SysM ω Unit)
    ⦃post⟨fun _ vm => ⌜(r = none ∧ vm.host.errorNo = s0.host.errno ∧
          vm.memory.load ret 8 = some 0) ∨
        ∃ pid, r = some pid ∧ saveChildProc pid.1 s0.host.proc = .ok vm.host.proc⌝,
      fun _ => ⌜True⌝⟩⦄ := by
  unfold forked
  mvcgen
  all_goals grind

/-- A string that is looked at and has a terminator is accepted. -/
theorem NulTerm.reaches {vm : Vm (Sys ω)} {str : UInt32} (h : NulTerm vm str.toNat) :
    Reaches vm str 1 := by
  have hne : vm.memory.bytes.drop str.toNat ≠ [] := List.ne_nil_of_mem h
  have hlt : str.toNat < vm.memory.size := by
    rw [ne_eq, List.drop_eq_nil_iff, not_le] at hne
    exact hne
  have hin : InMemory vm str 1 := hlt
  exact (@Fits.reaches_iff ω vm str 1 hin.fits).2 hin

theorem execArgs_succ {vm : Vm (Sys ω)} {argvR todo a : ℕ} {str : UInt32}
    (h : vm.memory.load (argvR + 4 * a) 4 = some str.toNat) :
    ExecArgs vm argvR (todo + 1) a ↔
      (Reaches vm str 1 ∧ NulTerm vm str.toNat) ∧ ExecArgs vm argvR todo (a + 1) := by
  constructor
  · intro hargs
    refine ⟨hargs 0 str (Nat.succ_pos todo) h, ?_⟩
    intro k str' hk hload
    refine hargs (k + 1) str' (Nat.succ_lt_succ hk) ?_
    rwa [← Nat.add_assoc, Nat.add_right_comm]
  · rintro ⟨hfirst, hrest⟩ k str' hk hload
    cases k with
    | zero =>
        rw [Nat.add_zero, h] at hload
        rwa [← eq_of_toNat32 (Option.some.inj hload)]
    | succ k =>
        refine hrest k str' (Nat.lt_of_succ_lt_succ hk) ?_
        rwa [Nat.add_right_comm, Nat.add_assoc]

theorem argStrs_cons {vm : Vm (Sys ω)} {argvR a : ℕ} {str : UInt32} {strs : List (List UInt8)}
    (h : vm.memory.load (argvR + 4 * a) 4 = some str.toNat) (hterm : NulTerm vm str.toNat)
    (hstrs : ArgStrs vm argvR (a + 1) strs) :
    ArgStrs vm argvR a ((vm.memory.bytes.drop str.toNat).takeWhile (· ≠ 0) :: strs) := by
  intro k s hs
  cases k with
  | zero =>
      rw [Nat.add_zero, word32_of_load h]
      exact ⟨hterm, (Option.some.inj hs).symm⟩
  | succ k =>
      rw [← Nat.add_assoc, Nat.add_right_comm]
      exact hstrs k s hs

/-- The loop over the arguments, from number `a` on. -/
theorem execArgs_exact (s0 : Vm (Sys ω)) (argvR todo a : ℕ) :
    ⦃fun vm => ⌜vm = s0⌝⦄ (execArgs argvR todo a : SysM ω _)
    ⦃post⟨fun r vm => ⌜(r = none ∧ vm.memory = s0.memory ∧ vm.host = s0.host ∧
          ¬ ExecArgs s0 argvR todo a) ∨
        vm = s0 ∧ ExecArgs s0 argvR todo a ∧
          (todo ≠ 0 → argvR + 4 * (a + todo) ≤ s0.memory.size) ∧
          ∃ strs, r = some strs ∧ strs.length = todo ∧ ArgStrs s0 argvR a strs⌝,
      fun _ => ⌜True⌝⟩⦄ := by
  induction todo generalizing a with
  | zero =>
      unfold execArgs
      mvcgen
      grind [ExecArgs, ArgStrs]
  | succ todo ih =>
      have hargs := fun str => @execArgs_succ ω s0 argvR todo a str
      have hstrs := fun str strs => @argStrs_cons ω s0 argvR a str strs
      have hsize : ∀ v, s0.memory.load (argvR + 4 * a) 4 = some v →
          argvR + 4 * a + 4 ≤ s0.memory.size := by
        intro v h
        by_contra hlt
        rw [Segment.load_eq_none.2 (not_le.1 hlt)] at h
        cases h
      unfold execArgs
      mvcgen [ih]
      all_goals grind

/-- What `exec` requires of its arguments, if it looks at them. -/
def ExecAccepts (vm : Vm (Sys ω)) (argv : UInt32) : Prop :=
  Reaches vm argv 12 → word64 vm argv.toNat ≠ 0 →
    Reaches vm (word32 vm (argv.toNat + 8)) (word64 vm argv.toNat * 4).toUInt32 ∧
      ExecArgs vm (word32 vm (argv.toNat + 8)).toNat (word64 vm argv.toNat).toNat 0

/-- A program that is executed has had its arguments accepted. -/
theorem Executed.accepts {vm vm' : Vm (Sys ω)} (h : Executed os vm argv vm') :
    ExecAccepts vm argv := by
  rcases h with ⟨harray, strs, pid, hlen, hstrs, -⟩
  intro _ _
  constructor
  · rw [mul_toUInt32]
    exact harray.reaches_low
  · intro k str hk hload
    have hterm := (hstrs k strs[k] (List.getElem?_eq_getElem (hlen ▸ hk))).1
    rw [word32_of_load hload] at hterm
    exact ⟨hterm.reaches, hterm⟩

theorem sysExec_reports (hos : ErrnoSet os) (hret : InMemory s0 retv 8) :
    ⦃fun vm => ⌜vm = s0⌝⦄ sysExec os argv retv
    ⦃post⟨fun _ vm => ⌜(Executed os s0 argv vm ∨ Reported .exec retv vm) ↔
        (ExecAccepts s0 argv ∨ s0.host.errorNo ≠ 0)⌝, fun _ => ⌜True⌝⟩⦄ := by
  have herrors := errors_ne_zero
  have hfork := hos.forkExec
  have hargs := fun vm : Vm (Sys ω) => execArgs_exact vm
  have haccepts := fun vm => @Executed.accepts ω os argv s0 vm
  have hcount : (word64 s0 argv.toNat).toNat = 0 → word64 s0 argv.toNat = 0 := by
    intro h
    exact eq_of_toNat64 h
  unfold sysExec
  mvcgen [hargs]
  all_goals grind [Executed, Reported, NoArgs, ExecAccepts]

@[local spec high] theorem runImage_exact (hos : ErrnoSet os) (s0 : Vm (Sys ω))
    {code : List UInt8} (mem : List UInt8) (entryPt : UInt64) (ret : ℕ) (hcode : code ≠ []) :
    ⦃fun vm => ⌜vm = s0⌝⦄ runImage os code mem entryPt ret
    ⦃post⟨fun _ vm => ⌜(vm.host.errorNo ≠ 0 ∧ vm.memory.load ret 8 = some 0) ∨
        ∃ image, writeBvgzImageDirect code mem entryPt.toUInt32 bvgzImgFExec = some image ∧
          (os.writeImage image (os.setupImageGenDir s0.host.world).2).1 = .ok () ∧
          ∃ pid, (os.forkRun (os.writeImage image (os.setupImageGenDir s0.host.world).2).2).1 =
            .ok pid ∧ saveChildProc pid.1 s0.host.proc = .ok vm.host.proc⌝,
      fun _ => ⌜True⌝⟩⦄ := by
  have hfork := hos.forkRun
  have hwrite := hos.writeImage
  have himage := @writeBvgzImageDirect_eq code mem entryPt.toUInt32 bvgzImgFExec hcode
  unfold runImage
  mvcgen
  all_goals grind

/-- What `run` requires of its arguments, if it looks at the regions. -/
def RunAccepts (vm : Vm (Sys ω)) (argv : UInt32) : Prop :=
  Reaches vm argv 32 → word64 vm (argv.toNat + 24) < word64 vm (argv.toNat + 4) →
    (word64 vm (argv.toNat + 4)).toNat < 2 ^ 32 → (word64 vm (argv.toNat + 16)).toNat < 2 ^ 32 →
      Reaches vm (word32 vm argv.toNat) (word64 vm (argv.toNat + 4)).toUInt32 ∧
        Reaches vm (word32 vm (argv.toNat + 12)) (word64 vm (argv.toNat + 16)).toUInt32

/-- An image that is run has had its regions accepted. -/
theorem Ran.accepts {vm vm' : Vm (Sys ω)} (h : Ran os vm argv vm') : RunAccepts vm argv := by
  rcases h with ⟨code, mem, entryPt, image, pid, hcode, hmem, -⟩
  have hcode' : InMemory vm (word32 vm argv.toNat) (word64 vm (argv.toNat + 4)).toNat :=
    (Bytes.read_eq_some.1 hcode).1
  have hmem' : InMemory vm (word32 vm (argv.toNat + 12)) (word64 vm (argv.toNat + 16)).toNat :=
    (Bytes.read_eq_some.1 hmem).1
  intro _ _ _ _
  exact ⟨hcode'.reaches_low, hmem'.reaches_low⟩

/-- An entry point inside code of `sz` bytes has 32 bits if the size has. -/
theorem entryPt_widened {sz entryPt : UInt64} (h : ¬ sz ≤ entryPt) (hsz : sz.toNat < 2 ^ 32) :
    entryPt.toUInt32.toUInt64 = entryPt := by
  rw [UInt64.le_iff_toNat_le] at h
  exact (toUInt64_toUInt32_iff entryPt).2 (by omega)

theorem sysRun_reports (hos : ErrnoSet os) (hret : InMemory s0 retv 8) :
    ⦃fun vm => ⌜vm = s0⌝⦄ sysRun os argv retv
    ⦃post⟨fun _ vm => ⌜(Ran os s0 argv vm ∨ Reported .run retv vm) ↔
        (RunAccepts s0 argv ∨ s0.host.errorNo ≠ 0)⌝, fun _ => ⌜True⌝⟩⦄ := by
  have herrors := errors_ne_zero
  have haccepts := fun vm => @Ran.accepts ω os argv s0 vm
  have hcode : ∀ (p : ℕ) (sz e : UInt64) bytes, ¬ sz ≤ e →
      Bytes.read s0.memory.bytes p sz.toNat = some bytes → bytes ≠ [] := by
    intro p sz e bytes hlt hread hnil
    have hlen := Bytes.read_length hread
    rw [hnil, List.length_nil] at hlen
    rw [UInt64.le_iff_toNat_le] at hlt
    omega
  unfold sysRun
  mvcgen
  all_goals grind [Ran, Reported, NoArgs, RunAccepts, UInt64.not_le, entryPt_widened]

/-! ## All of them -/

/-- The condition under which the call does what it is asked for or reports that it does not. -/
def ReportsWhen (os : Os ω) (k : Syscall) (argv retv : UInt32) (vm : Vm (Sys ω)) : Prop :=
  match k with
  | .close => Reaches vm argv 8 → ∀ fd,
      usedSlot (fdHandleToIdx (word64 vm argv.toNat)) vm.host.io = some fd →
        (os.close fd.fd vm.host.world).1 = .ok () → HandleExact (word64 vm argv.toNat)
  | .kill => Reaches vm argv 8 →
      (os.kill (word64 vm argv.toNat).toUInt32.toInt32 vm.host.world).1 = .ok () →
        ofInt (word64 vm argv.toNat).toUInt32.toInt32 = word64 vm argv.toNat
  | .fsSeek => Reaches vm argv 24 → ∀ fd,
      usedSlot (fdHandleToIdx (word64 vm argv.toNat)) vm.host.io = some fd →
        ¬ 2 < word64 vm (argv.toNat + 16) →
          (os.lseek fd.fd (word64 vm (argv.toNat + 8)).toInt64 (word64 vm (argv.toNat + 16)).toNat
            vm.host.world).1 = .ok () → HandleExact (word64 vm argv.toNat)
  | .mexpand => Reaches vm argv 8 →
      (os.realloc ((vm.memory.size + (word64 vm argv.toNat).toNat) % 2 ^ 64)
        vm.host.world).1 = true → vm.memory.size + (word64 vm argv.toNat).toNat < 2 ^ 32
  | .codecp => Reaches vm argv 20 →
      vm.code.size < (word64 vm argv.toNat + word64 vm (argv.toNat + 8)).toNat →
        word64 vm retv.toNat ≠ 0
  | .onexit => Reaches vm argv 8 → Reaches vm (word64 vm (argv.toNat + 8)).toUInt32 56 →
      (word64 vm (argv.toNat + 16)).toNat < vm.code.size →
        findProc (word64 vm argv.toNat).toUInt32.toInt32 vm.host.proc ≠ none →
          ofInt (word64 vm argv.toNat).toUInt32.toInt32 = word64 vm argv.toNat ∧
            (word64 vm (argv.toNat + 8)).toNat < 2 ^ 32
  | .read | .write => IoTaken vm argv →
      HandleExact (word64 vm argv.toNat) ∧ (word64 vm (argv.toNat + 12)).toNat < 2 ^ 32
  | .exec => ExecAccepts vm argv ∨ vm.host.errorNo ≠ 0
  | .run => RunAccepts vm argv ∨ vm.host.errorNo ≠ 0
  | _ => True

/-- **Errors are reported**: a call that ends has done what it is asked for or reports that it has
not, exactly under its condition. -/
theorem errors_reported_iff (hos : ErrnoSet os) {k : Syscall} {vm vm' : Vm (Sys ω)}
    (hret : InMemory vm retv 8) (h : k.function os argv retv vm = .ok ((), vm')) :
    (¬ Carried os k argv retv vm vm' → Reported k retv vm') ↔ ReportsWhen os k argv retv vm := by
  rw [← or_iff_not_imp_left]
  cases k with
  | close => exact (of_exact (sysClose_reports hos hret)).1 () vm' h
  | kill => exact (of_exact (sysKill_reports hos hret)).1 () vm' h
  | fsSeek => exact (of_exact (sysFsSeek_reports hos hret)).1 () vm' h
  | mexpand => exact (of_exact (sysMexpand_reports hret)).1 () vm' h
  | mretract => exact iff_of_true ((of_exact (sysMretract_reports hret)).1 () vm' h) trivial
  | codecp => exact (of_exact (sysCodecp_reports hret)).1 () vm' h
  | onexit => exact (of_exact (sysOnexit_reports hret)).1 () vm' h
  | read => exact (of_exact (sysRead_reports hret)).1 () vm' h
  | write => exact (of_exact (sysWrite_reports hret)).1 () vm' h
  | exec => exact (of_exact (sysExec_reports hos hret)).1 () vm' h
  | run => exact (of_exact (sysRun_reports hos hret)).1 () vm' h
  | _ => exact iff_of_true (Or.inl trivial) trivial

theorem deadOs_errnoSet : ErrnoSet deadOs := by
  constructor
  all_goals
    intros
    rename_i h
    cases h
    decide

/-- A machine that is asked to signal process `7`, and the machine after it was refused. -/
def killVm (result : UInt8) (e : Int32) : Vm (Sys Unit) :=
  { memoryVm ⟨[7, 0, 0, 0, 0, 0, 0, 0, result, 0, 0, 0, 0, 0, 0, 0], by simp⟩ with
    host := { newSys () with errorNo := e, errno := e } }

/-- A signal that the operating system refuses is reported. -/
theorem errors_reported_refused : Reported .kill 8 (killVm 1 1) := by
  have hret : InMemory (killVm 9 0) 8 8 := show 8 + 8 ≤ 16 by omega
  have hreports := @errors_reported_iff Unit deadOs 0 8 deadOs_errnoSet .kill (killVm 9 0)
    (killVm 1 1) hret rfl
  refine hreports.2 (fun _ hok => ?_) ?_
  · cases hok
  · rintro ⟨pid, -, hok⟩
    cases hok

/-- The arguments of `codecp` at `0` for `100` bytes from the start of the code, and what it leaves
behind. -/
def codecpVm (e : Int32) : Vm (Sys Unit) :=
  { memoryVm ⟨[0, 0, 0, 0, 0, 0, 0, 0, 100] ++ List.replicate 23 0, by decide⟩ with
    host := { newSys () with errorNo := e } }

/-- `codecp` leaves the `0` of an earlier call in the result cell. -/
theorem codecp_stale : ¬ ∀ (os : Os Unit) (k : Syscall) (argv retv : UInt32)
    (vm vm' : Vm (Sys Unit)), ErrnoSet os → InMemory vm retv 8 →
      k.function os argv retv vm = .ok ((), vm') →
        ¬ Carried os k argv retv vm vm' → Reported k retv vm' := by
  intro h
  have hstale := h deadOs .codecp 0 24 (codecpVm 0) (codecpVm eINVAL) deadOs_errnoSet
    (by show 24 + 8 ≤ 32; omega) rfl
  have hnot : ¬ Carried deadOs .codecp 0 24 (codecpVm 0) (codecpVm eINVAL) := by
    rintro ⟨bytes, memory, hread, -⟩
    cases hread
  rcases (hstale hnot).2 with ⟨v, hload, hv⟩
  have hzero : (codecpVm eINVAL).memory.load 24 8 = some 0 := by decide +kernel
  rw [show (24 : UInt32).toNat = 24 from rfl, hzero] at hload
  cases hload
  exact absurd (hv.1 rfl) (by decide)

end BvgzVm
