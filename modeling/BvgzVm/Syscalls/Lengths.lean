import BvgzVm.Syscalls.Calls
import BvgzVm.Syscalls.Stored

set_option autoImplicit false

/-! # Lengths that the guest passes

`exec`, `run`, `read`, `write` and `fs_readdir` get the address of a region with 32 bits and its
length with 64. Each of them checks the region before it goes on (`Accepts`); the check has the low
32 bits of the length and computes the end in 32 bits. So a region that is accepted is inside the
memory exactly when its end, computed over the integers, has 32 bits (`lengths_iff`).
-/

namespace BvgzVm

open Stateful Std.Do

set_option mvcgen.warning false

variable {ω : Type}

attribute [local spec high] ub_exact deref_exact derefMem_exact loadU32_exact loadU64_exact
  storeU64_exact ensureNulTermStr_exact fail_exact argsRet_derefMem_exact argsRet_deref_exact
  usedFd_exact

/-! ## The handlers up to the check -/

/-- `sys_exec` up to the loop over the arguments: the pointers to the result and to the array, and
the number of arguments. -/
def execArray (argv retv : UInt32) : SysM ω (Option (ℕ × ℕ × UInt64)) := do
  let some (args, ret) ← argsRet derefMem argv 12 retv 0 | return none
  let argc ← loadU64 args
  if argc = 0 then
    fail eINVAL ret 0
    return none
  else
    match ← derefMem (← loadU32 (args + 8)) (argc * 4).toUInt32 with
    | none =>
        storeU64 ret 0
        return none
    | some argvR => return some (ret, argvR, argc)

/-- `sys_run` up to the image: the pointers to the result, to the code and to the memory, with
their sizes, and the entry point. -/
def runRegions (argv retv : UInt32) : SysM ω (Option (ℕ × ℕ × UInt64 × ℕ × UInt64 × UInt64)) := do
  let some (args, ret) ← argsRet derefMem argv 32 retv 0 | return none
  let codeRef ← loadU32 args
  let codesz ← loadU64 (args + 4)
  let memRef ← loadU32 (args + 12)
  let memsz ← loadU64 (args + 16)
  let entryPt ← loadU64 (args + 24)
  if codesz ≤ entryPt ∨ 2 ^ 32 ≤ codesz.toNat ∨ 2 ^ 32 ≤ memsz.toNat then
    fail eINVAL ret 0
    return none
  else
    match ← derefMem codeRef codesz.toUInt32 with
    | none =>
        storeU64 ret 0
        return none
    | some codePtr =>
        match ← derefMem memRef memsz.toUInt32 with
        | none =>
            storeU64 ret 0
            return none
        | some memPtr => return some (ret, codePtr, codesz, memPtr, memsz, entryPt)

/-- What `setup_sys_fs_call` gives `sys_fs_readdir`, the buffer with its length, and the addresses
of the three counts. -/
abbrev ReaddirBuffer := (ℕ × ℕ × ℕ) × Option ℕ × UInt64 × UInt32 × UInt32 × UInt32

/-- `sys_fs_readdir` up to the buffer. -/
def readdirBuffer (argv retv : UInt32) : SysM ω (Option ReaddirBuffer) := do
  let some (args, ret, path) ← setupSysFsCall argv retv 28 | return none
  let bufRef ← loadU32 (args + 4)
  let bufLen ← loadU64 (args + 8)
  let savedRef ← loadU32 (args + 16)
  let totalRef ← loadU32 (args + 20)
  let minRef ← loadU32 (args + 24)
  let some buf ← readDirBuf bufRef bufLen ret | return none
  return some ((args, ret, path), buf, bufLen, savedRef, totalRef, minRef)

/-! ### The handlers begin with them -/

theorem sysExec_eq (os : Os ω) (argv retv : UInt32) :
    sysExec os argv retv = (do
      let some (ret, argvR, argc) ← execArray argv retv | return
      match ← execArgs argvR argc.toNat 0 with
      | none => storeU64 ret 0
      | some strs => forked (← call (os.forkExec strs)) ret) := by
  unfold sysExec execArray
  simp only [bind_assoc]
  refine bind_congr fun r => ?_
  cases r with
  | none => rfl
  | some r =>
      simp only [bind_assoc]
      refine bind_congr fun argc => ?_
      by_cases hargc : argc = 0
      · simp only [if_pos hargc, bind_assoc, pure_bind, bind_pure_unit]
      · simp only [if_neg hargc, bind_assoc]
        refine bind_congr fun ref => bind_congr fun p => ?_
        cases p with
        | none => simp only [bind_assoc, pure_bind, bind_pure_unit]
        | some p => rfl

theorem sysRun_eq (os : Os ω) (argv retv : UInt32) :
    sysRun os argv retv = (do
      let some (ret, codePtr, codesz, memPtr, memsz, entryPt) ← runRegions argv retv | return
      let code ← readMemBytes codePtr codesz.toNat
      let mem ← readMemBytes memPtr memsz.toNat
      runImage os code mem entryPt ret) := by
  unfold sysRun runRegions
  simp only [bind_assoc]
  refine bind_congr fun r => ?_
  cases r with
  | none => rfl
  | some r =>
      simp only [bind_assoc]
      refine bind_congr fun codeRef => bind_congr fun codesz => bind_congr fun memRef =>
        bind_congr fun memsz => bind_congr fun entryPt => ?_
      split
      · simp only [bind_assoc, pure_bind, bind_pure_unit]
      · simp only [bind_assoc]
        refine bind_congr fun codePtr => ?_
        cases codePtr with
        | none => simp only [bind_assoc, pure_bind, bind_pure_unit]
        | some codePtr =>
            simp only [bind_assoc]
            refine bind_congr fun memPtr => ?_
            cases memPtr with
            | none => simp only [bind_assoc, pure_bind, bind_pure_unit]
            | some memPtr => rfl

theorem sysFsReaddir_eq (os : Os ω) (argv retv : UInt32) :
    sysFsReaddir os argv retv = (do
      let some ((_, ret, path), buf, bufLen, savedRef, totalRef, minRef) ←
        readdirBuffer argv retv | return
      let nSaved ← deref savedRef 4
      let nTotal ← deref totalRef 4
      let minBuf ← deref minRef 4
      if buf = none ∧ minBuf = none then fail eINVAL ret 1
      else
        match ← call (os.opendir (← readStr path)) with
        | none => failErrno ret 1
        | some names =>
            storeU64 ret 0
            setErrno 0
            setErrorNo 0
            let d ← readDirLoop (buf.getD 0) bufLen ret names ⟨0, 0, 0, 4, bufLen.toNat⟩
            storeIf nSaved (UInt64.ofNat d.savedEntries)
            storeIf nTotal d.totalEntries.toUInt64
            storeIf minBuf d.bufRequired.toUInt64) := by
  unfold sysFsReaddir readdirBuffer
  simp only [bind_assoc]
  refine bind_congr fun r => ?_
  cases r with
  | none => rfl
  | some r =>
      simp only [bind_assoc]
      refine bind_congr fun bufRef => bind_congr fun bufLen => bind_congr fun savedRef =>
        bind_congr fun totalRef => bind_congr fun minRef => bind_congr fun buf => ?_
      cases buf with
      | none => rfl
      | some buf => rfl

/-! ## What is accepted -/

/-- The call has accepted the `n` bytes at `ref` and goes on with them: `n` is the number that the
guest has passed, times `4` for the array of `exec`. -/
def Accepts (vm : Vm (Sys ω)) (argv retv : UInt32) (k : Syscall) (ref : UInt32) (n : ℕ) : Prop :=
  match k with
  | .exec => ∃ argc vm', execArray argv retv vm = .ok (some (retv.toNat, ref.toNat, argc), vm') ∧
      n = 4 * argc.toNat
  | .run => ∃ codeRef codesz memRef memsz entryPt vm',
      runRegions argv retv vm =
        .ok (some (retv.toNat, UInt32.toNat codeRef, codesz, UInt32.toNat memRef, memsz, entryPt),
          vm') ∧ (ref = codeRef ∧ n = codesz.toNat ∨ ref = memRef ∧ n = memsz.toNat)
  | .read | .write => ∃ (task : IoTask) (len : UInt64) (vm' : Vm (Sys ω)),
      getIoTaskParams argv retv vm = .ok (some task, vm') ∧
        vm.memory.load (argv.toNat + 12) 8 = some len.toNat ∧ ref = task.ptr ∧ n = len.toNat
  | .fsReaddir => ∃ setup bufLen refs vm',
      readdirBuffer argv retv vm = .ok (some (setup, some ref.toNat, bufLen, refs), vm') ∧
        n = bufLen.toNat
  | _ => False

/-! ### On the input -/

/-- The arguments with which `sys_exec` accepts the array of `argc` pointers at `ref`. -/
structure ExecPasses (vm : Vm (Sys ω)) (argv retv ref : UInt32) (argc : UInt64) : Prop where
  args : ArgsReach vm argv 12 retv
  loadArgc : vm.memory.load argv.toNat 8 = some argc.toNat
  pos : argc ≠ 0
  loadRef : vm.memory.load (argv.toNat + 8) 4 = some ref.toNat
  reaches : Reaches vm ref (argc * 4).toUInt32

/-- The arguments with which `sys_run` accepts the code and the memory of an image. -/
structure RunPasses (vm : Vm (Sys ω)) (argv retv codeRef : UInt32) (codesz : UInt64)
    (memRef : UInt32) (memsz entryPt : UInt64) : Prop where
  args : ArgsReach vm argv 32 retv
  loadCodeRef : vm.memory.load argv.toNat 4 = some codeRef.toNat
  loadCodesz : vm.memory.load (argv.toNat + 4) 8 = some codesz.toNat
  loadMemRef : vm.memory.load (argv.toNat + 12) 4 = some memRef.toNat
  loadMemsz : vm.memory.load (argv.toNat + 16) 8 = some memsz.toNat
  loadEntryPt : vm.memory.load (argv.toNat + 24) 8 = some entryPt.toNat
  entry : entryPt < codesz
  codeFits : codesz.toNat < 2 ^ 32
  memFits : memsz.toNat < 2 ^ 32
  code : Reaches vm codeRef codesz.toUInt32
  mem : Reaches vm memRef memsz.toUInt32

/-- The arguments with which `sys_read` and `sys_write` accept the buffer at `ref`. -/
structure IoPasses (vm : Vm (Sys ω)) (argv retv ref : UInt32) (len : UInt64) : Prop where
  args : ArgsReach vm argv 40 retv
  inside : InMemory vm argv 28
  used : ∀ handle : UInt64, vm.memory.load argv.toNat 8 = some handle.toNat →
    usedSlot (fdHandleToIdx handle) vm.host.io ≠ none
  loadRef : vm.memory.load (argv.toNat + 8) 4 = some ref.toNat
  loadLen : vm.memory.load (argv.toNat + 12) 8 = some len.toNat
  buffer : Reaches vm ref len.toUInt32
  cbArgs : ∀ cbArgs : UInt32, vm.memory.load (argv.toNat + 20) 4 = some cbArgs.toNat →
    Reaches vm cbArgs 32
  callback : ∀ callback : UInt32, vm.memory.load (argv.toNat + 24) 4 = some callback.toNat →
    callback.toNat < vm.code.size

/-- The arguments with which `setup_sys_fs_call` accepts a path. -/
structure PathPasses (vm : Vm (Sys ω)) (argv size retv path : UInt32) : Prop where
  args : ArgsReach vm argv size retv
  loadPath : vm.memory.load argv.toNat 4 = some path.toNat
  reaches : Reaches vm path 1
  term : NulTerm vm path.toNat

/-- The arguments with which `sys_fs_readdir` accepts the buffer at `ref`. -/
structure ReaddirPasses (vm : Vm (Sys ω)) (argv retv ref : UInt32) (len : UInt64) : Prop where
  inside : InMemory vm argv 28
  path : ∃ path, PathPasses vm argv 28 retv path
  loadRef : vm.memory.load (argv.toNat + 4) 4 = some ref.toNat
  loadLen : vm.memory.load (argv.toNat + 8) 8 = some len.toNat
  pos : 0 < len
  buffer : Reaches vm ref len.toUInt32

/-- The arguments with which the call accepts the `n` bytes at `ref`, on the machine before it. The
checks look at the low 32 bits of `n`. -/
def Passes (vm : Vm (Sys ω)) (argv retv : UInt32) (k : Syscall) (ref : UInt32) (n : ℕ) : Prop :=
  match k with
  | .exec => ∃ argc, ExecPasses vm argv retv ref argc ∧ n = 4 * argc.toNat
  | .run => ∃ codeRef codesz memRef memsz entryPt,
      RunPasses vm argv retv codeRef codesz memRef memsz entryPt ∧
        (ref = codeRef ∧ n = codesz.toNat ∨ ref = memRef ∧ n = memsz.toNat)
  | .read | .write => ∃ len, IoPasses vm argv retv ref len ∧ n = len.toNat
  | .fsReaddir => ∃ len, ReaddirPasses vm argv retv ref len ∧ n = len.toNat
  | _ => False

/-! ### Both are the same -/

attribute [local grind =] ArgsReach InMemory

@[local grind →] theorem eq_of_toNat32 {a b : UInt32} (h : a.toNat = b.toNat) : a = b :=
  UInt32.toNat_inj.1 h

@[local grind →] theorem eq_of_toNat64 {a b : UInt64} (h : a.toNat = b.toNat) : a = b :=
  UInt64.toNat_inj.1 h

theorem execArray_exact (s0 : Vm (Sys ω)) (argv retv : UInt32) :
    ⦃fun vm => ⌜vm = s0⌝⦄ (execArray argv retv : SysM ω _)
    ⦃post⟨fun r _ => ⌜∀ ref argc, r = some (retv.toNat, ref.toNat, argc) ↔
        ExecPasses s0 argv retv ref argc⌝,
      fun _ => ⌜∀ ref argc, ¬ ExecPasses s0 argv retv ref argc⌝⟩⦄ := by
  unfold execArray
  mvcgen
  all_goals grind [ExecPasses, NoArgs, Segment.load_eq_none]

theorem runRegions_exact (s0 : Vm (Sys ω)) (argv retv : UInt32) :
    ⦃fun vm => ⌜vm = s0⌝⦄ (runRegions argv retv : SysM ω _)
    ⦃post⟨fun r _ => ⌜∀ codeRef codesz memRef memsz entryPt,
        r = some (retv.toNat, codeRef.toNat, codesz, memRef.toNat, memsz, entryPt) ↔
          RunPasses s0 argv retv codeRef codesz memRef memsz entryPt⌝,
      fun _ => ⌜∀ codeRef codesz memRef memsz entryPt,
        ¬ RunPasses s0 argv retv codeRef codesz memRef memsz entryPt⌝⟩⦄ := by
  unfold runRegions
  mvcgen
  all_goals grind [RunPasses, NoArgs, Segment.load_eq_none]

theorem getIoTaskParams_exact (s0 : Vm (Sys ω)) (argv retv : UInt32) :
    ⦃fun vm => ⌜vm = s0⌝⦄ (getIoTaskParams argv retv : SysM ω _)
    ⦃post⟨fun r _ => ⌜∀ ref len, (r.map IoTask.ptr = some ref ∧
        s0.memory.load (argv.toNat + 12) 8 = some len.toNat) ↔ IoPasses s0 argv retv ref len⌝,
      fun _ => ⌜∀ ref len, ¬ IoPasses s0 argv retv ref len⌝⟩⦄ := by
  unfold getIoTaskParams
  mvcgen
  all_goals grind [IoPasses, NoArgs, Segment.load_eq_none, Option.isNone_iff_eq_none]

@[local spec high] theorem setupSysFsCall_exact (s0 : Vm (Sys ω)) (argv retv size : UInt32) :
    ⦃fun vm => ⌜vm = s0⌝⦄ (setupSysFsCall argv retv size : SysM ω _)
    ⦃post⟨fun r vm => ⌜(r = none ∧ ∀ path, ¬ PathPasses s0 argv size retv path) ∨
        vm = s0 ∧ ∃ path, r = some (argv.toNat, retv.toNat, path.toNat) ∧
          PathPasses s0 argv size retv path⌝,
      fun _ => ⌜∀ path, ¬ PathPasses s0 argv size retv path⌝⟩⦄ := by
  unfold setupSysFsCall
  mvcgen
  all_goals grind [NoArgs, Segment.load_eq_none, PathPasses]

@[local spec high] theorem readDirBuf_exact (s0 : Vm (Sys ω)) (bufRef : UInt32) (bufLen : UInt64)
    (ret : ℕ) :
    ⦃fun vm => ⌜vm = s0⌝⦄ (readDirBuf bufRef bufLen ret : SysM ω _)
    ⦃post⟨fun r _ => ⌜(r = none ∧ 0 < bufLen ∧ ¬ Reaches s0 bufRef bufLen.toUInt32) ∨
        (r = some none ∧ bufLen = 0) ∨
        r = some (some bufRef.toNat) ∧ 0 < bufLen ∧ Reaches s0 bufRef bufLen.toUInt32⌝,
      fun _ => ⌜0 < bufLen ∧ ¬ Reaches s0 bufRef bufLen.toUInt32⌝⟩⦄ := by
  unfold readDirBuf
  mvcgen
  all_goals grind

theorem readdirBuffer_exact (s0 : Vm (Sys ω)) (argv retv : UInt32) :
    ⦃fun vm => ⌜vm = s0⌝⦄ (readdirBuffer argv retv : SysM ω _)
    ⦃post⟨fun r _ => ⌜∀ ref bufLen, r.map (fun x => (x.2.1, x.2.2.1)) =
        some (some ref.toNat, bufLen) ↔ ReaddirPasses s0 argv retv ref bufLen⌝,
      fun _ => ⌜∀ ref bufLen, ¬ ReaddirPasses s0 argv retv ref bufLen⌝⟩⦄ := by
  unfold readdirBuffer
  mvcgen
  all_goals grind [ReaddirPasses, Segment.load_eq_none]

/-- The checks look at the machine before the call. -/
theorem accepts_iff (vm : Vm (Sys ω)) (argv retv : UInt32) (k : Syscall) (ref : UInt32) (n : ℕ) :
    Accepts vm argv retv k ref n ↔ Passes vm argv retv k ref n := by
  cases k with
  | exec =>
      have hexact := of_exact (execArray_exact vm argv retv)
      constructor
      · rintro ⟨argc, vm', hok, hn⟩
        exact ⟨argc, (hexact.1 _ _ hok _ _).1 rfl, hn⟩
      · rintro ⟨argc, hpasses, hn⟩
        cases hrun : (execArray argv retv vm) with
        | error e => exact absurd hpasses (hexact.2 e hrun _ _)
        | ok r =>
            rcases r with ⟨r, vm'⟩
            have hr := (hexact.1 _ _ hrun _ _).2 hpasses
            exact ⟨argc, vm', by rw [hrun, hr], hn⟩
  | run =>
      have hexact := of_exact (runRegions_exact vm argv retv)
      constructor
      · rintro ⟨codeRef, codesz, memRef, memsz, entryPt, vm', hok, hn⟩
        exact ⟨codeRef, codesz, memRef, memsz, entryPt, (hexact.1 _ _ hok _ _ _ _ _).1 rfl, hn⟩
      · rintro ⟨codeRef, codesz, memRef, memsz, entryPt, hpasses, hn⟩
        cases hrun : (runRegions argv retv vm) with
        | error e => exact absurd hpasses (hexact.2 e hrun _ _ _ _ _)
        | ok r =>
            rcases r with ⟨r, vm'⟩
            have hr := (hexact.1 _ _ hrun _ _ _ _ _).2 hpasses
            exact ⟨codeRef, codesz, memRef, memsz, entryPt, vm', by rw [hrun, hr], hn⟩
  | read | write =>
      have hexact := of_exact (getIoTaskParams_exact vm argv retv)
      constructor
      · rintro ⟨task, len, vm', hok, hlen, rfl, hn⟩
        exact ⟨len, (hexact.1 _ _ hok _ _).1 ⟨rfl, hlen⟩, hn⟩
      · rintro ⟨len, hpasses, hn⟩
        cases hrun : (getIoTaskParams argv retv vm) with
        | error e => exact absurd hpasses (hexact.2 e hrun _ _)
        | ok r =>
            rcases r with ⟨r, vm'⟩
            have hr := (hexact.1 _ _ hrun _ _).2 hpasses
            rcases Option.map_eq_some_iff.1 hr.1 with ⟨task, rfl, hptr⟩
            exact ⟨task, len, vm', hrun, hr.2, hptr.symm, hn⟩
  | fsReaddir =>
      have hexact := of_exact (readdirBuffer_exact vm argv retv)
      constructor
      · rintro ⟨setup, bufLen, refs, vm', hok, hn⟩
        exact ⟨bufLen, (hexact.1 _ _ hok _ _).1 rfl, hn⟩
      · rintro ⟨bufLen, hpasses, hn⟩
        cases hrun : (readdirBuffer argv retv vm) with
        | error e => exact absurd hpasses (hexact.2 e hrun _ _)
        | ok r =>
            rcases r with ⟨r, vm'⟩
            have hr := (hexact.1 _ _ hrun _ _).2 hpasses
            rcases Option.map_eq_some_iff.1 hr with ⟨⟨setup, buf, len, refs⟩, rfl, hbuf⟩
            cases hbuf
            exact ⟨setup, _, refs, vm', hrun, hn⟩
  | _ => exact Iff.rfl

/-! ## Regions that end before the last address -/

/-- The size of the array of `exec`, as it is checked. -/
theorem mul_toUInt32 (argc : UInt64) :
    (argc * 4).toUInt32 = UInt32.ofNat (4 * argc.toNat) := by
  apply UInt32.toNat_inj.1
  simp only [UInt32.toNat_ofNat', UInt64.toNat_toUInt32, UInt64.toNat_mul, UInt64.toNat_ofNat]
  omega

/-- What a call accepts is checked with the low 32 bits of its length. -/
theorem Passes.reaches {vm : Vm (Sys ω)} {argv retv : UInt32} {k : Syscall} {ref : UInt32} {n : ℕ}
    (h : Passes vm argv retv k ref n) : Reaches vm ref (UInt32.ofNat n) := by
  cases k with
  | exec =>
      rcases h with ⟨argc, hpasses, rfl⟩
      rw [← mul_toUInt32]
      exact hpasses.reaches
  | run =>
      rcases h with ⟨codeRef, codesz, memRef, memsz, entryPt, hpasses, ⟨rfl, rfl⟩ | ⟨rfl, rfl⟩⟩
      · exact hpasses.code
      · exact hpasses.mem
  | read | write =>
      rcases h with ⟨len, hpasses, rfl⟩
      exact hpasses.buffer
  | fsReaddir =>
      rcases h with ⟨len, hpasses, rfl⟩
      exact hpasses.buffer
  | _ => exact h.elim

/-- A region that is checked with the low 32 bits of its length is inside the memory exactly when
it fits. -/
theorem inside_iff_fits {vm : Vm (Sys ω)} {ref : UInt32} {n : ℕ}
    (h : Reaches vm ref (UInt32.ofNat n)) : InMemory vm ref n ↔ Fits ref n := by
  constructor
  · exact InMemory.fits
  · intro hfits
    have hn : (UInt32.ofNat n).toNat = n :=
      UInt32.toNat_ofNat_of_lt' (Nat.lt_of_le_of_lt (Nat.le_add_left _ _) hfits)
    have hfits' : Fits ref (UInt32.ofNat n).toNat := by rwa [hn]
    have hinside := hfits'.reaches_iff.1 h
    rwa [hn] at hinside

/-- A region inside the memory passes its check. -/
theorem InMemory.reaches_low {vm : Vm (Sys ω)} {ref : UInt32} {n : ℕ} (h : InMemory vm ref n) :
    Reaches vm ref (UInt32.ofNat n) := by
  have hn : (UInt32.ofNat n).toNat = n :=
    UInt32.toNat_ofNat_of_lt' (Nat.lt_of_le_of_lt (Nat.le_add_left _ _) h.fits)
  have hin : InMemory vm ref (UInt32.ofNat n).toNat := by rwa [hn]
  exact (Fits.reaches_iff hin.fits).2 hin

/-- **Guest-supplied lengths**: what a call accepts is inside the memory, over the integers, exactly
when no region that passes its check reaches over the last address. -/
theorem lengths_iff (vm : Vm (Sys ω)) (argv retv : UInt32) (k : Syscall) :
    (∀ ref n, Accepts vm argv retv k ref n → InMemory vm ref n) ↔
      ∀ ref n, Passes vm argv retv k ref n → Fits ref n := by
  constructor
  · intro h ref n hpasses
    have hinside := h ref n ((accepts_iff ..).2 hpasses)
    exact hinside.fits
  · intro h ref n haccepts
    have hpasses := (accepts_iff ..).1 haccepts
    exact (inside_iff_fits hpasses.reaches).2 (h ref n hpasses)

/-- A machine with this memory, which has not done anything. -/
def memoryVm (memory : Segment) : Vm (Sys Unit) where
  code := retCode
  memory := memory
  exceptions := 0
  procedures := [newProc 0]
  iptr := 0xffffffff
  instns := 0
  assertId := 0
  instnsSinceLastCleanup := 0
  host := newSys ()

/-- The arguments of `exec` at `0`: `2 ^ 30` pointers, whose size has no low bits. -/
def manyArgs : Vm (Sys Unit) :=
  memoryVm ⟨[0, 0, 0, 0x40, 0, 0, 0, 0] ++ List.replicate 16 0, by decide⟩

/-- `exec` accepts an array of `2 ^ 32` bytes in a memory of `24`. -/
theorem exec_accepts_many : ¬ ∀ (vm : Vm (Sys Unit)) (argv retv : UInt32) (k : Syscall)
    (ref : UInt32) (n : ℕ), Accepts vm argv retv k ref n → InMemory vm ref n := by
  intro h
  have hpasses : ExecPasses manyArgs 0 16 0 0x40000000 :=
    ⟨⟨by decide +kernel, by decide +kernel⟩, by decide +kernel, by decide, by decide +kernel,
      by decide +kernel⟩
  have hinside := h manyArgs 0 16 .exec 0 (2 ^ 32)
    ((accepts_iff ..).2 ⟨0x40000000, hpasses, rfl⟩)
  have hfits := hinside.fits
  unfold Fits at hfits
  omega

end BvgzVm
