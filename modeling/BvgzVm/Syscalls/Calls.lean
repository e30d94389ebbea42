import BvgzVm.Syscalls.Spec
import BvgzVm.Syscalls.Table

set_option autoImplicit false

/-! # What a system call does

Every system call moves the tables by valid actions and leaves the code as it is, and it leaves
the exception word as it is if its arguments are such (`QuietCall`) that none of the functions
which set an exception (`deref_mem_ptr`, `ensure_nul_term_str`, `make_func_procedure`) fails.
`CallActs` says this of the rest of a call, with one rule for each of the parts that calls are made
of, and each call is gone through from part to part; `syscall_moves` is what they have in common.
-/

namespace BvgzVm

open Stateful Std.Do

set_option mvcgen.warning false

variable {ω α : Type}

/-! ## Arguments without exceptions -/

/-- The blocks of the arguments and of the result are accepted. -/
def ArgsReach (vm : Vm (Sys ω)) (argv size retv : UInt32) : Prop :=
  Reaches vm argv size ∧ Reaches vm retv 8

/-- The path, if it is looked at, has a terminator. -/
def PathTerm (vm : Vm (Sys ω)) (argv size retv : UInt32) : Prop :=
  ArgsReach vm argv size retv → ∀ path : UInt32,
    vm.memory.load argv.toNat 4 = some path.toNat → Reaches vm path 1 → NulTerm vm path.toNat

/-- The buffer of `sys_fs_stat`, if the path is accepted. -/
def StatReach (vm : Vm (Sys ω)) (argv retv : UInt32) : Prop :=
  ArgsReach vm argv 8 retv → ∀ path stat : UInt32,
    vm.memory.load argv.toNat 4 = some path.toNat → Reaches vm path 1 →
      vm.memory.load (argv.toNat + 4) 4 = some stat.toNat → Reaches vm stat statSize

/-- The arguments of the program that `sys_exec` starts, `todo` of them from number `a` on. -/
def ExecArgs (vm : Vm (Sys ω)) (argvR todo a : Nat) : Prop :=
  ∀ k str, k < todo → vm.memory.load (argvR + 4 * (a + k)) 4 = some (UInt32.toNat str) →
    Reaches vm str 1 ∧ NulTerm vm str.toNat

/-- The arguments of `sys_exec`. -/
def ExecReach (vm : Vm (Sys ω)) (argv retv : UInt32) : Prop :=
  ArgsReach vm argv 12 retv ∧ ∀ (argc : UInt64) (argvR : UInt32),
    vm.memory.load argv.toNat 8 = some argc.toNat →
      vm.memory.load (argv.toNat + 8) 4 = some argvR.toNat → argc ≠ 0 →
        Reaches vm argvR (argc * 4).toUInt32 ∧ ExecArgs vm argvR.toNat argc.toNat 0

/-- The code and the memory of the image that `sys_run` starts. -/
def RunReach (vm : Vm (Sys ω)) (argv retv : UInt32) : Prop :=
  ArgsReach vm argv 32 retv ∧ ∀ (codeRef memRef : UInt32) (codesz memsz entryPt : UInt64),
    vm.memory.load argv.toNat 4 = some codeRef.toNat →
    vm.memory.load (argv.toNat + 4) 8 = some codesz.toNat →
    vm.memory.load (argv.toNat + 12) 4 = some memRef.toNat →
    vm.memory.load (argv.toNat + 16) 8 = some memsz.toNat →
    vm.memory.load (argv.toNat + 24) 8 = some entryPt.toNat →
    entryPt < codesz → codesz.toNat < 2 ^ 32 → memsz.toNat < 2 ^ 32 →
      Reaches vm codeRef codesz.toUInt32 ∧ Reaches vm memRef memsz.toUInt32

/-- The range that `sys_codecp` copies to. -/
def CodecpReach (vm : Vm (Sys ω)) (argv retv : UInt32) : Prop :=
  ArgsReach vm argv 20 retv ∧ ∀ (start size : UInt64) (ptr : UInt32),
    vm.memory.load argv.toNat 8 = some start.toNat →
    vm.memory.load (argv.toNat + 8) 8 = some size.toNat →
    vm.memory.load (argv.toNat + 16) 4 = some ptr.toNat →
    (start + size).toNat ≤ vm.code.size → Reaches vm ptr size.toUInt32

/-- The callback of `sys_connect` is inside the code, if the connection is there at once and the
callback has its arguments. -/
def ConnectReach (os : Os ω) (vm : Vm (Sys ω)) (argv retv : UInt32) : Prop :=
  ArgsReach vm argv 20 retv → ∀ (handle : UInt64) (addrRef cbArgs callback : UInt32) fd addr,
    vm.memory.load argv.toNat 8 = some handle.toNat →
    usedSlot (fdHandleToIdx handle) vm.host.io = some fd →
    vm.memory.load (argv.toNat + 8) 4 = some addrRef.toNat → Reaches vm addrRef 6 →
    vm.memory.load addrRef.toNat 4 = some addr.sAddr.toNat →
    vm.memory.load (addrRef.toNat + 4) 2 = some addr.sinPort.toNat →
    vm.memory.load (argv.toNat + 12) 4 = some cbArgs.toNat → Reaches vm cbArgs 16 →
    vm.memory.load (argv.toNat + 16) 4 = some callback.toNat →
    (os.connect fd.fd addr vm.host.world).1.toOption ≠ none → callback.toNat < vm.code.size

/-- The arguments with which a system call sets no exception. -/
def QuietCall (os : Os ω) (k : Syscall) (argv retv : UInt32) (vm : Vm (Sys ω)) : Prop :=
  match k with
  | .close | .mexpand | .mretract | .kill | .onexit => ArgsReach vm argv 8 retv
  | .read | .write => ArgsReach vm argv 40 retv
  | .fsSeek => ArgsReach vm argv 24 retv
  | .msize | .codesz => Reaches vm retv 8
  | .fsOpen => PathTerm vm argv 12 retv
  | .fsStat => PathTerm vm argv 8 retv ∧ StatReach vm argv retv
  | .fsUnlink | .fsMkdir | .fsRmdir => PathTerm vm argv 4 retv
  | .fsReaddir => PathTerm vm argv 28 retv
  | .exec => ExecReach vm argv retv
  | .run => RunReach vm argv retv
  | .codecp => CodecpReach vm argv retv
  | .connect => ConnectReach os vm argv retv
  | .getlasterr | .setlasterr | .time | .timeout | .yield | .socket | .bind | .listen | .accept
  | .peerAddress => True

/-! ## From part to part -/

/-- What a call has done so far: the tables have been moved by valid actions, procedures have been
appended, and where `quiet` holds no exception has been set. -/
structure CallMoves (os : Os ω) (quiet : Prop) (vm vm' : Vm (Sys ω)) : Prop where
  acts : Acts os vm vm'
  quiet : quiet → vm'.exceptions = vm.exceptions

/-- Where the rest of a call returns, the whole call has done no more than this. -/
def CallActs (os : Os ω) (quiet : Prop) (s0 : Vm (Sys ω)) (run : Except Ub (α × Vm (Sys ω))) :
    Prop :=
  ∀ a vm, run = .ok (a, vm) → CallMoves os quiet s0 vm

section Rules

variable {β : Type} {os : Os ω} {quiet : Prop} {s0 s s' : Vm (Sys ω)}

theorem CallMoves.refl (os : Os ω) (quiet : Prop) (s : Vm (Sys ω)) : CallMoves os quiet s s :=
  ⟨Acts.refl os s, fun _ => rfl⟩

theorem CallMoves.same (h : CallMoves os quiet s0 s) (hsame : Same s s') :
    CallMoves os quiet s0 s' :=
  ⟨h.acts.trans_same hsame.sameProcs, fun hq => hsame.exceptions.trans (h.quiet hq)⟩

/-- A part that sets an exception, where `quiet` does not hold. -/
theorem CallMoves.sameProcs (h : CallMoves os quiet s0 s) (hsame : SameProcs s s')
    (hexc : quiet → s'.exceptions = s.exceptions) : CallMoves os quiet s0 s' :=
  ⟨h.acts.trans_same hsame, fun hq => (hexc hq).trans (h.quiet hq)⟩

theorem CallMoves.ioActs (h : CallMoves os quiet s0 s) (hacts : IoActs os.evtSize s s') :
    CallMoves os quiet s0 s' :=
  ⟨h.acts.trans_ioActs hacts, fun hq => hacts.only.exceptions.trans (h.quiet hq)⟩

theorem CallMoves.slotActs (h : CallMoves os quiet s0 s) (hacts : SlotActs s s') :
    CallMoves os quiet s0 s' :=
  h.ioActs ⟨hacts.only, hacts.io os.evtSize, hacts.proc⟩

theorem CallMoves.procActs (h : CallMoves os quiet s0 s) (hacts : ProcActs s s') :
    CallMoves os quiet s0 s' :=
  ⟨h.acts.trans_procActs hacts, fun hq => hacts.only.exceptions.trans (h.quiet hq)⟩

theorem acts_pure {a : α} (h : CallMoves os quiet s0 s) :
    CallActs os quiet s0 ((pure a : SysM ω α) s) := by
  intro b vm hrun
  cases hrun
  exact h

theorem acts_ub {e : Ub} : CallActs os quiet s0 ((ub e : SysM ω α) s) := by
  intro a vm hrun
  cases hrun

/-- One part after the other. -/
theorem acts_bind {m : SysM ω α} {f : α → SysM ω β}
    (hf : ∀ a s', m s = .ok (a, s') → CallActs os quiet s0 (f a s')) :
    CallActs os quiet s0 ((m >>= f) s) := by
  intro b vm hrun
  obtain ⟨a, s', hm, hrest⟩ := bind_eq_ok.1 hrun
  exact hf a s' hm b vm hrest

/-- The last part. -/
theorem acts_last {m : SysM ω α} (h : CallMoves os quiet s0 s)
    (hm : ⦃fun vm => ⌜vm = s⌝⦄ m ⦃⇓? _ => fun vm => ⌜Same s vm⌝⦄) :
    CallActs os quiet s0 (m s) :=
  fun _ _ hrun => h.same (of_triple hm hrun)

theorem acts_store_last {p : ℕ} {v : UInt64} (h : CallMoves os quiet s0 s) :
    CallActs os quiet s0 (storeU64 p v s) :=
  fun _ _ hrun => h.same (of_triple (storeU64_spec s p v) hrun).1

theorem acts_setErrorNo_last {e : Int32} (h : CallMoves os quiet s0 s) :
    CallActs os quiet s0 (setErrorNo e s) :=
  fun _ _ hrun => h.same (of_triple (setErrorNo_spec s e) hrun).1

theorem acts_fail {e : Int32} {ret : ℕ} {bad : UInt64} (h : CallMoves os quiet s0 s) :
    CallActs os quiet s0 (fail e ret bad s) :=
  fun _ _ hrun => h.same (of_triple (fail_spec s e ret bad) hrun).1

theorem acts_failErrno {ret : ℕ} {bad : UInt64} (h : CallMoves os quiet s0 s) :
    CallActs os quiet s0 (failErrno ret bad s) :=
  fun _ _ hrun => h.same (of_triple (failErrno_spec s ret bad) hrun).1

theorem acts_get {f : Vm (Sys ω) → SysM ω β} (hf : CallActs os quiet s0 (f s s)) :
    CallActs os quiet s0 ((get >>= f) s) := hf

theorem acts_getErrno {f : Int32 → SysM ω β} (hf : CallActs os quiet s0 (f s.host.errno s)) :
    CallActs os quiet s0 ((getErrno >>= f) s) := hf

/-! ### Memory -/

theorem acts_load32 {p : ℕ} {f : UInt32 → SysM ω β}
    (hf : ∀ r, s.memory.load p 4 = some r.toNat → CallActs os quiet s0 (f r s)) :
    CallActs os quiet s0 ((loadU32 p >>= f) s) := by
  refine acts_bind fun r s' hrun => ?_
  obtain ⟨rfl, hload⟩ := of_triple (loadU32_spec s p) hrun
  exact hf r hload

theorem acts_load64 {p : ℕ} {f : UInt64 → SysM ω β}
    (hf : ∀ r, s.memory.load p 8 = some r.toNat → CallActs os quiet s0 (f r s)) :
    CallActs os quiet s0 ((loadU64 p >>= f) s) := by
  refine acts_bind fun r s' hrun => ?_
  obtain ⟨rfl, hload⟩ := of_triple (loadU64_spec s p) hrun
  exact hf r hload

theorem acts_readMemBytes {p n : ℕ} {f : List UInt8 → SysM ω β}
    (hf : ∀ bs, CallActs os quiet s0 (f bs s)) :
    CallActs os quiet s0 ((readMemBytes p n >>= f) s) := by
  refine acts_bind fun bs s' hrun => ?_
  obtain rfl := of_triple (readMemBytes_spec s p n) hrun
  exact hf bs

theorem acts_readStr {p : ℕ} {f : List UInt8 → SysM ω β}
    (hf : ∀ str, CallActs os quiet s0 (f str s)) :
    CallActs os quiet s0 ((readStr p >>= f) s) := by
  refine acts_bind fun str s' hrun => ?_
  obtain rfl := of_triple (readStr_spec s p) hrun
  exact hf str

theorem acts_store {p : ℕ} {v : UInt64} {f : Unit → SysM ω β} (h : CallMoves os quiet s0 s)
    (hf : ∀ s', Same s s' → CallMoves os quiet s0 s' → CallActs os quiet s0 (f () s')) :
    CallActs os quiet s0 ((storeU64 p v >>= f) s) := by
  refine acts_bind fun _ s' hrun => ?_
  have hsame := (of_triple (storeU64_spec s p v) hrun).1
  exact hf s' hsame (h.same hsame)

theorem acts_fail_then {e : Int32} {ret : ℕ} {bad : UInt64} {f : Unit → SysM ω β}
    (h : CallMoves os quiet s0 s)
    (hf : ∀ s', CallMoves os quiet s0 s' → CallActs os quiet s0 (f () s')) :
    CallActs os quiet s0 ((fail e ret bad >>= f) s) := by
  refine acts_bind fun _ s' hrun => ?_
  exact hf s' (h.same (of_triple (fail_spec s e ret bad) hrun).1)

/-- A pointer is checked with `deref`. -/
theorem acts_deref {ref size : UInt32} {f : Option ℕ → SysM ω β}
    (hno : CallActs os quiet s0 (f none s))
    (hyes : Reaches s ref size → CallActs os quiet s0 (f (some ref.toNat) s)) :
    CallActs os quiet s0 ((deref ref size >>= f) s) := by
  refine acts_bind fun r s' hrun => ?_
  obtain ⟨rfl, ⟨rfl, -⟩ | ⟨rfl, hreach⟩⟩ := of_triple (deref_spec s ref size) hrun
  · exact hno
  · exact hyes hreach

/-- A pointer is checked with `deref_mem_ptr`, which sets an exception. -/
theorem acts_derefMem {ref size : UInt32} {f : Option ℕ → SysM ω β} (h : CallMoves os quiet s0 s)
    (hquiet : quiet → Reaches s ref size)
    (hno : ∀ s', CallMoves os quiet s0 s' → CallActs os quiet s0 (f none s'))
    (hyes : Reaches s ref size → CallActs os quiet s0 (f (some ref.toNat) s)) :
    CallActs os quiet s0 ((derefMem ref size >>= f) s) := by
  refine acts_bind fun r s' hrun => ?_
  obtain ⟨rfl, rfl, hreach⟩ | ⟨rfl, rfl, hreach⟩ := of_triple (derefMem_spec s ref size) hrun
  · exact hno _ (h.sameProcs (sameProcs_raise s _) fun hq => absurd (hquiet hq) hreach)
  · exact hyes hreach

/-- `ensure_nul_term_str` sets an exception too. -/
theorem acts_ensureNulTermStr {p : ℕ} {f : Bool → SysM ω β} (h : CallMoves os quiet s0 s)
    (hquiet : quiet → NulTerm s p)
    (hno : ∀ s', CallMoves os quiet s0 s' → CallActs os quiet s0 (f false s'))
    (hyes : CallActs os quiet s0 (f true s)) :
    CallActs os quiet s0 ((ensureNulTermStr p >>= f) s) := by
  refine acts_bind fun r s' hrun => ?_
  obtain ⟨rfl, rfl, -⟩ | ⟨rfl, rfl, hnul⟩ := of_triple (ensureNulTermStr_spec s p) hrun
  · exact hyes
  · exact hno _ (h.sameProcs (sameProcs_raise s _) fun hq => absurd (hquiet hq) hnul)

/-! ### The operating system and the tables -/

theorem acts_call {g : ω → Except Int32 α × ω} {f : Option α → SysM ω β}
    (h : CallMoves os quiet s0 s)
    (hf : ∀ s', Same s s' → s'.memory = s.memory → CallMoves os quiet s0 s' →
      CallActs os quiet s0 (f (g s.host.world).1.toOption s')) :
    CallActs os quiet s0 ((call g >>= f) s) := by
  refine acts_bind fun r s' hrun => ?_
  obtain ⟨hsame, hmemory, rfl⟩ := of_triple (call_spec s g) hrun
  exact hf s' hsame hmemory (h.same hsame)

/-- A call that has one end where the operating system succeeds and another where it fails. -/
theorem acts_call_ends {g : ω → Except Int32 α × ω} {f : Option α → SysM ω β}
    (h : CallMoves os quiet s0 s)
    (hnone : ∀ s', CallMoves os quiet s0 s' → CallActs os quiet s0 (f none s'))
    (hsome : ∀ a s', CallMoves os quiet s0 s' → CallActs os quiet s0 (f (some a) s')) :
    CallActs os quiet s0 ((call g >>= f) s) := by
  refine acts_call h fun s' _ _ h' => ?_
  cases (g s.host.world).1.toOption with
  | none => exact hnone s' h'
  | some a => exact hsome a s' h'

theorem acts_getFd {i : ℕ} {f : VmFd → SysM ω β}
    (hf : ∀ fd, s.host.io.fds[i]? = some fd → CallActs os quiet s0 (f fd s)) :
    CallActs os quiet s0 ((getFd i >>= f) s) := by
  refine acts_bind fun fd s' hrun => ?_
  obtain ⟨rfl, hfd⟩ := of_triple (getFd_spec s i) hrun
  exact hf fd hfd

/-- **The slot of a handle.** -/
theorem acts_usedFd {i : ℕ} {f : Option VmFd → SysM ω β}
    (hnone : CallActs os quiet s0 (f none s))
    (hsome : ∀ fd, usedSlot i s.host.io = some fd → CallActs os quiet s0 (f (some fd) s)) :
    CallActs os quiet s0 ((usedFd i >>= f) s) := by
  refine acts_bind fun r s' hrun => ?_
  obtain ⟨rfl, rfl⟩ := of_triple (usedFd_spec s i) hrun
  cases hslot : usedSlot i s'.host.io with
  | none => exact hnone
  | some fd => exact hsome fd hslot

theorem acts_allocFd {f : ℕ → SysM ω β} (h : CallMoves os quiet s0 s)
    (hf : ∀ fd s', (usedSlot fd s'.host.io).isSome = true → CallMoves os quiet s0 s' →
      CallActs os quiet s0 (f fd s')) :
    CallActs os quiet s0 ((onIo allocFd >>= f) s) := by
  refine acts_bind fun fd s' hrun => ?_
  obtain ⟨hacts, hused⟩ := of_triple (allocFd_spec s) hrun
  exact hf fd s' hused (h.slotActs hacts)

/-- A slot in use is filled in. -/
theorem acts_setFd {i : ℕ} {change : VmFd → VmFd} {f : Unit → SysM ω β}
    (h : CallMoves os quiet s0 s) (hchange : Fills change)
    (hused : (usedSlot i s.host.io).isSome = true)
    (hf : ∀ s', (usedSlot i s'.host.io).isSome = true → SlotActs s s' → CallMoves os quiet s0 s' →
      CallActs os quiet s0 (f () s')) :
    CallActs os quiet s0 ((onIo' (fun io => .ok (setFd i change io)) >>= f) s) := by
  refine acts_bind fun _ s' hrun => ?_
  obtain ⟨hacts, hused'⟩ := of_triple (setFd_spec s i hchange) hrun hused
  exact hf s' hused' hacts (h.slotActs hacts)

theorem acts_deallocFd {i : ℕ} {f : Unit → SysM ω β} (h : CallMoves os quiet s0 s)
    (hused : (usedSlot i s.host.io).isSome = true)
    (hf : ∀ s', CallMoves os quiet s0 s' → CallActs os quiet s0 (f () s')) :
    CallActs os quiet s0 ((onIo' (deallocFd os.evtSize i) >>= f) s) := by
  refine acts_bind fun _ s' hrun => ?_
  exact hf s' (h.ioActs (of_triple (deallocFd_spec s os.evtSize i) hrun hused))

/-- A request is submitted on a handle in use. -/
theorem acts_allocEvent {i : ℕ} {evt : VmIoEvt} {f : Unit → SysM ω β}
    (h : CallMoves os quiet s0 s) (hused : (usedSlot i s.host.io).isSome = true)
    (hvalid : (IoOp.submit i evt).Valid s.code.size)
    (hf : ∀ s', CallMoves os quiet s0 s' → CallActs os quiet s0 (f () s')) :
    CallActs os quiet s0 ((onIo' (allocEvent os.evtSize i evt) >>= f) s) := by
  refine acts_bind fun _ s' hrun => ?_
  exact hf s' (h.ioActs (of_triple (allocEvent_spec s os.evtSize i evt) hrun hused hvalid))

/-! ### The arguments -/

variable {argv retv size : UInt32} {bad : UInt64} {f : Option (ℕ × ℕ) → SysM ω β} {b : β}

/-- **A call begins** with its arguments and its result, here by `deref`. -/
theorem acts_args (hnone : f none = pure b)
    (hsome : ArgsReach s0 argv size retv →
      CallActs os quiet s0 (f (some (argv.toNat, retv.toNat)) s0)) :
    CallActs os quiet s0 ((argsRet deref argv size retv bad >>= f) s0) := by
  refine acts_bind fun r s' hrun => ?_
  obtain ⟨rfl, hsame, -⟩ | ⟨rfl, rfl, hreach⟩ :=
    of_triple (argsRet_deref_spec s0 argv size retv bad) hrun
  · rw [hnone]
    exact acts_pure ((CallMoves.refl os quiet s0).same hsame)
  · exact hsome hreach

/-- The same by `deref_mem_ptr`. -/
theorem acts_argsMem (hquiet : quiet → ArgsReach s0 argv size retv) (hnone : f none = pure b)
    (hsome : ArgsReach s0 argv size retv →
      CallActs os quiet s0 (f (some (argv.toNat, retv.toNat)) s0)) :
    CallActs os quiet s0 ((argsRet derefMem argv size retv bad >>= f) s0) := by
  refine acts_bind fun r s' hrun => ?_
  obtain ⟨rfl, hsame, hreach⟩ | ⟨rfl, rfl, hreach⟩ :=
    of_triple (argsRet_derefMem_spec s0 argv size retv bad) hrun
  · rw [hnone]
    exact acts_pure ((CallMoves.refl os quiet s0).sameProcs hsame fun hq =>
      absurd (hquiet hq) hreach)
  · exact hsome hreach

end Rules

section Calls

variable (os : Os ω) (s0 : Vm (Sys ω)) (argv retv : UInt32)

/-! ## `syscall_io.c` -/

theorem sysClose_acts :
    CallActs os (ArgsReach s0 argv 8 retv) s0 (sysClose os argv retv s0) := by
  have hrefl := CallMoves.refl os (ArgsReach s0 argv 8 retv) s0
  unfold sysClose
  refine acts_argsMem id rfl fun _ => acts_load64 fun handle _ => acts_get ?_
  split
  · exact acts_fail hrefl
  refine acts_getFd fun fd hfd => ?_
  split
  · exact acts_fail hrefl
  next hused =>
    have hslot : (usedSlot (fdHandleToIdx handle) s0.host.io).isSome = true := by
      rw [Option.isSome_iff_exists]
      exact ⟨fd, usedSlot_eq_some.2 ⟨hfd, by simpa using hused⟩⟩
    refine acts_store hrefl fun s₁ hsame₁ h₁ => acts_call h₁ fun s₂ hsame₂ _ h₂ => ?_
    -- the slot is given back, whether the descriptor could be closed or not
    have hgiven : ∀ s, Same s0 s → CallMoves os (ArgsReach s0 argv 8 retv) s0 s →
        CallActs os (ArgsReach s0 argv 8 retv) s0
          (onIo' (deallocFd os.evtSize (fdHandleToIdx handle)) s) := by
      intro s hsame h _ vm hrun
      refine h.ioActs (of_triple (deallocFd_spec s os.evtSize _) hrun ?_)
      rwa [hsame.io]
    split
    · refine acts_bind fun _ s₃ hrun => ?_
      have hsame₃ := (of_triple (failErrno_spec s₂ retv.toNat 1) hrun).1
      exact hgiven s₃ ((hsame₁.trans hsame₂).trans hsame₃) (h₂.same hsame₃)
    · exact hgiven s₂ (hsame₁.trans hsame₂) h₂

/-- **The beginning of `sys_read` and `sys_write`.** -/
theorem acts_getIoTaskParams {f : Option IoTask → SysM ω Unit} (hnone : f none = pure ())
    (hsome : ∀ task, (usedSlot task.fd s0.host.io).isSome = true →
      task.fPtr.toNat < s0.code.size →
      CallActs os (ArgsReach s0 argv 40 retv) s0 (f (some task) s0)) :
    CallActs os (ArgsReach s0 argv 40 retv) s0 ((getIoTaskParams argv retv >>= f) s0) := by
  have hrefl := CallMoves.refl os (ArgsReach s0 argv 40 retv) s0
  have hfail : ∀ e : Int32, CallActs os (ArgsReach s0 argv 40 retv) s0
      (((fail e retv.toNat 1 >>= fun _ => pure none) >>= f) s0) := by
    intro e
    rw [bind_assoc]
    refine acts_fail_then hrefl fun s h => ?_
    rw [pure_bind, hnone]
    exact acts_pure h
  unfold getIoTaskParams
  rw [bind_assoc]
  refine acts_argsMem id (b := ()) ?_ fun _ => ?_
  · dsimp only
    rw [pure_bind, hnone]
  dsimp only
  rw [bind_assoc]
  refine acts_load64 fun handle _ => ?_
  rw [bind_assoc]
  refine acts_usedFd (hfail eBADF) fun fd hfd => ?_
  rw [if_neg (by simp), bind_assoc]
  refine acts_load32 fun ptr _ => ?_
  rw [bind_assoc]
  refine acts_load64 fun len _ => ?_
  rw [bind_assoc]
  refine acts_deref (hfail eFAULT) fun _ => ?_
  rw [if_neg (by simp), bind_assoc]
  refine acts_load32 fun argsPtr _ => ?_
  rw [bind_assoc]
  refine acts_deref (hfail eFAULT) fun _ => ?_
  rw [if_neg (by simp), bind_assoc]
  refine acts_load32 fun fPtr _ => ?_
  rw [bind_assoc]
  refine acts_get ?_
  split
  · exact hfail eINVAL
  next hlt =>
    rw [pure_bind]
    refine hsome _ ?_ (Nat.lt_of_not_le hlt)
    rw [hfd]
    rfl

theorem sysRead_acts :
    CallActs os (ArgsReach s0 argv 40 retv) s0 (sysRead os argv retv s0) := by
  unfold sysRead
  refine acts_getIoTaskParams os s0 argv retv rfl fun task hused hlt => ?_
  exact acts_allocEvent (.refl os _ s0) hused hlt fun s h => acts_store_last h

theorem sysWrite_acts :
    CallActs os (ArgsReach s0 argv 40 retv) s0 (sysWrite os argv retv s0) := by
  unfold sysWrite
  refine acts_getIoTaskParams os s0 argv retv rfl fun task hused hlt => ?_
  exact acts_allocEvent (.refl os _ s0) hused hlt fun s h => acts_store_last h

/-! ## `syscall_fs.c` -/

/-- **The beginning of the calls on a path.** -/
theorem acts_setupSysFsCall {β : Type} {quiet : Prop} {size : UInt32}
    {f : Option (ℕ × ℕ × ℕ) → SysM ω β} {b : β} (hquiet : quiet → PathTerm s0 argv size retv)
    (hnone : f none = pure b)
    (hsome : ∀ path : UInt32, ArgsReach s0 argv size retv →
      s0.memory.load argv.toNat 4 = some path.toNat → Reaches s0 path 1 →
      CallActs os quiet s0 (f (some (argv.toNat, retv.toNat, path.toNat)) s0)) :
    CallActs os quiet s0 ((setupSysFsCall argv retv size >>= f) s0) := by
  have hrefl := CallMoves.refl os quiet s0
  have hfail : ∀ (e : Int32) (s : Vm (Sys ω)), CallMoves os quiet s0 s → CallActs os quiet s0
      (((fail e retv.toNat 1 >>= fun _ => pure none) >>= f) s) := by
    intro e s h
    rw [bind_assoc]
    refine acts_fail_then h fun s' h' => ?_
    rw [pure_bind, hnone]
    exact acts_pure h'
  unfold setupSysFsCall
  rw [bind_assoc]
  refine acts_args (b := b) ?_ fun hargs => ?_
  · dsimp only
    rw [pure_bind, hnone]
  dsimp only
  rw [bind_assoc]
  refine acts_load32 fun path hpath => ?_
  rw [bind_assoc]
  refine acts_deref (hfail eFAULT s0 hrefl) fun hreach => ?_
  dsimp only
  rw [bind_assoc]
  refine acts_ensureNulTermStr hrefl (fun hq => hquiet hq hargs path hpath hreach)
    (fun s h => hfail eINVAL s h) ?_
  rw [if_pos rfl, pure_bind]
  exact hsome path hargs hpath hreach

theorem sysFsOpen_acts :
    CallActs os (PathTerm s0 argv 12 retv) s0 (sysFsOpen os argv retv s0) := by
  unfold sysFsOpen
  refine acts_setupSysFsCall os s0 argv retv id rfl fun path _ _ _ => ?_
  refine acts_load64 fun options _ => acts_allocFd (.refl os _ s0) fun fd s₁ hused h₁ => ?_
  refine acts_readStr fun str => acts_call h₁ fun s₂ hsame _ h₂ => ?_
  refine acts_setFd h₂ (.mk fun _ => rfl) (by rwa [hsame.io]) fun s₃ hused₃ _ h₃ => ?_
  split
  · exact acts_deallocFd h₃ hused₃ fun s h => acts_failErrno h
  · exact acts_store_last h₃

theorem sysFsStat_acts :
    CallActs os (PathTerm s0 argv 8 retv ∧ StatReach s0 argv retv) s0
      (sysFsStat os argv retv s0) := by
  unfold sysFsStat
  refine acts_setupSysFsCall os s0 argv retv And.left rfl fun path hargs hpath hreach => ?_
  refine acts_load32 fun statRef hstat => ?_
  refine acts_derefMem (.refl os _ s0) (fun hq => hq.2 hargs path statRef hpath hreach hstat)
    (fun s h => acts_fail h) fun _ => ?_
  refine acts_store (.refl os _ s0) fun s₁ _ h₁ => acts_readStr fun str => ?_
  refine acts_call_ends h₁ (fun s h => acts_failErrno h) fun bytes s h => ?_
  exact fun _ _ hrun => h.same (of_triple (writeMemBytes_spec s _ _) hrun).1

theorem onPath_acts (g : List UInt8 → ω → Except Int32 Unit × ω) :
    CallActs os (PathTerm s0 argv 4 retv) s0 (onPath g argv retv s0) := by
  unfold onPath
  refine acts_setupSysFsCall os s0 argv retv id rfl fun path _ _ _ => acts_readStr fun str => ?_
  exact acts_call_ends (.refl os _ s0) (fun s h => acts_failErrno h) fun _ s h => acts_store_last h

theorem sysFsSeek_acts :
    CallActs os (ArgsReach s0 argv 24 retv) s0 (sysFsSeek os argv retv s0) := by
  have hrefl := CallMoves.refl os (ArgsReach s0 argv 24 retv) s0
  unfold sysFsSeek
  refine acts_argsMem id rfl fun _ => acts_load64 fun handle _ => ?_
  refine acts_usedFd (acts_fail hrefl) fun fd _ => ?_
  refine acts_load64 fun offset _ => acts_load64 fun whence _ => ?_
  split
  · exact acts_fail hrefl
  · exact acts_call_ends hrefl (fun s h => acts_failErrno h) fun _ s h => acts_store_last h

/-- The loop stores names only. -/
theorem readDirLoop_spec (s0 : Vm (Sys ω)) (buf : Nat) (bufLen : UInt64) (ret : Nat)
    (names : List (List UInt8 × Int32)) (d : ReadDir) :
    ⦃fun vm => ⌜Same s0 vm⌝⦄ (readDirLoop buf bufLen ret names d : SysM ω ReadDir)
    ⦃⇓? _ => fun vm => ⌜Same s0 vm⌝⦄ := by
  induction names generalizing d with
  | nil =>
      unfold readDirLoop
      mvcgen
  | cons entry names ih =>
      unfold readDirLoop
      mvcgen [ih]
      all_goals grind

@[spec] theorem storeIf_spec (s0 : Vm (Sys ω)) (p : Option Nat) (v : UInt64) :
    ⦃fun vm => ⌜vm = s0⌝⦄ (storeIf p v : SysM ω Unit)
    ⦃⇓? _ => fun vm => ⌜Same s0 vm ∧ vm.host = s0.host⌝⦄ := by
  unfold storeIf
  mvcgen
  all_goals grind

@[spec] theorem readDirBuf_spec (s0 : Vm (Sys ω)) (bufRef : UInt32) (bufLen : UInt64) (ret : Nat) :
    ⦃fun vm => ⌜vm = s0⌝⦄ (readDirBuf bufRef bufLen ret : SysM ω _)
    ⦃⇓? _ => fun vm => ⌜Same s0 vm ∧ (bufLen = 0 → vm = s0)⌝⦄ := by
  unfold readDirBuf
  mvcgen
  all_goals grind

/-- The end of `sys_fs_readdir`, when the directory has been opened. -/
theorem listed_spec (s0 : Vm (Sys ω)) (buf : ℕ) (bufLen : UInt64) (ret : ℕ)
    (names : List (List UInt8 × Int32)) (d : ReadDir) (nSaved nTotal minBuf : Option ℕ) :
    ⦃fun vm => ⌜vm = s0⌝⦄
    (do
      storeU64 ret 0
      setErrno 0
      setErrorNo 0
      let d ← readDirLoop buf bufLen ret names d
      storeIf nSaved (UInt64.ofNat d.savedEntries)
      storeIf nTotal d.totalEntries.toUInt64
      storeIf minBuf d.bufRequired.toUInt64 : SysM ω Unit)
    ⦃⇓? _ => fun vm => ⌜Same s0 vm⌝⦄ := by
  have hloop := readDirLoop_spec s0
  mvcgen [hloop]
  all_goals grind

theorem sysFsReaddir_acts :
    CallActs os (PathTerm s0 argv 28 retv) s0 (sysFsReaddir os argv retv s0) := by
  unfold sysFsReaddir
  refine acts_setupSysFsCall os s0 argv retv id rfl fun path _ _ _ => ?_
  refine acts_load32 fun bufRef _ => acts_load64 fun bufLen _ => acts_load32 fun savedRef _ => ?_
  refine acts_load32 fun totalRef _ => acts_load32 fun minRef _ => ?_
  refine acts_bind fun buf s₁ hbuf => ?_
  have h₁ := (CallMoves.refl os (PathTerm s0 argv 28 retv) s0).same
    (of_triple (readDirBuf_spec s0 bufRef bufLen retv.toNat) hbuf).1
  cases buf with
  | none => exact acts_pure h₁
  | some buf =>
      refine acts_bind fun nSaved s₂ hsaved => acts_bind fun nTotal s₃ htotal => ?_
      refine acts_bind fun minBuf s₄ hmin => ?_
      obtain ⟨rfl, -⟩ := of_triple (deref_spec s₁ savedRef 4) hsaved
      obtain ⟨rfl, -⟩ := of_triple (deref_spec s₂ totalRef 4) htotal
      obtain ⟨rfl, -⟩ := of_triple (deref_spec s₃ minRef 4) hmin
      split
      · exact acts_fail h₁
      · refine acts_readStr fun str => ?_
        refine acts_call_ends h₁ (fun s h => acts_failErrno h) fun names s h => ?_
        exact acts_last h (listed_spec s _ bufLen _ names _ nSaved nTotal minBuf)

/-! ## `syscall_net.c` -/

@[spec] theorem openSocket_spec (os : Os ω) (s0 : Vm (Sys ω)) (kind : UInt64) :
    ⦃fun vm => ⌜vm = s0⌝⦄ openSocket os kind
    ⦃⇓? _ => fun vm => ⌜Same s0 vm ∧ vm.memory = s0.memory⌝⦄ := by
  unfold openSocket
  mvcgen
  all_goals grind

theorem socketFailed_acts {quiet : Prop} {s : Vm (Sys ω)} {fd : ℕ} (ret : ℕ)
    (h : CallMoves os quiet s0 s) (hused : (usedSlot fd s.host.io).isSome = true) :
    CallActs os quiet s0 (socketFailed os fd ret s) := by
  unfold socketFailed
  exact acts_deallocFd h hused fun s h => acts_getErrno (acts_fail h)

theorem sysSocket_acts : CallActs os True s0 (sysSocket os argv retv s0) := by
  unfold sysSocket
  refine acts_args rfl fun _ => acts_allocFd (.refl os _ s0) fun fd s₁ hused h₁ => ?_
  refine acts_bind fun _ s₂ hset => ?_
  have hsame₂ := (of_triple (setErrno_spec s₁ 0) hset).1
  refine acts_load64 fun kind _ => acts_bind fun sockfd s₃ hopen => ?_
  have hsame₃ := (of_triple (openSocket_spec os s₂ kind) hopen).1
  have h₃ := (h₁.same hsame₂).same hsame₃
  have hused₃ : (usedSlot fd s₃.host.io).isSome = true := by rwa [hsame₃.io, hsame₂.io]
  cases sockfd with
  | none => exact socketFailed_acts os s0 _ h₃ hused₃
  | some sockfd =>
      refine acts_call h₃ fun s₄ hsame₄ _ h₄ => ?_
      have hused₄ : (usedSlot fd s₄.host.io).isSome = true := by rwa [hsame₄.io]
      split
      · refine acts_call h₄ fun s₅ hsame₅ _ h₅ => socketFailed_acts os s0 _ h₅ ?_
        rwa [hsame₅.io]
      · refine acts_call h₄ fun s₅ hsame₅ _ h₅ => ?_
        refine acts_setFd h₅ (.mk fun _ => rfl) (by rwa [hsame₅.io]) fun s₆ _ _ h₆ => ?_
        exact acts_store_last h₆

@[spec] theorem loadAddr_spec (s0 : Vm (Sys ω)) (p : Nat) :
    ⦃fun vm => ⌜vm = s0⌝⦄ (loadAddr p : SysM ω SockAddr)
    ⦃⇓? r => fun vm => ⌜vm = s0 ∧ s0.memory.load p 4 = some r.sAddr.toNat ∧
      s0.memory.load (p + 4) 2 = some r.sinPort.toNat⌝⦄ := by
  unfold loadAddr
  mvcgen
  all_goals grind

theorem sysBind_acts : CallActs os True s0 (sysBind os argv retv s0) := by
  have hrefl := CallMoves.refl os True s0
  unfold sysBind
  refine acts_args rfl fun _ => acts_load64 fun handle _ => ?_
  refine acts_usedFd (acts_fail hrefl) fun fd _ => acts_load32 fun addrRef _ => ?_
  refine acts_deref (acts_fail hrefl) fun _ => acts_bind fun addr s hrun => ?_
  obtain ⟨rfl, -⟩ := of_triple (loadAddr_spec s0 _) hrun
  exact acts_call_ends hrefl (fun s h => acts_failErrno h) fun _ s h => acts_store_last h

/-- A procedure is made: an address outside the code sets an exception. -/
theorem acts_makeFuncProcedure {β : Type} {quiet : Prop} {s : Vm (Sys ω)} {iptr args ret : UInt32}
    {f : Unit → SysM ω β} (h : CallMoves os quiet s0 s)
    (hquiet : quiet → iptr.toNat < s.code.size)
    (hf : ∀ s', CallMoves os quiet s0 s' → CallActs os quiet s0 (f () s')) :
    CallActs os quiet s0 ((makeFuncProcedure os iptr args ret >>= f) s) := by
  refine acts_bind fun _ s' hrun => ?_
  obtain ⟨htables, -, -, hmade⟩ := of_triple (makeFuncProcedure_spec os s iptr args ret) hrun
  refine hf s' ⟨h.acts.trans_grows htables ?_, fun hq => ?_⟩
  · rcases hmade with ⟨-, hprocs⟩ | ⟨-, -, p, -, hprocs⟩
    · rw [hprocs]
    · rw [hprocs]
      exact List.prefix_append _ _
  · rcases hmade with ⟨hle, -⟩ | ⟨-, hexc, -⟩
    · exact absurd (hquiet hq) (Nat.not_lt_of_le hle)
    · exact hexc.trans (h.quiet hq)

theorem connected_acts {quiet : Prop} {s : Vm (Sys ω)} {idx : ℕ} {cb : VmCallback} (ret : ℕ)
    (h : CallMoves os quiet s0 s)
    (hquiet : quiet → Reaches s cb.args 16 → cb.callback.toNat < s.code.size) :
    CallActs os quiet s0 (connected os idx cb ret s) := by
  unfold connected
  refine acts_deref (acts_fail h) fun hreach => ?_
  refine acts_store h fun s₁ hsame₁ h₁ => acts_store h₁ fun s₂ hsame₂ h₂ => ?_
  refine acts_makeFuncProcedure os s0 h₂ (fun hq => ?_) fun s₃ h₃ => acts_store_last h₃
  rw [hsame₂.code, hsame₁.code]
  exact hquiet hq hreach

theorem sysConnect_acts :
    CallActs os (ConnectReach os s0 argv retv) s0 (sysConnect os argv retv s0) := by
  have hrefl := CallMoves.refl os (ConnectReach os s0 argv retv) s0
  unfold sysConnect
  refine acts_args rfl fun hargs => acts_load64 fun handle hhandle => ?_
  refine acts_usedFd (acts_fail hrefl) fun fd hfd => acts_load32 fun addrRef haddrRef => ?_
  refine acts_deref (acts_fail hrefl) fun haddr => acts_bind fun addr s hrun => ?_
  obtain ⟨rfl, hsAddr, hsinPort⟩ := of_triple (loadAddr_spec s0 _) hrun
  have hused : (usedSlot (fdHandleToIdx handle) s.host.io).isSome = true := by
    rw [hfd]
    rfl
  refine acts_setFd hrefl (.mk fun _ => rfl) hused fun s₁ hused₁ hacts₁ h₁ => ?_
  have hmemory := hacts₁.only.memory
  refine acts_load32 fun cbArgs hcbArgs => acts_load32 fun callback hcallback => ?_
  rw [hmemory] at hcbArgs hcallback
  refine acts_call h₁ fun s₂ hsame₂ hmemory₂ h₂ => ?_
  have hworld := hacts₁.only.world
  cases hout : (os.connect fd.fd addr s₁.host.world).1.toOption with
  | some r =>
      refine connected_acts os s _ h₂ fun hq hreach => ?_
      have hlt := hq hargs handle addrRef cbArgs callback fd addr hhandle hfd haddrRef haddr hsAddr
        hsinPort hcbArgs ?_ hcallback ?_
      · rwa [hsame₂.code, hacts₁.only.code]
      · exact (reaches_congr (by rw [hsame₂.memsz, hmemory]) _ _).1 hreach
      · rw [← hworld, hout]
        simp
  | none =>
      refine acts_getErrno ?_
      split
      · refine acts_allocEvent h₂ (by rwa [hsame₂.io]) trivial fun s₃ h₃ => acts_store_last h₃
      · exact acts_failErrno h₂

theorem sysListen_acts : CallActs os True s0 (sysListen os argv retv s0) := by
  have hrefl := CallMoves.refl os True s0
  unfold sysListen
  refine acts_args rfl fun _ => acts_load64 fun handle _ => ?_
  refine acts_usedFd (acts_fail hrefl) fun fd _ => ?_
  exact acts_call_ends hrefl (fun s h => acts_failErrno h) fun _ s h => acts_store_last h

theorem sysAccept_acts : CallActs os True s0 (sysAccept os argv retv s0) := by
  have hrefl := CallMoves.refl os True s0
  unfold sysAccept
  refine acts_args rfl fun _ => acts_load64 fun handle _ => ?_
  refine acts_usedFd (acts_fail hrefl) fun fd hfd => ?_
  refine acts_load32 fun cbArgs _ => acts_load32 fun callback _ => ?_
  refine acts_allocEvent hrefl ?_ trivial fun s h => acts_store_last h
  rw [hfd]
  rfl

theorem sysPeerAddress_acts : CallActs os True s0 (sysPeerAddress argv retv s0) := by
  have hrefl := CallMoves.refl os True s0
  unfold sysPeerAddress
  refine acts_args rfl fun _ => acts_load64 fun handle _ => ?_
  refine acts_usedFd (acts_fail hrefl) fun fd _ => ?_
  dsimp only
  split
  · exact acts_fail hrefl
  refine acts_load32 fun addrRef _ => acts_deref (acts_fail hrefl) fun _ => ?_
  cases fd.data with
  | null => exact acts_ub
  | freed => exact acts_ub
  | sock addr =>
      refine acts_bind fun _ s₁ haddr => acts_bind fun _ s₂ hport => acts_store_last ?_
      have h₁ := hrefl.same (of_triple (storeMem_spec s0 _ 4 _) haddr).1
      exact h₁.same (of_triple (storeMem_spec s₁ _ 2 _) hport).1

/-! ## `syscall_misc.c` -/

theorem sysGetlasterr_acts : CallActs os True s0 (sysGetlasterr argv retv s0) := by
  have hrefl := CallMoves.refl os True s0
  unfold sysGetlasterr
  refine acts_deref (acts_setErrorNo_last hrefl) fun _ => acts_get ?_
  exact acts_store hrefl fun s _ h => acts_setErrorNo_last h

theorem sysSetlasterr_acts : CallActs os True s0 (sysSetlasterr argv retv s0) := by
  have hrefl := CallMoves.refl os True s0
  unfold sysSetlasterr
  refine acts_deref (acts_setErrorNo_last hrefl) fun _ => acts_load64 fun e _ => ?_
  exact acts_setErrorNo_last hrefl

theorem sysTime_acts : CallActs os True s0 (sysTime os argv retv s0) := by
  unfold sysTime
  refine acts_args rfl fun _ => ?_
  refine acts_call_ends (.refl os _ s0) (fun s h => acts_failErrno h) fun tp s h => ?_
  exact acts_store h fun s₁ _ h₁ => acts_store h₁ fun s₂ _ h₂ => acts_store_last h₂

theorem makeVmTimer_same {expiresAt : Timespec} {iptr : UInt32} {a : Unit} {s s' : Vm (Sys ω)}
    (hrun : makeVmTimer expiresAt iptr s = .ok (a, s')) :
    SameProcs s s' ∧ s'.exceptions = s.exceptions := by
  cases hrun
  exact ⟨⟨⟨rfl, rfl, rfl⟩, rfl⟩, rfl⟩

theorem sysTimeout_acts : CallActs os True s0 (sysTimeout os argv retv s0) := by
  have hrefl := CallMoves.refl os True s0
  unfold sysTimeout
  refine acts_args rfl fun _ => acts_load32 fun fPtr _ => acts_load64 fun millis _ => acts_get ?_
  split
  · exact acts_fail hrefl
  refine acts_call_ends hrefl (fun s h => acts_failErrno h) fun tp s h => ?_
  refine acts_bind fun _ s' hrun => acts_store_last ?_
  obtain ⟨hsame, hexc⟩ := makeVmTimer_same hrun
  exact h.sameProcs hsame fun _ => hexc

/-- `yield` does not only append procedures. -/
theorem sysYield_moved {a : Unit} {vm : Vm (Sys ω)} (h : sysYield argv retv s0 = .ok (a, vm)) :
    Moved os s0 vm ∧ vm.exceptions = s0.exceptions := by
  obtain ⟨s, s', hget, hrest⟩ := bind_eq_ok.1 h
  cases hget
  cases hprocs : s0.procedures with
  | nil =>
      rw [hprocs] at hrest
      cases hrest
  | cons self rest =>
      rw [hprocs] at hrest
      cases rest with
      | nil =>
          cases hrest
          exact ⟨Moved.refl os _, rfl⟩
      | cons next rest =>
          cases hrest
          exact ⟨SameTables.moved os ⟨rfl, rfl, rfl⟩, rfl⟩

theorem sysCodesz_acts : CallActs os (Reaches s0 retv 8) s0 (sysCodesz argv retv s0) := by
  have hrefl := CallMoves.refl os (Reaches s0 retv 8) s0
  unfold sysCodesz
  refine acts_derefMem hrefl id (fun s h => acts_setErrorNo_last h) fun _ => acts_get ?_
  exact acts_store_last hrefl

theorem sysCodecp_acts :
    CallActs os (CodecpReach s0 argv retv) s0 (sysCodecp argv retv s0) := by
  have hrefl := CallMoves.refl os (CodecpReach s0 argv retv) s0
  unfold sysCodecp
  refine acts_argsMem And.left rfl fun _ => ?_
  refine acts_load64 fun start hstart => acts_load64 fun size hsize => acts_get ?_
  split
  · exact acts_setErrorNo_last hrefl
  next hle =>
    refine acts_load32 fun ptr hptr => ?_
    refine acts_derefMem hrefl
      (fun hq => hq.2 start size ptr hstart hsize hptr (Nat.le_of_not_lt hle))
      (fun s h => acts_fail h) fun _ => acts_get ?_
    cases Bytes.read s0.code.bytes start.toNat size.toNat with
    | none => exact acts_ub
    | some bytes =>
        refine acts_bind fun _ s hrun => acts_store_last ?_
        exact hrefl.same (of_triple (writeMemBytes_spec s0 _ _) hrun).1

/-! ## `syscall_mem.c` -/

theorem setMemory_same {memory : Segment} {a : Unit} {s s' : Vm (Sys ω)}
    (hrun : setMemory memory s = .ok (a, s')) : SameProcs s s' ∧ s'.exceptions = s.exceptions := by
  cases hrun
  exact ⟨⟨⟨rfl, rfl, rfl⟩, rfl⟩, rfl⟩

theorem reallocMemory_acts {quiet : Prop} (size ret : ℕ) :
    CallActs os quiet s0 (reallocMemory os size ret s0) := by
  have hrefl := CallMoves.refl os quiet s0
  unfold reallocMemory
  split
  · exact acts_ub
  refine acts_bind fun done s₁ hask => ?_
  have h₁ := hrefl.same (of_triple (ask_spec s0 (os.realloc size)) hask).1
  split
  · refine acts_get ?_
    split
    · refine acts_bind fun _ s₂ hset => acts_store_last ?_
      obtain ⟨hsame, hexc⟩ := setMemory_same hset
      exact h₁.sameProcs hsame fun _ => hexc
    · refine acts_store h₁ fun s₂ _ h₂ => acts_get ?_
      intro _ s₃ hset
      obtain ⟨hsame, hexc⟩ := setMemory_same hset
      exact h₂.sameProcs hsame fun _ => hexc
  · exact acts_fail h₁

theorem sysMexpand_acts :
    CallActs os (ArgsReach s0 argv 8 retv) s0 (sysMexpand os argv retv s0) := by
  unfold sysMexpand
  refine acts_argsMem id rfl fun _ => acts_load64 fun sz _ => acts_get ?_
  exact reallocMemory_acts os s0 _ _

theorem sysMretract_acts :
    CallActs os (ArgsReach s0 argv 8 retv) s0 (sysMretract os argv retv s0) := by
  unfold sysMretract
  refine acts_argsMem id rfl fun _ => acts_load64 fun sz _ => acts_get ?_
  by_cases hlt : s0.memory.size < sz.toNat
  · rw [if_pos hlt]
    exact acts_fail (.refl os _ s0)
  · rw [if_neg hlt]
    exact reallocMemory_acts os s0 _ _

theorem sysMsize_acts : CallActs os (Reaches s0 retv 8) s0 (sysMsize argv retv s0) := by
  have hrefl := CallMoves.refl os (Reaches s0 retv 8) s0
  unfold sysMsize
  refine acts_derefMem hrefl id (fun s h => acts_setErrorNo_last h) fun _ => acts_get ?_
  exact acts_store_last hrefl

/-! ## `syscall_proc.c` -/

/-- The child is saved. -/
theorem forked_acts {quiet : Prop} {s : Vm (Sys ω)} (r : Option Pid) (ret : ℕ)
    (h : CallMoves os quiet s0 s) : CallActs os quiet s0 (forked r ret s) := by
  unfold forked
  cases r with
  | none =>
      exact acts_store h fun s₁ _ h₁ => acts_getErrno (acts_setErrorNo_last h₁)
  | some pid =>
      refine acts_store h fun s₁ _ h₁ => ?_
      intro _ s₂ hrun
      exact h₁.procActs (of_triple (saveChildProc_spec s₁ pid) hrun).1

theorem execArgs_spec (s0 : Vm (Sys ω)) (argvR todo a : Nat) :
    ⦃fun vm => ⌜vm = s0⌝⦄ (execArgs argvR todo a : SysM ω _)
    ⦃⇓? _ => fun vm => ⌜SameProcs s0 vm ∧ (ExecArgs s0 argvR todo a → vm = s0)⌝⦄ := by
  induction todo generalizing a with
  | zero =>
      unfold execArgs
      mvcgen
      grind
  | succ todo ih =>
      have hfirst : ∀ str : UInt32, ExecArgs s0 argvR (todo + 1) a →
          s0.memory.load (argvR + 4 * a) 4 = some str.toNat →
            Reaches s0 str 1 ∧ NulTerm s0 str.toNat := by
        intro str h hload
        exact h 0 str (Nat.succ_pos todo) hload
      have hrest : ExecArgs s0 argvR (todo + 1) a → ExecArgs s0 argvR todo (a + 1) := by
        intro h k str hk hload
        refine h (k + 1) str (Nat.succ_lt_succ hk) ?_
        rwa [← Nat.add_assoc, Nat.add_right_comm]
      unfold execArgs
      mvcgen [ih]
      all_goals grind

theorem sysExec_acts :
    CallActs os (ExecReach s0 argv retv) s0 (sysExec os argv retv s0) := by
  have hrefl := CallMoves.refl os (ExecReach s0 argv retv) s0
  unfold sysExec
  refine acts_argsMem And.left rfl fun _ => acts_load64 fun argc hargc => ?_
  split
  · exact acts_fail hrefl
  next hne =>
    refine acts_load32 fun argvR hargvR => ?_
    have hreach := fun hq : ExecReach s0 argv retv => hq.2 argc argvR hargc hargvR hne
    refine acts_derefMem hrefl (fun hq => (hreach hq).1) (fun s h => acts_store_last h) fun _ => ?_
    refine acts_bind fun strs s₁ hrun => ?_
    obtain ⟨hsame, hquiet⟩ := of_triple (execArgs_spec s0 argvR.toNat argc.toNat 0) hrun
    have h₁ := hrefl.sameProcs hsame fun hq => by rw [hquiet (hreach hq).2]
    cases strs with
    | none => exact acts_store_last h₁
    | some strs => exact acts_call h₁ fun s₂ _ _ h₂ => forked_acts os s0 _ _ h₂

theorem runImage_acts {quiet : Prop} (code mem : List UInt8) (entryPt : UInt64) (ret : ℕ) :
    CallActs os quiet s0 (runImage os code mem entryPt ret s0) := by
  unfold runImage
  refine acts_bind fun dir s₁ hask => ?_
  have h₁ := (CallMoves.refl os quiet s0).same (of_triple (ask_spec s0 os.setupImageGenDir) hask).1
  split
  · refine acts_call_ends h₁ (fun s h => acts_getErrno ?_) fun _ s h => ?_
    · refine acts_bind fun _ s' hset => acts_store_last ?_
      exact h.same (of_triple (setErrorNo_spec s _) hset).1
    · exact acts_call h fun s₃ _ _ h₃ => forked_acts os s0 _ _ h₃
  · exact acts_ub

theorem sysRun_acts :
    CallActs os (RunReach s0 argv retv) s0 (sysRun os argv retv s0) := by
  have hrefl := CallMoves.refl os (RunReach s0 argv retv) s0
  unfold sysRun
  refine acts_argsMem And.left rfl fun _ => ?_
  refine acts_load32 fun codeRef hcodeRef => acts_load64 fun codesz hcodesz => ?_
  refine acts_load32 fun memRef hmemRef => acts_load64 fun memsz hmemsz => ?_
  refine acts_load64 fun entryPt hentryPt => ?_
  split
  · exact acts_fail hrefl
  next hgiven =>
    rw [not_or, not_or, UInt64.not_le, not_le, not_le] at hgiven
    have hreach := fun hq : RunReach s0 argv retv =>
      hq.2 codeRef memRef codesz memsz entryPt hcodeRef hcodesz hmemRef hmemsz hentryPt
        hgiven.1 hgiven.2.1 hgiven.2.2
    refine acts_derefMem hrefl (fun hq => (hreach hq).1) (fun s h => acts_store_last h) fun _ => ?_
    refine acts_derefMem hrefl (fun hq => (hreach hq).2) (fun s h => acts_store_last h) fun _ => ?_
    exact acts_readMemBytes fun code => acts_readMemBytes fun mem =>
      runImage_acts os s0 code mem _ _

theorem sysKill_acts :
    CallActs os (ArgsReach s0 argv 8 retv) s0 (sysKill os argv retv s0) := by
  unfold sysKill
  refine acts_argsMem id rfl fun _ => acts_load64 fun pid _ => ?_
  exact acts_call_ends (.refl os _ s0) (fun s h => acts_failErrno h) fun _ s h => acts_store_last h

/-- A callback that is inside the code fits in 32 bits. -/
theorem toUInt32_toNat_le (callback : UInt64) : callback.toUInt32.toNat ≤ callback.toNat := by
  rw [UInt64.toNat_toUInt32]
  exact Nat.mod_le _ _

theorem sysOnexit_acts :
    CallActs os (ArgsReach s0 argv 8 retv) s0 (sysOnexit argv retv s0) := by
  have hrefl := CallMoves.refl os (ArgsReach s0 argv 8 retv) s0
  unfold sysOnexit
  refine acts_argsMem id rfl fun _ => acts_load64 fun cbArgs _ => ?_
  refine acts_deref (acts_fail hrefl) fun _ => ?_
  rw [if_neg (by simp)]
  refine acts_load64 fun callback _ => acts_get ?_
  split
  · exact acts_fail hrefl
  next hlt =>
    refine acts_load64 fun pid _ => acts_get ?_
    cases hproc : findProc pid.toUInt32.toInt32 s0.host.proc with
    | none => exact acts_fail hrefl
    | some p =>
        refine acts_bind fun _ s hrun => acts_store_last ?_
        have hinside : callback.toUInt32.toNat < s0.code.size :=
          (toUInt32_toNat_le callback).trans_lt (Nat.lt_of_not_le hlt)
        exact hrefl.procActs (of_triple (addExitCallback_spec s0 _ _) hrun _ hproc hinside)

end Calls

/-! ## Every system call -/

/-- **What a system call but `yield` does**: it moves the tables by valid actions and appends
procedures, and if its arguments are quiet it sets no exception. -/
theorem syscall_acts {os : Os ω} {k : Syscall} {argv retv : UInt32} {vm vm' : Vm (Sys ω)} {a : Unit}
    (hk : k ≠ .yield) (h : k.function os argv retv vm = .ok (a, vm')) :
    Acts os vm vm' ∧ (QuietCall os k argv retv vm → vm'.exceptions = vm.exceptions) := by
  have hacts : CallActs os (QuietCall os k argv retv vm) vm (k.function os argv retv vm) := by
    cases k with
    | getlasterr => exact sysGetlasterr_acts os vm argv retv
    | setlasterr => exact sysSetlasterr_acts os vm argv retv
    | time => exact sysTime_acts os vm argv retv
    | timeout => exact sysTimeout_acts os vm argv retv
    | yield => exact absurd rfl hk
    | close => exact sysClose_acts os vm argv retv
    | read => exact sysRead_acts os vm argv retv
    | write => exact sysWrite_acts os vm argv retv
    | fsOpen => exact sysFsOpen_acts os vm argv retv
    | fsStat => exact sysFsStat_acts os vm argv retv
    | fsUnlink => exact onPath_acts os vm argv retv os.unlink
    | fsSeek => exact sysFsSeek_acts os vm argv retv
    | fsMkdir => exact onPath_acts os vm argv retv os.mkdir
    | fsRmdir => exact onPath_acts os vm argv retv os.rmdir
    | fsReaddir => exact sysFsReaddir_acts os vm argv retv
    | socket => exact sysSocket_acts os vm argv retv
    | bind => exact sysBind_acts os vm argv retv
    | connect => exact sysConnect_acts os vm argv retv
    | listen => exact sysListen_acts os vm argv retv
    | accept => exact sysAccept_acts os vm argv retv
    | peerAddress => exact sysPeerAddress_acts os vm argv retv
    | mexpand => exact sysMexpand_acts os vm argv retv
    | mretract => exact sysMretract_acts os vm argv retv
    | msize => exact sysMsize_acts os vm argv retv
    | exec => exact sysExec_acts os vm argv retv
    | run => exact sysRun_acts os vm argv retv
    | kill => exact sysKill_acts os vm argv retv
    | onexit => exact sysOnexit_acts os vm argv retv
    | codesz => exact sysCodesz_acts os vm argv retv
    | codecp => exact sysCodecp_acts os vm argv retv
  exact ⟨(hacts a vm' h).acts, (hacts a vm' h).quiet⟩

/-- **What every system call does**. `yield` rotates the procedures. -/
theorem syscall_moves {os : Os ω} {k : Syscall} {argv retv : UInt32} {vm vm' : Vm (Sys ω)}
    {a : Unit} (h : k.function os argv retv vm = .ok (a, vm')) :
    Moved os vm vm' ∧ (QuietCall os k argv retv vm → vm'.exceptions = vm.exceptions) := by
  by_cases hk : k = .yield
  · rw [hk] at h
    have hyield := sysYield_moved os vm argv retv h
    exact ⟨hyield.1, fun _ => hyield.2⟩
  · have hacts := syscall_acts hk h
    exact ⟨hacts.1.moved, hacts.2⟩

end BvgzVm
