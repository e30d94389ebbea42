import BvgzVm.Syscalls.BlockRuns

set_option autoImplicit false

/-! # Blocks of a fixed size

Every access of a system call to a block of a fixed size is inside the memory exactly if the blocks
that the call gets to really are there (`argument_blocks_iff`): the check of a block adds in
32 bits, some sizes that are checked are not those that are used, and a cell may be used when the
end of the memory is gone.
-/

namespace BvgzVm

open Stateful

variable {ω : Type}

/-- If the block is accepted, all that is used of it is in memory. -/
def Block.Inside (vm : Vm (Sys ω)) (b : Block) : Prop :=
  Reaches vm b.ref b.checked → b.In vm.memory.size

/-- The block of the arguments and the cell of the result. -/
def argBlocks (k : Syscall) (argv retv : UInt32) : List Block :=
  match k with
  | .yield => []
  | .getlasterr | .codesz | .msize => [resultCell retv]
  | .setlasterr => [⟨argv, 8, 8⟩]
  | .close | .listen | .socket | .kill | .fsStat | .mexpand | .mretract =>
      [⟨argv, 8, 8⟩, resultCell retv]
  | .fsUnlink | .fsMkdir | .fsRmdir => [⟨argv, 4, 4⟩, resultCell retv]
  | .timeout | .fsOpen | .bind | .peerAddress | .exec => [⟨argv, 12, 12⟩, resultCell retv]
  | .time | .accept => [⟨argv, 16, 16⟩, resultCell retv]
  | .connect | .codecp => [⟨argv, 20, 20⟩, resultCell retv]
  | .fsSeek => [⟨argv, 24, 24⟩, resultCell retv]
  | .fsReaddir => [⟨argv, 28, 28⟩, resultCell retv]
  | .run => [⟨argv, 32, 32⟩, resultCell retv]
  | .read | .write => [⟨argv, 40, 28⟩, resultCell retv]
  | .onexit => [⟨argv, 8, 24⟩, resultCell retv]

/-- The arguments and the result are accepted. -/
def ArgsAccepted (k : Syscall) (vm : Vm (Sys ω)) (argv retv : UInt32) : Prop :=
  ∀ b ∈ argBlocks k argv retv, Reaches vm b.ref b.checked

instance (k : Syscall) (vm : Vm (Sys ω)) (argv retv : UInt32) :
    Decidable (ArgsAccepted k vm argv retv) :=
  inferInstanceAs (Decidable (∀ b ∈ argBlocks k argv retv, _))

/-- There is a cell for the result. -/
def Syscall.hasResult : Syscall → Bool
  | .yield | .setlasterr => false
  | _ => true

variable (os : Os ω) (k : Syscall) (vm : Vm (Sys ω)) (argv retv : UInt32)

/-- The blocks that a call gets to whose arguments are accepted. -/
def acceptedBlocks : List Block :=
  match k with
  | .yield | .getlasterr | .setlasterr | .codesz | .msize | .timeout | .kill =>
      argBlocks k argv retv
  | .time => timeBlocks os vm argv retv
  | .close => closeBlocks vm argv retv
  | .read => ioBlocks os vm argv retv .read
  | .write => ioBlocks os vm argv retv .write
  | .fsOpen => fsOpenBlocks os vm argv retv
  | .fsStat => fsStatBlocks os vm argv retv
  | .fsUnlink | .fsMkdir | .fsRmdir => pathBlocks vm argv retv 4 [resultCell retv]
  | .fsSeek => handleBlocks vm argv retv 24 fun _ => [⟨argv, 24, 24⟩, resultCell retv]
  | .fsReaddir => fsReaddirBlocks os vm argv retv
  | .socket => socketBlocks os vm argv retv
  | .bind => bindBlocks vm argv retv
  | .connect => connectBlocks os vm argv retv
  | .listen => handleBlocks vm argv retv 8 fun _ => [resultCell retv]
  | .accept => acceptBlocks os vm argv retv
  | .peerAddress => peerBlocks vm argv retv
  | .mexpand => mexpandBlocks os vm argv retv
  | .mretract => mretractBlocks os vm argv retv
  | .exec => execBlocks vm argv retv
  | .run => runBlocks os vm argv retv
  | .onexit => onexitBlocks vm argv retv
  | .codecp => codecpBlocks vm argv retv

/-- **The blocks a call gets to.** -/
def usedBlocks : List Block :=
  if ArgsAccepted k vm argv retv then acceptedBlocks os k vm argv retv
  else if k.hasResult then refusedBlocks vm retv
  else []

/-- The ranges whose size the guest has passed, as far as the call gets into them. -/
def sizedRanges : List Block :=
  match k with
  | .exec =>
      let argc := word64 vm argv.toNat
      let argvR := word32 vm (argv.toNat + 8)
      if Block.In vm.memory.size ⟨argv, 12, 12⟩ ∧ argc ≠ 0 then
        [⟨argvR, (argc * 4).toUInt32, 4 * argsRead vm argvR.toNat argc.toNat 0⟩]
      else []
  | .run =>
      let codesz := word64 vm (argv.toNat + 4)
      let memsz := word64 vm (argv.toNat + 16)
      if Block.In vm.memory.size ⟨argv, 32, 32⟩ ∧ RunGiven vm argv then
        [⟨word32 vm argv.toNat, codesz.toUInt32, codesz.toNat⟩,
          ⟨word32 vm (argv.toNat + 12), memsz.toUInt32, memsz.toNat⟩]
      else []
  | .codecp =>
      let start := word64 vm argv.toNat
      let size := word64 vm (argv.toNat + 8)
      if Block.In vm.memory.size ⟨argv, 20, 20⟩ ∧ (start + size).toNat ≤ vm.code.size ∧
          Bytes.read vm.code.bytes start.toNat size.toNat ≠ none then
        [⟨word32 vm (argv.toNat + 16), size.toUInt32, size.toNat⟩]
      else []
  -- the pointers and their terminator may come to lie behind the end of the buffer
  | .fsReaddir =>
      let path := stringAt vm.memory (word32 vm argv.toNat).toNat
      let bufLen := word64 vm (argv.toNat + 8)
      let names := (os.opendir path vm.host.world).1.toOption.getD []
      let saved := (packing bufLen names 0 bufLen.toNat 0).1
      if AllIn vm.memory.size [⟨argv, 28, 28⟩, resultCell retv] ∧ PathAccepted vm argv ∧
          0 < saved then
        [⟨word32 vm (argv.toNat + 4), bufLen.toUInt32, max bufLen.toNat (4 * saved + 4)⟩]
      else []
  | _ => []

/-- The call leaves the memory by a range whose size the guest has passed. -/
def SizedOutside : Prop :=
  ArgsAccepted k vm argv retv ∧ ∃ b ∈ sizedRanges os k vm argv retv, ¬ b.Inside vm

/-- The blocks that a call needs to come to its end: the arguments, the result, and the addresses
that it is given. -/
def wantedBlocks : List Block :=
  match k with
  | .time => timeBlocks os vm argv retv
  | .bind | .peerAddress => addrBlocks vm argv retv 12
  | .connect => addrBlocks vm argv retv 20
  | _ => argBlocks k argv retv

/-- The machine with another error from before. -/
def Vm.withErrorNo (e : Int32) (vm : Vm (Sys ω)) : Vm (Sys ω) :=
  vm.withSys fun s => { s with errorNo := e }

/-- **Blocks of a fixed size are safe**: no access is outside the memory but through a range whose
size the guest has passed, and a call whose blocks are not in memory fails, whatever error is left
from before. -/
structure BlockLaw : Prop where
  inside : k.function os argv retv vm = .error .deref → SizedOutside os k vm argv retv
  refuses : ¬ ArgsAccepted k vm argv retv → ∀ e, ∃ vm',
    k.function os argv retv (vm.withErrorNo e) = .ok ((), vm') ∧ vm'.host.errorNo = eFAULT
  fails : ∀ e vm', k.function os argv retv (vm.withErrorNo e) = .ok ((), vm') →
    Done vm.memory.size (wantedBlocks os k vm argv retv) vm'

/-- **The checks agree with what is used**: the blocks that the call gets to are in memory. -/
def BlocksInside : Prop :=
  SizedOutside os k vm argv retv ∨ AllIn vm.memory.size (usedBlocks os k vm argv retv)

/-! ## All calls -/

variable {os k vm argv retv}

theorem argsAccepted_pair {n : UInt32} {e : ℕ}
    (hk : argBlocks k argv retv = [⟨argv, n, e⟩, resultCell retv]) :
    ArgsAccepted k vm argv retv ↔ ArgsReach vm argv n retv := by
  simp [ArgsAccepted, hk, resultCell, ArgsReach]

theorem argsAccepted_one {ref n : UInt32} {e : ℕ} (hk : argBlocks k argv retv = [⟨ref, n, e⟩]) :
    ArgsAccepted k vm argv retv ↔ Reaches vm ref n := by
  simp [ArgsAccepted, hk]

/-- A range of a call that is accepted and is not in memory. -/
theorem sizedOutside_of {ref n : UInt32} {e : ℕ} (haccepted : ArgsAccepted k vm argv retv)
    (hreach : Reaches vm ref n) (hout : vm.memory.size < ref.toNat + e)
    (hb : ⟨ref, n, e⟩ ∈ sizedRanges os k vm argv retv) : SizedOutside os k vm argv retv :=
  ⟨haccepted, _, hb, fun hinside => Nat.not_le.2 hout (hinside hreach)⟩

theorem exec_ends (h : ArgsAccepted .exec vm argv retv) :
    Uses vm.memory.size (execBlocks vm argv retv) [⟨argv, 12, 12⟩, resultCell retv]
      (SizedOutside os .exec vm argv retv) (sysExec os argv retv vm) := by
  refine sysExec_ends os ((argsAccepted_pair rfl).1 h) fun hargs hzero hreach hout => ?_
  refine sizedOutside_of h hreach hout ?_
  rw [sizedRanges, if_pos ⟨hargs, hzero⟩]
  exact List.mem_singleton_self _

theorem run_ends (h : ArgsAccepted .run vm argv retv) :
    Uses vm.memory.size (runBlocks os vm argv retv) [⟨argv, 32, 32⟩, resultCell retv]
      (SizedOutside os .run vm argv retv) (sysRun os argv retv vm) := by
  refine sysRun_ends os ((argsAccepted_pair rfl).1 h) (fun hargs hgiven hout => ?_)
    (fun hargs hgiven hout => ?_)
  · refine sizedOutside_of h hgiven.2.1 hout ?_
    rw [sizedRanges, if_pos ⟨hargs, hgiven⟩]
    exact .head _
  · refine sizedOutside_of h hgiven.2.2 hout ?_
    rw [sizedRanges, if_pos ⟨hargs, hgiven⟩]
    exact .tail _ (.head _)

theorem codecp_ends (h : ArgsAccepted .codecp vm argv retv) :
    Uses vm.memory.size (codecpBlocks vm argv retv) [⟨argv, 20, 20⟩, resultCell retv]
      (SizedOutside os .codecp vm argv retv) (sysCodecp argv retv vm) := by
  refine sysCodecp_ends ((argsAccepted_pair rfl).1 h) fun hargs hle hreach hread hout => ?_
  refine sizedOutside_of h hreach hout ?_
  rw [sizedRanges, if_pos ⟨hargs, hle, hread⟩]
  exact List.mem_singleton_self _

theorem fsReaddir_ends (h : ArgsAccepted .fsReaddir vm argv retv) :
    Uses vm.memory.size (fsReaddirBlocks os vm argv retv) [⟨argv, 28, 28⟩, resultCell retv]
      (SizedOutside os .fsReaddir vm argv retv) (sysFsReaddir os argv retv vm) := by
  refine sysFsReaddir_ends os ((argsAccepted_pair rfl).1 h) ?_
  rintro names saved hargs hcell hpath hnames hsaved hpos hreach hout
  refine sizedOutside_of h hreach hout ?_
  subst hsaved
  have hall : AllIn vm.memory.size [⟨argv, 28, 28⟩, resultCell retv] := by simp [hargs, hcell]
  have hread : (os.opendir (stringAt vm.memory (word32 vm argv.toNat).toNat)
      vm.host.world).1.toOption.getD [] = names := by
    rw [hnames]
    rfl
  rw [sizedRanges, hread, if_pos ⟨hall, hpath, hpos⟩]
  exact List.mem_singleton_self _

theorem function_ends (h : ArgsAccepted k vm argv retv) :
    Uses vm.memory.size (acceptedBlocks os k vm argv retv) (wantedBlocks os k vm argv retv)
      (SizedOutside os k vm argv retv) (k.function os argv retv vm) := by
  cases k with
  | yield => exact @sysYield_ends ω vm argv retv _
  | getlasterr => exact @sysGetlasterr_ends ω vm argv retv _ ((argsAccepted_one rfl).1 h)
  | codesz => exact @sysCodesz_ends ω vm argv retv _ ((argsAccepted_one rfl).1 h)
  | msize => exact @sysMsize_ends ω vm argv retv _ ((argsAccepted_one rfl).1 h)
  | setlasterr => exact @sysSetlasterr_ends ω vm argv retv _ ((argsAccepted_one rfl).1 h)
  | time => exact sysTime_ends os ((argsAccepted_pair rfl).1 h)
  | timeout => exact sysTimeout_ends os ((argsAccepted_pair rfl).1 h)
  | close => exact sysClose_ends os ((argsAccepted_pair rfl).1 h)
  | read => exact sysRead_ends os ((argsAccepted_pair rfl).1 h)
  | write => exact sysWrite_ends os ((argsAccepted_pair rfl).1 h)
  | fsOpen => exact sysFsOpen_ends os ((argsAccepted_pair rfl).1 h)
  | fsStat => exact sysFsStat_ends os ((argsAccepted_pair rfl).1 h)
  | fsUnlink => exact onPath_ends os.unlink ((argsAccepted_pair rfl).1 h)
  | fsMkdir => exact onPath_ends os.mkdir ((argsAccepted_pair rfl).1 h)
  | fsRmdir => exact onPath_ends os.rmdir ((argsAccepted_pair rfl).1 h)
  | fsSeek => exact sysFsSeek_ends os ((argsAccepted_pair rfl).1 h)
  | fsReaddir => exact fsReaddir_ends h
  | socket => exact sysSocket_ends os ((argsAccepted_pair rfl).1 h)
  | bind => exact sysBind_ends os ((argsAccepted_pair rfl).1 h)
  | connect => exact sysConnect_ends os ((argsAccepted_pair rfl).1 h)
  | listen => exact sysListen_ends os ((argsAccepted_pair rfl).1 h)
  | accept => exact sysAccept_ends os ((argsAccepted_pair rfl).1 h)
  | peerAddress => exact sysPeerAddress_ends ((argsAccepted_pair rfl).1 h)
  | mexpand => exact sysMexpand_ends os ((argsAccepted_pair rfl).1 h)
  | mretract => exact sysMretract_ends os ((argsAccepted_pair rfl).1 h)
  | exec => exact exec_ends h
  | run => exact run_ends h
  | kill => exact sysKill_ends os ((argsAccepted_pair rfl).1 h)
  | onexit => exact sysOnexit_ends ((argsAccepted_pair rfl).1 h)
  | codecp => exact codecp_ends h

/-- A call with one block, which is not accepted. -/
theorem oneBlock_refused {find : UInt32 → UInt32 → SysM ω (Option ℕ)} (hfind : ChecksRef find)
    {ref : UInt32} (h : ¬ Reaches vm ref 8) {f : Option ℕ → SysM ω Unit}
    (hnone : f none = setErrorNo eFAULT) {bs : List Block} (hbs : bs = []) :
    Refuses (AllIn vm.memory.size bs) ((find ref 8 >>= f) vm) := by
  obtain ⟨s', hrun, -⟩ := hfind.rejects h
  rw [bind_of_ok hrun, hnone, hbs]
  exact .returns (allIn_nil _) rfl

theorem getIoTaskParams_refused (h : ¬ ArgsReach vm argv 40 retv)
    {f : Option IoTask → SysM ω Unit} (hnone : f none = pure ()) :
    Refuses (AllIn vm.memory.size (refusedBlocks vm retv))
      ((getIoTaskParams argv retv >>= f) vm) := by
  unfold getIoTaskParams
  rw [bind_assoc]
  refine argsRet_refused derefMem_checks h (b := ()) ?_
  dsimp only
  rw [pure_bind, hnone]

theorem setupSysFsCall_refused {n : UInt32} (h : ¬ ArgsReach vm argv n retv)
    {f : Option (ℕ × ℕ × ℕ) → SysM ω Unit} (hnone : f none = pure ()) :
    Refuses (AllIn vm.memory.size (refusedBlocks vm retv))
      ((setupSysFsCall argv retv n >>= f) vm) := by
  unfold setupSysFsCall
  rw [bind_assoc]
  refine argsRet_refused deref_checks h (b := ()) ?_
  dsimp only
  rw [pure_bind, hnone]

theorem function_refuses (h : ¬ ArgsAccepted k vm argv retv) :
    Refuses (AllIn vm.memory.size (if k.hasResult then refusedBlocks vm retv else []))
      (k.function os argv retv vm) := by
  cases k with
  | yield => exact absurd (fun b hb => absurd hb List.not_mem_nil) h
  | getlasterr =>
      have hret := mt (argsAccepted_one rfl).2 h
      exact oneBlock_refused deref_checks hret rfl (if_neg hret)
  | codesz =>
      have hret := mt (argsAccepted_one rfl).2 h
      exact oneBlock_refused derefMem_checks hret rfl (if_neg hret)
  | msize =>
      have hret := mt (argsAccepted_one rfl).2 h
      exact oneBlock_refused derefMem_checks hret rfl (if_neg hret)
  | setlasterr => exact oneBlock_refused deref_checks (mt (argsAccepted_one rfl).2 h) rfl rfl
  | time | timeout | socket | bind | connect | listen | accept | peerAddress =>
      exact argsRet_refused deref_checks (mt (argsAccepted_pair rfl).2 h) rfl
  | close | fsSeek | mexpand | mretract | exec | run | kill | onexit | codecp =>
      exact argsRet_refused derefMem_checks (mt (argsAccepted_pair rfl).2 h) rfl
  | read => exact getIoTaskParams_refused (mt (argsAccepted_pair rfl).2 h) rfl
  | write => exact getIoTaskParams_refused (mt (argsAccepted_pair rfl).2 h) rfl
  | fsOpen | fsStat | fsReaddir =>
      exact setupSysFsCall_refused (mt (argsAccepted_pair rfl).2 h) rfl
  | fsUnlink | fsMkdir | fsRmdir =>
      exact setupSysFsCall_refused (mt (argsAccepted_pair rfl).2 h) rfl

/-! ## The condition -/

theorem wantedBlocks_withErrorNo (e : Int32) :
    wantedBlocks os k (vm.withErrorNo e) argv retv = wantedBlocks os k vm argv retv := by
  cases k <;> rfl

instance (b : Block) : Decidable (b.Inside vm) :=
  inferInstanceAs (Decidable (Reaches vm b.ref b.checked → b.In vm.memory.size))

instance : Decidable (SizedOutside os k vm argv retv) :=
  inferInstanceAs (Decidable (ArgsAccepted k vm argv retv ∧ ∃ b ∈ sizedRanges os k vm argv retv, _))

instance : Decidable (BlocksInside os k vm argv retv) :=
  inferInstanceAs (Decidable (_ ∨ _))

/-- A handle that is not in use is rejected before the address is looked at, which wraps around. -/
example : BlocksInside growOs .bind
    { handleVm 1 0 [] with
      memory := ⟨[1, 0, 0, 0, 0, 0, 0, 0, 0xfe, 0xff, 0xff, 0xff] ++ List.replicate 12 0, by simp⟩ }
    0 16 := by
  decide +kernel

/-- The end of the result wraps around to `0`. -/
example : ¬ BlocksInside growOs .msize (handleVm 0 0 []) 0 0xfffffff8 := by
  decide +kernel

end BvgzVm
