import BvgzVm.Syscalls.Handles

set_option autoImplicit false

/-! # Memory that grows

`mexpand` asks for the sum of the old size and of a number of 64 bits, and records the sum in 32
bits. Only where the sum has 32 bits do the block and its recorded size agree (`mexpand_iff`).
-/

namespace BvgzVm

open Stateful Std.Do

set_option mvcgen.warning false

variable {ω : Type}

attribute [local spec high] ub_exact setErrorNo_exact ask_exact derefMem_exact loadU64_exact
  storeU64_exact setMemory_exact

attribute [local grind →] Same.memsz word64_of_load inside_of_load

attribute [local grind =] InMemory raise_memory raise_host reaches_raise

/-! ## The law -/

/-- The first `n` bytes are as before, but for those of the result cell. -/
def SameBut (ret n : ℕ) (s s' : Segment) : Prop :=
  ∀ k < n, k < ret ∨ ret + 8 ≤ k → s'.bytes[k]? = s.bytes[k]?

/-- The memory has grown by `sz` bytes, or a failure is reported and the memory is as before. -/
def ExpandLaw (retv : UInt32) (sz : ℕ) (vm : Vm (Sys ω))
    (run : Except Ub (Unit × Vm (Sys ω))) : Prop :=
  ∃ vm', run = .ok ((), vm') ∧
    ((vm'.memory.load retv.toNat 8 = some 0 ∧ vm.memory.size + sz < 2 ^ 32 ∧
        vm'.memory.size = vm.memory.size + sz ∧
        SameBut retv.toNat vm.memory.size vm.memory vm'.memory) ∨
      (∃ v, vm'.memory.load retv.toNat 8 = some v ∧ v ≠ 0) ∧
        vm'.memory.size = vm.memory.size ∧
        SameBut retv.toNat vm.memory.size vm.memory vm'.memory)

/-- Where the number of bytes is accepted, it really is in memory, the sum of 64 bits is not `0`,
and `realloc` refuses a sum that has not 32 bits. -/
def Expandable (os : Os ω) (vm : Vm (Sys ω)) (argv : UInt32) : Prop :=
  Reaches vm argv 8 → InMemory vm argv 8 ∧
    (vm.memory.size + (word64 vm argv.toNat).toNat) % 2 ^ 64 ≠ 0 ∧
    ((os.realloc ((vm.memory.size + (word64 vm argv.toNat).toNat) % 2 ^ 64)
      vm.host.world).1 = true → vm.memory.size + (word64 vm argv.toNat).toNat < 2 ^ 32)

/-! ## The bytes that stay -/

theorem SameBut.refl (ret n : ℕ) (s : Segment) : SameBut ret n s s := fun _ _ _ => rfl

/-- The store of the result changes its cell only. -/
theorem SameBut.store {ret n v : ℕ} {s s' s'' : Segment} (h : SameBut ret n s s')
    (hstore : s'.write ret (Bytes.toLE 8 v) = some s'') : SameBut ret n s s'' := by
  intro k hk hout
  have hget := Bytes.write_getElem? (Segment.write_bytes hstore) k
  rw [Bytes.length_toLE, if_neg (by omega)] at hget
  rw [hget]
  exact h k hk hout

/-- A block that is as long as the old one has its bytes. -/
theorem SameBut.resize (fill : ℕ → UInt8) (s : Segment) {ret size : ℕ} (hge : s.size ≤ size)
    (hlt : size < 2 ^ 32) : SameBut ret s.size s (resizeSegment fill s size) := by
  intro k hk _
  show (Bytes.resize fill s.bytes (size % 2 ^ 32))[k]? = _
  rw [Nat.mod_eq_of_lt hlt]
  unfold Bytes.resize
  have hlen : k < (s.bytes.take size).length := by
    rw [List.length_take]
    exact lt_min (hk.trans_le hge) hk
  rw [List.getElem?_append_left hlen, List.getElem?_take_of_lt (hk.trans_le hge)]

/-! ## The call -/

@[local spec high] theorem fail_cell (s0 : Vm (Sys ω)) (e : Int32) {ret : ℕ}
    (hret : ret + 8 ≤ s0.memory.size) :
    ⦃fun vm => ⌜vm = s0⌝⦄ (fail e ret 1 : SysM ω Unit)
    ⦃post⟨fun _ vm => ⌜vm.memory.load ret 8 = some 1 ∧ vm.memory.size = s0.memory.size ∧
      SameBut ret s0.memory.size s0.memory vm.memory⌝, fun _ => ⌜False⌝⟩⦄ := by
  have hrefl := SameBut.refl ret s0.memory.size s0.memory
  have hstore := fun {v : ℕ} {s' s'' : Segment} =>
    @SameBut.store ret s0.memory.size v s0.memory s' s''
  unfold fail
  mvcgen
  all_goals grind

@[local spec high] theorem argsRet_cell (s0 : Vm (Sys ω)) (argv size : UInt32) {retv : UInt32}
    (hret : InMemory s0 retv 8) (hreach : Reaches s0 retv 8) :
    ⦃fun vm => ⌜vm = s0⌝⦄ (argsRet derefMem argv size retv 1 : SysM ω _)
    ⦃post⟨fun r vm => ⌜(r = none ∧ ¬ Reaches s0 argv size ∧
          vm.memory.load retv.toNat 8 = some 1 ∧ vm.memory.size = s0.memory.size ∧
          SameBut retv.toNat s0.memory.size s0.memory vm.memory) ∨
        r = some (argv.toNat, retv.toNat) ∧ vm = s0 ∧ Reaches s0 argv size⌝,
      fun _ => ⌜False⌝⟩⦄ := by
  have hrefl := SameBut.refl retv.toNat s0.memory.size s0.memory
  have hstore := fun {v : ℕ} {s' s'' : Segment} =>
    @SameBut.store retv.toNat s0.memory.size v s0.memory s' s''
  unfold argsRet
  mvcgen
  all_goals grind

@[local spec high] theorem reallocMemory_cell (os : Os ω) (s0 : Vm (Sys ω)) (size : ℕ) {ret : ℕ}
    (hret : ret + 8 ≤ s0.memory.size) :
    ⦃fun vm => ⌜vm = s0⌝⦄ reallocMemory os size ret
    ⦃post⟨fun _ vm => ⌜size ≠ 0 ∧
        (((os.realloc size s0.host.world).1 = true ∧
            (∀ v, vm.memory.load ret 8 = some v → v = 0) ∧
            (s0.memory.size ≤ size → size < 2 ^ 32 → vm.memory.load ret 8 = some 0 ∧
              vm.memory.size = size ∧ SameBut ret s0.memory.size s0.memory vm.memory)) ∨
          (os.realloc size s0.host.world).1 = false ∧ vm.memory.load ret 8 = some 1 ∧
            vm.memory.size = s0.memory.size ∧
            SameBut ret s0.memory.size s0.memory vm.memory)⌝,
      fun _ => ⌜size = 0 ∨ (os.realloc size s0.host.world).1 = true ∧
        ¬ (s0.memory.size ≤ size ∧ size < 2 ^ 32)⌝⟩⦄ := by
  have hstore := fun {v : ℕ} {s' s'' : Segment} =>
    @SameBut.store ret s0.memory.size v s0.memory s' s''
  have hresize := @SameBut.resize os.fill s0.memory ret size
  have hload := fun (s : Segment) v => @load_resizeSegment os.fill s size ret 8 v
  unfold reallocMemory
  mvcgen
  all_goals grind [size_resizeSegment]

/-- The size that `realloc` is asked for. -/
def expandedSize (vm : Vm (Sys ω)) (argv : UInt32) : ℕ :=
  (vm.memory.size + (word64 vm argv.toNat).toNat) % 2 ^ 64

/-- How `mexpand` ends. -/
theorem sysMexpand_exact (os : Os ω) {s0 : Vm (Sys ω)} {argv retv : UInt32}
    (hret : InMemory s0 retv 8) (hreach : Reaches s0 retv 8) :
    ⦃fun vm => ⌜vm = s0⌝⦄ sysMexpand os argv retv
    ⦃post⟨fun _ vm => ⌜
        (¬ Reaches s0 argv 8 ∧ vm.memory.load retv.toNat 8 = some 1 ∧
          vm.memory.size = s0.memory.size ∧
          SameBut retv.toNat s0.memory.size s0.memory vm.memory) ∨
        InMemory s0 argv 8 ∧ expandedSize s0 argv ≠ 0 ∧
          (((os.realloc (expandedSize s0 argv) s0.host.world).1 = true ∧
              (∀ v, vm.memory.load retv.toNat 8 = some v → v = 0) ∧
              (s0.memory.size ≤ expandedSize s0 argv → expandedSize s0 argv < 2 ^ 32 →
                vm.memory.load retv.toNat 8 = some 0 ∧
                vm.memory.size = expandedSize s0 argv ∧
                SameBut retv.toNat s0.memory.size s0.memory vm.memory)) ∨
            (os.realloc (expandedSize s0 argv) s0.host.world).1 = false ∧
              vm.memory.load retv.toNat 8 = some 1 ∧ vm.memory.size = s0.memory.size ∧
              SameBut retv.toNat s0.memory.size s0.memory vm.memory)⌝,
      fun _ => ⌜Reaches s0 argv 8 ∧ (¬ InMemory s0 argv 8 ∨ expandedSize s0 argv = 0 ∨
        (os.realloc (expandedSize s0 argv) s0.host.world).1 = true ∧
          ¬ (s0.memory.size ≤ expandedSize s0 argv ∧ expandedSize s0 argv < 2 ^ 32))⌝⟩⦄ := by
  unfold sysMexpand
  mvcgen
  all_goals grind [expandedSize]

/-- The sum has 32 bits just when it is not less than the old size after it has lost its carry. -/
theorem expandedSize_lt_iff (vm : Vm (Sys ω)) (argv : UInt32) :
    (vm.memory.size ≤ expandedSize vm argv ∧ expandedSize vm argv < 2 ^ 32) ↔
      vm.memory.size + (word64 vm argv.toNat).toNat < 2 ^ 32 := by
  have hsize := vm.memory.size_lt'
  have hsz := (word64 vm argv.toNat).toNat_lt
  unfold expandedSize
  omega

/-- **`mexpand` grows the memory by what it is asked for, or reports a failure, just when**
`realloc` does not give it a block whose size has more than 32 bits or has wrapped around. -/
theorem mexpand_iff (os : Os ω) {vm : Vm (Sys ω)} {argv retv : UInt32}
    (hret : InMemory vm retv 8) :
    ExpandLaw retv (word64 vm argv.toNat).toNat vm (Syscall.mexpand.function os argv retv vm) ↔
      Expandable os vm argv := by
  have hreach : Reaches vm retv 8 := hret.reaches_result
  have hlt := expandedSize_lt_iff vm argv
  rcases of_exact (@sysMexpand_exact ω os vm argv retv hret hreach) with ⟨hok, herror⟩
  show ExpandLaw _ _ _ (sysMexpand os argv retv vm) ↔ (_ → _ ∧ expandedSize vm argv ≠ 0 ∧
    ((os.realloc (expandedSize vm argv) vm.host.world).1 = true → _))
  constructor
  · rintro ⟨vm', hrun, hend⟩ hargs
    rcases hok () vm' hrun with ⟨hno, -⟩ | ⟨hinside, hne, hresult⟩
    · exact absurd hargs hno
    · refine ⟨hinside, hne, fun hrealloc => ?_⟩
      rcases hresult with ⟨-, hzero, -⟩ | ⟨hno, -⟩
      · rcases hend with ⟨-, hsum, -⟩ | ⟨⟨v, hv, hne'⟩, -⟩
        · exact hsum
        · exact absurd (hzero v hv) hne'
      · rw [hno] at hrealloc
        cases hrealloc
  · intro hcan
    cases hrun : sysMexpand os argv retv vm with
    | error e =>
        exfalso
        rcases herror e hrun with ⟨hargs, hwrap | hzero | ⟨hrealloc, hlarge⟩⟩
        · exact hwrap (hcan hargs).1
        · exact (hcan hargs).2.1 hzero
        · exact hlarge (hlt.2 ((hcan hargs).2.2 hrealloc))
    | ok r =>
        rcases r with ⟨⟨⟩, vm'⟩
        refine ⟨vm', rfl, ?_⟩
        rcases hok () vm' hrun with ⟨-, hone, hsame⟩ | ⟨hinside, -, hresult⟩
        · exact Or.inr ⟨⟨1, hone, one_ne_zero⟩, hsame⟩
        · rcases hresult with ⟨hrealloc, -, hgrown⟩ | ⟨-, hone, hsame⟩
          · have hargs : Reaches vm argv 8 := InMemory.reaches_result hinside
            have hsum := (hcan hargs).2.2 hrealloc
            have hsize := hlt.2 hsum
            rcases hgrown hsize.1 hsize.2 with ⟨hzero, hgrown, hsame⟩
            have hexpanded : expandedSize vm argv =
                vm.memory.size + (word64 vm argv.toNat).toNat :=
              Nat.mod_eq_of_lt (hsum.trans (by decide))
            exact Or.inl ⟨hzero, hsum, by rw [hgrown, hexpanded], hsame⟩
          · exact Or.inr ⟨⟨1, hone, one_ne_zero⟩, hsame⟩

/-- An operating system that gives every block. -/
def growOs : Os Unit := { deadOs with realloc := fun _ w => (true, w) }

/-- Eight bytes more. -/
theorem mexpand_iff_eight :
    ExpandLaw 8 (word64 (handleVm 8 0 []) 0).toNat (handleVm 8 0 [])
        (Syscall.mexpand.function growOs 0 8 (handleVm 8 0 [])) ↔
      Expandable growOs (handleVm 8 0 []) 0 :=
  mexpand_iff growOs (by unfold InMemory; decide)

/-- With `2 ^ 32` bytes more, `mexpand` stores `0` and the memory has the size that it had. -/
theorem mexpand_truncated :
    (word64 (handleVm 0 1 []) 0).toNat = 2 ^ 32 ∧
      ¬ ExpandLaw 8 (2 ^ 32) (handleVm 0 1 [])
        (Syscall.mexpand.function growOs 0 8 (handleVm 0 1 [])) := by
  have hrun : Syscall.mexpand.function growOs 0 8 (handleVm 0 1 []) =
      .ok ((), handleVm 0 1 []) := by rfl
  refine ⟨by decide +kernel, ?_⟩
  rintro ⟨vm', hrun', hend⟩
  rw [hrun] at hrun'
  cases hrun'
  rcases hend with ⟨-, hsum, -⟩ | ⟨⟨v, hv, hne⟩, -⟩
  · have hsize : (handleVm 0 1 []).memory.size = 16 := rfl
    omega
  · have hzero : (handleVm 0 1 []).memory.load 8 8 = some 0 := by decide +kernel
    rw [show (8 : UInt32).toNat = 8 from rfl, hzero] at hv
    cases hv
    exact hne rfl

end BvgzVm
