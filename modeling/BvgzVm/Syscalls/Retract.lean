import BvgzVm.Syscalls.Expand

set_option autoImplicit false

/-! # Memory that shrinks

`mretract` checks the result cell against the memory as it is, and stores the result in the memory
that is left. A cell in the part that is given back is outside the block by then, and with all of
the memory the block itself is gone (`mretract_iff`).
-/

namespace BvgzVm

open Stateful Std.Do

set_option mvcgen.warning false

variable {ω : Type}

attribute [local spec high] ub_exact setErrorNo_exact ask_exact derefMem_exact loadU64_exact
  storeU64_exact setMemory_exact fail_cell argsRet_cell

attribute [local grind →] Same.memsz word64_of_load inside_of_load

attribute [local grind =] InMemory raise_memory raise_host reaches_raise

/-! ## The law -/

/-- The call has failed: the memory is as before, but for the result cell that says so. Without a
cell nothing is stored. -/
def Unretracted (retv : UInt32) (vm vm' : Vm (Sys ω)) : Prop :=
  (¬ Reaches vm retv 8 ∧ vm'.memory = vm.memory) ∨
    (∃ v, vm'.memory.load retv.toNat 8 = some v ∧ v ≠ 0) ∧
      vm'.memory.size = vm.memory.size ∧
      SameBut retv.toNat vm.memory.size vm.memory vm'.memory

/-- The memory has shrunk by `sz` bytes, and the bytes that are left are as before, or the call
has failed. -/
def RetractLaw (retv : UInt32) (sz : ℕ) (vm : Vm (Sys ω))
    (run : Except Ub (Unit × Vm (Sys ω))) : Prop :=
  ∃ vm', run = .ok ((), vm') ∧
    ((vm'.memory.load retv.toNat 8 = some 0 ∧ vm'.memory.size + sz = vm.memory.size ∧
        retv.toNat + 8 ≤ vm'.memory.size ∧
        SameBut retv.toNat vm'.memory.size vm.memory vm'.memory) ∨
      Unretracted retv vm vm')

/-- The blocks that are accepted really are in memory. Of a size that is accepted something is
left, and if `realloc` gives it, the result cell is in what is left. -/
def Retractable (os : Os ω) (vm : Vm (Sys ω)) (argv retv : UInt32) : Prop :=
  let sz := (word64 vm argv.toNat).toNat
  Reaches vm retv 8 → InMemory vm retv 8 ∧
    (Reaches vm argv 8 → InMemory vm argv 8 ∧
      (sz ≤ vm.memory.size → sz < vm.memory.size ∧
        ((os.realloc (vm.memory.size - sz) vm.host.world).1 = true →
          retv.toNat + 8 + sz ≤ vm.memory.size)))

/-! ## The bytes that stay -/

/-- A block that is not as long as the old one has the first of its bytes. -/
theorem SameBut.shrink (fill : ℕ → UInt8) (s : Segment) {ret size : ℕ} (hle : size ≤ s.size) :
    SameBut ret size s (resizeSegment fill s size) := by
  intro k hk _
  have hlt : size < 2 ^ 32 := hle.trans_lt s.size_lt'
  show (Bytes.resize fill s.bytes (size % 2 ^ 32))[k]? = _
  rw [Nat.mod_eq_of_lt hlt]
  unfold Bytes.resize
  have hlen : k < (s.bytes.take size).length := by
    rw [List.length_take]
    exact lt_min hk (hk.trans_le hle)
  rw [List.getElem?_append_left hlen, List.getElem?_take_of_lt hk]

/-! ## The call -/

@[local spec high] theorem reallocMemory_shrink (os : Os ω) (s0 : Vm (Sys ω)) {size ret : ℕ}
    (hle : size ≤ s0.memory.size) (hret : ret + 8 ≤ s0.memory.size) :
    ⦃fun vm => ⌜vm = s0⌝⦄ reallocMemory os size ret
    ⦃post⟨fun _ vm => ⌜size ≠ 0 ∧
        (((os.realloc size s0.host.world).1 = true ∧ ret + 8 ≤ size ∧
            vm.memory.load ret 8 = some 0 ∧ vm.memory.size = size ∧
            SameBut ret size s0.memory vm.memory) ∨
          (os.realloc size s0.host.world).1 = false ∧ vm.memory.load ret 8 = some 1 ∧
            vm.memory.size = s0.memory.size ∧
            SameBut ret s0.memory.size s0.memory vm.memory)⌝,
      fun _ => ⌜size = 0 ∨ (os.realloc size s0.host.world).1 = true ∧ size < ret + 8⌝⟩⦄ := by
  have hstore := fun {v : ℕ} {s' s'' : Segment} =>
    @SameBut.store ret size v s0.memory s' s''
  have hshrink := @SameBut.shrink os.fill s0.memory ret size hle
  have hlt : size < 2 ^ 32 := hle.trans_lt s0.memory.size_lt'
  unfold reallocMemory
  mvcgen
  all_goals grind [size_resizeSegment]

/-- How `mretract` ends where the result cell is in memory. -/
theorem sysMretract_exact (os : Os ω) {s0 : Vm (Sys ω)} {argv retv : UInt32}
    (hret : InMemory s0 retv 8) (hreach : Reaches s0 retv 8) :
    ⦃fun vm => ⌜vm = s0⌝⦄ sysMretract os argv retv
    ⦃post⟨fun _ vm => ⌜
        (Reaches s0 argv 8 → InMemory s0 argv 8 ∧
          (word64 s0 argv.toNat).toNat ≠ s0.memory.size) ∧
        ((((¬ Reaches s0 argv 8 ∨ s0.memory.size < (word64 s0 argv.toNat).toNat) ∨
            (os.realloc (s0.memory.size - (word64 s0 argv.toNat).toNat) s0.host.world).1 =
              false) ∧
          vm.memory.load retv.toNat 8 = some 1 ∧ vm.memory.size = s0.memory.size ∧
          SameBut retv.toNat s0.memory.size s0.memory vm.memory) ∨
        (retv.toNat + 8 + (word64 s0 argv.toNat).toNat ≤ s0.memory.size ∧
          vm.memory.load retv.toNat 8 = some 0 ∧
          vm.memory.size + (word64 s0 argv.toNat).toNat = s0.memory.size ∧
          SameBut retv.toNat vm.memory.size s0.memory vm.memory))⌝,
      fun _ => ⌜Reaches s0 argv 8 ∧ (¬ InMemory s0 argv 8 ∨
        (word64 s0 argv.toNat).toNat = s0.memory.size ∨
        (word64 s0 argv.toNat).toNat ≤ s0.memory.size ∧
          (os.realloc (s0.memory.size - (word64 s0 argv.toNat).toNat) s0.host.world).1 = true ∧
          s0.memory.size < retv.toNat + 8 + (word64 s0 argv.toNat).toNat)⌝⟩⦄ := by
  unfold sysMretract
  mvcgen
  all_goals grind

/-- Without a result cell nothing is stored. -/
theorem sysMretract_noCell (os : Os ω) {s0 : Vm (Sys ω)} {argv retv : UInt32}
    (hno : ¬ Reaches s0 retv 8) :
    ⦃fun vm => ⌜vm = s0⌝⦄ sysMretract os argv retv
    ⦃post⟨fun _ vm => ⌜vm.memory = s0.memory⌝, fun _ => ⌜False⌝⟩⦄ := by
  unfold sysMretract argsRet
  mvcgen
  all_goals grind

/-- A result cell that is accepted and is not in memory is stored to, however the call ends. -/
theorem sysMretract_wrapped (os : Os ω) {s0 : Vm (Sys ω)} {argv retv : UInt32}
    (hreach : Reaches s0 retv 8) (hout : ¬ InMemory s0 retv 8) :
    ⦃fun vm => ⌜vm = s0⌝⦄ sysMretract os argv retv
    ⦃post⟨fun _ _ => ⌜False⌝, fun _ => ⌜True⌝⟩⦄ := by
  have hsize := s0.memory.size_lt'
  unfold sysMretract argsRet reallocMemory fail
  mvcgen
  all_goals grind [size_resizeSegment]

/-- **`mretract` takes what it is asked for from the end of the memory, or fails and leaves the
memory as it is, just when** the blocks that are accepted are in memory, something is left of the
memory, and the result cell is in what is left. -/
theorem mretract_iff (os : Os ω) (vm : Vm (Sys ω)) (argv retv : UInt32) :
    RetractLaw retv (word64 vm argv.toNat).toNat vm
        (Syscall.mretract.function os argv retv vm) ↔
      Retractable os vm argv retv := by
  show RetractLaw _ _ _ (sysMretract os argv retv vm) ↔ _
  by_cases hreach : Reaches vm retv 8
  · by_cases hret : InMemory vm retv 8
    · rcases of_exact (@sysMretract_exact ω os vm argv retv hret hreach) with ⟨hok, herror⟩
      constructor
      · rintro ⟨vm', hrun, hend⟩ -
        refine ⟨hret, fun hargs => ?_⟩
        rcases hok () vm' hrun with ⟨hboth, hresult⟩
        rcases hboth hargs with ⟨hinside, hne⟩
        refine ⟨hinside, fun hle => ⟨lt_of_le_of_ne hle hne, fun hrealloc => ?_⟩⟩
        rcases hresult with ⟨(hno | hlt) | hrefused, -⟩ | ⟨hcell, -⟩
        · exact absurd hargs hno
        · exact absurd hlt (not_lt.2 hle)
        · rw [hrefused] at hrealloc
          cases hrealloc
        · exact hcell
      · intro hcan
        cases hrun : sysMretract os argv retv vm with
        | error e =>
            exfalso
            rcases herror e hrun with ⟨hargs, hwrap | hall | ⟨hle, hrealloc, hbehind⟩⟩
            · exact hwrap ((hcan hreach).2 hargs).1
            · exact (((hcan hreach).2 hargs).2 hall.le).1.ne hall
            · exact absurd ((((hcan hreach).2 hargs).2 hle).2 hrealloc) (not_le.2 hbehind)
        | ok r =>
            refine ⟨r.2, rfl, ?_⟩
            rcases (hok () r.2 hrun).2 with ⟨-, hone, hsame⟩ | ⟨hcell, hzero, hsize, hsame⟩
            · exact Or.inr (Or.inr ⟨⟨1, hone, one_ne_zero⟩, hsame⟩)
            · exact Or.inl ⟨hzero, hsize, by omega, hsame⟩
    · have hfault := (of_exact (@sysMretract_wrapped ω os vm argv retv hreach hret)).1
      refine iff_of_false ?_ fun hcan => hret (hcan hreach).1
      rintro ⟨vm', hrun, -⟩
      exact hfault () vm' hrun
  · rcases of_exact (@sysMretract_noCell ω os vm argv retv hreach) with ⟨hok, herror⟩
    refine iff_of_true ?_ fun h => absurd h hreach
    cases hrun : sysMretract os argv retv vm with
    | error e => exact absurd hrun (herror e)
    | ok r => exact ⟨r.2, rfl, Or.inr (Or.inl ⟨hreach, hok () r.2 hrun⟩)⟩

/-- Of 16 bytes the last 8 are given back, where the result cell is, or all of them. -/
theorem mretract_behind :
    ¬ RetractLaw 8 (word64 (handleVm 8 0 []) 0).toNat (handleVm 8 0 [])
        (Syscall.mretract.function growOs 0 8 (handleVm 8 0 [])) ∧
      ¬ RetractLaw 8 (word64 (handleVm 16 0 []) 0).toNat (handleVm 16 0 [])
        (Syscall.mretract.function growOs 0 8 (handleVm 16 0 [])) := by
  constructor
  all_goals
    rintro ⟨vm', hrun, -⟩
    cases hrun

end BvgzVm
