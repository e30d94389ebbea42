import BvgzVm.Instn.MemAccess

set_option autoImplicit false

/-! # `cp`

The decoder has looked at four bytes behind each of the two addresses; how many bytes are copied is
known only when the instruction runs. `CopyLaw` says what the instruction is to do for any two
ranges, and `copy_iff` that `memcpy` does it for ranges that are in memory and do not overlap.
-/

namespace BvgzVm

open Fallible

variable {σ : Type}

/-- `n` bytes of the memory, as they were, have been copied from `src` to `dst`. -/
structure RangeCopied (dst src n : ℕ) (memory memory' : Segment) : Prop where
  src_inside : ∀ k < n, src + k < memory.size
  dst_inside : ∀ k < n, dst + k < memory.size
  bytes : ∀ i, memory'.bytes[i]? =
    if dst ≤ i ∧ i < dst + n then memory.bytes[src + (i - dst)]? else memory.bytes[i]?

/-- **What `cp` is to do**: to copy the bytes, or to raise a memory fault and change nothing. -/
def CopyLaw (host : Host σ) (instn : Instn) (vm : Vm σ) (dst src n : ℕ) : Prop :=
  (∃ memory, opCp3 host instn vm = .ok (0, { vm with memory := memory }) ∧
    RangeCopied dst src n vm.memory memory) ∨
  opCp3 host instn vm = .ok (-1, vm.raise vmEMemFault)

/-- Both ranges are in memory and have no byte in common. -/
def RangesApart (dst src n memsz : ℕ) : Prop :=
  src + n ≤ memsz ∧ dst + n ≤ memsz ∧ (src + n ≤ dst ∨ dst + n ≤ src)

instance (dst src n memsz : ℕ) : Decidable (RangesApart dst src n memsz) :=
  inferInstanceAs (Decidable (_ ∧ _))

/-- Nothing is copied. -/
theorem copied_zero (dst src : ℕ) (memory : Segment) : RangeCopied dst src 0 memory memory := by
  refine ⟨?_, ?_, ?_⟩
  · intro k hk
    omega
  · intro k hk
    omega
  · intro i
    rw [if_neg (by omega)]

/-- What was read from one range and written to the other has been copied, even where the ranges
have bytes in common. -/
theorem copied_of_write {dst src n : ℕ} {memory memory' : Segment} {bs : List UInt8}
    (hread : Bytes.read memory.bytes src n = some bs) (hwrite : memory.write dst bs = some memory') :
    RangeCopied dst src n memory memory' := by
  have hlen : bs.length = n := Bytes.read_length hread
  have hwrite' := Segment.write_bytes hwrite
  have hdst := (Bytes.write_eq_some hwrite').1
  have hsrc := (Bytes.read_eq_some.1 hread).1
  subst hlen
  have hbytes := (Bytes.read_eq_some_iff_getElem?.1 hread).2
  refine ⟨?_, ?_, ?_⟩
  · intro k hk
    show src + k < memory.bytes.length
    omega
  · intro k hk
    show dst + k < memory.bytes.length
    omega
  · intro i
    rw [Bytes.write_getElem? hwrite']
    by_cases hin : dst ≤ i ∧ i < dst + bs.length
    · rw [if_pos hin, if_pos hin, hbytes (i - dst) (by omega)]
    · rw [if_neg hin, if_neg hin]

/-- **`memcpy` copies** exactly if there is nothing to copy or the ranges are apart, and runs into
undefined behaviour otherwise. -/
theorem memcpy_cases (dst src n : ℕ) (vm : Vm σ) :
    (n = 0 ∨ RangesApart dst src n vm.memory.size) ∧ (∃ memory,
        memcpy dst src n vm = .ok { vm with memory := memory } ∧
          RangeCopied dst src n vm.memory memory) ∨
      ¬ (n = 0 ∨ RangesApart dst src n vm.memory.size) ∧ ∃ u, memcpy dst src n vm = .error u := by
  unfold memcpy
  by_cases hn : n = 0
  · left
    subst hn
    rw [if_pos rfl]
    exact ⟨Or.inl rfl, vm.memory, rfl, copied_zero dst src vm.memory⟩
  · rw [if_neg hn]
    cases hread : Bytes.read vm.memory.bytes src n with
    | none =>
        -- the source leaves the memory
        right
        have hlt : ¬ src + n ≤ vm.memory.bytes.length := by
          intro hle
          have hsome : Bytes.read vm.memory.bytes src n = some _ := if_pos hle
          rw [hread] at hsome
          cases hsome
        refine ⟨?_, _, rfl⟩
        rintro (hzero | hapart)
        · exact hn hzero
        · exact hlt hapart.1
    | some bs =>
        have hsrc := (Bytes.read_eq_some.1 hread).1
        by_cases hover : dst < src + n ∧ src < dst + n
        · right
          refine ⟨?_, .overlap, if_pos hover⟩
          rintro (hzero | hapart)
          · exact hn hzero
          · have hdisjoint := hapart.2.2
            omega
        · cases hwrite : vm.memory.write dst bs with
          | none =>
              -- the destination leaves the memory
              right
              have hlt := Segment.write_eq_none.1 hwrite
              rw [Bytes.read_length hread] at hlt
              refine ⟨?_, .operand 0, ?_⟩
              · rintro (hzero | hapart)
                · exact hn hzero
                · have hdst := hapart.2.1
                  omega
              · show (if _ then _ else _) = _
                rw [if_neg hover, hwrite]
          | some memory =>
              left
              have hcopied := copied_of_write hread hwrite
              have hdst := hcopied.dst_inside (n - 1) (by omega)
              refine ⟨Or.inr ⟨hsrc, by omega, by omega⟩, memory, ?_, hcopied⟩
              show (if _ then _ else _) = _
              rw [if_neg hover, hwrite]

/-- **`cp` keeps its law** exactly if there is nothing to copy, or both ranges are in memory and do
not overlap. It never raises a fault. -/
theorem copy_iff (host : Host σ) {instn : Instn} {vm : Vm σ} {dst src : UInt32} {n : UInt64}
    (hdst : instn.args[0]? = some (.ptr dst)) (hsrc : instn.args[1]? = some (.ptr src))
    (hn : argValue instn 2 vm = .ok n) :
    CopyLaw host instn vm dst.toNat src.toNat n.toNat ↔
      n.toNat = 0 ∨ RangesApart dst.toNat src.toNat n.toNat vm.memory.size := by
  have hrun : opCp3 host instn vm =
      memcpy dst.toNat src.toNat n.toNat vm >>= fun vm => .ok (0, vm) := by
    unfold opCp3 argPtr
    rw [hdst, hsrc, hn]
    rfl
  unfold CopyLaw
  rw [hrun]
  rcases memcpy_cases dst.toNat src.toNat n.toNat vm with
    ⟨hok, memory, hcopy, hcopied⟩ | ⟨hbad, u, hfault⟩
  · refine iff_of_true (Or.inl ⟨memory, ?_, hcopied⟩) hok
    rw [hcopy]
    rfl
  · refine iff_of_false ?_ hbad
    rw [hfault]
    rintro (⟨memory, h, -⟩ | h)
    · cases h
    · cases h

/-- A machine with eight bytes of memory and the code of one `cp`. -/
def cpVm (src n : UInt8) : Vm Unit where
  code := ⟨[0x44, 0, 0, 4, 0, 0, 0, src, 0, 0, 0, n], by simp⟩
  memory := eightBytes
  exceptions := 0
  procedures := [newProc 0]
  iptr := 0xffffffff
  instns := 0
  assertId := 0
  instnsSinceLastCleanup := 0
  host := ()

/-- `cp 4, src, n` -/
def cpInstn (src : UInt32) (n : UInt64) : Instn := ⟨0x44, 0, [.ptr 4, .ptr src, .imm n]⟩

/-- Four bytes of the eight are copied to the others. -/
theorem copy_iff_halves : CopyLaw quietHost (cpInstn 0 4) (cpVm 0 4) 4 0 4 := by
  have hn : argValue (cpInstn 0 4) 2 (cpVm 0 4) = .ok 4 := by decide +kernel
  exact (copy_iff quietHost rfl rfl hn).2 (by decide)

/-- `cp 4, 2, 4` is accepted, both ranges are in memory, and they overlap. -/
theorem copy_overlaps :
    decodeInstn stableTable.entries (cpVm 2 4).code (cpVm 2 4).memory 0 = .ok (cpInstn 2 4, 12) ∧
      argValue (cpInstn 2 4) 2 (cpVm 2 4) = .ok 4 ∧
      ¬ CopyLaw quietHost (cpInstn 2 4) (cpVm 2 4) 4 2 4 := by
  have hfault : opCp3 quietHost (cpInstn 2 4) (cpVm 2 4) = .error .overlap := by rfl
  refine ⟨by decide +kernel, by decide +kernel, ?_⟩
  rintro (⟨memory, h, -⟩ | h)
  · rw [hfault] at h
    cases h
  · rw [hfault] at h
    cases h

end BvgzVm
