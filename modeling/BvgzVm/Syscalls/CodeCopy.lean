import BvgzVm.Syscalls.Expand

set_option autoImplicit false

/-! # Code that is copied into memory

`codecp` adds the two numbers of 64 bits that it is given before it compares their sum with the
size of the code, and checks the destination in 32 bits. Both checks are passed by sums that have
lost their carry (`codecp_iff`).
-/

namespace BvgzVm

open Stateful Std.Do

set_option mvcgen.warning false

variable {ω : Type}

attribute [local spec high] ub_exact setErrorNo_exact derefMem_exact loadU32_exact loadU64_exact
  writeMemBytes_exact storeU64_exact fail_exact argsRet_derefMem_exact

attribute [local grind →] Same.memsz Stored.same Stored.bytes word32_of_load word64_of_load
  inside_of_load

attribute [local grind =] InMemory

/-! ## The law -/

/-- The arguments of `codecp`. -/
structure CodeRange where
  start : UInt64
  size : UInt64
  ptr : UInt32

/-- The arguments at `argv`. -/
def codeRange (vm : Vm (Sys ω)) (argv : UInt32) : CodeRange where
  start := word64 vm argv.toNat
  size := word64 vm (argv.toNat + 8)
  ptr := word32 vm (argv.toNat + 16)

/-- `codecp` has its arguments and a result cell, and both of its checks are passed. -/
def Copies (vm : Vm (Sys ω)) (argv retv : UInt32) : Prop :=
  let r := codeRange vm argv
  InMemory vm argv 20 ∧ Reaches vm retv 8 ∧ (r.start + r.size).toNat ≤ vm.code.size ∧
    Reaches vm r.ptr r.size.toUInt32

/-- The bytes have been put at `ptr`, and the others are as before but for the result cell. -/
def PutAt (ret ptr : ℕ) (bytes : List UInt8) (s s' : Segment) : Prop :=
  s'.size = s.size ∧ ∀ k < s.size, k < ret ∨ ret + 8 ≤ k →
    s'.bytes[k]? = if ptr ≤ k ∧ k < ptr + bytes.length then bytes[k - ptr]? else s.bytes[k]?

/-- If `codecp` proceeds to copy, the range is in the code and its bytes are put into memory. -/
def CodecpLaw (vm : Vm (Sys ω)) (argv retv : UInt32) (run : Except Ub (Unit × Vm (Sys ω))) : Prop :=
  let r := codeRange vm argv
  Copies vm argv retv →
    r.start.toNat + r.size.toNat ≤ vm.code.size ∧ r.ptr.toNat + r.size.toNat ≤ vm.memory.size ∧
      ∃ bytes vm', Bytes.read vm.code.bytes r.start.toNat r.size.toNat = some bytes ∧
        run = .ok ((), vm') ∧ PutAt retv.toNat r.ptr.toNat bytes vm.memory vm'.memory

/-- None of the three sums that are checked has lost a carry. -/
def CodecpExact (vm : Vm (Sys ω)) (argv retv : UInt32) : Prop :=
  let r := codeRange vm argv
  Copies vm argv retv →
    r.start.toNat + r.size.toNat < 2 ^ 64 ∧ Fits r.ptr r.size.toNat ∧ Fits retv 8

/-! ## The call -/

/-- What can be written is in memory. -/
@[local grind →] theorem inside_of_write {s s' : Segment} {p : ℕ} {bytes : List UInt8}
    (h : s.write p bytes = some s') : p + bytes.length ≤ s.size := by
  by_contra hlt
  rw [Segment.write_eq_none.2 (not_le.1 hlt)] at h
  cases h

/-- The bytes that are put, and the result cell behind them. -/
theorem PutAt.store {ret ptr v : ℕ} {bytes : List UInt8} {s s' s'' : Segment}
    (h : s.write ptr bytes = some s') (hstore : s'.write ret (Bytes.toLE 8 v) = some s'') :
    PutAt ret ptr bytes s s'' := by
  refine ⟨(Segment.write_size hstore).trans (Segment.write_size h), ?_⟩
  intro k hk hout
  have hget := Bytes.write_getElem? (Segment.write_bytes hstore) k
  rw [Bytes.length_toLE, if_neg (by omega)] at hget
  rw [hget, Bytes.write_getElem? (Segment.write_bytes h) k]

/-- How `codecp` ends where it proceeds to copy. -/
theorem sysCodecp_copies {s0 : Vm (Sys ω)} {argv retv : UInt32} (hcopies : Copies s0 argv retv) :
    ⦃fun vm => ⌜vm = s0⌝⦄ sysCodecp argv retv
    ⦃post⟨fun _ vm => ⌜InMemory s0 retv 8 ∧
        InMemory s0 (codeRange s0 argv).ptr (codeRange s0 argv).size.toNat ∧
        ∃ bytes, Bytes.read s0.code.bytes (codeRange s0 argv).start.toNat
            (codeRange s0 argv).size.toNat = some bytes ∧
          PutAt retv.toNat (codeRange s0 argv).ptr.toNat bytes s0.memory vm.memory⌝,
      fun _ => ⌜s0.code.size < (codeRange s0 argv).start.toNat + (codeRange s0 argv).size.toNat ∨
        ¬ InMemory s0 (codeRange s0 argv).ptr (codeRange s0 argv).size.toNat ∨
        ¬ InMemory s0 retv 8⌝⟩⦄ := by
  rcases hcopies with ⟨hargs, hret, hsum, hptr⟩
  have hreach : Reaches s0 argv 20 := hargs.reaches_low
  have hput := fun {v : ℕ} {bytes : List UInt8} {s s' s'' : Segment} =>
    @PutAt.store retv.toNat (codeRange s0 argv).ptr.toNat v bytes s s' s''
  have hread := @Bytes.read_length s0.code.bytes
  unfold sysCodecp
  mvcgen
  all_goals grind [codeRange, Bytes.read, Segment.size, NoArgs]

/-- A range that is accepted is in memory, if its end has 32 bits. -/
theorem inMemory_iff_fits {vm : Vm (Sys ω)} {ref size : UInt32} (h : Reaches vm ref size) :
    InMemory vm ref size.toNat ↔ Fits ref size.toNat := by
  constructor
  · exact InMemory.fits
  · intro hfits
    exact hfits.reaches_iff.1 h

/-- **If `codecp` proceeds to copy, it copies what it is asked for and nothing else, just when**
neither the end of the range in the code nor the end of a block in memory has lost a carry. -/
theorem codecp_iff (os : Os ω) (vm : Vm (Sys ω)) (argv retv : UInt32) :
    CodecpLaw vm argv retv (Syscall.codecp.function os argv retv vm) ↔
      CodecpExact vm argv retv := by
  show (Copies vm argv retv → _) ↔ (Copies vm argv retv → _)
  refine imp_congr_right fun hcopies => ?_
  rcases of_exact (sysCodecp_copies hcopies) with ⟨hok, herror⟩
  rcases hcopies with ⟨-, hret, hsum, hptr⟩
  have hcell := inMemory_iff_fits hret
  show _ ∧ _ ∧ (∃ bytes vm', _ ∧ sysCodecp argv retv vm = .ok ((), vm') ∧ _) ↔ _
  constructor
  · rintro ⟨hcode, hmem, bytes, vm', -, hrun, -⟩
    have hinside := hok () vm' hrun
    refine ⟨?_, InMemory.fits hinside.2.1, InMemory.fits hinside.1⟩
    exact hcode.trans_lt (vm.code.size_lt'.trans (by decide))
  · rintro ⟨hstart, hdest, hres⟩
    rw [UInt64.toNat_add, Nat.mod_eq_of_lt hstart] at hsum
    -- the size is that of a range in the code, so that nothing of it is dropped
    have hsize : (codeRange vm argv).size.toUInt32.toNat = (codeRange vm argv).size.toNat := by
      rw [UInt64.toNat_toUInt32, Nat.mod_eq_of_lt]
      exact (le_add_self.trans hsum).trans_lt vm.code.size_lt'
    have hmem : InMemory vm (codeRange vm argv).ptr (codeRange vm argv).size.toNat := by
      rw [← hsize] at hdest ⊢
      exact (inMemory_iff_fits hptr).2 hdest
    refine ⟨hsum, hmem, ?_⟩
    cases hrun : sysCodecp argv retv vm with
    | error e =>
        exfalso
        rcases herror e hrun with hlong | hout | hout
        · exact absurd hsum (not_le.2 hlong)
        · exact hout hmem
        · exact hout (hcell.2 hres)
    | ok r =>
        rcases (hok () r.2 hrun).2.2 with ⟨bytes, hread, hput⟩
        exact ⟨bytes, r.2, hread, rfl, hput⟩

/-- The arguments of `codecp` at `0`: two bytes from `2 ^ 64 - 1` on. -/
def lastByte : Vm (Sys Unit) :=
  memoryVm ⟨List.replicate 8 0xff ++ [2] ++ List.replicate 19 0, by decide⟩

/-- From a code of two bytes, `codecp` copies the byte before the first and the first. -/
theorem codecp_before : ¬ CodecpLaw lastByte 0 20 (Syscall.codecp.function deadOs 0 20 lastByte) := by
  intro hlaw
  have hcopies : Copies lastByte 0 20 := by
    unfold Copies InMemory
    decide +kernel
  have hcode := (hlaw hcopies).1
  revert hcode
  decide +kernel

end BvgzVm
