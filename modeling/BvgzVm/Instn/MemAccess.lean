import BvgzVm.Instn.Operands

set_option autoImplicit false

/-! # `readN` and `writeN`

The address of an access is a base and an offset, added in 32 bits, and `deref_mem_ptr` adds the
width in 32 bits again. Over the integers the access is at `base + offset`. `Exact` says what an
access is to do there, `Wraps` when one of the two sums deceives the check, and `access_iff` that
nothing else does.

The eight handlers are two functions of the width, so one proof serves all of them.
-/

namespace BvgzVm

open Fallible

variable {σ : Type}

/-! ## What an access is to do -/

/-- `N / 8` for `readN` -/
def Op.readWidth : Op → Option Nat
  | .read8 => some 1
  | .read16 => some 2
  | .read32 => some 4
  | .read64 => some 8
  | _ => none

/-- `N / 8` for `writeN` -/
def Op.writeWidth : Op → Option Nat
  | .write8 => some 1
  | .write16 => some 2
  | .write32 => some 4
  | .write64 => some 8
  | _ => none

/-- The operand that is not part of the address: the cell for the result, or the value. -/
inductive Access
  | read (dst : UInt32)
  | write (value : UInt64)

/-- The reference operands of an access of `w` bytes are in bounds, and it is made at `base` and
`offset`. A value is in bounds if it can be read. -/
inductive AccessOperands (instn : Instn) (vm : Vm σ) (w : Nat) :
    Op → Access → UInt32 → UInt32 → Prop
  | read {op : Op} {dst src : UInt32} {ref : Nat} {offset : UInt64} :
      op.readWidth = some w →
      instn.args[0]? = some (.ptr dst) → dst.toNat + w ≤ vm.memory.size →
      instn.args[1]? = some (.ptr src) → vm.memory.load src.toNat 4 = some ref →
      argValue instn 2 vm = .ok offset →
      AccessOperands instn vm w op (.read dst) (UInt32.ofNat ref) offset.toUInt32
  | write {op : Op} {base offset value : UInt64} :
      op.writeWidth = some w →
      argValue instn 0 vm = .ok base → argValue instn 1 vm = .ok offset →
      argValue instn 2 vm = .ok value →
      AccessOperands instn vm w op (.write value) base.toUInt32 offset.toUInt32

/-- The cell an access at `address` changes. -/
def Access.cell (address : Nat) : Access → Nat
  | .read dst => dst.toNat
  | .write _ => address

/-- Byte `k` of what an access at `address` stores. -/
def Access.stored (memory : Segment) (address w : Nat) : Access → Nat → Option UInt8
  | .read _, k => memory.bytes[address + k]?
  | .write value, k => (Bytes.toLE w value.toNat)[k]?

/-- **An exact access** at `address`: if its `w` bytes fit, the cell takes what was read or is to be
written and no other byte changes, and otherwise there is a memory fault and nothing changes. -/
def Exact (op : Op) (host : Host σ) (instn : Instn) (vm : Vm σ) (w : Nat) (a : Access)
    (address : Nat) : Prop :=
  if address + w ≤ vm.memory.size then
    ∃ memory : Segment,
      handlerOf op host instn vm = .ok (0, { vm with memory := memory }) ∧
      ∀ i, memory.bytes[i]? =
        if a.cell address ≤ i ∧ i < a.cell address + w
        then a.stored vm.memory address w (i - a.cell address)
        else vm.memory.bytes[i]?
  else handlerOf op host instn vm = .ok (-1, vm.raise vmEMemFault)

/-- The end of the access is beyond 32 bits, and what is left of it in 32 bits passes for an
address inside the memory. -/
def Wraps (base offset w memsz : Nat) : Prop :=
  2 ^ 32 ≤ base + offset + w ∧ (base + offset + w) % 2 ^ 32 ≤ memsz

instance (base offset w memsz : Nat) : Decidable (Wraps base offset w memsz) :=
  inferInstanceAs (Decidable (_ ∧ _))

/-! ## The check -/

theorem readWidth_cases {op : Op} {w : Nat} (hw : op.readWidth = some w) :
    (w = 1 ∨ w = 2 ∨ w = 4 ∨ w = 8) ∧
      ∀ (host : Host σ) (instn : Instn), handlerOf op host instn = readMem w host instn := by
  cases op with
  | read8 | read16 | read32 | read64 =>
      obtain rfl := Option.some.inj hw
      exact ⟨by decide, fun _ _ => rfl⟩
  | _ => cases hw

theorem writeWidth_cases {op : Op} {w : Nat} (hw : op.writeWidth = some w) :
    (w = 1 ∨ w = 2 ∨ w = 4 ∨ w = 8) ∧
      ∀ (host : Host σ) (instn : Instn), handlerOf op host instn = writeMem w host instn := by
  cases op with
  | write8 | write16 | write32 | write64 =>
      obtain rfl := Option.some.inj hw
      exact ⟨by decide, fun _ _ => rfl⟩
  | _ => cases hw

/-- The two 32-bit sums of the check as one remainder. -/
theorem derefMemPtr_sum {base offset : UInt32} {w memsz : Nat} (hw : w < 2 ^ 32) :
    derefMemPtr (base + offset) (UInt32.ofNat w) memsz =
      if memsz < (base.toNat + offset.toNat + w) % 2 ^ 32 then none else some (base + offset) := by
  have hsum : (base + offset + UInt32.ofNat w).toNat
      = (base.toNat + offset.toNat + w) % 2 ^ 32 := by
    rw [UInt32.toNat_add, UInt32.toNat_add, UInt32.toNat_ofNat', Nat.mod_eq_of_lt hw]
    omega
  rw [derefMemPtr, hsum]

/-- Without a wrap the check is the one over the integers, and the address is the sum. -/
theorem derefMemPtr_exact {base offset : UInt32} {w memsz : Nat} (hw : w < 2 ^ 32)
    (hsz : memsz < 2 ^ 32) (hno : ¬ Wraps base.toNat offset.toNat w memsz) :
    (derefMemPtr (base + offset) (UInt32.ofNat w) memsz = none ∧
        memsz < base.toNat + offset.toNat + w) ∨
      (derefMemPtr (base + offset) (UInt32.ofNat w) memsz = some (base + offset) ∧
        base.toNat + offset.toNat + w ≤ memsz ∧
        (base + offset).toNat = base.toNat + offset.toNat) := by
  rw [derefMemPtr_sum hw]
  by_cases hlt : base.toNat + offset.toNat + w < 2 ^ 32
  · have hmod := Nat.mod_eq_of_lt hlt
    rw [hmod]
    by_cases hfit : memsz < base.toNat + offset.toNat + w
    · exact Or.inl ⟨if_pos hfit, hfit⟩
    · refine Or.inr ⟨if_neg hfit, by omega, ?_⟩
      rw [UInt32.toNat_add, Nat.mod_eq_of_lt (by omega)]
  · -- the sum is too large for any memory, and by assumption its remainder is too
    have hfit : memsz < (base.toNat + offset.toNat + w) % 2 ^ 32 := by
      by_contra hle
      exact hno ⟨by omega, by omega⟩
    exact Or.inl ⟨if_pos hfit, by omega⟩

/-- With a wrap the check passes, at an address where the access is not to be. -/
theorem derefMemPtr_wraps {base offset : UInt32} {w memsz : Nat} (hw : w < 2 ^ 32)
    (hwraps : Wraps base.toNat offset.toNat w memsz) :
    derefMemPtr (base + offset) (UInt32.ofNat w) memsz = some (base + offset) := by
  rw [derefMemPtr_sum hw, if_neg (by have := hwraps.2; omega)]

/-! ## The bytes of a number -/

theorem Segment.load_ok {s : Segment} {off w : Nat} (h : off + w ≤ s.size) :
    ∃ v, s.load off w = some v := by
  cases hl : s.load off w with
  | none =>
      have := Segment.load_eq_none.1 hl
      omega
  | some v => exact ⟨v, rfl⟩

theorem Segment.store_ok {s : Segment} {off w : Nat} (v : Nat) (h : off + w ≤ s.size) :
    ∃ s', s.store off w v = some s' := by
  cases hs : s.store off w v with
  | none =>
      have := Segment.store_eq_none.1 hs
      omega
  | some s' => exact ⟨s', rfl⟩

/-- The bytes of a number that was loaded. -/
theorem Segment.load_bytes {s : Segment} {off w v : Nat} (h : s.load off w = some v) {k : Nat}
    (hk : k < w) : (Bytes.toLE w v)[k]? = s.bytes[off + k]? := by
  obtain ⟨bs, hbs, rfl⟩ := Option.map_eq_some_iff.1 h
  have hlen := Bytes.read_length hbs
  rw [← hlen] at hbs hk ⊢
  rw [Bytes.toLE_ofLE]
  exact ((Bytes.read_eq_some_iff_getElem?.1 hbs).2 k hk).symm

/-- A store changes the cell and nothing else. -/
theorem Segment.store_getElem? {s s' : Segment} {off w v : Nat} (h : s.store off w v = some s')
    (i : Nat) :
    s'.bytes[i]? = if off ≤ i ∧ i < off + w then (Bytes.toLE w v)[i - off]? else s.bytes[i]? := by
  have hw := Bytes.write_getElem? (Segment.write_bytes h) i
  rwa [Bytes.length_toLE] at hw

/-! ## The two families -/

section Families

variable {instn : Instn} {vm : Vm σ} {w : Nat} (host : Host σ)

theorem lref_eq {k n : Nat} {src : UInt32} (hsrc : instn.args[k]? = some (.ptr src))
    (hload : vm.memory.load src.toNat w = some n) : lref w instn k vm = .ok n := by
  rw [lref, argPtr, hsrc, ok_bind, hload]

/-- `readN` after its operands, at the address that `deref_mem_ptr` has let pass. -/
theorem readMem_passed {dst src ref mem : UInt32} {offset : UInt64} {n : Nat}
    (hdst : instn.args[0]? = some (.ptr dst)) (hin : dst.toNat + w ≤ vm.memory.size)
    (hsrc : instn.args[1]? = some (.ptr src)) (hload : vm.memory.load src.toNat 4 = some n)
    (hoff : argValue instn 2 vm = .ok offset) (href : ref = UInt32.ofNat n)
    (hmem : derefMemPtr (ref + offset.toUInt32) (UInt32.ofNat w) vm.memory.size = some mem) :
    (vm.memory.size < mem.toNat + w ∧ readMem w host instn vm = .error .deref) ∨
      (mem.toNat + w ≤ vm.memory.size ∧ ∃ memory : Segment,
        readMem w host instn vm = .ok (0, { vm with memory := memory }) ∧
        ∀ i, memory.bytes[i]? =
          if dst.toNat ≤ i ∧ i < dst.toNat + w then vm.memory.bytes[mem.toNat + (i - dst.toNat)]?
          else vm.memory.bytes[i]?) := by
  have hlref := lref_eq hsrc hload
  rw [href] at hmem
  by_cases hfit : vm.memory.size < mem.toNat + w
  · refine Or.inl ⟨hfit, ?_⟩
    simp only [readMem, hlref, hoff, ok_bind, hmem, Segment.load_eq_none.2 hfit]
  · obtain ⟨v, hv⟩ := Segment.load_ok (Nat.le_of_not_lt hfit)
    obtain ⟨memory, hstore⟩ := Segment.store_ok v hin
    refine Or.inr ⟨Nat.le_of_not_lt hfit, memory, ?_, ?_⟩
    · simp only [readMem, hlref, hoff, ok_bind, hmem, hv, lrefSet, argPtr, hdst, hstore]
    · intro i
      rw [Segment.store_getElem? hstore i]
      by_cases hi : dst.toNat ≤ i ∧ i < dst.toNat + w
      · rw [if_pos hi, if_pos hi, Segment.load_bytes hv (by omega)]
      · rw [if_neg hi, if_neg hi]

/-- `writeN` after its operands, at the address that `deref_mem_ptr` has let pass. -/
theorem writeMem_passed {mem : UInt32} {base offset value : UInt64}
    (hbase : argValue instn 0 vm = .ok base) (hoff : argValue instn 1 vm = .ok offset)
    (hvalue : argValue instn 2 vm = .ok value)
    (hmem : derefMemPtr (base.toUInt32 + offset.toUInt32) (UInt32.ofNat w) vm.memory.size
      = some mem) :
    (vm.memory.size < mem.toNat + w ∧ writeMem w host instn vm = .error .deref) ∨
      (mem.toNat + w ≤ vm.memory.size ∧ ∃ memory : Segment,
        writeMem w host instn vm = .ok (0, { vm with memory := memory }) ∧
        ∀ i, memory.bytes[i]? =
          if mem.toNat ≤ i ∧ i < mem.toNat + w then
            (Bytes.toLE w value.toNat)[i - mem.toNat]?
          else vm.memory.bytes[i]?) := by
  by_cases hfit : vm.memory.size < mem.toNat + w
  · refine Or.inl ⟨hfit, ?_⟩
    simp only [writeMem, hbase, hoff, ok_bind, hmem, hvalue, Segment.store_eq_none.2 hfit]
  · obtain ⟨memory, hstore⟩ := Segment.store_ok value.toNat (Nat.le_of_not_lt hfit)
    refine Or.inr ⟨Nat.le_of_not_lt hfit, memory, ?_, ?_⟩
    · simp only [writeMem, hbase, hoff, ok_bind, hmem, hvalue, hstore]
    · exact Segment.store_getElem? hstore

end Families

/-! ## When an access is exact -/

/-- What the handler does once `deref_mem_ptr` has decided. -/
theorem access_cases {op : Op} {instn : Instn} {vm : Vm σ} {w : Nat} {a : Access}
    {base offset : UInt32} (host : Host σ) (h : AccessOperands instn vm w op a base offset) :
    w < 2 ^ 32 ∧ 0 < w ∧
      (derefMemPtr (base + offset) (UInt32.ofNat w) vm.memory.size = none →
        handlerOf op host instn vm = .ok (-1, vm.raise vmEMemFault)) ∧
      ∀ mem, derefMemPtr (base + offset) (UInt32.ofNat w) vm.memory.size = some mem →
        (vm.memory.size < mem.toNat + w ∧ handlerOf op host instn vm = .error .deref) ∨
        (mem.toNat + w ≤ vm.memory.size ∧ ∃ memory : Segment,
          handlerOf op host instn vm = .ok (0, { vm with memory := memory }) ∧
          ∀ i, memory.bytes[i]? =
            if a.cell mem.toNat ≤ i ∧ i < a.cell mem.toNat + w
            then a.stored vm.memory mem.toNat w (i - a.cell mem.toNat)
            else vm.memory.bytes[i]?) := by
  cases h with
  | read hw hdst hin hsrc hload hoff =>
      obtain ⟨hcases, hop⟩ := readWidth_cases (σ := σ) hw
      have hlref := lref_eq hsrc hload
      refine ⟨by omega, by omega, ?_, ?_⟩
      · intro hnone
        simp only [hop, readMem, hlref, hoff, ok_bind, hnone]
      · intro mem hmem
        rw [hop]
        exact readMem_passed host hdst hin hsrc hload hoff rfl hmem
  | write hw hbase hoff hvalue =>
      obtain ⟨hcases, hop⟩ := writeWidth_cases (σ := σ) hw
      refine ⟨by omega, by omega, ?_, ?_⟩
      · intro hnone
        simp only [hop, writeMem, hbase, hoff, ok_bind, hnone]
      · intro mem hmem
        rw [hop]
        exact writeMem_passed host hbase hoff hvalue hmem

/-- **An access is exact unless a sum wraps around** to an address that passes the check, for every
memory, base, offset, value and width, in all eight handlers. -/
theorem access_iff {op : Op} {instn : Instn} {vm : Vm σ} {w : Nat} {a : Access}
    {base offset : UInt32} (host : Host σ) (h : AccessOperands instn vm w op a base offset) :
    Exact op host instn vm w a (base.toNat + offset.toNat) ↔
      ¬ Wraps base.toNat offset.toNat w vm.memory.size := by
  obtain ⟨hw, hpos, hfault, hpassed⟩ := access_cases host h
  have hsz := vm.memory.size_lt'
  constructor
  · -- a wrapped sum passes, so there is no fault where there must be one
    intro hexact hwraps
    have hmem := derefMemPtr_wraps hw hwraps
    unfold Exact at hexact
    rw [if_neg (by have := hwraps.1; omega)] at hexact
    rcases hpassed _ hmem with ⟨_, herr⟩ | ⟨_, memory, hok, _⟩
    · rw [herr] at hexact
      cases hexact
    · rw [hok] at hexact
      have hret : (0 : Int) = -1 := congrArg Prod.fst (Except.ok.inj hexact)
      omega
  · intro hno
    unfold Exact
    rcases derefMemPtr_exact hw hsz hno with ⟨hnone, hlt⟩ | ⟨hmem, hle, haddr⟩
    · rw [if_neg (by omega)]
      exact hfault hnone
    · rw [if_pos hle, ← haddr]
      rcases hpassed _ hmem with ⟨hlt, _⟩ | ⟨_, hok⟩
      · omega
      · exact hok

/-- A memory of eight different bytes. -/
def eightBytes : Segment := ⟨[1, 2, 3, 4, 5, 6, 7, 8], by decide⟩

/-- A machine with sixteen bytes of memory that is about to run `write32 base, 8, 7`, and the
instruction as it is decoded. -/
def writeVm (base : UInt64) : Vm Unit where
  code := ⟨[0x9f, 1, 2] ++ Bytes.toLE 4 base.toNat ++ [8, 7], by simp⟩
  memory := ⟨List.replicate 16 0, by decide⟩
  exceptions := 0
  procedures := [newProc 0]
  iptr := 0xffffffff
  instns := 0
  assertId := 0
  instnsSinceLastCleanup := 0
  host := ()

def writeInstn (base : UInt64) : Instn := ⟨0x19f, 2, [.imm base, .imm 8, .imm 7]⟩

/-- An access that is exact. -/
theorem access_fits :
    Exact .write32 quietHost (writeInstn 4) (writeVm 4) 4 (.write 7) (4 + 8) := by
  have hbase : argValue (writeInstn 4) 0 (writeVm 4) = .ok 4 := by decide +kernel
  have hoff : argValue (writeInstn 4) 1 (writeVm 4) = .ok 8 := by decide +kernel
  have hvalue : argValue (writeInstn 4) 2 (writeVm 4) = .ok 7 := by decide +kernel
  have hno : ¬ Wraps 4 8 4 16 := by decide
  exact (access_iff quietHost (.write rfl hbase hoff hvalue)).2 hno

/-- `write32 0xfffffffc, 8, 7` changes the bytes from `4` on. -/
theorem access_wraps :
    decodeInstn stableTable.entries (writeVm 0xfffffffc).code (writeVm 0xfffffffc).memory 0
        = .ok (writeInstn 0xfffffffc, 9) ∧
      AccessOperands (writeInstn 0xfffffffc) (writeVm 0xfffffffc) 4 .write32 (.write 7)
        0xfffffffc 8 ∧
      ¬ Exact .write32 quietHost (writeInstn 0xfffffffc) (writeVm 0xfffffffc) 4 (.write 7)
        (0xfffffffc + 8) := by
  have hbase : argValue (writeInstn 0xfffffffc) 0 (writeVm 0xfffffffc) = .ok 0xfffffffc := by
    decide +kernel
  have hoff : argValue (writeInstn 0xfffffffc) 1 (writeVm 0xfffffffc) = .ok 8 := by
    decide +kernel
  have hvalue : argValue (writeInstn 0xfffffffc) 2 (writeVm 0xfffffffc) = .ok 7 := by
    decide +kernel
  refine ⟨by decide +kernel, .write rfl hbase hoff hvalue, ?_⟩
  intro h
  unfold Exact at h
  rw [if_neg (by decide)] at h
  have hret := congrArg (fun x => x.toOption.map Prod.fst) h
  revert hret
  decide +kernel

end BvgzVm
