import BvgzVm.Debug.Symbols
import BvgzVm.Vm.DecodeBounds

set_option autoImplicit false

/-! # Disassembly

`dbg_disasm` of `debug_misc.c` with the functions of `debug_util.c` that print an instruction. The
command goes through the code with the decoder of the machine, which raises an exception in the
machine where it fails. Undoing that, the command stores the flags that are new and loses those
that were there, so that it leaves the machine alone only where it comes to the end of its range
(`disasm_iff`).
-/

namespace BvgzVm

open CLib Fallible

variable {σ : Type} {T : InstnTable}

/-! ## Printing -/

/-- Why the command does not go on. -/
inductive DisasmFault
  /-- the decoder reads outside the code -/
  | decode (u : Ub)
  /-- no row of `InstnDefs`, or no name in it, for the word of an instruction -/
  | name
  /-- a label that is printed as a format asks for an argument -/
  | format
  deriving DecidableEq, Repr

/-- A format without a conversion. -/
def plainFormat : CStr → Bool
  | [] => true
  | '%' :: '%' :: s => plainFormat s
  | '%' :: _ => false
  | _ :: s => plainFormat s

/-- `printf(label)`, for a label that has been found. -/
def printLabel : Option CStr → Except DisasmFault Unit
  | none => .ok ()
  | some label => if plainFormat label then .ok () else .error .format

/-- `print_code_address(address, state, 0)`; the second call, which skips the label, prints numbers
only. -/
def printCodeAddress (address : UInt32) (symbols : Option DbgSymbols) : Except DisasmFault Unit :=
  printLabel (addressLabel address symbols false)

/-- An operand in `print_instn`. The label of an immediate goes through `%s`, that of a reference
is the format. -/
def printArg (symbols : Option DbgSymbols) : Arg → Except DisasmFault Unit
  | .imm _ => .ok ()
  | .ptr ref => printLabel (addressLabel ref symbols true)

/-- The loop of `print_instn` over the operands. -/
def printArgs (symbols : Option DbgSymbols) : List Arg → Except DisasmFault Unit
  | [] => .ok ()
  | a :: as => do
      printArg symbols a
      printArgs symbols as

/-- `print_instn`. The index is not cut to 8 bits here. -/
def printInstn (T : InstnTable) (instn : Instn) (symbols : Option DbgSymbols) :
    Except DisasmFault Unit :=
  match nameAt T.entries (instn.code >>> 3) with
  | .ok (some _) => printArgs symbols instn.args
  | .ok none | .error _ => .error .name

/-! ## The command -/

/-- What the command does after a failed decode: `exceptions` are the flags from before it. -/
def keepNew (exceptions : UInt32) (vm : Vm σ) : Vm σ :=
  { vm with exceptions := vm.exceptions &&& ~~~exceptions }

/-- The loop of `dbg_disasm`, for at most `fuel` instructions. -/
def disasmLoop (T : InstnTable) (symbols : Option DbgSymbols) (endAddr : UInt32) :
    Nat → UInt32 → Vm σ → Except DisasmFault (Option (Vm σ))
  | 0, addr, vm => .ok (if addr < endAddr then none else some vm)
  | fuel + 1, addr, vm =>
      if addr < endAddr then
        match decodeInstn T.entries vm.code vm.memory addr.toNat with
        | .error (.ub u) => .error (.decode u)
        | .error (.exn e) => .ok (some (keepNew vm.exceptions (vm.raise e)))
        | .ok (instn, offt) => do
            printCodeAddress addr symbols
            printInstn T instn symbols
            disasmLoop T symbols endAddr fuel (addr + UInt32.ofNat offt) vm
      else .ok (some vm)

/-- `begin` and `end` of `dbg_disasm`, from the arguments behind the name of the command. -/
def disasmRange (symbols : Option DbgSymbols) (codesz : UInt32) :
    List CStr → Option (UInt32 × UInt32)
  | [] => some (0, codesz)
  | [label] =>
      let first := resolveCodeAddress label symbols
      if first = badNumber then none else some (first, codesz)
  | [label, offset] =>
      let first := resolveCodeAddress label symbols
      let offset := parseUint offset 10
      if first = badNumber ∨ offset = badNumber then none else some (first, first + offset)
  | _ => none

/-- `dbg_disasm` -/
def dbgDisasm (T : InstnTable) (symbols : Option DbgSymbols) (args : List CStr) (fuel : Nat)
    (vm : Vm σ) : Except DisasmFault (Option (Vm σ)) :=
  match disasmRange symbols (UInt32.ofNat vm.code.size) args with
  | none => .ok (some vm)
  | some (first, endAddr) => disasmLoop T symbols endAddr fuel first vm

/-! ## Failing decodes -/

/-- The decoder reports a failure without a flag. -/
def IsFlagless (f : Fault) : Prop := f = .exn 0

theorem codeRead_flags {code : Segment} (off w : Nat) :
    Avoids IsFlagless (codeRead code off w) := by
  intro f hf hread
  obtain rfl := (codeRead_eq_error.1 hread).2
  cases hf

theorem avoids_flag {α : Type} {e : UInt32} (he : e ≠ 0) :
    Avoids IsFlagless (Except.error (.exn e) : Except Fault α) :=
  avoids_error.2 fun h => he (Fault.exn.inj h)

theorem decodeArg_flags (code memory : Segment) (iptr word argSizes i offset : Nat) :
    Avoids IsFlagless (decodeArg code memory iptr word argSizes i offset) := by
  unfold decodeArg
  split
  · split
    · exact avoids_flag (by decide)
    · exact avoids_bind.2 ⟨codeRead_flags _ _, fun v _ => avoids_ok _⟩
  · split
    · exact avoids_flag (by decide)
    · refine avoids_bind.2 ⟨codeRead_flags _ _, fun ref _ => ?_⟩
      split
      · exact avoids_flag (by decide)
      · exact avoids_ok _

theorem decodeArgs_flags (code memory : Segment) (iptr word argSizes n i offset : Nat) :
    Avoids IsFlagless (decodeArgs code memory iptr word argSizes n i offset) := by
  induction n generalizing i offset with
  | zero => exact avoids_ok _
  | succ n ih =>
      rw [decodeArgs]
      refine avoids_bind.2 ⟨decodeArg_flags _ _ _ _ _ _ _, fun a _ => ?_⟩
      exact avoids_bind.2 ⟨ih _ _, fun as _ => avoids_ok _⟩

/-- **A failing decode raises a flag**, if it fails with an exception. -/
theorem decodeInstn_flags {H : Type} (defs : List (InstnDef H)) (code memory : Segment)
    (iptr : Nat) : Avoids IsFlagless (decodeInstn defs code memory iptr) := by
  unfold decodeInstn
  split
  · exact avoids_flag (by decide)
  · refine avoids_bind.2 ⟨codeRead_flags _ _, fun word _ => ?_⟩
    split
    · exact avoids_flag (by decide)
    · split
      · split
        · exact avoids_flag (by decide)
        · refine avoids_bind.2 ⟨codeRead_flags _ _, fun sizes _ => ?_⟩
          exact avoids_bind.2 ⟨decodeArgs_flags _ _ _ _ _ _ _ _, fun as _ => avoids_ok _⟩
      · exact avoids_bind.2 ⟨decodeArgs_flags _ _ _ _ _ _ _ _, fun as _ => avoids_ok _⟩

/-- The new flags alone are never the old ones: the two have no flag in common, and there is a
new one. -/
theorem newFlags_ne {x e : UInt32} (he : e ≠ 0) : (x ||| e) &&& ~~~x ≠ x := by
  intro h
  have hzero : x = 0 := by
    calc x = x &&& x := UInt32.and_self.symm
      _ = ((x ||| e) &&& ~~~x) &&& x := by rw [h]
      _ = 0 := by rw [UInt32.and_assoc, UInt32.not_and_self, UInt32.and_zero]
  rw [hzero] at h
  apply he
  simpa using h

theorem keepNew_ne (vm : Vm σ) {e : UInt32} (he : e ≠ 0) :
    keepNew vm.exceptions (vm.raise e) ≠ vm := fun h =>
  newFlags_ne he (congrArg Vm.exceptions h)

/-! ## The command ends -/

/-- Every instruction takes the loop further, and none ends behind the code. -/
theorem disasmLoop_ends (symbols : Option DbgSymbols) (endAddr : UInt32) {fuel : Nat}
    {addr : UInt32} {vm : Vm σ} (hpos : 0 < fuel) (hfuel : vm.code.size < addr.toNat + fuel) :
    disasmLoop T symbols endAddr fuel addr vm ≠ .ok none := by
  induction fuel generalizing addr with
  | zero => exact absurd hpos (lt_irrefl 0)
  | succ fuel ih =>
      rw [disasmLoop]
      by_cases hlt : addr < endAddr
      · rw [if_pos hlt]
        cases hdec : decodeInstn T.entries vm.code vm.memory addr.toNat with
        | error f => cases f <;> simp
        | ok r =>
            obtain ⟨instn, offt⟩ := r
            obtain ⟨htwo, hle⟩ := decodeInstn_length hdec
            have hsize : vm.code.size < 2 ^ 32 := vm.code.size_lt
            have hnext : (addr + UInt32.ofNat offt).toNat = addr.toNat + offt := by
              rw [UInt32.toNat_add, UInt32.toNat_ofNat']
              omega
            intro h
            obtain ⟨-, -, h⟩ := bind_eq_ok.1 h
            obtain ⟨-, -, h⟩ := bind_eq_ok.1 h
            exact ih (by omega) (by omega) h
      · rw [if_neg hlt]
        simp

/-- **The command ends** on every machine, whatever its arguments are. -/
theorem dbgDisasm_ends (symbols : Option DbgSymbols) (args : List CStr) (vm : Vm σ) {fuel : Nat}
    (hfuel : vm.code.size < fuel) : dbgDisasm T symbols args fuel vm ≠ .ok none := by
  unfold dbgDisasm
  split
  · simp
  · exact disasmLoop_ends symbols _ (by omega) (by omega)

/-! ## What it leaves behind -/

/-- From `addr` to the end of the range there is one instruction behind the other, and what is
printed of each of them can be printed. -/
inductive Listed (T : InstnTable) (symbols : Option DbgSymbols) (endAddr : UInt32) (vm : Vm σ) :
    UInt32 → Prop
  | done {addr : UInt32} (h : ¬ addr < endAddr) : Listed T symbols endAddr vm addr
  | instn {addr : UInt32} {instn : Instn} {offt : Nat} (h : addr < endAddr)
      (hdecode : decodeInstn T.entries vm.code vm.memory addr.toNat = .ok (instn, offt))
      (haddress : printCodeAddress addr symbols = .ok ())
      (hinstn : printInstn T instn symbols = .ok ())
      (hrest : Listed T symbols endAddr vm (addr + UInt32.ofNat offt)) :
      Listed T symbols endAddr vm addr

theorem Listed.of_loop {symbols : Option DbgSymbols} {endAddr : UInt32} {fuel : Nat}
    {addr : UInt32} {vm : Vm σ} (h : disasmLoop T symbols endAddr fuel addr vm = .ok (some vm)) :
    Listed T symbols endAddr vm addr := by
  induction fuel generalizing addr with
  | zero =>
      refine .done fun hlt => ?_
      rw [disasmLoop, if_pos hlt] at h
      cases h
  | succ fuel ih =>
      by_cases hlt : addr < endAddr
      · rw [disasmLoop, if_pos hlt] at h
        cases hdec : decodeInstn T.entries vm.code vm.memory addr.toNat with
        | error f =>
            rw [hdec] at h
            cases f with
            | ub u => cases h
            | exn e =>
                have he : e ≠ 0 := by
                  rintro rfl
                  exact decodeInstn_flags T.entries vm.code vm.memory addr.toNat _ rfl hdec
                exact absurd (Option.some.inj (Except.ok.inj h)) (keepNew_ne vm he)
        | ok r =>
            rw [hdec] at h
            obtain ⟨_, haddress, h⟩ := bind_eq_ok.1 h
            obtain ⟨_, hinstn, h⟩ := bind_eq_ok.1 h
            exact .instn hlt hdec haddress hinstn (ih h)
      · exact .done hlt

theorem Listed.loop {symbols : Option DbgSymbols} {endAddr addr : UInt32} {vm : Vm σ}
    (h : Listed T symbols endAddr vm addr) :
    ∃ n, ∀ fuel ≥ n, disasmLoop T symbols endAddr fuel addr vm = .ok (some vm) := by
  induction h with
  | done h =>
      refine ⟨0, fun fuel _ => ?_⟩
      cases fuel with
      | zero => rw [disasmLoop, if_neg h]
      | succ fuel => rw [disasmLoop, if_neg h]
  | instn h hdecode haddress hinstn _ ih =>
      obtain ⟨n, hn⟩ := ih
      refine ⟨n + 1, fun fuel hfuel => ?_⟩
      obtain ⟨m, rfl⟩ := Nat.exists_eq_add_of_le' (show 1 ≤ fuel by omega)
      rw [disasmLoop, if_pos h, hdecode]
      simp only [haddress, hinstn, ok_bind]
      exact hn m (by omega)

/-- **When disassembly is a pure observation.** The command ends and leaves the machine as it was
exactly if its arguments name no range, or if it comes to the end of its range. -/
theorem disasm_iff (T : InstnTable) (symbols : Option DbgSymbols) (args : List CStr) (vm : Vm σ) :
    (∃ n, ∀ fuel ≥ n, dbgDisasm T symbols args fuel vm = .ok (some vm)) ↔
      ∀ first endAddr, disasmRange symbols (UInt32.ofNat vm.code.size) args =
        some (first, endAddr) → Listed T symbols endAddr vm first := by
  unfold dbgDisasm
  cases disasmRange symbols (UInt32.ofNat vm.code.size) args with
  | none => simp
  | some range =>
      obtain ⟨first, endAddr⟩ := range
      constructor
      · rintro ⟨n, hn⟩ _ _ ⟨⟩
        exact Listed.of_loop (hn n le_rfl)
      · intro h
        exact (h first endAddr rfl).loop

/-- A machine whose code is one byte, with a flag that is set. -/
def oneByteVm : Vm Unit where
  code := ⟨[0], by decide⟩
  memory := .empty
  exceptions := vmEMemFault
  procedures := []
  iptr := 0
  instns := 0
  assertId := 0
  instnsSinceLastCleanup := 0
  host := ()

/-- At the one byte the flag that was set is replaced by that of the decoder. -/
theorem disasm_loses_flag :
    dbgDisasm stableTable none [] 2 oneByteVm =
      .ok (some { oneByteVm with exceptions := vmEBadInstnPointer }) ∧
    ¬ ∃ n, ∀ fuel ≥ n, dbgDisasm stableTable none [] fuel oneByteVm = .ok (some oneByteVm) := by
  have hstop : ∀ fuel, dbgDisasm stableTable none [] (fuel + 1) oneByteVm =
      .ok (some { oneByteVm with exceptions := vmEBadInstnPointer }) := by
    intro fuel
    rfl
  refine ⟨hstop 1, ?_⟩
  rintro ⟨n, hn⟩
  have hkept := (hstop n).symm.trans (hn (n + 1) (by omega))
  have hflags := congrArg Vm.exceptions (Option.some.inj (Except.ok.inj hkept))
  exact absurd hflags (by decide)

end BvgzVm
