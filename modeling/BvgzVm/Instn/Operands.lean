import BvgzVm.Instn.Handlers
import BvgzVm.Vm.Dispatch

set_option autoImplicit false

/-! # The operands of a running instruction

`decode_instn` checks once, and in 32 bits, that the four bytes of a reference operand are inside
the memory. The handlers then use the operand with their own width. `Decoded` says what an
instruction accepted by the decoder looks like to its handler, `operandUses` lists the operands
the taken branch of a handler reaches through, with the width of the access, and
`operandFault_iff` determines the operands for which the one check is enough.
-/

namespace BvgzVm

open Fallible

variable {σ : Type}

/-! ## Decoded instructions -/

/-- The operand count in the name of a handler. -/
def Op.argCount : Op → Nat
  | .nop0 | .ret0 => 0
  | .lNot1 | .lBool1 | .not1 | .jmp1 | .argv1 | .retv1 | .abrt1 => 1
  | .add2 | .sub2 | .mul2 | .div2 | .mod2 | .lAnd2 | .lOr2 | .lNot2 | .lBool2 | .and2 | .or2
  | .xor2 | .not2 | .shl2 | .shr2 | .jtrue2 | .jfalse2 | .assert2 => 2
  | .add3 | .sub3 | .mul3 | .div3 | .mod3 | .eq3 | .ne3 | .gt3 | .lt3 | .ge3 | .le3 | .lAnd3
  | .lOr3 | .and3 | .or3 | .xor3 | .shl3 | .shr3 | .cp3 | .read8 | .read16 | .read32 | .read64
  | .write8 | .write16 | .write32 | .write64 | .call3 | .syscall3 => 3

theorem instnDefsInc_argCount : ∀ d ∈ instnDefsInc, d.argCount = d.handler.argCount := by decide

/-- The operands `decode_instn` hands to the handler `op`. -/
structure Decoded (instn : Instn) (op : Op) (memsz : Nat) : Prop where
  count : instn.args.length = op.argCount
  imm : ∀ k < op.argCount, instn.code.testBit k = true → ∃ u64, instn.args[k]? = some (.imm u64)
  ptr : ∀ k < op.argCount, instn.code.testBit k = false →
    ∃ ref, instn.args[k]? = some (.ptr ref) ∧ derefMemPtr ref 4 memsz = some ref

/-- **What the decoder accepts**, seen from the handler it is dispatched to. -/
theorem decoded_of_decodeInstn (T : InstnTable) {code memory : Segment} {iptr n : Nat}
    {instn : Instn} {op : Op} (h : decodeInstn T.entries code memory iptr = .ok (instn, n))
    (hop : handlerAt T.entries (instn.code >>> 3) = .ok op) : Decoded instn op memory.size := by
  obtain ⟨-, -, -, hargs⟩ := decodeInstn_ok h
  unfold handlerAt at hop
  cases hget : T.entries[instn.code >>> 3]? with
  | none =>
      rw [hget] at hop
      cases hop
  | some d =>
      rw [hget] at hop
      obtain rfl := Except.ok.inj hop
      have hlt : instn.code >>> 3 < 56 := by
        rw [← T.length_entries]
        exact (List.getElem?_eq_some_iff.1 hget).1
      have hidx : instnIdx instn.code = instn.code >>> 3 := Nat.mod_eq_of_lt (by omega)
      have hcount : argCountAt T.entries (instnIdx instn.code) = d.handler.argCount := by
        obtain ⟨d', hd', heq⟩ := T.mem_inc (List.mem_of_getElem? hget)
        have hc := instnDefsInc_argCount d' hd'
        rw [hidx, argCountAt, hget, heq]
        exact hc
      rw [hcount] at hargs
      refine ⟨(decodeArgs_ok hargs).1, ?_, ?_⟩
      · intro k hk hbit
        exact (decodeArgs_kinds hargs hk).1 (by rwa [Nat.zero_add])
      · intro k hk hbit
        exact (decodeArgs_kinds hargs hk).2 (by rwa [Nat.zero_add])

/-- Every reference among the operands has passed the check of the decoder. -/
theorem Decoded.checked {instn : Instn} {op : Op} {memsz k : Nat} {ref : UInt32}
    (hd : Decoded instn op memsz) (href : instn.args[k]? = some (.ptr ref)) :
    (ref + 4).toNat ≤ memsz := by
  have hk : k < op.argCount := by
    rw [← hd.count]
    exact (List.getElem?_eq_some_iff.1 href).1
  cases hb : instn.code.testBit k with
  | true =>
      obtain ⟨u64, hu⟩ := hd.imm k hk hb
      rw [hu] at href
      cases href
  | false =>
      obtain ⟨ref', href', hc⟩ := hd.ptr k hk hb
      obtain rfl := Arg.ptr.inj (Option.some.inj (href.symm.trans href'))
      unfold derefMemPtr at hc
      split at hc
      · cases hc
      · next hle => exact Nat.le_of_not_lt hle

/-! ## The operands a handler uses -/

/-- A handler looks at operand `k` with `arg_value`: an access only if it is a reference. -/
def valueUses (instn : Instn) (k : Nat) : List (Nat × Nat) :=
  if instn.code.testBit k then [] else [(k, 8)]

/-- The uses that depend on a value that was read. -/
def after {α : Type} (x : Except Ub α) (uses : α → List (Nat × Nat)) : List (Nat × Nat) :=
  match x with
  | .ok v => uses v
  | .error _ => []

def readUses (w : Nat) (instn : Instn) (vm : Vm σ) : List (Nat × Nat) :=
  (1, 4) :: after (lref 4 instn 1 vm) (fun ref =>
    valueUses instn 2 ++ after (argValue instn 2 vm) (fun offset =>
      match derefMemPtr (UInt32.ofNat ref + offset.toUInt32) (UInt32.ofNat w) vm.memory.size with
      | none => []
      | some mem => if (vm.memory.load mem.toNat w).isSome then [(0, w)] else []))

def writeUses (w : Nat) (instn : Instn) (vm : Vm σ) : List (Nat × Nat) :=
  valueUses instn 0 ++ after (argValue instn 0 vm) (fun ref =>
    valueUses instn 1 ++ after (argValue instn 1 vm) (fun offset =>
      if (derefMemPtr (ref.toUInt32 + offset.toUInt32) (UInt32.ofNat w) vm.memory.size).isSome
      then valueUses instn 2 else []))

/-- The operands the handler reaches through on the branch it takes, each with the number of
bytes. `cp` and `syscall` are left out: one has no fixed width, the other leaves the machine. -/
def operandUses (instn : Instn) (vm : Vm σ) : Op → List (Nat × Nat)
  | .nop0 | .ret0 | .cp3 | .syscall3 => []
  | .add3 | .sub3 | .mul3 | .eq3 | .ne3 | .gt3 | .lt3 | .ge3 | .le3 | .and3 | .or3 | .xor3 =>
      valueUses instn 1 ++ (valueUses instn 2 ++ [(0, 8)])
  | .shl3 | .shr3 =>
      valueUses instn 1 ++ (valueUses instn 2 ++
        after (argValue instn 2 vm) (fun y => if 64 ≤ y then [] else [(0, 8)]))
  | .add2 | .sub2 | .mul2 | .and2 | .or2 | .xor2 | .shl2 | .shr2 | .not2 | .lNot2 | .lBool2 =>
      valueUses instn 1 ++ [(0, 8)]
  | .div3 | .mod3 =>
      valueUses instn 2 ++ after (argValue instn 2 vm) (fun divisor =>
        if divisor = 0 then [] else valueUses instn 1 ++ [(0, 8)])
  | .div2 | .mod2 =>
      valueUses instn 1 ++ after (argValue instn 1 vm) (fun divisor =>
        if divisor = 0 then [] else [(0, 8)])
  | .lNot1 | .lBool1 | .not1 => [(0, 8)]
  | .lAnd3 =>
      valueUses instn 1 ++ (after (argValue instn 1 vm) (fun x =>
        if x = 0 then [] else valueUses instn 2) ++ [(0, 8)])
  | .lOr3 =>
      valueUses instn 1 ++ (after (argValue instn 1 vm) (fun x =>
        if x = 0 then valueUses instn 2 else []) ++ [(0, 8)])
  | .lAnd2 =>
      (0, 8) :: after (lref64 instn 0 vm) (fun x => if x = 0 then [] else valueUses instn 1)
  | .lOr2 =>
      (0, 8) :: after (lref64 instn 0 vm) (fun x => if x = 0 then valueUses instn 1 else [])
  | .jmp1 | .abrt1 => valueUses instn 0
  | .jtrue2 | .assert2 =>
      valueUses instn 1 ++ after (argValue instn 1 vm) (fun c =>
        if c != 0 then valueUses instn 0 else [])
  | .jfalse2 =>
      valueUses instn 1 ++ after (argValue instn 1 vm) (fun c =>
        if c == 0 then valueUses instn 0 else [])
  | .call3 => valueUses instn 0 ++ (valueUses instn 1 ++ valueUses instn 2)
  | .argv1 =>
      match vm.procedures with
      | [] => []
      | p :: _ =>
          if p.cstackSz = 0 then [(0, 4)]
          else after (frameField p (p.cstackSz - 1) 4) (fun _ => [(0, 4)])
  | .retv1 =>
      match vm.procedures with
      | [] => []
      | p :: _ =>
          if p.cstackSz = 0 then []
          else after (frameField p (p.cstackSz - 1) 0) (fun retv =>
            if (derefMemPtr retv 8 vm.memory.size).isSome then valueUses instn 0 else [])
  | .read8 => readUses 1 instn vm
  | .read16 => readUses 2 instn vm
  | .read32 => readUses 4 instn vm
  | .read64 => readUses 8 instn vm
  | .write8 => writeUses 1 instn vm
  | .write16 => writeUses 2 instn vm
  | .write32 => writeUses 4 instn vm
  | .write64 => writeUses 8 instn vm

/-- The access `(k, w)`, if it goes through a reference, is inside the memory. -/
def Inside (instn : Instn) (memsz : Nat) (u : Nat × Nat) : Prop :=
  ∀ ref, instn.args[u.1]? = some (.ptr ref) → ref.toNat + u.2 ≤ memsz

/-- All accesses of a list are inside. -/
def AllInside (instn : Instn) (memsz : Nat) (us : List (Nat × Nat)) : Prop :=
  ∀ u ∈ us, Inside instn memsz u

@[simp] theorem allInside_nil (instn : Instn) (memsz : Nat) : AllInside instn memsz [] := by
  intro u hu
  cases hu

@[simp] theorem allInside_append {instn : Instn} {memsz : Nat} {us vs : List (Nat × Nat)} :
    AllInside instn memsz (us ++ vs) ↔ AllInside instn memsz us ∧ AllInside instn memsz vs :=
  List.forall_mem_append

@[simp] theorem allInside_cons {instn : Instn} {memsz : Nat} {u : Nat × Nat}
    {us : List (Nat × Nat)} :
    AllInside instn memsz (u :: us) ↔ Inside instn memsz u ∧ AllInside instn memsz us :=
  List.forall_mem_cons

theorem allInside_singleton {instn : Instn} {memsz : Nat} {u : Nat × Nat} :
    AllInside instn memsz [u] ↔ Inside instn memsz u := by
  rw [allInside_cons]
  exact and_iff_left (allInside_nil _ _)

/-! ## Accesses that stay inside -/

/-- The access through an operand left the memory. -/
def IsOperandFault (u : Ub) : Prop := ∃ k, u = .operand k

/-- A computation makes no access through an operand that leaves the memory. -/
abbrev NoOperandFault {α : Type} (x : Except Ub α) : Prop := Avoids IsOperandFault x

theorem noOperandFault_error {α : Type} {u : Ub} (hu : ∀ k, u ≠ .operand k) :
    NoOperandFault (Except.error u : Except Ub α) :=
  avoids_error.2 (fun ⟨k, hk⟩ => hu k hk)

theorem noOperandFault_bind {α β : Type} {x : Except Ub α} {f : α → Except Ub β} :
    NoOperandFault (x >>= f) ↔ NoOperandFault x ∧ ∀ a, x = .ok a → NoOperandFault (f a) :=
  avoids_bind

theorem inside_iff {instn : Instn} {memsz k w : Nat} {ref : UInt32}
    (href : instn.args[k]? = some (.ptr ref)) :
    Inside instn memsz (k, w) ↔ ref.toNat + w ≤ memsz := by
  constructor
  · intro h
    exact h ref href
  · intro h ref' href'
    obtain rfl := Arg.ptr.inj (Option.some.inj (href.symm.trans href'))
    exact h

theorem argPtr_eq (instn : Instn) (k : Nat) :
    argPtr instn k = .error (.wild k) ∧ (∀ ref, instn.args[k]? ≠ some (.ptr ref)) ∨
      ∃ ref, argPtr instn k = .ok ref ∧ instn.args[k]? = some (.ptr ref) := by
  unfold argPtr
  split
  · next ref h => exact Or.inr ⟨ref, rfl, h⟩
  · next h => exact Or.inl ⟨rfl, fun ref hp => h ref hp⟩

/-- **A read through an operand** stays inside exactly when its bytes are inside. -/
theorem lref_noFault {w : Nat} {instn : Instn} {k : Nat} {vm : Vm σ} :
    NoOperandFault (lref w instn k vm) ↔ AllInside instn vm.memory.size [(k, w)] := by
  rw [allInside_singleton]
  unfold lref
  rcases argPtr_eq instn k with ⟨hp, hno⟩ | ⟨ref, hp, href⟩
  · rw [hp, error_bind]
    exact iff_of_true (noOperandFault_error (by simp)) (fun ref h => absurd h (hno ref))
  · rw [hp, ok_bind, inside_iff href]
    cases hl : vm.memory.load ref.toNat w with
    | none =>
        have hlt := Segment.load_eq_none.1 hl
        exact iff_of_false (fun h => h _ ⟨k, rfl⟩ rfl) (by omega)
    | some v =>
        refine iff_of_true (avoids_ok v) (Nat.le_of_not_lt (fun hlt => ?_))
        rw [Segment.load_eq_none.2 hlt] at hl
        cases hl

/-- **A write through an operand** stays inside exactly when its bytes are inside. -/
theorem lrefSet_noFault {w : Nat} {instn : Instn} {k v : Nat} {vm : Vm σ} :
    NoOperandFault (lrefSet w instn k v vm) ↔ AllInside instn vm.memory.size [(k, w)] := by
  rw [allInside_singleton]
  unfold lrefSet
  rcases argPtr_eq instn k with ⟨hp, hno⟩ | ⟨ref, hp, href⟩
  · rw [hp, error_bind]
    exact iff_of_true (noOperandFault_error (by simp)) (fun ref h => absurd h (hno ref))
  · rw [hp, ok_bind, inside_iff href]
    cases hs : vm.memory.store ref.toNat w v with
    | none =>
        have hlt := Segment.store_eq_none.1 hs
        exact iff_of_false (fun h => h _ ⟨k, rfl⟩ rfl) (by omega)
    | some m =>
        refine iff_of_true (avoids_ok _) (Nat.le_of_not_lt (fun hlt => ?_))
        rw [Segment.store_eq_none.2 hlt] at hs
        cases hs

theorem lref64_noFault {instn : Instn} {k : Nat} {vm : Vm σ} :
    NoOperandFault (lref64 instn k vm) ↔ AllInside instn vm.memory.size [(k, 8)] := by
  rw [lref64, noOperandFault_bind, lref_noFault]
  exact ⟨And.left, fun h => ⟨h, fun v _ => avoids_ok _⟩⟩

/-- A write that ends the handler. -/
theorem lrefSet_last_noFault {w : Nat} {instn : Instn} {k v : Nat} {vm : Vm σ} :
    NoOperandFault (lrefSet w instn k v vm >>= fun vm => (.ok (0, vm) : Except Ub (Int × Vm σ))) ↔
      AllInside instn vm.memory.size [(k, w)] := by
  rw [noOperandFault_bind, lrefSet_noFault]
  exact ⟨And.left, fun h => ⟨h, fun _ _ => avoids_ok _⟩⟩

theorem assign_noFault {instn : Instn} {v : UInt64} {vm : Vm σ} :
    NoOperandFault (assign instn v vm) ↔ AllInside instn vm.memory.size [(0, 8)] :=
  lrefSet_last_noFault

/-- A pointer that reads without leaving the memory gives a value. -/
theorem lref_ok {w : Nat} {instn : Instn} {k : Nat} {vm : Vm σ} {ref : UInt32}
    (href : instn.args[k]? = some (.ptr ref)) (h : NoOperandFault (lref w instn k vm)) :
    ∃ v, lref w instn k vm = .ok v := by
  unfold lref argPtr at h ⊢
  rw [href, ok_bind] at h ⊢
  cases hl : vm.memory.load ref.toNat w with
  | none =>
      simp only [hl] at h
      exact absurd rfl (h _ ⟨k, rfl⟩)
  | some v => exact ⟨v, rfl⟩

theorem argValue_noFault {instn : Instn} {k : Nat} {vm : Vm σ} :
    NoOperandFault (argValue instn k vm) ↔
      AllInside instn vm.memory.size (valueUses instn k) := by
  unfold argValue valueUses
  cases hb : instn.code.testBit k with
  | true =>
      rw [if_pos rfl, if_pos rfl]
      refine iff_of_true ?_ (allInside_nil _ _)
      split
      · exact avoids_ok _
      · exact noOperandFault_error (by simp)
  | false => simp [lref64_noFault]

/-- A decoded operand that stays inside has a value. -/
theorem argValue_ok {instn : Instn} {op : Op} {k : Nat} {vm : Vm σ}
    (hd : Decoded instn op vm.memory.size) (hk : k < op.argCount)
    (h : NoOperandFault (argValue instn k vm)) : ∃ v, argValue instn k vm = .ok v := by
  unfold argValue at h ⊢
  cases hb : instn.code.testBit k with
  | true =>
      obtain ⟨u64, hu⟩ := hd.imm k hk hb
      rw [if_pos rfl, hu]
      exact ⟨_, rfl⟩
  | false =>
      obtain ⟨ref, href, -⟩ := hd.ptr k hk hb
      rw [hb, if_neg Bool.false_ne_true, lref64, noOperandFault_bind] at h
      obtain ⟨v, hv⟩ := lref_ok href h.1
      rw [if_neg Bool.false_ne_true, lref64, hv, ok_bind]
      exact ⟨_, rfl⟩

/-- **The rule for one access after the other.** What comes after a value depends on it. -/
theorem bind_noFault {α β : Type} {instn : Instn} {memsz : Nat} {x : Except Ub α}
    {f : α → Except Ub β} {us : List (Nat × Nat)} {vs : α → List (Nat × Nat)}
    (hx : NoOperandFault x ↔ AllInside instn memsz us)
    (hf : ∀ a, x = .ok a → AllInside instn memsz us →
      (NoOperandFault (f a) ↔ AllInside instn memsz (vs a))) :
    NoOperandFault (x >>= f) ↔ AllInside instn memsz (us ++ after x vs) := by
  rw [noOperandFault_bind, allInside_append, hx]
  refine and_congr_right (fun hus => ?_)
  cases hv : x with
  | error u =>
      refine iff_of_true (fun a h => ?_) (allInside_nil _ _)
      cases h
  | ok a =>
      rw [after, ← hf a hv hus]
      constructor
      · intro h
        exact h a rfl
      · rintro h a' ha'
        obtain rfl := Except.ok.inj ha'
        exact h

/-- **The rule for reading a decoded operand**, which has a value when it is inside. -/
theorem argValue_bind_noFault {β : Type} {instn : Instn} {op : Op} {k : Nat} {vm : Vm σ}
    {f : UInt64 → Except Ub β} {us : List (Nat × Nat)} (hd : Decoded instn op vm.memory.size)
    (hk : k < op.argCount)
    (hf : ∀ v, argValue instn k vm = .ok v →
      (NoOperandFault (f v) ↔ AllInside instn vm.memory.size us)) :
    NoOperandFault (argValue instn k vm >>= f) ↔
      AllInside instn vm.memory.size (valueUses instn k ++ us) := by
  rw [noOperandFault_bind, allInside_append, ← argValue_noFault]
  constructor
  · rintro ⟨hx, hrest⟩
    obtain ⟨v, hv⟩ := argValue_ok hd hk hx
    exact ⟨hx, (hf v hv).1 (hrest v hv)⟩
  · rintro ⟨hx, hus⟩
    exact ⟨hx, fun v hv => (hf v hv).2 hus⟩

/-! ## One lemma for each family of handlers -/

section Families

variable {instn : Instn} {op : Op} {vm : Vm σ} (host : Host σ)

theorem binary3_noFault {f : UInt64 → UInt64 → Except Ub UInt64} {us : List (Nat × Nat)}
    (hd : Decoded instn op vm.memory.size) (hop : op.argCount = 3)
    (hf : ∀ x y, argValue instn 2 vm = .ok y →
      (NoOperandFault (f x y >>= fun v => assign instn v vm) ↔
        AllInside instn vm.memory.size us)) :
    NoOperandFault (binary3 f host instn vm) ↔
      AllInside instn vm.memory.size (valueUses instn 1 ++ (valueUses instn 2 ++ us)) :=
  argValue_bind_noFault hd (by omega) (fun x _ =>
    argValue_bind_noFault hd (by omega) (fun y hy => hf x y hy))

/-- A shift that is defined is assigned, the others stop before the destination is reached. -/
theorem shift_noFault {f : UInt64 → UInt64 → Except Ub UInt64} {g : UInt64 → UInt64 → UInt64}
    (hf : ∀ x y, f x y = if 64 ≤ y then .error .shift else .ok (g x y)) (x y : UInt64)
    (hy : argValue instn 2 vm = .ok y) :
    NoOperandFault (f x y >>= fun v => assign instn v vm) ↔
      AllInside instn vm.memory.size
        (after (argValue instn 2 vm) (fun y => if 64 ≤ y then [] else [(0, 8)])) := by
  rw [hf, hy, after]
  by_cases h : 64 ≤ y
  · rw [if_pos h, if_pos h, error_bind]
    exact iff_of_true (noOperandFault_error (by simp)) (allInside_nil _ _)
  · rw [if_neg h, if_neg h, ok_bind]
    exact assign_noFault

/-- Reading the destination and assigning to it are accesses to the same bytes. -/
theorem lref64_assign_noFault {f : UInt64 → Except Ub UInt64} (hf : ∀ x, NoOperandFault (f x)) :
    NoOperandFault (lref64 instn 0 vm >>= fun x => f x >>= fun v => assign instn v vm) ↔
      AllInside instn vm.memory.size [(0, 8)] := by
  rw [noOperandFault_bind, lref64_noFault]
  constructor
  · exact And.left
  · intro hin
    refine ⟨hin, fun x _ => noOperandFault_bind.2 ⟨hf x, fun v _ => ?_⟩⟩
    exact assign_noFault.2 hin

theorem binary2_noFault {f : UInt64 → UInt64 → Except Ub UInt64}
    (hf : ∀ x y, NoOperandFault (f x y)) (hd : Decoded instn op vm.memory.size)
    (hop : op.argCount = 2) :
    NoOperandFault (binary2 f host instn vm) ↔
      AllInside instn vm.memory.size (valueUses instn 1 ++ [(0, 8)]) :=
  argValue_bind_noFault hd (by omega) (fun y _ => lref64_assign_noFault (fun x => hf x y))

theorem shift_noOperandFault {g : UInt64 → UInt64 → UInt64} (x y : UInt64) :
    NoOperandFault (if 64 ≤ y then .error .shift else .ok (g x y)) := by
  split
  · exact noOperandFault_error (by simp)
  · exact avoids_ok _

theorem divide3_noFault {f : UInt64 → UInt64 → UInt64} (hd : Decoded instn op vm.memory.size)
    (hop : op.argCount = 3) :
    NoOperandFault (divide3 f host instn vm) ↔
      AllInside instn vm.memory.size (valueUses instn 2 ++
        after (argValue instn 2 vm) (fun divisor =>
          if divisor = 0 then [] else valueUses instn 1 ++ [(0, 8)])) := by
  refine argValue_bind_noFault hd (by omega) (fun divisor hdiv => ?_)
  rw [hdiv, after]
  by_cases hz : divisor = 0
  · rw [if_pos hz, if_pos hz]
    exact iff_of_true (avoids_ok _) (allInside_nil _ _)
  · rw [if_neg hz, if_neg hz]
    exact argValue_bind_noFault hd (by omega) (fun x _ => assign_noFault)

theorem divide2_noFault {f : UInt64 → UInt64 → UInt64} (hd : Decoded instn op vm.memory.size)
    (hop : op.argCount = 2) :
    NoOperandFault (divide2 f host instn vm) ↔
      AllInside instn vm.memory.size (valueUses instn 1 ++
        after (argValue instn 1 vm) (fun divisor => if divisor = 0 then [] else [(0, 8)])) := by
  refine argValue_bind_noFault hd (by omega) (fun divisor hdiv => ?_)
  rw [hdiv, after]
  by_cases hz : divisor = 0
  · rw [if_pos hz, if_pos hz]
    exact iff_of_true (avoids_ok _) (allInside_nil _ _)
  · rw [if_neg hz, if_neg hz]
    exact lref64_assign_noFault (f := fun x => .ok (f x divisor)) (fun x => avoids_ok _)

theorem unary2_noFault {f : UInt64 → UInt64} (hd : Decoded instn op vm.memory.size)
    (hop : op.argCount = 2) :
    NoOperandFault (unary2 f host instn vm) ↔
      AllInside instn vm.memory.size (valueUses instn 1 ++ [(0, 8)]) :=
  argValue_bind_noFault hd (by omega) (fun _ _ => assign_noFault)

theorem unary1_noFault {f : UInt64 → UInt64} :
    NoOperandFault (unary1 f host instn vm) ↔ AllInside instn vm.memory.size [(0, 8)] :=
  lref64_assign_noFault (f := fun x => .ok (f x)) (fun _ => avoids_ok _)

/-- A lazy operator as a conditional: `0` sends it one way and anything else the other. -/
theorem lAnd_eq (x y : Except Ub UInt64) : lAnd x y = x >>= fun x =>
    if x = 0 then .ok 0 else y >>= fun y => .ok (ofBool (y != 0)) := rfl

theorem lOr_eq (x y : Except Ub UInt64) : lOr x y = x >>= fun x =>
    if x = 0 then y >>= fun y => .ok (ofBool (y != 0)) else .ok 1 := rfl

theorem lAnd3_noFault (hd : Decoded instn op vm.memory.size) (hop : op.argCount = 3) :
    NoOperandFault (opLAnd3 host instn vm) ↔
      AllInside instn vm.memory.size (valueUses instn 1 ++ (after (argValue instn 1 vm) (fun x =>
        if x = 0 then [] else valueUses instn 2) ++ [(0, 8)])) := by
  rw [opLAnd3, logical3, lAnd_eq, bind_assoc]
  refine argValue_bind_noFault hd (by omega) (fun x hx => ?_)
  rw [hx, after]
  by_cases hz : x = 0
  · rw [if_pos hz, if_pos hz, ok_bind, List.nil_append]
    exact assign_noFault
  · rw [if_neg hz, if_neg hz, bind_assoc]
    exact argValue_bind_noFault hd (by omega) (fun _ _ => assign_noFault)

theorem lOr3_noFault (hd : Decoded instn op vm.memory.size) (hop : op.argCount = 3) :
    NoOperandFault (opLOr3 host instn vm) ↔
      AllInside instn vm.memory.size (valueUses instn 1 ++ (after (argValue instn 1 vm) (fun x =>
        if x = 0 then valueUses instn 2 else []) ++ [(0, 8)])) := by
  rw [opLOr3, logical3, lOr_eq, bind_assoc]
  refine argValue_bind_noFault hd (by omega) (fun x hx => ?_)
  rw [hx, after]
  by_cases hz : x = 0
  · rw [if_pos hz, if_pos hz, bind_assoc]
    exact argValue_bind_noFault hd (by omega) (fun _ _ => assign_noFault)
  · rw [if_neg hz, if_neg hz, ok_bind, List.nil_append]
    exact assign_noFault

/-- An operand whose value is all that is needed from then on. -/
theorem argValue_last_noFault {β : Type} {k : Nat} {f : UInt64 → Except Ub β}
    (hf : ∀ v, NoOperandFault (f v)) :
    NoOperandFault (argValue instn k vm >>= f) ↔
      AllInside instn vm.memory.size (valueUses instn k) := by
  rw [noOperandFault_bind, argValue_noFault]
  exact ⟨And.left, fun h => ⟨h, fun v _ => hf v⟩⟩

theorem lAnd2_noFault :
    NoOperandFault (opLAnd2 host instn vm) ↔
      AllInside instn vm.memory.size ((0, 8) :: after (lref64 instn 0 vm) (fun x =>
        if x = 0 then [] else valueUses instn 1)) := by
  rw [opLAnd2, logical2, lAnd_eq, bind_assoc]
  refine bind_noFault lref64_noFault (fun x _ hin => ?_)
  by_cases hz : x = 0
  · rw [if_pos hz, if_pos hz, ok_bind]
    exact iff_of_true (assign_noFault.2 hin) (allInside_nil _ _)
  · rw [if_neg hz, if_neg hz, bind_assoc]
    exact argValue_last_noFault (fun _ => assign_noFault.2 hin)

theorem lOr2_noFault :
    NoOperandFault (opLOr2 host instn vm) ↔
      AllInside instn vm.memory.size ((0, 8) :: after (lref64 instn 0 vm) (fun x =>
        if x = 0 then valueUses instn 1 else [])) := by
  rw [opLOr2, logical2, lOr_eq, bind_assoc]
  refine bind_noFault lref64_noFault (fun x _ hin => ?_)
  by_cases hz : x = 0
  · rw [if_pos hz, if_pos hz, bind_assoc]
    exact argValue_last_noFault (fun _ => assign_noFault.2 hin)
  · rw [if_neg hz, if_neg hz, ok_bind]
    exact iff_of_true (assign_noFault.2 hin) (allInside_nil _ _)

theorem doJump_noFault (iptr : UInt32) (vm : Vm σ) : NoOperandFault (doJump iptr vm) := by
  unfold doJump
  split
  · exact avoids_ok _
  · split
    · exact noOperandFault_error (by simp)
    · exact avoids_ok _

/-- The handlers that test the second operand and then may need the first one. -/
theorem test_noFault {β : Type} {taken : UInt64 → Prop} [DecidablePred taken]
    {f : UInt64 → Except Ub β} {b : β} (hf : ∀ v, NoOperandFault (f v))
    (hd : Decoded instn op vm.memory.size) (hop : op.argCount = 2) :
    NoOperandFault (argValue instn 1 vm >>= fun c =>
      if taken c then argValue instn 0 vm >>= f else .ok b) ↔
      AllInside instn vm.memory.size (valueUses instn 1 ++
        after (argValue instn 1 vm) (fun c => if taken c then valueUses instn 0 else [])) := by
  refine argValue_bind_noFault hd (by omega) (fun c hc => ?_)
  rw [hc, after]
  by_cases ht : taken c
  · rw [if_pos ht, if_pos ht]
    exact argValue_last_noFault hf
  · rw [if_neg ht, if_neg ht]
    exact iff_of_true (avoids_ok _) (allInside_nil _ _)

theorem pushCallStack_noFault (fill : Nat → UInt8) (p : Proc) (retval args retAddress : UInt32) :
    NoOperandFault (pushCallStack fill p retval args retAddress) := by
  unfold pushCallStack
  simp only
  split
  · exact noOperandFault_error (by simp)
  · exact avoids_ok _

theorem frameField_noFault (p : Proc) (idx : UInt32) (off : Nat) :
    NoOperandFault (frameField p idx off) := by
  unfold frameField
  split
  · exact noOperandFault_error (by simp)
  · exact avoids_ok _

theorem call3_noFault (hd : Decoded instn op vm.memory.size) (hop : op.argCount = 3) :
    NoOperandFault (opCall3 host instn vm) ↔
      AllInside instn vm.memory.size
        (valueUses instn 0 ++ (valueUses instn 1 ++ valueUses instn 2)) := by
  refine argValue_bind_noFault hd (by omega) (fun iptr _ =>
    argValue_bind_noFault hd (by omega) (fun argv _ => argValue_last_noFault (fun retv => ?_)))
  cases vm.procedures with
  | nil => exact noOperandFault_error (by simp)
  | cons p ps =>
      exact noOperandFault_bind.2 ⟨pushCallStack_noFault _ _ _ _ _, fun p' _ => avoids_ok _⟩

theorem ret0_noFault (instn : Instn) : NoOperandFault (opRet0 host instn vm) := by
  unfold opRet0
  cases vm.procedures with
  | nil => exact noOperandFault_error (by simp)
  | cons p ps =>
      simp only
      split
      · exact avoids_ok _
      · refine noOperandFault_bind.2 ⟨?_, fun r _ => ?_⟩
        · unfold popCallStack
          refine noOperandFault_bind.2 ⟨frameField_noFault _ _ _, fun r _ => ?_⟩
          simp only
          split
          · exact avoids_ok _
          · exact avoids_ok _
        · split
          · exact avoids_ok _
          · exact avoids_ok _

/-- A computation without accesses of its own. -/
theorem quiet_bind_noFault {α β : Type} {memsz : Nat} {x : Except Ub α} {f : α → Except Ub β}
    {us : α → List (Nat × Nat)} (hx : NoOperandFault x)
    (hf : ∀ a, NoOperandFault (f a) ↔ AllInside instn memsz (us a)) :
    NoOperandFault (x >>= f) ↔ AllInside instn memsz (after x us) :=
  bind_noFault (iff_of_true hx (allInside_nil instn memsz)) (fun a _ _ => hf a)

theorem argv1_noFault :
    NoOperandFault (opArgv1 host instn vm) ↔
      AllInside instn vm.memory.size (operandUses instn vm .argv1) := by
  unfold opArgv1 operandUses
  cases vm.procedures with
  | nil => exact iff_of_true (noOperandFault_error (by simp)) (allInside_nil _ _)
  | cons p ps =>
      simp only
      split
      · exact lrefSet_last_noFault
      · exact quiet_bind_noFault (frameField_noFault _ _ _) (fun args => lrefSet_last_noFault)

theorem retv1_noFault :
    NoOperandFault (opRetv1 host instn vm) ↔
      AllInside instn vm.memory.size (operandUses instn vm .retv1) := by
  unfold opRetv1 operandUses
  cases vm.procedures with
  | nil => exact iff_of_true (noOperandFault_error (by simp)) (allInside_nil _ _)
  | cons p ps =>
      simp only
      split
      · exact iff_of_true (avoids_ok _) (allInside_nil _ _)
      · refine quiet_bind_noFault (frameField_noFault _ _ _) (fun retv => ?_)
        cases derefMemPtr retv 8 vm.memory.size with
        | none => exact iff_of_true (avoids_ok _) (allInside_nil _ _)
        | some ret =>
            refine argValue_last_noFault (fun v => ?_)
            split
            · exact noOperandFault_error (by simp)
            · exact avoids_ok _

theorem readMem_noFault {w : Nat} :
    NoOperandFault (readMem w host instn vm) ↔
      AllInside instn vm.memory.size (readUses w instn vm) := by
  refine bind_noFault lref_noFault (fun ref _ _ =>
    bind_noFault argValue_noFault (fun offset _ _ => ?_))
  cases derefMemPtr (UInt32.ofNat ref + offset.toUInt32) (UInt32.ofNat w) vm.memory.size with
  | none => exact iff_of_true (avoids_ok _) (allInside_nil _ _)
  | some mem =>
      simp only
      cases vm.memory.load mem.toNat w with
      | none => exact iff_of_true (noOperandFault_error (by simp)) (allInside_nil _ _)
      | some v => exact lrefSet_last_noFault

theorem writeMem_noFault {w : Nat} :
    NoOperandFault (writeMem w host instn vm) ↔
      AllInside instn vm.memory.size (writeUses w instn vm) := by
  refine bind_noFault argValue_noFault (fun ref _ _ =>
    bind_noFault argValue_noFault (fun offset _ _ => ?_))
  cases derefMemPtr (ref.toUInt32 + offset.toUInt32) (UInt32.ofNat w) vm.memory.size with
  | none => exact iff_of_true (avoids_ok _) (allInside_nil _ _)
  | some mem =>
      refine argValue_last_noFault (fun v => ?_)
      split
      · exact noOperandFault_error (by simp)
      · exact avoids_ok _

end Families

/-- **The accesses of every handler** stay inside exactly when the listed uses are inside. -/
theorem handlerOf_noFault {instn : Instn} {op : Op} {vm : Vm σ} (host : Host σ)
    (hd : Decoded instn op vm.memory.size) (hop : op ≠ .cp3 ∧ op ≠ .syscall3) :
    NoOperandFault (handlerOf op host instn vm) ↔
      AllInside instn vm.memory.size (operandUses instn vm op) := by
  cases op with
  | nop0 => exact iff_of_true (avoids_ok _) (allInside_nil _ _)
  | ret0 => exact iff_of_true (ret0_noFault host instn) (allInside_nil _ _)
  | cp3 => exact absurd rfl hop.1
  | syscall3 => exact absurd rfl hop.2
  | add3 | sub3 | mul3 | eq3 | ne3 | gt3 | lt3 | ge3 | le3 | and3 | or3 | xor3 =>
      exact binary3_noFault host hd rfl (fun _ _ _ => assign_noFault)
  | shl3 => exact binary3_noFault host hd rfl (shift_noFault (g := fun x y => x <<< y) (fun _ _ => rfl))
  | shr3 => exact binary3_noFault host hd rfl (shift_noFault (g := fun x y => x >>> y) (fun _ _ => rfl))
  | add2 | sub2 | mul2 | and2 | or2 | xor2 =>
      exact binary2_noFault host (fun _ _ => avoids_ok _) hd rfl
  | shl2 => exact binary2_noFault host (shift_noOperandFault (g := fun x y => x <<< y)) hd rfl
  | shr2 => exact binary2_noFault host (shift_noOperandFault (g := fun x y => x >>> y)) hd rfl
  | div3 | mod3 => exact divide3_noFault host hd rfl
  | div2 | mod2 => exact divide2_noFault host hd rfl
  | not2 | lNot2 | lBool2 => exact unary2_noFault host hd rfl
  | not1 | lNot1 | lBool1 => exact unary1_noFault host
  | lAnd3 => exact lAnd3_noFault host hd rfl
  | lOr3 => exact lOr3_noFault host hd rfl
  | lAnd2 => exact lAnd2_noFault host
  | lOr2 => exact lOr2_noFault host
  | jmp1 => exact argValue_last_noFault (fun v => doJump_noFault _ _)
  | abrt1 => exact argValue_last_noFault (fun v => avoids_ok _)
  | jtrue2 | jfalse2 => exact test_noFault (fun v => doJump_noFault _ _) hd rfl
  | assert2 =>
      have hassert : opAssert2 host instn vm = argValue instn 1 vm >>= fun c =>
          if (c != 0) = true then argValue instn 0 vm >>= fun id =>
            .ok (-1, { vm with assertId := id }.raise vmEAssertFailed)
          else .ok (0, vm) := by
        simp only [opAssert2, bne_iff_ne]
      rw [handlerOf, hassert]
      exact test_noFault (fun v => avoids_ok _) hd rfl
  | call3 => exact call3_noFault host hd rfl
  | argv1 => exact argv1_noFault host
  | retv1 => exact retv1_noFault host
  | read8 | read16 | read32 | read64 => exact readMem_noFault host
  | write8 | write16 | write32 | write64 => exact writeMem_noFault host

/-! ## When the one check is enough -/

/-- The access `u` needs no check but the one of the decoder, or passes the check it needs: only
accesses to more than four bytes, and references so close to `2 ^ 32` that the sum in
`deref_mem_ptr` wraps around, can leave the memory. -/
def CheckSuffices (instn : Instn) (memsz : Nat) (u : Nat × Nat) : Prop :=
  ∀ ref, instn.args[u.1]? = some (.ptr ref) → 4 < u.2 ∨ 2 ^ 32 - 4 ≤ ref.toNat →
    ref.toNat + u.2 ≤ memsz

/-- For an operand of a decoded instruction nothing else can go wrong. -/
theorem inside_iff_checkSuffices {instn : Instn} {op : Op} {memsz : Nat}
    (hd : Decoded instn op memsz) (u : Nat × Nat) :
    Inside instn memsz u ↔ CheckSuffices instn memsz u := by
  constructor
  · intro h ref href _
    exact h ref href
  · intro h ref href
    by_cases hcase : 4 < u.2 ∨ 2 ^ 32 - 4 ≤ ref.toNat
    · exact h ref href hcase
    · have hc := hd.checked href
      rw [UInt32.toNat_add, show (4 : UInt32).toNat = 4 from rfl, Nat.mod_eq_of_lt (by omega)] at hc
      omega

/-- Guest memory isolation at one place of the code: an instruction that is accepted there makes
no access through a reference operand that leaves the memory. `cp` and `syscall` are not among
the handlers this is about. -/
def OperandsIsolated (T : InstnTable) (host : Host σ) (vm : Vm σ) (iptr : Nat) : Prop :=
  ∀ instn n op, decodeInstn T.entries vm.code vm.memory iptr = .ok (instn, n) →
    handlerAt T.entries (instn.code >>> 3) = .ok op → op ≠ .cp3 ∧ op ≠ .syscall3 →
    ∀ k, vmExecInstn T.entries host instn vm ≠ .error (.operand k)

/-- A machine that has just been loaded, with code to add a four-byte memory to itself. -/
def addVm : Vm Unit where
  code := ⟨[0x10, 0, 0, 0, 0, 0, 0, 0, 0, 0], by decide⟩
  memory := ⟨[0, 0, 0, 0], by decide⟩
  exceptions := 0
  procedures := [newProc 0]
  iptr := 0xffffffff
  instns := 0
  assertId := 0
  instnsSinceLastCleanup := 0
  host := ()

end BvgzVm
