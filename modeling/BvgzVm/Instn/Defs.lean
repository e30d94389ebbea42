import Mathlib.Tactic

set_option autoImplicit false

/-! # The instruction table

`instn.h`, `instn_defs.inc` and `setup_instn_defs` of `instn.c`. A handler is a function pointer
in the C table; here the pointers are the names `Op`, and `Instn/Handlers.lean` gives the
functions they point to.

The rows of the table are sorted by name with `qsort`, which leaves the order of equal names
open. `InstnTable` is the table after `setup_instn_defs`, for any order that `qsort` may produce.
-/

namespace BvgzVm

/-- `F_ALLOW_IMM_1st_Arg` -/
def fAllowImm1stArg : UInt32 := 0x1
/-- `F_1st_Arg_Code_Ref` -/
def f1stArgCodeRef : UInt32 := 0x2
/-- `F_Debug_Only_Instn` -/
def fDebugOnlyInstn : UInt32 := 0x4

/-- `instn_def_t`, over a type `H` of handlers. No instruction has more than three operands. -/
structure InstnDef (H : Type) where
  name : String
  opcode : Nat
  argCount : Nat
  flags : UInt32
  handler : H
  argCount_le : argCount ≤ 3
  deriving DecidableEq

/-- The handlers, by the name and the operand count of their instruction. -/
inductive Op
  | nop0 | add3 | add2 | sub3 | sub2 | mul3 | mul2 | div3 | div2 | mod3 | mod2
  | eq3 | ne3 | gt3 | lt3 | ge3 | le3
  | lAnd3 | lAnd2 | lOr3 | lOr2 | lNot2 | lNot1 | lBool2 | lBool1
  | and3 | and2 | or3 | or2 | xor3 | xor2 | not2 | not1 | shl3 | shl2 | shr3 | shr2
  | cp3 | read8 | read16 | read32 | read64 | write8 | write16 | write32 | write64
  | jmp1 | jtrue2 | jfalse2 | call3 | syscall3 | ret0 | argv1 | retv1 | assert2 | abrt1
  deriving DecidableEq, Repr

/-! ## `instn_defs.inc` -/

/-- `OP(x, n, f)`: a row before `setup_instn_defs`, with opcode `0`. -/
def opf (name : String) (n : Nat) (f : UInt32) (h : Op) (hn : n ≤ 3 := by decide) : InstnDef Op :=
  ⟨name, 0, n, f, h, hn⟩

/-- The rows in the order of `instn_defs.inc`. -/
def instnDefsInc : List (InstnDef Op) :=
  [opf "nop" 0 0 .nop0,
   opf "add" 3 0 .add3, opf "add" 2 0 .add2, opf "sub" 3 0 .sub3, opf "sub" 2 0 .sub2,
   opf "mul" 3 0 .mul3, opf "mul" 2 0 .mul2, opf "div" 3 0 .div3, opf "div" 2 0 .div2,
   opf "mod" 3 0 .mod3, opf "mod" 2 0 .mod2,
   opf "eq" 3 0 .eq3, opf "ne" 3 0 .ne3, opf "gt" 3 0 .gt3, opf "lt" 3 0 .lt3,
   opf "ge" 3 0 .ge3, opf "le" 3 0 .le3,
   opf "l_and" 3 0 .lAnd3, opf "l_and" 2 0 .lAnd2, opf "l_or" 3 0 .lOr3, opf "l_or" 2 0 .lOr2,
   opf "l_not" 2 0 .lNot2, opf "l_not" 1 0 .lNot1, opf "l_bool" 2 0 .lBool2,
   opf "l_bool" 1 0 .lBool1,
   opf "and" 3 0 .and3, opf "and" 2 0 .and2, opf "or" 3 0 .or3, opf "or" 2 0 .or2,
   opf "xor" 3 0 .xor3, opf "xor" 2 0 .xor2, opf "not" 2 0 .not2, opf "not" 1 0 .not1,
   opf "shl" 3 0 .shl3, opf "shl" 2 0 .shl2, opf "shr" 3 0 .shr3, opf "shr" 2 0 .shr2,
   opf "cp" 3 0 .cp3,
   opf "read8" 3 0 .read8, opf "read16" 3 0 .read16, opf "read32" 3 0 .read32,
   opf "read64" 3 0 .read64,
   opf "write8" 3 0 .write8, opf "write16" 3 0 .write16, opf "write32" 3 0 .write32,
   opf "write64" 3 0 .write64,
   opf "jmp" 1 (fAllowImm1stArg ||| f1stArgCodeRef) .jmp1,
   opf "jtrue" 2 (fAllowImm1stArg ||| f1stArgCodeRef) .jtrue2,
   opf "jfalse" 2 (fAllowImm1stArg ||| f1stArgCodeRef) .jfalse2,
   opf "call" 3 (fAllowImm1stArg ||| f1stArgCodeRef) .call3,
   opf "syscall" 3 fAllowImm1stArg .syscall3,
   opf "ret" 0 0 .ret0, opf "argv" 1 0 .argv1, opf "retv" 1 0 .retv1,
   opf "assert" 2 fDebugOnlyInstn .assert2, opf "abrt" 1 fAllowImm1stArg .abrt1]

/-! ## `setup_instn_defs` -/

/-- The last loop of `setup_instn_defs`; its counter is a `uint8_t`. -/
def assignOpcodes {H : Type} : Nat → List (InstnDef H) → List (InstnDef H)
  | _, [] => []
  | n, d :: t => { d with opcode := n } :: assignOpcodes ((n + 1) % 256) t

/-- The table `setup_instn_defs` leaves behind: a sorted permutation of `instn_defs.inc`, with
the position of each row as its opcode. -/
structure InstnTable where
  sorted : List (InstnDef Op)
  perm : sorted.Perm instnDefsInc
  ordered : sorted.Pairwise (fun a b => a.name ≤ b.name)

/-- `InstnDefs[0 .. nInstnDefs - 1]` -/
def InstnTable.entries (T : InstnTable) : List (InstnDef Op) := assignOpcodes 0 T.sorted

theorem length_assignOpcodes {H : Type} (n : Nat) (l : List (InstnDef H)) :
    (assignOpcodes n l).length = l.length := by
  induction l generalizing n with
  | nil => rfl
  | cons d t ih => rw [assignOpcodes, List.length_cons, List.length_cons, ih]

theorem getElem?_assignOpcodes {H : Type} (n : Nat) (l : List (InstnDef H)) (i : Nat)
    (hsmall : n + l.length ≤ 256) :
    (assignOpcodes n l)[i]? = l[i]?.map (fun d => { d with opcode := n + i }) := by
  induction l generalizing n i with
  | nil => rfl
  | cons d t ih =>
      rw [List.length_cons] at hsmall
      cases i with
      | zero => rfl
      | succ i =>
          cases t with
          | nil => rfl
          | cons d' t' =>
              have hmod : (n + 1) % 256 = n + 1 := by
                rw [List.length_cons] at hsmall
                omega
              rw [assignOpcodes, List.getElem?_cons_succ, List.getElem?_cons_succ, hmod,
                ih (n + 1) i (by omega), Nat.add_right_comm, Nat.add_assoc]

theorem InstnTable.length_entries (T : InstnTable) : T.entries.length = 56 := by
  rw [InstnTable.entries, length_assignOpcodes, T.perm.length_eq]
  rfl

/-- The opcode of a row is its position. -/
theorem InstnTable.opcode_eq (T : InstnTable) {i : Nat} {d : InstnDef Op}
    (h : T.entries[i]? = some d) : d.opcode = i := by
  have hlen : T.sorted.length = 56 := T.perm.length_eq
  rw [InstnTable.entries, getElem?_assignOpcodes 0 T.sorted i (by omega)] at h
  obtain ⟨d', -, rfl⟩ := Option.map_eq_some_iff.1 h
  exact Nat.zero_add i

/-- The row an opcode stands for is found at the opcode. -/
theorem InstnTable.getElem?_opcode (T : InstnTable) {d : InstnDef Op} (h : d ∈ T.entries) :
    T.entries[d.opcode]? = some d := by
  obtain ⟨i, hi⟩ := List.getElem?_of_mem h
  rw [T.opcode_eq hi, hi]

theorem InstnTable.opcode_lt (T : InstnTable) {d : InstnDef Op} (h : d ∈ T.entries) :
    d.opcode < 56 := by
  rw [← T.length_entries]
  exact (List.getElem?_eq_some_iff.1 (T.getElem?_opcode h)).1

/-- Every row of the table comes from a row of `instn_defs.inc`. -/
theorem InstnTable.mem_inc (T : InstnTable) {d : InstnDef Op} (h : d ∈ T.entries) :
    ∃ d' ∈ instnDefsInc, d = { d' with opcode := d.opcode } := by
  have hlen : T.sorted.length = 56 := T.perm.length_eq
  have hget := T.getElem?_opcode h
  rw [InstnTable.entries, getElem?_assignOpcodes 0 T.sorted d.opcode (by omega)] at hget
  obtain ⟨d', hd', heq⟩ := Option.map_eq_some_iff.1 hget
  refine ⟨d', T.perm.mem_iff.1 (List.mem_of_getElem? hd'), ?_⟩
  rw [← heq]

/-! ## A table in the order a stable sort gives -/

/-- `instn_defs.inc` sorted by name, equal names in their original order. -/
def stableOrder : List (InstnDef Op) :=
  instnDefsInc.foldr (fun d acc => acc.takeWhile (fun e => decide (e.name < d.name)) ++
    d :: acc.dropWhile (fun e => decide (e.name < d.name))) []

/-- The table a stable sorting routine produces. -/
def stableTable : InstnTable where
  sorted := stableOrder
  perm := by decide
  ordered := by decide

end BvgzVm
