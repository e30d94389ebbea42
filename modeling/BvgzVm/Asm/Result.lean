import BvgzVm.Instn.Defs
import BvgzVm.Lib.CString

set_option autoImplicit false

/-! # The result of parsing an assembly file

The structures of `parser.h`. The hash tables of labels are finite maps. The operands of an
instruction belong to a row of the instruction table: `PrsInstn` carries the row, that it is one
of the table, and that it has as many operands as the row says.
-/

namespace BvgzVm

open CLib

/-- A file name in the parser: a pointer and the text behind it. At depth `0` it points to the
argument of `parse_asm`; at depth `d + 1` to `filepath` in the frame of a `%include` in a file of
depth `d`, which is gone once that file has been read. -/
structure FileName where
  depth : Nat
  path : CStr
  deriving DecidableEq, Repr

/-! ## Operands -/

/-- The sizes of an immediate: `n_bytes` of a `T_ARG_IMM`. -/
inductive ImmWidth
  | w1 | w2 | w4 | w8
  deriving DecidableEq, Repr

def ImmWidth.bytes : ImmWidth → Nat
  | .w1 => 1
  | .w2 => 2
  | .w4 => 4
  | .w8 => 8

/-- `prs_arg_t`, by its type. An immediate fits in its width; the other operands take 4 bytes. -/
inductive PrsArg
  /-- `T_ARG_IMM` -/
  | imm (w : ImmWidth) (value : UInt64) (fits : value.toNat < 256 ^ w.bytes)
  /-- `T_ARG_REF_NUM` -/
  | refNum (value : UInt64)
  /-- `T_ARG_REF_LBL` -/
  | refLbl (label : CStr)
  /-- `T_ARG_IMM_LBL` -/
  | immLbl (label : CStr)
  deriving DecidableEq, Repr

/-- `n_bytes` -/
def PrsArg.nBytes : PrsArg → Nat
  | .imm w _ _ => w.bytes
  | .refNum _ | .refLbl _ | .immLbl _ => 4

/-- The type is `T_ARG_IMM` or `T_ARG_IMM_LBL`. -/
def PrsArg.isImm : PrsArg → Bool
  | .imm _ _ _ | .immLbl _ => true
  | .refNum _ | .refLbl _ => false

/-- `data.label` -/
def PrsArg.label? : PrsArg → Option CStr
  | .refLbl l | .immLbl l => some l
  | .imm _ _ _ | .refNum _ => none

/-! ## Instructions -/

/-- `(uint32_t)-1`, the `mem_offset` of an instruction that has no address yet -/
def noOffset : UInt32 := 0xffffffff

/-- `prs_instn_t` -/
structure PrsInstn (T : InstnTable) where
  filename : FileName
  lineno : UInt32
  instn : InstnDef Op
  args : List PrsArg
  memOffset : UInt32
  mem_entries : instn ∈ T.entries
  length_args : args.length = instn.argCount
  deriving DecidableEq

variable {T : InstnTable}

/-- The instruction with an address. -/
def PrsInstn.setOffset (i : PrsInstn T) (o : UInt32) : PrsInstn T := { i with memOffset := o }

@[simp] theorem PrsInstn.setOffset_memOffset (i : PrsInstn T) (o : UInt32) :
    (i.setOffset o).memOffset = o := rfl
@[simp] theorem PrsInstn.setOffset_instn (i : PrsInstn T) (o : UInt32) :
    (i.setOffset o).instn = i.instn := rfl
@[simp] theorem PrsInstn.setOffset_args (i : PrsInstn T) (o : UInt32) :
    (i.setOffset o).args = i.args := rfl
@[simp] theorem PrsInstn.setOffset_setOffset (i : PrsInstn T) (o o' : UInt32) :
    (i.setOffset o).setOffset o' = i.setOffset o' := rfl

theorem PrsInstn.length_args_le (i : PrsInstn T) : i.args.length ≤ 3 := by
  rw [i.length_args]
  exact i.instn.argCount_le

/-- The instruction has a label operand with this label. -/
def PrsInstn.mentions (i : PrsInstn T) (l : CStr) : Prop := ∃ a ∈ i.args, a.label? = some l

/-! ## Labels -/

/-- `label_t`. `offset` is a memory address or the index of an instruction. -/
structure Label where
  filename : FileName
  lineno : UInt32
  offset : UInt32
  isMemRef : Bool
  deriving DecidableEq, Repr

/-- A hash table from strings to labels, as a map. -/
abbrev LabelMap := List (CStr × Label)

/-- `hmap_get` -/
def LabelMap.get (m : LabelMap) (k : CStr) : Option Label := m.lookup k

/-- `hmap_put`, which replaces the value of a key that is there. -/
def LabelMap.put (m : LabelMap) (k : CStr) (v : Label) : LabelMap :=
  (k, v) :: m.filter (fun e => e.1 ≠ k)

/-- Dropping the entries of `k` keeps the other keys. -/
theorem LabelMap.get_filter_ne (m : LabelMap) {k k' : CStr} (h : k' ≠ k) :
    List.lookup k' (m.filter (fun e => e.1 ≠ k)) = m.get k' := by
  unfold LabelMap.get
  induction m with
  | nil => rfl
  | cons e t ih =>
      rw [List.lookup_cons]
      by_cases he : e.1 = k
      · rw [List.filter_cons_of_neg (by simpa using he), he, beq_eq_false_iff_ne.2 h]
        exact ih
      · rw [List.filter_cons_of_pos (by simpa using he), List.lookup_cons, ih]

theorem LabelMap.get_put (m : LabelMap) (k k' : CStr) (v : Label) :
    (m.put k v).get k' = if k' = k then some v else m.get k' := by
  have hget : (m.put k v).get k' = List.lookup k' ((k, v) :: m.filter (fun e => e.1 ≠ k)) := rfl
  rw [hget, List.lookup_cons]
  by_cases h : k' = k
  · rw [if_pos h, h, beq_self_eq_true]
  · rw [if_neg h, beq_eq_false_iff_ne.2 h]
    exact m.get_filter_ne h

theorem LabelMap.mem_of_get {m : LabelMap} {k : CStr} {v : Label} (h : m.get k = some v) :
    (k, v) ∈ m := by
  unfold LabelMap.get at h
  induction m with
  | nil => simp at h
  | cons e t ih =>
      rw [List.lookup_cons] at h
      by_cases hk : k = e.1
      · rw [hk, beq_self_eq_true] at h
        rw [hk, ← Option.some.inj h]
        exact List.mem_cons_self
      · rw [beq_eq_false_iff_ne.2 hk] at h
        exact List.mem_cons_of_mem _ (ih h)

/-- `label_ref_t`: a cell in the data that gets the address of a label. -/
structure LabelRef where
  filename : FileName
  lineno : UInt32
  label : CStr
  size : UInt32
  writeOffset : UInt32
  deriving DecidableEq, Repr

/-! ## The whole result -/

/-- `P_ERROR`, `P_WARN` -/
inductive ReportKind
  | error | warn
  deriving DecidableEq, Repr

/-- A line that `report` prints. -/
structure Report where
  kind : ReportKind
  source : CStr
  line : UInt32
  message : CStr
  deriving DecidableEq, Repr

/-- The memory area of `prs_result_t`: the allocated block, the bytes in use and the size of the
allocation. -/
structure DataArea where
  memory : List UInt8
  memsz : UInt32
  memAlloc : UInt32
  deriving DecidableEq, Repr

/-- `prs_result_t`, with the reports that were made. -/
structure PrsResult (T : InstnTable) extends DataArea where
  nFiles : UInt32
  reports : List Report
  instns : List (PrsInstn T)
  labels : LabelMap
  labelRefs : List LabelRef
  deriving DecidableEq

/-- `errors` -/
def PrsResult.errors (p : PrsResult T) : Nat := p.reports.countP (fun r => r.kind = .error)

/-- `warnings` -/
def PrsResult.warnings (p : PrsResult T) : Nat := p.reports.countP (fun r => r.kind = .warn)

/-- `n_instns` -/
def PrsResult.nInstns (p : PrsResult T) : Nat := p.instns.length

/-- What `parse_asm` hands over when it found no error: no instruction has an address yet, the
labels of the operands are defined, a code label counts the instructions before it, and there are
less than `2 ^ 32` of them. -/
structure PrsResult.ErrorFree (p : PrsResult T) : Prop where
  errors : p.errors = 0
  fresh : ∀ i ∈ p.instns, i.memOffset = noOffset
  defined : ∀ i ∈ p.instns, ∀ k, i.mentions k → ∃ label, p.labels.get k = some label
  codeLabels : ∀ k label, p.labels.get k = some label → label.isMemRef = false →
    label.offset.toNat ≤ p.nInstns
  nInstns_lt : p.nInstns < 2 ^ 32

end BvgzVm
