import BvgzVm.Asm.Parser
import BvgzVm.Debug.Section
import BvgzVm.Lib.Except
import Mathlib.Data.List.TakeWhile

set_option autoImplicit false

/-! # The debug data

`mk_debug_data` of `bytecode_gen.c`: a line for every instruction and every data label, and the
strings of the files and labels the lines refer to. Three passes number the files and the labels:
one over the instructions, one over the files it met, and a visitor of the table of labels. They
agree exactly when all instructions are in the main file, no data label is in a file without
instructions, and no instruction has two labels (`PrsResult.DebugFit`).
-/

namespace BvgzVm

open CLib Fallible

variable {T : InstnTable}

/-- Why `mk_debug_data` does not return. -/
inductive DbgFault
  /-- the name of an included file is read, whose memory is gone -/
  | deadName
  /-- an access outside `code_lines` -/
  | codeLine
  /-- the array `filenames` is used or freed after `realloc` has freed it -/
  | freed
  /-- a string whose length is no `int`, or a string table of `2 ^ 32` bytes -/
  | strings
  deriving DecidableEq, Repr

/-! ## Files -/

/-- `filename_index`: the index of the pointer, and the pointers. -/
def filenameIndex (filename : FileName) (filenames : List FileName) : Nat × List FileName :=
  (filenames.idxOf filename,
    if filename ∈ filenames then filenames else filenames ++ [filename])

/-- The loop of `mk_debug_data` over the instructions. -/
def codeLinesOf : List (PrsInstn T) → List FileName → List DbgLineAssoc × List FileName
  | [], filenames => ([], filenames)
  | instn :: instns, filenames =>
      let (fileno, filenames) := filenameIndex instn.filename filenames
      let (lines, filenames) := codeLinesOf instns filenames
      (⟨instn.memOffset, UInt32.ofNat fileno, instn.lineno, -1⟩ :: lines, filenames)

/-- The bytes of a string up to its terminator. -/
def cBytes (s : CStr) : List UInt8 := (s.map (fun c => UInt8.ofNat c.toNat)).takeWhile (· ≠ 0)

/-- `strlen(s) + 1` -/
def strSize (s : CStr) : Nat := (cBytes s).length + 1

/-- A string is copied to the end of the table and its offset to the end of the offsets. The length
is an `int`, and `realloc` gets the new size as a `uint32_t`. -/
def addString (s : CStr) (table : List UInt8) (offsets : List UInt32) :
    Except DbgFault (List UInt8 × List UInt32) :=
  if 2 ^ 31 ≤ strSize s ∨ 2 ^ 32 ≤ table.length + strSize s then .error .strings
  else .ok (table ++ (cBytes s ++ [0]), offsets ++ [UInt32.ofNat table.length])

/-- The loop of `mk_debug_data` over the files. -/
def addFiles : List FileName → DebugT → Except DbgFault DebugT
  | [], dbg => .ok dbg
  | filename :: filenames, dbg =>
      if filename.depth ≠ 0 then .error .deadName
      else do
        let (stringTable, files) ← addString filename.path dbg.stringTable dbg.files
        addFiles filenames { dbg with stringTable, files }

/-! ## Labels -/

/-- `dbg_label_t`, and whether the array `filenames` has been freed. -/
structure DbgLabel where
  dbg : DebugT
  filenames : List FileName
  freed : Bool

/-- The line of the `n`-th label, a data label. -/
def memLineOf (filenames : List FileName) (label : Label) (n : Nat) : DbgLineAssoc where
  address := label.offset
  fileno := UInt32.ofNat (filenames.idxOf label.filename)
  lineno := label.lineno
  labelRef := (UInt32.ofNat n).toInt32

/-- `mk_label_debug_data` up to the strings. The visitor adds a new file to a copy of the pointer
and of the count: the array is reallocated, and the next label finds the old one. -/
def mkLabelLine (data : DbgLabel) (label : Label) : Except DbgFault DbgLabel :=
  let dbg := data.dbg
  let n := dbg.labels.length
  if label.isMemRef then
    if data.freed then .error .freed
    else .ok { data with
      dbg := { dbg with memLines := dbg.memLines ++ [memLineOf data.filenames label n] }
      freed := data.filenames ≠ [] && label.filename ∉ data.filenames }
  else match dbg.codeLines[label.offset.toNat]? with
    | none => .error .codeLine
    | some line => .ok { data with
        dbg := { dbg with
          codeLines := dbg.codeLines.set label.offset.toNat
            { line with labelRef := (UInt32.ofNat n).toInt32 } } }

/-- `mk_label_debug_data` -/
def mkLabelDebugData (data : DbgLabel) (lblName : CStr) (label : Label) :
    Except DbgFault DbgLabel := do
  let data ← mkLabelLine data label
  let (stringTable, labels) ← addString lblName data.dbg.stringTable data.dbg.labels
  .ok { data with dbg := { data.dbg with stringTable, labels } }

/-- `hmap_iterate` -/
def visitLabels : List (CStr × Label) → DbgLabel → Except DbgFault DbgLabel
  | [], data => .ok data
  | (lblName, label) :: es, data => do
      let data ← mkLabelDebugData data lblName label
      visitLabels es data

/-- An order in which `hmap_iterate` comes to the entries of a table: to each of them once. -/
structure VisitOrder (m : LabelMap) where
  entries : List (CStr × Label)
  nodup : (entries.map Prod.fst).Nodup
  mem_iff : ∀ k v, (k, v) ∈ entries ↔ m.get k = some v

/-! ## `mk_debug_data` -/

/-- `compare_dbg_lines` -/
def compareDbgLines (a b : DbgLineAssoc) : Int32 :=
  if a.fileno ≠ b.fileno then (a.fileno - b.fileno).toInt32 else (a.lineno - b.lineno).toInt32

/-- `qsort`: the lines, in another order. -/
structure Qsort where
  sort : (DbgLineAssoc → DbgLineAssoc → Int32) → List DbgLineAssoc → List DbgLineAssoc
  perm : ∀ compare l, (sort compare l).Perm l

/-- `mk_debug_data` -/
def mkDebugData (qsort : Qsort) (p : PrsResult T) (order : VisitOrder p.labels) :
    Except DbgFault DebugT := do
  let (codeLines, filenames) := codeLinesOf p.instns []
  let dbg ← addFiles filenames
    { files := [], labels := [], codeLines, memLines := [], stringTable := [] }
  let data ← visitLabels order.entries ⟨dbg, filenames, false⟩
  if data.freed then .error .freed -- `free(filenames)`
  else .ok { data.dbg with
    codeLines := qsort.sort compareDbgLines data.dbg.codeLines
    memLines := qsort.sort compareDbgLines data.dbg.memLines }

/-! ## Complete debug data -/

/-- The string of a file. -/
def DebugT.fileName (dbg : DebugT) (fileno : UInt32) : Option (List UInt8) := do
  let off ← dbg.files[fileno.toNat]?
  cstrAt dbg.stringTable off.toNat

/-- The string of the label a line refers to. -/
def DebugT.labelName (dbg : DebugT) (labelRef : Int32) : Option (List UInt8) :=
  if labelRef.toInt < 0 then none
  else do
    let off ← dbg.labels[labelRef.toInt.toNat]?
    cstrAt dbg.stringTable off.toNat

/-- The address of a label. -/
def PrsResult.labelAddress (p : PrsResult T) (label : Label) : Option UInt32 :=
  if label.isMemRef then some label.offset
  else (p.instns[label.offset.toNat]?).map PrsInstn.memOffset

/-- The debug data is well formed and has every line and every label of the parse. -/
structure DebugT.Complete (dbg : DebugT) (p : PrsResult T) : Prop where
  fileno_lt : ∀ ln ∈ dbg.codeLines ++ dbg.memLines, ln.fileno.toNat < dbg.files.length
  labelRef_lt : ∀ ln ∈ dbg.codeLines ++ dbg.memLines,
    ln.labelRef = -1 ∨ 0 ≤ ln.labelRef.toInt ∧ ln.labelRef.toInt < dbg.labels.length
  offset_lt : ∀ off ∈ dbg.files ++ dbg.labels, off.toNat < dbg.stringTable.length
  codeLines : (dbg.codeLines.map fun ln => (ln.address, dbg.fileName ln.fileno, ln.lineno)).Perm
    (p.instns.map fun i => (i.memOffset, some (cBytes i.filename.path), i.lineno))
  labels : ∀ k label, p.labels.get k = some label →
    ∃ ln ∈ if label.isMemRef then dbg.memLines else dbg.codeLines,
      some ln.address = p.labelAddress label ∧ dbg.labelName ln.labelRef = some (cBytes k)

/-- The files of the instructions, each once, in the order in which they come first. -/
def PrsResult.codeFiles (p : PrsResult T) : List FileName := (codeLinesOf p.instns []).2

/-- The strings of the files and of the labels. -/
def PrsResult.debugStrings (p : PrsResult T) (order : VisitOrder p.labels) : List CStr :=
  p.codeFiles.map FileName.path ++ order.entries.map Prod.fst

/-- The inputs on which the passes of `mk_debug_data` agree. -/
structure PrsResult.DebugFit (p : PrsResult T) (order : VisitOrder p.labels) : Prop where
  mainFile : ∀ i ∈ p.instns, i.filename.depth = 0
  dataFiles : ∀ k label, p.labels.get k = some label → label.isMemRef = true →
    ∃ i ∈ p.instns, i.filename = label.filename
  oneLabel : ∀ k k' label label', p.labels.get k = some label → p.labels.get k' = some label' →
    label.isMemRef = false → label'.isMemRef = false → label.offset = label'.offset → k = k'
  strings : ∀ s ∈ p.debugStrings order, strSize s < 2 ^ 31
  table : ((p.debugStrings order).map strSize).sum < 2 ^ 32
  count : order.entries.length ≤ 2 ^ 31

/-! ## The passes over the instructions and the files -/

/-- The line of an instruction. -/
def codeLineOf (filenames : List FileName) (i : PrsInstn T) : DbgLineAssoc where
  address := i.memOffset
  fileno := UInt32.ofNat (filenames.idxOf i.filename)
  lineno := i.lineno
  labelRef := -1

/-- The index is that in the names after the call, of which at most the name itself is new. -/
theorem filenameIndex_eq (filename : FileName) (filenames : List FileName) :
    ∃ new, filenameIndex filename filenames =
        ((filenames ++ new).idxOf filename, filenames ++ new) ∧
      filename ∈ filenames ++ new ∧ (∀ f ∈ new, f = filename) ∧ new.length ≤ 1 := by
  unfold filenameIndex
  by_cases hmem : filename ∈ filenames
  · exact ⟨[], by simp [hmem], by simp [hmem], by simp, by simp⟩
  · refine ⟨[filename], ?_, by simp, by simp, by simp⟩
    rw [if_neg hmem, List.idxOf_append_of_notMem hmem]
    simp [List.idxOf_eq_length hmem]

/-- **The pass over the instructions** makes a line for each of them, with the index of its file
among all files it finds. -/
theorem codeLinesOf_spec (instns : List (PrsInstn T)) (filenames : List FileName) :
    ∃ ext, (codeLinesOf instns filenames).2 = filenames ++ ext ∧
      (codeLinesOf instns filenames).1 = instns.map (codeLineOf (filenames ++ ext)) ∧
      (∀ f, f ∈ filenames ++ ext ↔ f ∈ filenames ∨ ∃ i ∈ instns, i.filename = f) ∧
      ext.length ≤ instns.length := by
  induction instns generalizing filenames with
  | nil => exact ⟨[], by simp [codeLinesOf]⟩
  | cons i is ih =>
      rcases filenameIndex_eq i.filename filenames with ⟨new, hindex, hmem, honly, hnew⟩
      rcases ih (filenames ++ new) with ⟨ext, hnames, hlines, hiff, hlen⟩
      have hcons : codeLinesOf (i :: is) filenames =
          (codeLineOf (filenames ++ new) i :: (codeLinesOf is (filenames ++ new)).1,
            (codeLinesOf is (filenames ++ new)).2) := by
        rw [codeLinesOf, hindex]
        rfl
      refine ⟨new ++ ext, ?_, ?_, ?_, ?_⟩
      · rw [hcons, ← List.append_assoc, ← hnames]
      · -- the index does not change when further names are added
        have hidx : (filenames ++ new ++ ext).idxOf i.filename =
            (filenames ++ new).idxOf i.filename := List.idxOf_append_of_mem hmem
        rw [hcons, List.map_cons, ← List.append_assoc, ← hlines, codeLineOf, codeLineOf, hidx]
      · intro f
        rw [← List.append_assoc, hiff, List.mem_append]
        constructor
        · rintro ((hf | hf) | ⟨i', hi', rfl⟩)
          · exact Or.inl hf
          · exact Or.inr ⟨i, List.mem_cons_self, (honly f hf).symm⟩
          · exact Or.inr ⟨i', List.mem_cons_of_mem _ hi', rfl⟩
        · rintro (hf | ⟨i', hi', rfl⟩)
          · exact Or.inl (Or.inl hf)
          · rcases List.mem_cons.1 hi' with rfl | hi'
            · exact Or.inl (List.mem_append.1 hmem)
            · exact Or.inr ⟨i', hi', rfl⟩
      · rw [List.length_append, List.length_cons]
        omega

section Files

variable (p : PrsResult T)

theorem codeLinesOf_eq : codeLinesOf p.instns [] =
    (p.instns.map (codeLineOf p.codeFiles), p.codeFiles) := by
  rcases codeLinesOf_spec p.instns [] with ⟨ext, hnames, hlines, -, -⟩
  have hfiles : p.codeFiles = [] ++ ext := hnames
  rw [hfiles, ← hlines, ← hnames]

theorem mem_codeFiles (f : FileName) : f ∈ p.codeFiles ↔ ∃ i ∈ p.instns, i.filename = f := by
  rcases codeLinesOf_spec p.instns [] with ⟨ext, hnames, -, hiff, -⟩
  have hfiles : p.codeFiles = [] ++ ext := hnames
  rw [hfiles, hiff]
  simp

theorem length_codeFiles_le : p.codeFiles.length ≤ p.nInstns := by
  rcases codeLinesOf_spec p.instns [] with ⟨ext, hnames, -, -, hlen⟩
  have hfiles : p.codeFiles = [] ++ ext := hnames
  rw [hfiles, List.nil_append]
  exact hlen

end Files

/-! ## The string table -/

/-- The table has these strings at these offsets. -/
def StringsAt (table : List UInt8) (offsets : List UInt32) (names : List CStr) : Prop :=
  List.Forall₂ (fun off s => cstrAt table off.toNat = some (cBytes s)) offsets names

theorem cstrAt_lt {table s : List UInt8} {off : Nat} (h : cstrAt table off = some s) :
    off < table.length := by
  by_contra hle
  rw [cstrAt, List.drop_of_length_le (by omega)] at h
  simp at h

/-- A longer table has the same strings. -/
theorem cstrAt_extend {table s : List UInt8} {off : Nat} (h : cstrAt table off = some s)
    (more : List UInt8) : cstrAt (table ++ more) off = some s := by
  have hoff : off ≤ table.length := (cstrAt_lt h).le
  unfold cstrAt at h ⊢
  split at h
  · next hnul =>
      rw [List.drop_append_of_le_length hoff, if_pos (List.mem_append_left _ hnul), ← h]
      -- the terminator is before the end of the shorter table
      rw [List.takeWhile_append, if_neg]
      intro hall
      have hall' : (table.drop off).takeWhile (· ≠ 0) = table.drop off :=
        (List.takeWhile_prefix _).eq_of_length hall
      have hne := List.mem_takeWhile_imp (hall'.symm ▸ hnul)
      simp at hne
  · cases h

theorem cstrAt_length (table : List UInt8) (s : CStr) :
    cstrAt (table ++ (cBytes s ++ [0])) table.length = some (cBytes s) := by
  have hcut := cstrAt_append table (cBytes s ++ [0]) 0
  rw [Nat.add_zero] at hcut
  have hne : ∀ b ∈ cBytes s, decide (b ≠ 0) = true := by
    intro b hb
    exact List.mem_takeWhile_imp (p := fun b => decide (b ≠ 0)) hb
  rw [hcut, cstrAt, List.drop_zero, if_pos (by simp),
    List.takeWhile_append_of_pos hne]
  simp

theorem StringsAt.extend {table : List UInt8} {offsets : List UInt32} {names : List CStr}
    (h : StringsAt table offsets names) (more : List UInt8) :
    StringsAt (table ++ more) offsets names :=
  h.imp fun _ _ hstr => cstrAt_extend hstr more

/-- **A string is added** without a fault exactly when its size and that of the table are in
range. -/
theorem addString_eq_ok {s : CStr} {table table' : List UInt8} {offsets offsets' : List UInt32} :
    addString s table offsets = .ok (table', offsets') ↔
      (strSize s < 2 ^ 31 ∧ table.length + strSize s < 2 ^ 32) ∧
      table' = table ++ (cBytes s ++ [0]) ∧ offsets' = offsets ++ [UInt32.ofNat table.length] := by
  unfold addString
  split
  · next hbig =>
      constructor
      · intro h
        cases h
      · rintro ⟨hsmall, -⟩
        omega
  · next hsmall =>
      rw [Except.ok.injEq, Prod.mk.injEq]
      constructor
      · rintro ⟨rfl, rfl⟩
        exact ⟨by omega, rfl, rfl⟩
      · rintro ⟨-, rfl, rfl⟩
        exact ⟨rfl, rfl⟩

theorem StringsAt.addString {s : CStr} {table table' : List UInt8}
    {offsets offsets' : List UInt32} {names : List CStr} (h : StringsAt table offsets names)
    (hadd : addString s table offsets = .ok (table', offsets')) :
    StringsAt table' offsets' (names ++ [s]) ∧
      table'.length = table.length + strSize s ∧ table'.length < 2 ^ 32 := by
  rcases addString_eq_ok.1 hadd with ⟨⟨-, htable⟩, rfl, rfl⟩
  have hlength : (table ++ (cBytes s ++ [0])).length = table.length + strSize s := by
    simp [strSize]
  have hoff : (UInt32.ofNat table.length).toNat = table.length := UInt32.toNat_ofNat_of_lt' (by
    show table.length < 2 ^ 32
    omega)
  refine ⟨List.rel_append (h.extend _) (List.Forall₂.cons ?_ List.Forall₂.nil), hlength, by omega⟩
  rw [hoff]
  exact cstrAt_length table s

/-- **The pass over the files** puts their names into the table. -/
theorem addFiles_eq_ok {filenames : List FileName} (dbg : DebugT) {names : List CStr}
    (hdbg : StringsAt dbg.stringTable dbg.files names) (hlt : dbg.stringTable.length < 2 ^ 32) :
    (∀ dbg', addFiles filenames dbg = .ok dbg' →
      (∀ f ∈ filenames, f.depth = 0 ∧ strSize f.path < 2 ^ 31) ∧
      dbg' = { dbg with files := dbg'.files, stringTable := dbg'.stringTable } ∧
      StringsAt dbg'.stringTable dbg'.files (names ++ filenames.map FileName.path) ∧
      dbg'.stringTable.length = dbg.stringTable.length +
        ((filenames.map FileName.path).map strSize).sum ∧
      dbg'.stringTable.length < 2 ^ 32) ∧
    ((∀ f ∈ filenames, f.depth = 0 ∧ strSize f.path < 2 ^ 31) →
      dbg.stringTable.length + ((filenames.map FileName.path).map strSize).sum < 2 ^ 32 →
      ∃ dbg', addFiles filenames dbg = .ok dbg') := by
  induction filenames generalizing dbg names with
  | nil =>
      refine ⟨?_, fun _ _ => ⟨dbg, rfl⟩⟩
      intro dbg' h
      obtain rfl := Except.ok.inj h
      simpa using ⟨hdbg, hlt⟩
  | cons f fs ih =>
      constructor
      · intro dbg' h
        rw [addFiles] at h
        split at h
        · cases h
        · next hdepth =>
            rcases bind_eq_ok.1 h with ⟨⟨table, offsets⟩, hadd, hrest⟩
            have hsmall := (addString_eq_ok.1 hadd).1.1
            rcases hdbg.addString hadd with ⟨hstrings, hlength, hlt'⟩
            rcases (ih { dbg with stringTable := table, files := offsets } hstrings
              hlt').1 dbg' hrest with ⟨hfs, hsame, hstrings', hlength', htable⟩
            refine ⟨?_, hsame, ?_, ?_, htable⟩
            · intro f' hf'
              rcases List.mem_cons.1 hf' with rfl | hf'
              · exact ⟨not_not.1 hdepth, hsmall⟩
              · exact hfs f' hf'
            · rw [List.map_cons, List.append_cons]
              exact hstrings'
            · rw [hlength', List.map_cons, List.map_cons, List.sum_cons]
              show table.length + _ = _
              omega
      · intro hfs hsum
        rw [List.map_cons, List.map_cons, List.sum_cons] at hsum
        rcases hfs f List.mem_cons_self with ⟨hdepth, hsmall⟩
        have hadd : addString f.path dbg.stringTable dbg.files = .ok (_, _) :=
          addString_eq_ok.2 ⟨⟨hsmall, by omega⟩, rfl, rfl⟩
        rw [addFiles, if_neg (not_not.2 hdepth), hadd, ok_bind]
        rcases hdbg.addString hadd with ⟨hstrings, hlength, hlt'⟩
        refine (ih _ hstrings hlt').2 (fun f' hf' => hfs f' (List.mem_cons_of_mem _ hf')) ?_
        rw [hlength]
        omega

end BvgzVm
