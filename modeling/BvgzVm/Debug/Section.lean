import BvgzVm.Vm.Image

set_option autoImplicit false

/-! # The debug section of an image

`write_bvgz_image_debug` of `bytecode_gen.c`, `read_bvgz_debug_data` of `bytecode.c` and the
macros `DBG_CODE_LINE` to `DBG_FILE` of `bytecode.h`. The writer puts out five counts and five
sections one by one; the reader loads everything behind the counts as one block, in which the
macros find the sections by arithmetic with the counts (`debugSection_roundTrip`).
-/

namespace BvgzVm

open Bytes

/-! ## The data -/

/-- `dbg_line_assoc_t` -/
structure DbgLineAssoc where
  address : UInt32
  fileno : UInt32
  lineno : UInt32
  labelRef : Int32
  deriving DecidableEq

/-- `debug_t`. The counts are the lengths of the lists. -/
structure DebugT where
  files : List UInt32
  labels : List UInt32
  codeLines : List DbgLineAssoc
  memLines : List DbgLineAssoc
  stringTable : List UInt8
  deriving DecidableEq

/-- The bytes of a `uint32_t`. -/
def encodeU32 (n : UInt32) : List UInt8 := toLE 4 n.toNat

/-- The bytes of a `dbg_line_assoc_t`. -/
def DbgLineAssoc.encode (ln : DbgLineAssoc) : List UInt8 :=
  encodeU32 ln.address ++ (encodeU32 ln.fileno ++ (encodeU32 ln.lineno ++
    encodeU32 ln.labelRef.toUInt32))

/-- `sizeof(dbg_line_assoc_t)` -/
def dbgLineSize : Nat := 16

/-! ## Writing -/

/-- A count, as a `uint32_t`. -/
def encodeCount (n : Nat) : List UInt8 := encodeU32 (UInt32.ofNat n)

/-- The counts in front of the sections. -/
def DebugT.header (dbg : DebugT) : List UInt8 :=
  encodeCount dbg.codeLines.length ++ (encodeCount dbg.memLines.length ++
    (encodeCount dbg.labels.length ++ (encodeCount dbg.files.length ++
      encodeCount dbg.stringTable.length)))

/-- The sections. -/
def DebugT.sections (dbg : DebugT) : List UInt8 :=
  dbg.codeLines.flatMap DbgLineAssoc.encode ++ (dbg.memLines.flatMap DbgLineAssoc.encode ++
    (dbg.labels.flatMap encodeU32 ++ (dbg.files.flatMap encodeU32 ++ dbg.stringTable)))

/-- The writes of `write_bvgz_image_debug`, on a stream that takes everything; `none` is the
result `-1`. No lines, labels or files are fine, but an `fwrite` of a string table of no bytes
reports no item written. -/
def writeDebugT (dbg : DebugT) : Option (List UInt8) :=
  if dbg.stringTable.length = 0 then none else some (dbg.header ++ dbg.sections)

/-! ## Reading -/

/-- `vm_debug_data_t`: the counts and the block behind them. -/
structure VmDebugData where
  nCodeLines : UInt32
  nMemLines : UInt32
  nLabels : UInt32
  nFiles : UInt32
  strtabSz : UInt32
  data : List UInt8

/-- `rest_size`: the sums of two counts are 32-bit numbers, and so is the result. -/
def restSize (nCodeLines nMemLines nLabels nFiles strtabSz : UInt32) : Nat :=
  (dbgLineSize * (nCodeLines + nMemLines).toNat + 4 * (nLabels + nFiles).toNat +
    strtabSz.toNat) % 2 ^ 32

/-- `read_bvgz_debug_data`; `none` is `NULL`. An `fread` of no bytes reports no item read. -/
def readBvgzDebugData (fp : List UInt8) : Option (VmDebugData × List UInt8) := do
  let (nCodeLines, fp) ← freadNum 4 fp
  let (nMemLines, fp) ← freadNum 4 fp
  let (nLabels, fp) ← freadNum 4 fp
  let (nFiles, fp) ← freadNum 4 fp
  let (strtabSz, fp) ← freadNum 4 fp
  let rest := restSize (UInt32.ofNat nCodeLines) (UInt32.ofNat nMemLines) (UInt32.ofNat nLabels)
    (UInt32.ofNat nFiles) (UInt32.ofNat strtabSz)
  if rest = 0 then none
  else do
    let (data, fp) ← fread rest fp
    some (⟨UInt32.ofNat nCodeLines, UInt32.ofNat nMemLines, UInt32.ofNat nLabels,
      UInt32.ofNat nFiles, UInt32.ofNat strtabSz, data⟩, fp)

/-! ## The macros

Their results are offsets into the block; reading there gives `none` outside of it. -/

/-- A `uint32_t` in the block. -/
def readU32 (data : List UInt8) (off : Nat) : Option UInt32 := (load data off 4).map UInt32.ofNat

/-- A `dbg_line_assoc_t` in the block. -/
def readLine (data : List UInt8) (off : Nat) : Option DbgLineAssoc := do
  let address ← readU32 data off
  let fileno ← readU32 data (off + 4)
  let lineno ← readU32 data (off + 8)
  let labelRef ← readU32 data (off + 12)
  some ⟨address, fileno, lineno, labelRef.toInt32⟩

/-- The NUL-terminated string at `off`, without the terminator. -/
def cstrAt (bytes : List UInt8) (off : Nat) : Option (List UInt8) :=
  if 0 ∈ bytes.drop off then some ((bytes.drop off).takeWhile (· ≠ 0)) else none

/-- `DBG_CODE_LINE` -/
def dbgCodeLine (dbg : VmDebugData) (n : UInt32) : Option DbgLineAssoc :=
  readLine dbg.data (dbgLineSize * n.toNat)

/-- `DBG_MEM_LINE` -/
def dbgMemLine (dbg : VmDebugData) (n : UInt32) : Option DbgLineAssoc :=
  readLine dbg.data (dbgLineSize * (dbg.nCodeLines + n).toNat)

/-- `DBG_LABEL_OFFSET` -/
def dbgLabelOffset (dbg : VmDebugData) (n : UInt32) : Option UInt32 :=
  readU32 dbg.data (dbgLineSize * (dbg.nCodeLines + dbg.nMemLines).toNat + 4 * n.toNat)

/-- `DBG_FILE_OFFSET` -/
def dbgFileOffset (dbg : VmDebugData) (n : UInt32) : Option UInt32 :=
  readU32 dbg.data
    (dbgLineSize * (dbg.nCodeLines + dbg.nMemLines).toNat + 4 * (dbg.nLabels + n).toNat)

/-- `DBG_STRTAB_OFFSET` -/
def dbgStrtabOffset (dbg : VmDebugData) : Nat :=
  dbgLineSize * (dbg.nCodeLines + dbg.nMemLines).toNat + 4 * (dbg.nLabels + dbg.nFiles).toNat

/-- The string at `DBG_LABEL`. -/
def dbgLabel (dbg : VmDebugData) (n : UInt32) : Option (List UInt8) := do
  let off ← dbgLabelOffset dbg n
  cstrAt dbg.data (dbgStrtabOffset dbg + off.toNat)

/-- The string at `DBG_FILE`. -/
def dbgFile (dbg : VmDebugData) (n : UInt32) : Option (List UInt8) := do
  let off ← dbgFileOffset dbg n
  cstrAt dbg.data (dbgStrtabOffset dbg + off.toNat)

/-! ## Reading what was written -/

/-- The bytes of the sections. -/
def DebugT.size (dbg : DebugT) : Nat :=
  dbgLineSize * (dbg.codeLines.length + dbg.memLines.length) +
    4 * (dbg.labels.length + dbg.files.length) + dbg.stringTable.length

@[simp] theorem length_encodeU32 (n : UInt32) : (encodeU32 n).length = 4 := length_toLE 4 _

@[simp] theorem length_encodeLine (ln : DbgLineAssoc) : ln.encode.length = dbgLineSize := by
  simp [DbgLineAssoc.encode, dbgLineSize]

theorem length_sections (dbg : DebugT) : dbg.sections.length = dbg.size := by
  simp only [DebugT.sections, List.length_append, length_records length_encodeLine,
    length_records length_encodeU32, DebugT.size, dbgLineSize]
  omega

theorem readU32_append (n : UInt32) (pre post : List UInt8) :
    readU32 (pre ++ (encodeU32 n ++ post)) pre.length = some n := by
  rw [readU32, encodeU32, load_append_toLE (by exact n.toNat_lt), Option.map_some,
    UInt32.ofNat_toNat]

/-- A number is read back where it stands. -/
theorem readU32_of_read {data : List UInt8} {off : Nat} {n : UInt32}
    (h : read data off 4 = some (encodeU32 n)) : readU32 data off = some n := by
  rcases read_split h with ⟨pre, post, rfl, rfl⟩
  exact readU32_append n pre post

/-- A line is read back where it stands. -/
theorem readLine_of_read {data : List UInt8} {off : Nat} {ln : DbgLineAssoc}
    (h : read data off dbgLineSize = some ln.encode) : readLine data off = some ln := by
  rcases read_split h with ⟨pre, post, rfl, rfl⟩
  -- the block, cut in front of each field
  have haddress : readU32 (pre ++ (ln.encode ++ post)) pre.length = some ln.address := by
    rw [DbgLineAssoc.encode, List.append_assoc]
    exact readU32_append ln.address pre _
  have hfileno : readU32 (pre ++ (ln.encode ++ post)) (pre.length + 4) = some ln.fileno := by
    have hread := readU32_append ln.fileno (pre ++ encodeU32 ln.address)
      (encodeU32 ln.lineno ++ (encodeU32 ln.labelRef.toUInt32 ++ post))
    simpa only [DbgLineAssoc.encode, List.append_assoc, List.length_append, length_encodeU32]
      using hread
  have hlineno : readU32 (pre ++ (ln.encode ++ post)) (pre.length + 8) = some ln.lineno := by
    have hread := readU32_append ln.lineno
      (pre ++ (encodeU32 ln.address ++ encodeU32 ln.fileno))
      (encodeU32 ln.labelRef.toUInt32 ++ post)
    simpa only [DbgLineAssoc.encode, List.append_assoc, List.length_append, length_encodeU32]
      using hread
  have hlabelRef : readU32 (pre ++ (ln.encode ++ post)) (pre.length + 12) =
      some ln.labelRef.toUInt32 := by
    have hread := readU32_append ln.labelRef.toUInt32
      (pre ++ (encodeU32 ln.address ++ (encodeU32 ln.fileno ++ encodeU32 ln.lineno))) post
    simpa only [DbgLineAssoc.encode, List.append_assoc, List.length_append, length_encodeU32]
      using hread
  rw [readLine, haddress, hfileno, hlineno, hlabelRef]
  rfl

/-- A string at the end of the block is the string of the table. -/
theorem cstrAt_append (pre bytes : List UInt8) (off : Nat) :
    cstrAt (pre ++ bytes) (pre.length + off) = cstrAt bytes off := by
  rw [cstrAt, List.drop_append, List.drop_of_length_le (Nat.le_add_right _ _),
    Nat.add_sub_cancel_left, List.nil_append, cstrAt]

/-- The block that is read back. -/
def DebugT.loaded (dbg : DebugT) : VmDebugData where
  nCodeLines := UInt32.ofNat dbg.codeLines.length
  nMemLines := UInt32.ofNat dbg.memLines.length
  nLabels := UInt32.ofNat dbg.labels.length
  nFiles := UInt32.ofNat dbg.files.length
  strtabSz := UInt32.ofNat dbg.stringTable.length
  data := dbg.sections

section Loaded

variable {dbg : DebugT} (hsize : dbg.size < 2 ^ 32)

include hsize

/-- Nothing wraps around: the counts and their sums are below `2 ^ 32`. -/
theorem toNat_ofNat_add {a b : Nat} (h : a + b ≤ dbg.size) :
    (UInt32.ofNat a + UInt32.ofNat b).toNat = a + b := by
  rw [UInt32.toNat_add, UInt32.toNat_ofNat', UInt32.toNat_ofNat']
  omega

theorem lines_add : (UInt32.ofNat dbg.codeLines.length + UInt32.ofNat dbg.memLines.length).toNat =
    dbg.codeLines.length + dbg.memLines.length := by
  apply toNat_ofNat_add hsize
  unfold DebugT.size dbgLineSize
  omega

theorem refs_add : (UInt32.ofNat dbg.labels.length + UInt32.ofNat dbg.files.length).toNat =
    dbg.labels.length + dbg.files.length := by
  apply toNat_ofNat_add hsize
  unfold DebugT.size
  omega

/-- **The block is read back** and what follows it is left. -/
theorem readBvgzDebugData_write (hstr : dbg.stringTable ≠ []) (suffix : List UInt8) :
    readBvgzDebugData (dbg.header ++ dbg.sections ++ suffix) = some (dbg.loaded, suffix) := by
  have hpos : 0 < dbg.stringTable.length := List.length_pos_iff.2 hstr
  have hnum (n : Nat) (hn : n ≤ dbg.size) (rest : List UInt8) :
      freadNum 4 (encodeCount n ++ rest) = some (n, rest) := by
    have htoNat : (UInt32.ofNat n).toNat = n := UInt32.toNat_ofNat_of_lt' (by
      show n < 2 ^ 32
      omega)
    rw [encodeCount, encodeU32, htoNat]
    exact freadNum_toLE (by norm_num; omega) rest
  have hcounts : dbg.codeLines.length ≤ dbg.size ∧ dbg.memLines.length ≤ dbg.size ∧
      dbg.labels.length ≤ dbg.size ∧ dbg.files.length ≤ dbg.size ∧
      dbg.stringTable.length ≤ dbg.size := by
    unfold DebugT.size dbgLineSize
    omega
  rcases hcounts with ⟨hcode, hmem, hlabels, hfiles, hstrings⟩
  have hrest : restSize (UInt32.ofNat dbg.codeLines.length) (UInt32.ofNat dbg.memLines.length)
      (UInt32.ofNat dbg.labels.length) (UInt32.ofNat dbg.files.length)
      (UInt32.ofNat dbg.stringTable.length) = dbg.size := by
    have htoNat : (UInt32.ofNat dbg.stringTable.length).toNat = dbg.stringTable.length :=
      UInt32.toNat_ofNat_of_lt' (by
        show _ < 2 ^ 32
        omega)
    rw [restSize, lines_add hsize, refs_add hsize, htoNat, ← DebugT.size,
      Nat.mod_eq_of_lt hsize]
  have hnonzero : ¬ dbg.size = 0 := by omega
  rw [readBvgzDebugData, DebugT.header]
  simp only [List.append_assoc, Option.bind_eq_bind]
  -- the counts, one by one
  rw [hnum _ hcode]
  simp only [Option.bind_some]
  rw [hnum _ hmem]
  simp only [Option.bind_some]
  rw [hnum _ hlabels]
  simp only [Option.bind_some]
  rw [hnum _ hfiles]
  simp only [Option.bind_some]
  rw [hnum _ hstrings]
  simp only [Option.bind_some]
  -- the block
  rw [hrest, if_neg hnonzero, fread_eq_some.2 ⟨length_sections dbg, rfl⟩]
  rfl

/-- What `write_bvgz_image_debug` has written is read back. -/
theorem readBvgzDebugData_of_write {bytes : List UInt8} (hwrite : writeDebugT dbg = some bytes)
    (suffix : List UInt8) : readBvgzDebugData (bytes ++ suffix) = some (dbg.loaded, suffix) := by
  unfold writeDebugT at hwrite
  split at hwrite
  · cases hwrite
  · next hstr =>
      obtain rfl := Option.some.inj hwrite
      exact readBvgzDebugData_write hsize (fun hnil => hstr (by rw [hnil]; rfl)) suffix

theorem dbgCodeLine_loaded {n : Nat} {ln : DbgLineAssoc} (hn : dbg.codeLines[n]? = some ln) :
    dbgCodeLine dbg.loaded (UInt32.ofNat n) = some ln := by
  have hlt : n < dbg.codeLines.length := (List.getElem?_eq_some_iff.1 hn).1
  have htoNat : (UInt32.ofNat n).toNat = n := UInt32.toNat_ofNat_of_lt' (by
    unfold DebugT.size dbgLineSize at hsize
    show n < 2 ^ 32
    omega)
  have hread := read_record length_encodeLine hn [] (dbg.memLines.flatMap DbgLineAssoc.encode ++
    (dbg.labels.flatMap encodeU32 ++ (dbg.files.flatMap encodeU32 ++ dbg.stringTable)))
  rw [List.nil_append, List.length_nil, Nat.zero_add] at hread
  rw [dbgCodeLine, htoNat]
  exact readLine_of_read hread

theorem dbgMemLine_loaded {n : Nat} {ln : DbgLineAssoc} (hn : dbg.memLines[n]? = some ln) :
    dbgMemLine dbg.loaded (UInt32.ofNat n) = some ln := by
  have hlt : n < dbg.memLines.length := (List.getElem?_eq_some_iff.1 hn).1
  have hadd : (dbg.loaded.nCodeLines + UInt32.ofNat n).toNat = dbg.codeLines.length + n := by
    apply toNat_ofNat_add hsize
    unfold DebugT.size dbgLineSize
    omega
  have hread := read_record length_encodeLine hn (dbg.codeLines.flatMap DbgLineAssoc.encode)
    (dbg.labels.flatMap encodeU32 ++ (dbg.files.flatMap encodeU32 ++ dbg.stringTable))
  rw [length_records length_encodeLine, ← Nat.mul_add] at hread
  rw [dbgMemLine, hadd]
  exact readLine_of_read hread

theorem dbgLabelOffset_loaded {n : Nat} {off : UInt32} (hn : dbg.labels[n]? = some off) :
    dbgLabelOffset dbg.loaded (UInt32.ofNat n) = some off := by
  have hlt : n < dbg.labels.length := (List.getElem?_eq_some_iff.1 hn).1
  have htoNat : (UInt32.ofNat n).toNat = n := UInt32.toNat_ofNat_of_lt' (by
    unfold DebugT.size at hsize
    show n < 2 ^ 32
    omega)
  have hlines : (dbg.loaded.nCodeLines + dbg.loaded.nMemLines).toNat =
      dbg.codeLines.length + dbg.memLines.length := lines_add hsize
  have hread := read_record length_encodeU32 hn
    (dbg.codeLines.flatMap DbgLineAssoc.encode ++ dbg.memLines.flatMap DbgLineAssoc.encode)
    (dbg.files.flatMap encodeU32 ++ dbg.stringTable)
  rw [List.length_append, length_records length_encodeLine, length_records length_encodeLine,
    ← Nat.mul_add, List.append_assoc] at hread
  rw [dbgLabelOffset, hlines, htoNat]
  exact readU32_of_read hread

theorem dbgFileOffset_loaded {n : Nat} {off : UInt32} (hn : dbg.files[n]? = some off) :
    dbgFileOffset dbg.loaded (UInt32.ofNat n) = some off := by
  have hlt : n < dbg.files.length := (List.getElem?_eq_some_iff.1 hn).1
  have hlines : (dbg.loaded.nCodeLines + dbg.loaded.nMemLines).toNat =
      dbg.codeLines.length + dbg.memLines.length := lines_add hsize
  have hadd : (dbg.loaded.nLabels + UInt32.ofNat n).toNat = dbg.labels.length + n := by
    apply toNat_ofNat_add hsize
    unfold DebugT.size
    omega
  have hread := read_record length_encodeU32 hn
    (dbg.codeLines.flatMap DbgLineAssoc.encode ++ (dbg.memLines.flatMap DbgLineAssoc.encode ++
      dbg.labels.flatMap encodeU32)) dbg.stringTable
  simp only [List.length_append, length_records length_encodeLine,
    length_records length_encodeU32, List.append_assoc] at hread
  have hoff : dbgLineSize * (dbg.codeLines.length + dbg.memLines.length) +
      4 * (dbg.labels.length + n) = dbgLineSize * dbg.codeLines.length +
        (dbgLineSize * dbg.memLines.length + 4 * dbg.labels.length) + 4 * n := by
    unfold dbgLineSize
    omega
  rw [dbgFileOffset, hlines, hadd, hoff]
  exact readU32_of_read hread

/-- The string at an offset into the table. -/
theorem cstrAt_loaded (off : Nat) :
    cstrAt dbg.loaded.data (dbgStrtabOffset dbg.loaded + off) = cstrAt dbg.stringTable off := by
  have hlines : (dbg.loaded.nCodeLines + dbg.loaded.nMemLines).toNat =
      dbg.codeLines.length + dbg.memLines.length := lines_add hsize
  have hrefs : (dbg.loaded.nLabels + dbg.loaded.nFiles).toNat =
      dbg.labels.length + dbg.files.length := refs_add hsize
  have hcstr := cstrAt_append (dbg.codeLines.flatMap DbgLineAssoc.encode ++
    (dbg.memLines.flatMap DbgLineAssoc.encode ++ (dbg.labels.flatMap encodeU32 ++
      dbg.files.flatMap encodeU32))) dbg.stringTable off
  simp only [List.length_append, length_records length_encodeLine,
    length_records length_encodeU32, List.append_assoc] at hcstr
  have hoff : dbgLineSize * (dbg.codeLines.length + dbg.memLines.length) +
      4 * (dbg.labels.length + dbg.files.length) = dbgLineSize * dbg.codeLines.length +
        (dbgLineSize * dbg.memLines.length +
          (4 * dbg.labels.length + 4 * dbg.files.length)) := by
    unfold dbgLineSize
    omega
  rw [dbgStrtabOffset, hlines, hrefs, hoff]
  exact hcstr

end Loaded

/-- **The debug section** is read back: the reader consumes what was written, and the macros
return the lines, and the strings at the offsets of the labels and files, that were written. -/
theorem debugSection_roundTrip (dbg : DebugT) (suffix : List UInt8)
    (hstr : dbg.stringTable ≠ []) (hsize : dbg.size < 2 ^ 32) :
    ∃ bytes data, writeDebugT dbg = some bytes ∧
      readBvgzDebugData (bytes ++ suffix) = some (data, suffix) ∧
      data.nCodeLines.toNat = dbg.codeLines.length ∧
      data.nMemLines.toNat = dbg.memLines.length ∧
      data.nLabels.toNat = dbg.labels.length ∧ data.nFiles.toNat = dbg.files.length ∧
      (∀ (n : Nat) ln, dbg.codeLines[n]? = some ln →
        dbgCodeLine data (UInt32.ofNat n) = some ln) ∧
      (∀ (n : Nat) ln, dbg.memLines[n]? = some ln →
        dbgMemLine data (UInt32.ofNat n) = some ln) ∧
      (∀ (n : Nat) off, dbg.labels[n]? = some off →
        dbgLabel data (UInt32.ofNat n) = cstrAt dbg.stringTable off.toNat) ∧
      ∀ (n : Nat) off, dbg.files[n]? = some off →
        dbgFile data (UInt32.ofNat n) = cstrAt dbg.stringTable off.toNat := by
  have hpos : ¬ dbg.stringTable.length = 0 := by simpa using hstr
  have hcount {n : Nat} (hn : n ≤ dbg.size) : (UInt32.ofNat n).toNat = n :=
    UInt32.toNat_ofNat_of_lt' (by
      show n < 2 ^ 32
      omega)
  refine ⟨dbg.header ++ dbg.sections, dbg.loaded, if_neg hpos,
    readBvgzDebugData_write hsize hstr suffix, hcount ?_, hcount ?_, hcount ?_, hcount ?_,
    fun n ln hn => dbgCodeLine_loaded hsize hn, fun n ln hn => dbgMemLine_loaded hsize hn, ?_, ?_⟩
  · unfold DebugT.size dbgLineSize
    omega
  · unfold DebugT.size dbgLineSize
    omega
  · unfold DebugT.size
    omega
  · unfold DebugT.size
    omega
  · intro n off hn
    rw [dbgLabel, dbgLabelOffset_loaded hsize hn]
    exact cstrAt_loaded hsize off.toNat
  · intro n off hn
    rw [dbgFile, dbgFileOffset_loaded hsize hn]
    exact cstrAt_loaded hsize off.toNat

/-- A line at the label `e` in the file `a`. -/
def oneLine : DebugT where
  files := [0]
  labels := [2]
  codeLines := [⟨7, 0, 3, 0⟩]
  memLines := []
  stringTable := [0x61, 0, 0x65, 0]

theorem debugSection_roundTrip_line :
    ∃ bytes data, writeDebugT oneLine = some bytes ∧
      readBvgzDebugData (bytes ++ [1, 2]) = some (data, [1, 2]) ∧
      dbgCodeLine data 0 = some ⟨7, 0, 3, 0⟩ ∧ dbgLabel data 0 = some [0x65] ∧
      dbgFile data 0 = some [0x61] := by
  rcases debugSection_roundTrip oneLine [1, 2] (by decide) (by decide) with
    ⟨bytes, data, hwrite, hread, -, -, -, -, hcode, -, hlabel, hfile⟩
  exact ⟨bytes, data, hwrite, hread, hcode 0 _ rfl, (hlabel 0 2 rfl).trans (by decide),
    (hfile 0 0 rfl).trans (by decide)⟩

end BvgzVm
