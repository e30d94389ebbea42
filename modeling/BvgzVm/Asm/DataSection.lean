import BvgzVm.Asm.Result
import BvgzVm.Lib.Bytes
import BvgzVm.Lib.Except

set_option autoImplicit false

/-! # `%data` directives

`parse_preproc_data` of `parser.c` and the functions that build the memory area. The directive is
parsed in place: tokens are indices into the line, and a token is ended by storing a terminator
behind it. An access outside the line or outside the memory block and a loop that never ends are
outcomes of the model (`PrsFault`).
-/

namespace BvgzVm

open Bytes CLib

variable {T : InstnTable}

/-! ## The state of the parser -/

/-- Why the parser does not return. -/
inductive PrsFault
  /-- a file that could not be opened is read -/
  | nullFile
  /-- a read or a write outside the line -/
  | lineAccess
  /-- a store behind `tokens[MAX_TOKENS - 1]` -/
  | tokens
  /-- `strcmp` with the `NULL` name at the end of `InstnDefs` -/
  | nullName
  /-- `free` of what `malloc` left in an operand that was not parsed -/
  | freeUninit
  /-- a label in `label_refs` is read after it has been freed -/
  | freedKey
  /-- `n_instns` wraps around -/
  | instnCount
  /-- a copy outside the memory block -/
  | memoryWrite
  /-- the loop that looks for a larger allocation does not end -/
  | hang
  /-- `assert(result->memsz <= result->mem_alloc)` -/
  | assertion
  /-- files are included in each other to a depth that was not foreseen -/
  | depth
  deriving DecidableEq, Repr

/-- What the parser finds around it: the files, the size of the blocks the memory grows by, and
what `malloc` leaves in the type byte of operand `k` of a new instruction. -/
structure PrsEnv where
  /-- `stat(path) == 0` -/
  stat : CStr → Bool
  /-- the contents of a file that can be opened -/
  fopen : CStr → Option (List UInt8)
  /-- `MEM_ALLOC_BLOCK_SZ` -/
  memAllocBlockSz : UInt32
  freshType : Nat → UInt8

/-- The parse result under construction, the set `label_refs`, whether `errno` is `ERANGE`, and
whether a label in `label_refs` has been freed. -/
structure Prs (T : InstnTable) where
  result : PrsResult T
  labelRefs : List CStr
  erange : Bool
  freedKey : Bool

/-- `report` -/
def PrsResult.report (p : PrsResult T) (kind : ReportKind) (source : CStr) (line : UInt32)
    (message : CStr) : PrsResult T :=
  { p with reports := p.reports ++ [⟨kind, source, line, message⟩] }

/-- `report(result, P_ERROR, ..)` -/
def Prs.error (s : Prs T) (filename : FileName) (lineno : UInt32) (message : CStr) : Prs T :=
  { s with result := s.result.report .error filename.path lineno message }

/-- `report(result, P_WARN, ..)` -/
def Prs.warn (s : Prs T) (filename : FileName) (lineno : UInt32) (message : CStr) : Prs T :=
  { s with result := s.result.report .warn filename.path lineno message }

/-- The memory area replaced. -/
def Prs.setData (s : Prs T) (d : DataArea) : Prs T :=
  { s with result := { s.result with toDataArea := d } }

/-- `errno` after `strtoull`. -/
def Prs.setErange (s : Prs T) (r : Strto) : Prs T := { s with erange := s.erange || r.erange }

/-- `add_label` -/
def Prs.addLabel (s : Prs T) (filename : FileName) (lineno : UInt32) (labelToken : CStr)
    (offset : UInt32) (isMemRef : Bool) : Prs T :=
  { s with result := { s.result with
    labels := s.result.labels.put labelToken ⟨filename, lineno, offset, isMemRef⟩ } }

/-- An access to the line. -/
def onLine {α : Type} (x : Option α) : Except PrsFault α :=
  match x with
  | some a => .ok a
  | none => .error .lineAccess

/-- A number in a message. -/
def showNat (n : Nat) : CStr := (toString n).toList

/-- `(uint32_t)-1`, an offset or a size that is not given -/
def notGiven : UInt32 := 0xffffffff

/-! ## Files -/

/-- `FILEPATH_BUF_SZ` -/
def filepathBufSz : Nat := 256

/-- `find_file`: the path that is found, cut off where `snprintf` cuts it off, and `errno`, which
a `stat` that fails changes. -/
def findFile (env : PrsEnv) (filename : CStr) : List CStr → Bool → Option CStr × Bool
  | [], erange => (none, erange)
  | p :: ps, erange =>
      let filepath := (p ++ '/' :: filename).take (filepathBufSz - 1)
      if env.stat filepath then (some filepath, erange) else findFile env filename ps false

/-! ## The memory area -/

/-- `while (alloc > new_size) new_size += MEM_ALLOC_BLOCK_SZ`. The sum is a 32-bit number: a loop
that is not over after `2 ^ 32` rounds never ends. -/
def growAlloc (block alloc : UInt32) : Nat → UInt32 → Option UInt32
  | 0, _ => none
  | fuel + 1, newSize =>
      if newSize < alloc then growAlloc block alloc fuel (newSize + block) else some newSize

/-- `ensure_memory_alloc` -/
def ensureMemoryAlloc (block alloc : UInt32) (d : DataArea) : Except PrsFault DataArea :=
  if d.memsz < alloc then
    match growAlloc block alloc (2 ^ 32) d.memAlloc with
    | none => .error .hang
    | some newSize =>
        if d.memAlloc < newSize then
          .ok { d with
            memory := d.memory ++ List.replicate (newSize.toNat - d.memAlloc.toNat) 0
            memAlloc := newSize }
        else .ok d
  else .ok d

/-- `ensure_memory_at_offset` -/
def ensureMemoryAtOffset (block size offset : UInt32) (d : DataArea) : Except PrsFault DataArea :=
  if offset = notGiven then .ok d
  else ensureMemoryAlloc block (offset + if size = 0 then 1 else size) d

/-- `write_to_memory` -/
def writeToMemory (block : UInt32) (src : List UInt8) (memOffset : UInt32) (d : DataArea) :
    Except PrsFault DataArea := do
  let size := UInt32.ofNat src.length
  let d ← ensureMemoryAlloc block (memOffset + size) d
  match write d.memory memOffset.toNat src with
  | none => .error .memoryWrite
  | some memory => .ok { d with memory, memsz := memOffset + size }

/-- `offset != (uint32_t)-1 ? offset : result->memsz` -/
def writeOffset (offset : UInt32) (d : DataArea) : UInt32 :=
  if offset = notGiven then d.memsz else offset

/-- The memory area, large enough for `total` bytes. -/
def growTo (block total : UInt32) (d : DataArea) : Except PrsFault DataArea :=
  if d.memsz < total then ensureMemoryAlloc block total d else .ok d

/-- `set_memory_size` -/
def setMemorySize (block : UInt32) (filename : FileName) (lineno originalOffset size : UInt32)
    (s : Prs T) : Except PrsFault (Prs T) :=
  if size = notGiven then .ok s
  else
    let total := size + originalOffset
    if total < s.result.memsz then
      let s := s.warn filename lineno ("trimming memory size ".toList ++
        showNat s.result.memsz.toNat ++ " -> ".toList ++ showNat total.toNat ++ " bytes".toList)
      .ok (s.setData { s.result.toDataArea with memsz := total })
    else do
      let d ← growTo block total s.result.toDataArea
      .ok (s.setData { d with memsz := total })

/-- The end of the functions below: the size, and the label at the original offset. -/
def finishData (block : UInt32) (filename : FileName) (lineno originalOffset size : UInt32)
    (label : Option CStr) (s : Prs T) : Except PrsFault (Prs T) := do
  let s ← setMemorySize block filename lineno originalOffset size s
  match label with
  | none => .ok s
  | some label => .ok (s.addLabel filename lineno label originalOffset true)

/-! ## The kinds of data -/

/-- The loop of `add_file_to_memory` over the blocks that `fread` returns. -/
def writeBlocks (block : UInt32) : Nat → List UInt8 → UInt32 → DataArea → Except PrsFault DataArea
  | 0, _, _, d => .ok d
  | fuel + 1, contents, wOffset, d =>
      let buffer := contents.take block.toNat
      if buffer = [] then .ok d
      else do
        let d ← writeToMemory block buffer wOffset d
        writeBlocks block fuel (contents.drop block.toNat) (wOffset + UInt32.ofNat buffer.length) d

/-- `add_file_to_memory` -/
def addFileToMemory (env : PrsEnv) (filename : FileName) (lineno : UInt32) (label : Option CStr)
    (inclFile : CStr) (size offset : UInt32) (includePaths : List CStr) (s : Prs T) :
    Except PrsFault (Prs T) :=
  match findFile env inclFile includePaths s.erange with
  | (none, erange) =>
      .ok ({ s with erange }.error filename lineno ("file not found: ".toList ++ inclFile))
  | (some filepath, erange) => do
      let s := { s with erange }
      let d ← ensureMemoryAtOffset env.memAllocBlockSz size offset s.result.toDataArea
      match env.fopen filepath with
      | none => .error .nullFile
      | some contents => do
          let originalOffset := writeOffset offset d
          let d ← writeBlocks env.memAllocBlockSz (contents.length + 1) contents originalOffset d
          finishData env.memAllocBlockSz filename lineno originalOffset size label (s.setData d)

/-- A character as a byte. -/
def byte (c : Char) : UInt8 := UInt8.ofNat c.toNat

/-- The byte an escaped letter stands for. -/
def escaped (c : Char) : Option UInt8 :=
  if c = 'a' then some 0x07
  else if c = 'b' then some 0x08
  else if c = 'f' then some 0x0C
  else if c = 'n' then some 0x0A
  else if c = 'r' then some 0x0D
  else if c = 't' then some 0x09
  else if c = 'v' then some 0x0B
  else none

/-- The loop of `add_str_to_memory`: whether the closing quote was found, and the offset behind
what was written. A character that is not in the `switch` leaves `escape_chr` as it is. -/
def writeStr (block : UInt32) :
    CStr → Bool → UInt32 → DataArea → Except PrsFault (Bool × UInt32 × DataArea)
  | [], _, wOffset, d => .ok (false, wOffset, d)
  | c :: cs, escapeChr, wOffset, d =>
      if c = '\\' ∧ escapeChr = false then writeStr block cs true wOffset d
      else if c = '"' ∧ escapeChr = false then .ok (true, wOffset, d)
      else if c = '\\' ∨ c = '"' then do
        let d ← writeToMemory block [byte c] wOffset d
        writeStr block cs false (wOffset + 1) d
      else match escaped c with
        | some b => do
            let d ← writeToMemory block [if escapeChr then b else byte c] wOffset d
            writeStr block cs false (wOffset + 1) d
        | none => do
            let d ← writeToMemory block [byte c] wOffset d
            writeStr block cs escapeChr (wOffset + 1) d

/-- `add_str_to_memory`; `str` is what follows the opening quote. -/
def addStrToMemory (env : PrsEnv) (filename : FileName) (lineno : UInt32) (label : Option CStr)
    (str : CStr) (size offset : UInt32) (s : Prs T) : Except PrsFault (Prs T) := do
  let d ← ensureMemoryAtOffset env.memAllocBlockSz size offset s.result.toDataArea
  let originalOffset := writeOffset offset d
  let (stop, wOffset, d) ← writeStr env.memAllocBlockSz str false originalOffset d
  let d ← writeToMemory env.memAllocBlockSz [0] wOffset d
  let s := s.setData d
  let s := if stop then s else s.error filename lineno "bad string format".toList
  finishData env.memAllocBlockSz filename lineno originalOffset size label s

/-- The bytes a hex number of `len` digits is stored in. -/
def hexBytes (len : Nat) : Nat :=
  if len ≤ 2 then 1 else if len ≤ 4 then 2 else if len ≤ 8 then 4 else 8

/-- `add_hex_to_memory`; `hex` is what follows the `0x`. -/
def addHexToMemory (env : PrsEnv) (filename : FileName) (lineno : UInt32) (label : Option CStr)
    (hex : CStr) (size offset : UInt32) (s : Prs T) : Except PrsFault (Prs T) := do
  let d ← ensureMemoryAtOffset env.memAllocBlockSz size offset s.result.toDataArea
  let n := strtoull hex 16
  let s := (s.setData d).setErange n
  let s := if n.rest = [] then s else s.warn filename lineno "bad hex value".toList
  let wOffset := writeOffset offset d
  let s := if hex.length ≤ 16 then s
    else s.warn filename lineno
      "cannot determine number length: default to 64 bits".toList
  let d ← writeToMemory env.memAllocBlockSz (toLE (hexBytes hex.length) n.value.toNat) wOffset d
  finishData env.memAllocBlockSz filename lineno wOffset size label (s.setData d)

/-- The size of the cell for a label. -/
def labelCellSize (size : UInt32) : UInt32 := if size = notGiven then 4 else size

/-- `add_label_to_memory` -/
def addLabelToMemory (env : PrsEnv) (filename : FileName) (lineno : UInt32) (label : Option CStr)
    (labelValue : CStr) (size offset : UInt32) (s : Prs T) : Except PrsFault (Prs T) :=
  let size := labelCellSize size
  if size ≠ 4 ∧ size ≠ 8 then
    .ok (s.error filename lineno
      "bad data directive: size must be either 4 (default) or 8".toList)
  else do
    let d ← ensureMemoryAtOffset env.memAllocBlockSz size offset s.result.toDataArea
    let wOffset := writeOffset offset d
    let ref : LabelRef := ⟨filename, lineno, labelValue, size, wOffset⟩
    let d ← writeToMemory env.memAllocBlockSz (List.replicate size.toNat 0) wOffset d
    let s := s.setData d
    let s := { s with result := { s.result with labelRefs := ref :: s.result.labelRefs } }
    finishData env.memAllocBlockSz filename lineno wOffset size label s

/-! ## The directive -/

/-- The variables of `parse_preproc_data` that `NEXT_TOKEN` sets, and the line. -/
structure DataTokens where
  token : Nat
  p : Nat
  pValue : Char
  line : CStr

/-- `NEXT_TOKEN`, from index `token` on; `none` if a token is required and not there. -/
def nextToken (required : Bool) (token : Nat) (line : CStr) :
    Except PrsFault (Option DataTokens) := do
  let token ← onLine (skipWhile isspace line token)
  let p ← onLine (skipWhile (fun c => !isspace c && c ≠ ';') line token)
  let last ← onLine (charAt line p)
  if required && (token = p || last = nul) then .ok none
  else do
    let first ← onLine (charAt line token)
    let line ← if first = ';' then onLine (setChar line token nul) else .ok line
    let pValue ← onLine (charAt line p)
    let line ← onLine (setChar line p nul)
    .ok (some ⟨token, p, pValue, line⟩)

/-- The loop of `parse_string_literal`: how many characters it goes over. -/
def stringLiteralEnd : Char → CStr → Nat
  | _, [] => 0
  | prev, c :: cs =>
      if c = nul then 0
      else if c = '"' ∧ prev ≠ '\\' then 1
      else stringLiteralEnd c cs + 1

/-- `parse_string_literal`: the end of the literal at `token`, and the line. -/
def parseStringLiteral (token : Nat) (line : CStr) : Except PrsFault (Nat × CStr) := do
  let c := token + 1 + stringLiteralEnd nul (line.drop (token + 1))
  let line ← onLine (setChar line c nul)
  .ok (c, line)

/-- `parse_preproc_data_no` -/
def parsePreprocDataNo (filename : FileName) (lineno : UInt32) (numericStr dataName : CStr)
    (s : Prs T) : UInt32 × Prs T :=
  let n := strtoull numericStr 10
  let s := s.setErange n
  if n.rest = [] ∨ n.rest.head? = some ';' then (UInt32.ofNat n.value.toNat, s)
  else (0, s.error filename lineno ("bad data specification: [".toList ++ dataName ++
    "]: base 10 integer expected".toList))

/-- `offset` and `size` -/
structure DataOptions where
  offset : UInt32
  size : UInt32

/-- An option `:offset`, its number at `token`. -/
def offsetOption (filename : FileName) (lineno : UInt32) (numericStr : CStr) (o : DataOptions)
    (s : Prs T) : DataOptions × Prs T :=
  let s := if o.offset = notGiven then s
    else s.error filename lineno "multiple offset definitions".toList
  let (offset, s) := parsePreprocDataNo filename lineno numericStr "offset".toList s
  let s := if offset ≠ 0 ∧ offset < s.result.memsz then
      s.warn filename lineno ("data collide with previous allocations: ".toList ++
        showNat (s.result.memsz - offset).toNat ++ " bytes".toList)
    else s
  ({ o with offset }, s)

/-- An option `/size`. The check for a second one looks at the offset. -/
def sizeOption (filename : FileName) (lineno : UInt32) (numericStr : CStr) (o : DataOptions)
    (s : Prs T) : DataOptions × Prs T :=
  let s := if o.offset = notGiven then s
    else s.error filename lineno "multiple size definitions".toList
  let (size, s) := parsePreprocDataNo filename lineno numericStr "size".toList s
  ({ o with size }, s)

/-- The loop over the options. Each round moves `token` on, so a line of `n` characters has at
most `n + 1` of them. -/
def dataOptions (filename : FileName) (lineno : UInt32) :
    Nat → Nat → CStr → DataOptions → Prs T → Except PrsFault (CStr × DataOptions × Prs T)
  | 0, _, line, o, s => .ok (line, o, s)
  | fuel + 1, token, line, o, s => do
      match ← nextToken false token line with
      | none => .ok (line, o, s)
      | some t => do
          let first ← onLine (charAt t.line t.token)
          if first = nul then .ok (t.line, o, s)
          else if first = ':' then do
            let numericStr ← onLine (strAt t.line (t.token + 1))
            let (o, s) := offsetOption filename lineno numericStr o s
            dataOptions filename lineno fuel (t.p + 1) t.line o s
          else if first = '/' then do
            let numericStr ← onLine (strAt t.line (t.token + 1))
            let (o, s) := sizeOption filename lineno numericStr o s
            dataOptions filename lineno fuel (t.p + 1) t.line o s
          else do
            let token ← onLine (strAt t.line t.token)
            .ok (t.line, o, s.error filename lineno ("unexpected token: ".toList ++ token))

/-- The message of the two `NEXT_TOKEN(1)`. -/
def incorrectSpecification : CStr := "bad data directive: incorrect specification".toList

/-- The label and the data of a directive. -/
structure DataHead where
  label : Option Nat
  data : Nat
  next : Nat
  line : CStr

/-- `parse_preproc_data` up to the options; `none` if the specification is incorrect. -/
def dataHead (line : CStr) : Except PrsFault (Option DataHead) := do
  match ← nextToken true 6 line with
  | none => .ok none
  | some t => do
      let first ← onLine (charAt t.line t.token)
      let labelled ← if first = '@' then do
            let u ← nextToken true (t.p + 1) t.line
            .ok (u.map (fun u => (some t.token, u)))
          else .ok (some (none, t))
      match labelled with
      | none => .ok none
      | some (label, t) => do
          let quote ← onLine (charAt t.line t.token)
          if quote = '"' then do
            let line ← onLine (setChar t.line t.p t.pValue)
            let (p, line) ← parseStringLiteral t.token line
            .ok (some ⟨label, t.token, p + 1, line⟩)
          else .ok (some ⟨label, t.token, t.p + 1, t.line⟩)

/-- The kinds of data, by the characters at `data`; the flag says whether the size of the memory
area is checked afterwards. -/
def addData (env : PrsEnv) (filename : FileName) (lineno : UInt32) (label : Option CStr)
    (data : CStr) (o : DataOptions) (includePaths : List CStr) (s : Prs T) :
    Except PrsFault (Bool × Prs T) :=
  match data with
  | '=' :: inclFile => do
      let s ← addFileToMemory env filename lineno label inclFile o.size o.offset includePaths s
      .ok (true, s)
  | '"' :: str => do
      let s ← addStrToMemory env filename lineno label str o.size o.offset s
      .ok (true, s)
  | '0' :: 'x' :: c :: hex => do
      let s ← addHexToMemory env filename lineno label (c :: hex) o.size o.offset s
      .ok (true, s)
  | '&' :: labelValue => do
      let s ← addLabelToMemory env filename lineno label labelValue o.size o.offset s
      .ok (false, s)
  | _ => .ok (false, s.error filename lineno
      "bad data directive: incorrect data specification".toList)

/-- The label of a directive, without its `@`. -/
def dataLabel (line : CStr) (label : Option Nat) : Except PrsFault (Option CStr) :=
  match label with
  | none => .ok none
  | some i => do
      let l ← onLine (strAt line (i + 1))
      .ok (some l)

/-- `parse_preproc_data`; `sizeof(PREPROC_DATA)` is 6. -/
def parsePreprocData (env : PrsEnv) (filename : FileName) (lineno : UInt32) (line : CStr)
    (includePaths : List CStr) (s : Prs T) : Except PrsFault (Prs T) := do
  match ← dataHead line with
  | none => .ok (s.error filename lineno incorrectSpecification)
  | some h => do
      let (line, o, s) ← dataOptions filename lineno (h.line.length + 1) h.next h.line
        ⟨notGiven, notGiven⟩ s
      let label ← dataLabel line h.label
      let data ← onLine (strAt line h.data)
      let (check, s) ← addData env filename lineno label data o includePaths s
      if check && s.result.memAlloc < s.result.memsz then .error .assertion else .ok s

end BvgzVm
