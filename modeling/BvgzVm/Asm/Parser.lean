import BvgzVm.Asm.DataSection

set_option autoImplicit false

/-! # The parser

`parse_asm` of `parser.c`: lines, labels, instructions and included files. A line is scanned
character by character; the tokens of the line are the strings it is cut into. Included files are
parsed by the same function, with one level of depth less.
-/

namespace BvgzVm

open CLib

variable {T : InstnTable}

/-! ## Operands -/

/-- `IS_1_BYTES_LONG`, `IS_2_BYTES_LONG`, `IS_4_BYTES_LONG`: no bit is set above the width. -/
def fitsIn (w : ImmWidth) (x : UInt64) : Prop := x.toNat < 256 ^ w.bytes

instance (w : ImmWidth) (x : UInt64) : Decidable (fitsIn w x) := inferInstanceAs (Decidable (_ < _))

/-- The immediate operand with its width. A negative number takes 8 bytes. -/
def immArg (negative : Bool) (imm : UInt64) : PrsArg :=
  if h : negative = false ∧ fitsIn .w1 imm then .imm .w1 imm h.2
  else if h : negative = false ∧ fitsIn .w2 imm then .imm .w2 imm h.2
  else if h : negative = false ∧ fitsIn .w4 imm then .imm .w4 imm h.2
  else .imm .w8 imm imm.toNat_lt

/-- `INT64_MAX - 1` -/
def int64MaxLess1 : UInt64 := 0x7ffffffffffffffe

/-- The prefixes `-`, `*` and `&` of an operand, each at most once and in this order. -/
def argPrefix (c : Char) (p : CStr) : Bool × CStr :=
  match p with
  | d :: t => if d = c then (true, t) else (false, p)
  | [] => (false, p)

/-- `hset_add(label_refs, label)` -/
def Prs.addLabelRef (s : Prs T) (label : CStr) : Prs T :=
  { s with labelRefs := if label ∈ s.labelRefs then s.labelRefs else label :: s.labelRefs }

/-- `parse_arg` behind the call of `strtoull` at `p`; `none` is the result `-1`. -/
def finishArg (filename : FileName) (lineno : UInt32) (token : CStr) (argIndex : Nat)
    (negative reference immRef : Bool) (p : CStr) (r : Strto) (s : Prs T) :
    Option PrsArg × Prs T :=
  let arg := "argument (".toList ++ showNat argIndex
  if (r.value = 0xffffffffffffffff ∧ s.erange = true) ∨
      (int64MaxLess1 < r.value ∧ negative = true) then
    (none, s.error filename lineno (arg ++ ") overflow: [".toList ++ token ++ [']']))
  else
    let s := if negative = false ∧ int64MaxLess1 < r.value then
        s.warn filename lineno (arg ++ ") overflows to negative value: [".toList ++ token ++ [']'])
      else s
    if r.rest.length = p.length then -- treat p as a label
      if negative || reference then
        (none, s.error filename lineno (arg ++ ") unexpected token after -/@".toList))
      else
        (some (if immRef then .immLbl p else .refLbl p), s.addLabelRef p)
    else if r.rest ≠ [] then
      (none, s.error filename lineno (arg ++ ") bad token, expcted number".toList))
    else
      let imm := if negative then -r.value else r.value
      (some (if reference then .refNum imm else immArg negative imm), s)

/-- `parse_arg` -/
def parseArg (filename : FileName) (lineno : UInt32) (token : CStr) (argIndex : Nat) (s : Prs T) :
    Option PrsArg × Prs T :=
  let (negative, p) := argPrefix '-' token
  let (reference, p) := argPrefix '*' p
  let (immRef, p) := argPrefix '&' p
  let base := if ['0', 'x'].isPrefixOf p then 16 else 0
  let r := strtoull p base
  finishArg filename lineno token argIndex negative reference immRef p r (s.setErange r)

/-! ## Instructions -/

/-- `T_ARG_REF_LBL` and `T_ARG_IMM_LBL`, as a byte -/
def isLabelType (type : UInt8) : Bool := type = 2 || type = 3

/-- `destroy_instn` on an instruction with `argCount` operands of which `parsed` are filled in.
Their labels are freed, but they stay in `label_refs`. -/
def destroyInstn (env : PrsEnv) (argCount : Nat) (parsed : List PrsArg) (s : Prs T) :
    Except PrsFault (Prs T) :=
  if (List.range' parsed.length (argCount - parsed.length)).any
      (fun k => isLabelType (env.freshType k)) then .error .freeUninit
  else .ok { s with freedKey := s.freedKey || parsed.any (fun a => a.label?.isSome) }

/-- The first operand is an immediate, and must not be one. -/
def firstArgDisallowed (fmt : InstnDef Op) (a : PrsArg) : Bool :=
  match a with
  | .imm _ _ _ => fmt.flags &&& fAllowImm1stArg = 0
  | _ => false

/-- The loop of `parse_instn` over the operands, those before being `parsed`; `none` if one of
them is rejected. -/
def parseArgs (env : PrsEnv) (filename : FileName) (lineno : UInt32) (fmt : InstnDef Op)
    (name : CStr) (parsed : List PrsArg) :
    (tokens : List CStr) → Prs T →
      Except PrsFault (Option {as : List PrsArg // as.length = parsed.length + tokens.length} × Prs T)
  | [], s => .ok (some ⟨parsed, rfl⟩, s)
  | token :: tokens, s =>
      match parseArg filename lineno token parsed.length s with
      | (none, s) => do
          let s ← destroyInstn env fmt.argCount parsed s
          .ok (none, s)
      | (some a, s) =>
          if parsed.length = 0 ∧ firstArgDisallowed fmt a = true then do
            let s := s.error filename lineno
              ("instn [".toList ++ name ++ "] disallows 1st arg to be imm".toList)
            let s ← destroyInstn env fmt.argCount (parsed ++ [a]) s
            .ok (none, s)
          else do
            let (as, s) ← parseArgs env filename lineno fmt name (parsed ++ [a]) tokens s
            .ok (as.map (fun as => ⟨as.1, by
              have h := as.2
              simp only [List.length_append, List.length_cons, List.length_nil] at h
              rw [h, List.length_cons]
              omega⟩), s)

/-- `bsearch` in the sorted table: the loop with the bounds `l` and `u`. -/
def bsearchLoop (names : List CStr) (key : CStr) : Nat → Nat → Nat → Option Nat
  | 0, _, _ => none
  | fuel + 1, l, u =>
      if u ≤ l then none
      else
        let idx := (l + u) / 2
        match names[idx]? with
        | none => none
        | some name =>
            if key < name then bsearchLoop names key fuel l idx
            else if name < key then bsearchLoop names key fuel (idx + 1) u
            else some idx

/-- `bsearch` -/
def bsearch (names : List CStr) (key : CStr) : Option Nat :=
  bsearchLoop names key (names.length + 1) 0 names.length

/-- `while (fmt > InstnDefs && strcmp(tokens[0], (fmt - 1)->name) == 0) fmt--` -/
def firstWithName (names : List CStr) (name : CStr) : Nat → Nat
  | 0 => 0
  | k + 1 => if names[k]? = some name then firstWithName names name k else k + 1

/-- The loop of `parse_instn` over the rows from `fmt` on. -/
def selectInstn (env : PrsEnv) (filename : FileName) (lineno : UInt32) (name : CStr)
    (tokens : List CStr) :
    List {d : InstnDef Op // d ∈ T.entries} → Prs T → Except PrsFault (Option (PrsInstn T) × Prs T)
  | [], _ => .error .nullName
  | fmt :: rows, s =>
      if name ≠ fmt.1.name.toList then
        .ok (none, s.error filename lineno ("incorrect argument count for: [".toList ++ name ++
          "], found: ".toList ++ showNat tokens.length))
      else if h : fmt.1.argCount = tokens.length then do
        let (as, s) ← parseArgs env filename lineno fmt.1 name [] tokens s
        match as with
        | none => .ok (none, s)
        | some as =>
            .ok (some {
              filename
              lineno
              instn := fmt.1
              args := as.1
              memOffset := noOffset
              mem_entries := fmt.2
              length_args := by rw [as.2, h, List.length_nil, Nat.zero_add] }, s)
      else selectInstn env filename lineno name tokens rows s

/-- `parse_instn`; `tokens` are the operands. -/
def parseInstn (env : PrsEnv) (filename : FileName) (lineno : UInt32) (name : CStr)
    (tokens : List CStr) (s : Prs T) : Except PrsFault (Option (PrsInstn T) × Prs T) :=
  let names := T.entries.map (fun d => d.name.toList)
  match bsearch names name with
  | none => .ok (none, s.error filename lineno ("unknown instn: [".toList ++ name ++ [']']))
  | some fmt =>
      selectInstn env filename lineno name tokens
        (T.entries.attach.drop (firstWithName names name fmt)) s

/-- `add_instn` -/
def addInstn (env : PrsEnv) (filename : FileName) (lineno : UInt32) (name : CStr)
    (tokens : List CStr) (s : Prs T) : Except PrsFault (Prs T) := do
  let (instn, s) ← parseInstn env filename lineno name tokens s
  match instn with
  | none => .ok s
  | some instn =>
      if s.result.nInstns + 1 = 2 ^ 32 then .error .instnCount
      else .ok { s with result := { s.result with instns := s.result.instns ++ [instn] } }

/-! ## Lines -/

/-- `MAX_TOKENS` -/
def maxTokens : Nat := 4

/-- The variables of `parse_line`: `tokens[0 .. tkn - 1]`, `tokens[tkn]` as far as it is read,
and the flags. -/
structure LineState where
  before : List CStr
  current : CStr
  markToken : Bool
  parseInstn : Bool

/-- `tkn` -/
def LineState.tkn (ls : LineState) : Nat := ls.before.length

/-- The loop of `parse_line`; `none` after an error. -/
def scanLine (filename : FileName) (lineno : UInt32) :
    CStr → LineState → Prs T → Except PrsFault (Option LineState × Prs T)
  | [], ls, s => .ok (some ls, s)
  | c :: p, ls, s =>
      if c = ';' then .ok (some ls, s)
      else if isspace c || c = ',' then
        scanLine filename lineno p { ls with markToken := true } s
      else if ls.tkn = 0 ∧ c = ':' then
        scanLine filename lineno p { ls with parseInstn := false }
          (s.addLabel filename lineno ls.current (UInt32.ofNat s.result.nInstns) false)
      else if ls.parseInstn = false then
        .ok (none, s.error filename lineno ("end of line expected, found: '".toList ++ [c, '\'']))
      else if ls.markToken then
        if ls.tkn + 1 < maxTokens then
          scanLine filename lineno p
            { ls with before := ls.before ++ [ls.current], current := [c], markToken := false } s
        else .error .tokens
      else scanLine filename lineno p { ls with current := ls.current ++ [c] } s

/-- `parse_preproc_include`; `sizeof(PREPROC_INCL)` is 9. -/
def parsePreprocInclude (env : PrsEnv) (filename : FileName) (lineno : UInt32) (line : CStr)
    (includePaths : List CStr) (parseAsmInto : FileName → Prs T → Except PrsFault (Prs T))
    (s : Prs T) : Except PrsFault (Prs T) := do
  let file ← onLine (skipWhile isspace line 9)
  let p ← onLine (skipWhile (fun c => !isspace c && c ≠ ';') line file)
  let line ← onLine (setChar line p nul)
  if file = p then
    .ok (s.error filename lineno "expected filename after %include directive".toList)
  else do
    let name ← onLine (strAt line file)
    match findFile env name includePaths s.erange with
    | (none, erange) =>
        .ok ({ s with erange }.error filename lineno ("file not found: ".toList ++ name))
    | (some filepath, erange) =>
        parseAsmInto ⟨filename.depth + 1, filepath⟩ { s with erange }

/-- `parse_preproc_line` -/
def parsePreprocLine (env : PrsEnv) (filename : FileName) (lineno : UInt32) (line : CStr)
    (includePaths : List CStr) (parseAsmInto : FileName → Prs T → Except PrsFault (Prs T))
    (s : Prs T) : Except PrsFault (Prs T) :=
  if "%data".toList.isPrefixOf line then
    parsePreprocData env filename lineno line includePaths s
  else if "%include".toList.isPrefixOf line then
    parsePreprocInclude env filename lineno line includePaths parseAsmInto s
  else .ok s

/-- `parse_line` -/
def parseLine (env : PrsEnv) (filename : FileName) (lineno : UInt32) (line : CStr)
    (includePaths : List CStr) (parseAsmInto : FileName → Prs T → Except PrsFault (Prs T))
    (s : Prs T) : Except PrsFault (Prs T) :=
  match (line.takeWhile (· ≠ nul)).dropWhile isspace with
  | [] => .ok s
  | c :: p =>
      if c = ';' then .ok s
      else if c = '%' then
        parsePreprocLine env filename lineno line includePaths parseAsmInto s
      else do
        let (ls, s) ← scanLine filename lineno (c :: p) ⟨[], [], false, true⟩ s
        match ls with
        | none => .ok s
        | some ls =>
            if ls.parseInstn then
              match ls.before ++ [ls.current] with
              | [] => .ok s
              | name :: tokens => addInstn env filename lineno name tokens s
            else .ok s

/-! ## Files -/

/-- The loop of `parse_asm_into` over the lines; `lineno` is the number of the line before. -/
def parseLines (env : PrsEnv) (filename : FileName) (includePaths : List CStr)
    (parseAsmInto : FileName → Prs T → Except PrsFault (Prs T)) :
    UInt32 → List CStr → Prs T → Except PrsFault (Prs T)
  | _, [], s => .ok s
  | lineno, line :: lines, s => do
      let s ← parseLine env filename (lineno + 1) line includePaths parseAsmInto s
      parseLines env filename includePaths parseAsmInto (lineno + 1) lines s

/-- `parse_asm_into`, for files that are included at most `depth - 1` deep. -/
def parseAsmInto (env : PrsEnv) (includePaths : List CStr) :
    Nat → FileName → Prs T → Except PrsFault (Prs T)
  | 0, _, _ => .error .depth
  | depth + 1, filename, s =>
      match env.fopen filename.path with
      | none => .error .nullFile
      | some contents => do
          let lines := getlines (contents.map (fun b => Char.ofNat b.toNat))
          let s ← parseLines env filename includePaths (parseAsmInto env includePaths depth) 0
            lines s
          .ok { s with result := { s.result with nFiles := s.result.nFiles + 1 } }

/-- `init_parse_result`, and an empty set `label_refs` -/
def initParse (erange : Bool) : Prs T where
  result := ⟨⟨[], 0, 0⟩, 0, [], [], [], []⟩
  labelRefs := []
  erange := erange
  freedKey := false

/-- `label_refs_visitor` -/
def labelRefsVisitor (p : PrsResult T) (label : CStr) : PrsResult T :=
  match p.labels.get label with
  | some _ => p
  | none => p.report .error "<top-level>".toList 0
      ("referenced label [".toList ++ label ++ "] is missing".toList)

/-- `strrchr(filename, '/')`: the part before the last slash. -/
def directory (filename : CStr) : Option CStr :=
  if '/' ∈ filename then
    some ((filename.reverse.dropWhile (· ≠ '/')).drop 1).reverse
  else none

/-- `parse_asm`; `erange` says whether `errno` is `ERANGE` at the start, and `none` is `NULL`. -/
def parseAsm (env : PrsEnv) (depth : Nat) (erange : Bool) (filename : CStr)
    (includePaths : List CStr) : Except PrsFault (Option (PrsResult T)) := do
  let (found, includePaths, erange) :=
    if env.stat filename then
      (true, (directory filename).toList ++ includePaths, erange)
    else
      let (filepath, erange) := findFile env filename includePaths false
      (filepath.isSome, includePaths, erange)
  if !found then .ok none
  else do
    let s ← parseAsmInto env includePaths depth ⟨0, filename⟩ (initParse erange)
    if s.freedKey then .error .freedKey
    else .ok (some (s.labelRefs.foldl labelRefsVisitor s.result))

end BvgzVm
