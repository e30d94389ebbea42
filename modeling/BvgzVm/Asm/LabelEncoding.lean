import BvgzVm.Asm.ParserInv
import BvgzVm.Asm.RoundTrip

set_option autoImplicit false

/-! # Encoded labels

From the source to the bytes of a label: in the code of a source that `parse_asm` accepts, every
code label of an emitted instruction is encoded as its address exactly when an emitted instruction
follows the label (`codeLabelsEncoded_iff`).

A label at the end of the source is looked up behind the last instruction, and a label before
skipped instructions at the end of the source is encoded as the address of an instruction that has
none.
-/

namespace BvgzVm

open Bytes CLib

variable {T : InstnTable}

/-- The offset of operand `j` in the encoding of the instruction. -/
def PrsInstn.operandOffset (i : PrsInstn T) (j : Nat) : Nat :=
  i.headerSize + argsSize (i.args.take j)

/-- `parse_to_bytecode` returns and sets no more of the parse than `mem_offset`, and every operand
of an emitted instruction that is a code label is encoded as the address of this label: that of the
first emitted instruction at or after it, or `codesz`. -/
def CodeLabelsEncoded (fill : Nat → UInt8) (p : PrsResult T) (debugMode : Bool) : Prop :=
  ∃ b, parseToBytecode fill p debugMode = .ok b ∧ p.PlacedAs b.parse ∧
    ∀ i ∈ b.parse.instns, i.emitted debugMode = true →
      ∀ (j : Nat) a k, i.args[j]? = some a → a.label? = some k →
        ∀ label, b.parse.labels.get k = some label → label.isMemRef = false →
          load b.code (i.memOffset.toNat + i.operandOffset j) 4 =
            some (labelAddress debugMode b.parse.instns (UInt32.ofNat b.code.length) label).toNat

/-! ## Where an operand stands -/

/-- An operand stands behind the header and the operands before it. -/
theorem encodeArg_at (r : CStr → UInt32) {i : PrsInstn T} {j : Nat} {a : PrsArg}
    (ha : i.args[j]? = some a) : encodeArg r a <+: (encodeInstn r i).drop (i.operandOffset j) := by
  have hlt : j < i.args.length := (List.getElem?_eq_some_iff.1 ha).1
  have hargs : i.args = i.args.take j ++ (a :: i.args.drop (j + 1)) := by
    have hget : i.args[j] = a := (List.getElem?_eq_some_iff.1 ha).2
    rw [← hget, ← List.drop_eq_getElem_cons hlt, List.take_append_drop]
  have hsplit : encodeInstn r i = (i.header ++ (i.args.take j).flatMap (encodeArg r)) ++
      (encodeArg r a ++ (i.args.drop (j + 1)).flatMap (encodeArg r)) := by
    calc encodeInstn r i
        = i.header ++ (i.args.take j ++ (a :: i.args.drop (j + 1))).flatMap (encodeArg r) := by
          rw [← hargs, encodeInstn]
      _ = _ := by rw [List.flatMap_append, List.flatMap_cons, List.append_assoc]
  have hlen : (i.header ++ (i.args.take j).flatMap (encodeArg r)).length = i.operandOffset j := by
    rw [List.length_append, i.length_header, length_encodeArgs, PrsInstn.operandOffset]
  rw [hsplit, ← hlen, List.drop_left]
  exact List.prefix_append _ _

/-- **The bytes of a label operand** are the number the label stands for. -/
theorem load_labelOperand {debugMode : Bool} {l : List (PrsInstn T)} {n j : Nat} {i : PrsInstn T}
    {a : PrsArg} {k : CStr} (r : CStr → UInt32) (hn : l[n]? = some i)
    (hie : i.emitted debugMode = true) (ha : i.args[j]? = some a) (hk : a.label? = some k) :
    load (encodeCode debugMode r l) (codeSize debugMode (l.take n) + i.operandOffset j) 4 =
      some (r k).toNat := by
  have hinstn := (encodeCode_drop hn hie r).drop (i.operandOffset j)
  rw [List.drop_drop] at hinstn
  have hbytes := (encodeArg_at r ha).trans hinstn
  have harg : encodeArg r a = toLE 4 (r k).toNat := by
    cases a with
    | imm w value fits => cases hk
    | refNum value => cases hk
    | refLbl l =>
        rw [← Option.some.inj hk, encodeArg]
    | immLbl l =>
        rw [← Option.some.inj hk, encodeArg]
  rw [harg] at hbytes
  have hread : read (encodeCode debugMode r l)
      (codeSize debugMode (l.take n) + i.operandOffset j) 4 = some (toLE 4 (r k).toNat) := by
    have hlen := hbytes.length_le
    have htake := List.prefix_iff_eq_take.1 hbytes
    rw [length_toLE] at htake
    rw [length_toLE, List.length_drop] at hlen
    rw [read_eq_some]
    exact ⟨by omega, htake.symm⟩
  rw [load_of_read hread, ofLE_toLE_of_lt (r k).toNat_lt]

/-! ## In the output of the generator -/

section Layout

variable {p : PrsResult T} {debugMode : Bool}

/-- An instruction of the output is an instruction of the source with its address. -/
theorem getElem?_layout {n : Nat} {i : PrsInstn T} (hn : p.instns[n]? = some i) :
    (p.layout debugMode).parse.instns[n]? =
      some (i.setOffset (addressAt debugMode p.instns n)) := by
  show (placed debugMode p.instns p.instns.length)[n]? = _
  rw [getElem?_placed, hn, Option.map_some, addressAt]

/-- Every instruction of the output is one of the source with its address. -/
theorem mem_layout {i : PrsInstn T} (h : i ∈ (p.layout debugMode).parse.instns) :
    ∃ (n : Nat) (x : PrsInstn T), p.instns[n]? = some x ∧
      i = x.setOffset (addressAt debugMode p.instns n) := by
  rcases List.mem_iff_getElem?.1 h with ⟨n, hn⟩
  have hlt : n < p.instns.length := by
    have hlt := (List.getElem?_eq_some_iff.1 hn).1
    rw [← length_placed debugMode p.instns p.instns.length]
    exact hlt
  have hx : p.instns[n]? = some p.instns[n] := List.getElem?_eq_getElem hlt
  rw [getElem?_layout hx] at hn
  exact ⟨n, _, hx, (Option.some.inj hn).symm⟩

/-- The generator returns the layout, if it returns, and then the code is not too long. -/
theorem parseToBytecode_eq_layout {fill : Nat → UInt8} {b : Bytecode T} (hp : p.ErrorFree)
    (h : parseToBytecode fill p debugMode = .ok b) :
    b = p.layout debugMode ∧ codeSize debugMode p.instns ≤ maxCodeSize := by
  rcases parseToBytecode_spec fill debugMode hp with ⟨hhang, hindex, hok⟩
  have hmax : codeSize debugMode p.instns ≤ maxCodeSize := by
    by_contra hlt
    rw [hhang (by omega)] at h
    cases h
  have hinside : p.CodeLabelsInside debugMode := by
    by_contra hout
    rw [hindex hmax hout] at h
    cases h
  rw [hok hmax hinside] at h
  exact ⟨(Except.ok.inj h).symm, hmax⟩

/-- **A label operand in the output** is the number the label stands for. -/
theorem load_layout (hmax : codeSize debugMode p.instns ≤ maxCodeSize) {n j : Nat}
    {i : PrsInstn T} {a : PrsArg} {k : CStr} (hn : p.instns[n]? = some i)
    (hie : i.emitted debugMode = true) (ha : i.args[j]? = some a) (hk : a.label? = some k) :
    load (p.layout debugMode).code
        ((addressAt debugMode p.instns n).toNat + i.operandOffset j) 4 =
      some (resolveLabel debugMode p.labels p.instns k).toNat := by
  rw [toNat_addressAt hmax (firstEmitted_self hn hie)]
  exact load_labelOperand (resolveLabel debugMode p.labels p.instns) hn hie ha hk

/-- Behind the last emitted instruction there is no address. -/
theorem addressAt_eq_noOffset {l : List (PrsInstn T)} {idx : Nat}
    (h : (firstEmitted debugMode l idx).isSome = false) :
    addressAt debugMode l idx = noOffset := by
  rw [firstEmitted_isSome] at h
  rw [addressAt, placedAddress, List.take_length, h, if_neg Bool.false_ne_true]

/-- The output is too short for `codesz` to be `(uint32_t)-1`. -/
theorem ofNat_length_layout_ne (hmax : codeSize debugMode p.instns ≤ maxCodeSize) :
    UInt32.ofNat (p.layout debugMode).code.length ≠ noOffset := by
  have hlen : (p.layout debugMode).code.length = codeSize debugMode p.instns := by
    rw [PrsResult.layout, length_encodeCode]
  intro heq
  have htoNat := congrArg UInt32.toNat heq
  unfold maxCodeSize at hmax
  rw [hlen, UInt32.toNat_ofNat_of_lt' (by show _ < 2 ^ 32; omega)] at htoNat
  have hno : noOffset.toNat = 2 ^ 32 - 1 := rfl
  omega

/-- A code label that is encoded as its address is followed by an emitted instruction. -/
theorem isSome_of_encoded (hmax : codeSize debugMode p.instns ≤ maxCodeSize) {k : CStr}
    {label : Label} (hget : p.labels.get k = some label) (hcode : label.isMemRef = false)
    (h : resolveLabel debugMode p.labels p.instns k = labelAddress debugMode
      (p.layout debugMode).parse.instns (UInt32.ofNat (p.layout debugMode).code.length) label) :
    (firstEmitted debugMode p.instns label.offset.toNat).isSome = true := by
  by_contra hnone
  rw [Bool.not_eq_true] at hnone
  have hnone' : firstEmitted debugMode (p.layout debugMode).parse.instns label.offset.toNat =
      none := by
    rw [← Option.not_isSome_iff_eq_none, firstEmitted_isSome]
    rw [firstEmitted_isSome] at hnone
    show ¬ ((placed debugMode p.instns p.instns.length).drop _).any _ = true
    rw [any_drop_placed, hnone]
    exact Bool.false_ne_true
  have hresolved : resolveLabel debugMode p.labels p.instns k = noOffset := by
    rw [resolveLabel, hget]
    simp only [hcode, Bool.false_eq_true, if_false]
    exact addressAt_eq_noOffset hnone
  rw [hresolved, labelAddress, hcode, if_neg Bool.false_ne_true, hnone'] at h
  exact ofNat_length_layout_ne hmax h.symm

end Layout

/-- **Encoded labels.** For a source that is parsed without errors, `parse_to_bytecode` returns
and encodes every code label of an emitted instruction as its address if and only if every such
label is followed by an emitted instruction and the code has at most `2 ^ 32 - 256` bytes. -/
theorem codeLabelsEncoded_iff {env : PrsEnv} {depth : Nat} {erange : Bool} {filename : CStr}
    {includePaths : List CStr} {p : PrsResult T} (fill : Nat → UInt8) (debugMode : Bool)
    (hparse : parseAsm env depth erange filename includePaths = .ok (some p))
    (herr : p.errors = 0) :
    CodeLabelsEncoded fill p debugMode ↔
      p.LabelsEmitted debugMode ∧ encodedSize debugMode p.instns ≤ 2 ^ 32 - 256 := by
  have hp := parseAsm_errorFree hparse herr
  rcases parseToBytecode_spec fill debugMode hp with ⟨hhang, hindex, hok⟩
  rw [encodedSize_eq]
  constructor
  · rintro ⟨b, hb, -, hencoded⟩
    rcases parseToBytecode_eq_layout hp hb with ⟨rfl, hmax⟩
    refine ⟨?_, hmax⟩
    rintro i hi hie k ⟨a, ha, hk⟩
    rcases hp.defined i hi k ⟨a, ha, hk⟩ with ⟨label, hget⟩
    refine ⟨label, hget, fun hcode => ?_⟩
    rcases List.mem_iff_getElem?.1 hi with ⟨n, hn⟩
    rcases List.mem_iff_getElem?.1 ha with ⟨j, hj⟩
    have hload := hencoded _ (List.mem_of_getElem? (getElem?_layout hn)) hie j a k hj hk label
      hget hcode
    rw [PrsInstn.setOffset_memOffset] at hload
    have hbytes := (load_layout hmax hn hie hj hk).symm.trans hload
    exact isSome_of_encoded hmax hget hcode (UInt32.toNat_inj.1 (Option.some.inj hbytes))
  · rintro ⟨hlabels, hmax⟩
    refine ⟨p.layout debugMode, hok hmax hlabels.inside, placedAs_layout p debugMode, ?_⟩
    intro y hy hye j a k hj hk label hget hcode
    rcases mem_layout hy with ⟨n, x, hx, rfl⟩
    have hlabel : p.labels.get k = some label := hget
    have hsome : (firstEmitted debugMode p.instns label.offset.toNat).isSome = true := by
      rcases hlabels _ (List.mem_of_getElem? hx) hye k ⟨a, List.mem_of_getElem? hj, hk⟩ with
        ⟨label', hget', hsome⟩
      rw [hlabel] at hget'
      obtain rfl := Option.some.inj hget'
      exact hsome hcode
    rw [PrsInstn.setOffset_memOffset]
    have hload := load_layout hmax hx hye hj hk
    rw [resolveLabel_eq (UInt32.ofNat (p.layout debugMode).code.length) hlabel
      (fun _ => hsome)] at hload
    exact hload

/-! ## Sources -/

/-- Every path is a file with these contents. -/
def singleFile (contents : CStr) : PrsEnv where
  stat _ := true
  fopen _ := some (contents.map byte)
  memAllocBlockSz := 4096
  freshType _ := 0

/-- The source of `jumpOver`. -/
theorem parseAsm_jumpOver :
    parseAsm (singleFile "jmp &e\nassert *0, 7\ne:\nnop\n".toList) 1 false [] [] =
      .ok (some jumpOver) := by
  decide +kernel

theorem codeLabelsEncoded_jump : CodeLabelsEncoded (fun _ => 0) jumpOver false := by
  have hlabels : jumpOver.LabelsEmitted false := by
    rintro i hi - k ⟨a, ha, hk⟩
    rw [jumpOver_mentions i hi a ha k hk]
    exact ⟨_, rfl, fun _ => by decide +kernel⟩
  exact (codeLabelsEncoded_iff (fun _ => 0) false parseAsm_jumpOver rfl).2
    ⟨hlabels, by decide +kernel⟩

/-- `jmp &e`, and the label `e` at the end. -/
def jumpToEnd : PrsResult stableTable where
  nFiles := 1
  reports := []
  instns := [srcJmp 1 (.immLbl ['e'])]
  memory := []
  memsz := 0
  memAlloc := 0
  labels := [(['e'], ⟨⟨0, []⟩, 2, 1, false⟩)]
  labelRefs := []

/-- A label at the end of the source: `parse_to_bytecode` accesses the instruction behind the
last one. -/
theorem codeLabel_at_end :
    parseAsm (singleFile "jmp &e\ne:\n".toList) 1 false [] [] = .ok (some jumpToEnd) ∧
      jumpToEnd.errors = 0 ∧
      parseToBytecode (fun _ => 0) jumpToEnd false = .error .instnIndex ∧
      ¬ CodeLabelsEncoded (fun _ => 0) jumpToEnd false := by
  have hparse : parseAsm (singleFile "jmp &e\ne:\n".toList) 1 false [] [] =
      .ok (some jumpToEnd) := by
    decide +kernel
  have hout : ¬ jumpToEnd.CodeLabelsInside false := by
    have hemitted : ∀ i ∈ jumpToEnd.instns, i.emitted false = true := by decide +kernel
    intro hinside
    have hlt := hinside _ List.mem_cons_self (hemitted _ List.mem_cons_self) ['e']
      ⟨_, List.mem_cons_self, rfl⟩ _ rfl rfl
    exact absurd hlt (by decide)
  have hsize : codeSize false jumpToEnd.instns ≤ maxCodeSize := by decide +kernel
  have hp : jumpToEnd.ErrorFree := parseAsm_errorFree hparse rfl
  have hfault := (parseToBytecode_spec (fun _ => 0) false hp).2.1 hsize hout
  refine ⟨hparse, rfl, hfault, ?_⟩
  rintro ⟨b, hb, -⟩
  rw [hfault] at hb
  cases hb

end BvgzVm
