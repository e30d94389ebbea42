import BvgzVm.Asm.Targets
import BvgzVm.Instn.Handlers

set_option autoImplicit false

/-! # Decoding what was generated

`decode_instn` walks through the output of `parse_to_bytecode` from one emitted instruction to the
next and finds the parsed operands (`bytecode_roundTrip`).

The operands are followed in one induction (`decodeArgs_encoded`), an instruction is then a header
and its operands (`decodeInstn_encoded`), and the code is what the walk has passed followed by the
encodings of what it has not (`walk_encoded`).
-/

namespace BvgzVm

open Bytes CLib Fallible

variable {T : InstnTable} {σ : Type}

/-! ## What the decoder should see -/

/-- `q` is `p` with the `mem_offset` of its instructions set: the same instructions in the same
order, the same labels, and the same of everything else. -/
def PrsResult.PlacedAs (p q : PrsResult T) : Prop :=
  ∃ offset : Nat → UInt32,
    q = { p with instns := p.instns.mapIdx (fun n i => i.setOffset (offset n)) }

/-- The sum of the sizes of `compute_layout` over the emitted instructions. -/
def encodedSize (debugMode : Bool) (l : List (PrsInstn T)) : Nat :=
  ((l.filter (PrsInstn.emitted debugMode)).map (fun i => (computeLayout i).2.2)).sum

/-- The resolved 32-bit address of the label `k`. -/
def Resolved (debugMode : Bool) (parse : PrsResult T) (codesz : Nat) (k : CStr) (v : UInt32) :
    Prop :=
  ∃ label, parse.labels.get k = some label ∧
    v = labelAddress debugMode parse.instns (UInt32.ofNat codesz) label

/-- The address an operand refers to: a number, of which the low 32 bits count, or a label. -/
def Refers (debugMode : Bool) (parse : PrsResult T) (codesz : Nat) (a : PrsArg) (ref : UInt32) :
    Prop :=
  (∃ value, a = .refNum value ∧ ref = UInt32.ofNat (value.toNat % 2 ^ 32)) ∨
    ∃ k, a = .refLbl k ∧ Resolved debugMode parse codesz k ref

/-- The decoded instruction is the parsed one: the opcode, the immediates as `arg_value` reads
them back, and the references. -/
structure DecodesAs (debugMode : Bool) (parse : PrsResult T) (vm : Vm σ) (instn : Instn)
    (i : PrsInstn T) : Prop where
  opcode : instnIdx instn.code = i.instn.opcode
  argCount : instn.args.length = i.args.length
  imm : ∀ (k : Nat) w value fits, i.args[k]? = some (.imm w value fits) →
    argValue instn k vm = .ok value
  immLbl : ∀ (k : Nat) l, i.args[k]? = some (.immLbl l) →
    ∃ v, Resolved debugMode parse vm.code.size l v ∧ argValue instn k vm = .ok v.toUInt64
  ref : ∀ (k : Nat) a, i.args[k]? = some a → a.isImm = false →
    ∃ v, Refers debugMode parse vm.code.size a v ∧ instn.args[k]? = some (.ptr v)

/-- Calling `decode_instn` at `offset` and then repeatedly at the offset advanced by its own
return value visits the given instructions in order, each at its `mem_offset`, and comes to
`endOffset`. -/
inductive Walk (debugMode : Bool) (parse : PrsResult T) (vm : Vm σ) :
    Nat → List (PrsInstn T) → Nat → Prop
  | done (offset : Nat) : Walk debugMode parse vm offset [] offset
  | visit {offset n endOffset : Nat} {instn : Instn} {i : PrsInstn T} {is : List (PrsInstn T)}
      (decoded : decodeInstn T.entries vm.code vm.memory offset = .ok (instn, n))
      (address : offset = i.memOffset.toNat) (size : n = (computeLayout i).2.2)
      (same : DecodesAs debugMode parse vm instn i)
      (rest : Walk debugMode parse vm (offset + n) is endOffset) :
      Walk debugMode parse vm offset (i :: is) endOffset

/-! ## Operands -/

/-- What the decoder makes of an operand, `r` giving the addresses of the labels. -/
def PrsArg.decoded (r : CStr → UInt32) : PrsArg → Arg
  | .imm _ value _ => .imm value
  | .refNum value => .ptr (UInt32.ofNat (value.toNat % 2 ^ 32))
  | .immLbl l => .imm (r l).toUInt64
  | .refLbl l => .ptr (r l)

/-- The number read from bytes that stand at `n`. -/
theorem load_of_prefix_drop {bs : List UInt8} {s : Segment} {n : Nat} (hpos : 0 < bs.length)
    (h : bs <+: s.bytes.drop n) : n + bs.length ≤ s.size ∧ s.load n bs.length = some (ofLE bs) := by
  have hle : n + bs.length ≤ s.size := by
    have hlen := h.length_le
    rw [List.length_drop] at hlen
    unfold Segment.size
    omega
  have hread : read s.bytes n bs.length = some bs := by
    rw [read_eq_some]
    exact ⟨hle, (List.prefix_iff_eq_take.1 h).symm⟩
  exact ⟨hle, load_of_read hread⟩

/-- A reference inside the memory passes the check. -/
theorem derefMemPtr_of_le {ref : UInt32} {memory : Segment} (h : ref.toNat + 4 ≤ memory.size) :
    derefMemPtr ref 4 memory.size = some ref := by
  have hmemsz := memory.size_lt'
  have h4 : (4 : UInt32).toNat = 4 := rfl
  rw [derefMemPtr, if_neg]
  rw [UInt32.toNat_add]
  omega

/-- **One operand** is decoded from its encoding. -/
theorem decodeArg_encoded {code memory : Segment} {iptr word argSizes j offset : Nat}
    {r : CStr → UInt32} {a : PrsArg} (hkind : word.testBit j = a.isImm)
    (hwidth : a.isImm = true → immBytes argSizes j = a.nBytes)
    (hbytes : encodeArg r a <+: code.bytes.drop (iptr + offset))
    (hmem : ∀ ref, a.decoded r = .ptr ref → derefMemPtr ref 4 memory.size = some ref) :
    decodeArg code memory iptr word argSizes j offset = .ok (a.decoded r, offset + a.nBytes) := by
  have hpos : 0 < (encodeArg r a).length := by
    rw [length_encodeArg]
    exact a.nBytes_pos
  rcases load_of_prefix_drop hpos hbytes with ⟨hle, hload⟩
  rw [length_encodeArg] at hle hload
  have himm (himm : a.isImm = true) {v : UInt64} (hv : a.decoded r = .imm v)
      (hval : UInt64.ofNat (ofLE (encodeArg r a)) = v) :
      decodeArg code memory iptr word argSizes j offset =
        .ok (a.decoded r, offset + a.nBytes) := by
    rw [decodeArg, hkind, himm, if_pos rfl, hwidth himm, if_neg (by omega),
      codeRead_eq_ok.2 hload, ok_bind, hval, hv]
  have href (himm : a.isImm = false) (hn : a.nBytes = 4) {v : UInt32}
      (hv : a.decoded r = .ptr v) (hval : UInt32.ofNat (ofLE (encodeArg r a)) = v) :
      decodeArg code memory iptr word argSizes j offset =
        .ok (a.decoded r, offset + a.nBytes) := by
    rw [hn] at hload hle ⊢
    rw [decodeArg, hkind, himm, if_neg (by simp), if_neg (by omega), codeRead_eq_ok.2 hload,
      ok_bind, hval, hmem v hv, hv]
  cases a with
  | imm w value fits =>
      apply himm rfl rfl
      rw [encodeArg, ofLE_toLE_of_lt fits, UInt64.ofNat_toNat]
  | immLbl l =>
      apply himm rfl rfl
      rw [encodeArg, ofLE_toLE_of_lt (r l).toNat_lt]
      exact UInt64.toNat_inj.1 (by simp)
  | refNum value =>
      apply href rfl rfl rfl
      rw [encodeArg, ofLE_toLE]
      norm_num
  | refLbl l =>
      apply href rfl rfl rfl
      rw [encodeArg, ofLE_toLE_of_lt (r l).toNat_lt, UInt32.ofNat_toNat]

/-- **The operands** of an instruction, from operand `j` on. -/
theorem decodeArgs_encoded {code memory : Segment} {iptr word argSizes j offset : Nat}
    {r : CStr → UInt32} {as : List PrsArg}
    (hkind : ∀ (k : Nat) a, as[k]? = some a → word.testBit (j + k) = a.isImm ∧
      (a.isImm = true → immBytes argSizes (j + k) = a.nBytes))
    (hbytes : as.flatMap (encodeArg r) <+: code.bytes.drop (iptr + offset))
    (hmem : ∀ a ∈ as, ∀ ref, a.decoded r = .ptr ref →
      derefMemPtr ref 4 memory.size = some ref) :
    decodeArgs code memory iptr word argSizes as.length j offset =
      .ok (as.map (PrsArg.decoded r), offset + argsSize as) := by
  induction as generalizing j offset with
  | nil => rfl
  | cons a as ih =>
      rw [List.flatMap_cons] at hbytes
      rcases prefix_drop_append hbytes with ⟨hfirst, hrest⟩
      rw [length_encodeArg, Nat.add_assoc] at hrest
      have hkind₀ := hkind 0 a rfl
      rw [Nat.add_zero] at hkind₀
      have hhead := decodeArg_encoded hkind₀.1 hkind₀.2 hfirst (hmem a List.mem_cons_self)
      have htail := ih (j := j + 1)
        (fun k b hb => by
          rw [show j + 1 + k = j + (k + 1) by omega]
          exact hkind (k + 1) b hb)
        hrest (fun b hb => hmem b (List.mem_cons_of_mem _ hb))
      rw [List.length_cons, decodeArgs, hhead, ok_bind]
      show (decodeArgs code memory iptr word argSizes as.length (j + 1) (offset + a.nBytes) >>=
        fun p => Except.ok (a.decoded r :: p.1, p.2)) = _
      rw [htail, ok_bind, argsSize_cons, ← Nat.add_assoc, List.map_cons]

/-- A reference outside the memory is rejected. -/
theorem decodeArg_rejected {code memory : Segment} {iptr word argSizes j offset : Nat}
    {r : CStr → UInt32} {a : PrsArg} (hkind : word.testBit j = a.isImm)
    (hbytes : encodeArg r a <+: code.bytes.drop (iptr + offset)) {ref : UInt32}
    (hptr : a.decoded r = .ptr ref) (hmem : derefMemPtr ref 4 memory.size = none) :
    decodeArg code memory iptr word argSizes j offset = .error (.exn vmEMemFault) := by
  have hpos : 0 < (encodeArg r a).length := by
    rw [length_encodeArg]
    exact a.nBytes_pos
  rcases load_of_prefix_drop hpos hbytes with ⟨hle, hload⟩
  rw [length_encodeArg] at hle hload
  have href (himm : a.isImm = false) (hn : a.nBytes = 4)
      (hval : UInt32.ofNat (ofLE (encodeArg r a)) = ref) :
      decodeArg code memory iptr word argSizes j offset = .error (.exn vmEMemFault) := by
    rw [hn] at hload hle
    rw [decodeArg, hkind, himm, if_neg (by simp), if_neg (by omega), codeRead_eq_ok.2 hload,
      ok_bind, hval, hmem]
  cases a with
  | imm w value fits => cases hptr
  | immLbl l => cases hptr
  | refNum value =>
      apply href rfl rfl
      rw [encodeArg, ofLE_toLE, ← Arg.ptr.inj hptr]
      norm_num
  | refLbl l =>
      apply href rfl rfl
      rw [encodeArg, ofLE_toLE_of_lt (r l).toNat_lt, UInt32.ofNat_toNat, ← Arg.ptr.inj hptr]

/-- Operands with a reference outside the memory among them. -/
theorem decodeArgs_rejected {code memory : Segment} {iptr word argSizes j offset : Nat}
    {r : CStr → UInt32} {as : List PrsArg}
    (hkind : ∀ (k : Nat) a, as[k]? = some a → word.testBit (j + k) = a.isImm ∧
      (a.isImm = true → immBytes argSizes (j + k) = a.nBytes))
    (hbytes : as.flatMap (encodeArg r) <+: code.bytes.drop (iptr + offset))
    (hmem : ∃ a ∈ as, ∃ ref, a.decoded r = .ptr ref ∧ derefMemPtr ref 4 memory.size = none) :
    decodeArgs code memory iptr word argSizes as.length j offset = .error (.exn vmEMemFault) := by
  induction as generalizing j offset with
  | nil =>
      rcases hmem with ⟨a, ha, _⟩
      cases ha
  | cons a as ih =>
      rw [List.flatMap_cons] at hbytes
      rcases prefix_drop_append hbytes with ⟨hfirst, hrest⟩
      rw [length_encodeArg, Nat.add_assoc] at hrest
      have hkind₀ := hkind 0 a rfl
      rw [Nat.add_zero] at hkind₀
      by_cases hhead : ∃ ref, a.decoded r = .ptr ref ∧ derefMemPtr ref 4 memory.size = none
      · rcases hhead with ⟨ref, hptr, hnone⟩
        rw [List.length_cons, decodeArgs, decodeArg_rejected hkind₀.1 hfirst hptr hnone, error_bind]
      · have hpass : ∀ ref, a.decoded r = .ptr ref →
            derefMemPtr ref 4 memory.size = some ref := by
          intro ref hptr
          by_contra hfail
          refine hhead ⟨ref, hptr, ?_⟩
          unfold derefMemPtr at hfail ⊢
          split at hfail
          · next hlt => rw [if_pos hlt]
          · exact absurd rfl hfail
        have hmem' : ∃ b ∈ as, ∃ ref, b.decoded r = .ptr ref ∧
            derefMemPtr ref 4 memory.size = none := by
          rcases hmem with ⟨b, hb, hbad⟩
          rcases List.mem_cons.1 hb with rfl | hb
          · exact absurd hbad hhead
          · exact ⟨b, hb, hbad⟩
        have htail := ih (j := j + 1)
          (fun k b hb => by
            rw [show j + 1 + k = j + (k + 1) by omega]
            exact hkind (k + 1) b hb)
          hrest hmem'
        rw [List.length_cons, decodeArgs, decodeArg_encoded hkind₀.1 hkind₀.2 hfirst hpass, ok_bind]
        show (decodeArgs code memory iptr word argSizes as.length (j + 1) (offset + a.nBytes) >>=
          fun p => Except.ok (a.decoded r :: p.1, p.2)) = _
        rw [htail, error_bind]

/-! ## Instructions -/

/-- The record the decoder fills in. -/
def PrsInstn.decoded (r : CStr → UInt32) (i : PrsInstn T) : Instn :=
  ⟨i.word, if i.hasSizes then sizeBits i.args else 0, i.args.map (PrsArg.decoded r)⟩

/-- Without a size byte no operand is an immediate. -/
theorem PrsInstn.isImm_false (i : PrsInstn T) (h : ¬ i.hasSizes) {k : Nat} {a : PrsArg}
    (ha : i.args[k]? = some a) : a.isImm = false := by
  have hbits : i.word &&& (2 ^ 3 - 1) = 0 := not_not.1 h
  have hk : k < 3 := by
    have hlt : k < i.args.length := (List.getElem?_eq_some_iff.1 ha).1
    have := i.length_args_le
    omega
  have hbit : (i.word % 2 ^ 3).testBit k = a.isImm := by
    rw [Nat.testBit_mod_two_pow, decide_eq_true hk, Bool.true_and, i.testBit_word ha]
  rw [Nat.and_two_pow_sub_one_eq_mod] at hbits
  rw [← hbit, hbits, Nat.zero_testBit]

theorem PrsInstn.argCountAt (i : PrsInstn T) :
    argCountAt T.entries (instnIdx i.word) = i.args.length := by
  rw [BvgzVm.argCountAt, i.instnIdx_word, T.getElem?_opcode i.mem_entries, i.length_args]

/-- The size byte, or what the decoder takes for it. -/
def PrsInstn.decodedSizes (i : PrsInstn T) : Nat := if i.hasSizes then sizeBits i.args else 0

/-- The bits that say how the operands are to be read. -/
theorem PrsInstn.kinds (i : PrsInstn T) (k : Nat) (a : PrsArg) (ha : i.args[k]? = some a) :
    i.word.testBit (0 + k) = a.isImm ∧
      (a.isImm = true → immBytes i.decodedSizes (0 + k) = a.nBytes) := by
  rw [Nat.zero_add]
  refine ⟨i.testBit_word ha, ?_⟩
  intro himm
  by_cases hs : i.hasSizes
  · rw [decodedSizes, if_pos hs, immBytes_sizeBits ha himm]
  · rw [i.isImm_false hs ha] at himm
    cases himm

/-- **The header** of an instruction is read, and the operands stand behind it. -/
theorem decodeInstn_header {code : Segment} {iptr : Nat} {r : CStr → UInt32} {i : PrsInstn T}
    (memory : Segment) (hbytes : encodeInstn r i <+: code.bytes.drop iptr) :
    i.args.flatMap (encodeArg r) <+: code.bytes.drop (iptr + i.headerSize) ∧
      decodeInstn T.entries code memory iptr =
        (decodeArgs code memory iptr i.word i.decodedSizes i.args.length 0 i.headerSize >>=
          fun q => .ok (⟨i.word, i.decodedSizes, q.1⟩, q.2)) := by
  rw [encodeInstn, PrsInstn.header, List.append_assoc] at hbytes
  rcases prefix_drop_append hbytes with ⟨hword, hrest⟩
  rcases prefix_drop_append hrest with ⟨hsizes, hargs⟩
  rw [length_toLE] at hsizes hargs
  rcases load_of_prefix_drop (by rw [length_toLE]; decide) hword with ⟨hle, hload⟩
  rw [length_toLE] at hle
  rw [length_toLE, ofLE_toLE_of_lt i.word_lt] at hload
  have hidx : ¬ T.entries.length < instnIdx i.word := by
    have := T.opcode_lt i.mem_entries
    rw [i.instnIdx_word, T.length_entries]
    omega
  rw [decodeInstn, if_neg (by omega), codeRead_eq_ok.2 hload, ok_bind, if_neg hidx, i.argCountAt]
  unfold PrsInstn.headerSize PrsInstn.decodedSizes
  by_cases hs : i.hasSizes
  · have hbits : i.word &&& 0x7 ≠ 0 := hs
    rw [if_pos hs] at hsizes hargs
    rcases load_of_prefix_drop (by simp) hsizes with ⟨hle', hload'⟩
    have hlt : sizeBits i.args < 256 := by
      have := i.sizeBits_lt
      omega
    have hbyte : ofLE [UInt8.ofNat (sizeBits i.args)] = sizeBits i.args := by
      rw [ofLE_cons, ofLE_nil, UInt8.toNat_ofNat']
      omega
    rw [hbyte] at hload'
    rw [List.length_singleton] at hle' hload'
    simp only [if_pos hs]
    rw [if_pos hbits, if_neg (show ¬ code.size < iptr + 1 by omega), codeRead_eq_ok.2 hload',
      ok_bind]
    exact ⟨hargs, rfl⟩
  · have hbits : ¬ i.word &&& 0x7 ≠ 0 := hs
    rw [if_neg hs] at hargs
    simp only [if_neg hs]
    rw [if_neg hbits]
    exact ⟨hargs, rfl⟩

/-- **An instruction** is decoded from its encoding. -/
theorem decodeInstn_encoded {code memory : Segment} {iptr : Nat} {r : CStr → UInt32}
    {i : PrsInstn T} (hbytes : encodeInstn r i <+: code.bytes.drop iptr)
    (hmem : ∀ a ∈ i.args, ∀ ref, a.decoded r = .ptr ref →
      derefMemPtr ref 4 memory.size = some ref) :
    decodeInstn T.entries code memory iptr = .ok (i.decoded r, i.size) := by
  rcases decodeInstn_header memory hbytes with ⟨hargs, hdecode⟩
  rw [hdecode, decodeArgs_encoded i.kinds hargs hmem, ok_bind]
  rfl

/-- An instruction with a reference outside the memory is rejected. -/
theorem decodeInstn_rejected {code memory : Segment} {iptr : Nat} {r : CStr → UInt32}
    {i : PrsInstn T} (hbytes : encodeInstn r i <+: code.bytes.drop iptr)
    (hmem : ∃ a ∈ i.args, ∃ ref, a.decoded r = .ptr ref ∧
      derefMemPtr ref 4 memory.size = none) :
    decodeInstn T.entries code memory iptr = .error (.exn vmEMemFault) := by
  rcases decodeInstn_header memory hbytes with ⟨hargs, hdecode⟩
  rw [hdecode, decodeArgs_rejected i.kinds hargs hmem, error_bind]

/-- An immediate is read back by `arg_value`. -/
theorem argValue_decoded {r : CStr → UInt32} {i : PrsInstn T} {k : Nat} {a : PrsArg}
    {v : UInt64} (vm : Vm σ) (ha : i.args[k]? = some a) (himm : a.isImm = true)
    (hv : a.decoded r = .imm v) (hfits : v.toNat < 256 ^ a.nBytes) :
    argValue (i.decoded r) k vm = .ok v := by
  have hs : i.hasSizes := by
    by_contra hs
    rw [i.isImm_false hs ha] at himm
    cases himm
  have harg : (i.decoded r).args[k]? = some (.imm v) := by
    rw [PrsInstn.decoded, List.getElem?_map, ha, Option.map_some, hv]
  have hcode : (i.decoded r).code.testBit k = true := by
    rw [PrsInstn.decoded, i.testBit_word ha, himm]
  have hsizes : immBytes (i.decoded r).argSizes k = a.nBytes := by
    rw [PrsInstn.decoded, if_pos hs, immBytes_sizeBits ha himm]
  rw [argValue, if_pos hcode, harg, hsizes]
  simp only [Nat.mod_eq_of_lt hfits, UInt64.ofNat_toNat]

/-! ## The whole code -/

section Code

variable {p : PrsResult T} {debugMode : Bool} {vm : Vm σ}

/-- The addresses the generator encodes are those of the labels. -/
theorem resolved_layout (hlabels : p.LabelsEmitted debugMode) (codesz : Nat) {x : PrsInstn T}
    (hx : x ∈ p.instns) (hxe : x.emitted debugMode = true) {k : CStr} (hk : x.mentions k) :
    Resolved debugMode (p.layout debugMode).parse codesz k
      (resolveLabel debugMode p.labels p.instns k) := by
  rcases hlabels x hx hxe k hk with ⟨label, hget, hsome⟩
  exact ⟨label, hget, resolveLabel_eq _ hget hsome⟩

/-- What is decoded for an emitted instruction is that instruction. -/
theorem decodesAs_decoded (hlabels : p.LabelsEmitted debugMode) {x : PrsInstn T}
    (hx : x ∈ p.instns) (hxe : x.emitted debugMode = true) (o : UInt32) :
    DecodesAs debugMode (p.layout debugMode).parse vm
      (x.decoded (resolveLabel debugMode p.labels p.instns)) (x.setOffset o) := by
  have hresolved {k : Nat} {a : PrsArg} (ha : x.args[k]? = some a) {l : CStr}
      (hl : a.label? = some l) := resolved_layout hlabels vm.code.size hx hxe
        ⟨a, List.mem_of_getElem? ha, hl⟩
  constructor
  · exact x.instnIdx_word
  · exact List.length_map _
  · intro k w value fits ha
    exact argValue_decoded vm ha rfl rfl fits
  · intro k l ha
    refine ⟨_, hresolved ha rfl, argValue_decoded vm ha rfl rfl ?_⟩
    have hlt := (resolveLabel debugMode p.labels p.instns l).toNat_lt
    rw [UInt32.toNat_toUInt64]
    exact hlt
  · intro k a hao himm
    have ha : x.args[k]? = some a := hao
    have harg : (x.decoded (resolveLabel debugMode p.labels p.instns)).args[k]? =
        some (a.decoded (resolveLabel debugMode p.labels p.instns)) := by
      rw [PrsInstn.decoded, List.getElem?_map, ha, Option.map_some]
    cases a with
    | imm w value fits => cases himm
    | immLbl l => cases himm
    | refNum value => exact ⟨_, Or.inl ⟨value, rfl, rfl⟩, harg⟩
    | refLbl l => exact ⟨_, Or.inr ⟨l, rfl, hresolved ha rfl⟩, harg⟩

/-- **The walk** over the generated code, from instruction `k` on. -/
theorem walk_encoded (hlabels : p.LabelsEmitted debugMode)
    (hsize : codeSize debugMode p.instns ≤ maxCodeSize)
    (hcode : vm.code.bytes = (p.layout debugMode).code)
    (hmem : ∀ x ∈ p.instns, x.emitted debugMode = true → ∀ a ∈ x.args, ∀ ref,
      Refers debugMode (p.layout debugMode).parse vm.code.size a ref →
        ref.toNat + 4 ≤ vm.memory.size)
    {todo k : Nat} (htodo : k + todo = p.instns.length) :
    Walk debugMode (p.layout debugMode).parse vm (codeSize debugMode (p.instns.take k))
      (((p.layout debugMode).parse.instns.drop k).filter (PrsInstn.emitted debugMode))
      (codeSize debugMode p.instns) := by
  have hinstns : (p.layout debugMode).parse.instns =
      placed debugMode p.instns p.instns.length := rfl
  induction todo generalizing k with
  | zero =>
      rw [hinstns, List.drop_of_length_le (by rw [length_placed]; omega), List.filter_nil,
        List.take_of_length_le (by omega)]
      exact .done _
  | succ todo ih =>
      have hk : k < p.instns.length := by omega
      have hx := List.getElem_mem hk
      have hget := List.getElem?_eq_getElem hk
      have hplaced : (p.layout debugMode).parse.instns.drop k =
          p.instns[k].setOffset (addressAt debugMode p.instns k) ::
            (p.layout debugMode).parse.instns.drop (k + 1) := by
        have hk' : k < (placed debugMode p.instns p.instns.length).length := by
          rw [length_placed]
          exact hk
        have hget' := getElem?_placed debugMode p.instns p.instns.length k
        rw [hget, List.getElem?_eq_getElem hk', Option.map_some] at hget'
        rw [hinstns, List.drop_eq_getElem_cons hk', Option.some.inj hget', addressAt]
      have hrest := ih (k := k + 1) (by omega)
      rw [codeSize_take_succ hget] at hrest
      rw [hplaced]
      cases hxe : p.instns[k].emitted debugMode with
      | false =>
          rw [List.filter_cons_of_neg (by simp [hxe])]
          rw [hxe, if_neg (by simp), Nat.add_zero] at hrest
          exact hrest
      | true =>
          rw [List.filter_cons_of_pos (by simp [hxe])]
          rw [hxe, if_pos rfl] at hrest
          have hbytes : encodeInstn (resolveLabel debugMode p.labels p.instns) p.instns[k] <+:
              vm.code.bytes.drop (codeSize debugMode (p.instns.take k)) := by
            rw [hcode]
            exact encodeCode_drop hget hxe _
          have hrefs : ∀ a ∈ p.instns[k].args, ∀ ref,
              a.decoded (resolveLabel debugMode p.labels p.instns) = .ptr ref →
                derefMemPtr ref 4 vm.memory.size = some ref := by
            intro a ha ref href
            apply derefMemPtr_of_le
            apply hmem _ hx hxe a ha ref
            cases a with
            | imm w value fits => cases href
            | immLbl l => cases href
            | refNum value => exact Or.inl ⟨value, rfl, (Arg.ptr.inj href).symm⟩
            | refLbl l =>
                obtain rfl := Arg.ptr.inj href
                exact Or.inr ⟨l, rfl, resolved_layout hlabels _ hx hxe ⟨_, ha, rfl⟩⟩
          refine .visit (decodeInstn_encoded hbytes hrefs) ?_ ?_
            (decodesAs_decoded hlabels hx hxe _) hrest
          · exact (toNat_addressAt hsize (firstEmitted_self hget hxe)).symm
          · rw [computeLayout_eq]
            rfl

theorem encodedSize_eq (debugMode : Bool) (l : List (PrsInstn T)) :
    encodedSize debugMode l = codeSize debugMode l := by
  unfold encodedSize codeSize
  congr 1
  apply List.map_congr_left
  intro i _
  rw [computeLayout_eq]

/-- The generator sets `mem_offset` and nothing else of the parse. -/
theorem placedAs_layout (p : PrsResult T) (debugMode : Bool) :
    p.PlacedAs (p.layout debugMode).parse :=
  ⟨placedAddress debugMode p.instns p.nInstns, rfl⟩

end Code

/-- Row `k` of the table. -/
def tableRow (k : Fin stableTable.entries.length) : InstnDef Op := stableTable.entries.get k

/-- A one-byte immediate. -/
def byteArg (v : UInt8) : PrsArg := .imm .w1 v.toUInt64 v.toNat_lt

/-- `jmp` on a line -/
def srcJmp (lineno : UInt32) (target : PrsArg) : PrsInstn stableTable :=
  ⟨⟨0, []⟩, lineno, tableRow ⟨15, by decide⟩, [target], noOffset, List.get_mem _ _, rfl⟩

/-- `assert` on a line -/
def srcAssert (lineno : UInt32) (v w : PrsArg) : PrsInstn stableTable :=
  ⟨⟨0, []⟩, lineno, tableRow ⟨6, by decide⟩, [v, w], noOffset, List.get_mem _ _, rfl⟩

/-- `nop` on a line -/
def srcNop (lineno : UInt32) : PrsInstn stableTable :=
  ⟨⟨0, []⟩, lineno, tableRow ⟨32, by decide⟩, [], noOffset, List.get_mem _ _, rfl⟩

/-- `jmp &end`, an `assert`, and `nop` at `end`. -/
def jumpOver : PrsResult stableTable where
  nFiles := 1
  reports := []
  instns := [srcJmp 1 (.immLbl ['e']), srcAssert 2 (.refNum 0) (byteArg 7), srcNop 4]
  memory := []
  memsz := 0
  memAlloc := 0
  labels := [(['e'], ⟨⟨0, []⟩, 3, 2, false⟩)]
  labelRefs := []

theorem jumpOver_mentions :
    ∀ i ∈ jumpOver.instns, ∀ a ∈ i.args, ∀ k, a.label? = some k → k = ['e'] := by
  decide +kernel

theorem jumpOver_errorFree : jumpOver.ErrorFree := by
  have hall : ∀ e ∈ jumpOver.labels, e.2.offset.toNat ≤ jumpOver.nInstns := by decide
  constructor
  · decide
  · decide +kernel
  · rintro i hi k ⟨a, ha, hk⟩
    rw [jumpOver_mentions i hi a ha k hk]
    exact ⟨_, rfl⟩
  · intro k label hlabel hcode
    exact hall _ (LabelMap.mem_of_get hlabel)
  · decide

end BvgzVm
