import BvgzVm.Strip.Places

set_option autoImplicit false

/-! # An instruction decoded from the two codes

At corresponding places the decoder finds the same instruction, or it rejects both for a reference
outside the memory (`decodeInstn_alike`). The records are the same (`decoded_eq`), except that the
first operand of a jump or a call is the address of its target in the one code and in the other.
-/

namespace BvgzVm

open CLib

variable {T : InstnTable} {σ : Type}

/-- The number encoded for a label. -/
def PrsResult.resolved (p : PrsResult T) (debugMode : Bool) : CStr → UInt32 :=
  resolveLabel debugMode p.labels p.instns

/-- A program whose two codes correspond: the generator returns, and what jumps goes to a label. -/
structure PrsResult.Relocates (p : PrsResult T) : Prop where
  strippable : p.Strippable
  targets : p.TargetsLabels
  size : codeSize true p.instns ≤ maxCodeSize
  inside : p.CodeLabelsInside true

section Program

variable {p : PrsResult T} {x : PrsInstn T}

theorem PrsResult.Relocates.size_le (hp : p.Relocates) (debugMode : Bool) :
    codeSize debugMode p.instns ≤ maxCodeSize := by
  cases debugMode with
  | true => exact hp.size
  | false => exact le_trans (codeSize_false_le p.instns) hp.size

/-! ## Operands -/

/-- An operand is decoded alike, unless it is the target of a jump. -/
theorem decoded_operand (hp : p.Strippable) (hx : x ∈ p.instns) {j : Nat} {a : PrsArg}
    (ha : x.args[j]? = some a) (hj : j = 0 → x.instn.handler.jumps = false) :
    a.decoded (p.resolved true) = a.decoded (p.resolved false) := by
  have hlabel {k : CStr} (hk : a.label? = some k) : p.resolved true k = p.resolved false k := by
    apply resolveLabel_data
    intro hcode
    rcases hp.onlyTargets x hx j a k ha hk hcode with ⟨rfl, -, hjumps⟩
    rw [hj rfl] at hjumps
    cases hjumps
  cases a with
  | imm w value fits => rfl
  | refNum value => rfl
  | immLbl k => rw [PrsArg.decoded, PrsArg.decoded, hlabel rfl]
  | refLbl k => rw [PrsArg.decoded, PrsArg.decoded, hlabel rfl]

/-- A reference is never the target of a jump. -/
theorem decoded_ptr (hp : p.Strippable) (hx : x ∈ p.instns) {a : PrsArg} (ha : a ∈ x.args)
    (debugMode : Bool) {ref : UInt32} (hptr : a.decoded (p.resolved debugMode) = .ptr ref) :
    ∀ dm, a.decoded (p.resolved dm) = .ptr ref := by
  have heq : a.decoded (p.resolved true) = a.decoded (p.resolved false) := by
    cases a with
    | imm w value fits => rfl
    | refNum value => rfl
    | immLbl k => cases hptr
    | refLbl k =>
        have hlabel : p.resolved true k = p.resolved false k := by
          apply resolveLabel_data
          intro hcode
          rcases List.mem_iff_getElem?.1 ha with ⟨j, hj⟩
          cases (hp.onlyTargets x hx j _ k hj rfl hcode).2.1
        rw [PrsArg.decoded, PrsArg.decoded, hlabel]
  intro dm
  cases dm with
  | true =>
      cases debugMode with
      | true => exact hptr
      | false => exact heq.trans hptr
  | false =>
      cases debugMode with
      | true => exact heq.symm.trans hptr
      | false => exact hptr

/-- **Instructions that do not jump** are decoded into the same record. -/
theorem decoded_eq (hp : p.Strippable) (hx : x ∈ p.instns)
    (hjumps : x.instn.handler.jumps = false) :
    x.decoded (p.resolved true) = x.decoded (p.resolved false) := by
  rw [PrsInstn.decoded, PrsInstn.decoded, Instn.mk.injEq]
  refine ⟨rfl, rfl, List.map_congr_left ?_⟩
  intro a ha
  rcases List.mem_iff_getElem?.1 ha with ⟨j, hj⟩
  exact decoded_operand hp hx hj fun _ => hjumps

/-- The operands behind the target have the same values. -/
theorem argValue_behind (hp : p.Strippable) (hx : x ∈ p.instns) {j : Nat} (hj : j ≠ 0)
    {vm vm' : Vm σ} (hmem : vm'.memory = vm.memory) :
    argValue (x.decoded (p.resolved false)) j vm' =
      argValue (x.decoded (p.resolved true)) j vm := by
  have harg : (x.decoded (p.resolved false)).args[j]? =
      (x.decoded (p.resolved true)).args[j]? := by
    rw [PrsInstn.decoded, PrsInstn.decoded, List.getElem?_map, List.getElem?_map]
    cases ha : x.args[j]? with
    | none => rfl
    | some a =>
        rw [Option.map_some, Option.map_some,
          decoded_operand hp hx ha fun h => absurd h hj]
  have hcode : (x.decoded (p.resolved false)).code = (x.decoded (p.resolved true)).code := rfl
  have hsizes : (x.decoded (p.resolved false)).argSizes =
      (x.decoded (p.resolved true)).argSizes := rfl
  unfold argValue lref64 lref argPtr
  rw [harg, hcode, hsizes, hmem]

/-- **The target** of a jump is the address of one place in the two codes. -/
theorem argValue_target (hp : p.Relocates) (hx : x ∈ p.instns)
    (hjumps : x.instn.handler.jumps = true) (vm vm' : Vm σ) :
    ∃ a a', argValue (x.decoded (p.resolved true)) 0 vm = .ok a ∧
      argValue (x.decoded (p.resolved false)) 0 vm' = .ok a' ∧
      Corresponds p a.toUInt32 a'.toUInt32 := by
  rcases hp.targets x hx hjumps with ⟨k, hk, hcode⟩
  have hvalue (debugMode : Bool) (vm : Vm σ) :
      argValue (x.decoded (p.resolved debugMode)) 0 vm =
        .ok (p.resolved debugMode k).toUInt64 := by
    refine argValue_decoded vm hk rfl rfl ?_
    rw [UInt32.toNat_toUInt64]
    exact (p.resolved debugMode k).toNat_lt
  refine ⟨_, _, hvalue true vm, hvalue false vm', ?_⟩
  rw [UInt32.toUInt32_toUInt64, UInt32.toUInt32_toUInt64]
  exact corresponds_target hp.strippable hp.size hp.inside hx
    ⟨_, List.mem_of_getElem? hk, rfl⟩ hcode

/-! ## Records -/

/-- **The same instruction** is decoded from the two codes, or it is rejected in both. -/
theorem decodeInstn_alike (hp : p.Strippable) {k : Nat} (hk : p.instns[k]? = some x)
    (memory : Segment) :
    (∀ (debugMode : Bool) (code : Segment), x.emitted debugMode = true →
      code.bytes = (p.layout debugMode).code →
        decodeInstn T.entries code memory (codeSize debugMode (p.instns.take k)) =
          .error (.exn vmEMemFault)) ∨
    ∀ (debugMode : Bool) (code : Segment), x.emitted debugMode = true →
      code.bytes = (p.layout debugMode).code →
        decodeInstn T.entries code memory (codeSize debugMode (p.instns.take k)) =
          .ok (x.decoded (p.resolved debugMode), x.size) := by
  have hx := List.mem_of_getElem? hk
  have hbytes (debugMode : Bool) (code : Segment) (hxe : x.emitted debugMode = true)
      (hcode : code.bytes = (p.layout debugMode).code) :
      encodeInstn (p.resolved debugMode) x <+:
        code.bytes.drop (codeSize debugMode (p.instns.take k)) := by
    rw [hcode]
    exact encodeCode_drop hk hxe _
  by_cases hbad : ∃ a ∈ x.args, ∃ ref, a.decoded (p.resolved true) = .ptr ref ∧
      derefMemPtr ref 4 memory.size = none
  · rcases hbad with ⟨a, ha, ref, hptr, hnone⟩
    left
    intro debugMode code hxe hcode
    exact decodeInstn_rejected (hbytes debugMode code hxe hcode)
      ⟨a, ha, ref, decoded_ptr hp hx ha true hptr debugMode, hnone⟩
  · right
    intro debugMode code hxe hcode
    apply decodeInstn_encoded (hbytes debugMode code hxe hcode)
    intro a ha ref hptr
    by_contra hfail
    refine hbad ⟨a, ha, ref, decoded_ptr hp hx ha debugMode hptr true, ?_⟩
    unfold derefMemPtr at hfail ⊢
    split at hfail
    · next hlt => rw [if_pos hlt]
    · exact absurd rfl hfail

/-- The handler of a decoded instruction. -/
theorem handlerAt_decoded (x : PrsInstn T) (r : CStr → UInt32) :
    handlerAt T.entries ((x.decoded r).code >>> 3) = .ok x.instn.handler := by
  have hword : (x.decoded r).code >>> 3 = x.instn.opcode := by
    have hkinds := x.kindBits_lt
    show x.word >>> 3 = x.instn.opcode
    rw [PrsInstn.word, Nat.shiftRight_eq_div_pow]
    omega
  rw [hword, handlerAt, T.getElem?_opcode x.mem_entries]

end Program

end BvgzVm
