import BvgzVm.Asm.LabelEncoding

set_option autoImplicit false

/-! # The places of the debug code and of the stripped code

`assert` is the only instruction that is left out without `debug_mode` (`emitted_false_iff`). A
place of the program is the index of an instruction, or the end, and has an address in the code
that is generated with `debug_mode` and one in the code without (`Corresponds`). The two numbers
that are encoded for a jump to a label are the addresses of one place (`corresponds_target`).
-/

namespace BvgzVm

open CLib

variable {T : InstnTable}

/-- `jmp`, `jtrue`, `jfalse` and `call`, whose first operand is where they go to. -/
def Op.jumps : Op → Bool
  | .jmp1 | .jtrue2 | .jfalse2 | .call3 => true
  | _ => false

/-- `k` is a label in the code. -/
def PrsResult.CodeLabel (p : PrsResult T) (k : CStr) : Prop :=
  ∃ label, p.labels.get k = some label ∧ label.isMemRef = false

/-- A program without errors and system calls, in which code labels are only the targets of jumps
and calls, and which does not end with an instruction for debugging. -/
structure PrsResult.Strippable (p : PrsResult T) : Prop where
  errorFree : p.ErrorFree
  noSyscall : ∀ i ∈ p.instns, i.instn.handler ≠ .syscall3
  onlyTargets : ∀ i ∈ p.instns, ∀ (j : Nat) a k, i.args[j]? = some a → a.label? = some k →
    p.CodeLabel k → j = 0 ∧ a = .immLbl k ∧ i.instn.handler.jumps = true
  last : ∀ i, p.instns.getLast? = some i → i.emitted false = true

/-- Every jump and every call goes to a code label. -/
def PrsResult.TargetsLabels (p : PrsResult T) : Prop :=
  ∀ i ∈ p.instns, i.instn.handler.jumps = true →
    ∃ k, i.args[0]? = some (.immLbl k) ∧ p.CodeLabel k

/-- The addresses of one place of the program, in the debug code and in the stripped code. -/
def Corresponds (p : PrsResult T) (a a' : UInt32) : Prop :=
  ∃ k ≤ p.nInstns, a.toNat = codeSize true (p.instns.take k) ∧
    a'.toNat = codeSize false (p.instns.take k)

/-! ## What is emitted -/

theorem emitted_true (i : PrsInstn T) : i.emitted true = true := by
  rw [PrsInstn.emitted, Bool.or_true]

theorem inc_debugOnly : ∀ d ∈ instnDefsInc,
    d.flags &&& fDebugOnlyInstn = 0 ↔ d.handler ≠ .assert2 := by
  decide

/-- **Only `assert`** is left out. -/
theorem emitted_false_iff (i : PrsInstn T) : i.emitted false = true ↔ i.instn.handler ≠ .assert2 := by
  rcases T.mem_inc i.mem_entries with ⟨d, hd, heq⟩
  have hflags : i.instn.flags = d.flags := by rw [heq]
  have hhandler : i.instn.handler = d.handler := by rw [heq]
  rw [PrsInstn.emitted, Bool.or_false, decide_eq_true_eq, hflags, hhandler]
  exact inc_debugOnly d hd

theorem codeSize_false_le (l : List (PrsInstn T)) : codeSize false l ≤ codeSize true l := by
  induction l with
  | nil => exact Nat.le_refl _
  | cons i l ih =>
      have hsplit (dm : Bool) : codeSize dm (i :: l) =
          (if i.emitted dm then i.size else 0) + codeSize dm l := by
        unfold codeSize
        cases hi : i.emitted dm <;> simp [hi]
      rw [hsplit, hsplit, emitted_true, if_pos rfl]
      split <;> omega

/-! ## Addresses of labels -/

section Program

variable {p : PrsResult T}

/-- Behind every place but the end an instruction is emitted. -/
theorem PrsResult.Strippable.emitted_behind (hp : p.Strippable) (debugMode : Bool) {k : Nat}
    (hk : k < p.nInstns) : (firstEmitted debugMode p.instns k).isSome = true := by
  have hne : p.instns ≠ [] := List.ne_nil_of_length_pos (Nat.zero_lt_of_lt hk)
  have hemitted : (p.instns.getLast hne).emitted debugMode = true := by
    cases debugMode with
    | true => exact emitted_true _
    | false => exact hp.last _ (List.getLast?_eq_some_getLast hne)
  have hmem : p.instns.getLast hne ∈ p.instns.drop k := by
    have hdrop : p.instns.drop k ≠ [] := by
      rw [Ne, List.drop_eq_nil_iff]
      exact not_le.2 hk
    rw [← List.getLast_drop hdrop]
    exact List.getLast_mem hdrop
  rw [firstEmitted_isSome, List.any_eq_true]
  exact ⟨_, hmem, hemitted⟩

/-- A code label stands for the address of its place. -/
theorem toNat_resolveLabel (hp : p.Strippable) {debugMode : Bool}
    (hmax : codeSize debugMode p.instns ≤ maxCodeSize) {k : CStr} {label : Label}
    (hget : p.labels.get k = some label) (hcode : label.isMemRef = false)
    (hlt : label.offset.toNat < p.nInstns) :
    (resolveLabel debugMode p.labels p.instns k).toNat =
      codeSize debugMode (p.instns.take label.offset.toNat) := by
  rw [resolveLabel, hget]
  simp only [hcode, Bool.false_eq_true, if_false]
  exact toNat_addressAt hmax (hp.emitted_behind debugMode hlt)

/-- **The target of a jump** in the two codes. -/
theorem corresponds_target (hp : p.Strippable) (hmax : codeSize true p.instns ≤ maxCodeSize)
    (hinside : p.CodeLabelsInside true) {i : PrsInstn T} (hi : i ∈ p.instns) {k : CStr}
    (hk : i.mentions k) (hcode : p.CodeLabel k) :
    Corresponds p (resolveLabel true p.labels p.instns k)
      (resolveLabel false p.labels p.instns k) := by
  rcases hcode with ⟨label, hget, hcode⟩
  have hlt := hinside i hi (emitted_true i) k hk label hget hcode
  have hmax' := le_trans (codeSize_false_le p.instns) hmax
  exact ⟨label.offset.toNat, Nat.le_of_lt hlt, toNat_resolveLabel hp hmax hget hcode hlt,
    toNat_resolveLabel hp hmax' hget hcode hlt⟩

/-- A data label stands for the same address in both. -/
theorem resolveLabel_data {k : CStr} (hcode : ¬ p.CodeLabel k) :
    resolveLabel true p.labels p.instns k = resolveLabel false p.labels p.instns k := by
  unfold resolveLabel
  cases hget : p.labels.get k with
  | none => rfl
  | some label =>
      cases hmem : label.isMemRef with
      | true => simp only [hmem, if_true]
      | false => exact absurd ⟨label, hget, hmem⟩ hcode

/-! ## Places -/

/-- An instruction is passed in both codes, or is left out in one of them. -/
theorem Corresponds.next {k : Nat} {i : PrsInstn T} (hk : p.instns[k]? = some i) {a a' : UInt32}
    (ha : a.toNat = codeSize true (p.instns.take k) + i.size)
    (ha' : a'.toNat = codeSize false (p.instns.take k) + if i.emitted false then i.size else 0) :
    Corresponds p a a' := by
  have hlt : k < p.instns.length := (List.getElem?_eq_some_iff.1 hk).1
  refine ⟨k + 1, hlt, ?_, ?_⟩
  · rw [codeSize_take_succ hk, emitted_true, if_pos rfl, ha]
  · rw [codeSize_take_succ hk, ha']

/-- Either both addresses are behind the code, or neither is. -/
theorem Corresponds.outside_iff (hp : p.Strippable) {a a' : UInt32} (h : Corresponds p a a') :
    codeSize true p.instns ≤ a.toNat ↔ codeSize false p.instns ≤ a'.toNat := by
  rcases h with ⟨k, hk, ha, ha'⟩
  rw [ha, ha']
  rcases Nat.lt_or_ge k p.nInstns with hlt | hge
  · have h := codeSize_take_lt (hp.emitted_behind true hlt)
    have h' := codeSize_take_lt (hp.emitted_behind false hlt)
    omega
  · rw [List.take_of_length_le hge]
    exact iff_of_true (Nat.le_refl _) (Nat.le_refl _)

end Program

end BvgzVm
