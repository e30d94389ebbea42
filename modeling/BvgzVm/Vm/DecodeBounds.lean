import BvgzVm.Vm.Dispatch

set_option autoImplicit false

/-! # The reads of the decoder at the end of the code

Every field of a record is preceded by a check, but the checks compare `iptr + width` with the
end of the code, not `iptr + offset + width`. A field is therefore only caught when it is wider
than everything that is left from the start of the instruction. `CutSafely` is the condition
under which a record that does not fit is still rejected before a read outside the code, and
`decodeBounded_iff` shows that it is exact.
-/

namespace BvgzVm

open Fallible

variable {H : Type}

/-! ## Truncated, DecodeBounded -/

/-- The record at `iptr`, of a row of the table, does not fit into the code: its word, its size
byte or one of its operands is cut off by the end. -/
def Truncated (defs : List (InstnDef H)) (code : Segment) (iptr : Nat) : Prop :=
  code.size < iptr + 2 ∨
  ∃ word, code.load iptr 2 = some word ∧ instnIdx word ≤ defs.length ∧
    if word &&& 0x7 ≠ 0 then
      code.size < iptr + 3 ∨
      ∃ s, code.load (iptr + 2) 1 = some s ∧
        code.size < iptr + 3 + argsWidth word s (argCountAt defs (instnIdx word)) 0
    else code.size < iptr + 2 + argsWidth word 0 (argCountAt defs (instnIdx word)) 0

/-- The decoder stays inside the code at `iptr`. -/
structure DecodeBounded (defs : List (InstnDef H)) (code memory : Segment) (iptr : Nat) :
    Prop where
  reads : decodeInstn defs code memory iptr ≠ .error (.ub .codeRead)
  success : ∀ instn n, decodeInstn defs code memory iptr = .ok (instn, n) →
    2 ≤ n ∧ iptr + n ≤ code.size
  truncated : Truncated defs code iptr →
    decodeInstn defs code memory iptr = .error (.exn vmEBadInstnPointer)

/-! ## The condition -/

/-- Operand `i` at `offset` is a reference that `deref_mem_ptr` refuses. -/
def refFaults (code memory : Segment) (iptr word i offset : Nat) : Bool :=
  !word.testBit i &&
    match code.load (iptr + offset) 4 with
    | some ref => (derefMemPtr (UInt32.ofNat ref) 4 memory.size).isNone
    | none => false

/-- Going through the operands: the first one that the end of the code cuts off is wider than
everything from `iptr` on, and no reference before it faults while the record is cut off later. -/
def ArgsCutSafely (code memory : Segment) (iptr word argSizes : Nat) : Nat → Nat → Nat → Prop
  | 0, _, _ => True
  | n + 1, i, offset =>
      if code.size < iptr + offset + argWidth word argSizes i then
        code.size < iptr + argWidth word argSizes i
      else if refFaults code memory iptr word i offset then
        iptr + offset + argsWidth word argSizes (n + 1) i ≤ code.size
      else ArgsCutSafely code memory iptr word argSizes n (i + 1)
        (offset + argWidth word argSizes i)

/-- The record at `iptr` fits, or it is cut off where the checks of the decoder see it. -/
def CutSafely (defs : List (InstnDef H)) (code memory : Segment) (iptr : Nat) : Prop :=
  ∀ word, code.load iptr 2 = some word → instnIdx word ≤ defs.length →
    if word &&& 0x7 ≠ 0 then
      ∃ s, code.load (iptr + 2) 1 = some s ∧
        ArgsCutSafely code memory iptr word s (argCountAt defs (instnIdx word)) 0 3
    else ArgsCutSafely code memory iptr word 0 (argCountAt defs (instnIdx word)) 0 2

/-! ## One operand -/

/-- An operand that is inside the code decodes, or its reference faults. -/
theorem decodeArg_of_le {code : Segment} (memory : Segment) {iptr word argSizes i offset : Nat}
    (h : iptr + offset + argWidth word argSizes i ≤ code.size) :
    (refFaults code memory iptr word i offset = true ∧
      decodeArg code memory iptr word argSizes i offset = .error (.exn vmEMemFault)) ∨
    (refFaults code memory iptr word i offset = false ∧
      ∃ a, decodeArg code memory iptr word argSizes i offset
        = .ok (a, offset + argWidth word argSizes i)) := by
  unfold decodeArg refFaults
  unfold argWidth at h ⊢
  cases hk : word.testBit i with
  | true =>
      rw [hk, if_pos rfl] at h
      obtain ⟨v, hv⟩ := codeRead_ok_of_le h
      refine Or.inr ⟨rfl, .imm (UInt64.ofNat v), ?_⟩
      rw [if_pos rfl, if_pos rfl, if_neg (by omega), hv, ok_bind]
  | false =>
      simp only [hk, Bool.false_eq_true, if_false] at h ⊢
      obtain ⟨ref, href⟩ := codeRead_ok_of_le h
      rw [if_neg (by omega), href, ok_bind, codeRead_eq_ok.1 href]
      cases hd : derefMemPtr (UInt32.ofNat ref) 4 memory.size with
      | none => exact Or.inl ⟨by simp only [hd]; rfl, rfl⟩
      | some p => exact Or.inr ⟨by simp only [hd]; rfl, .ptr p, rfl⟩

/-- An operand that is cut off is rejected if it is wider than everything from `iptr` on, and
read past the end otherwise. -/
theorem decodeArg_of_cut {code memory : Segment} {iptr word argSizes i offset : Nat}
    (h : code.size < iptr + offset + argWidth word argSizes i) :
    decodeArg code memory iptr word argSizes i offset =
      if code.size < iptr + argWidth word argSizes i then .error (.exn vmEBadInstnPointer)
      else .error (.ub .codeRead) := by
  unfold decodeArg
  unfold argWidth at h ⊢
  cases hk : word.testBit i with
  | true =>
      rw [hk, if_pos rfl] at h
      rw [if_pos rfl, if_pos rfl, codeRead_eq_error.2 ⟨h, rfl⟩, error_bind]
  | false =>
      simp only [hk, Bool.false_eq_true, if_false] at h ⊢
      rw [codeRead_eq_error.2 ⟨h, rfl⟩, error_bind]

/-! ## The operand loop -/

/-- Operands that all fit are never read outside the code. -/
theorem decodeArgs_of_le {code memory : Segment} {iptr word argSizes n i offset : Nat}
    (h : iptr + offset + argsWidth word argSizes n i ≤ code.size) :
    decodeArgs code memory iptr word argSizes n i offset ≠ .error (.ub .codeRead) := by
  induction n generalizing i offset with
  | zero =>
      intro he
      cases he
  | succ n ih =>
      rw [argsWidth] at h
      intro he
      rw [decodeArgs] at he
      rcases decodeArg_of_le memory
        (show iptr + offset + argWidth word argSizes i ≤ code.size by omega) with
        ⟨-, ha⟩ | ⟨-, a, ha⟩
      · rw [ha, error_bind] at he
        exact absurd he (by decide)
      · rw [ha, ok_bind] at he
        rcases bind_eq_error.1 he with has | ⟨q, -, hq⟩
        · exact ih (by omega) has
        · cases hq

/-- **The operand loop on a record that does not fit.** It ends with `VM_E_BadInstnPointer`
exactly when the operands are cut off safely. -/
theorem decodeArgs_of_cut {code memory : Segment} {iptr word argSizes n i offset : Nat}
    (h : code.size < iptr + offset + argsWidth word argSizes n i)
    (hstart : iptr + offset ≤ code.size) :
    decodeArgs code memory iptr word argSizes n i offset = .error (.exn vmEBadInstnPointer) ↔
      ArgsCutSafely code memory iptr word argSizes n i offset := by
  induction n generalizing i offset with
  | zero =>
      rw [argsWidth] at h
      omega
  | succ n ih =>
      rw [decodeArgs, ArgsCutSafely]
      by_cases hcut : code.size < iptr + offset + argWidth word argSizes i
      · rw [decodeArg_of_cut hcut, if_pos hcut]
        by_cases hsee : code.size < iptr + argWidth word argSizes i
        · rw [if_pos hsee, error_bind]
          exact iff_of_true rfl hsee
        · rw [if_neg hsee, error_bind]
          exact iff_of_false (by decide) hsee
      · rw [if_neg hcut]
        rcases decodeArg_of_le memory (Nat.le_of_not_lt hcut) with
          ⟨hf, ha⟩ | ⟨hf, a, ha⟩
        · rw [ha, hf, error_bind, if_pos rfl]
          exact iff_of_false (by decide) (by omega)
        · rw [ha, hf, ok_bind, if_neg (by simp)]
          rw [argsWidth] at h
          rw [← ih (by omega) (by omega)]
          constructor
          · intro he
            rcases bind_eq_error.1 he with has | ⟨q, -, hq⟩
            · exact has
            · cases hq
          · intro he
            simp only [he, error_bind]

/-- Operands that fit are cut off safely, having nothing that is cut off. -/
theorem argsCutSafely_of_le {code memory : Segment} {iptr word argSizes n i offset : Nat}
    (h : iptr + offset + argsWidth word argSizes n i ≤ code.size) :
    ArgsCutSafely code memory iptr word argSizes n i offset := by
  induction n generalizing i offset with
  | zero => trivial
  | succ n ih =>
      have h' := h
      rw [argsWidth] at h'
      rw [ArgsCutSafely, if_neg (by omega)]
      split
      · exact h
      · exact ih (by omega)

/-! ## The whole record -/

/-- The end of a successfully decoded operand list is inside the code, if its start is. -/
theorem decodeArgs_end_le {code memory : Segment} {iptr word argSizes n i offset offset' : Nat}
    {as : List Arg} (hstart : iptr + offset ≤ code.size)
    (h : decodeArgs code memory iptr word argSizes n i offset = .ok (as, offset')) :
    iptr + offset' ≤ code.size := by
  induction n generalizing i offset as with
  | zero =>
      obtain ⟨-, rfl⟩ := Prod.mk.inj (Except.ok.inj h)
      exact hstart
  | succ n ih =>
      rw [decodeArgs] at h
      obtain ⟨⟨a, o⟩, ha, h⟩ := bind_eq_ok.1 h
      obtain ⟨⟨as', o'⟩, has, h⟩ := bind_eq_ok.1 h
      obtain ⟨-, rfl⟩ := Prod.mk.inj (Except.ok.inj h)
      exact ih (decodeArg_ok ha).2.1 has

/-- The length of a decoded record: at least the word, and inside the code. -/
theorem decodeInstn_length {defs : List (InstnDef H)} {code memory : Segment} {iptr n : Nat}
    {instn : Instn} (h : decodeInstn defs code memory iptr = .ok (instn, n)) :
    2 ≤ n ∧ iptr + n ≤ code.size := by
  obtain ⟨hw, -, hs, hargs⟩ := decodeInstn_ok h
  have hle := codeRead_le (codeRead_eq_ok.2 hw)
  have hn := (decodeArgs_ok hargs).2
  by_cases hk : instn.code &&& 0x7 ≠ 0
  · rw [if_pos hk] at hargs hn
    have hle' := codeRead_le (codeRead_eq_ok.2 (hs hk))
    exact ⟨by omega, decodeArgs_end_le (by omega) hargs⟩
  · rw [if_neg hk] at hargs hn
    exact ⟨by omega, decodeArgs_end_le hle hargs⟩

/-- How a decoded word goes on to its operands. -/
theorem decodeInstn_of_word {defs : List (InstnDef H)} {code memory : Segment} {iptr word : Nat}
    (hw : code.load iptr 2 = some word) (hidx : instnIdx word ≤ defs.length) {f : Fault} :
    decodeInstn defs code memory iptr = .error f ↔
      if word &&& 0x7 ≠ 0 then
        (code.size < iptr + 3 ∧ f = .ub .codeRead) ∨
        ∃ s, code.load (iptr + 2) 1 = some s ∧
          decodeArgs code memory iptr word s (argCountAt defs (instnIdx word)) 0 3 = .error f
      else decodeArgs code memory iptr word 0 (argCountAt defs (instnIdx word)) 0 2 = .error f := by
  have hle := codeRead_le (codeRead_eq_ok.2 hw)
  rw [decodeInstn, if_neg (by omega), codeRead_eq_ok.2 hw, ok_bind, if_neg (by omega)]
  by_cases hk : word &&& 0x7 ≠ 0
  · rw [if_pos hk, if_pos hk, if_neg (by omega), bind_eq_error, codeRead_eq_error]
    refine or_congr Iff.rfl (exists_congr (fun s => ?_))
    rw [codeRead_eq_ok]
    refine and_congr_right (fun _ => ?_)
    rw [bind_eq_error]
    constructor
    · rintro (has | ⟨q, -, hq⟩)
      · exact has
      · cases hq
    · exact Or.inl
  · rw [if_neg hk, if_neg hk, bind_eq_error]
    constructor
    · rintro (has | ⟨q, -, hq⟩)
      · exact has
      · cases hq
    · exact Or.inl

/-- A record that fits, or is cut off safely, keeps the decoder inside the code. -/
theorem decodeBounded_of_cutSafely {defs : List (InstnDef H)} {code memory : Segment} {iptr : Nat}
    (hc : CutSafely defs code memory iptr) : DecodeBounded defs code memory iptr := by
  refine ⟨?_, fun instn n h => decodeInstn_length h, ?_⟩
  · intro he
    cases hw : code.load iptr 2 with
    | none =>
        rw [decodeInstn, if_pos (Segment.load_eq_none.1 hw)] at he
        exact absurd he (by decide)
    | some word =>
        by_cases hidx : instnIdx word ≤ defs.length
        · have hcw := hc word hw hidx
          rw [decodeInstn_of_word hw hidx] at he
          have hle := codeRead_le (codeRead_eq_ok.2 hw)
          split at he
          · next hk =>
              rw [if_pos hk] at hcw
              obtain ⟨s, hs, hcut⟩ := hcw
              have hle' := codeRead_le (codeRead_eq_ok.2 hs)
              rcases he with ⟨hlt, -⟩ | ⟨s', hs', has⟩
              · omega
              · obtain rfl := Option.some.inj (hs'.symm.trans hs)
                by_cases hfit : iptr + 3 + argsWidth word s' (argCountAt defs (instnIdx word)) 0
                    ≤ code.size
                · exact decodeArgs_of_le hfit has
                · rw [(decodeArgs_of_cut (Nat.lt_of_not_le hfit) (by omega)).2 hcut] at has
                  exact absurd has (by decide)
          · next hk =>
              rw [if_neg hk] at hcw
              by_cases hfit : iptr + 2 + argsWidth word 0 (argCountAt defs (instnIdx word)) 0
                  ≤ code.size
              · exact decodeArgs_of_le hfit he
              · rw [(decodeArgs_of_cut (Nat.lt_of_not_le hfit) hle).2 hcw] at he
                exact absurd he (by decide)
        · have hbad : decodeInstn defs code memory iptr = .error (.exn vmEBadInstnCode) :=
            (decodeInstn_badInstnCode_iff hw).2 (Nat.lt_of_not_le hidx)
          rw [hbad] at he
          exact absurd he (by decide)
  · rintro (hend | ⟨word, hw, hidx, ht⟩)
    · rw [decodeInstn, if_pos hend]
    · have hcw := hc word hw hidx
      have hle := codeRead_le (codeRead_eq_ok.2 hw)
      rw [decodeInstn_of_word hw hidx]
      split at ht
      · next hk =>
          rw [if_pos hk] at hcw ⊢
          obtain ⟨s, hs, hcut⟩ := hcw
          have hle' := codeRead_le (codeRead_eq_ok.2 hs)
          rcases ht with hlt | ⟨s', hs', hlt⟩
          · omega
          · obtain rfl := Option.some.inj (hs'.symm.trans hs)
            exact Or.inr ⟨s', hs, (decodeArgs_of_cut hlt (by omega)).2 hcut⟩
      · next hk =>
          rw [if_neg hk] at hcw ⊢
          exact (decodeArgs_of_cut ht hle).2 hcw

/-- **The decoder stays inside the code exactly at the records that are cut off safely.** -/
theorem decodeBounded_iff (defs : List (InstnDef H)) (code memory : Segment) (iptr : Nat) :
    DecodeBounded defs code memory iptr ↔ CutSafely defs code memory iptr := by
  refine ⟨?_, decodeBounded_of_cutSafely⟩
  intro hb word hw hidx
  have hle := codeRead_le (codeRead_eq_ok.2 hw)
  split
  · next hk =>
      cases hs : code.load (iptr + 2) 1 with
      | none =>
          -- the size byte is read although it is outside
          refine absurd ((decodeInstn_of_word hw hidx).2 ?_) hb.reads
          rw [if_pos hk]
          have hlt := Segment.load_eq_none.1 hs
          exact Or.inl ⟨by omega, rfl⟩
      | some s =>
          refine ⟨s, rfl, ?_⟩
          have hle' := codeRead_le (codeRead_eq_ok.2 hs)
          by_cases hfit : iptr + 3 + argsWidth word s (argCountAt defs (instnIdx word)) 0
              ≤ code.size
          · exact argsCutSafely_of_le hfit
          · have hcut := Nat.lt_of_not_le hfit
            have ht : Truncated defs code iptr := by
              refine Or.inr ⟨word, hw, hidx, ?_⟩
              rw [if_pos hk]
              exact Or.inr ⟨s, hs, hcut⟩
            have hdec := hb.truncated ht
            rw [decodeInstn_of_word hw hidx, if_pos hk] at hdec
            rcases hdec with ⟨hlt, -⟩ | ⟨s', hs', has⟩
            · omega
            · obtain rfl := Option.some.inj (hs'.symm.trans hs)
              exact (decodeArgs_of_cut hcut (by omega)).1 has
  · next hk =>
      by_cases hfit : iptr + 2 + argsWidth word 0 (argCountAt defs (instnIdx word)) 0 ≤ code.size
      · exact argsCutSafely_of_le hfit
      · have hcut := Nat.lt_of_not_le hfit
        have ht : Truncated defs code iptr := by
          refine Or.inr ⟨word, hw, hidx, ?_⟩
          rw [if_neg hk]
          exact hcut
        have hdec := hb.truncated ht
        rw [decodeInstn_of_word hw hidx, if_neg hk] at hdec
        exact (decodeArgs_of_cut hcut hle).1 hdec

/-- An `argv` whose reference lacks its last byte is read past the end of the code. -/
theorem decode_argv_past_end :
    ¬ DecodeBounded stableTable.entries ⟨[0x28, 0, 0, 0, 0], by decide⟩
      ⟨List.replicate 8 0, by decide⟩ 0 := by
  intro hb
  exact hb.reads (by decide +kernel)

end BvgzVm
