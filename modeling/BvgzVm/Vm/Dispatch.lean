import BvgzVm.Vm.Decode

set_option autoImplicit false

/-! # From the instruction word to the handler

`decode_instn` finds the row of the table with an 8-bit index, `vm_exec_instn` recomputes the
index with 32 bits, and the check between them compares with `>` against a table that has one
more row, the `NULL` sentinel. This file determines the instruction words for which the two agree
on a row of the table, and for which the decoder rejects what the table does not have.
-/

namespace BvgzVm

open Fallible

variable {H : Type}

/-- What decoder and dispatcher owe each other at one place of the code: an accepted instruction
indexes a row of the table, the row whose operand count was used to decode it, and its handler is
the one that is called; a word beyond the table is rejected as a bad instruction. -/
structure DispatchOk (defs : List (InstnDef H)) (code memory : Segment) (iptr : Nat) : Prop where
  accepted : ∀ instn n, decodeInstn defs code memory iptr = .ok (instn, n) →
    ∃ d, defs[instn.code >>> 3]? = some d ∧ instnIdx instn.code = instn.code >>> 3 ∧
      instn.args.length = d.argCount ∧ handlerAt defs (instn.code >>> 3) = .ok d.handler
  rejected : ∀ word, code.load iptr 2 = some word → defs.length ≤ word >>> 3 →
    decodeInstn defs code memory iptr = .error (.exn vmEBadInstnCode)

/-- The operand loop never reports a bad instruction code. -/
theorem decodeArgs_ne_badInstnCode (code memory : Segment) (iptr word argSizes n i offset : Nat) :
    decodeArgs code memory iptr word argSizes n i offset ≠ .error (.exn vmEBadInstnCode) := by
  induction n generalizing i offset with
  | zero =>
      intro h
      cases h
  | succ n ih =>
      intro h
      rw [decodeArgs] at h
      rcases bind_eq_error.1 h with ha | ⟨⟨a, o⟩, -, h⟩
      · unfold decodeArg at ha
        split at ha
        · split at ha
          · exact absurd ha (by decide)
          · rcases bind_eq_error.1 ha with hr | ⟨v, -, hv⟩
            · cases (codeRead_eq_error.1 hr).2
            · cases hv
        · split at ha
          · exact absurd ha (by decide)
          · rcases bind_eq_error.1 ha with hr | ⟨ref, -, hd⟩
            · cases (codeRead_eq_error.1 hr).2
            · split at hd
              · exact absurd hd (by decide)
              · cases hd
      · rcases bind_eq_error.1 h with has | ⟨q, -, hq⟩
        · exact ih (i + 1) o has
        · cases hq

/-- With a whole word at `iptr`, the index check is the only one that reports a bad code. -/
theorem decodeInstn_badInstnCode_iff {defs : List (InstnDef H)} {code memory : Segment}
    {iptr word : Nat} (hw : code.load iptr 2 = some word) :
    decodeInstn defs code memory iptr = .error (.exn vmEBadInstnCode) ↔
      defs.length < instnIdx word := by
  have hle : ¬ code.size < iptr + 2 := by
    have := codeRead_le (codeRead_eq_ok.2 hw)
    omega
  rw [decodeInstn, if_neg hle, codeRead_eq_ok.2 hw, ok_bind]
  by_cases hidx : defs.length < instnIdx word
  · rw [if_pos hidx]
    exact iff_of_true rfl hidx
  · rw [if_neg hidx]
    refine iff_of_false ?_ hidx
    intro h
    split at h
    · split at h
      · exact absurd h (by decide)
      · rcases bind_eq_error.1 h with hr | ⟨s, -, h⟩
        · cases (codeRead_eq_error.1 hr).2
        · rcases bind_eq_error.1 h with has | ⟨q, -, hq⟩
          · exact decodeArgs_ne_badInstnCode _ _ _ _ _ _ _ _ has
          · cases hq
    · rcases bind_eq_error.1 h with has | ⟨q, -, hq⟩
      · exact decodeArgs_ne_badInstnCode _ _ _ _ _ _ _ _ has
      · cases hq

/-- **Inversion of a successful decode.** The word passed the index check, the operands are
those of the row at the 8-bit index, and the offset is the length of the record. -/
theorem decodeInstn_ok {defs : List (InstnDef H)} {code memory : Segment} {iptr n : Nat}
    {instn : Instn} (h : decodeInstn defs code memory iptr = .ok (instn, n)) :
    code.load iptr 2 = some instn.code ∧ instnIdx instn.code ≤ defs.length ∧
      (instn.code &&& 0x7 ≠ 0 → code.load (iptr + 2) 1 = some instn.argSizes) ∧
      decodeArgs code memory iptr instn.code instn.argSizes
        (argCountAt defs (instnIdx instn.code)) 0 (if instn.code &&& 0x7 ≠ 0 then 3 else 2)
        = .ok (instn.args, n) := by
  unfold decodeInstn at h
  split at h
  · cases h
  · obtain ⟨word, hw, h⟩ := bind_eq_ok.1 h
    split at h
    · cases h
    · next hidx =>
        split at h
        · next hk =>
            split at h
            · cases h
            · obtain ⟨s, hs, h⟩ := bind_eq_ok.1 h
              obtain ⟨⟨as, o⟩, has, h⟩ := bind_eq_ok.1 h
              obtain ⟨rfl, rfl⟩ := Prod.mk.inj (Except.ok.inj h)
              refine ⟨codeRead_eq_ok.1 hw, Nat.le_of_not_lt hidx, fun _ => codeRead_eq_ok.1 hs, ?_⟩
              rw [if_pos hk]
              exact has
        · next hk =>
            obtain ⟨⟨as, o⟩, has, h⟩ := bind_eq_ok.1 h
            obtain ⟨rfl, rfl⟩ := Prod.mk.inj (Except.ok.inj h)
            refine ⟨codeRead_eq_ok.1 hw, Nat.le_of_not_lt hidx, fun hk' => absurd hk' hk, ?_⟩
            rw [if_neg hk]
            exact has

/-- An index below the table and below the range of the 8-bit index dispatches correctly, and so
does a word that the check of the decoder sees to be beyond the table. -/
theorem dispatchOk_of_word {defs : List (InstnDef H)} {code memory : Segment} {iptr word : Nat}
    (hw : code.load iptr 2 = some word)
    (hcond : (word >>> 3 < defs.length ∧ word >>> 3 < 256) ∨ defs.length < instnIdx word) :
    DispatchOk defs code memory iptr := by
  refine ⟨?_, ?_⟩
  · intro instn n h
    obtain ⟨hw', hidx, -, hargs⟩ := decodeInstn_ok h
    have hword : instn.code = word := Option.some.inj (hw'.symm.trans hw)
    rw [hword] at hidx hargs ⊢
    rcases hcond with ⟨hlt, h256⟩ | hbad
    · have heq : instnIdx word = word >>> 3 := Nat.mod_eq_of_lt h256
      have hget : defs[word >>> 3]? = some defs[word >>> 3] := List.getElem?_eq_getElem hlt
      refine ⟨defs[word >>> 3], hget, heq, ?_, by rw [handlerAt, hget]⟩
      rw [(decodeArgs_ok hargs).1, heq, argCountAt, hget]
    · omega
  · intro word' hw' hlen
    have hword : word' = word := Option.some.inj (hw'.symm.trans hw)
    rw [decodeInstn_badInstnCode_iff hw]
    rcases hcond with ⟨hlt, -⟩ | hbad
    · omega
    · exact hbad

/-! ## A place for every word

To see that no other word dispatches correctly everywhere, every word is put in front of zero
bytes, which decode as the reference `0` or as the immediate `0`. -/

/-- The word `w` followed by zeros. -/
def zeroPadded (w : UInt16) : Segment :=
  ⟨Bytes.toLE 2 w.toNat ++ List.replicate 32 0, by simp⟩

/-- Four bytes of memory. -/
def fourBytes : Segment := ⟨List.replicate 4 0, by simp⟩

theorem zeroPadded_word (w : UInt16) : (zeroPadded w).load 0 2 = some w.toNat := by
  have hr : Bytes.read (zeroPadded w).bytes 0 2 = some (Bytes.toLE 2 w.toNat) := by
    have h := Bytes.read_append [] (Bytes.toLE 2 w.toNat) (List.replicate 32 0)
    rwa [Bytes.length_toLE] at h
  have hlt : w.toNat < 256 ^ 2 := w.toNat_lt
  rw [Segment.load, Bytes.load_of_read hr, Bytes.ofLE_toLE_of_lt hlt]

theorem zeroPadded_zero (w : UInt16) {o k : Nat} (ho : 2 ≤ o) (hk : o + k ≤ 34) :
    (zeroPadded w).load o k = some 0 := by
  have hr : Bytes.read (zeroPadded w).bytes o k = some (List.replicate k 0) := by
    rw [Bytes.read_eq_some]
    refine ⟨by simp [zeroPadded]; omega, ?_⟩
    have hlen : (Bytes.toLE 2 w.toNat).length = 2 := Bytes.length_toLE 2 _
    rw [zeroPadded, List.drop_append, hlen, List.drop_of_length_le (by omega), List.nil_append,
      List.drop_replicate, List.take_replicate]
    congr 1
    omega
  rw [Segment.load, Bytes.load_of_read hr, Bytes.ofLE_replicate_zero]

theorem immBytes_le (s i : Nat) : immBytes s i ≤ 8 := by
  have h : (s >>> (2 * i)) &&& 3 ≤ 3 := Nat.and_le_right
  unfold immBytes
  rw [Nat.one_shiftLeft]
  calc 2 ^ ((s >>> (2 * i)) &&& 3) ≤ 2 ^ 3 := Nat.pow_le_pow_right (by omega) h
    _ = 8 := rfl

theorem argWidth_le (word s i : Nat) : argWidth word s i ≤ 8 := by
  unfold argWidth
  split
  · exact immBytes_le s i
  · omega

theorem zeroPadded_args (w : UInt16) (word s n i o : Nat) (ho : 2 ≤ o) (hn : o + 8 * n ≤ 34) :
    ∃ p, decodeArgs (zeroPadded w) fourBytes 0 word s n i o = .ok p := by
  induction n generalizing i o with
  | zero => exact ⟨_, rfl⟩
  | succ n ih =>
      have hwidth := argWidth_le word s i
      have hsize : (zeroPadded w).size = 34 := by simp [zeroPadded, Segment.size]
      have harg : ∃ a, decodeArg (zeroPadded w) fourBytes 0 word s i o
          = .ok (a, o + argWidth word s i) := by
        unfold decodeArg argWidth
        split
        · have := immBytes_le s i
          rw [if_neg (by omega), codeRead_eq_ok.2 (zeroPadded_zero w (by omega) (by omega))]
          exact ⟨_, rfl⟩
        · rw [if_neg (by omega), codeRead_eq_ok.2 (zeroPadded_zero w (by omega) (by omega))]
          exact ⟨_, rfl⟩
      obtain ⟨a, ha⟩ := harg
      obtain ⟨⟨as, o'⟩, has⟩ := ih (i + 1) (o + argWidth word s i) (by omega) (by omega)
      refine ⟨(a :: as, o'), ?_⟩
      rw [decodeArgs, ha, ok_bind]
      simp only [has, ok_bind]

theorem argCountAt_le (defs : List (InstnDef H)) (idx : Nat) : argCountAt defs idx ≤ 3 := by
  unfold argCountAt
  split
  · next d _ => exact d.argCount_le
  · omega

/-- In front of zeros every word that passes the index check is accepted. -/
theorem zeroPadded_accepted (defs : List (InstnDef H)) (w : UInt16)
    (hidx : instnIdx w.toNat ≤ defs.length) :
    ∃ instn n, decodeInstn defs (zeroPadded w) fourBytes 0 = .ok (instn, n) ∧
      instn.code = w.toNat := by
  have hsize : (zeroPadded w).size = 34 := by simp [zeroPadded, Segment.size]
  have hcount := argCountAt_le defs (instnIdx w.toNat)
  rw [decodeInstn, if_neg (by omega), codeRead_eq_ok.2 (zeroPadded_word w), ok_bind,
    if_neg (by omega)]
  by_cases hk : w.toNat &&& 0x7 ≠ 0
  · obtain ⟨⟨as, o⟩, has⟩ := zeroPadded_args w w.toNat 0 (argCountAt defs (instnIdx w.toNat)) 0 3
      (by omega) (by omega)
    rw [if_pos hk, if_neg (by omega), codeRead_eq_ok.2 (zeroPadded_zero w (by omega) (by omega)),
      ok_bind]
    simp only [has, ok_bind]
    exact ⟨_, _, rfl, rfl⟩
  · obtain ⟨⟨as, o⟩, has⟩ := zeroPadded_args w w.toNat 0 (argCountAt defs (instnIdx w.toNat)) 0 2
      (by omega) (by omega)
    rw [if_neg hk]
    simp only [has, ok_bind]
    exact ⟨_, _, rfl, rfl⟩

/-! ## The words that dispatch correctly -/

/-- **Exactly the words that dispatch correctly.** Where the code ends inside the word nothing is
dispatched. An instruction word dispatches correctly at every place and with every memory if and
only if its opcode is below both the table and `256`, or its opcode modulo `256` is strictly
beyond the sentinel. -/
theorem dispatchOk_iff (defs : List (InstnDef H)) :
    (∀ code memory iptr, code.size < iptr + 2 → DispatchOk defs code memory iptr) ∧
    ∀ w : UInt16,
      (∀ code memory iptr, code.load iptr 2 = some w.toNat → DispatchOk defs code memory iptr) ↔
        (w.toNat >>> 3 < defs.length ∧ w.toNat >>> 3 < 256) ∨
          defs.length < (w.toNat >>> 3) % 256 := by
  refine ⟨?_, fun w => ⟨?_, ?_⟩⟩
  · intro code memory iptr hend
    refine ⟨?_, ?_⟩
    · intro instn n h
      rw [decodeInstn, if_pos hend] at h
      cases h
    · intro word hw _
      have := Segment.load_eq_none.2 hend
      rw [this] at hw
      cases hw
  · intro hall
    by_contra hcond
    rw [not_or, not_and] at hcond
    obtain ⟨hin, hbeyond⟩ := hcond
    have hok := hall (zeroPadded w) fourBytes 0 (zeroPadded_word w)
    obtain ⟨instn, n, hdec, hcode⟩ := zeroPadded_accepted defs w (Nat.le_of_not_lt hbeyond)
    obtain ⟨d, hget, hidx, -⟩ := hok.accepted instn n hdec
    rw [hcode] at hget hidx
    have hlt : w.toNat >>> 3 < defs.length := (List.getElem?_eq_some_iff.1 hget).1
    have h256 : (w.toNat >>> 3) % 256 < 256 := Nat.mod_lt _ (by omega)
    exact hin hlt (by unfold instnIdx at hidx; omega)
  · intro hcond code memory iptr hw
    exact dispatchOk_of_word hw hcond

/-- The first opcode after the table is accepted and selects the `NULL` handler. -/
theorem dispatch_sentinel_accepted :
    ¬ DispatchOk stableTable.entries ⟨[0xC0, 0x01], by decide⟩ ⟨[], by decide⟩ 0 := by
  intro hok
  have hdec : decodeInstn stableTable.entries ⟨[0xC0, 0x01], by decide⟩ ⟨[], by decide⟩ 0
      = .ok (⟨448, 0, []⟩, 2) := by decide +kernel
  obtain ⟨d, hget, -⟩ := hok.accepted _ _ hdec
  have hlt : 448 >>> 3 < stableTable.entries.length := (List.getElem?_eq_some_iff.1 hget).1
  rw [stableTable.length_entries] at hlt
  exact absurd hlt (by decide)

end BvgzVm
