import BvgzVm.Asm.DataLayout
import BvgzVm.Asm.DataTokens
import BvgzVm.Asm.LabelCells
import BvgzVm.Lib.Steps
import BvgzVm.Lib.Strides

set_option autoImplicit false

/-! # How the memory area grows

`ensure_memory_alloc` adds blocks to a 32-bit counter until it has reached an amount. The counter
wraps around, and it never gets above `largestAlloc`: an amount above that makes the loop endless.
A `Demand` is what a directive asks for, amount by amount. It determines which directives end
(`parsePreprocData_ends_iff`), and which of them copy outside the memory block
(`copiesInside_iff`).
-/

namespace BvgzVm

open Bytes CLib Fallible Steps Strides

variable {T : InstnTable}

/-! ## The growth loop -/

/-- The largest number of bytes that blocks add up to, starting at no bytes, modulo `2 ^ 32`. -/
def largestAlloc (block : UInt32) : ℕ := top block.toNat (2 ^ 32)

theorem growAlloc_eq_none_iff {block alloc n : UInt32} {fuel : ℕ} :
    growAlloc block alloc fuel n = none ↔
      ∀ k < fuel, stride block.toNat (2 ^ 32) n.toNat k < alloc.toNat := by
  induction fuel generalizing n with
  | zero => simp [growAlloc]
  | succ fuel ih =>
      have hzero : stride block.toNat (2 ^ 32) n.toNat 0 = n.toNat := stride_zero n.toNat_lt
      have hsucc (k : ℕ) : stride block.toNat (2 ^ 32) (n + block).toNat k =
          stride block.toNat (2 ^ 32) n.toNat (k + 1) := by
        rw [UInt32.toNat_add]
        exact stride_succ _ _ _ _
      rw [growAlloc]
      by_cases hlt : n < alloc
      · rw [if_pos hlt, ih]
        constructor
        · intro h k hk
          cases k with
          | zero =>
              rw [hzero]
              exact UInt32.lt_iff_toNat_lt.1 hlt
          | succ k =>
              rw [← hsucc]
              exact h k (Nat.lt_of_succ_lt_succ hk)
        · intro h k hk
          rw [hsucc]
          exact h (k + 1) (Nat.succ_lt_succ hk)
      · rw [if_neg hlt]
        refine iff_of_false (by simp) fun h => hlt (UInt32.lt_iff_toNat_lt.2 ?_)
        rw [← hzero]
        exact h 0 (Nat.succ_pos fuel)

/-- A memory area as directives leave it: the block of memory has `mem_alloc` bytes, those in use
are among them, and the loop has come to `mem_alloc` from zero. -/
structure Grown (block : UInt32) (d : DataArea) : Prop where
  length : d.memory.length = d.memAlloc.toNat
  inside : d.memsz ≤ d.memAlloc
  blocks : Nat.gcd block.toNat (2 ^ 32) ∣ d.memAlloc.toNat

theorem Grown.le_largest {block : UInt32} {d : DataArea} (hd : Grown block d) :
    d.memsz.toNat ≤ largestAlloc block := by
  calc d.memsz.toNat ≤ d.memAlloc.toNat := UInt32.le_iff_toNat_le.1 hd.inside
    _ ≤ largestAlloc block := le_top hd.blocks d.memAlloc.toNat_lt

/-- **The loop is endless** exactly for the amounts above the largest allocation. -/
theorem growAlloc_endless_iff {block alloc : UInt32} {d : DataArea} (hd : Grown block d) :
    growAlloc block alloc (2 ^ 32) d.memAlloc = none ↔ largestAlloc block < alloc.toNat := by
  have hreaches := stride_reaches_iff hd.blocks d.memAlloc.toNat_lt (a := alloc.toNat)
  rw [growAlloc_eq_none_iff, ← not_iff_not, largestAlloc, Nat.not_lt, ← hreaches]
  simp

theorem growAlloc_blocks {block alloc n n' : UInt32} {fuel : ℕ}
    (hn : Nat.gcd block.toNat (2 ^ 32) ∣ n.toNat) (h : growAlloc block alloc fuel n = some n') :
    Nat.gcd block.toNat (2 ^ 32) ∣ n'.toNat := by
  induction fuel generalizing n with
  | zero => cases h
  | succ fuel ih =>
      rw [growAlloc] at h
      by_cases hlt : n < alloc
      · rw [if_pos hlt] at h
        refine ih ?_ h
        have hone := stride_dvd hn 1
        rwa [stride, Nat.one_mul, ← UInt32.toNat_add] at hone
      · rw [if_neg hlt] at h
        rwa [← Option.some.inj h]

/-! ## How the steps of a directive end -/

/-- A computation on the memory area does not end if `endless`, and otherwise copies outside the
block unless what it stores `fits`; no third thing goes wrong with it. -/
inductive EndsAs (endless fits : Prop) {α : Type} (P : α → Prop) : Except PrsFault α → Prop
  | hang (h : endless) : EndsAs endless fits P (.error .hang)
  | outside (h : ¬ endless) (hfits : ¬ fits) : EndsAs endless fits P (.error .memoryWrite)
  | ok (h : ¬ endless) (hfits : fits) {a : α} (ha : P a) : EndsAs endless fits P (.ok a)

section Sequences

variable {α β : Type} {e e' f f' : Prop} {P : α → Prop} {Q : β → Prop}

/-- **Sequences**: what comes second matters if what comes first ends well. -/
theorem EndsAs.bind {x : Except PrsFault α} {g : α → Except PrsFault β} (h : EndsAs e f P x)
    (hg : ∀ a, P a → EndsAs e' f' Q (g a)) : EndsAs (e ∨ f ∧ e') (f ∧ f') Q (x >>= g) := by
  cases h with
  | hang h => exact .hang (.inl h)
  | outside h hfits => exact .outside (by tauto) (by tauto)
  | ok h hfits ha =>
      rw [ok_bind]
      have hsecond := hg _ ha
      generalize g _ = y at hsecond ⊢
      cases hsecond with
      | hang h' => exact .hang (.inr ⟨hfits, h'⟩)
      | outside h' hfits' => exact .outside (by tauto) (by tauto)
      | ok h' hfits' ha' => exact .ok (by tauto) ⟨hfits, hfits'⟩ ha'

/-- A second step that cannot go wrong. -/
theorem EndsAs.bind_done {x : Except PrsFault α} {g : α → Except PrsFault β} (h : EndsAs e f P x)
    (hg : ∀ a, P a → EndsAs False True Q (g a)) : EndsAs e f Q (x >>= g) := by
  have hboth := h.bind hg
  rwa [and_false, or_false, and_true] at hboth

theorem EndsAs.congr {x : Except PrsFault α} (h : EndsAs e f P x) (he : e ↔ e')
    (hf : ¬ e → (f ↔ f')) {P' : α → Prop} (hP : ∀ a, P a → P' a) : EndsAs e' f' P' x := by
  cases h with
  | hang h => exact .hang (he.1 h)
  | outside h hfits => exact .outside (mt he.2 h) (mt (hf h).2 hfits)
  | ok h hfits ha => exact .ok (mt he.2 h) ((hf h).1 hfits) (hP _ ha)

end Sequences

variable {block : UInt32}

/-- **A larger allocation.** -/
theorem ensureMemoryAlloc_ends (alloc : UInt32) {d : DataArea} (hd : Grown block d) :
    EndsAs (largestAlloc block < alloc.toNat) True
      (fun d' => Grown block d' ∧ alloc ≤ d'.memAlloc ∧ d'.memsz = d.memsz)
      (ensureMemoryAlloc block alloc d) := by
  unfold ensureMemoryAlloc
  by_cases hmem : d.memsz < alloc
  · rw [if_pos hmem]
    cases hgrow : growAlloc block alloc (2 ^ 32) d.memAlloc with
    | none => exact .hang ((growAlloc_endless_iff hd).1 hgrow)
    | some newSize =>
        have hend : ¬ largestAlloc block < alloc.toNat := by
          rw [← growAlloc_endless_iff hd, hgrow]
          simp
        have hge := growAlloc_ge hgrow
        by_cases hnew : d.memAlloc < newSize
        · simp only [if_pos hnew]
          have hlt := UInt32.lt_iff_toNat_lt.1 hnew
          refine .ok hend trivial ⟨⟨?_, ?_, growAlloc_blocks hd.blocks hgrow⟩, hge, rfl⟩
          · show (d.memory ++ List.replicate _ 0).length = newSize.toNat
            rw [List.length_append, List.length_replicate, hd.length]
            omega
          · exact UInt32.le_trans hd.inside (UInt32.le_of_lt hnew)
        · simp only [if_neg hnew]
          exact .ok hend trivial ⟨hd, UInt32.le_trans hge (UInt32.not_lt.1 hnew), rfl⟩
  · rw [if_neg hmem]
    have hle := UInt32.not_lt.1 hmem
    refine .ok ?_ trivial ⟨hd, UInt32.le_trans hle hd.inside, rfl⟩
    exact Nat.not_lt.2 ((UInt32.le_iff_toNat_le.1 hle).trans hd.le_largest)

/-- **A copy** of `src`, which stays inside the block if it ends below `2 ^ 32`. -/
theorem writeToMemory_ends (off : UInt32) {src : List UInt8} {d : DataArea} (hne : src ≠ [])
    (hlen : src.length < 2 ^ 32) (hd : Grown block d) :
    EndsAs (largestAlloc block < (off.toNat + src.length) % 2 ^ 32)
      (off.toNat + src.length < 2 ^ 32)
      (fun d' => Grown block d' ∧ d'.memsz.toNat = off.toNat + src.length)
      (writeToMemory block src off d) := by
  have hpos : 0 < src.length := List.length_pos_iff.2 hne
  have hsum : (off + UInt32.ofNat src.length).toNat = (off.toNat + src.length) % 2 ^ 32 := by
    rw [UInt32.toNat_add, UInt32.toNat_ofNat', Nat.mod_eq_of_lt hlen]
  have hensure := ensureMemoryAlloc_ends (off + UInt32.ofNat src.length) hd
  unfold writeToMemory
  dsimp only
  generalize ensureMemoryAlloc block (off + UInt32.ofNat src.length) d = x at hensure ⊢
  cases hensure with
  | hang h =>
      rw [hsum] at h
      exact .hang h
  | outside _ hfits => exact absurd trivial hfits
  | ok h _ hd' =>
      rename_i d'
      obtain ⟨hgrown, halloc, -⟩ := hd'
      have hle := UInt32.le_iff_toNat_le.1 halloc
      rw [hsum] at h hle
      simp only [ok_bind]
      by_cases hfit : off.toNat + src.length < 2 ^ 32
      · rw [Nat.mod_eq_of_lt hfit] at hle
        have hsome := write_isSome.2 (show off.toNat + src.length ≤ d'.memory.length by
          rw [hgrown.length]
          exact hle)
        obtain ⟨memory, hw⟩ := Option.isSome_iff_exists.1 hsome
        simp only [hw]
        refine .ok h hfit ⟨⟨?_, halloc, hgrown.blocks⟩, ?_⟩
        · exact (write_length hw).trans hgrown.length
        · exact hsum.trans (Nat.mod_eq_of_lt hfit)
      · have hnone : write d'.memory off.toNat src = none := by
          have hsz := d'.memAlloc.toNat_lt
          rw [← Option.not_isSome_iff_eq_none, write_isSome, hgrown.length]
          omega
        simp only [hnone]
        exact .outside h hfit

/-! ## Content in chunks -/

/-- Writing `len` bytes from `off` on in chunks of `c` is endless: a chunk that starts below
`2 ^ 32` has its end, cut to 32 bits, above the largest allocation. -/
def ChunkEndless (limit c off len : ℕ) : Prop :=
  ∃ k, k * c < len ∧ off + k * c < 2 ^ 32 ∧ limit < (off + min ((k + 1) * c) len) % 2 ^ 32

/-- Content of one chunk. -/
theorem chunkEndless_one {limit c off len : ℕ} (hlen : 0 < len) (hle : len ≤ c)
    (hoff : off < 2 ^ 32) : ChunkEndless limit c off len ↔ limit < (off + len) % 2 ^ 32 := by
  constructor
  · rintro ⟨k, hk, -, hlimit⟩
    have hzero : k = 0 := by
      by_contra hne
      have := Nat.le_mul_of_pos_left c (Nat.pos_of_ne_zero hne)
      omega
    rwa [hzero, Nat.zero_add, Nat.one_mul, Nat.min_eq_right hle] at hlimit
  · intro h
    refine ⟨0, by omega, by omega, ?_⟩
    rwa [Nat.zero_add, Nat.one_mul, Nat.min_eq_right hle]

/-- The first chunk and the others. -/
theorem chunkEndless_step {limit c off len : ℕ} (hlt : c < len) (hoff : off < 2 ^ 32) :
    ChunkEndless limit c off len ↔ limit < (off + c) % 2 ^ 32 ∨
      off + c < 2 ^ 32 ∧ ChunkEndless limit c (off + c) (len - c) := by
  constructor
  · rintro ⟨k, hk, hstart, hlimit⟩
    cases k with
    | zero =>
        rw [Nat.zero_add, Nat.one_mul, Nat.min_eq_left (by omega)] at hlimit
        exact .inl hlimit
    | succ k =>
        rw [Nat.succ_mul] at hk hstart
        refine .inr ⟨by omega, k, by omega, by omega, ?_⟩
        have hend : off + min ((k + 1 + 1) * c) len =
            off + c + min ((k + 1) * c) (len - c) := by
          rw [Nat.succ_mul (k + 1)]
          omega
        rwa [hend] at hlimit
  · rintro (hlimit | ⟨-, k, hk, hstart, hlimit⟩)
    · refine ⟨0, by omega, by omega, ?_⟩
      rwa [Nat.zero_add, Nat.one_mul, Nat.min_eq_left (by omega)]
    · refine ⟨k + 1, by rw [Nat.succ_mul]; omega, by rw [Nat.succ_mul]; omega, ?_⟩
      have hend : off + min ((k + 1 + 1) * c) len =
          off + c + min ((k + 1) * c) (len - c) := by
        rw [Nat.succ_mul (k + 1)]
        omega
      rwa [hend]

/-- No content, no chunk. -/
theorem chunkEndless_zero {limit c off : ℕ} : ¬ ChunkEndless limit c off 0 := by
  rintro ⟨k, hk, -⟩
  exact Nat.not_lt_zero _ hk

/-- **The blocks of a file.** The induction is on the rounds of the loop. -/
theorem writeBlocks_ends (hblock : 0 < block) {fuel : ℕ} {contents : List UInt8} {w : UInt32}
    {d : DataArea} (hfuel : contents.length < fuel) (hd : Grown block d) :
    EndsAs (ChunkEndless (largestAlloc block) block.toNat w.toNat contents.length)
      (w.toNat + contents.length < 2 ^ 32) (Grown block) (writeBlocks block fuel contents w d) := by
  have hpos : 0 < block.toNat := by simpa using UInt32.lt_iff_toNat_lt.1 hblock
  have hsmall := block.toNat_lt
  have hw := w.toNat_lt
  induction fuel generalizing contents w d with
  | zero => omega
  | succ fuel ih =>
      rw [writeBlocks]
      by_cases hnil : contents = []
      · rw [hnil]
        simp only [List.take_nil, if_true]
        exact .ok chunkEndless_zero (by simpa using hw) hd
      · have hlen := List.length_pos_iff.2 hnil
        have hbuffer : contents.take block.toNat ≠ [] := by
          rw [Ne, List.take_eq_nil_iff]
          exact fun h => h.elim (by omega) hnil
        have htake : (contents.take block.toNat).length = min block.toNat contents.length :=
          List.length_take
        simp only [if_neg hbuffer]
        have hwrite := writeToMemory_ends w hbuffer (by omega) hd
        by_cases hlast : contents.length ≤ block.toNat
        · -- the last block: the next round reads nothing
          rw [htake, Nat.min_eq_right hlast] at hwrite
          have hstep : ∀ d', Grown block d' ∧ d'.memsz.toNat = w.toNat + contents.length →
              EndsAs False True (Grown block) (writeBlocks block fuel (contents.drop block.toNat)
                (w + UInt32.ofNat (contents.take block.toNat).length) d') := by
            rintro d' ⟨hgrown, -⟩
            rw [List.drop_eq_nil_of_le hlast]
            cases fuel with
            | zero => exact .ok not_false trivial hgrown
            | succ fuel =>
                rw [writeBlocks]
                simp only [List.take_nil, if_true]
                exact .ok not_false trivial hgrown
          refine (hwrite.bind hstep).congr ?_ ?_ fun _ h => h
          · rw [chunkEndless_one hlen hlast hw]
            tauto
          · tauto
        · have hlt : block.toNat < contents.length := Nat.lt_of_not_le hlast
          have hmin := htake.trans (Nat.min_eq_left hlt.le)
          rw [hmin] at hwrite ⊢
          have hrest : ∀ d', Grown block d' ∧ d'.memsz.toNat = w.toNat + block.toNat →
              EndsAs (ChunkEndless (largestAlloc block) block.toNat (w.toNat + block.toNat)
                  (contents.length - block.toNat))
                (w.toNat + block.toNat + (contents.length - block.toNat) < 2 ^ 32) (Grown block)
                (writeBlocks block fuel (contents.drop block.toNat)
                  (w + UInt32.ofNat block.toNat) d') := by
            rintro d' ⟨hgrown, hmemsz⟩
            have hfit := d'.memsz.toNat_lt
            have hnext : (w + UInt32.ofNat block.toNat).toNat = w.toNat + block.toNat := by
              rw [UInt32.toNat_add, UInt32.ofNat_toNat, Nat.mod_eq_of_lt (by omega)]
            rw [← List.length_drop, ← hnext]
            refine ih ?_ hgrown (by rw [hnext]; omega)
            rw [List.length_drop]
            omega
          refine (hwrite.bind hrest).congr ?_ ?_ fun _ h => h
          · exact (chunkEndless_step hlt hw).symm
          · intro _
            omega

section Strings

variable {β : Type} {e f : Prop} {Q : β → Prop} {k : Bool → DataArea → Except PrsFault β}

/-- The characters of a string, its terminator, and what comes behind them. -/
abbrev stringThen (block : UInt32) (str : CStr) (escapeChr : Bool) (w : UInt32) (d : DataArea)
    (k : Bool → DataArea → Except PrsFault β) : Except PrsFault β :=
  writeStr block str escapeChr w d >>= fun r =>
    writeToMemory block [0] r.2.1 r.2.2 >>= fun d => k r.1 d

/-- How a string of `len` bytes and its terminator end. -/
abbrev StringEnds (block : UInt32) (len : ℕ) (e f : Prop) (Q : β → Prop) (w : UInt32)
    (x : Except PrsFault β) : Prop :=
  EndsAs (ChunkEndless (largestAlloc block) 1 w.toNat (len + 1) ∨ w.toNat + (len + 1) < 2 ^ 32 ∧ e)
    (w.toNat + (len + 1) < 2 ^ 32 ∧ f) Q x

/-- The terminator of a string. -/
theorem writeNul_ends (hk : ∀ stop d', Grown block d' → EndsAs e f Q (k stop d')) (stop : Bool)
    (w : UInt32) {d : DataArea} (hd : Grown block d) :
    StringEnds block 0 e f Q w (writeToMemory block [0] w d >>= fun d => k stop d) := by
  have hwrite := (writeToMemory_ends w (List.cons_ne_nil 0 []) (by decide) hd).bind
    fun d' hd' => hk stop d' hd'.1
  refine hwrite.congr ?_ (fun _ => Iff.rfl) fun _ h => h
  rw [chunkEndless_one (by omega) le_rfl w.toNat_lt]
  exact Iff.rfl

/-- One character is written and the loop goes on. -/
theorem writeChar_ends {b : UInt8} {cs : CStr} {escapeChr : Bool} {len : ℕ}
    (ih : ∀ (w' : UInt32) (d' : DataArea), Grown block d' →
      StringEnds block len e f Q w' (stringThen block cs escapeChr w' d' k))
    (w : UInt32) {d : DataArea} (hd : Grown block d) :
    StringEnds block (len + 1) e f Q w
      ((writeToMemory block [b] w d >>= fun d => writeStr block cs escapeChr (w + 1) d) >>=
        fun r => writeToMemory block [0] r.2.1 r.2.2 >>= fun d => k r.1 d) := by
  rw [bind_assoc]
  have hw := w.toNat_lt
  have hwrite := writeToMemory_ends w (List.cons_ne_nil b []) (by simp) hd
  rw [List.length_singleton] at hwrite
  have hrest : ∀ d', Grown block d' ∧ d'.memsz.toNat = w.toNat + 1 →
      EndsAs (ChunkEndless (largestAlloc block) 1 (w.toNat + 1) (len + 1) ∨
          w.toNat + 1 + (len + 1) < 2 ^ 32 ∧ e)
        (w.toNat + 1 + (len + 1) < 2 ^ 32 ∧ f) Q (stringThen block cs escapeChr (w + 1) d' k) := by
    rintro d' ⟨hgrown, hmemsz⟩
    have hfit := d'.memsz.toNat_lt
    have hnext : (w + 1).toNat = w.toNat + 1 := by
      rw [UInt32.toNat_add]
      exact Nat.mod_eq_of_lt (by simpa [hmemsz] using hfit)
    rw [← hnext]
    exact ih (w + 1) d' hgrown
  refine (hwrite.bind hrest).congr ?_ ?_ fun _ h => h
  · have hstep := @chunkEndless_step (largestAlloc block) 1 w.toNat (len + 1 + 1) (by omega) hw
    rw [Nat.add_sub_cancel] at hstep
    rw [hstep, show w.toNat + (len + 1 + 1) = w.toNat + 1 + (len + 1) by omega]
    constructor
    · tauto
    · rintro ((h | h) | ⟨h, h'⟩)
      · exact .inl h
      · exact .inr ⟨h.1, .inl h.2⟩
      · exact .inr ⟨by omega, .inr ⟨h, h'⟩⟩
  · intro _
    constructor
    · rintro ⟨-, h, h'⟩
      exact ⟨by omega, h'⟩
    · rintro ⟨h, h'⟩
      exact ⟨by omega, by omega, h'⟩

/-- **A string.** The induction is on its characters. -/
theorem writeStr_ends (hk : ∀ stop d', Grown block d' → EndsAs e f Q (k stop d')) (str : CStr)
    (escapeChr : Bool) (w : UInt32) {d : DataArea} (hd : Grown block d) :
    StringEnds block (strBytes str escapeChr).2.length e f Q w
      (stringThen block str escapeChr w d k) := by
  induction str generalizing escapeChr w d with
  | nil => exact writeNul_ends hk false w hd
  | cons c cs ih =>
      unfold stringThen
      rw [writeStr, strBytes]
      by_cases hesc : c = '\\' ∧ escapeChr = false
      · rw [if_pos hesc, if_pos hesc]
        exact ih true w hd
      · rw [if_neg hesc, if_neg hesc]
        by_cases hquote : c = '"' ∧ escapeChr = false
        · rw [if_pos hquote, if_pos hquote]
          exact writeNul_ends hk true w hd
        · rw [if_neg hquote, if_neg hquote]
          by_cases hlit : c = '\\' ∨ c = '"'
          · rw [if_pos hlit, if_pos hlit]
            exact writeChar_ends (fun w' d' h' => ih false w' h') w hd
          · rw [if_neg hlit, if_neg hlit]
            cases escaped c with
            | some b => exact writeChar_ends (fun w' d' h' => ih false w' h') w hd
            | none => exact writeChar_ends (fun w' d' h' => ih escapeChr w' h') w hd

end Strings

/-! ## What a directive asks for -/

/-- What a directive asks of the memory area: its offset and its size, each of them possibly
`notGiven`, and the length of its content, which is written in chunks; a file that cannot be opened
has none. -/
structure Demand where
  offset : UInt32
  size : UInt32
  chunk : ℕ
  len : Option ℕ
  deriving DecidableEq, Repr

/-- Where the content goes, with `memsz` bytes in use. -/
def Demand.start (q : Demand) (memsz : UInt32) : UInt32 :=
  if q.offset = notGiven then memsz else q.offset

/-- The amount of `ensure_memory_at_offset` is above the largest allocation. -/
def Demand.OffsetEndless (block : UInt32) (q : Demand) : Prop :=
  q.offset ≠ notGiven ∧
    largestAlloc block < (q.offset + if q.size = 0 then 1 else q.size).toNat

/-- The amount of `set_memory_size` is above the largest allocation. -/
def Demand.SizeEndless (block memsz : UInt32) (q : Demand) : Prop :=
  q.size ≠ notGiven ∧ largestAlloc block < (q.size + q.start memsz).toNat

/-- **One of the amounts that the directive comes to is above the largest allocation**: that of its
offset, that of a chunk of its content, or, if all of the content is below `2 ^ 32`, that of its
size. -/
def Demand.Endless (block memsz : UInt32) (q : Demand) : Prop :=
  q.OffsetEndless block ∨ ∃ len, q.len = some len ∧
    (ChunkEndless (largestAlloc block) q.chunk (q.start memsz).toNat len ∨
      (q.start memsz).toNat + len < 2 ^ 32 ∧ q.SizeEndless block memsz)

/-- The content ends below `2 ^ 32`. -/
def Demand.Fits (memsz : UInt32) (q : Demand) : Prop :=
  ∀ len, q.len = some len → (q.start memsz).toNat + len < 2 ^ 32

/-- The computation ends as the demand says, and well otherwise. -/
structure Meets (block memsz : UInt32) (q : Option Demand) (x : Except PrsFault (Prs T)) :
    Prop where
  hang : x = .error .hang ↔ ∃ r, q = some r ∧ r.Endless block memsz
  outside : x = .error .memoryWrite ↔
    ∃ r, q = some r ∧ ¬ r.Endless block memsz ∧ ¬ r.Fits memsz
  grown : ∀ s, x = .ok s → Grown block s.result.toDataArea

theorem EndsAs.meets {memsz : UInt32} {q : Demand} {x : Except PrsFault (Prs T)}
    (h : EndsAs (q.Endless block memsz) (q.Fits memsz)
      (fun s => Grown block s.result.toDataArea) x) : Meets block memsz (some q) x := by
  cases h with
  | hang h =>
      exact ⟨by simpa using h, by simpa using fun h' => absurd h h', fun s hs => by cases hs⟩
  | outside h hfits => exact ⟨by simpa using h, by simpa using ⟨h, hfits⟩, fun s hs => by cases hs⟩
  | ok h hfits ha =>
      refine ⟨by simpa using h, by simpa using fun _ => hfits, fun s hs => ?_⟩
      rwa [← Except.ok.inj hs]

/-- A directive without a demand. -/
theorem meets_ok {memsz : UInt32} {s : Prs T} (hs : Grown block s.result.toDataArea) :
    Meets block memsz none (.ok s : Except PrsFault (Prs T)) := by
  refine ⟨by simp, by simp, fun s' hs' => ?_⟩
  rwa [← Except.ok.inj hs']

section Steps

variable {filename : FileName} {lineno : UInt32} {label : Option CStr} {s : Prs T}

theorem ensureMemoryAtOffset_ends (q : Demand) {d : DataArea} (hd : Grown block d) :
    EndsAs (q.OffsetEndless block) True
      (fun d' => Grown block d' ∧ writeOffset q.offset d' = q.start d.memsz)
      (ensureMemoryAtOffset block q.size q.offset d) := by
  unfold ensureMemoryAtOffset Demand.OffsetEndless
  by_cases hoff : q.offset = notGiven
  · rw [if_pos hoff]
    exact .ok (fun h => h.1 hoff) trivial ⟨hd, rfl⟩
  · rw [if_neg hoff]
    refine (ensureMemoryAlloc_ends _ hd).congr ?_ (fun _ => Iff.rfl) ?_
    · exact (and_iff_right hoff).symm
    · rintro d' ⟨hgrown, -, -⟩
      refine ⟨hgrown, ?_⟩
      rw [writeOffset, Demand.start, if_neg hoff, if_neg hoff]

theorem setMemorySize_ends (off size : UInt32) (hs : Grown block s.result.toDataArea) :
    EndsAs (size ≠ notGiven ∧ largestAlloc block < (size + off).toNat) True
      (fun s' => Grown block s'.result.toDataArea)
      (setMemorySize block filename lineno off size s) := by
  unfold setMemorySize
  by_cases hsize : size = notGiven
  · rw [if_pos hsize]
    exact .ok (fun h => h.1 hsize) trivial hs
  · rw [if_neg hsize]
    dsimp only
    by_cases htrim : size + off < s.result.memsz
    · rw [if_pos htrim]
      have hlt := UInt32.lt_iff_toNat_lt.1 htrim
      have hle := hs.le_largest
      refine .ok (fun h => ?_) trivial ⟨hs.length, ?_, hs.blocks⟩
      · exact absurd h.2 (Nat.not_lt.2 (hlt.le.trans hle))
      · exact UInt32.le_trans (UInt32.le_of_lt htrim) hs.inside
    · rw [if_neg htrim]
      have hgrow : EndsAs (size ≠ notGiven ∧ largestAlloc block < (size + off).toNat) True
          (fun d' => Grown block d' ∧ size + off ≤ d'.memAlloc)
          (growTo block (size + off) s.result.toDataArea) := by
        unfold growTo
        by_cases hlt : s.result.memsz < size + off
        · rw [if_pos hlt]
          refine (ensureMemoryAlloc_ends _ hs).congr (and_iff_right hsize).symm
            (fun _ => Iff.rfl) ?_
          exact fun d' h => ⟨h.1, h.2.1⟩
        · rw [if_neg hlt]
          have hle := UInt32.not_lt.1 hlt
          refine .ok (fun h => ?_) trivial ⟨hs, UInt32.le_trans hle hs.inside⟩
          exact absurd h.2 (Nat.not_lt.2 ((UInt32.le_iff_toNat_le.1 hle).trans hs.le_largest))
      refine hgrow.bind_done ?_
      rintro d' ⟨hgrown, hle⟩
      exact .ok not_false trivial ⟨hgrown.length, hle, hgrown.blocks⟩

theorem finishData_ends (off size : UInt32) (hs : Grown block s.result.toDataArea) :
    EndsAs (size ≠ notGiven ∧ largestAlloc block < (size + off).toNat) True
      (fun s' => Grown block s'.result.toDataArea)
      (finishData block filename lineno off size label s) := by
  unfold finishData
  refine (setMemorySize_ends off size hs).bind_done ?_
  intro s' hs'
  cases label with
  | none => exact .ok not_false trivial hs'
  | some label => exact .ok not_false trivial hs'

/-- The parts of a demand, as the steps of a directive come to them. -/
theorem meets_of_steps {q : Demand} {len : ℕ} {memsz : UInt32} (hlen : q.len = some len)
    {x : Except PrsFault (Prs T)}
    (h : EndsAs (q.OffsetEndless block ∨ True ∧
        (ChunkEndless (largestAlloc block) q.chunk (q.start memsz).toNat len ∨
          (q.start memsz).toNat + len < 2 ^ 32 ∧ q.SizeEndless block memsz))
      (True ∧ ((q.start memsz).toNat + len < 2 ^ 32 ∧ True))
      (fun s => Grown block s.result.toDataArea) x) : Meets block memsz (some q) x := by
  refine (h.congr ?_ (fun _ => ?_) fun _ h => h).meets
  · simp only [Demand.Endless, hlen, Option.some.injEq, exists_eq_left', true_and]
  · simp only [Demand.Fits, hlen, Option.some.injEq, forall_eq', true_and, and_true]

/-- **Content in one chunk**: a number, or the cell of a label. -/
theorem oneChunk_meets {q : Demand} {src : List UInt8} {f : DataArea → DataArea → Prs T}
    (hf : ∀ d d', (f d d').result.toDataArea = d') (hne : src ≠ []) (hlen : q.len = some src.length)
    (hchunk : src.length ≤ q.chunk) (hsmall : src.length < 2 ^ 32) {d : DataArea}
    (hd : Grown block d) :
    Meets block d.memsz (some q) (ensureMemoryAtOffset block q.size q.offset d >>= fun d =>
      writeToMemory block src (writeOffset q.offset d) d >>= fun d' =>
        finishData block filename lineno (writeOffset q.offset d) q.size label (f d d')) := by
  refine meets_of_steps hlen ((ensureMemoryAtOffset_ends q hd).bind ?_)
  rintro d' ⟨hgrown, hstart⟩
  rw [hstart]
  rw [chunkEndless_one (List.length_pos_iff.2 hne) hchunk (q.start d.memsz).toNat_lt]
  refine (writeToMemory_ends _ hne hsmall hgrown).bind ?_
  rintro d'' ⟨hgrown', -⟩
  exact finishData_ends _ _ (by rwa [hf])

end Steps

/-- What data with options asks for. -/
def dataDemand (env : PrsEnv) (data : CStr) (o : DataOptions) (includePaths : List CStr) :
    Option Demand :=
  match data with
  | '=' :: inclFile =>
      (findFile env inclFile includePaths false).1.map (fun filepath =>
        ⟨o.offset, o.size, env.memAllocBlockSz.toNat, (env.fopen filepath).map List.length⟩)
  | '"' :: str => some ⟨o.offset, o.size, 1, some ((strBytes str false).2.length + 1)⟩
  | '0' :: 'x' :: c :: hex => some ⟨o.offset, o.size, 8, some (hexBytes (c :: hex).length)⟩
  | '&' :: _ =>
      let size := labelCellSize o.size
      if size ≠ 4 ∧ size ≠ 8 then none else some ⟨o.offset, size, 8, some size.toNat⟩
  | _ => none

section Kinds

variable (env : PrsEnv) (filename : FileName) (lineno : UInt32) (label : Option CStr)
  (o : DataOptions) (includePaths : List CStr) {s : Prs T}
  (hs : Grown env.memAllocBlockSz s.result.toDataArea)

include hs

theorem addFileToMemory_meets (hblock : 0 < env.memAllocBlockSz) (inclFile : CStr) :
    Meets env.memAllocBlockSz s.result.memsz (dataDemand env ('=' :: inclFile) o includePaths)
      (addFileToMemory env filename lineno label inclFile o.size o.offset includePaths s) := by
  have hfst := findFile_fst env inclFile includePaths false s.erange
  unfold dataDemand addFileToMemory
  simp only [hfst]
  cases hfile : findFile env inclFile includePaths s.erange with
  | mk file erange =>
      cases file with
      | none => exact meets_ok hs
      | some filepath =>
          simp only [Option.map_some]
          cases hopen : env.fopen filepath with
          | none =>
              -- the file is found and cannot be opened: only the offset has been asked for
              simp only [Option.map_none]
              have hensure := ensureMemoryAtOffset_ends
                ⟨o.offset, o.size, env.memAllocBlockSz.toNat, none⟩ hs
              dsimp only at hensure
              generalize ensureMemoryAtOffset _ _ _ _ = x at hensure ⊢
              cases hensure with
              | hang h => exact ⟨by simp [Demand.Endless, h], by simp [Demand.Endless, h], by simp⟩
              | outside _ hfits => exact absurd trivial hfits
              | ok h _ _ => exact ⟨by simp [Demand.Endless, h], by simp [Demand.Fits], by simp⟩
          | some contents =>
              simp only [Option.map_some]
              refine meets_of_steps rfl ((ensureMemoryAtOffset_ends _ hs).bind ?_)
              rintro d' ⟨hgrown, hstart⟩
              simp only [hstart]
              refine (writeBlocks_ends hblock (Nat.lt_succ_self _) hgrown).bind ?_
              intro d'' hgrown'
              exact finishData_ends _ _ hgrown'

theorem addStrToMemory_meets (str : CStr) :
    Meets env.memAllocBlockSz s.result.memsz (dataDemand env ('"' :: str) o includePaths)
      (addStrToMemory env filename lineno label str o.size o.offset s) := by
  unfold dataDemand addStrToMemory
  refine meets_of_steps rfl ((ensureMemoryAtOffset_ends ⟨o.offset, o.size, 1, _⟩ hs).bind ?_)
  rintro d' ⟨hgrown, hstart⟩
  simp only [hstart]
  -- what comes behind the string
  have hk : ∀ (start : UInt32) (stop : Bool) (d'' : DataArea), Grown env.memAllocBlockSz d'' →
      EndsAs (o.size ≠ notGiven ∧ largestAlloc env.memAllocBlockSz < (o.size + start).toNat) True
        (fun s => Grown env.memAllocBlockSz s.result.toDataArea)
        (finishData env.memAllocBlockSz filename lineno start o.size label
          (if stop then s.setData d''
            else (s.setData d'').error filename lineno "bad string format".toList)) := by
    intro start stop d'' hgrown'
    refine finishData_ends _ _ ?_
    cases stop <;> exact hgrown'
  exact writeStr_ends (hk _) str false _ hgrown

theorem addHexToMemory_meets (c : Char) (hex : CStr) :
    Meets env.memAllocBlockSz s.result.memsz
      (dataDemand env ('0' :: 'x' :: c :: hex) o includePaths)
      (addHexToMemory env filename lineno label (c :: hex) o.size o.offset s) := by
  have hlen := length_toLE (hexBytes (c :: hex).length) (strtoull (c :: hex) 16).value.toNat
  have hbytes : 0 < hexBytes (c :: hex).length ∧ hexBytes (c :: hex).length ≤ 8 := by
    unfold hexBytes
    split_ifs <;> omega
  unfold dataDemand addHexToMemory
  refine @oneChunk_meets T env.memAllocBlockSz filename lineno label
    ⟨o.offset, o.size, 8, some _⟩ _ _ ?_ ?_ ?_ ?_ ?_ _ hs
  · intro d d'
    rfl
  · rw [← List.length_pos_iff, hlen]
    exact hbytes.1
  · rw [hlen]
  · rw [hlen]
    exact hbytes.2
  · rw [hlen]
    omega

theorem addLabelToMemory_meets (labelValue : CStr) :
    Meets env.memAllocBlockSz s.result.memsz (dataDemand env ('&' :: labelValue) o includePaths)
      (addLabelToMemory env filename lineno label labelValue o.size o.offset s) := by
  unfold dataDemand addLabelToMemory
  dsimp only
  by_cases hsize : labelCellSize o.size ≠ 4 ∧ labelCellSize o.size ≠ 8
  · rw [if_pos hsize, if_pos hsize]
    exact meets_ok hs
  · rw [if_neg hsize, if_neg hsize]
    have hcell : (labelCellSize o.size).toNat = 4 ∨ (labelCellSize o.size).toNat = 8 := by
      by_cases hfour : labelCellSize o.size = 4
      · rw [hfour]
        exact .inl rfl
      · rw [not_and, not_not] at hsize
        rw [hsize hfour]
        exact .inr rfl
    have hlen : (List.replicate (labelCellSize o.size).toNat (0 : UInt8)).length =
        (labelCellSize o.size).toNat := List.length_replicate
    refine @oneChunk_meets T env.memAllocBlockSz filename lineno label
      ⟨o.offset, labelCellSize o.size, 8, some _⟩ _ _ ?_ ?_ ?_ ?_ ?_ _ hs
    · intro d d'
      rfl
    · rw [← List.length_pos_iff, hlen]
      omega
    · rw [hlen]
    · rw [hlen]
      show (labelCellSize o.size).toNat ≤ 8
      omega
    · rw [hlen]
      omega

end Kinds

/-! ## A directive -/

/-- The options are the same in two states, and their reports leave the memory area alone. -/
theorem readOptions_alike (filename : FileName) (lineno : UInt32) (inside : Bool) (ws : List CStr)
    (o : DataOptions) (s t : Prs T) :
    (readOptions filename lineno inside ws o s = .error .lineAccess ∧
      readOptions filename lineno inside ws o t = .error .lineAccess) ∨
    ∃ o' s' t', readOptions filename lineno inside ws o s = .ok (o', s') ∧ SameData s s' ∧
      readOptions filename lineno inside ws o t = .ok (o', t') := by
  induction ws generalizing o s t with
  | nil =>
      cases inside with
      | true => exact .inr ⟨o, s, t, rfl, SameData.refl s, rfl⟩
      | false => exact .inl ⟨rfl, rfl⟩
  | cons w ws ih =>
      cases w with
      | nil => exact .inr ⟨o, _, _, rfl, sameData_error s _ _ _, rfl⟩
      | cons c number =>
          rw [readOptions_cons, readOptions_cons]
          by_cases hoffset : c = ':'
          · rw [if_pos hoffset, if_pos hoffset, offsetOption_fst number o s t]
            have hsame := @offsetOption_sameData T filename lineno number o s
            rcases ih _ _ _ with h | ⟨o', s', t', hs, hs', ht⟩
            · exact .inl h
            · exact .inr ⟨o', s', t', hs, hsame.trans hs', ht⟩
          · rw [if_neg hoffset, if_neg hoffset]
            by_cases hsize : c = '/'
            · rw [if_pos hsize, if_pos hsize, sizeOption_fst number o s t]
              have hsame := @sizeOption_sameData T filename lineno number o s
              rcases ih _ _ _ with h | ⟨o', s', t', hs, hs', ht⟩
              · exact .inl h
              · exact .inr ⟨o', s', t', hs, hsame.trans hs', ht⟩
            · rw [if_neg hsize, if_neg hsize]
              exact .inr ⟨o, _, _, rfl, sameData_error s _ _ _, rfl⟩

/-- What a line with a directive asks for. The options are read as `parse_preproc_data` reads them;
what it reports about them plays no part. -/
def demandOf (T : InstnTable) (env : PrsEnv) (l : DataLine) : Option Demand :=
  match readSpec (l.line.drop 6) with
  | none => none
  | some spec =>
      match readOptions l.filename l.lineno (tokensFrom spec.options).2
          (tokensFrom spec.options).1 ⟨notGiven, notGiven⟩ (initParse false : Prs T) with
      | .ok (o, _) => dataDemand env spec.data o l.includePaths
      | .error _ => none

/-- The bytes in use are inside the allocation, so that the assertion holds. -/
theorem asserted_eq {x : Except PrsFault (Bool × Prs T)}
    (h : ∀ r, x = .ok r → Grown block r.2.result.toDataArea) :
    (x >>= fun r =>
      if r.1 && decide (r.2.result.memAlloc < r.2.result.memsz) then .error .assertion
      else .ok r.2) = x >>= fun r => .ok r.2 := by
  cases x with
  | error e => rfl
  | ok r =>
      have hle := UInt32.not_lt.2 (h r rfl).inside
      simp [hle]

/-- **The functions that add data**, without the assertion behind them. -/
theorem addData_meets (env : PrsEnv) (hblock : 0 < env.memAllocBlockSz) (filename : FileName)
    (lineno : UInt32) (label : Option CStr) (data : CStr) (o : DataOptions)
    (includePaths : List CStr) {s : Prs T} (hs : Grown env.memAllocBlockSz s.result.toDataArea) :
    Meets env.memAllocBlockSz s.result.memsz (dataDemand env data o includePaths)
      (addData env filename lineno label data o includePaths s >>= fun r => .ok r.2) := by
  have hflag : ∀ (flag : Bool) {x : Except PrsFault (Prs T)} {q : Option Demand},
      Meets env.memAllocBlockSz s.result.memsz q x →
      Meets env.memAllocBlockSz s.result.memsz q
        ((x >>= fun s => .ok (flag, s)) >>= fun r => .ok r.2) := by
    intro flag x q h
    cases x <;> exact h
  unfold addData
  split
  · exact hflag true (addFileToMemory_meets env filename lineno label o includePaths hs hblock _)
  · exact hflag true (addStrToMemory_meets env filename lineno label o includePaths hs _)
  · exact hflag true (addHexToMemory_meets env filename lineno label o includePaths hs _ _)
  · exact hflag false (addLabelToMemory_meets env filename lineno label o includePaths hs _)
  · rename_i hfile hstr hhex hlabel
    have hnone : dataDemand env data o includePaths = none := by
      unfold dataDemand
      split
      · exact absurd rfl (hfile _)
      · exact absurd rfl (hstr _)
      · exact absurd rfl (hhex _ _)
      · exact absurd rfl (hlabel _)
      · rfl
    rw [hnone]
    exact meets_ok hs

theorem addData_grown (env : PrsEnv) (hblock : 0 < env.memAllocBlockSz) {filename : FileName}
    {lineno : UInt32} {label : Option CStr} {data : CStr} {o : DataOptions}
    {includePaths : List CStr} {s : Prs T} (hs : Grown env.memAllocBlockSz s.result.toDataArea)
    {r : Bool × Prs T} (h : addData env filename lineno label data o includePaths s = .ok r) :
    Grown env.memAllocBlockSz r.2.result.toDataArea := by
  have hmeets := addData_meets env hblock filename lineno label data o includePaths hs
  rw [h] at hmeets
  exact hmeets.grown _ rfl

/-- **A directive** ends as its demand says. -/
theorem parsePreprocData_meets (env : PrsEnv) (hblock : 0 < env.memAllocBlockSz) (l : DataLine)
    {s : Prs T} (hs : Grown env.memAllocBlockSz s.result.toDataArea) :
    Meets env.memAllocBlockSz s.result.memsz (demandOf T env l)
      (parsePreprocData env l.filename l.lineno l.line l.includePaths s) := by
  unfold demandOf
  by_cases hlen : 6 ≤ l.line.length
  · rw [parsePreprocData_eq env l.filename l.lineno hlen l.includePaths s]
    unfold applySpec
    cases readSpec (l.line.drop 6) with
    | none => exact meets_ok hs
    | some spec =>
        dsimp only
        rcases readOptions_alike l.filename l.lineno (tokensFrom spec.options).2
            (tokensFrom spec.options).1 ⟨notGiven, notGiven⟩ s (initParse false)
          with ⟨hs', ht⟩ | ⟨o, s', t, hs', hsame, ht⟩
        · rw [hs', ht]
          exact ⟨by simp, by simp, by simp⟩
        · rw [hs', ht]
          have harea := hsame.area
          rw [← harea] at hs ⊢
          simp only [ok_bind]
          rw [asserted_eq fun r hr => addData_grown env hblock hs hr]
          exact addData_meets env hblock l.filename l.lineno spec.label spec.data o
            l.includePaths hs
  · have hnil : l.line.drop 6 = [] := List.drop_eq_nil_of_le (by omega)
    have hshort : parsePreprocData env l.filename l.lineno l.line l.includePaths s =
        .error .lineAccess := by
      rw [parsePreprocData, dataHead_short hlen]
      rfl
    rw [hshort, hnil]
    exact ⟨by simp [readSpec, readHead, requiredToken, tokenOf],
      by simp [readSpec, readHead, requiredToken, tokenOf], by simp⟩

/-! ## Which directives end -/

/-- The memory areas that directives build. -/
inductive Built (T : InstnTable) (env : PrsEnv) : DataArea → Prop
  | init (erange : Bool) : Built T env (initParse erange : Prs T).result.toDataArea
  | directive {s s' : Prs T} (l : DataLine) (h : Built T env s.result.toDataArea)
      (hstep : parsePreprocData env l.filename l.lineno l.line l.includePaths s = .ok s') :
      Built T env s'.result.toDataArea

theorem grown_init (block : UInt32) (erange : Bool) :
    Grown block (initParse erange : Prs T).result.toDataArea :=
  ⟨rfl, UInt32.le_refl 0, Nat.dvd_zero _⟩

/-- **The invariant**, by induction on what has been built. -/
theorem Built.grown {env : PrsEnv} (hblock : 0 < env.memAllocBlockSz) {d : DataArea}
    (h : Built T env d) : Grown env.memAllocBlockSz d := by
  induction h with
  | init erange => exact grown_init _ erange
  | directive l _ hstep ih => exact (parsePreprocData_meets env hblock l ih).grown _ hstep

/-- **Which directives end**, on every image built so far: those that ask for no amount above the
largest allocation. -/
theorem parsePreprocData_ends_iff (env : PrsEnv) (hblock : 0 < env.memAllocBlockSz) {s : Prs T}
    (hs : Built T env s.result.toDataArea) (l : DataLine) :
    parsePreprocData env l.filename l.lineno l.line l.includePaths s ≠ .error .hang ↔
      ∀ q, demandOf T env l = some q → ¬ q.Endless env.memAllocBlockSz s.result.memsz := by
  rw [Ne, (parsePreprocData_meets env hblock l (hs.grown hblock)).hang]
  simp only [not_exists, not_and]

theorem parsePreprocData_ends_iff_byte :
    parsePreprocData dataEnv (dataLine "%data 0x1\n").filename 1 "%data 0x1\n".toList
        [".".toList] (initParse false : Prs stableTable) ≠ .error .hang ↔
      ∀ q, demandOf stableTable dataEnv (dataLine "%data 0x1\n") = some q →
        ¬ q.Endless dataEnv.memAllocBlockSz (initParse false : Prs stableTable).result.memsz :=
  parsePreprocData_ends_iff dataEnv (by decide) (.init false) (dataLine "%data 0x1\n")

/-- An offset without a size: the absent size is added to it as a number. -/
theorem offset_endless :
    parsePreprocData dataEnv (dataLine "%data 0x1 :0\n").filename 1 "%data 0x1 :0\n".toList
      [".".toList] (initParse false : Prs stableTable) = .error .hang := by
  have hmeets := parsePreprocData_meets dataEnv (by decide) (dataLine "%data 0x1 :0\n")
    (grown_init (T := stableTable) 10 false)
  refine hmeets.hang.2 ⟨⟨0, notGiven, 8, some 1⟩, rfl, .inl ⟨by decide, ?_⟩⟩
  decide

/-! ## Which runs stay inside the memory block -/

/-- A directive, as a step of the parser. -/
def dataStep (env : PrsEnv) (l : DataLine) (s : Prs T) : Option (Prs T) :=
  (parsePreprocData env l.filename l.lineno l.line l.includePaths s).toOption

/-- No copy of the directive leaves the memory block, and behind it the bytes in use and the cells
of the labels are inside. -/
structure CopiesInside (env : PrsEnv) (l : DataLine) (s : Prs T) : Prop where
  copies : parsePreprocData env l.filename l.lineno l.line l.includePaths s ≠
    .error .memoryWrite
  after : ∀ s', dataStep env l s = some s' →
    s'.result.memsz ≤ s'.result.memAlloc ∧
      s'.result.memory.length = s'.result.memAlloc.toNat ∧ CellsInside s'.result

/-- The content of the directive ends below `2 ^ 32`, if the directive gets to it. -/
def FitsOrEndless (env : PrsEnv) (l : DataLine) (s : Prs T) : Prop :=
  ∀ q, demandOf T env l = some q → ¬ q.Endless env.memAllocBlockSz s.result.memsz →
    q.Fits s.result.memsz

/-- What directives keep. -/
def AreaInv (env : PrsEnv) (s : Prs T) : Prop :=
  Grown env.memAllocBlockSz s.result.toDataArea ∧ CellsInside s.result

theorem areaInv_step {env : PrsEnv} (hblock : 0 < env.memAllocBlockSz) (l : DataLine)
    {s s' : Prs T} (hs : AreaInv env s) (h : dataStep env l s = some s') : AreaInv env s' := by
  have hok := toOption_eq_some.1 h
  exact ⟨(parsePreprocData_meets env hblock l hs.1).grown _ hok, parsePreprocData_cells hs.2 hok⟩

/-- One directive. -/
theorem copiesInside_step {env : PrsEnv} (hblock : 0 < env.memAllocBlockSz) (l : DataLine)
    {s : Prs T} (hs : AreaInv env s) : CopiesInside env l s ↔ FitsOrEndless env l s := by
  have hmeets := parsePreprocData_meets env hblock l hs.1
  have hcopies : parsePreprocData env l.filename l.lineno l.line l.includePaths s ≠
      .error .memoryWrite ↔ FitsOrEndless env l s := by
    rw [Ne, hmeets.outside]
    simp only [FitsOrEndless, not_exists, not_and, not_not]
  constructor
  · intro h
    exact hcopies.1 h.copies
  · intro h
    refine ⟨hcopies.2 h, fun s' hs' => ?_⟩
    obtain ⟨hgrown, hcells⟩ := areaInv_step hblock l hs hs'
    exact ⟨hgrown.inside, hgrown.length, hcells⟩

/-- **Which runs stay inside the memory block**: those in which the content of every directive that
gets to its content ends below `2 ^ 32`. -/
theorem copiesInside_iff (env : PrsEnv) (hblock : 0 < env.memAllocBlockSz) (lines : List DataLine)
    (erange : Bool) :
    Along (dataStep env) (CopiesInside env) lines (initParse erange : Prs T) ↔
      Along (dataStep env) (FitsOrEndless env) lines (initParse erange : Prs T) := by
  have hinit : AreaInv env (initParse erange : Prs T) :=
    ⟨grown_init _ erange, fun ref href => by cases href⟩
  refine @along_iff _ _ _ (AreaInv env) _ _ ?_ ?_ _ _ hinit
  · intro l s hs
    exact copiesInside_step hblock l hs
  · intro l s s' hs _ hstep
    exact areaInv_step hblock l hs hstep

theorem copiesInside_iff_byte :
    Along (dataStep dataEnv) (CopiesInside dataEnv) [dataLine "%data 0x1\n"]
        (initParse false : Prs stableTable) ↔
      Along (dataStep dataEnv) (FitsOrEndless dataEnv) [dataLine "%data 0x1\n"]
        (initParse false : Prs stableTable) :=
  copiesInside_iff dataEnv (by decide) [dataLine "%data 0x1\n"] false

/-- The end of the cell wraps around to 2, so that nothing is allocated for it. -/
theorem cell_outside :
    parsePreprocData dataEnv (dataLine "%data &a :4294967294\n").filename 1
        "%data &a :4294967294\n".toList [".".toList] (initParse false : Prs stableTable) =
      .error .memoryWrite ∧
    ¬ Along (dataStep dataEnv) (CopiesInside dataEnv) [dataLine "%data &a :4294967294\n"]
      (initParse false : Prs stableTable) := by
  have hmeets := parsePreprocData_meets dataEnv (by decide) (dataLine "%data &a :4294967294\n")
    (grown_init (T := stableTable) 10 false)
  have houtside := hmeets.outside.2
    ⟨⟨4294967294, 4, 8, some 4⟩, rfl, ?_, ?_⟩
  · exact ⟨houtside, fun h => h.1.copies houtside⟩
  · rintro (⟨-, hoffset⟩ | ⟨len, hlen, h⟩)
    · exact absurd hoffset (by decide)
    · obtain rfl := Option.some.inj hlen
      rcases h with h | ⟨hfits, -⟩
      · rw [chunkEndless_one (by decide) (by decide) (by decide)] at h
        exact absurd h (by decide)
      · exact absurd hfits (by decide)
  · intro hfits
    exact absurd (hfits 4 rfl) (by decide)

end BvgzVm
