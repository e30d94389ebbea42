import BvgzVm.Lib.Bytes

set_option autoImplicit false

/-! # Buffers of words

A buffer of bytes as a sequence of 32-bit words (`Holds`). Accesses of four or eight bytes at
multiples of four are accesses to one word or to two: eight bytes are read as `pair` and written
as `setPair` says. What a chain of writes leaves is a chain of `Function.update`.
-/

namespace Cells

open Bytes Function

/-- The buffer consists of the first `n` of the words `W`. -/
structure Holds (buf : List UInt8) (n : ℕ) (W : ℕ → ℕ) : Prop where
  length : buf.length = 4 * n
  word : ∀ i < n, load buf (4 * i) 4 = some (W i)

/-- The number in two words. -/
def pair (W : ℕ → ℕ) (i : ℕ) : ℕ := W i + 2 ^ 32 * W (i + 1)

/-- The words with a number in two of them. -/
def setPair (W : ℕ → ℕ) (i v : ℕ) : ℕ → ℕ :=
  update (update W i (v % 2 ^ 32)) (i + 1) (v / 2 ^ 32)

variable {buf : List UInt8} {n i j v : ℕ} {W : ℕ → ℕ}

/-! ## Two words in a row -/

theorem ofLE_append (bs cs : List UInt8) :
    ofLE (bs ++ cs) = ofLE bs + 256 ^ bs.length * ofLE cs := by
  induction bs with
  | nil => simp
  | cons b bs ih =>
      rw [List.cons_append, ofLE_cons, ofLE_cons, ih, List.length_cons, pow_succ]
      ring

/-- A range is read as its two parts. -/
theorem load_add {off w w' a b : ℕ} (ha : load buf off w = some a)
    (hb : load buf (off + w) w' = some b) : load buf off (w + w') = some (a + 256 ^ w * b) := by
  rcases Option.map_eq_some_iff.1 ha with ⟨as, has, rfl⟩
  rcases Option.map_eq_some_iff.1 hb with ⟨bs, hbs, rfl⟩
  have hlen := read_length has
  rcases read_eq_some.1 has with ⟨-, has⟩
  rcases read_eq_some.1 hbs with ⟨hle, hbs⟩
  have hread : read buf off (w + w') = some (as ++ bs) := by
    rw [read_eq_some]
    refine ⟨by omega, ?_⟩
    rw [List.take_add, has, List.drop_drop, hbs]
  rw [load_of_read hread, ofLE_append, hlen]

/-! ## Reading -/

/-- Every buffer of this length consists of words. -/
theorem exists_holds (hlen : buf.length = 4 * n) : ∃ W, Holds buf n W := by
  refine ⟨fun i => (load buf (4 * i) 4).getD 0, hlen, ?_⟩
  intro i hi
  rcases Option.isSome_iff_exists.1 (load_isSome.2 (show 4 * i + 4 ≤ buf.length by omega)) with
    ⟨a, ha⟩
  rw [ha]
  rfl

theorem Holds.lt (h : Holds buf n W) (hi : i < n) : W i < 2 ^ 32 := load_lt (h.word i hi)

theorem Holds.pair_lt (h : Holds buf n W) (hi : i + 1 < n) : pair W i < 2 ^ 64 := by
  have hlow := h.lt (show i < n by omega)
  have hhigh := h.lt hi
  unfold pair
  omega

/-- The low word of a number in two words. -/
theorem Holds.pair_mod (h : Holds buf n W) (hi : i < n) : pair W i % 2 ^ 32 = W i := by
  have hlow := h.lt hi
  unfold pair
  omega

theorem Holds.load_pair (h : Holds buf n W) (hi : i + 1 < n) :
    load buf (4 * i) 8 = some (pair W i) := by
  have hhigh := h.word (i + 1) hi
  rw [Nat.mul_add] at hhigh
  exact load_add (h.word i (by omega)) hhigh

/-! ## Writing -/

/-- **A word** is written. -/
theorem Holds.store_word (h : Holds buf n W) (hi : i < n) (v : ℕ) :
    ∃ buf', store buf (4 * i) 4 v = some buf' ∧ Holds buf' n (update W i (v % 2 ^ 32)) := by
  have hlen := h.length
  have hsome : (store buf (4 * i) 4 v).isSome = true := store_isSome.2 (by omega)
  rcases Option.isSome_iff_exists.1 hsome with ⟨buf', hbuf'⟩
  refine ⟨buf', hbuf', (store_length hbuf').trans hlen, ?_⟩
  intro j hj
  by_cases heq : j = i
  · rw [heq, update_self, load_store_same hbuf', show (256 : ℕ) ^ 4 = 2 ^ 32 from rfl]
  · rw [update_of_ne heq, load_store_disjoint hbuf' (by omega)]
    exact h.word j hj

/-- **Two words** are written. -/
theorem Holds.store_pair (h : Holds buf n W) (hi : i + 1 < n) (hv : v < 2 ^ 64) :
    ∃ buf', store buf (4 * i) 8 v = some buf' ∧ Holds buf' n (setPair W i v) := by
  have hlen := h.length
  have hsome : (store buf (4 * i) 8 v).isSome = true := store_isSome.2 (by omega)
  rcases Option.isSome_iff_exists.1 hsome with ⟨buf', hbuf'⟩
  have hlen' := store_length hbuf'
  have hword (k : ℕ) (hk : k < n) : ∃ a, load buf' (4 * k) 4 = some a :=
    Option.isSome_iff_exists.1 (load_isSome.2 (by omega))
  -- the two words are the digits of the number that is read back
  rcases hword i (by omega) with ⟨a, ha⟩
  rcases hword (i + 1) hi with ⟨b, hb⟩
  have hsum : a + 2 ^ 32 * b = v := by
    have hboth := load_add ha hb
    have hfits : v < 256 ^ 8 := hv
    rw [show (4 : ℕ) + 4 = 8 from rfl, load_store_same hbuf', Nat.mod_eq_of_lt hfits] at hboth
    exact (Option.some.inj hboth).symm
  have hlow : a < 2 ^ 32 := load_lt ha
  refine ⟨buf', hbuf', hlen'.trans hlen, ?_⟩
  intro j hj
  unfold setPair
  by_cases hhigh : j = i + 1
  · rw [hhigh, update_self, hb]
    congr 1
    omega
  · rw [update_of_ne hhigh]
    by_cases heq : j = i
    · rw [heq, update_self, ha]
      congr 1
      omega
    · rw [update_of_ne heq, load_store_disjoint hbuf' (by omega)]
      exact h.word j hj

/-! ## What is read behind a write -/

theorem setPair_of_ne (hlow : j ≠ i) (hhigh : j ≠ i + 1) : setPair W i v j = W j := by
  unfold setPair
  rw [update_of_ne hhigh, update_of_ne hlow]

theorem pair_congr {W' : ℕ → ℕ} (hlow : W' i = W i) (hhigh : W' (i + 1) = W (i + 1)) :
    pair W' i = pair W i := by
  unfold pair
  rw [hlow, hhigh]

theorem pair_setPair : pair (setPair W i v) i = v := by
  unfold pair setPair
  rw [update_self, update_of_ne (by omega), update_self]
  omega

theorem pair_setPair_of_ne (hlow : j ≠ i) (hhigh : j ≠ i + 1) (hbefore : j + 1 ≠ i) :
    pair (setPair W i v) j = pair W j :=
  pair_congr (setPair_of_ne hlow hhigh) (setPair_of_ne hbefore (by omega))

theorem pair_update_of_ne (hlow : j ≠ i) (hhigh : j + 1 ≠ i) :
    pair (update W i v) j = pair W j :=
  pair_congr (update_of_ne hlow _ _) (update_of_ne hhigh _ _)

/-- Adding to a number whose low word does not overflow changes that word only. -/
theorem setPair_pair_add (hlow : W i + v < 2 ^ 32) :
    setPair W i (pair W i + v) = update W i (W i + v) := by
  have hmod : (pair W i + v) % 2 ^ 32 = W i + v := by
    unfold pair
    omega
  have hdiv : (pair W i + v) / 2 ^ 32 = W (i + 1) := by
    unfold pair
    omega
  have hself : update W i (W i + v) (i + 1) = W (i + 1) := update_of_ne (by omega) _ _
  unfold setPair
  rw [hmod, hdiv, ← hself, update_eq_self]

end Cells
