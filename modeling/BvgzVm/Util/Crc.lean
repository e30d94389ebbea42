import BvgzVm.Util.Hashmap

set_option autoImplicit false

/-! # The table of the checksum

`crc32` takes a byte in one step with the help of a table. It computes what the division by the
polynomial bit by bit does (`crc32_eq_bits`): a division step is linear, so the low eight bits of a
value, which the table is for, and the other ones, which are only shifted, can be treated apart.
-/

namespace BvgzVm

/-! ## Bit by bit -/

/-- A division step, of the reflected polynomial. -/
def crcBit (x : UInt64) : UInt64 :=
  if x.toNat % 2 = 1 then (x >>> 1) ^^^ 0xedb88320 else x >>> 1

/-- The division steps of a byte. -/
def crcByte (crc32val : UInt64) (b : UInt8) : UInt64 := crcBit^[8] (crc32val ^^^ b.toUInt64)

/-- The checksum, bit by bit. -/
def crc32Bits (s : List UInt8) : UInt64 := s.foldl crcByte 0

/-! ## Division is linear -/

theorem crcBit_xor (x y : UInt64) : crcBit (x ^^^ y) = crcBit x ^^^ crcBit y := by
  have hparity : (x ^^^ y).toNat % 2 = (x.toNat + y.toNat) % 2 := by
    have hodd := Nat.xor_mod_two_eq_one (a := x.toNat) (b := y.toNat)
    rw [← UInt64.toNat_xor] at hodd
    omega
  unfold crcBit
  rw [hparity, UInt64.shiftRight_xor]
  have hx := Nat.mod_two_eq_zero_or_one x.toNat
  have hy := Nat.mod_two_eq_zero_or_one y.toNat
  rcases hx with hx | hx <;> rcases hy with hy | hy
  · rw [if_neg (by omega), if_neg (by omega), if_neg (by omega)]
  · rw [if_pos (by omega), if_neg (by omega), if_pos (by omega)]
    ac_rfl
  · rw [if_pos (by omega), if_pos (by omega), if_neg (by omega)]
    ac_rfl
  · -- the polynomial is subtracted on both sides, and cancels
    rw [if_neg (by omega), if_pos (by omega), if_pos (by omega)]
    have hcancel (p u v : UInt64) : u ^^^ v = u ^^^ p ^^^ (v ^^^ p) := by
      calc u ^^^ v = u ^^^ v ^^^ (p ^^^ p) := by rw [UInt64.xor_self, UInt64.xor_zero]
        _ = u ^^^ p ^^^ (v ^^^ p) := by ac_rfl
    exact hcancel _ _ _

theorem crcBits_xor (n : ℕ) (x y : UInt64) :
    crcBit^[n] (x ^^^ y) = crcBit^[n] x ^^^ crcBit^[n] y := by
  induction n generalizing x y with
  | zero => rfl
  | succ n ih => rw [Function.iterate_succ_apply, crcBit_xor, ih]; rfl

/-! ## The two parts of a value -/

/-- While the lowest bit is not set a step only shifts. -/
theorem crcBits_shift {n : ℕ} {x : UInt64} (h : x.toNat % 2 ^ n = 0) :
    (crcBit^[n] x).toNat = x.toNat / 2 ^ n := by
  induction n generalizing x with
  | zero => simp
  | succ n ih =>
      have hdvd : 2 * 2 ^ n ∣ x.toNat := by
        rw [← pow_succ']
        exact Nat.dvd_of_mod_eq_zero h
      obtain ⟨q, hq⟩ := hdvd
      have heven : x.toNat % 2 = 0 := by rw [hq, Nat.mul_assoc, Nat.mul_mod_right]
      have hbit : crcBit x = x >>> 1 := if_neg (by omega)
      have hhalf : (x >>> 1).toNat = 2 ^ n * q := by
        rw [UInt64.toNat_shiftRight]
        show x.toNat >>> 1 = _
        rw [Nat.shiftRight_eq_div_pow, hq, pow_one, Nat.mul_assoc,
          Nat.mul_div_cancel_left _ two_pos]
      rw [Function.iterate_succ_apply, hbit, ih (by rw [hhalf, Nat.mul_mod_right]), hhalf, hq,
        pow_succ', Nat.mul_div_cancel_left _ (by positivity),
        Nat.mul_div_cancel_left _ (by positivity)]

/-- A number without its low bits. -/
theorem xor_mod_two_pow (a n : ℕ) : a ^^^ (a % 2 ^ n) = 2 ^ n * (a / 2 ^ n) := by
  apply Nat.eq_of_testBit_eq
  intro i
  rw [Nat.testBit_xor, Nat.testBit_mod_two_pow, Nat.testBit_two_pow_mul, Nat.testBit_div_two_pow]
  by_cases hi : i < n
  · rw [decide_eq_true hi, Bool.true_and, Bool.xor_self, decide_eq_false (by omega), Bool.false_and]
  · rw [decide_eq_false hi, Bool.false_and, Bool.xor_false, decide_eq_true (by omega),
      Bool.true_and, Nat.sub_add_cancel (by omega)]

/-- **The table** has the checksums of the single bytes. -/
theorem crc32Tab_eq : ∀ i < 256, crc32Tab.getD i 0 = crcBit^[8] (UInt64.ofNat i) := by
  decide +kernel

/-- **A round of the loop** divides by eight bits. -/
theorem crc32Round_eq (crc32val : UInt64) (b : UInt8) :
    crc32Round crc32val b = crcByte crc32val b := by
  unfold crc32Round crcByte
  generalize hx : crc32val ^^^ b.toUInt64 = x
  have hlow : (x &&& 0xff).toNat = x.toNat % 2 ^ 8 := by
    rw [UInt64.toNat_and]
    exact Nat.and_two_pow_sub_one_eq_mod x.toNat 8
  have hrest : (x ^^^ (x &&& 0xff)).toNat = 2 ^ 8 * (x.toNat / 2 ^ 8) := by
    rw [UInt64.toNat_xor, hlow, xor_mod_two_pow]
  -- the byte is gone when the value is shifted
  have hshift : crcBit^[8] (x ^^^ (x &&& 0xff)) = crc32val >>> 8 := by
    apply UInt64.toNat_inj.1
    have hb : b.toNat < 2 ^ 8 := b.toNat_lt
    rw [crcBits_shift (by rw [hrest, Nat.mul_mod_right]), hrest,
      Nat.mul_div_cancel_left _ (by positivity), ← hx, UInt64.toNat_xor, UInt64.toNat_shiftRight,
      ← Nat.shiftRight_eq_div_pow, Nat.shiftRight_xor_distrib, UInt8.toNat_toUInt64,
      Nat.shiftRight_eq_div_pow b.toNat, Nat.div_eq_of_lt hb, Nat.xor_zero]
    rfl
  have hsplit : x = (x &&& 0xff) ^^^ (x ^^^ (x &&& 0xff)) := by
    calc x = x ^^^ ((x &&& 0xff) ^^^ (x &&& 0xff)) := by rw [UInt64.xor_self, UInt64.xor_zero]
      _ = (x &&& 0xff) ^^^ (x ^^^ (x &&& 0xff)) := by ac_rfl
  have htab : crc32Tab.getD (x &&& 0xff).toNat 0 = crcBit^[8] (x &&& 0xff) := by
    rw [crc32Tab_eq _ (by rw [hlow]; exact Nat.mod_lt _ (by decide)), UInt64.ofNat_toNat]
  calc crc32Tab.getD (x &&& 0xff).toNat 0 ^^^ crc32val >>> 8
      = crcBit^[8] (x &&& 0xff) ^^^ crcBit^[8] (x ^^^ (x &&& 0xff)) := by rw [htab, hshift]
    _ = crcBit^[8] ((x &&& 0xff) ^^^ (x ^^^ (x &&& 0xff))) := (crcBits_xor 8 _ _).symm
    _ = crcBit^[8] x := by rw [← hsplit]

/-- **The checksum by table is the one bit by bit**, of every string. -/
theorem crc32_eq_bits (s : List UInt8) : crc32 s = crc32Bits s := by
  have hrounds : crc32Round = crcByte := by
    funext crc32val b
    exact crc32Round_eq crc32val b
  unfold crc32 crc32Bits
  rw [hrounds]

end BvgzVm
