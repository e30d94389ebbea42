import Mathlib.Tactic

set_option autoImplicit false

/-! # Counting in strides

A counter modulo `M` that goes on by `b` in each step. Started at a multiple of `gcd b M` it comes to
the multiples of `gcd b M` below `M` and to no other number (`stride_dvd`, `exists_stride_top`), so
that it gets as far as a bound exactly if the bound is not above the last of them
(`stride_reaches_iff`).
-/

namespace Strides

variable {b M n : ℕ}

/-- The counter after `k` steps. -/
def stride (b M n k : ℕ) : ℕ := (n + k * b) % M

/-- The last multiple of `gcd b M` below `M`. -/
def top (b M : ℕ) : ℕ := M - Nat.gcd b M

theorem stride_zero (h : n < M) : stride b M n 0 = n := by
  rw [stride, Nat.zero_mul, Nat.add_zero, Nat.mod_eq_of_lt h]

theorem stride_succ (b M n k : ℕ) : stride b M ((n + b) % M) k = stride b M n (k + 1) := by
  rw [stride, stride, Nat.mod_add_mod, Nat.succ_mul, Nat.add_assoc, Nat.add_comm b]

/-- The counter stays on the multiples. -/
theorem stride_dvd (hn : Nat.gcd b M ∣ n) (k : ℕ) : Nat.gcd b M ∣ stride b M n k := by
  refine (Nat.dvd_mod_iff (Nat.gcd_dvd_right b M)).2 ?_
  exact dvd_add hn (dvd_mul_of_dvd_right (Nat.gcd_dvd_left b M) k)

/-- A multiple below `M` is not above the last one. -/
theorem le_top (hn : Nat.gcd b M ∣ n) (h : n < M) : n ≤ top b M := by
  obtain ⟨i, hi⟩ := hn
  obtain ⟨j, hj⟩ := Nat.gcd_dvd_right b M
  have hlt : i < j := by
    by_contra hge
    have hle := Nat.mul_le_mul_left (Nat.gcd b M) (Nat.le_of_not_lt hge)
    omega
  have hle := Nat.mul_le_mul_left (Nat.gcd b M) (Nat.succ_le_of_lt hlt)
  rw [Nat.mul_succ] at hle
  unfold top
  omega

/-- **The counter comes to the last multiple** in less than `M` steps. -/
theorem exists_stride_top (hn : Nat.gcd b M ∣ n) (h : n < M) :
    ∃ k < M, stride b M n k = top b M := by
  obtain ⟨i, hi⟩ := hn
  obtain ⟨j, hj⟩ := Nat.gcd_dvd_right b M
  have hle := le_top ⟨i, hi⟩ h
  rcases Nat.lt_or_eq_of_le (Nat.gcd_le_right b (Nat.zero_lt_of_lt h)) with hlt | heq
  · obtain ⟨m, -, hm⟩ := Nat.exists_mul_mod_eq_gcd hlt
    have hlt' : i < j := by
      by_contra hge
      have := Nat.mul_le_mul_left (Nat.gcd b M) (Nat.le_of_not_lt hge)
      omega
    have htop : top b M = n + Nat.gcd b M * (j - 1 - i) := by
      calc top b M = Nat.gcd b M * j - Nat.gcd b M := congrArg (· - Nat.gcd b M) hj
        _ = Nat.gcd b M * (j - 1) := (Nat.mul_sub_one _ _).symm
        _ = Nat.gcd b M * (i + (j - 1 - i)) := by congr 1; omega
        _ = n + Nat.gcd b M * (j - 1 - i) := by rw [Nat.mul_add, ← hi]
    refine ⟨m * (j - 1 - i) % M, Nat.mod_lt _ (Nat.zero_lt_of_lt h), ?_⟩
    calc stride b M n (m * (j - 1 - i) % M)
        = (n + b * m % M * (j - 1 - i)) % M := by
          refine Nat.ModEq.add_left n ?_
          calc m * (j - 1 - i) % M * b
              ≡ m * (j - 1 - i) * b [MOD M] := (Nat.mod_modEq _ _).mul_right b
            _ = b * m * (j - 1 - i) := by ring
            _ ≡ b * m % M * (j - 1 - i) [MOD M] := ((Nat.mod_modEq _ _).mul_right _).symm
      _ = top b M % M := by rw [hm, ← htop]
      _ = top b M := Nat.mod_eq_of_lt (by
          have := Nat.gcd_pos_of_pos_right b (Nat.zero_lt_of_lt h)
          unfold top
          omega)
  · -- the only multiple below `M` is zero
    have hzero : top b M = 0 := by
      unfold top
      omega
    refine ⟨0, Nat.zero_lt_of_lt h, ?_⟩
    rw [stride_zero h]
    omega

/-- **The counter gets as far as `a`** exactly if the last multiple does. -/
theorem stride_reaches_iff (hn : Nat.gcd b M ∣ n) (h : n < M) {a : ℕ} :
    (∃ k < M, a ≤ stride b M n k) ↔ a ≤ top b M := by
  constructor
  · rintro ⟨k, -, hk⟩
    exact hk.trans (le_top (stride_dvd hn k) (Nat.mod_lt _ (Nat.zero_lt_of_lt h)))
  · intro ha
    obtain ⟨k, hk, hstride⟩ := exists_stride_top hn h
    exact ⟨k, hk, hstride ▸ ha⟩

end Strides
