import Mathlib.Algebra.Divisibility.Basic
import Mathlib.Data.Nat.Log
import Mathlib.Algebra.Order.Group.Nat

/-!
# Rounding natural numbers to binary64

The double nearest to a natural number, ties to even, as a natural number: a double of at least
`2 ^ 53` is an integer, and so is a rounded natural number below. Exponents are unbounded.
-/

namespace Octos

open Nat

/-! ## Nearest multiples -/

/-- The multiple of `u` nearest to `n`, ties to even multiples. -/
def roundTo (u n : ℕ) : ℕ :=
  if 2 * (n % u) < u ∨ (2 * (n % u) = u ∧ n / u % 2 = 0) then n / u * u else (n / u + 1) * u

section

variable {u m n : ℕ}

theorem floor_le_roundTo (u n : ℕ) : n / u * u ≤ roundTo u n := by
  unfold roundTo
  split_ifs
  · exact le_rfl
  · exact mul_le_mul_right u (le_succ _)

theorem roundTo_le_ceil (u n : ℕ) : roundTo u n ≤ (n / u + 1) * u := by
  unfold roundTo
  split_ifs
  · exact mul_le_mul_right u (le_succ _)
  · exact le_rfl

theorem dvd_roundTo (u n : ℕ) : u ∣ roundTo u n := by
  unfold roundTo
  split_ifs <;> exact Dvd.intro_left _ rfl

theorem roundTo_of_dvd (h : u ∣ n) (hu : 0 < u) : roundTo u n = n := by
  unfold roundTo
  rw [Nat.mod_eq_zero_of_dvd h, if_pos (.inl (by omega)), Nat.div_mul_cancel h]

theorem le_roundTo_add_half (hu : 0 < u) : 2 * n ≤ 2 * roundTo u n + u := by
  have hdiv := div_add_mod n u
  have hmod := mod_lt n hu
  unfold roundTo
  rw [mul_comm] at hdiv
  split_ifs with h
  · omega
  · rw [Nat.add_mul]
    omega

theorem roundTo_mono (hu : 0 < u) (h : m ≤ n) : roundTo u m ≤ roundTo u n := by
  rcases (Nat.div_le_div_right h : m / u ≤ n / u).lt_or_eq with hlt | heq
  · -- a multiple lies in between
    calc roundTo u m ≤ (m / u + 1) * u := roundTo_le_ceil u m
      _ ≤ n / u * u := mul_le_mul_right u hlt
      _ ≤ roundTo u n := floor_le_roundTo u n
  · -- between the same multiples the greater remainder decides
    have hm := div_add_mod m u
    have hn := div_add_mod n u
    rw [heq] at hm
    unfold roundTo
    rw [heq, Nat.add_mul]
    split_ifs <;> omega

end

/-! ## Doubles -/

/-- The double nearest to `n`, ties to even: a multiple of the unit in the last of 53 places. -/
def roundDouble (n : ℕ) : ℕ := roundTo (2 ^ (log2 n - 52)) n

variable {m n : ℕ}

theorem roundDouble_of_dvd (h : 2 ^ (log2 n - 52) ∣ n) : roundDouble n = n :=
  roundTo_of_dvd h (Nat.two_pow_pos _)

theorem roundDouble_of_lt (h : n < 2 ^ 53) : roundDouble n = n := by
  refine roundDouble_of_dvd ?_
  have hlog : log2 n - 52 = 0 := by
    by_cases h0 : n = 0
    · subst h0
      rfl
    · have := (log2_lt h0).mpr h
      omega
  rw [hlog]
  exact one_dvd n

theorem two_pow_dvd_two_pow_log (k : ℕ) {j : ℕ} (hj : k ≤ j) : 2 ^ (k - 52) ∣ 2 ^ j :=
  pow_dvd_pow 2 (by omega)

theorem two_pow_log_le_roundDouble (h0 : n ≠ 0) : 2 ^ log2 n ≤ roundDouble n := by
  obtain ⟨c, hc⟩ := two_pow_dvd_two_pow_log (log2 n) le_rfl
  have hle := log2_self_le h0
  have hcn : c ≤ n / 2 ^ (log2 n - 52) := by
    rw [Nat.le_div_iff_mul_le (Nat.two_pow_pos _), Nat.mul_comm, ← hc]
    exact hle
  calc 2 ^ log2 n = c * 2 ^ (log2 n - 52) := by rw [hc, mul_comm]
    _ ≤ n / 2 ^ (log2 n - 52) * 2 ^ (log2 n - 52) := mul_le_mul_right _ hcn
    _ ≤ roundDouble n := floor_le_roundTo ..

theorem roundDouble_le_two_pow (n : ℕ) : roundDouble n ≤ 2 ^ (log2 n + 1) := by
  obtain ⟨c, hc⟩ := two_pow_dvd_two_pow_log (log2 n) (le_succ _)
  have hlt : n < 2 ^ (log2 n + 1) := lt_log2_self
  have hcn : n / 2 ^ (log2 n - 52) < c := by
    rw [Nat.div_lt_iff_lt_mul (Nat.two_pow_pos _), Nat.mul_comm, ← hc]
    exact hlt
  calc roundDouble n ≤ (n / 2 ^ (log2 n - 52) + 1) * 2 ^ (log2 n - 52) :=
        roundTo_le_ceil ..
    _ ≤ c * 2 ^ (log2 n - 52) := mul_le_mul_right _ hcn
    _ = 2 ^ (log2 n + 1) := by rw [hc, mul_comm]

theorem roundDouble_mono (h : m ≤ n) : roundDouble m ≤ roundDouble n := by
  by_cases h0 : n = 0
  · obtain rfl : m = 0 := by omega
    rw [h0]
  have hlog : log2 m ≤ log2 n := by
    by_cases hm0 : m = 0
    · subst hm0
      exact zero_le _
    · rw [le_log2 h0]
      exact (log2_self_le hm0).trans h
  rcases hlog.lt_or_eq with hlt | heq
  · calc roundDouble m ≤ 2 ^ (log2 m + 1) := roundDouble_le_two_pow m
      _ ≤ 2 ^ Nat.log2 n := Nat.pow_le_pow_right (by omega) hlt
      _ ≤ roundDouble n := two_pow_log_le_roundDouble h0
  · unfold roundDouble
    rw [heq]
    exact roundTo_mono (Nat.two_pow_pos _) h

/-- **A rounded number is a double.** -/
theorem roundDouble_idem (n : ℕ) : roundDouble (roundDouble n) = roundDouble n := by
  by_cases h0 : n = 0
  · subst h0
    rfl
  refine roundDouble_of_dvd ?_
  have hlow := two_pow_log_le_roundDouble h0
  have hpos : roundDouble n ≠ 0 := (lt_of_lt_of_le (Nat.two_pow_pos _) hlow).ne'
  rcases (roundDouble_le_two_pow n).lt_or_eq with hlt | heq
  · -- the same binade has the same unit
    have hlog : log2 (roundDouble n) = log2 n := by
      apply le_antisymm
      · exact Nat.lt_succ_iff.mp ((Nat.log2_lt hpos).mpr hlt)
      · exact (le_log2 hpos).mpr hlow
    rw [hlog]
    exact dvd_roundTo ..
  · rw [heq, log2_two_pow]
    exact two_pow_dvd_two_pow_log _ le_rfl

theorem le_roundDouble_add (h : roundDouble m = m) (n : ℕ) : m ≤ roundDouble (m + n) := by
  calc m = roundDouble m := h.symm
    _ ≤ roundDouble (m + n) := roundDouble_mono (le_add_right m n)

theorem le_roundDouble_add_half (h : n < 2 ^ 63) : n ≤ roundDouble n + 512 := by
  have hunit : 2 ^ (Nat.log2 n - 52) ≤ 2 ^ 10 := by
    refine Nat.pow_le_pow_right (by omega) ?_
    by_cases h0 : n = 0
    · subst h0
      exact Nat.zero_le _
    · have := (log2_lt h0).mpr h
      omega
  have hhalf : 2 * n ≤ 2 * roundDouble n + 2 ^ (Nat.log2 n - 52) :=
    le_roundTo_add_half (Nat.two_pow_pos _)
  omega

end Octos
