import SuperDB.Go.Decimal
import SuperDB.Go.Rounding

/-!
# Doubles and integers

A finite double is a rational number, and `toInt?` finds the integers among them: the doubles of the
integers up to `2 ^ 53` give these integers back.
-/

namespace SuperDB.Go

namespace FiniteFloat

def value (x : FiniteFloat) : ℚ := if x.neg then -x.magnitude else x.magnitude

theorem units_eq (x : FiniteFloat) : (Float64.units x : ℚ) = x.value * ((2 ^ 1074 : Int) : ℚ) := by
  have hexp : (2 : ℚ) ^ (x.exp + 1074).toNat = 2 ^ x.exp * 2 ^ 1074 := by
    have hnonneg : 0 ≤ x.exp + 1074 := by
      have := x.canonical.2.1
      omega
    rw [← zpow_natCast, Int.toNat_of_nonneg hnonneg, zpow_add₀ two_ne_zero]
    rfl
  unfold Float64.units value magnitude
  rw [Int.cast_mul, Int.cast_natCast, Nat.cast_mul, Nat.cast_pow, Nat.cast_ofNat, hexp,
    Int.cast_pow, Int.cast_ofNat]
  generalize (2 : ℚ) ^ 1074 = k
  split
  · push_cast
    ring
  · push_cast
    ring

theorem IsNat.magnitude_eq {x : FiniteFloat} {n : Nat} (h : x.IsNat n) : x.magnitude = n := by
  obtain ⟨-, den, hden, hscaled⟩ := h
  have hquotient := Float64.scaled_quotient x.mant 1 (-x.exp)
  rw [hscaled] at hquotient
  have hden' : (den : ℚ) ≠ 0 := Nat.cast_ne_zero.2 hden.ne'
  push_cast at hquotient
  rw [mul_div_cancel_right₀ _ hden', zpow_neg, div_inv_eq_mul, div_one] at hquotient
  rw [magnitude, hquotient]

end FiniteFloat

namespace Float64

/-- The integer `n` as a double. -/
def IsInt (x : Float64) (n : Int) : Prop := ∃ f : FiniteFloat, x = .finite f ∧ f.value = n

theorem toInt?_eq_some {x : FiniteFloat} {n : Int} : toInt? x = some n ↔ x.value = n := by
  have hunits := x.units_eq
  have hpos : (2 : Int) ^ 1074 ≠ 0 := pow_ne_zero _ two_ne_zero
  rw [toInt?]
  generalize (2 : Int) ^ 1074 = k at hunits hpos
  have hvalue : x.value = n ↔ units x = n * k := by
    have hk : (k : ℚ) ≠ 0 := Int.cast_ne_zero.2 hpos
    rw [← mul_left_inj' hk, ← hunits, ← Int.cast_mul, Int.cast_inj]
  rw [hvalue]
  constructor
  · intro h
    split at h
    · next hmod =>
      cases h
      exact (Int.ediv_mul_cancel (Int.dvd_of_emod_eq_zero hmod)).symm
    · cases h
  · intro h
    rw [h, if_pos (Int.mul_emod_left n k), Int.mul_ediv_cancel n hpos]

theorem ofInt_isInt {n : Int} (h : n.natAbs ≤ 2 ^ 53) : (ofInt n).IsInt n := by
  by_cases hn : n = 0
  · subst hn
    exact ⟨⟨false, 0, -1074, by decide⟩, by decide, by simp [FiniteFloat.value,
      FiniteFloat.magnitude]⟩
  · obtain ⟨x, hx, hneg, -, hnat⟩ := ofInt_finite hn h
    refine ⟨x, hx, ?_⟩
    rw [FiniteFloat.value, hneg, hnat.magnitude_eq]
    rcases lt_or_ge n 0 with hlt | hge
    · simp [hlt, abs_of_neg (show (n : ℚ) < 0 by exact_mod_cast hlt), Nat.cast_natAbs]
    · simp [not_lt.2 hge, abs_of_nonneg (show (0 : ℚ) ≤ n by exact_mod_cast hge), Nat.cast_natAbs]

end Float64

end SuperDB.Go
