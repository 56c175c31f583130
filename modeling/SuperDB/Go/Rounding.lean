import Mathlib.Data.Int.Log
import Mathlib.Data.Rat.Floor
import Mathlib.Tactic.FieldSimp
import Mathlib.Tactic.Linarith
import Mathlib.Tactic.Positivity
import SuperDB.Go.Strconv

/-!
# Rounding to doubles

The double nearest to a rational number. The computation on naturals, `Float64.round`, gives it; so
it depends on the quotient of its arguments only, and it gives a double back for whatever is close
to it.
-/

namespace SuperDB.Go

/-- The nearest natural number, ties to the even one. -/
noncomputable def halfEven (y : ℚ) : Nat :=
  if 1 / 2 < y - ⌊y⌋₊ ∨ y - ⌊y⌋₊ = 1 / 2 ∧ ⌊y⌋₊ % 2 = 1 then ⌊y⌋₊ + 1 else ⌊y⌋₊

theorem halfEven_div (a : Nat) {b : Nat} (hb : 0 < b) :
    halfEven ((a : ℚ) / b) =
      if b < 2 * (a % b) ∨ 2 * (a % b) = b ∧ a / b % 2 = 1 then a / b + 1 else a / b := by
  have hfloor : ⌊(a : ℚ) / b⌋₊ = a / b := Nat.floor_div_eq_div a b
  have hpos : (0 : ℚ) < b := Nat.cast_pos.2 hb
  have hrest : (a : ℚ) / b - (a / b : Nat) = (a % b : Nat) / b := by
    have hsplit : (a : ℚ) = b * (a / b : Nat) + (a % b : Nat) := by
      rw [← Nat.cast_mul, ← Nat.cast_add, Nat.div_add_mod]
    field_simp
    linarith
  have hlt : 1 / 2 < ((a % b : Nat) : ℚ) / b ↔ b < 2 * (a % b) := by
    rw [lt_div_iff₀ hpos, ← Nat.cast_lt (α := ℚ)]
    push_cast
    constructor <;> intro h <;> linarith
  have heq : ((a % b : Nat) : ℚ) / b = 1 / 2 ↔ 2 * (a % b) = b := by
    rw [div_eq_iff hpos.ne', ← Nat.cast_inj (R := ℚ)]
    push_cast
    constructor <;> intro h <;> linarith
  unfold halfEven
  simp only [hfloor, hrest, hlt, heq]

theorem halfEven_of_close {y : ℚ} {n : Nat} (hy : 0 ≤ y) (h : |y - n| < 1 / 2) :
    halfEven y = n := by
  obtain ⟨hlow, hhigh⟩ := abs_lt.1 h
  unfold halfEven
  by_cases hle : (n : ℚ) ≤ y
  · have hfloor : ⌊y⌋₊ = n := (Nat.floor_eq_iff hy).2 ⟨hle, by linarith⟩
    rw [hfloor, if_neg]
    rintro (hmore | ⟨hmore, -⟩) <;> linarith
  · rw [not_le] at hle
    obtain ⟨m, rfl⟩ : ∃ m, n = m + 1 := by
      refine Nat.exists_eq_succ_of_ne_zero ?_
      rintro rfl
      rw [Nat.cast_zero] at hle
      linarith
    push_cast at hlow hle
    have hfloor : ⌊y⌋₊ = m := (Nat.floor_eq_iff hy).2 ⟨by linarith, by linarith⟩
    rw [hfloor, if_pos (Or.inl (by linarith))]

namespace Float64

/-- The double nearest to `±q`, ties to the even significand. -/
noncomputable def nearest (neg : Bool) (q : ℚ) : Float64 :=
  if q = 0 then ofParts neg 0 (-1074)
  else
    let e := max (Int.log 2 q - 52) (-1074)
    let n := halfEven (q / 2 ^ e)
    if n = 2 ^ 53 then ofParts neg (2 ^ 52) (e + 1) else ofParts neg n e

theorem scaled_pos (num : Nat) {den : Nat} (hden : 0 < den) (e : Int) :
    0 < (scaled num den e).2 := by
  unfold scaled
  split
  · exact Nat.mul_pos hden (Nat.two_pow_pos _)
  · exact hden

theorem scaled_quotient (num den : Nat) (e : Int) :
    ((scaled num den e).1 : ℚ) / (scaled num den e).2 = num / den / 2 ^ e := by
  unfold scaled
  split
  · next he =>
    obtain ⟨n, rfl⟩ := Int.eq_ofNat_of_zero_le he
    push_cast
    rw [Int.toNat_natCast, zpow_natCast, div_div]
  · next he =>
    obtain ⟨n, hn⟩ := Int.eq_ofNat_of_zero_le (show 0 ≤ -e by omega)
    obtain rfl : e = -(n : Int) := by omega
    push_cast
    rw [neg_neg, Int.toNat_natCast, zpow_neg, zpow_natCast, div_inv_eq_mul, div_mul_eq_mul_div]

theorem log_of_bounds {q : ℚ} {k : Int} (hlow : 2 ^ k ≤ q) (hhigh : q < 2 ^ (k + 1)) :
    Int.log 2 q = k := by
  have hpos : 0 < q := lt_of_lt_of_le (zpow_pos two_pos k) hlow
  have hle : k ≤ Int.log 2 q := (Int.zpow_le_iff_le_log one_lt_two hpos).1 (by exact_mod_cast hlow)
  have hlt : Int.log 2 q < k + 1 :=
    (Int.lt_zpow_iff_log_lt one_lt_two hpos).1 (by exact_mod_cast hhigh)
  omega

theorem log2_bounds {n : Nat} (hn : n ≠ 0) :
    (2 : ℚ) ^ (Nat.log2 n : Int) ≤ n ∧ (n : ℚ) < 2 ^ ((Nat.log2 n : Int) + 1) := by
  refine ⟨?_, ?_⟩
  · rw [zpow_natCast]
    exact_mod_cast Nat.log2_self_le hn
  · rw [← Nat.cast_succ, zpow_natCast]
    exact_mod_cast Nat.lt_log2_self

theorem log_quotient {num den : Nat} (hnum : num ≠ 0) (hden : den ≠ 0) :
    Int.log 2 ((num : ℚ) / den) - 52 =
      if (scaled num den ((Nat.log2 num : Int) - Nat.log2 den - 52)).1 /
          (scaled num den ((Nat.log2 num : Int) - Nat.log2 den - 52)).2 < 2 ^ 52 then
        (Nat.log2 num : Int) - Nat.log2 den - 52 - 1
      else (Nat.log2 num : Int) - Nat.log2 den - 52 := by
  obtain ⟨hnlow, hnhigh⟩ := log2_bounds hnum
  obtain ⟨hdlow, hdhigh⟩ := log2_bounds hden
  have hdpos : (0 : ℚ) < den := Nat.cast_pos.2 (Nat.pos_of_ne_zero hden)
  generalize hk : (Nat.log2 num : Int) - Nat.log2 den = k
  have hlow : (2 : ℚ) ^ (k - 1) < num / den := by
    rw [lt_div_iff₀ hdpos]
    calc (2 : ℚ) ^ (k - 1) * den < 2 ^ (k - 1) * 2 ^ ((Nat.log2 den : Int) + 1) :=
          mul_lt_mul_of_pos_left hdhigh (zpow_pos two_pos _)
      _ = 2 ^ (Nat.log2 num : Int) := by
          rw [← zpow_add₀ two_ne_zero]
          congr 1
          omega
      _ ≤ num := hnlow
  have hhigh : (num : ℚ) / den < 2 ^ (k + 1) := by
    rw [div_lt_iff₀ hdpos]
    calc (num : ℚ) < 2 ^ ((Nat.log2 num : Int) + 1) := hnhigh
      _ = 2 ^ (k + 1) * 2 ^ (Nat.log2 den : Int) := by
          rw [← zpow_add₀ two_ne_zero]
          congr 1
          omega
      _ ≤ 2 ^ (k + 1) * den := mul_le_mul_of_nonneg_left hdlow (zpow_pos two_pos _).le
  have hdiv : (scaled num den (k - 52)).1 / (scaled num den (k - 52)).2 < 2 ^ 52 ↔
      (num : ℚ) / den < 2 ^ k := by
    rw [← Nat.floor_div_eq_div (K := ℚ), scaled_quotient, Nat.floor_lt (by positivity),
      div_lt_iff₀ (zpow_pos two_pos _)]
    have hpow : ((2 ^ 52 : Nat) : ℚ) * 2 ^ (k - 52) = 2 ^ k := by
      rw [Nat.cast_pow, ← zpow_natCast, Nat.cast_ofNat, ← zpow_add₀ two_ne_zero]
      congr 1
      omega
    rw [hpow]
  simp only [hdiv]
  split
  · next hlt =>
    rw [log_of_bounds (k := k - 1) hlow.le (by rwa [sub_add_cancel])]
    omega
  · next hge => rw [log_of_bounds (not_lt.1 hge) hhigh]

theorem round_eq_nearest (neg : Bool) (num : Nat) {den : Nat} (hden : 0 < den) :
    round neg num den = nearest neg (num / den) := by
  unfold round nearest
  by_cases hnum : num = 0
  · rw [if_pos hnum, if_pos (by rw [hnum, Nat.cast_zero, zero_div])]
  · have hq : (num : ℚ) / den ≠ 0 :=
      div_ne_zero (Nat.cast_ne_zero.2 hnum) (Nat.cast_ne_zero.2 hden.ne')
    rw [if_neg hnum, if_neg hq]
    simp only [← log_quotient hnum hden.ne', ← scaled_quotient,
      halfEven_div _ (scaled_pos num hden _)]

end Float64

def FiniteFloat.magnitude (x : FiniteFloat) : ℚ := x.mant * 2 ^ x.exp

section Close

theorem zpow_add_nat (e : Int) (n : Nat) : (2 : ℚ) ^ (e + n) = 2 ^ n * 2 ^ e := by
  rw [add_comm, zpow_add₀ two_ne_zero, zpow_natCast]

variable {x : FiniteFloat} {q : ℚ}

theorem Float64.nearest_at {e : Int} {n : Nat} (neg : Bool) (hq : 0 < q)
    (he : max (Int.log 2 q - 52) (-1074) = e) (hn : |q / 2 ^ e - n| < 1 / 2) :
    Float64.nearest neg q =
      if n = 2 ^ 53 then Float64.ofParts neg (2 ^ 52) (e + 1) else Float64.ofParts neg n e := by
  unfold nearest
  rw [if_neg hq.ne']
  simp only [he, halfEven_of_close (by positivity) hn]

theorem Float64.nearest_of_close (h : |q - x.magnitude| * 2 ^ 54 < x.magnitude) :
    Float64.nearest x.neg q = .finite x := by
  obtain ⟨hmant, hmin, hmax, hnormal⟩ := x.canonical
  have hunit : (0 : ℚ) < 2 ^ x.exp := zpow_pos two_pos _
  -- in units of the last place
  have hclose : |q / 2 ^ x.exp - x.mant| * 2 ^ 54 < x.mant := by
    have hscale : q - x.magnitude = (q / 2 ^ x.exp - x.mant) * 2 ^ x.exp := by
      rw [sub_mul, div_mul_cancel₀ _ hunit.ne']
      rfl
    rw [hscale, abs_mul, abs_of_pos hunit, mul_right_comm] at h
    exact lt_of_mul_lt_mul_right h hunit.le
  have hmant' : (x.mant : ℚ) ≤ 2 ^ 53 - 1 := by
    have : x.mant + 1 ≤ 2 ^ 53 := hmant
    have hcast : ((x.mant + 1 : Nat) : ℚ) ≤ (2 ^ 53 : Nat) := Nat.cast_le.2 this
    push_cast at hcast
    linarith
  have hhalf : |q / 2 ^ x.exp - x.mant| < 1 / 2 := by
    have hpow : (2 : ℚ) ^ 54 = 2 * 2 ^ 53 := by norm_num
    rw [hpow] at hclose
    nlinarith [abs_nonneg (q / 2 ^ x.exp - x.mant)]
  have hpos : 0 < q := by
    have hfar := (abs_lt.1 hhalf).1
    have hone : 0 < x.mant := by
      rcases Nat.eq_zero_or_pos x.mant with hz | hp
      · rw [hz, Nat.cast_zero] at hclose
        exact absurd hclose (not_lt.2 (by positivity))
      · exact hp
    have hcast : (1 : ℚ) ≤ x.mant := by exact_mod_cast hone
    have hy : 0 < q / 2 ^ x.exp := by linarith
    exact (div_pos_iff_of_pos_right hunit).1 hy
  obtain ⟨hlow, hhigh⟩ := abs_lt.1 hhalf
  have hbelow : q < 2 ^ (x.exp + 53) := by
    have hlt : q / 2 ^ x.exp < 2 ^ 53 := by linarith
    rwa [div_lt_iff₀ hunit, ← zpow_add_nat] at hlt
  have hfinite : Float64.ofParts x.neg x.mant x.exp = .finite x := dif_pos x.canonical
  have hsame : max (Int.log 2 q - 52) (-1074) = x.exp → Float64.nearest x.neg q = .finite x := by
    intro he
    rw [Float64.nearest_at x.neg hpos he hhalf, if_neg hmant.ne, hfinite]
  by_cases hsub : x.exp = -1074
  · have hlog : Int.log 2 q < x.exp + 53 :=
      (Int.lt_zpow_iff_log_lt one_lt_two hpos).1 (by exact_mod_cast hbelow)
    exact hsame (by omega)
  · have hmant52 : (2 : ℚ) ^ 52 ≤ x.mant := by exact_mod_cast hnormal.resolve_right hsub
    by_cases hge : (2 : ℚ) ^ (x.exp + 52) ≤ q
    · refine hsame ?_
      rw [log_of_bounds hge (by rwa [add_assoc])]
      omega
    · -- just below a power of two the unit is half as large
      have hlt : q / 2 ^ x.exp < 2 ^ 52 := by
        rw [div_lt_iff₀ hunit, ← zpow_add_nat]
        exact not_le.1 hge
      have htop : x.mant = 2 ^ 52 := by
        have hle : x.mant < 2 ^ 52 + 1 := by
          rw [← Nat.cast_lt (α := ℚ)]
          push_cast
          linarith
        have hge' := hnormal.resolve_right hsub
        omega
      have hmant' : (x.mant : ℚ) = 2 ^ 52 := by
        rw [htop]
        norm_num
      rw [hmant'] at hclose
      obtain ⟨hlow', hhigh'⟩ := abs_lt.1 (show |q / 2 ^ x.exp - 2 ^ 52| < 1 / 4 by
        have hpow : (2 : ℚ) ^ 54 = 4 * 2 ^ 52 := by norm_num
        rw [hpow] at hclose
        nlinarith [abs_nonneg (q / 2 ^ x.exp - 2 ^ 52)])
      have hdouble : q / 2 ^ (x.exp - 1) = 2 * (q / 2 ^ x.exp) := by
        rw [zpow_sub_one₀ two_ne_zero]
        field_simp
      have hlog : Int.log 2 q = x.exp + 51 := by
        refine log_of_bounds ?_ ?_
        · have hge51 : 2 ^ 51 ≤ q / 2 ^ x.exp := by linarith
          rwa [le_div_iff₀ hunit, ← zpow_add_nat] at hge51
        · rw [add_assoc]
          exact not_le.1 hge
      have hnear : |q / 2 ^ (x.exp - 1) - (2 ^ 53 : Nat)| < 1 / 2 := by
        rw [hdouble, abs_lt]
        push_cast
        constructor <;> linarith
      rw [Float64.nearest_at x.neg hpos (e := x.exp - 1) (by omega) hnear, if_pos rfl, ← htop,
        sub_add_cancel, hfinite]

end Close

end SuperDB.Go
