import SuperDB.Go.Decimal
import SuperDB.Go.Rounding

/-!
# Doubles written in decimal

The text that `formatFloat` gives a double has a decimal value which rounds to the double: seventeen
digits are always enough for that. So no two doubles have the same text.
-/

namespace SuperDB.Go

variable {c : UInt8} {l : Bytes}

/-! ## The value of digits -/

def digitsValue (l : Bytes) : Nat := l.foldl (fun n a => 10 * n + (a.toNat - 48)) 0

theorem digitsValue_append (l l' : Bytes) :
    digitsValue (l ++ l') = digitsValue l * 10 ^ l'.length + digitsValue l' := by
  have hfold : ∀ (l : Bytes) (n : Nat), l.foldl (fun n (a : UInt8) => 10 * n + (a.toNat - 48)) n =
      n * 10 ^ l.length + digitsValue l := by
    intro l
    induction l with
    | nil => intro n; simp [digitsValue]
    | cons a l ih =>
      intro n
      have hcons : digitsValue (a :: l) = (a.toNat - 48) * 10 ^ l.length + digitsValue l := by
        rw [digitsValue, List.foldl_cons, ih, Nat.mul_zero, Nat.zero_add]
      rw [List.foldl_cons, ih, hcons, List.length_cons, pow_succ]
      ring
  rw [digitsValue, List.foldl_append, hfold]
  rfl

theorem digitsValue_zeros (n : Nat) : digitsValue (List.replicate n 48) = 0 := by
  induction n with
  | zero => rfl
  | succ n ih =>
    rw [List.replicate_succ', digitsValue_append, ih]
    rfl

theorem digitsValue_decimal (n : Nat) : digitsValue (decimal n) = n := by
  have hdigit : ∀ d, d < 10 → digitsValue [UInt8.ofNat (48 + d)] = d := by decide
  induction n using Nat.strong_induction_on with
  | _ n ih =>
    by_cases hn : n < 10
    · rw [decimal_of_lt hn, hdigit n hn]
    · rw [decimal_step (by omega), digitsValue_append, ih (n / 10) (by omega),
        hdigit _ (Nat.mod_lt _ (by omega)), List.length_singleton, pow_one]
      omega

/-- The number `0.d₁d₂… * 10 ^ point`. -/
def decimalValue (digits : Bytes) (point : Int) : ℚ :=
  digitsValue digits * 10 ^ (point - digits.length)

theorem decimalValue_dropZeros (l : Bytes) (point : Int) :
    decimalValue (l.reverse.dropWhile (· == 48)).reverse point = decimalValue l point := by
  have hzeros := dropZeros_append l
  have hle : (l.reverse.dropWhile (· == 48)).length ≤ l.length := by
    have := (List.dropWhile_sublist (fun a : UInt8 => a == 48) (l := l.reverse)).length_le
    rwa [List.length_reverse] at this
  unfold decimalValue
  conv_rhs => rw [← hzeros]
  rw [digitsValue_append, digitsValue_zeros, List.length_append, List.length_replicate,
    List.length_reverse, Nat.add_zero, Nat.cast_mul, Nat.cast_pow, Nat.cast_ofNat,
    mul_assoc, ← zpow_natCast, ← zpow_add₀ (by norm_num)]
  congr 2
  omega

/-! ## Seventeen digits -/

theorem leadingZeros_spec {num den : Nat} (fuel j : Nat) (hlow : num * 10 ^ j < den)
    (hfuel : den ≤ num * 10 ^ (j + fuel)) :
    num * 10 ^ leadingZeros num den fuel j < den ∧
    den ≤ num * 10 ^ (leadingZeros num den fuel j + 1) := by
  induction fuel generalizing j with
  | zero => exact absurd hfuel (Nat.not_le.2 hlow)
  | succ fuel ih =>
    unfold leadingZeros
    split
    · next hle => exact ⟨hlow, hle⟩
    · next hgt =>
      refine ih (j + 1) (Nat.not_le.1 hgt) ?_
      rwa [Nat.add_right_comm]

theorem pointOf_bounds {num den : Nat} (hden : 0 < den) (hfuel : den ≤ num * 10 ^ 400) :
    (10 : ℚ) ^ (pointOf num den - 1) ≤ num / den ∧ (num : ℚ) / den < 10 ^ pointOf num den := by
  have hpos : (0 : ℚ) < den := Nat.cast_pos.2 hden
  unfold pointOf
  split
  · next hle =>
    have hdiv : 0 < num / den := Nat.div_pos hle hden
    have hlength : (Nat.toDigits 10 (num / den)).length = (decimal (num / den)).length := by
      rw [decimal, List.length_map]
    have hlen : 0 < (decimal (num / den)).length := List.length_pos_iff.2 (decimal_ne_nil _)
    rw [hlength]
    obtain ⟨m, hm⟩ := Nat.exists_eq_succ_of_ne_zero hlen.ne'
    have hlow : 10 ^ m ≤ num / den := pow_le_of_length hdiv (by omega)
    have hhigh : num / den < 10 ^ (m + 1) := (length_decimal_le_iff (Nat.succ_pos m)).1 (by omega)
    rw [hm]
    push_cast
    rw [add_sub_cancel_right, le_div_iff₀ hpos, div_lt_iff₀ hpos]
    constructor
    · rw [zpow_natCast]
      exact_mod_cast (Nat.le_div_iff_mul_le hden).1 hlow
    · rw [← Nat.cast_succ, zpow_natCast]
      exact_mod_cast (Nat.div_lt_iff_lt_mul hden).1 hhigh
  · next hlt =>
    obtain ⟨hlow, hhigh⟩ : num * 10 ^ leadingZeros num den 400 0 < den ∧
        den ≤ num * 10 ^ (leadingZeros num den 400 0 + 1) :=
      leadingZeros_spec 400 0 (by omega) (by rwa [Nat.zero_add])
    generalize leadingZeros num den 400 0 = j at hlow hhigh
    have hj : (10 : ℚ) ^ (-(j : Int)) * 10 ^ j = 1 := by
      rw [← zpow_natCast, ← zpow_add₀ (by norm_num), neg_add_cancel, zpow_zero]
    have hlow' : (num : ℚ) * 10 ^ j < den := by exact_mod_cast hlow
    have hhigh' : (den : ℚ) ≤ num * 10 ^ (j + 1) := by exact_mod_cast hhigh
    have hpow : (0 : ℚ) < 10 ^ (-(j : Int)) := by positivity
    rw [le_div_iff₀ hpos, div_lt_iff₀ hpos, zpow_sub_one₀ (by norm_num)]
    constructor
    · calc (10 : ℚ) ^ (-(j : Int)) * 10⁻¹ * den ≤ 10 ^ (-(j : Int)) * 10⁻¹ *
        (num * 10 ^ (j + 1)) := by gcongr
        _ = 10 ^ (-(j : Int)) * 10 ^ j * num := by ring
        _ = num := by rw [hj, one_mul]
    · calc (num : ℚ) = 10 ^ (-(j : Int)) * (num * 10 ^ j) := by rw [mul_left_comm, hj, mul_one]
        _ < 10 ^ (-(j : Int)) * den := mul_lt_mul_of_pos_left hlow' hpow

theorem decimalRound_eq (neg : Bool) (c : Nat) (k : Int) :
    decimalRound neg c k = Float64.nearest neg (c * 10 ^ k) := by
  unfold decimalRound
  split
  · next hk =>
    obtain ⟨n, rfl⟩ := Int.eq_ofNat_of_zero_le hk
    rw [Float64.round_eq_nearest _ _ Nat.one_pos, Int.toNat_natCast, zpow_natCast]
    push_cast
    rw [div_one]
  · next hk =>
    obtain ⟨n, hn⟩ := Int.eq_ofNat_of_zero_le (show 0 ≤ -k by omega)
    obtain rfl : k = -(n : Int) := by omega
    rw [Float64.round_eq_nearest _ _ (by positivity), neg_neg, Int.toNat_natCast, zpow_neg,
      zpow_natCast]
    push_cast
    rw [div_eq_mul_inv]

section Shortest

variable {x : FiniteFloat} {num den : Nat} {dp : Int}

/-- A quotient of naturals scaled by a power of ten, as a quotient of naturals. -/
def tenScaled (num den : Nat) (k : Int) : Nat × Nat :=
  if 0 ≤ k then (num, den * 10 ^ k.toNat) else (num * 10 ^ (-k).toNat, den)

theorem tenScaled_quotient (num den : Nat) (k : Int) :
    ((tenScaled num den k).1 : ℚ) / (tenScaled num den k).2 = num / den / 10 ^ k := by
  unfold tenScaled
  split
  · next hk =>
    obtain ⟨n, rfl⟩ := Int.eq_ofNat_of_zero_le hk
    push_cast
    rw [Int.toNat_natCast, zpow_natCast, div_div]
  · next hk =>
    obtain ⟨n, hn⟩ := Int.eq_ofNat_of_zero_le (show 0 ≤ -k by omega)
    obtain rfl : k = -(n : Int) := by omega
    push_cast
    rw [neg_neg, Int.toNat_natCast, zpow_neg, zpow_natCast, div_inv_eq_mul, div_mul_eq_mul_div]

def pickNeighbour (x : FiniteFloat) (k : Int) (y : Nat × Nat) : Option Nat :=
  if decimalRound x.neg (y.1 / y.2) k = .finite x ∧ decimalRound x.neg (y.1 / y.2 + 1) k =
    .finite x then
    if y.2 < 2 * (y.1 % y.2) ∨ (2 * (y.1 % y.2) = y.2 ∧ y.1 / y.2 % 2 = 1) then some (y.1 / y.2 + 1)
    else some (y.1 / y.2)
  else if decimalRound x.neg (y.1 / y.2) k = .finite x then some (y.1 / y.2)
  else if decimalRound x.neg (y.1 / y.2 + 1) k = .finite x then some (y.1 / y.2 + 1)
  else none

theorem shortestWith_eq (n : Nat) :
    shortestWith x num den dp n = pickNeighbour x (dp - n) (tenScaled num den (dp - n)) := rfl

theorem pickNeighbour_reads {k : Int} {y : Nat × Nat} {c : Nat} (h : pickNeighbour x k y = some c) :
    Float64.nearest x.neg (c * 10 ^ k) = .finite x := by
  rw [← decimalRound_eq]
  unfold pickNeighbour at h
  split at h
  · next hboth =>
    split at h
    · cases h
      exact hboth.2
    · cases h
      exact hboth.1
  · split at h
    · next hlo =>
      cases h
      exact hlo
    · split at h
      · next hhi =>
        cases h
        exact hhi
      · cases h

theorem pickNeighbour_isSome {k : Int} {y : Nat × Nat}
    (h : decimalRound x.neg (y.1 / y.2) k = .finite x ∨
    decimalRound x.neg (y.1 / y.2 + 1) k = .finite x) :
    (pickNeighbour x k y).isSome := by
  unfold pickNeighbour
  split
  · split <;> rfl
  · split
    · rfl
    · next hlo =>
      rw [if_pos (h.resolve_left hlo)]
      rfl

theorem shortestWith_seventeen (hx : (num : ℚ) / den = x.magnitude)
    (hpoint : (10 : ℚ) ^ (dp - 1) ≤ num / den) : (shortestWith x num den dp 17).isSome := by
  rw [shortestWith_eq]
  refine pickNeighbour_isSome ?_
  rw [decimalRound_eq, decimalRound_eq]
  have hunit : (0 : ℚ) < 10 ^ (dp - (17 : Nat)) := by positivity
  have hquotient := tenScaled_quotient num den (dp - (17 : Nat))
  generalize tenScaled num den (dp - (17 : Nat)) = y at hquotient ⊢
  obtain ⟨a, b⟩ := y
  rw [hx] at hquotient hpoint
  -- one unit of the last digit is less than `10 ^ -16` of the number
  have hsmall : (10 : ℚ) ^ (dp - (17 : Nat)) * 10 ^ 16 ≤ x.magnitude := by
    refine le_trans (le_of_eq ?_) hpoint
    rw [← zpow_natCast, ← zpow_add₀ (by norm_num)]
    congr 1
    omega
  have hclose : ∀ c : Nat, |(c : ℚ) - a / b| ≤ 1 / 2 →
      Float64.nearest x.neg (c * 10 ^ (dp - (17 : Nat))) = .finite x := by
    intro c hc
    refine Float64.nearest_of_close ?_
    have hscale : (c : ℚ) * 10 ^ (dp - (17 : Nat)) - x.magnitude =
        (c - a / b) * 10 ^ (dp - (17 : Nat)) := by
      rw [hquotient, sub_mul, div_mul_cancel₀ _ hunit.ne']
    rw [hscale, abs_mul, abs_of_pos hunit]
    calc |(c : ℚ) - a / b| * 10 ^ (dp - (17 : Nat)) * 2 ^ 54
        ≤ 1 / 2 * 10 ^ (dp - (17 : Nat)) * 2 ^ 54 := by gcongr
      _ < 10 ^ (dp - (17 : Nat)) * 10 ^ 16 := by
          have hnum : (1 : ℚ) / 2 * 2 ^ 54 < 10 ^ 16 := by norm_num
          rw [mul_right_comm, mul_comm (10 ^ (dp - (17 : Nat)))]
          exact mul_lt_mul_of_pos_right hnum hunit
      _ ≤ x.magnitude := hsmall
  show Float64.nearest x.neg ((a / b : Nat) * _) = _ ∨
      Float64.nearest x.neg ((a / b + 1 : Nat) * _) = _
  have hfloor : ((a / b : Nat) : ℚ) ≤ a / b ∧ (a : ℚ) / b < (a / b : Nat) + 1 := by
    rw [← Nat.floor_div_eq_div (K := ℚ)]
    exact ⟨Nat.floor_le (by positivity), Nat.lt_floor_add_one _⟩
  by_cases hhalf : (a : ℚ) / b - (a / b : Nat) ≤ 1 / 2
  · refine Or.inl (hclose _ ?_)
    rw [abs_le]
    constructor <;> linarith
  · refine Or.inr (hclose _ ?_)
    push_cast
    rw [abs_le]
    constructor <;> linarith

theorem shortestFrom_reads (hseventeen : (shortestWith x num den dp 17).isSome) (fuel n : Nat)
    (hfuel : n + fuel = 17) :
    Float64.nearest x.neg (decimalValue (shortestFrom x num den dp (fuel + 1) n).1
      (shortestFrom x num den dp (fuel + 1) n).2) = .finite x := by
  have hfound : ∀ (fuel n c : Nat), shortestWith x num den dp n = some c →
      Float64.nearest x.neg (decimalValue (shortestFrom x num den dp (fuel + 1) n).1
        (shortestFrom x num den dp (fuel + 1) n).2) = .finite x := by
    intro fuel n c hc
    rw [shortestFrom, hc]
    rw [shortestWith_eq] at hc
    simp only [decimalValue_dropZeros]
    rw [← pickNeighbour_reads hc, decimalValue, digitsValue_decimal]
    congr 3
    omega
  induction fuel generalizing n with
  | zero =>
    obtain rfl : n = 17 := hfuel
    obtain ⟨c, hc⟩ := Option.isSome_iff_exists.1 hseventeen
    exact hfound 0 17 c hc
  | succ fuel ih =>
    cases hn : shortestWith x num den dp n with
    | some c => exact hfound (fuel + 1) n c hn
    | none =>
      rw [shortestFrom, hn]
      exact ih (n + 1) (by omega)

theorem scaled_magnitude (x : FiniteFloat) :
    ((Float64.scaled x.mant 1 (-x.exp)).1 : ℚ) / (Float64.scaled x.mant 1 (-x.exp)).2 =
      x.magnitude := by
  rw [Float64.scaled_quotient, FiniteFloat.magnitude, Nat.cast_one, div_one, zpow_neg,
    div_inv_eq_mul]

theorem two_pow_le (k : Nat) : 2 ^ (3 * k) ≤ 10 ^ k := by
  rw [pow_mul]
  exact Nat.pow_le_pow_left (by decide) k

theorem scaled_le (hx : x.mant ≠ 0) {n : Nat} (hn : 358 ≤ n) :
    (Float64.scaled x.mant 1 (-x.exp)).2 ≤ (Float64.scaled x.mant 1 (-x.exp)).1 * 10 ^ n := by
  obtain ⟨-, hmin, -, -⟩ := x.canonical
  have hone : 1 ≤ x.mant := Nat.one_le_iff_ne_zero.2 hx
  unfold Float64.scaled
  split
  · have hexp : (-x.exp).toNat ≤ 3 * n := by omega
    calc 1 * 2 ^ (-x.exp).toNat ≤ 2 ^ (3 * n) := by
          rw [Nat.one_mul]
          exact Nat.pow_le_pow_right two_pos hexp
      _ ≤ 10 ^ n := two_pow_le n
      _ ≤ x.mant * 10 ^ n := Nat.le_mul_of_pos_left _ hone
  · refine Nat.one_le_iff_ne_zero.2 ?_
    positivity

theorem shortest_reads (x : FiniteFloat) :
    Float64.nearest x.neg (decimalValue (shortest x).1 (shortest x).2) = .finite x := by
  unfold shortest
  split
  · next hzero =>
    have hvalue : decimalValue [] 0 = 0 := by norm_num [decimalValue, digitsValue]
    have hexp : x.exp = -1074 := by
      obtain ⟨-, -, -, h | h⟩ := x.canonical
      · omega
      · exact h
    rw [hvalue, Float64.nearest, if_pos rfl, ← hzero, ← hexp]
    exact dif_pos x.canonical
  · next hzero =>
    have hden := Float64.scaled_pos x.mant Nat.one_pos (-x.exp)
    have hpoint := (pointOf_bounds hden (scaled_le hzero (by decide))).1
    exact shortestFrom_reads (shortestWith_seventeen (scaled_magnitude x) hpoint) 16 1 rfl

end Shortest

/-! ## The value of a text -/

def plainValue (s : Bytes) : ℚ :=
  digitsValue (s.takeWhile (· ≠ ch '.') ++ (s.dropWhile (· ≠ ch '.')).drop 1) /
    10 ^ ((s.dropWhile (· ≠ ch '.')).drop 1).length

def exponentValue : Bytes → Int
  | _ :: sign :: digits => if sign = ch '-' then -digitsValue digits else digitsValue digits
  | _ => 0

def textValue (s : Bytes) : ℚ :=
  plainValue (s.takeWhile (· ≠ ch 'e')) * 10 ^ exponentValue (s.dropWhile (· ≠ ch 'e'))

theorem takeWhile_ne_append (h : c ∉ l) (r : Bytes) :
    (l ++ c :: r).takeWhile (· ≠ c) = l ∧ (l ++ c :: r).dropWhile (· ≠ c) = c :: r := by
  have hall : ∀ a ∈ l, decide (a ≠ c) = true := fun a ha => decide_eq_true fun e => h (e ▸ ha)
  rw [List.takeWhile_append_of_pos hall, List.dropWhile_append_of_pos hall]
  simp

theorem takeWhile_ne_self (h : c ∉ l) : l.takeWhile (· ≠ c) = l ∧ l.dropWhile (· ≠ c) = [] := by
  have hall : ∀ a ∈ l, decide (a ≠ c) = true := fun a ha => decide_eq_true fun e => h (e ▸ ha)
  exact ⟨List.takeWhile_eq_self_iff.2 hall, List.dropWhile_eq_nil_iff.2 hall⟩

theorem plainValue_append {whole frac : Bytes} (h : ch '.' ∉ whole) :
    plainValue (whole ++ ch '.' :: frac) = digitsValue (whole ++ frac) / 10 ^ frac.length := by
  unfold plainValue
  rw [(takeWhile_ne_append h frac).1, (takeWhile_ne_append h frac).2]
  rfl

theorem plainValue_whole {whole : Bytes} (h : ch '.' ∉ whole) : plainValue whole =
    digitsValue whole := by
  unfold plainValue
  rw [(takeWhile_ne_self h).1, (takeWhile_ne_self h).2]
  simp

section Layout

theorem not_mem_of_digits (h : ∀ a ∈ l, isDigit a = true) (hc : isDigit c = false) : c ∉ l := by
  intro hmem
  rw [h c hmem] at hc
  cases hc

theorem isDigit_zeros (n : Nat) : ∀ a ∈ List.replicate n (48 : UInt8), isDigit a = true := by
  intro a ha
  rw [List.eq_of_mem_replicate ha]
  rfl

theorem textValue_plain {s : Bytes} (h : ch 'e' ∉ s) : textValue s = plainValue s := by
  unfold textValue
  have hzero : exponentValue [] = 0 := rfl
  rw [(takeWhile_ne_self h).1, (takeWhile_ne_self h).2, hzero, zpow_zero, mul_one]

theorem textValue_whole {whole : Bytes} (h : ∀ a ∈ whole, isDigit a = true) :
    textValue whole = digitsValue whole := by
  rw [textValue_plain (not_mem_of_digits h (by decide)),
    plainValue_whole (not_mem_of_digits h (by decide))]

theorem textValue_frac {whole frac : Bytes} (h : ∀ a ∈ whole ++ frac, isDigit a = true) :
    textValue (whole ++ ch '.' :: frac) = digitsValue (whole ++ frac) / 10 ^ frac.length := by
  have hnone : ∀ c, isDigit c = false → c ∉ whole ++ frac := fun c hc => not_mem_of_digits h hc
  have hletter : ch 'e' ∉ whole ++ ch '.' :: frac := by
    have hno := hnone (ch 'e') (by decide)
    rw [List.mem_append, not_or] at hno
    rw [List.mem_append, List.mem_cons]
    rintro (hin | hin | hin)
    · exact hno.1 hin
    · exact absurd hin (by decide)
    · exact hno.2 hin
  have hpoint : ch '.' ∉ whole := fun hin => hnone (ch '.') (by decide) (List.mem_append_left _ hin)
  rw [textValue_plain hletter, plainValue_append hpoint]

variable {digits : Bytes} (hdigits : ∀ a ∈ digits, isDigit a = true)

include hdigits

theorem textValue_layoutF (point : Int) : textValue (layoutF digits point) =
    decimalValue digits point := by
  have hnil : digits = [] → decimalValue digits point = 0 := by
    rintro rfl
    norm_num [decimalValue, digitsValue]
  have hall : ∀ (l : Bytes) (n : Nat), (∀ a ∈ l, a ∈ digits) →
      ∀ a ∈ l ++ List.replicate n 48, isDigit a = true := by
    intro l n hl a ha
    rcases List.mem_append.1 ha with ha | ha
    · exact hdigits a (hl a ha)
    · exact isDigit_zeros n a ha
  unfold layoutF
  simp only
  split
  · next hwhole =>
    by_cases hpos : 0 < point
    · obtain ⟨p, rfl⟩ := Int.eq_ofNat_of_zero_le hpos.le
      rw [if_pos hpos, Int.toNat_natCast,
        textValue_whole (hall _ _ fun a ha => List.mem_of_mem_take ha),
        digitsValue_append, digitsValue_zeros]
      rcases hwhole with hle | hempty
      · have hle' : digits.length ≤ p := by omega
        rw [List.take_of_length_le hle', List.length_replicate, decimalValue, ← Nat.cast_sub hle',
          zpow_natCast]
        push_cast
        rw [add_zero]
      · rw [hnil hempty, hempty]
        simp [digitsValue]
    · have hempty : digits = [] := by
        rcases hwhole with hle | hempty
        · exact List.length_eq_zero_iff.1 (by omega)
        · exact hempty
      rw [if_neg hpos, hnil hempty,
        textValue_whole (show ∀ a ∈ [48], isDigit a = true from isDigit_zeros 1)]
      rfl
  · next hfrac =>
    rw [not_or] at hfrac
    obtain ⟨hlong, hne⟩ := hfrac
    by_cases hpos : 0 < point
    · obtain ⟨p, rfl⟩ := Int.eq_ofNat_of_zero_le hpos.le
      have hnone : p - digits.length = 0 := by omega
      have hzero : (-(p : Int)).toNat = 0 := by omega
      rw [if_pos hpos, Int.toNat_natCast, hnone, hzero, List.replicate_zero, List.append_nil,
        List.nil_append,
        textValue_frac (by rwa [List.take_append_drop]), List.take_append_drop, List.length_drop,
        decimalValue, div_eq_mul_inv, ← zpow_natCast, ← zpow_neg]
      congr 2
      omega
    · obtain ⟨n, hn⟩ := Int.eq_ofNat_of_zero_le (show 0 ≤ -point by omega)
      have hzero : point.toNat = 0 := by omega
      have hdig : ∀ a ∈ ([48] : Bytes) ++ (List.replicate n 48 ++ digits), isDigit a = true := by
        intro a ha
        simp only [List.singleton_append, List.mem_cons, List.mem_append] at ha
        rcases ha with rfl | ha | ha
        · rfl
        · exact isDigit_zeros n a ha
        · exact hdigits a ha
      rw [if_neg hpos, hn, Int.toNat_natCast, hzero, List.drop_zero, textValue_frac hdig,
        digitsValue_append,
        digitsValue_append, digitsValue_zeros, List.length_append, List.length_replicate,
        decimalValue, div_eq_mul_inv, ← zpow_natCast, ← zpow_neg]
      have hlead : digitsValue [48] = 0 := rfl
      rw [hlead, Nat.zero_mul, Nat.zero_mul, Nat.zero_add, Nat.zero_add]
      congr 2
      push_cast
      omega

theorem textValue_layoutE (hne : digits ≠ []) (point : Int) :
    textValue (layoutE digits point) = decimalValue digits point := by
  obtain ⟨a, tail, rfl⟩ := List.exists_cons_of_ne_nil hne
  have hno : ∀ c, isDigit c = false → c ≠ a ∧ c ∉ tail := by
    intro c hc
    have hmem := not_mem_of_digits hdigits hc
    rwa [List.mem_cons, not_or] at hmem
  -- the mantissa
  have hmant : plainValue ([a] ++ if tail = [] then [] else ch '.' :: tail) =
      digitsValue (a :: tail) / 10 ^ tail.length := by
    have hpoint : ch '.' ∉ [a] := fun h => (hno (ch '.') (by decide)).1 (List.mem_singleton.1 h)
    split
    · next htail =>
      rw [htail, List.append_nil, plainValue_whole hpoint, List.length_nil, pow_zero, div_one]
    · exact plainValue_append hpoint
  have hletter : ch 'e' ∉ [a] ++ if tail = [] then [] else ch '.' :: tail := by
    have hdig := hno (ch 'e') (by decide)
    rw [List.mem_append, List.mem_singleton]
    rintro (hin | hin)
    · exact hdig.1 hin
    · split at hin
      · cases hin
      · rcases List.mem_cons.1 hin with hin | hin
        · exact absurd hin (by decide)
        · exact hdig.2 hin
  -- the exponent
  have hexp : exponentValue (ch 'e' :: (if point - 1 < 0 then ch '-' else ch '+') ::
      (if (decimal (point - 1).natAbs).length < 2 then 48 :: decimal (point - 1).natAbs
        else decimal (point - 1).natAbs)) = point - 1 := by
    have hvalue : digitsValue (if (decimal (point - 1).natAbs).length < 2 then
        48 :: decimal (point - 1).natAbs else decimal (point - 1).natAbs) = (point - 1).natAbs := by
      split
      · rw [← List.singleton_append, digitsValue_append, digitsValue_decimal]
        have hlead : digitsValue [48] = 0 := rfl
        rw [hlead, Nat.zero_mul, Nat.zero_add]
      · exact digitsValue_decimal _
    show (if (if point - 1 < 0 then ch '-' else ch '+') = ch '-' then -(digitsValue _ : Int)
      else digitsValue _) = _
    rw [hvalue]
    split
    · next hsign =>
      rw [if_pos rfl]
      omega
    · next hsign =>
      rw [if_neg (by decide)]
      omega
  have hshape : layoutE (a :: tail) point = ([a] ++ if tail = [] then [] else ch '.' :: tail) ++
      ch 'e' :: (if point - 1 < 0 then ch '-' else ch '+') ::
        (if (decimal (point - 1).natAbs).length < 2 then 48 :: decimal (point - 1).natAbs
          else decimal (point - 1).natAbs) := List.append_assoc _ _ _
  rw [hshape, textValue, (takeWhile_ne_append hletter _).1, (takeWhile_ne_append hletter _).2,
    hmant, hexp,
    decimalValue, div_mul_eq_mul_div, mul_div_assoc, ← zpow_natCast, ← zpow_sub₀ (by norm_num),
    List.length_cons]
  congr 2
  omega

end Layout

/-! ## Texts of doubles -/

def floatBody (x : FiniteFloat) : Bytes :=
  if (shortest x).2 - 1 < -4 ∨ 6 ≤ (shortest x).2 - 1 then layoutE (shortest x).1 (shortest x).2
  else layoutF (shortest x).1 (shortest x).2

theorem formatFloat_finite (x : FiniteFloat) :
    formatFloat (.finite x) = if x.neg then ch '-' :: floatBody x else floatBody x := rfl

theorem shortest_nil {x : FiniteFloat} (h : (shortest x).1 = []) : (shortest x).2 = 0 := by
  have hreads := shortest_reads x
  have hvalue : decimalValue [] (shortest x).2 = 0 := by norm_num [decimalValue, digitsValue]
  rw [h, hvalue, Float64.nearest, if_pos rfl, Float64.ofParts, dif_pos (by decide)] at hreads
  have hmant : x.mant = 0 := by
    rw [← Float64.finite.inj hreads]
  unfold shortest
  rw [if_pos hmant]

theorem shortest_ne_nil {x : FiniteFloat} (h : (shortest x).2 ≠ 0) : (shortest x).1 ≠ [] :=
  fun hnil => h (shortest_nil hnil)

theorem textValue_floatBody (x : FiniteFloat) :
    textValue (floatBody x) = decimalValue (shortest x).1 (shortest x).2 := by
  have hdigits : ∀ a ∈ (shortest x).1, isDigit a = true := fun a => isDigit_of_mem_shortest
  unfold floatBody
  split
  · next hlarge => exact textValue_layoutE hdigits (shortest_ne_nil (by omega)) _
  · exact textValue_layoutF hdigits _

theorem floatBody_head (x : FiniteFloat) : ∃ a s, floatBody x = a :: s ∧ isDigit a = true := by
  have hdigits : ∀ a ∈ (shortest x).1, isDigit a = true := fun a => isDigit_of_mem_shortest
  have hcons : (shortest x).2 ≠ 0 → ∃ a l, (shortest x).1 = a :: l ∧ isDigit a = true := by
    intro hpoint
    obtain ⟨a, l, hal⟩ := List.exists_cons_of_ne_nil (shortest_ne_nil hpoint)
    exact ⟨a, l, hal, hdigits a (hal ▸ List.mem_cons_self)⟩
  unfold floatBody
  split
  · next hlarge =>
    obtain ⟨a, l, hal, ha⟩ := hcons (by omega)
    exact ⟨a, _, by rw [hal]; rfl, ha⟩
  · -- the digits before the point, or a single zero
    have hwhole : ∃ a s, (if 0 < (shortest x).2 then (shortest x).1.take (shortest x).2.toNat ++
        List.replicate ((shortest x).2.toNat - (shortest x).1.length) 48 else [48]) = a :: s ∧
          isDigit a = true := by
      split
      · next hpos =>
        obtain ⟨a, l, hal, ha⟩ := hcons hpos.ne'
        obtain ⟨p, hp⟩ := Int.eq_ofNat_of_zero_le hpos.le
        obtain ⟨m, rfl⟩ := Nat.exists_eq_succ_of_ne_zero (n := p) (by omega)
        rw [hal, hp]
        exact ⟨a, _, rfl, ha⟩
      · exact ⟨48, [], rfl, rfl⟩
    obtain ⟨a, s, hs, ha⟩ := hwhole
    unfold layoutF
    simp only [hs]
    split
    · exact ⟨a, s, rfl, ha⟩
    · exact ⟨a, _, rfl, ha⟩

def unsigned (s : Bytes) : Bytes := if s.head? = some (ch '-') then s.tail else s

theorem formatFloat_reads (x : FiniteFloat) :
    ((formatFloat (.finite x)).head? = some (ch '-') ↔ x.neg = true) ∧
    (∃ a s, unsigned (formatFloat (.finite x)) = a :: s ∧ isDigit a = true) ∧
    Float64.nearest x.neg (textValue (unsigned (formatFloat (.finite x)))) = .finite x := by
  obtain ⟨a, s, hbody, ha⟩ := floatBody_head x
  have hne : a ≠ ch '-' := by
    rintro rfl
    cases ha
  have hsign : (formatFloat (.finite x)).head? = some (ch '-') ↔ x.neg = true := by
    rw [formatFloat_finite, hbody]
    cases x.neg with
    | true => simp
    | false => simpa using hne
  have hunsigned : unsigned (formatFloat (.finite x)) = floatBody x := by
    unfold unsigned
    by_cases hneg : x.neg = true
    · rw [if_pos (hsign.2 hneg), formatFloat_finite, if_pos hneg]
      rfl
    · rw [if_neg (mt hsign.1 hneg), formatFloat_finite, if_neg hneg]
  refine ⟨hsign, ⟨a, s, hunsigned.trans hbody, ha⟩, ?_⟩
  rw [hunsigned, textValue_floatBody, shortest_reads]

theorem formatFloat_ne_of_finite (x : FiniteFloat) {y : Float64} (hy : y.isFinite = false) :
    formatFloat (.finite x) ≠ formatFloat y := by
  have hletter : ∀ b s, unsigned (formatFloat y) = b :: s → isDigit b = false := by
    have hheads : (unsigned (formatFloat y)).head?.all (fun b => !isDigit b) = true := by
      cases y with
      | finite y => cases hy
      | inf neg => cases neg <;> decide +kernel
      | nan => decide +kernel
    intro b s hs
    rw [hs] at hheads
    simpa using hheads
  obtain ⟨-, ⟨a, s, hs, ha⟩, -⟩ := formatFloat_reads x
  intro h
  rw [h] at hs
  rw [hletter a s hs] at ha
  cases ha

theorem formatFloat_injective : Function.Injective formatFloat := by
  intro x y h
  cases x with
  | finite x =>
    cases y with
    | finite y =>
      obtain ⟨hxsign, -, hx⟩ := formatFloat_reads x
      obtain ⟨hysign, -, hy⟩ := formatFloat_reads y
      have hneg : x.neg = y.neg := by
        rw [Bool.eq_iff_iff, ← hxsign, ← hysign, h]
      rw [← hx, ← hy, h, hneg]
    | inf neg => exact absurd h (formatFloat_ne_of_finite x rfl)
    | nan => exact absurd h (formatFloat_ne_of_finite x rfl)
  | inf neg =>
    cases y with
    | finite y => exact absurd h.symm (formatFloat_ne_of_finite y rfl)
    | inf neg' =>
      have hinf : ∀ b b' : Bool, formatFloat (.inf b) = formatFloat (.inf b') →
          b = b' := by decide +kernel
      rw [hinf neg neg' h]
    | nan =>
      have hinf : ∀ b : Bool, formatFloat (.inf b) ≠ formatFloat .nan := by decide +kernel
      exact absurd h (hinf neg)
  | nan =>
    cases y with
    | finite y => exact absurd h.symm (formatFloat_ne_of_finite y rfl)
    | inf neg =>
      have hinf : ∀ b : Bool, formatFloat .nan ≠ formatFloat (.inf b) := by decide +kernel
      exact absurd h (hinf neg)
    | nan => rfl

end SuperDB.Go
