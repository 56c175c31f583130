import Mathlib.Tactic.IntervalCases
import Mathlib.Tactic.Positivity
import Mathlib.Tactic.Ring
import SuperDB.Go.Strconv

/-!
# Numbers written in decimal

Which bytes a printed number has, how the doubles of integers are printed, and when an integer is
read back from its text.
-/

namespace SuperDB.Go

variable {n m : Nat} {a : UInt8}

/-! ## The bytes of numbers -/

theorem isDigit_of_mem_decimal (h : a ∈ decimal n) : isDigit a = true := by
  obtain ⟨c, hc, rfl⟩ := List.mem_map.1 h
  have hdigit := Nat.isDigit_of_mem_toDigits (by omega) (by omega) hc
  simp only [Char.isDigit, Bool.and_eq_true, decide_eq_true_eq] at hdigit
  have hlow : 48 ≤ c.toNat := hdigit.1
  have hhigh : c.toNat ≤ 57 := hdigit.2
  simp only [isDigit, ch, Bool.and_eq_true, decide_eq_true_eq, UInt8.le_iff_toNat_le]
  rw [UInt8.toNat_ofNat', Nat.mod_eq_of_lt (by omega)]
  exact ⟨hlow, hhigh⟩

theorem isDigit_of_mem_shortestFrom {x : FiniteFloat} {num den : Nat} {dp : Int} {fuel : Nat}
    (h : a ∈ (shortestFrom x num den dp fuel n).1) : isDigit a = true := by
  induction fuel generalizing n with
  | zero => cases h
  | succ fuel ih =>
    unfold shortestFrom at h
    split at h
    · rw [List.mem_reverse] at h
      exact isDigit_of_mem_decimal (List.mem_reverse.1 ((List.dropWhile_sublist _).mem h))
    · exact ih h

theorem isDigit_of_mem_shortest {x : FiniteFloat} (h : a ∈ (shortest x).1) : isDigit a = true := by
  unfold shortest at h
  split at h
  · cases h
  · exact isDigit_of_mem_shortestFrom h

def isNumberByte (a : UInt8) : Bool :=
  isDigit a || (str "+-.eaInfN").contains a

theorem isNumberByte_of_isDigit (h : isDigit a = true) : isNumberByte a = true := by
  rw [isNumberByte, h, Bool.true_or]

/-- The bytes of a number that are no digits. -/
theorem isNumberByte_signs : ∀ a ∈ [ch '.', ch 'e', ch '+', ch '-'] ++ str "NaN" ++ str "-Inf" ++
    str "+Inf", isNumberByte a = true := by
  decide +kernel

theorem isNumberByte_layoutE {digits : Bytes} (h : ∀ a ∈ digits, isDigit a = true) (point : Int)
    (ha : a ∈ layoutE digits point) : isNumberByte a = true := by
  unfold layoutE at ha
  simp only [List.mem_append, List.mem_cons, List.not_mem_nil, or_false] at ha
  rcases ha with ((ha | ha) | ha | ha) | ha
  · exact isNumberByte_of_isDigit (h a (List.mem_of_mem_take ha))
  · split at ha
    · cases ha
    · rcases List.mem_cons.1 ha with rfl | ha
      · exact isNumberByte_signs _ (by simp)
      · exact isNumberByte_of_isDigit (h a (List.mem_of_mem_drop ha))
  · exact isNumberByte_signs a (by simp [ha])
  · refine isNumberByte_signs a ?_
    rw [ha]
    split <;> simp
  · split at ha
    · rcases List.mem_cons.1 ha with rfl | ha
      · decide
      · exact isNumberByte_of_isDigit (isDigit_of_mem_decimal ha)
    · exact isNumberByte_of_isDigit (isDigit_of_mem_decimal ha)

theorem isNumberByte_layoutF {digits : Bytes} (h : ∀ a ∈ digits, isDigit a = true) (point : Int)
    (ha : a ∈ layoutF digits point) : isNumberByte a = true := by
  have hzeros : ∀ n, a ∈ List.replicate n (48 : UInt8) → isNumberByte a = true := by
    intro n hn
    rw [(List.mem_replicate.1 hn).2]
    decide
  have hwhole : a ∈ (if 0 < point then
      digits.take point.toNat ++ List.replicate (point.toNat - digits.length) 48 else [48]) →
      isNumberByte a = true := by
    intro ha
    split at ha
    · rcases List.mem_append.1 ha with ha | ha
      · exact isNumberByte_of_isDigit (h a (List.mem_of_mem_take ha))
      · exact hzeros _ ha
    · rw [List.mem_singleton.1 ha]
      decide
  unfold layoutF at ha
  simp only at ha
  split at ha
  · exact hwhole ha
  · rcases List.mem_append.1 ha with ha | ha
    · exact hwhole ha
    · rcases List.mem_cons.1 ha with rfl | ha
      · exact isNumberByte_signs _ (by simp)
      · rcases List.mem_append.1 ha with ha | ha
        · exact hzeros _ ha
        · exact isNumberByte_of_isDigit (h a (List.mem_of_mem_drop ha))

theorem isNumberByte_formatInt {n : Int} (h : a ∈ formatInt n) : isNumberByte a = true := by
  unfold formatInt at h
  split at h
  · rcases List.mem_cons.1 h with rfl | h
    · exact isNumberByte_signs _ (by simp)
    · exact isNumberByte_of_isDigit (isDigit_of_mem_decimal h)
  · exact isNumberByte_of_isDigit (isDigit_of_mem_decimal h)

theorem isNumberByte_formatFloat {x : Float64} (h : a ∈ formatFloat x) : isNumberByte a = true := by
  cases x with
  | nan => exact isNumberByte_signs a (by simp [show a ∈ str "NaN" from h])
  | inf neg =>
    have hall : a ∈ (if neg then str "-Inf" else str "+Inf") := h
    refine isNumberByte_signs a ?_
    cases neg with
    | true => simp [show a ∈ str "-Inf" from hall]
    | false => simp [show a ∈ str "+Inf" from hall]
  | finite x =>
    have hbody : a ∈ (if (shortest x).2 - 1 < -4 ∨ 6 ≤ (shortest x).2 - 1 then
        layoutE (shortest x).1 (shortest x).2 else layoutF (shortest x).1 (shortest x).2) →
        isNumberByte a = true := by
      intro ha
      split at ha
      · exact isNumberByte_layoutE (fun _ => isDigit_of_mem_shortest) _ ha
      · exact isNumberByte_layoutF (fun _ => isDigit_of_mem_shortest) _ ha
    simp only [formatFloat] at h
    split at h
    · rcases List.mem_cons.1 h with rfl | h
      · exact isNumberByte_signs _ (by simp)
      · exact hbody h
    · exact hbody h

/-! ## Decimal digits -/

theorem decimal_of_lt (h : n < 10) : decimal n = [UInt8.ofNat (48 + n)] := by
  interval_cases n <;> rfl

theorem decimal_step (h : 10 ≤ n) :
    decimal n = decimal (n / 10) ++ [UInt8.ofNat (48 + n % 10)] := by
  have hlast : decimal (n % 10) = [UInt8.ofNat (48 + n % 10)] :=
    decimal_of_lt (Nat.mod_lt _ (by omega))
  unfold decimal at hlast ⊢
  rw [Nat.toDigits_of_base_le (by omega) h, List.map_append, ← hlast,
    Nat.toDigits_of_lt_base (Nat.mod_lt _ (by omega))]

theorem decimal_ne_nil (n : Nat) : decimal n ≠ [] := by
  rw [← List.length_pos_iff, decimal, List.length_map]
  exact Nat.length_toDigits_pos

theorem length_decimal_le_iff {k : Nat} (hk : 0 < k) : (decimal n).length ≤ k ↔ n < 10 ^ k := by
  rw [decimal, List.length_map]
  exact Nat.length_toDigits_le_iff (by omega) hk

theorem decimal_mul_pow {c : Nat} (hc : 0 < c) (k : Nat) :
    decimal (c * 10 ^ k) = decimal c ++ List.replicate k 48 := by
  induction k with
  | zero => simp
  | succ k ih =>
    have hpos : 0 < c * 10 ^ k := Nat.mul_pos hc (by positivity)
    have hten : c * 10 ^ (k + 1) = c * 10 ^ k * 10 := by ring
    rw [decimal_step (by omega), hten, Nat.mul_div_cancel _ (by omega), Nat.mul_mod_left, ih,
      List.replicate_succ', List.append_assoc]
    rfl

theorem dropZeros_append (l : Bytes) :
    (l.reverse.dropWhile (· == 48)).reverse ++
      List.replicate (l.length - (l.reverse.dropWhile (· == 48)).length) 48 = l := by
  have hsplit := List.takeWhile_append_dropWhile (p := fun a : UInt8 => a == 48) (l := l.reverse)
  have hzeros : l.reverse.takeWhile (· == 48) =
      List.replicate (l.reverse.takeWhile (· == 48)).length 48 := by
    rw [List.eq_replicate_iff]
    exact ⟨rfl, fun a ha => eq_of_beq (List.mem_takeWhile_imp (p := (· == 48)) ha)⟩
  have hlength : (l.reverse.takeWhile (· == 48)).length =
      l.length - (l.reverse.dropWhile (· == 48)).length := by
    have hsum := congrArg List.length hsplit
    rw [List.length_append, List.length_reverse] at hsum
    omega
  rw [hlength] at hzeros
  conv_rhs => rw [← List.reverse_reverse l, ← hsplit, hzeros]
  rw [List.reverse_append, List.reverse_replicate]

/-! ## The doubles of integers -/

/-- A positive double that is the integer `n`. -/
def FiniteFloat.IsNat (x : FiniteFloat) (n : Nat) : Prop :=
  x.mant ≠ 0 ∧ ∃ den, 0 < den ∧ Float64.scaled x.mant 1 (-x.exp) = (n * den, den)

theorem FiniteFloat.IsNat.unique {x : FiniteFloat} (hm : x.IsNat m) (hn : x.IsNat n) : m = n := by
  obtain ⟨-, d, hd, hmd⟩ := hm
  obtain ⟨-, d', -, hnd⟩ := hn
  rw [hmd] at hnd
  obtain ⟨hnum, rfl⟩ := Prod.mk.inj hnd
  exact Nat.eq_of_mul_eq_mul_right hd hnum

theorem Float64.round_nat (neg : Bool) (hpos : 0 < n) (h : n ≤ 2 ^ 53) :
    ∃ x : FiniteFloat, Float64.round neg n 1 = .finite x ∧ x.neg = neg ∧ x.IsNat n := by
  by_cases htop : n = 2 ^ 53
  · subst htop
    refine ⟨⟨neg, 2 ^ 52, 1, by decide⟩, ?_, rfl, ?_, 1, Nat.one_pos, ?_⟩
    · cases neg <;> decide
    · exact Nat.ne_of_gt (Nat.two_pow_pos 52)
    · show Float64.scaled (2 ^ 52) 1 (-1) = _
      decide
  · have hlow : 2 ^ n.log2 ≤ n := Nat.log2_self_le (by omega)
    have hhigh : n < 2 ^ (n.log2 + 1) := Nat.lt_log2_self
    have hlog : n.log2 < 53 := (Nat.log2_lt (by omega)).2 (by omega)
    have hbits : 2 ^ n.log2 * 2 ^ (52 - n.log2) = 2 ^ 52 := by
      rw [← Nat.pow_add]
      congr 1
      omega
    have hmin : 2 ^ 52 ≤ n * 2 ^ (52 - n.log2) := by
      rw [← hbits]
      exact Nat.mul_le_mul_right _ hlow
    have hmax : n * 2 ^ (52 - n.log2) < 2 ^ 53 := by
      have hlt := Nat.mul_lt_mul_of_pos_right hhigh
        (Nat.pow_pos (n := 52 - n.log2) (show 0 < 2 by omega))
      rw [Nat.pow_succ, Nat.mul_right_comm, hbits] at hlt
      omega
    have hcanonical : Canonical (n * 2 ^ (52 - n.log2)) ((n.log2 : Int) - 52) :=
      ⟨hmax, by omega, by omega, Or.inl hmin⟩
    refine ⟨⟨neg, _, _, hcanonical⟩, ?_, rfl, ?_, 2 ^ (52 - n.log2), Nat.pow_pos (by omega), ?_⟩
    · have hscaled : Float64.scaled n 1 ((n.log2 : Int) - 52) = (n * 2 ^ (52 - n.log2), 1) := by
        unfold Float64.scaled
        split
        · have he : n.log2 = 52 := by omega
          simp [he]
        · have he : (-((n.log2 : Int) - 52)).toNat = 52 - n.log2 := by omega
          rw [he]
      have hlogs : (n.log2 : Int) - Nat.log2 1 - 52 = (n.log2 : Int) - 52 := by
        rw [show Nat.log2 1 = 0 from by decide]
        omega
      unfold Float64.round
      rw [if_neg (by omega)]
      simp only [hlogs, hscaled, Nat.div_one]
      rw [if_neg (Nat.not_lt.2 hmin), max_eq_left (by omega), hscaled]
      generalize n * 2 ^ (52 - n.log2) = mant at hcanonical hmax
      simp only [Nat.div_one, Nat.mod_one]
      have hexact : ¬((1 : Nat) < 2 * 0 ∨ 2 * 0 = 1 ∧ mant % 2 = 1) := by omega
      rw [if_neg hexact, if_neg (by omega), Float64.ofParts, dif_pos hcanonical]
    · exact Nat.ne_of_gt (by show 0 < n * 2 ^ (52 - n.log2); omega)
    · unfold Float64.scaled
      rw [if_pos (by show (0 : Int) ≤ -((n.log2 : Int) - 52); omega)]
      have he : (-((n.log2 : Int) - 52)).toNat = 52 - n.log2 := by omega
      show (n * 2 ^ (52 - n.log2), 1 * 2 ^ (-((n.log2 : Int) - 52)).toNat) = _
      rw [he, Nat.one_mul]

section Shortest

variable {x : FiniteFloat} {n den : Nat}

theorem pow_le_of_length (hn : 0 < n) (h : m < (decimal n).length) : 10 ^ m ≤ n := by
  rcases Nat.eq_zero_or_pos m with rfl | hm
  · exact hn
  · exact Nat.le_of_not_lt fun hlt => Nat.not_le_of_lt h ((length_decimal_le_iff hm).2 hlt)

theorem pointOf_nat (hn : 0 < n) (hden : 0 < den) : pointOf (n * den) den = (decimal n).length := by
  unfold pointOf
  rw [if_pos (Nat.le_mul_of_pos_left _ hn), Nat.mul_div_cancel _ hden, decimal, List.length_map]

theorem decimalRound_nat (neg : Bool) (c k : Nat) :
    decimalRound neg c k = Float64.round neg (c * 10 ^ k) 1 := by
  unfold decimalRound
  rw [if_pos (Int.natCast_nonneg k), Int.toNat_natCast]

theorem round_eq_iff (hround : Float64.round x.neg n 1 = .finite x) (hnat : x.IsNat n)
    (hm : 0 < m) (hle : m ≤ 2 ^ 53) : Float64.round x.neg m 1 = .finite x ↔ m = n := by
  constructor
  · intro h
    obtain ⟨y, hy, -, hym⟩ := Float64.round_nat x.neg hm hle
    rw [h] at hy
    cases hy
    exact hym.unique hnat
  · rintro rfl
    exact hround

theorem shortestWith_nat (hden : 0 < den) (hm : m ≤ (decimal n).length) {c : Nat}
    (h : shortestWith x (n * den) den (decimal n).length m = some c) :
    n / 10 ^ ((decimal n).length - m) ≤ c ∧ c ≤ n / 10 ^ ((decimal n).length - m) + 1 ∧
      Float64.round x.neg (c * 10 ^ ((decimal n).length - m)) 1 = .finite x := by
  have hk : ((decimal n).length : Int) - m = ((decimal n).length - m : Nat) := by omega
  have hlo : n * den / (den * 10 ^ ((decimal n).length - m)) =
      n / 10 ^ ((decimal n).length - m) := by
    rw [Nat.mul_comm n den, Nat.mul_div_mul_left _ _ hden]
  unfold shortestWith at h
  simp only [hk, Int.natCast_nonneg, if_true, Int.toNat_natCast, hlo, decimalRound_nat] at h
  generalize n / 10 ^ ((decimal n).length - m) = lo at h
  split at h
  · next hok =>
    split at h
    · cases h
      exact ⟨by omega, by omega, hok.2⟩
    · cases h
      exact ⟨by omega, by omega, hok.1⟩
  · split at h
    · next hok =>
      cases h
      exact ⟨by omega, by omega, hok⟩
    · split at h
      · next hok =>
        cases h
        exact ⟨by omega, by omega, hok⟩
      · cases h

theorem shortestWith_all (hround : Float64.round x.neg n 1 = .finite x) (hden : 0 < den) :
    ∃ c, shortestWith x (n * den) den (decimal n).length (decimal n).length = some c := by
  have hk : ((decimal n).length : Int) - (decimal n).length = (0 : Nat) := by omega
  unfold shortestWith
  simp only [hk, Int.natCast_nonneg, if_true, Int.toNat_natCast, Nat.pow_zero, Nat.mul_one,
    Nat.mul_div_cancel _ hden, decimalRound_nat, hround, true_and]
  split
  · split
    · exact ⟨_, rfl⟩
    · exact ⟨_, rfl⟩
  · exact ⟨_, rfl⟩

theorem shortestFrom_nat (hround : Float64.round x.neg n 1 = .finite x) (hden : 0 < den)
    (fuel : Nat) (hm : m ≤ (decimal n).length) (hfuel : (decimal n).length - m < fuel) :
    ∃ m' c, m ≤ m' ∧ m' ≤ (decimal n).length ∧
      shortestWith x (n * den) den (decimal n).length m' = some c ∧
      shortestFrom x (n * den) den (decimal n).length fuel m =
        (((decimal c).reverse.dropWhile (· == 48)).reverse,
          (decimal n).length + ((decimal c).length - m' : Int)) := by
  induction fuel generalizing m with
  | zero => omega
  | succ fuel ih =>
    unfold shortestFrom
    cases htry : shortestWith x (n * den) den (decimal n).length m with
    | some c => exact ⟨m, c, Nat.le_refl _, hm, htry, rfl⟩
    | none =>
      have hlt : m ≠ (decimal n).length := by
        rintro rfl
        obtain ⟨c, hc⟩ := shortestWith_all hround hden
        rw [hc] at htry
        cases htry
      obtain ⟨m', c, hle, hle', hc, hresult⟩ := ih (m := m + 1) (by omega) (by omega)
      exact ⟨m', c, by omega, hle', hc, hresult⟩

theorem shortest_nat (hround : Float64.round x.neg n 1 = .finite x) (hnat : x.IsNat n) (hn : 0 < n)
    (hle : n ≤ 2 ^ 53) :
    ∃ m c, 1 ≤ m ∧ m ≤ (decimal n).length ∧
      n / 10 ^ ((decimal n).length - m) ≤ c ∧ c ≤ n / 10 ^ ((decimal n).length - m) + 1 ∧
      Float64.round x.neg (c * 10 ^ ((decimal n).length - m)) 1 = .finite x ∧
      shortest x = (((decimal c).reverse.dropWhile (· == 48)).reverse,
        (decimal n).length + ((decimal c).length - m : Int)) := by
  obtain ⟨hmant, den, hden, hscaled⟩ := hnat
  have hlength : (decimal n).length ≤ 16 := (length_decimal_le_iff (by omega)).2 (by omega)
  have hone : 1 ≤ (decimal n).length := List.length_pos_iff.2 (decimal_ne_nil n)
  obtain ⟨m, c, hm, hm', hc, hresult⟩ :=
    shortestFrom_nat hround hden 17 hone (by omega)
  obtain ⟨hlow, hhigh, hcround⟩ := shortestWith_nat hden hm' hc
  refine ⟨m, c, hm, hm', hlow, hhigh, hcround, ?_⟩
  unfold shortest
  rw [if_neg hmant]
  simp only [hscaled]
  rw [pointOf_nat hn hden]
  exact hresult

theorem pow_le_div_pow (hn : 0 < n) (hm : 1 ≤ m) (hle : m ≤ (decimal n).length) :
    10 ^ (m - 1) ≤ n / 10 ^ ((decimal n).length - m) := by
  rw [Nat.le_div_iff_mul_le (Nat.pow_pos (by omega)), ← Nat.pow_add]
  exact pow_le_of_length hn (by omega)

end Shortest

theorem layoutF_dropZeros (l zeros : Bytes) (hl : l ≠ []) (hzeros : ∀ a ∈ zeros, a = 48) :
    layoutF (l.reverse.dropWhile (· == 48)).reverse (l ++ zeros).length = l ++ zeros := by
  have hreplicate : zeros = List.replicate zeros.length 48 := List.eq_replicate_iff.2 ⟨rfl, hzeros⟩
  have hsplit := dropZeros_append l
  have hcut : (l.reverse.dropWhile (· == 48)).length ≤ l.length := by
    have hle := (List.dropWhile_sublist (· == 48) (l := l.reverse)).length_le
    rwa [List.length_reverse] at hle
  have hpos : 0 < l.length := List.length_pos_iff.2 hl
  unfold layoutF
  simp only [List.length_reverse, List.length_append]
  rw [if_pos (Or.inl (by omega)), if_pos (by omega), Int.toNat_natCast,
    List.take_of_length_le (by rw [List.length_reverse]; omega)]
  have hsum : l.length + zeros.length - (l.reverse.dropWhile (· == 48)).length =
      l.length - (l.reverse.dropWhile (· == 48)).length + zeros.length := by omega
  rw [hsum, List.replicate_add, ← List.append_assoc, hsplit, ← hreplicate]

theorem ofInt_finite {n : Int} (hn : n ≠ 0) (hle : n.natAbs ≤ 2 ^ 53) :
    ∃ x : FiniteFloat, Float64.ofInt n = .finite x ∧ x.neg = decide (n < 0) ∧
      Float64.round x.neg n.natAbs 1 = .finite x ∧ x.IsNat n.natAbs := by
  obtain ⟨x, hround, hneg, hnat⟩ := Float64.round_nat (decide (n < 0)) (Int.natAbs_pos.2 hn) hle
  exact ⟨x, hround, hneg, by rw [hneg]; exact hround, hnat⟩

theorem formatFloat_ofInt_small {n : Int} (h : n.natAbs < 10 ^ 6) :
    formatFloat (Float64.ofInt n) = formatInt n := by
  by_cases hn : n = 0
  · rw [hn]
    decide
  · have hpos := Int.natAbs_pos.2 hn
    obtain ⟨x, hx, hneg, hround, hnat⟩ := ofInt_finite hn (by omega)
    obtain ⟨m, c, hm, hm', hlow, hhigh, hcround, hshortest⟩ :=
      shortest_nat hround hnat hpos (by omega)
    have hlength : (decimal n.natAbs).length ≤ 6 := (length_decimal_le_iff (by omega)).2 h
    -- the digits found are those of the integer
    have hcpos : 0 < c :=
      Nat.lt_of_lt_of_le (Nat.pow_pos (by omega)) ((pow_le_div_pow hpos hm hm').trans hlow)
    have hpow : 10 ^ ((decimal n.natAbs).length - m) ≤ 10 ^ 6 :=
      Nat.pow_le_pow_right (by omega) (by omega)
    have hbound : c * 10 ^ ((decimal n.natAbs).length - m) ≤ 2 ^ 53 := by
      have hmul := Nat.mul_le_mul_right (10 ^ ((decimal n.natAbs).length - m)) hhigh
      have hdiv := Nat.div_mul_le_self n.natAbs (10 ^ ((decimal n.natAbs).length - m))
      rw [Nat.add_mul, Nat.one_mul] at hmul
      omega
    have hvalue : c * 10 ^ ((decimal n.natAbs).length - m) = n.natAbs :=
      (round_eq_iff hround hnat (Nat.mul_pos hcpos (Nat.pow_pos (by omega))) hbound).1 hcround
    have hdigits : decimal n.natAbs =
        decimal c ++ List.replicate ((decimal n.natAbs).length - m) 48 := by
      conv_lhs => rw [← hvalue]
      exact decimal_mul_pow hcpos _
    have hclength : (decimal c).length = m := by
      have hsum := congrArg List.length hdigits
      rw [List.length_append, List.length_replicate] at hsum
      omega
    have hpoint : ((decimal n.natAbs).length : Int) + ((decimal c).length - m : Int) =
        (decimal n.natAbs).length := by omega
    have hlayout := layoutF_dropZeros (decimal c)
      (List.replicate ((decimal n.natAbs).length - m) 48) (decimal_ne_nil c)
      fun a ha => (List.mem_replicate.1 ha).2
    rw [← hdigits] at hlayout
    have hplain : ¬(((decimal n.natAbs).length : Int) - 1 < -4 ∨
        6 ≤ ((decimal n.natAbs).length : Int) - 1) := by omega
    rw [hx]
    simp only [formatFloat, hshortest, hpoint, if_neg hplain, hlayout, hneg, formatInt,
      decide_eq_true_eq]

theorem layoutE_exponent (digits : Bytes) (point : Int) :
    ∃ a b, layoutE digits point = a ++ ch 'e' :: b := by
  unfold layoutE
  simp only [List.append_assoc, List.cons_append, List.nil_append]
  exact ⟨digits.take 1 ++ _, _, by rw [List.append_assoc]⟩

theorem formatFloat_ofInt_large {n : Int} (h : 10 ^ 6 ≤ n.natAbs) (hle : n.natAbs ≤ 2 ^ 53) :
    ∃ a b, formatFloat (Float64.ofInt n) = (if n < 0 then [ch '-'] else []) ++ a ++
      ch 'e' :: b := by
  have hpos : 0 < n.natAbs := by omega
  obtain ⟨x, hx, hneg, hround, hnat⟩ := ofInt_finite (Int.natAbs_pos.1 hpos) hle
  obtain ⟨m, c, hm, hm', hlow, -, -, hshortest⟩ := shortest_nat hround hnat hpos hle
  have hlength : 6 < (decimal n.natAbs).length := by
    rw [← Nat.not_le, length_decimal_le_iff (by omega)]
    omega
  have hclength : m - 1 < (decimal c).length := by
    rcases Nat.eq_zero_or_pos (m - 1) with hzero | hmpos
    · rw [hzero]
      exact List.length_pos_iff.2 (decimal_ne_nil c)
    · rw [← Nat.not_le, length_decimal_le_iff hmpos, Nat.not_lt]
      exact (pow_le_div_pow hpos hm hm').trans hlow
  have hlong : ((decimal n.natAbs).length : Int) + ((decimal c).length - m : Int) - 1 < -4 ∨
      6 ≤ ((decimal n.natAbs).length : Int) + ((decimal c).length - m : Int) - 1 :=
        Or.inr (by omega)
  rw [hx]
  simp only [formatFloat, hshortest, if_pos hlong, hneg, decide_eq_true_eq]
  obtain ⟨a, b, hlayout⟩ := layoutE_exponent ((decimal c).reverse.dropWhile (· == 48)).reverse
    ((decimal n.natAbs).length + ((decimal c).length - m : Int))
  refine ⟨a, b, ?_⟩
  rw [hlayout]
  split
  · rfl
  · rfl

/-! ## Reading integers -/

theorem parseUintFrom_decimal (n : Nat) (h : n < 2 ^ 64) :
    ∀ s, parseUintFrom 0 (decimal n ++ s) = parseUintFrom n s := by
  induction n using Nat.strong_induction_on with
  | _ n ih =>
    intro s
    have hdigit : ∀ d k, d < 10 → k * 10 + d < 2 ^ 64 →
        parseUintFrom k (UInt8.ofNat (48 + d) :: s) = parseUintFrom (k * 10 + d) s := by
      intro d k hd hk
      have hbyte : (UInt8.ofNat (48 + d)).toNat - 48 = d := by
        rw [UInt8.toNat_ofNat', Nat.mod_eq_of_lt (by omega)]
        omega
      have hisDigit : isDigit (UInt8.ofNat (48 + d)) = true := by
        interval_cases d <;> decide
      rw [parseUintFrom, hisDigit, hbyte, if_neg (by simp), if_neg (by omega)]
    by_cases hsmall : n < 10
    · rw [decimal_of_lt hsmall, List.singleton_append, hdigit n 0 hsmall (by omega)]
      simp
    · rw [decimal_step (by omega), List.append_assoc, ih (n / 10) (by omega) (by omega),
        List.singleton_append, hdigit _ _ (Nat.mod_lt _ (by omega)) (by omega)]
      congr 1
      omega

theorem parseUint_decimal (h : n < 2 ^ 64) : parseUint (decimal n) = .ok n := by
  unfold parseUint
  rw [if_neg (decimal_ne_nil n)]
  have hread := parseUintFrom_decimal n h []
  rwa [List.append_nil] at hread

theorem splitSign_decimal (n : Nat) : splitSign (decimal n) = (false, decimal n) := by
  have hne := decimal_ne_nil n
  have hdigits : ∀ a ∈ decimal n, isDigit a = true := fun a => isDigit_of_mem_decimal
  generalize decimal n = l at hne hdigits
  cases l with
  | nil => exact absurd rfl hne
  | cons a l =>
    have ha := hdigits a List.mem_cons_self
    have hminus : isDigit (ch '-') = false := by decide
    have hplus : isDigit (ch '+') = false := by decide
    rw [splitSign]
    rw [if_neg, if_neg]
    · rw [beq_iff_eq]
      rintro rfl
      rw [hplus] at ha
      cases ha
    · rw [beq_iff_eq]
      rintro rfl
      rw [hminus] at ha
      cases ha

theorem parseInt_formatInt {n : Int} (hlow : -2 ^ 63 ≤ n) (hhigh : n < 2 ^ 63) :
    parseInt (formatInt n) = .ok (Int64.ofInt n) := by
  unfold parseInt formatInt
  by_cases hneg : n < 0
  · rw [if_pos hneg]
    have hsign : splitSign (ch '-' :: decimal n.natAbs) = (true, decimal n.natAbs) := by
      rw [splitSign, if_pos (beq_self_eq_true _)]
    rw [hsign]
    simp only [parseUint_decimal (show n.natAbs < 2 ^ 64 by omega), if_true]
    rw [if_pos (by omega)]
    congr 2
    omega
  · rw [if_neg hneg, splitSign_decimal]
    simp only [parseUint_decimal (show n.natAbs < 2 ^ 64 by omega), Bool.false_eq_true, if_false]
    rw [if_pos (by omega)]
    congr 2
    omega

theorem parseUintFrom_badByte {s : Bytes} (ha : a ∈ s) (hdigit : isDigit a = false) (n : Nat) :
    ∃ e, parseUintFrom n s = .error e := by
  induction s generalizing n with
  | nil => cases ha
  | cons b s ih =>
    unfold parseUintFrom
    split
    · exact ⟨_, rfl⟩
    · next hb =>
      split
      · exact ⟨_, rfl⟩
      · rcases List.mem_cons.1 ha with rfl | ha
        · rw [hdigit] at hb
          exact absurd rfl hb
        · exact ih ha _

theorem parseInt_badByte {s : Bytes} (ha : a ∈ (splitSign s).2) (hdigit : isDigit a = false) :
    ∃ e, parseInt s = .error e := by
  obtain ⟨e, he⟩ := parseUintFrom_badByte ha hdigit 0
  refine ⟨e, ?_⟩
  unfold parseInt parseUint
  rw [if_neg (List.ne_nil_of_mem ha), he]

theorem parseInt_formatFloat_large {n : Int} (h : 10 ^ 6 ≤ n.natAbs) (hle : n.natAbs ≤ 2 ^ 53) :
    ∃ e, parseInt (formatFloat (Float64.ofInt n)) = .error e := by
  obtain ⟨a, b, hform⟩ := formatFloat_ofInt_large h hle
  have he : isDigit (ch 'e') = false := by decide
  have hnone : ch 'e' ≠ ch '-' ∧ ch 'e' ≠ ch '+' := by decide
  refine parseInt_badByte (a := ch 'e') ?_ he
  rw [hform]
  have hmem : ch 'e' ∈ (if n < 0 then [ch '-'] else []) ++ a ++ ch 'e' :: b := by simp
  generalize (if n < 0 then [ch '-'] else []) ++ a ++ ch 'e' :: b = l at hmem
  cases l with
  | nil => cases hmem
  | cons c l =>
    rw [splitSign]
    split
    · next hc =>
      exact (List.mem_cons.1 hmem).resolve_left fun heq => hnone.1 (heq.trans (beq_iff_eq.1 hc))
    · split
      · next hc =>
        exact (List.mem_cons.1 hmem).resolve_left fun heq => hnone.2 (heq.trans (beq_iff_eq.1 hc))
      · exact hmem

end SuperDB.Go
