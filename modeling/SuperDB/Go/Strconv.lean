import SuperDB.Go.Strings

/-!
# Numbers and text

Decimal integers, booleans and IEEE 754 double-precision numbers with the conversions of `strconv`
the engine uses. A double is its exact value: a sign, a significand below `2 ^ 53` and a binary
exponent, in the canonical form of the binary64 format, or an infinity, or the not-a-number (whose
payload no Go conversion shows).
-/

namespace SuperDB.Go

/-! ## Integers -/

def decimal (n : Nat) : Bytes := (Nat.toDigits 10 n).map ch

theorem decimal_injective : Function.Injective decimal := by
  intro m n h
  -- a digit can be read back from its byte
  have hback : ∀ k, (decimal k).map (fun a => Char.ofNat a.toNat) = Nat.toDigits 10 k := by
    intro k
    rw [decimal, List.map_map]
    conv_rhs => rw [← List.map_id (Nat.toDigits 10 k)]
    refine List.map_congr_left fun c hc => ?_
    have hdigit := Nat.isDigit_of_mem_toDigits (by omega) (by omega) hc
    have hlt : c.toNat < 256 := by
      simp only [Char.isDigit, Bool.and_eq_true, decide_eq_true_eq] at hdigit
      have hle : c.val.toNat ≤ 57 := hdigit.2
      exact Nat.lt_of_le_of_lt hle (by omega)
    simp only [Function.comp_apply, ch, id]
    rw [UInt8.toNat_ofNat', Nat.mod_eq_of_lt hlt]
    exact Char.ofNat_toNat c
  have hdigits : Nat.toDigits 10 m = Nat.toDigits 10 n := by rw [← hback, ← hback, h]
  have hnum := congrArg (fun ds => Nat.ofDigitChars 10 ds 0) hdigits
  simpa [Nat.ofDigitChars_toDigits] using hnum

/-- `strconv.FormatInt(n, 10)`. -/
def formatInt (n : Int) : Bytes := if n < 0 then ch '-' :: decimal n.natAbs else decimal n.natAbs

def isDigit (a : UInt8) : Bool := 48 ≤ a && a ≤ 57

/-- The two errors of a conversion, `ErrSyntax` and `ErrRange`. -/
inductive NumErr where
  | badSyntax
  | outOfRange
  deriving DecidableEq

/-- The digit loop of `strconv.ParseUint(s, 10, 64)`: it stops at the first byte that is no digit
or makes the number too large, whichever comes first. -/
def parseUintFrom : Nat → Bytes → Except NumErr Nat
  | n, [] => .ok n
  | n, a :: s =>
    if !isDigit a then .error .badSyntax
    else if 2 ^ 64 ≤ n * 10 + (a.toNat - 48) then .error .outOfRange
    else parseUintFrom (n * 10 + (a.toNat - 48)) s

/-- `strconv.ParseUint(s, 10, 64)`. -/
def parseUint (s : Bytes) : Except NumErr Nat :=
  if s = [] then .error .badSyntax else parseUintFrom 0 s

/-- Whether a sign is written in front of a number, and the text after it. -/
def splitSign : Bytes → Bool × Bytes
  | [] => (false, [])
  | a :: s => if a == ch '-' then (true, s) else if a == ch '+' then (false, s) else (false, a :: s)

/-- `strconv.ParseInt(s, 10, 64)`. -/
def parseInt (s : Bytes) : Except NumErr Int64 :=
  match parseUint (splitSign s).2 with
  | .error e => .error e
  | .ok n =>
    if (splitSign s).1 then if n ≤ 2 ^ 63 then .ok (Int64.ofInt (-n)) else .error .outOfRange
    else if n < 2 ^ 63 then .ok (Int64.ofInt n) else .error .outOfRange

/-- `strconv.Atoi` where the result must not be negative. -/
def atoiNonneg (s : Bytes) : Option Nat :=
  match parseInt s with
  | .ok n => if 0 ≤ n.toInt then some n.toInt.toNat else none
  | .error _ => none

/-- `strconv.ParseBool`; `none` is its syntax error. -/
def parseBool (s : Bytes) : Option Bool :=
  if s ∈ [str "1", str "t", str "T", str "TRUE", str "true", str "True"] then some true
  else if s ∈ [str "0", str "f", str "F", str "FALSE", str "false", str "False"] then some false
  else none

/-! ## Doubles -/

/-- The significand and exponent of a binary64 number in canonical form. -/
def Canonical (mant : Nat) (exp : Int) : Prop :=
  mant < 2 ^ 53 ∧ -1074 ≤ exp ∧ exp ≤ 971 ∧ (2 ^ 52 ≤ mant ∨ exp = -1074)

instance (mant : Nat) (exp : Int) : Decidable (Canonical mant exp) :=
  inferInstanceAs (Decidable (_ ∧ _))

/-- A finite double, `±mant * 2 ^ exp`. -/
structure FiniteFloat where
  neg : Bool
  mant : Nat
  exp : Int
  canonical : Canonical mant exp
  deriving DecidableEq

/-- A `float64`. -/
inductive Float64 where
  | finite (x : FiniteFloat)
  | inf (neg : Bool)
  | nan
  deriving DecidableEq

namespace Float64

/-- The double with the given parts, or an infinity if they are out of range. -/
def ofParts (neg : Bool) (mant : Nat) (exp : Int) : Float64 :=
  if h : Canonical mant exp then .finite ⟨neg, mant, exp, h⟩ else .inf neg

/-- A quotient of naturals scaled by a power of two, as a quotient of naturals. -/
def scaled (num den : Nat) (e : Int) : Nat × Nat :=
  if 0 ≤ e then (num, den * 2 ^ e.toNat) else (num * 2 ^ (-e).toNat, den)

/-- The double nearest to `±num / den`, ties to the even significand. -/
def round (neg : Bool) (num den : Nat) : Float64 :=
  if num = 0 then ofParts neg 0 (-1074)
  else
    let e₀ : Int := (Nat.log2 num : Int) - Nat.log2 den - 52
    let top := scaled num den e₀
    let e := max (if top.1 / top.2 < 2 ^ 52 then e₀ - 1 else e₀) (-1074)
    let p := scaled num den e
    let q := p.1 / p.2
    let r := p.1 % p.2
    let q' := if p.2 < 2 * r ∨ (2 * r = p.2 ∧ q % 2 = 1) then q + 1 else q
    if q' = 2 ^ 53 then ofParts neg (2 ^ 52) (e + 1) else ofParts neg q' e

/-- `float64(n)`. -/
def ofInt (n : Int) : Float64 := round (n < 0) n.natAbs 1

/-- A finite double in units of `2 ^ -1074`. -/
def units (x : FiniteFloat) : Int :=
  (if x.neg then -1 else 1) * ((x.mant * 2 ^ (x.exp + 1074).toNat : Nat) : Int)

/-- `x < y`. -/
def lt : Float64 → Float64 → Bool
  | .nan, _ => false
  | _, .nan => false
  | .inf s, .inf t => s && !t
  | .inf s, .finite _ => s
  | .finite _, .inf t => !t
  | .finite x, .finite y => units x < units y

/-- `x == y`: the two zeros are equal, the not-a-number equals nothing. -/
def eq : Float64 → Float64 → Bool
  | .nan, _ => false
  | _, .nan => false
  | .inf s, .inf t => s == t
  | .inf _, .finite _ => false
  | .finite _, .inf _ => false
  | .finite x, .finite y => units x == units y

/-- `x + y`. -/
def add : Float64 → Float64 → Float64
  | .nan, _ => .nan
  | _, .nan => .nan
  | .inf s, .inf t => if s == t then .inf s else .nan
  | .inf s, .finite _ => .inf s
  | .finite _, .inf t => .inf t
  | .finite x, .finite y =>
    let n := units x + units y
    if n = 0 then ofParts (x.neg && y.neg) 0 (-1074)
    else round (n < 0) n.natAbs (2 ^ 1074)

/-- `x / y`. -/
def div : Float64 → Float64 → Float64
  | .nan, _ => .nan
  | _, .nan => .nan
  | .inf _, .inf _ => .nan
  | .inf s, .finite y => .inf (s != y.neg)
  | .finite x, .inf t => ofParts (x.neg != t) 0 (-1074)
  | .finite x, .finite y =>
    if y.mant = 0 then if x.mant = 0 then .nan else .inf (x.neg != y.neg)
    else round (x.neg != y.neg) (units x).natAbs (units y).natAbs

/-- The integer that a finite double is, if it is one. -/
def toInt? (x : FiniteFloat) : Option Int :=
  if units x % 2 ^ 1074 = 0 then some (units x / 2 ^ 1074) else none

def isFinite : Float64 → Bool
  | .finite _ => true
  | _ => false

end Float64

/-! ## Reading doubles -/

/-- `c | 0x20`, the lower case of a letter. -/
def lowerBit (a : UInt8) : UInt8 := a ||| 0x20

def digitIn (hex : Bool) (a : UInt8) : Option Nat :=
  if isDigit a then some (a.toNat - 48)
  else if hex && (97 ≤ lowerBit a && lowerBit a ≤ 102) then some ((lowerBit a).toNat - 87)
  else none

structure Mantissa where
  value : Nat := 0
  /-- digits after the point -/
  frac : Nat := 0
  sawDot : Bool := false
  sawDigits : Bool := false
  underscores : Bool := false

/-- Reads digits, a point and underscores; gives the text after them. -/
def readMantissa (hex : Bool) : Mantissa → Bytes → Mantissa × Bytes
  | m, [] => (m, [])
  | m, a :: s =>
    if a == ch '_' then readMantissa hex { m with underscores := true } s
    else if a == ch '.' then
      if m.sawDot then (m, a :: s) else readMantissa hex { m with sawDot := true } s
    else
      match digitIn hex a with
      | some d =>
        readMantissa hex
          { m with
            value := m.value * (if hex then 16 else 10) + d
            frac := if m.sawDot then m.frac + 1 else m.frac
            sawDigits := true } s
      | none => (m, a :: s)

/-- The digits of an exponent, cut off once the exponent is past any range; whether there were
underscores, and the text after them. -/
def readExponent : Nat → Bool → Bytes → Nat × Bool × Bytes
  | e, u, [] => (e, u, [])
  | e, u, a :: s =>
    if a == ch '_' then readExponent e true s
    else if isDigit a then readExponent (if e < 10000 then e * 10 + (a.toNat - 48) else e) u s
    else (e, u, a :: s)

/-- The classes of characters `underscoreOK` tells apart. -/
inductive Saw where
  | start
  | digit
  | underscore
  | other
  deriving DecidableEq

/-- Underscores stand between digits, or between a base marker and a digit. -/
def underscoresFrom (hex : Bool) : Saw → Bytes → Bool
  | saw, [] => saw ≠ .underscore
  | saw, a :: s =>
    if (digitIn hex a).isSome then underscoresFrom hex .digit s
    else if a == ch '_' then if saw = .digit then underscoresFrom hex .underscore s else false
    else if saw = .underscore then false
    else underscoresFrom hex .other s

/-- `strconv.underscoreOK` on a number after its sign. -/
def underscoreOK : Bytes → Bool
  | 48 :: x :: s =>
    if lowerBit x == ch 'b' || lowerBit x == ch 'o' || lowerBit x == ch 'x' then
      underscoresFrom (lowerBit x == ch 'x') .digit s
    else underscoresFrom false .start (48 :: x :: s)
  | s => underscoresFrom false .start s

/-- The value `±mant * base ^ exp` of a number whose digits have been read. -/
def assemble (neg hex : Bool) (m : Mantissa) (e : Int) : Float64 :=
  let e' : Int := if hex then e - 4 * m.frac else e - m.frac
  let base := if hex then 2 else 10
  if 0 ≤ e' then Float64.round neg (m.value * base ^ e'.toNat) 1
  else Float64.round neg m.value (base ^ (-e').toNat)

/-- The exponent of a number after its significand; `none` for a syntax error. A hexadecimal
number must have one. -/
def readTail (hex : Bool) (rest : Bytes) : Option (Int × Bool) :=
  match rest with
  | [] => if hex then none else some (0, false)
  | a :: s =>
    if lowerBit a == (if hex then ch 'p' else ch 'e') then
      let signed := splitSign s
      match signed.2 with
      | d :: _ =>
        if isDigit d then
          let r := readExponent 0 false signed.2
          if r.2.2 = [] then some (if signed.1 then -(r.1 : Int) else r.1, r.2.1) else none
        else none
      | [] => none
    else none

/-- A finite number, read. -/
def readFloat (s : Bytes) : Except NumErr Float64 :=
  let neg := (splitSign s).1
  let body := (splitSign s).2
  let hex :=
    body.length > 2 && body.head? == some 48 && (body.drop 1).head?.map lowerBit == some (ch 'x')
  let scanned := readMantissa hex {} (if hex then body.drop 2 else body)
  let m := scanned.1
  if !m.sawDigits then .error .badSyntax
  else
    match readTail hex scanned.2 with
    | none => .error .badSyntax
    | some (e, u) =>
      if (m.underscores || u) && !underscoreOK body then .error .badSyntax
      else
        let x := assemble neg hex m e
        if x.isFinite then .ok x else .error .outOfRange

/-- `strconv.ParseFloat(s, 64)`. -/
def parseFloat (s : Bytes) : Except NumErr Float64 :=
  let word := (splitSign s).2.map lowerByte
  if word == str "inf" || word == str "infinity" then .ok (.inf (splitSign s).1)
  else if s.map lowerByte == str "nan" then .ok .nan
  else readFloat s

/-! ## Writing doubles -/

/-- The least `j` with `den ≤ num * 10 ^ (j + 1)`, looked for from `j` on. -/
def leadingZeros (num den : Nat) : Nat → Nat → Nat
  | 0, j => j
  | fuel + 1, j => if den ≤ num * 10 ^ (j + 1) then j else leadingZeros num den fuel (j + 1)

/-- The number of digits before the decimal point of `num / den`; a negative number counts the
zeros after the point. -/
def pointOf (num den : Nat) : Int :=
  if den ≤ num then (Nat.toDigits 10 (num / den)).length else -(leadingZeros num den 400 0 : Int)

/-- The decimal `c * 10 ^ k`, rounded to a double. -/
def decimalRound (neg : Bool) (c : Nat) (k : Int) : Float64 :=
  if 0 ≤ k then Float64.round neg (c * 10 ^ k.toNat) 1 else Float64.round neg c (10 ^ (-k).toNat)

/-- The `n`-digit decimal significand, at the point `dp`, that reads back as `x` and is closest to
it, if there is one. -/
def shortestWith (x : FiniteFloat) (num den : Nat) (dp : Int) (n : Nat) : Option Nat :=
  let k := dp - n
  let y := if 0 ≤ k then (num, den * 10 ^ k.toNat) else (num * 10 ^ (-k).toNat, den)
  let lo := y.1 / y.2
  let r := y.1 % y.2
  let okLo := decimalRound x.neg lo k = .finite x
  let okHi := decimalRound x.neg (lo + 1) k = .finite x
  if okLo ∧ okHi then
    if y.2 < 2 * r ∨ (2 * r = y.2 ∧ lo % 2 = 1) then some (lo + 1) else some lo
  else if okLo then some lo
  else if okHi then some (lo + 1)
  else none

/-- The shortest decimal that reads back as a positive double: its digits and its point. Seventeen
digits always do. -/
def shortestFrom (x : FiniteFloat) (num den : Nat) (dp : Int) : Nat → Nat → Bytes × Int
  | 0, _ => ([], 0)
  | fuel + 1, n =>
    match shortestWith x num den dp n with
    | some c =>
      let digits := decimal c
      ((digits.reverse.dropWhile (· == 48)).reverse, dp + (digits.length - n : Int))
    | none => shortestFrom x num den dp fuel (n + 1)

/-- The shortest digits and the decimal point of a finite double. -/
def shortest (x : FiniteFloat) : Bytes × Int :=
  if x.mant = 0 then ([], 0)
  else
    let p := Float64.scaled x.mant 1 (-x.exp)
    shortestFrom x p.1 p.2 (pointOf p.1 p.2) 17 1

/-- `%e` layout of digits. -/
def layoutE (digits : Bytes) (point : Int) : Bytes :=
  let e := point - 1
  let tail := digits.drop 1
  let expDigits := decimal e.natAbs
  digits.take 1 ++ (if tail = [] then [] else ch '.' :: tail) ++
    [ch 'e', if e < 0 then ch '-' else ch '+'] ++
    (if expDigits.length < 2 then 48 :: expDigits else expDigits)

/-- `%f` layout of digits. -/
def layoutF (digits : Bytes) (point : Int) : Bytes :=
  let whole :=
    if 0 < point then digits.take point.toNat ++ List.replicate (point.toNat - digits.length) 48
    else [48]
  let frac := List.replicate (-point).toNat 48 ++ digits.drop point.toNat
  if (digits.length : Int) - point ≤ 0 ∨ digits = [] then whole else whole ++ ch '.' :: frac

/-- `strconv.FormatFloat(x, 'g', -1, 64)`: the exponent form below `1e-4` and from `1e+06` on
(the decision takes precision 6 when the shortest form is asked for). -/
def formatFloat : Float64 → Bytes
  | .nan => str "NaN"
  | .inf neg => if neg then str "-Inf" else str "+Inf"
  | .finite x =>
    let d := shortest x
    let body :=
      if d.2 - 1 < -4 ∨ 6 ≤ d.2 - 1 then layoutE d.1 d.2 else layoutF d.1 d.2
    if x.neg then ch '-' :: body else body

end SuperDB.Go
