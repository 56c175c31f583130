import SuperDB.Go.Map

/-!
# The parts of `strings` and `unicode` that SQL text goes through

Every function works on bytes. White space is the Unicode property `White_Space` that
`unicode.IsSpace` tests: six ASCII bytes and the runes U+0085, U+00A0, U+1680, U+2000 to U+200A,
U+2028, U+2029, U+202F, U+205F and U+3000. Their encodings start with a byte that is never a
continuation byte, so looking for them byte by byte finds exactly the white-space runes.
-/

namespace SuperDB.Go

/-! ## White space -/

def space1 (a : UInt8) : Bool := a == 32 || (9 ≤ a && a ≤ 13)

/-- A white-space rune of two bytes: U+0085 or U+00A0. -/
def space2 (a b : UInt8) : Bool := a == 0xC2 && (b == 0x85 || b == 0xA0)

def space3 (a b c : UInt8) : Bool :=
  (a == 0xE1 && b == 0x9A && c == 0x80) ||
  (a == 0xE2 && b == 0x80 && ((0x80 ≤ c && c ≤ 0x8A) || c == 0xA8 || c == 0xA9 || c == 0xAF)) ||
  (a == 0xE2 && b == 0x81 && c == 0x9F) ||
  (a == 0xE3 && b == 0x80 && c == 0x80)

/-- The number of bytes of the white-space rune at the start of a string; 0 if there is none. -/
def spaceWidth : Bytes → Nat
  | [] => 0
  | [a] => if space1 a then 1 else 0
  | [a, b] => if space1 a then 1 else if space2 a b then 2 else 0
  | a :: b :: c :: _ =>
    if space1 a then 1 else if space2 a b then 2 else if space3 a b c then 3 else 0

def untilSpace : Bytes → Bytes
  | [] => []
  | a :: s => if spaceWidth (a :: s) = 0 then a :: untilSpace s else []

/-- Drops leading white space; `skip` bytes of a rune are still to be dropped. -/
def trimLeftFrom : Nat → Bytes → Bytes
  | _, [] => []
  | skip + 1, _ :: s => trimLeftFrom skip s
  | 0, a :: s =>
    match spaceWidth (a :: s) with
    | 0 => a :: s
    | w + 1 => trimLeftFrom w s

/-- `strings.TrimLeftFunc(s, unicode.IsSpace)`. -/
def trimLeft (s : Bytes) : Bytes := trimLeftFrom 0 s

/-- `strings.TrimRightFunc(s, unicode.IsSpace)`: keep everything up to the last byte that starts
no run of white space reaching the end. -/
def trimRight : Bytes → Bytes
  | [] => []
  | a :: s => if trimLeft (a :: s) = [] then [] else a :: trimRight s

/-- `strings.TrimSpace`. -/
def trimSpace (s : Bytes) : Bytes := trimRight (trimLeft s)

/-- The fields of a string; `cur` is the field being read, in reverse, and `skip` bytes of a
white-space rune are still to be dropped. -/
def fieldsFrom : Nat → Bytes → Bytes → List Bytes
  | _, cur, [] => if cur = [] then [] else [cur.reverse]
  | skip + 1, cur, _ :: s => fieldsFrom skip cur s
  | 0, cur, a :: s =>
    match spaceWidth (a :: s) with
    | 0 => fieldsFrom 0 (a :: cur) s
    | w + 1 => if cur = [] then fieldsFrom w [] s else cur.reverse :: fieldsFrom w [] s

/-- `strings.Fields`. -/
def fields (s : Bytes) : List Bytes := fieldsFrom 0 [] s

/-! ## Searching and splitting -/

/-- `strings.Index(s, c)` for a one-byte string. -/
def indexByte (c : UInt8) (s : Bytes) : Option Nat := s.findIdx? (· == c)

/-- `strings.LastIndex(s, c)` for a one-byte string. -/
def lastIndexByte (c : UInt8) (s : Bytes) : Option Nat :=
  (s.reverse.findIdx? (· == c)).map fun i => s.length - 1 - i

/-- `strings.SplitN(s, c, 2)` when it gives two parts. -/
def cut (c : UInt8) : Bytes → Option (Bytes × Bytes)
  | [] => none
  | a :: s => if a == c then some ([], s) else (cut c s).map fun p => (a :: p.1, p.2)

/-- `s[i:j]` on strings, with `i ≤ j`. -/
def slice (s : Bytes) (i j : Nat) : Bytes := (s.take j).drop i

/-- `strings.ReplaceAll(s, "''", "'")`. -/
def undouble : Bytes → Bytes
  | a :: b :: s => if a == quote && b == quote then quote :: undouble s else a :: undouble (b :: s)
  | s => s

/-- `strings.Trim(s, "'")`. -/
def trimQuotes (s : Bytes) : Bytes :=
  ((s.dropWhile (· == quote)).reverse.dropWhile (· == quote)).reverse

/-! ## Runes -/

def isTail (b : UInt8) : Bool := 0x80 ≤ b && b ≤ 0xBF

/-- `utf8.DecodeRuneInString`: the first rune and its width. An invalid byte reads as U+FFFD of
width 1; the second byte's range excludes overlong forms, surrogates and runes above U+10FFFF. -/
def decodeRune : Bytes → Nat × Nat
  | [] => (0xFFFD, 0)
  | a :: s =>
    if a < 0x80 then (a.toNat, 1)
    else if 0xC2 ≤ a && a ≤ 0xDF then
      match s with
      | b :: _ => if isTail b then ((a.toNat - 0xC0) * 64 + (b.toNat - 0x80), 2) else (0xFFFD, 1)
      | _ => (0xFFFD, 1)
    else if 0xE0 ≤ a && a ≤ 0xEF then
      match s with
      | b :: c :: _ =>
        if isTail b && isTail c && (a != 0xE0 || 0xA0 ≤ b) && (a != 0xED || b ≤ 0x9F) then
          ((a.toNat - 0xE0) * 4096 + (b.toNat - 0x80) * 64 + (c.toNat - 0x80), 3)
        else (0xFFFD, 1)
      | _ => (0xFFFD, 1)
    else if 0xF0 ≤ a && a ≤ 0xF4 then
      match s with
      | b :: c :: d :: _ =>
        if isTail b && isTail c && isTail d && (a != 0xF0 || 0x90 ≤ b) && (a != 0xF4 || b ≤ 0x8F)
        then
          ((a.toNat - 0xF0) * 262144 + (b.toNat - 0x80) * 4096 + (c.toNat - 0x80) * 64 +
            (d.toNat - 0x80), 4)
        else (0xFFFD, 1)
      | _ => (0xFFFD, 1)
    else (0xFFFD, 1)

/-- `utf8.AppendRune`. -/
def encodeRune (r : Nat) : Bytes :=
  if r < 0x80 then [UInt8.ofNat r]
  else if r < 0x800 then [UInt8.ofNat (0xC0 + r / 64), UInt8.ofNat (0x80 + r % 64)]
  else if r < 0x10000 then
    [UInt8.ofNat (0xE0 + r / 4096), UInt8.ofNat (0x80 + r / 64 % 64), UInt8.ofNat (0x80 + r % 64)]
  else
    [UInt8.ofNat (0xF0 + r / 262144), UInt8.ofNat (0x80 + r / 4096 % 64),
      UInt8.ofNat (0x80 + r / 64 % 64), UInt8.ofNat (0x80 + r % 64)]

/-- The runes of a string; `skip` bytes of the last rune are still to be passed. -/
def runesFrom : Nat → Bytes → List Nat
  | _, [] => []
  | skip + 1, _ :: s => runesFrom skip s
  | 0, a :: s => (decodeRune (a :: s)).1 :: runesFrom ((decodeRune (a :: s)).2 - 1) s

/-- `[]rune(s)`. -/
def runes (s : Bytes) : List Nat := runesFrom 0 s

/-! ## Letter case -/

/-- A run of letters with the same distance to their lower case: first, last, step, distance. -/
structure CaseRange where
  lo : Nat
  hi : Nat
  step : Nat
  delta : Int

def lowerIn (table : List CaseRange) (r : Nat) : Nat :=
  match table.find? fun c => c.lo ≤ r && r ≤ c.hi && (r - c.lo) % c.step == 0 with
  | some c => ((r : Int) + c.delta).toNat
  | none => r

def lowerByte (a : UInt8) : UInt8 := if 65 ≤ a && a ≤ 90 then a + 32 else a

def upperByte (a : UInt8) : UInt8 := if 97 ≤ a && a ≤ 122 then a - 32 else a

/-- `strings.ToUpper` as far as a comparison with an ASCII word can tell: besides the ASCII
letters, only U+0131 and U+017F have an ASCII upper case. -/
def toUpper : Bytes → Bytes
  | 0xC4 :: 0xB1 :: s => 73 :: toUpper s
  | 0xC5 :: 0xBF :: s => 83 :: toUpper s
  | a :: s => upperByte a :: toUpper s
  | [] => []

/-- `strings.EqualFold(s, word)` for an upper-case ASCII word without K and S: only these two
letters fold to a rune outside ASCII. -/
def equalFold (s word : Bytes) : Bool := s.map upperByte == word

end SuperDB.Go
