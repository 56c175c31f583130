import SuperDB.Go.Strings

/-!
# Keyword matching

SQL keywords are found by comparing ASCII letters without regard to case. A keyword counts only
as a whole word outside quoted text; two single quotes inside a literal are one escaped quote.
-/

namespace SuperDB.Engine

open Go

/-- Whether `s` starts with `needle` under ASCII folding; `needle` is upper case. -/
def foldEqualAt : Bytes → Bytes → Bool
  | _, [] => true
  | [], _ :: _ => false
  | a :: s, n :: needle => upperByte a == n && foldEqualAt s needle

/-- Whether `s` starts with the given upper-case word. -/
def hasPrefixFold (s word : Bytes) : Bool := foldEqualAt s word

/-- Whether `sub` occurs in `s` under ASCII folding, quoted or not (`indexFold(s, sub) >= 0`). -/
def containsFold (sub : Bytes) : Bytes → Bool
  | [] => sub == []
  | a :: s => foldEqualAt (a :: s) sub || containsFold sub s

def identifierByte (a : UInt8) : Bool :=
  (97 ≤ a && a ≤ 122) || (65 ≤ a && a ≤ 90) || (48 ≤ a && a ≤ 57) || a == 95 || 0x80 ≤ a

/-- Whether no word continues at the start of `s`. -/
def boundary : Bytes → Bool
  | [] => true
  | a :: _ => !identifierByte a

/-- Where a scan stands with respect to single-quoted literals: outside, inside, or before the
second quote of an escaped pair. -/
inductive Quote where
  | out
  | lit
  | esc
  deriving DecidableEq

/-- The quote tracking all scanners share (`skipQuoted` and the toggle after it): after the byte
`a`, with `rest` still to come. -/
def Quote.step (q : Quote) (a : UInt8) (rest : Bytes) : Quote :=
  match q with
  | .esc => .lit
  | .out => if a == quote then .lit else .out
  | .lit => if a == quote then if rest.head? == some quote then .esc else .out else .lit

/-- Whether a byte read in this state is SQL text, neither a quote nor inside a literal. -/
def Quote.plain (q : Quote) (a : UInt8) : Bool := q == .out && a != quote

/-- The search of `indexKeyword` from position `i`, after the byte `prev`. -/
def indexKeywordFrom (word : Bytes) : Nat → Quote → Option UInt8 → Bytes → Option Nat
  | _, _, _, [] => none
  | i, q, prev, a :: s =>
    if q.plain a && !prev.any identifierByte && foldEqualAt (a :: s) word &&
        boundary ((a :: s).drop word.length) then some i
    else indexKeywordFrom word (i + 1) (q.step a s) (some a) s

/-- The position of a complete keyword outside quoted text. -/
def indexKeyword (s word : Bytes) : Option Nat := indexKeywordFrom word 0 .out none s

def firstField (s : Bytes) : Option Bytes :=
  let t := trimSpace s
  if t = [] then none else some (untilSpace t)

/-- A blank byte: space, tab, newline or carriage return. -/
def isBlankByte (a : UInt8) : Bool := a == 32 || a == 9 || a == 10 || a == 13

end SuperDB.Engine
