import SuperDB.Go.Map

/-!
# Valid JSON

The scanner of `encoding/json`, with which `json.Unmarshal` checks the whole text before it decodes
anything: a state machine over bytes with a stack of the composite values that are open.
-/

namespace SuperDB.Go

/-- The composite value being scanned, and whether its next value is a key. -/
inductive ParseState where
  | objectKey
  | objectValue
  | arrayValue
  deriving DecidableEq

/-- The step functions of the scanner; `word` is the rest of `true`, `false` or `null`, `hex` the
number of hexadecimal digits of an escape that are still to come. -/
inductive ScanState where
  | beginValue
  | beginValueOrEmpty
  | beginStringOrEmpty
  | beginString
  | endValue
  | endTop
  | inString
  | inStringEsc
  | hex (n : Nat)
  | neg
  | one
  | zero
  | dot
  | dot0
  | exp
  | expSign
  | exp0
  | word (rest : Bytes)
  deriving DecidableEq

structure Scan where
  state : ScanState := .beginValue
  stack : List ParseState := []
  deriving DecidableEq

namespace Scan

def isSpace (c : UInt8) : Bool := c ≤ 32 && (c == 32 || c == 9 || c == 13 || c == 10)

def isDigit (c : UInt8) : Bool := 48 ≤ c && c ≤ 57

def isHex (c : UInt8) : Bool := isDigit c || (97 ≤ c && c ≤ 102) || (65 ≤ c && c ≤ 70)

def maxNestingDepth : Nat := 10000

/-- `pushParseState`, unless the text is nested too deeply. -/
def push (state : ScanState) (p : ParseState) (s : Scan) : Option Scan :=
  if s.stack.length < maxNestingDepth then some { state, stack := p :: s.stack } else none

/-- `popParseState`. -/
def pop (s : Scan) : Scan :=
  { state := if s.stack.tail = [] then .endTop else .endValue, stack := s.stack.tail }

/-- `stateEndValue`: at the top only white space may follow. -/
def stepEndValue (s : Scan) (c : UInt8) : Option Scan :=
  match s.stack with
  | [] => if isSpace c then some { s with state := .endTop } else none
  | p :: stack =>
    if isSpace c then some { s with state := .endValue }
    else
      match p with
      | .objectKey =>
        if c = ch ':' then some { state := .beginValue, stack := .objectValue :: stack } else none
      | .objectValue =>
        if c = ch ',' then some { state := .beginString, stack := .objectKey :: stack }
        else if c = 125 then some s.pop
        else none
      | .arrayValue =>
        if c = ch ',' then some { s with state := .beginValue }
        else if c = 93 then some s.pop
        else none

/-- `stateBeginValue`. -/
def stepBeginValue (s : Scan) (c : UInt8) : Option Scan :=
  if isSpace c then some s
  else if c = 123 then s.push .beginStringOrEmpty .objectKey
  else if c = 91 then s.push .beginValueOrEmpty .arrayValue
  else if c = 34 then some { s with state := .inString }
  else if c = ch '-' then some { s with state := .neg }
  else if c = ch '0' then some { s with state := .zero }
  else if c = ch 't' then some { s with state := .word (str "rue") }
  else if c = ch 'f' then some { s with state := .word (str "alse") }
  else if c = ch 'n' then some { s with state := .word (str "ull") }
  else if isDigit c then some { s with state := .one }
  else none

/-- `stateBeginString`. -/
def stepBeginString (s : Scan) (c : UInt8) : Option Scan :=
  if isSpace c then some s else if c = 34 then some { s with state := .inString } else none

/-- `state0`, behind the integer part of a number. -/
def stepZero (s : Scan) (c : UInt8) : Option Scan :=
  if c = ch '.' then some { s with state := .dot }
  else if c = ch 'e' ∨ c = ch 'E' then some { s with state := .exp }
  else s.stepEndValue c

/-- One byte; `none` if the text is not valid. -/
def step (s : Scan) (c : UInt8) : Option Scan :=
  match s.state with
  | .beginValue => s.stepBeginValue c
  | .beginValueOrEmpty =>
    if isSpace c then some s else if c = 93 then s.stepEndValue c
    else { s with state := .beginValue }.stepBeginValue c
  | .beginStringOrEmpty =>
    if isSpace c then some s
    else if c = 125 then { s with stack := .objectValue :: s.stack.tail }.stepEndValue c
    else { s with state := .beginString }.stepBeginString c
  | .beginString => s.stepBeginString c
  | .endValue => s.stepEndValue c
  | .endTop => if isSpace c then some s else none
  | .inString =>
    if c = 34 then some { s with state := .endValue }
    else if c = 92 then some { s with state := .inStringEsc }
    else if c < 32 then none
    else some s
  | .inStringEsc =>
    if c = ch 'b' ∨ c = ch 'f' ∨ c = ch 'n' ∨ c = ch 'r' ∨ c = ch 't' ∨ c = 92 ∨ c = ch '/' ∨ c = 34
    then some { s with state := .inString }
    else if c = ch 'u' then some { s with state := .hex 4 }
    else none
  | .hex n =>
    if isHex c then some { s with state := if n ≤ 1 then .inString else .hex (n - 1) } else none
  | .neg =>
    if c = ch '0' then some { s with state := .zero }
    else if isDigit c then some { s with state := .one }
    else none
  | .one => if isDigit c then some s else s.stepZero c
  | .zero => s.stepZero c
  | .dot => if isDigit c then some { s with state := .dot0 } else none
  | .dot0 =>
    if isDigit c then some s
    else if c = ch 'e' ∨ c = ch 'E' then some { s with state := .exp }
    else s.stepEndValue c
  | .exp =>
    if c = ch '+' ∨ c = ch '-' then some { s with state := .expSign }
    else if isDigit c then some { s with state := .exp0 }
    else none
  | .expSign => if isDigit c then some { s with state := .exp0 } else none
  | .exp0 => if isDigit c then some s else s.stepEndValue c
  | .word rest =>
    if rest.head? = some c then
      some { s with state := if rest.tail = [] then .endValue else .word rest.tail }
    else none

def eof (s : Scan) : Bool :=
  s.state == .endTop || (s.step 32).elim false fun s => s.state == .endTop

end Scan

/-- `json.Valid`. -/
def jsonValid (text : Bytes) : Bool := (text.foldlM Scan.step {}).elim false Scan.eof

theorem jsonValid_of_start {s : Bytes} (h : s.foldlM Scan.step {} = none) (t : Bytes) :
    jsonValid (s ++ t) = false := by
  rw [jsonValid, List.foldlM_append, h]
  rfl

example : jsonValid (str "[1, -2.5e+3, null, \"\\u00e9\"]") = true := by decide +kernel

example : jsonValid (str "[1, 02]") = false := by decide +kernel

end SuperDB.Go
