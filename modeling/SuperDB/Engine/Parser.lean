import SuperDB.Engine.Fold
import SuperDB.Engine.Types

/-!
# Literals and conditions

Reading literals, splitting conditions into terms, and evaluating them. `WHERE` of a `SELECT` is
compiled to a disjunction of conjunctions of terms; `WHERE` of an `UPDATE` or `DELETE` is one term
whose literal stays text.
-/

namespace SuperDB.Engine

open Go

inductive Op where
  | eq
  | ne
  | lt
  | le
  | gt
  | ge
  | isIn
  | between
  | like
  deriving DecidableEq

/-! ## Ordering values -/

def numeric : Value → Option Float64
  | .int n => some (Float64.ofInt n.toInt)
  | .float x => some x
  | _ => none

/-- The byte order of Go strings. -/
def bytesLess (a b : Bytes) : Bool := compare a b == .lt

/-- The order that ORDER BY, MIN and MAX share: cells of one type by their value, mixed numbers as
doubles, anything else by the rendered text. -/
def valueLess (l r : Value) : Bool :=
  match l, r with
  | .int a, .int b => a.toInt < b.toInt
  | .text a, .text b => bytesLess a b
  | .bool a, .bool b => !a && b
  | .float a, .float b => Float64.lt a b
  | l, r =>
    match numeric l, numeric r with
    | some a, some b => Float64.lt a b
    | _, _ => bytesLess (sprint l) (sprint r)

/-- The comparisons `<`, `<=`, `>` and `>=`. -/
def orderedCompare (actual expected : Value) : Op → Bool
  | .lt => valueLess actual expected
  | .le => !valueLess expected actual
  | .gt => valueLess expected actual
  | .ge => !valueLess actual expected
  | _ => false

/-! ## Literals -/

/-- The text of a literal: surrounding quotes go and doubled quotes become one. -/
def unquoteLiteral (raw : Bytes) : Bytes :=
  let s := trimSpace raw
  if 2 ≤ s.length && s.head? == some quote && s.getLast? == some quote then
    undouble (slice s 1 (s.length - 1))
  else trimQuotes s

/-- The pieces of a comma-separated list, outside quotes; `cur` is the piece being read, in
reverse. -/
def splitValsFrom : Quote → Bytes → Bytes → List Bytes
  | _, cur, [] => [trimSpace cur.reverse]
  | q, cur, a :: s =>
    if q.plain a && a == ch ',' then trimSpace cur.reverse :: splitValsFrom q [] s
    else splitValsFrom (q.step a s) (a :: cur) s

def splitVals (s : Bytes) : List Bytes := splitValsFrom .out [] s

/-- A literal read as a value of the column type; the errors are those of `strconv`. -/
def parseVal (raw : Bytes) (typ : ColType) : Except Fault Value :=
  let s := trimSpace raw
  if equalFold s (str "NULL") then .ok .null
  else
    match typ with
    | .text => .ok (.text (unquoteLiteral s))
    | .int =>
      match parseInt s with
      | .ok n => .ok (.int n)
      | .error e => .error (.error (.num .parseInt s e))
    | .float =>
      match parseFloat s with
      | .ok x => .ok (.float x)
      | .error e => .error (.error (.num .parseFloat s e))
    | .bool =>
      match parseBool s with
      | some b => .ok (.bool b)
      | none => .error (.error (.num .parseBool s .badSyntax))

def literalValue (raw : Bytes) (typ : ColType) : Value :=
  let unq := unquoteLiteral (trimSpace raw)
  match parseVal unq typ with
  | .ok v => v
  | .error _ => .text unq

/-! ## Splitting conditions -/

def skipBlanks (s : Bytes) : Bytes := s.dropWhile isBlankByte

/-- Whether the BETWEEN operator starts at `s`, after the byte `prev`: a whole word that no
comparison sign follows. -/
def isBetweenOperator (prev : Option UInt8) (s : Bytes) : Bool :=
  !prev.any identifierByte && foldEqualAt s (str "BETWEEN") && boundary (s.drop 7) &&
    match skipBlanks (s.drop 7) with
    | [] => false
    | a :: _ => a != ch '=' && a != ch '<' && a != ch '>' && a != ch '!'

/-- The operands of a logical operator. `skip` bytes of an operator are still to be passed,
`pending` counts the BETWEEN operators whose AND has not come yet, and `cur` is the operand being
read, in reverse. -/
def splitLogicalFrom (word : Bytes) :
    Nat → Quote → Option UInt8 → Nat → Bytes → Bytes → List Bytes
  | _, _, _, _, cur, [] => [trimSpace cur.reverse]
  | skip + 1, q, _, pending, cur, a :: s =>
    splitLogicalFrom word skip (q.step a s) (some a) pending cur s
  | 0, q, prev, pending, cur, a :: s =>
    let pending :=
      if q.plain a && word == str "AND" && isBetweenOperator prev (a :: s) then pending + 1
      else pending
    if q.plain a && foldEqualAt (a :: s) (ch ' ' :: word ++ [ch ' ']) then
      match pending with
      | n + 1 => splitLogicalFrom word 0 (q.step a s) (some a) n (a :: cur) s
      | 0 =>
        trimSpace cur.reverse ::
          splitLogicalFrom word (word.length + 1) (q.step a s) (some a) 0 [] s
    else splitLogicalFrom word 0 (q.step a s) (some a) pending (a :: cur) s

def splitLogical (s word : Bytes) : List Bytes := splitLogicalFrom word 0 .out none 0 [] s

structure RawTerm where
  lhs : Bytes
  op : Op
  rhs : Bytes
  deriving DecidableEq

/-- A term split at the first comparison sign outside quotes; a bare `!` is malformed. -/
def splitConditionTermFrom : Quote → Bytes → Bytes → Option RawTerm
  | _, _, [] => none
  | q, cur, a :: s =>
    let lhs := cur.reverse
    if q.plain a then
      if a == ch '!' then if s.head? == some (ch '=') then some ⟨lhs, .ne, s.drop 1⟩ else none
      else if a == ch '<' then
        if s.head? == some (ch '=') then some ⟨lhs, .le, s.drop 1⟩
        else if s.head? == some (ch '>') then some ⟨lhs, .ne, s.drop 1⟩
        else some ⟨lhs, .lt, s⟩
      else if a == ch '>' then
        if s.head? == some (ch '=') then some ⟨lhs, .ge, s.drop 1⟩ else some ⟨lhs, .gt, s⟩
      else if a == ch '=' then some ⟨lhs, .eq, s⟩
      else splitConditionTermFrom (q.step a s) (a :: cur) s
    else splitConditionTermFrom (q.step a s) (a :: cur) s

def splitConditionTerm (s : Bytes) : Option RawTerm := splitConditionTermFrom .out [] s

/-- The first of the keyword operators in a term: position, length and operator. -/
def firstSpecial (s : Bytes) : Option (Nat × Nat × Op) :=
  let found := [(str "BETWEEN", Op.between), (str "IN", Op.isIn), (str "LIKE", Op.like)].filterMap
    fun (word, op) => (indexKeyword s word).map fun i => (i, word.length, op)
  found.foldl (fun best x => match best with
    | none => some x
    | some b => if x.1 < b.1 then some x else some b) none

def splitSpecialTerm (s : Bytes) : Option RawTerm :=
  (firstSpecial s).map fun (i, n, op) => ⟨s.take i, op, s.drop (i + n)⟩

/-- A term split at its operator, a comparison sign or else a keyword. -/
def splitTerm (s : Bytes) : Option RawTerm := splitConditionTerm s <|> splitSpecialTerm s

def splitBetweenBounds (raw : Bytes) : Option (Bytes × Bytes) :=
  if (indexKeyword raw (str "OR")).isSome then none
  else
    match splitLogical raw (str "AND") with
    | [a, b] =>
      let lo := trimSpace a
      let hi := trimSpace b
      if lo = [] ∨ hi = [] then none else some (lo, hi)
    | _ => none

def inListBody (raw : Bytes) : Option Bytes :=
  let s := trimSpace raw
  if 2 ≤ s.length && s.head? == some (ch '(') && s.getLast? == some (ch ')') then
    some (slice s 1 (s.length - 1))
  else none

def parseInList (raw : Bytes) (typ : ColType) : Option (List Value) :=
  match inListBody raw with
  | none => none
  | some body =>
    let vals := splitVals body
    if vals.any (fun v => trimSpace v = []) then none else some (vals.map (literalValue · typ))

def inListValues (raw : Bytes) : List Bytes :=
  match inListBody raw with
  | none => []
  | some body => (splitVals body).map unquoteLiteral

/-! ## LIKE -/

/-- The loop of `likeMatch`: the rest of the pattern and of the value, and the pattern after the
last `%` with the value from where it was tried last. The fuel counts rounds; `none` when it runs
out. -/
def likeLoop : Nat → List Nat → List Nat → Option (List Nat × List Nat) → Option Bool
  | 0, _, _, _ => none
  | fuel + 1, p, v, star =>
    match v with
    | [] => some (p.all (· == 37))
    | c :: v' =>
      match p with
      | a :: p' =>
        if a == 95 || a == c then likeLoop fuel p' v' star
        else if a == 37 then likeLoop fuel p' (c :: v') (some (p', c :: v'))
        else
          match star with
          | some (sp, _ :: sv) => likeLoop fuel sp sv (some (sp, sv))
          | _ => some false
      | [] =>
        match star with
        | some (sp, _ :: sv) => likeLoop fuel sp sv (some (sp, sv))
        | _ => some false

/-- `%` matches any run of runes and `_` exactly one. The loop ends within these rounds
(`like_match_iff`). -/
def likeMatch (pattern value : Bytes) : Bool :=
  let p := runes pattern
  let v := runes value
  (likeLoop ((v.length + 2) * (p.length + v.length + 2)) p v none).getD false

/-! ## Compiled conditions -/

/-- The right side of a compiled term: one value, or the values of IN and BETWEEN. -/
inductive Expected where
  | one (v : Value)
  | many (l : List Value)
  deriving DecidableEq

structure ConditionTerm where
  column : Bytes
  expected : Expected
  op : Op
  deriving DecidableEq

/-- A disjunction of conjunctions of terms. -/
abbrev CompiledCondition := List (List ConditionTerm)

def columnType (columns : List Column) (name : Bytes) : Option ColType :=
  (columns.reverse.find? (·.name == name)).map (·.type)

/-- The right side of a term, resolved against the column's type. -/
def compileExpected (raw : Bytes) (typ : ColType) : Op → Option Expected
  | .isIn => (parseInList raw typ).map .many
  | .between =>
    (splitBetweenBounds raw).map fun (lo, hi) => .many [literalValue lo typ, literalValue hi typ]
  | .like => some (.one (.text (unquoteLiteral raw)))
  | _ => some (.one (literalValue raw typ))

def compileTerm (columns : List Column) (conjunction : Bytes) : Option ConditionTerm := do
  let t ← splitTerm conjunction
  let column := toLower (trimSpace t.lhs)
  let typ ← columnType columns column
  let raw := trimSpace t.rhs
  if column = [] ∨ raw = [] then none
  else
    let expected ← compileExpected raw typ t.op
    some ⟨column, expected, t.op⟩

/-- Compiles a WHERE expression; `none` if it is invalid. The empty expression has no groups. -/
def compileCondition (expression : Bytes) (columns : List Column) : Option CompiledCondition :=
  if trimSpace expression = [] then some []
  else
    (splitLogical expression (str "OR")).mapM fun disjunction =>
      (splitLogical disjunction (str "AND")).mapM (compileTerm columns)

/-- Equality of a cell with a literal: same type and same value. -/
def conditionValueEqual (actual expected : Value) : Bool :=
  match expected with
  | .null => actual == .null
  | .text b => match actual with | .text a => a == b | _ => false
  | .int b => match actual with | .int a => a == b | _ => false
  | .float b => match actual with | .float a => Float64.eq a b | _ => false
  | .bool b => match actual with | .bool a => a == b | _ => false
  | .count _ => sprint actual == sprint expected

def conditionValueCompare (actual : Value) (expected : Expected) (op : Op) : Bool :=
  match op, expected with
  | .eq, .one v => conditionValueEqual actual v
  | .ne, .one v => !conditionValueEqual actual v
  | .isIn, .many l => l.any (conditionValueEqual actual)
  | .between, .many [lo, hi] => orderedCompare actual lo .ge && orderedCompare actual hi .le
  | .like, .one (.text pattern) => match actual with | .text s => likeMatch pattern s | _ => false
  | op, .one v => orderedCompare actual v op
  | _, _ => false

def CompiledCondition.holds (c : CompiledCondition) (cell : Bytes → Option Value) : Bool :=
  c.any fun group => group.all fun term =>
    match cell term.column with
    | some v => conditionValueCompare v term.expected term.op
    | none => false

def CompiledCondition.matchesMap (c : CompiledCondition) (row : Row) : Bool :=
  c.holds fun column => some (row.get column)

/-- A position beyond the cells reads as NULL here and panics in the source; `Table.InRange`
excludes it. -/
def CompiledCondition.matchesFast (c : CompiledCondition) (values : List Value)
    (columns : Map Nat) : Bool :=
  c.holds fun column => columns[column]?.map fun i => values.getD i .null

/-! ## The conditions of UPDATE and DELETE -/

def matchWhereValue (actual : Value) (wv : Bytes) : Bool :=
  match actual with
  | .text s => s == wv
  | .bool b => (b && wv == str "true") || (!b && wv == str "false")
  | v => sprint v == wv

def matchWhereOp (actual : Value) (wv : Bytes) (expected : Expected) (op : Op) : Bool :=
  match op with
  | .eq => matchWhereValue actual wv
  | .ne => !matchWhereValue actual wv
  | .isIn => (inListValues wv).any (matchWhereValue actual)
  | .between =>
    match expected with
    | .many [lo, hi] => orderedCompare actual lo .ge && orderedCompare actual hi .le
    | _ => false
  | .like =>
    match actual with
    | .text s =>
      match expected with
      | .one (.text pattern) => likeMatch pattern s
      | _ => likeMatch [] s
    | _ => false
  | op =>
    match expected with
    | .one v => orderedCompare actual v op
    | .many _ => false

/-- The condition of an UPDATE or DELETE: column, text of the literal and operator. -/
structure MutationWhere where
  column : Bytes
  value : Bytes
  op : Op

/-- The WHERE clause of an UPDATE or DELETE, a single term; `none` inside if there is no WHERE. -/
def parseMutationWhere (s : Bytes) : Except Fault (Option MutationWhere) :=
  let invalid : Except Fault (Option MutationWhere) := .error (fault "invalid WHERE expression")
  match indexKeyword s (str "WHERE") with
  | none => .ok none
  | some i =>
    let rest := trimSpace (s.drop (i + 5))
    if rest = [] then invalid
    else
      match splitTerm rest with
      | none => invalid
      | some t =>
        let wellFormed :=
          if t.op = .between then (splitBetweenBounds t.rhs).isSome
          else (indexKeyword rest (str "AND")).isNone && (indexKeyword rest (str "OR")).isNone
        let column := toLower (trimSpace t.lhs)
        let raw := trimSpace t.rhs
        if !wellFormed || column = [] || raw = [] then invalid
        else .ok (some ⟨column, unquoteLiteral raw, t.op⟩)

/-- The literal of an UPDATE's or DELETE's condition, resolved for ordered comparisons. A missing
column is rejected. -/
def mutationExpected (columns : List Column) : Option MutationWhere → Except Fault Expected
  | none => .ok (.one (.text []))
  | some w =>
    match columns.find? (·.name == w.column) with
    | none => .error (fault "invalid WHERE expression")
    | some col =>
      match w.op with
      | .eq | .ne | .isIn | .like => .ok (.one (.text w.value))
      | .between =>
        match splitBetweenBounds w.value with
        | none => .error (fault "invalid WHERE expression")
        | some (lo, hi) => .ok (.many [literalValue lo col.type, literalValue hi col.type])
      | _ =>
        match parseVal w.value col.type with
        | .ok v => .ok (.one v)
        | .error _ => .ok (.one (.text w.value))

def mutationMatches (w : Option MutationWhere) (expected : Expected) (row : Row) : Bool :=
  match w with
  | none => true
  | some w => matchWhereOp (row.get w.column) w.value expected w.op

end SuperDB.Engine
