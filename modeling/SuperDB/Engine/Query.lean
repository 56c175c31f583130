import SuperDB.Engine.Parser

/-!
# The parts of a SELECT

The clauses after the table name, the bare equality that indexes and the fast array answer, the
keys that DISTINCT and GROUP BY compare, and ORDER BY.
-/

namespace SuperDB.Engine

open Go

/-! ## Clauses -/

/-- The search of `indexPairKeyword` in what follows position `start`. Every round passes the first
word, so the length of the text is fuel enough. -/
def indexPairFrom (first second : Bytes) : Nat → Nat → Bytes → Option (Nat × Nat)
  | 0, _, _ => none
  | fuel + 1, start, s =>
    match indexKeyword s first with
    | none => none
    | some i =>
      let rest := s.drop (i + first.length)
      let after := skipBlanks rest
      if foldEqualAt after second && boundary (after.drop second.length) then
        some (start + i, start + s.length - after.length + second.length)
      else indexPairFrom first second fuel (start + i + first.length) rest

/-- The position of a clause of two words, and the position after it. -/
def indexPairKeyword (s first second : Bytes) : Option (Nat × Nat) :=
  indexPairFrom first second (s.length + 1) 0 s

def indexOrderBy (s : Bytes) : Option (Nat × Nat) := indexPairKeyword s (str "ORDER") (str "BY")

def indexGroupBy (s : Bytes) : Option (Nat × Nat) := indexPairKeyword s (str "GROUP") (str "BY")

/-- What follows the table name of a SELECT; `cond` is the text of WHERE. -/
structure SelectTail where
  cond : Bytes := []
  orderColumn : Bytes := []
  descending : Bool := false
  limit : Option Nat := none
  offset : Nat := 0
  groupBy : List Bytes := []
  having : Bytes := []
  /-- where the table name ends -/
  headEnd : Nat
  deriving DecidableEq

/-- Whether the positions of the clauses that are present increase strictly. -/
def increasing : Option Nat → List (Option Nat) → Bool
  | _, [] => true
  | prev, none :: l => increasing prev l
  | prev, some pos :: l => prev.all (· < pos) && increasing (some pos) l

def clauseBound (positions : List (Option Nat)) (test : Nat → Bool) (len : Nat) : Nat :=
  positions.foldl (fun m p => match p with
    | some pos => if test pos && pos < m then pos else m
    | none => m) len

/-- The body of a clause that starts at `pos` and whose keywords end at `from_`. -/
def clauseBody (rest : Bytes) (positions : List (Option Nat)) (pos from_ : Nat) : Bytes :=
  trimSpace (slice rest from_ (clauseBound positions (pos < ·) rest.length))

def optionalClause (rest : Bytes) (positions : List (Option Nat)) (pos : Option Nat) (width : Nat)
    (message : String) : Except Fault Bytes :=
  match pos with
  | none => .ok []
  | some i =>
    let body := clauseBody rest positions i (i + width)
    if body = [] then .error (fault message) else .ok body

def parseGroupBy (rest : Bytes) (positions : List (Option Nat)) :
    Option (Nat × Nat) → Except Fault (List Bytes)
  | none => .ok []
  | some (i, from_) =>
    let body := clauseBody rest positions i from_
    if body = [] then .error (fault "GROUP BY requires a column")
    else
      let columns := (splitVals body).map fun g => toLower (trimSpace g)
      if columns.contains [] then .error (fault "invalid GROUP BY expression") else .ok columns

def parseOrderBy (rest : Bytes) (positions : List (Option Nat)) :
    Option (Nat × Nat) → Except Fault (Bytes × Bool)
  | none => .ok ([], false)
  | some (i, from_) =>
    match fields (clauseBody rest positions i from_) with
    | [] => .error (fault "ORDER BY requires a column")
    | [column] => .ok (toLower column, false)
    | [column, direction] =>
      if toUpper direction = str "ASC" then .ok (toLower column, false)
      else if toUpper direction = str "DESC" then .ok (toLower column, true)
      else .error (fault "ORDER BY expects ASC or DESC")
    | _ => .error (fault "invalid ORDER BY expression")

def parseCount (rest : Bytes) (positions : List (Option Nat)) (pos : Option Nat) (width : Nat)
    (message : String) : Except Fault (Option Nat) :=
  match pos with
  | none => .ok none
  | some i =>
    match atoiNonneg (clauseBody rest positions i (i + width)) with
    | some n => .ok (some n)
    | none => .error (fault message)

def parseSelectTail (rest : Bytes) : Except Fault SelectTail := do
  let whereStart := indexKeyword rest (str "WHERE")
  let group := indexGroupBy rest
  let havingStart := indexKeyword rest (str "HAVING")
  let order := indexOrderBy rest
  let limitStart := indexKeyword rest (str "LIMIT")
  let offsetStart := indexKeyword rest (str "OFFSET")
  let positions :=
    [whereStart, group.map (·.1), havingStart, order.map (·.1), limitStart, offsetStart]
  if !increasing none positions then .error (fault "invalid SELECT clause order")
  else
    let cond ← optionalClause rest positions whereStart 5 "invalid WHERE expression"
    let groupBy ← parseGroupBy rest positions group
    let having ← optionalClause rest positions havingStart 6 "invalid HAVING expression"
    if having ≠ [] ∧ groupBy = [] then .error (fault "HAVING requires GROUP BY")
    else
      let (orderColumn, descending) ← parseOrderBy rest positions order
      let limit ← parseCount rest positions limitStart 5 "LIMIT must be a non-negative integer"
      let offset ← parseCount rest positions offsetStart 6 "OFFSET must be a non-negative integer"
      .ok
        { cond, orderColumn, descending, limit, offset := offset.getD 0, groupBy, having
          headEnd := clauseBound positions (fun _ => true) rest.length }

/-! ## Bare equalities -/

/-- The two sides of a bare `column = value`: no logical operator, even inside quotes. -/
def simpleSides (expression : Bytes) : Option (Bytes × Bytes) :=
  if expression = [] ∨ containsFold (str " AND ") expression ∨ containsFold (str " OR ") expression
  then none
  else (cut (ch '=') expression).map fun p => (toLower (trimSpace p.1), unquoteLiteral p.2)

def simpleEquality (expression : Bytes) : Option (Bytes × Bytes) := simpleSides expression

/-- The key under which the literal of a bare equality is stored and indexed. -/
def Table.equalityKey (t : Table) (column value : Bytes) : Bytes :=
  match t.columns.find? (·.name == column) with
  | none => value
  | some c =>
    match parseVal value c.type with
    | .ok v => valueKey v
    | .error _ => value

/-- How the cells of a fast row are compared with the literal of a bare equality. -/
inductive FastKind where
  | generic
  | int
  | string
  | bool
  | float
  deriving DecidableEq

/-- A bare equality resolved to a position in the fast rows. -/
structure FastTerm where
  index : Nat
  expected : Value
  kind : FastKind
  deriving DecidableEq

def fastKind : ColType → Value → FastKind
  | .int, .int _ => .int
  | .text, .text _ => .string
  | .bool, .bool _ => .bool
  | .float, .float _ => .float
  | _, _ => .generic

def simpleFastTerm (expression : Bytes) (t : Table) : Option FastTerm := do
  let (column, raw) ← simpleSides expression
  if column = [] then none
  else
    let index ← t.fastColumns[column]?
    let c ← t.columns[index]?
    let expected :=
      match parseVal raw c.type with
      | .ok v => v
      | .error _ => .text raw
    some ⟨index, expected, fastKind c.type expected⟩

/-- Beyond the cells of the row this compares NULL, where the source panics. -/
def matchFastTerm (values : List Value) (term : FastTerm) : Bool :=
  let v := values.getD term.index .null
  match term.kind, v, term.expected with
  | .int, .int a, .int b => a == b
  | .string, .text a, .text b => a == b
  | .bool, .bool a, .bool b => a == b
  | .float, .float a, .float b => Float64.eq a b
  | .generic, v, expected => conditionValueEqual v expected
  | _, _, _ => false

/-! ## Projection -/

def selectedValues (row : Row) (names : List Bytes) : List Value := names.map row.get

/-- A column without a position, or past the end of the cells, reads as NULL. -/
def selectedFastValues (values : List Value) (names : List Bytes) (columns : Map Nat) :
    List Value :=
  names.map fun name =>
    match columns[name]? with
    | some i => values.getD i .null
    | none => .null

def valueTag : Value → UInt8
  | .int _ => ch 'i'
  | .float _ => ch 'f'
  | .text _ => ch 's'
  | .bool _ => ch 'b'
  | .null | .count _ => ch 'n'

def rowProjectionKey (row : List Value) : Bytes :=
  row.flatMap fun v =>
    valueTag v :: decimal (valueKey v).length ++ ch ':' :: valueKey v

def Table.fastAt (t : Table) (key : Bytes) : Option FastRow :=
  match t.fastPos[key]? with
  | none => none
  | some i =>
    match t.fast[i]? with
    | some r => if r.key = [] then none else some r
    | none => none

/-- Addition of Go `int`s that saturates at the largest. -/
def satAdd (a b : Nat) : Nat := if a > 2 ^ 63 - 1 - b then 2 ^ 63 - 1 else a + b

/-! ## ORDER BY -/

/-- A candidate of ORDER BY with its cell and its place in the collection. -/
structure OrderEntry where
  key : Bytes
  val : Value
  seq : Nat

def rankBefore (descending : Bool) (a b : OrderEntry) : Bool :=
  if valueLess a.val b.val then !descending
  else if valueLess b.val a.val then descending
  else a.seq < b.seq

/-- The round of `topKEntries` for one entry. With `k = 0` the source reads the root of an empty
heap and panics. -/
def topKStep (k : Nat) (descending : Bool) (h : List OrderEntry) (e : OrderEntry) :
    Except Fault (List OrderEntry) :=
  -- the root is the entry that ranks last
  let less := fun a b => rankBefore descending b a
  if h.length < k then .ok (heapPush less h e)
  else
    match h with
    | [] => .error .panic
    | root :: _ =>
      if rankBefore descending e root then .ok (heapPush less (heapPop less h) e) else .ok h

def topKEntries (entries : List OrderEntry) (k : Nat) (descending : Bool) :
    Except Fault (List OrderEntry) :=
  entries.foldlM (topKStep k descending) []

/-- The cell that ORDER BY compares, from the fast row where there is one. -/
def Table.orderValue (t : Table) (column key : Bytes) : Value :=
  let stored := (t.rows.getD key ∅).get column
  if t.fast = [] then stored
  else
    match t.fastColumns[column]?, t.fastAt key with
    | some c, some r => r.values.getD c stored
    | _, _ => stored

/-- The entries to sort: the best ones under a cap smaller than their number, or all. -/
def capEntries (entries : List OrderEntry) (cap : Option Nat) (descending : Bool) :
    Except Fault (List OrderEntry) :=
  match cap with
  | some k => if k < entries.length then topKEntries entries k descending else .ok entries
  | none => .ok entries

def orderKeys (env : Env) (t : Table) (keys : List Bytes) (column : Bytes) (descending : Bool)
    (cap : Option Nat) : Except Fault (List Bytes) := do
  let entries := keys.zipIdx.map fun p => ⟨p.1, t.orderValue column p.1, p.2⟩
  let entries ← capEntries entries cap descending
  .ok ((env.sorter.sort (rankBefore descending) entries).map (·.key))

end SuperDB.Engine
