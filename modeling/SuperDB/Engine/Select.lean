import SuperDB.Engine.FastPath
import SuperDB.Engine.Query

/-!
# SELECT

A query on one table, by the path the source takes: a lookup of the primary key, a scan of the fast
array, the bucket of a secondary index or a scan of `order`; and the aggregates and groups, each
over the fast array or over `order`.
-/

namespace SuperDB.Engine

open Go

/-- A SELECT after its text has been read. -/
structure Query where
  names : List Bytes
  distinct : Bool
  tail : SelectTail

def applyOffset {α : Type} (offset : Nat) (rows : List α) : List α := rows.drop offset

def capResultRows (maxRows : Nat) (r : Result) : Except Fault Result :=
  if 0 < maxRows ∧ maxRows < r.rows.length then
    .error (.error (.resultTooLarge r.rows.length maxRows))
  else .ok r

def rowCap (maxRows : Nat) (limit : Option Nat) (offset : Nat) : Option Nat :=
  let limited := limit.map (satAdd · offset)
  if 0 < maxRows then
    let emitCap := satAdd (satAdd maxRows offset) 1
    match limited with
    | some c => if c > emitCap then some emitCap else some c
    | none => some emitCap
  else limited

/-- Whether `n` collected rows reach the cap. -/
def reached (cap : Option Nat) (n : Nat) : Bool := cap.any (· ≤ n)

/-- What a scan has collected, the last first, and the keys DISTINCT has seen. -/
structure Collected (α : Type) where
  items : List α := []
  seen : StrSet := ∅

def Collected.add {α : Type} (distinct : Bool) (key : Bytes) (a : α) (c : Collected α) :
    Collected α :=
  if distinct then
    if key ∈ c.seen then c else ⟨a :: c.items, c.seen.insert key ()⟩
  else { c with items := a :: c.items }

/-- The state a loop leaves, or its error. -/
def loopResult {σ ε : Type} : σ × Option ε → Except ε σ
  | (s, none) => .ok s
  | (_, some e) => .error e

namespace Table

/-! ## Rows -/

def selectKey (q : Query) (key : Bytes) (t : Table) : Result :=
  let found :=
    match t.fastPos[key]? with
    | some i =>
      match t.fast[i]? with
      | some r => if r.key = [] then [] else [selectedFastValues r.values q.names t.fastColumns]
      | none => []
    | none =>
      match t.rows[key]? with
      | some row => [selectedValues row q.names]
      | none => []
  { columns := q.names
    rows := applyOffset q.tail.offset (if q.tail.limit = some 0 then [] else found) }

def fastMatches (q : Query) (term : Option FastTerm) (compiled : CompiledCondition)
    (values : List Value) (t : Table) : Bool :=
  match term with
  | some term => matchFastTerm values term
  | none => q.tail.cond = [] || compiled.matchesFast values t.fastColumns

/-- One fast row of a scan; the cap is looked at after each row that meets the condition. -/
def fastScanStep (q : Query) (cap : Option Nat) (term : Option FastTerm)
    (compiled : CompiledCondition) (t : Table) (c : Collected (List Value)) (row : FastRow) :
    Ctl (Collected (List Value)) Fault :=
  if row.key = [] then .next c
  else if !t.fastMatches q term compiled row.values then .next c
  else
    let line := selectedFastValues row.values q.names t.fastColumns
    let c := c.add q.distinct (rowProjectionKey line) line
    if reached cap c.items.length then .stop c else .next c

def selectFast (env : Env) (q : Query) (cap : Option Nat) (term : Option FastTerm)
    (compiled : CompiledCondition) (t : Table) : Except Fault Result :=
  if q.tail.limit = some 0 then .ok { columns := q.names }
  else do
    let c ← loopResult
      (rangeLoop env.scanTick (t.fastScanStep q cap term compiled) 0 t.fast {})
    capResultRows env.maxRows
      { columns := q.names, rows := applyOffset q.tail.offset c.items.reverse }

/-- The projected cells of a key, from its fast row where there is one. -/
def lineOf (names : List Bytes) (key : Bytes) (t : Table) : List Value :=
  match t.fastAt key with
  | some r => selectedFastValues r.values names t.fastColumns
  | none => selectedValues (t.rows.getD key ∅) names

/-- Collects a key, unless DISTINCT has seen its row. -/
def addKey (q : Query) (key : Bytes) (t : Table) (c : Collected Bytes) : Collected Bytes :=
  c.add q.distinct (rowProjectionKey (t.lineOf q.names key)) key

def bucketMatches (column : Bytes) (term : Option FastTerm) (compiled : CompiledCondition)
    (key : Bytes) (t : Table) : Bool :=
  match term with
  | some term =>
    match t.fastAt key with
    | some r => matchFastTerm r.values term
    | none =>
      match t.rows[key]? with
      | some row => conditionValueEqual (row.get column) term.expected
      | none => false
  | none =>
    match t.rows[key]? with
    | some row => compiled.matchesMap row
    | none => false

/-- The keys of an index bucket, in the order of map iteration. -/
def bucket (env : Env) (column value : Bytes) (t : Table) : List Bytes :=
  env.order.range (((t.indexes.getD column ∅).getD value ∅))

def bucketStep (q : Query) (cap : Option Nat) (column : Bytes) (term : Option FastTerm)
    (compiled : CompiledCondition) (t : Table) (c : Collected Bytes) (key : Bytes) :
    Ctl (Collected Bytes) Fault :=
  if q.tail.orderColumn = [] ∧ reached cap c.items.length then .stop c
  else if t.bucketMatches column term compiled key then .next (t.addKey q key c)
  else .next c

/-- One key of a scan of `order`; the cap is looked at after a key that is collected. -/
def orderStep (q : Query) (cap : Option Nat) (compiled : CompiledCondition) (t : Table)
    (c : Collected Bytes) (key : Bytes) : Ctl (Collected Bytes) Fault :=
  match t.rows[key]? with
  | none => .next c
  | some row =>
    if q.tail.cond ≠ [] ∧ !compiled.matchesMap row then .next c
    else
      let c' := t.addKey q key c
      -- a row that DISTINCT has seen does not reach the check of the cap
      if c'.items.length = c.items.length then .next c
      else if q.tail.orderColumn = [] ∧ reached cap c'.items.length then .stop c'
      else .next c'

/-- The lines of the collected keys. The cap is looked at after each line, so a cap of 0 lets one
line through. -/
def materialize (q : Query) (cap : Option Nat) (keys : List Bytes) (t : Table) :
    List (List Value) :=
  let lines := keys.map fun key => t.lineOf q.names key
  match cap with
  | some c => lines.take (max c 1)
  | none => lines

def orderedKeys (env : Env) (q : Query) (cap : Option Nat) (keys : List Bytes) (t : Table) :
    Except Fault (List Bytes) :=
  if q.tail.orderColumn = [] then .ok keys
  else
    match env.ctx .sort with
    | some e => .error (.error (.context e))
    | none =>
      orderKeys env t keys q.tail.orderColumn q.tail.descending (if q.distinct then none else cap)

/-- Orders, cuts and projects the collected keys. -/
def finishKeys (env : Env) (q : Query) (cap : Option Nat) (keys : List Bytes) (t : Table) :
    Except Fault Result := do
  let keys ← t.orderedKeys env q cap keys
  let keys :=
    match cap with
    | some c => if q.distinct then keys else keys.take c
    | none => keys
  capResultRows env.maxRows
    { columns := q.names, rows := applyOffset q.tail.offset (t.materialize q cap keys) }

/-- The compiled condition, unless a bare equality on the fast array makes it unnecessary. -/
def compileFor (q : Query) (term : Option FastTerm) (t : Table) : Except Fault CompiledCondition :=
  if q.tail.cond ≠ [] ∧ (term = none ∨ q.tail.orderColumn ≠ []) then
    match compileCondition q.tail.cond t.columns with
    | some c => .ok c
    | none => .error (fault "invalid WHERE expression")
  else .ok []

def selectBucket (env : Env) (q : Query) (cap : Option Nat) (column value : Bytes)
    (term : Option FastTerm) (compiled : CompiledCondition) (t : Table) : Except Fault Result := do
  let c ← loopResult (rangeLoop env.scanTick (t.bucketStep q cap column term compiled) 0
    (t.bucket env column value) {})
  t.finishKeys env q cap c.items.reverse

/-- A SELECT that scans `order`. -/
def selectOrder (env : Env) (q : Query) (cap : Option Nat) (compiled : CompiledCondition)
    (t : Table) : Except Fault Result := do
  let c ← loopResult (rangeLoop env.scanTick (t.orderStep q cap compiled) 0 t.order {})
  t.finishKeys env q cap c.items.reverse

def simpleKey (cond : Bytes) (t : Table) : Option (Bytes × Bytes) :=
  (simpleEquality cond).map fun p => (p.1, t.equalityKey p.1 p.2)

def selectPlain (env : Env) (q : Query) (t : Table) : Except Fault Result :=
  let cap := rowCap env.maxRows q.tail.limit q.tail.offset
  let simple := t.simpleKey q.tail.cond
  match simple.filter (·.1 = t.primaryColumn) with
  | some (_, key) => .ok (t.selectKey q key)
  | none => do
    let term := if t.fast = [] then none else simpleFastTerm q.tail.cond t
    let compiled ← t.compileFor q term
    match simple.filter (·.1 ∈ t.indexes) with
    | some (column, value) => t.selectBucket env q cap column value term compiled
    | none =>
      if t.fast ≠ [] ∧ q.tail.orderColumn = [] then t.selectFast env q cap term compiled
      else t.selectOrder env q cap compiled

end Table

/-! ## Aggregates -/

inductive AggKind where
  | count
  | sum
  | min
  | max
  | avg
  deriving DecidableEq

/-- The running state of an aggregate; `ext` is the least or greatest value so far. -/
structure AggCell where
  count : Nat := 0
  total : Float64 := Float64.ofInt 0
  ext : Value := .null

/-- Enters one row. `star` is `COUNT(*)`, which counts rows; the others skip NULL. The message of a
cell that is not numeric starts with `name`. -/
def AggCell.step (kind : AggKind) (star : Bool) (name : Bytes) (v : Value) (c : AggCell) :
    Except Fault AggCell :=
  if star then .ok { c with count := c.count + 1 }
  else if v = .null then .ok c
  else
    match kind with
    | .count => .ok { c with count := c.count + 1 }
    | .sum | .avg =>
      match numeric v with
      | none => .error (.error (.text (name ++ str " requires numeric values")))
      | some x => .ok { c with count := c.count + 1, total := Float64.add c.total x }
    | .min => .ok (if c.ext = .null ∨ valueLess v c.ext then { c with ext := v } else c)
    | .max => .ok (if c.ext = .null ∨ valueLess c.ext v then { c with ext := v } else c)

def AggCell.value (c : AggCell) : AggKind → Value
  | .count => .count c.count
  | .sum => .float c.total
  | .avg => if c.count = 0 then .null else .float (Float64.div c.total (Float64.ofInt c.count))
  | .min | .max => c.ext

def aggregateKind (expression : Bytes) : Option AggKind :=
  let s := trimSpace expression
  if hasPrefixFold s (str "COUNT(") then some .count
  else if hasPrefixFold s (str "SUM(") then some .sum
  else if hasPrefixFold s (str "MIN(") then some .min
  else if hasPrefixFold s (str "MAX(") then some .max
  else if hasPrefixFold s (str "AVG(") then some .avg
  else none

def oneCell (name : Bytes) (v : Value) : Result := { columns := [name], rows := [[v]] }

namespace Table

def countIndexEquality (env : Env) (column value : Bytes) (term : Option FastTerm)
    (compiled : CompiledCondition) (t : Table) : Except Fault Nat :=
  loopResult (rangeLoop env.scanTick
    (fun n key => .next (if t.bucketMatches column term compiled key then n + 1 else n)) 0
    (t.bucket env column value) 0)

def aggregateStep (kind : AggKind) (star : Bool) (name : Bytes) (matched : Bool) (v : Value)
    (c : AggCell) : Ctl AggCell Fault :=
  if !matched then .next c
  else
    match c.step kind star name v with
    | .ok c' => .next c'
    | .error f => .fail f

/-- The scan of an aggregate, over the fast array or over `order`. A cell that a fast row lacks is
NULL here and a panic in the source. -/
def aggregateScan (env : Env) (kind : AggKind) (star : Bool) (name column cond : Bytes)
    (compiled : CompiledCondition) (t : Table) : Except Fault AggCell :=
  if t.fast ≠ [] then
    if !star ∧ column ∉ t.fastColumns then .error (fault "column not found")
    else
      let term := simpleFastTerm cond t
      loopResult (rangeLoop env.scanTick (fun c (row : FastRow) =>
        if row.key = [] then .next c
        else
          let matched := cond = [] ||
            match term with
            | some term => matchFastTerm row.values term
            | none => compiled.matchesFast row.values t.fastColumns
          aggregateStep kind star name matched
            (row.values.getD (t.fastColumns.getD column 0) .null) c) 0 t.fast {})
  else
    loopResult (rangeLoop env.scanTick (fun c key =>
      match t.rows[key]? with
      | none => .next c
      | some row =>
        aggregateStep kind star name (cond = [] || compiled.matchesMap row) (row.get column) c)
      0 t.order {})

def aggregateResult (env : Env) (kind : AggKind) (expression cond : Bytes) (t : Table) :
    Except Fault Result := do
  let name := toLower (trimSpace expression)
  match indexByte (ch '(') expression, lastIndexByte (ch ')') expression with
  | some opening, some closing =>
    if closing ≤ opening then .error (fault "invalid aggregate")
    else
      let column := toLower (trimSpace (slice expression (opening + 1) closing))
      let star := kind = .count ∧ column = str "*"
      if column = str "*" ∧ ¬ star then
        .error (fault "invalid aggregate: only COUNT(*) supports *")
      else if column ≠ str "*" ∧ !hasColumn t.columns column then
        .error (faultWith "column not found: " column)
      else
        match compileCondition cond t.columns with
        | none => .error (fault "invalid WHERE expression")
        | some compiled =>
          let scan := do
            let c ← t.aggregateScan env kind star name column cond compiled
            .ok (oneCell name (c.value kind))
          if ¬ star then scan
          else if cond = [] then .ok (oneCell name (.count t.rows.size))
          else
            match t.simpleKey cond with
            | none => scan
            | some (column, value) =>
              if column = t.primaryColumn then
                .ok (oneCell name (.count (if value ∈ t.rows then 1 else 0)))
              else if column ∈ t.indexes then do
                let n ← t.countIndexEquality env column value (simpleFastTerm cond t) compiled
                .ok (oneCell name (.count n))
              else scan
  | _, _ => .error (fault "invalid aggregate")

end Table

end SuperDB.Engine
