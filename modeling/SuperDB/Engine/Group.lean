import SuperDB.Engine.Select

/-!
# GROUP BY

Rows that meet WHERE accumulate into groups in the order in which the groups appear. HAVING and
ORDER BY look at one row per group, made of the grouping columns and the aggregates under their
own text as names.
-/

namespace SuperDB.Engine

open Go

/-- An aggregate of a select list; without an argument it is `COUNT(*)`. -/
structure GroupAgg where
  name : Bytes
  kind : AggKind
  argIdx : Option Nat

inductive GroupItem where
  | column (name : Bytes)
  | agg (a : GroupAgg)

/-- The name under which an entry appears in the result and in the row of its group. -/
def GroupItem.name : GroupItem → Bytes
  | .column name => name
  | .agg a => a.name

def aggsOf (items : List GroupItem) : List GroupAgg :=
  items.filterMap fun item => match item with
    | .agg a => some a
    | .column _ => none

/-- The pieces of a select list, at the commas outside quotes and parentheses; `cur` is the piece
being read, in reverse. -/
def splitSelectListFrom : Quote → Int → Bytes → Bytes → List Bytes
  | _, _, cur, [] => [trimSpace cur.reverse]
  | q, depth, cur, a :: s =>
    if q.plain a && a == ch ',' && depth == 0 then
      trimSpace cur.reverse :: splitSelectListFrom q depth [] s
    else
      let depth :=
        if q.plain a && a == ch '(' then depth + 1
        else if q.plain a && a == ch ')' then depth - 1
        else depth
      splitSelectListFrom (q.step a s) depth (a :: cur) s

def splitSelectList (s : Bytes) : List Bytes := splitSelectListFrom .out 0 [] s

def aggWord (word : Bytes) : Option AggKind :=
  if word = str "COUNT" then some .count
  else if word = str "SUM" then some .sum
  else if word = str "MIN" then some .min
  else if word = str "MAX" then some .max
  else if word = str "AVG" then some .avg
  else none

def parseAggExpr (item : Bytes) : Option (AggKind × Bytes) := do
  let i ← indexByte (ch '(') item
  if (trimSpace item).getLast? ≠ some (ch ')') then none
  else
    let kind ← aggWord (toUpper (trimSpace (item.take i)))
    let arg := toLower (trimSpace (slice item (i + 1) (item.length - 1)))
    if arg = [] ∨ (arg = str "*" ∧ kind ≠ .count) then none else some (kind, arg)

def parseGroupItem (colIndex : Map Nat) (groupBy : List Bytes) (part : Bytes) :
    Except Fault GroupItem :=
  let p := trimSpace part
  if p = [] then .error (fault "invalid select list")
  else
    match parseAggExpr p with
    | some (kind, arg) =>
      if arg = str "*" then .ok (.agg ⟨toLower p, kind, none⟩)
      else
        match colIndex[arg]? with
        | some i => .ok (.agg ⟨toLower p, kind, some i⟩)
        | none => .error (faultWith "column not found: " arg)
    | none =>
      if groupBy.contains (toLower p) then .ok (.column (toLower p))
      else .error (faultWith "column must appear in GROUP BY: " (toLower p))

/-- A group: the values of the grouping columns and the state of each aggregate. -/
structure GroupAccum where
  gvals : List Value
  cells : List AggCell

/-- The groups by projection key, and the keys in the order of appearance, the last first. -/
structure Groups where
  groups : Map GroupAccum := ∅
  order : List Bytes := []

def Groups.accumulate (aggs : List GroupAgg) (gvals : List Value) (val : Nat → Value)
    (g : Groups) : Except Fault Groups := do
  let key := rowProjectionKey gvals
  let accum := g.groups.getD key ⟨gvals, aggs.map fun _ => {}⟩
  let cells ← (aggs.zip accum.cells).mapM fun p =>
    p.2.step p.1.kind p.1.argIdx.isNone p.1.name (p.1.argIdx.elim .null val)
  .ok
    { groups := g.groups.insert key { accum with cells }
      order := if key ∈ g.groups then g.order else key :: g.order }

def groupStep (aggs : List GroupAgg) (matched : Bool) (gvals : List Value) (val : Nat → Value)
    (g : Groups) : Ctl Groups Fault :=
  if !matched then .next g
  else
    match g.accumulate aggs gvals val with
    | .ok g' => .next g'
    | .error f => .fail f

/-- The scan of a grouped query, over the fast array or over `order`. A cell that a fast row lacks
is NULL here and a panic in the source. -/
def Table.groupScan (env : Env) (groupBy : List Bytes) (gIdx : List Nat) (aggs : List GroupAgg)
    (cond : Bytes) (compiled : CompiledCondition) (t : Table) : Except Fault Groups :=
  if t.fast ≠ [] then
    loopResult (rangeLoop env.scanTick (fun g (row : FastRow) =>
      if row.key = [] then .next g
      else
        let cell := fun i => row.values.getD i .null
        groupStep aggs (cond = [] || compiled.matchesFast row.values t.fastColumns)
          (gIdx.map cell) cell g) 0 t.fast {})
  else
    loopResult (rangeLoop env.scanTick (fun g key =>
      match t.rows[key]? with
      | none => .next g
      | some row =>
        groupStep aggs (cond = [] || compiled.matchesMap row) (groupBy.map row.get)
          (fun i => (t.columns[i]?).elim .null fun c => row.get c.name) g) 0 t.order {})

def synthColumns (columns : List Column) (groupBy : List Bytes) (gIdx : List Nat)
    (aggs : List GroupAgg) : List Column :=
  let typeAt := fun i => (columns[i]?).elim ColType.float (·.type)
  (groupBy.zip gIdx).map (fun p => ⟨p.1, typeAt p.2, false⟩) ++
    aggs.map fun a =>
      let type :=
        match a.kind with
        | .count => .int
        | .min | .max => a.argIdx.elim .float typeAt
        | .sum | .avg => .float
      ⟨a.name, type, false⟩

def GroupAccum.eval (groupBy : List Bytes) (aggs : List GroupAgg) (g : GroupAccum) : Row :=
  let row := (groupBy.zip g.gvals).foldl (fun m p => m.insert p.1 p.2) (∅ : Row)
  (aggs.zip g.cells).foldl (fun m p => m.insert p.1.name (p.2.value p.1.kind)) row

/-- ORDER BY over the rows of the groups; ties keep the order of appearance. -/
def groupBefore (column : Bytes) (descending : Bool) (a b : Row × Nat) : Bool :=
  if valueLess (a.1.get column) (b.1.get column) then !descending
  else if valueLess (b.1.get column) (a.1.get column) then descending
  else a.2 < b.2

def compileHaving (having : Bytes) (columns : List Column) :
    Except Fault (Option CompiledCondition) :=
  if having = [] then .ok none
  else
    match compileCondition having columns with
    | some c => .ok (some c)
    | none => .error (fault "invalid HAVING expression")

def orderGroups (env : Env) (tail : SelectTail) (columns : List Column)
    (evals : List (Row × Nat)) : Except Fault (List (Row × Nat)) :=
  if tail.orderColumn = [] then .ok evals
  else if !hasColumn columns tail.orderColumn then
    .error (faultWith "ORDER BY column not found: " tail.orderColumn)
  else .ok (env.sorter.sort (groupBefore tail.orderColumn tail.descending) evals)

def groupedLines (env : Env) (tail : SelectTail) (distinct : Bool) (items : List GroupItem)
    (columns : List Column) (groups : Groups) : Except Fault Result := do
  let aggs := aggsOf items
  let having ← compileHaving tail.having columns
  let evals := (groups.order.reverse.filterMap fun key => groups.groups[key]?).zipIdx.map
    fun p => (p.1.eval tail.groupBy aggs, p.2)
  let kept := evals.filter fun p => having.all fun c => c.matchesMap p.1
  let sorted ← orderGroups env tail columns kept
  let lines := sorted.map fun p => selectedValues p.1 (items.map (·.name))
  let unique := lines.foldl
    (fun (c : Collected (List Value)) line => c.add distinct (rowProjectionKey line) line) {}
  let rows := applyOffset tail.offset unique.items.reverse
  capResultRows env.maxRows
    { columns := items.map (·.name)
      rows := match tail.limit with | some n => rows.take n | none => rows }

def Table.groupedResult (env : Env) (selectExpr : Bytes) (tail : SelectTail) (distinct : Bool)
    (t : Table) : Except Fault Result := do
  let colIndex := columnPositions t.columns
  let gIdx ← tail.groupBy.mapM fun g =>
    match colIndex[g]? with
    | some i => .ok i
    | none => .error (faultWith "column not found: " g)
  let items ← (splitSelectList selectExpr).mapM (parseGroupItem colIndex tail.groupBy)
  match compileCondition tail.cond t.columns with
  | none => .error (fault "invalid WHERE expression")
  | some compiled =>
    let groups ← t.groupScan env tail.groupBy gIdx (aggsOf items) tail.cond compiled
    groupedLines env tail distinct items
      (synthColumns t.columns tail.groupBy gIdx (aggsOf items)) groups

end SuperDB.Engine
