import SuperDB.Engine.Group
import SuperDB.Engine.Mutate

/-!
# Reading statements

What each statement does before it locks anything to change it: it splits its text, looks its table
up and resolves names, literals and conditions. The outcome is a `Stmt`; running one is the
business of `Engine.Database`.
-/

namespace SuperDB.Engine

open Go

/-- A statement after its text has been read against a database. -/
inductive Stmt where
  | create (name : Bytes) (columns : List Column)
  | dropTable (name : Bytes) (ifExists : Bool)
  /-- an operation on the table stored under `name` -/
  | table (name : Bytes) (op : TableOp)
  | reply (r : Result)

def Database.table (db : Database) (name : Bytes) : Except Fault Table :=
  match db.tables[toLower name]? with
  | some t => .ok t
  | none => .error (fault "table not found")

/-- Whether a text starts with an upper-case word that no identifier byte continues. -/
def startsWithWord (s word : Bytes) : Bool := hasPrefixFold s word && boundary (s.drop word.length)

/-! ## CREATE TABLE and ALTER TABLE -/

def parseType (word : Bytes) : Option ColType :=
  let w := toUpper word
  if w = str "INT" then some .int
  else if w = str "FLOAT" then some .float
  else if w = str "TEXT" then some .text
  else if w = str "BOOL" then some .bool
  else none

/-- The columns of a CREATE TABLE, after those already read. -/
def parseColumns : List Column → List Bytes → Except Fault (List Column)
  | cols, [] => .ok cols
  | cols, part :: parts =>
    match fields part with
    | name :: type :: flags =>
      if hasColumn cols (toLower name) then .error (fault "duplicate column")
      else
        match parseType type with
        | none => .error (fault "invalid column type")
        | some typ =>
          let primary := flags.any (equalFold · (str "PRIMARY"))
          if primary && hasPrimaryColumn cols then .error (fault "multiple primary keys")
          else parseColumns (cols ++ [⟨toLower name, typ, primary⟩]) parts
    | _ => .error (fault "invalid column")

def createStmt (s : Bytes) : Except Fault Stmt :=
  match indexByte (ch '(') s, lastIndexByte (ch ')') s with
  | some a, some z =>
    if z < a then .error (fault "invalid CREATE TABLE")
    else
      match fields (s.take a) with
      | _ :: _ :: name :: _ => do
        let cols ← parseColumns [] ((slice s (a + 1) z).splitOn (ch ','))
        .ok (.create (toLower name) cols)
      | _ => .error (fault "invalid table name")
  | _, _ => .error (fault "invalid CREATE TABLE")

def Database.onTable (db : Database) (name : Bytes) (op : TableOp) : Except Fault Stmt := do
  let _ ← db.table name
  .ok (.table (toLower name) op)

def dropOperand : List Bytes → Option Bytes
  | [] => none
  | w :: l =>
    match (if equalFold w (str "COLUMN") then l else w :: l) with
    | [column] => some column
    | _ => none

def Database.alterTableStmt (db : Database) (s : Bytes) : Except Fault Stmt :=
  let unsupported : Except Fault Stmt :=
    .error (fault "only ALTER TABLE ... ADD COLUMN or DROP COLUMN is supported")
  match fields s with
  | _ :: _ :: name :: verb :: rest =>
    if equalFold verb (str "DROP") then
      match dropOperand rest with
      | some column => db.onTable name (.dropColumn (toLower column))
      | none => .error (fault "invalid ALTER TABLE ... DROP COLUMN")
    else
      match rest with
      | [word, column, type] =>
        if equalFold verb (str "ADD") && equalFold word (str "COLUMN") then do
          let _ ← db.table name
          match parseType type with
          | some typ =>
            if toLower column = [] then .error (fault "invalid column name or type")
            else .ok (.table (toLower name) (.addColumn (toLower column) typ))
          | none => .error (fault "invalid column name or type")
        else unsupported
      | _ => unsupported
  | _ => unsupported

/-! ## CREATE INDEX, DROP and TRUNCATE -/

/-- The text between ON and the parenthesis is cut out without a look at which comes first: where
the parenthesis does, the source panics. -/
def Database.createIndexStmt (db : Database) (s : Bytes) : Except Fault Stmt :=
  let invalid : Except Fault Stmt := .error (fault "invalid CREATE INDEX")
  match indexKeyword s (str "ON"), indexByte (ch '(') s, lastIndexByte (ch ')') s with
  | some on, some opening, some closing =>
    if closing ≤ opening then invalid
    else if opening < on + 2 then .error .panic
    else
      let indexName := trimSpace (slice s 12 on)
      let tableName := trimSpace (slice s (on + 2) opening)
      let column := toLower (trimSpace (slice s (opening + 1) closing))
      if indexName = [] ∨ tableName = [] ∨ column = [] ∨ ch ',' ∈ column then invalid
      else db.onTable tableName (.createIndex (toLower indexName) column)
  | _, _, _ => invalid

def dropTableStmt (s : Bytes) : Except Fault Stmt :=
  let rest := trimSpace (s.drop 10)
  let ifExists := startsWithWord rest (str "IF EXISTS")
  let name := toLower (if ifExists then trimSpace (rest.drop 9) else rest)
  if name = [] ∨ name.any isBlankByte then .error (fault "invalid DROP TABLE")
  else .ok (.dropTable name ifExists)

def Database.dropIndexStmt (db : Database) (s : Bytes) : Except Fault Stmt :=
  let rest := trimSpace (s.drop 10)
  match indexKeyword rest (str "ON") with
  | none => .error (fault "invalid DROP INDEX")
  | some on =>
    let indexName := toLower (trimSpace (rest.take on))
    let tableName := trimSpace (rest.drop (on + 2))
    if indexName = [] ∨ tableName = [] ∨ (fields indexName).length ≠ 1 ∨
        (fields tableName).length ≠ 1 then .error (fault "invalid DROP INDEX")
    else db.onTable tableName (.dropIndex indexName)

def Database.dropStmt (db : Database) (s : Bytes) : Except Fault Stmt :=
  if hasPrefixFold s (str "DROP TABLE") then dropTableStmt s else db.dropIndexStmt s

def Database.truncateStmt (db : Database) (s : Bytes) : Except Fault Stmt :=
  let rest := trimSpace (s.drop 8)
  let rest := if startsWithWord rest (str "TABLE") then trimSpace (rest.drop 5) else rest
  match fields rest with
  | [name] => db.onTable name .truncate
  | _ => .error (fault "invalid TRUNCATE")

/-! ## SELECT -/

/-- The select expression without DISTINCT, and whether it was there. -/
def splitDistinct (selectExpr : Bytes) : Except Fault (Bytes × Bool) :=
  let blankAfter := match selectExpr.drop 8 with
    | [] => true
    | a :: _ => isBlankByte a
  if hasPrefixFold selectExpr (str "DISTINCT") && blankAfter then
    let expr := trimSpace (selectExpr.drop 8)
    if expr = [] then .error (fault "SELECT DISTINCT requires columns") else .ok (expr, true)
  else .ok (selectExpr, false)

def Table.selectTable (env : Env) (selectExpr : Bytes) (distinct : Bool) (tail : SelectTail)
    (t : Table) : Except Fault Result :=
  if tail.groupBy ≠ [] then t.groupedResult env selectExpr tail distinct
  else if tail.orderColumn ≠ [] ∧ !hasColumn t.columns tail.orderColumn then
    .error (faultWith "ORDER BY column not found: " tail.orderColumn)
  else
    match aggregateKind selectExpr with
    | some kind => do
      let r ← t.aggregateResult env kind selectExpr tail.cond
      .ok (if tail.limit = some 0 ∨ 0 < tail.offset then { r with rows := [] } else r)
    | none =>
      let names :=
        if selectExpr = str "*" then t.columns.map (·.name)
        else (selectExpr.splitOn (ch ',')).map fun x => toLower (trimSpace x)
      match names.find? (!hasColumn t.columns ·) with
      | some name => .error (faultWith "column not found: " name)
      | none => t.selectPlain env ⟨names, distinct, tail⟩

def Database.selectRows (env : Env) (db : Database) (s : Bytes) : Except Fault Result :=
  match indexKeyword s (str "FROM") with
  | none => .error (fault "SELECT requires FROM")
  | some fi => do
    let rest := trimSpace (s.drop (fi + 4))
    match firstField rest with
    | none => .error (fault "table required")
    | some name =>
      let t ← db.table name
      let (selectExpr, distinct) ← splitDistinct (trimSpace (slice s 6 fi))
      let tail ← parseSelectTail rest
      if (fields (rest.take tail.headEnd)).length ≠ 1 then .error (fault "invalid FROM clause")
      else t.selectTable env selectExpr distinct tail

/-! ## INSERT -/

/-- Builds a row from the cells of its columns; the key is that of the primary column. -/
def fillRow {α : Type} (conv : α → ColType → Except Fault Value) :
    List (Column × α) → Row → Bytes → Except Fault (Row × Bytes)
  | [], row, key => .ok (row, key)
  | (c, x) :: l, row, key => do
    let v ← conv x c.type
    fillRow conv l (row.insert c.name v) (if c.primary then valueKey v else key)

def buildRow {α : Type} (conv : α → ColType → Except Fault Value) (columns : List Column)
    (cells : List α) : Except Fault InsertRow := do
  let (row, key) ← fillRow conv (columns.zip cells) ∅ []
  if key = [] ∧ hasPrimaryColumn columns then .error (fault "primary key required")
  else .ok ⟨key, row⟩

def flushRow (columns : List Column) (keepLast : Bool) (rows : List InsertRow)
    (vals : List Bytes) : Except Fault (List InsertRow) :=
  if vals.length ≠ columns.length then .error (fault "column count mismatch")
  else do
    let item ← buildRow parseVal columns vals
    if item.key ≠ [] ∧ !keepLast ∧ rows.any (·.key == item.key) then
      .error (fault "duplicate primary key")
    else .ok (rows ++ [item])

/-- The state of the VALUES parser: the depth of parentheses, whether a row is being read, its
values, the value being read in reverse, and the rows so far. -/
structure RowScan where
  depth : Int := 0
  inRow : Bool := false
  vals : List Bytes := []
  cur : Bytes := []
  rows : List InsertRow := []

def RowScan.plainByte (columns : List Column) (keepLast : Bool) (a : UInt8) (st : RowScan) :
    Except Fault RowScan :=
  if a == ch '(' then
    if st.depth = 0 then .ok { st with depth := 1, inRow := true, vals := [], cur := [] }
    else .ok { st with depth := st.depth + 1, cur := a :: st.cur }
  else if a == ch ')' then
    if st.depth = 1 ∧ st.inRow then do
      let rows ← flushRow columns keepLast st.rows (st.vals ++ [st.cur.reverse])
      .ok { depth := 0, rows }
    else .ok { st with depth := st.depth - 1, cur := a :: st.cur }
  else if a == ch ',' ∧ st.inRow ∧ 1 ≤ st.depth then
    .ok { st with vals := st.vals ++ [st.cur.reverse], cur := [] }
  else .ok { st with cur := a :: st.cur }

def scanRows (columns : List Column) (keepLast : Bool) :
    Quote → RowScan → Bytes → Except Fault (List InsertRow)
  | _, st, [] => .ok st.rows
  | q, st, a :: s =>
    if q.plain a then do
      let st ← st.plainByte columns keepLast a
      scanRows columns keepLast (q.step a s) st s
    else scanRows columns keepLast (q.step a s) { st with cur := a :: st.cur } s

def parseInsertRowsMode (raw : Bytes) (columns : List Column) (keepLast : Bool) :
    Except Fault (List InsertRow) := do
  let rows ← scanRows columns keepLast .out {} (trimSpace raw)
  if rows.isEmpty then .error (fault "INSERT requires VALUES") else .ok rows

/-- Adapts a selected cell to a column. A double goes into an INT column if it is integral and at
most 2^63 in size; 2^63 itself wraps to the smallest integer, as the conversion does on amd64. -/
def coerceValue (v : Value) (typ : ColType) : Except Fault Value :=
  let mismatch : Except Fault Value := .error (fault "type mismatch")
  match v with
  | .null => .ok .null
  | v =>
    match typ with
    | .text => .ok (.text (sprint v))
    | .int =>
      match v with
      | .int n => .ok (.int n)
      | .float (.finite x) =>
        match Float64.toInt? x with
        | some n => if -2 ^ 63 ≤ n ∧ n ≤ 2 ^ 63 then .ok (.int (Int64.ofInt n)) else mismatch
        | none => mismatch
      | .text s =>
        match parseInt (trimSpace s) with
        | .ok n => .ok (.int n)
        | .error _ => mismatch
      | _ => mismatch
    | .float =>
      match v with
      | .int n => .ok (.float (Float64.ofInt n.toInt))
      | .float x => .ok (.float x)
      | .text s =>
        match parseFloat (trimSpace s) with
        | .ok x => .ok (.float x)
        | .error _ => mismatch
      | _ => mismatch
    | .bool =>
      match v with
      | .bool b => .ok (.bool b)
      | .text s =>
        match parseBool (trimSpace s) with
        | some b => .ok (.bool b)
        | none => mismatch
      | _ => mismatch

def selectedInsertRows (columns : List Column) (lines : List (List Value)) :
    Except Fault (List InsertRow) :=
  lines.mapM fun line =>
    buildRow coerceValue columns (columns.zipIdx.map fun p => line.getD p.2 .null)

/-- What follows INSERT [OR REPLACE], up to INTO: whether rows are replaced, and the text from
INTO on. -/
def insertBody (s : Bytes) : Except Fault (Bool × Bytes) :=
  let invalid : Except Fault (Bool × Bytes) := .error (fault "invalid INSERT")
  let body := trimSpace (s.drop 6)
  let check := fun replace (body : Bytes) =>
    if startsWithWord body (str "INTO") then .ok (replace, body) else invalid
  if startsWithWord body (str "OR") then
    let body := trimSpace (body.drop 2)
    if startsWithWord body (str "REPLACE") then check true (trimSpace (body.drop 7)) else invalid
  else check false body

def Database.insertSelectStmt (env : Env) (db : Database) (s : Bytes) (off start : Nat)
    (replace : Bool) : Except Fault Stmt :=
  match firstField (slice s off start) with
  | none => .error (fault "invalid INSERT")
  | some name => do
    let t ← db.table name
    let src ← db.selectRows env (trimSpace (s.drop start))
    if src.columns.length ≠ t.columns.length then .error (fault "column count mismatch")
    else
      let rows ← selectedInsertRows t.columns src.rows
      .ok (.table (toLower name) (.insert rows replace))

def Database.insertValuesStmt (db : Database) (s : Bytes) (off start : Nat) (replace : Bool) :
    Except Fault Stmt :=
  match firstField (slice s off start) with
  | none => .error (fault "invalid INSERT")
  | some name => do
    let t ← db.table name
    let rows ← parseInsertRowsMode (s.drop (start + 6)) t.columns replace
    .ok (.table (toLower name) (.insert rows replace))

def Database.insertStmt (env : Env) (db : Database) (s : Bytes) : Except Fault Stmt := do
  let (replace, body) ← insertBody s
  let off := s.length - body.length + 4
  match indexKeyword s (str "VALUES"), indexKeyword s (str "SELECT") with
  | none, none => .error (fault "INSERT requires VALUES or SELECT")
  | some vi, none => db.insertValuesStmt s off vi replace
  | none, some si => db.insertSelectStmt env s off si replace
  | some vi, some si =>
    if si < vi then db.insertSelectStmt env s off si replace
    else db.insertValuesStmt s off vi replace

/-! ## UPDATE and DELETE -/

/-- The condition of an UPDATE, read from the whole text if WHERE follows SET. -/
def updateWhere (wi : Option Nat) (s : Bytes) : Except Fault (Option MutationWhere) :=
  if wi.isSome then parseMutationWhere s else .ok none

def Database.updateStmt (db : Database) (s : Bytes) : Except Fault Stmt :=
  match indexKeyword s (str "SET") with
  | none => .error (fault "UPDATE requires SET")
  | some si =>
    match fields (s.take si) with
    | _ :: name :: _ => do
      let t ← db.table name
      let tail := s.drop (si + 3)
      let wi := indexKeyword tail (str "WHERE")
      match cut (ch '=') (trimSpace (match wi with | some i => tail.take i | none => tail)) with
      | none => .error (fault "invalid SET")
      | some (lhs, rhs) =>
        let col := toLower (trimSpace lhs)
        match t.columns.find? (·.name == col) with
        | none => .error (faultWith "column not found: " col)
        | some c =>
          let v ← parseVal rhs c.type
          let w ← updateWhere wi s
          let expected ← mutationExpected t.columns w
          .ok (.table (toLower name) (.update col v w expected))
    | _ => .error (fault "table required")

def Database.deleteStmt (db : Database) (s : Bytes) : Except Fault Stmt :=
  match firstField (trimSpace (s.drop 11)) with
  | none => .error (fault "invalid DELETE")
  | some name => do
    let t ← db.table name
    let w ← parseMutationWhere s
    let expected ← mutationExpected t.columns w
    .ok (.table (toLower name) (.delete w expected))

/-! ## SHOW and DESCRIBE -/

def typeName : ColType → Bytes
  | .int => str "INT"
  | .float => str "FLOAT"
  | .text => str "TEXT"
  | .bool => str "BOOL"

def Database.describeTable (db : Database) (name : Bytes) : Except Fault Result := do
  let t ← db.table name
  .ok
    { columns := [str "name", str "type", str "primary"]
      rows := t.columns.map fun c => [.text c.name, .text (typeName c.type), .bool c.primary] }

/-- The table of a trailing `FROM t`. -/
def fromOperand (rest : Bytes) : Option Bytes :=
  match fields rest with
  | [word, name] => if equalFold word (str "FROM") then some name else none
  | _ => none

/-- The name under which each index is listed: the name of a CREATE INDEX, the last one the map
iteration meets, or else the column. -/
def Table.indexName (env : Env) (t : Table) (column : Bytes) : Bytes :=
  let named := (env.order.range t.indexNames).filter fun n => t.indexNames[n]? = some column
  match named.getLast? with
  | some n => if n = [] then column else n
  | none => column

/-- The columns are listed in byte order, which is the order of the keys of a map. -/
def Database.showIndexes (env : Env) (db : Database) (rest : Bytes) : Except Fault Result :=
  match fromOperand rest with
  | none => .error (fault "invalid SHOW INDEX")
  | some name => do
    let t ← db.table name
    .ok
      { columns := [str "name", str "column"]
        rows := t.indexes.keys.map fun c => [.text (t.indexName env c), .text c] }

def Database.show (env : Env) (db : Database) (s : Bytes) : Except Fault Result :=
  let rest := trimSpace (s.drop 4)
  if startsWithWord rest (str "TABLES") then
    if trimSpace (rest.drop 6) ≠ [] then .error (fault "invalid SHOW TABLES")
    else .ok { columns := [str "table"], rows := db.tables.keys.map fun n => [.text n] }
  else if startsWithWord rest (str "COLUMNS") then
    match fromOperand (rest.drop 7) with
    | some name => db.describeTable name
    | none => .error (fault "invalid SHOW COLUMNS")
  else if startsWithWord rest (str "INDEXES") then db.showIndexes env (rest.drop 7)
  else if startsWithWord rest (str "INDEX") then db.showIndexes env (rest.drop 5)
  else .error (fault "unsupported SHOW")

def startsWithBlank (s word : Bytes) : Bool :=
  hasPrefixFold s word && ((s.drop word.length).head?.all isBlankByte)

def Database.describe (db : Database) (s : Bytes) : Except Fault Result :=
  let operand :=
    if startsWithBlank s (str "DESCRIBE") then some (s.drop 8)
    else if startsWithBlank s (str "DESC") then some (s.drop 4)
    else none
  match operand.map fields with
  | some [name] => db.describeTable name
  | _ => .error (fault "invalid DESCRIBE")

def Database.meta (env : Env) (db : Database) (s : Bytes) : Except Fault Result :=
  if hasPrefixFold s (str "SHOW") then db.show env s else db.describe s

end SuperDB.Engine
