import SuperDB.Engine.FastPath
import SuperDB.Engine.Parser

/-!
# The operations on one table

What INSERT, UPDATE, DELETE, ALTER TABLE, TRUNCATE, CREATE INDEX and DROP INDEX do to a table once
their text has been read: the part of each statement that runs under the table's lock. An
operation returns its reply and the table it leaves, which after a cancelled scan is a partly
changed one.
-/

namespace SuperDB.Engine

open Go

/-- A row to be inserted, with its key; the empty key asks for a synthetic one. -/
structure InsertRow where
  key : Bytes
  row : Row

namespace Table

/-! ## INSERT -/

/-- One round of the duplicate check of a plain INSERT; the state holds the keys of the batch. -/
def checkInsertRow (t : Table) (batch : StrSet) (item : InsertRow) : Ctl StrSet Fault :=
  if item.key = [] then .next batch
  else if item.key ∈ t.rows ∨ item.key ∈ batch then .fail (fault "duplicate primary key")
  else .next (batch.insert item.key ())

def appendRow (env : Env) (key : Bytes) (row : Row) (t : Table) : Table :=
  let t := { t with rows := t.rows.insert key row, order := t.order ++ [key] }
  (t.addRowIndexes row key).appendFastRowLocked env key row

/-- Replaces the row `old` of a key, which keeps its place in `order`. -/
def replaceRow (key : Bytes) (old row : Row) (t : Table) : Table :=
  let t := t.removeRowIndexes old key
  let t := { t with rows := t.rows.insert key row }
  (t.addRowIndexes row key).replaceFastRowLocked key row

def applyInsertRow (env : Env) (replace : Bool) (t : Table) (item : InsertRow) : Table :=
  let p := if item.key = [] then t.nextSyntheticKeyLocked else (item.key, t)
  match (if replace then p.2.rows[p.1]? else none) with
  | some old => p.2.replaceRow p.1 old item.row
  | none => p.2.appendRow env p.1 item.row

def applyInsertRows (env : Env) (rows : List InsertRow) (replace : Bool) (t : Table) :
    Except Fault Result × Table :=
  match (if replace then none else (rangeLoop env.applyTick t.checkInsertRow 0 rows ∅).2) with
  | some f => (.error f, t)
  | none =>
    let t := if 0 < t.dead then t.reclaimOrder env else t
    (.ok { affected := rows.length }, rows.foldl (applyInsertRow env replace) t)

/-! ## UPDATE -/

/-- Changes one cell of a stored row, with its index entries and its fast row. -/
def setCell (key column : Bytes) (v : Value) (t : Table) : Table :=
  match t.rows[key]? with
  | none => t
  | some row =>
    let t := t.removeIndexValue column (valueKey (row.get column)) key
    let t := t.addIndexValue column (valueKey v) key
    let t := { t with rows := t.rows.insert key (row.insert column v) }
    t.updateFastRowLocked key column v

def rekeyPrimaryLocked (oldKey : Bytes) (newVal : Value) (t : Table) :
    Except Fault Result × Table :=
  let newKey := valueKey newVal
  if newKey = oldKey then (.ok { affected := 1 }, t.setCell oldKey t.primaryColumn newVal)
  else if newKey ∈ t.rows then (.error (fault "duplicate primary key"), t)
  else
    let row := t.rows.getD oldKey ∅
    let moved := row.insert t.primaryColumn newVal
    let t := t.removeRowIndexes row oldKey
    let t :=
      { t with
        rows := (t.rows.erase oldKey).insert newKey moved
        order := t.order.replace oldKey newKey }
    let t := t.addRowIndexes moved newKey
    (.ok { affected := 1 }, t.rekeyFastRowLocked oldKey newKey newVal)

/-- The keys of the rows that meet a condition, in the order of map iteration. -/
def matchingKeys (env : Env) (w : Option MutationWhere) (expected : Expected) (t : Table) :
    List Bytes :=
  (env.order.range t.rows).filter fun key => mutationMatches w expected (t.rows.getD key ∅)

/-- SET on the primary column under a condition that is not an equality with it. -/
def updatePrimaryMultiLocked (env : Env) (w : Option MutationWhere) (expected : Expected)
    (v : Value) (t : Table) : Except Fault Result × Table :=
  match t.matchingKeys env w expected with
  | [] => (.ok {}, t)
  | [key] =>
    if valueKey v ∈ t.rows ∧ valueKey v ≠ key then (.error (fault "duplicate primary key"), t)
    else t.rekeyPrimaryLocked key v
  | _ => (.error (fault "duplicate primary key"), t)

def updateRow (column : Bytes) (v : Value) (w : Option MutationWhere) (expected : Expected)
    (s : Table × Nat) (key : Bytes) : Table × Nat :=
  if mutationMatches w expected (s.1.rows.getD key ∅) then (s.1.setCell key column v, s.2 + 1)
  else s

def updateScan (env : Env) (column : Bytes) (v : Value) (w : Option MutationWhere)
    (expected : Expected) (t : Table) : Except Fault Result × Table :=
  match rangeLoop env.scanTick (fun s key => .next (updateRow column v w expected s key)) 0
      (env.order.range t.rows) (t, 0) with
  | (s, some f) => (.error f, s.1)
  | (s, none) => (.ok { affected := s.2 }, s.1)

/-- Whether a condition is an equality with the primary column, which is answered by a lookup. -/
def onPrimaryKey (t : Table) : Option MutationWhere → Option Bytes
  | some w => if w.column = t.primaryColumn ∧ w.op = .eq then some w.value else none
  | none => none

def update (env : Env) (column : Bytes) (v : Value) (w : Option MutationWhere)
    (expected : Expected) (t : Table) : Except Fault Result × Table :=
  let isPKUpdate := column = t.primaryColumn ∧ t.primaryColumn ≠ []
  match t.onPrimaryKey w with
  | some key =>
    if key ∈ t.rows then
      if isPKUpdate then t.rekeyPrimaryLocked key v
      else (.ok { affected := 1 }, t.setCell key column v)
    else (.ok {}, t)
  | none =>
    if isPKUpdate then t.updatePrimaryMultiLocked env w expected v
    else t.updateScan env column v w expected

/-! ## DELETE -/

/-- Removes a row with its index entries and its fast row; `order` keeps the key. -/
def removeRow (env : Env) (key : Bytes) (row : Row) (t : Table) : Table :=
  let t := t.removeRowIndexes row key
  ({ t with rows := t.rows.erase key }).removeFastRowLocked env key

/-- A DELETE by primary key leaves a stale key in `order`. -/
def deleteKey (env : Env) (key : Bytes) (row : Row) (t : Table) : Table :=
  let t := t.removeRowIndexes row key
  let t := { t with rows := t.rows.erase key, dead := t.dead + 1 }
  ((t.removeFastRowLocked env key).compactOrderLocked env).rebuildIfSparse env

/-- The state of a scanning DELETE: the table, the keys kept so far and the removed rows. The
source keeps them in the front of the slice it is reading. -/
structure DeleteScan where
  table : Table
  remaining : List Bytes := []
  removed : Nat := 0

def deleteRow (env : Env) (w : Option MutationWhere) (expected : Expected) (s : DeleteScan)
    (key : Bytes) : DeleteScan :=
  match s.table.rows[key]? with
  | none => s
  | some row =>
    if mutationMatches w expected row then
      { s with table := s.table.removeRow env key row, removed := s.removed + 1 }
    else { s with remaining := s.remaining ++ [key] }

/-- A DELETE that looks at every row. Left early, it has overwritten the front of `order` with the
keys kept so far. -/
def deleteScan (env : Env) (w : Option MutationWhere) (expected : Expected) (t : Table) :
    Except Fault Result × Table :=
  match rangeLoop env.scanTick (fun s key => .next (deleteRow env w expected s key)) 0 t.order
      { table := t } with
  | (s, some f) =>
    (.error f,
      { s.table with order := s.remaining ++ s.table.order.drop s.remaining.length })
  | (s, none) =>
    (.ok { affected := s.removed },
      ({ s.table with order := s.remaining, dead := 0 }).rebuildIfSparse env)

def delete (env : Env) (w : Option MutationWhere) (expected : Expected) (t : Table) :
    Except Fault Result × Table :=
  match t.onPrimaryKey w with
  | some key =>
    match t.rows[key]? with
    | some row => (.ok { affected := 1 }, t.deleteKey env key row)
    | none => (.ok {}, t)
  | none => t.deleteScan env w expected

/-! ## ALTER TABLE -/

/-- Applies a change to every row, one row after the other, until the context is cancelled. -/
def changeRows (env : Env) (change : Row → Row) (t : Table) : Table × Option Fault :=
  rangeLoop env.scanTick
    (fun (t : Table) key =>
      .next { t with rows := t.rows.insert key (change (t.rows.getD key ∅)) })
    0 (env.order.range t.rows) t

def refreshFast (env : Env) (t : Table) : Table :=
  if t.fast = [] then t else t.rebuildFastPathLocked env

def addColumn (env : Env) (name : Bytes) (type : ColType) (t : Table) :
    Except Fault Result × Table :=
  if hasColumn t.columns name then (.error (fault "column already exists"), t)
  else
    match changeRows env (fun row => row.insert name .null)
        { t with columns := t.columns ++ [⟨name, type, false⟩] } with
    | (t, some f) => (.error f, t)
    | (t, none) => (.ok { message := str "column added" }, t.refreshFast env)

def forgetIndex (column : Bytes) (t : Table) : Table :=
  { t with
    indexes := t.indexes.erase column
    indexNames := t.indexNames.filter fun _ c => c != column }

def dropColumn (env : Env) (column : Bytes) (t : Table) : Except Fault Result × Table :=
  if t.columns.length ≤ 1 then (.error (fault "cannot drop the only column"), t)
  else
    match t.columns.findIdx? (·.name == column) with
    | none => (.error (faultWith "column not found: " column), t)
    | some i =>
      match changeRows env (fun row => row.erase column)
          { t with columns := t.columns.eraseIdx i } with
      | (t, some f) => (.error f, t)
      | (t, none) =>
        (.ok { message := str "column dropped" }, (t.forgetIndex column).refreshFast env)

/-! ## TRUNCATE and indexes -/

def truncate (t : Table) : Except Fault Result × Table :=
  (.ok { message := str "table truncated" },
    { t.clearFast with
      rows := ∅
      order := []
      indexes := t.indexes.map fun _ _ => ∅
      dead := 0
      autoKey := 0 })

def buildIndex (env : Env) (column : Bytes) (t : Table) : Map StrSet × Option Fault :=
  rangeLoop env.scanTick
    (fun index key =>
      .next (addToIndex index (valueKey ((t.rows.getD key ∅).get column)) key))
    0 (env.order.range t.rows) ∅

def createIndex (env : Env) (indexName column : Bytes) (t : Table) : Except Fault Result × Table :=
  if !hasColumn t.columns column then (.error (faultWith "column not found: " column), t)
  else if column ∈ t.indexes then (.error (fault "index already exists for column"), t)
  else if indexName ∈ t.indexNames then (.error (fault "index name already exists"), t)
  else
    match t.buildIndex env column with
    | (_, some f) => (.error f, t)
    | (index, none) =>
      (.ok { message := str "index created" },
        { t with
          indexes := t.indexes.insert column index
          indexNames := t.indexNames.insert indexName column })

def dropIndex (indexName : Bytes) (t : Table) : Except Fault Result × Table :=
  match t.indexNames[indexName]? with
  | some column => (.ok { message := str "index dropped" }, t.forgetIndex column)
  | none =>
    if indexName ∈ t.indexes then
      (.ok { message := str "index dropped" }, t.forgetIndex indexName)
    else (.error (faultWith "index not found: " indexName), t)

end Table

/-- An operation on a table, with everything read from the text of its statement. -/
inductive TableOp where
  | insert (rows : List InsertRow) (replace : Bool)
  | update (column : Bytes) (v : Value) (w : Option MutationWhere) (expected : Expected)
  | delete (w : Option MutationWhere) (expected : Expected)
  | addColumn (name : Bytes) (type : ColType)
  | dropColumn (column : Bytes)
  | truncate
  | createIndex (indexName column : Bytes)
  | dropIndex (indexName : Bytes)

def TableOp.run (env : Env) (t : Table) : TableOp → Except Fault Result × Table
  | .insert rows replace => t.applyInsertRows env rows replace
  | .update column v w expected => t.update env column v w expected
  | .delete w expected => t.delete env w expected
  | .addColumn name type => t.addColumn env name type
  | .dropColumn column => t.dropColumn env column
  | .truncate => t.truncate
  | .createIndex indexName column => t.createIndex env indexName column
  | .dropIndex indexName => t.dropIndex indexName

end SuperDB.Engine
