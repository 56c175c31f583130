import SuperDB.Engine.FastPath
import SuperDB.Engine.Parser
import SuperDB.Go.Lists

/-!
# Loading images

`UnmarshalJSON` decodes an image with the numbers left as texts and takes nothing in it for granted:
rows and tables may be null, the order list may miss, repeat or invent keys, cells may hold
anything, and column types may be unknown. The model starts where the decoder of the library has
filled the fields of the tables. A decoded nil map reads like an empty one.
-/

namespace SuperDB.Engine

open Go

/-- A cell of a decoded row: a value, a number that has not been read, or an array or object, of
which only what `fmt.Sprint` prints is ever used. -/
inductive Cell where
  | value (v : Value)
  | number (text : Bytes)
  | composite (printed : Bytes)
  deriving DecidableEq

/-- `valueKey`. -/
def Cell.key : Cell → Bytes
  | .value v => valueKey v
  | .number text => text
  | .composite printed => printed

abbrev CellRow := Map Cell

/-- `row[column]`. -/
def CellRow.get (row : CellRow) (column : Bytes) : Cell := row.getD column (.value .null)

/-- A column as it is decoded; the type may be any text. -/
structure ImageColumn where
  name : Bytes
  type : Bytes
  primary : Bool := false
  deriving DecidableEq

/-- A table as it is decoded; a row may be null. -/
structure ImageTable where
  name : Bytes := []
  columns : List ImageColumn := []
  rows : Map (Option CellRow) := ∅
  order : List Bytes := []
  indexes : Map (Map StrSet) := ∅
  indexNames : Map Bytes := ∅

/-- A table as `UnmarshalJSON` leaves it. -/
structure LoadedTable where
  name : Bytes
  columns : List ImageColumn
  rows : Map CellRow
  order : List Bytes
  indexes : Map (Map StrSet)
  indexNames : Map Bytes
  fast : List (Bytes × List Cell) := []
  fastColumns : Map Nat := ∅
  fastPos : Map Nat := ∅
  dead : Nat := 0
  fastDead : Nat := 0
  autoKey : Nat := 0

/-- The text of an error, ending with that of an error of `parseVal` if there is one. -/
structure LoadError where
  lead : Bytes
  cause : Option Fault := none
  deriving DecidableEq

/-! ## Rows -/

def storedType (text : Bytes) : Option ColType :=
  if text = str "INT" then some .int
  else if text = str "FLOAT" then some .float
  else if text = str "TEXT" then some .text
  else if text = str "BOOL" then some .bool
  else none

/-- `parseVal` for a type that may be unknown. -/
def readNumber (text type : Bytes) : Except Fault Value :=
  match storedType type with
  | some type => parseVal text type
  | none =>
    if equalFold (trimSpace text) (str "NULL") then .ok .null else .error (fault "unknown type")

def retype (table : Bytes) (row : CellRow) (c : ImageColumn) : Except LoadError CellRow :=
  match row.get c.name with
  | .number text =>
    match readNumber text c.type with
    | .error f =>
      .error { lead := str "restore " ++ table ++ str "." ++ c.name ++ str ": ", cause := some f }
    | .ok v => .ok (row.insert c.name (.value v))
  | _ => .ok row

def readRow (table : Bytes) (columns : List ImageColumn) (rows : Map (Option CellRow))
    (key : Bytes) :
    Except LoadError CellRow :=
  match rows.getD key none with
  | none => .error { lead := str "invalid row in " ++ table }
  | some row => columns.foldlM (retype table) row

def readRows (o : MapOrder) (table : Bytes) (columns : List ImageColumn)
    (rows : Map (Option CellRow)) : Except LoadError (Map CellRow) :=
  (o.range rows).foldlM
    (fun read key => (readRow table columns rows key).map fun row => read.insert key row) ∅

/-! ## Tables -/

/-- The order list: the listed keys that have a row, then the rows that are not listed, in the order
of map iteration. -/
def loadedOrder (o : MapOrder) (rows : Map CellRow) (order : List Bytes) : List Bytes :=
  let listed := order.foldl (relistBy (rows.contains ·)) []
  listed ++ (o.range rows).filter fun key => !listed.contains key

def loadedIndex (o : MapOrder) (rows : Map CellRow) (column : Bytes) : Map StrSet :=
  (o.range rows).foldl (fun index key => addToIndex index ((rows.getD key ∅).get column).key key) ∅

def fastPathThreshold : Nat := 256

namespace LoadedTable

def fastRows (t : LoadedTable) : List (Bytes × List Cell) :=
  t.order.filterMap fun key =>
    t.rows[key]?.map fun row => (key, t.columns.map fun c => row.get c.name)

/-- `rebuildFastPathLocked`. -/
def rebuildFast (t : LoadedTable) : LoadedTable :=
  if t.order.length < fastPathThreshold then
    { t with fast := [], fastColumns := ∅, fastPos := ∅, fastDead := 0 }
  else
    { t with
      fast := t.fastRows
      fastColumns := positions (·.name) t.columns
      fastPos := positions (·.1) t.fastRows
      fastDead := 0 }

end LoadedTable

/-- A table with its rows read, before the fast array is built. -/
def ImageTable.opened (o : MapOrder) (t : ImageTable) (rows : Map CellRow) : LoadedTable :=
  { name := t.name
    columns := t.columns
    rows := rows
    order := loadedOrder o rows t.order
    indexes := t.indexes.map fun column _ => loadedIndex o rows column
    indexNames := t.indexNames }

/-- The loop body of `UnmarshalJSON`. -/
def ImageTable.load (o : MapOrder) (name : Bytes) (t : ImageTable) : Except LoadError LoadedTable :=
  (readRows o name t.columns t.rows).map fun rows => (t.opened o rows).rebuildFast

def loadTable (o : MapOrder) (name : Bytes) : Option ImageTable → Except LoadError LoadedTable
  | none => .error { lead := str "invalid table " ++ name }
  | some t => t.load o name

/-- `UnmarshalJSON` of a decoded image: the tables that it publishes. `o` orders the tables and
`rowOrder` the rows of each of them. -/
def loadImage (o : MapOrder) (rowOrder : Bytes → MapOrder) (image : Map (Option ImageTable)) :
    Except LoadError (Map LoadedTable) :=
  (o.range image).foldlM
    (fun loaded name =>
      (loadTable (rowOrder name) name (image.getD name none)).map fun t => loaded.insert name t) ∅

end SuperDB.Engine
