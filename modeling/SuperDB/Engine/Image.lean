import SuperDB.Engine.Database
import SuperDB.Go.Utf8

/-!
# Images of a database

A snapshot has the tables of a database with their names, columns, rows, order lists, index names
and indexed columns. `UnmarshalJSON` takes over such tables once they are decoded, and builds the
rest anew. Of the JSON between the two there is what it does not carry: values that have no text,
and bytes that are not UTF-8. Numbers are read back as they were written.
-/

namespace SuperDB.Engine

open Go

def Value.finite : Value → Bool
  | .float x => x.isFinite
  | _ => true

/-- The rows of an image in the order in which they are written. -/
def imageRows (image : Map Table) : List (List Value) :=
  image.toList.flatMap fun p => p.2.rows.toList.map fun q => q.2.toList.map (·.2)

/-- Whether `json.Marshal` accepts the image. -/
def encodable (image : Map Table) : Bool := (imageRows image).all (·.all Value.finite)

/-- What the JSON decoder says of an image that is not accepted. The encoder loses what it has
written when it meets a cell that has no text, so what is left begins at the last such cell. -/
def invalidCharacter (image : Map Table) : Bytes :=
  let row := ((imageRows image).filter fun row => !row.all Value.finite).getLast?.getD []
  str "invalid character '" ++ str (if row.getLast?.all Value.finite then "," else "\x7d") ++
    str "' after top-level value"

/-! ## Texts -/

def Value.wire : Value → Value
  | .text s => .text (toValidUTF8 s)
  | v => v

def Table.wire (t : Table) : Table :=
  { t with
    name := toValidUTF8 t.name
    columns := t.columns.map fun c => { c with name := toValidUTF8 c.name }
    rows := Map.wire (t.rows.map fun _ row => Map.wire (row.map fun _ v => v.wire))
    order := t.order.map toValidUTF8
    indexes := t.indexes.wire
    indexNames := Map.wire (t.indexNames.map fun _ column => toValidUTF8 column) }

/-- The tables that an encoded image has; bytes that are not UTF-8 do not survive. -/
def wireImage (image : Map Table) : Map Table := Map.wire (image.map fun _ t => t.wire)

def Value.texts : Value → List Bytes
  | .text s => [s]
  | _ => []

/-- The texts of an encoded table. -/
def Table.texts (t : Table) : List Bytes :=
  t.name :: t.columns.map (·.name) ++ t.order ++ t.indexes.keys ++
    (t.indexNames.toList.flatMap fun p => [p.1, p.2]) ++
    t.rows.toList.flatMap fun p => p.1 :: p.2.toList.flatMap fun c => c.1 :: c.2.texts

def imageTexts (image : Map Table) : List Bytes :=
  image.toList.flatMap fun p => p.1 :: p.2.texts

/-- Whether every text of the image is valid UTF-8. -/
def validTexts (image : Map Table) : Bool := (imageTexts image).all fun s => toValidUTF8 s = s

/-! ## Restoring -/

namespace Table

def relist (t : Table) (order : List Bytes) (key : Bytes) : List Bytes :=
  if t.rows.contains key && !order.contains key then order ++ [key] else order

/-- The order list of a decoded table. Rows that it does not list are put behind, in the order of
map iteration. -/
def restoredOrder (env : Env) (t : Table) : List Bytes :=
  let order := t.order.foldl t.relist []
  order ++ (env.order.range t.rows).filter fun key => !order.contains key

def restoredIndex (env : Env) (t : Table) (column : Bytes) : Map StrSet :=
  (env.order.range t.rows).foldl
    (fun index key => addToIndex index (valueKey ((t.rows.getD key ∅).get column)) key) ∅

/-- A decoded table as `UnmarshalJSON` leaves it. -/
def restored (env : Env) (t : Table) : Table :=
  rebuildFastPathLocked env
    { name := t.name
      columns := t.columns
      rows := t.rows
      order := t.restoredOrder env
      indexes := t.indexes.map fun column _ => t.restoredIndex env column
      indexNames := t.indexNames }

end Table

/-- `UnmarshalJSON` into a new database. -/
def Database.restored (env : Env) (image : Map Table) : Database :=
  { tables := image.map fun _ t => t.restored env, revision := 1 }

end SuperDB.Engine
