import SuperDB.Go.BucketIndex
import SuperDB.Go.Positions
import SuperDB.Engine.Types

/-!
# The fast row array and the indexes

Large tables keep their rows a second time in an array, `fast`, with a map from keys to positions.
The functions here maintain the array, the order list, the synthetic keys and the secondary
indexes; the operations of the following modules call them.
-/

namespace SuperDB.Engine

open Go

def rowValues (columns : List Column) (row : Row) : List Value :=
  columns.map fun c => row.get c.name

def columnPositions (columns : List Column) : Map Nat := positions (·.name) columns

def fastPositions (fast : List FastRow) : Map Nat := positions (·.key) fast

namespace Table

def clearFast (t : Table) : Table :=
  { t with fast := [], fastColumns := ∅, fastPos := ∅, fastDead := 0 }

/-- The fast rows of the live keys of `order`, in that order. -/
def fastRows (t : Table) : List FastRow :=
  t.order.filterMap fun key => t.rows[key]?.map fun row => ⟨key, rowValues t.columns row⟩

def rebuildFastPathLocked (env : Env) (t : Table) : Table :=
  if env.below t.order.length then t.clearFast
  else
    { t with
      fastColumns := columnPositions t.columns
      fast := t.fastRows
      fastPos := fastPositions t.fastRows
      fastDead := 0 }

/-- Adds the row just appended to `order`. -/
def appendFastRowLocked (env : Env) (key : Bytes) (row : Row) (t : Table) : Table :=
  if env.below t.order.length then t
  else if t.fast = [] ∨ t.fast.length + 1 ≠ t.order.length then t.rebuildFastPathLocked env
  else
    { t with
      fast := t.fast ++ [⟨key, rowValues t.columns row⟩]
      fastPos := t.fastPos.insert key t.fast.length }

def removeFastRowLocked (env : Env) (key : Bytes) (t : Table) : Table :=
  if t.fast = [] then t
  else if env.below t.order.length then t.clearFast
  else
    match t.fastPos[key]? with
    | some i =>
      { t with
        fast := t.fast.set i ⟨[], []⟩
        fastPos := t.fastPos.erase key
        fastDead := t.fastDead + 1 }
    | none => t

def replaceFastRowLocked (key : Bytes) (row : Row) (t : Table) : Table :=
  if t.fast = [] then t
  else
    match t.fastPos[key]? with
    | some i =>
      { t with fast := t.fast.modify i fun r => { r with values := rowValues t.columns row } }
    | none => t

/-- A column position beyond the cells, where the source panics, changes nothing. -/
def updateFastRowLocked (key column : Bytes) (value : Value) (t : Table) : Table :=
  if t.fast = [] then t
  else
    match t.fastColumns[column]?, t.fastPos[key]? with
    | some c, some i =>
      { t with fast := t.fast.modify i fun r => { r with values := r.values.set c value } }
    | _, _ => t

/-- As in `updateFastRowLocked`, the panic on a row without the primary cell is left out. -/
def rekeyFastRowLocked (oldKey newKey : Bytes) (value : Value) (t : Table) : Table :=
  if t.fast = [] then t
  else
    match t.fastPos[oldKey]? with
    | none => t
    | some i =>
      { t with
        fastPos := (t.fastPos.erase oldKey).insert newKey i
        fast := t.fast.modify i fun r =>
          { key := newKey
            values :=
              match t.fastColumns[t.primaryColumn]? with
              | some c => r.values.set c value
              | none => r.values } }

/-- The keys of `order` that have a row. -/
def liveOrder (t : Table) : List Bytes := t.order.filter (t.rows.contains ·)

/-- Drops the stale keys from `order` and rebuilds the fast array if there is one. -/
def reclaimOrder (env : Env) (t : Table) : Table :=
  let t := { t with order := t.liveOrder, dead := 0 }
  if t.fast = [] then t else t.rebuildFastPathLocked env

/-- Reclaims the stale keys of `order` once they are a quarter of it. -/
def compactOrderLocked (env : Env) (t : Table) : Table :=
  if t.order = [] then { t with dead := 0 }
  else if t.dead * 4 < t.order.length then t
  else t.reclaimOrder env

/-- Rebuilds a fast array with many tombstones, at the end of a DELETE. -/
def rebuildIfSparse (env : Env) (t : Table) : Table :=
  if t.fast ≠ [] ∧ t.fastDead * 4 ≥ t.fast.length + t.fastDead then t.rebuildFastPathLocked env
  else t

end Table

/-! ## Synthetic keys -/

/-- The key `#n`. -/
def syntheticKey (n : Nat) : Bytes := ch '#' :: decimal n

/-- The first number from `n` on whose key is not taken. Among `rows.size + 1` numbers one is
free, so the fuel never runs out before. -/
def nextSyntheticFrom (rows : Map Row) : Nat → Nat → Nat
  | 0, n => n
  | fuel + 1, n => if syntheticKey n ∈ rows then nextSyntheticFrom rows fuel (n + 1) else n

def Table.nextSyntheticKeyLocked (t : Table) : Bytes × Table :=
  let n := nextSyntheticFrom t.rows t.rows.size t.autoKey
  (syntheticKey n, { t with autoKey := n + 1 })

/-! ## Secondary indexes -/

namespace Table

def addIndexValue (t : Table) (column value key : Bytes) : Table :=
  match t.indexes[column]? with
  | none => t
  | some index => { t with indexes := t.indexes.insert column (addToIndex index value key) }

def removeIndexValue (t : Table) (column value key : Bytes) : Table :=
  match t.indexes[column]? with
  | none => t
  | some index => { t with indexes := t.indexes.insert column (removeFromIndex index value key) }

/-- Enters a row into every index. Each round changes the index of its own column only, so the
order of the columns does not matter. -/
def addRowIndexes (t : Table) (row : Row) (key : Bytes) : Table :=
  t.indexes.keys.foldl (fun t column => t.addIndexValue column (valueKey (row.get column)) key) t

def removeRowIndexes (t : Table) (row : Row) (key : Bytes) : Table :=
  t.indexes.keys.foldl (fun t column => t.removeIndexValue column (valueKey (row.get column)) key) t

end Table

end SuperDB.Engine
