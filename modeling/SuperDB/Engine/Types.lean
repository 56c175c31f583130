import SuperDB.Go.Strconv
import SuperDB.Go.Loop
import SuperDB.Go.Sort
import SuperDB.Go.Unicode

/-!
# Values, tables and databases

The data model of the engine, field by field. The maps `columns` and `fastPos` of a table that Go
may leave nil are empty here, since reading the two is the same. Locks are left out: a statement
runs as one step.
-/

namespace SuperDB.Engine

open Go

inductive ColType where
  | int
  | float
  | text
  | bool
  deriving DecidableEq

structure Column where
  name : Bytes
  type : ColType
  primary : Bool := false
  deriving DecidableEq

/-- A cell. `count` is the Go `int` that `COUNT` returns, which is a different dynamic type from
the `int64` of an INT column. -/
inductive Value where
  | null
  | int (n : Int64)
  | float (x : Float64)
  | text (s : Bytes)
  | bool (b : Bool)
  | count (n : Nat)
  deriving DecidableEq

/-- A stored row; a missing column reads as NULL. -/
abbrev Row := Map Value

/-- `row[column]`. -/
def Row.get (row : Row) (column : Bytes) : Value := row.getD column .null

/-- An entry of the fast row array; the empty key marks a tombstone. -/
structure FastRow where
  key : Bytes
  values : List Value
  deriving DecidableEq

structure Table where
  name : Bytes
  columns : List Column
  rows : Map Row := ∅
  order : List Bytes := []
  /-- column, value, then the keys of the rows with that value -/
  indexes : Map (Map StrSet) := ∅
  /-- each `CREATE INDEX` name and the column it indexes -/
  indexNames : Map Bytes := ∅
  fast : List FastRow := []
  /-- the positions of the columns in the fast rows (the source's `columns`) -/
  fastColumns : Map Nat := ∅
  fastPos : Map Nat := ∅
  /-- stale keys left in `order` by primary-key deletes -/
  dead : Nat := 0
  /-- tombstones in `fast` -/
  fastDead : Nat := 0
  /-- the next synthetic key of a table without a primary key -/
  autoKey : Nat := 0

structure Database where
  tables : Map Table := ∅
  /-- counts the published writes; a `uint64` in the source -/
  revision : Nat := 0
  /-- the revision a clone was taken at -/
  baseRevision : Nat := 0

structure Result where
  columns : List Bytes := []
  rows : List (List Value) := []
  affected : Nat := 0
  message : Bytes := []
  deriving DecidableEq

/-- What `ctx.Err()` reports. -/
inductive CtxErr where
  | canceled
  | deadlineExceeded
  deriving DecidableEq

/-- The functions of `strconv` whose errors a statement passes on. -/
inductive NumFunc where
  | parseInt
  | parseFloat
  | parseBool
  deriving DecidableEq

inductive Error where
  | text (message : Bytes)
  /-- a `*strconv.NumError`: the function, its argument and the reason -/
  | num (fn : NumFunc) (arg : Bytes) (e : NumErr)
  /-- wraps `ErrResultTooLarge` -/
  | resultTooLarge (rows limit : Nat)
  | context (e : CtxErr)
  deriving DecidableEq

/-- A statement that does not return a result returns an error or panics. -/
inductive Fault where
  | error (e : Error)
  | panic
  deriving DecidableEq

/-- `errors.New`. -/
def fault (message : String) : Fault := .error (.text (str message))

/-- `fmt.Errorf` of a message with one string appended. -/
def faultWith (message : String) (arg : Bytes) : Fault := .error (.text (str message ++ arg))

def Table.primaryColumn (t : Table) : Bytes :=
  match t.columns.find? (·.primary) with
  | some c => c.name
  | none => []

def hasPrimaryColumn (columns : List Column) : Bool := columns.any (·.primary)

def hasColumn (columns : List Column) (name : Bytes) : Bool := columns.any (·.name == name)

def valueKey : Value → Bytes
  | .int n => formatInt n.toInt
  | .float x => formatFloat x
  | .text s => s
  | .bool b => if b then str "true" else str "false"
  | .null => str "NULL"
  | .count n => decimal n

/-- `fmt.Sprint` of a cell. -/
def sprint : Value → Bytes
  | .null => str "<nil>"
  | v => valueKey v

/-! ## Contexts and environments -/

/-- The places where a statement looks at its context: on entry, once the locks are held, at the
`n`-th row of a scan, before sorting, and at the `n`-th row of the check that precedes an insert. -/
inductive Poll where
  | entry
  | locked
  | scan (n : Nat)
  | sort
  | apply (n : Nat)

/-- A context: what it reports where it is looked at. -/
abbrev Context := Poll → Option CtxErr

def Context.background : Context := fun _ => none

/-- `rowTicker.tick`: only the first and every 64th call look at the context. The counter has 32
bits. -/
def tick (poll : Nat → Option CtxErr) (n : Nat) : Option Fault :=
  if n % 2 ^ 32 = 1 ∨ n % 64 = 0 then (poll n).map fun e => .error (.context e) else none

/-- What a statement depends on besides the database and its text: the context, the order of map
iteration, the sorting algorithm, the row cap (0 for none) and the number of rows from which a
table has a fast row array (`none` for never). -/
structure Env where
  ctx : Context := Context.background
  order : MapOrder := MapOrder.sorted
  sorter : Sorter := Sorter.merge
  maxRows : Nat := 0
  threshold : Option Nat := some 256

def Env.scanTick (env : Env) : Nat → Option Fault := tick fun n => env.ctx (.scan n)

def Env.applyTick (env : Env) : Nat → Option Fault := tick fun n => env.ctx (.apply n)

/-- Whether `n` is below the fast-path threshold. -/
def Env.below (env : Env) (n : Nat) : Bool :=
  match env.threshold with
  | some k => n < k
  | none => true

/-- A context that is cancelled nowhere. -/
def Env.Live (env : Env) : Prop := ∀ p, env.ctx p = none

theorem tick_none {poll : Nat → Option CtxErr} (h : ∀ n, poll n = none) (n : Nat) :
    tick poll n = none := by
  unfold tick
  split
  · rw [h n]
    rfl
  · rfl

theorem tick_ne_panic {poll : Nat → Option CtxErr} {n : Nat} {f : Fault}
    (h : tick poll n = some f) : f ≠ .panic := by
  unfold tick at h
  split at h
  · obtain ⟨e, -, rfl⟩ := Option.map_eq_some_iff.1 h
    simp
  · cases h

theorem Env.Live.scanTick {env : Env} (h : env.Live) (n : Nat) : env.scanTick n = none :=
  tick_none (fun n => h (.scan n)) n

theorem Env.Live.applyTick {env : Env} (h : env.Live) (n : Nat) : env.applyTick n = none :=
  tick_none (fun n => h (.apply n)) n

end SuperDB.Engine
