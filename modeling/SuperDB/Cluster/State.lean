import SuperDB.Engine.Image
import SuperDB.Cluster.Ranges
import SuperDB.Storage.Format

/-!
# The replicated state machine

What a member does with a committed entry: it executes the statements of a write, unless the range
they were routed to has changed since, or it applies a range operation. Statements of a write that
succeeded as a whole are copied to the WAL. A snapshot holds the tables and the directory.
-/

namespace SuperDB.Cluster

open Go Engine

/-- A log entry. The numbers of a write are 0 if it is not bound to a range or a generation. -/
inductive Entry where
  | exec (sqls : List Bytes) (atomic : Bool) (rangeID generation : Nat)
  | range (op : Option RangeOp)
  | unknown

def Entry.wire : Entry → Entry
  | .exec sqls atomic rangeID generation =>
    .exec (sqls.map toValidUTF8) atomic rangeID generation
  | .range op => .range (op.map RangeOp.wire)
  | .unknown => .unknown

/-- The message of a result, ending with the text of an engine error if there is one. -/
structure Message where
  lead : Bytes := []
  cause : Option Error := none
  deriving DecidableEq

structure EntryResult where
  ok : Bool
  message : Message := {}
  affected : Nat := 0
  deriving DecidableEq

def refused (text : Bytes) : EntryResult := { ok := false, message := { lead := text } }

/-- What a member's runtime chooses for an entry: the environments of its statements and an order
of map iteration. -/
structure Choice where
  env : Nat → Env := fun _ => {}
  order : IdOrder := IdOrder.sorted

/-- The state machine of a member; `wal` are the records of the side copy. -/
structure ReplicatedState where
  db : Database := {}
  ranges : RangeStore := {}
  wal : List Bytes := []
  index : Nat := 0

/-- The statements of an entry from the `i`-th on: the rows affected, or the number of the
statement that failed. -/
def execAll (env : Nat → Env) : Nat → List Bytes → Database → Except (Nat × Fault) Nat × Database
  | _, [], db => (.ok 0, db)
  | i, sql :: l, db =>
    match db.execWithOptions (env i) sql with
    | (.error f, db') => (.error (i + 1, f), db')
    | (.ok r, db') => ((execAll env (i + 1) l db').1.map (r.affected + ·),
        (execAll env (i + 1) l db').2)

namespace ReplicatedState

/-- `appendWAL`; a batch with a statement that is too long is not written. -/
def appendWAL (sqls : List Bytes) (s : ReplicatedState) : ReplicatedState :=
  if sqls.any fun sql => Storage.maxPayloadSize < sql.length then s
  else { s with wal := s.wal ++ sqls }

def refusal (rangeID generation : Nat) (s : ReplicatedState) : Option EntryResult :=
  if rangeID = 0 then none
  else
    match s.ranges.byID rangeID with
    | .error e => some (refused e.text)
    | .ok r =>
      if generation ≠ 0 ∧ generation ≠ r.generation then
        some (refused (str "stale range generation: have " ++ decimal r.generation ++
          str " want " ++ decimal generation))
      else none

/-- `execLocked`; the process ends if a statement panics. -/
def execLocked (env : Nat → Env) (sqls : List Bytes) (atomic : Bool) (rangeID generation : Nat)
    (s : ReplicatedState) : Option (EntryResult × ReplicatedState) :=
  match s.refusal rangeID generation with
  | some r => some (r, s)
  | none =>
    let p := execAll env 0 sqls (if atomic then s.db.clone else s.db)
    match p.1 with
    | .error (_, .panic) => none
    | .error (i, .error e) =>
      some ({ ok := false,
              message := { lead := str "statement " ++ decimal i ++ str ": ", cause := some e } },
        if atomic then s else { s with db := p.2 })
    | .ok affected =>
      some ({ ok := true, affected },
        appendWAL sqls { s with db := if atomic then s.db.replaceFrom p.2 else p.2 })

/-- `rangeLocked`. -/
def rangeLocked (o : IdOrder) (op : Option RangeOp) (s : ReplicatedState) :
    EntryResult × ReplicatedState :=
  match op with
  | none => (refused (str "range entry without op"), s)
  | some op =>
    match s.ranges.applyOp o op with
    | .error e => (refused e, s)
    | .ok ranges => ({ ok := true }, { s with ranges })

/-- `applyCommitted`: the index advances whether or not the entry succeeds. -/
def applyCommitted (choice : Choice) (idx : Nat) (e : Entry) (s : ReplicatedState) :
    Option (EntryResult × ReplicatedState) :=
  match e with
  | .exec sqls atomic rangeID generation =>
    (s.execLocked choice.env sqls atomic rangeID generation).map
      fun p => (p.1, { p.2 with index := idx })
  | .range op =>
    let p := s.rangeLocked choice.order op
    some (p.1, { p.2 with index := idx })
  | .unknown => some (refused (str "unknown entry kind"), s)

/-- `fsm.Apply`: the data of a log record is an entry in JSON, or it cannot be decoded. -/
def apply (choice : Choice) (idx : Nat) (data : Except Bytes Entry) (s : ReplicatedState) :
    Option (EntryResult × ReplicatedState) :=
  match data with
  | .error e => some (refused (str "decode entry: " ++ e), s)
  | .ok e => s.applyCommitted choice idx e.wire

/-- Committed entries under their numbers, one after the other; the runtime of the member makes a
choice for each. -/
def applyAll (choice : Nat → Choice) :
    List (Nat × Entry) → ReplicatedState → Option (List EntryResult × ReplicatedState)
  | [], s => some ([], s)
  | (idx, e) :: l, s =>
    match s.apply (choice idx) idx (.ok e) with
    | none => none
    | some (r, s') => (applyAll choice l s').map fun p => (r :: p.1, p.2)

/-! ## Snapshots -/

end ReplicatedState

/-- `replicatedSnapshot`; the tables stand for their JSON. -/
structure Image where
  index : Nat
  db : Map Table
  ranges : List Range
  assign : Map Nat
  nextID : Nat

def Image.wire (i : Image) : Image :=
  { i with db := wireImage i.db, ranges := i.ranges.map Range.wire, assign := i.assign.wire }

/-- `restoreLocked`. -/
def RangeStore.restoreLocked (ranges : List Range) (assign : Map Nat) (nextID : Nat) : RangeStore :=
  let max := ranges.foldl (fun n r => max n r.id) 0
  { ranges := ranges.foldl (fun m r => m.insert r.id r) ∅
    assign := assign.keys.foldl (fun m t => m.insert t (assign.getD t 0)) ∅
    nextID :=
      let next := if nextID ≤ max then max + 1 else nextID
      if next = 0 then 1 else next }

namespace ReplicatedState

/-- `snapshot`. The engine hands out its text unchecked; the encoder of the whole image refuses it
if it is not JSON. -/
def snapshot (s : ReplicatedState) : Except Bytes Image :=
  if !encodable s.db.tables then
    .error (str "json: error calling MarshalJSON for type json.RawMessage: " ++
      invalidCharacter s.db.tables)
  else
    .ok { index := s.index, db := s.db.tables, ranges := s.ranges.all, assign := s.ranges.assign,
          nextID := s.ranges.nextID }

/-- `restore` of what `snapshot` has made. The decoder can refuse it only if names of columns have
become the same, which takes bytes that are not UTF-8. -/
def restore (env : Env) (image : Image) (s : ReplicatedState) : ReplicatedState :=
  { s with
    db := s.db.replaceFrom (Database.restored env image.wire.db)
    ranges := RangeStore.restoreLocked image.wire.ranges image.wire.assign image.wire.nextID
    index := image.wire.index }

/-! ## Restarts -/

/-- `runServer` in wal mode with a cluster address: it loads the snapshot file, if there is one, and
replays the WAL, each record in its own environment; then the state machine applies the log from its
first entry. A record that fails ends the process. -/
def restart (snapshot : Option Database) (records : List (Env × Bytes)) (choice : Nat → Choice)
    (log : List (Nat × Entry)) : Option (List EntryResult × ReplicatedState) :=
  match (snapshot.getD {}).replay records with
  | .error _ => none
  | .ok db => applyAll choice log { db, wal := records.map (·.2) }

end ReplicatedState

end SuperDB.Cluster
