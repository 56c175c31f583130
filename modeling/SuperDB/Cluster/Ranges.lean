import SuperDB.Go.Strconv
import SuperDB.Go.Unicode
import SuperDB.Go.Utf8

/-!
# The range directory

The directory of ranges and the table assignment that every member of a cluster keeps. It changes
by range operations, which a node computes from its own directory and which reach all members as
committed log entries, encoded in JSON; the callers of a node see the operations as splits, moves,
assignments and rebalancing.
-/

namespace SuperDB.Cluster

open Go

/-- `map[uint64]V`; the source's numbers have 64 bits, those here are unbounded. -/
abbrev IdMap (V : Type) := Std.ExtTreeMap Nat V compare

/-- An order in which `range` visits the numbers of a map. -/
structure IdOrder where
  perm : List Nat → List Nat
  perm_perm : ∀ l, (perm l).Perm l

/-- The keys of a map in the order of a `range` loop. -/
def IdOrder.range {V : Type} (o : IdOrder) (m : IdMap V) : List Nat := o.perm m.keys

def IdOrder.sorted : IdOrder := ⟨id, fun l => List.Perm.refl l⟩

/-! ## Errors -/

inductive Code where
  | notFound
  | unavailable
  | timeout
  | versionMismatch
  | noLeader
  | shutdown
  | invalidArgument
  | transport
  | rangeNotFound
  deriving DecidableEq

def Code.text : Code → Bytes
  | .notFound => str "not_found"
  | .unavailable => str "unavailable"
  | .timeout => str "timeout"
  | .versionMismatch => str "version_mismatch"
  | .noLeader => str "no_leader"
  | .shutdown => str "shutdown"
  | .invalidArgument => str "invalid_argument"
  | .transport => str "transport"
  | .rangeNotFound => str "range_not_found"

structure ClusterError where
  code : Code
  message : Bytes
  deriving DecidableEq

/-- `Error.Error`. -/
def ClusterError.text (e : ClusterError) : Bytes :=
  str "cluster " ++ e.code.text ++ str ": " ++ e.message

/-! ## Ranges -/

/-- A range of keys. IDs and generations are `uint64` in the source and unbounded here, which
is the same below `2 ^ 64`. -/
structure Range where
  id : Nat := 0
  startKey : Bytes := []
  endKey : Bytes := []
  replicas : List Bytes := []
  leader : Bytes := []
  generation : Nat := 0
  deriving DecidableEq

/-- Whether a key belongs to the range; an empty end key means unbounded above. -/
def Range.contains (r : Range) (key : Bytes) : Bool :=
  if key < r.startKey then false
  else if r.endKey ≠ [] ∧ r.endKey ≤ key then false
  else true

/-- The ranges by ID, the range that each table is on, and the next free ID. -/
structure RangeStore where
  ranges : IdMap Range := ∅
  assign : Map Nat := ∅
  nextID : Nat := 1

namespace RangeStore

def all (s : RangeStore) : List Range := s.ranges.keys.filterMap fun id => s.ranges[id]?

/-- The range owning a key, the first that the map iteration meets. -/
def lookup (o : IdOrder) (key : Bytes) (s : RangeStore) : Except ClusterError Range :=
  match (o.range s.ranges).findSome? fun id => (s.ranges[id]?).filter (·.contains key) with
  | some r => .ok r
  | none => .error ⟨.rangeNotFound, str "no range owns key"⟩

def notFound (id : Nat) : ClusterError :=
  ⟨.rangeNotFound, str "range " ++ decimal id ++ str " not found"⟩

def byID (id : Nat) (s : RangeStore) : Except ClusterError Range :=
  match s.ranges[id]? with
  | some r => .ok r
  | none => .error (notFound id)

/-- Replaces the ranges by those of another member, on joining. The assignment stays as it is. -/
def replaceBulk (ranges : List Range) (s : RangeStore) : RangeStore :=
  { s with
    ranges := ranges.foldl (fun m r => m.insert r.id r) ∅
    nextID := ranges.foldl (fun n r => max n r.id) 0 + 1 }

/-! ## Range operations -/

end RangeStore

/-- A range operation: the proposer computes the ranges, every member installs them as they are;
a range without a number gets one then. The base generations fence stale proposals. -/
structure RangeOp where
  ranges : List Range := []
  remove : List Nat := []
  assign : Map Nat := ∅
  unassign : List Bytes := []
  baseGenerations : IdMap Nat := ∅

def Range.wire (r : Range) : Range :=
  { r with
    startKey := toValidUTF8 r.startKey
    endKey := toValidUTF8 r.endKey
    replicas := r.replicas.map toValidUTF8
    leader := toValidUTF8 r.leader }

/-- An operation after a passage through JSON. -/
def RangeOp.wire (op : RangeOp) : RangeOp :=
  { op with
    ranges := op.ranges.map Range.wire
    assign := op.assign.wire
    unassign := op.unassign.map toValidUTF8 }

namespace RangeStore

def fence (op : RangeOp) (s : RangeStore) (id : Nat) : Option Bytes :=
  match s.ranges[id]? with
  | none => some (notFound id).text
  | some r =>
    let gen := op.baseGenerations.getD id 0
    if r.generation ≠ gen then
      some (str "stale range generation for " ++ decimal id ++ str ": have " ++
        decimal r.generation ++ str " want " ++ decimal gen)
    else none

def install (s : RangeStore) (r : Range) : RangeStore :=
  if r.id = 0 then
    { s with ranges := s.ranges.insert s.nextID { r with id := s.nextID }, nextID := s.nextID + 1 }
  else
    { s with
      ranges := s.ranges.insert r.id r
      nextID := if s.nextID ≤ r.id then r.id + 1 else s.nextID }

/-- `applyOp`: the fences first, in the order of map iteration, and then the changes. -/
def applyOp (o : IdOrder) (op : RangeOp) (s : RangeStore) : Except Bytes RangeStore :=
  match (o.range op.baseGenerations).findSome? (s.fence op) with
  | some e => .error e
  | none =>
    let s := { s with ranges := op.remove.foldl (fun m id => m.erase id) s.ranges }
    let s := op.ranges.foldl install s
    .ok
      { s with
        assign := op.unassign.foldl (fun m t => m.erase t)
          (op.assign.keys.foldl (fun m t => m.insert t (op.assign.getD t 0)) s.assign) }

/-! ## The calls of a node -/

/-- A committed entry with a range operation, on the leader that proposed it: the error of the
state machine comes back as one of the transport. -/
def proposeRange (o : IdOrder) (op : RangeOp) (s : RangeStore) :
    Except ClusterError Unit × RangeStore :=
  match s.applyOp o op.wire with
  | .ok s' => (.ok (), s')
  | .error e => (.error ⟨.transport, e⟩, s)

def genesisOp (nodeID : Bytes) : RangeOp :=
  { ranges := [{ id := 1, replicas := [nodeID], leader := nodeID, generation := 1 }] }

def genesis (nodeID : Bytes) : RangeStore := (proposeRange .sorted (genesisOp nodeID) {}).2

def tablesOn (id : Nat) (s : RangeStore) : List Bytes :=
  s.assign.keys.filter fun t => s.assign[t]? = some id

def childrenOf (splitKey : Bytes) (s : RangeStore) : List Range :=
  s.all.filter fun r => r.endKey = splitKey ∨ r.startKey = splitKey

def splitOp (rng : Range) (splitKey : Bytes) (id : Nat) : RangeOp :=
  { ranges :=
      [{ rng with id := 0, endKey := splitKey, generation := rng.generation + 1 },
        { rng with id := 0, startKey := splitKey, generation := rng.generation + 1 }]
    remove := [id]
    baseGenerations := (∅ : IdMap Nat).insert id rng.generation }

def splitAssign (leftTables onParent : List Bytes) (left right : Range) : Map Nat :=
  let m := leftTables.foldl (fun m t => m.insert (toLower t) left.id) (∅ : Map Nat)
  onParent.foldl (fun m t => if toLower t ∈ m then m else m.insert (toLower t) right.id) m

/-- The operation that assigns the tables of a range to its two parts. -/
def partsOp (leftTables onParent : List Bytes) (left right : Range) : RangeOp :=
  { assign := splitAssign leftTables onParent left right
    baseGenerations :=
      ((∅ : IdMap Nat).insert left.id left.generation).insert right.id right.generation }

/-- The second entry of a split: the tables are assigned to the two parts, once their numbers are
known. -/
def assignParts (o : IdOrder) (id : Nat) (splitKey : Bytes) (leftTables : List Bytes)
    (s : RangeStore) : Except ClusterError (Range × Range) × RangeStore :=
  match s.childrenOf splitKey with
  | [left, right] =>
    match s.proposeRange o (partsOp leftTables (s.tablesOn id) left right) with
    | (.error e, s) => (.error e, s)
    | (.ok (), s) => (.ok ((s.ranges[left.id]?).getD {}, (s.ranges[right.id]?).getD {}), s)
  | _ => (.error ⟨.transport, str "split did not yield two ranges"⟩, s)

/-- `SplitRange`. -/
def splitRange (o : IdOrder) (id : Nat) (splitKey : Bytes) (leftTables : List Bytes)
    (s : RangeStore) : Except ClusterError (Range × Range) × RangeStore :=
  match s.byID id with
  | .error e => (.error e, s)
  | .ok rng =>
    match s.proposeRange o (splitOp rng splitKey id) with
    | (.error e, s) => (.error e, s)
    | (.ok (), s) => s.assignParts o id splitKey leftTables

/-- The operation that gives a range new replicas; the leader stays if it is among them. -/
def moveOp (rng : Range) (replicas : List Bytes) (id : Nat) : RangeOp :=
  { ranges :=
      [{ rng with
          replicas
          leader := if replicas.contains rng.leader then rng.leader else replicas.headD rng.leader
          generation := rng.generation + 1 }]
    baseGenerations := (∅ : IdMap Nat).insert id rng.generation }

/-- `MoveRange`. -/
def moveRange (o : IdOrder) (id : Nat) (replicas : List Bytes) (s : RangeStore) :
    Except ClusterError Range × RangeStore :=
  match s.byID id with
  | .error e => (.error e, s)
  | .ok rng =>
    match s.proposeRange o (moveOp rng replicas id) with
    | (.error e, s) => (.error e, s)
    | (.ok (), s) => (s.byID id, s)

/-- The operation of `AssignTable`. -/
def assignOp (rng : Range) (table : Bytes) (id : Nat) : RangeOp :=
  { assign := (∅ : Map Nat).insert (toLower table) id
    baseGenerations := (∅ : IdMap Nat).insert id rng.generation }

def assignTable (o : IdOrder) (table : Bytes) (id : Nat) (s : RangeStore) :
    Except ClusterError Unit × RangeStore :=
  match s.byID id with
  | .error e => (.error e, s)
  | .ok rng => s.proposeRange o (assignOp rng table id)

/-- Whether two lists have the same entries, up to their order. -/
def sameStrings (a b : List Bytes) : Bool :=
  a.length == b.length && b.all fun t => b.count t ≤ a.count t

/-- The ranges that are not served by exactly the voters under the leader. -/
def unbalanced (voters : List Bytes) (leader : Bytes) (s : RangeStore) : List Range :=
  s.all.filter fun r => !(sameStrings r.replicas voters && r.leader == leader)

/-- The operation of `Rebalance`. -/
def rebalanceOp (voters : List Bytes) (leader : Bytes) (s : RangeStore) : RangeOp :=
  { ranges := (s.unbalanced voters leader).map fun r =>
      { r with replicas := voters, leader, generation := r.generation + 1 }
    baseGenerations :=
      (s.unbalanced voters leader).foldl (fun m r => m.insert r.id r.generation) ∅ }

/-- `Rebalance`: every range that is not served by exactly the voters under the leader gets them. -/
def rebalance (o : IdOrder) (voters : List Bytes) (leader : Bytes) (s : RangeStore) :
    Except ClusterError Unit × RangeStore :=
  if leader = [] then (.error ⟨.noLeader, str "no leader to rebalance toward"⟩, s)
  else if (s.unbalanced voters leader).isEmpty then (.ok (), s)
  else s.proposeRange o (rebalanceOp voters leader s)

inductive Call where
  | split (id : Nat) (splitKey : Bytes) (leftTables : List Bytes)
  | move (id : Nat) (replicas : List Bytes)
  | assign (table : Bytes) (id : Nat)
  | rebalance (voters : List Bytes) (leader : Bytes)

/-- The directory after a call, whatever it returns. -/
def after (s : RangeStore) : IdOrder × Call → RangeStore
  | (o, .split id splitKey leftTables) => (s.splitRange o id splitKey leftTables).2
  | (o, .move id replicas) => (s.moveRange o id replicas).2
  | (o, .assign table id) => (s.assignTable o table id).2
  | (o, .rebalance voters leader) => (s.rebalance o voters leader).2

def afterAll (s : RangeStore) (l : List (IdOrder × Call)) : RangeStore := l.foldl after s

end RangeStore

end SuperDB.Cluster
