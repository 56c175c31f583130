import SuperDB.Go.Map

/-!
# The membership registry

What a node knows of the other members of its cluster. The registry changes by health checks, by
the member lists that heartbeats carry from node to node, and by explicit removal, which leaves the
member behind in the state `removed`.
-/

namespace SuperDB.Cluster

open Go

/-- The last known health of a member; JSON may carry any other text. -/
inductive State where
  | alive
  | suspect
  | leaving
  | removed
  | other (text : Bytes)
  deriving DecidableEq

/-- A known node; times are numbers of nanoseconds. -/
structure Member where
  id : Bytes
  addr : Bytes
  state : State
  lastSeen : Int := 0
  version : Nat := 0
  region : Bytes := []
  deriving DecidableEq

/-- The registry of a node: every member is stored under its own ID. The version counters have 64
bits in the source; they are unbounded here. -/
structure Membership where
  members : Map Member := ∅
  self : Bytes
  version : Nat := 0
  keyed : ∀ (id : Bytes) (mb : Member), members[id]? = some mb → mb.id = id

namespace Membership

def put (mb : Member) (m : Membership) : Membership :=
  { m with
    members := m.members.insert mb.id mb
    keyed := by
      intro id mb' h
      rw [Map.get?_insert] at h
      split at h
      · next hid =>
        cases h
        exact hid
      · exact m.keyed id mb' h }

def bump (m : Membership) : Membership := { m with version := m.version + 1 }

/-- `NewMembership`: a registry that knows its own node only. -/
def new (now : Int) (selfID selfAddr : Bytes) : Membership :=
  put { id := selfID, addr := selfAddr, state := .alive, lastSeen := now, version := 1 }
    { self := selfID, keyed := fun _ _ h => by simp at h }

/-- Adds or updates a member from a full descriptor. A removed member only listens to descriptors
that call it alive. -/
def upsertMember (now : Int) (r : Member) (m : Membership) : Membership :=
  if r.id = [] ∨ r.addr = [] then m
  else
    match m.members[r.id]? with
    | none => (m.put { r with lastSeen := now }).bump
    | some existing =>
      if existing.state = .removed ∧ r.state ≠ .alive then m
      else
        let region := if r.region ≠ [] then r.region else existing.region
        if existing.version ≤ r.version then
          (m.put
            { existing with
              addr := r.addr, state := r.state, version := r.version, region, lastSeen :=
                now }).bump
        else m.put { existing with region, lastSeen := now }

/-- `Upsert` does the same with a descriptor that names no region. -/
def upsert (now : Int) (id addr : Bytes) (state : State) (version : Nat) (m : Membership) :
    Membership :=
  m.upsertMember now { id, addr, state, version }

/-- Enters the descriptors of a remote member list, except the one of the node itself. -/
def mergeBulk (now : Int) (remote : List Member) (m : Membership) : Membership :=
  remote.foldl (fun m r => if r.id = m.self then m else m.upsertMember now r) m

def markAlive (now : Int) (id : Bytes) (m : Membership) : Membership :=
  match m.members[id]? with
  | some mb => m.put { mb with state := .alive, lastSeen := now }
  | none => m

def markSuspect (id : Bytes) (m : Membership) : Membership :=
  match m.members[id]? with
  | some mb => if mb.state = .alive then m.put { mb with state := .suspect } else m
  | none => m

def remove (id : Bytes) (m : Membership) : Membership :=
  match m.members[id]? with
  | some mb => (m.put { mb with state := .removed }).bump
  | none => m

/-- A member that was not seen for longer than `after` becomes suspect. -/
def sweep (after now : Int) (self : Bytes) (mb : Member) : Member :=
  if mb.id = self ∨ mb.state ≠ .alive then mb
  else if after < now - mb.lastSeen then { mb with state := .suspect }
  else mb

theorem sweep_id (after now : Int) (self : Bytes) (mb : Member) :
    (sweep after now self mb).id = mb.id := by
  unfold sweep
  split_ifs <;> rfl

/-- Each round looks at one member only, so the order of map iteration does not matter. -/
def sweepSuspects (after now : Int) (m : Membership) : Membership :=
  { m with
    members := m.members.map fun _ mb => sweep after now m.self mb
    keyed := by
      intro id mb h
      rw [Map.get?_map] at h
      obtain ⟨mb', hmb', rfl⟩ := Option.map_eq_some_iff.1 h
      rw [sweep_id]
      exact m.keyed id mb' hmb' }

def addrOf (id : Bytes) (m : Membership) : Option Bytes :=
  match m.members[id]? with
  | some mb => if mb.state = .removed then none else some mb.addr
  | none => none

def list (o : MapOrder) (m : Membership) : List Member :=
  (o.range m.members).filterMap fun id => (m.members[id]?).filter (·.state ≠ .removed)

/-- A step of a registry after a removal: gossip from other nodes and health checks, each with the
time at which it happens. -/
inductive Step where
  | mergeBulk (remote : List Member)
  | upsert (id addr : Bytes) (state : State) (version : Nat)
  | upsertMember (r : Member)
  | markSuspect (id : Bytes)
  | sweepSuspects (after : Int)
  | markAlive (id : Bytes)

def step (m : Membership) : Int × Step → Membership
  | (now, .mergeBulk remote) => m.mergeBulk now remote
  | (now, .upsert id addr state version) => m.upsert now id addr state version
  | (now, .upsertMember r) => m.upsertMember now r
  | (_, .markSuspect id) => m.markSuspect id
  | (now, .sweepSuspects after) => m.sweepSuspects after now
  | (now, .markAlive id) => m.markAlive now id

def run (m : Membership) (l : List (Int × Step)) : Membership := l.foldl step m

end Membership

end SuperDB.Cluster
