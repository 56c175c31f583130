import Mathlib.Logic.Function.Basic
import SuperDB.Cluster.State

/-!
# Writes that are forwarded to the leader

A node that is not the leader forwards a write to the node that it takes for the leader, and once
more to another one if the first answers that it does not lead. What happens in a cluster between
these steps is a transition system: requests arrive late or never, nodes win and lose elections, the
entries of a leader are committed or discarded. Of Raft only the interface is modelled: an entry
that a leader has taken is committed at most once, and the `Apply` that has proposed it may fail
while that is still open.
-/

namespace SuperDB.Cluster

open Go Engine

/-! ## Raft's interface -/

/-- The errors of Raft's `Apply`. -/
inductive RaftError where
  | notLeader
  | leadershipLost
  | other (text : Bytes)

def raftApplyError : RaftError → ClusterError
  | .notLeader => ⟨.noLeader, str "not the leader"⟩
  | .leadershipLost => ⟨.noLeader, str "leadership lost during commit"⟩
  | .other text => ⟨.unavailable, text⟩

/-- The end of `raftNode.Apply` for an entry that has been committed: a result of the state machine
that is not OK is an error. -/
def applied (result : Except Bytes Unit) : Except ClusterError Unit :=
  match result with
  | .ok () => .ok ()
  | .error text => .error ⟨.transport, text⟩

/-! ## The handler of forwarded writes -/

/-- `forwardPayload`, without the flag of consistent reads. -/
structure Forward where
  sql : Bytes := []
  sqls : List Bytes := []
  atomic : Bool := false
  rangeID : Nat := 0

def Forward.wire (p : Forward) : Forward :=
  { p with sql := toValidUTF8 p.sql, sqls := p.sqls.map toValidUTF8 }

/-- What a handler does: it answers, or it proposes an entry. -/
inductive Served where
  | answer (r : Except ClusterError Unit)
  | propose (e : Entry)

/-- What the runtime of a node answers to a handler: the range in its directory, and the result of a
read. -/
structure Local where
  range : Except ClusterError Range
  read : Except Bytes Unit := .ok ()

/-- The handler of `KindForward` up to `Apply`. -/
def handleForward (isLeader : Bool) (leader : Bytes) (here : Local) (p : Forward) : Served :=
  let sqls := if p.sqls.isEmpty then [p.sql] else p.sqls
  if p.sqls.isEmpty ∧ p.sql = [] then
    .answer (.error ⟨.invalidArgument, str "forward requires sql"⟩)
  else if sqls.any isReadOnly then .answer (applied here.read)
  else if !isLeader then .answer (.error ⟨.noLeader, str "forward to leader " ++ leader⟩)
  else
    match here.range with
    | .ok r => .propose (.exec sqls p.atomic p.rangeID r.generation)
    | .error e =>
      if p.rangeID ≠ 0 then .answer (.error e) else .propose (.exec sqls p.atomic p.rangeID 0)

/-! ## Writes -/

/-- A call of `writeCommitted`: the node, the statements and the range they were routed to. -/
structure Write where
  node : Bytes
  sqls : List Bytes
  atomic : Bool
  rangeID : Nat

def Write.payload (w : Write) : Forward :=
  { sql := match w.sqls with
      | [sql] => sql
      | _ => []
    sqls := w.sqls
    atomic := w.atomic
    rangeID := w.rangeID }

/-- How far a request has come: on its way, handed to Raft, in the log of a leader, answered. A
request that is lost never reaches its handler. -/
inductive Stage where
  | sent
  | queued (e : Entry)
  | proposed (e : Entry)
  | answered (r : Except ClusterError Unit)
  | lost

/-- A request to a node; a leader makes its own writes in the same way, without the network. -/
structure Request where
  addr : Bytes
  stage : Stage

inductive Calling where
  | first
  | second
  | own
  deriving DecidableEq

/-- Where the code of `writeCommitted` is. -/
inductive Phase where
  | idle
  | entered
  | routing
  | calling (c : Calling)
  | again (addr : Bytes)
  | returned (r : Except ClusterError Unit)

/-- A write in progress, with the requests made for it. -/
structure Attempt where
  phase : Phase := .idle
  requests : List Request := []

/-- An entry in the log of a leader, or committed, with the request that it comes from. -/
structure Proposal where
  write : Nat
  request : Nat
  entry : Entry

/-- A cluster: which nodes are leaders, whom each node takes for the leader, the writes, the entries
whose fate is open and those that have been committed and applied. -/
structure World where
  leader : Bytes → Bool := fun _ => false
  known : Bytes → Bytes := fun _ => []
  attempts : Nat → Attempt := fun _ => {}
  pending : List Proposal := []
  log : List Proposal := []

namespace World

inductive Action where
  | elect (node : Bytes) (isLeader : Bool)
  | learn (node addr : Bytes)
  | commit (k : Nat)
  | discard (k : Nat)
  | submit (w : Nat)
  | check (w : Nat) (range : Except ClusterError Range)
  | route (w : Nat)
  | respond (w : Nat)
  | fail (w : Nat) (e : ClusterError)
  | again (w : Nat)
  | deliver (w i : Nat) (here : Local)
  | lose (w i : Nat)
  | take (w i : Nat)
  | refuse (w i : Nat) (e : RaftError)
  | finish (w i : Nat) (result : Except Bytes Unit)
  | abort (w i : Nat) (e : RaftError)

def proceed (s : World) (w : Nat) (a : Attempt) : World :=
  { s with attempts := Function.update s.attempts w a }

def advance (s : World) (w i : Nat) (addr : Bytes) (stage : Stage) : World :=
  s.proceed w { s.attempts w with requests := (s.attempts w).requests.set i ⟨addr, stage⟩ }

/-- The write sends a request, or hands its entry to Raft. -/
def send (s : World) (w : Nat) (c : Calling) (r : Request) : World :=
  s.proceed w { phase := .calling c, requests := (s.attempts w).requests ++ [r] }

def returns (s : World) (w : Nat) (r : Except ClusterError Unit) : World :=
  s.proceed w { s.attempts w with phase := .returned r }

def noLeaderForWrite : ClusterError := ⟨.noLeader, str "no leader available for write"⟩

/-- What a write does with the result of a call: only a first call that finds no leader is not the
end. -/
def afterCall (s : World) (w : Nat) (c : Calling) (addr : Bytes) (r : Except ClusterError Unit) :
    World :=
  match c, r with
  | .first, .error e =>
    if e.code = .noLeader then s.proceed w { s.attempts w with phase := .again addr }
    else s.returns w (.error e)
  | _, r => s.returns w r

/-- One step, if it is possible. The number of a write is its position among `writes`. -/
def step (writes : Nat → Write) (s : World) : Action → Option World
  | .elect node isLeader => some { s with leader := Function.update s.leader node isLeader }
  | .learn node addr => some { s with known := Function.update s.known node addr }
  | .commit k =>
    match s.pending[k]? with
    | some p => some { s with pending := s.pending.eraseIdx k, log := s.log ++ [p] }
    | none => none
  | .discard k => some { s with pending := s.pending.eraseIdx k }
  | .submit w =>
    match (s.attempts w).phase with
    | .idle => some (s.proceed w { s.attempts w with phase := .entered })
    | _ => none
  | .check w range =>
    match (s.attempts w).phase with
    | .entered =>
      if s.leader (writes w).node then
        match range with
        | .error e => some (s.returns w (.error e))
        | .ok r =>
          some (s.send w .own ⟨(writes w).node,
            .queued (.exec (writes w).sqls (writes w).atomic (writes w).rangeID r.generation)⟩)
      else some (s.proceed w { s.attempts w with phase := .routing })
    | _ => none
  | .route w =>
    match (s.attempts w).phase with
    | .routing =>
      if s.known (writes w).node ≠ [] then
        some (s.send w .first ⟨s.known (writes w).node, .sent⟩)
      else some (s.returns w (.error noLeaderForWrite))
    | _ => none
  | .respond w =>
    match (s.attempts w).phase, (s.attempts w).requests.getLast? with
    | .calling c, some ⟨addr, .answered r⟩ => some (s.afterCall w c addr r)
    | _, _ => none
  | .fail w e =>
    -- the caller's own end of a call fails: it cannot connect, or it does not wait any longer
    match (s.attempts w).phase with
    | .calling c => if c ≠ .own ∧ e.code ≠ .noLeader then some (s.returns w (.error e)) else none
    | _ => none
  | .again w =>
    match (s.attempts w).phase with
    | .again addr =>
      if s.known (writes w).node ≠ [] ∧ s.known (writes w).node ≠ addr then
        some (s.send w .second ⟨s.known (writes w).node, .sent⟩)
      else some (s.returns w (.error noLeaderForWrite))
    | _ => none
  | .deliver w i here =>
    match (s.attempts w).requests[i]? with
    | some ⟨addr, .sent⟩ =>
      match handleForward (s.leader addr) (s.known addr) here (writes w).payload.wire with
      | .answer r => some (s.advance w i addr (.answered r))
      | .propose e => some (s.advance w i addr (.queued e))
    | _ => none
  | .lose w i =>
    match (s.attempts w).requests[i]? with
    | some ⟨addr, .sent⟩ => some (s.advance w i addr .lost)
    | _ => none
  | .take w i =>
    match (s.attempts w).requests[i]? with
    | some ⟨addr, .queued e⟩ =>
      if s.leader addr then
        some { s.advance w i addr (.proposed e) with pending := s.pending ++ [⟨w, i, e⟩] }
      else none
    | _ => none
  | .refuse w i e =>
    -- the node does not lead, its queue is full, or Raft shuts down
    match (s.attempts w).requests[i]? with
    | some ⟨addr, .queued _⟩ => some (s.advance w i addr (.answered (.error (raftApplyError e))))
    | _ => none
  | .finish w i result =>
    match (s.attempts w).requests[i]? with
    | some ⟨addr, .proposed _⟩ =>
      if s.log.any fun p => p.write = w ∧ p.request = i then
        some (s.advance w i addr (.answered (applied result)))
      else none
    | _ => none
  | .abort w i e =>
    -- a leader that steps down does not know what becomes of its entries
    match (s.attempts w).requests[i]?, e with
    | some ⟨_, .proposed _⟩, .notLeader => none
    | some ⟨addr, .proposed _⟩, e =>
      some (s.advance w i addr (.answered (.error (raftApplyError e))))
    | _, _ => none

def run (writes : Nat → Write) : List Action → World → Option World
  | [], s => some s
  | a :: l, s => (s.step writes a).bind (run writes l)

end World

end SuperDB.Cluster
