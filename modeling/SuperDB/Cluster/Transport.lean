import SuperDB.Go.Map

/-!
# The connections of the cluster transport

`Transport.Call` takes an idle connection to the peer or dials a new one, and gives it back when the
call went well. The idle connections of a peer wait in a buffered channel. Calls run concurrently,
and `acquire` receives from the channel after it has left the critical section: a move is what one
of the calls, or `Close`, does between two points where another may come in.
-/

namespace SuperDB.Cluster

open Go

def maxPoolPerPeer : Nat := 8

inductive CallStage where
  /-- It has its channel and has left the critical section of `acquire`. -/
  | looking (addr : Bytes)
  | dialing (addr : Bytes)
  | talking (addr : Bytes) (conn : Nat)
  | ended
  deriving DecidableEq

structure Pool where
  conns : List Nat := []
  closed : Bool := false

/-- What a goroutine dies of. -/
inductive Panic where
  | nilConn
  | sendOnClosed
  deriving DecidableEq

/-- The transport and its calls; connections are numbered as they are dialled. -/
structure Transport where
  pools : Map Pool := ∅
  closed : Bool := false
  /-- `Close` holds the mutex. -/
  closing : Bool := false
  /-- The channel `Close` has closed and not yet emptied. -/
  draining : Option Bytes := none
  calls : List CallStage := []
  /-- The peer each connection was dialled to. -/
  dials : List Bytes := []
  /-- The connections that have been closed. -/
  shut : List Nat := []
  crashed : Option Panic := none

inductive Move where
  | call (addr : Bytes)
  /-- The `select` of `acquire`, with the answer of `isAlive` on what it receives. -/
  | receive (i : Nat) (alive : Bool)
  | dial (i : Nat) (ok : Bool)
  | release (i : Nat) (failed : Bool)
  | close
  | closePool (addr : Bytes)
  | drain
  | unlock

namespace Transport

def pool (t : Transport) (addr : Bytes) : Pool := t.pools.getD addr {}

def setConns (t : Transport) (addr : Bytes) (conns : List Nat) : Transport :=
  { t with pools := t.pools.insert addr { t.pool addr with conns := conns } }

def setCall (t : Transport) (i : Nat) (stage : CallStage) : Transport :=
  { t with calls := t.calls.set i stage }

def shutConn (t : Transport) (c : Nat) : Transport := { t with shut := t.shut ++ [c] }

/-- The critical section of `acquire`. -/
def acquire (t : Transport) (addr : Bytes) : Transport :=
  if t.closed then { t with calls := t.calls ++ [.ended] }
  else { t.setConns addr (t.pool addr).conns with calls := t.calls ++ [.looking addr] }

/-- The `select` of `acquire`. A closed channel that is empty yields a nil connection, and `isAlive`
panics on it. -/
def receive (t : Transport) (i : Nat) (addr : Bytes) (alive : Bool) : Transport :=
  match (t.pool addr).conns with
  | [] =>
    if (t.pool addr).closed then { t with crashed := some .nilConn }
      else t.setCall i (.dialing addr)
  | c :: rest =>
    if alive then (t.setConns addr rest).setCall i (.talking addr c)
    else ((t.setConns addr rest).shutConn c).setCall i (.dialing addr)

def dial (t : Transport) (i : Nat) (addr : Bytes) (ok : Bool) : Transport :=
  if ok then { t.setCall i (.talking addr t.dials.length) with dials := t.dials ++ [addr] }
  else t.setCall i .ended

def release (t : Transport) (i : Nat) (addr : Bytes) (c : Nat) (failed : Bool) : Transport :=
  let conns := (t.pool addr).conns
  if failed || t.closed then (t.shutConn c).setCall i .ended
  else if (t.pool addr).closed then { t with crashed := some .sendOnClosed }
  else if conns.length < maxPoolPerPeer then (t.setConns addr (conns ++ [c])).setCall i .ended
  else (t.shutConn c).setCall i .ended

/-- `Close` closes the next channel; the channels it has closed it does not meet again. -/
def closePool (t : Transport) (addr : Bytes) : Transport :=
  { t with pools := t.pools.insert addr { t.pool addr with closed := true }, draining := some addr }

/-- `Close` takes the next connection out of the channel it has closed. -/
def drain (t : Transport) (addr : Bytes) : Transport :=
  match (t.pool addr).conns with
  | [] => { t with draining := none }
  | c :: rest => (t.setConns addr rest).shutConn c

/-- A move, if its call or `Close` stands before it and the mutex it needs is free. -/
def step (t : Transport) (m : Move) : Option Transport :=
  if t.crashed.isSome then none
  else
    match m with
    | .call addr => if t.closing then none else some (t.acquire addr)
    | .receive i alive =>
      match t.calls[i]? with
      | some (.looking addr) => some (t.receive i addr alive)
      | _ => none
    | .dial i ok =>
      match t.calls[i]? with
      | some (.dialing addr) => some (t.dial i addr ok)
      | _ => none
    | .release i failed =>
      match t.calls[i]? with
      | some (.talking addr c) =>
        if t.closing && !failed then none else some (t.release i addr c failed)
      | _ => none
    | .close => if t.closing then none else some { t with closed := true, closing := true }
    | .closePool addr =>
      if t.closing && t.draining.isNone && addr ∈ t.pools && !(t.pool addr).closed then
        some (t.closePool addr)
      else none
    | .drain => if t.closing then t.draining.map t.drain else none
    | .unlock =>
      if t.closing && t.draining.isNone && t.pools.keys.all fun addr => (t.pool addr).closed then
        some { t with closing := false }
      else none

end Transport

end SuperDB.Cluster
