import SuperDB.Wire.Frames

/-!
# The client's side of a connection

Any number of goroutines call `roundTrip` on one client. A round trip takes a number, makes a
channel that holds one response, registers the channel under its number, writes its frame and waits.
One goroutine, the receive loop, reads the frames and hands each response to the channel registered
under its number. When a read fails the loop answers whoever is registered, sets the closed latch
and closes the socket.

The machine below has a step for each access to what the goroutines share: the counter, the mutex
`mu` with what it guards, the mutex of the writer with the write, the latch, and each channel
operation. What is done under `mu` in one go and not seen outside of it is one step with the unlock.
The label of a step says who moves, and what the network, the scheduler and the callers' contexts
decide.
-/

namespace SuperDB

open Go Wire

namespace Client

def typeResponse : UInt8 := 0x80

def typeClose : UInt8 := 9

def errInvalidRequest : Bytes := str "INVALID_REQUEST"

def errProtocol : Bytes := str "PROTOCOL_ERROR"

/-- `wire.Response`; a `Cell` is what the JSON decoder makes of a cell. -/
structure Response (Cell : Type) where
  requestID : UInt64 := 0
  status : Bytes := []
  errorCode : Bytes := []
  errorMessage : Bytes := []
  columns : List Bytes := []
  rows : List (List Cell) := []
  affectedRows : Int := 0
  message : Bytes := []
  leaderAddr : Bytes := []
  retryable : Bool := false
  deriving DecidableEq

/-- The errors of a round trip: a `ServerError`, the closed client, a failed write with its text,
and the error of the caller's context. -/
inductive CallError where
  | server (code message : Bytes)
  | clientClosed
  | write (err : Bytes)
  | ctx
  deriving DecidableEq

section

variable (Cell : Type)

/-- Where a round trip is, from the moment it has its number and its channel. -/
inductive CallState where
  /-- About to lock `mu`. -/
  | locking
  /-- It holds `mu` and is about to look at the latch. -/
  | checking
  /-- It holds `mu` and has seen the latch open. -/
  | inserting
  /-- Registered, about to lock the writer. -/
  | sending
  /-- It holds the writer. -/
  | writing
  /-- In the `select` over its context and its channel. -/
  | waiting
  /-- It has its result; the deferred function is about to lock `mu`. -/
  | leaving (result : Except CallError (Response Cell))
  /-- It holds `mu` to remove itself. -/
  | removing (result : Except CallError (Response Cell))
  | returned (result : Except CallError (Response Cell))
  deriving DecidableEq

/-- A round trip. `ch` is the buffer of its channel. -/
structure Call where
  msgType : UInt8
  payload : Bytes
  id : UInt64
  ch : Option (Response Cell) := none
  cancelled : Bool := false
  state : CallState Cell := .locking
  deriving DecidableEq

/-- Where the receive loop is; the error is that of the read that failed. -/
inductive LoopState where
  | reading
  /-- A response has been decoded; about to lock `mu`. -/
  | decoded (resp : Response Cell)
  /-- It holds `mu` to look the number up. -/
  | looking (resp : Response Cell)
  /-- `mu` is released; about to send to the channel of a round trip. -/
  | delivering (ch : Nat) (resp : Response Cell)
  /-- `failAll`: about to lock `mu`. -/
  | failing (err : Bytes)
  /-- It holds `mu` and ranges over the entries that are left. -/
  | answering (err : Bytes) (todo : List (UInt64 × Nat))
  /-- `mu` is released; about to set the latch. -/
  | latching (err : Bytes)
  /-- About to close the socket. -/
  | closing (err : Bytes)
  | ended (err : Bytes)
  deriving DecidableEq

end

/-- Who holds `mu`. -/
inductive Owner where
  | call (i : Nat)
  | loop
  deriving DecidableEq

/-- How far the one `Close` that runs has got: its round trip is the call `i`. -/
inductive Closer where
  | idle
  | trip (i : Nat)
  | latched
  | done
  deriving DecidableEq

end Client

open Client in
/-- A client: the counter, the mutexes, the channels registered (each named by its round trip), the
latch, the state of the local socket and of the writer, which keeps its first error, the bytes
written, the round trips in the order of their numbers, the receive loop and `Close`. -/
structure Client (Cell : Type) where
  nextID : UInt64 := 0
  mu : Option Owner := none
  writeMu : Option Nat := none
  pending : Std.ExtTreeMap UInt64 Nat compare := ∅
  closed : Bool := false
  socketOpen : Bool := true
  writerFailed : Bool := false
  written : Bytes := []
  calls : List (Call Cell) := []
  loop : LoopState Cell := .reading
  closer : Closer := .idle

namespace Client

/-- How a round trip moves: on, or out of its write with an error after `n` bytes, or out of the
`select` by its context. -/
inductive CallMove where
  | next
  | writeError (n : Nat) (err : Bytes)
  | quit
  deriving DecidableEq

/-- How the receive loop moves: it reads a frame, a read fails, it answers the round trip registered
under a number, or it goes on. -/
inductive LoopMove where
  | frame (hdr : Header) (payload : Bytes)
  | readError (err : Bytes)
  | answer (id : UInt64)
  | next
  deriving DecidableEq

inductive Label where
  /-- A goroutine calls `roundTrip`. -/
  | enter (msgType : UInt8) (payload : Bytes)
  /-- The context of a round trip ends. -/
  | cancel (i : Nat)
  | call (i : Nat) (move : CallMove)
  | loop (move : LoopMove)
  /-- `Close` is called, and goes on. -/
  | close
  deriving DecidableEq

section

variable {Cell : Type}

/-- The error that `failAll` sends for a number. -/
def failure (err : Bytes) (id : UInt64) : Response Cell :=
  { requestID := id, status := str "error", errorCode := errProtocol, errorMessage := err }

/-- The branch of the `select` that has received a response. -/
def accept (id : UInt64) (resp : Response Cell) : Except CallError (Response Cell) :=
  if resp.requestID ≠ 0 ∧ resp.requestID ≠ id then
    .error (.server errProtocol (str "request id mismatch"))
  else .ok { resp with requestID := id }

/-- The round trip `i` becomes `call`. -/
def put (c : Client Cell) (i : Nat) (call : Call Cell) : Client Cell :=
  { c with calls := c.calls.set i call }

/-- The non-blocking send to a channel: a full channel drops the response. -/
def offer (c : Client Cell) (i : Nat) (resp : Response Cell) : Client Cell :=
  { c with calls := c.calls.modify i fun call => { call with ch := call.ch <|> some resp } }

/-- The size of the payload is checked, the counter goes up by one and the channel is made. -/
def enter (c : Client Cell) (msgType : UInt8) (payload : Bytes) : Except CallError (Client Cell) :=
  if maxFrameSize < payload.length then
    .error (.server errInvalidRequest (str "request too large"))
  else
    let id := c.nextID + 1
    .ok { c with nextID := id, calls := c.calls ++ [{ msgType, payload, id }] }

/-- A step of `roundTrip`. -/
def roundTrip (c : Client Cell) (i : Nat) (call : Call Cell) (move : CallMove) :
    Option (Client Cell) :=
  match call.state, move with
  | .locking, .next =>
    if c.mu = none then some { c.put i { call with state := .checking } with mu := some (.call i) }
    else none
  | .checking, .next =>
    if c.closed then
      some { c.put i { call with state := .returned (.error .clientClosed) } with mu := none }
    else some (c.put i { call with state := .inserting })
  | .inserting, .next =>
    some { c.put i { call with state := .sending } with
      mu := none
      pending := c.pending.insert call.id i }
  | .sending, .next =>
    if c.writeMu = none then
      some { c.put i { call with state := .writing } with writeMu := some i }
    else none
  | .writing, .next =>
    -- a write may succeed until the local socket is closed
    if c.socketOpen && !c.writerFailed then
      some { c.put i { call with state := .waiting } with
        writeMu := none
        written := c.written ++ encodeFrame call.msgType call.id call.payload }
    else none
  | .writing, .writeError n err =>
    some { c.put i { call with state := .leaving (.error (.write err)) } with
      writeMu := none
      writerFailed := true
      written := c.written ++ (encodeFrame call.msgType call.id call.payload).take n }
  | .waiting, .next =>
    call.ch.map fun resp =>
      c.put i { call with ch := none, state := .leaving (accept call.id resp) }
  | .waiting, .quit =>
    if call.cancelled then some (c.put i { call with state := .leaving (.error .ctx) }) else none
  | .leaving result, .next =>
    if c.mu = none then
      some { c.put i { call with state := .removing result } with mu := some (.call i) }
    else none
  | .removing result, .next =>
    some { c.put i { call with state := .returned result } with
      mu := none
      pending := c.pending.erase call.id }
  | _, _ => none

/-- A step of `readLoop` and of `failAll`; `decode` is that of the JSON library. -/
def readLoop (decode : Bytes → Option (Response Cell)) (c : Client Cell) (move : LoopMove) :
    Option (Client Cell) :=
  match c.loop, move with
  | .reading, .frame hdr payload =>
    if hdr.type ≠ typeResponse then some c
    else
      match decode payload with
      | none => some c
      | some resp => some { c with loop := .decoded { resp with requestID := hdr.requestID } }
  | .reading, .readError err => some { c with loop := .failing err }
  | .decoded resp, .next =>
    if c.mu = none then some { c with mu := some .loop, loop := .looking resp } else none
  | .looking resp, .next =>
    match c.pending[resp.requestID]? with
    | some ch => some { c with mu := none, loop := .delivering ch resp }
    | none => some { c with mu := none, loop := .reading }
  | .delivering ch resp, .next => some { c.offer ch resp with loop := .reading }
  | .failing err, .next =>
    if c.mu = none then
      some { c with mu := some .loop, loop := .answering err c.pending.toList }
    else none
  | .answering err todo, .answer id =>
    -- the entries come in any order
    (todo.lookup id).map fun ch =>
      { c.offer ch (failure err id) with loop := .answering err (todo.filter (·.1 != id)) }
  | .answering err [], .next => some { c with mu := none, loop := .latching err }
  | .latching err, .next => some { c with closed := true, loop := .closing err }
  | .closing err, .next => some { c with socketOpen := false, loop := .ended err }
  | _, _ => none

/-- A step of `Close`: its round trip, then the latch, then the socket. -/
def close (c : Client Cell) : Option (Client Cell) :=
  match c.closer with
  | .idle =>
    match c.enter typeClose (str "\x7b\x7d") with
    | .ok c' => some { c' with closer := .trip c.calls.length }
    | .error _ => none
  | .trip i =>
    match (c.calls[i]?).map Call.state with
    | some (.returned _) => some { c with closed := true, closer := .latched }
    | _ => none
  | .latched => some { c with socketOpen := false, closer := .done }
  | .done => none

/-- One step of whoever the label names. A round trip that is too large returns at once. -/
def step (decode : Bytes → Option (Response Cell)) (c : Client Cell) : Label → Option (Client Cell)
  | .enter msgType payload =>
    match c.enter msgType payload with
    | .ok c' => some c'
    | .error _ => some c
  | .cancel i => (c.calls[i]?).map fun call => c.put i { call with cancelled := true }
  | .call i move => (c.calls[i]?).bind fun call => c.roundTrip i call move
  | .loop move => c.readLoop decode move
  | .close => c.close

end

end Client

end SuperDB
