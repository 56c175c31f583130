import SuperDB.Remote.Session
import SuperDB.Wire.Frames

/-!
# The hosted server

One goroutine reads the frames of a connection one after the other and answers each before it reads
the next. It acts on what lies outside the connection in three ways: it verifies credentials, it
performs the actions of a session, and in a cluster it hands a statement to the node.
-/

namespace SuperDB.Remote

open Go hiding equalFold
open Engine
open SuperDB.Server hiding equalFold isWriteSQL writeStatements persistStatements

/-! ## Credentials -/

/-- The hashes of the configured credentials; `sha256` is that of the library. -/
structure Authenticator where
  usernameHash : Bytes := []
  passwordHash : Bytes := []
  required : Bool := false

/-- `NewAuthenticator`: without any credentials nothing is required. -/
def newAuthenticator (sha256 : Bytes → Bytes) (username password : Bytes) : Authenticator :=
  if username = [] ∧ password = [] then {}
  else
    { usernameHash := sha256 (if username = [] then str "admin" else username)
      passwordHash := sha256 password
      required := true }

def Authenticator.verify (sha256 : Bytes → Bytes) (a : Authenticator) (username password : Bytes) :
    Bool :=
  !a.required || (sha256 username == a.usernameHash && sha256 password == a.passwordHash)

/-! ## Payloads -/

structure AuthPayload where
  mechanism : Bytes := []
  username : Bytes := []
  password : Bytes := []
  token : Bytes := []
  database : Bytes := []

structure QueryPayload where
  sql : Bytes := []
  params : List Param := []

/-- A reply; the number of the request goes with it. -/
inductive Response where
  | ok (message : Bytes)
  | result (r : Result)
  | error (e : ExecError)

/-- What the library does with payloads: it decodes requests, and the reply has a size. -/
structure Codec where
  auth : Bytes → Option AuthPayload
  query : Bytes → Option QueryPayload
  size : Response → Nat

/-- The configuration of the hosted server. `cluster` says whether statements go to a node, and
`sha256` is the hash function. -/
structure HostConfig where
  session : Config := {}
  username : Bytes := []
  password : Bytes := []
  cluster : Bool := false
  maxResultBytes : Nat := 0
  sha256 : Bytes → Bytes
  codec : Codec

def HostConfig.authenticator (cfg : HostConfig) : Authenticator :=
  newAuthenticator cfg.sha256 cfg.username cfg.password

def HostConfig.credentials (cfg : HostConfig) (p : AuthPayload) : Bytes × Bytes :=
  let secret :=
    if p.mechanism = str "token" ∨ (p.mechanism = [] ∧ p.token ≠ [] ∧ p.password = []) then p.token
    else p.password
  let user :=
    if p.username ≠ [] then p.username
    else if cfg.username ≠ [] then cfg.username
    else str "admin"
  (user, secret)

/-! ## Events -/

/-- What a connection does outside of its own state. -/
inductive Event where
  | verify (user secret : Bytes)
  | engine (a : Action)
  | cluster (sql : Bytes)

abbrev Event.Answer : Event → Type
  | .verify _ _ => Bool
  | .engine a => a.Answer
  | .cluster _ => Except ClusterFault Result

abbrev Serving (α : Type) := Proc Event Event.Answer α

def perform {α : Type} : Handler α → Serving α
  | .ret a => .ret a
  | .crash => .crash
  | .act a k => .act (.engine a) fun r => perform (k r)

def verify (user secret : Bytes) : Serving Bool := .act (.verify user secret) fun r => .ret r

def clusterExec (sql : Bytes) : Serving (Except ClusterFault Result) :=
  .act (.cluster sql) fun r => .ret r

/-! ## Frames -/

def typeHello : UInt8 := 1
def typeAuth : UInt8 := 2
def typePing : UInt8 := 3
def typeQuery : UInt8 := 4
def typeExec : UInt8 := 5
def typeBegin : UInt8 := 6
def typeCommit : UInt8 := 7
def typeRollback : UInt8 := 8
def typeClose : UInt8 := 9

def maxQuerySize : Nat := 4 * 2 ^ 20

/-- A frame that has been read, with what its statement meets on its way: the timeout of its
context, the order of map iteration, the disk, whether no slot for a query becomes free in time,
and whether the reply cannot be written. -/
structure Incoming where
  hdr : Wire.Header
  payload : Bytes
  ctx : Context := Context.background
  order : MapOrder := MapOrder.sorted
  disk : Disk := .done
  busy : Bool := false
  lost : Bool := false

def Incoming.call (f : Incoming) (sql : Bytes) : Call :=
  { sql, ctx := f.ctx, order := f.order, disk := f.disk }

/-- `execOne`: in a cluster the statement goes to the node. -/
def executeOne (cfg : HostConfig) (c : Call) (s : Session) :
    Serving (Except ExecError Result × Session) :=
  if cfg.cluster then
    if isTxKeyword (trimSpace c.sql) then
      .ret (.error (execError .unsupported (str ("session transactions are not supported in " ++
        "cluster mode; send atomic batches instead"))), s)
    else do
      match ← clusterExec c.sql with
      | .error e => return (.error (mapClusterError e), s)
      | .ok r => return (capResult cfg.session.limits r, s)
  else perform (execOne cfg.session c s)

def invalid (code : Code) (text : String) : Response := .error (execError code (str text))

def handleAuth (cfg : HostConfig) (f : Incoming) (s : Session) : Serving (Response × Session) :=
  match cfg.codec.auth f.payload with
  | none => .ret (invalid .invalidRequest "invalid auth payload", s)
  | some p => do
    let s := if p.database = [] then s else { s with database := p.database }
    let (user, secret) := cfg.credentials p
    if ← verify user secret then return (.ok (str "authenticated"), { s with authed := true })
    else
      return (invalid .authFailed "authentication failed", { s with authFails := s.authFails + 1 })

def handleQuery (cfg : HostConfig) (f : Incoming) (s : Session) : Serving (Response × Session) :=
  match cfg.codec.query f.payload with
  | none => .ret (invalid .invalidRequest "invalid request payload", s)
  | some p =>
    if p.sql = [] then .ret (invalid .invalidRequest "sql required", s)
    else if maxQuerySize < p.sql.length then .ret (invalid .invalidRequest "query too large", s)
    else
      match bind p.sql p.params with
      | .error e => .ret (.error { e with retryable := false }, s)
      | .ok bound => do
        match ← executeOne cfg (f.call bound) s with
        | (.error e, s) => return (.error e, s)
        | (.ok r, s) => return (.result r, s)

/-- The frames that stand for `BEGIN`, `COMMIT` and `ROLLBACK`. -/
def handleTx (cfg : HostConfig) (keyword : String) (f : Incoming) (s : Session) :
    Serving (Response × Session) := do
  match ← executeOne cfg (f.call (str keyword)) s with
  | (.error e, s) => return (.error { e with retryable := false }, s)
  | (.ok r, s) => return (.ok r.message, s)

def guarded (cfg : HostConfig) (s : Session) (k : Serving (Response × Session)) :
    Serving (Response × Session) :=
  if cfg.authenticator.required && !s.authed then
    .ret (invalid .authRequired "authentication required", s)
  else k

def handle (cfg : HostConfig) (f : Incoming) (s : Session) : Serving (Response × Session) :=
  let type := f.hdr.type
  if type = typeHello then .ret (.ok (str "SDB1 v1"), s)
  else if type = typeAuth then handleAuth cfg f s
  else if type = typePing then .ret (.ok (str "pong"), s)
  else if type = typeQuery ∨ type = typeExec then guarded cfg s (handleQuery cfg f s)
  else if type = typeBegin then guarded cfg s (handleTx cfg "BEGIN" f s)
  else if type = typeCommit then guarded cfg s (handleTx cfg "COMMIT" f s)
  else if type = typeRollback then guarded cfg s (handleTx cfg "ROLLBACK" f s)
  else if type = typeClose then .ret (.ok (str "bye"), s)
  else .ret (invalid .unsupported "unsupported operation", s)

/-- A panic of a statement is answered as an error; it leaves the session as it was. -/
def dispatch (cfg : HostConfig) (f : Incoming) (s : Session) : Serving (Response × Session) :=
  (handle cfg f s).recover (invalid .internalError "internal error", s)

def isQueryFrame (type : UInt8) : Bool :=
  type == typeQuery || type == typeExec || type == typeBegin || type == typeCommit ||
    type == typeRollback

/-- The answer to a frame; one that executes a statement needs a free slot. -/
def respond (cfg : HostConfig) (f : Incoming) (s : Session) : Serving (Response × Session) :=
  if isQueryFrame f.hdr.type && f.busy then
    .ret (invalid .serverBusy "server overloaded; retry later", s)
  else dispatch cfg f s

/-- The reply that is written; one that is too large is replaced. -/
def HostConfig.limited (cfg : HostConfig) (r : Response) : Response :=
  let r :=
    if 0 < cfg.maxResultBytes ∧ cfg.maxResultBytes < cfg.codec.size r then
      invalid .resultTooLarge "result exceeds maximum size"
    else r
  if Wire.maxFrameSize < cfg.codec.size r then invalid .internalError "response too large" else r

def maxAuthFailures : Nat := 5

/-- The frame loop of a connection over the frames that are read before the input ends: the replies
that are written. -/
def serveFrames (cfg : HostConfig) : List Incoming → Session → Serving (List Response)
  | [], _ => .ret []
  | f :: frames, s => do
    let (r, s) ← respond cfg f s
    if f.lost then return []
    else if f.hdr.type = typeClose ∨ maxAuthFailures ≤ s.authFails then return [cfg.limited r]
    else
      let replies ← serveFrames cfg frames s
      return cfg.limited r :: replies

/-- `handleConn`, once the connection is admitted. -/
def handleConn (cfg : HostConfig) (frames : List Incoming) : Serving (List Response) :=
  serveFrames cfg frames { authed := !cfg.authenticator.required }

end SuperDB.Remote
