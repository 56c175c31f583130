import SuperDB.Cluster.Ranges
import SuperDB.Server.Session

/-!
# Hosted sessions

A connection of the hosted server has a session of its own, which writes the transaction protocol
of the local server a second time, with coded errors in the place of texts. The actions are those
of the local sessions. In a cluster a session hands its statements to the node.
-/

namespace SuperDB.Remote

open Go hiding equalFold
open Engine
open SuperDB.Server hiding equalFold isWriteSQL writeStatements persistStatements

/-- The codes of error replies, from `AUTH_FAILED` to `RESULT_TOO_LARGE`. An error of the engine
whose code `queryErrorCode` looks up in its text stands for that code. -/
inductive Code where
  | authFailed
  | authRequired
  | invalidRequest
  | queryError
  | notFound
  | notLeader
  | timeout
  | unsupported
  | internalError
  | serverBusy
  | resultTooLarge
  | queryErrorCode (e : Error)
  deriving DecidableEq

structure ExecError where
  code : Code
  msg : ErrorText
  retryable : Bool := false
  deriving DecidableEq

def execError (code : Code) (msg : Bytes) (retryable : Bool := false) : ExecError :=
  { code, msg := { lead := msg }, retryable }

def mapEngineError : Error → ExecError
  | .context .deadlineExceeded => execError .timeout (str "query timeout exceeded") true
  | .context .canceled => execError .timeout (str "query canceled") true
  | .resultTooLarge rows limit =>
    { code := .resultTooLarge, msg := { lead := [], cause := some (.resultTooLarge rows limit) } }
  | e => { code := .queryErrorCode e, msg := { lead := [], cause := some e } }

structure Session where
  tx : Option Database := none
  txSQL : List Bytes := []
  authed : Bool := false
  database : Bytes := []
  authFails : Nat := 0

/-! ## Binding -/

def placeholderCount : Quote → Bytes → Nat
  | _, [] => 0
  | q, a :: s => (if q.placeholder a then 1 else 0) + placeholderCount (q.step a s) s

def bind (sql : Bytes) (params : List Param) : Except ExecError Bytes :=
  if params.isEmpty then
    if 0 < placeholderCount .out sql then
      .error (execError .invalidRequest
        (str "query has placeholders but no params were supplied"))
    else .ok sql
  else
    match bindParams sql params with
    | .error e => .error (execError .invalidRequest e)
    | .ok bound => .ok bound

/-! ## Statements -/

/-- Whether `s` is the given upper-case word under ASCII folding, byte by byte. -/
def equalFold (s keyword : Bytes) : Bool :=
  s.length == keyword.length && (s.zip keyword).all fun p => upperByte p.1 == p.2

def isWriteSQL (raw : Bytes) : Bool := !isReadOnly raw

def writeStatements (sqls : List Bytes) : List Bytes := sqls.filter isWriteSQL

def persistStatements (mode : Mode) (sqls : List Bytes) (disk : Disk) :
    Handler (Except Bytes Unit) :=
  match mode with
  | .wal => append sqls disk
  | .snapshot =>
    if sqls.isEmpty then .ret (.ok ())
    else do
      let tables ← image
      save tables disk
  | .memory => .ret (.ok ())

def message (text : String) : Result := { message := str text }

def execBegin (cfg : Config) (s : Session) : Handler (Except ExecError Result × Session) :=
  if s.tx.isSome then
    .ret (.error (execError .invalidRequest (str "transaction already active")), s)
  else
    let start : Handler (Except ExecError Result × Session) := do
      let tx ← clone
      return (.ok (message "BEGIN ok"), { s with tx := some tx, txSQL := [] })
    if cfg.limits.maxTxDatabaseRows = 0 then start
    else do
      let rows ← rowCount
      if cfg.limits.maxTxDatabaseRows < rows then
        -- the rows are counted again for the message
        let rows ← rowCount
        return (.error (execError .serverBusy (str "transaction rejected: database holds " ++
          decimal rows ++ str " rows (limit " ++ decimal cfg.limits.maxTxDatabaseRows ++
          str ")") true), s)
      else start

def execRollback (s : Session) : Except ExecError Result × Session :=
  if s.tx.isNone then (.error (execError .invalidRequest (str "no transaction active")), s)
  else (.ok (message "ROLLBACK ok"), { s with tx := none, txSQL := [] })

def execCommit (c : Call) (s : Session) : Handler (Except ExecError Result × Session) :=
  match s.tx with
  | none => .ret (.error (execError .invalidRequest (str "no transaction active")), s)
  | some tx =>
    let writes := writeStatements s.txSQL
    let done := (.ok (message "COMMIT ok"), { s with tx := none, txSQL := [] })
    if writes.isEmpty then .ret done
    else do
      match ← commitFrom tx writes c.disk with
      | .error e => return (.error (execError .queryError (str "commit failed: " ++ e)), s)
      | .ok () => return done

/-- A statement in the open transaction, which is given up when it holds too many writes. -/
def execInTx (cfg : Config) (c : Call) (tx : Database) (s : Session) :
    Handler (Except ExecError Result × Session) := do
  let p ← execTx tx (cfg.env c) c.sql
  let s := { s with tx := some p.2 }
  match p.1 with
  | .error .panic => .crash
  | .error (.error e) => return (.error (mapEngineError e), s)
  | .ok r =>
    if !isWriteSQL c.sql then return (.ok r, s)
    else if 0 < cfg.limits.maxTxStatements ∧ cfg.limits.maxTxStatements ≤ s.txSQL.length then
      return (.error (execError .invalidRequest (str "transaction aborted: exceeded " ++
        decimal cfg.limits.maxTxStatements ++ str " buffered statements")),
        { s with tx := none, txSQL := [] })
    else return (.ok r, { s with txSQL := s.txSQL ++ [c.sql] })

def execShared (cfg : Config) (c : Call) (s : Session) :
    Handler (Except ExecError Result × Session) := do
  match ← exec (cfg.env c) c.sql with
  | .error .panic => .crash
  | .error (.error e) => return (.error (mapEngineError e), s)
  | .ok r =>
    if isWriteSQL c.sql then
      match ← persistStatements cfg.mode [c.sql] c.disk with
      | .error e => return (.error (execError .internalError (str "persist failed: " ++ e)), s)
      | .ok () => return (.ok r, s)
    else return (.ok r, s)

/-- `execOne` of a session that is not in a cluster. -/
def execOne (cfg : Config) (c : Call) (s : Session) : Handler (Except ExecError Result × Session) :=
  let sql := trimSpace c.sql
  if equalFold sql (str "BEGIN") then execBegin cfg s
  else if equalFold sql (str "ROLLBACK") then .ret (execRollback s)
  else if equalFold sql (str "COMMIT") then execCommit c s
  else
    match s.tx with
    | some tx => execInTx cfg c tx s
    | none => execShared cfg c s

/-! ## Clusters -/

inductive ClusterFault where
  | coded (e : Cluster.ClusterError)
  | plain (text : Bytes)

def plainClusterError (msg : Bytes) : ExecError :=
  if containsFold (str "NO LEADER") msg then
    execError .notLeader (str "no leader available for write") true
  else if containsFold (str "TABLE NOT FOUND") msg then execError .notFound msg
  else if containsFold (str "UNSUPPORTED") msg then execError .unsupported msg
  else execError .queryError msg

def mapClusterError : ClusterFault → ExecError
  | .coded e =>
    match e.code with
    | .noLeader => execError .notLeader (str "no leader available for write") true
    | .invalidArgument => execError .invalidRequest e.message
    | .notFound | .rangeNotFound => execError .notFound e.message
    | _ => execError .queryError e.message
  | .plain msg => plainClusterError msg

def isTxKeyword (s : Bytes) : Bool :=
  equalFold s (str "BEGIN") || equalFold s (str "COMMIT") || equalFold s (str "ROLLBACK")

def capResult (limits : Limits) (r : Result) : Except ExecError Result :=
  if 0 < limits.maxResultRows ∧ limits.maxResultRows < r.rows.length then
    .error (execError .resultTooLarge (str "result row limit exceeded: " ++
      decimal r.rows.length ++ str " rows (limit " ++ decimal limits.maxResultRows ++ str ")"))
  else .ok r

end SuperDB.Remote
