import SuperDB.Engine.Bind
import SuperDB.Engine.Image
import SuperDB.Go.Proc
import SuperDB.Storage.Format

/-!
# Sessions

What a connection of the local server does with a request. A request is answered by a goroutine
that works on the shared database and on the files of the data directory; each of its actions is
what the source does under one lock. Sessions of a cluster, which hand their statements to Raft,
are not modelled here.
-/

namespace SuperDB.Server

open Go Engine
open Storage (maxPayloadSize)

/-! ## Durability -/

/-- The durability mode; every mode but `wal` and `snapshot` keeps nothing. -/
inductive Mode where
  | memory
  | wal
  | snapshot
  deriving DecidableEq

/-- What the disk does with a write: it is durable, or it fails with a message. A failed append
may have written some of its records. A snapshot that is encoded in more than `maxPayloadSize` bytes
fails too. -/
inductive Disk where
  | done
  | failed (message : Bytes) (written : Nat)
  deriving DecidableEq

/-- The files of the data directory: the records of the WAL and the tables of the snapshot. -/
structure Store where
  wal : List Bytes := []
  snapshot : Option (Map Table) := none

/-- `WALWriter.Append`. -/
def Store.append (sqls : List Bytes) (disk : Disk) (store : Store) : Except Bytes Unit × Store :=
  if sqls.isEmpty then (.ok (), store)
  else if sqls.any fun sql => maxPayloadSize < sql.length then
    (.error (str "payload exceeds SUPERDB size limit"), store)
  else
    match disk with
    | .done => (.ok (), { store with wal := store.wal ++ sqls })
    | .failed message written =>
      (.error message, { store with wal := store.wal ++ sqls.take written })

/-- `saveSnapshot`: the image is encoded and then written. -/
def Store.save (image : Map Table) (disk : Disk) (store : Store) : Except Bytes Unit × Store :=
  if !encodable image then
    (.error (str "marshal snapshot: json: error calling MarshalJSON for type *engine.Database: " ++
      invalidCharacter image), store)
  else
    match disk with
    | .done => (.ok (), { store with snapshot := some image })
    | .failed message _ => (.error message, store)

theorem Store.save_cases (image : Map Table) (disk : Disk) (store : Store) :
    (encodable image = true ∧ disk = .done ∧
        store.save image disk = (.ok (), { store with snapshot := some image })) ∨
      ((!encodable image || disk != .done) = true ∧
        ∃ e, store.save image disk = (.error e, store)) := by
  unfold Store.save
  cases encodable image with
  | false => exact Or.inr ⟨rfl, _, rfl⟩
  | true =>
    cases disk with
    | done => exact Or.inl ⟨rfl, rfl, rfl⟩
    | failed message written => exact Or.inr ⟨rfl, message, rfl⟩

/-- `persistStatements` under the locks of `CommitFrom`. -/
def Store.persist (mode : Mode) (sqls : List Bytes) (image : Map Table) (disk : Disk)
    (store : Store) : Except Bytes Unit × Store :=
  match mode with
  | .wal => store.append sqls disk
  | .snapshot => if sqls.isEmpty then (.ok (), store) else store.save image disk
  | .memory => (.ok (), store)

/-! ## The shared state -/

/-- What the sessions share. -/
structure Shared where
  db : Database := {}
  store : Store := {}

/-- The actions of a session. `execTx` works on the private copy of a transaction or of an atomic
batch and is listed only so that it appears in histories. -/
inductive Action where
  | rowCount
  | clone
  | exec (env : Env) (sql : Bytes)
  | execTx (tx : Database) (env : Env) (sql : Bytes)
  | commitFrom (source : Database) (sqls : List Bytes) (disk : Disk)
  | append (sqls : List Bytes) (disk : Disk)
  | image
  | save (tables : Map Table) (disk : Disk)

abbrev Action.Answer : Action → Type
  | .rowCount => Nat
  | .clone => Database
  | .exec _ _ => Except Fault Result
  | .execTx _ _ _ => Except Fault Result × Database
  | .commitFrom _ _ _ => Except Bytes Unit
  | .append _ _ => Except Bytes Unit
  | .image => Map Table
  | .save _ _ => Except Bytes Unit

/-- `CommitFrom`: a conflict is found before anything is persisted. -/
def Shared.commitFrom (mode : Mode) (source : Database) (sqls : List Bytes) (disk : Disk)
    (s : Shared) : Except Bytes Unit × Shared :=
  let p := s.store.persist mode sqls source.cloneImage.tables disk
  let c := s.db.commitFrom source p.1
  (c.1, { db := c.2, store := if s.db.revision = source.baseRevision then p.2 else s.store })

def Action.run (mode : Mode) : (a : Action) → Shared → a.Answer × Shared
  | .rowCount, s => (s.db.rowCount, s)
  | .clone, s => (s.db.clone, s)
  | .exec env sql, s =>
    ((s.db.execWithOptions env sql).1, { s with db := (s.db.execWithOptions env sql).2 })
  | .execTx tx env sql, s => (tx.execWithOptions env sql, s)
  | .commitFrom source sqls disk, s => s.commitFrom mode source sqls disk
  | .append sqls disk, s =>
    ((s.store.append sqls disk).1, { s with store := (s.store.append sqls disk).2 })
  | .image, s => (s.db.tables, s)
  | .save tables disk, s =>
    ((s.store.save tables disk).1, { s with store := (s.store.save tables disk).2 })

abbrev Handler (α : Type) := Proc Action Action.Answer α

def rowCount : Handler Nat := .act .rowCount fun r => .ret r

def clone : Handler Database := .act .clone fun r => .ret r

def exec (env : Env) (sql : Bytes) : Handler (Except Fault Result) :=
  .act (.exec env sql) fun r => .ret r

def execTx (tx : Database) (env : Env) (sql : Bytes) : Handler (Except Fault Result × Database) :=
  .act (.execTx tx env sql) fun r => .ret r

def commitFrom (source : Database) (sqls : List Bytes) (disk : Disk) :
    Handler (Except Bytes Unit) :=
  .act (.commitFrom source sqls disk) fun r => .ret r

def append (sqls : List Bytes) (disk : Disk) : Handler (Except Bytes Unit) :=
  .act (.append sqls disk) fun r => .ret r

def image : Handler (Map Table) := .act .image fun r => .ret r

def save (tables : Map Table) (disk : Disk) : Handler (Except Bytes Unit) :=
  .act (.save tables disk) fun r => .ret r

section Run

variable {α : Type} (mode : Mode) (sh : Shared)

theorem run_rowCount (f : Nat → Handler α) :
    (rowCount >>= f).run (Action.run mode) sh = (f sh.db.rowCount).run (Action.run mode) sh := rfl

theorem run_clone (f : Database → Handler α) :
    (clone >>= f).run (Action.run mode) sh = (f sh.db.clone).run (Action.run mode) sh := rfl

theorem run_exec (env : Env) (sql : Bytes) (f : Except Fault Result → Handler α) :
    (exec env sql >>= f).run (Action.run mode) sh =
      (f (sh.db.execWithOptions env sql).1).run (Action.run mode)
        { sh with db := (sh.db.execWithOptions env sql).2 } := rfl

theorem run_execTx (tx : Database) (env : Env) (sql : Bytes)
    (f : Except Fault Result × Database → Handler α) :
    (execTx tx env sql >>= f).run (Action.run mode) sh =
      (f (tx.execWithOptions env sql)).run (Action.run mode) sh := rfl

theorem run_commitFrom (source : Database) (sqls : List Bytes) (disk : Disk)
    (f : Except Bytes Unit → Handler α) :
    (commitFrom source sqls disk >>= f).run (Action.run mode) sh =
      (f (sh.commitFrom mode source sqls disk).1).run (Action.run mode)
        (sh.commitFrom mode source sqls disk).2 := rfl

end Run

/-! ## Limits and requests -/

/-- The limits that statements and transactions are held to; 0 disables a cap. -/
structure Limits where
  queryTimeout : Int := 0
  maxResultRows : Nat := 0
  maxBatchStatements : Nat := 0
  maxTxStatements : Nat := 0
  maxTxDatabaseRows : Nat := 0

/-- What is fixed for a server; the sorting algorithm is that of the library. -/
structure Config where
  mode : Mode := .memory
  limits : Limits := {}
  sorter : Sorter := Sorter.merge

/-- A statement of a request, with what it meets on its way: the timeout of its context, the order
of map iteration and the disk. -/
structure Call where
  sql : Bytes
  ctx : Context := Context.background
  order : MapOrder := MapOrder.sorted
  disk : Disk := .done

/-- A request; `disk` is what a write at the end of a batch meets, and `busy` says that no slot for
a query becomes free in time. -/
structure Request where
  sql : Call := { sql := [] }
  sqls : List Call := []
  params : List Param := []
  atomic : Bool := false
  disk : Disk := .done
  busy : Bool := false

/-- The context of a statement: unbounded without a timeout, expired at once with a negative one. -/
def queryContext (limits : Limits) (ctx : Context) : Context :=
  if limits.queryTimeout = 0 then Context.background
  else if limits.queryTimeout < 0 then fun _ => some .deadlineExceeded
  else ctx

def Config.env (cfg : Config) (c : Call) : Env :=
  { ctx := queryContext cfg.limits c.ctx
    order := c.order
    sorter := cfg.sorter
    maxRows := cfg.limits.maxResultRows }

structure ErrorText where
  lead : Bytes
  cause : Option Error := none
  deriving DecidableEq

inductive Reply where
  | result (r : Result)
  | message (text : Bytes)
  | error (text : ErrorText)
  deriving DecidableEq

inductive Response where
  | single (r : Reply)
  | batch (l : List Reply)
  deriving DecidableEq

def errorReply (text : Bytes) : Reply := .error { lead := text }

def execErrorMessage : Error → ErrorText
  | .context .deadlineExceeded => { lead := str "query timeout exceeded" }
  | .context .canceled => { lead := str "query canceled" }
  | e => { lead := [], cause := some e }

def ErrorText.after (lead : Bytes) (t : ErrorText) : ErrorText := { t with lead := lead ++ t.lead }

/-! ## Statements -/

structure Session where
  tx : Option Database := none
  txSQL : List Bytes := []
  batch : Bool := false
  pendingPersist : List Bytes := []

def isWriteSQL (raw : Bytes) : Bool := !isReadOnly raw

def writeStatements (sqls : List Bytes) : List Bytes := sqls.filter isWriteSQL

/-- Whether `s` is the given upper-case word under ASCII folding. -/
def equalFold (s keyword : Bytes) : Bool := s.length == keyword.length && hasPrefixFold s keyword

/-- `persistStatements` on the shared database: a snapshot is encoded first and written after. -/
def persistStatements (mode : Mode) (sqls : List Bytes) (disk : Disk) :
    Handler (Except Bytes Unit) :=
  match mode with
  | .wal => append sqls disk
  | .snapshot =>
    if sqls.isEmpty then .ret (.ok ())
    else do
      let tables ← image
      save tables disk
  | .memory => .ret (.ok ())

def beginTx (cfg : Config) (s : Session) : Handler (Reply × Session) :=
  if s.tx.isSome then .ret (errorReply (str "transaction already active"), s)
  else
    let start : Handler (Reply × Session) := do
      let tx ← clone
      return (.message (str "BEGIN ok"), { s with tx := some tx, txSQL := [] })
    if cfg.limits.maxTxDatabaseRows = 0 then start
    else do
      let rows ← rowCount
      if cfg.limits.maxTxDatabaseRows < rows then
        -- the rows are counted again for the message
        let rows ← rowCount
        return (errorReply (str "transaction rejected: database holds " ++ decimal rows ++
          str " rows (limit " ++ decimal cfg.limits.maxTxDatabaseRows ++ str ")"), s)
      else start

def rollbackTx (s : Session) : Reply × Session :=
  if s.tx.isNone then (errorReply (str "no transaction active"), s)
  else (.message (str "ROLLBACK ok"), { s with tx := none, txSQL := [] })

def commitTx (c : Call) (s : Session) : Handler (Reply × Session) :=
  match s.tx with
  | none => .ret (errorReply (str "no transaction active"), s)
  | some tx =>
    let done : Reply × Session := (.message (str "COMMIT ok"), { s with tx := none, txSQL := [] })
    if (writeStatements s.txSQL).isEmpty then .ret done
    else do
      match ← commitFrom tx (writeStatements s.txSQL) c.disk with
      | .error e => return (errorReply (str "commit: " ++ e), s)
      | .ok () => return done

def recordTx (limits : Limits) (raw : Bytes) (r : Result) (s : Session) : Reply × Session :=
  if isWriteSQL raw then
    if 0 < limits.maxTxStatements ∧ limits.maxTxStatements ≤ s.txSQL.length then
      (errorReply (str "transaction aborted: exceeded " ++ decimal limits.maxTxStatements ++
        str " buffered statements"), { s with tx := none, txSQL := [] })
    else (.result r, { s with txSQL := s.txSQL ++ [raw] })
  else (.result r, s)

/-- What follows a statement that succeeded on the shared database: in a batch it is persisted
later. -/
def recordWrite (mode : Mode) (c : Call) (r : Result) (s : Session) : Handler (Reply × Session) :=
  if !isWriteSQL c.sql then .ret (.result r, s)
  else if s.batch then
    .ret (.result r, { s with pendingPersist := s.pendingPersist ++ [c.sql] })
  else do
    match ← persistStatements mode [c.sql] c.disk with
    | .error e => return (errorReply (str "persist: " ++ e), s)
    | .ok () => return (.result r, s)

def statementTx (cfg : Config) (c : Call) (tx : Database) (s : Session) :
    Handler (Reply × Session) := do
  let p ← execTx tx (cfg.env c) c.sql
  let s := { s with tx := some p.2 }
  match p.1 with
  | .error .panic => .crash
  | .error (.error e) => return (.error (execErrorMessage e), s)
  | .ok r => return recordTx cfg.limits c.sql r s

def statement (cfg : Config) (c : Call) (s : Session) : Handler (Reply × Session) := do
  match ← exec (cfg.env c) c.sql with
  | .error .panic => .crash
  | .error (.error e) => return (.error (execErrorMessage e), s)
  | .ok r => recordWrite cfg.mode c r s

def executeSQL (cfg : Config) (c : Call) (s : Session) : Handler (Reply × Session) :=
  let sql := trimSpace c.sql
  if equalFold sql (str "BEGIN") then beginTx cfg s
  else if equalFold sql (str "ROLLBACK") then .ret (rollbackTx s)
  else if equalFold sql (str "COMMIT") then commitTx c s
  else
    match s.tx with
    | some tx => statementTx cfg c tx s
    | none => statement cfg c s

/-! ## Requests -/

/-- The statements of a batch, one after the other. -/
def executeAll (cfg : Config) : List Call → Session → Handler (List Reply × Session)
  | [], s => .ret ([], s)
  | c :: l, s => do
    let p ← executeSQL cfg c s
    let q ← executeAll cfg l p.2
    return (p.1 :: q.1, q.2)

def executeBatch (cfg : Config) (sqls : List Call) (disk : Disk) (s : Session) :
    Handler (Response × Session) := do
  let p ← executeAll cfg sqls { s with batch := true, pendingPersist := [] }
  let s := { p.2 with batch := false, pendingPersist := [] }
  match ← persistStatements cfg.mode p.2.pendingPersist disk with
  | .ok () => return (.batch p.1, s)
  | .error e => return (.batch (p.1 ++ [errorReply (str "persist batch: " ++ e)]), s)

/-- The statements of an atomic batch on its clone: the results and the writes, or the first
error with the number of its statement. -/
def executeOnClone (cfg : Config) : Nat → List Call → Database →
    Handler (Except ErrorText (List Reply × List Bytes × Database))
  | _, [], tx => .ret (.ok ([], [], tx))
  | n, c :: l, tx => do
    let p ← execTx tx (cfg.env c) c.sql
    match p.1 with
    | .error .panic => .crash
    | .error (.error e) =>
      return .error ((execErrorMessage e).after (str "statement " ++ decimal n ++ str ": "))
    | .ok r =>
      match ← executeOnClone cfg (n + 1) l p.2 with
      | .error e => return .error e
      | .ok q =>
        return .ok (.result r :: q.1, (if isWriteSQL c.sql then [c.sql] else []) ++ q.2.1, q.2.2)

def executeAtomicBatch (cfg : Config) (sqls : List Call) (disk : Disk) (s : Session) :
    Handler Response :=
  if s.tx.isSome then
    .ret (.single (errorReply (str "atomic batch not allowed inside a transaction")))
  else do
    let tx ← clone
    match ← executeOnClone cfg 1 sqls tx with
    | .error e => return .single (.error e)
    | .ok (out, writes, tx) =>
      match ← commitFrom tx writes disk with
      | .error e => return .single (errorReply (str "batch commit: " ++ e))
      | .ok () => return .batch out

def executeRequest (cfg : Config) (q : Request) (s : Session) : Handler (Response × Session) :=
  let busy : Response := .single (errorReply (str "server busy: too many concurrent queries"))
  if q.sqls.isEmpty then
    match bindParams q.sql.sql q.params with
    | .error e => .ret (.single (errorReply e), s)
    | .ok bound =>
      if q.busy then .ret (busy, s)
      else do
        let p ← executeSQL cfg { q.sql with sql := bound } s
        return (.single p.1, p.2)
  else if !q.params.isEmpty then
    .ret (.single (errorReply (str "params are only supported on single sql requests")), s)
  else if q.busy then .ret (busy, s)
  else if 0 < cfg.limits.maxBatchStatements ∧ cfg.limits.maxBatchStatements < q.sqls.length then
    .ret (.single (errorReply (str "batch exceeds maximum of " ++
      decimal cfg.limits.maxBatchStatements ++ str " statements")), s)
  else if q.atomic then do
    let r ← executeAtomicBatch cfg q.sqls q.disk s
    return (r, s)
  else executeBatch cfg q.sqls q.disk s

end SuperDB.Server
