import SuperDB.Engine.Statement

/-!
# Executing statements

A statement is read against the database and then run. Besides statements, a database is changed
by publishing a clone of it, which transactions and atomic batches do.
-/

namespace SuperDB.Engine

open Go

def isReadOnly (sql : Bytes) : Bool :=
  let s := trimSpace sql
  hasPrefixFold s (str "SELECT") || hasPrefixFold s (str "SHOW") ||
    hasPrefixFold s (str "DESCRIBE") || hasPrefixFold s (str "DESC")

/-- The statement without surrounding white space and a final semicolon. -/
def statementText (sql : Bytes) : Bytes :=
  let s := trimSpace sql
  trimSpace (if s.getLast? = some (ch ';') then s.dropLast else s)

def replyStmt (r : Except Fault Result) : Except Fault Stmt := r.map .reply

/-- Reads a statement: the dispatch of `exec` with the part of each branch that changes nothing. -/
def Database.read (env : Env) (db : Database) (sql : Bytes) : Except Fault Stmt :=
  let s := statementText sql
  if hasPrefixFold s (str "CREATE TABLE") then createStmt s
  else if hasPrefixFold s (str "CREATE INDEX") then db.createIndexStmt s
  else if hasPrefixFold s (str "ALTER TABLE") then db.alterTableStmt s
  else if hasPrefixFold s (str "DROP TABLE") || hasPrefixFold s (str "DROP INDEX") then
    db.dropStmt s
  else if hasPrefixFold s (str "TRUNCATE") then db.truncateStmt s
  else if hasPrefixFold s (str "INSERT") then db.insertStmt env s
  else if hasPrefixFold s (str "SELECT") then replyStmt (db.selectRows env s)
  else if hasPrefixFold s (str "SHOW") || hasPrefixFold s (str "DESC") then
    replyStmt (db.meta env s)
  else if hasPrefixFold s (str "UPDATE") then db.updateStmt s
  else if hasPrefixFold s (str "DELETE FROM") then db.deleteStmt s
  else .error (fault "unsupported SQL")

def Stmt.run (env : Env) (db : Database) : Stmt → Except Fault Result × Database
  | .create name columns =>
    if name ∈ db.tables then (.error (fault "table exists"), db)
    else
      (.ok { message := str "table created" },
        { db with tables := db.tables.insert name { name, columns } })
  | .dropTable name ifExists =>
    if name ∈ db.tables then
      (.ok { message := str "table dropped" }, { db with tables := db.tables.erase name })
    else if ifExists then (.ok { message := str "table does not exist" }, db)
    else (.error (fault "table not found"), db)
  | .table name op =>
    match db.tables[name]? with
    | none => (.error (fault "table not found"), db)
    | some t =>
      ((op.run env t).1, { db with tables := db.tables.insert name (op.run env t).2 })
  | .reply r => (.ok r, db)

def Database.exec (env : Env) (db : Database) (sql : Bytes) : Except Fault Result × Database :=
  match db.read env sql with
  | .error f => (.error f, db)
  | .ok stmt => stmt.run env db

def isOk {ε α : Type} : Except ε α → Bool
  | .ok _ => true
  | .error _ => false

/-- Counts a successful write. The source's counter has 64 bits; it is unbounded here. -/
def Database.countWrite (sql : Bytes) (r : Except Fault Result) (db : Database) : Database :=
  if !isReadOnly sql && isOk r then { db with revision := db.revision + 1 } else db

/-- Executes a statement, looking at the context before and after the locks are taken. -/
def Database.execWithOptions (env : Env) (db : Database) (sql : Bytes) :
    Except Fault Result × Database :=
  match env.ctx .entry with
  | some e => (.error (.error (.context e)), db)
  | none =>
    match env.ctx .locked with
    | some e => (.error (.error (.context e)), db)
    | none =>
      let p := db.exec env sql
      (p.1, p.2.countWrite sql p.1)

def Database.rowCount (db : Database) : Nat :=
  (db.tables.keys.map fun name => (db.tables[name]?).elim 0 (·.rows.size)).sum

/-! ## Clones -/

/-- A copy of a table: without a fast array, what is left of its maps is not copied. -/
def Table.cloneLocked (t : Table) : Table := if t.fast = [] then t.clearFast else t

def Database.cloneImage (db : Database) : Database :=
  { tables := db.tables.map fun _ t => t.cloneLocked }

def Database.clone (db : Database) : Database :=
  { db.cloneImage with baseRevision := db.revision }

/-- Publishes a clone. A stale one is rejected; otherwise it is persisted first, which may fail,
and published after. -/
def Database.commitFrom (db source : Database) (persist : Except Bytes Unit) :
    Except Bytes Unit × Database :=
  if db.revision ≠ source.baseRevision then
    (.error (str "transaction conflict: database changed since BEGIN"), db)
  else
    match persist with
    | .error e => (.error e, db)
    | .ok () =>
      (.ok (), { db with tables := source.cloneImage.tables, revision := db.revision + 1 })

/-- `ReplaceFrom`: publishes a copy without looking for conflicts. -/
def Database.replaceFrom (db source : Database) : Database :=
  { db with tables := source.cloneImage.tables, revision := db.revision + 1 }

/-! ## Runs -/

/-- The state after a sequence of statements, each in its own environment. -/
def Database.runAll (db : Database) (l : List (Env × Bytes)) : Database :=
  l.foldl (fun db p => (db.execWithOptions p.1 p.2).2) db

/-- `ReplayWAL`: executes the records of a log, each in its own environment, until one fails. -/
def Database.replay : Database → List (Env × Bytes) → Except Fault Database
  | db, [] => .ok db
  | db, (env, sql) :: l =>
    match db.execWithOptions env sql with
    | (.error f, _) => .error f
    | (.ok _, db') => db'.replay l

/-- A run of statements in one environment. -/
def scriptIn (env : Env) (l : List String) : List (Env × Bytes) := l.map fun sql => (env, str sql)

/-- A run of statements in the default environment. -/
def script (l : List String) : List (Env × Bytes) := scriptIn {} l

/-- Runs that are never cancelled. -/
def Uncancelled (l : List (Env × Bytes)) : Prop := ∀ p ∈ l, p.1.Live

end SuperDB.Engine
