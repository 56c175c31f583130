import SuperDB.Engine.Verify.Abort
import SuperDB.Engine.Verify.Clone
import SuperDB.Server.Session

/-!
# Error replies

COMMIT persists before it publishes, a statement outside a transaction is published before it is
persisted. So an error reply means that nothing was published, except where the persistence of a
statement fails that has taken effect already, and where a statement is aborted late.
-/

namespace SuperDB.Server

open Go Engine
open Storage (maxPayloadSize)

/-- Nothing was published: the contents and the number of published writes are the same. -/
def NothingPublished (db db' : Database) : Prop := db.Unchanged db' ∧ db'.revision = db.revision

theorem NothingPublished.refl (db : Database) : NothingPublished db db :=
  ⟨Database.Unchanged.of_tables rfl, rfl⟩

/-- BEGIN, ROLLBACK and COMMIT are not handed to the engine. -/
def isControl (raw : Bytes) : Bool :=
  equalFold (trimSpace raw) (str "BEGIN") || equalFold (trimSpace raw) (str "ROLLBACK") ||
    equalFold (trimSpace raw) (str "COMMIT")

def Session.autocommit (s : Session) (raw : Bytes) : Bool := s.tx.isNone && !isControl raw

/-- Whether a statement that has led to these tables is not made durable. -/
def persistFails (mode : Mode) (sql : Bytes) (tables : Map Table) (disk : Disk) : Bool :=
  match mode with
  | .wal => decide (maxPayloadSize < sql.length) || disk != .done
  | .snapshot => !encodable tables || disk != .done
  | .memory => false

/-- The statement is a write that takes effect on the shared database at once, and its persistence
fails. -/
def Session.unpersisted (cfg : Config) (c : Call) (s : Session) (db : Database) : Bool :=
  let p := db.execWithOptions (cfg.env c) c.sql
  s.autocommit c.sql && !s.batch && isWriteSQL c.sql && isOk p.1 &&
    persistFails cfg.mode c.sql p.2.tables c.disk

/-- The statement is aborted on the shared database after it has changed a table. -/
def Session.abortedLate (cfg : Config) (c : Call) (s : Session) (db : Database) : Bool :=
  s.autocommit c.sql && db.lateAbort (cfg.env c) c.sql

section

variable {cfg : Config} {c : Call} {s s' : Session} {sh : Shared} {text : ErrorText}

theorem isControl_eq_false : isControl c.sql = false ↔
    equalFold (trimSpace c.sql) (str "BEGIN") = false ∧
      equalFold (trimSpace c.sql) (str "ROLLBACK") = false ∧
      equalFold (trimSpace c.sql) (str "COMMIT") = false := by
  simp [isControl, and_assoc]

theorem run_beginTx : ((beginTx cfg s).run (Action.run cfg.mode) sh).2 = sh := by
  unfold beginTx
  split_ifs
  · rfl
  · rfl
  · rw [run_rowCount]
    split_ifs <;> rfl

theorem run_commitTx
    (h : ((commitTx c s).run (Action.run cfg.mode) sh).1 = some (.error text, s')) :
    ((commitTx c s).run (Action.run cfg.mode) sh).2.db = sh.db := by
  unfold commitTx at h ⊢
  cases htx : s.tx with
  | none => rfl
  | some tx =>
    simp only [htx] at h ⊢
    split_ifs at h ⊢
    · rfl
    · simp only [run_commitFrom, Shared.commitFrom] at h ⊢
      rcases Database.commitFrom_cases sh.db tx _ with ⟨e, he⟩ | ⟨-, -, hok⟩
      · rw [he]
        rfl
      · rw [hok] at h
        cases h

theorem run_statementTx {tx : Database} :
    ((statementTx cfg c tx s).run (Action.run cfg.mode) sh).2 = sh := by
  simp only [statementTx, run_execTx]
  generalize tx.execWithOptions (cfg.env c) c.sql = p
  obtain ⟨(e | _) | r, tx'⟩ := p <;> rfl

variable (cfg sh) in
theorem run_persist (sql : Bytes) (disk : Disk) :
    ((persistStatements cfg.mode [sql] disk).run (Action.run cfg.mode) sh).2.db = sh.db ∧
      (persistFails cfg.mode sql sh.db.tables disk = false →
        ((persistStatements cfg.mode [sql] disk).run (Action.run cfg.mode) sh).1 = some (.ok ())) ∧
      (persistFails cfg.mode sql sh.db.tables disk = true →
        ∃ e, ((persistStatements cfg.mode [sql] disk).run (Action.run cfg.mode) sh).1 =
          some (.error e)) := by
  unfold persistStatements persistFails
  cases cfg.mode with
  | memory => exact ⟨rfl, fun _ => rfl, fun h => absurd h Bool.false_ne_true⟩
  | wal =>
    refine ⟨rfl, ?_⟩
    simp only [append, Proc.run, Action.run, Store.append]
    by_cases hsize : maxPayloadSize < sql.length
    · simp [hsize]
    · cases disk <;> simp [hsize]
  | snapshot =>
    simp only [save, image, List.isEmpty_cons, Bool.false_eq_true, if_false, Proc.act_bind,
      Proc.ret_bind, Proc.run, Action.run]
    rcases sh.store.save_cases sh.db.tables disk with ⟨hencodable, rfl, hsave⟩ | ⟨hfails, e, hsave⟩
    · simp [hsave, hencodable]
    · simp [hsave, hfails]

variable (cfg c s sh) in
theorem run_recordWrite (r : Result) :
    ((recordWrite cfg.mode c r s).run (Action.run cfg.mode) sh).2.db = sh.db ∧
      ((∃ text s', ((recordWrite cfg.mode c r s).run (Action.run cfg.mode) sh).1 =
          some (.error text, s')) ↔
        isWriteSQL c.sql = true ∧ s.batch = false ∧
          persistFails cfg.mode c.sql sh.db.tables c.disk = true) := by
  unfold recordWrite
  cases hwrite : isWriteSQL c.sql with
  | false => simp [Proc.run]
  | true =>
    cases hbatch : s.batch with
    | true => simp [Proc.run]
    | false =>
      obtain ⟨hdb, hok, hfail⟩ := run_persist cfg sh c.sql c.disk
      simp only [Bool.not_true, Bool.false_eq_true, if_false, true_and]
      rw [Proc.run_bind]
      generalize (persistStatements cfg.mode [c.sql] c.disk).run (Action.run cfg.mode) sh = p at *
      obtain ⟨answer, sh'⟩ := p
      cases hp : persistFails cfg.mode c.sql sh.db.tables c.disk with
      | false =>
        obtain rfl : answer = some (.ok ()) := hok hp
        exact ⟨hdb, by simp [pure, Proc.run]⟩
      | true =>
        obtain ⟨e, rfl⟩ : ∃ e, answer = some (.error e) := hfail hp
        exact ⟨hdb, by simp [pure, Proc.run, errorReply]⟩

variable (cfg c s sh) in
theorem run_statement :
    ((statement cfg c s).run (Action.run cfg.mode) sh).2.db =
        (sh.db.execWithOptions (cfg.env c) c.sql).2 ∧
      ((∃ text s', ((statement cfg c s).run (Action.run cfg.mode) sh).1 = some (.error text, s')) ↔
        (∃ e, (sh.db.execWithOptions (cfg.env c) c.sql).1 = .error (.error e)) ∨
          isOk (sh.db.execWithOptions (cfg.env c) c.sql).1 = true ∧ isWriteSQL c.sql = true ∧
            s.batch = false ∧ persistFails cfg.mode c.sql
              (sh.db.execWithOptions (cfg.env c) c.sql).2.tables c.disk = true) := by
  unfold statement
  rw [run_exec]
  generalize sh.db.execWithOptions (cfg.env c) c.sql = p
  obtain ⟨(e | _) | r, db'⟩ := p
  · exact ⟨rfl, by simp [pure, Proc.run]⟩
  · exact ⟨rfl, by simp [Proc.run, isOk]⟩
  · obtain ⟨hdb, hreply⟩ := run_recordWrite cfg c s { sh with db := db' } r
    exact ⟨hdb, hreply.trans (by simp [isOk])⟩

theorem run_control (hcontrol : isControl c.sql = true)
    (h : ((executeSQL cfg c s).run (Action.run cfg.mode) sh).1 = some (.error text, s')) :
    ((executeSQL cfg c s).run (Action.run cfg.mode) sh).2.db = sh.db := by
  unfold executeSQL at h ⊢
  simp only at h ⊢
  split_ifs at h ⊢ with hbegin hrollback hcommit
  · rw [run_beginTx]
  · rfl
  · exact run_commitTx h
  · simp [isControl, hbegin, hrollback, hcommit] at hcontrol

variable (cfg c s sh) in
/-- **An error reply means that nothing was published, exactly if the statement is not one that has
taken effect when its persistence fails or that is aborted late.** -/
theorem error_reply_iff (hdb : sh.db.All Table.Consistent) :
    ((∃ text s', ((executeSQL cfg c s).run (Action.run cfg.mode) sh).1 = some (.error text, s')) →
      NothingPublished sh.db ((executeSQL cfg c s).run (Action.run cfg.mode) sh).2.db) ↔
    s.unpersisted cfg c sh.db = false ∧ s.abortedLate cfg c sh.db = false := by
  unfold Session.unpersisted Session.abortedLate Session.autocommit
  cases hcontrol : isControl c.sql with
  | true =>
    simp only [Bool.not_true, Bool.and_false, Bool.false_and, and_self, iff_true]
    rintro ⟨text, s', hreply⟩
    rw [run_control hcontrol hreply]
    exact NothingPublished.refl _
  | false =>
    obtain ⟨hbegin, hrollback, hcommit⟩ := isControl_eq_false.1 hcontrol
    simp only [executeSQL, hbegin, hrollback, hcommit, Bool.false_eq_true, if_false]
    cases htx : s.tx with
    | some tx =>
      simp only [Option.isNone_some, Bool.false_and, and_self, iff_true]
      rw [run_statementTx]
      exact fun _ => NothingPublished.refl _
    | none =>
      obtain ⟨hleft, hreply⟩ := run_statement cfg c s sh
      simp only [hleft, hreply, Option.isNone_none, Bool.not_false, Bool.true_and]
      constructor
      · intro hclaim
        constructor
        · rw [← Bool.not_eq_true]
          intro hun
          simp only [Bool.and_eq_true, Bool.not_eq_true'] at hun
          obtain ⟨⟨⟨hbatch, hwrite⟩, hok⟩, hfails⟩ := hun
          have hpub := (hclaim (Or.inr ⟨hok, hwrite, hbatch, hfails⟩)).2
          rw [Database.revision_execWithOptions,
            if_pos (by simpa [isWriteSQL, hok] using hwrite)] at hpub
          omega
        · rw [← Bool.not_eq_true]
          intro hlate
          obtain ⟨herror, hchanged⟩ := Database.lateAbort_changes hdb hlate
          exact hchanged (hclaim (Or.inl herror)).1
      · rintro ⟨hun, hlate⟩ (⟨e, he⟩ | ⟨hok, hwrite, hbatch, hfails⟩)
        · exact ⟨Database.Unchanged.of_tables (Database.tables_of_error hdb hlate he),
            by rw [Database.revision_execWithOptions]; simp [he, isOk]⟩
        · simp [hok, hwrite, hbatch, hfails] at hun

end

def oneTable : Shared := { db := ({} : Database).runAll (script ["CREATE TABLE t (v INT)"]) }

theorem oneTable_consistent : oneTable.db.All Table.Consistent :=
  Database.runAll_consistent (uncancelled_script _)

def unpersistedInsert : Call :=
  { sql := str "INSERT INTO t VALUES (1)", disk := .failed (str "no space left on device") 0 }

def singleInsert : Option (Reply × Session) × Shared :=
  (executeSQL { mode := .wal } unpersistedInsert {}).run (Action.run .wal) oneTable

def batchInsert : Option (Response × Session) × Shared :=
  (executeRequest { mode := .wal } { sqls := [unpersistedInsert], disk := unpersistedInsert.disk }
    {}).run (Action.run .wal) oneTable

/-- A FLOAT that has no text in a snapshot. -/
def nanInsert : Option (Reply × Session) × Shared :=
  (executeSQL { mode := .snapshot } { sql := str "INSERT INTO f VALUES (NaN)" } {}).run
    (Action.run .snapshot) { db := ({} : Database).runAll (script ["CREATE TABLE f (x FLOAT)"]) }

/-- The reply is an error, the row is there and the file has nothing of it. -/
theorem error_reply_unpersistedInsert :
    (singleInsert.1.map Prod.fst = some (errorReply (str "persist: no space left on device")) ∧
      (singleInsert.2.db.exec {} (str "SELECT v FROM t")).1 =
        .ok { columns := [str "v"], rows := [[.int 1]] } ∧ singleInsert.2.store.wal = []) ∧
    (batchInsert.1.map Prod.fst = some (.batch [.result { affected := 1 },
        errorReply (str "persist batch: no space left on device")]) ∧
      (batchInsert.2.db.exec {} (str "SELECT v FROM t")).1 =
        .ok { columns := [str "v"], rows := [[.int 1]] } ∧ batchInsert.2.store.wal = []) ∧
    nanInsert.1.map Prod.fst = some (errorReply (str ("persist: marshal snapshot: json: error " ++
        "calling MarshalJSON for type *engine.Database: invalid character '\x7d' after " ++
        "top-level value"))) ∧
      nanInsert.2.db.rowCount = 1 ∧ nanInsert.2.store.snapshot.isNone = true := by
  decide +kernel

def rejectedInsert : Call := { unpersistedInsert with sql := str "INSERT INTO t VALUES ('a')" }

theorem error_reply_rejectedInsert :
    (({} : Session).unpersisted { mode := .wal } rejectedInsert oneTable.db = false ∧
      ({} : Session).abortedLate { mode := .wal } rejectedInsert oneTable.db = false) ∧
    ((∃ text s', ((executeSQL { mode := .wal } rejectedInsert {}).run (Action.run .wal)
        oneTable).1 = some (.error text, s')) →
      NothingPublished oneTable.db
        ((executeSQL { mode := .wal } rejectedInsert {}).run (Action.run .wal) oneTable).2.db) := by
  have hcond : ({} : Session).unpersisted { mode := .wal } rejectedInsert oneTable.db = false ∧
      ({} : Session).abortedLate { mode := .wal } rejectedInsert oneTable.db = false := by
    decide +kernel
  exact ⟨hcond, (error_reply_iff _ _ _ _ oneTable_consistent).2 hcond⟩

end SuperDB.Server
