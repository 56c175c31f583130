import SuperDB.Engine.Verify.Clone
import SuperDB.Engine.Verify.Repeat
import SuperDB.Server.Verify.Discipline

/-!
# The order of the WAL

In wal mode a session applies a write to the shared database and appends it to the WAL in a later
step; a transaction is appended when it is published, in one step. Between the two the write waits.
As long as no write is appended while an older one of another session waits, and no transaction is
published while any write waits, the WAL has the writes in the order in which they were applied, and
replaying it gives the database.
-/

namespace SuperDB.Server

open Go Engine
open Storage (maxPayloadSize)

variable {i k : Nat} {l : List (Move Nat Request)}

/-! ## What a history says about writes -/

/-- The writes in the order in which they were applied to the shared database, and those of them
that wait to be appended, each with its session. -/
structure Journal where
  applied : List Bytes := []
  waiting : List (Nat × Bytes) := []

def Journal.record (j : Journal) : Event → Journal
  | ⟨sid, .exec _ sql, .ok _⟩ =>
    { applied := j.applied ++ writesOf sql
      waiting := j.waiting ++ (writesOf sql).map fun w => (sid, w) }
  | ⟨_, .commitFrom _ sqls _, .ok ()⟩ => { j with applied := j.applied ++ sqls }
  | ⟨sid, .append _ _, _⟩ => { j with waiting := j.waiting.filter (·.1 ≠ sid) }
  | _ => j

def journal (history : List Event) : Journal := history.foldl Journal.record {}

theorem journal_append (history : List Event) (e : Event) :
    journal (history ++ [e]) = (journal history).record e := by
  simp only [journal, List.foldl_append, List.foldl_cons, List.foldl_nil]

def Journal.waitingOf (j : Journal) (i : Nat) : List (Nat × Bytes) := j.waiting.filter (·.1 = i)

/-- The condition on the actions of a run: a session appends its writes when no older write of
another session waits, and publishes a transaction with writes when none waits; the disk takes what
is written; and statements can be replayed. -/
def InOrder (i : Nat) (a : Action) (g : Logged) : Prop :=
  match a with
  | .exec env sql => g.shared.db.Repeatable env sql
  | .execTx tx env sql => tx.Repeatable env sql
  | .append sqls disk =>
    disk = .done ∧ (∀ sql ∈ sqls, sql.length ≤ maxPayloadSize) ∧
      (journal g.history).waitingOf i <+: (journal g.history).waiting
  | .commitFrom tx sqls disk =>
    disk = .done ∧
      (sqls ≠ [] → tx.baseRevision = g.shared.db.revision → (journal g.history).waiting = [])
  | _ => True

instance (i : Nat) (a : Action) (g : Logged) : Decidable (InOrder i a g) := by
  unfold InOrder
  split <;> infer_instance

/-- The WAL holds the writes that were applied, in their order, up to those that wait; replaying all
of them on the first database gives the present one. -/
structure Ordered (sorter : Sorter) (sh : Shared) (g : Logged) : Prop where
  wal : ∃ new, g.shared.store.wal = sh.store.wal ++ new ∧
    (journal g.history).applied = new ++ (journal g.history).waiting.map (·.2)
  reached : sh.db.Reached sorter (journal g.history).applied g.shared.db
  sound : g.shared.db.Sound

/-- What a session relies on: the others leave its writes waiting, and change the database only
with its revision. -/
structure Steady (i : Nat) (g g' : Logged) : Prop where
  waiting : (journal g'.history).waitingOf i = (journal g.history).waitingOf i
  revision : g.shared.db.revision ≤ g'.shared.db.revision
  same : g'.shared.db.revision = g.shared.db.revision → g'.shared.db = g.shared.db

theorem Steady.refl (i : Nat) (g : Logged) : Steady i g g := ⟨rfl, Nat.le_refl _, fun _ => rfl⟩

theorem Steady.trans {g₁ g₂ g₃ : Logged} (h : Steady i g₁ g₂) (h' : Steady i g₂ g₃) :
    Steady i g₁ g₃ where
  waiting := h'.waiting.trans h.waiting
  revision := Nat.le_trans h.revision h'.revision
  same hrev := by
    have hle := h.revision
    have hle' := h'.revision
    exact (h'.same (by omega)).trans (h.same (by omega))

def walRules (cfg : Config) (sh : Shared) (i : Nat) : Rules Action Action.Answer Logged where
  handle := Logged.perform cfg.mode i
  pre a g := Ordered cfg.sorter sh g ∧ InOrder i a g
  rely := Steady i
  guar g g' := (∀ j, j ≠ i → Steady j g g') ∧ Ordered cfg.sorter sh g'
  rely_refl := Steady.refl i
  rely_trans := Steady.trans

theorem writesOf_read {sql : Bytes} (h : isReadOnly sql = true) : writesOf sql = [] := by
  simp [writesOf, isWriteSQL, h]

theorem writesOf_write {sql : Bytes} (h : isReadOnly sql = false) : writesOf sql = [sql] := by
  simp [writesOf, isWriteSQL, h]

/-! ## What a session knows -/

/-- A copy was taken at an earlier revision, or it is what the writes recorded for it make of the
shared database. -/
structure Tracks (sorter : Sorter) (tx : Database) (writes : List Bytes) (g : Logged) : Prop where
  base : tx.baseRevision ≤ g.shared.db.revision
  sound : tx.Sound
  reached : tx.baseRevision = g.shared.db.revision → g.shared.db.Reached sorter writes tx

section Tracks

variable {sorter : Sorter} {i : Nat} {tx : Database} {writes : List Bytes} {g g' : Logged}

theorem Tracks.steady (h : Tracks sorter tx writes g) (hg : Steady i g g') :
    Tracks sorter tx writes g' where
  base := Nat.le_trans h.base hg.revision
  sound := h.sound
  reached hrev := by
    have hbase := h.base
    have hgrow := hg.revision
    rw [hg.same (by omega)]
    exact h.reached (by omega)

theorem Tracks.clone (hsound : g.shared.db.Sound) (hdb : g'.shared.db = g.shared.db) :
    Tracks sorter g.shared.db.clone [] g' := by
  rw [← hdb] at hsound ⊢
  exact ⟨Nat.le_refl _, Database.All.of_tables hsound.cloneImage rfl,
    fun _ => Database.Reached.refl (Database.same_clone _).symm⟩

variable (g') in
theorem Tracks.execTx {env : Env} {sql : Bytes} (hlive : env.Live)
    (hthreshold : env.threshold = some 256) (hsorter : env.sorter = sorter)
    (hok : tx.Repeatable env sql) (h : Tracks sorter tx writes g)
    (hdb : g'.shared.db = g.shared.db) :
    match (tx.execWithOptions env sql).1 with
    | .ok _ => Tracks sorter (tx.execWithOptions env sql).2 (writes ++ writesOf sql) g'
    | .error _ => Tracks sorter (tx.execWithOptions env sql).2 writes g' := by
  have hkeep : Tracks sorter tx writes g' := ⟨hdb ▸ h.base, h.sound, hdb ▸ h.reached⟩
  cases hanswer : (tx.execWithOptions env sql).1 with
  | error f =>
    simp only
    rw [Database.execWithOptions_error hlive hanswer]
    exact hkeep
  | ok r =>
    simp only
    cases hread : isReadOnly sql with
    | true =>
      rw [Database.execWithOptions_readOnly _ _ hread, writesOf_read hread, List.append_nil]
      exact hkeep
    | false =>
      rw [writesOf_write hread]
      have hbase := tx.baseRevision_execWithOptions env sql
      refine ⟨hbase ▸ hkeep.base, h.sound.execWithOptions hlive sql, fun hrev => ?_⟩
      exact (hkeep.reached (hbase ▸ hrev)).trans
        (Database.Reached.write hlive hthreshold hsorter h.sound hok hread hanswer)

end Tracks

/-! ## The actions -/

section Actions

variable {cfg : Config} {sh : Shared} {i : Nat} {g g' : Logged}

variable (cfg i g) in
theorem journal_perform (a : Action) :
    journal (Logged.perform cfg.mode i a g).2.history =
      (journal g.history).record ⟨i, a, (Logged.perform cfg.mode i a g).1⟩ :=
  journal_append _ _

theorem Ordered.quiet (h : Ordered cfg.sorter sh g) (hshared : g'.shared = g.shared)
    (hjournal : journal g'.history = journal g.history) : (walRules cfg sh i).guar g g' := by
  refine ⟨fun j _ => ⟨by rw [hjournal], by rw [hshared], fun _ => by rw [hshared]⟩, ?_⟩
  obtain ⟨hwal, hreached, hsound⟩ := h
  rw [← hshared] at hwal hreached hsound
  rw [← hjournal] at hwal hreached
  exact ⟨hwal, hreached, hsound⟩

theorem Journal.waitingOf_append_other {j : Nat} (hj : j ≠ k) (jr : Journal) (l : List Bytes) :
    Journal.waitingOf { jr with waiting := jr.waiting ++ l.map fun w => (k, w) } j =
      jr.waitingOf j := by
  unfold Journal.waitingOf
  rw [List.filter_append, List.append_right_eq_self, List.filter_eq_nil_iff]
  intro p hp
  obtain ⟨w, -, rfl⟩ := List.mem_map.1 hp
  simpa using Ne.symm hj

theorem Journal.waitingOf_append_self (k : Nat) (jr : Journal) (l : List Bytes) :
    Journal.waitingOf { jr with waiting := jr.waiting ++ l.map fun w => (k, w) } k =
      jr.waitingOf k ++ l.map fun w => (k, w) := by
  unfold Journal.waitingOf
  rw [List.filter_append]
  congr 1
  rw [List.filter_eq_self]
  intro p hp
  obtain ⟨w, -, rfl⟩ := List.mem_map.1 hp
  simp

theorem Journal.waitingOf_filter_other {j : Nat} (hj : j ≠ k) (jr : Journal) :
    Journal.waitingOf { jr with waiting := jr.waiting.filter (·.1 ≠ k) } j = jr.waitingOf j := by
  unfold Journal.waitingOf
  simp only [List.filter_filter]
  congr 1
  funext p
  by_cases hp : p.1 = j
  · simp [hp, hj]
  · simp [hp]

theorem Journal.waiting_eq {j : Journal} (h : j.waitingOf k <+: j.waiting) :
    j.waiting = j.waitingOf k ++ j.waiting.filter (·.1 ≠ k) := by
  obtain ⟨rest, hrest⟩ := h
  have hself : (j.waitingOf k).filter (·.1 = k) = j.waitingOf k := by
    unfold Journal.waitingOf
    rw [List.filter_filter]
    congr 1
    funext p
    simp
  have hnone : rest.filter (·.1 = k) = [] := by
    have hsplit : j.waitingOf k = (j.waitingOf k ++ rest).filter (·.1 = k) := by
      rw [hrest]
      rfl
    rw [List.filter_append, hself] at hsplit
    simpa using hsplit
  have hothers : j.waiting.filter (·.1 ≠ k) = rest := by
    rw [← hrest, List.filter_append]
    have hempty : (j.waitingOf k).filter (·.1 ≠ k) = [] := by
      rw [List.filter_eq_nil_iff]
      intro p hp
      have hpk := (List.mem_filter.1 hp).2
      simpa using hpk
    rw [hempty, List.nil_append, List.filter_eq_self]
    intro p hp
    have hpk := (List.filter_eq_nil_iff.1 hnone) p hp
    simpa using hpk
  rw [hothers, hrest]

theorem exec_ordered (env : Env) (sql : Bytes) (hlive : env.Live)
    (hthreshold : env.threshold = some 256) (hsorter : env.sorter = cfg.sorter)
    (h : Ordered cfg.sorter sh g) (hok : g.shared.db.Repeatable env sql) :
    (walRules cfg sh i).guar g (Logged.perform cfg.mode i (.exec env sql) g).2 ∧
      match (Logged.perform cfg.mode i (.exec env sql) g).1 with
      | .ok _ => (journal (Logged.perform cfg.mode i (.exec env sql) g).2.history).waitingOf i =
          (journal g.history).waitingOf i ++ (writesOf sql).map fun w => (i, w)
      | .error _ => (journal (Logged.perform cfg.mode i (.exec env sql) g).2.history).waitingOf i =
          (journal g.history).waitingOf i := by
  have hjournal := journal_perform cfg i g (.exec env sql)
  have hdb : (Logged.perform cfg.mode i (.exec env sql) g).2.shared =
      { g.shared with db := (g.shared.db.execWithOptions env sql).2 } := rfl
  have hanswer : (Logged.perform cfg.mode i (.exec env sql) g).1 =
      (g.shared.db.execWithOptions env sql).1 := rfl
  have hrevision := g.shared.db.revision_execWithOptions env sql
  rw [hanswer] at hjournal ⊢
  generalize (Logged.perform cfg.mode i (.exec env sql) g).2 = g' at hjournal hdb ⊢
  cases hr : (g.shared.db.execWithOptions env sql).1 with
  | error f =>
    rw [hr] at hjournal
    rw [Database.execWithOptions_error hlive hr] at hdb
    exact ⟨h.quiet hdb hjournal, by rw [hjournal]; rfl⟩
  | ok r =>
    rw [hr] at hjournal hrevision
    have hself : (journal g'.history).waitingOf i =
        (journal g.history).waitingOf i ++ (writesOf sql).map fun w => (i, w) := by
      rw [hjournal]
      exact Journal.waitingOf_append_self i _ _
    refine ⟨?_, hself⟩
    cases hread : isReadOnly sql with
    | true =>
      rw [Database.execWithOptions_readOnly _ _ hread] at hdb
      refine h.quiet hdb ?_
      rw [hjournal]
      simp only [Journal.record, writesOf_read hread, List.append_nil, List.map_nil]
    | false =>
      rw [hread] at hrevision
      have hrev : g'.shared.db.revision = g.shared.db.revision + 1 := by
        rw [hdb]
        exact hrevision
      refine ⟨fun j hj => ⟨?_, by omega, fun hsame => by omega⟩, ?_, ?_, ?_⟩
      · rw [hjournal]
        exact Journal.waitingOf_append_other hj _ _
      · obtain ⟨new, hwal, happlied⟩ := h.wal
        refine ⟨new, by rw [hdb]; exact hwal, ?_⟩
        rw [hjournal]
        simp only [Journal.record, happlied, List.map_append, List.map_map, List.append_assoc]
        simp
      · rw [hjournal, hdb]
        simp only [Journal.record, writesOf_write hread]
        exact h.reached.trans
          (Database.Reached.write hlive hthreshold hsorter h.sound hok hread hr)
      · rw [hdb]
        exact h.sound.execWithOptions hlive sql

theorem append_ordered {sqls : List Bytes} {disk : Disk} (h : Ordered cfg.sorter sh g)
    (hin : InOrder i (.append sqls disk) g)
    (hsqls : ((journal g.history).waitingOf i).map (·.2) = sqls) :
    (walRules cfg sh i).guar g (Logged.perform cfg.mode i (.append sqls disk) g).2 ∧
      (journal (Logged.perform cfg.mode i (.append sqls disk) g).2.history).waitingOf i = [] := by
  obtain ⟨rfl, hsize, hfront⟩ := hin
  have hjournal := journal_perform cfg i g (.append sqls .done)
  have hwal : (Logged.perform cfg.mode i (.append sqls .done) g).2.shared =
      { g.shared with store := { g.shared.store with wal := g.shared.store.wal ++ sqls } } := by
    have hfit : (sqls.any fun sql => maxPayloadSize < sql.length) = false := by
      rw [List.any_eq_false]
      intro sql hsql
      simpa using hsize sql hsql
    show { g.shared with store := (g.shared.store.append sqls .done).2 } = _
    unfold Store.append
    cases sqls with
    | nil => simp
    | cons sql sqls => simp only [List.isEmpty_cons, Bool.false_eq_true, if_false, hfit]
  have hrecord : journal (Logged.perform cfg.mode i (.append sqls .done) g).2.history =
      { journal g.history with waiting := (journal g.history).waiting.filter (·.1 ≠ i) } := hjournal
  generalize (Logged.perform cfg.mode i (.append sqls .done) g).2 = g' at hrecord hwal ⊢
  refine ⟨⟨fun j hj => ⟨?_, by rw [hwal], fun _ => by rw [hwal]⟩, ?_, ?_, ?_⟩, ?_⟩
  · rw [hrecord]
    exact Journal.waitingOf_filter_other hj _
  · obtain ⟨new, hnew, happlied⟩ := h.wal
    refine ⟨new ++ sqls, by rw [hwal, ← List.append_assoc, ← hnew], ?_⟩
    rw [hrecord]
    simp only
    rw [happlied, Journal.waiting_eq hfront, List.map_append, hsqls, List.append_assoc]
    congr 3
    rw [← Journal.waiting_eq hfront]
  · rw [hrecord, hwal]
    exact h.reached
  · rw [hwal]
    exact h.sound
  · rw [hrecord]
    simp only [Journal.waitingOf, List.filter_filter]
    rw [List.filter_eq_nil_iff]
    intro p _
    simp

/-- An append that the disk takes writes all records, or none because one is too large. -/
theorem Store.append_done (store : Store) (sqls : List Bytes) :
    (∃ e, store.append sqls .done = (.error e, store)) ∨
      store.append sqls .done = (.ok (), { store with wal := store.wal ++ sqls }) := by
  unfold Store.append
  cases sqls with
  | nil => exact Or.inr (by simp)
  | cons sql sqls =>
    simp only [List.isEmpty_cons, Bool.false_eq_true, if_false]
    split
    · exact Or.inl ⟨_, rfl⟩
    · exact Or.inr rfl

theorem Shared.commitFrom_cases (sh : Shared) (tx : Database) (writes : List Bytes) :
    (∃ e, sh.commitFrom .wal tx writes .done = (.error e, sh)) ∨
      sh.db.revision = tx.baseRevision ∧ sh.commitFrom .wal tx writes .done =
        (.ok (),
          { db := { sh.db with tables := tx.cloneImage.tables, revision := sh.db.revision + 1 }
            store := { sh.store with wal := sh.store.wal ++ writes } }) := by
  unfold Shared.commitFrom
  simp only [Store.persist]
  by_cases hrev : sh.db.revision = tx.baseRevision
  · rcases sh.store.append_done writes with ⟨e, happend⟩ | happend
    · refine Or.inl ⟨e, ?_⟩
      rw [happend]
      simp only [Database.commitFrom, hrev, ne_eq, not_true_eq_false, if_false, if_true]
    · refine Or.inr ⟨hrev, ?_⟩
      rw [happend]
      simp only [Database.commitFrom, hrev, ne_eq, not_true_eq_false, if_false, if_true]
  · refine Or.inl ⟨str "transaction conflict: database changed since BEGIN", ?_⟩
    simp only [Database.commitFrom, ne_eq, hrev, not_false_eq_true, if_true, if_false]

theorem commitFrom_ordered {tx : Database} {writes : List Bytes} {disk : Disk}
    (h : Ordered cfg.sorter sh g) (hmode : cfg.mode = .wal)
    (hin : InOrder i (.commitFrom tx writes disk) g) (htx : Tracks cfg.sorter tx writes g) :
    (walRules cfg sh i).guar g (Logged.perform cfg.mode i (.commitFrom tx writes disk) g).2 ∧
      (journal (Logged.perform cfg.mode i (.commitFrom tx writes disk) g).2.history).waitingOf i =
        (journal g.history).waitingOf i ∧
      ∀ e, (Logged.perform cfg.mode i (.commitFrom tx writes disk) g).1 = .error e →
        (Logged.perform cfg.mode i (.commitFrom tx writes disk) g).2.shared.db = g.shared.db := by
  obtain ⟨rfl, hempty⟩ := hin
  have hjournal := journal_perform cfg i g (.commitFrom tx writes .done)
  have hanswer : (Logged.perform cfg.mode i (.commitFrom tx writes .done) g).1 =
      (g.shared.commitFrom cfg.mode tx writes .done).1 := rfl
  have hshared : (Logged.perform cfg.mode i (.commitFrom tx writes .done) g).2.shared =
      (g.shared.commitFrom cfg.mode tx writes .done).2 := rfl
  rw [hanswer] at hjournal ⊢
  generalize (Logged.perform cfg.mode i (.commitFrom tx writes .done) g).2 =
    g' at hjournal hshared ⊢
  rw [hmode] at hjournal hshared ⊢
  rcases g.shared.commitFrom_cases tx writes with ⟨e, hfail⟩ | ⟨hrev, hdone⟩
  · rw [hfail] at hjournal hshared
    exact ⟨h.quiet hshared hjournal, by rw [hjournal]; rfl, fun _ _ => by rw [hshared]⟩
  · rw [hdone] at hjournal hshared ⊢
    have hgrow : g'.shared.db.revision = g.shared.db.revision + 1 := by rw [hshared]
    refine ⟨⟨fun j _ => ⟨by rw [hjournal]; rfl, by omega, fun hsame => by omega⟩, ?_, ?_, ?_⟩,
      by rw [hjournal]; rfl, fun e he => by cases he⟩
    · obtain ⟨new, hwal, happlied⟩ := h.wal
      refine ⟨new ++ writes, by rw [hshared, ← List.append_assoc, ← hwal], ?_⟩
      rw [hjournal]
      simp only [Journal.record, happlied, List.append_assoc]
      by_cases hwrites : writes = []
      · rw [hwrites]
        simp
      · rw [hempty hwrites hrev.symm]
        simp
    · rw [hjournal, hshared]
      refine h.reached.trans ?_
      intro d l hd hsound hl
      obtain ⟨d', hrun, hd', hsound'⟩ := htx.reached hrev.symm d l hd hsound hl
      refine ⟨d', hrun, hd'.trans ?_, hsound'⟩
      exact (Database.same_clone tx).symm
    · rw [hshared]
      exact Database.All.of_tables htx.sound.cloneImage rfl

end Actions

/-- A session knows which of its writes wait, and what its copy is. -/
def walDiscipline (cfg : Config) (hmode : cfg.mode = .wal) (sh : Shared) (i : Nat) :
    Discipline cfg Env.Live (walRules cfg sh i) where
  Knows copy owed g := ((journal g.history).waitingOf i).map (·.2) = owed ∧
    ∀ p ∈ copy, Tracks cfg.sorter p.1 p.2 g
  stable hg h := ⟨by rw [hg.waiting]; exact h.1, fun p hp => (h.2 p hp).steady hg⟩
  forget h := ⟨h.1, fun p hp => by cases hp⟩
  rowCount_step h hpre :=
    ⟨hpre.1.quiet rfl (journal_perform _ _ _ _), by
      refine ⟨?_, fun p hp => by cases hp⟩
      rw [← h.1]
      exact congrArg (fun j : Journal => (j.waitingOf i).map (·.2)) (journal_perform _ _ _ _)⟩
  clone_step {owed g} h hpre := by
    have hjournal := journal_perform cfg i g .clone
    refine ⟨hpre.1.quiet rfl hjournal, ?_, fun p hp => ?_⟩
    · rw [← h.1]
      exact congrArg (fun j : Journal => (j.waitingOf i).map (·.2)) hjournal
    · cases hp
      exact Tracks.clone hpre.1.sound rfl
  exec_step {c owed g} hlive h hpre := by
    obtain ⟨hguar, hwaiting⟩ := exec_ordered (i := i) (cfg.env c) c.sql hlive rfl rfl hpre.1 hpre.2
    refine ⟨hguar, ?_⟩
    have hhandle : (walRules cfg sh i).handle (.exec (cfg.env c) c.sql) g =
        Logged.perform cfg.mode i (.exec (cfg.env c) c.sql) g := rfl
    rw [hhandle]
    rcases hperform : Logged.perform cfg.mode i (.exec (cfg.env c) c.sql) g with ⟨e | r, g'⟩
    · rw [hperform] at hwaiting
      exact ⟨by rw [hwaiting]; exact h.1, fun p hp => by cases hp⟩
    · rw [hperform] at hwaiting
      refine ⟨?_, fun p hp => by cases hp⟩
      rw [hwaiting, List.map_append, h.1, List.map_map]
      simp
  execTx_step {c tx writes owed g} hlive h hpre := by
    have hjournal := journal_perform cfg i g (.execTx tx (cfg.env c) c.sql)
    have hsame : journal (Logged.perform cfg.mode i (.execTx tx (cfg.env c) c.sql) g).2.history =
        journal g.history := hjournal
    have htracks := (h.2 _ rfl).execTx (Logged.perform cfg.mode i
      (.execTx tx (cfg.env c) c.sql) g).2 hlive rfl rfl hpre.2 rfl
    refine ⟨hpre.1.quiet rfl hsame, ?_⟩
    have hhandle : (walRules cfg sh i).handle (.execTx tx (cfg.env c) c.sql) g =
        Logged.perform cfg.mode i (.execTx tx (cfg.env c) c.sql) g := rfl
    have hanswer : (Logged.perform cfg.mode i (.execTx tx (cfg.env c) c.sql) g).1 =
        tx.execWithOptions (cfg.env c) c.sql := rfl
    rw [hhandle]
    rw [← hanswer] at htracks
    rcases hperform : Logged.perform cfg.mode i (.execTx tx (cfg.env c) c.sql) g with
      ⟨⟨e | r, tx'⟩, g'⟩
    · rw [hperform] at htracks hsame
      exact ⟨by rw [hsame]; exact h.1, fun p hp => by cases hp; exact htracks⟩
    · rw [hperform] at htracks hsame
      exact ⟨by rw [hsame]; exact h.1, fun p hp => by cases hp; exact htracks⟩
  commitFrom_step {tx writes owed disk g} h hpre := by
    obtain ⟨hguar, hwaiting, hfail⟩ := commitFrom_ordered hpre.1 hmode hpre.2 (h.2 _ rfl)
    refine ⟨hguar, ?_⟩
    have hhandle : (walRules cfg sh i).handle (.commitFrom tx writes disk) g =
        Logged.perform cfg.mode i (.commitFrom tx writes disk) g := rfl
    rw [hhandle]
    rcases hperform : Logged.perform cfg.mode i (.commitFrom tx writes disk) g with ⟨e | u, g'⟩
    · rw [hperform] at hwaiting hfail
      have hdb : g'.shared.db = g.shared.db := hfail e rfl
      refine ⟨by rw [hwaiting]; exact h.1, fun p hp => ?_⟩
      obtain ⟨hbase, hsound, hreached⟩ := h.2 p hp
      exact ⟨hdb ▸ hbase, hsound, hdb ▸ hreached⟩
    · rw [hperform] at hwaiting
      exact ⟨by rw [hwaiting]; exact h.1, fun p hp => by cases hp⟩
  persist_spec {copy owed disk g} h := by
    unfold persistStatements
    rw [hmode]
    intro g₁ hrely hpre
    have hwaiting : ((journal g₁.history).waitingOf i).map (·.2) = owed := by
      rw [hrely.waiting]
      exact h.1
    obtain ⟨hguar, hdone⟩ := append_ordered hpre.1 hpre.2 hwaiting
    refine ⟨hguar, fun g₂ hrely' => ⟨?_, fun p hp => ?_⟩⟩
    · rw [hrely'.waiting]
      exact congrArg (List.map _) hdone
    · have htracks := (h.2 p hp).steady hrely
      have hown : Tracks cfg.sorter p.1 p.2 (Logged.perform cfg.mode i (.append owed disk) g₁).2 :=
        ⟨htracks.base, htracks.sound, htracks.reached⟩
      exact hown.steady hrely'

/-! ## Every run -/

/-- What holds after a run in order. -/
theorem ordered_run (cfg : Config) (hmode : cfg.mode = .wal) (sh : Shared) (hsound : sh.db.Sound)
    (hl : (startOn sh).Runs (localServer cfg) (Request.Live cfg) InOrder l) :
    let w := (startOn sh).run (localServer cfg) l
    Ordered cfg.sorter sh w.shared ∧
      ∀ i, (w.conn i).isIdle = true → (journal w.shared.history).waitingOf i = [] := by
  have hhandle : ∀ i, (walRules cfg sh i).handle = (localServer cfg).handle i := fun _ => rfl
  have hserve : ∀ i q s g, Request.Live cfg q → (walDiscipline cfg hmode sh i).Between false s g →
      ((localServer cfg).serve q s).Spec (walRules cfg sh i)
        (fun r => (walDiscipline cfg hmode sh i).Between false r.2) g :=
    fun i q s g hq hs => (walDiscipline cfg hmode sh i).executeRequest_spec hq hs
  have hstart : (startOn sh).Holds (walRules cfg sh)
      fun i => (walDiscipline cfg hmode sh i).Between false :=
    fun i g' hg => ⟨⟨by rw [hg.waiting]; rfl, fun p hp => by cases hp⟩, rfl, fun _ => rfl⟩
  have hordered : Ordered cfg.sorter sh (startOn sh).shared :=
    ⟨⟨[], (List.append_nil _).symm, rfl⟩, Database.Reached.refl (Database.Same.refl _), hsound⟩
  obtain ⟨hholds, hrun⟩ := World.Holds.run hhandle (fun i j _ _ hj hg => hg.1 j hj) hserve
    (fun _ _ _ hP hin => ⟨hP, hin⟩) (fun _ _ _ hg _ => hg.2) hstart hordered hl
  refine ⟨hrun, fun i hidle => ?_⟩
  obtain ⟨s, hs⟩ := Conn.exists_idle hidle
  have hknows := hholds.idle hs
  have hwaiting := hknows.1.1
  rw [hknows.2.2 rfl] at hwaiting
  exact List.map_eq_nil_iff.1 hwaiting

/-- Once every session has been answered, what has been appended is what was applied, and every
replay of it gives the shared database. -/
theorem ordered_idle (cfg : Config) (hmode : cfg.mode = .wal) (sh : Shared) (hsound : sh.db.Sound)
    (hl : (startOn sh).Runs (localServer cfg) (Request.Live cfg) InOrder l)
    (hidle : ∀ i, (((startOn sh).run (localServer cfg) l).conn i).isIdle = true) :
    let w := (startOn sh).run (localServer cfg) l
    w.shared.shared.store.wal = sh.store.wal ++ (journal w.shared.history).applied ∧
      ∀ replay, ReplayOf cfg.sorter (journal w.shared.history).applied replay →
        ∃ d, sh.db.replay replay = .ok d ∧ d.Same w.shared.shared.db := by
  intro w
  obtain ⟨⟨⟨new, hwal, happlied⟩, hreached, -⟩, hanswered⟩ := ordered_run cfg hmode sh hsound hl
  have hwaiting : (journal w.shared.history).waiting = [] := by
    rw [List.eq_nil_iff_forall_not_mem]
    intro p hp
    have hmem : p ∈ (journal w.shared.history).waitingOf p.1 :=
      List.mem_filter.2 ⟨hp, decide_eq_true rfl⟩
    rw [hanswered p.1 (hidle p.1)] at hmem
    cases hmem
  rw [hwaiting, List.map_nil, List.append_nil] at happlied
  refine ⟨by rw [hwal, happlied], fun replay hreplay => ?_⟩
  obtain ⟨d, hd, hdb, -⟩ := hreached sh.db replay (Database.Same.refl _) hsound hreplay
  exact ⟨d, hd, hdb⟩

/-- **The WAL has the order of the writes.** In a run in wal mode in which the writes are appended
in order, the WAL holds the writes as they were applied, up to those that wait; once every session
has been answered none waits, and every replay of what was appended gives the shared database. -/
theorem wal_order_eq_commit_order (cfg : Config) (hmode : cfg.mode = .wal) (sh : Shared)
    (hsound : sh.db.Sound) (hl : (startOn sh).Runs (localServer cfg) (Request.Live cfg) InOrder l) :
    let w := (startOn sh).run (localServer cfg) l
    ∃ new, w.shared.shared.store.wal = sh.store.wal ++ new ∧
      (journal w.shared.history).applied = new ++ (journal w.shared.history).waiting.map (·.2) ∧
      ((∀ i, (w.conn i).isIdle = true) →
        (journal w.shared.history).applied = new ∧
          ∀ replay, ReplayOf cfg.sorter new replay →
            ∃ d, sh.db.replay replay = .ok d ∧ d.Same w.shared.shared.db) := by
  intro w
  obtain ⟨⟨⟨new, hwal, happlied⟩, -, -⟩, -⟩ := ordered_run cfg hmode sh hsound hl
  refine ⟨new, hwal, happlied, fun hidle => ?_⟩
  obtain ⟨hall, hreplay⟩ := ordered_idle cfg hmode sh hsound hl hidle
  have hnew : (journal w.shared.history).applied = new :=
    List.append_cancel_left (hall.symm.trans hwal)
  exact ⟨hnew, hnew ▸ hreplay⟩

/-- Session 1 fills the table that session 0 has created but not yet appended. -/
def appendedLate : List (Move Nat Request) :=
  [.send 0 (request "CREATE TABLE t (v INT)"), .act 0,
    .send 1 (request "INSERT INTO t VALUES (1)"), .act 1, .act 1, .act 0]

/-- Both are answered without an error, and their WAL cannot be replayed. -/
theorem wal_order_eq_commit_order_appendedLate :
    let w := (startOn {}).run (localServer { mode := .wal }) appendedLate
    w.replies.map (·.1) = [1, 0] ∧
      (journal w.shared.history).applied =
        [str "CREATE TABLE t (v INT)", str "INSERT INTO t VALUES (1)"] ∧
      w.shared.shared.store.wal =
        [str "INSERT INTO t VALUES (1)", str "CREATE TABLE t (v INT)"] ∧
      (Database.replay {} (w.shared.shared.store.wal.map fun sql => (({} : Env), sql))).isOk =
        false := by
  decide +kernel

def appendedInTurn : List (Move Nat Request) :=
  [.send 0 (request "CREATE TABLE t (v INT)"), .act 0, .act 0,
    .send 1 (request "INSERT INTO t VALUES (1)"), .act 1, .act 1]

theorem wal_order_eq_commit_order_appendedInTurn :
    ((startOn {}).run (localServer { mode := .wal }) appendedInTurn).shared.shared.store.wal =
        [str "CREATE TABLE t (v INT)", str "INSERT INTO t VALUES (1)"] ∧
      ∃ new, ((startOn {}).run (localServer { mode := .wal })
        appendedInTurn).shared.shared.store.wal =
        [] ++ new ∧ ∀ replay, ReplayOf Sorter.merge new replay →
          ∃ d, Database.replay {} replay = .ok d ∧
          d.Same ((startOn {}).run (localServer { mode := .wal })
            appendedInTurn).shared.shared.db := by
  refine ⟨by decide +kernel, ?_⟩
  have hruns : (startOn {}).Runs (localServer { mode := .wal }) (fun _ => True) InOrder
      appendedInTurn := by decide +kernel
  have hidle :
      ∀ i, (((startOn {}).run (localServer { mode := .wal }) appendedInTurn).conn i).isIdle =
      true := by
    intro i
    match i with
    | 0 => decide +kernel
    | 1 => decide +kernel
    | i + 2 =>
      rw [World.conn_run (by simp [appendedInTurn, Move.conn])]
      rfl
  obtain ⟨new, hwal, -, hreplay⟩ := wal_order_eq_commit_order { mode := .wal } rfl {}
    Database.sound_empty (hruns.of_actions fun _ q _ => q.live_of_untimed rfl)
  exact ⟨new, hwal, (hreplay hidle).2⟩

/-! ## One session -/

/-- The condition on the actions of a session alone: it publishes no transaction with writes while
writes of its batch wait; the disk takes what is written; and statements can be replayed. -/
def Unmixed (_ : Nat) (a : Action) (g : Logged) : Prop :=
  match a with
  | .exec env sql => g.shared.db.Repeatable env sql
  | .execTx tx env sql => tx.Repeatable env sql
  | .append sqls disk => disk = .done ∧ ∀ sql ∈ sqls, sql.length ≤ maxPayloadSize
  | .commitFrom _ sqls disk => disk = .done ∧ (sqls ≠ [] → (journal g.history).waiting = [])
  | _ => True

instance (i : Nat) (a : Action) (g : Logged) : Decidable (Unmixed i a g) := by
  unfold Unmixed
  split <;> infer_instance

def Journal.Of (i : Nat) (j : Journal) : Prop := ∀ p ∈ j.waiting, p.1 = i

theorem Journal.Of.record {j : Journal} {e : Event} (h : j.Of i) (he : e.sid = i) :
    (j.record e).Of i := by
  unfold Journal.record
  split
  · intro p hp
    rcases List.mem_append.1 hp with hp | hp
    · exact h p hp
    · obtain ⟨w, -, rfl⟩ := List.mem_map.1 hp
      exact he
  · exact h
  · exact fun p hp => h p (List.mem_of_mem_filter hp)
  · exact h

theorem Unmixed.inOrder {a : Action} {g : Logged} (h : Unmixed i a g)
    (hone : (journal g.history).Of i) : InOrder i a g := by
  cases a with
  | append sqls disk =>
    refine ⟨h.1, h.2, ?_⟩
    have hown : (journal g.history).waitingOf i = (journal g.history).waiting :=
      List.filter_eq_self.2 fun p hp => decide_eq_true (hone p hp)
    rw [hown]
  | commitFrom tx sqls disk => exact ⟨h.1, fun hsqls _ => h.2 hsqls⟩
  | exec env sql => exact h
  | execTx tx env sql => exact h
  | rowCount => trivial
  | clone => trivial
  | image => trivial
  | save tables disk => trivial

/-- The run of a session alone is in order. -/
theorem runs_inOrder {cfg : Config} {w : Process} (hone : (journal w.shared.history).Of i)
    (hmoves : ∀ m ∈ l, m.conn = i) (hl : w.Runs (localServer cfg) (Request.Live cfg) Unmixed l) :
    w.Runs (localServer cfg) (Request.Live cfg) InOrder l := by
  induction l generalizing w with
  | nil => trivial
  | cons m l ih =>
    obtain ⟨hm, hl⟩ := hl
    have hconn := hmoves m List.mem_cons_self
    have hrest : ∀ m' ∈ l, m'.conn = i := fun m' hm' => hmoves m' (List.mem_cons_of_mem _ hm')
    refine ⟨?_, ih ?_ hrest hl⟩
    · exact hm.mono fun a ha => ha.inOrder (hconn.symm ▸ hone)
    · rcases World.step_cases (localServer cfg) w m with hsame | ⟨j, q, s, rfl, -, -, hstep⟩ |
        ⟨j, a, k, rfl, -, -, hstep⟩
      · rw [hsame]
        exact hone
      · rw [hstep, World.shared_continueWith]
        exact hone
      · rw [hstep, World.shared_continueWith]
        exact (journal_perform cfg j w.shared a).symm ▸ hone.record hconn

/-- **The WAL of one session.** After every run of one session from an empty database in which no
transaction with writes is published while writes of its batch wait, replaying the WAL succeeds and
gives the shared database, with its rows, their order and its indexes. -/
theorem wal_replay_eq_database (cfg : Config) (hmode : cfg.mode = .wal) (i : Nat)
    (hmoves : ∀ m ∈ l, m.conn = i)
    (hl : (startOn {}).Runs (localServer cfg) (Request.Live cfg) Unmixed l)
    (hidle : (((startOn {}).run (localServer cfg) l).conn i).isIdle = true) :
    let sh := ((startOn {}).run (localServer cfg) l).shared.shared
    ∀ replay, ReplayOf cfg.sorter sh.store.wal replay →
      ∃ d, Database.replay {} replay = .ok d ∧ d.Same sh.db := by
  intro sh replay hreplay
  have hone : (journal (startOn {}).shared.history).Of i := fun p hp => by cases hp
  have hall : ∀ j, (((startOn {}).run (localServer cfg) l).conn j).isIdle = true := by
    intro j
    by_cases hj : j = i
    · rw [hj]
      exact hidle
    · rw [World.conn_run fun m hm hmj => hj (hmj.symm.trans (hmoves m hm))]
      rfl
  obtain ⟨hwal, hreached⟩ :=
    ordered_idle cfg hmode {} Database.sound_empty (runs_inOrder hone hmoves hl) hall
  have happlied : sh.store.wal =
      (journal ((startOn {}).run (localServer cfg) l).shared.history).applied :=
    hwal
  exact hreached replay (happlied ▸ hreplay)

def mixedBatch : List (Move Nat Request) :=
  [.send 0 (batchOf
      ["CREATE TABLE t (v INT)", "BEGIN", "INSERT INTO t VALUES (1)", "COMMIT"]),
    .act 0, .act 0, .act 0, .act 0, .act 0]

/-- Its statements succeed, and its WAL cannot be replayed. -/
theorem wal_replay_eq_database_mixedBatch :
    let w := (startOn {}).run (localServer { mode := .wal }) mixedBatch
    w.replies = [(0, .batch [.result { message := str "table created" },
        .message (str "BEGIN ok"), .result { affected := 1 }, .message (str "COMMIT ok")])] ∧
      w.shared.shared.store.wal =
        [str "INSERT INTO t VALUES (1)", str "CREATE TABLE t (v INT)"] ∧
      (Database.replay {} (w.shared.shared.store.wal.map fun sql => (({} : Env), sql))).isOk =
        false := by
  decide +kernel

def twoBatches : List (Move Nat Request) :=
  [.send 0 (batchOf ["CREATE TABLE t (v INT)"]), .act 0, .act 0,
    .send 0 (batchOf ["BEGIN", "INSERT INTO t VALUES (1)", "COMMIT"]), .act 0, .act 0,
    .act 0, .act 0]

theorem wal_replay_eq_database_twoBatches :
    ((startOn {}).run (localServer { mode := .wal }) twoBatches).shared.shared.store.wal =
        [str "CREATE TABLE t (v INT)", str "INSERT INTO t VALUES (1)"] ∧
      ∀ replay, ReplayOf Sorter.merge
        ((startOn {}).run (localServer { mode := .wal }) twoBatches).shared.shared.store.wal
          replay →
        ∃ d, Database.replay {} replay = .ok d ∧
          d.Same ((startOn {}).run (localServer { mode := .wal }) twoBatches).shared.shared.db := by
  have hruns : (startOn {}).Runs (localServer { mode := .wal }) (fun _ => True) Unmixed
      twoBatches := by decide +kernel
  refine ⟨by decide +kernel, ?_⟩
  exact wal_replay_eq_database { mode := .wal } rfl 0 (by simp [twoBatches, Move.conn])
    (hruns.of_actions fun _ q _ => q.live_of_untimed rfl) (by decide +kernel)

end SuperDB.Server
