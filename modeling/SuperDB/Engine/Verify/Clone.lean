import SuperDB.Engine.Verify.Step

/-!
# Revisions and clones

The revision of a database counts the writes published to it. A clone is published whole or not at
all, and only at the revision it was taken at.
-/

namespace SuperDB.Engine

open Go

section Revision

variable (db : Database) (env : Env) (sql : Bytes)

theorem Database.exec_eq :
    (db.exec env sql).2 = { db with tables := (db.exec env sql).2.tables } := by
  unfold Database.exec
  cases db.read env sql with
  | error f => rfl
  | ok stmt =>
    cases stmt with
    | create name columns =>
      simp only [Stmt.run]
      split <;> rfl
    | dropTable name ifExists =>
      simp only [Stmt.run]
      split_ifs <;> rfl
    | table name op =>
      simp only [Stmt.run]
      split <;> rfl
    | reply r => rfl

theorem Database.revision_execWithOptions :
    (db.execWithOptions env sql).2.revision =
      if !isReadOnly sql && isOk (db.execWithOptions env sql).1 then db.revision + 1
      else db.revision := by
  unfold Database.execWithOptions
  cases env.ctx .entry with
  | some e => simp [isOk]
  | none =>
    cases env.ctx .locked with
    | some e => simp [isOk]
    | none =>
      simp only [Database.countWrite]
      rw [Database.exec_eq]
      split <;> rfl

/-- A run of fewer than `2 ^ 64` statements does not wrap the 64-bit counter of the source. -/
theorem Database.revision_runAll_le (db : Database) (l : List (Env × Bytes)) :
    (db.runAll l).revision ≤ db.revision + l.length := by
  induction l generalizing db with
  | nil => exact Nat.le_refl _
  | cons p l ih =>
    have hrest := ih (db.execWithOptions p.1 p.2).2
    rw [Database.revision_execWithOptions] at hrest
    rw [Database.runAll_cons, List.length_cons]
    split at hrest <;> omega

theorem Database.baseRevision_execWithOptions :
    (db.execWithOptions env sql).2.baseRevision = db.baseRevision := by
  unfold Database.execWithOptions
  cases env.ctx .entry with
  | some e => rfl
  | none =>
    cases env.ctx .locked with
    | some e => rfl
    | none =>
      simp only [Database.countWrite]
      rw [Database.exec_eq]
      split <;> rfl

end Revision

/-- Publishing a clone fails and leaves the database as it is, or it succeeds from the revision the
clone was taken at. -/
theorem Database.commitFrom_cases (db source : Database) (persist : Except Bytes Unit) :
    (∃ e, db.commitFrom source persist = (.error e, db)) ∨
      db.revision = source.baseRevision ∧ persist = .ok () ∧
        db.commitFrom source persist =
          (.ok (), { db with
            tables := source.cloneImage.tables, revision := db.revision + 1 }) := by
  unfold Database.commitFrom
  split_ifs with hrev
  · exact Or.inl ⟨_, rfl⟩
  · cases persist with
    | error e => exact Or.inl ⟨e, rfl⟩
    | ok u => exact Or.inr ⟨not_ne_iff.1 hrev, rfl, rfl⟩

end SuperDB.Engine
