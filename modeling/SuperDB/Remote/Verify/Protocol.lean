import Mathlib
import SuperDB.Remote.Session

/-!
# Local and hosted sessions

The transaction protocol is written twice. Statement by statement, a local and a hosted session
perform the same actions on the shared database and on the data directory, whatever the other
sessions do in between, and keep the same transaction.
-/

namespace SuperDB.Remote

open Go hiding equalFold
open Engine
open SuperDB.Server hiding equalFold isWriteSQL writeStatements persistStatements
open Proc (Agree)

/-! ## The helpers that are written twice -/

theorem foldEqualAt_eq_all {s keyword : Bytes} (h : s.length = keyword.length) :
    foldEqualAt s keyword = (s.zip keyword).all fun p => upperByte p.1 == p.2 := by
  induction s generalizing keyword with
  | nil =>
    obtain rfl := List.length_eq_zero_iff.1 h.symm
    rfl
  | cons a s ih =>
    cases keyword with
    | nil => cases h
    | cons n keyword =>
      have ih := ih (Nat.succ.inj h)
      simp only [foldEqualAt, List.zip_cons_cons, List.all_cons, ih]

theorem equalFold_eq : equalFold = Server.equalFold := by
  funext s keyword
  unfold equalFold Server.equalFold hasPrefixFold
  by_cases h : s.length = keyword.length
  · rw [foldEqualAt_eq_all h]
  · have hne : (s.length == keyword.length) = false := beq_eq_false_iff_ne.2 h
    simp only [hne, Bool.false_and]

theorem persistStatements_eq : persistStatements = Server.persistStatements := by
  funext mode sqls disk
  cases mode <;> rfl

/-! ## One statement -/

/-- A reply of the local server and what the hosted session returns: both succeed, with the same
result, or both fail. -/
def SameReply : Reply → Except ExecError Result → Prop
  | .result r, .ok r' => r = r'
  | .message text, .ok r => r = { message := text }
  | .error _, .error _ => True
  | _, _ => False

/-- A local session outside a batch and a hosted one with the same transaction. -/
structure SameSession (s : Server.Session) (t : Session) : Prop where
  tx : s.tx = t.tx
  txSQL : s.txSQL = t.txSQL
  single : s.batch = false

def Same (p : Reply × Server.Session) (q : Except ExecError Result × Session) : Prop :=
  SameReply p.1 q.1 ∧ SameSession p.2 q.2

section Statement

variable {cfg : Config} {c : Call} {s : Server.Session} {t : Session}

theorem execBegin_agree (h : SameSession s t) : Agree Same (beginTx cfg s) (execBegin cfg t) := by
  have hstart : Agree Same
      (clone >>= fun tx =>
        pure (Reply.message (str "BEGIN ok"), { s with tx := some tx, txSQL := [] }))
      (clone >>= fun tx => pure (Except.ok (message "BEGIN ok"),
        ({ t with tx := some tx, txSQL := [] } : Session))) :=
    (Agree.refl clone).bind fun tx _ htx => .ret ⟨rfl, ⟨congrArg some htx, rfl, h.single⟩⟩
  unfold beginTx execBegin
  rw [h.tx]
  by_cases hopen : t.tx.isSome = true
  · simp only [if_pos hopen]
    exact .ret ⟨trivial, h⟩
  · simp only [if_neg hopen]
    by_cases hlimit : cfg.limits.maxTxDatabaseRows = 0
    · simp only [if_pos hlimit]
      exact hstart
    · simp only [if_neg hlimit]
      refine (Agree.refl rowCount).bind ?_
      rintro rows _ rfl
      by_cases hrows : cfg.limits.maxTxDatabaseRows < rows
      · simp only [if_pos hrows]
        exact (Agree.refl rowCount).bind fun _ _ _ => .ret ⟨trivial, h⟩
      · simp only [if_neg hrows]
        exact hstart

theorem execRollback_agree (h : SameSession s t) :
    Same (rollbackTx s) (execRollback t) := by
  unfold rollbackTx execRollback
  rw [h.tx]
  by_cases hopen : t.tx.isNone = true
  · simp only [if_pos hopen]
    exact ⟨trivial, h⟩
  · simp only [if_neg hopen]
    exact ⟨rfl, ⟨rfl, rfl, h.single⟩⟩

theorem execCommit_agree (h : SameSession s t) : Agree Same (commitTx c s) (execCommit c t) := by
  have hdone : Same (.message (str "COMMIT ok"), { s with tx := none, txSQL := [] })
      (.ok (message "COMMIT ok"), { t with tx := none, txSQL := [] }) :=
    ⟨rfl, ⟨rfl, rfl, h.single⟩⟩
  have hwrites : Server.writeStatements s.txSQL = writeStatements t.txSQL := by
    rw [h.txSQL]
    rfl
  unfold commitTx execCommit
  rw [h.tx]
  cases htx : t.tx with
  | none => exact .ret ⟨trivial, h⟩
  | some tx =>
    simp only [hwrites]
    by_cases hempty : (writeStatements t.txSQL).isEmpty = true
    · simp only [if_pos hempty]
      exact .ret hdone
    · simp only [if_neg hempty]
      refine (Agree.refl (commitFrom tx (writeStatements t.txSQL) c.disk)).bind ?_
      rintro (e | ⟨⟩) _ rfl
      · exact .ret ⟨trivial, h⟩
      · exact .ret hdone

theorem execInTx_agree (h : SameSession s t) (tx : Database) :
    Agree Same (statementTx cfg c tx s) (execInTx cfg c tx t) := by
  refine (Agree.refl (execTx tx (cfg.env c) c.sql)).bind ?_
  rintro ⟨r, tx'⟩ _ rfl
  cases r with
  | error f =>
    cases f with
    | error e => exact .ret ⟨trivial, ⟨rfl, h.txSQL, h.single⟩⟩
    | panic => exact .crash
  | ok r =>
    simp only [recordTx, h.txSQL]
    by_cases hwrite : isWriteSQL c.sql = true
    · rw [if_pos (show Server.isWriteSQL c.sql = true from hwrite), hwrite]
      simp only [Bool.not_true, Bool.false_eq_true, if_false]
      by_cases hfull : 0 < cfg.limits.maxTxStatements ∧ cfg.limits.maxTxStatements ≤ t.txSQL.length
      · simp only [if_pos hfull]
        exact .ret ⟨trivial, ⟨rfl, rfl, h.single⟩⟩
      · simp only [if_neg hfull]
        exact .ret ⟨rfl, ⟨rfl, rfl, h.single⟩⟩
    · rw [if_neg (show ¬Server.isWriteSQL c.sql = true from hwrite), Bool.eq_false_iff.2 hwrite]
      exact .ret ⟨rfl, ⟨rfl, rfl, h.single⟩⟩

theorem execShared_agree (h : SameSession s t) :
    Agree Same (statement cfg c s) (execShared cfg c t) := by
  refine (Agree.refl (exec (cfg.env c) c.sql)).bind ?_
  rintro (f | r) _ rfl
  · cases f with
    | error e => exact .ret ⟨trivial, h⟩
    | panic => exact .crash
  · simp only [recordWrite, h.single]
    by_cases hwrite : isWriteSQL c.sql = true
    · rw [if_pos hwrite, show Server.isWriteSQL c.sql = true from hwrite]
      simp only [Bool.not_true, Bool.false_eq_true, if_false, persistStatements_eq]
      refine (Agree.refl (Server.persistStatements cfg.mode [c.sql] c.disk)).bind ?_
      rintro (e | ⟨⟩) _ rfl
      · exact .ret ⟨trivial, h⟩
      · exact .ret ⟨rfl, h⟩
    · rw [if_neg hwrite, show Server.isWriteSQL c.sql = false from Bool.eq_false_iff.2 hwrite]
      exact .ret ⟨rfl, h⟩

theorem execOne_agree (h : SameSession s t) :
    Agree Same (executeSQL cfg c s) (execOne cfg c t) := by
  unfold executeSQL execOne
  simp only [equalFold_eq]
  by_cases hbegin : Server.equalFold (trimSpace c.sql) (str "BEGIN") = true
  · simp only [if_pos hbegin]
    exact execBegin_agree h
  simp only [if_neg hbegin]
  by_cases hrollback : Server.equalFold (trimSpace c.sql) (str "ROLLBACK") = true
  · simp only [if_pos hrollback]
    exact .ret (execRollback_agree h)
  simp only [if_neg hrollback]
  by_cases hcommit : Server.equalFold (trimSpace c.sql) (str "COMMIT") = true
  · simp only [if_pos hcommit]
    exact execCommit_agree h
  simp only [if_neg hcommit]
  rw [h.tx]
  cases t.tx with
  | some tx => exact execInTx_agree h tx
  | none => exact execShared_agree h

end Statement

/-! ## Sequences of statements -/

/-- The statements of a hosted session, one after the other. -/
def execAll (cfg : Config) :
    List Call → Session → Handler (List (Except ExecError Result) × Session)
  | [], t => .ret ([], t)
  | c :: calls, t => do
    let p ← execOne cfg c t
    let q ← execAll cfg calls p.2
    return (p.1 :: q.1, q.2)

/-- The answers to a sequence of statements match one by one, and the sessions end with the same
transaction. -/
def SameAll (p : List Reply × Server.Session) (q : List (Except ExecError Result) × Session) :
    Prop :=
  List.Forall₂ SameReply p.1 q.1 ∧ SameSession p.2 q.2

theorem execAll_agree (cfg : Config) (calls : List Call) {s : Server.Session} {t : Session}
    (h : SameSession s t) : Agree SameAll (executeAll cfg calls s) (execAll cfg calls t) := by
  induction calls generalizing s t with
  | nil => exact .ret ⟨.nil, h⟩
  | cons c calls ih =>
    refine (execOne_agree h).bind fun p q hpq => ?_
    refine (ih hpq.2).bind fun ps qs hall => ?_
    exact .ret ⟨.cons hpq.1 hall.1, hall.2⟩

/-- Started from the same shared state, a local and a hosted session answer every sequence of
statements alike: after each of them they have performed the same actions, whatever these were
answered, and run alone they leave the same database and the same data directory and hold the same
transaction with the same statements recorded. -/
theorem sessions_agree (cfg : Config) (calls : List Call) :
    Agree SameAll (executeAll cfg calls {}) (execAll cfg calls {}) ∧
    ∀ shared : Shared,
      let p := (executeAll cfg calls {}).run (Action.run cfg.mode) shared
      let q := (execAll cfg calls {}).run (Action.run cfg.mode) shared
      p.2.db = q.2.db ∧ p.2.store = q.2.store ∧ Option.Rel SameAll p.1 q.1 := by
  have hagree := execAll_agree cfg calls (s := {}) (t := {}) ⟨rfl, rfl, rfl⟩
  refine ⟨hagree, fun shared => ?_⟩
  obtain ⟨hshared, hrel⟩ := hagree.run (Action.run cfg.mode) shared
  exact ⟨congrArg Shared.db hshared, congrArg Shared.store hshared, hrel⟩

end SuperDB.Remote
