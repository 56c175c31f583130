import SuperDB.Engine.Verify.Abort

/-!
# Statements that change nothing

A statement that `isReadOnly` accepts leaves the database as it is, and so does, unless it is
cancelled, a statement that fails.
-/

namespace SuperDB.Engine

open Go

variable {s w sql : Bytes} {a : UInt8}

/-! ## Read-only statements -/

theorem foldEqualAt_iff : foldEqualAt s w = true ↔ w <+: s.map upperByte := by
  induction w generalizing s with
  | nil => simp [foldEqualAt]
  | cons b w ih =>
    cases s with
    | nil => simp [foldEqualAt]
    | cons a s =>
      rw [foldEqualAt, Bool.and_eq_true, ih, beq_iff_eq, List.map_cons, List.cons_prefix_cons]
      exact and_congr_left' eq_comm

theorem foldEqualAt_eq_false {w' : Bytes} (h : foldEqualAt s w = true) (hw : ¬w <+: w')
    (hw' : ¬w' <+: w) : foldEqualAt s w' = false := by
  rw [← Bool.not_eq_true]
  intro h'
  rcases List.prefix_or_prefix_of_prefix (foldEqualAt_iff.1 h) (foldEqualAt_iff.1 h') with hp | hp
  · exact hw hp
  · exact hw' hp

def isLetter (a : UInt8) : Bool := (65 ≤ a && a ≤ 90) || (97 ≤ a && a ≤ 122)

theorem letter_not_space : ∀ a : UInt8, isLetter a = true →
    space1 a = false ∧ a ≠ 0xC2 ∧ a ≠ 0xE1 ∧ a ≠ 0xE2 ∧ a ≠ 0xE3 := by
  decide +kernel

theorem isLetter_upperByte (a : UInt8) (hle : 65 ≤ upperByte a) (hge : upperByte a ≤ 90) :
    isLetter a = true := by
  unfold upperByte at hle hge
  unfold isLetter
  split at hle
  · next hlower => simp [hlower]
  · next hlower =>
    rw [if_neg hlower] at hge
    simp [hle, hge]

theorem spaceWidth_letter (h : isLetter a = true) (s : Bytes) : spaceWidth (a :: s) = 0 := by
  obtain ⟨h1, h2, h3, h4, h5⟩ := letter_not_space a h
  match s with
  | [] => simp [spaceWidth, h1]
  | [b] => simp [spaceWidth, h1, space2, h2]
  | b :: c :: s => simp [spaceWidth, h1, space2, space3, h2, h3, h4, h5]

theorem trimLeft_letter (h : isLetter a = true) (s : Bytes) : trimLeft (a :: s) = a :: s := by
  simp [trimLeft, trimLeftFrom, spaceWidth_letter h]

theorem trimRight_letter (h : isLetter a = true) (s : Bytes) :
    trimRight (a :: s) = a :: trimRight s := by
  simp [trimRight, trimLeft_letter h]

theorem foldEqualAt_trimRight (hw : w.all fun b => 65 ≤ b && b ≤ 90) (h : foldEqualAt s w = true) :
    foldEqualAt (trimRight s) w = true := by
  induction w generalizing s with
  | nil => cases trimRight s <;> rfl
  | cons b w ih =>
    cases s with
    | nil => cases h
    | cons a s =>
      simp only [List.all_cons, Bool.and_eq_true, decide_eq_true_eq] at hw
      simp only [foldEqualAt, Bool.and_eq_true, beq_iff_eq] at h
      obtain ⟨rfl, h⟩ := h
      rw [trimRight_letter (isLetter_upperByte a hw.1.1 hw.1.2)]
      simp only [foldEqualAt, beq_self_eq_true, Bool.true_and]
      exact ih hw.2 h

theorem foldEqualAt_trimSpace (hne : w ≠ []) (hw : w.all fun b => 65 ≤ b && b ≤ 90)
    (h : foldEqualAt s w = true) : foldEqualAt (trimSpace s) w = true := by
  have hleft : trimLeft s = s := by
    cases w with
    | nil => exact absurd rfl hne
    | cons b w =>
      cases s with
      | nil => rfl
      | cons a s =>
        simp only [List.all_cons, Bool.and_eq_true, decide_eq_true_eq] at hw
        simp only [foldEqualAt, Bool.and_eq_true, beq_iff_eq] at h
        obtain ⟨rfl, -⟩ := h
        exact trimLeft_letter (isLetter_upperByte a hw.1.1 hw.1.2) s
  rw [trimSpace, hleft]
  exact foldEqualAt_trimRight hw h

theorem foldEqualAt_dropLast (hw : w.all fun b => 65 ≤ b && b ≤ 90)
    (hlast : s.getLast? = some (ch ';')) (h : foldEqualAt s w = true) :
    foldEqualAt s.dropLast w = true := by
  rw [foldEqualAt_iff] at h ⊢
  rw [← List.dropLast_append_getLast? _ hlast, List.map_append, List.map_singleton,
    List.prefix_concat_iff] at h
  rcases h with rfl | h
  · rw [List.all_append, Bool.and_eq_true] at hw
    exact absurd hw.2 (by decide)
  · exact h

theorem foldEqualAt_statementText (hne : w ≠ []) (hw : w.all fun b => 65 ≤ b && b ≤ 90)
    (h : foldEqualAt (trimSpace sql) w = true) : foldEqualAt (statementText sql) w = true := by
  unfold statementText
  simp only
  split
  · next hlast => exact foldEqualAt_trimSpace hne hw (foldEqualAt_dropLast hw hlast h)
  · exact foldEqualAt_trimSpace hne hw h

/-- The words that the statements that change something start with. -/
def writeWords : List Bytes :=
  [str "CREATE TABLE", str "CREATE INDEX", str "ALTER TABLE", str "DROP TABLE", str "DROP INDEX",
    str "TRUNCATE", str "INSERT"]

/-- The words that read-only statements start with; DESC stands for DESCRIBE too. -/
def readWords : List Bytes := [str "SELECT", str "SHOW", str "DESC"]

theorem readWords_spec : ∀ w ∈ readWords, w ≠ [] ∧ (w.all fun b => 65 ≤ b && b ≤ 90) = true ∧
    ∀ w' ∈ writeWords, ¬w <+: w' ∧ ¬w' <+: w := by
  decide +kernel

theorem exists_readWord (h : isReadOnly sql = true) :
    ∃ w ∈ readWords, foldEqualAt (statementText sql) w = true := by
  have hstart : ∃ w ∈ readWords, foldEqualAt (trimSpace sql) w = true := by
    simp only [isReadOnly, hasPrefixFold, Bool.or_eq_true] at h
    rcases h with ((h | h) | h) | h
    · exact ⟨_, List.mem_cons_self, h⟩
    · exact ⟨_, by simp [readWords], h⟩
    · refine ⟨str "DESC", by simp [readWords], foldEqualAt_iff.2 ?_⟩
      have hword : str "DESCRIBE" = str "DESC" ++ str "RIBE" := by
        rw [str_ofList, str_ofList, str_ofList]
        rfl
      rw [foldEqualAt_iff, hword] at h
      exact (List.prefix_append _ _).trans h
    · exact ⟨_, by simp [readWords], h⟩
  obtain ⟨w, hw, hfold⟩ := hstart
  obtain ⟨hne, hletters, -⟩ := readWords_spec w hw
  exact ⟨w, hw, foldEqualAt_statementText hne hletters hfold⟩

theorem Database.read_readOnly (db : Database) (env : Env) (h : isReadOnly sql = true) :
    ∃ r, db.read env sql = replyStmt r := by
  obtain ⟨w, hw, htext⟩ := exists_readWord h
  obtain ⟨-, -, hclash⟩ := readWords_spec w hw
  have hother : ∀ w' ∈ writeWords, hasPrefixFold (statementText sql) w' = false := fun w' hw' =>
    foldEqualAt_eq_false htext (hclash w' hw').1 (hclash w' hw').2
  simp only [writeWords, List.forall_mem_cons, List.not_mem_nil, false_implies, implies_true,
    and_true] at hother
  obtain ⟨hcreate, hindex, halter, hdrop, hdropIndex, htruncate, hinsert⟩ := hother
  simp only [readWords, List.mem_cons, List.not_mem_nil, or_false] at hw
  have hmeta : hasPrefixFold (statementText sql) (str "SELECT") = true ∨
      (hasPrefixFold (statementText sql) (str "SHOW") ||
        hasPrefixFold (statementText sql) (str "DESC")) = true := by
    rcases hw with rfl | rfl | rfl
    · exact Or.inl htext
    · exact Or.inr (by simp only [hasPrefixFold, htext, Bool.true_or])
    · exact Or.inr (by simp only [hasPrefixFold, htext, Bool.or_true])
  unfold Database.read
  simp only [hcreate, hindex, halter, hdrop, hdropIndex, htruncate, hinsert, Bool.or_self,
    Bool.false_eq_true, if_false]
  by_cases hselect : hasPrefixFold (statementText sql) (str "SELECT") = true
  · rw [if_pos hselect]
    exact ⟨_, rfl⟩
  · rw [if_neg hselect, if_pos (hmeta.resolve_left hselect)]
    exact ⟨_, rfl⟩

theorem Database.execWithOptions_readOnly (db : Database) (env : Env) (h : isReadOnly sql = true) :
    (db.execWithOptions env sql).2 = db := by
  obtain ⟨r, hr⟩ := db.read_readOnly env h
  have hexec : (db.exec env sql).2 = db := by
    unfold Database.exec
    rw [hr]
    cases r <;> rfl
  unfold Database.execWithOptions
  cases env.ctx .entry with
  | some e => rfl
  | none =>
    cases env.ctx .locked with
    | some e => rfl
    | none => simp [Database.countWrite, h, hexec]

/-! ## Failed statements -/

section Failed

variable {env : Env} {t : Table}

theorem Env.Live.interruptedAt (h : env.Live) (n : Nat) : interruptedAt env.scanTick n = none := by
  cases hat : Go.interruptedAt env.scanTick n with
  | none => rfl
  | some k =>
    obtain ⟨-, e, he⟩ := interruptedAt_some hat
    rw [h.scanTick] at he
    cases he

theorem Table.update_error {column : Bytes} {v : Value} {w : Option MutationWhere}
    {expected : Expected} (henv : env.Live)
    (hfail : ∃ f, (t.update env column v w expected).1 = .error f) :
    (t.update env column v w expected).2 = t := by
  unfold Table.update at hfail ⊢
  cases hkey : t.onPrimaryKey w with
  | some key =>
    simp only [hkey] at hfail ⊢
    split_ifs at hfail ⊢
    · exact rekeyPrimary_error hfail
    all_goals first | rfl | (obtain ⟨f, hf⟩ := hfail; cases hf)
  | none =>
    simp only [hkey] at hfail ⊢
    split_ifs at hfail ⊢
    · exact updatePrimaryMulti_error hfail
    · unfold Table.updateScan at hfail
      rw [rangeLoop_eq_foldl henv.scanTick] at hfail
      obtain ⟨f, hf⟩ := hfail
      cases hf

theorem TableOp.lateAbort_live (henv : env.Live) (op : TableOp) : op.lateAbort env t = false := by
  cases op <;> simp [TableOp.lateAbort, Table.updateAborts, Table.deleteAborts, henv.interruptedAt]

/-- **A statement that is not cancelled and fails leaves the database as it is.** -/
theorem Database.execWithOptions_error {db : Database} {f : Fault} (henv : env.Live)
    (h : (db.execWithOptions env sql).1 = .error f) : (db.execWithOptions env sql).2 = db := by
  rw [Database.execWithOptions_live henv] at h ⊢
  simp only at h ⊢
  have hcount : ∀ db' : Database, db'.countWrite sql (.error f) = db' := fun db' => by
    simp [Database.countWrite, isOk]
  rw [h, hcount]
  unfold Database.exec at h ⊢
  cases hread : db.read env sql with
  | error f => rfl
  | ok stmt =>
    rw [hread] at h
    cases stmt with
    | create name columns =>
      simp only [Stmt.run] at h ⊢
      split_ifs at h ⊢
      rfl
    | dropTable name ifExists =>
      simp only [Stmt.run] at h ⊢
      split_ifs at h ⊢
      rfl
    | reply r => rfl
    | table name op =>
      simp only [Stmt.run] at h ⊢
      cases ht : db.tables[name]? with
      | none => rfl
      | some t =>
        simp only [ht] at h ⊢
        rw [TableOp.run_error_of_update (fun column v w expected _ => Table.update_error henv)
          (TableOp.lateAbort_live henv op) ⟨f, h⟩, Map.insert_get? ht]

end Failed

/-- The statements of a run that succeed. -/
def Database.successes : Database → List (Env × Bytes) → List (Env × Bytes)
  | _, [] => []
  | db, p :: l =>
    let rest := Database.successes (db.execWithOptions p.1 p.2).2 l
    if isOk (db.execWithOptions p.1 p.2).1 then p :: rest else rest

/-- A run that is not cancelled, on tables whose fast arrays are in step, ends where it would end if
the statements that fail had not been there, with the fast arrays in step. -/
theorem Database.runAll_successes {db : Database} (hdb : db.InStep) {l : List (Env × Bytes)}
    (hl : Uncancelled l) :
    db.runAll (db.successes l) = db.runAll l ∧ (db.runAll l).InStep ∧
      db.Steps (fun db env sql => isOk (db.execWithOptions env sql).1 = true) (db.successes l) := by
  induction l generalizing db with
  | nil => exact ⟨rfl, hdb, trivial⟩
  | cons p l ih =>
    obtain ⟨henv, hl⟩ := List.forall_mem_cons.1 hl
    obtain ⟨hrun, hstep, hsteps⟩ := ih (hdb.execWithOptions henv p.2) hl
    simp only [Database.successes]
    split
    · next hok => exact ⟨hrun, hstep, hok, hsteps⟩
    · next hok =>
      cases hr : (db.execWithOptions p.1 p.2).1 with
      | ok r => simp [hr, isOk] at hok
      | error f =>
        have hcons : db.runAll (p :: l) = (db.execWithOptions p.1 p.2).2.runAll l := rfl
        rw [Database.execWithOptions_error henv hr] at hcons hrun hstep hsteps ⊢
        exact ⟨hrun.trans hcons.symm, hcons ▸ hstep, hsteps⟩

theorem Database.runAll_successes_refused :
    let l := script ["CREATE TABLE t (k INT PRIMARY KEY)", "INSERT INTO t VALUES (1)",
      "INSERT INTO t VALUES (2), (1)", "INSERT INTO t VALUES (3)"]
    (Database.successes {} l).length = 3 ∧
      Database.runAll {} (Database.successes {} l) = Database.runAll {} l :=
  ⟨by decide +kernel, (Database.runAll_successes (Database.all_empty _) (uncancelled_script _)).1⟩

end SuperDB.Engine
