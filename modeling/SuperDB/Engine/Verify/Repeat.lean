import SuperDB.Go.Trim
import SuperDB.Engine.Verify.MaxRows
import SuperDB.Engine.Verify.Quiet

/-!
# Replaying a log

A write that has succeeded succeeds again, with the same effect, when it is replayed without a row
cap on a copy of the database, unless it inserts rows that it finds in an index bucket. So does a
sequence of writes, which is what a log is.
-/

namespace SuperDB.Engine

open Go

/-- A database whose tables have been changed by statements that ran to their end. -/
def Database.Sound (db : Database) : Prop := db.All fun t => t.Wf ∧ t.FastInv

section Sound

variable {env : Env} {db : Database}

theorem Database.Sound.fastInv (h : db.Sound) : db.All Table.FastInv := fun name t ht =>
  (h name t ht).2

theorem Database.sound_empty : Database.Sound {} := Database.all_empty _

theorem Database.Sound.execWithOptions (h : db.Sound) (henv : env.Live) (sql : Bytes) :
    (db.execWithOptions env sql).2.Sound := by
  have hany : db.RekeysOk (fun _ _ => True) env sql := fun _ _ => trivial
  exact Database.All.execWithOptions (fun name columns _ => Table.FastInv.new name columns)
    (fun _ _ _ _ hwf hinv hedit => hinv.edit hwf hedit) henv hany h

theorem Table.FastInv.cloneLocked {t : Table} (h : t.FastInv) : t.cloneLocked.FastInv := by
  by_cases hfast : t.fast = []
  · rw [Table.cloneLocked_bare hfast]
    exact Table.FastInv.clearFast t
  · rw [Table.cloneLocked_of_ne hfast]
    exact h

theorem Database.Sound.cloneImage (h : db.Sound) : db.cloneImage.Sound := by
  intro name t ht
  simp only [Database.cloneImage, Map.get?_map] at ht
  obtain ⟨u, hu, rfl⟩ := Option.map_eq_some_iff.1 ht
  obtain ⟨hwf, hinv⟩ := h name u hu
  refine ⟨hwf.congr ?_ ?_, hinv.cloneLocked⟩ <;>
    · unfold Table.cloneLocked
      split <;> rfl

end Sound

theorem Database.same_clone (db : Database) :
    Database.Same { db with tables := db.cloneImage.tables } db := by
  rw [Database.same_iff]
  intro name
  simp only [Database.cloneImage, Map.get?_map, Option.map_map]
  congr 1
  funext t
  exact t.cloneLocked_cloneLocked

/-- A statement that can be replayed: it does not insert rows in the order of map iteration, and a
row cap is out of reach of the largest slice. -/
structure Database.Repeatable (db : Database) (env : Env) (sql : Bytes) : Prop where
  scattered : db.scattered sql = false
  fits : 0 < env.maxRows → db.All Table.Fits

instance (db : Database) (env : Env) (sql : Bytes) : Decidable (db.Repeatable env sql) :=
  decidable_of_iff (db.scattered sql = false ∧ (0 < env.maxRows →
      ∀ name ∈ db.tables.keys, ∀ t ∈ db.tables[name]?,
        t.order.length < 2 ^ 63 - 1 ∧ t.fast.length < 2 ^ 63 - 1))
    ⟨fun h => ⟨h.1, fun hpos name t ht =>
        h.2 hpos name (Map.mem_keys.2 (Map.mem_of_get? ht)) t ht⟩,
      fun h => ⟨h.scattered, fun hpos name _ t ht => h.fits hpos name t ht⟩⟩

/-- An environment that replays: like the one of the execution, with another order of map iteration
and without a row cap. -/
structure Env.Replays (env env' : Env) : Prop where
  live : env.Live
  live' : env'.Live
  threshold : env.threshold = env'.threshold
  sorter : env.sorter = env'.sorter
  uncapped : env'.maxRows = 0

section Write

variable {env env' : Env} {db db' : Database} {sql : Bytes} {r : Result}

theorem statementText_start (sql : Bytes) : statementText sql <+: trimSpace sql := by
  unfold statementText
  simp only
  split
  · exact (trimSpace_start (List.dropLast_prefix _)).trans (List.dropLast_prefix _)
  · exact trimSpace_start (List.prefix_refl _)

theorem hasPrefixFold_trimSpace {w : Bytes} (h : hasPrefixFold (statementText sql) w = true) :
    hasPrefixFold (trimSpace sql) w = true :=
  foldEqualAt_iff.2 ((foldEqualAt_iff.1 h).trans ((statementText_start sql).map upperByte))

theorem write_words (h : isReadOnly sql = false) :
    hasPrefixFold (statementText sql) (str "SELECT") = false ∧
      (hasPrefixFold (statementText sql) (str "SHOW") ||
        hasPrefixFold (statementText sql) (str "DESC")) = false := by
  simp only [isReadOnly, Bool.or_eq_false_iff] at h
  have hno : ∀ w, hasPrefixFold (trimSpace sql) w = false →
      hasPrefixFold (statementText sql) w = false := by
    intro w hw
    by_contra hyes
    rw [hasPrefixFold_trimSpace (by simpa using hyes)] at hw
    cases hw
  exact ⟨hno _ h.1.1.1, by rw [hno _ h.1.1.2, hno _ h.2]; rfl⟩

theorem Database.Headed.read (h : db.Headed db') (hwrite : isReadOnly sql = false)
    (hquery : ∀ query, hasPrefixFold (statementText sql) (str "INSERT") = true →
      insertQuery (statementText sql) = some query →
      db.selectRows env query = db'.selectRows env' query) :
    db.read env sql = db'.read env' sql := by
  obtain ⟨hselect, hmeta⟩ := write_words hwrite
  unfold Database.read
  simp only [hselect, hmeta, Bool.false_eq_true, if_false, h.createIndexStmt, h.alterTableStmt,
    h.dropStmt, h.truncateStmt, h.updateStmt, h.deleteStmt]
  by_cases hinsert : hasPrefixFold (statementText sql) (str "INSERT") = true
  · rw [h.insertStmt fun query hq => hquery query hinsert hq]
  · simp only [hinsert, Bool.false_eq_true, if_false]

theorem Database.Same.read (h : db.Same db') (henv : env.Peer env') (hinv : db.Sound)
    (hinv' : db'.Sound) (hwrite : isReadOnly sql = false) (hscattered : db.scattered sql = false) :
    db.read env sql = db'.read env' sql := by
  exact h.headed.read hwrite fun query hinsert hq =>
    h.selectRows henv hinv.fastInv hinv'.fastInv (insertsQuery_eq_false hscattered hinsert hq)

theorem Database.read_insert (h : hasPrefixFold (statementText sql) (str "INSERT") = true) :
    db.read env sql = db.insertStmt env (statementText sql) := by
  have hwords : ∀ w ∈ writeWords.dropLast, ¬str "INSERT" <+: w ∧ ¬w <+: str "INSERT" := by
    decide +kernel
  have hother : ∀ w ∈ writeWords.dropLast, hasPrefixFold (statementText sql) w = false :=
    fun w hw =>
    foldEqualAt_eq_false h (hwords w hw).1 (hwords w hw).2
  simp only [writeWords, List.dropLast_cons_cons, List.dropLast_singleton,
    List.forall_mem_cons] at hother
  obtain ⟨hcreate, hindex, halter, hdrop, hdropIndex, htruncate, -⟩ := hother
  unfold Database.read
  simp only [hcreate, hindex, halter, hdrop, hdropIndex, htruncate, h, Bool.or_self,
    Bool.false_eq_true, if_false, if_true]

theorem Database.read_env (env env' : Env) (hwrite : isReadOnly sql = false)
    (hinsert : hasPrefixFold (statementText sql) (str "INSERT") = false) :
    db.read env sql = db.read env' sql := by
  obtain ⟨hselect, hmeta⟩ := write_words hwrite
  unfold Database.read
  simp only [hselect, hmeta, hinsert, Bool.false_eq_true, if_false]

theorem Database.selectRows_uncapped {s : Bytes} (henv : env.Live) (hpos : 0 < env.maxRows)
    (hfits : db.All Table.Fits) (hquery : db.scatteredQuery s = false)
    (h : db.selectRows env s = .ok r) :
    db.selectRows { env with maxRows := 0 } s = .ok r := by
  unfold Database.selectRows at h ⊢
  unfold Database.scatteredQuery Database.queryMeets at hquery
  cases hfrom : indexKeyword s (str "FROM") with
  | none =>
    rw [hfrom] at h
    cases h
  | some fi =>
    simp only [hfrom] at h hquery ⊢
    cases hname : firstField (trimSpace (s.drop (fi + 4))) with
    | none =>
      rw [hname] at h
      cases h
    | some name =>
      simp only [hname] at h hquery ⊢
      obtain ⟨t, ht, h⟩ := bind_ok h
      obtain ⟨p, hexpr, h⟩ := bind_ok h
      obtain ⟨tail, htail, h⟩ := bind_ok h
      have hget := Database.table_ok ht
      simp only [hget, hexpr, htail] at hquery
      refine ok_bind ht (ok_bind hexpr (ok_bind htail ?_))
      split_ifs at h with hlen
      · rw [if_neg hlen]
        exact Table.selectTable_uncapped henv hpos (hfits _ _ hget) hquery h

theorem Database.insertStmt_uncapped {s : Bytes} {stmt : Stmt} (henv : env.Live)
    (hpos : 0 < env.maxRows) (hfits : db.All Table.Fits)
    (hquery : ∀ query, insertQuery s = some query → db.scatteredQuery query = false)
    (h : db.insertStmt env s = .ok stmt) :
    db.insertStmt { env with maxRows := 0 } s = .ok stmt := by
  have hselect : ∀ {off start : Nat} {replace : Bool},
      insertQuery s = some (trimSpace (s.drop start)) →
      db.insertSelectStmt env s off start replace = .ok stmt →
      db.insertSelectStmt { env with maxRows := 0 } s off start replace = .ok stmt := by
    intro off start replace hq h
    unfold Database.insertSelectStmt at h ⊢
    split at h
    · cases h
    · obtain ⟨t, ht, h⟩ := bind_ok h
      obtain ⟨src, hsrc, h⟩ := bind_ok h
      exact ok_bind ht (ok_bind (Database.selectRows_uncapped henv hpos hfits (hquery _ hq) hsrc) h)
  obtain ⟨p, hbody, h⟩ := bind_ok h
  refine ok_bind hbody ?_
  unfold insertQuery at hselect
  cases hv : indexKeyword s (str "VALUES") with
  | none =>
    cases hs : indexKeyword s (str "SELECT") with
    | none =>
      rw [hv, hs] at h
      cases h
    | some si =>
      rw [hv, hs] at h hselect
      exact hselect rfl h
  | some vi =>
    cases hs : indexKeyword s (str "SELECT") with
    | none =>
      rw [hv, hs] at h
      exact h
    | some si =>
      rw [hv, hs] at h hselect
      simp only at h ⊢
      by_cases hlt : si < vi
      · rw [if_pos hlt] at h ⊢
        exact hselect (if_pos hlt) h
      · rw [if_neg hlt] at h ⊢
        exact h

theorem Database.read_uncapped {stmt : Stmt} (henv : env.Live) (hok : db.Repeatable env sql)
    (hwrite : isReadOnly sql = false) (h : db.read env sql = .ok stmt) :
    db.read { env with maxRows := 0 } sql = .ok stmt := by
  by_cases hpos : 0 < env.maxRows
  · cases hinsert : hasPrefixFold (statementText sql) (str "INSERT") with
    | false =>
      rw [Database.read_env _ env hwrite hinsert]
      exact h
    | true =>
      rw [Database.read_insert hinsert] at h ⊢
      refine Database.insertStmt_uncapped henv hpos (hok.fits hpos) (fun query hq => ?_) h
      exact insertsQuery_eq_false hok.scattered hinsert hq
  · have hzero : ({ env with maxRows := 0 } : Env) = env := by
      obtain ⟨ctx, order, sorter, maxRows, threshold⟩ := env
      simp only [Nat.not_lt, Nat.le_zero_eq] at hpos
      rw [hpos]
    rw [hzero]
    exact h

theorem Env.Replays.peer (h : env.Replays env') : Env.Peer { env with maxRows := 0 } env' :=
  ⟨h.live, h.live', h.threshold, h.sorter, h.uncapped.symm⟩

theorem Env.Replays.twin (h : env.Replays env') : env.Twin env' := ⟨h.live, h.live', h.threshold⟩

theorem Database.same_countWrite (db : Database) (sql : Bytes) (r : Except Fault Result) :
    (db.countWrite sql r).Same db := by
  unfold Database.countWrite
  split <;> rfl

theorem Database.Same.execWithOptions_of_read (h : db.Same db') (henv : env.Twin env')
    (hread : db.read env sql = db'.read env' sql) :
    (db.execWithOptions env sql).1 = (db'.execWithOptions env' sql).1 ∧
      (db.execWithOptions env sql).2.Same (db'.execWithOptions env' sql).2 := by
  rw [Database.execWithOptions_live henv.live, Database.execWithOptions_live henv.live']
  simp only
  have hexec : (db.exec env sql).1 = (db'.exec env' sql).1 ∧
      (db.exec env sql).2.Same (db'.exec env' sql).2 := by
    unfold Database.exec
    rw [← hread]
    cases db.read env sql with
    | error f => exact ⟨rfl, h⟩
    | ok stmt => exact Stmt.run_same henv h stmt
  refine ⟨hexec.1, ?_⟩
  exact (Database.same_countWrite _ _ _).trans
    (hexec.2.trans (Database.same_countWrite _ _ _).symm)

theorem Database.Same.execWithOptions_peer (h : db.Same db') (henv : env.Peer env')
    (hinv : db.Sound) (hinv' : db'.Sound) (hwrite : isReadOnly sql = false)
    (hscattered : db.scattered sql = false) :
    (db.execWithOptions env sql).1 = (db'.execWithOptions env' sql).1 ∧
      (db.execWithOptions env sql).2.Same (db'.execWithOptions env' sql).2 :=
  h.execWithOptions_of_read henv.twin (h.read henv hinv hinv' hwrite hscattered)

/-- Whether no statement of a run inserts a count of an index bucket. -/
def Database.plain : Database → List (Env × Bytes) → Bool
  | _, [] => true
  | db, (env, sql) :: l => !db.counted sql && (db.execWithOptions env sql).2.plain l

theorem Database.plain_append {l l' : List (Env × Bytes)} :
    db.plain (l ++ l') = (db.plain l && (db.runAll l).plain l') := by
  induction l generalizing db with
  | nil => rfl
  | cons p l ih =>
    simp only [List.cons_append, Database.plain, ih, Bool.and_assoc]
    rfl

/-- Statements have the same effect on a copy. -/
theorem Database.Same.runAll {l : List (Env × Bytes)} (hl : Uncancelled l) (h : db.Same db')
    (hinv : db.Sound) (hinv' : db'.Sound) (hplain : db.plain l = true) :
    (db.runAll l).Same (db'.runAll l) ∧ (db.runAll l).Sound ∧ (db'.runAll l).Sound := by
  induction l generalizing db db' with
  | nil => exact ⟨h, hinv, hinv'⟩
  | cons p l ih =>
    obtain ⟨env, sql⟩ := p
    obtain ⟨hlive, hl⟩ := List.forall_mem_cons.1 hl
    simp only [Database.plain, Bool.and_eq_true, Bool.not_eq_true'] at hplain
    refine ih hl ?_ (hinv.execWithOptions hlive sql) (hinv'.execWithOptions hlive sql) hplain.2
    change (db.execWithOptions env sql).2.Same (db'.execWithOptions env sql).2
    cases hread : isReadOnly sql with
    | true =>
      rw [Database.execWithOptions_readOnly _ _ hread, Database.execWithOptions_readOnly _ _ hread]
      exact h
    | false =>
      exact (h.execWithOptions_of_read ⟨hlive, hlive, rfl⟩
        (h.headed.read hread fun query hinsert hq =>
          h.selectRows_counted hinv.fastInv hinv'.fastInv
            (insertsQuery_eq_false hplain.1 hinsert hq))).2

/-- **A write that has succeeded succeeds again** on a copy, with the same reply and effect. -/
theorem Database.Same.execWithOptions (h : db.Same db') (henv : env.Replays env')
    (hinv : db.Sound) (hinv' : db'.Sound) (hok : db.Repeatable env sql)
    (hwrite : isReadOnly sql = false) (hr : (db.execWithOptions env sql).1 = .ok r) :
    (db'.execWithOptions env' sql).1 = .ok r ∧
      (db.execWithOptions env sql).2.Same (db'.execWithOptions env' sql).2 := by
  have hread : db.read env sql = db'.read env' sql := by
    rw [← h.read henv.peer hinv hinv' hwrite hok.scattered]
    cases hstmt : db.read env sql with
    | ok stmt => exact (Database.read_uncapped henv.live hok hwrite hstmt).symm
    | error f =>
      rw [Database.execWithOptions_live henv.live] at hr
      simp only [Database.exec, hstmt] at hr
      cases hr
  obtain ⟨hreply, hsame⟩ := h.execWithOptions_of_read henv.twin hread
  exact ⟨hreply.symm.trans hr, hsame⟩

end Write

/-! ## Logs -/

/-- The environments of a replay: `Exec`, in any order of map iteration. -/
structure Env.Background (sorter : Sorter) (env : Env) : Prop where
  live : env.Live
  threshold : env.threshold = some 256
  sorter_eq : env.sorter = sorter
  uncapped : env.maxRows = 0

def ReplayOf (sorter : Sorter) (log : List Bytes) (l : List (Env × Bytes)) : Prop :=
  l.map (·.2) = log ∧ ∀ p ∈ l, p.1.Background sorter

/-- Replaying the log on a copy of the first database succeeds and gives a copy of the second. -/
def Database.Reached (sorter : Sorter) (db : Database) (log : List Bytes) (db' : Database) : Prop :=
  ∀ (d : Database) (l : List (Env × Bytes)), d.Same db → d.Sound → ReplayOf sorter log l →
    ∃ d' : Database, d.replay l = .ok d' ∧ d'.Same db' ∧ d'.Sound

section Logs

variable {sorter : Sorter} {db db' db'' : Database} {log log' : List Bytes}

theorem Database.replay_append {l l' : List (Env × Bytes)} (h : db.replay l = .ok db') :
    db.replay (l ++ l') = db'.replay l' := by
  induction l generalizing db with
  | nil =>
    cases h
    rfl
  | cons p l ih =>
    obtain ⟨env, sql⟩ := p
    simp only [Database.replay, List.cons_append] at h ⊢
    rcases hp : db.execWithOptions env sql with ⟨f | r, d⟩
    · rw [hp] at h
      cases h
    · rw [hp] at h
      exact ih h

theorem Database.replay_invariant {P : Database → Prop}
    (hstep : ∀ (env : Env) (db : Database) (sql : Bytes), env.Live → P db →
      P (db.execWithOptions env sql).2)
    {l : List (Env × Bytes)} (hl : Uncancelled l) (hdb : P db) (h : db.replay l = .ok db') :
    P db' := by
  induction l generalizing db with
  | nil =>
    obtain rfl := Except.ok.inj h
    exact hdb
  | cons p l ih =>
    obtain ⟨env, sql⟩ := p
    obtain ⟨hhere, hrest⟩ := List.forall_mem_cons.1 hl
    have hnext := hstep env db sql hhere hdb
    simp only [Database.replay] at h
    rcases hp : db.execWithOptions env sql with ⟨f | r, d⟩
    · rw [hp] at h
      cases h
    · rw [hp] at h hnext
      exact ih hrest hnext h

theorem ReplayOf.split {l : List (Env × Bytes)} (h : ReplayOf sorter (log ++ log') l) :
    ∃ l₁ l₂, l = l₁ ++ l₂ ∧ ReplayOf sorter log l₁ ∧ ReplayOf sorter log' l₂ := by
  obtain ⟨l₁, l₂, rfl, h₁, h₂⟩ := List.map_eq_append_iff.1 h.1
  exact ⟨l₁, l₂, rfl, ⟨h₁, fun p hp => h.2 p (List.mem_append_left _ hp)⟩,
    ⟨h₂, fun p hp => h.2 p (List.mem_append_right _ hp)⟩⟩

theorem Database.Reached.refl (h : db.Same db') : db.Reached sorter [] db' := by
  intro d l hd hsound hl
  rw [List.map_eq_nil_iff.1 hl.1]
  exact ⟨d, rfl, hd.trans h, hsound⟩

theorem Database.Reached.trans (h : db.Reached sorter log db') (h' : db'.Reached sorter log' db'') :
    db.Reached sorter (log ++ log') db'' := by
  intro d l hd hsound hl
  obtain ⟨l₁, l₂, rfl, hl₁, hl₂⟩ := hl.split
  obtain ⟨d₁, hrun₁, hd₁, hsound₁⟩ := h d l₁ hd hsound hl₁
  obtain ⟨d₂, hrun₂, hd₂, hsound₂⟩ := h' d₁ l₂ hd₁ hsound₁ hl₂
  exact ⟨d₂, (Database.replay_append hrun₁).trans hrun₂, hd₂, hsound₂⟩

theorem Database.Reached.write {env : Env} {sql : Bytes} {r : Result} (hlive : env.Live)
    (hthreshold : env.threshold = some 256) (hsorter : env.sorter = sorter) (hsound : db.Sound)
    (hok : db.Repeatable env sql) (hwrite : isReadOnly sql = false)
    (hr : (db.execWithOptions env sql).1 = .ok r) :
    db.Reached sorter [sql] (db.execWithOptions env sql).2 := by
  intro d l hd hsoundd hl
  obtain ⟨⟨env', sql'⟩, rfl, rfl⟩ := List.map_eq_singleton_iff.1 hl.1
  have hback := hl.2 _ List.mem_cons_self
  have henv : env.Replays env' :=
    ⟨hlive, hback.live, hthreshold.trans hback.threshold.symm, hsorter.trans hback.sorter_eq.symm,
      hback.uncapped⟩
  obtain ⟨hr', hsame⟩ := hd.symm.execWithOptions henv hsound hsoundd hok hwrite hr
  refine ⟨(d.execWithOptions env' sql').2, ?_, hsame.symm, hsoundd.execWithOptions hback.live sql'⟩
  have hpair : d.execWithOptions env' sql' = (.ok r, (d.execWithOptions env' sql').2) :=
    Prod.ext hr' rfl
  simp only [Database.replay]
  rw [hpair]

end Logs

end SuperDB.Engine
