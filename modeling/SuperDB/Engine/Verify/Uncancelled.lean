import SuperDB.Engine.Verify.Abort
import SuperDB.Engine.Verify.RowCap

/-!
# Queries that are not cancelled

A context can only make a query fail: a query that is answered is answered alike if its context is
never cancelled.
-/

namespace SuperDB.Engine

open Go

/-- The environment with a context that is never cancelled. -/
def Env.uncancelled (env : Env) : Env := { env with ctx := Context.background }

theorem Env.uncancelled_live (env : Env) : env.uncancelled.Live := fun _ => rfl

/-- A loop that runs to its end in some context does so if it is never interrupted. -/
theorem loopResult_uncancelled {σ α : Type} {env : Env} {body : σ → α → Ctl σ Fault} {n : Nat}
    {l : List α} {s s' : σ} (h : loopResult (rangeLoop env.scanTick body n l s) = .ok s') :
    loopResult (rangeLoop env.uncancelled.scanTick body n l s) = .ok s' := by
  have hlive := env.uncancelled_live.scanTick
  induction l generalizing n s with
  | nil => exact h
  | cons a l ih =>
    rw [rangeLoop] at h ⊢
    rw [hlive]
    cases hpoll : env.scanTick (n + 1) with
    | some f =>
      rw [hpoll] at h
      cases h
    | none =>
      rw [hpoll] at h
      simp only at h ⊢
      cases hbody : body s a with
      | next s'' =>
        rw [hbody] at h
        exact ih h
      | stop s'' =>
        rw [hbody] at h
        exact h
      | fail f =>
        rw [hbody] at h
        cases h

namespace Table

variable {env : Env} {t : Table} {r : Result}

theorem finishKeys_uncancelled {q : Query} {cap : Option Nat} {keys : List Bytes}
    (h : t.finishKeys env q cap keys = .ok r) :
    t.finishKeys env.uncancelled q cap keys = .ok r := by
  obtain ⟨sorted, horder, h⟩ := bind_ok h
  refine ok_bind ?_ h
  unfold orderedKeys at horder ⊢
  split at horder
  · next hnone => rw [if_pos hnone, horder]
  · next hsome =>
    rw [if_neg hsome]
    split at horder
    · cases horder
    · exact horder

theorem selectBy_uncancelled {q : Query} {path : Path} (h : t.selectBy env q path = .ok r) :
    t.selectBy env.uncancelled q path = .ok r := by
  cases path with
  | key key => exact h
  | bucket column value =>
    obtain ⟨compiled, hcompile, h⟩ := bind_ok h
    obtain ⟨c, hloop, h⟩ := bind_ok h
    exact ok_bind hcompile (ok_bind (loopResult_uncancelled hloop) (finishKeys_uncancelled h))
  | fast =>
    obtain ⟨compiled, hcompile, h⟩ := bind_ok h
    refine ok_bind hcompile ?_
    unfold selectFast at h ⊢
    split_ifs at h ⊢
    · exact h
    · obtain ⟨c, hloop, h⟩ := bind_ok h
      exact ok_bind (loopResult_uncancelled hloop) h
  | order =>
    obtain ⟨compiled, hcompile, h⟩ := bind_ok h
    obtain ⟨c, hloop, h⟩ := bind_ok h
    exact ok_bind hcompile (ok_bind (loopResult_uncancelled hloop) (finishKeys_uncancelled h))

theorem aggregateScan_uncancelled {kind : AggKind} {star : Bool} {name column cond : Bytes}
    {compiled : CompiledCondition} {c : AggCell}
    (h : t.aggregateScan env kind star name column cond compiled = .ok c) :
    t.aggregateScan env.uncancelled kind star name column cond compiled = .ok c := by
  unfold aggregateScan at h ⊢
  split_ifs at h ⊢
  · exact loopResult_uncancelled h
  · exact loopResult_uncancelled h

/-! ## How an aggregate is answered -/

/-- The way in which an aggregate is answered: not at all, at once, from an index bucket or by a
scan. -/
inductive AggregatePlan where
  | fail (f : Fault)
  | cell (v : Value)
  | bucket (column value : Bytes) (compiled : CompiledCondition)
  | scan (star : Bool) (column : Bytes) (compiled : CompiledCondition)

def countPlan (cond : Bytes) (compiled : CompiledCondition) (t : Table) : AggregatePlan :=
  if cond = [] then .cell (.count t.rows.size)
  else
    match t.simpleKey cond with
    | none => .scan true (str "*") compiled
    | some (column, value) =>
      if column = t.primaryColumn then .cell (.count (if value ∈ t.rows then 1 else 0))
      else if column ∈ t.indexes then .bucket column value compiled
      else .scan true (str "*") compiled

def aggregatePlan (kind : AggKind) (expression cond : Bytes) (t : Table) : AggregatePlan :=
  match indexByte (ch '(') expression, lastIndexByte (ch ')') expression with
  | some opening, some closing =>
    let column := toLower (trimSpace (slice expression (opening + 1) closing))
    if closing ≤ opening then .fail (fault "invalid aggregate")
    else if column = str "*" ∧ kind ≠ .count then
      .fail (fault "invalid aggregate: only COUNT(*) supports *")
    else if column ≠ str "*" ∧ !hasColumn t.columns column then
      .fail (faultWith "column not found: " column)
    else
      match compileCondition cond t.columns with
      | none => .fail (fault "invalid WHERE expression")
      | some compiled =>
        if column = str "*" then t.countPlan cond compiled else .scan false column compiled
  | _, _ => .fail (fault "invalid aggregate")

def aggregateBy (env : Env) (kind : AggKind) (expression cond : Bytes) (t : Table) :
    AggregatePlan → Except Fault Result
  | .fail f => .error f
  | .cell v => .ok (oneCell (toLower (trimSpace expression)) v)
  | .bucket column value compiled => do
    let n ← t.countIndexEquality env column value (simpleFastTerm cond t) compiled
    .ok (oneCell (toLower (trimSpace expression)) (.count n))
  | .scan star column compiled => do
    let c ← t.aggregateScan env kind star (toLower (trimSpace expression)) column cond compiled
    .ok (oneCell (toLower (trimSpace expression)) (c.value kind))

theorem aggregateResult_eq (env : Env) (kind : AggKind) (expression cond : Bytes) (t : Table) :
    t.aggregateResult env kind expression cond =
      t.aggregateBy env kind expression cond (t.aggregatePlan kind expression cond) := by
  unfold aggregateResult aggregatePlan
  cases indexByte (ch '(') expression with
  | none => rfl
  | some opening =>
    cases lastIndexByte (ch ')') expression with
    | none => rfl
    | some closing =>
      simp only
      generalize toLower (trimSpace (slice expression (opening + 1) closing)) = column
      by_cases hle : closing ≤ opening
      · rw [if_pos hle, if_pos hle]
        rfl
      rw [if_neg hle, if_neg hle]
      by_cases hall : column = str "*"
      · by_cases hcount : kind = .count
        · subst hall hcount
          cases compileCondition cond t.columns with
          | none => simp [aggregateBy]
          | some compiled =>
            simp only [ne_eq, not_true_eq_false, and_false, false_and, if_false, and_self,
              decide_true, if_true, countPlan]
            split_ifs
            · rfl
            · cases t.simpleKey cond with
              | none => rfl
              | some p =>
                simp only
                split_ifs <;> rfl
        · simp [hall, hcount, aggregateBy]
      · cases hcol : hasColumn t.columns column with
        | false => simp [hall, aggregateBy]
        | true => cases compileCondition cond t.columns <;> simp [hall, aggregateBy]

theorem aggregatePlan_scan {kind : AggKind} {expression cond column : Bytes} {star : Bool}
    {compiled : CompiledCondition}
    (h : t.aggregatePlan kind expression cond = .scan star column compiled) :
    compileCondition cond t.columns = some compiled ∧
      (star = true ∨ hasColumn t.columns column = true) := by
  unfold aggregatePlan at h
  split at h
  · cases hc : compileCondition cond t.columns with
    | none =>
      rw [hc] at h
      simp only at h
      split_ifs at h
    | some c =>
      rw [hc] at h
      simp only at h
      split_ifs at h with hle hstar hcol hall
      · unfold countPlan at h
        split at h
        · cases h
        · split at h
          · cases h
            exact ⟨rfl, Or.inl rfl⟩
          · split_ifs at h
            cases h
            exact ⟨rfl, Or.inl rfl⟩
      · cases h
        refine ⟨rfl, Or.inr ?_⟩
        simpa [hall] using hcol
  · cases h

theorem aggregateResult_uncancelled {kind : AggKind} {expression cond : Bytes}
    (h : t.aggregateResult env kind expression cond = .ok r) :
    t.aggregateResult env.uncancelled kind expression cond = .ok r := by
  rw [aggregateResult_eq] at h ⊢
  cases hplan : t.aggregatePlan kind expression cond with
  | fail f =>
    rw [hplan] at h
    cases h
  | cell v =>
    rw [hplan] at h
    exact h
  | bucket column value compiled =>
    rw [hplan] at h
    obtain ⟨n, hn, h⟩ := bind_ok h
    exact ok_bind (loopResult_uncancelled hn) h
  | scan star column compiled =>
    rw [hplan] at h
    obtain ⟨c, hc, h⟩ := bind_ok h
    exact ok_bind (aggregateScan_uncancelled hc) h

theorem groupedResult_uncancelled {selectExpr : Bytes} {tail : SelectTail} {distinct : Bool}
    (h : t.groupedResult env selectExpr tail distinct = .ok r) :
    t.groupedResult env.uncancelled selectExpr tail distinct = .ok r := by
  obtain ⟨gIdx, hidx, h⟩ := bind_ok h
  obtain ⟨items, hitems, h⟩ := bind_ok h
  refine ok_bind hidx (ok_bind hitems ?_)
  cases hc : compileCondition tail.cond t.columns with
  | none =>
    rw [hc] at h
    cases h
  | some compiled =>
    rw [hc] at h
    obtain ⟨groups, hgroups, h⟩ := bind_ok h
    refine ok_bind ?_ h
    unfold groupScan at hgroups ⊢
    split_ifs at hgroups ⊢
    · exact loopResult_uncancelled hgroups
    · exact loopResult_uncancelled hgroups

/-- **A query that is answered is answered alike if it is never cancelled.** -/
theorem selectTable_uncancelled {selectExpr : Bytes} {distinct : Bool} {tail : SelectTail}
    (h : t.selectTable env selectExpr distinct tail = .ok r) :
    t.selectTable env.uncancelled selectExpr distinct tail = .ok r := by
  unfold selectTable at h ⊢
  split at h
  · next hgroup =>
    rw [if_pos hgroup]
    exact groupedResult_uncancelled h
  · next hgroup =>
    rw [if_neg hgroup]
    split at h
    · cases h
    · next horder =>
      rw [if_neg horder]
      cases hagg : aggregateKind selectExpr with
      | some kind =>
        rw [hagg] at h
        obtain ⟨r', hr, h⟩ := bind_ok h
        exact ok_bind (aggregateResult_uncancelled hr) h
      | none =>
        rw [hagg] at h
        simp only at h ⊢
        split at h
        · cases h
        · rw [selectPlain_eq] at h ⊢
          exact selectBy_uncancelled h

end Table

/-- A SELECT that is answered under a context that may be cancelled at any row is answered as if it
could not be: nothing is left out of a result. -/
theorem Database.answer_complete {db : Database} {env : Env} {s : Bytes} {r : Result}
    (h : db.selectRows env s = .ok r) : db.selectRows env.uncancelled s = .ok r := by
  unfold Database.selectRows at h ⊢
  split at h
  · cases h
  · simp only at h ⊢
    split at h
    · cases h
    · obtain ⟨t, ht, h⟩ := bind_ok h
      obtain ⟨p, hp, h⟩ := bind_ok h
      obtain ⟨tail, htail, h⟩ := bind_ok h
      refine ok_bind ht (ok_bind hp (ok_bind htail ?_))
      split at h
      · cases h
      · next hfrom =>
        rw [if_neg hfrom]
        exact Table.selectTable_uncancelled h

/-- A scan of 64 rows looks at its context at the first and at the last, before it is cancelled. -/
theorem Database.answer_complete_late :
    sixtyFourRows.selectRows (cancelledAtRow 65) (str "SELECT SUM(v) FROM t WHERE v = 1") =
        .ok (oneCell (str "sum(v)") (.float (Float64.ofInt 64))) ∧
      sixtyFourRows.selectRows (cancelledAtRow 65).uncancelled
        (str "SELECT SUM(v) FROM t WHERE v = 1") =
        .ok (oneCell (str "sum(v)") (.float (Float64.ofInt 64))) := by
  have hrows :
      sixtyFourRows.selectRows (cancelledAtRow 65) (str "SELECT SUM(v) FROM t WHERE v = 1") =
      .ok (oneCell (str "sum(v)") (.float (Float64.ofInt 64))) := by decide +kernel
  exact ⟨hrows, Database.answer_complete hrows⟩

end SuperDB.Engine
