import SuperDB.Engine.Verify.FastRows
import SuperDB.Engine.Verify.Uncancelled

/-!
# Queries with and without the fast array

A table whose fast array lists its live rows answers a query as it does without the array, whether
the query is plain, an aggregate or grouped, unless it is answered from an index.
-/

namespace SuperDB.Engine

open Go

namespace Table

/-! ## Plain queries -/

section Plain

variable {env : Env} {q : Query} {t : Table} {compiled : CompiledCondition}

theorem Mirrors.fastMatches_eq (h : t.Mirrors) (hidents : ∀ c ∈ t.columns, IdentifierName c.name)
    (htrim : trimSpace q.tail.cond = q.tail.cond)
    (hcompile : compileCondition q.tail.cond t.columns = some compiled)
    {compiled' : CompiledCondition} (hfast : t.fast ≠ [])
    (hfor : t.compileFor q (t.termFor q) = .ok compiled') (row : Row) :
    t.fastMatches q (t.termFor q) compiled' (rowValues t.columns row) =
      (decide (q.tail.cond = []) || compiled.matchesMap row) := by
  unfold termFor at hfor ⊢
  rw [if_neg hfast] at hfor ⊢
  unfold fastMatches
  cases hterm : simpleFastTerm q.tail.cond t with
  | some term =>
    have hne : q.tail.cond ≠ [] := by
      intro hnil
      rw [hnil] at hterm
      cases hterm
    simp only [decide_eq_false hne, Bool.false_or]
    exact matchFastTerm_eq h.columns hidents htrim hterm hcompile row
  | none =>
    rw [hterm] at hfor
    by_cases hne : q.tail.cond = []
    · rw [decide_eq_true hne, Bool.true_or, Bool.true_or]
    · unfold compileFor at hfor
      rw [if_pos ⟨hne, Or.inl rfl⟩, hcompile] at hfor
      cases hfor
      rw [h.columns, matchesFast_rowValues (hasColumn_of_compileCondition hcompile)]

theorem compileFor_ok (hcompile : compileCondition q.tail.cond t.columns = some compiled)
    (term : Option FastTerm) :
    ∃ compiled', t.compileFor q term = .ok compiled' ∧
      (term = none ∨ q.tail.orderColumn ≠ [] → compiled' = compiled) := by
  unfold compileFor
  split
  · next huse =>
    rw [hcompile]
    exact ⟨compiled, rfl, fun _ => rfl⟩
  · next huse =>
    refine ⟨[], rfl, fun hwhy => ?_⟩
    have hnil : q.tail.cond = [] := by
      by_contra hne
      exact huse ⟨hne, hwhy⟩
    rw [hnil] at hcompile
    exact Option.some.inj hcompile

theorem Mirrors.selectFast_eq_selectOrder (h : t.Mirrors) (henv : env.Live)
    (hidents : ∀ c ∈ t.columns, IdentifierName c.name)
    (hnames : ∀ name ∈ q.names, hasColumn t.columns name = true)
    (htrim : trimSpace q.tail.cond = q.tail.cond)
    (hcompile : compileCondition q.tail.cond t.columns = some compiled)
    (hzero : q.distinct = true → ¬(q.tail.limit = some 0 ∧ q.tail.offset = 0))
    {compiled' : CompiledCondition} (hfast : t.fast ≠ []) (horder : q.tail.orderColumn = [])
    (hfor : t.compileFor q (t.termFor q) = .ok compiled') :
    t.selectFast env q (rowCap env.maxRows q.tail.limit q.tail.offset) (t.termFor q) compiled' =
      t.clearFast.selectOrder env q (rowCap env.maxRows q.tail.limit q.tail.offset) compiled := by
  by_cases hlimit : q.tail.limit = some 0
  · have hleft : t.selectFast env q (rowCap env.maxRows q.tail.limit q.tail.offset) (t.termFor q)
        compiled' = .ok { columns := q.names } := if_pos hlimit
    rw [hleft, hlimit]
    obtain ⟨c, hc, hle⟩ := rowCap_zero env.maxRows q.tail.offset
    by_cases hoffset : q.tail.offset = 0
    · have hdistinct : q.distinct = false :=
        Bool.eq_false_iff.2 fun hd => hzero hd ⟨hlimit, hoffset⟩
      obtain rfl : c = 0 := by omega
      rw [hc, selectOrder_zero henv horder hdistinct]
    · have hcap := rowCap_pos (fun hboth => hoffset hboth.2) c hc
      rw [hc, selectOrder_eq henv horder (fun d hd => by cases hd; exact hcap) compiled
        lineOf_clearFast]
      have hnone : applyOffset q.tail.offset (takeUpTo (some c) (t.clearFast.answer q compiled)) =
          [] := by
        refine List.drop_eq_nil_of_le (Nat.le_trans ?_ hle)
        exact List.length_take_le _ _
      rw [hnone]
      exact (if_neg fun hcapped => Nat.not_lt_zero _ hcapped.2).symm
  · have hcap : ∀ c, rowCap env.maxRows q.tail.limit q.tail.offset = some c → 0 < c :=
      rowCap_pos fun hboth => hlimit hboth.1
    rw [selectFast_eq henv hlimit hcap, selectOrder_eq henv horder hcap compiled lineOf_clearFast,
      h.foldl_takeFast hnames (h.fastMatches_eq hidents htrim hcompile hfast hfor)]
    rfl

theorem Mirrors.selectOrder_clearFast (h : t.Mirrors)
    (hnames : ∀ name ∈ q.names, hasColumn t.columns name = true) (env : Env) (cap : Option Nat) :
    t.selectOrder env q cap compiled = t.clearFast.selectOrder env q cap compiled := by
  have hadd : ∀ key c, t.addKey q key c = t.clearFast.addKey q key c := by
    intro key c
    simp only [addKey, h.lineOf_eq hnames]
  have hstep : t.orderStep q cap compiled = t.clearFast.orderStep q cap compiled := by
    funext c key
    simp only [orderStep, hadd]
    rfl
  have hfinish : ∀ keys, t.finishKeys env q cap keys = t.clearFast.finishKeys env q cap keys := by
    intro keys
    simp only [finishKeys, orderedKeys, orderKeys, h.orderValue_eq, materialize,
      h.lineOf_eq hnames]
  simp only [selectOrder, hstep, hfinish]
  rfl

theorem Mirrors.selectPlain_clearFast (h : t.Mirrors) (henv : env.Live)
    (hidents : ∀ c ∈ t.columns, IdentifierName c.name)
    (hnames : ∀ name ∈ q.names, hasColumn t.columns name = true)
    (htrim : trimSpace q.tail.cond = q.tail.cond)
    (hcompile : compileCondition q.tail.cond t.columns = some compiled)
    (hzero : q.distinct = true → ¬(q.tail.limit = some 0 ∧ q.tail.offset = 0))
    (hindex : ∀ column value, t.path q ≠ .bucket column value) :
    t.selectPlain env q = t.clearFast.selectPlain env q := by
  rw [selectPlain_eq, selectPlain_eq]
  obtain ⟨slow, hslow, hsame⟩ := compileFor_ok (t := t.clearFast) hcompile
    (t.clearFast.termFor q)
  obtain rfl : slow = compiled := hsame (Or.inl (if_pos rfl))
  unfold path at hindex ⊢
  cases hkey : (t.simpleKey q.tail.cond).filter (·.1 = t.primaryColumn) with
  | some p =>
    have hkey' : (t.clearFast.simpleKey q.tail.cond).filter (·.1 = t.clearFast.primaryColumn) =
        some p := hkey
    rw [hkey']
    simp only [selectBy]
    rw [h.selectKey_eq hnames]
  | none =>
    have hkey' : (t.clearFast.simpleKey q.tail.cond).filter (·.1 = t.clearFast.primaryColumn) =
        none := hkey
    rw [hkey']
    rw [hkey] at hindex
    simp only at hindex ⊢
    cases hbucket : (t.simpleKey q.tail.cond).filter (·.1 ∈ t.indexes) with
    | some p =>
      rw [hbucket] at hindex
      exact absurd rfl (hindex p.1 p.2)
    | none =>
      have hbucket' : (t.clearFast.simpleKey q.tail.cond).filter (·.1 ∈ t.clearFast.indexes) =
          none := hbucket
      rw [hbucket']
      have hnot : ¬(t.clearFast.fast ≠ [] ∧ q.tail.orderColumn = []) := fun hboth => hboth.1 rfl
      simp only [if_neg hnot]
      obtain ⟨compiled', hfor, hsame'⟩ := compileFor_ok hcompile (t.termFor q)
      by_cases hscan : t.fast ≠ [] ∧ q.tail.orderColumn = []
      · simp only [if_pos hscan, selectBy, hslow, hfor]
        exact h.selectFast_eq_selectOrder henv hidents hnames htrim hcompile hzero hscan.1
          hscan.2 hfor
      · have hwhy : t.termFor q = none ∨ q.tail.orderColumn ≠ [] := by
          by_cases hfast : t.fast = []
          · exact Or.inl (if_pos hfast)
          · exact Or.inr fun horder => hscan ⟨hfast, horder⟩
        obtain rfl := hsame' hwhy
        simp only [if_neg hscan, selectBy, hslow, hfor]
        exact h.selectOrder_clearFast hnames env _

end Plain

/-! ## Aggregates and groups -/

section Loops

variable {env : Env} {t : Table} {compiled : CompiledCondition} {cond : Bytes}

/-- A loop over the array that passes over tombstones does what a loop over `order` does that passes
over dead keys, if the two treat a live row alike. -/
theorem Mirrors.rangeLoop_eq {σ : Type} (h : t.Mirrors) (henv : env.Live)
    {body : σ → FastRow → Ctl σ Fault} {body' : σ → Bytes → Ctl σ Fault}
    (htomb : ∀ s values, body s ⟨[], values⟩ = .next s)
    (hdead : ∀ s key, t.rows[key]? = none → body' s key = .next s)
    (hlive : ∀ s key row, key ≠ [] → t.rows[key]? = some row →
      body s ⟨key, rowValues t.columns row⟩ = body' s key) (s : σ) :
    rangeLoop env.scanTick body 0 t.fast s = rangeLoop env.scanTick body' 0 t.order s := by
  have hfast : rangeLoop env.scanTick body 0 t.fast s =
      rangeLoop env.scanTick body 0 (t.fast.filter (·.key ≠ [])) s := by
    rw [← List.filterMap_eq_filter]
    refine rangeLoop_filterMap henv.scanTick ?_ ?_ 0 0 s
    · rintro s ⟨key, values⟩ - hnone
      have hkey : key = [] := by simpa [Option.guard] using hnone
      rw [hkey, htomb]
    · rintro s r - r' hsome
      rw [Option.guard_eq_some_iff.1 hsome |>.1]
  have horder : rangeLoop env.scanTick body' 0 t.order s =
      rangeLoop env.scanTick body 0 t.fastRows s := by
    refine rangeLoop_filterMap henv.scanTick ?_ ?_ 0 0 s
    · rintro s key - hnone
      exact hdead s key (Option.map_eq_none_iff.1 hnone)
    · intro s key hkey r hsome
      obtain ⟨row, hget, rfl⟩ := Option.map_eq_some_iff.1 hsome
      exact (hlive s key row (h.key_ne hkey hget) hget).symm
  rw [hfast, h.rows, horder]

theorem Mirrors.aggregateScan_eq (h : t.Mirrors) (henv : env.Live)
    (hidents : ∀ c ∈ t.columns, IdentifierName c.name) (htrim : trimSpace cond = cond)
    (hcompile : compileCondition cond t.columns = some compiled) (kind : AggKind) {star : Bool}
    (name : Bytes) {column : Bytes} (hcolumn : star = true ∨ hasColumn t.columns column = true) :
    t.aggregateScan env kind star name column cond compiled =
      t.clearFast.aggregateScan env kind star name column cond compiled := by
  by_cases hfast : t.fast = []
  · simp only [aggregateScan, hfast, clearFast_fast, ne_eq, not_true_eq_false, if_false]
    rfl
  · have hhas : ¬((!star) = true ∧ column ∉ t.fastColumns) := by
      rintro ⟨hstar, hmissing⟩
      rcases hcolumn with rfl | hcol
      · cases hstar
      · obtain ⟨i, hi⟩ := columnPositions_isSome hcol
        rw [h.columns] at hmissing
        exact hmissing (Map.mem_of_get? hi)
    unfold aggregateScan
    rw [if_pos hfast, if_neg hhas, if_neg (not_not.2 (clearFast_fast t))]
    refine congrArg loopResult (h.rangeLoop_eq henv (fun s values => if_pos rfl) ?_ ?_ _)
    · intro c key hget
      simp only [clearFast_rows, hget]
    intro c key row hkey hget
    simp only [if_neg hkey, clearFast_rows, hget]
    -- COUNT(*) does not look at the cell
    have hcell : ∀ matched, aggregateStep kind star name matched
        ((rowValues t.columns row).getD (t.fastColumns.getD column 0) .null) c =
          aggregateStep kind star name matched (row.get column) c := by
      intro matched
      rcases hcolumn with rfl | hcol
      · rfl
      · obtain ⟨i, hi⟩ := columnPositions_isSome hcol
        have hposition : t.fastColumns.getD column 0 = i := by
          rw [h.columns, Map.getD_eq, hi]
          rfl
        rw [hposition, getD_rowValues hi]
    rw [hcell]
    refine congrArg
      (fun m => aggregateStep kind star name (decide (cond = []) || m) (row.get column) c) ?_
    cases hterm : simpleFastTerm cond t with
    | some term => exact matchFastTerm_eq h.columns hidents htrim hterm hcompile row
    | none =>
      simp only
      rw [h.columns, matchesFast_rowValues (hasColumn_of_compileCondition hcompile)]

theorem bind_congr_ok {ε α β : Type} {x : Except ε α} {f g : α → Except ε β}
    (h : ∀ a, x = .ok a → f a = g a) : x >>= f = x >>= g := by
  cases x with
  | error e => rfl
  | ok a => exact h a rfl

theorem forall₂_of_mapM {ε α β : Type} {f : α → Except ε β} {l : List α} {l' : List β}
    (h : l.mapM f = .ok l') : List.Forall₂ (fun a b => f a = .ok b) l l' := by
  induction l generalizing l' with
  | nil =>
    cases h
    exact .nil
  | cons a l ih =>
    rw [List.mapM_cons] at h
    obtain ⟨b, hb, h⟩ := bind_ok h
    obtain ⟨l'', hl, h⟩ := bind_ok h
    cases h
    exact .cons hb (ih hl)

theorem getD_rowValues_elim (columns : List Column) (row : Row) (i : Nat) :
    (rowValues columns row).getD i .null = (columns[i]?).elim .null fun c => row.get c.name := by
  rw [List.getD_eq_getElem?_getD, getElem?_rowValues]
  cases columns[i]? <;> rfl

theorem Mirrors.groupScan_eq (h : t.Mirrors) (henv : env.Live)
    (hcompile : compileCondition cond t.columns = some compiled) {groupBy : List Bytes}
    {gIdx : List Nat}
    (hidx : List.Forall₂ (fun g i => (columnPositions t.columns)[g]? = some i) groupBy gIdx)
    (aggs : List GroupAgg) :
    t.groupScan env groupBy gIdx aggs cond compiled =
      t.clearFast.groupScan env groupBy gIdx aggs cond compiled := by
  by_cases hfast : t.fast = []
  · simp only [groupScan, hfast, clearFast_fast, ne_eq, not_true_eq_false, if_false]
    rfl
  · unfold groupScan
    rw [if_pos hfast, if_neg (not_not.2 (clearFast_fast t))]
    refine congrArg loopResult (h.rangeLoop_eq henv (fun s values => if_pos rfl) ?_ ?_ _)
    · intro g key hget
      simp only [clearFast_rows, hget]
    intro g key row hkey hget
    have hgroups : gIdx.map (fun i => (rowValues t.columns row).getD i .null) =
        groupBy.map row.get := by
      induction hidx with
      | nil => rfl
      | cons hi _ ih => rw [List.map_cons, List.map_cons, getD_rowValues hi, ih]
    simp only [if_neg hkey, hgroups, clearFast_rows, hget]
    rw [h.columns, matchesFast_rowValues (hasColumn_of_compileCondition hcompile)]
    simp only [getD_rowValues_elim]
    rfl

theorem Mirrors.aggregateResult_clearFast (h : t.Mirrors) (henv : env.Live)
    (hidents : ∀ c ∈ t.columns, IdentifierName c.name) (htrim : trimSpace cond = cond)
    (kind : AggKind) (expression : Bytes)
    (hindex : ∀ column value compiled, t.aggregatePlan kind expression cond ≠ .bucket column value
      compiled) :
    t.aggregateResult env kind expression cond = t.clearFast.aggregateResult env kind expression
      cond := by
  have hplan : t.clearFast.aggregatePlan kind expression cond =
      t.aggregatePlan kind expression cond := rfl
  rw [aggregateResult_eq, aggregateResult_eq, hplan]
  cases hp : t.aggregatePlan kind expression cond with
  | fail f => rfl
  | cell v => rfl
  | bucket column value compiled => exact absurd hp (hindex column value compiled)
  | scan star column compiled =>
    obtain ⟨hcompile, hcolumn⟩ := aggregatePlan_scan hp
    simp only [aggregateBy, h.aggregateScan_eq henv hidents htrim hcompile kind _ hcolumn]

theorem Mirrors.groupedResult_clearFast (h : t.Mirrors) (henv : env.Live) (selectExpr : Bytes)
    (tail : SelectTail) (distinct : Bool) :
    t.groupedResult env selectExpr tail distinct =
      t.clearFast.groupedResult env selectExpr tail distinct := by
  unfold groupedResult
  simp only [clearFast_columns]
  refine bind_congr_ok fun gIdx hgroup => ?_
  have hidx : List.Forall₂ (fun g i => (columnPositions t.columns)[g]? = some i) tail.groupBy
      gIdx := by
    refine (forall₂_of_mapM hgroup).imp fun g i hg => ?_
    split at hg
    · next hi =>
      cases hg
      exact hi
    · cases hg
  refine bind_congr_ok fun items _ => ?_
  cases hcompile : compileCondition tail.cond t.columns with
  | none => rfl
  | some compiled =>
    simp only
    rw [h.groupScan_eq henv hcompile hidx]

end Loops

/-! ## Queries -/

def servedByIndex (selectExpr : Bytes) (tail : SelectTail) (t : Table) : Bool :=
  if tail.groupBy ≠ [] then false
  else
    match aggregateKind selectExpr with
    | some kind =>
      match t.aggregatePlan kind selectExpr tail.cond with
      | .bucket _ _ _ => true
      | _ => false
    | none =>
      match t.path ⟨[], false, tail⟩ with
      | .bucket _ _ => true
      | _ => false

section Queries

variable {env : Env} {t : Table} {selectExpr : Bytes} {distinct : Bool} {tail : SelectTail}
  {compiled : CompiledCondition}

/-- **A query gives the same result with and without the array** unless it is answered from an
index. -/
theorem Mirrors.selectTable_clearFast (h : t.Mirrors) (henv : env.Live)
    (hidents : ∀ c ∈ t.columns, IdentifierName c.name)
    (htrim : trimSpace tail.cond = tail.cond)
    (hcompile : compileCondition tail.cond t.columns = some compiled)
    (hzero : distinct = true → ¬(tail.limit = some 0 ∧ tail.offset = 0))
    (hindex : t.servedByIndex selectExpr tail = false) :
    t.selectTable env selectExpr distinct tail = t.clearFast.selectTable env selectExpr distinct
      tail := by
  unfold servedByIndex at hindex
  unfold selectTable
  by_cases hgroup : tail.groupBy ≠ []
  · rw [if_pos hgroup, if_pos hgroup, h.groupedResult_clearFast henv]
  · rw [if_neg hgroup] at hindex
    rw [if_neg hgroup, if_neg hgroup, clearFast_columns]
    split
    · rfl
    · cases hagg : aggregateKind selectExpr with
      | some kind =>
        rw [hagg] at hindex
        simp only at hindex ⊢
        rw [h.aggregateResult_clearFast henv hidents htrim]
        intro column value compiled hplan
        rw [hplan] at hindex
        cases hindex
      | none =>
        rw [hagg] at hindex
        simp only at hindex ⊢
        split
        · rfl
        · next hnames =>
          refine h.selectPlain_clearFast henv hidents ?_ htrim hcompile hzero ?_
          · intro name hname
            simpa using List.find?_eq_none.1 hnames name hname
          · intro column value hpath
            have hbucket : t.path ⟨[], false, tail⟩ = .bucket column value := hpath
            rw [hbucket] at hindex
            cases hindex

end Queries

end Table

/-! ## Databases -/

theorem parseSelectTail_trimmed {rest : Bytes} {tail : SelectTail}
    (h : parseSelectTail rest = .ok tail) : trimSpace tail.cond = tail.cond := by
  unfold parseSelectTail at h
  simp only at h
  split at h
  · cases h
  · obtain ⟨cond, hcond, h⟩ := bind_ok h
    obtain ⟨groupBy, -, h⟩ := bind_ok h
    obtain ⟨having, -, h⟩ := bind_ok h
    split at h
    · cases h
    · obtain ⟨p, -, h⟩ := bind_ok h
      obtain ⟨limit, -, h⟩ := bind_ok h
      obtain ⟨offset, -, h⟩ := bind_ok h
      cases h
      show trimSpace cond = cond
      unfold optionalClause at hcond
      split at hcond
      · cases hcond
        rfl
      · simp only at hcond
        split at hcond
        · cases hcond
        · cases hcond
          exact trimSpace_trimSpace _

theorem Table.Mirrors.rebuild {env : Env} {t : Table} (hsize : env.below t.order.length = false)
    (hkeys : ∀ key ∈ t.order, key ≠ []) : (t.rebuildFastPathLocked env).Mirrors := by
  have hrebuilt : t.rebuildFastPathLocked env =
      { t with
        fastColumns := columnPositions t.columns
        fast := t.fastRows
        fastPos := fastPositions t.fastRows
        fastDead := 0 } := by
    unfold Table.rebuildFastPathLocked
    rw [hsize]
    exact if_neg Bool.false_ne_true
  have hentry : ∀ r ∈ t.fastRows, r.key ≠ [] := by
    intro r hr
    obtain ⟨key, hkey, hr⟩ := List.mem_filterMap.1 hr
    obtain ⟨row, -, rfl⟩ := Option.map_eq_some_iff.1 hr
    exact hkeys key hkey
  rw [hrebuilt]
  refine ⟨rfl, ?_, fun key i hi => ?_⟩
  · show t.fastRows.filter (·.key ≠ []) = t.fastRows
    exact List.filter_eq_self.2 fun r hr => decide_eq_true (hentry r hr)
  · obtain ⟨r, hr, rfl⟩ := get?_positions hi
    obtain ⟨row, hrow, he⟩ := Table.FastInv.getElem?_fastRows hr
    exact ⟨hentry r (List.mem_of_getElem? hr), row, hrow, he ▸ hr⟩

def Database.clearFast (db : Database) : Database :=
  { db with tables := db.tables.map fun _ t => t.clearFast }

section Databases

variable {env : Env} {db : Database} {s : Bytes} {t : Table} {selectExpr : Bytes} {distinct : Bool}
  {tail : SelectTail} {compiled : CompiledCondition}

theorem Database.Reads.clearFast (h : db.Reads s t selectExpr distinct tail) :
    db.clearFast.Reads s t.clearFast selectExpr distinct tail := by
  obtain ⟨fi, name, hfrom, hname, ht, hexpr, htail, hhead⟩ := h
  refine ⟨fi, name, hfrom, hname, ?_, hexpr, htail, hhead⟩
  unfold Database.table Database.clearFast
  rw [Map.get?_map, Database.table_ok ht]
  rfl

theorem Database.Reads.trimmed (h : db.Reads s t selectExpr distinct tail) :
    trimSpace tail.cond = tail.cond := by
  obtain ⟨_, _, _, _, _, _, htail, _⟩ := h
  exact parseSelectTail_trimmed htail

end Databases

/-- A SELECT without LIMIT on a table whose array lists its live rows, and whose columns are named
by words, has the same outcome if the array is discarded; in a context that may be cancelled, the
same result if both are answered. -/
theorem fast_array_unobservable {env : Env} {db : Database} {s : Bytes} {t : Table}
    {selectExpr : Bytes} {distinct : Bool} {tail : SelectTail} {compiled : CompiledCondition}
    (hread : db.Reads s t selectExpr distinct tail) (hmirrors : t.Mirrors)
    (hidents : ∀ c ∈ t.columns, IdentifierName c.name) (hlimit : tail.limit = none)
    (hcompile : compileCondition tail.cond t.columns = some compiled)
    (hindex : t.servedByIndex selectExpr tail = false) :
    (env.Live → db.selectRows env s = db.clearFast.selectRows env s) ∧
    (∀ r r', db.selectRows env s = .ok r → db.clearFast.selectRows env s = .ok r' → r = r') := by
  have hsame : ∀ env : Env, env.Live →
      t.selectTable env selectExpr distinct tail = t.clearFast.selectTable env selectExpr distinct
        tail := by
    intro env henv
    refine hmirrors.selectTable_clearFast henv hidents hread.trimmed hcompile ?_ hindex
    rintro - ⟨hzero, -⟩
    rw [hlimit] at hzero
    cases hzero
  rw [hread.selectRows, hread.clearFast.selectRows]
  refine ⟨hsame env, fun r r' hr hr' => ?_⟩
  have hone := Table.selectTable_uncancelled hr
  have htwo := Table.selectTable_uncancelled hr'
  rw [hsame env.uncancelled env.uncancelled_live, htwo] at hone
  exact (Except.ok.inj hone).symm

/-- Two rows, and their fast array. -/
def arrayed : Database :=
  let db := Database.runAll {}
    (script ["CREATE TABLE t (id INT PRIMARY KEY, v INT)", "INSERT INTO t VALUES (1, 5), (2, 6)"])
  { db with tables := db.tables.map fun _ t => t.rebuildFastPathLocked { threshold := some 0 } }

theorem fast_array_equality : ∃ t tail, arrayed.Reads (str "SELECT id FROM t WHERE v = 6") t
    (str "id")
      false tail ∧ t.Mirrors ∧ t.fast.length = 2 ∧
    arrayed.selectRows {} (str "SELECT id FROM t WHERE v = 6") =
      arrayed.clearFast.selectRows {} (str "SELECT id FROM t WHERE v = 6") := by
  obtain ⟨t, ht, hread, horder, hfast, hidents, hindex, hcompile⟩ : ∃ t,
      arrayed.table (str "t") = .ok t ∧
      arrayed.readsFrom (str "SELECT id FROM t WHERE v = 6") (str "t") (str "id") false
        { cond := str "v = 6", headEnd := 2 } ∧
      t.order = [str "1", str "2"] ∧ t.fast.length = 2 ∧ (∀ c ∈ t.columns, IdentifierName c.name) ∧
      t.servedByIndex (str "id") { cond := str "v = 6", headEnd := 2 } = false ∧
      (compileCondition (str "v = 6") t.columns).isSome = true := by
    decide +kernel
  obtain ⟨compiled, hcompile⟩ := Option.isSome_iff_exists.1 hcompile
  have hread := Database.reads_of_table ht hread
  have hmirrors : t.Mirrors := by
    have hget := Database.table_ok ht
    simp only [arrayed, Map.get?_map, Option.map_eq_some_iff] at hget
    obtain ⟨t₀, -, rfl⟩ := hget
    refine Table.Mirrors.rebuild rfl ?_
    rw [show t₀.order = _ from horder]
    decide +kernel
  exact ⟨t, _, hread, hmirrors, hfast,
    (fast_array_unobservable hread hmirrors hidents rfl hcompile hindex).1 fun _ => rfl⟩

end SuperDB.Engine
