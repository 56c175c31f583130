import SuperDB.Engine.Verify.OrderInv
import SuperDB.Engine.Verify.Window

/-!
# Counting rows

`COUNT(*)` has its own shortcuts and its own scans. It counts the rows that the query with `*` in
its place answers with: a scan counts what the other collects, and the shortcuts are right where
`order` lists each row once and the fast array lists the live rows.
-/

namespace SuperDB.Engine

open Go

/-! ## What is collected without DISTINCT -/

theorem foldl_add_eq_filter {α β : Type} (p : α → Bool) (key : α → Bytes) (f : α → β) (l : List α)
    (c : Collected β) :
    (l.foldl (fun c a => if p a then c.add false (key a) (f a) else c) c).listed =
      c.listed ++ (l.filter p).map f := by
  induction l generalizing c with
  | nil => simp
  | cons a l ih =>
    rw [List.foldl_cons, ih]
    by_cases hp : p a = true
    · rw [if_pos hp, List.filter_cons_of_pos hp, List.map_cons]
      simp [Collected.add, Collected.listed]
    · rw [if_neg hp, List.filter_cons_of_neg hp]

namespace Table

def meets (cond : Bytes) (compiled : CompiledCondition) (t : Table) (key : Bytes) : Bool :=
  (t.rows[key]?).any fun row => cond = [] || compiled.matchesMap row

section Collect

variable {env : Env} {q : Query} {t : Table} {compiled : CompiledCondition}

theorem takeKey_meets (c : Collected Bytes) (key : Bytes) :
    t.takeKey q compiled c key =
      if t.meets q.tail.cond compiled key then c.add q.distinct
        (rowProjectionKey (t.lineOf q.names key)) key
      else c := by
  rw [takeKey_eq, meets]
  cases t.rows[key]? with
  | none => rfl
  | some row => rfl

theorem candidates_eq_filter (hdistinct : q.distinct = false) :
    t.candidates q compiled = t.order.filter (t.meets q.tail.cond compiled) := by
  have hstep : t.takeKey q compiled = fun c key => if t.meets q.tail.cond compiled key then
      c.add false (rowProjectionKey (t.lineOf q.names key)) key else c := by
    funext c key
    rw [takeKey_meets, hdistinct]
  unfold candidates
  rw [hstep, foldl_add_eq_filter _ (fun key => rowProjectionKey (t.lineOf q.names key)) fun key =>
    key]
  simp [Collected.listed]

theorem bucketCandidates_eq_filter (hdistinct : q.distinct = false) (column value : Bytes) :
    t.bucketCandidates env q column value compiled =
      (t.bucket env column value).filter (t.bucketMatches column (t.termFor q) compiled) := by
  have hstep : t.takeCandidate q column (t.termFor q) compiled = fun c key =>
      if t.bucketMatches column (t.termFor q) compiled key then
        c.add false (rowProjectionKey (t.lineOf q.names key)) key
      else c := by
    funext c key
    rw [takeCandidate, addKey, hdistinct]
  unfold bucketCandidates
  rw [hstep, foldl_add_eq_filter _ (fun key => rowProjectionKey (t.lineOf q.names key)) fun key =>
    key]
  simp [Collected.listed]

theorem takeFast_eq_filter (hdistinct : q.distinct = false) (term : Option FastTerm) :
    (t.fast.foldl (t.takeFast q term compiled) {}).listed =
      (t.fast.filter (t.takesFast q term compiled)).map fun row =>
        selectedFastValues row.values q.names t.fastColumns := by
  have hstep : t.takeFast q term compiled = fun c row => if t.takesFast q term compiled row then
      c.add false (rowProjectionKey (selectedFastValues row.values q.names t.fastColumns))
        (selectedFastValues row.values q.names t.fastColumns) else c := by
    funext c row
    rw [takeFast, hdistinct]
  rw [hstep, foldl_add_eq_filter _
    (fun row : FastRow => rowProjectionKey (selectedFastValues row.values q.names t.fastColumns))
    fun row => selectedFastValues row.values q.names t.fastColumns]
  simp [Collected.listed]

end Collect

/-! ## Scans that count -/

section Count

variable {env : Env} {t : Table} {compiled : CompiledCondition} {cond : Bytes}

theorem aggregateStep_star (name : Bytes) (matched : Bool) (v : Value) (c : AggCell) :
    aggregateStep .count true name matched v c =
      .next (if matched then { c with count := c.count + 1 } else c) := by
  cases matched <;> rfl

theorem foldl_count {α : Type} (p : α → Bool) (l : List α) (c : AggCell) :
    (l.foldl (fun c a => if p a then { c with count := c.count + 1 } else c) c).count =
      c.count + l.countP p := by
  induction l generalizing c with
  | nil => rfl
  | cons a l ih =>
    rw [List.foldl_cons, ih]
    by_cases hp : p a = true
    · rw [if_pos hp, List.countP_cons_of_pos hp]
      show c.count + 1 + _ = _
      omega
    · rw [if_neg hp, List.countP_cons_of_neg hp]

theorem loop_count {α : Type} (henv : env.Live) {body : AggCell → α → Ctl AggCell Fault}
    {p : α → Bool}
    (hbody : ∀ c a, body c a = .next (if p a then { c with count := c.count + 1 } else c))
    (l : List α) :
    ∃ c, loopResult (rangeLoop env.scanTick body 0 l {}) = .ok c ∧ c.count = l.countP p := by
  have hloop : body = fun c a => .next (if p a then { c with count := c.count + 1 } else c) :=
    funext fun c => funext fun a => hbody c a
  rw [hloop, rangeLoop_eq_foldl henv.scanTick]
  refine ⟨_, rfl, ?_⟩
  rw [foldl_count]
  exact Nat.zero_add _

def countsFast (cond : Bytes) (compiled : CompiledCondition) (t : Table) (row : FastRow) : Bool :=
  row.key ≠ [] && (cond = [] ||
    match simpleFastTerm cond t with
    | some term => matchFastTerm row.values term
    | none => compiled.matchesFast row.values t.fastColumns)

variable (t cond compiled) in
theorem aggregateScan_star (henv : env.Live) (name : Bytes) :
    ∃ c, t.aggregateScan env .count true name (str "*") cond compiled = .ok c ∧
      c.count = if t.fast ≠ [] then t.fast.countP (t.countsFast cond compiled)
        else t.order.countP (t.meets cond compiled) := by
  unfold aggregateScan
  by_cases hfast : t.fast = []
  · rw [if_neg (not_not.2 hfast), if_neg (not_not.2 hfast)]
    refine loop_count henv (fun c key => ?_) t.order
    unfold meets
    cases t.rows[key]? with
    | none => rfl
    | some row => exact aggregateStep_star _ _ _ _
  · rw [if_pos hfast, if_pos hfast, if_neg (fun h => absurd h.1 (by decide))]
    refine loop_count henv (fun c row => ?_) t.fast
    simp only [aggregateStep_star]
    by_cases hkey : row.key = []
    · have hcounts : t.countsFast cond compiled row = false := by simp [countsFast, hkey]
      rw [if_pos hkey, hcounts, if_neg Bool.false_ne_true]
    · have hcounts : t.countsFast cond compiled row = (cond = [] ||
          match simpleFastTerm cond t with
          | some term => matchFastTerm row.values term
          | none => compiled.matchesFast row.values t.fastColumns) := by simp [countsFast, hkey]
      rw [if_neg hkey]
      exact congrArg
        (fun counts : Bool => Ctl.next (if counts then { c with count := c.count + 1 } else c))
        hcounts.symm

theorem loop_countNat {α : Type} (henv : env.Live) (p : α → Bool) (l : List α) (n : Nat) :
    loopResult (rangeLoop env.scanTick (fun n a => .next (if p a then n + 1 else n)) 0 l n) =
      .ok (n + l.countP p) := by
  rw [rangeLoop_eq_foldl henv.scanTick]
  refine congrArg Except.ok ?_
  induction l generalizing n with
  | nil => rfl
  | cons a l ih =>
    rw [List.foldl_cons, ih]
    by_cases hp : p a = true
    · rw [if_pos hp, List.countP_cons_of_pos hp]
      omega
    · rw [if_neg hp, List.countP_cons_of_neg hp]

theorem countIndexEquality_live (henv : env.Live) (column value : Bytes) (term : Option FastTerm) :
    t.countIndexEquality env column value term compiled =
      .ok ((t.bucket env column value).countP (t.bucketMatches column term compiled)) := by
  unfold countIndexEquality
  rw [loop_countNat henv, Nat.zero_add]

end Count

/-! ## Counting and listing -/

/-- No fast array, or one that mirrors the rows. -/
def FastAgrees (t : Table) : Prop := t = t.clearFast ∨ t.Mirrors

theorem eq_clearFast {t : Table} (hfast : t.fast = []) (hcolumns : t.fastColumns = ∅)
    (hpos : t.fastPos = ∅) (hdead : t.fastDead = 0) : t = t.clearFast := by
  cases t
  cases hfast
  cases hcolumns
  cases hpos
  cases hdead
  rfl

section Agree

variable {env : Env} {t : Table} {q : Query} {compiled compiled' : CompiledCondition}

theorem simpleFastTerm_clearFast (h : t = t.clearFast) (cond : Bytes) : simpleFastTerm cond t =
    none := by
  have hnone : ∀ column : Bytes, t.fastColumns[column]? = none := by
    intro column
    rw [h]
    exact Map.get?_empty column
  unfold simpleFastTerm
  cases simpleSides cond with
  | none => rfl
  | some p =>
    show (if p.1 = [] then none else _) = none
    rw [hnone]
    exact ite_self none

theorem simpleKey_nil : t.simpleKey [] = none := rfl

theorem path_nil (hcond : q.tail.cond = []) (horder : q.tail.orderColumn = []) :
    t.path q = if t.fast ≠ [] then .fast else .order := by
  unfold path
  rw [hcond, simpleKey_nil]
  simp [horder]

theorem takesFast_eq_countsFast (hfast : t.fast ≠ [])
    (hsame : t.termFor q = none → compiled' = compiled) :
    t.takesFast q (t.termFor q) compiled' = t.countsFast q.tail.cond compiled := by
  funext row
  unfold takesFast countsFast
  congr 1
  have hterm : t.termFor q = simpleFastTerm q.tail.cond t := if_neg hfast
  rw [hterm] at hsame ⊢
  unfold fastMatches
  cases hx : simpleFastTerm q.tail.cond t with
  | none => rw [hsame hx]
  | some term =>
    have hne : q.tail.cond ≠ [] := by
      intro hnil
      rw [hnil] at hx
      cases hx
    rw [decide_eq_false hne, Bool.false_or]
    rfl

theorem Mirrors.rows_of_nil (h : t.Mirrors) (honce : ∀ key ∈ t.rows, t.order.count key = 1)
    (hfast : t.fast = []) (key : Bytes) : t.rows[key]? = none := by
  by_contra hsome
  obtain ⟨row, hrow⟩ := Option.ne_none_iff_exists'.1 hsome
  have hkey : key ∈ t.order := by
    rw [← List.count_pos_iff, honce key (Map.mem_of_get? hrow)]
    exact Nat.one_pos
  have hmem : (⟨key, rowValues t.columns row⟩ : FastRow) ∈ t.fastRows := by
    refine List.mem_filterMap.2 ⟨key, hkey, ?_⟩
    rw [hrow]
    rfl
  rw [← h.rows, hfast] at hmem
  cases hmem

theorem bucketMatches_termFor (hagrees : t.FastAgrees)
    (honce : ∀ key ∈ t.rows, t.order.count key = 1)
    (hsame : t.termFor q = none → compiled' = compiled) (column key : Bytes) :
    t.bucketMatches column (t.termFor q) compiled' key =
      t.bucketMatches column (simpleFastTerm q.tail.cond t) compiled key := by
  by_cases hfast : t.fast = []
  · have hterm : t.termFor q = none := if_pos hfast
    rw [hterm, hsame hterm]
    rcases hagrees with hclear | hmirrors
    · rw [simpleFastTerm_clearFast hclear]
    · -- nothing is stored, so no candidate matches
      have hnone := hmirrors.rows_of_nil honce hfast key
      have hat : t.fastAt key = none := by
        rcases hmirrors.fastInv.fastAt key with hat | ⟨row, hrow, -⟩
        · exact hat
        · rw [hnone] at hrow
          cases hrow
      unfold bucketMatches
      cases simpleFastTerm q.tail.cond t with
      | none => rfl
      | some term => simp only [hat, hnone]
  · have hterm : t.termFor q = simpleFastTerm q.tail.cond t := if_neg hfast
    rw [hterm] at hsame ⊢
    cases hx : simpleFastTerm q.tail.cond t with
    | none => rw [hsame hx]
    | some term => rfl

theorem meets_nil (hcond : q.tail.cond = []) :
    t.meets q.tail.cond compiled = fun key => t.rows.contains key := by
  funext key
  rw [meets, hcond, Std.ExtTreeMap.contains_eq_isSome_getElem?]
  cases t.rows[key]? <;> rfl

theorem length_keyRows (hagrees : t.FastAgrees) (key : Bytes) :
    (t.keyRows q key).length = if key ∈ t.rows then 1 else 0 := by
  have hlookup : t.fastPos[key]? = none →
      (t.keyRows q key).length = if key ∈ t.rows then 1 else 0 := by
    intro hpos
    unfold keyRows
    rw [hpos]
    cases hrow : t.rows[key]? with
    | none =>
      have hnot : key ∉ t.rows := by
        rw [Map.mem_iff, hrow]
        rintro ⟨row, h⟩
        cases h
      rw [if_neg hnot]
      rfl
    | some row =>
      rw [if_pos (Map.mem_of_get? hrow)]
      rfl
  rcases hagrees with hclear | hmirrors
  · refine hlookup ?_
    rw [hclear]
    exact Map.get?_empty key
  · cases hpos : t.fastPos[key]? with
    | none => exact hlookup hpos
    | some i =>
      obtain ⟨hne, row, hrow, hat⟩ := hmirrors.pos key i hpos
      unfold keyRows
      rw [hpos, if_pos (Map.mem_of_get? hrow)]
      simp only [hat]
      rw [if_neg hne]
      rfl

theorem length_liveOrder (honce : ∀ key ∈ t.rows, t.order.count key = 1) :
    t.liveOrder.length = t.rows.size := by
  rw [(liveOrder_perm_keys honce).length_eq, Std.ExtTreeMap.length_keys]

theorem length_fastRows : t.fastRows.length = t.liveOrder.length := by
  unfold fastRows liveOrder
  rw [List.length_filterMap_eq_countP, List.countP_eq_length_filter]
  congr 2
  funext key
  rw [Std.ExtTreeMap.contains_eq_isSome_getElem?, Option.isSome_map]

theorem aggregateBy_countPlan (henv : env.Live) (hagrees : t.FastAgrees)
    (honce : ∀ key ∈ t.rows, t.order.count key = 1) (hdistinct : q.distinct = false)
    (horder : q.tail.orderColumn = []) (hsame : t.termFor q = none → compiled' = compiled)
    (expression : Bytes) :
    t.aggregateBy env .count expression q.tail.cond (t.countPlan q.tail.cond compiled) =
      .ok (oneCell (toLower (trimSpace expression))
        (.count (t.whole env q compiled' (t.path q)).length)) := by
  have hfastLength : t.fast ≠ [] → (t.whole env q compiled' .fast).length =
      t.fast.countP (t.countsFast q.tail.cond compiled) := by
    intro hfast
    unfold whole
    rw [takeFast_eq_filter hdistinct, List.length_map, takesFast_eq_countsFast hfast hsame,
      List.countP_eq_length_filter]
  have horderLength : t.fast = [] → (t.whole env q compiled' .order).length =
      t.order.countP (t.meets q.tail.cond compiled) := by
    intro hfast
    unfold whole
    rw [length_arranged, candidates_eq_filter hdistinct, hsame (if_pos hfast),
      List.countP_eq_length_filter]
  have hscan : t.path q = (if t.fast ≠ [] then .fast else .order) →
      t.aggregateBy env .count expression q.tail.cond (.scan true (str "*") compiled) =
        .ok (oneCell (toLower (trimSpace expression))
          (.count (t.whole env q compiled' (t.path q)).length)) := by
    intro hpath
    obtain ⟨c, hc, hcount⟩ := aggregateScan_star t compiled q.tail.cond
      henv (toLower (trimSpace expression))
    have hlength : c.count = (t.whole env q compiled' (t.path q)).length := by
      rw [hcount, hpath]
      by_cases hfast : t.fast = []
      · rw [if_neg (not_not.2 hfast), if_neg (not_not.2 hfast), horderLength hfast]
      · rw [if_pos hfast, if_pos hfast, hfastLength hfast]
    rw [← hlength]
    exact ok_bind hc rfl
  unfold countPlan
  by_cases hcond : q.tail.cond = []
  · rw [if_pos hcond, path_nil hcond horder]
    have hsize : (t.whole env q compiled' (if t.fast ≠ [] then .fast else .order)).length =
        t.rows.size := by
      rw [← length_liveOrder honce]
      by_cases hfast : t.fast = []
      · rw [if_neg (not_not.2 hfast), horderLength hfast, List.countP_eq_length_filter]
        rw [meets_nil hcond]
        rfl
      · rw [if_pos hfast, hfastLength hfast, List.countP_eq_length_filter]
        rcases hagrees with hclear | hmirrors
        · rw [hclear] at hfast
          exact absurd rfl hfast
        · rw [← length_fastRows, ← hmirrors.rows]
          unfold countsFast
          simp [hcond]
    rw [hsize]
    rfl
  · rw [if_neg hcond]
    unfold path at hscan ⊢
    cases hsimple : t.simpleKey q.tail.cond with
    | none =>
      rw [hsimple] at hscan
      simpa [horder] using hscan
    | some p =>
      obtain ⟨column, value⟩ := p
      rw [hsimple] at hscan
      simp only [Option.filter_some, decide_eq_true_eq] at hscan ⊢
      by_cases hprimary : column = t.primaryColumn
      · rw [if_pos hprimary, if_pos hprimary]
        unfold whole
        rw [length_keyRows hagrees]
        rfl
      · rw [if_neg hprimary] at hscan
        rw [if_neg hprimary, if_neg hprimary]
        by_cases hindex : column ∈ t.indexes
        · rw [if_pos hindex, if_pos hindex]
          unfold whole
          rw [length_arranged, bucketCandidates_eq_filter hdistinct, ← List.countP_eq_length_filter]
          rw [show t.bucketMatches column (t.termFor q) compiled' =
            t.bucketMatches column (simpleFastTerm q.tail.cond t) compiled from
              funext (bucketMatches_termFor hagrees honce hsame column)]
          exact ok_bind (countIndexEquality_live henv column value _) rfl
        · rw [if_neg hindex] at hscan
          rw [if_neg hindex, if_neg hindex]
          simpa [horder] using hscan

theorem projects_star (t : Table) {tail : SelectTail} (hgroup : tail.groupBy = []) :
    t.Projects (str "*") tail := by
  refine ⟨hgroup, by decide +kernel, fun name hname => ?_⟩
  unfold selectNames at hname
  rw [if_pos rfl] at hname
  obtain ⟨c, hc, rfl⟩ := List.mem_map.1 hname
  exact List.any_eq_true.2 ⟨c, hc, beq_self_eq_true _⟩

end Agree

end Table

theorem aggregatePlan_countStar {t : Table} {cond : Bytes} {compiled : CompiledCondition}
    (hcompile : compileCondition cond t.columns = some compiled) :
    t.aggregatePlan .count (str "COUNT(*)") cond = t.countPlan cond compiled := by
  have hparts : indexByte (ch '(') (str "COUNT(*)") = some 5 ∧
      lastIndexByte (ch ')') (str "COUNT(*)") = some 7 ∧
      toLower (trimSpace (slice (str "COUNT(*)") 6 7)) = str "*" := by
    rw [str_ofList, str_ofList]
    decide
  obtain ⟨hopening, hclosing, hcolumn⟩ := hparts
  unfold Table.aggregatePlan
  simp [hopening, hclosing, hcolumn, hcompile]

/-- `SELECT COUNT(*)` counts the rows of `SELECT *`. -/
theorem count_star_exact {env : Env} {db : Database} {s s' cond : Bytes} {t : Table}
    {headEnd headEnd' : Nat} {compiled : CompiledCondition} (henv : env.Live)
    (hread : db.Reads s t (str "*") false { cond, headEnd })
    (hread' : db.Reads s' t (str "COUNT(*)") false { cond, headEnd := headEnd' })
    (honce : ∀ key ∈ t.rows, t.order.count key = 1) (hagrees : t.FastAgrees)
    (hcompile : compileCondition cond t.columns = some compiled) :
    ∃ r, db.selectRows { env with maxRows := 0 } s = .ok r ∧
      db.selectRows env s' =
        .ok { columns := [str "count(*)"], rows := [[.count r.rows.length]] } := by
  have hkind : aggregateKind (str "COUNT(*)") = some .count ∧
      toLower (trimSpace (str "COUNT(*)")) = str "count(*)" := by
    decide +kernel
  let q : Query := ⟨t.selectNames (str "*"), false, { cond, headEnd }⟩
  have hprojects : t.Projects (str "*") q.tail := t.projects_star rfl
  obtain ⟨compiled', hfor, hsame⟩ := Table.compileFor_ok (q := q) hcompile (t.termFor q)
  have hall : t.selectBy { env with maxRows := 0 } q (t.path q) =
      .ok { columns := q.names
            rows := t.whole { env with maxRows := 0 } q compiled' (t.path q) } :=
    Table.selectBy_whole (show ({ env with maxRows := 0 } : Env).Live from henv) rfl rfl rfl
      (Or.inr hfor)
  have hcount := Table.aggregateBy_countPlan (q := q) henv hagrees honce rfl rfl
    (fun hterm => hsame (Or.inl hterm)) (str "COUNT(*)")
  have hstar : db.selectRows { env with maxRows := 0 } s =
      .ok { columns := q.names, rows := t.whole env q compiled' (t.path q) } := by
    rw [hread.selectRows, Table.selectTable_projects hprojects rfl, Table.selectPlain_eq]
    exact hall
  refine ⟨_, hstar, ?_⟩
  rw [hread'.selectRows]
  unfold Table.selectTable
  rw [if_neg (not_not.2 rfl), if_neg fun h => h.1 rfl]
  simp only [hkind.1]
  rw [Table.aggregateResult_eq, aggregatePlan_countStar hcompile, hcount, hkind.2]
  rfl

def indexedRows : Database :=
  Database.runAll {}
    (script ["CREATE TABLE t (id INT PRIMARY KEY, v INT)", "CREATE INDEX i ON t (v)",
    "INSERT INTO t VALUES (1, 5), (2, 5), (3, 6)"])

theorem count_star_two : ∃ t cond headEnd headEnd',
    indexedRows.Reads (str "SELECT * FROM t WHERE v = 5") t (str "*") false { cond, headEnd } ∧
    indexedRows.Reads (str "SELECT COUNT(*) FROM t WHERE v = 5") t (str "COUNT(*)") false
      { cond, headEnd := headEnd' } ∧
    (∀ key ∈ t.rows, t.order.count key = 1) ∧ t.FastAgrees ∧
    (∃ compiled, compileCondition cond t.columns = some compiled) ∧
    ∃ r, indexedRows.selectRows {} (str "SELECT * FROM t WHERE v = 5") = .ok r ∧
      indexedRows.selectRows {} (str "SELECT COUNT(*) FROM t WHERE v = 5") =
        .ok { columns := [str "count(*)"], rows := [[.count r.rows.length]] } := by
  obtain ⟨t, ht, hread, hread', honce, ⟨hfast, hcolumns, hpos, hdead⟩, hcompile⟩ : ∃ t,
      indexedRows.table (str "t") = .ok t ∧
      indexedRows.readsFrom (str "SELECT * FROM t WHERE v = 5") (str "t") (str "*") false
        { cond := str "v = 5", headEnd := 2 } ∧
      indexedRows.readsFrom (str "SELECT COUNT(*) FROM t WHERE v = 5") (str "t")
        (str "COUNT(*)") false
        { cond := str "v = 5", headEnd := 2 } ∧ (∀ key ∈ t.rows, t.order.count key = 1) ∧
      (t.fast = [] ∧ t.fastColumns.isEmpty = true ∧ t.fastPos.isEmpty = true ∧ t.fastDead = 0) ∧
      (compileCondition (str "v = 5") t.columns).isSome = true := by
    decide +kernel
  obtain ⟨compiled, hcompile⟩ := Option.isSome_iff_exists.1 hcompile
  have hread := Database.reads_of_table ht hread
  have hread' := Database.reads_of_table ht hread'
  have hagrees : t.FastAgrees := Or.inl (Table.eq_clearFast hfast
    (Std.ExtTreeMap.isEmpty_iff.1 hcolumns) (Std.ExtTreeMap.isEmpty_iff.1 hpos) hdead)
  have hcount :=
    count_star_exact (show ({} : Env).Live from fun _ => rfl) hread hread' honce hagrees
    hcompile
  exact ⟨t, str "v = 5", 2, 2, hread, hread', honce, hagrees, ⟨compiled, hcompile⟩, hcount⟩

end SuperDB.Engine
