import SuperDB.Engine.Verify.Distinct
import SuperDB.Engine.Verify.Lookup

/-!
# Index lookups and scans

A bare equality with an indexed column is answered from a bucket of the index, and the rows in the
bucket are compared again. An exact index so finds the rows of the table that meet the equality. A
scan finds the rows that `order` lists, or those in the fast array. The two agree if what is scanned
are the rows of the table.
-/

namespace SuperDB.Engine

open Go

namespace Table

def heldCells (cond : Bytes) (compiled : CompiledCondition) (t : Table) : List (List Value) :=
  (t.rows.keys.filter (t.meets cond compiled)).map fun key =>
    rowValues t.columns (t.rows.getD key ∅)

/-- The cells of the rows that a scan meets: the entries of the fast array if there is one and
nothing is ordered, and the rows of the keys that `order` lists otherwise. -/
def scannedCells (tail : SelectTail) (compiled : CompiledCondition) (t : Table) :
    List (List Value) :=
  if t.fast ≠ [] ∧ tail.orderColumn = [] then
    (t.fast.filter fun r => r.key ≠ [] && compiled.matchesFast r.values t.fastColumns).map fun r =>
      selectedFastValues r.values (t.columns.map (·.name)) t.fastColumns
  else
    (t.order.filter (t.meets tail.cond compiled)).map fun key =>
      rowValues t.columns (t.rows.getD key ∅)

def project (names : List Bytes) (t : Table) (cells : List Value) : List Value :=
  selectedFastValues cells names (columnPositions t.columns)

section Project

variable {t : Table} {names : List Bytes} (hnames : ∀ name ∈ names, hasColumn t.columns name = true)

include hnames

theorem project_rowValues (row : Row) : t.project names (rowValues t.columns row) =
    selectedValues row names :=
  selectedFastValues_rowValues hnames row

theorem project_selected (hcolumns : t.fastColumns = columnPositions t.columns)
    (values : List Value) :
    t.project names (selectedFastValues values (t.columns.map (·.name)) t.fastColumns) =
      selectedFastValues values names t.fastColumns := by
  unfold project
  rw [hcolumns]
  refine List.map_congr_left fun name hname => ?_
  obtain ⟨i, hi⟩ := columnPositions_isSome (hnames name hname)
  obtain ⟨c, hc, hcname⟩ := columnPositions_name hi
  simp only [hi, selectedFastValues, List.map_map, List.getD_eq_getElem?_getD,
    List.getElem?_map, hc, Option.map_some, Function.comp_apply, hcname, Option.getD_some]

end Project

theorem project_all {t : Table} {tail : SelectTail} {cond : Bytes} {compiled : CompiledCondition}
    (hcolumns : t.fast ≠ [] → t.fastColumns = columnPositions t.columns) {cells : List Value}
    (h : cells ∈ t.heldCells cond compiled ∨ cells ∈ t.scannedCells tail compiled) :
    t.project (t.columns.map (·.name)) cells = cells := by
  have hnames : ∀ name ∈ t.columns.map (·.name), hasColumn t.columns name = true :=
    fun name => hasColumn_iff.2
  have hrow : ∀ row : Row, t.project (t.columns.map (·.name)) (rowValues t.columns row) =
      rowValues t.columns row := by
    intro row
    rw [project_rowValues hnames, selectedValues, rowValues, List.map_map]
    rfl
  rcases h with h | h
  · obtain ⟨key, -, rfl⟩ := List.mem_map.1 h
    exact hrow _
  · unfold scannedCells at h
    split at h
    · next hfast =>
      obtain ⟨r, -, rfl⟩ := List.mem_map.1 h
      exact project_selected hnames (hcolumns hfast.1) r.values
    · obtain ⟨key, -, rfl⟩ := List.mem_map.1 h
      exact hrow _

/-! ## What is met -/

section Met

variable {env : Env} {t : Table} {q : Query} {c : Column} {raw : Bytes}
  {compiled compiled' : CompiledCondition}

theorem arranged_perm (keys : List Bytes) :
    (t.arranged env q keys).Perm (keys.map (t.lineOf q.names)) := by
  unfold arranged
  split
  · exact List.Perm.refl _
  · refine List.Perm.map _ ?_
    unfold sortedKeys orderEntries
    refine ((env.sorter.perm _ _).map _).trans (List.Perm.of_eq ?_)
    rw [List.map_map]
    exact List.zipIdx_map_fst 0 keys

theorem whole_order_perm (compiled : CompiledCondition)
    (hline : ∀ key, t.lineOf q.names key = selectedValues (t.rows.getD key ∅) q.names) :
    (t.whole env q compiled .order).Perm (keptLines q.distinct
      ((t.order.filter (t.meets q.tail.cond compiled)).map fun key =>
        selectedValues (t.rows.getD key ∅) q.names)) := by
  refine (arranged_perm _).trans (List.Perm.of_eq ?_)
  have hstep : t.takeKey q compiled = fun c key => if t.meets q.tail.cond compiled key then
      c.add q.distinct (rowProjectionKey (selectedValues (t.rows.getD key ∅) q.names)) key
        else c := by
    funext c key
    rw [takeKey_meets, hline]
  unfold candidates
  rw [hstep]
  exact map_foldl_add _ _ (fun key => key) _ hline _ _

theorem whole_fast_eq (compiled : CompiledCondition) :
    t.whole env q compiled .fast = keptLines q.distinct
      ((t.fast.filter (t.takesFast q (t.termFor q) compiled)).map fun r =>
        selectedFastValues r.values q.names t.fastColumns) := by
  rw [← map_foldl_add _ (fun r : FastRow => selectedFastValues r.values q.names t.fastColumns)
    (fun r => selectedFastValues r.values q.names t.fastColumns) id fun _ => rfl, List.map_id]
  rfl

theorem whole_bucket_perm (column value : Bytes) (compiled : CompiledCondition)
    (hline : ∀ key, t.lineOf q.names key = selectedValues (t.rows.getD key ∅) q.names) :
    (t.whole env q compiled (.bucket column value)).Perm (keptLines q.distinct
      (((t.bucket env column value).filter (t.bucketMatches column (t.termFor q) compiled)).map
        fun key =>
        selectedValues (t.rows.getD key ∅) q.names)) := by
  refine (arranged_perm _).trans (List.Perm.of_eq ?_)
  have hstep : t.takeCandidate q column (t.termFor q) compiled = fun c key =>
      if t.bucketMatches column (t.termFor q) compiled key then
        c.add q.distinct (rowProjectionKey (selectedValues (t.rows.getD key ∅) q.names)) key
          else c := by
    funext c key
    rw [takeCandidate, addKey, hline]
  unfold bucketCandidates
  rw [hstep]
  exact map_foldl_add _ _ (fun key => key) _ hline _ _

theorem primaryColumn_ne (hcols : ColumnsOk t.columns) (hc : c ∈ t.columns)
    (hprimary : c.primary = false) :
    c.name ≠ t.primaryColumn := by
  unfold primaryColumn
  cases hfind : t.columns.find? (·.primary) with
  | none => exact hcols.name_ne_nil c hc
  | some d =>
    intro hname
    have hd := List.find?_some hfind
    rw [← hcols.eq_of_name hc (List.mem_of_find?_eq_some hfind) hname, hprimary] at hd
    cases hd

/-- The condition equates a column and a literal. -/
structure Equates (t : Table) (c : Column) (tail : SelectTail) (raw : Bytes)
    (compiled : CompiledCondition) :
    Prop where
  wf : t.Wf
  fast : t.FastInv
  idents : ∀ c ∈ t.columns, IdentifierName c.name
  column : c ∈ t.columns
  trimmed : trimSpace tail.cond = tail.cond
  sides : simpleEquality tail.cond = some (c.name, raw)
  compiles : compileCondition tail.cond t.columns = some compiled

section Equates

variable (h : t.Equates c q.tail raw compiled) (hsame : t.termFor q = none → compiled' = compiled)

include h

theorem Equates.cond_ne : q.tail.cond ≠ [] := by
  intro hnil
  have hsides := h.sides
  rw [hnil] at hsides
  cases hsides

theorem Equates.compiled_eq : compiled = [[⟨c.name, .one (literalOf raw c.type), .eq⟩]] :=
  compileCondition_equality h.wf.columns h.column h.trimmed h.sides (h.idents c h.column) h.compiles

theorem Equates.expected_eq {term : FastTerm} (hfast : t.fast ≠ [])
    (hterm : simpleFastTerm q.tail.cond t = some term) : term.expected = literalOf raw c.type := by
  unfold simpleFastTerm at hterm
  rw [show simpleSides q.tail.cond = some (c.name, raw) from h.sides] at hterm
  obtain ⟨i, hi, hpos⟩ := h.wf.columns.columnPositions h.column
  rw [← h.fast.columns hfast] at hi
  simp only [Option.bind_eq_bind, Option.bind_some, if_neg (h.wf.columns.name_ne_nil c h.column),
    hi, hpos, Option.some.injEq] at hterm
  rw [← hterm]
  unfold literalOf
  cases parseVal raw c.type <;> rfl

include hsame

theorem Equates.bucketMatches_eq (key : Bytes) :
    t.bucketMatches c.name (t.termFor q) compiled' key = t.meets q.tail.cond compiled key := by
  have hmeets : t.meets q.tail.cond compiled key = (t.rows[key]?).any compiled.matchesMap := by
    unfold meets
    simp only [decide_eq_false h.cond_ne, Bool.false_or]
  rw [hmeets]
  unfold bucketMatches
  cases hterm : t.termFor q with
  | none =>
    rw [hsame hterm]
    cases t.rows[key]? <;> rfl
  | some term =>
    unfold termFor at hterm
    split at hterm
    · cases hterm
    · next hfast =>
      rcases h.fast.fastAt key with hat | ⟨row, hrow, hat⟩
      · simp only [hat]
        cases t.rows[key]? with
        | none => rfl
        | some row =>
          simp only [h.expected_eq hfast hterm]
          rw [h.compiled_eq]
          exact (matchesMap_equality _ _ _).symm
      · simp only [hat, hrow]
        exact matchFastTerm_eq (h.fast.columns hfast) h.idents h.trimmed hterm h.compiles row

theorem Equates.takesFast_eq (hfast : t.fast ≠ []) (r : FastRow) :
    t.takesFast q (t.termFor q) compiled' r =
      (r.key ≠ [] && compiled.matchesFast r.values t.fastColumns) := by
  unfold takesFast fastMatches
  congr 1
  cases hterm : t.termFor q with
  | none => rw [hsame hterm, decide_eq_false h.cond_ne, Bool.false_or]
  | some term =>
    rw [termFor, if_neg hfast] at hterm
    exact matchFastTerm_matchesFast (h.fast.columns hfast) h.idents h.trimmed hterm h.compiles
      r.values

theorem Equates.bucket_perm (htype : c.type ≠ .float)
    (hexact : Indexes (t.indexes.getD c.name ∅) (t.cellKey c.name))
    (hnames : ∀ name ∈ q.names, hasColumn t.columns name = true) :
    (t.whole env q compiled' (.bucket c.name (t.equalityKey c.name raw))).Perm
      (keptLines q.distinct ((t.heldCells q.tail.cond compiled).map (t.project q.names))) := by
  refine (whole_bucket_perm _ _ compiled' (h.fast.lineOf hnames)).trans (keptLines_perm ?_)
  have hlines : (t.heldCells q.tail.cond compiled).map (t.project q.names) =
      (t.rows.keys.filter (t.meets q.tail.cond compiled)).map fun key =>
        selectedValues (t.rows.getD key ∅) q.names := by
    rw [heldCells, List.map_map]
    exact List.map_congr_left fun key _ => project_rowValues hnames _
  have hmatches : t.bucketMatches c.name (t.termFor q) compiled' = t.meets q.tail.cond compiled :=
    funext (h.bucketMatches_eq hsame)
  have hkeys : (t.bucket env c.name (t.equalityKey c.name raw)).Perm
      ((t.indexes.getD c.name ∅).getD (t.equalityKey c.name raw) ∅).keys := env.order.perm_perm _
  rw [hlines, hmatches]
  refine List.Perm.map _ ((List.perm_ext_iff_of_nodup (List.Nodup.filter _ (hkeys.nodup_iff.2
    Std.ExtTreeMap.nodup_keys)) (List.Nodup.filter _ t.rows.nodup_keys)).2 fun key => ?_)
  rw [List.mem_filter, List.mem_filter, hkeys.mem_iff, Map.mem_keys, Map.mem_keys, hexact.mem]
  refine and_congr_left fun hmeet => ?_
  obtain ⟨row, hrow, hmatch⟩ := (meets_iff h.cond_ne key).1 hmeet
  rw [h.compiled_eq, matchesMap_equality, conditionValueEqual_literalOf htype] at hmatch
  refine iff_of_true ?_ (Map.mem_of_get? hrow)
  rw [cellKey_some hrow, hmatch, equalityKey_eq h.wf.columns h.column]

theorem Equates.scan_perm (hnames : ∀ name ∈ q.names, hasColumn t.columns name = true)
    (hordered : q.tail.orderColumn ≠ [] → compiled' = compiled) :
    (t.whole env q compiled' (if t.fast ≠ [] ∧ q.tail.orderColumn = [] then .fast else .order)).Perm
      (keptLines q.distinct ((t.scannedCells q.tail compiled).map (t.project q.names))) := by
  unfold scannedCells
  split
  · next hfast =>
    rw [whole_fast_eq, List.map_map, show t.takesFast q (t.termFor q) compiled' = _ from
      funext (h.takesFast_eq hsame hfast.1)]
    refine List.Perm.of_eq (congrArg _ (List.map_congr_left fun r _ => ?_))
    exact (project_selected hnames (h.fast.columns hfast.1) r.values).symm
  · next hslow =>
    have hcompiled : compiled' = compiled := by
      by_cases hfast : t.fast = []
      · exact hsame (if_pos hfast)
      · exact hordered fun hnil => hslow ⟨hfast, hnil⟩
    rw [hcompiled, List.map_map]
    refine (whole_order_perm compiled (h.fast.lineOf hnames)).trans (List.Perm.of_eq ?_)
    exact congrArg _ (List.map_congr_left fun key _ => (project_rowValues hnames _).symm)

end Equates

end Met

section Scan

variable {env : Env} {t : Table} {q : Query} {c : Column} {compiled : CompiledCondition}

theorem path_scan (hno : ∀ p, t.simpleKey q.tail.cond = some p → p.1 ≠ t.primaryColumn ∧
    p.1 ∉ t.indexes) :
    t.path q = if t.fast ≠ [] ∧ q.tail.orderColumn = [] then .fast else .order := by
  unfold path
  cases hsimple : t.simpleKey q.tail.cond with
  | none => rfl
  | some p =>
    obtain ⟨hprimary, hindex⟩ := hno p hsimple
    rw [Option.filter_some, Option.filter_some, if_neg (by simpa using hprimary),
      if_neg (by simpa using hindex)]

theorem selectPlain_scan (henv : env.Live) (hrows : env.maxRows = 0) (hlimit : q.tail.limit = none)
    (hoffset : q.tail.offset = 0) (hfor : t.compileFor q (t.termFor q) = .ok compiled)
    (hno : ∀ p, t.simpleKey q.tail.cond = some p → p.1 ≠ t.primaryColumn ∧ p.1 ∉ t.indexes) :
    t.selectPlain env q = .ok
      { columns := q.names
        rows := t.whole env q compiled
          (if t.fast ≠ [] ∧ q.tail.orderColumn = [] then .fast else .order) } := by
  rw [selectPlain_eq, path_scan hno, selectBy_whole henv hlimit hoffset hrows (Or.inr hfor)]

theorem whole_forgetIndex (column : Bytes) (compiled : CompiledCondition) :
    (t.forgetIndex column).whole env q compiled
        (if t.fast ≠ [] ∧ q.tail.orderColumn = [] then .fast else .order) =
      t.whole env q compiled (if t.fast ≠ [] ∧ q.tail.orderColumn = [] then .fast else .order) := by
  split <;> rfl

theorem selectPlain_bucket (henv : env.Live) (hrows : env.maxRows = 0)
    (hlimit : q.tail.limit = none)
    (hoffset : q.tail.offset = 0) (hfor : t.compileFor q (t.termFor q) = .ok compiled)
    {value : Bytes} (hne : c.name ≠ t.primaryColumn) (hindex : c.name ∈ t.indexes)
    (hsimple : t.simpleKey q.tail.cond = some (c.name, value)) :
    t.selectPlain env q = .ok
      { columns := q.names, rows := t.whole env q compiled (.bucket c.name value) } := by
  have hpath : t.path q = .bucket c.name value := by
    unfold path
    rw [hsimple, Option.filter_some, Option.filter_some, if_neg (by simpa using hne),
      if_pos (decide_eq_true hindex)]
  rw [selectPlain_eq, hpath, selectBy_whole henv hlimit hoffset hrows (Or.inr hfor)]

end Scan

end Table

/-- The lookup in an index against the scan without the index. -/
theorem index_lookup_iff {env : Env} {t : Table} {c : Column} {tail : SelectTail}
    {compiled : CompiledCondition} (henv : env.Live) (hrows : env.maxRows = 0) (hwf : t.Wf)
    (hfast : t.FastInv) (hidents : ∀ c ∈ t.columns, IdentifierName c.name) (hc : c ∈ t.columns)
    (hprimary : c.primary = false) (htype : c.type ≠ .float) (hindex : c.name ∈ t.indexes)
    (hexact : Indexes (t.indexes.getD c.name ∅) (t.cellKey c.name))
    (hlimit : tail.limit = none) (hoffset : tail.offset = 0)
    (htrim : trimSpace tail.cond = tail.cond)
    (hcut : (cut (ch '=') tail.cond).map (fun p => toLower (trimSpace p.1)) = some c.name)
    (hcompile : compileCondition tail.cond t.columns = some compiled) :
    (∀ names distinct, (∀ name ∈ names, hasColumn t.columns name = true) →
      ∃ r r', t.selectPlain env ⟨names, distinct, tail⟩ = .ok r ∧
        (t.forgetIndex c.name).selectPlain env ⟨names, distinct, tail⟩ = .ok r' ∧
        r.rows.Perm r'.rows) ↔
      ((simpleEquality tail.cond).isSome →
        (t.heldCells tail.cond compiled).Perm (t.scannedCells tail compiled)) := by
  have hne := Table.primaryColumn_ne hwf.columns hc hprimary
  have hname : ∀ p, simpleEquality tail.cond = some p → p.1 = c.name := by
    intro p hp
    unfold simpleEquality simpleSides at hp
    split at hp
    · cases hp
    · obtain ⟨sides, hsides, rfl⟩ := Option.map_eq_some_iff.1 hp
      rw [hsides] at hcut
      exact Option.some.inj hcut
  have hno : ∀ p, (t.forgetIndex c.name).simpleKey tail.cond = some p →
      p.1 ≠ (t.forgetIndex c.name).primaryColumn ∧ p.1 ∉ (t.forgetIndex c.name).indexes := by
    intro p hp
    obtain ⟨sides, hsides, rfl⟩ := Option.map_eq_some_iff.1 hp
    rw [show (sides.1, _).1 = c.name from hname sides hsides]
    refine ⟨hne, fun hin => ?_⟩
    exact (Std.ExtTreeMap.mem_erase.1 hin).1 Std.ReflCmp.compare_self
  have hscan : ∀ {names distinct compiled'},
      t.compileFor ⟨names, distinct, tail⟩ (t.termFor ⟨names, distinct, tail⟩) = .ok compiled' →
      (t.forgetIndex c.name).selectPlain env ⟨names, distinct, tail⟩ = .ok
        { columns := names
          rows := t.whole env ⟨names, distinct, tail⟩ compiled'
            (if t.fast ≠ [] ∧ tail.orderColumn = [] then .fast else .order) } := by
    intro names distinct compiled' hfor
    rw [← Table.whole_forgetIndex c.name]
    exact Table.selectPlain_scan henv hrows hlimit hoffset hfor hno
  cases hsides : simpleEquality tail.cond with
  | none =>
    refine iff_of_true (fun names distinct hnames => ?_) fun h => nomatch h
    obtain ⟨compiled', hfor, -⟩ :=
      Table.compileFor_ok (q := ⟨names, distinct, tail⟩) hcompile
        (t.termFor ⟨names, distinct, tail⟩)
    refine ⟨_, _, Table.selectPlain_scan henv hrows hlimit hoffset hfor fun p hp => ?_, hscan hfor,
      List.Perm.refl _⟩
    rw [Table.simpleKey, hsides] at hp
    cases hp
  | some sides =>
    obtain ⟨column, raw⟩ := sides
    obtain rfl : column = c.name := hname _ hsides
    have hequates : t.Equates c tail raw compiled :=
      ⟨hwf, hfast, hidents, hc, htrim, hsides, hcompile⟩
    have hsimple : t.simpleKey tail.cond = some (c.name, t.equalityKey c.name raw) := by
      rw [Table.simpleKey, hsides]
      rfl
    -- the rows of both answers
    have hanswers : ∀ names distinct, (∀ name ∈ names, hasColumn t.columns name = true) →
        ∃ r r', t.selectPlain env ⟨names, distinct, tail⟩ = .ok r ∧
          (t.forgetIndex c.name).selectPlain env ⟨names, distinct, tail⟩ = .ok r' ∧
          r.rows.Perm (keptLines distinct
            ((t.heldCells tail.cond compiled).map (t.project names))) ∧
          r'.rows.Perm
            (keptLines distinct ((t.scannedCells tail compiled).map (t.project names))) := by
      intro names distinct hnames
      obtain ⟨compiled', hfor, hsame⟩ :=
        Table.compileFor_ok (q := ⟨names, distinct, tail⟩) hcompile
          (t.termFor ⟨names, distinct, tail⟩)
      refine ⟨_, _, Table.selectPlain_bucket henv hrows hlimit hoffset hfor hne hindex hsimple,
        hscan hfor, ?_, ?_⟩
      · exact Table.Equates.bucket_perm (q := ⟨names, distinct, tail⟩) hequates
          (fun hterm => hsame (Or.inl hterm)) htype hexact hnames
      · exact Table.Equates.scan_perm (q := ⟨names, distinct, tail⟩) hequates
          (fun hterm => hsame (Or.inl hterm)) hnames fun hordered => hsame (Or.inr hordered)
    constructor
    · intro h _
      have hall : ∀ name ∈ t.columns.map (·.name), hasColumn t.columns name = true :=
        fun name => hasColumn_iff.2
      obtain ⟨r, r', hr, hr', hperm⟩ := h _ false hall
      obtain ⟨s, s', hs, hs', hheld, hscanned⟩ := hanswers _ false hall
      rw [hr] at hs
      rw [hr'] at hs'
      cases hs
      cases hs'
      have hcells := (hheld.symm.trans hperm).trans hscanned
      rw [keptLines_false, keptLines_false] at hcells
      rwa [List.map_congr_left fun cells hin =>
        @Table.project_all t tail _ _ hfast.columns _ (Or.inl hin),
        List.map_congr_left fun cells hin =>
          @Table.project_all t _ tail.cond _ hfast.columns _ (Or.inr hin),
        List.map_id', List.map_id'] at hcells
    · intro h names distinct hnames
      obtain ⟨r, r', hr, hr', hheld, hscanned⟩ := hanswers names distinct hnames
      refine ⟨r, r', hr, hr', (hheld.trans ?_).trans hscanned.symm⟩
      exact keptLines_perm ((h rfl).map _)

def listedTwice : Database :=
  Database.runAll {}
    (script ["CREATE TABLE t (id INT PRIMARY KEY, v INT)", "CREATE INDEX i ON t (v)",
    "INSERT INTO t VALUES (1, 5), (2, 5), (3, 6), (4, 6), (5, 6)", "DELETE FROM t WHERE id = 1",
    "UPDATE t SET id = 1 WHERE id = 2"])

/-- The index has the row once, the scan twice. -/
theorem index_lookup_twice :
    listedTwice.selectRows {} (str "SELECT id FROM t WHERE v = 5") =
      .ok { columns := [str "id"], rows := [[.int 1]] } ∧
    ((listedTwice.table (str "t")).toOption.map fun t =>
      (t.forgetIndex (str "v")).selectPlain {}
        ⟨[str "id"], false, { cond := str "v = 5", headEnd := 2 }⟩) =
      some (.ok { columns := [str "id"], rows := [[.int 1], [.int 1]] }) := by
  decide +kernel

theorem index_lookup_two :
    ∃ (t : Table) (c : Column) (tail : SelectTail) (compiled : CompiledCondition),
    t.Wf ∧ t.FastInv ∧ (∀ c ∈ t.columns, IdentifierName c.name) ∧ c ∈ t.columns ∧
    c.primary = false ∧
    c.type ≠ .float ∧ c.name ∈ t.indexes ∧ Indexes (t.indexes.getD c.name ∅) (t.cellKey c.name) ∧
    tail.limit = none ∧ tail.offset = 0 ∧ trimSpace tail.cond = tail.cond ∧
    (cut (ch '=') tail.cond).map (fun p => toLower (trimSpace p.1)) = some c.name ∧
    compileCondition tail.cond t.columns = some compiled ∧
    ∃ r r', t.selectPlain {} ⟨[str "id"], true, tail⟩ = .ok r ∧
      (t.forgetIndex c.name).selectPlain {} ⟨[str "id"], true, tail⟩ = .ok r' ∧
      r.rows.Perm r'.rows := by
  let c : Column := { name := str "v", type := .int }
  obtain ⟨t, ht, hidents, hc, hindex, hcompile, hnames, hcells⟩ : ∃ t,
      indexedRows.table (str "t") = .ok t ∧ (∀ c ∈ t.columns, IdentifierName c.name) ∧
      ⟨str "v", .int, false⟩ ∈ t.columns ∧ str "v" ∈ t.indexes ∧
      compileCondition (str "v = 5") t.columns = some [[⟨str "v", .one (.int 5), .eq⟩]] ∧
      (∀ name ∈ [str "id"], hasColumn t.columns name = true) ∧
      t.heldCells (str "v = 5") [[⟨str "v", .one (.int 5), .eq⟩]] =
        t.scannedCells { cond := str "v = 5", headEnd := 2 }
          [[⟨str "v", .one (.int 5), .eq⟩]] := by
    decide +kernel
  obtain ⟨hwf, hfast⟩ := indexedRows_inv ht
  have hexact : Indexes (t.indexes.getD c.name ∅) (t.cellKey c.name) := by
    obtain ⟨index, hget⟩ := Map.mem_iff.1 hindex
    have hinv := (Database.runAll_indexInv (uncancelled_script _) _ t (Database.table_ok ht)).2
    rw [Map.getD_eq, hget]
    exact hinv.exact c.name index hget
  have htype : c.type ≠ .float := by decide
  have htrim : trimSpace (str "v = 5") = str "v = 5" := by decide +kernel
  have hcut : (cut (ch '=') (str "v = 5")).map (fun p => toLower (trimSpace p.1)) =
      some c.name := by
    decide +kernel
  have hiff := @index_lookup_iff {} t c { cond := str "v = 5", headEnd := 2 } _ (fun _ => rfl) rfl
    hwf hfast hidents hc rfl htype hindex hexact rfl rfl htrim hcut hcompile
  exact ⟨t, c, _, _, hwf, hfast, hidents, hc, rfl, htype, hindex, hexact, rfl, rfl, htrim, hcut,
    hcompile, hiff.2 (fun _ => List.Perm.of_eq hcells) [str "id"] true hnames⟩

end SuperDB.Engine
