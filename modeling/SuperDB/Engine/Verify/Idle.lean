import SuperDB.Engine.Verify.Repeat

/-!
# Statements that find nothing to do

A statement that is executed a second time may be refused, or find no row that it would change. Then
the tables show the same columns, rows and indexes as before, with the rows in the same order; a
DELETE may have dropped stale keys from the order list.
-/

namespace SuperDB.Engine

open Go

/-- What a table shows: its columns, its rows and their order, its indexes and their names. -/
def Table.content (t : Table) :
    List Column × Map Row × List Bytes × Map (Map StrSet) × Map Bytes :=
  (t.columns, t.rows, t.liveOrder, t.indexes, t.indexNames)

/-- Tables of the same content. -/
def Database.Alike (db db' : Database) : Prop :=
  ∀ name : Bytes, db.tables[name]?.map Table.content = db'.tables[name]?.map Table.content

/-- The operation is refused, or it finds no row that it would change. -/
def TableOp.idle (t : Table) : TableOp → Bool
  | .insert rows replace => !replace && rows.any fun r => r.key != [] && t.rows.contains r.key
  | .update column v w expected =>
    match t.onPrimaryKey w with
    | some key => t.rows[key]?.all fun row => column != t.primaryColumn && row.get column == v
    | none => column != t.primaryColumn && !t.updatesSome column v w expected t.rows.keys
  | .delete w expected =>
    match t.onPrimaryKey w with
    | some key => !t.rows.contains key
    | none => !t.rows.keys.any (t.doomed w expected)
  | .addColumn name _ => hasColumn t.columns name
  | .dropColumn column => decide (t.columns.length ≤ 1) || !hasColumn t.columns column
  | .truncate => false
  | .createIndex indexName column =>
    !hasColumn t.columns column || t.indexes.contains column || t.indexNames.contains indexName
  | .dropIndex indexName => !t.indexNames.contains indexName && !t.indexes.contains indexName

/-- The statement is refused, or it finds nothing to change. -/
def Stmt.idle (db : Database) : Stmt → Bool
  | .create name _ => db.tables.contains name
  | .dropTable name _ => !db.tables.contains name
  | .table name op => db.tables[name]?.all fun t => op.idle t
  | .reply _ => true

/-- Executing the text as a statement does nothing: it is a write that inserts no rows of a query,
and it is refused or finds nothing to change. -/
def Database.idle (db : Database) (sql : Bytes) : Bool :=
  !isReadOnly sql &&
    !(hasPrefixFold (statementText sql) (str "INSERT") &&
      (insertQuery (statementText sql)).isSome) &&
    match db.read {} sql with
    | .error f => f != .panic
    | .ok stmt => stmt.idle db

section Operations

variable {env : Env} {t t' : Table} {op : TableOp}

theorem Table.content_eq_of_clearFast (h : t'.clearFast = t.clearFast) : t'.content =
    t.content := by
  have hclear : ∀ u : Table, u.clearFast.content = u.content := fun _ => rfl
  rw [← hclear t', h, hclear]

theorem Table.applyInsertRows_idle {rows : List InsertRow} {replace : Bool}
    (h : (TableOp.insert rows replace).idle t = true) :
    (t.applyInsertRows env rows replace).2 = t := by
  simp only [TableOp.idle, Bool.and_eq_true, Bool.not_eq_true', List.any_eq_true, bne_iff_ne] at h
  obtain ⟨rfl, item, hitem, hkey, hrow⟩ := h
  unfold Table.applyInsertRows
  simp only [Bool.false_eq_true, if_false]
  cases hcheck : (rangeLoop env.applyTick t.checkInsertRow 0 rows ∅).2 with
  | some f => rfl
  | none =>
    have hfresh := (Table.checkInsertRow_fresh hcheck).1.1 item hitem hkey
    exact absurd (Std.ExtTreeMap.mem_iff_contains.2 hrow) hfresh

theorem Table.update_idle (h : t.Consistent) (henv : env.Live) {column : Bytes} {v : Value}
    {w : Option MutationWhere} {expected : Expected}
    (hop : OpOk t.columns (.update column v w expected))
    (hidle : (TableOp.update column v w expected).idle t = true) :
    isOk (t.update env column v w expected).1 = true ∧ (t.update env column v w expected).2 =
      t := by
  obtain ⟨c, hc, rfl, -⟩ := hop
  unfold Table.update
  simp only [TableOp.idle] at hidle
  cases hkey : t.onPrimaryKey w with
  | some key =>
    simp only [hkey] at hidle ⊢
    split
    · next hin =>
      obtain ⟨row, hrow⟩ := Map.mem_iff.1 hin
      simp only [hrow, Option.all_some, Bool.and_eq_true, bne_iff_ne, beq_iff_eq] at hidle
      rw [if_neg fun hpk => hidle.1 hpk.1]
      exact ⟨rfl, h.setCell_self hc hrow hidle.2⟩
    · exact ⟨rfl, rfl⟩
  | none =>
    simp only [hkey, Bool.and_eq_true, bne_iff_ne, Bool.not_eq_true'] at hidle ⊢
    rw [if_neg fun hpk => hidle.1 hpk.1]
    unfold Table.updateScan
    rw [rangeLoop_eq_foldl henv.scanTick]
    have hperm := env.order.range_perm t.rows
    refine ⟨rfl, h.foldl_updateRow_self hc (fun key hin => ?_) ?_ 0⟩
    · exact Map.mem_keys.1 (hperm.mem_iff.1 hin)
    · have hnone := hidle.2
      simp only [Table.updatesSome, List.any_eq_false] at hnone ⊢
      exact fun key hin => hnone key (hperm.mem_iff.1 hin)

theorem Table.delete_idle (henv : env.Live) {w : Option MutationWhere} {expected : Expected}
    (hidle : (TableOp.delete w expected).idle t = true) :
    isOk (t.delete env w expected).1 = true ∧ (t.delete env w expected).2.content = t.content := by
  unfold Table.delete
  simp only [TableOp.idle] at hidle
  cases hkey : t.onPrimaryKey w with
  | some key =>
    simp only [hkey, Bool.not_eq_true', Std.ExtTreeMap.contains_eq_isSome_getElem?,
      Option.isSome_eq_false_iff, Option.isNone_iff_eq_none] at hidle ⊢
    rw [hidle]
    exact ⟨rfl, rfl⟩
  | none =>
    simp only [hkey, Bool.not_eq_true', List.any_eq_false] at hidle ⊢
    have hspared : ∀ key, t.doomed w expected key = false := by
      intro key
      cases hrow : t.rows[key]? with
      | none => simp [Table.doomed, hrow]
      | some row => simpa using hidle key (Map.mem_keys.2 (Map.mem_of_get? hrow))
    obtain ⟨gone, -, -, -, hremaining, -⟩ := Table.foldl_deleteRow env t w expected t.order
    have hnone : t.order.any (t.doomed w expected) = false :=
      List.any_eq_false.2 fun key _ => by simp [hspared key]
    have htable := Table.foldl_deleteRow_self env hnone
    unfold Table.deleteScan
    rw [rangeLoop_eq_foldl henv.scanTick]
    simp only
    generalize t.order.foldl (Table.deleteRow env w expected) { table := t } = s
      at htable hremaining
    have hlive : s.remaining = t.liveOrder := by
      rw [hremaining]
      exact List.filter_congr fun key _ => Table.kept_eq_contains (hspared key)
    rw [Table.content_eq_of_clearFast (Table.clearFast_rebuildIfSparse env _), htable, hlive]
    have hsame : t.liveOrder.filter (t.rows.contains ·) = t.liveOrder := by
      simp [Table.liveOrder, List.filter_filter]
    simp only [Table.content, Table.liveOrder] at hsame ⊢
    rw [hsame]
    exact ⟨rfl, rfl⟩

theorem TableOp.run_idle (h : t.Consistent) (henv : env.Live) (hop : OpOk t.columns op)
    (hidle : op.idle t = true) : (op.run env t).2.content = t.content := by
  cases op with
  | insert rows replace => exact congrArg Table.content (Table.applyInsertRows_idle hidle)
  | update column v w expected =>
    exact congrArg Table.content (Table.update_idle h henv hop hidle).2
  | delete w expected => exact (Table.delete_idle henv hidle).2
  | addColumn name type =>
    have hname : hasColumn t.columns name = true := hidle
    simp only [TableOp.run, Table.addColumn, hname, if_true]
  | dropColumn column =>
    simp only [TableOp.idle, Bool.or_eq_true, decide_eq_true_eq, Bool.not_eq_true'] at hidle
    simp only [TableOp.run, Table.dropColumn]
    split
    · rfl
    · next hone =>
      have hmissing : t.columns.findIdx? (·.name == column) = none := by
        rw [List.findIdx?_eq_none_iff]
        simpa [hasColumn] using hidle.resolve_left hone
      rw [hmissing]
  | truncate => cases hidle
  | createIndex indexName column =>
    simp only [TableOp.idle, Bool.or_eq_true, Bool.not_eq_true'] at hidle
    simp only [TableOp.run, Table.createIndex, Std.ExtTreeMap.mem_iff_contains]
    rcases hidle with (hcolumn | hindex) | hname
    · simp [hcolumn]
    · simp only [hindex, if_true]
      split <;> rfl
    · simp only [hname, if_true]
      split
      · rfl
      · split <;> rfl
  | dropIndex indexName =>
    simp only [TableOp.idle, Bool.and_eq_true, Bool.not_eq_true',
      Std.ExtTreeMap.contains_eq_isSome_getElem?, Option.isSome_eq_false_iff,
      Option.isNone_iff_eq_none] at hidle
    simp only [TableOp.run, Table.dropIndex, hidle.1, Std.ExtTreeMap.mem_iff_isSome_getElem?,
      hidle.2, Option.isSome_none, Bool.false_eq_true, if_false]

end Operations

section Statements

variable {env : Env} {db db' : Database} {sql : Bytes}

theorem Database.Alike.refl (db : Database) : db.Alike db := fun _ => rfl

theorem Database.Alike.trans {db'' : Database} (h : db.Alike db') (h' : db'.Alike db'') :
    db.Alike db'' := fun name => (h name).trans (h' name)

theorem Database.Alike.symm (h : db.Alike db') : db'.Alike db := fun name => (h name).symm

theorem Database.Same.alike (h : db.Same db') : db.Alike db' := by
  have hclone : ∀ t : Table, t.cloneLocked.content = t.content := fun t =>
    Table.content_eq_of_clearFast t.clearFast_cloneLocked
  intro name
  have hname := Database.same_iff.1 h name
  have hmap := congrArg (Option.map Table.content) hname
  simpa only [Option.map_map, Function.comp_def, hclone] using hmap

theorem Database.Alike.headed (h : db.Alike db') : db.Headed db' := by
  intro name
  have hmap := congrArg (Option.map (·.1)) (h name)
  simpa only [Option.map_map, Function.comp_def, Table.content] using hmap

theorem TableOp.idle_congr {t t' : Table} (h : t.content = t'.content) (op : TableOp) :
    op.idle t = op.idle t' := by
  simp only [Table.content, Prod.mk.injEq] at h
  obtain ⟨hcolumns, hrows, -, hindexes, hnames⟩ := h
  have hprimary : t.primaryColumn = t'.primaryColumn := by
    unfold Table.primaryColumn
    rw [hcolumns]
  have honKey : t.onPrimaryKey = t'.onPrimaryKey := by
    funext w
    unfold Table.onPrimaryKey
    rw [hprimary]
  have hdoomed : ∀ w expected, t.doomed w expected = t'.doomed w expected := fun w expected => by
    funext key
    unfold Table.doomed
    rw [hrows]
  cases op <;>
    simp only [TableOp.idle, Table.updatesSome, hdoomed, hcolumns, hrows, hindexes, hnames,
      hprimary, honKey]

theorem Stmt.idle_congr (h : db.Alike db') (stmt : Stmt) : stmt.idle db = stmt.idle db' := by
  have hcontains : ∀ name : Bytes, db.tables.contains name = db'.tables.contains name := by
    intro name
    have hmap := congrArg Option.isSome (h name)
    simpa only [Option.isSome_map, ← Std.ExtTreeMap.contains_eq_isSome_getElem?] using hmap
  cases stmt with
  | create name columns => exact hcontains name
  | dropTable name ifExists => simp only [Stmt.idle, hcontains]
  | reply r => rfl
  | table name op =>
    have hname := h name
    simp only [Stmt.idle]
    cases ht : db.tables[name]? with
    | none =>
      rw [ht] at hname
      rw [Option.map_eq_none_iff.1 hname.symm]
    | some t =>
      rw [ht] at hname
      obtain ⟨t', ht', hcontent⟩ := Option.map_eq_some_iff.1 hname.symm
      rw [ht']
      exact TableOp.idle_congr hcontent.symm op

/-- The text is read as a statement, with no query to be answered, in the same way everywhere. -/
theorem Database.Alike.read (h : db.Alike db') (env env' : Env) (hskip : (!isReadOnly sql &&
    !(hasPrefixFold (statementText sql) (str "INSERT") &&
      (insertQuery (statementText sql)).isSome)) = true) : db.read env sql = db'.read env' sql := by
  simp only [Bool.and_eq_true, Bool.not_eq_true', Bool.and_eq_false_iff] at hskip
  refine h.headed.read hskip.1 fun query hinsert hq => ?_
  rcases hskip.2 with hno | hno
  · rw [hinsert] at hno
    cases hno
  · rw [hq] at hno
    cases hno

theorem Database.idle_congr (h : db.Alike db') (sql : Bytes) : db.idle sql = db'.idle sql := by
  unfold Database.idle
  by_cases hskip : (!isReadOnly sql && !(hasPrefixFold (statementText sql) (str "INSERT") &&
      (insertQuery (statementText sql)).isSome)) = true
  · rw [hskip, Bool.true_and, Bool.true_and, h.read {} {} hskip]
    cases db'.read {} sql with
    | error f => rfl
    | ok stmt => exact Stmt.idle_congr h stmt
  · rw [Bool.eq_false_iff.2 hskip, Bool.false_and, Bool.false_and]

theorem Database.Alike.insert {name : Bytes} {t t' : Table} (ht : db.tables[name]? = some t)
    (hcontent : t'.content = t.content) :
    Database.Alike { db with tables := db.tables.insert name t' } db := by
  intro name'
  simp only [Map.get?_insert]
  split
  · next hname =>
    subst hname
    rw [ht, Option.map_some, Option.map_some, hcontent]
  · rfl

theorem Stmt.run_idle (hdb : db.All Table.Consistent) (henv : env.Live) {stmt : Stmt}
    (hok : StmtOk db stmt) (hidle : stmt.idle db = true) :
    (stmt.run env db).2.Alike db ∧ (stmt.run env db).1 ≠ .error .panic := by
  cases stmt with
  | create name columns =>
    rw [Stmt.run, if_pos (Std.ExtTreeMap.mem_iff_contains.2 hidle)]
    exact ⟨.refl db, by simp [fault]⟩
  | dropTable name ifExists =>
    have hmissing : name ∉ db.tables := fun hin => by
      rw [Stmt.idle, Std.ExtTreeMap.mem_iff_contains.1 hin] at hidle
      cases hidle
    rw [Stmt.run, if_neg hmissing]
    split
    · exact ⟨.refl db, by simp⟩
    · exact ⟨.refl db, by simp [fault]⟩
  | reply r => exact ⟨.refl db, by simp [Stmt.run]⟩
  | table name op =>
    obtain ⟨t, ht, hop⟩ := hok
    simp only [Stmt.idle, ht, Option.all_some] at hidle
    simp only [Stmt.run, ht]
    exact ⟨.insert ht (TableOp.run_idle (hdb name t ht) henv hop hidle),
      TableOp.run_ne_panic env t op⟩

/-- **An idle statement changes no content**, and it does not panic. -/
theorem Database.execWithOptions_idle (hdb : db.All Table.Consistent) (henv : env.Live)
    (hidle : db.idle sql = true) :
    (db.execWithOptions env sql).2.Alike db ∧ (db.execWithOptions env sql).1 ≠ .error .panic := by
  rw [Database.idle, Bool.and_eq_true] at hidle
  obtain ⟨hskip, hstmt⟩ := hidle
  have hread : db.read env sql = db.read {} sql := (Database.Alike.refl db).read env {} hskip
  rw [Database.execWithOptions_live henv]
  simp only [Database.exec]
  rw [hread]
  cases hr : db.read {} sql with
  | error f =>
    rw [hr] at hstmt
    refine ⟨(Database.same_countWrite _ _ _).alike, fun hf => ?_⟩
    rw [Except.error.inj hf] at hstmt
    cases hstmt
  | ok stmt =>
    rw [hr] at hstmt
    have hok := Database.read_ok (fun name t ht => (hdb name t ht).wf.columns) hr
    obtain ⟨halike, hpanic⟩ := Stmt.run_idle hdb henv hok hstmt
    exact ⟨(Database.same_countWrite _ _ _).alike.trans halike, hpanic⟩

theorem Database.consistent_execWithOptions (h : db.All Table.Consistent) (henv : env.Live)
    (sql : Bytes) : (db.execWithOptions env sql).2.All Table.Consistent := by
  have hany : db.RekeysOk (fun _ _ => True) env sql := fun _ _ => trivial
  have hall := Database.All.execWithOptions (P := fun t => t.IndexInv ∧ t.FastInv)
    (fun name columns _ => ⟨Table.IndexInv.new name columns, Table.FastInv.new name columns⟩)
    (fun _ _ _ hlive hwf hinv hedit =>
      ⟨hinv.1.edit hwf hlive hedit, hinv.2.edit hwf hedit⟩) henv hany
    fun name t ht => ⟨(h name t ht).wf, (h name t ht).indexes, (h name t ht).fast⟩
  exact fun name t ht => ⟨(hall name t ht).1, (hall name t ht).2.1, (hall name t ht).2.2⟩

theorem Database.consistent_cloneImage (h : db.All Table.Consistent) :
    db.cloneImage.All Table.Consistent := by
  intro name t ht
  simp only [Database.cloneImage, Map.get?_map] at ht
  obtain ⟨u, hu, rfl⟩ := Option.map_eq_some_iff.1 ht
  obtain ⟨hwf, hindex, hfast⟩ := h name u hu
  refine ⟨hwf.congr ?_ ?_, hindex.congr ?_ ?_ ?_ ?_, hfast.cloneLocked⟩ <;>
    · unfold Table.cloneLocked
      split <;> rfl

end Statements

end SuperDB.Engine
