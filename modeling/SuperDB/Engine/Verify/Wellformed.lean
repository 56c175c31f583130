import SuperDB.Engine.Verify.Change

/-!
# Well-formed tables

The rows of a table have exactly its columns, with cells of the right types. Invariants of tables
are proved for well-formed tables, one kind of change at a time, and hold in every state that a run
of statements reaches.
-/

namespace SuperDB.Engine

open Go

variable {sql : Bytes} {l : List (Env × Bytes)}

/-! ## Rows -/

section Rows

variable {columns : List Column} {row : Row}

theorem Row.get_insert (row : Row) (c d : Bytes) (v : Value) :
    Row.get (row.insert c v) d = if c = d then v else row.get d := by
  simp only [Row.get, Map.getD_eq, Map.get?_insert]
  split <;> rfl

theorem Row.get_erase_of_ne {c d : Bytes} (h : c ≠ d) : Row.get (row.erase c) d = row.get d := by
  simp only [Row.get, Map.getD_eq, Map.get?_erase_of_ne h]

theorem RowOk.set (h : RowOk columns row) (hcols : ColumnsOk columns) {c : Column} {v : Value}
    (hc : c ∈ columns) (htype : HasType v c.type) : RowOk columns (row.insert c.name v) where
  dom name := by
    rw [Map.mem_insert, h.dom]
    exact or_iff_right_of_imp fun e => e ▸ List.mem_map_of_mem hc
  typed d hd := by
    rw [Row.get_insert]
    split
    · next e => rwa [← hcols.eq_of_name hc hd e]
    · exact h.typed d hd

theorem RowOk.addColumn (h : RowOk columns row) {name : Bytes} {type : ColType}
    (hnew : hasColumn columns name = false) :
    RowOk (columns ++ [⟨name, type, false⟩]) (row.insert name .null) where
  dom n := by
    rw [Map.mem_insert, h.dom]
    simp only [List.map_append, List.map_cons, List.map_nil, List.mem_append, List.mem_singleton]
    rw [or_comm, eq_comm]
  typed d hd := by
    rw [Row.get_insert]
    rcases List.mem_append.1 hd with hd | hd
    · have hne : name ≠ d.name := fun e => by
        rw [e, hasColumn_iff.2 (List.mem_map_of_mem hd)] at hnew
        cases hnew
      rw [if_neg hne]
      exact h.typed d hd
    · rw [List.mem_singleton.1 hd, if_pos rfl]
      trivial

theorem RowOk.dropColumn (h : RowOk columns row) (name : Bytes) :
    RowOk (columns.filter fun c => c.name != name) (row.erase name) where
  dom n := by
    rw [Map.mem_erase, h.dom]
    simp only [List.mem_map, List.mem_filter, bne_iff_ne]
    constructor
    · rintro ⟨hne, c, hc, rfl⟩
      exact ⟨c, ⟨hc, Ne.symm hne⟩, rfl⟩
    · rintro ⟨c, ⟨hc, hne⟩, rfl⟩
      exact ⟨Ne.symm hne, c, hc, rfl⟩
  typed d hd := by
    obtain ⟨hd, hne⟩ := List.mem_filter.1 hd
    rw [Row.get_erase_of_ne fun e => by simp [e] at hne]
    exact h.typed d hd

end Rows

/-! ## Tables -/

namespace Table

/-- A well-formed table. -/
structure Wf (t : Table) : Prop where
  columns : ColumnsOk t.columns
  rows : ∀ (key : Bytes) (row : Row), t.rows[key]? = some row → RowOk t.columns row

variable {ok : Table → Bytes → Prop} {t t' : Table}

theorem Wf.new (name : Bytes) {columns : List Column} (h : ColumnsOk columns) :
    Wf { name, columns } :=
  ⟨h, fun key row hrow => by simp at hrow⟩

theorem Wf.congr (h : t.Wf) (hcolumns : t'.columns = t.columns) (hrows : t'.rows = t.rows) :
    t'.Wf := by
  refine ⟨hcolumns ▸ h.columns, fun key row hrow => ?_⟩
  rw [hrows] at hrow
  rw [hcolumns]
  exact h.rows key row hrow

theorem Wf.insert (h : t.Wf) {key : Bytes} {row : Row} (hrow : RowOk t.columns row)
    (hcolumns : t'.columns = t.columns)
    (hrows : ∀ k row', t'.rows[k]? = some row' → k = key ∧ row' = row ∨ t.rows[k]? = some row') :
    t'.Wf where
  columns := by rw [hcolumns]; exact h.columns
  rows k row' hk := by
    rw [hcolumns]
    rcases hrows k row' hk with ⟨-, rfl⟩ | hold
    · exact hrow
    · exact h.rows k row' hold

theorem get?_insert_cases {V : Type} {m : Map V} {key k : Bytes} {v v' : V}
    (h : (m.insert key v)[k]? = some v') : k = key ∧ v' = v ∨ m[k]? = some v' := by
  rw [Map.get?_insert] at h
  split at h
  · next e => exact Or.inl ⟨e.symm, by cases h; rfl⟩
  · exact Or.inr h

theorem get?_erase_some {V : Type} {m : Map V} {key k : Bytes} {v : V}
    (h : (m.erase key)[k]? = some v) : k ≠ key ∧ m[k]? = some v := by
  rw [Map.get?_erase] at h
  split at h
  · cases h
  · next hne => exact ⟨Ne.symm hne, h⟩

theorem columns_foldl_eraseRow (gone : List Bytes) (t : Table) :
    (gone.foldl eraseRow t).columns = t.columns := by
  induction gone generalizing t with
  | nil => rfl
  | cons a gone ih => rw [List.foldl_cons, ih]; rfl

theorem Wf.change (h : t.Wf) (hchange : Change ok t t') : t'.Wf := by
  cases hchange with
  | append key row _ _ _ hrow _ => exact h.insert hrow rfl fun k row' => get?_insert_cases
  | replace key old row _ hrow _ => exact h.insert hrow rfl fun k row' => get?_insert_cases
  | setCell key row c v hrow hc htype _ =>
    refine h.insert ((h.rows key row hrow).set h.columns hc htype) ?_ fun k row' =>
      get?_insert_cases
    rw [changeIndex_eq]
  | rekey key row c v hrow hc _ htype _ _ _ =>
    exact h.insert ((h.rows key row hrow).set h.columns hc htype) rfl fun k row' hk =>
      (get?_insert_cases hk).imp_right fun hold => (get?_erase_some hold).2
  | autoKey n => exact h.congr rfl rfl
  | reclaim => exact h.congr rfl rfl
  | deleteKey key _ => exact ⟨h.columns, fun k row hk => h.rows k row (get?_erase_some hk).2⟩
  | deleteScan gone _ _ =>
    have hcolumns := columns_foldl_eraseRow gone t
    refine ⟨hcolumns ▸ h.columns, fun k row hk => ?_⟩
    rw [hcolumns]
    rw [get?_foldl_eraseRow] at hk
    split at hk
    · cases hk
    · exact h.rows k row hk
  | addColumn name type hnew hname =>
    refine ⟨h.columns.concat hnew hname (by simp), fun k row hk => ?_⟩
    rw [Map.get?_map, Option.map_eq_some_iff] at hk
    obtain ⟨row', hrow', rfl⟩ := hk
    exact (h.rows k row' hrow').addColumn hnew
  | dropColumn name =>
    refine ⟨h.columns.sublist List.filter_sublist, fun k row hk => ?_⟩
    rw [Map.get?_map, Option.map_eq_some_iff] at hk
    obtain ⟨row', hrow', rfl⟩ := hk
    exact (h.rows k row' hrow').dropColumn name
  | truncate => exact ⟨h.columns, fun k row hk => by simp at hk⟩
  | createIndex indexName column index _ _ => exact h.congr rfl rfl
  | dropIndex column => exact h.congr rfl rfl

end Table

/-! ## Runs -/

/-- The table in which a statement moves a row to another primary key, and that key. -/
def Database.rekeyed (db : Database) (env : Env) (sql : Bytes) : Option (Table × Bytes) :=
  match db.read env sql with
  | .ok (.table name op) => db.tables[name]?.bind fun t => (op.rekeyed env t).map fun p => (t, p.2)
  | _ => none

/-- If a statement moves a row, it moves it to a key that `ok` allows. -/
def Database.RekeysOk (ok : Table → Bytes → Prop) (db : Database) (env : Env) (sql : Bytes) :
    Prop :=
  ∀ p ∈ db.rekeyed env sql, ok p.1 p.2

instance {ok : Table → Bytes → Prop} [∀ t key, Decidable (ok t key)] (db : Database) (env : Env)
    (sql : Bytes) : Decidable (db.RekeysOk ok env sql) :=
  inferInstanceAs (Decidable (∀ p ∈ db.rekeyed env sql, ok p.1 p.2))

theorem Database.mem_rekeyed {db : Database} {env : Env} {name : Bytes} {t : Table} {op : TableOp}
    (hread : db.read env sql = .ok (.table name op)) (ht : db.tables[name]? = some t)
    {p : Table × Bytes} : p ∈ db.rekeyed env sql ↔ ∃ old, op.Rekeys env t old p.2 ∧ p.1 = t := by
  obtain ⟨u, new⟩ := p
  simp only [Database.rekeyed, hread, ht, Option.bind_some, Option.mem_def, TableOp.Rekeys,
    Option.map_eq_some_iff]
  constructor
  · rintro ⟨⟨old, new'⟩, hp, he⟩
    cases he
    exact ⟨old, hp, rfl⟩
  · rintro ⟨old, hp, rfl⟩
    exact ⟨(old, new), hp, rfl⟩

theorem Database.rekeyed_read {db : Database} {env : Env} {p : Table × Bytes}
    (h : p ∈ db.rekeyed env sql) :
    ∃ name op, db.read env sql = .ok (.table name op) ∧ db.tables[name]? = some p.1 := by
  have h' : db.rekeyed env sql = some p := h
  unfold Database.rekeyed at h'
  split at h'
  · next name op hread =>
    rw [Option.bind_eq_some_iff] at h'
    obtain ⟨t, ht, h'⟩ := h'
    obtain ⟨-, -, rfl⟩ := Option.map_eq_some_iff.1 h'
    exact ⟨name, op, hread, ht⟩
  · cases h'

section Runs

variable {P : Table → Prop} {ok : Table → Bytes → Prop} {db : Database}

theorem Table.Wf.edit {env : Env} {t t' : Table} (h : t.Wf) (henv : env.Live)
    (hedit : Table.Edit env ok t t') : t'.Wf := by
  have hedit' : Table.Edit env (fun _ _ => True) t t' := hedit.mono fun _ _ _ => trivial
  exact hedit'.preserves (fun _ => ⟨fun h => h.congr rfl rfl, fun h => h.congr rfl rfl⟩)
    (fun _ _ h hc => h.change hc) henv h.columns (fun _ h => h) h

/-- A statement preserves an invariant that every edit of a well-formed table preserves. -/
theorem Database.All.execWithOptions {env : Env}
    (hnew : ∀ name columns, ColumnsOk columns → P { name, columns })
    (hedit : ∀ env u u', Env.Live env → u.Wf → P u → Table.Edit env ok u u' → P u')
    (henv : env.Live) (hok : db.RekeysOk ok env sql) (h : db.All fun t => t.Wf ∧ P t) :
    (db.execWithOptions env sql).2.All fun t => t.Wf ∧ P t := by
  rw [Database.execWithOptions_live henv]
  refine Database.All.of_tables ?_ (Database.tables_countWrite _)
  refine Database.All.exec h (fun name t ht => (h name t ht).1.columns)
    (fun name columns hc => ⟨Table.Wf.new name hc, hnew name columns hc⟩) ?_
  intro name t op hread ht hop hP
  exact TableOp.run_invariant (P := fun t => t.Wf ∧ P t) ok
    (fun u u' hu hstep => ⟨hu.1.edit henv hstep, hedit env u u' henv hu.1 hu.2 hstep⟩)
    henv hP.1.columns hop
    (fun old new hrekey => hok (t, new) ((Database.mem_rekeyed hread ht).2 ⟨old, hrekey, rfl⟩)) hP

/-- An invariant that every edit preserves holds in every state of a run. -/
theorem Database.runAll_all (ok : Table → Bytes → Prop)
    (hnew : ∀ name columns, ColumnsOk columns → P { name, columns })
    (hedit : ∀ env u u', Env.Live env → u.Wf → P u → Table.Edit env ok u u' → P u')
    (hl : Uncancelled l) (hok : db.Steps (Database.RekeysOk ok) l)
    (h : db.All fun t => t.Wf ∧ P t) : (db.runAll l).All fun t => t.Wf ∧ P t :=
  Database.runAll_invariant (I := fun db => db.All fun t => t.Wf ∧ P t)
    (fun _ _ _ henv hok h => h.execWithOptions hnew hedit henv hok) hl hok h

theorem Database.all_empty (P : Table → Prop) : Database.All P {} := fun name t ht => by simp at ht

theorem Database.runAll_wf (hl : Uncancelled l) : (Database.runAll {} l).All Table.Wf := by
  have h := Database.runAll_all (P := fun _ => True) (fun _ _ => True) (fun _ _ _ => trivial)
    (fun _ _ _ _ _ _ _ => trivial) hl
    (Database.Steps.of_forall (fun _ _ _ _ _ => trivial) _ _) (Database.all_empty _)
  exact fun name t ht => (h name t ht).1

/-- In every state of a run the columns of a table have different names and at most one of them is
primary, and every row has a cell for each column and no other, which is NULL or of the column's
type. -/
theorem Database.runAll_typed (hl : Uncancelled l) {name : Bytes} {t : Table}
    (ht : (Database.runAll {} l).tables[name]? = some t) :
    (t.columns.map (·.name)).Nodup ∧
      (∀ c ∈ t.columns, ∀ d ∈ t.columns, c.primary = true → d.primary = true → c = d) ∧
      ∀ (key : Bytes) (row : Row), t.rows[key]? = some row →
        (∀ n, n ∈ row ↔ n ∈ t.columns.map (·.name)) ∧
        ∀ c ∈ t.columns, HasType (row.get c.name) c.type := by
  have h := Database.runAll_wf hl name t ht
  exact ⟨h.columns.names_nodup, h.columns.one_primary, fun key row hrow =>
    ⟨(h.rows key row hrow).dom, (h.rows key row hrow).typed⟩⟩

/-- Rows of every type, changed and given another column. -/
def typedRows : Database :=
  Database.runAll {} (script
    ["CREATE TABLE t (k INT PRIMARY KEY, s TEXT, x FLOAT, b BOOL)",
      "INSERT INTO t VALUES (1, 'a', 0.5, true), (2, 'b', NULL, false)",
      "UPDATE t SET x = 2 WHERE k = 1", "ALTER TABLE t ADD COLUMN d INT",
      "ALTER TABLE t DROP COLUMN b"])

theorem Database.runAll_typed_typedRows :
    ∃ t row, typedRows.tables[str "t"]? = some t ∧ t.rows[str "1"]? = some row ∧
      t.columns.map (·.name) = [str "k", str "s", str "x", str "d"] ∧
      (∀ n, n ∈ row ↔ n ∈ t.columns.map (·.name)) ∧
      ∀ c ∈ t.columns, HasType (row.get c.name) c.type := by
  have hvals : typedRows.tables[str "t"]?.map (fun t =>
      (t.columns.map (·.name), t.rows.contains (str "1"))) =
      some ([str "k", str "s", str "x", str "d"], true) := by decide +kernel
  obtain ⟨t, ht, hval⟩ := Option.map_eq_some_iff.1 hvals
  obtain ⟨hnames, hmem⟩ := Prod.mk.inj hval
  obtain ⟨row, hrow⟩ := Map.mem_iff.1 (Std.ExtTreeMap.mem_iff_contains.2 hmem)
  have htyped := (Database.runAll_typed (uncancelled_script _) ht).2.2 _ row hrow
  exact ⟨t, row, ht, hrow, hnames, htyped.1, htyped.2⟩

/-- If moreover moving a row to a key that is not allowed breaks the invariant, a run has it in all
its states exactly if its statements move rows to allowed keys only. -/
theorem Database.runAll_all_iff (ok : Table → Bytes → Prop)
    (hnew : ∀ name columns, ColumnsOk columns → P { name, columns })
    (hedit : ∀ env u u', Env.Live env → u.Wf → P u → Table.Edit env ok u u' → P u')
    (hbreak : ∀ env t op old new, t.Wf → P t → TableOp.Rekeys env t op old new → ¬ok t new →
      ¬P (op.run env t).2) (hl : Uncancelled l) :
    (∀ l₁, l₁ <+: l → (Database.runAll {} l₁).All P) ↔
      Database.Steps (Database.RekeysOk ok) {} l := by
  have hiff := Database.runAll_iff_steps (I := fun db => db.All fun t => t.Wf ∧ P t)
    (Database.RekeysOk ok) ?_ hl (Database.all_empty _)
  · rw [← hiff]
    refine forall₂_congr fun l₁ hl₁ => ⟨fun h name t ht => ⟨?_, h name t ht⟩,
      fun h name t ht => (h name t ht).2⟩
    exact Database.runAll_wf (fun p hp => hl p (hl₁.subset hp)) name t ht
  · intro db env sql henv h
    refine ⟨fun hok => h.execWithOptions hnew hedit henv hok, fun hnext => ?_⟩
    rintro ⟨t, new⟩ hmem
    by_contra hnot
    obtain ⟨name, op, hread, ht⟩ := Database.rekeyed_read hmem
    obtain ⟨old, hrekey, -⟩ := (Database.mem_rekeyed hread ht).1 hmem
    have hafter : (db.execWithOptions env sql).2.tables[name]? = some (op.run env t).2 := by
      rw [Database.execWithOptions_live henv]
      simp only [Database.tables_countWrite, Database.exec, hread, Stmt.run, ht,
        Map.get?_insert_self]
    exact hbreak env t op old new (h name t ht).1 (h name t ht).2 hrekey hnot
      (hnext name _ hafter).2

end Runs

end SuperDB.Engine
