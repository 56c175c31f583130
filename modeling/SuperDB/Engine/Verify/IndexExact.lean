import SuperDB.Engine.Verify.Wellformed

/-!
# Secondary indexes are exact

Each index of a table is the index of the cells of its column, in every state that statements
reach. The proof follows the changes of a table: a change of a row is a change of the indexed
function at the key of the row, and the index entries are patched to match.
-/

namespace SuperDB.Engine

open Go

namespace Table

/-- The indexes agree with the rows. -/
structure IndexInv (t : Table) : Prop where
  exact : ∀ (c : Bytes) (index : Map StrSet), t.indexes[c]? = some index →
    Indexes index (t.cellKey c)
  column : ∀ c ∈ t.indexes, hasColumn t.columns c = true
  named : ∀ n c : Bytes, t.indexNames[n]? = some c → c ∈ t.indexes

section CellKey

variable {t t' : Table}

theorem cellKey_insert {key : Bytes} {row : Row} (hrows : t'.rows = t.rows.insert key row)
    (c : Bytes) :
    t'.cellKey c = Function.update (t.cellKey c) key (some (valueKey (row.get c))) := by
  funext k
  simp only [cellKey, hrows, Map.get?_insert, Function.update_apply, eq_comm (a := k)]
  split <;> rfl

theorem cellKey_erase {key : Bytes} (hrows : t'.rows = t.rows.erase key) (c : Bytes) :
    t'.cellKey c = Function.update (t.cellKey c) key none := by
  funext k
  simp only [cellKey, hrows, Map.get?_erase, Function.update_apply, eq_comm (a := k)]
  split <;> rfl

theorem cellKey_some {key : Bytes} {row : Row} (h : t.rows[key]? = some row) (c : Bytes) :
    t.cellKey c key = some (valueKey (row.get c)) := by
  simp [cellKey, h]

theorem cellKey_none {key : Bytes} (h : key ∉ t.rows) (c : Bytes) : t.cellKey c key = none := by
  simp [cellKey, Map.not_mem_iff.1 h]

theorem cellKey_map (change : Row → Row) (hrows : t'.rows = t.rows.map fun _ row => change row)
    {c : Bytes} (hc : ∀ row : Row, Row.get (change row) c = row.get c) :
    t'.cellKey c = t.cellKey c := by
  funext k
  simp only [cellKey, hrows, Map.get?_map, Option.map_map]
  congr 1
  funext row
  simp [hc]

end CellKey

namespace IndexInv

variable {ok : Table → Bytes → Prop} {t t' : Table}

theorem new (name : Bytes) (columns : List Column) : IndexInv { name, columns } :=
  ⟨fun c index h => by simp at h, fun c h => by simp at h, fun n c h => by simp at h⟩

theorem congr (h : t.IndexInv) (hrows : t'.rows = t.rows) (hcolumns : t'.columns = t.columns)
    (hindexes : t'.indexes = t.indexes) (hnames : t'.indexNames = t.indexNames) : t'.IndexInv := by
  refine ⟨fun c index hc => ?_, fun c hc => ?_, fun n c hn => ?_⟩
  · have hsame : t'.cellKey c = t.cellKey c := by funext k; simp only [cellKey, hrows]
    rw [hsame]
    exact h.exact c index (hindexes ▸ hc)
  · rw [hcolumns]
    exact h.column c (hindexes ▸ hc)
  · rw [hindexes]
    exact h.named n c (hnames ▸ hn)

theorem patch (h : t.IndexInv) {f : Bytes → Map StrSet → Map StrSet}
    (hindexes : t'.indexes = t.indexes.map f) (hcolumns : t'.columns = t.columns)
    (hnames : t'.indexNames = t.indexNames)
    (hf : ∀ c index, Indexes index (t.cellKey c) → Indexes (f c index) (t'.cellKey c)) :
    t'.IndexInv := by
  have hmem : ∀ c, c ∈ t'.indexes ↔ c ∈ t.indexes := fun c => by
    rw [hindexes, Map.mem_iff, Map.mem_iff, Map.get?_map]
    cases t.indexes[c]? <;> simp
  refine ⟨fun c index' hc => ?_, fun c hc => ?_, fun n c hn => ?_⟩
  · rw [hindexes, Map.get?_map, Option.map_eq_some_iff] at hc
    obtain ⟨index, hindex, rfl⟩ := hc
    exact hf c index (h.exact c index hindex)
  · rw [hcolumns]
    exact h.column c ((hmem c).1 hc)
  · exact (hmem c).2 (h.named n c (hnames ▸ hn))

theorem eraseRow (h : t.IndexInv) {key : Bytes} (hkey : key ∈ t.rows) :
    (t.eraseRow key).IndexInv := by
  obtain ⟨row, hrow⟩ := Map.mem_iff.1 hkey
  have hgetD : t.rows.getD key ∅ = row := by rw [Map.getD_eq, hrow]; rfl
  refine h.patch rfl rfl rfl fun c index hindex => ?_
  rw [cellKey_erase rfl, hgetD]
  exact hindex.remove (cellKey_some hrow c)

theorem foldl_eraseRow (h : t.IndexInv) {gone : List Bytes} (hnodup : gone.Nodup)
    (hgone : ∀ k ∈ gone, k ∈ t.rows) : (gone.foldl Table.eraseRow t).IndexInv := by
  induction gone generalizing t with
  | nil => exact h
  | cons a gone ih =>
    rw [List.nodup_cons] at hnodup
    refine ih (h.eraseRow (hgone a List.mem_cons_self)) hnodup.2 fun k hk => ?_
    exact Map.mem_erase.2 ⟨fun e => hnodup.1 (e ▸ hk), hgone k (List.mem_cons_of_mem _ hk)⟩

theorem setCell (h : t.IndexInv) {key column : Bytes} {row : Row} (v : Value)
    (hrow : t.rows[key]? = some row) :
    IndexInv { t.changeIndex (fun index =>
        addToIndex (removeFromIndex index (valueKey (row.get column)) key) (valueKey v) key)
        column with
      rows := t.rows.insert key (row.insert column v) } := by
  refine h.patch (f := fun c index => if column = c then
    addToIndex (removeFromIndex index (valueKey (row.get column)) key) (valueKey v) key
    else index) ?_ (by rw [changeIndex_eq]) (by rw [changeIndex_eq]) fun c index hindex => ?_
  · apply Map.ext_get?
    intro c
    rw [get?_changeIndex, Map.get?_map]
    split <;> simp
  · rw [cellKey_insert rfl, Row.get_insert]
    split
    · next hc =>
      subst hc
      exact hindex.move (cellKey_some hrow column) (valueKey v)
    · -- another column keeps its cells
      rwa [← cellKey_some hrow c, Function.update_eq_self]

theorem rekey (h : t.IndexInv) {key new : Bytes} {row row' : Row} (hrow : t.rows[key]? = some row)
    (hne : new ≠ key) (hfree : new ∉ t.rows) (order : List Bytes) :
    IndexInv { t with
      rows := (t.rows.erase key).insert new row'
      order := order
      indexes := t.indexes.map fun n index =>
        addToIndex (removeFromIndex index (valueKey (row.get n)) key)
          (valueKey (row'.get n)) new } := by
  refine h.patch rfl rfl rfl fun c index hindex => ?_
  have hremoved := hindex.remove (cellKey_some hrow c)
  have hnone : Function.update (t.cellKey c) key none new = none := by
    rw [Function.update_of_ne hne, cellKey_none hfree]
  rw [cellKey_insert (t := { t with rows := t.rows.erase key }) rfl, cellKey_erase (t := t) rfl]
  exact hremoved.add _ hnone

theorem forgetIndex (h : t.IndexInv) (column : Bytes) : (t.forgetIndex column).IndexInv := by
  have hsub : ∀ c : Bytes, c ∈ (t.forgetIndex column).indexes ↔ column ≠ c ∧ c ∈ t.indexes :=
    fun c => Map.mem_erase
  refine ⟨fun c index hc => h.exact c index (get?_erase_some hc).2,
    fun c hc => h.column c ((hsub c).1 hc).2, fun n c hn => ?_⟩
  have hkeep : t.indexNames[n]? = some c ∧ column ≠ c := by
    have hfilter : (t.indexNames.filter fun _ c => c != column)[n]? = some c := hn
    rw [Map.get?_filter, Option.filter_eq_some_iff] at hfilter
    refine ⟨hfilter.1, fun e => ?_⟩
    simp [e] at hfilter
  exact (hsub c).2 ⟨hkeep.2, h.named n c hkeep.1⟩

/-- **Every change keeps the indexes exact.** -/
theorem change (h : t.IndexInv) (hchange : Change ok t t') : t'.IndexInv := by
  cases hchange with
  | append key row hnew _ _ _ _ =>
    refine h.patch rfl rfl rfl fun c index hindex => ?_
    rw [cellKey_insert rfl]
    exact hindex.add _ (cellKey_none hnew c)
  | replace key old row hold _ _ =>
    refine h.patch rfl rfl rfl fun c index hindex => ?_
    rw [cellKey_insert rfl]
    exact hindex.move (cellKey_some hold c) _
  | setCell key row c v hrow _ _ _ => exact h.setCell v hrow
  | rekey key row c v hrow _ _ _ hne hfree _ => exact h.rekey hrow hne hfree _
  | autoKey n => exact h.congr rfl rfl rfl rfl
  | reclaim => exact h.congr rfl rfl rfl rfl
  | deleteKey key hkey => exact (h.eraseRow hkey).congr rfl rfl rfl rfl
  | deleteScan gone hnodup hgone =>
    exact (h.foldl_eraseRow hnodup hgone).congr rfl rfl rfl rfl
  | addColumn name type hnew _ =>
    have hother : ∀ c ∈ t.indexes, name ≠ c := fun c hc e => by
      rw [e, h.column c hc] at hnew
      cases hnew
    refine ⟨fun c index hc => ?_, fun c hc => ?_, h.named⟩
    · rw [cellKey_map (fun row => row.insert name .null) rfl fun row => by
        rw [Row.get_insert, if_neg (hother c (Map.mem_of_get? hc))]]
      exact h.exact c index hc
    · rw [hasColumn_iff, List.map_append]
      exact List.mem_append_left _ (hasColumn_iff.1 (h.column c hc))
  | dropColumn name =>
    have hforget := h.forgetIndex name
    have hother : ∀ c ∈ (t.forgetIndex name).indexes, name ≠ c := fun c hc => (Map.mem_erase.1 hc).1
    refine ⟨fun c index hc => ?_, fun c hc => ?_, hforget.named⟩
    · rw [cellKey_map (t := t) (fun row => row.erase name) rfl fun row =>
        Row.get_erase_of_ne (hother c (Map.mem_of_get? hc))]
      exact hforget.exact c index hc
    · obtain ⟨d, hd, rfl⟩ := List.mem_map.1 (hasColumn_iff.1 (hforget.column c hc))
      refine hasColumn_iff.2 (List.mem_map_of_mem (List.mem_filter.2 ⟨hd, ?_⟩))
      exact bne_iff_ne.2 (Ne.symm (hother _ hc))
  | truncate =>
    refine h.patch rfl rfl rfl fun c index _ => Indexes.empty.congr fun k => ?_
    exact (cellKey_none (by simp) c).symm
  | createIndex indexName column index hcol hindex =>
    refine ⟨fun c index' hc => ?_, fun c hc => ?_, fun n c hn => ?_⟩
    · rcases get?_insert_cases hc with ⟨rfl, rfl⟩ | hold
      · exact hindex
      · exact h.exact c index' hold
    · rcases Map.mem_insert.1 hc with rfl | hc
      · exact hcol
      · exact h.column c hc
    · rcases get?_insert_cases hn with ⟨-, rfl⟩ | hold
      · exact Map.mem_insert.2 (Or.inl rfl)
      · exact Map.mem_insert.2 (Or.inr (h.named n c hold))
  | dropIndex column => exact h.forgetIndex column

theorem edit {env : Env} (h : t.IndexInv) (hwf : t.Wf) (henv : env.Live)
    (hedit : Edit env (fun _ _ => True) t t') : t'.IndexInv :=
  hedit.preserves (fun _ => ⟨fun h => h.congr rfl rfl rfl rfl, fun h => h.congr rfl rfl rfl rfl⟩)
    (fun _ _ h hc => h.change hc) henv hwf.columns (fun _ h => h) h

end IndexInv

end Table

/-- In every state of a run the tables are well formed and their indexes exact. -/
theorem Database.runAll_indexInv {l : List (Env × Bytes)} (hl : Uncancelled l) :
    (Database.runAll {} l).All fun t => t.Wf ∧ t.IndexInv :=
  Database.runAll_all (fun _ _ => True) (fun name columns _ => Table.IndexInv.new name columns)
    (fun _ _ _ henv hwf h hedit => h.edit hwf henv hedit) hl
    (Database.Steps.of_forall (fun _ _ _ _ _ => trivial) _ _) (Database.all_empty _)

/-- **Secondary indexes are exact over whole runs.** A key is in the bucket of a value exactly if
its row has that value in the indexed column; no bucket is empty; only columns are indexed, and
every index name stands for an index. -/
theorem Database.indexes_exact {l : List (Env × Bytes)} (hl : Uncancelled l) {name : Bytes}
    {t : Table} (ht : (Database.runAll {} l).tables[name]? = some t) :
    (∀ (c : Bytes) (index : Map StrSet), t.indexes[c]? = some index →
      (∀ v k : Bytes, k ∈ index.getD v ∅ ↔
        ∃ row : Row, t.rows[k]? = some row ∧ valueKey (row.get c) = v) ∧
      ∀ (v : Bytes) (bucket : StrSet), index[v]? = some bucket → bucket.isEmpty = false) ∧
    (∀ c ∈ t.indexes, hasColumn t.columns c = true) ∧
    ∀ n c : Bytes, t.indexNames[n]? = some c → c ∈ t.indexes := by
  have h := (Database.runAll_indexInv hl name t ht).2
  refine ⟨fun c index hc => ⟨fun v k => ?_, (h.exact c index hc).nonempty⟩, h.column, h.named⟩
  rw [(h.exact c index hc).mem, Table.cellKey, Option.map_eq_some_iff]

def indexedRun : List (Env × Bytes) :=
  script ["CREATE TABLE t (id INT PRIMARY KEY, v TEXT)",
    "CREATE INDEX byv ON t (v)",
    "INSERT INTO t VALUES (1, 'a'), (2, 'b'), (3, 'a')",
    "UPDATE t SET id = 4 WHERE id = 1",
    "DELETE FROM t WHERE v = 'b'"]

theorem Database.indexes_exact_indexedRun :
    ∃ t, (Database.runAll {} indexedRun).tables[str "t"]? = some t ∧ str "v" ∈ t.indexes ∧
      ∀ index, t.indexes[str "v"]? = some index → ∀ v k : Bytes, k ∈ index.getD v ∅ ↔
        ∃ row : Row, t.rows[k]? = some row ∧ valueKey (row.get (str "v")) = v := by
  have hsome : ((Database.runAll {} indexedRun).tables[str "t"]?.any
      fun t => t.indexes.contains (str "v")) = true := by decide +kernel
  obtain ⟨t, ht, hv⟩ := (Option.any_eq_true _ _).1 hsome
  exact ⟨t, ht, by simpa using hv, fun index hindex =>
    ((Database.indexes_exact (uncancelled_script _) ht).1 _ index hindex).1⟩

end SuperDB.Engine
