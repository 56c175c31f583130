import SuperDB.Engine.Verify.Wellformed

/-!
# Positions in the fast array

Where `fastPos` gives a position for a key, the fast array holds the row of the key there, and the
column positions are those of the columns. Every operation that is not cancelled keeps this up,
whether or not the array lists all rows.
-/

namespace SuperDB.Engine

open Go

variable {i : Nat} {c : Column} {old : Bytes}

section RowValues

variable {columns : List Column} {row : Row}

theorem columnPositions_name {name : Bytes} (h : (columnPositions columns)[name]? = some i) :
    ∃ c, columns[i]? = some c ∧ c.name = name :=
  get?_positions h

theorem ColumnsOk.columnPositions (h : ColumnsOk columns) (hc : c ∈ columns) :
    ∃ i, (columnPositions columns)[c.name]? = some i ∧ columns[i]? = some c := by
  obtain ⟨i, hi⟩ := List.mem_iff_getElem?.1 hc
  exact ⟨i, get?_positions_of_nodup h.names_nodup hi, hi⟩

theorem getElem?_rowValues (i : Nat) :
    (rowValues columns row)[i]? = columns[i]?.map fun c => row.get c.name :=
  List.getElem?_map

theorem rowValues_insert (h : ColumnsOk columns) (hi : columns[i]? = some c) (v : Value) :
    rowValues columns (row.insert c.name v) = (rowValues columns row).set i v := by
  apply List.ext_getElem?
  intro j
  rw [List.getElem?_set, getElem?_rowValues, getElem?_rowValues]
  have hlen : (rowValues columns row).length = columns.length := List.length_map _
  split
  · next hij =>
    subst hij
    have hlt : i < columns.length := (List.getElem?_eq_some_iff.1 hi).1
    rw [hi, if_pos (hlen ▸ hlt), Option.map_some, Row.get_insert, if_pos rfl]
  · next hij =>
    cases hj : columns[j]? with
    | none => rfl
    | some d =>
      have hne : c.name ≠ d.name := fun e => by
        have hcd := h.eq_of_name (List.mem_of_getElem? hi) (List.mem_of_getElem? hj) e
        subst hcd
        have hlt : i < columns.length := (List.getElem?_eq_some_iff.1 hi).1
        have hnodup : columns.Nodup := List.Nodup.of_map _ h.names_nodup
        exact hij ((List.getElem?_inj hlt hnodup).1 (hi.trans hj.symm))
      simp [Row.get_insert, hne]

end RowValues

namespace Table

/-- Where the table keeps a position for a key, the fast array holds the cells of its row there, and
the column positions of an array that is not empty are those of the table. -/
structure FastInv (t : Table) : Prop where
  columns : t.fast ≠ [] → t.fastColumns = columnPositions t.columns
  entry : ∀ (key : Bytes) (i : Nat), t.fastPos[key]? = some i →
    ∃ row : Row, t.rows[key]? = some row ∧ t.fast[i]? = some ⟨key, rowValues t.columns row⟩

namespace FastInv

variable {env : Env} {t t' : Table} {key : Bytes} {row : Row}

theorem congr (h : t.FastInv) (hcolumns : t'.columns = t.columns) (hrows : t'.rows = t.rows)
    (hfast : t'.fast = t.fast) (hfastColumns : t'.fastColumns = t.fastColumns)
    (hpos : t'.fastPos = t.fastPos) : t'.FastInv := by
  refine ⟨fun hne => ?_, fun key i hi => ?_⟩
  · rw [hfastColumns, hcolumns]
    exact h.columns (hfast ▸ hne)
  · rw [hrows, hfast, hcolumns]
    exact h.entry key i (hpos ▸ hi)

theorem bare (hfast : t.fast = []) (hpos : ∀ key : Bytes, t.fastPos[key]? = none) : t.FastInv :=
  ⟨fun hne => absurd hfast hne, fun key i hi => by rw [hpos] at hi; cases hi⟩

theorem fastPos_none (h : t.FastInv) (hfast : t.fast = []) (key : Bytes) :
    t.fastPos[key]? = none := by
  cases hi : t.fastPos[key]? with
  | none => rfl
  | some i =>
    obtain ⟨row, -, hentry⟩ := h.entry key i hi
    rw [hfast] at hentry
    simp at hentry

theorem fastPos_none_of_not_mem (h : t.FastInv) (hkey : key ∉ t.rows) : t.fastPos[key]? = none := by
  cases hi : t.fastPos[key]? with
  | none => rfl
  | some i =>
    obtain ⟨row, hrow, -⟩ := h.entry key i hi
    exact absurd (Map.mem_of_get? hrow) hkey

theorem fastPos_inj (h : t.FastInv) {k k' : Bytes} (hk : t.fastPos[k]? = some i)
    (hk' : t.fastPos[k']? = some i) : k = k' := by
  obtain ⟨row, -, hentry⟩ := h.entry k i hk
  obtain ⟨row', -, hentry'⟩ := h.entry k' i hk'
  exact (FastRow.mk.inj (Option.some.inj (hentry.symm.trans hentry'))).1

theorem clearFast (t : Table) : t.clearFast.FastInv := bare rfl fun _ => Map.get?_empty _

theorem new (name : Bytes) (columns : List Column) : FastInv { name, columns } :=
  bare rfl fun _ => Map.get?_empty _

theorem getElem?_fastRows {r : FastRow} (h : t.fastRows[i]? = some r) :
    ∃ row : Row, t.rows[r.key]? = some row ∧ r = ⟨r.key, rowValues t.columns row⟩ := by
  obtain ⟨key, -, hkey⟩ := List.mem_filterMap.1 (List.mem_of_getElem? h)
  obtain ⟨row, hrow, rfl⟩ := Option.map_eq_some_iff.1 hkey
  exact ⟨row, hrow, rfl⟩

theorem rebuild (env : Env) (t : Table) : (t.rebuildFastPathLocked env).FastInv := by
  unfold rebuildFastPathLocked
  split
  · exact clearFast t
  · refine ⟨fun _ => rfl, fun key i hi => ?_⟩
    obtain ⟨r, hr, rfl⟩ := get?_positions hi
    obtain ⟨row, hrow, he⟩ := getElem?_fastRows hr
    exact ⟨row, hrow, he ▸ hr⟩

theorem rebuildIfSparse (h : t.FastInv) (env : Env) : (t.rebuildIfSparse env).FastInv := by
  unfold Table.rebuildIfSparse
  split
  · exact rebuild env t
  · exact h

theorem refreshFast (h : t.FastInv) (env : Env) (hfast : t'.fast = t.fast)
    (hpos : t'.fastPos = t.fastPos) : (t'.refreshFast env).FastInv := by
  unfold Table.refreshFast
  split
  · next hnil =>
    rw [hfast] at hnil
    exact bare (hfast.trans hnil) fun key => by rw [hpos]; exact h.fastPos_none hnil key
  · exact rebuild env t'

theorem reclaimOrder (h : t.FastInv) (env : Env) : (t.reclaimOrder env).FastInv := by
  simp only [Table.reclaimOrder]
  split
  · exact h.congr rfl rfl rfl rfl rfl
  · exact rebuild env _

theorem compactOrder (h : t.FastInv) (env : Env) : (t.compactOrderLocked env).FastInv := by
  unfold compactOrderLocked
  split
  · exact h.congr rfl rfl rfl rfl rfl
  · split
    · exact h
    · exact h.reclaimOrder env

/-! ## Rows -/

theorem insertNew (h : t.FastInv) (hnew : key ∉ t.rows) (hcolumns : t'.columns = t.columns)
    (hrows : t'.rows = t.rows.insert key row) (hfast : t'.fast = t.fast)
    (hfastColumns : t'.fastColumns = t.fastColumns) (hpos : t'.fastPos = t.fastPos) :
    t'.FastInv := by
  refine ⟨fun hne => ?_, fun k i hi => ?_⟩
  · rw [hfastColumns, hcolumns]
    exact h.columns (hfast ▸ hne)
  · obtain ⟨row', hrow', hentry⟩ := h.entry k i (hpos ▸ hi)
    have hne : key ≠ k := fun e => hnew (e ▸ Map.mem_of_get? hrow')
    exact ⟨row', by rw [hrows, Map.get?_insert_of_ne hne, hrow'], by rw [hfast, hcolumns, hentry]⟩

theorem appendRow (h : t.FastInv) (env : Env) (row : Row) (hnew : key ∉ t.rows) :
    (t.appendRow env key row).FastInv := by
  simp only [Table.appendRow, addRowIndexes_eq]
  generalize hu : ({ t with
      rows := t.rows.insert key row
      order := t.order ++ [key]
      indexes := t.indexes.map fun c index => addToIndex index (valueKey (row.get c)) key } :
    Table) = u
  have hinv : u.FastInv := by
    subst hu
    exact h.insertNew hnew rfl rfl rfl rfl rfl
  have hrow : u.rows[key]? = some row := by
    subst hu
    exact Map.get?_insert_self _ _ _
  unfold appendFastRowLocked
  split
  · exact hinv
  · split
    · exact rebuild env u
    · next hcond =>
      rw [not_or] at hcond
      refine ⟨fun _ => hinv.columns hcond.1, fun k i hi => ?_⟩
      simp only [Map.get?_insert] at hi
      split at hi
      · next hk =>
        cases hi
        subst hk
        exact ⟨row, hrow, by simp⟩
      · obtain ⟨row', hrow', hentry⟩ := hinv.entry k i hi
        have hlt : i < u.fast.length := (List.getElem?_eq_some_iff.1 hentry).1
        exact ⟨row', hrow', by rw [List.getElem?_append_left hlt, hentry]⟩

theorem setRow (h : t.FastInv) {row' : Row} (hcolumns : t'.columns = t.columns)
    (hrows : t'.rows = t.rows.insert key row') (hfastColumns : t'.fastColumns = t.fastColumns)
    (hpos : t'.fastPos = t.fastPos)
    (hfast : ∀ i, t.fastPos[key]? = some i →
      t'.fast = t.fast.modify i fun r => { r with values := rowValues t.columns row' })
    (hsame : t.fastPos[key]? = none → t'.fast = t.fast) : t'.FastInv := by
  have hnil : t'.fast ≠ [] → t.fast ≠ [] := by
    intro hne
    cases hi : t.fastPos[key]? with
    | none => rwa [hsame hi] at hne
    | some i =>
      rw [hfast i hi] at hne
      intro e
      simp [e] at hne
  refine ⟨fun hne => ?_, fun k i hi => ?_⟩
  · rw [hfastColumns, hcolumns]
    exact h.columns (hnil hne)
  · rw [hpos] at hi
    obtain ⟨old, hold, hentry⟩ := h.entry k i hi
    rw [hcolumns, hrows]
    by_cases hk : key = k
    · subst hk
      refine ⟨row', Map.get?_insert_self _ _ _, ?_⟩
      rw [hfast i hi, List.getElem?_modify_eq, hentry]
      rfl
    · refine ⟨old, by rw [Map.get?_insert_of_ne hk, hold], ?_⟩
      cases hj : t.fastPos[key]? with
      | none => rw [hsame hj, hentry]
      | some j =>
        have hne : j ≠ i := fun e => hk (h.fastPos_inj (e ▸ hj) hi)
        rw [hfast j hj, List.getElem?_modify_ne _ _ hne, hentry]

theorem replaceRow (h : t.FastInv) (key : Bytes) (old row : Row) :
    (t.replaceRow key old row).FastInv := by
  simp only [Table.replaceRow, removeRowIndexes_eq, addRowIndexes_eq, replaceFastRowLocked]
  split
  · next hnil =>
    exact h.setRow rfl rfl rfl rfl
      (fun i hi => by rw [h.fastPos_none hnil] at hi; cases hi) fun _ => rfl
  · split
    · next i hi =>
      refine h.setRow rfl rfl rfl rfl (fun j hj => ?_) fun hnone => ?_
      · cases hi.symm.trans hj
        rfl
      · cases hi.symm.trans hnone
    · next hi =>
      exact h.setRow rfl rfl rfl rfl (fun j hj => by cases hi.symm.trans hj) fun _ => rfl

theorem setCell (h : t.FastInv) (hcols : ColumnsOk t.columns) (hc : c ∈ t.columns) (key : Bytes)
    (v : Value) : (t.setCell key c.name v).FastInv := by
  unfold Table.setCell
  split
  · exact h
  · next row hrow =>
    simp only [addIndexValue_eq, removeIndexValue_eq, changeIndex_changeIndex]
    rw [changeIndex_eq]
    simp only [updateFastRowLocked]
    split
    · next hnil =>
      exact h.setRow rfl rfl rfl rfl
        (fun i hi => by rw [h.fastPos_none hnil] at hi; cases hi) fun _ => rfl
    · next hne =>
      obtain ⟨j, hj, hcj⟩ := hcols.columnPositions hc
      have hpos : t.fastColumns[c.name]? = some j := by rw [h.columns hne, hj]
      rw [hpos]
      cases hi : t.fastPos[key]? with
      | none =>
        exact h.setRow rfl rfl rfl rfl (fun i hi' => by cases hi.symm.trans hi') fun _ => rfl
      | some i =>
        refine h.setRow rfl rfl rfl rfl (fun i' hi' => ?_) fun hnone => by cases hi.symm.trans hnone
        cases hi.symm.trans hi'
        -- the cell is written into the old values of the row, wherever they are
        obtain ⟨old, hold, hentry⟩ := h.entry key i hi
        cases hrow.symm.trans hold
        apply List.ext_getElem?
        intro k
        by_cases hk : i = k
        · subst hk
          simp only [List.getElem?_modify_eq, hentry, Option.map_eq_map, Option.map_some]
          rw [rowValues_insert hcols hcj]
        · rw [List.getElem?_modify_ne _ _ hk, List.getElem?_modify_ne _ _ hk]

theorem removeRow (h : t.FastInv) (env : Env) (key : Bytes) (row : Row) :
    (t.removeRow env key row).FastInv := by
  simp only [Table.removeRow, removeRowIndexes_eq, removeFastRowLocked]
  -- the other keys keep their rows and positions
  have hother : ∀ (k : Bytes) (i : Nat), key ≠ k → t.fastPos[k]? = some i →
      ∃ row : Row, (t.rows.erase key)[k]? = some row ∧
        t.fast[i]? = some ⟨k, rowValues t.columns row⟩ := by
    intro k i hk hi
    obtain ⟨row', hrow', hentry⟩ := h.entry k i hi
    exact ⟨row', by rw [Map.get?_erase_of_ne hk, hrow'], hentry⟩
  split
  · next hnil => exact bare hnil fun k => h.fastPos_none hnil k
  · next hne =>
    split
    · exact clearFast _
    · split
      · next i hi =>
        refine ⟨fun _ => h.columns hne, fun k j hj => ?_⟩
        obtain ⟨hk, hj⟩ := get?_erase_some hj
        obtain ⟨row', hrow', hentry⟩ := hother k j (Ne.symm hk) hj
        have hij : i ≠ j := fun e => hk (h.fastPos_inj hj (e ▸ hi))
        exact ⟨row', hrow', by rw [List.getElem?_set_ne hij, hentry]⟩
      · next hi =>
        refine ⟨fun _ => h.columns hne, fun k j hj => hother k j (fun e => ?_) hj⟩
        subst e
        cases hi.symm.trans hj

theorem rekeyFast (h : t.FastInv) (hcols : ColumnsOk t.columns) (hc : c ∈ t.columns)
    (hname : c.name = t.primaryColumn) {new : Bytes} {v : Value} (hrow : t.rows[old]? = some row)
    (hfree : new ∉ t.rows) (hcolumns : t'.columns = t.columns)
    (hrows : t'.rows = (t.rows.erase old).insert new (row.insert c.name v))
    (hfast : t'.fast = t.fast) (hfastColumns : t'.fastColumns = t.fastColumns)
    (hpos : t'.fastPos = t.fastPos) : (t'.rekeyFastRowLocked old new v).FastInv := by
  have hprimary : t'.primaryColumn = c.name := by rw [hname]; simp only [primaryColumn, hcolumns]
  -- the keys other than the old and the new one
  have hother : ∀ (k : Bytes) (i : Nat), k ≠ old → t.fastPos[k]? = some i →
      ∃ row' : Row, t'.rows[k]? = some row' ∧
        t.fast[i]? = some ⟨k, rowValues t.columns row'⟩ := by
    intro k i hk hi
    obtain ⟨row', hrow', hentry⟩ := h.entry k i hi
    have hkn : new ≠ k := fun e => hfree (e ▸ Map.mem_of_get? hrow')
    refine ⟨row', ?_, hentry⟩
    rw [hrows, Map.get?_insert_of_ne hkn, Map.get?_erase_of_ne (Ne.symm hk), hrow']
  unfold rekeyFastRowLocked
  rw [hfast, hpos]
  split
  · next hnil => exact bare (hfast.trans hnil) fun k => by rw [hpos]; exact h.fastPos_none hnil k
  · next hne =>
    have hcolumn : t'.fastColumns = columnPositions t'.columns := by
      rw [hfastColumns, hcolumns, h.columns hne]
    cases hi : t.fastPos[old]? with
    | none =>
      refine ⟨fun _ => hcolumn, fun k i hk => ?_⟩
      rw [hpos] at hk
      rw [hcolumns, hfast]
      exact hother k i (fun e => by subst e; cases hi.symm.trans hk) hk
    | some i =>
      refine ⟨fun _ => hcolumn, fun k i' hk => ?_⟩
      simp only [hcolumns]
      simp only [Map.get?_insert] at hk
      split at hk
      · next hk' =>
        cases hk
        subst hk'
        obtain ⟨j, hj, hcj⟩ := hcols.columnPositions hc
        obtain ⟨row', hrow', hentry⟩ := h.entry old i hi
        cases hrow.symm.trans hrow'
        have hcell : t'.fastColumns[t'.primaryColumn]? = some j := by
          rw [hcolumn, hprimary, hcolumns, hj]
        refine ⟨row.insert c.name v, by rw [hrows, Map.get?_insert_self], ?_⟩
        simp only [List.getElem?_modify_eq, hentry, hcell, Option.map_eq_map, Option.map_some]
        rw [rowValues_insert hcols hcj]
      · obtain ⟨hko, hk⟩ := get?_erase_some hk
        obtain ⟨row', hrow', hentry⟩ := hother k i' hko hk
        have hii : i ≠ i' := fun e => hko (h.fastPos_inj hk (e ▸ hi))
        exact ⟨row', hrow', by rw [List.getElem?_modify_ne _ _ hii, hentry]⟩

theorem rekeyPrimary (h : t.FastInv) (hcols : ColumnsOk t.columns) (hpk : t.primaryColumn ≠ [])
    (hold : old ∈ t.rows) (v : Value) : (t.rekeyPrimaryLocked old v).2.FastInv := by
  obtain ⟨c, hc, -, hname⟩ := exists_primary hpk
  obtain ⟨row, hrow⟩ := Map.mem_iff.1 hold
  have hgetD : t.rows.getD old ∅ = row := by rw [Map.getD_eq, hrow]; rfl
  unfold rekeyPrimaryLocked
  simp only
  split
  · rw [← hname]
    exact h.setCell hcols hc old v
  · split
    · exact h
    · next hfree =>
      simp only [removeRowIndexes_eq, addRowIndexes_eq, hgetD]
      exact h.rekeyFast hcols hc hname hrow hfree rfl (by rw [hname]) rfl rfl rfl

theorem deleteKey (h : t.FastInv) (env : Env) (key : Bytes) (row : Row) :
    (t.deleteKey env key row).FastInv := by
  have hremoved : ({ t.removeRow env key row with dead := t.dead + 1 } : Table).FastInv :=
    (h.removeRow env key row).congr rfl rfl rfl rfl rfl
  have hsame : t.deleteKey env key row =
      (({ t.removeRow env key row with dead := t.dead + 1 } : Table).compactOrderLocked
        env).rebuildIfSparse env := by
    simp only [Table.deleteKey, Table.removeRow, removeRowIndexes_eq, removeFastRowLocked]
    split
    · rfl
    · split
      · rfl
      · split <;> rfl
  rw [hsame]
  exact (hremoved.compactOrder env).rebuildIfSparse env

theorem deleteRow (env : Env) (w : Option MutationWhere) (expected : Expected) {s : DeleteScan}
    (h : s.table.FastInv) (key : Bytes) : (deleteRow env w expected s key).table.FastInv := by
  unfold Table.deleteRow
  split
  · exact h
  · next row _ =>
    split
    · exact h.removeRow env key row
    · exact h

theorem deleteScan (h : t.FastInv) (env : Env) (w : Option MutationWhere) (expected : Expected) :
    (t.deleteScan env w expected).2.FastInv := by
  have hloop := rangeLoop_invariant env.scanTick (P := fun s : DeleteScan => s.table.FastInv)
    (f := Table.deleteRow env w expected) (l := t.order) (s := { table := t })
    (fun s key _ hs => deleteRow env w expected hs key) h 0
  unfold Table.deleteScan
  split
  · next heq =>
    rw [heq] at hloop
    exact hloop.congr rfl rfl rfl rfl rfl
  · next s heq =>
    rw [heq] at hloop
    have hend : FastInv { s.table with order := s.remaining, dead := 0 } :=
      hloop.congr rfl rfl rfl rfl rfl
    exact hend.rebuildIfSparse env

theorem edit {ok : Table → Bytes → Prop} (h : t.FastInv) (hwf : t.Wf)
    (hedit : Edit env ok t t') : t'.FastInv := by
  cases hedit with
  | append key row hnew _ _ _ _ => exact h.appendRow env row hnew
  | replace key old row _ _ _ => exact h.replaceRow key old row
  | setCell key c v _ hc _ _ => exact h.setCell hwf.columns hc key v
  | rekey key c v hkey hc hprimary _ _ _ _ =>
    have hpk : t.primaryColumn ≠ [] := by
      rw [primaryColumn_eq hwf.columns hc hprimary]
      exact hwf.columns.name_ne_nil c hc
    exact h.rekeyPrimary hwf.columns hpk hkey v
  | autoKey n => exact h.congr rfl rfl rfl rfl rfl
  | reclaim => exact h.reclaimOrder env
  | deleteKey key row _ => exact h.deleteKey env key row
  | deleteScan w expected => exact h.deleteScan env w expected
  | addColumn name type _ _ => exact h.refreshFast env rfl rfl
  | dropColumn name => exact h.refreshFast env rfl rfl
  | truncate => exact bare rfl fun _ => Map.get?_empty _
  | createIndex indexName column index _ _ => exact h.congr rfl rfl rfl rfl rfl
  | dropIndex column => exact h.congr rfl rfl rfl rfl rfl

end FastInv

/-! ## Cells -/

/-- Every fast row but the tombstones has a cell for each column. -/
def Filled (t : Table) : Prop := ∀ r ∈ t.fast, r.key ≠ [] → r.values.length = t.columns.length

/-- The fast array is in step with the table. -/
structure InStep (t : Table) : Prop extends t.FastInv where
  filled : t.Filled

/-- Every column position is within every fast row that is not a tombstone. `matchesFast`,
`matchFastTerm`, the scans of aggregates and groups, `updateFastRowLocked` and `rekeyFastRowLocked`
do not check this: past the end of a row the source panics, where the model reads NULL or changes
nothing. -/
def InRange (t : Table) : Prop :=
  ∀ r ∈ t.fast, r.key ≠ [] → ∀ (name : Bytes) (i : Nat), t.fastColumns[name]? = some i →
    i < r.values.length

theorem InStep.inRange {t : Table} (h : t.InStep) : t.InRange := by
  intro r hr hkey name i hi
  rw [h.columns (List.ne_nil_of_mem hr)] at hi
  obtain ⟨c, hc, -⟩ := columnPositions_name hi
  rw [h.filled r hr hkey]
  exact (List.getElem?_eq_some_iff.1 hc).1

namespace Filled

variable {env : Env} {t t' : Table}

theorem bare (h : t.fast = []) : t.Filled := fun r hr => by
  rw [h] at hr
  cases hr

theorem length_rowValues (row : Row) : (rowValues t.columns row).length = t.columns.length :=
  List.length_map _

/-- A row that is changed must have its cells if it has a key afterwards. -/
theorem modify (h : t.Filled) (i : Nat) {f : FastRow → FastRow}
    (hf : ∀ r, t.fast[i]? = some r → (f r).key ≠ [] → (f r).values.length = t.columns.length) :
    Filled { t with fast := t.fast.modify i f } := by
  intro r hr hkey
  obtain ⟨j, hj⟩ := List.mem_iff_getElem?.1 hr
  by_cases hij : i = j
  · subst hij
    rw [List.getElem?_modify_eq] at hj
    obtain ⟨r', hr', rfl⟩ := Option.map_eq_some_iff.1 hj
    exact hf r' hr' hkey
  · rw [List.getElem?_modify_ne _ _ hij] at hj
    exact h r (List.mem_of_getElem? hj) hkey

theorem rebuild (env : Env) (t : Table) : (t.rebuildFastPathLocked env).Filled := by
  unfold rebuildFastPathLocked
  split
  · exact bare rfl
  · intro r hr _
    obtain ⟨i, hi⟩ := List.mem_iff_getElem?.1 hr
    obtain ⟨row, -, he⟩ := FastInv.getElem?_fastRows hi
    rw [he]
    exact length_rowValues row

theorem append (h : t.Filled) (env : Env) (key : Bytes) (row : Row) :
    (t.appendFastRowLocked env key row).Filled := by
  unfold appendFastRowLocked
  split_ifs
  · exact h
  · exact rebuild env t
  · intro r hr hkey
    rcases List.mem_append.1 hr with hr | hr
    · exact h r hr hkey
    · rw [List.mem_singleton.1 hr]
      exact length_rowValues row

theorem remove (h : t.Filled) (env : Env) (key : Bytes) :
    (t.removeFastRowLocked env key).Filled := by
  unfold removeFastRowLocked
  split_ifs
  · exact h
  · exact bare rfl
  · split
    · intro r hr hkey
      rcases List.mem_or_eq_of_mem_set hr with hr | rfl
      · exact h r hr hkey
      · exact absurd rfl hkey
    · exact h

theorem replace (h : t.Filled) (key : Bytes) (row : Row) :
    (t.replaceFastRowLocked key row).Filled := by
  unfold replaceFastRowLocked
  split_ifs
  · exact h
  · split
    · exact h.modify _ fun r _ _ => length_rowValues row
    · exact h

theorem update (h : t.Filled) (key column : Bytes) (v : Value) :
    (t.updateFastRowLocked key column v).Filled := by
  unfold updateFastRowLocked
  split_ifs
  · exact h
  · split
    · refine h.modify _ fun r hr hkey => ?_
      rw [List.length_set]
      exact h r (List.mem_of_getElem? hr) hkey
    · exact h

/-- The row that is moved to another key has its cells, since its position is that of the key. -/
theorem rekey (h : t.Filled) (hold : ∀ i r, t.fastPos[old]? = some i → t.fast[i]? = some r →
      r.values.length = t.columns.length) (new : Bytes) (v : Value) :
    (t.rekeyFastRowLocked old new v).Filled := by
  unfold rekeyFastRowLocked
  split_ifs
  · exact h
  · split
    · exact h
    · next i hi =>
      refine h.modify i fun r hr _ => ?_
      simp only
      split
      · rw [List.length_set]
        exact hold i r hi hr
      · exact hold i r hi hr

theorem rebuildIfSparse (h : t.Filled) (env : Env) : (t.rebuildIfSparse env).Filled := by
  unfold Table.rebuildIfSparse
  split
  · exact rebuild env t
  · exact h

theorem reclaimOrder (h : t.Filled) (env : Env) : (t.reclaimOrder env).Filled := by
  simp only [Table.reclaimOrder]
  split
  · exact h
  · exact rebuild env _

theorem compactOrder (h : t.Filled) (env : Env) : (t.compactOrderLocked env).Filled := by
  unfold compactOrderLocked
  split_ifs
  · exact h
  · exact h
  · exact h.reclaimOrder env

theorem refreshFast (env : Env) (t : Table) : (t.refreshFast env).Filled := by
  unfold Table.refreshFast
  split
  · next hnil => exact bare hnil
  · exact rebuild env t

theorem setCell (h : t.Filled) (key column : Bytes) (v : Value) :
    (t.setCell key column v).Filled := by
  unfold Table.setCell
  split
  · exact h
  · simp only [addIndexValue_eq, removeIndexValue_eq, changeIndex_changeIndex]
    rw [changeIndex_eq]
    exact update (by exact h) key column v

theorem rekeyPrimary (h : t.Filled) (hinv : t.FastInv) (old : Bytes) (v : Value) :
    (t.rekeyPrimaryLocked old v).2.Filled := by
  unfold rekeyPrimaryLocked
  simp only
  split_ifs
  · exact h.setCell _ _ _
  · exact h
  · simp only [removeRowIndexes_eq, addRowIndexes_eq]
    refine rekey (by exact h) (fun i r hi hr => ?_) _ _
    obtain ⟨row, -, hentry⟩ := hinv.entry old i hi
    cases hr.symm.trans hentry
    exact length_rowValues row

theorem removeRow (h : t.Filled) (env : Env) (key : Bytes) (row : Row) :
    (t.removeRow env key row).Filled := by
  simp only [Table.removeRow, removeRowIndexes_eq]
  exact remove (by exact h) env key

theorem deleteScan (h : t.Filled) (env : Env) (w : Option MutationWhere) (expected : Expected) :
    (t.deleteScan env w expected).2.Filled := by
  have hloop := rangeLoop_invariant env.scanTick (P := fun s : DeleteScan => s.table.Filled)
    (f := Table.deleteRow env w expected) (l := t.order) (s := { table := t })
    (fun s key _ hs => by
      unfold Table.deleteRow
      split
      · exact hs
      · split_ifs
        · exact hs.removeRow env key _
        · exact hs) h 0
  unfold Table.deleteScan
  split
  · next heq =>
    rw [heq] at hloop
    exact hloop
  · next heq =>
    rw [heq] at hloop
    exact rebuildIfSparse (by exact hloop) env

end Filled

theorem InStep.new (name : Bytes) (columns : List Column) : InStep { name, columns } :=
  ⟨FastInv.new name columns, Filled.bare rfl⟩

/-- **Every edit keeps the fast array in step.** -/
theorem InStep.edit {env : Env} {ok : Table → Bytes → Prop} {t t' : Table} (h : t.InStep)
    (hwf : t.Wf) (hedit : Edit env ok t t') : t'.InStep := by
  refine ⟨h.toFastInv.edit hwf hedit, ?_⟩
  cases hedit with
  | append key row =>
    simp only [Table.appendRow, addRowIndexes_eq]
    exact Filled.append (by exact h.filled) env key row
  | replace key old row =>
    simp only [Table.replaceRow, removeRowIndexes_eq, addRowIndexes_eq]
    exact Filled.replace (by exact h.filled) key row
  | setCell key c v => exact h.filled.setCell key c.name v
  | rekey key c v => exact h.filled.rekeyPrimary h.toFastInv key v
  | autoKey n => exact h.filled
  | reclaim => exact h.filled.reclaimOrder env
  | deleteKey key row =>
    simp only [Table.deleteKey, removeRowIndexes_eq]
    exact ((Filled.remove (by exact h.filled) env key).compactOrder env).rebuildIfSparse env
  | deleteScan w expected => exact h.filled.deleteScan env w expected
  | addColumn name type => exact Filled.refreshFast env _
  | dropColumn name => exact Filled.refreshFast env _
  | truncate => exact Filled.bare rfl
  | createIndex indexName column index => exact h.filled
  | dropIndex column => exact h.filled

end Table

/-- Tables of statements that ran to their end, with the fast arrays in step. -/
def Database.InStep (db : Database) : Prop := db.All fun t => t.Wf ∧ t.InStep

theorem Database.InStep.execWithOptions {env : Env} {db : Database} (h : db.InStep)
    (henv : env.Live) (sql : Bytes) : (db.execWithOptions env sql).2.InStep := by
  have hany : db.RekeysOk (fun _ _ => True) env sql := fun _ _ => trivial
  exact Database.All.execWithOptions (fun name columns _ => Table.InStep.new name columns)
    (fun _ _ _ _ hwf hstep hedit => hstep.edit hwf hedit) henv hany h

theorem Database.runAll_inStep {l : List (Env × Bytes)} (hl : Uncancelled l) :
    (Database.runAll {} l).InStep :=
  Database.runAll_all (fun _ _ => True) (fun name columns _ => Table.InStep.new name columns)
    (fun _ _ _ _ hwf h hedit => h.edit hwf hedit) hl
    (Database.Steps.of_forall (fun _ _ _ _ _ => trivial) _ _) (Database.all_empty _)

theorem Database.runAll_fastInv {l : List (Env × Bytes)} (hl : Uncancelled l) :
    (Database.runAll {} l).All fun t => t.Wf ∧ t.FastInv := fun name t ht =>
  ⟨(Database.runAll_inStep hl name t ht).1, (Database.runAll_inStep hl name t ht).2.toFastInv⟩

/-- In every state of a run a position that a table keeps for a key is that of the cells of its
row. -/
theorem Database.runAll_fastPos {l : List (Env × Bytes)} (hl : Uncancelled l) {name : Bytes}
    {t : Table} (ht : (Database.runAll {} l).tables[name]? = some t) :
    (t.fast ≠ [] → t.fastColumns = columnPositions t.columns) ∧
      ∀ (key : Bytes) (i : Nat), t.fastPos[key]? = some i →
        ∃ row : Row, t.rows[key]? = some row ∧ t.fast[i]? = some ⟨key, rowValues t.columns row⟩ :=
  have h := (Database.runAll_fastInv hl name t ht).2
  ⟨h.columns, h.entry⟩

/-- Three rows, one of them deleted and one changed, where two rows are enough for a fast array. -/
def threeFastRows : Database :=
  Database.runAll {} (scriptIn { threshold := some 2 }
    ["CREATE TABLE t (k INT PRIMARY KEY, v TEXT)",
    "INSERT INTO t VALUES (1, 'a'), (2, 'b'), (3, 'c')",
      "DELETE FROM t WHERE k = 2", "UPDATE t SET v = 'd' WHERE k = 3"])

theorem Database.runAll_fastPos_threeFastRows :
    ∃ t row, threeFastRows.tables[str "t"]? = some t ∧ t.fast.length = 2 ∧
      t.fastPos[str "3"]? = some 1 ∧ t.rows[str "3"]? = some row ∧
      t.fast[1]? = some ⟨str "3", rowValues t.columns row⟩ := by
  have hvals : threeFastRows.tables[str "t"]?.map (fun t => (t.fast.length, t.fastPos[str "3"]?)) =
      some (2, some 1) := by decide +kernel
  obtain ⟨t, ht, hval⟩ := Option.map_eq_some_iff.1 hvals
  obtain ⟨hlength, hpos⟩ := Prod.mk.inj hval
  obtain ⟨row, hrow, hentry⟩ :=
    (Database.runAll_fastPos (uncancelled_scriptIn (fun _ => rfl) _) ht).2 _ _ hpos
  exact ⟨t, row, ht, hlength, hpos, hrow, hentry⟩

end SuperDB.Engine
