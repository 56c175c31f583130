import SuperDB.Engine.Database

/-!
# The fast array does not influence the rest of a table

`clearFast` forgets the fast array. Every operation commutes with it: what an operation does to the
columns, rows, order, indexes and counters, and what it replies, is what the same operation does on
an engine that never builds a fast array. Facts about these fields are therefore proved on that
engine, where the functions of `Engine.FastPath` do nothing.
-/

namespace SuperDB.Engine

open Go

/-- The environment of an engine that never builds a fast array. -/
def Env.slow (env : Env) : Env := { env with threshold := none }

@[simp] theorem Env.slow_below (env : Env) (n : Nat) : env.slow.below n = true := rfl

@[simp] theorem Env.slow_scanTick (env : Env) : env.slow.scanTick = env.scanTick := rfl

@[simp] theorem Env.slow_applyTick (env : Env) : env.slow.applyTick = env.applyTick := rfl

@[simp] theorem Env.slow_order (env : Env) : env.slow.order = env.order := rfl

theorem Env.Live.slow {env : Env} (h : env.Live) : env.slow.Live := h

namespace Table

variable (env : Env) (t : Table)

section Fields

@[simp] theorem clearFast_name : t.clearFast.name = t.name := rfl

@[simp] theorem clearFast_columns : t.clearFast.columns = t.columns := rfl

@[simp] theorem clearFast_rows : t.clearFast.rows = t.rows := rfl

@[simp] theorem clearFast_order : t.clearFast.order = t.order := rfl

@[simp] theorem clearFast_indexes : t.clearFast.indexes = t.indexes := rfl

@[simp] theorem clearFast_indexNames : t.clearFast.indexNames = t.indexNames := rfl

@[simp] theorem clearFast_dead : t.clearFast.dead = t.dead := rfl

@[simp] theorem clearFast_autoKey : t.clearFast.autoKey = t.autoKey := rfl

@[simp] theorem clearFast_fast : t.clearFast.fast = [] := rfl

@[simp] theorem clearFast_primaryColumn : t.clearFast.primaryColumn = t.primaryColumn := rfl

@[simp] theorem clearFast_clearFast : t.clearFast.clearFast = t.clearFast := rfl

end Fields

/-! ## The functions of the fast path -/

@[simp] theorem clearFast_rebuild : (t.rebuildFastPathLocked env).clearFast = t.clearFast := by
  unfold rebuildFastPathLocked
  split <;> rfl

@[simp] theorem clearFast_append (key : Bytes) (row : Row) :
    (t.appendFastRowLocked env key row).clearFast = t.clearFast := by
  unfold appendFastRowLocked
  split
  · rfl
  · split
    · exact clearFast_rebuild env t
    · rfl

@[simp] theorem clearFast_remove (key : Bytes) :
    (t.removeFastRowLocked env key).clearFast = t.clearFast := by
  unfold removeFastRowLocked
  split
  · rfl
  · split
    · rfl
    · split <;> rfl

@[simp] theorem clearFast_replace (key : Bytes) (row : Row) :
    (t.replaceFastRowLocked key row).clearFast = t.clearFast := by
  unfold replaceFastRowLocked
  split
  · rfl
  · split <;> rfl

@[simp] theorem clearFast_update (key column : Bytes) (v : Value) :
    (t.updateFastRowLocked key column v).clearFast = t.clearFast := by
  unfold updateFastRowLocked
  split
  · rfl
  · split <;> rfl

@[simp] theorem clearFast_rekey (oldKey newKey : Bytes) (v : Value) :
    (t.rekeyFastRowLocked oldKey newKey v).clearFast = t.clearFast := by
  unfold rekeyFastRowLocked
  split
  · rfl
  · split <;> rfl

@[simp] theorem clearFast_rebuildIfSparse : (t.rebuildIfSparse env).clearFast = t.clearFast := by
  unfold rebuildIfSparse
  split
  · exact clearFast_rebuild env t
  · rfl

@[simp] theorem clearFast_refreshFast : (t.refreshFast env).clearFast = t.clearFast := by
  unfold refreshFast
  split
  · rfl
  · exact clearFast_rebuild env t

/-! ## Without a fast array they do nothing -/

section Bare

variable {t}

theorem append_slow (key : Bytes) (row : Row) : t.appendFastRowLocked env.slow key row = t := rfl

theorem remove_bare (h : t.fast = []) (key : Bytes) : t.removeFastRowLocked env key = t :=
  if_pos h

theorem replace_bare (h : t.fast = []) (key : Bytes) (row : Row) :
    t.replaceFastRowLocked key row = t :=
  if_pos h

theorem update_bare (h : t.fast = []) (key column : Bytes) (v : Value) :
    t.updateFastRowLocked key column v = t :=
  if_pos h

theorem rekey_bare (h : t.fast = []) (oldKey newKey : Bytes) (v : Value) :
    t.rekeyFastRowLocked oldKey newKey v = t :=
  if_pos h

theorem rebuildIfSparse_bare (h : t.fast = []) : t.rebuildIfSparse env = t :=
  if_neg fun h' => h'.1 h

theorem refreshFast_bare (h : t.fast = []) : t.refreshFast env = t := if_pos h

end Bare

/-! ## Index maintenance -/

def changeIndex (f : Map StrSet → Map StrSet) (column : Bytes) (t : Table) : Table :=
  match t.indexes[column]? with
  | none => t
  | some index => { t with indexes := t.indexes.insert column (f index) }

theorem addIndexValue_eq (column value key : Bytes) :
    t.addIndexValue column value key = t.changeIndex (addToIndex · value key) column := rfl

theorem removeIndexValue_eq (column value key : Bytes) :
    t.removeIndexValue column value key = t.changeIndex (removeFromIndex · value key) column := rfl

theorem changeIndex_eq (f : Map StrSet → Map StrSet) (column : Bytes) :
    t.changeIndex f column = { t with indexes := (t.changeIndex f column).indexes } := by
  unfold changeIndex
  split <;> rfl

theorem get?_changeIndex (f : Map StrSet → Map StrSet) (column c : Bytes) :
    (t.changeIndex f column).indexes[c]? =
      if column = c then t.indexes[c]?.map f else t.indexes[c]? := by
  unfold changeIndex
  split
  · next h =>
    split
    · next hc => rw [← hc, h]; rfl
    · rfl
  · next index h =>
    simp only [Map.get?_insert]
    split
    · next hc => rw [← hc, h]; rfl
    · rfl

theorem foldl_changeIndex (f : Bytes → Map StrSet → Map StrSet) (l : List Bytes)
    (hl : l.Nodup) :
    l.foldl (fun t c => t.changeIndex (f c) c) t =
      { t with indexes := t.indexes.map fun c index => if c ∈ l then f c index else index } := by
  induction l generalizing t with
  | nil =>
    have hsame : (t.indexes.map fun c index => if c ∈ ([] : List Bytes) then f c index else index) =
        t.indexes := by
      apply Map.ext_get?
      intro c
      simp
    rw [hsame]
    rfl
  | cons a l ih =>
    rw [List.nodup_cons] at hl
    rw [List.foldl_cons, ih _ hl.2, changeIndex_eq]
    congr 1
    apply Map.ext_get?
    intro c
    rw [Map.get?_map, Map.get?_map, get?_changeIndex]
    by_cases hc : a = c
    · subst hc
      simp [hl.1, Function.comp_def]
    · simp [hc, Ne.symm hc]

theorem foldl_changeIndex_keys (f : Bytes → Map StrSet → Map StrSet) :
    t.indexes.keys.foldl (fun t c => t.changeIndex (f c) c) t =
      { t with indexes := t.indexes.map f } := by
  rw [foldl_changeIndex t f _ (Map.nodup_keys _)]
  congr 1
  apply Map.ext_get?
  intro c
  rw [Map.get?_map, Map.get?_map]
  cases hc : t.indexes[c]? with
  | none => rfl
  | some index => simp [Map.mem_of_get? hc]

theorem addRowIndexes_eq (row : Row) (key : Bytes) :
    t.addRowIndexes row key =
      { t with indexes := t.indexes.map fun c index =>
          addToIndex index (valueKey (row.get c)) key } :=
  foldl_changeIndex_keys t fun c index => addToIndex index (valueKey (row.get c)) key

theorem removeRowIndexes_eq (row : Row) (key : Bytes) :
    t.removeRowIndexes row key =
      { t with indexes := t.indexes.map fun c index =>
          removeFromIndex index (valueKey (row.get c)) key } :=
  foldl_changeIndex_keys t fun c index => removeFromIndex index (valueKey (row.get c)) key

@[simp] theorem clearFast_changeIndex (f : Map StrSet → Map StrSet) (column : Bytes) :
    (t.changeIndex f column).clearFast = t.clearFast.changeIndex f column := by
  unfold changeIndex
  simp only [clearFast_indexes]
  split <;> rfl

theorem fast_changeIndex (f : Map StrSet → Map StrSet) (column : Bytes) :
    (t.changeIndex f column).fast = t.fast := by
  rw [changeIndex_eq]

/-! ## The elementary changes

What each elementary change does to the rest of a table. -/

theorem appendRow_core (key : Bytes) (row : Row) :
    (t.appendRow env key row).clearFast =
      { t.clearFast with
        rows := t.rows.insert key row
        order := t.order ++ [key]
        indexes := t.indexes.map fun c index => addToIndex index (valueKey (row.get c)) key } := by
  simp only [appendRow, clearFast_append, addRowIndexes_eq]
  rfl

theorem map_map_indexes (f g : Bytes → Map StrSet → Map StrSet) (m : Map (Map StrSet)) :
    (m.map f).map g = m.map fun c index => g c (f c index) := by
  apply Map.ext_get?
  intro c
  simp only [Map.get?_map, Option.map_map]
  rfl

theorem replaceRow_core (key : Bytes) (old row : Row) :
    (t.replaceRow key old row).clearFast =
      { t.clearFast with
        rows := t.rows.insert key row
        indexes := t.indexes.map fun c index =>
          addToIndex (removeFromIndex index (valueKey (old.get c)) key) (valueKey (row.get c))
            key } := by
  simp only [replaceRow, clearFast_replace, removeRowIndexes_eq, addRowIndexes_eq, map_map_indexes]
  rfl

theorem removeRow_core (key : Bytes) (row : Row) :
    (t.removeRow env key row).clearFast =
      { t.clearFast with
        rows := t.rows.erase key
        indexes := t.indexes.map fun c index =>
          removeFromIndex index (valueKey (row.get c)) key } := by
  simp only [removeRow, clearFast_remove, removeRowIndexes_eq]
  rfl

theorem changeIndex_changeIndex (f g : Map StrSet → Map StrSet) (column : Bytes) :
    (t.changeIndex f column).changeIndex g column =
      t.changeIndex (fun index => g (f index)) column := by
  simp only [changeIndex]
  cases h : t.indexes[column]? with
  | none => simp only [h]
  | some index => simp only [Map.get?_insert_self, Map.insert_insert]

theorem setCell_core {key : Bytes} {row : Row} (column : Bytes) (v : Value)
    (h : t.rows[key]? = some row) :
    (t.setCell key column v).clearFast =
      { t.clearFast.changeIndex (fun index =>
          addToIndex (removeFromIndex index (valueKey (row.get column)) key) (valueKey v) key)
          column with
        rows := t.rows.insert key (row.insert column v) } := by
  simp only [setCell, h, clearFast_update, addIndexValue_eq, removeIndexValue_eq,
    changeIndex_changeIndex]
  rw [← clearFast_changeIndex, changeIndex_eq]
  rfl

theorem rekeyPrimary_core {oldKey : Bytes} {row : Row} (v : Value)
    (h : t.rows[oldKey]? = some row) (hne : valueKey v ≠ oldKey) (hfree : valueKey v ∉ t.rows) :
    (t.rekeyPrimaryLocked oldKey v).1 = .ok { affected := 1 } ∧
    (t.rekeyPrimaryLocked oldKey v).2.clearFast =
      { t.clearFast with
        rows := (t.rows.erase oldKey).insert (valueKey v) (row.insert t.primaryColumn v)
        order := t.order.replace oldKey (valueKey v)
        indexes := t.indexes.map fun c index =>
          addToIndex (removeFromIndex index (valueKey (row.get c)) oldKey)
            (valueKey (Row.get (row.insert t.primaryColumn v) c)) (valueKey v) } := by
  have hrow : t.rows.getD oldKey ∅ = row := by rw [Map.getD_eq, h]; rfl
  simp only [rekeyPrimaryLocked, if_neg hne, if_neg hfree, hrow, clearFast_rekey,
    removeRowIndexes_eq, addRowIndexes_eq, map_map_indexes, true_and]
  rfl

theorem reclaimOrder_core :
    (t.reclaimOrder env).clearFast = { t.clearFast with order := t.liveOrder, dead := 0 } := by
  simp only [reclaimOrder]
  split
  · rfl
  · exact clearFast_rebuild env _

/-! ## The operations -/

theorem clearFast_nextSyntheticKey :
    t.clearFast.nextSyntheticKeyLocked =
      (t.nextSyntheticKeyLocked.1, t.nextSyntheticKeyLocked.2.clearFast) := rfl

theorem clearFast_appendRow (key : Bytes) (row : Row) :
    (t.appendRow env key row).clearFast = t.clearFast.appendRow env.slow key row := by
  simp only [appendRow, clearFast_append, append_slow, addRowIndexes_eq]
  rfl

theorem clearFast_replaceRow (key : Bytes) (old row : Row) :
    (t.replaceRow key old row).clearFast = t.clearFast.replaceRow key old row := by
  simp only [replaceRow, clearFast_replace, removeRowIndexes_eq, addRowIndexes_eq]
  rw [replace_bare rfl]
  rfl

theorem clearFast_applyInsertRow (replace : Bool) (item : InsertRow) :
    (applyInsertRow env replace t item).clearFast =
      applyInsertRow env.slow replace t.clearFast item := by
  unfold applyInsertRow
  by_cases hkey : item.key = []
  · simp only [hkey, if_true, clearFast_nextSyntheticKey, clearFast_rows]
    split
    · exact clearFast_replaceRow _ _ _ _
    · exact clearFast_appendRow _ _ _ _
  · simp only [hkey, if_false, clearFast_rows]
    split
    · exact clearFast_replaceRow _ _ _ _
    · exact clearFast_appendRow _ _ _ _

theorem clearFast_reclaimOrder :
    (t.reclaimOrder env).clearFast = t.clearFast.reclaimOrder env.slow := by
  simp only [reclaimOrder, clearFast_fast, if_true]
  split
  · rfl
  · exact clearFast_rebuild env _

theorem clearFast_compactOrder :
    (t.compactOrderLocked env).clearFast = t.clearFast.compactOrderLocked env.slow := by
  unfold compactOrderLocked
  by_cases hempty : t.order = []
  · rw [if_pos hempty, if_pos (c := t.clearFast.order = []) hempty]
    rfl
  · rw [if_neg hempty, if_neg (c := t.clearFast.order = []) hempty]
    by_cases hfew : t.dead * 4 < t.order.length
    · rw [if_pos hfew, if_pos (c := t.clearFast.dead * 4 < t.clearFast.order.length) hfew]
    · rw [if_neg hfew, if_neg (c := t.clearFast.dead * 4 < t.clearFast.order.length) hfew]
      exact clearFast_reclaimOrder env t

theorem clearFast_setCell (key column : Bytes) (v : Value) :
    (t.setCell key column v).clearFast = t.clearFast.setCell key column v := by
  simp only [setCell, clearFast_rows]
  split
  · rfl
  · simp only [clearFast_update, addIndexValue_eq, removeIndexValue_eq]
    rw [update_bare (by simp [fast_changeIndex])]
    simp only [← clearFast_changeIndex]
    rfl

theorem clearFast_removeRow (key : Bytes) (row : Row) :
    (t.removeRow env key row).clearFast = t.clearFast.removeRow env.slow key row := by
  simp only [removeRow, clearFast_remove, removeRowIndexes_eq]
  rw [remove_bare _ rfl]
  rfl

theorem clearFast_deleteKey (key : Bytes) (row : Row) :
    (t.deleteKey env key row).clearFast = t.clearFast.deleteKey env.slow key row := by
  simp only [deleteKey, clearFast_rebuildIfSparse, clearFast_compactOrder, clearFast_remove,
    removeRowIndexes_eq]
  rw [remove_bare _ rfl, rebuildIfSparse_bare]
  · rfl
  · unfold compactOrderLocked reclaimOrder
    split
    · rfl
    · split
      · rfl
      · rfl

end Table

/-- An operation's reply and the table it leaves, the latter without its fast array. -/
def forgetFast (p : Except Fault Result × Table) : Except Fault Result × Table :=
  (p.1, p.2.clearFast)

namespace Table

variable (env : Env) (t : Table)

theorem forgetFast_applyInsertRows (rows : List InsertRow) (replace : Bool) :
    forgetFast (t.applyInsertRows env rows replace) =
      t.clearFast.applyInsertRows env.slow rows replace := by
  have hfold : ∀ t' : Table, (rows.foldl (applyInsertRow env replace) t').clearFast =
      rows.foldl (applyInsertRow env.slow replace) t'.clearFast := fun t' =>
    (List.foldl_hom clearFast fun t item =>
      (clearFast_applyInsertRow env t replace item).symm).symm
  have hcheck : t.clearFast.checkInsertRow = t.checkInsertRow := rfl
  simp only [applyInsertRows, hcheck, Env.slow_applyTick]
  split
  · rfl
  · simp only [forgetFast, hfold]
    by_cases hdead : 0 < t.dead
    · rw [if_pos hdead, if_pos (c := 0 < t.clearFast.dead) hdead, clearFast_reclaimOrder]
    · rw [if_neg hdead, if_neg (c := 0 < t.clearFast.dead) hdead]

theorem forgetFast_rekeyPrimary (oldKey : Bytes) (v : Value) :
    forgetFast (t.rekeyPrimaryLocked oldKey v) = t.clearFast.rekeyPrimaryLocked oldKey v := by
  simp only [rekeyPrimaryLocked]
  by_cases hsame : valueKey v = oldKey
  · simp only [if_pos hsame, forgetFast, clearFast_setCell, clearFast_primaryColumn]
  · rw [if_neg hsame, if_neg hsame]
    by_cases htaken : valueKey v ∈ t.rows
    · rw [if_pos htaken, if_pos (c := valueKey v ∈ t.clearFast.rows) htaken]
      rfl
    · rw [if_neg htaken, if_neg (c := valueKey v ∈ t.clearFast.rows) htaken]
      simp only [forgetFast, clearFast_rekey, removeRowIndexes_eq, addRowIndexes_eq]
      rw [rekey_bare rfl]
      rfl

theorem forgetFast_updatePrimaryMulti (w : Option MutationWhere) (expected : Expected)
    (v : Value) :
    forgetFast (t.updatePrimaryMultiLocked env w expected v) =
      t.clearFast.updatePrimaryMultiLocked env.slow w expected v := by
  have hkeys : t.clearFast.matchingKeys env.slow w expected = t.matchingKeys env w expected := rfl
  simp only [updatePrimaryMultiLocked, hkeys]
  split
  · rfl
  · next key _ =>
    by_cases htaken : valueKey v ∈ t.rows ∧ valueKey v ≠ key
    · rw [if_pos htaken, if_pos (c := valueKey v ∈ t.clearFast.rows ∧ valueKey v ≠ key) htaken]
      rfl
    · rw [if_neg htaken, if_neg (c := valueKey v ∈ t.clearFast.rows ∧ valueKey v ≠ key) htaken]
      exact forgetFast_rekeyPrimary t key v
  · rfl

theorem forgetFast_updateScan (column : Bytes) (v : Value) (w : Option MutationWhere)
    (expected : Expected) :
    forgetFast (t.updateScan env column v w expected) =
      t.clearFast.updateScan env.slow column v w expected := by
  have hstep : ∀ (s : Table × Nat) (key : Bytes),
      Prod.map clearFast id (updateRow column v w expected s key) =
        updateRow column v w expected (Prod.map clearFast id s) key := by
    intro s key
    unfold updateRow
    by_cases hmatch : mutationMatches w expected (s.1.rows.getD key ∅) = true
    · rw [if_pos hmatch, if_pos (c := mutationMatches w expected
        ((Prod.map clearFast id s).1.rows.getD key ∅) = true) hmatch]
      simp only [Prod.map, clearFast_setCell, id]
    · rw [if_neg hmatch, if_neg (c := mutationMatches w expected
        ((Prod.map clearFast id s).1.rows.getD key ∅) = true) hmatch]
  have hloop := rangeLoop_map env.scanTick (Prod.map clearFast id) hstep 0
    (env.order.range t.rows) (t, 0)
  simp only [updateScan, clearFast_rows, Env.slow_scanTick, Env.slow_order]
  rw [show (t.clearFast, 0) = Prod.map clearFast id (t, 0) from rfl, hloop]
  rcases rangeLoop env.scanTick _ 0 _ (t, 0) with ⟨s, _ | f⟩ <;> rfl

theorem forgetFast_update (column : Bytes) (v : Value) (w : Option MutationWhere)
    (expected : Expected) :
    forgetFast (t.update env column v w expected) =
      t.clearFast.update env.slow column v w expected := by
  have hkey : t.clearFast.onPrimaryKey w = t.onPrimaryKey w := rfl
  have hprimary : ∀ {α : Type} (a b : α),
      (if column = t.clearFast.primaryColumn ∧ t.clearFast.primaryColumn ≠ [] then a else b) =
        if column = t.primaryColumn ∧ t.primaryColumn ≠ [] then a else b := fun _ _ => rfl
  simp only [update, hkey]
  split
  · next key _ =>
    by_cases hrow : key ∈ t.rows
    · rw [if_pos hrow, if_pos (c := key ∈ t.clearFast.rows) hrow, hprimary]
      split_ifs
      · exact forgetFast_rekeyPrimary t key v
      · simp only [forgetFast, clearFast_setCell]
    · rw [if_neg hrow, if_neg (c := key ∈ t.clearFast.rows) hrow]
      rfl
  · rw [hprimary]
    split_ifs
    · exact forgetFast_updatePrimaryMulti env t w expected v
    · exact forgetFast_updateScan env t column v w expected

def DeleteScan.clearFast (s : DeleteScan) : DeleteScan := { s with table := s.table.clearFast }

theorem clearFast_deleteRow (w : Option MutationWhere) (expected : Expected) (s : DeleteScan)
    (key : Bytes) :
    (deleteRow env w expected s key).clearFast =
      deleteRow env.slow w expected s.clearFast key := by
  simp only [deleteRow, DeleteScan.clearFast, clearFast_rows]
  split
  · rfl
  · next row _ =>
    by_cases hmatch : mutationMatches w expected row
    · simp only [if_pos hmatch, clearFast_removeRow]
    · simp only [if_neg hmatch]

theorem forgetFast_deleteScan (w : Option MutationWhere) (expected : Expected) :
    forgetFast (t.deleteScan env w expected) = t.clearFast.deleteScan env.slow w expected := by
  have hloop := rangeLoop_map env.scanTick DeleteScan.clearFast
    (clearFast_deleteRow env w expected) 0 t.order { table := t }
  simp only [deleteScan, clearFast_order, Env.slow_scanTick]
  rw [show ({ table := t.clearFast } : DeleteScan) = DeleteScan.clearFast { table := t } from rfl,
    hloop]
  rcases rangeLoop env.scanTick _ 0 _ _ with ⟨s, _ | f⟩
  · simp only [forgetFast, Prod.map, id, clearFast_rebuildIfSparse]
    rw [rebuildIfSparse_bare _ rfl]
    rfl
  · rfl

theorem forgetFast_delete (w : Option MutationWhere) (expected : Expected) :
    forgetFast (t.delete env w expected) = t.clearFast.delete env.slow w expected := by
  have hkey : t.clearFast.onPrimaryKey w = t.onPrimaryKey w := rfl
  simp only [delete, hkey, clearFast_rows]
  split
  · split
    · simp only [forgetFast, clearFast_deleteKey]
    · rfl
  · exact forgetFast_deleteScan env t w expected

theorem clearFast_changeRows (change : Row → Row) :
    t.clearFast.changeRows env.slow change =
      ((t.changeRows env change).1.clearFast, (t.changeRows env change).2) := by
  simp only [changeRows, clearFast_rows, Env.slow_scanTick, Env.slow_order]
  exact rangeLoop_map _ clearFast (fun _ _ => rfl) 0 _ t

theorem forgetFast_addColumn (name : Bytes) (type : ColType) :
    forgetFast (t.addColumn env name type) = t.clearFast.addColumn env.slow name type := by
  unfold addColumn
  by_cases hcol : hasColumn t.columns name = true
  · rw [if_pos hcol, if_pos (c := hasColumn t.clearFast.columns name = true) hcol]
    rfl
  · rw [if_neg hcol, if_neg (c := hasColumn t.clearFast.columns name = true) hcol]
    rw [show ({ t.clearFast with columns := t.clearFast.columns ++ [⟨name, type, false⟩] } :
      Table) =
        ({ t with columns := t.columns ++ [⟨name, type, false⟩] } : Table).clearFast from rfl,
      clearFast_changeRows]
    rcases changeRows env _ _ with ⟨t', _ | f⟩
    · simp only [forgetFast, clearFast_refreshFast]
      rw [refreshFast_bare _ rfl]
    · rfl

theorem forgetFast_dropColumn (column : Bytes) :
    forgetFast (t.dropColumn env column) = t.clearFast.dropColumn env.slow column := by
  unfold dropColumn
  by_cases hone : t.columns.length ≤ 1
  · rw [if_pos hone, if_pos (c := t.clearFast.columns.length ≤ 1) hone]
    rfl
  · rw [if_neg hone, if_neg (c := t.clearFast.columns.length ≤ 1) hone]
    simp only [clearFast_columns]
    split
    · rfl
    · next i hi =>
      rw [show ({ t.clearFast with columns := t.columns.eraseIdx i } : Table) =
          ({ t with columns := t.columns.eraseIdx i } : Table).clearFast from rfl,
        clearFast_changeRows]
      rcases changeRows env _ _ with ⟨t', _ | f⟩
      · simp only [forgetFast, clearFast_refreshFast]
        rw [refreshFast_bare _ rfl]
        rfl
      · rfl

theorem forgetFast_createIndex (indexName column : Bytes) :
    forgetFast (t.createIndex env indexName column) =
      t.clearFast.createIndex env.slow indexName column := by
  have hbuild : t.clearFast.buildIndex env.slow column = t.buildIndex env column := rfl
  unfold createIndex
  rw [hbuild]
  by_cases hcol : (!hasColumn t.columns column) = true
  · rw [if_pos hcol, if_pos (c := (!hasColumn t.clearFast.columns column) = true) hcol]
    rfl
  · rw [if_neg hcol, if_neg (c := (!hasColumn t.clearFast.columns column) = true) hcol]
    by_cases hindex : column ∈ t.indexes
    · rw [if_pos hindex, if_pos (c := column ∈ t.clearFast.indexes) hindex]
      rfl
    · rw [if_neg hindex, if_neg (c := column ∈ t.clearFast.indexes) hindex]
      by_cases hname : indexName ∈ t.indexNames
      · rw [if_pos hname, if_pos (c := indexName ∈ t.clearFast.indexNames) hname]
        rfl
      · rw [if_neg hname, if_neg (c := indexName ∈ t.clearFast.indexNames) hname]
        rcases t.buildIndex env column with ⟨index, _ | f⟩ <;> rfl

theorem forgetFast_dropIndex (indexName : Bytes) :
    forgetFast (t.dropIndex indexName) = t.clearFast.dropIndex indexName := by
  simp only [dropIndex, clearFast_indexNames]
  split
  · rfl
  · by_cases hindex : indexName ∈ t.indexes
    · rw [if_pos hindex, if_pos (c := indexName ∈ t.clearFast.indexes) hindex]
      rfl
    · rw [if_neg hindex, if_neg (c := indexName ∈ t.clearFast.indexes) hindex]
      rfl

end Table

/-- **The fast array does not influence the rest of a table**: an operation replies the same and
leaves the same table, fast array aside, on an engine that never builds one. -/
theorem TableOp.forgetFast_run (env : Env) (t : Table) (op : TableOp) :
    forgetFast (op.run env t) = op.run env.slow t.clearFast := by
  cases op with
  | insert rows replace => exact t.forgetFast_applyInsertRows env rows replace
  | update column v w expected => exact t.forgetFast_update env column v w expected
  | delete w expected => exact t.forgetFast_delete env w expected
  | addColumn name type => exact t.forgetFast_addColumn env name type
  | dropColumn column => exact t.forgetFast_dropColumn env column
  | truncate => rfl
  | createIndex indexName column => exact t.forgetFast_createIndex env indexName column
  | dropIndex indexName => exact t.forgetFast_dropIndex indexName

end SuperDB.Engine
