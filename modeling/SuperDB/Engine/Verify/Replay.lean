import SuperDB.Engine.Verify.Edit
import SuperDB.Engine.Verify.Clone

/-!
# Replaying statements

A statement that is executed a second time, in another order of map iteration and on a copy of the
database, does the same again once it has been read to the same operation. Two facts carry this.
The loops over a map change each row on its own, so their rounds commute. And what a copy leaves
out, the maps of a table without a fast array, is never looked at by an operation.
-/

namespace SuperDB.Engine

open Go

variable {t : Table} {k k' : Bytes}

/-- Two environments that differ in the order of map iteration, the sorting algorithm and the row
cap only; neither is cancelled. -/
structure Env.Twin (env env' : Env) : Prop where
  live : env.Live
  live' : env'.Live
  threshold : env.threshold = env'.threshold

namespace Table

/-! ## The order of map iteration -/

section Order

theorem changeIndex_map (f : Map StrSet → Map StrSet) (column : Bytes) (t : Table) :
    t.changeIndex f column =
      { t with indexes := t.indexes.map fun c index => if column = c then f index else index } := by
  rw [changeIndex_eq]
  congr 1
  apply Map.ext_get?
  intro c
  rw [get?_changeIndex, Map.get?_map]
  split
  · rfl
  · cases t.indexes[c]? <;> rfl

def moveEntry (column key : Bytes) (old v : Value) (c : Bytes) (index : Map StrSet) : Map StrSet :=
  if column = c then addToIndex (removeFromIndex index (valueKey old) key) (valueKey v) key
  else index

def fastSetCell (key column : Bytes) (v : Value) (t : Table) : List FastRow :=
  match t.fastColumns[column]?, t.fastPos[key]? with
  | some c, some i => t.fast.modify i fun r => { r with values := r.values.set c v }
  | _, _ => t.fast

theorem updateFast_eq (key column : Bytes) (v : Value) (t : Table) :
    t.updateFastRowLocked key column v = { t with fast := t.fastSetCell key column v } := by
  unfold updateFastRowLocked fastSetCell
  by_cases hfast : t.fast = []
  · cases t.fastColumns[column]? <;> cases t.fastPos[key]? <;> simp [hfast] <;> rw [← hfast]
  · rw [if_neg hfast]
    cases t.fastColumns[column]? <;> cases t.fastPos[key]? <;> rfl

theorem setCell_eq {key : Bytes} {row : Row} (column : Bytes) (v : Value)
    (h : t.rows[key]? = some row) :
    t.setCell key column v =
      { t with
        rows := t.rows.insert key (row.insert column v)
        indexes := t.indexes.map (moveEntry column key (row.get column) v)
        fast := t.fastSetCell key column v } := by
  simp only [setCell, h, addIndexValue_eq, removeIndexValue_eq, changeIndex_changeIndex]
  rw [changeIndex_map, updateFast_eq]
  rfl

theorem setCell_none {key : Bytes} (column : Bytes) (v : Value) (h : t.rows[key]? = none) :
    t.setCell key column v = t := by
  simp only [setCell, h]

theorem moveEntry_comm (h : k ≠ k') (column : Bytes) (old old' v : Value) (c : Bytes)
    (index : Map StrSet) :
    moveEntry column k' old' v c (moveEntry column k old v c index) =
      moveEntry column k old v c (moveEntry column k' old' v c index) := by
  unfold moveEntry
  split
  · rw [← removeFromIndex_addToIndex_comm h.symm, addToIndex_comm, removeFromIndex_comm,
      removeFromIndex_addToIndex_comm h]
  · rfl

theorem setCell_comm (h : k ≠ k') (column : Bytes) (v : Value) (t : Table) :
    (t.setCell k column v).setCell k' column v = (t.setCell k' column v).setCell k column v := by
  cases hk : t.rows[k]? with
  | none =>
    rw [setCell_none column v hk]
    cases hk' : t.rows[k']? with
    | none => rw [setCell_none column v hk', setCell_none column v hk]
    | some row' =>
      refine (setCell_none column v ?_).symm
      rw [setCell_eq column v hk', Map.get?_insert_of_ne h.symm, hk]
  | some row =>
    cases hk' : t.rows[k']? with
    | none =>
      rw [setCell_none column v hk']
      refine setCell_none column v ?_
      rw [setCell_eq column v hk, Map.get?_insert_of_ne h, hk']
    | some row' =>
      have hget : (t.setCell k column v).rows[k']? = some row' := by
        rw [setCell_eq column v hk, Map.get?_insert_of_ne h, hk']
      have hget' : (t.setCell k' column v).rows[k]? = some row := by
        rw [setCell_eq column v hk', Map.get?_insert_of_ne h.symm, hk]
      rw [setCell_eq column v hget, setCell_eq column v hget', setCell_eq column v hk,
        setCell_eq column v hk']
      congr 1
      · exact Map.insert_comm _ _ _ h
      · simp only [map_map_indexes]
        congr 1
        funext c index
        exact moveEntry_comm h column _ _ v c index
      · -- the positions may coincide, but the change is the same
        unfold fastSetCell
        cases t.fastColumns[column]? with
        | none => rfl
        | some c =>
          cases t.fastPos[k]? with
          | none => cases t.fastPos[k']? <;> rfl
          | some i =>
            cases t.fastPos[k']? with
            | none => rfl
            | some j =>
              by_cases hij : i = j
              · rw [hij]
              · exact List.modify_modify_ne _ _ _ hij

theorem get?_setCell_of_ne (h : k ≠ k') (column : Bytes) (v : Value) (t : Table) :
    (t.setCell k column v).rows[k']? = t.rows[k']? := by
  cases hk : t.rows[k]? with
  | none => rw [setCell_none column v hk]
  | some row => rw [setCell_eq column v hk, Map.get?_insert_of_ne h]

theorem updateRow_comm (column : Bytes) (v : Value) (w : Option MutationWhere)
    (expected : Expected) (s : Table × Nat) (k k' : Bytes) :
    updateRow column v w expected (updateRow column v w expected s k) k' =
      updateRow column v w expected (updateRow column v w expected s k') k := by
  by_cases h : k = k'
  · rw [h]
  · have hrow : (s.1.setCell k column v).rows.getD k' ∅ = s.1.rows.getD k' ∅ := by
      rw [Map.getD_eq, Map.getD_eq, get?_setCell_of_ne h]
    have hrow' : (s.1.setCell k' column v).rows.getD k ∅ = s.1.rows.getD k ∅ := by
      rw [Map.getD_eq, Map.getD_eq, get?_setCell_of_ne (Ne.symm h)]
    by_cases hm : mutationMatches w expected (s.1.rows.getD k ∅) = true <;>
      by_cases hm' : mutationMatches w expected (s.1.rows.getD k' ∅) = true <;>
      simp [updateRow, hm, hm', hrow, hrow', setCell_comm h]

variable {env env' : Env} {t : Table}

theorem range_perm_range {V : Type} (o o' : MapOrder) (m : Map V) : (o.range m).Perm (o'.range m) :=
  (o.range_perm m).trans (o'.range_perm m).symm

theorem updateScan_twin (h : env.Twin env') (column : Bytes) (v : Value)
    (w : Option MutationWhere) (expected : Expected) :
    t.updateScan env column v w expected = t.updateScan env' column v w expected := by
  have hfold := (range_perm_range env.order env'.order t.rows).foldl_eq'
    (fun k _ k' _ s => updateRow_comm column v w expected s k k') (t, 0)
  simp only [updateScan, rangeLoop_eq_foldl h.live.scanTick, rangeLoop_eq_foldl h.live'.scanTick,
    hfold]

theorem updatePrimaryMulti_order (env env' : Env) (w : Option MutationWhere) (expected : Expected)
    (v : Value) :
    t.updatePrimaryMultiLocked env w expected v = t.updatePrimaryMultiLocked env' w expected v := by
  have hperm : (t.matchingKeys env w expected).Perm (t.matchingKeys env' w expected) :=
    (range_perm_range _ _ t.rows).filter _
  unfold updatePrimaryMultiLocked
  rcases hkeys : t.matchingKeys env w expected with _ | ⟨key, _ | ⟨key', l⟩⟩ <;>
    rw [hkeys] at hperm
  · rw [List.nil_perm.1 hperm]
  · rw [List.singleton_perm.1 hperm]
  · rcases hkeys' : t.matchingKeys env' w expected with _ | ⟨a, _ | ⟨b, l'⟩⟩
    · simpa [hkeys'] using hperm.length_eq
    · simpa [hkeys'] using hperm.length_eq
    · rfl

theorem update_twin (h : env.Twin env') (column : Bytes) (v : Value) (w : Option MutationWhere)
    (expected : Expected) :
    t.update env column v w expected = t.update env' column v w expected := by
  simp only [update, updateScan_twin h, updatePrimaryMulti_order env env']

theorem createIndex_twin (h : env.Twin env') (indexName column : Bytes) :
    t.createIndex env indexName column = t.createIndex env' indexName column := by
  have hfold := (range_perm_range env.order env'.order t.rows).foldl_eq'
    (f := fun index key => addToIndex index (valueKey ((t.rows.getD key ∅).get column)) key)
    (fun k _ k' _ index => addToIndex_comm) ∅
  have hbuild : t.buildIndex env column = t.buildIndex env' column := by
    simp only [buildIndex, rangeLoop_eq_foldl h.live.scanTick, rangeLoop_eq_foldl h.live'.scanTick,
      hfold]
  simp only [createIndex, hbuild]

/-! ## The threshold -/

theorem below_twin (h : env.Twin env') : env.below = env'.below := by
  funext n
  simp only [Env.below, h.threshold]

theorem rebuild_twin (h : env.Twin env') :
    t.rebuildFastPathLocked env = t.rebuildFastPathLocked env' := by
  simp only [rebuildFastPathLocked, below_twin h]

theorem refreshFast_twin (h : env.Twin env') : t.refreshFast env = t.refreshFast env' := by
  simp only [refreshFast, rebuild_twin h]

theorem reclaimOrder_twin (h : env.Twin env') : t.reclaimOrder env = t.reclaimOrder env' := by
  simp only [reclaimOrder, rebuild_twin h]

theorem rebuildIfSparse_twin (h : env.Twin env') :
    t.rebuildIfSparse env = t.rebuildIfSparse env' := by
  simp only [rebuildIfSparse, rebuild_twin h]

theorem removeFast_twin (h : env.Twin env') (key : Bytes) :
    t.removeFastRowLocked env key = t.removeFastRowLocked env' key := by
  simp only [removeFastRowLocked, below_twin h]

theorem applyInsertRow_twin (h : env.Twin env') (replace : Bool) :
    applyInsertRow env replace = applyInsertRow env' replace := by
  funext t item
  simp only [applyInsertRow, appendRow, appendFastRowLocked, below_twin h, rebuild_twin h]

theorem applyInsertRows_twin (h : env.Twin env') (rows : List InsertRow) (replace : Bool) :
    t.applyInsertRows env rows replace = t.applyInsertRows env' rows replace := by
  have hpoll : env.applyTick = env'.applyTick := by
    funext n
    rw [h.live.applyTick, h.live'.applyTick]
  simp only [applyInsertRows, hpoll, applyInsertRow_twin h, reclaimOrder_twin h]

theorem scanTick_twin (h : env.Twin env') : env.scanTick = env'.scanTick := by
  funext n
  rw [h.live.scanTick, h.live'.scanTick]

theorem delete_twin (h : env.Twin env') (w : Option MutationWhere) (expected : Expected) :
    t.delete env w expected = t.delete env' w expected := by
  simp only [delete, deleteKey, deleteScan, deleteRow, removeRow, compactOrderLocked,
    scanTick_twin h, removeFast_twin h, reclaimOrder_twin h, rebuildIfSparse_twin h]

theorem addColumn_twin (h : env.Twin env') (name : Bytes) (type : ColType) :
    t.addColumn env name type = t.addColumn env' name type := by
  simp only [addColumn, changeRows_live h.live, changeRows_live h.live', refreshFast_twin h]

theorem dropColumn_twin (h : env.Twin env') (column : Bytes) :
    t.dropColumn env column = t.dropColumn env' column := by
  simp only [dropColumn, changeRows_live h.live, changeRows_live h.live', refreshFast_twin h]

end Order

end Table

theorem TableOp.run_twin {env env' : Env} (h : env.Twin env') (t : Table) (op : TableOp) :
    op.run env t = op.run env' t := by
  cases op with
  | insert rows replace => exact Table.applyInsertRows_twin h rows replace
  | update column v w expected => exact Table.update_twin h column v w expected
  | delete w expected => exact Table.delete_twin h w expected
  | addColumn name type => exact Table.addColumn_twin h name type
  | dropColumn column => exact Table.dropColumn_twin h column
  | truncate => rfl
  | createIndex indexName column => exact Table.createIndex_twin h indexName column
  | dropIndex indexName => rfl

/-! ## Copies -/

namespace Table

section Copies

variable {env : Env} {t t' : Table}

theorem cloneLocked_bare (h : t.fast = []) : t.cloneLocked = t.clearFast := if_pos h

theorem cloneLocked_of_ne (h : t.fast ≠ []) : t.cloneLocked = t := if_neg h

theorem clearFast_cloneLocked (t : Table) : t.cloneLocked.clearFast = t.clearFast := by
  by_cases h : t.fast = []
  · rw [cloneLocked_bare h, clearFast_clearFast]
  · rw [cloneLocked_of_ne h]

theorem cloneLocked_cloneLocked (t : Table) : t.cloneLocked.cloneLocked = t.cloneLocked := by
  by_cases h : t.fast = []
  · rw [cloneLocked_bare h]
    rfl
  · rw [cloneLocked_of_ne h, cloneLocked_of_ne h]

theorem cloneLocked_eq_of_bare (h : t.fast = []) (h' : t'.fast = [])
    (hclear : t.clearFast = t'.clearFast) : t.cloneLocked = t'.cloneLocked := by
  rw [cloneLocked_bare h, cloneLocked_bare h', hclear]

/-! An operation other than INSERT leaves a table without a fast array without one. -/

theorem setCell_bare (h : t.fast = []) (key column : Bytes) (v : Value) :
    (t.setCell key column v).fast = [] := by
  cases hk : t.rows[key]? with
  | none => rw [setCell_none column v hk, h]
  | some row =>
    rw [setCell_eq column v hk]
    simp only [fastSetCell, h]
    cases t.fastColumns[column]? <;> cases t.fastPos[key]? <;> simp

theorem fast_eq_nil {u : Table} (e : u = t) (h : t.fast = []) : u.fast = [] := e ▸ h

theorem rekeyPrimary_bare (h : t.fast = []) (oldKey : Bytes) (v : Value) :
    (t.rekeyPrimaryLocked oldKey v).2.fast = [] := by
  simp only [rekeyPrimaryLocked]
  split_ifs
  · exact setCell_bare h _ _ _
  · exact h
  · simp only [removeRowIndexes_eq, addRowIndexes_eq]
    refine fast_eq_nil (rekey_bare ?_ _ _ _) ?_ <;> exact h

theorem update_bare_fast (h : t.fast = []) (column : Bytes) (v : Value) (w : Option MutationWhere)
    (expected : Expected) : (t.update env column v w expected).2.fast = [] := by
  have hscan : (t.updateScan env column v w expected).2.fast = [] := by
    have hloop := rangeLoop_invariant env.scanTick (P := fun s : Table × Nat => s.1.fast = [])
      (f := updateRow column v w expected) (l := env.order.range t.rows) (s := (t, 0))
      (fun s key _ hs => by
        unfold updateRow
        split_ifs
        · exact setCell_bare hs _ _ _
        · exact hs) h 0
    unfold updateScan
    split <;> next heq => rw [heq] at hloop; exact hloop
  have hmulti : (t.updatePrimaryMultiLocked env w expected v).2.fast = [] := by
    unfold updatePrimaryMultiLocked
    split
    · exact h
    · split_ifs
      · exact h
      · exact rekeyPrimary_bare h _ _
    · exact h
  simp only [update]
  split
  · split_ifs
    · exact rekeyPrimary_bare h _ _
    · exact setCell_bare h _ _ _
    · exact h
  · split_ifs
    · exact hmulti
    · exact hscan

theorem compactOrder_bare (env : Env) (h : t.fast = []) : (t.compactOrderLocked env).fast = [] := by
  unfold compactOrderLocked
  split_ifs
  · exact h
  · exact h
  · exact fast_eq_nil (if_pos h) h

theorem removeFast_bare (env : Env) (key : Bytes) (h : t.fast = []) :
    (t.removeFastRowLocked env key).fast = [] :=
  fast_eq_nil (remove_bare env h key) h

theorem removeRow_bare (h : t.fast = []) (key : Bytes) (row : Row) :
    (t.removeRow env key row).fast = [] := by
  rw [removeRow, removeRowIndexes_eq]
  exact removeFast_bare env key h

theorem delete_bare (h : t.fast = []) (w : Option MutationWhere) (expected : Expected) :
    (t.delete env w expected).2.fast = [] := by
  have hkey : ∀ key row, (t.deleteKey env key row).fast = [] := by
    intro key row
    simp only [deleteKey, removeRowIndexes_eq]
    refine fast_eq_nil (rebuildIfSparse_bare env ?_) ?_ <;>
      exact compactOrder_bare env (removeFast_bare env key h)
  have hscan : (t.deleteScan env w expected).2.fast = [] := by
    have hloop := rangeLoop_invariant env.scanTick (P := fun s : DeleteScan => s.table.fast = [])
      (f := deleteRow env w expected) (l := t.order) (s := { table := t })
      (fun s key _ hs => by
        unfold deleteRow
        split
        · exact hs
        · split_ifs
          · exact removeRow_bare hs _ _
          · exact hs) h 0
    unfold deleteScan
    split
    · next heq =>
      rw [heq] at hloop
      exact hloop
    · next heq =>
      rw [heq] at hloop
      exact fast_eq_nil (rebuildIfSparse_bare env hloop) hloop
  unfold delete
  split
  · split
    · exact hkey _ _
    · exact h
  · exact hscan

theorem changeRows_fast (env : Env) (change : Row → Row) (t : Table) :
    (t.changeRows env change).1.fast = t.fast :=
  rangeLoop_invariant env.scanTick (P := fun u : Table => u.fast = t.fast)
    (f := fun u key => { u with rows := u.rows.insert key (change (u.rows.getD key ∅)) })
    (fun _ _ _ hu => hu) rfl 0

theorem addColumn_bare (h : t.fast = []) (name : Bytes) (type : ColType) :
    (t.addColumn env name type).2.fast = [] := by
  unfold addColumn
  split_ifs
  · exact h
  · have hrows := changeRows_fast env (fun row => row.insert name .null)
      { t with columns := t.columns ++ [⟨name, type, false⟩] }
    split
    · next heq =>
      rw [heq] at hrows
      exact hrows.trans h
    · next heq =>
      rw [heq] at hrows
      exact fast_eq_nil (refreshFast_bare env (hrows.trans h)) (hrows.trans h)

theorem dropColumn_bare (h : t.fast = []) (column : Bytes) :
    (t.dropColumn env column).2.fast = [] := by
  unfold dropColumn
  split_ifs
  · exact h
  · split
    · exact h
    · next i _ =>
      have hrows := changeRows_fast env (fun row => row.erase column)
        { t with columns := t.columns.eraseIdx i }
      split
      · next heq =>
        rw [heq] at hrows
        exact hrows.trans h
      · next heq =>
        rw [heq] at hrows
        exact fast_eq_nil (refreshFast_bare env (hrows.trans h)) (hrows.trans h)

theorem rebuild_clearFast (env : Env) (t : Table) :
    t.clearFast.rebuildFastPathLocked env = t.rebuildFastPathLocked env := rfl

theorem appendFast_clone (env : Env) (key : Bytes) (row : Row) (h : t.fast = []) :
    (t.clearFast.appendFastRowLocked env key row).cloneLocked =
      (t.appendFastRowLocked env key row).cloneLocked := by
  simp only [appendFastRowLocked, h, clearFast_order, clearFast_fast, true_or, if_true,
    rebuild_clearFast]
  split
  · exact cloneLocked_eq_of_bare rfl h rfl
  · rfl

theorem appendRow_clone (env : Env) (key : Bytes) (row : Row) (h : t.fast = []) :
    (t.clearFast.appendRow env key row).cloneLocked = (t.appendRow env key row).cloneLocked := by
  simp only [appendRow, addRowIndexes_eq]
  refine Eq.trans ?_ (appendFast_clone env key row ?_)
  · rfl
  · exact h

theorem replaceRow_bare (key : Bytes) (old row : Row) (h : t.fast = []) :
    (t.replaceRow key old row).fast = [] := by
  simp only [replaceRow, removeRowIndexes_eq, addRowIndexes_eq]
  refine fast_eq_nil (replace_bare ?_ _ _) ?_ <;> exact h

theorem replaceRow_clone (key : Bytes) (old row : Row) (h : t.fast = []) :
    (t.clearFast.replaceRow key old row).cloneLocked = (t.replaceRow key old row).cloneLocked := by
  refine cloneLocked_eq_of_bare (replaceRow_bare key old row rfl) (replaceRow_bare key old row h) ?_
  rw [clearFast_replaceRow, clearFast_replaceRow, clearFast_clearFast]

theorem applyInsertRow_clone (env : Env) (replace : Bool) (t : Table) (item : InsertRow) :
    (applyInsertRow env replace t.cloneLocked item).cloneLocked =
      (applyInsertRow env replace t item).cloneLocked := by
  by_cases h : t.fast = []
  · rw [cloneLocked_bare h]
    unfold applyInsertRow
    by_cases hkey : item.key = []
    · simp only [hkey, if_true, clearFast_nextSyntheticKey, clearFast_rows]
      split
      · refine replaceRow_clone _ _ _ ?_
        exact h
      · refine appendRow_clone _ _ _ ?_
        exact h
    · simp only [hkey, if_false, clearFast_rows]
      split
      · exact replaceRow_clone _ _ _ h
      · exact appendRow_clone _ _ _ h
  · rw [cloneLocked_of_ne h]

theorem foldl_applyInsertRow_clone (env : Env) (replace : Bool) (rows : List InsertRow)
    (h : t.cloneLocked = t'.cloneLocked) :
    (rows.foldl (applyInsertRow env replace) t).cloneLocked =
      (rows.foldl (applyInsertRow env replace) t').cloneLocked := by
  induction rows generalizing t t' with
  | nil => exact h
  | cons item rows ih =>
    refine ih ?_
    rw [← applyInsertRow_clone, h, applyInsertRow_clone]

theorem applyInsertRows_clone (env : Env) (rows : List InsertRow) (replace : Bool)
    (h : t.fast = []) :
    (t.clearFast.applyInsertRows env rows replace).1 = (t.applyInsertRows env rows replace).1 ∧
    (t.clearFast.applyInsertRows env rows replace).2.cloneLocked =
      (t.applyInsertRows env rows replace).2.cloneLocked := by
  have hcheck : t.clearFast.checkInsertRow = t.checkInsertRow := rfl
  have hreclaim : (t.clearFast.reclaimOrder env).cloneLocked =
      (t.reclaimOrder env).cloneLocked := by
    refine cloneLocked_eq_of_bare rfl (fast_eq_nil (if_pos h) h) ?_
    rw [reclaimOrder_core, reclaimOrder_core]
    rfl
  simp only [applyInsertRows, hcheck]
  split
  · exact ⟨rfl, cloneLocked_eq_of_bare rfl h rfl⟩
  · refine ⟨rfl, foldl_applyInsertRow_clone env replace rows ?_⟩
    by_cases hdead : 0 < t.dead
    · rw [if_pos hdead, if_pos (c := 0 < t.clearFast.dead) hdead]
      exact hreclaim
    · rw [if_neg hdead, if_neg (c := 0 < t.clearFast.dead) hdead]
      exact cloneLocked_eq_of_bare rfl h rfl

end Copies

end Table

theorem TableOp.run_bare {env : Env} {op : TableOp}
    (hop : ∀ rows replace, op ≠ .insert rows replace) (h : t.fast = []) :
    (op.run env t).2.fast = [] := by
  cases op with
  | insert rows replace => exact absurd rfl (hop rows replace)
  | update column v w expected => exact Table.update_bare_fast h column v w expected
  | delete w expected => exact Table.delete_bare h w expected
  | addColumn name type => exact Table.addColumn_bare h name type
  | dropColumn column => exact Table.dropColumn_bare h column
  | truncate => rfl
  | createIndex indexName column =>
    simp only [TableOp.run, Table.createIndex]
    split_ifs
    · exact h
    · exact h
    · exact h
    · split <;> exact h
  | dropIndex indexName =>
    simp only [TableOp.run, Table.dropIndex]
    split
    · exact h
    · split_ifs <;> exact h

theorem TableOp.run_clone (env : Env) (t : Table) (op : TableOp) :
    (op.run env t.cloneLocked).1 = (op.run env t).1 ∧
    (op.run env t.cloneLocked).2.cloneLocked = (op.run env t).2.cloneLocked := by
  by_cases h : t.fast = []
  · rw [Table.cloneLocked_bare h]
    by_cases hop : ∃ rows replace, op = .insert rows replace
    · obtain ⟨rows, replace, rfl⟩ := hop
      exact Table.applyInsertRows_clone env rows replace h
    · have hop' : ∀ rows replace, op ≠ .insert rows replace := fun rows replace e =>
        hop ⟨rows, replace, e⟩
      have hrun := op.forgetFast_run env t
      rw [← Table.clearFast_clearFast, ← op.forgetFast_run env t.clearFast] at hrun
      have hparts := Prod.mk.inj hrun
      exact ⟨hparts.1.symm,
        Table.cloneLocked_eq_of_bare (run_bare hop' rfl) (run_bare hop' h) hparts.2.symm⟩
  · rw [Table.cloneLocked_of_ne h]
    exact ⟨rfl, rfl⟩

end SuperDB.Engine
