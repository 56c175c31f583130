import SuperDB.Engine.Verify.Edit

/-!
# Edits without the fast array

What an edit does to the columns, the rows, the order list and the indexes, in closed form. An
invariant of these fields is proved once for each kind of change.
-/

namespace SuperDB.Engine

open Go

namespace Table

/-- A table without one of its rows; the key stays in `order`. -/
def eraseRow (t : Table) (key : Bytes) : Table :=
  { t with
    rows := t.rows.erase key
    indexes := t.indexes.map fun c index =>
      removeFromIndex index (valueKey ((t.rows.getD key ∅).get c)) key }

/-- One change of a table. `ok t key` says that a row of `t` may be moved to `key`. -/
inductive Change (ok : Table → Bytes → Prop) (t : Table) : Table → Prop where
  | append (key : Bytes) (row : Row) (hnew : key ∉ t.rows) (hdead : t.dead = 0) (hkey : key ≠ [])
      (hrow : RowOk t.columns row)
      (hpk : ∀ c ∈ t.columns, c.primary = true → key = valueKey (row.get c.name)) :
      Change ok t
        { t with
          rows := t.rows.insert key row
          order := t.order ++ [key]
          indexes := t.indexes.map fun c index => addToIndex index (valueKey (row.get c)) key }
  | replace (key : Bytes) (old row : Row) (hold : t.rows[key]? = some old)
      (hrow : RowOk t.columns row)
      (hpk : ∀ c ∈ t.columns, c.primary = true → key = valueKey (row.get c.name)) :
      Change ok t
        { t with
          rows := t.rows.insert key row
          indexes := t.indexes.map fun c index =>
            addToIndex (removeFromIndex index (valueKey (old.get c)) key) (valueKey (row.get c))
              key }
  | setCell (key : Bytes) (row : Row) (c : Column) (v : Value) (hrow : t.rows[key]? = some row)
      (hc : c ∈ t.columns) (htype : HasType v c.type) (hpk : c.primary = true → valueKey v = key) :
      Change ok t
        { t.changeIndex (fun index =>
            addToIndex (removeFromIndex index (valueKey (row.get c.name)) key) (valueKey v) key)
            c.name with
          rows := t.rows.insert key (row.insert c.name v) }
  | rekey (key : Bytes) (row : Row) (c : Column) (v : Value) (hrow : t.rows[key]? = some row)
      (hc : c ∈ t.columns) (hprimary : c.primary = true) (htype : HasType v c.type)
      (hne : valueKey v ≠ key) (hfree : valueKey v ∉ t.rows) (hok : ok t (valueKey v)) :
      Change ok t
        { t with
          rows := (t.rows.erase key).insert (valueKey v) (row.insert c.name v)
          order := t.order.replace key (valueKey v)
          indexes := t.indexes.map fun n index =>
            addToIndex (removeFromIndex index (valueKey (row.get n)) key)
              (valueKey (Row.get (row.insert c.name v) n)) (valueKey v) }
  | autoKey (n : Nat) : Change ok t { t with autoKey := n }
  | reclaim : Change ok t { t with order := t.liveOrder, dead := 0 }
  | deleteKey (key : Bytes) (hkey : key ∈ t.rows) :
      Change ok t { t.eraseRow key with dead := t.dead + 1 }
  | deleteScan (gone : List Bytes) (hnodup : gone.Nodup) (hgone : ∀ k ∈ gone, k ∈ t.rows) :
      Change ok t
        { gone.foldl eraseRow t with
          order := t.order.filter fun k => t.rows.contains k && !gone.contains k
          dead := 0 }
  | addColumn (name : Bytes) (type : ColType) (hnew : hasColumn t.columns name = false)
      (hname : name ≠ []) :
      Change ok t
        { t with
          columns := t.columns ++ [⟨name, type, false⟩]
          rows := t.rows.map fun _ row => row.insert name .null }
  | dropColumn (name : Bytes) :
      Change ok t
        { t.forgetIndex name with
          columns := t.columns.filter fun c => c.name != name
          rows := t.rows.map fun _ row => row.erase name }
  | truncate :
      Change ok t
        { t with
          rows := ∅, order := [], indexes := t.indexes.map fun _ _ => ∅, dead := 0, autoKey := 0 }
  | createIndex (indexName column : Bytes) (index : Map StrSet)
      (hcol : hasColumn t.columns column = true) (hindex : Indexes index (t.cellKey column)) :
      Change ok t
        { t with
          indexes := t.indexes.insert column index
          indexNames := t.indexNames.insert indexName column }
  | dropIndex (column : Bytes) : Change ok t (t.forgetIndex column)

abbrev Changes (ok : Table → Bytes → Prop) : Table → Table → Prop :=
  Relation.ReflTransGen (Change ok)

variable {env : Env} {ok : Table → Bytes → Prop} {t : Table}

/-! ## DELETE -/

section Delete

variable {w : Option MutationWhere} {expected : Expected}

theorem removeRow_eraseRow {key : Bytes} {row : Row} (h : t.rows[key]? = some row) :
    (t.removeRow env key row).clearFast = t.clearFast.eraseRow key := by
  have hrow : t.rows.getD key ∅ = row := by rw [Map.getD_eq, h]; rfl
  rw [removeRow_core]
  simp only [eraseRow, clearFast_rows, clearFast_indexes, hrow]

theorem get?_foldl_eraseRow (gone : List Bytes) (k : Bytes) :
    (gone.foldl eraseRow t).rows[k]? = if k ∈ gone then none else t.rows[k]? := by
  induction gone generalizing t with
  | nil => simp
  | cons a gone ih =>
    rw [List.foldl_cons, ih]
    simp only [eraseRow, Map.get?_erase, List.mem_cons]
    by_cases hk : k ∈ gone
    · simp [hk]
    · by_cases ha : a = k
      · simp [ha]
      · simp [hk, ha, Ne.symm ha]

theorem mem_foldl_eraseRow {gone : List Bytes} {k : Bytes} :
    k ∈ (gone.foldl eraseRow t).rows ↔ k ∈ t.rows ∧ k ∉ gone := by
  rw [Map.mem_iff, get?_foldl_eraseRow]
  split
  · next hk => simp [hk]
  · next hk => simp [hk, Map.mem_iff]

def doomed (w : Option MutationWhere) (expected : Expected) (t : Table) (key : Bytes) : Bool :=
  t.rows[key]?.any (mutationMatches w expected)

def kept (w : Option MutationWhere) (expected : Expected) (t : Table) (key : Bytes) : Bool :=
  t.rows[key]?.any fun row => !mutationMatches w expected row

variable (env t w expected) in
/-- A scanning DELETE after the keys `l`: it has removed the doomed rows among them and kept the
others. -/
theorem foldl_deleteRow (l : List Bytes) :
    ∃ gone : List Bytes, gone.Nodup ∧ (∀ k, k ∈ gone ↔ k ∈ l ∧ doomed w expected t k = true) ∧
      (l.foldl (deleteRow env w expected) { table := t }).table.clearFast =
        gone.foldl eraseRow t.clearFast ∧
      (l.foldl (deleteRow env w expected) { table := t }).remaining = l.filter (kept w expected t) ∧
      (l.foldl (deleteRow env w expected) { table := t }).removed = gone.length := by
  -- from the front, since the loop carries its state forward
  induction l using List.reverseRecOn with
  | nil => exact ⟨[], by simp, by simp, rfl, rfl, rfl⟩
  | append_singleton l key ih =>
    obtain ⟨gone, hnodup, hgone, htable, hremaining, hremoved⟩ := ih
    rw [List.foldl_concat]
    generalize l.foldl (deleteRow env w expected) { table := t } = s at htable hremaining hremoved ⊢
    have hget : s.table.rows[key]? = if key ∈ gone then none else t.rows[key]? := by
      rw [← clearFast_rows, htable, get?_foldl_eraseRow, clearFast_rows]
    unfold deleteRow
    cases hrow : t.rows[key]? with
    | none =>
      have hnone : s.table.rows[key]? = none := by rw [hget, hrow]; simp
      simp only [hnone]
      refine ⟨gone, hnodup, fun k => ?_, htable, ?_, hremoved⟩
      · rw [hgone k]
        simp only [List.mem_append, List.mem_singleton]
        have : doomed w expected t key = false := by simp [doomed, hrow]
        grind
      · rw [hremaining, List.filter_append]
        simp [kept, hrow]
    | some row =>
      by_cases hmatch : mutationMatches w expected row = true
      · have hdoomed : doomed w expected t key = true := by simp [doomed, hrow, hmatch]
        have hkept : kept w expected t key = false := by simp [kept, hrow, hmatch]
        by_cases hin : key ∈ gone
        · have hnone : s.table.rows[key]? = none := by rw [hget, if_pos hin]
          simp only [hnone]
          refine ⟨gone, hnodup, fun k => ?_, htable, ?_, hremoved⟩
          · rw [hgone k]
            have := (hgone key).1 hin
            grind
          · rw [hremaining, List.filter_append]
            simp [hkept]
        · have hsome : s.table.rows[key]? = some row := by rw [hget, if_neg hin, hrow]
          simp only [hsome, if_pos hmatch]
          refine ⟨gone ++ [key], ?_, fun k => ?_, ?_, ?_, ?_⟩
          · rw [List.nodup_append]
            refine ⟨hnodup, by simp, fun a ha b hb e => ?_⟩
            rw [e, List.mem_singleton.1 hb] at ha
            exact hin ha
          · simp only [List.mem_append, List.mem_singleton, hgone k]
            grind
          · rw [removeRow_eraseRow hsome, htable, List.foldl_concat]
          · rw [hremaining, List.filter_append]
            simp [hkept]
          · simp [hremoved]
      · have hdoomed : doomed w expected t key = false := by simp [doomed, hrow, hmatch]
        have hkept : kept w expected t key = true := by simp [kept, hrow, hmatch]
        have hin : key ∉ gone := fun hin => by
          rw [((hgone key).1 hin).2] at hdoomed
          cases hdoomed
        have hsome : s.table.rows[key]? = some row := by rw [hget, if_neg hin, hrow]
        simp only [hsome, if_neg hmatch]
        refine ⟨gone, hnodup, fun k => ?_, htable, ?_, hremoved⟩
        · rw [hgone k]
          simp only [List.mem_append, List.mem_singleton]
          grind
        · rw [hremaining, List.filter_append]
          simp [hkept]

theorem deleteScan_changes (henv : env.Live) :
    Changes ok t.clearFast (t.deleteScan env w expected).2.clearFast := by
  obtain ⟨gone, hnodup, hgone, htable, hremaining, -⟩ := foldl_deleteRow env t w expected t.order
  unfold deleteScan
  rw [rangeLoop_eq_foldl henv.scanTick]
  simp only [clearFast_rebuildIfSparse]
  generalize t.order.foldl (deleteRow env w expected) { table := t } = s at htable hremaining
  have hkeep : s.remaining =
      t.order.filter fun k => t.rows.contains k && !gone.contains k := by
    rw [hremaining]
    refine List.filter_congr fun k hk => ?_
    have hiff := hgone k
    simp only [hk, true_and] at hiff
    cases hrow : t.rows[k]? with
    | none => simp [kept, hrow, Std.ExtTreeMap.contains_eq_isSome_getElem?]
    | some row =>
      simp only [doomed, hrow, Option.any_some] at hiff
      simp [kept, hrow, Std.ExtTreeMap.contains_eq_isSome_getElem?, hiff]
  have hend : ({ s.table with order := s.remaining, dead := 0 } : Table).clearFast =
      { gone.foldl eraseRow t.clearFast with
        order := t.order.filter fun k => t.rows.contains k && !gone.contains k
        dead := 0 } := by
    rw [← htable, ← hkeep]
    rfl
  rw [hend]
  refine .single (.deleteScan gone hnodup fun k hk => ?_)
  have := ((hgone k).1 hk).2
  cases hrow : t.rows[k]? with
  | none => simp [doomed, hrow] at this
  | some row => exact Map.mem_of_get? hrow

variable (env t) in
theorem compactOrder_core :
    (t.compactOrderLocked env).clearFast = t.clearFast ∨
      (t.compactOrderLocked env).clearFast =
        { t.clearFast with order := t.liveOrder, dead := 0 } := by
  unfold compactOrderLocked
  split
  · next hempty =>
    have hlive : t.liveOrder = t.order := by simp [liveOrder, hempty]
    rw [hlive]
    exact Or.inr rfl
  · split
    · exact Or.inl rfl
    · exact Or.inr (reclaimOrder_core env t)

theorem deleteKey_changes {key : Bytes} {row : Row} (h : t.rows[key]? = some row) :
    Changes ok t.clearFast (t.deleteKey env key row).clearFast := by
  have hrow : t.rows.getD key ∅ = row := by rw [Map.getD_eq, h]; rfl
  simp only [deleteKey, clearFast_rebuildIfSparse]
  generalize hu : removeFastRowLocked env key _ = u
  have hcore : u.clearFast = { t.clearFast.eraseRow key with dead := t.dead + 1 } := by
    rw [← hu, clearFast_remove, removeRowIndexes_eq]
    simp only [eraseRow, clearFast_rows, hrow]
    rfl
  have hremove : Change ok t.clearFast u.clearFast := by
    rw [hcore]
    exact .deleteKey key (Map.mem_of_get? h)
  rcases compactOrder_core env u with hcompact | hcompact <;> rw [hcompact]
  · exact .single hremove
  · exact .head hremove (.single .reclaim)

end Delete

/-! ## The other edits -/

/-- **An edit is a sequence of changes.** -/
theorem Edit.changes {t' : Table} (henv : env.Live) (hcols : ColumnsOk t.columns)
    (hok : ∀ key, ok t key → ok t.clearFast key) (h : Edit env ok t t') :
    Changes ok t.clearFast t'.clearFast := by
  cases h with
  | append key row hnew hdead hkey hrow hpk =>
    rw [appendRow_core]
    exact .single (.append key row hnew hdead hkey hrow hpk)
  | replace key old row hold hrow hpk =>
    rw [replaceRow_core]
    exact .single (.replace key old row hold hrow hpk)
  | setCell key c v hkey hc htype hpk =>
    obtain ⟨row, hrow⟩ := Map.mem_iff.1 hkey
    rw [setCell_core t c.name v hrow]
    exact .single (.setCell key row c v hrow hc htype hpk)
  | rekey key c v hkey hc hprimary htype hne hfree hallowed =>
    obtain ⟨row, hrow⟩ := Map.mem_iff.1 hkey
    rw [(rekeyPrimary_core t v hrow hne hfree).2, primaryColumn_eq hcols hc hprimary]
    exact .single (.rekey key row c v hrow hc hprimary htype hne hfree (hok _ hallowed))
  | autoKey n => exact .single (.autoKey n)
  | reclaim =>
    rw [reclaimOrder_core]
    exact .single .reclaim
  | deleteKey key row hrow => exact deleteKey_changes hrow
  | deleteScan w expected => exact deleteScan_changes henv
  | addColumn name type hnew hname =>
    rw [clearFast_refreshFast]
    exact .single (.addColumn name type hnew hname)
  | dropColumn name =>
    rw [clearFast_refreshFast]
    exact .single (.dropColumn name)
  | truncate => exact .single .truncate
  | createIndex indexName column index hcol hindex =>
    exact .single (.createIndex indexName column index hcol hindex)
  | dropIndex column => exact .single (.dropIndex column)

theorem Edit.preserves {P : Table → Prop} {t' : Table} (hcore : ∀ u, P u.clearFast ↔ P u)
    (hchange : ∀ u u', P u → Change ok u u' → P u') (henv : env.Live) (hcols : ColumnsOk t.columns)
    (hok : ∀ key, ok t key → ok t.clearFast key) (h : Edit env ok t t') (ht : P t) : P t' := by
  have hall : ∀ u, Changes ok t.clearFast u → P u := by
    intro u hu
    induction hu with
    | refl => exact (hcore t).2 ht
    | tail _ hstep ih => exact hchange _ _ ih hstep
  exact (hcore _).1 (hall _ (h.changes henv hcols hok))

end Table

end SuperDB.Engine
