import SuperDB.Engine.Verify.Step

/-!
# Operations as sequences of edits

An operation that is not cancelled is a sequence of edits of a few kinds: a row is added, replaced,
given a new cell, moved to another key or removed, the order list is cleaned up, or the schema is
changed. Each edit comes with what the operation has checked before it. What every edit preserves,
every operation preserves.
-/

namespace SuperDB.Engine

open Go

variable {items : List InsertRow} {column : Bytes} {v : Value} {w : Option MutationWhere}
  {expected : Expected}

/-! ## The primary column -/

section Primary

variable {t : Table} {c d : Column}

theorem ColumnsOk.eq_of_name {columns : List Column} (h : ColumnsOk columns) (hc : c ∈ columns)
    (hd : d ∈ columns) (hname : c.name = d.name) : c = d :=
  List.inj_on_of_nodup_map h.names_nodup hc hd hname

theorem Table.primaryColumn_eq (h : ColumnsOk t.columns) (hc : c ∈ t.columns)
    (hp : c.primary = true) : t.primaryColumn = c.name := by
  unfold Table.primaryColumn
  split
  · next d hd =>
    rw [h.one_primary d (List.mem_of_find?_eq_some hd) c hc (by simpa using List.find?_some hd) hp]
  · next hnone => exact absurd hp (by simpa using List.find?_eq_none.1 hnone c hc)

theorem Table.exists_primary (h : t.primaryColumn ≠ []) :
    ∃ c ∈ t.columns, c.primary = true ∧ c.name = t.primaryColumn := by
  unfold Table.primaryColumn at h ⊢
  split at h
  · next c hc => exact ⟨c, List.mem_of_find?_eq_some hc, by simpa using List.find?_some hc, rfl⟩
  · exact absurd rfl h

end Primary

namespace Table

/-! ## The edits -/

def cellKey (t : Table) (column key : Bytes) : Option Bytes :=
  t.rows[key]?.map fun row => valueKey (row.get column)

/-- One edit of a table. `ok t key` says that a row of `t` may be moved to `key`. -/
inductive Edit (env : Env) (ok : Table → Bytes → Prop) (t : Table) : Table → Prop where
  | append (key : Bytes) (row : Row) (hnew : key ∉ t.rows) (hdead : t.dead = 0) (hkey : key ≠ [])
      (hrow : RowOk t.columns row)
      (hpk : ∀ c ∈ t.columns, c.primary = true → key = valueKey (row.get c.name)) :
      Edit env ok t (t.appendRow env key row)
  | replace (key : Bytes) (old row : Row) (hold : t.rows[key]? = some old)
      (hrow : RowOk t.columns row)
      (hpk : ∀ c ∈ t.columns, c.primary = true → key = valueKey (row.get c.name)) :
      Edit env ok t (t.replaceRow key old row)
  | setCell (key : Bytes) (c : Column) (v : Value) (hkey : key ∈ t.rows) (hc : c ∈ t.columns)
      (htype : HasType v c.type) (hpk : c.primary = true → valueKey v = key) :
      Edit env ok t (t.setCell key c.name v)
  | rekey (key : Bytes) (c : Column) (v : Value) (hkey : key ∈ t.rows) (hc : c ∈ t.columns)
      (hprimary : c.primary = true) (htype : HasType v c.type) (hne : valueKey v ≠ key)
      (hfree : valueKey v ∉ t.rows) (hok : ok t (valueKey v)) :
      Edit env ok t (t.rekeyPrimaryLocked key v).2
  | autoKey (n : Nat) : Edit env ok t { t with autoKey := n }
  | reclaim : Edit env ok t (t.reclaimOrder env)
  | deleteKey (key : Bytes) (row : Row) (hrow : t.rows[key]? = some row) :
      Edit env ok t (t.deleteKey env key row)
  | deleteScan (w : Option MutationWhere) (expected : Expected) :
      Edit env ok t (t.deleteScan env w expected).2
  | addColumn (name : Bytes) (type : ColType) (hnew : hasColumn t.columns name = false)
      (hname : name ≠ []) :
      Edit env ok t (({ t with
        columns := t.columns ++ [⟨name, type, false⟩]
        rows := t.rows.map fun _ row => row.insert name .null } : Table).refreshFast env)
  | dropColumn (name : Bytes) :
      Edit env ok t (({ t.forgetIndex name with
        columns := t.columns.filter fun c => c.name != name
        rows := t.rows.map fun _ row => row.erase name } : Table).refreshFast env)
  | truncate : Edit env ok t t.truncate.2
  | createIndex (indexName column : Bytes) (index : Map StrSet)
      (hcol : hasColumn t.columns column = true) (hindex : Indexes index (t.cellKey column)) :
      Edit env ok t { t with
        indexes := t.indexes.insert column index
        indexNames := t.indexNames.insert indexName column }
  | dropIndex (column : Bytes) : Edit env ok t (t.forgetIndex column)

theorem Edit.mono {env : Env} {ok ok' : Table → Bytes → Prop} {t t' : Table}
    (h : Edit env ok t t') (hok : ∀ u key, ok u key → ok' u key) : Edit env ok' t t' := by
  cases h with
  | append key row hnew hdead hkey hrow hpk => exact .append key row hnew hdead hkey hrow hpk
  | replace key old row hold hrow hpk => exact .replace key old row hold hrow hpk
  | setCell key c v hkey hc htype hpk => exact .setCell key c v hkey hc htype hpk
  | rekey key c v hkey hc hprimary htype hne hfree hallowed =>
    exact .rekey key c v hkey hc hprimary htype hne hfree (hok _ _ hallowed)
  | autoKey n => exact .autoKey n
  | reclaim => exact .reclaim
  | deleteKey key row hrow => exact .deleteKey key row hrow
  | deleteScan w expected => exact .deleteScan w expected
  | addColumn name type hnew hname => exact .addColumn name type hnew hname
  | dropColumn name => exact .dropColumn name
  | truncate => exact .truncate
  | createIndex indexName column index hcol hindex =>
    exact .createIndex indexName column index hcol hindex
  | dropIndex column => exact .dropIndex column

abbrev Edits (env : Env) (ok : Table → Bytes → Prop) : Table → Table → Prop :=
  Relation.ReflTransGen (Edit env ok)

variable {env : Env} {ok : Table → Bytes → Prop} {t : Table}

/-! ## INSERT -/

theorem applyInsertRow_cases (env : Env) {item : InsertRow} (replace : Bool)
    (hitem : InsertOk t.columns item)
    (hfresh : replace = false → item.key ≠ [] → item.key ∉ t.rows) :
    (∃ old, t.rows[item.key]? = some old ∧
      applyInsertRow env replace t item = t.replaceRow item.key old item.row) ∨
    ∃ n key, key ∉ t.rows ∧ key ≠ [] ∧ (item.key = [] ∨ item.key = key) ∧
      (∀ c ∈ t.columns, c.primary = true → key = valueKey (item.row.get c.name)) ∧
      applyInsertRow env replace t item =
        ({ t with autoKey := n } : Table).appendRow env key item.row := by
  unfold applyInsertRow
  by_cases hkey : item.key = []
  · -- a synthetic key is never in use, so the row is appended
    have hnot := t.nextSyntheticKey_not_mem
    have hnone : (if replace then t.nextSyntheticKeyLocked.2.rows[t.nextSyntheticKeyLocked.1]?
        else none) = none := by
      split
      · exact Map.not_mem_iff.1 hnot
      · rfl
    simp only [if_pos hkey, hnone]
    refine Or.inr ⟨_, _, hnot, t.nextSyntheticKey_ne_nil, Or.inl hkey, fun c hc hp => ?_, rfl⟩
    exact absurd hkey (hitem.key_ne_nil (hasPrimaryColumn_iff.2 ⟨c, hc, hp⟩))
  · simp only [if_neg hkey]
    split
    · next old hold =>
      have hget : t.rows[item.key]? = some old := by
        split at hold
        · exact hold
        · cases hold
      exact Or.inl ⟨old, hget, rfl⟩
    · next hnone =>
      have hnot : item.key ∉ t.rows := by
        split at hnone
        · exact Map.not_mem_iff.2 hnone
        · next hrep => exact hfresh (by simpa using hrep) hkey
      exact Or.inr ⟨t.autoKey, item.key, hnot, hkey, Or.inr rfl, hitem.key_eq, rfl⟩

theorem applyInsertRow_edits {item : InsertRow} (replace : Bool) (hitem : InsertOk t.columns item)
    (hdead : t.dead = 0) (hfresh : replace = false → item.key ≠ [] → item.key ∉ t.rows) :
    Edits env ok t (applyInsertRow env replace t item) := by
  rcases applyInsertRow_cases env replace hitem hfresh with
    ⟨old, hold, hrun⟩ | ⟨n, key, hnew, hne, -, hpk, hrun⟩
  · rw [hrun]
    exact .single (.replace item.key old item.row hold hitem.row hitem.key_eq)
  · rw [hrun]
    exact .head (.autoKey n) (.single (.append key item.row hnew hdead hne hitem.row hpk))

variable (env t) in
theorem applyInsertRow_frame (replace : Bool) (item : InsertRow) :
    (applyInsertRow env replace t item).columns = t.columns ∧
    (applyInsertRow env replace t item).dead = t.dead ∧
    (item.key ≠ [] → ∀ k, k ≠ item.key →
      (k ∈ (applyInsertRow env replace t item).rows ↔ k ∈ t.rows)) := by
  have hcases : (applyInsertRow env replace t item).columns = t.columns ∧
      (applyInsertRow env replace t item).dead = t.dead ∧
      ((item.key ≠ []) → (applyInsertRow env replace t item).rows =
        t.rows.insert item.key item.row) := by
    have hforget := clearFast_applyInsertRow env t replace item
    rw [← clearFast_columns, ← clearFast_dead, ← clearFast_rows, hforget]
    unfold applyInsertRow
    by_cases hkey : item.key = []
    · simp only [if_pos hkey]
      split <;> simp [appendRow, replaceRow, append_slow, replaceFastRowLocked, addRowIndexes_eq,
        removeRowIndexes_eq, nextSyntheticKeyLocked, hkey]
    · simp only [if_neg hkey]
      split <;> simp [appendRow, replaceRow, append_slow, replaceFastRowLocked, addRowIndexes_eq,
        removeRowIndexes_eq]
  refine ⟨hcases.1, hcases.2.1, fun hkey k hk => ?_⟩
  rw [hcases.2.2 hkey, Map.mem_insert]
  exact ⟨fun h => h.resolve_left (Ne.symm hk), Or.inr⟩

def FreshKeys (rows : Map Row) (items : List InsertRow) : Prop :=
  (∀ item ∈ items, item.key ≠ [] → item.key ∉ rows) ∧
    items.Pairwise fun a b => a.key ≠ [] → a.key ≠ b.key

theorem insertRows_edits (replace : Bool) (hitems : ∀ item ∈ items, InsertOk t.columns item)
    (hdead : t.dead = 0) (hfresh : replace = false → FreshKeys t.rows items) :
    Edits env ok t (items.foldl (applyInsertRow env replace) t) := by
  induction items generalizing t with
  | nil => exact .refl
  | cons item items ih =>
    have hitem := hitems item List.mem_cons_self
    obtain ⟨hcolumns, hdead', hrows⟩ := applyInsertRow_frame env t replace item
    refine (applyInsertRow_edits replace hitem hdead fun hr =>
      (hfresh hr).1 item List.mem_cons_self).trans (ih ?_ (hdead'.trans hdead) ?_)
    · rw [hcolumns]
      exact fun i hi => hitems i (List.mem_cons_of_mem _ hi)
    · intro hr
      obtain ⟨hnew, hdistinct⟩ := hfresh hr
      rw [List.pairwise_cons] at hdistinct
      refine ⟨fun i hi hne => ?_, hdistinct.2⟩
      have hkey : item.key ≠ [] := by
        -- a table has a primary column or it has none: the keys of a statement are of one kind
        intro hnil
        have hok := hitems i (List.mem_cons_of_mem _ hi)
        cases hp : hasPrimaryColumn t.columns with
        | true => exact hitem.key_ne_nil hp hnil
        | false => exact hne (hok.key_nil hp)
      rw [hrows hkey i.key (Ne.symm (hdistinct.1 i hi hkey))]
      exact hnew i (List.mem_cons_of_mem _ hi) hne

theorem checkInsertRow_fresh {poll : Nat → Option Fault} {n : Nat} {batch : StrSet}
    (h : (rangeLoop poll t.checkInsertRow n items batch).2 = none) :
    FreshKeys t.rows items ∧ ∀ item ∈ items, item.key ≠ [] → item.key ∉ batch := by
  induction items generalizing n batch with
  | nil => exact ⟨⟨by simp, List.Pairwise.nil⟩, by simp⟩
  | cons item items ih =>
    rw [rangeLoop] at h
    split at h
    · cases h
    · unfold checkInsertRow at h
      by_cases hkey : item.key = []
      · simp only [if_pos hkey] at h
        obtain ⟨⟨hnew, hdistinct⟩, hbatch⟩ := ih h
        refine ⟨⟨?_, List.pairwise_cons.2 ⟨fun _ _ hne => absurd hkey hne, hdistinct⟩⟩, ?_⟩
        · rintro i hi hne
          rcases List.mem_cons.1 hi with rfl | hi
          · exact absurd hkey hne
          · exact hnew i hi hne
        · rintro i hi hne
          rcases List.mem_cons.1 hi with rfl | hi
          · exact absurd hkey hne
          · exact hbatch i hi hne
      · by_cases hdup : item.key ∈ t.rows ∨ item.key ∈ batch
        · simp only [if_neg hkey, if_pos hdup] at h
          cases h
        · simp only [if_neg hkey, if_neg hdup] at h
          obtain ⟨⟨hnew, hdistinct⟩, hbatch⟩ := ih h
          rw [not_or] at hdup
          refine ⟨⟨?_, List.pairwise_cons.2 ⟨?_, hdistinct⟩⟩, ?_⟩
          · rintro i hi hne
            rcases List.mem_cons.1 hi with rfl | hi
            · exact hdup.1
            · exact hnew i hi hne
          · intro i hi hne e
            exact hbatch i hi (e ▸ hne) (Map.mem_insert.2 (Or.inl e))
          · rintro i hi hne
            rcases List.mem_cons.1 hi with rfl | hi
            · exact hdup.2
            · exact fun hmem => hbatch i hi hne (Map.mem_insert.2 (Or.inr hmem))

theorem applyInsertRows_edits (replace : Bool) (hitems : ∀ item ∈ items, InsertOk t.columns item) :
    Edits env ok t (t.applyInsertRows env items replace).2 := by
  unfold applyInsertRows
  split
  · exact .refl
  · next hcheck =>
    have hfresh : replace = false → FreshKeys t.rows items := by
      rintro rfl
      exact (checkInsertRow_fresh hcheck).1
    simp only
    split
    · have hcore := reclaimOrder_core env t
      have hrows : (t.reclaimOrder env).rows = t.rows := by
        rw [← clearFast_rows, hcore]
        rfl
      have hcolumns : (t.reclaimOrder env).columns = t.columns := by
        rw [← clearFast_columns, hcore]
        rfl
      have hdead : (t.reclaimOrder env).dead = 0 := by rw [← clearFast_dead, hcore]
      exact .head .reclaim
        (insertRows_edits replace (by rwa [hcolumns]) hdead (by rwa [hrows]))
    · next hdead => exact insertRows_edits replace hitems (by omega) hfresh

/-! ## UPDATE -/

section Update

variable {c : Column} {v : Value} {w : Option MutationWhere} {expected : Expected}

variable (t) in
theorem setCell_frame (key column : Bytes) (v : Value) :
    (t.setCell key column v).columns = t.columns ∧
      ∀ k, k ∈ (t.setCell key column v).rows ↔ k ∈ t.rows := by
  cases hrow : t.rows[key]? with
  | none =>
    simp [setCell, hrow]
  | some row =>
    rw [← clearFast_columns, ← clearFast_rows, setCell_core t column v hrow, changeIndex_eq]
    refine ⟨rfl, fun k => ?_⟩
    simp only [Map.mem_insert]
    exact or_iff_right_of_imp fun e => e ▸ Map.mem_of_get? hrow

theorem rekeyPrimary_cases {P : Table → Prop} {key : Bytes} (hcols : ColumnsOk t.columns)
    (hc : c ∈ t.columns) (hprimary : c.primary = true) (ht : P t)
    (hset : valueKey v = key → P (t.setCell key c.name v))
    (hmove : valueKey v ≠ key → valueKey v ∉ t.rows → P (t.rekeyPrimaryLocked key v).2) :
    P (t.rekeyPrimaryLocked key v).2 := by
  by_cases hsame : valueKey v = key
  · simp only [rekeyPrimaryLocked, if_pos hsame]
    rw [primaryColumn_eq hcols hc hprimary]
    exact hset hsame
  · by_cases hused : valueKey v ∈ t.rows
    · simp only [rekeyPrimaryLocked, if_neg hsame, if_pos hused]
      exact ht
    · exact hmove hsame hused

theorem updateScan_invariant {P : Table → Prop} (env : Env) (w : Option MutationWhere)
    (expected : Expected) (hset : ∀ u key, P u → u.columns = t.columns → key ∈ u.rows →
      P (u.setCell key c.name v)) (ht : P t) :
    P (t.updateScan env c.name v w expected).2 := by
  have hloop := rangeLoop_invariant env.scanTick
    (P := fun s : Table × Nat => P s.1 ∧ s.1.columns = t.columns ∧ ∀ k, k ∈ s.1.rows ↔ k ∈ t.rows)
    (f := updateRow c.name v w expected) (l := env.order.range t.rows) (s := (t, 0))
    (fun s key hkey hs => ?_) ⟨ht, rfl, fun _ => Iff.rfl⟩ 0
  · unfold updateScan
    split
    · next heq =>
      rw [heq] at hloop
      exact hloop.1
    · next heq =>
      rw [heq] at hloop
      exact hloop.1
  · obtain ⟨hs, hcolumns, hrows⟩ := hs
    unfold updateRow
    split
    · have hframe := setCell_frame s.1 key c.name v
      refine ⟨hset s.1 key hs hcolumns ((hrows key).2 (env.order.mem_range.1 hkey)),
        hframe.1.trans hcolumns, fun k => (hframe.2 k).trans (hrows k)⟩
    · exact ⟨hs, hcolumns, hrows⟩

end Update

end Table

/-- The key of the row that a SET on the primary column is about, if there is one row. -/
def Table.rekeySource (env : Env) (w : Option MutationWhere) (expected : Expected) (t : Table) :
    Option Bytes :=
  match t.onPrimaryKey w with
  | some key => if key ∈ t.rows then some key else none
  | none =>
    match t.matchingKeys env w expected with
    | [key] => some key
    | _ => none

/-- The row that an operation moves to another primary key: its old and its new key. -/
def TableOp.rekeyed (env : Env) (t : Table) : TableOp → Option (Bytes × Bytes)
  | .update column v w expected =>
    if column = t.primaryColumn ∧ t.primaryColumn ≠ [] then
      ((t.rekeySource env w expected).map (·, valueKey v)).filter fun p =>
        p.2 ≠ p.1 ∧ p.2 ∉ t.rows
    else none
  | _ => none

/-- The operation moves the row at `old` to the primary key `new`. -/
def TableOp.Rekeys (env : Env) (t : Table) (op : TableOp) (old new : Bytes) : Prop :=
  op.rekeyed env t = some (old, new)

theorem TableOp.rekeys_update {env : Env} {t : Table} {old new : Bytes} :
    TableOp.Rekeys env t (.update column v w expected) old new ↔
      (column = t.primaryColumn ∧ t.primaryColumn ≠ []) ∧ valueKey v = new ∧ new ≠ old ∧
        new ∉ t.rows ∧ t.rekeySource env w expected = some old := by
  simp only [TableOp.Rekeys, TableOp.rekeyed]
  split
  · next hpk =>
    rw [Option.filter_eq_some_iff, Option.map_eq_some_iff]
    constructor
    · rintro ⟨⟨key, hkey, hpair⟩, hnew⟩
      cases hpair
      simp only [decide_eq_true_eq] at hnew
      exact ⟨hpk, rfl, hnew.1, hnew.2, hkey⟩
    · rintro ⟨-, rfl, hne, hfree, hold⟩
      exact ⟨⟨old, hold, rfl⟩, by simpa using ⟨hne, hfree⟩⟩
  · next hpk => simp [hpk]

theorem Table.rekeySource_mem {env : Env} {t : Table} {key : Bytes}
    (h : t.rekeySource env w expected = some key) : key ∈ t.rows := by
  unfold Table.rekeySource at h
  split at h
  · split at h <;> cases h
    assumption
  · split at h <;> cases h
    next hmatch =>
      have hin : key ∈ t.matchingKeys env w expected := by simp [hmatch]
      exact env.order.mem_range.1 (List.mem_filter.1 hin).1

theorem TableOp.Rekeys.run {env : Env} {t : Table} {op : TableOp} {old new : Bytes}
    (h : op.Rekeys env t old new) :
    ∃ v, valueKey v = new ∧ old ∈ t.rows ∧ new ∉ t.rows ∧ new ≠ old ∧
      op.run env t = t.rekeyPrimaryLocked old v := by
  cases op with
  | update column v w expected =>
    obtain ⟨hpk, hv, hne, hfree, hsource⟩ := TableOp.rekeys_update.1 h
    refine ⟨v, hv, Table.rekeySource_mem hsource, hfree, hne, ?_⟩
    simp only [TableOp.run, Table.update]
    unfold Table.rekeySource at hsource
    cases hkey : t.onPrimaryKey w with
    | some key =>
      simp only [hkey] at hsource
      split at hsource <;> cases hsource
      next hmem => simp only [if_pos hmem, if_pos hpk]
    | none =>
      simp only [hkey] at hsource
      split at hsource <;> cases hsource
      next hkeys =>
        simp only [if_pos hpk, Table.updatePrimaryMultiLocked, hkeys]
        exact if_neg fun hused => hfree (hv ▸ hused.1)
  | _ => cases h

namespace Table

variable {env : Env} {ok : Table → Bytes → Prop} {t : Table}

/-- An UPDATE changes cells of one column, which may not change the key, or moves one row to a free
primary key. -/
theorem update_invariant {P : Table → Prop} {c : Column} (hcols : ColumnsOk t.columns)
    (hc : c ∈ t.columns) (hset : ∀ u key, P u → u.columns = t.columns → key ∈ u.rows →
      (c.primary = true → valueKey v = key) → P (u.setCell key c.name v))
    (hmove : ∀ key, TableOp.Rekeys env t (.update c.name v w expected) key (valueKey v) →
      c.primary = true → P (t.rekeyPrimaryLocked key v).2) (ht : P t) :
    P (t.update env c.name v w expected).2 := by
  have hpk : (c.name = t.primaryColumn ∧ t.primaryColumn ≠ []) ↔ c.primary = true := by
    constructor
    · rintro ⟨hname, hne⟩
      obtain ⟨d, hd, hdp, hdn⟩ := exists_primary hne
      rwa [hcols.eq_of_name hc hd (hname.trans hdn.symm)]
    · intro hp
      have hpc := primaryColumn_eq hcols hc hp
      exact ⟨hpc.symm, hpc ▸ hcols.name_ne_nil c hc⟩
  -- the row that a SET on the primary column is about
  have hrekey : ∀ key, t.rekeySource env w expected = some key → c.primary = true →
      P (t.rekeyPrimaryLocked key v).2 := fun key hsource hp =>
    rekeyPrimary_cases hcols hc hp ht
      (fun hsame => hset t key ht rfl (rekeySource_mem hsource) fun _ => hsame)
      fun hne hfree => hmove key
        (TableOp.rekeys_update.2 ⟨hpk.2 hp, rfl, hne, hfree, hsource⟩) hp
  unfold update
  simp only
  split
  · next key hkey =>
    split
    · next hmem =>
      split
      · next hupd => exact hrekey key (by simp only [rekeySource, hkey, if_pos hmem]) (hpk.1 hupd)
      · next hupd => exact hset t key ht rfl hmem fun hp => absurd (hpk.2 hp) hupd
    · exact ht
  · next hnone =>
    split
    · next hupd =>
      unfold updatePrimaryMultiLocked
      split
      · exact ht
      · next key hmatch =>
        split
        · exact ht
        · exact hrekey key (by simp only [rekeySource, hnone, hmatch]) (hpk.1 hupd)
      · exact ht
    · next hupd =>
      exact updateScan_invariant env w expected
        (fun u key hu hcolumns hkey => hset u key hu hcolumns hkey fun hp => absurd (hpk.2 hp) hupd)
        ht

theorem update_edits (hcols : ColumnsOk t.columns)
    (hop : OpOk t.columns (.update column v w expected))
    (hok : ∀ old new, TableOp.Rekeys env t (.update column v w expected) old new → ok t new) :
    Edits env ok t (t.update env column v w expected).2 := by
  obtain ⟨c, hc, rfl, htype⟩ := hop
  refine update_invariant hcols hc (fun u key hu hcolumns hkey hpk => ?_) (fun key hrekey hp => ?_)
    .refl
  · exact hu.tail (.setCell key c v hkey (hcolumns ▸ hc) htype hpk)
  · obtain ⟨-, -, hne, hfree, hsource⟩ := TableOp.rekeys_update.1 hrekey
    exact .single (.rekey key c v (rekeySource_mem hsource) hc hp htype hne hfree
      (hok key _ hrekey))

/-! ## DELETE -/

theorem delete_edits : Edits env ok t (t.delete env w expected).2 := by
  unfold delete
  split
  · split
    · next row hrow => exact .single (.deleteKey _ row hrow)
    · exact .refl
  · exact .single (.deleteScan w expected)

/-! ## ALTER TABLE -/

theorem foldl_changeRow (change : Row → Row) {l : List Bytes} (hl : l.Nodup)
    (hmem : ∀ k ∈ l, k ∈ t.rows) :
    l.foldl (fun t key => { t with rows := t.rows.insert key (change (t.rows.getD key ∅)) }) t =
      { t with rows := t.rows.map fun k row => if k ∈ l then change row else row } := by
  induction l generalizing t with
  | nil =>
    have hsame : (t.rows.map fun k row => if k ∈ ([] : List Bytes) then change row else row) =
        t.rows := by
      apply Map.ext_get?
      intro k
      simp
    rw [List.foldl_nil, hsame]
  | cons a l ih =>
    rw [List.nodup_cons] at hl
    obtain ⟨row, hrow⟩ := Map.mem_iff.1 (hmem a List.mem_cons_self)
    have hgetD : t.rows.getD a ∅ = row := by rw [Map.getD_eq, hrow]; rfl
    rw [List.foldl_cons, ih hl.2 fun k hk => Map.mem_insert.2 (Or.inr (hmem k
      (List.mem_cons_of_mem _ hk)))]
    congr 1
    apply Map.ext_get?
    intro k
    simp only [Map.get?_map, Map.get?_insert, hgetD]
    by_cases hk : a = k
    · subst hk
      simp [hl.1, hrow]
    · simp [hk, Ne.symm hk]

theorem changeRows_live (henv : env.Live) (change : Row → Row) :
    t.changeRows env change = ({ t with rows := t.rows.map fun _ row => change row }, none) := by
  unfold changeRows
  rw [rangeLoop_eq_foldl henv.scanTick, foldl_changeRow change (env.order.nodup_range _)
    fun k hk => env.order.mem_range.1 hk]
  congr 2
  apply Map.ext_get?
  intro k
  rw [Map.get?_map, Map.get?_map]
  cases hk : t.rows[k]? with
  | none => rfl
  | some row =>
    have hin : k ∈ env.order.range t.rows := env.order.mem_range.2 (Map.mem_of_get? hk)
    simp [hin]

theorem addColumn_edits {name : Bytes} {type : ColType} (henv : env.Live) (hname : name ≠ []) :
    Edits env ok t (t.addColumn env name type).2 := by
  unfold addColumn
  split
  · exact .refl
  · next hnew =>
    rw [changeRows_live henv]
    exact .single (.addColumn name type (by simpa using hnew) hname)

theorem eraseIdx_eq_filter {columns : List Column} {name : Bytes} {i : Nat}
    (hnodup : (columns.map (·.name)).Nodup)
    (h : columns.findIdx? (·.name == name) = some i) :
    columns.eraseIdx i = columns.filter fun c => c.name != name := by
  induction columns generalizing i with
  | nil => simp at h
  | cons c columns ih =>
    rw [List.map_cons, List.nodup_cons] at hnodup
    by_cases hc : c.name = name
    · have hi : i = 0 := by simpa [List.findIdx?_cons, hc, eq_comm] using h
      have hrest : columns.filter (fun c => c.name != name) = columns := by
        rw [List.filter_eq_self]
        intro d hd
        have : d.name ≠ name := fun e => hnodup.1 (hc ▸ e ▸ List.mem_map_of_mem hd)
        simpa using this
      simp [hi, hc, hrest]
    · obtain ⟨j, hj, rfl⟩ : ∃ j, columns.findIdx? (·.name == name) = some j ∧ j + 1 = i := by
        simpa [List.findIdx?_cons, hc] using h
      simp [hc, ih hnodup.2 hj]

theorem dropColumn_edits {name : Bytes} (henv : env.Live) (hcols : ColumnsOk t.columns) :
    Edits env ok t (t.dropColumn env name).2 := by
  unfold dropColumn
  split
  · exact .refl
  · split
    · exact .refl
    · next i hi =>
      rw [changeRows_live henv, eraseIdx_eq_filter hcols.names_nodup hi]
      exact .single (.dropColumn name)

/-! ## Indexes -/

/-- The index built from all rows, whatever the order. -/
theorem foldl_buildIndex (o : MapOrder) (column : Bytes) :
    Indexes ((o.range t.rows).foldl (fun index key =>
        addToIndex index (valueKey ((t.rows.getD key ∅).get column)) key) ∅)
      (t.cellKey column) := by
  have hfold := Indexes.foldl_add (o.nodup_range t.rows)
    (fun key => valueKey ((t.rows.getD key ∅).get column)) Indexes.empty fun _ _ => rfl
  refine hfold.congr fun k => ?_
  by_cases hk : k ∈ t.rows
  · rw [if_pos (o.mem_range.2 hk)]
    obtain ⟨row, hrow⟩ := Map.mem_iff.1 hk
    rw [Map.getD_eq, hrow]
    simp [cellKey, hrow]
  · rw [if_neg fun h => hk (o.mem_range.1 h)]
    simp [cellKey, Map.not_mem_iff.1 hk]

theorem buildIndex_exact {index : Map StrSet} (h : t.buildIndex env column = (index, none)) :
    Indexes index (t.cellKey column) := by
  have hindex : index = (env.order.range t.rows).foldl (fun index key =>
      addToIndex index (valueKey ((t.rows.getD key ∅).get column)) key) ∅ := by
    unfold buildIndex at h
    rcases rangeLoop_foldl env.scanTick (fun index key =>
      addToIndex index (valueKey ((t.rows.getD key ∅).get column)) key) 0
      (env.order.range t.rows) ∅ with ⟨hrun, -⟩ | ⟨k, e, -, -, -, hrun⟩
    · rw [hrun] at h
      exact (Prod.mk.inj h).1.symm
    · rw [hrun] at h
      cases (Prod.mk.inj h).2
  rw [hindex]
  exact foldl_buildIndex env.order column

theorem createIndex_edits {indexName : Bytes} :
    Edits env ok t (t.createIndex env indexName column).2 := by
  unfold createIndex
  split
  · exact .refl
  · next hcol =>
    split
    · exact .refl
    · split
      · exact .refl
      · split
        · exact .refl
        · next index hindex =>
          exact .single (.createIndex indexName column index (by simpa using hcol)
            (buildIndex_exact hindex))

theorem dropIndex_edits {indexName : Bytes} :
    Edits env ok t (t.dropIndex indexName).2 := by
  unfold dropIndex
  split
  · exact .single (.dropIndex _)
  · split
    · exact .single (.dropIndex _)
    · exact .refl

end Table

/-- **An operation that is not cancelled is a sequence of edits.** -/
theorem TableOp.run_edits {env : Env} {ok : Table → Bytes → Prop} {t : Table} {op : TableOp}
    (henv : env.Live) (hcols : ColumnsOk t.columns) (hop : OpOk t.columns op)
    (hok : ∀ old new, op.Rekeys env t old new → ok t new) :
    Table.Edits env ok t (op.run env t).2 := by
  cases op with
  | insert rows replace => exact Table.applyInsertRows_edits replace hop
  | update column v w expected => exact Table.update_edits hcols hop hok
  | delete w expected => exact Table.delete_edits
  | addColumn name type => exact Table.addColumn_edits henv hop
  | dropColumn column => exact Table.dropColumn_edits henv hcols
  | truncate => exact .single .truncate
  | createIndex indexName column => exact Table.createIndex_edits
  | dropIndex indexName => exact Table.dropIndex_edits

theorem TableOp.run_invariant {P : Table → Prop} (ok : Table → Bytes → Prop) {env : Env} {t : Table}
    {op : TableOp} (hedit : ∀ u u', P u → Table.Edit env ok u u' → P u')
    (henv : env.Live) (hcols : ColumnsOk t.columns) (hop : OpOk t.columns op)
    (hok : ∀ old new, op.Rekeys env t old new → ok t new) (ht : P t) : P (op.run env t).2 := by
  have hall : ∀ u, Table.Edits env ok t u → P u := by
    intro u hu
    induction hu with
    | refl => exact ht
    | tail _ hstep ih => exact hedit _ _ ih hstep
  exact hall _ (TableOp.run_edits henv hcols hop hok)

end SuperDB.Engine
