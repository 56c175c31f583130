import SuperDB.Engine.Verify.Wellformed

/-!
# Primary keys

A row of a table with a primary column is stored under the string of its primary cell, which is not
empty. INSERT checks the latter on both of its paths; an UPDATE of the primary column does not, so
setting it to the empty text stores the row under the empty key. A run keeps the invariant exactly
if no UPDATE of it does so.
-/

namespace SuperDB.Engine

open Go

namespace Table

/-- Each row is stored under its primary key, which is not the empty string. -/
def KeyInv (t : Table) : Prop :=
  ∀ c ∈ t.columns, c.primary = true → ∀ (key : Bytes) (row : Row), t.rows[key]? = some row →
    key = valueKey (row.get c.name) ∧ key ≠ []

namespace KeyInv

variable {t t' : Table}

def NonEmpty (_ : Table) (key : Bytes) : Prop := key ≠ []

theorem new (name : Bytes) (columns : List Column) : KeyInv { name, columns } :=
  fun c _ _ key row h => by simp at h

theorem of_rows (h : t.KeyInv) (hcolumns : t'.columns = t.columns)
    (hrows : ∀ (key : Bytes) (row : Row), t'.rows[key]? = some row → t.rows[key]? = some row) :
    t'.KeyInv := by
  intro c hc hp key row hrow
  rw [hcolumns] at hc
  exact h c hc hp key row (hrows key row hrow)

theorem insert (h : t.KeyInv) (key : Bytes) (row : Row) (hcolumns : t'.columns = t.columns)
    (hkey : ∀ c ∈ t.columns, c.primary = true → key = valueKey (row.get c.name) ∧ key ≠ [])
    (hrows : ∀ k row', t'.rows[k]? = some row' → k = key ∧ row' = row ∨ t.rows[k]? = some row') :
    t'.KeyInv := by
  intro c hc hp k row' hrow
  rw [hcolumns] at hc
  rcases hrows k row' hrow with ⟨rfl, rfl⟩ | hold
  · exact hkey c hc hp
  · exact h c hc hp k row' hold

theorem change (hwf : t.Wf) (h : t.KeyInv) (hchange : Change NonEmpty t t') : t'.KeyInv := by
  cases hchange with
  | append key row _ _ hkey _ hpk =>
    exact h.insert key row rfl (fun c hc hp => ⟨hpk c hc hp, hkey⟩) fun k row' => get?_insert_cases
  | replace key old row hold _ hpk =>
    exact h.insert key row rfl (fun c hc hp => ⟨hpk c hc hp, (h c hc hp key old hold).2⟩)
      fun k row' => get?_insert_cases
  | setCell key row c v hrow hc _ hpk =>
    refine h.insert key (row.insert c.name v) (by rw [changeIndex_eq])
      (fun d hd hp => ⟨?_, (h d hd hp key row hrow).2⟩) fun k row' => get?_insert_cases
    rw [Row.get_insert]
    split
    · next hname =>
      rw [hwf.columns.eq_of_name hc hd hname] at hpk
      exact (hpk hp).symm
    · exact (h d hd hp key row hrow).1
  | rekey key row c v hrow hc hprimary _ _ _ hok =>
    refine h.insert (valueKey v) (row.insert c.name v) rfl (fun d hd hp => ⟨?_, hok⟩)
      fun k row' hk => (get?_insert_cases hk).imp_right fun hold => (get?_erase_some hold).2
    rw [hwf.columns.one_primary d hd c hc hp hprimary, Row.get_insert, if_pos rfl]
  | autoKey n => exact h.of_rows rfl fun _ _ hrow => hrow
  | reclaim => exact h.of_rows rfl fun _ _ hrow => hrow
  | deleteKey key _ => exact h.of_rows rfl fun _ _ hrow => (get?_erase_some hrow).2
  | deleteScan gone _ _ =>
    refine h.of_rows (columns_foldl_eraseRow gone t) fun k row hrow => ?_
    have hget : (gone.foldl eraseRow t).rows[k]? = some row := hrow
    rw [get?_foldl_eraseRow] at hget
    split at hget
    · cases hget
    · exact hget
  | addColumn name type hnew _ =>
    intro c hc hp key row hrow
    rw [Map.get?_map, Option.map_eq_some_iff] at hrow
    obtain ⟨row', hrow', rfl⟩ := hrow
    rcases List.mem_append.1 hc with hc | hc
    · have hne : name ≠ c.name := fun e => by
        rw [e, hasColumn_iff.2 (List.mem_map_of_mem hc)] at hnew
        cases hnew
      rw [Row.get_insert, if_neg hne]
      exact h c hc hp key row' hrow'
    · rw [List.mem_singleton.1 hc] at hp
      cases hp
  | dropColumn name =>
    intro c hc hp key row hrow
    rw [Map.get?_map, Option.map_eq_some_iff] at hrow
    obtain ⟨row', hrow', rfl⟩ := hrow
    obtain ⟨hc, hne⟩ := List.mem_filter.1 hc
    rw [Row.get_erase_of_ne (Ne.symm (bne_iff_ne.1 hne))]
    exact h c hc hp key row' hrow'
  | truncate => exact h.of_rows rfl fun key row hrow => by simp at hrow
  | createIndex indexName column index _ _ => exact h.of_rows rfl fun _ _ hrow => hrow
  | dropIndex column => exact h.of_rows rfl fun _ _ hrow => hrow

theorem edit {env : Env} (h : t.KeyInv) (hwf : t.Wf) (henv : env.Live)
    (hedit : Edit env NonEmpty t t') : t'.KeyInv := by
  have hboth := hedit.preserves (P := fun u => u.Wf ∧ u.KeyInv)
    (fun _ => and_congr ⟨fun h => h.congr rfl rfl, fun h => h.congr rfl rfl⟩ Iff.rfl)
    (fun _ _ h hc => ⟨h.1.change hc, h.2.change h.1 hc⟩) henv hwf.columns (fun _ h => h) ⟨hwf, h⟩
  exact hboth.2

theorem rekey_empty {env : Env} {op : TableOp} {old : Bytes} (hop : op.Rekeys env t old []) :
    ¬(op.run env t).2.KeyInv := by
  have hprimary : t.primaryColumn ≠ [] := by
    cases op with
    | update column v w expected => exact (TableOp.rekeys_update.1 hop).1.2
    | _ => cases hop
  obtain ⟨v, hv, hold, hfree, hne, hrun⟩ := hop.run
  obtain ⟨row, hrow⟩ := Map.mem_iff.1 hold
  obtain ⟨c, hc, hp, -⟩ := exists_primary hprimary
  have hcore := (rekeyPrimary_core t v hrow (hv ▸ hne) (hv ▸ hfree)).2
  intro hinv
  have hcolumns : (op.run env t).2.columns = t.columns := by
    rw [hrun, ← clearFast_columns, hcore]
    rfl
  have hstored : (op.run env t).2.rows[([] : Bytes)]? = some (row.insert t.primaryColumn v) := by
    rw [hrun, ← clearFast_rows, hcore, hv, Map.get?_insert_self]
  exact (hinv c (hcolumns ▸ hc) hp [] _ hstored).2 rfl

theorem unique (h : t.KeyInv) {c : Column} (hc : c ∈ t.columns) (hp : c.primary = true)
    {k k' : Bytes} {row row' : Row} (hk : t.rows[k]? = some row) (hk' : t.rows[k']? = some row')
    (hsame : row.get c.name = row'.get c.name) : k = k' := by
  rw [(h c hc hp k row hk).1, (h c hc hp k' row' hk').1, hsame]

end KeyInv

end Table

/-- **Primary keys, over whole runs.** In every state of a run each row of a table with a primary
column is stored under the string of its primary cell, that string is not empty and no two rows
have the same primary cell, exactly if no UPDATE of the run moves a row to the empty key. -/
theorem Database.primary_keys_iff {l : List (Env × Bytes)} (hl : Uncancelled l) :
    (∀ l₁, l₁ <+: l → (Database.runAll {} l₁).All fun t =>
      ∀ pk ∈ t.columns, pk.primary = true →
        (∀ (key : Bytes) (row : Row), t.rows[key]? = some row →
          key = valueKey (row.get pk.name) ∧ key ≠ []) ∧
        ∀ (k k' : Bytes) (row row' : Row), t.rows[k]? = some row → t.rows[k']? = some row' →
          row.get pk.name = row'.get pk.name → k = k') ↔
    Database.Steps (Database.RekeysOk fun _ new => new ≠ []) {} l := by
  have hiff := Database.runAll_all_iff (P := Table.KeyInv) Table.KeyInv.NonEmpty
    (fun name columns _ => Table.KeyInv.new name columns)
    (fun _ _ _ henv hwf h hedit => h.edit hwf henv hedit)
    (fun _ _ _ _ new _ _ hrekey hnot => by
      obtain rfl : new = [] := not_not.1 hnot
      exact Table.KeyInv.rekey_empty hrekey) hl
  refine Iff.trans (forall₂_congr fun l₁ _ => ?_) hiff
  exact ⟨fun h name t ht c hc hp => (h name t ht c hc hp).1,
    fun h name t ht c hc hp => ⟨h name t ht c hc hp, fun k k' row row' hk hk' hsame =>
      (h name t ht).unique hc hp hk hk' hsame⟩⟩

def emptyKeyRun : List (Env × Bytes) :=
  script ["CREATE TABLE t (id TEXT PRIMARY KEY)",
    "INSERT INTO t VALUES ('')",
    "INSERT INTO t VALUES ('a')",
    "UPDATE t SET id = '' WHERE id = 'a'"]

theorem Database.primary_keys_emptyKeyRun :
    ∃ t, (Database.runAll {} emptyKeyRun).tables[str "t"]? = some t ∧ t.primaryColumn = str "id" ∧
      ([] : Bytes) ∈ t.rows := by
  have hsome : ((Database.runAll {} emptyKeyRun).tables[str "t"]?.any
      fun t => t.primaryColumn == str "id" && t.rows.contains []) = true := by decide +kernel
  obtain ⟨t, ht, hboth⟩ := (Option.any_eq_true _ _).1 hsome
  rw [Bool.and_eq_true, beq_iff_eq] at hboth
  exact ⟨t, ht, hboth.1, by simpa using hboth.2⟩

def keyedRun : List (Env × Bytes) :=
  script ["CREATE TABLE t (id TEXT PRIMARY KEY, v INT)",
    "INSERT INTO t VALUES ('a', 1), ('b', 2)",
    "INSERT OR REPLACE INTO t SELECT v, v FROM t WHERE v = 2",
    "UPDATE t SET id = 'c' WHERE v = 1",
    "UPDATE t SET id = 'd' WHERE id = 'b'"]

theorem Database.primary_keys_keyedRun :
    Database.Steps (Database.RekeysOk fun _ new => new ≠ []) {} keyedRun ∧
    ∀ l₁, l₁ <+: keyedRun → (Database.runAll {} l₁).All fun t =>
      ∀ pk ∈ t.columns, pk.primary = true →
        (∀ (key : Bytes) (row : Row), t.rows[key]? = some row →
          key = valueKey (row.get pk.name) ∧ key ≠ []) ∧
        ∀ (k k' : Bytes) (row row' : Row), t.rows[k]? = some row → t.rows[k']? = some row' →
          row.get pk.name = row'.get pk.name → k = k' := by
  have hsteps : Database.Steps (Database.RekeysOk fun _ new => new ≠ []) {} keyedRun := by
    decide +kernel
  exact ⟨hsteps, (Database.primary_keys_iff (uncancelled_script _)).2 hsteps⟩

end SuperDB.Engine
