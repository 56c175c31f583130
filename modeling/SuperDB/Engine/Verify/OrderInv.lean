import SuperDB.Go.Lists
import SuperDB.Engine.Verify.Wellformed

/-!
# The order list

`order` lists every key of a table once, together with stale keys that DELETE by primary key left
behind; `dead` counts the stale ones. Moving a row onto a stale key breaks this: the key is then
listed twice, and a scan returns its row twice. A run keeps the invariant exactly if no UPDATE of
it does so.
-/

namespace SuperDB.Engine

open Go

namespace Table

def stale (t : Table) (key : Bytes) : Bool := !t.rows.contains key

theorem stale_iff {t : Table} {key : Bytes} : t.stale key = true ↔ key ∉ t.rows := by
  rw [stale, Bool.not_eq_true', ← Bool.not_eq_true, Std.ExtTreeMap.contains_iff_mem]

theorem stale_eq_false {t : Table} {key : Bytes} (h : key ∈ t.rows) : t.stale key = false := by
  rw [← Bool.not_eq_true, stale_iff]
  exact not_not_intro h

/-- Every key of the rows is in `order` once, and `dead` counts the others. -/
structure OrderInv (t : Table) : Prop where
  once : ∀ k ∈ t.rows, t.order.count k = 1
  dead : t.dead = t.order.countP t.stale

instance (t : Table) : Decidable t.OrderInv :=
  decidable_of_iff ((∀ k ∈ t.rows, t.order.count k = 1) ∧ t.dead = t.order.countP t.stale)
    ⟨fun h => ⟨h.1, h.2⟩, fun h => ⟨h.once, h.dead⟩⟩

namespace OrderInv

variable {t t' : Table}

/-- The keys that a row may be moved to: those that `order` does not list. -/
def Unlisted (t : Table) (key : Bytes) : Prop := key ∉ t.order

theorem new (name : Bytes) (columns : List Column) : OrderInv { name, columns } :=
  ⟨fun k h => by simp at h, rfl⟩

theorem congr (h : t.OrderInv) (hrows : ∀ k, k ∈ t'.rows ↔ k ∈ t.rows)
    (horder : t'.order = t.order) (hdead : t'.dead = t.dead) : t'.OrderInv := by
  refine ⟨fun k hk => horder ▸ h.once k ((hrows k).1 hk), ?_⟩
  rw [hdead, horder, h.dead]
  refine List.countP_congr fun k _ => ?_
  rw [stale_iff, stale_iff, hrows k]

theorem of_live (horder : ∀ k ∈ t.order, k ∈ t.rows) (honce : ∀ k ∈ t.rows, t.order.count k = 1)
    (hdead : t.dead = 0) : t.OrderInv := by
  refine ⟨honce, hdead.trans (List.countP_eq_zero.2 fun k hk => ?_).symm⟩
  simp [stale_eq_false (horder k hk)]

theorem mem_order (h : t.OrderInv) {k : Bytes} (hk : k ∈ t.rows) : k ∈ t.order :=
  List.count_pos_iff.1 (by rw [h.once k hk]; exact Nat.one_pos)

theorem mem_rows_of_dead (h : t.OrderInv) (hdead : t.dead = 0) {k : Bytes} (hk : k ∈ t.order) :
    k ∈ t.rows := by
  have hzero := List.countP_eq_zero.1 (h.dead.symm.trans hdead) k hk
  rwa [stale_iff, not_not] at hzero

theorem append (h : t.OrderInv) {key : Bytes} (hdead : t.dead = 0) (hnew : key ∉ t.rows)
    (hrows : ∀ k, k ∈ t'.rows ↔ key = k ∨ k ∈ t.rows) (horder : t'.order = t.order ++ [key])
    (hdead' : t'.dead = 0) : t'.OrderInv := by
  have hlive := fun k => h.mem_rows_of_dead hdead (k := k)
  refine of_live (fun k hk => ?_) (fun k hk => ?_) hdead'
  · rw [horder, List.mem_append, List.mem_singleton] at hk
    exact (hrows k).2 (hk.symm.imp Eq.symm (hlive k))
  · rw [horder, List.count_append]
    by_cases hkey : key = k
    · subst hkey
      rw [List.count_eq_zero.2 fun hin => hnew (hlive _ hin)]
      simp
    · rw [h.once k (((hrows k).1 hk).resolve_left hkey)]
      simp [hkey]

theorem rekey (h : t.OrderInv) {key new : Bytes} (hkey : key ∈ t.rows) (hnew : Unlisted t new)
    (hrows : ∀ k, k ∈ t'.rows ↔ new = k ∨ key ≠ k ∧ k ∈ t.rows)
    (horder : t'.order = t.order.replace key new) (hdead : t'.dead = t.dead) : t'.OrderInv := by
  obtain ⟨l₁, l₂, hsplit, hreplace, h₁, h₂⟩ := replace_of_count_one (h.once key hkey) new
  have hnot : new ∉ l₁ ∧ new ∉ l₂ := by
    have hnot : new ∉ t.order := hnew
    rw [hsplit] at hnot
    simp only [List.mem_append, List.mem_cons, not_or] at hnot
    exact ⟨hnot.1, hnot.2.2⟩
  rw [hreplace] at horder
  refine ⟨fun k hk => ?_, ?_⟩
  · rw [horder]
    rcases (hrows k).1 hk with rfl | ⟨hk', hk⟩
    · simp [List.count_append, List.count_eq_zero.2 hnot.1, List.count_eq_zero.2 hnot.2]
    · have hcount := h.once k hk
      have hkn : new ≠ k := fun e => by
        subst e
        exact hnew (h.mem_order hk)
      rw [hsplit, List.count_append, List.count_cons_of_ne hk'] at hcount
      rw [List.count_append, List.count_cons_of_ne hkn]
      exact hcount
  · -- off the two keys, staleness is as before
    have hsame : ∀ l : List Bytes, key ∉ l → new ∉ l →
        l.countP t'.stale = l.countP t.stale := by
      intro l hl hl'
      refine List.countP_congr fun k hk => ?_
      have hkk : key ≠ k := fun e => hl (e ▸ hk)
      have hkn : new ≠ k := fun e => hl' (e ▸ hk)
      rw [stale_iff, stale_iff, hrows k]
      simp [hkk, hkn]
    rw [hdead, h.dead, hsplit, horder, List.countP_append, List.countP_append, List.countP_cons,
      List.countP_cons, hsame l₁ h₁ hnot.1, hsame l₂ h₂ hnot.2]
    simp [stale_eq_false hkey, stale_eq_false ((hrows new).2 (Or.inl rfl))]

theorem filter_live (h : t.OrderInv) (keep : Bytes → Bool)
    (hrows : ∀ k, k ∈ t'.rows → k ∈ t.rows ∧ keep k = true)
    (hkeep : ∀ k, keep k = true → k ∈ t'.rows)
    (horder : t'.order = t.order.filter keep) (hdead : t'.dead = 0) : t'.OrderInv := by
  refine of_live (fun k hk => ?_) (fun k hk => ?_) hdead
  · rw [horder] at hk
    exact hkeep k (List.mem_filter.1 hk).2
  · rw [horder, List.count_filter (hrows k hk).2]
    exact h.once k (hrows k hk).1

theorem change (h : t.OrderInv) (hchange : Change Unlisted t t') : t'.OrderInv := by
  cases hchange with
  | append key row hnew hdead _ _ _ =>
    exact h.append hdead hnew (fun k => Map.mem_insert) rfl hdead
  | replace key old row hold _ _ =>
    refine h.congr (fun k => ?_) rfl rfl
    exact Map.mem_insert.trans (or_iff_right_of_imp fun e => e ▸ Map.mem_of_get? hold)
  | setCell key row c v hrow _ _ _ =>
    refine h.congr (fun k => ?_) (by rw [changeIndex_eq]) (by rw [changeIndex_eq])
    exact Map.mem_insert.trans (or_iff_right_of_imp fun e => e ▸ Map.mem_of_get? hrow)
  | rekey key row c v hrow _ _ _ _ _ hok =>
    refine h.rekey (Map.mem_of_get? hrow) hok (fun k => ?_) rfl rfl
    exact Map.mem_insert.trans (or_congr_right Map.mem_erase)
  | autoKey n => exact h.congr (fun _ => Iff.rfl) rfl rfl
  | reclaim =>
    refine h.filter_live (fun k => t.rows.contains k) ?_ ?_ rfl rfl
    · exact fun k hk => ⟨hk, by simpa using hk⟩
    · exact fun k hk => by simpa using hk
  | deleteKey key hkey =>
    have hrows : ∀ k, k ∈ (t.eraseRow key).rows ↔ key ≠ k ∧ k ∈ t.rows := fun k => Map.mem_erase
    refine ⟨fun k hk => h.once k ((hrows k).1 hk).2, ?_⟩
    have hstale : t.order.countP (t.eraseRow key).stale =
        t.order.countP fun k => t.stale k || k == key := by
      refine List.countP_congr fun k _ => ?_
      rw [Bool.or_eq_true, stale_iff, stale_iff, hrows k, beq_iff_eq, eq_comm (a := k)]
      tauto
    have hmore := countP_or_of_count_one (stale_eq_false hkey) (h.once key hkey)
    calc t.dead + 1 = t.order.countP t.stale + 1 := by rw [h.dead]
      _ = t.order.countP (t.eraseRow key).stale := (hstale.trans hmore).symm
  | deleteScan gone _ _ =>
    refine h.filter_live (fun k => t.rows.contains k && !gone.contains k) ?_ ?_ rfl rfl
    · intro k hk
      obtain ⟨hin, hnot⟩ := mem_foldl_eraseRow.1 hk
      exact ⟨hin, by simp [hin, hnot]⟩
    · intro k hk
      simp only [Bool.and_eq_true, Std.ExtTreeMap.contains_iff_mem, Bool.not_eq_true'] at hk
      exact mem_foldl_eraseRow.2 ⟨hk.1, by simpa using hk.2⟩
  | addColumn name type _ _ => exact h.congr (fun k => Std.ExtTreeMap.mem_map) rfl rfl
  | dropColumn name => exact h.congr (fun k => Std.ExtTreeMap.mem_map) rfl rfl
  | truncate => exact of_live (fun k hk => by simp at hk) (fun k hk => by simp at hk) rfl
  | createIndex indexName column index _ _ => exact h.congr (fun _ => Iff.rfl) rfl rfl
  | dropIndex column => exact h.congr (fun _ => Iff.rfl) rfl rfl

theorem edit {env : Env} (h : t.OrderInv) (hwf : t.Wf) (henv : env.Live)
    (hedit : Edit env Unlisted t t') : t'.OrderInv :=
  hedit.preserves (fun _ => ⟨fun h => h.congr (fun _ => Iff.rfl) rfl rfl,
    fun h => h.congr (fun _ => Iff.rfl) rfl rfl⟩) (fun _ _ h hc => h.change hc) henv hwf.columns
    (fun _ h => h) h

theorem rekey_listed (h : t.OrderInv) {env : Env} {op : TableOp} {old new : Bytes}
    (hop : op.Rekeys env t old new) (hlisted : new ∈ t.order) : ¬(op.run env t).2.OrderInv := by
  obtain ⟨v, rfl, hold, hfree, hne, hrun⟩ := hop.run
  obtain ⟨row, hrow⟩ := Map.mem_iff.1 hold
  have hcore := (rekeyPrimary_core t v hrow hne hfree).2
  intro hinv
  have hrows : valueKey v ∈ (op.run env t).2.rows := by
    rw [hrun, ← clearFast_rows, hcore]
    exact Map.mem_insert.2 (Or.inl rfl)
  have horder : (op.run env t).2.order = t.order.replace old (valueKey v) := by
    rw [hrun, ← clearFast_order, hcore]
  have hcount := hinv.once _ hrows
  rw [horder, count_replace_of_ne (h.once old hold) (Ne.symm hne)] at hcount
  have hpos := List.count_pos_iff.2 hlisted
  omega

end OrderInv

/-! ## Scans of the order list -/

section Scan

variable {t : Table} {env : Env} {q : Query}

theorem liveOrder_perm_keys (honce : ∀ k ∈ t.rows, t.order.count k = 1) :
    t.liveOrder.Perm t.rows.keys := by
  have hmem : ∀ k, k ∈ t.liveOrder ↔ k ∈ t.rows := fun k => by
    rw [liveOrder, List.mem_filter, Std.ExtTreeMap.contains_iff_mem]
    refine and_iff_right_of_imp fun hk => ?_
    rw [← List.count_pos_iff, honce k hk]
    exact Nat.one_pos
  have hnodup : t.liveOrder.Nodup := by
    rw [List.nodup_iff_count_le_one]
    intro k
    by_cases hk : k ∈ t.rows
    · rw [liveOrder, List.count_filter (by simpa using hk), honce k hk]
    · rw [List.count_eq_zero.2 fun hin => hk ((hmem k).1 hin)]
      exact Nat.zero_le 1
  exact (List.perm_ext_iff_of_nodup hnodup t.rows.nodup_keys).2 fun k =>
    (hmem k).trans Map.mem_keys.symm

theorem OrderInv.liveOrder_perm (h : t.OrderInv) : t.liveOrder.Perm t.rows.keys :=
  liveOrder_perm_keys h.once

/-- A SELECT of all rows, in any order. -/
def FullSelect (q : Query) : Prop :=
  q.distinct = false ∧ q.tail.cond = [] ∧ q.tail.limit = none ∧ q.tail.offset = 0

/-- A SELECT of all rows that scans `order` returns the row of each key once. -/
def FullScanExact (t : Table) : Prop :=
  ∀ (env : Env) (q : Query), env.Live → env.maxRows = 0 → FullSelect q →
    (t.fast = [] ∨ q.tail.orderColumn ≠ []) →
    ∃ keys : List Bytes, keys.Perm t.rows.keys ∧
      t.selectPlain env q = .ok { columns := q.names, rows := keys.map (t.lineOf q.names) }

theorem rangeLoop_orderStep (henv : env.Live) (hq : FullSelect q) (n : Nat) (l : List Bytes)
    (c : Collected Bytes) :
    rangeLoop env.scanTick (t.orderStep q none []) n l c =
      ({ c with items := (l.filter (t.rows.contains ·)).reverse ++ c.items }, none) := by
  induction l generalizing n c with
  | nil => rfl
  | cons key l ih =>
    simp only [rangeLoop, henv.scanTick]
    cases hrow : t.rows[key]? with
    | none =>
      have hnot : t.rows.contains key = false := by
        rw [Std.ExtTreeMap.contains_eq_isSome_getElem?, hrow]
        rfl
      simp only [orderStep, hrow, ih]
      rw [List.filter_cons_of_neg (by simp [hnot])]
    | some row =>
      have hin : t.rows.contains key = true := by
        rw [Std.ExtTreeMap.contains_eq_isSome_getElem?, hrow]
        rfl
      have hadd : t.addKey q key c = { c with items := key :: c.items } := by
        simp [addKey, Collected.add, hq.1]
      have hstep : t.orderStep q none [] c key = .next { c with items := key :: c.items } := by
        simp [orderStep, hrow, hq.2.1, hadd, reached]
      rw [hstep]
      simp only [ih]
      rw [List.filter_cons_of_pos hin, List.reverse_cons, List.append_assoc]
      rfl

theorem orderedKeys_perm (henv : env.Live) (hdistinct : q.distinct = false) (keys : List Bytes) :
    ∃ keys', keys'.Perm keys ∧ t.orderedKeys env q none keys = .ok keys' := by
  unfold orderedKeys
  split
  · exact ⟨keys, List.Perm.refl _, rfl⟩
  · rw [henv .sort]
    simp only [hdistinct, Bool.false_eq_true, if_false, orderKeys, capEntries]
    refine ⟨_, ?_, rfl⟩
    have hperm := (env.sorter.perm (rankBefore q.tail.descending)
      (keys.zipIdx.map fun p => (⟨p.1, t.orderValue q.tail.orderColumn p.1, p.2⟩ : OrderEntry))).map
        OrderEntry.key
    refine hperm.trans (List.Perm.of_eq ?_)
    rw [List.map_map]
    exact List.zipIdx_map_fst 0 keys

theorem OrderInv.fullScanExact (h : t.OrderInv) : t.FullScanExact := by
  intro env q henv hmax hq hpath
  obtain ⟨hdistinct, hcond, hlimit, hoffset⟩ := hq
  obtain ⟨keys, hperm, hkeys⟩ := orderedKeys_perm (t := t) henv hdistinct t.liveOrder
  refine ⟨keys, hperm.trans h.liveOrder_perm, ?_⟩
  have hcap : rowCap env.maxRows q.tail.limit q.tail.offset = none := by simp [rowCap, hmax, hlimit]
  have hsimple : t.simpleKey q.tail.cond = none := by
    simp [simpleKey, simpleEquality, simpleSides, hcond]
  have hcompile : ∀ term, t.compileFor q term = .ok [] := fun term => by simp [compileFor, hcond]
  have hslow : ¬(t.fast ≠ [] ∧ q.tail.orderColumn = []) := fun hboth =>
    hpath.elim hboth.1 fun hne => hne hboth.2
  have hloop := rangeLoop_orderStep (t := t) henv ⟨hdistinct, hcond, hlimit, hoffset⟩ 0 t.order {}
  have hitems : (t.order.filter (t.rows.contains ·)).reverse.reverse = t.liveOrder :=
    List.reverse_reverse _
  have hscan : t.selectOrder env q none [] =
      .ok { columns := q.names, rows := keys.map (t.lineOf q.names) } := by
    simp only [selectOrder, hloop, List.append_nil]
    change t.finishKeys env q none (t.order.filter (t.rows.contains ·)).reverse.reverse = _
    rw [hitems]
    simp only [finishKeys, hkeys]
    simp [materialize, applyOffset, hoffset, capResultRows, hmax, bind, Except.bind]
  simp only [selectPlain, hcap, hsimple, Option.filter_none]
  rw [hcompile]
  simp only [bind, Except.bind, if_neg hslow]
  exact hscan

end Scan

end Table

/-- **The order list, over whole runs.** In every state of a run each key of a table is listed once,
`dead` counts the stale entries and a full scan returns each row once, exactly if no UPDATE of the
run moves a row onto a key that `order` still lists. -/
theorem Database.order_exact_iff {l : List (Env × Bytes)} (hl : Uncancelled l) :
    (∀ l₁, l₁ <+: l → (Database.runAll {} l₁).All fun t =>
      (∀ k ∈ t.rows, t.order.count k = 1) ∧ t.dead = t.order.countP t.stale ∧ t.FullScanExact) ↔
    Database.Steps (Database.RekeysOk fun t new => new ∉ t.order) {} l := by
  have hiff := Database.runAll_all_iff (P := Table.OrderInv) Table.OrderInv.Unlisted
    (fun name columns _ => Table.OrderInv.new name columns)
    (fun _ _ _ henv hwf h hedit => h.edit hwf henv hedit)
    (fun _ _ _ _ _ _ h hrekey hnot => h.rekey_listed hrekey (not_not.1 hnot)) hl
  refine Iff.trans (forall₂_congr fun l₁ _ => ?_) hiff
  exact ⟨fun h name t ht => ⟨(h name t ht).1, (h name t ht).2.1⟩,
    fun h name t ht => ⟨(h name t ht).once, (h name t ht).dead, (h name t ht).fullScanExact⟩⟩

/-- A DELETE leaves a stale key, and an UPDATE moves a row onto it. -/
def staleRekeyRun : List (Env × Bytes) :=
  script ["CREATE TABLE t (id INT PRIMARY KEY)",
    "INSERT INTO t VALUES (1), (2), (3), (5), (7)",
    "DELETE FROM t WHERE id = 5",
    "UPDATE t SET id = 5 WHERE id = 7"]

/-- The key 5 is then listed twice, and a SELECT returns its row twice. -/
theorem Database.order_staleRekeyRun :
    (∃ t, (Database.runAll {} staleRekeyRun).tables[str "t"]? = some t ∧ str "5" ∈ t.rows ∧
      t.order.count (str "5") = 2) ∧
    ((Database.runAll {} staleRekeyRun).exec {} (str "SELECT id FROM t")).1 =
      .ok { columns := [str "id"]
            rows := [[.int 1], [.int 2], [.int 3], [.int 5], [.int 5]] } := by
  have hsome : ((Database.runAll {} staleRekeyRun).tables[str "t"]?.any
      fun t => t.rows.contains (str "5") && t.order.count (str "5") == 2) =
        true := by decide +kernel
  obtain ⟨t, ht, hboth⟩ := (Option.any_eq_true _ _).1 hsome
  rw [Bool.and_eq_true, beq_iff_eq] at hboth
  exact ⟨⟨t, ht, by simpa using hboth.1, hboth.2⟩, by decide +kernel⟩

def freshRekeyRun : List (Env × Bytes) :=
  script ["CREATE TABLE t (id INT PRIMARY KEY)",
    "INSERT INTO t VALUES (1), (2), (3), (5), (7)",
    "DELETE FROM t WHERE id = 5",
    "UPDATE t SET id = 6 WHERE id = 7"]

theorem Database.order_exact_freshRekeyRun :
    Database.Steps (Database.RekeysOk fun t new => new ∉ t.order) {} freshRekeyRun ∧
    ∀ l₁, l₁ <+: freshRekeyRun → (Database.runAll {} l₁).All fun t =>
      (∀ k ∈ t.rows, t.order.count k = 1) ∧ t.dead = t.order.countP t.stale ∧ t.FullScanExact := by
  have hsteps : Database.Steps (Database.RekeysOk fun t new => new ∉ t.order) {} freshRekeyRun := by
    decide +kernel
  exact ⟨hsteps, (Database.order_exact_iff (uncancelled_script _)).2 hsteps⟩

end SuperDB.Engine
