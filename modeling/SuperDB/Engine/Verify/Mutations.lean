import SuperDB.Engine.Verify.Abort
import SuperDB.Engine.Verify.Insertion

/-!
# DELETE and UPDATE on the list of entries

On the list of the keys and rows of a table in order, DELETE is a filter, and UPDATE of a column
that is not the primary one changes the rows it hits in their places. An equality with the primary
column is answered by a lookup and hits the row of the key; any other condition is decided row by
row.
-/

namespace SuperDB.Engine

open Go

namespace Table

/-- The entries that a mutation hits. -/
def hit (t : Table) (w : Option MutationWhere) (expected : Expected) (p : Bytes × Row) : Bool :=
  match t.onPrimaryKey w with
  | some key => p.1 == key
  | none => mutationMatches w expected p.2

variable {env : Env} {t : Table} {w : Option MutationWhere} {expected : Expected}

theorem get?_of_mem_listing {p : Bytes × Row} (hp : p ∈ t.listing) : t.rows[p.1]? = some p.2 := by
  obtain ⟨k, -, hk⟩ := List.mem_filterMap.1 hp
  obtain ⟨row, hrow, rfl⟩ := Option.map_eq_some_iff.1 hk
  exact hrow

theorem getD_of_get? {k : Bytes} {row : Row} (h : t.rows[k]? = some row) : t.rows.getD k ∅ =
    row := by
  rw [Map.getD_eq, h]
  rfl

theorem countP_listing (honce : ∀ k ∈ t.rows, t.order.count k = 1) (f : Bytes → Row → Bool) :
    t.listing.countP (fun p => f p.1 p.2) = t.rows.keys.countP fun k => f k (t.rows.getD k ∅) := by
  calc t.listing.countP (fun p => f p.1 p.2)
      = t.listing.countP ((fun k => f k (t.rows.getD k ∅)) ∘ Prod.fst) :=
        List.countP_congr
          fun p hp => by simp only [Function.comp, getD_of_get? (get?_of_mem_listing hp)]
    _ = (t.listing.map Prod.fst).countP fun k => f k (t.rows.getD k ∅) := List.countP_map.symm
    _ = t.rows.keys.countP fun k => f k (t.rows.getD k ∅) := by
      rw [listing, keys_entries]
      exact (liveOrder_perm_keys honce).countP_eq _

theorem countP_key (honce : ∀ k ∈ t.rows, t.order.count k = 1) (key : Bytes) :
    t.listing.countP (fun p => p.1 == key) = if key ∈ t.rows then 1 else 0 := by
  rw [countP_listing honce fun k _ => k == key]
  exact (List.Nodup.count (Map.nodup_keys t.rows)).trans (if_congr Map.mem_keys rfl rfl)

/-! ## DELETE -/

theorem listing_clearFast (t : Table) : t.clearFast.listing = t.listing := by
  rw [listing, listing, clearFast_order, clearFast_rows]

theorem listing_deleteKey (key : Bytes) (row : Row) :
    (t.deleteKey env key row).listing = t.listing.filter fun p => !(p.1 == key) := by
  have herase : entries t.order (t.rows.erase key) = t.listing.filter fun p => !(p.1 == key) := by
    refine entries_filterBy (f := fun k _ => !(k == key)) fun a _ => ?_
    rw [Map.get?_erase]
    cases t.rows[a]? <;> grind
  rw [← herase, ← listing_clearFast, deleteKey, clearFast_rebuildIfSparse]
  generalize hu : removeFastRowLocked env key _ = u
  have horder : u.order = t.order := by
    rw [← clearFast_order, ← hu, clearFast_remove, removeRowIndexes_eq]
    rfl
  have hrows : u.rows = t.rows.erase key := by
    rw [← clearFast_rows, ← hu, clearFast_remove, removeRowIndexes_eq]
    rfl
  rcases compactOrder_core env u with hcompact | hcompact <;> rw [hcompact]
  · rw [listing_clearFast, listing, horder, hrows]
  · rw [listing, clearFast_rows, liveOrder, entries_filter, horder, hrows]

theorem deleteScan_refines (henv : env.Live) (honce : ∀ k ∈ t.rows, t.order.count k = 1) :
    (t.deleteScan env w expected).1 =
        .ok { affected := t.listing.countP fun p => mutationMatches w expected p.2 } ∧
      (t.deleteScan env w expected).2.listing =
        t.listing.filter fun p => !mutationMatches w expected p.2 := by
  obtain ⟨gone, hnodup, hgone, htable, hremaining, hremoved⟩ :=
    foldl_deleteRow env t w expected t.order
  unfold deleteScan
  rw [rangeLoop_eq_foldl henv.scanTick]
  simp only
  generalize t.order.foldl (deleteRow env w expected) { table := t } =
    s at htable hremaining hremoved ⊢
  have hrows : ∀ a ∈ t.order,
      s.table.rows[a]? = t.rows[a]?.filter fun row => !mutationMatches w expected row := by
    intro a ha
    rw [← clearFast_rows, htable, get?_foldl_eraseRow, clearFast_rows]
    have hiff := hgone a
    unfold doomed at hiff
    cases hrow : t.rows[a]? <;> grind
  have hkept : s.remaining = t.order.filter (s.table.rows.contains ·) := by
    rw [hremaining]
    refine List.filter_congr fun a ha => ?_
    rw [Std.ExtTreeMap.contains_eq_isSome_getElem?, hrows a ha, kept]
    cases t.rows[a]? <;> grind
  constructor
  · rw [hremoved, countP_listing honce fun _ row => mutationMatches w expected row,
      List.countP_eq_length_filter]
    have hperm :
        gone.Perm (t.rows.keys.filter fun k => mutationMatches w expected (t.rows.getD k ∅)) := by
      refine (List.perm_ext_iff_of_nodup hnodup ((Map.nodup_keys _).filter _)).2 fun k => ?_
      rw [hgone, List.mem_filter, Map.mem_keys, Map.mem_iff, doomed]
      cases hrow : t.rows[k]? with
      | none => simp
      | some row =>
        have hlisted : k ∈ t.order :=
          List.count_pos_iff.1 (honce k (Map.mem_of_get? hrow) ▸ Nat.one_pos)
        simp [hlisted, getD_of_get? hrow]
    rw [hperm.length_eq]
  · rw [← listing_clearFast, clearFast_rebuildIfSparse, listing_clearFast]
    refine (congrArg (entries · s.table.rows) hkept).trans (entries_filter.trans ?_)
    exact entries_filterBy (f := fun _ row => !mutationMatches w expected row) hrows

/-- A table with four rows, and a stale key among them in the order list. -/
def staleAndLive : Table :=
  ((Database.runAll {} (script ["CREATE TABLE t (k INT PRIMARY KEY, v INT)",
    "INSERT INTO t VALUES (1, 7), (2, 7), (3, 8), (4, 7), (5, 8)",
    "DELETE FROM t WHERE k = 2"])).tables[str "t"]?).getD { name := [], columns := [] }

theorem staleAndLive_inStep : staleAndLive.InStep := by
  unfold staleAndLive
  generalize htable : (Database.runAll {} (script _)).tables[str "t"]? = found
  cases found with
  | none => exact InStep.new _ _
  | some t => exact (Database.runAll_inStep (uncancelled_script _) _ t htable).2

/-- The condition `v = 7`, which two of the rows meet. -/
def sevens : Option MutationWhere := some ⟨str "v", str "7", .eq⟩

theorem staleAndLive_sevens : (∀ k ∈ staleAndLive.rows, staleAndLive.order.count k = 1) ∧
    str "v" ≠ staleAndLive.primaryColumn ∧ staleAndLive.order.length = 5 ∧
    staleAndLive.listing.length = 4 ∧
    staleAndLive.listing.countP (staleAndLive.hit sevens (.one (.text (str "7")))) = 2 := by
  decide +kernel

/-- DELETE on the list of the entries of a table. -/
theorem delete_refines (henv : env.Live) (honce : ∀ k ∈ t.rows, t.order.count k = 1) :
    (t.delete env w expected).1 = .ok { affected := t.listing.countP (t.hit w expected) } ∧
      (t.delete env w expected).2.listing = t.listing.filter fun p => !t.hit w expected p := by
  unfold delete hit
  cases t.onPrimaryKey w with
  | none => exact deleteScan_refines henv honce
  | some key =>
    simp only [countP_key honce]
    cases hrow : t.rows[key]? with
    | some row =>
      rw [if_pos (Map.mem_of_get? hrow)]
      exact ⟨rfl, listing_deleteKey key row⟩
    | none =>
      rw [if_neg (Map.not_mem_iff.2 hrow)]
      refine ⟨rfl, (List.filter_eq_self.2 fun p hp => ?_).symm⟩
      have hp := get?_of_mem_listing hp
      grind

theorem delete_refines_staleAndLive :
    staleAndLive.order.length = 5 ∧ staleAndLive.listing.length = 4 ∧
      staleAndLive.listing.countP (staleAndLive.hit sevens (.one (.text (str "7")))) = 2 ∧
      (staleAndLive.delete {} sevens (.one (.text (str "7")))).2.listing =
        staleAndLive.listing.filter fun p => !staleAndLive.hit sevens (.one (.text (str "7"))) p :=
  have ⟨honce, _, horder, hlisting, hhit⟩ := staleAndLive_sevens
  ⟨horder, hlisting, hhit, (delete_refines (fun _ => rfl) honce).2⟩

/-! ## UPDATE -/

section Update

variable {column : Bytes} {v : Value}

theorem setCell_order (key : Bytes) : (t.setCell key column v).order = t.order := by
  cases hrow : t.rows[key]? with
  | none => simp only [setCell, hrow]
  | some row =>
    rw [← clearFast_order, setCell_core t column v hrow, changeIndex_eq]
    rfl

theorem get?_setCell (key k : Bytes) : (t.setCell key column v).rows[k]? =
    t.rows[k]?.map fun row => if k == key then row.insert column v else row := by
  cases hrow : t.rows[key]? with
  | none => cases hk : t.rows[k]? <;> grind [setCell]
  | some row =>
    rw [← clearFast_rows, setCell_core t column v hrow]
    refine (Map.get?_insert t.rows key k (row.insert column v)).trans ?_
    cases hk : t.rows[k]? <;> grind

/-- A scanning UPDATE after the keys `l`. -/
theorem foldl_updateRow {l : List Bytes} (hl : l.Nodup) (n : Nat) :
    (l.foldl (updateRow column v w expected) (t, n)).1.order = t.order ∧
      (∀ k, (l.foldl (updateRow column v w expected) (t, n)).1.rows[k]? = t.rows[k]?.map fun row =>
        if k ∈ l ∧ mutationMatches w expected row then row.insert column v else row) ∧
      (l.foldl (updateRow column v w expected) (t, n)).2 =
        n + l.countP fun k => mutationMatches w expected (t.rows.getD k ∅) := by
  induction l generalizing t n with
  | nil => exact ⟨rfl, fun k => by simp, rfl⟩
  | cons a l ih =>
    obtain ⟨ha, hl⟩ := List.nodup_cons.1 hl
    rw [List.foldl_cons, List.countP_cons]
    by_cases hmatch : mutationMatches w expected (t.rows.getD a ∅) = true
    · have hstep : updateRow column v w expected (t, n) a = (t.setCell a column v, n + 1) :=
        if_pos hmatch
      obtain ⟨horder, hrows, hcount⟩ := @ih (t.setCell a column v) hl (n + 1)
      rw [hstep, horder, hcount, setCell_order, if_pos hmatch]
      refine ⟨rfl, fun k => ?_, ?_⟩
      · rw [hrows, get?_setCell]
        rw [Map.getD_eq] at hmatch
        cases hk : t.rows[k]? <;> grind
      · have hsame : ∀ k ∈ l, (t.setCell a column v).rows.getD k ∅ = t.rows.getD k ∅ := by
          intro k hk
          rw [Map.getD_eq, Map.getD_eq, get?_setCell]
          cases t.rows[k]? <;> grind
        rw [List.countP_congr fun k hk => by rw [hsame k hk]]
        omega
    · have hstep : updateRow column v w expected (t, n) a = (t, n) := if_neg hmatch
      obtain ⟨horder, hrows, hcount⟩ := @ih t hl n
      rw [hstep, horder, hcount, if_neg hmatch]
      refine ⟨rfl, fun k => ?_, rfl⟩
      rw [hrows]
      rw [Map.getD_eq] at hmatch
      cases hk : t.rows[k]? <;> grind

/-- UPDATE of another column than the primary one, on the list of the entries of a table whose fast
array is in step, so that no cell is written past the end of a fast row. -/
theorem update_refines (henv : env.Live) (hstep : t.InStep)
    (honce : ∀ k ∈ t.rows, t.order.count k = 1)
    (hcolumn : ¬(column = t.primaryColumn ∧ t.primaryColumn ≠ [])) :
    t.InRange ∧ (t.update env column v w expected).1 =
      .ok { affected := t.listing.countP (t.hit w expected) } ∧
      (t.update env column v w expected).2.listing =
        t.listing.map fun p => (p.1, if t.hit w expected p then p.2.insert column v else p.2) := by
  refine ⟨hstep.inRange, ?_⟩
  unfold update hit
  cases t.onPrimaryKey w with
  | none =>
    obtain ⟨horder, hrows, hcount⟩ :=
      foldl_updateRow (t := t) (v := v) (w := w) (env.order.nodup_range t.rows) 0
    simp only [if_neg hcolumn, updateScan, rangeLoop_eq_foldl henv.scanTick, listing]
    rw [horder, hcount]
    constructor
    · rw [Nat.zero_add, ← listing, countP_listing honce fun _ row => mutationMatches w expected row,
        (env.order.range_perm t.rows).countP_eq]
    · refine entries_mapBy
        (g := fun _ row => if mutationMatches w expected row then row.insert column v else row)
        fun a _ => (hrows a).trans ?_
      cases ha : t.rows[a]? with
      | none => rfl
      | some row => simp [(env.order.mem_range).2 (Map.mem_of_get? ha)]
  | some key =>
    simp only [if_neg hcolumn, countP_key honce]
    by_cases hkey : key ∈ t.rows
    · rw [if_pos hkey, if_pos hkey]
      refine ⟨rfl, ?_⟩
      simp only [listing, setCell_order]
      exact entries_mapBy fun a _ => get?_setCell key a
    · rw [if_neg hkey, if_neg hkey]
      refine ⟨rfl, (List.map_id' t.listing).symm.trans (List.map_congr_left fun p hp => ?_)⟩
      have hne : p.1 ≠ key := fun heq => hkey (heq ▸ Map.mem_of_get? (get?_of_mem_listing hp))
      simp [hne]

theorem update_refines_staleAndLive :
    staleAndLive.listing.length = 4 ∧
      staleAndLive.listing.countP (staleAndLive.hit sevens (.one (.text (str "7")))) = 2 ∧
      (staleAndLive.update {} (str "v") (.int 9) sevens (.one (.text (str "7")))).2.listing =
        staleAndLive.listing.map fun p => (p.1,
          if staleAndLive.hit sevens (.one (.text (str "7"))) p then p.2.insert (str "v") (.int 9)
            else p.2) :=
  have ⟨honce, hprimary, _, hlisting, hhit⟩ := staleAndLive_sevens
  ⟨hlisting, hhit, (update_refines (fun _ => rfl) staleAndLive_inStep honce
    fun h => hprimary h.1).2.2⟩

end Update

end Table

end SuperDB.Engine
