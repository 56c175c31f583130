import SuperDB.Engine.Image
import SuperDB.Go.Lists
import SuperDB.Engine.Verify.Idle
import SuperDB.Engine.Verify.OrderInv

/-!
# A restored database

What `UnmarshalJSON` builds is consistent, and it does not depend on the order of map iteration if
the order lists of the image have all rows. The tables show what those of the image show exactly if
no row was listed twice.
-/

namespace SuperDB.Engine

open Go

/-! ## Texts -/

theorem Map.map_self {V : Type} {m : Map V} {f : Bytes → V → V}
    (h : ∀ (k : Bytes) (v : V), m[k]? = some v → f k v = v) : m.map f = m := by
  refine Map.ext_get? fun k => ?_
  rw [Map.get?_map]
  cases hk : m[k]? with
  | none => rfl
  | some v => rw [Option.map_some, h k v hk]

theorem Value.wire_eq {v : Value} (h : ∀ s ∈ v.texts, toValidUTF8 s = s) : v.wire = v := by
  cases v with
  | text s => exact congrArg Value.text (h s List.mem_cons_self)
  | _ => rfl

theorem Table.wire_eq {t : Table} (h : ∀ s ∈ t.texts, toValidUTF8 s = s) : t.wire = t := by
  simp only [Table.texts, List.mem_append, List.mem_cons, List.mem_map, List.mem_flatMap,
    Prod.exists, Std.ExtTreeMap.mem_toList_iff_getElem?_eq_some, List.not_mem_nil, or_false] at h
  have hcolumns : t.columns.map (fun c => { c with name := toValidUTF8 c.name }) = t.columns := by
    refine (List.map_congr_left fun c hc => ?_).trans (List.map_id _)
    rw [h c.name (by grind)]
    rfl
  have horder : t.order.map toValidUTF8 = t.order :=
    (List.map_congr_left fun k hk => h k (by grind)).trans (List.map_id _)
  have hrow : ∀ (key : Bytes) (row : Row), t.rows[key]? = some row →
      Map.wire (row.map fun _ v => v.wire) = row := by
    intro key row hkey
    rw [Map.map_self fun c v hc => Value.wire_eq fun s hs => h s (by grind)]
    exact Map.wire_eq fun c hc => by
      obtain ⟨v, hv⟩ := Map.mem_iff.1 hc
      exact h c (by grind)
  have hrows : Map.wire (t.rows.map fun _ row => Map.wire (row.map fun _ v => v.wire)) =
      t.rows := by
    rw [Map.map_self hrow]
    refine Map.wire_eq fun key hkey => ?_
    obtain ⟨row, hrow⟩ := Map.mem_iff.1 hkey
    exact h key (by grind)
  have hindexes : t.indexes.wire = t.indexes :=
    Map.wire_eq fun c hc => h c (by rw [← Map.mem_keys] at hc; grind)
  have hnames : Map.wire (t.indexNames.map fun _ c => toValidUTF8 c) = t.indexNames := by
    rw [Map.map_self fun n c hn => h c (by grind)]
    refine Map.wire_eq fun n hn => ?_
    obtain ⟨c, hc⟩ := Map.mem_iff.1 hn
    exact h n (by grind)
  have hname : toValidUTF8 t.name = t.name := h t.name (by grind)
  simp only [Table.wire, hname, hcolumns, horder, hrows, hindexes, hnames]

theorem wireImage_eq {image : Map Table} (h : validTexts image = true) : wireImage image =
    image := by
  simp only [validTexts, imageTexts, List.all_eq_true, decide_eq_true_eq, List.mem_flatMap,
    Prod.exists, Std.ExtTreeMap.mem_toList_iff_getElem?_eq_some, List.mem_cons] at h
  rw [wireImage, Map.map_self fun name t ht => Table.wire_eq fun s hs => h s ⟨name, t, ht, .inr hs⟩]
  refine Map.wire_eq fun name hname => ?_
  obtain ⟨t, ht⟩ := Map.mem_iff.1 hname
  exact h name ⟨name, t, ht, .inl rfl⟩

namespace Table

/-! ## Listed rows -/

/-- The order list misses no row. -/
def Listed (t : Table) : Prop := ∀ key ∈ t.rows, key ∈ t.order

namespace Listed

variable {t t' : Table}

theorem congr (h : t.Listed) (hrows : ∀ k, k ∈ t'.rows ↔ k ∈ t.rows)
    (horder : t'.order = t.order) : t'.Listed := fun k hk => horder ▸ h k ((hrows k).1 hk)

theorem change (h : t.Listed) (hchange : Change (fun _ _ => True) t t') : t'.Listed := by
  cases hchange with
  | append key row _ _ _ _ _ =>
    intro k hk
    rcases Map.mem_insert.1 hk with rfl | hk
    · exact List.mem_append_right _ List.mem_cons_self
    · exact List.mem_append_left _ (h k hk)
  | replace key old row hold _ _ =>
    refine h.congr (fun k => ?_) rfl
    exact Map.mem_insert.trans (or_iff_right_of_imp fun e => e ▸ Map.mem_of_get? hold)
  | setCell key row c v hrow _ _ _ =>
    refine h.congr (fun k => ?_) (by rw [changeIndex_eq])
    exact Map.mem_insert.trans (or_iff_right_of_imp fun e => e ▸ Map.mem_of_get? hrow)
  | rekey key row c v hrow _ _ _ _ _ _ =>
    intro k hk
    refine mem_replace (h key (Map.mem_of_get? hrow)) ?_
    rcases Map.mem_insert.1 hk with hnew | hk
    · exact Or.inl hnew.symm
    · obtain ⟨hne, hk⟩ := Map.mem_erase.1 hk
      exact Or.inr ⟨h k hk, Ne.symm hne⟩
  | autoKey n => exact h.congr (fun _ => Iff.rfl) rfl
  | reclaim =>
    intro k hk
    exact List.mem_filter.2 ⟨h k hk, Std.ExtTreeMap.contains_iff_mem.2 hk⟩
  | deleteKey key _ =>
    intro k hk
    exact h k (Map.mem_erase.1 hk).2
  | deleteScan gone _ _ =>
    intro k hk
    obtain ⟨hin, hnot⟩ := mem_foldl_eraseRow.1 hk
    exact List.mem_filter.2 ⟨h k hin, by simp [hin, hnot]⟩
  | addColumn name type _ _ => exact h.congr (fun k => Std.ExtTreeMap.mem_map) rfl
  | dropColumn name => exact h.congr (fun k => Std.ExtTreeMap.mem_map) rfl
  | truncate => exact fun k hk => by simp at hk
  | createIndex indexName column index _ _ => exact h.congr (fun _ => Iff.rfl) rfl
  | dropIndex column => exact h.congr (fun _ => Iff.rfl) rfl

theorem edit {env : Env} (h : t.Listed) (hwf : t.Wf) (henv : env.Live)
    (hedit : Edit env (fun _ _ => True) t t') : t'.Listed :=
  hedit.preserves (fun _ => Iff.rfl) (fun _ _ h hc => h.change hc) henv hwf.columns
    (fun _ h => h) h

end Listed

/-! ## The parts of a restored table -/

section Restored

variable {env env' : Env} {t : Table}

theorem foldl_relist (l : List Bytes) :
    l.foldl t.relist [] = (l.filter (t.rows.contains ·)).eraseDups :=
  (foldl_relistBy (t.rows.contains ·) l []).trans (by simp)

theorem mem_foldl_relist {l : List Bytes} {k : Bytes} :
    k ∈ l.foldl t.relist [] ↔ k ∈ l ∧ k ∈ t.rows := by
  rw [foldl_relist, List.mem_eraseDups, List.mem_filter, Std.ExtTreeMap.contains_iff_mem]

theorem restoredOrder_eq (h : t.Listed) (env : Env) :
    t.restoredOrder env = t.order.foldl t.relist [] := by
  have hnone : (env.order.range t.rows).filter
      (fun key => !(t.order.foldl t.relist []).contains key) = [] := by
    rw [List.filter_eq_nil_iff]
    intro k hk
    have hrow := env.order.mem_range.1 hk
    simpa using mem_foldl_relist.2 ⟨h k hrow, hrow⟩
  simp only [restoredOrder, hnone, List.append_nil]

theorem restoredIndex_exact (env : Env) (t : Table) (column : Bytes) :
    Indexes (t.restoredIndex env column) (t.cellKey column) :=
  foldl_buildIndex env.order column

@[simp] theorem rows_restored : (t.restored env).rows = t.rows := by
  unfold restored rebuildFastPathLocked
  split <;> rfl

@[simp] theorem columns_restored : (t.restored env).columns = t.columns := by
  unfold restored rebuildFastPathLocked
  split <;> rfl

@[simp] theorem indexNames_restored : (t.restored env).indexNames = t.indexNames := by
  unfold restored rebuildFastPathLocked
  split <;> rfl

theorem indexes_restored :
    (t.restored env).indexes = t.indexes.map fun column _ => t.restoredIndex env column := by
  unfold restored rebuildFastPathLocked
  split <;> rfl

theorem order_restored (h : t.Listed) : (t.restored env).order = t.order.foldl t.relist [] := by
  rw [← restoredOrder_eq h env]
  unfold restored rebuildFastPathLocked
  split <;> rfl

theorem restored_congr (h : t.Listed) (henv : env.threshold = env'.threshold) :
    t.restored env = t.restored env' := by
  have hindex : t.restoredIndex env = t.restoredIndex env' := by
    funext column
    exact (restoredIndex_exact env t column).unique (restoredIndex_exact env' t column)
  have hbelow : ∀ n, env.below n = env'.below n := fun n => by simp only [Env.below, henv]
  simp only [restored, restoredOrder_eq h, hindex, rebuildFastPathLocked, hbelow]

/-- What a snapshot file must have for its tables to be restored: the columns and the cells are
those of a table, every row is listed, and the indexes are on columns. -/
structure Restorable (t : Table) : Prop where
  wf : t.Wf
  listed : t.Listed
  column : ∀ c ∈ t.indexes, hasColumn t.columns c = true
  named : ∀ n c : Bytes, t.indexNames[n]? = some c → c ∈ t.indexes

theorem Restorable.consistent (h : t.Restorable) (env : Env) : (t.restored env).Consistent := by
  have hcell : (t.restored env).cellKey = t.cellKey := by
    funext c k
    simp only [cellKey, rows_restored]
  refine ⟨h.wf.congr columns_restored rows_restored,
    ⟨fun c index hc => ?_, fun c hc => ?_, fun n c hn => ?_⟩, FastInv.rebuild env _⟩
  · rw [indexes_restored, Map.get?_map] at hc
    obtain ⟨-, -, rfl⟩ := Option.map_eq_some_iff.1 hc
    rw [hcell]
    exact restoredIndex_exact env t c
  · rw [columns_restored]
    rw [indexes_restored, Std.ExtTreeMap.mem_map] at hc
    exact h.column c hc
  · rw [indexes_restored, Std.ExtTreeMap.mem_map]
    rw [indexNames_restored] at hn
    exact h.named n c hn

theorem Listed.restored (h : t.Listed) (env : Env) : (t.restored env).Listed := by
  intro k hk
  rw [rows_restored] at hk
  rw [order_restored h]
  exact mem_foldl_relist.2 ⟨h k hk, hk⟩

theorem liveOrder_restored (h : t.Listed) (env : Env) :
    (t.restored env).liveOrder = t.order.foldl t.relist [] ∧ (t.restored env).liveOrder.Nodup := by
  have hlive : (t.restored env).liveOrder = t.order.foldl t.relist [] := by
    rw [liveOrder, rows_restored, order_restored h, List.filter_eq_self]
    intro k hk
    exact Std.ExtTreeMap.contains_iff_mem.2 (mem_foldl_relist.1 hk).2
  exact ⟨hlive, hlive ▸ foldl_relist t.order ▸ nodup_eraseDups _⟩

end Restored

end Table

/-! ## Databases -/

section Database

variable {env env' : Env} {image : Map Table} {db : Database}

def Restorable (image : Map Table) : Prop :=
  ∀ (name : Bytes) (t : Table), image[name]? = some t → t.Restorable

theorem Database.get?_restored (name : Bytes) :
    (Database.restored env image).tables[name]? = image[name]?.map (Table.restored env) :=
  Map.get?_map ..

theorem Restorable.consistent (h : Restorable image) (env : Env) :
    (Database.restored env image).All Table.Consistent := by
  intro name t ht
  rw [Database.get?_restored] at ht
  obtain ⟨u, hu, rfl⟩ := Option.map_eq_some_iff.1 ht
  exact (h name u hu).consistent env

theorem Restorable.listed (h : Restorable image) (env : Env) :
    (Database.restored env image).All Table.Listed := by
  intro name t ht
  rw [Database.get?_restored] at ht
  obtain ⟨u, hu, rfl⟩ := Option.map_eq_some_iff.1 ht
  exact (h name u hu).listed.restored env

theorem Restorable.nodup (h : Restorable image) (env : Env) :
    (Database.restored env image).All fun t => t.liveOrder.Nodup := by
  intro name t ht
  rw [Database.get?_restored] at ht
  obtain ⟨u, hu, rfl⟩ := Option.map_eq_some_iff.1 ht
  exact (Table.liveOrder_restored (h name u hu).listed env).2

theorem Restorable.congr (h : Restorable image) (henv : env.threshold = env'.threshold) :
    Database.restored env image = Database.restored env' image := by
  have htables : (image.map fun _ t => Table.restored env t) =
      image.map fun _ t => Table.restored env' t := by
    refine Map.ext_get? fun name => ?_
    rw [Map.get?_map, Map.get?_map]
    cases ht : image[name]? with
    | none => rfl
    | some t =>
      rw [Option.map_some, Option.map_some,
        Table.restored_congr (h name t ht).listed henv]
  simp only [Database.restored, htables]

theorem Database.All.listed (hall : db.All fun t => t.Wf ∧ t.Listed) (henv : env.Live)
    (sql : Bytes) :
    (db.execWithOptions env sql).2.All fun t => t.Wf ∧ t.Listed :=
  Database.All.execWithOptions (fun _ _ _ k hk => by simp at hk)
    (fun _ _ _ hlive hwf hinv hedit => hinv.edit hwf hlive hedit) henv
    (fun _ _ => trivial : db.RekeysOk (fun _ _ => True) env sql) hall

end Database

end SuperDB.Engine
