import SuperDB.Engine.Load

/-!
# What loading establishes

A table that `UnmarshalJSON` has loaded satisfies what all later operations rely on, whatever the
image was: the order list has every row once, the indexes are those of the rows, the columns hold
values, and the fast array mirrors the rows of a large table.
-/

namespace SuperDB.Engine

open Go

/-! ## Rows -/

theorem get_insert (row : CellRow) (name : Bytes) (cell : Cell) (column : Bytes) :
    CellRow.get (row.insert name cell) column = if name = column then cell else row.get column := by
  unfold CellRow.get
  rw [Map.getD_eq, Map.getD_eq, Map.get?_insert]
  split
  · rfl
  · rfl

def Unread (row : CellRow) (column : Bytes) : Prop := ∃ text, row.get column = .number text

theorem retype_spec {table : Bytes} {row row' : CellRow} {c : ImageColumn}
    (h : retype table row c = .ok row') :
    ¬Unread row' c.name ∧ ∀ column, Unread row' column → Unread row column := by
  unfold retype at h
  cases hcell : row.get c.name with
  | number text =>
    rw [hcell] at h
    cases hread : readNumber text c.type with
    | error f =>
      simp only [hread] at h
      cases h
    | ok v =>
      simp only [hread] at h
      cases h
      constructor
      · rintro ⟨text', htext⟩
        rw [get_insert, if_pos rfl] at htext
        cases htext
      · rintro column ⟨text', htext⟩
        rw [get_insert] at htext
        split at htext
        · cases htext
        · exact ⟨text', htext⟩
  | value v =>
    rw [hcell] at h
    cases h
    refine ⟨fun ⟨text, htext⟩ => ?_, fun _ hu => hu⟩
    rw [hcell] at htext
    cases htext
  | composite printed =>
    rw [hcell] at h
    cases h
    refine ⟨fun ⟨text, htext⟩ => ?_, fun _ hu => hu⟩
    rw [hcell] at htext
    cases htext

theorem foldlM_retype {table : Bytes} {columns : List ImageColumn} {row row' : CellRow}
    (h : columns.foldlM (retype table) row = .ok row') :
    (∀ c ∈ columns, ¬Unread row' c.name) ∧ ∀ column, Unread row' column → Unread row column := by
  induction columns generalizing row with
  | nil =>
    cases h
    exact ⟨fun c hc => (List.not_mem_nil hc).elim, fun _ hu => hu⟩
  | cons c columns ih =>
    rw [List.foldlM_cons] at h
    cases hc : retype table row c with
    | error e =>
      rw [hc] at h
      cases h
    | ok next =>
      rw [hc] at h
      obtain ⟨hgone, hback⟩ := retype_spec hc
      obtain ⟨hrest, hkeep⟩ := ih h
      refine ⟨fun d hd => ?_, fun column hu => hback column (hkeep column hu)⟩
      rcases List.mem_cons.1 hd with rfl | hd
      · exact fun hu => hgone (hkeep d.name hu)
      · exact hrest d hd

theorem readRow_spec {table key : Bytes} {columns : List ImageColumn} {rows : Map (Option CellRow)}
    {row : CellRow} (h : readRow table columns rows key = .ok row) :
    ∀ c ∈ columns, ¬Unread row c.name := by
  unfold readRow at h
  split at h
  · cases h
  · exact (foldlM_retype h).1

section Rows

variable {o : MapOrder} {table : Bytes} {columns : List ImageColumn} {rows : Map (Option CellRow)}
  {read : Map CellRow}

theorem mem_readRows (h : readRows o table columns rows = .ok read) (key : Bytes) :
    key ∈ read ↔ key ∈ rows := by
  obtain ⟨hin, hout⟩ := Map.foldlM_insert h key
  rw [o.mem_range] at hin hout
  constructor
  · intro hkey
    by_contra hrow
    obtain ⟨row, hget⟩ := Map.mem_iff.1 hkey
    rw [hout hrow, Map.get?_empty] at hget
    cases hget
  · intro hkey
    obtain ⟨row, -, hget⟩ := hin hkey
    exact Map.mem_of_get? hget

theorem readRows_read (h : readRows o table columns rows = .ok read) {key : Bytes} {row : CellRow}
    (hrow : read[key]? = some row) : ∀ c ∈ columns, ¬Unread row c.name := by
  have hkey : key ∈ o.range rows :=
    o.mem_range.2 ((mem_readRows h key).1 (Map.mem_of_get? hrow))
  obtain ⟨row', hread, hget⟩ := (Map.foldlM_insert h key).1 hkey
  obtain rfl : row' = row := Option.some.inj (hget.symm.trans hrow)
  exact readRow_spec hread

end Rows

/-! ## Order and indexes -/

section Parts

variable (o : MapOrder) (rows : Map CellRow) (order : List Bytes)

theorem loadedOrder_eq : ∃ rest, loadedOrder o rows order =
    (order.filter (rows.contains ·)).eraseDups ++ rest := by
  refine ⟨_, congrArg (· ++ _) ?_⟩
  simp [foldl_relistBy]

theorem mem_loadedOrder {key : Bytes} : key ∈ loadedOrder o rows order ↔ key ∈ rows := by
  simp only [loadedOrder, List.mem_append, List.mem_filter, Bool.not_eq_true', List.contains_eq_mem,
    decide_eq_false_iff_not, mem_foldl_relistBy, Std.ExtTreeMap.contains_iff_mem, o.mem_range]
  constructor
  · rintro (⟨-, hkey⟩ | ⟨hkey, -⟩)
    · exact hkey
    · exact hkey
  · intro hkey
    by_cases hlisted : key ∈ order
    · exact Or.inl ⟨hlisted, hkey⟩
    · exact Or.inr ⟨hkey, fun h => hlisted h.1⟩

theorem nodup_loadedOrder : (loadedOrder o rows order).Nodup := by
  refine List.nodup_append.2 ⟨nodup_foldl_relistBy _ _, (o.nodup_range rows).filter _, ?_⟩
  rintro a ha b hb rfl
  simpa [ha] using (List.mem_filter.1 hb).2

def rowKey (column key : Bytes) : Option Bytes := rows[key]?.map fun row => (row.get column).key

theorem loadedIndex_exact (column : Bytes) :
    Indexes (loadedIndex o rows column) (rowKey rows column) := by
  have hfold := Indexes.foldl_add (o.nodup_range rows)
    (fun key => ((rows.getD key ∅).get column).key) Indexes.empty fun _ _ => rfl
  refine hfold.congr fun key => ?_
  unfold rowKey
  by_cases hkey : key ∈ rows
  · rw [if_pos (o.mem_range.2 hkey)]
    obtain ⟨row, hrow⟩ := Map.mem_iff.1 hkey
    rw [Map.getD_eq, hrow]
    rfl
  · rw [if_neg fun h => hkey (o.mem_range.1 h), Map.not_mem_iff.1 hkey]
    rfl

theorem length_loadedOrder : (loadedOrder o rows order).length = rows.size := by
  have hperm : (loadedOrder o rows order).Perm rows.keys := by
    refine (List.perm_ext_iff_of_nodup (nodup_loadedOrder o rows order) rows.nodup_keys).2 ?_
    intro key
    rw [mem_loadedOrder, Map.mem_keys]
  rw [hperm.length_eq, Std.ExtTreeMap.length_keys]

end Parts

/-! ## Tables -/

structure LoadedTable.Sound (image : ImageTable) (t : LoadedTable) : Prop where
  /-- the rows are those of the image -/
  rows : ∀ key, key ∈ t.rows ↔ key ∈ image.rows
  /-- the order list has every row exactly once -/
  order_nodup : t.order.Nodup
  mem_order : ∀ key, key ∈ t.order ↔ key ∈ t.rows
  /-- first the listed keys that have a row, in the order of their first occurrences -/
  listed_first : ∃ rest, t.order = (image.order.filter (t.rows.contains ·)).eraseDups ++ rest
  dead : t.dead = 0
  /-- the indexed columns are those of the image -/
  indexed : ∀ column, column ∈ t.indexes ↔ column ∈ image.indexes
  /-- a bucket is not empty and has exactly the keys of the rows with its value -/
  bucket : ∀ (column value : Bytes) (index : Map StrSet) (bucket : StrSet),
    t.indexes[column]? = some index → index[value]? = some bucket → bucket.isEmpty = false ∧
      ∀ key, key ∈ bucket ↔ ∃ row, t.rows[key]? = some row ∧ (row.get column).key = value
  /-- every row is in the bucket of its value -/
  in_bucket : ∀ (column key : Bytes) (index : Map StrSet) (row : CellRow),
    t.indexes[column]? = some index → t.rows[key]? = some row →
      ∃ bucket : StrSet, index[(row.get column).key]? = some bucket ∧ key ∈ bucket
  /-- no column of a row holds a number that has not been read -/
  read : ∀ (key : Bytes) (row : CellRow), t.rows[key]? = some row →
    ∀ c ∈ t.columns, ∀ text, row.get c.name ≠ .number text
  /-- there is a fast array exactly for 256 rows or more -/
  fast_iff : t.fast ≠ [] ↔ 256 ≤ t.rows.size
  /-- it has one entry for every row, in the order of the list -/
  fast_eq : 256 ≤ t.rows.size →
    t.fast = t.order.map fun key => (key, t.columns.map fun c => (t.rows.getD key ∅).get c.name)

namespace LoadedTable

variable (t : LoadedTable)

@[simp] theorem rows_rebuildFast : t.rebuildFast.rows = t.rows := by
  unfold rebuildFast
  split <;> rfl

@[simp] theorem order_rebuildFast : t.rebuildFast.order = t.order := by
  unfold rebuildFast
  split <;> rfl

@[simp] theorem columns_rebuildFast : t.rebuildFast.columns = t.columns := by
  unfold rebuildFast
  split <;> rfl

@[simp] theorem indexes_rebuildFast : t.rebuildFast.indexes = t.indexes := by
  unfold rebuildFast
  split <;> rfl

@[simp] theorem dead_rebuildFast : t.rebuildFast.dead = t.dead := by
  unfold rebuildFast
  split <;> rfl

theorem fast_rebuildFast :
    t.rebuildFast.fast = if t.order.length < fastPathThreshold then [] else t.fastRows := by
  unfold rebuildFast
  split <;> rfl

end LoadedTable

section Load

variable {o : MapOrder} {name : Bytes} {image : ImageTable} {rows : Map CellRow}

theorem fastRows_opened : (image.opened o rows).fastRows =
    (image.opened o rows).order.map fun key =>
      (key, image.columns.map fun c => (rows.getD key ∅).get c.name) := by
  rw [LoadedTable.fastRows, ← List.filterMap_eq_map]
  refine List.filterMap_congr fun key hkey => ?_
  obtain ⟨row, hrow⟩ := Map.mem_iff.1 ((mem_loadedOrder o rows image.order).1 hkey)
  have hget : (image.opened o rows).rows[key]? = some row := hrow
  rw [hget, Function.comp_apply, Map.getD_eq, hrow]
  rfl

theorem fast_opened : (image.opened o rows).rebuildFast.fast =
    if rows.size < 256 then []
    else (image.opened o rows).order.map fun key =>
      (key, image.columns.map fun c => (rows.getD key ∅).get c.name) := by
  rw [LoadedTable.fast_rebuildFast, fastRows_opened]
  exact if_congr (by rw [← length_loadedOrder o rows image.order]; rfl) rfl rfl

theorem indexes_opened {column : Bytes} {index : Map StrSet}
    (h : (image.opened o rows).indexes[column]? = some index) :
    Indexes index (rowKey rows column) := by
  obtain ⟨-, -, rfl⟩ := Option.map_eq_some_iff.1 ((Map.get?_map ..).symm.trans h)
  exact loadedIndex_exact o rows column

theorem sound_opened (hrows : readRows o name image.columns image.rows = .ok rows) :
    (image.opened o rows).rebuildFast.Sound image where
  rows key := by
    rw [LoadedTable.rows_rebuildFast]
    exact mem_readRows hrows key
  order_nodup := by
    rw [LoadedTable.order_rebuildFast]
    exact nodup_loadedOrder o rows image.order
  mem_order key := by
    rw [LoadedTable.order_rebuildFast, LoadedTable.rows_rebuildFast]
    exact mem_loadedOrder o rows image.order
  listed_first := by
    rw [LoadedTable.order_rebuildFast, LoadedTable.rows_rebuildFast]
    exact loadedOrder_eq o rows image.order
  dead := LoadedTable.dead_rebuildFast _
  indexed column := by
    rw [LoadedTable.indexes_rebuildFast]
    exact Std.ExtTreeMap.mem_map
  bucket column value index bucket hindex hbucket := by
    rw [LoadedTable.indexes_rebuildFast] at hindex
    have hexact := indexes_opened hindex
    refine ⟨hexact.nonempty value bucket hbucket, fun key => ?_⟩
    have hmem := hexact.mem value key
    rw [Map.getD_eq, hbucket] at hmem
    rw [LoadedTable.rows_rebuildFast]
    exact hmem.trans Option.map_eq_some_iff
  in_bucket column key index row hindex hrow := by
    rw [LoadedTable.indexes_rebuildFast] at hindex
    rw [LoadedTable.rows_rebuildFast] at hrow
    have hkey : rowKey rows column key = some (row.get column).key :=
      Option.map_eq_some_iff.2 ⟨row, hrow, rfl⟩
    have hmem := ((indexes_opened hindex).mem _ key).2 hkey
    rw [Map.getD_eq] at hmem
    cases hbucket : index[(row.get column).key]? with
    | none =>
      rw [hbucket] at hmem
      exact (Std.ExtTreeMap.not_mem_empty hmem).elim
    | some bucket =>
      rw [hbucket] at hmem
      exact ⟨bucket, rfl, hmem⟩
  read key row hrow c hc text htext := by
    rw [LoadedTable.rows_rebuildFast] at hrow
    rw [LoadedTable.columns_rebuildFast] at hc
    exact readRows_read hrows hrow c hc ⟨text, htext⟩
  fast_iff := by
    rw [fast_opened, LoadedTable.rows_rebuildFast]
    by_cases hsmall : rows.size < 256
    · rw [if_pos hsmall]
      exact iff_of_false (fun h => h rfl) (Nat.not_le.2 hsmall)
    · rw [if_neg hsmall]
      refine iff_of_true (fun hnil => hsmall ?_) (Nat.not_lt.1 hsmall)
      have hlength : (image.opened o rows).order.length = rows.size :=
        length_loadedOrder o rows image.order
      rw [← hlength, List.map_eq_nil_iff.1 hnil]
      decide
  fast_eq h := by
    rw [LoadedTable.rows_rebuildFast] at h
    have hlarge : ¬rows.size < 256 := Nat.not_lt.2 h
    rw [fast_opened, if_neg hlarge, LoadedTable.order_rebuildFast, LoadedTable.columns_rebuildFast,
      LoadedTable.rows_rebuildFast]
    rfl

theorem ImageTable.load_sound {t : LoadedTable} (h : image.load o name = .ok t) :
    t.Sound image := by
  unfold ImageTable.load at h
  cases hrows : readRows o name image.columns image.rows with
  | error e =>
    rw [hrows] at h
    cases h
  | ok rows =>
    rw [hrows] at h
    cases h
    exact sound_opened hrows

end Load

/-- Whatever the image is, in every table that is loaded from it the order list has every row once,
the listed rows first, the indexes are those of the rows, the columns hold no unread numbers, and
there is a fast array that mirrors the rows exactly if there are at least 256. -/
theorem loadImage_sound (o : MapOrder) (rowOrder : Bytes → MapOrder)
    (image : Map (Option ImageTable))
    (tables : Map LoadedTable) (h : loadImage o rowOrder image = .ok tables) (name : Bytes)
    (t : LoadedTable) (ht : tables[name]? = some t) :
    ∃ u, image[name]? = some (some u) ∧ t.Sound u := by
  obtain ⟨hin, hout⟩ := Map.foldlM_insert h name
  rw [o.mem_range] at hin hout
  by_cases hname : name ∈ image
  · obtain ⟨t', hload, hget⟩ := hin hname
    obtain rfl : t' = t := Option.some.inj (hget.symm.trans ht)
    obtain ⟨entry, hentry⟩ := Map.mem_iff.1 hname
    rw [Map.getD_eq, hentry] at hload
    cases entry with
    | none => cases hload
    | some u => exact ⟨u, hentry, ImageTable.load_sound hload⟩
  · rw [hout hname, Map.get?_empty] at ht
    cases ht

def legacyImage : Map (Option ImageTable) :=
  (∅ : Map (Option ImageTable)).insert (str "t") (some
    { name := str "t"
      columns := [{ name := str "v", type := str "INT" }]
      rows := ((∅ : Map (Option CellRow)).insert (str "#1") (some
        ((∅ : CellRow).insert (str "v") (.number (str "7"))))).insert (str "#2") (some ∅)
      order := [str "#2", str "gone", str "#2"]
      indexes := (∅ : Map (Map StrSet)).insert (str "v") ∅ })

theorem loadImage_sound_legacy : ∃ tables t,
    loadImage MapOrder.sorted (fun _ => MapOrder.sorted) legacyImage = .ok tables ∧
    tables[str "t"]? = some t ∧ t.order = [str "#2", str "#1"] ∧
    ∃ u, legacyImage[str "t"]? = some (some u) ∧ t.Sound u := by
  have hrun : ((loadImage MapOrder.sorted (fun _ => MapOrder.sorted) legacyImage).toOption.bind
      fun tables => tables[str "t"]?).map (·.order) = some [str "#2", str "#1"] := by decide +kernel
  obtain ⟨t, ht, horder⟩ := Option.map_eq_some_iff.1 hrun
  obtain ⟨tables, htables, ht⟩ := Option.bind_eq_some_iff.1 ht
  cases hload : loadImage MapOrder.sorted (fun _ => MapOrder.sorted) legacyImage with
  | error e =>
    rw [hload] at htables
    cases htables
  | ok tables' =>
    rw [hload] at htables
    cases htables
    exact ⟨tables, t, rfl, ht, horder, loadImage_sound _ _ _ _ hload _ _ ht⟩

end SuperDB.Engine
