import SuperDB.Go.OrderedMap
import SuperDB.Engine.Verify.OrderInv
import SuperDB.Engine.Verify.Repeat
import SuperDB.Engine.Verify.RowList

/-!
# INSERT on the list of entries

A table is seen as the list of its keys and rows in order. INSERT appends to this list, and INSERT
OR REPLACE puts each of its rows in the place of the one with the same key or, if there is none,
last. The list does not show the stale keys of `order`: they are reclaimed before the first row is
stored.
-/

namespace SuperDB.Engine

open Go

variable {l : List (Bytes × Bytes)} {rows items : List InsertRow} {f : Fault}

def KeyedFor (columns : List Column) (item : InsertRow) : Prop :=
  item.key = [] ↔ hasPrimaryColumn columns = false

namespace Table

def listing (t : Table) : List (Bytes × Row) := entries t.order t.rows

/-- `order` lists the keys of the rows and no others. -/
def AllLive (t : Table) : Prop := ∀ k, k ∈ t.order ↔ k ∈ t.rows

/-- The rows come last, in their order, under their own keys or, if they have none, under new
ones. -/
def Appends (l : List (Bytes × Row)) (items : List InsertRow) (l' : List (Bytes × Row)) : Prop :=
  ∃ keys : List Bytes, List.Forall₂ (fun item k => item.key = [] ∨ item.key = k) items keys ∧
    keys.Nodup ∧ (∀ k ∈ keys, k ∉ l.map Prod.fst) ∧ l' = l ++ keys.zip (items.map (·.row))

/-- The rows are put one after the other in the place of the row with their key, or last. -/
def upserts (l : List (Bytes × Row)) (items : List InsertRow) : List (Bytes × Row) :=
  items.foldl (fun l item => upsert l item.key item.row) l

/-- What INSERT does to the entries. -/
structure Inserted (t : Table) (items : List InsertRow) (replace : Bool) (t' : Table) : Prop where
  keys : ∀ item ∈ items, KeyedFor t.columns item
  plain : replace = false → Appends t.listing items t'.listing
  keyed : replace = true → hasPrimaryColumn t.columns = true → t'.listing = upserts t.listing items
  keyless : replace = true → hasPrimaryColumn t.columns = false → Appends t.listing items t'.listing

def Repeats (rows : Map Row) (items : List InsertRow) : Prop :=
  ∃ earlier item later, items = earlier ++ item :: later ∧ item.key ≠ [] ∧
    (item.key ∈ rows ∨ ∃ e ∈ earlier, e.key = item.key)

/-! ## Storing the rows -/

section Rows

variable {env : Env} {t : Table} {item : InsertRow} {items : List InsertRow} {replace : Bool}

theorem mem_listing (h : t.AllLive) {k : Bytes} : k ∈ t.listing.map Prod.fst ↔ k ∈ t.rows := by
  rw [listing, mem_keys_entries, h k, and_self]

theorem applyInsertRow_listing (env : Env) (replace : Bool) (h : t.AllLive)
    (hfresh : replace = false → item.key ≠ [] → item.key ∉ t.rows) :
    ∃ key, (item.key = [] ∧ key ∉ t.rows ∨ item.key ≠ [] ∧ item.key = key) ∧
      (applyInsertRow env replace t item).rows = t.rows.insert key item.row ∧
      (applyInsertRow env replace t item).AllLive ∧
      (applyInsertRow env replace t item).listing = upsert t.listing key item.row := by
  have happend : ∀ (n : Nat) (key : Bytes), key ∉ t.rows →
      (({ t with autoKey := n } : Table).appendRow env key item.row).rows =
        t.rows.insert key item.row ∧
      (({ t with autoKey := n } : Table).appendRow env key item.row).AllLive ∧
      (({ t with autoKey := n } : Table).appendRow env key item.row).listing =
        upsert t.listing key item.row := by
    intro n key hkey
    have hcore := appendRow_core env ({ t with autoKey := n } : Table) key item.row
    have hrows := congrArg Table.rows hcore
    have horder := congrArg Table.order hcore
    simp only [clearFast_rows, clearFast_order] at hrows horder
    refine ⟨hrows, fun k => ?_, ?_⟩
    · rw [hrows, horder, List.mem_append, List.mem_singleton, Map.mem_insert, h k]
      exact ⟨fun hk => hk.symm.imp Eq.symm id, fun hk => hk.symm.imp id Eq.symm⟩
    · rw [upsert_of_not_mem (by rwa [mem_listing h]), listing, hrows, horder]
      exact entries_concat fun hmem => hkey ((h key).1 hmem)
  unfold applyInsertRow
  by_cases hkey : item.key = []
  · -- a synthetic key is never in use, so the row is appended
    have hnot := t.nextSyntheticKey_not_mem
    have hnone : (if replace then t.nextSyntheticKeyLocked.2.rows[t.nextSyntheticKeyLocked.1]?
        else none) = none := by
      split
      · exact Map.not_mem_iff.1 hnot
      · rfl
    simp only [if_pos hkey, hnone]
    exact ⟨_, Or.inl ⟨hkey, hnot⟩, happend _ _ hnot⟩
  · simp only [if_neg hkey]
    refine ⟨item.key, Or.inr ⟨hkey, rfl⟩, ?_⟩
    split
    · next old hold =>
      have hget : t.rows[item.key]? = some old := by
        split at hold
        · exact hold
        · cases hold
      have hcore := replaceRow_core t item.key old item.row
      have hrows := congrArg Table.rows hcore
      have horder := congrArg Table.order hcore
      simp only [clearFast_rows, clearFast_order] at hrows horder
      have hmem := Map.mem_of_get? hget
      refine ⟨hrows, fun k => ?_, ?_⟩
      · rw [hrows, horder, Map.mem_insert, h k]
        exact ⟨Or.inr, fun hk => hk.elim (fun e => e ▸ hmem) id⟩
      · rw [upsert, if_pos ((mem_listing h).2 hmem), listing, hrows, horder]
        exact entries_replace hmem
    · next hnone =>
      refine happend t.autoKey item.key ?_
      split at hnone
      · exact Map.not_mem_iff.2 hnone
      · next hrep => exact hfresh (by simpa using hrep) hkey

theorem foldl_applyInsertRow_keyed (env : Env) (h : t.AllLive)
    (hkeys : ∀ item ∈ items, item.key ≠ []) (hfresh : replace = false → FreshKeys t.rows items) :
    (items.foldl (applyInsertRow env replace) t).listing = upserts t.listing items := by
  induction items generalizing t with
  | nil => rfl
  | cons item items ih =>
    have hkey := hkeys item List.mem_cons_self
    obtain ⟨key, hcase, hrows, hlisted, hlisting⟩ :=
      applyInsertRow_listing env replace h fun hr =>
        (hfresh hr).1 item List.mem_cons_self
    obtain ⟨-, rfl⟩ := hcase.resolve_left fun hc => hkey hc.1
    rw [List.foldl_cons, ih hlisted (fun i hi => hkeys i (List.mem_cons_of_mem _ hi)) ?_, hlisting]
    · rfl
    · intro hr
      obtain ⟨hnew, hdistinct⟩ := hfresh hr
      rw [List.pairwise_cons] at hdistinct
      refine ⟨fun i hi hne => ?_, hdistinct.2⟩
      rw [hrows, Map.mem_insert, not_or]
      exact ⟨hdistinct.1 i hi hkey, hnew i (List.mem_cons_of_mem _ hi) hne⟩

theorem foldl_applyInsertRow_keyless (env : Env) (replace : Bool) (h : t.AllLive)
    (hkeys : ∀ item ∈ items, item.key = []) :
    Appends t.listing items (items.foldl (applyInsertRow env replace) t).listing := by
  induction items generalizing t with
  | nil => exact ⟨[], .nil, List.nodup_nil, by simp, by simp⟩
  | cons item items ih =>
    have hkey := hkeys item List.mem_cons_self
    obtain ⟨key, hcase, -, hlisted, hlisting⟩ :=
      applyInsertRow_listing env replace h fun _ hne => absurd hkey hne
    obtain ⟨-, hnew⟩ := hcase.resolve_right fun hc => hc.1 hkey
    have hnew' : key ∉ t.listing.map Prod.fst := by rwa [mem_listing h]
    rw [upsert_of_not_mem hnew'] at hlisting
    obtain ⟨keys, hrows, hnodup, hold, hlist⟩ :=
      ih hlisted fun i hi => hkeys i (List.mem_cons_of_mem _ hi)
    rw [hlisting] at hold hlist
    simp only [List.map_append, List.map_cons, List.map_nil, List.mem_append, List.mem_singleton,
      not_or] at hold
    refine ⟨key :: keys, .cons (Or.inl hkey) hrows,
      List.nodup_cons.2 ⟨fun hk => ?_, hnodup⟩, ?_, ?_⟩
    · exact (hold key hk).2 rfl
    · intro k hk
      rcases List.mem_cons.1 hk with rfl | hk
      · exact hnew'
      · exact (hold k hk).1
    · rw [List.foldl_cons, hlist]
      simp

theorem upserts_fresh {l : List (Bytes × Row)} (hkeys : ∀ item ∈ items, item.key ≠ [])
    (hnew : ∀ item ∈ items, item.key ∉ l.map Prod.fst)
    (hdistinct : items.Pairwise fun a b => a.key ≠ [] → a.key ≠ b.key) :
    Appends l items (upserts l items) := by
  have hnodup : (items.map (·.key)).Nodup := by
    rw [List.Nodup, List.pairwise_map]
    exact hdistinct.imp_of_mem fun ha _ hab => hab (hkeys _ ha)
  have hfirst : (items.map fun item => (item.key, item.row)).map Prod.fst = items.map (·.key) := by
    simp
  refine ⟨items.map (·.key), ?_, hnodup, ?_, ?_⟩
  · exact List.forall₂_map_right_iff.2 (List.forall₂_same.2 fun item _ => Or.inr rfl)
  · intro k hk
    obtain ⟨item, hitem, rfl⟩ := List.mem_map.1 hk
    exact hnew item hitem
  · have hfold := foldl_upsert_new (l := l) (hfirst ▸ hnodup) fun k hk => by
      rw [hfirst] at hk
      obtain ⟨item, hitem, rfl⟩ := List.mem_map.1 hk
      exact hnew item hitem
    rw [List.foldl_map] at hfold
    rw [upserts, hfold, List.zip_map']

theorem OrderInv.reclaimed (h : t.OrderInv) (env : Env) :
    (if 0 < t.dead then t.reclaimOrder env else t).rows = t.rows ∧
      (if 0 < t.dead then t.reclaimOrder env else t).AllLive ∧
      (if 0 < t.dead then t.reclaimOrder env else t).listing = t.listing := by
  split
  · have hcore := reclaimOrder_core env t
    have hrows := congrArg Table.rows hcore
    have horder := congrArg Table.order hcore
    simp only [clearFast_rows, clearFast_order] at hrows horder
    refine ⟨hrows, fun k => ?_, ?_⟩
    · rw [hrows, horder, liveOrder, List.mem_filter, Std.ExtTreeMap.contains_iff_mem]
      exact ⟨And.right, fun hk => ⟨h.mem_order hk, hk⟩⟩
    · rw [listing, hrows, horder]
      exact entries_filter
  · exact ⟨rfl, fun k => ⟨h.mem_rows_of_dead (by omega), h.mem_order⟩, rfl⟩

theorem applyInsertRows_inserted (h : t.OrderInv) (hkeys : ∀ item ∈ items, KeyedFor t.columns item)
    {r : Result} (hok : (t.applyInsertRows env items replace).1 = .ok r) :
    t.Inserted items replace (t.applyInsertRows env items replace).2 := by
  unfold applyInsertRows at hok ⊢
  split at hok
  · cases hok
  · next hcheck =>
    have hfresh : replace = false → FreshKeys t.rows items := by
      rintro rfl
      exact (checkInsertRow_fresh hcheck).1
    obtain ⟨hrows, hlisted, hlisting⟩ := h.reclaimed env
    simp only
    generalize (if 0 < t.dead then t.reclaimOrder env else t) = u at hrows hlisted hlisting
    rw [← hrows] at hfresh
    cases hp : hasPrimaryColumn t.columns with
    | true =>
      have hne : ∀ item ∈ items, item.key ≠ [] := fun item hitem hnil => by
        rw [(hkeys item hitem).1 hnil] at hp
        cases hp
      have hfold := foldl_applyInsertRow_keyed env hlisted hne hfresh
      rw [hlisting] at hfold
      refine ⟨hkeys, fun hr => ?_, fun _ _ => hfold, fun _ hno => by simp [hp] at hno⟩
      obtain ⟨hnew, hdistinct⟩ := hfresh hr
      rw [hfold, ← hlisting]
      exact upserts_fresh hne (fun item hitem => by
        rw [mem_listing hlisted]
        exact hnew item hitem (hne item hitem)) hdistinct
    | false =>
      have hnil : ∀ item ∈ items, item.key = [] := fun item hitem => (hkeys item hitem).2 hp
      have hfold := foldl_applyInsertRow_keyless env replace hlisted hnil
      rw [hlisting] at hfold
      exact ⟨hkeys, fun _ => hfold, fun _ hno => (by simp [hp] at hno), fun _ _ => hfold⟩

theorem rangeLoop_checkInsertRow {n : Nat} {batch : StrSet} (henv : env.Live)
    (hfresh : FreshKeys t.rows items) (hbatch : ∀ item ∈ items, item.key ≠ [] → item.key ∉ batch) :
    (rangeLoop env.applyTick t.checkInsertRow n items batch).2 = none := by
  induction items generalizing n batch with
  | nil => rfl
  | cons item items ih =>
    obtain ⟨hnew, hdistinct⟩ := hfresh
    rw [List.pairwise_cons] at hdistinct
    have hrest : FreshKeys t.rows items :=
      ⟨fun i hi => hnew i (List.mem_cons_of_mem _ hi), hdistinct.2⟩
    rw [rangeLoop, henv.applyTick]
    by_cases hkey : item.key = []
    · simp only [checkInsertRow, if_pos hkey]
      exact ih hrest fun i hi => hbatch i (List.mem_cons_of_mem _ hi)
    · have hno : ¬(item.key ∈ t.rows ∨ item.key ∈ batch) := by
        rw [not_or]
        exact ⟨hnew item List.mem_cons_self hkey, hbatch item List.mem_cons_self hkey⟩
      simp only [checkInsertRow, if_neg hkey, if_neg hno]
      refine ih hrest fun i hi hne => ?_
      rw [Map.mem_insert, not_or]
      exact ⟨hdistinct.1 i hi hkey, hbatch i (List.mem_cons_of_mem _ hi) hne⟩

end Rows

end Table

/-! ## Reading the rows -/

section Reading

variable {columns : List Column} {items : List InsertRow}

def DistinctKeys (items : List InsertRow) : Prop :=
  items.Pairwise fun a b => a.key ≠ [] → a.key ≠ b.key

theorem fillRow_key {α : Type} {conv : α → ColType → Except Fault Value} {l : List (Column × α)}
    {row row' : Row} {key key' : Bytes} (hno : ∀ p ∈ l, p.1.primary = false)
    (h : fillRow conv l row key = .ok (row', key')) : key' = key := by
  induction l generalizing row key with
  | nil =>
    cases h
    rfl
  | cons p l ih =>
    obtain ⟨c, x⟩ := p
    obtain ⟨v, -, h⟩ := bind_ok h
    rw [hno (c, x) List.mem_cons_self] at h
    exact ih (fun q hq => hno q (List.mem_cons_of_mem _ hq)) h

theorem buildRow_keyed {α : Type} {conv : α → ColType → Except Fault Value} {cells : List α}
    {item : InsertRow} (h : buildRow conv columns cells = .ok item) : KeyedFor columns item := by
  obtain ⟨⟨row, key⟩, hfill, h⟩ := bind_ok h
  simp only at h
  split at h
  · cases h
  · next hreq =>
    cases h
    refine ⟨fun hnil => by simpa using fun hp => hreq ⟨hnil, hp⟩, fun hno =>
      fillRow_key (fun p hp => ?_) hfill⟩
    have hmem := (List.of_mem_zip hp).1
    by_contra hprimary
    rw [hasPrimaryColumn_iff.2 ⟨p.1, hmem, by simpa using hprimary⟩] at hno
    cases hno

/-- A row of VALUES is read in the same way whatever stands before it; a repeated key is refused
unless the last one is kept. -/
theorem flushText_cases (columns : List Column) (p : Bytes × Bytes) :
    (∃ f, ∀ keepLast rows, flushText columns keepLast rows p = .error f) ∨
    ∃ item, KeyedFor columns item ∧ ∀ keepLast rows, flushText columns keepLast rows p =
      if item.key ≠ [] ∧ !keepLast ∧ rows.any (·.key == item.key) then
        .error (fault "duplicate primary key")
      else .ok (rows ++ [item]) := by
  unfold flushText flushRow
  by_cases hlen : (rowCells p.2).length ≠ columns.length
  · exact Or.inl ⟨_, fun _ _ => if_pos hlen⟩
  · cases hbuild : buildRow parseVal columns (rowCells p.2) with
    | error f => exact Or.inl ⟨f, fun _ _ => by rw [if_neg hlen]; rfl⟩
    | ok item => exact Or.inr ⟨item, buildRow_keyed hbuild, fun _ _ => by rw [if_neg hlen]; rfl⟩

theorem flushText_last {item : InsertRow} {p : Bytes × Bytes}
    (h : ∀ keepLast rows, flushText columns keepLast rows p =
      if item.key ≠ [] ∧ !keepLast ∧ rows.any (·.key == item.key) then
        .error (fault "duplicate primary key")
      else .ok (rows ++ [item])) (rows : List InsertRow) :
    flushText columns true rows p = .ok (rows ++ [item]) := by
  rw [h, if_neg (by simp)]

theorem foldlM_flush_last (h : l.foldlM (flushText columns true) rows = .ok items) :
    ∃ more, items = rows ++ more ∧ ∀ item ∈ more, KeyedFor columns item := by
  induction l generalizing rows with
  | nil =>
    cases h
    exact ⟨[], by simp, by simp⟩
  | cons p l ih =>
    rw [List.foldlM_cons] at h
    rcases flushText_cases columns p with ⟨f, hfail⟩ | ⟨item, hkeyed, hflush⟩
    · rw [hfail] at h
      cases h
    · rw [flushText_last hflush] at h
      obtain ⟨more, rfl, hmore⟩ := ih h
      refine ⟨item :: more, by simp, fun i hi => ?_⟩
      rcases List.mem_cons.1 hi with rfl | hi
      · exact hkeyed
      · exact hmore i hi

theorem foldlM_flush_plain (hrows : DistinctKeys rows)
    (h : l.foldlM (flushText columns true) rows = .ok items) :
    DistinctKeys items ∧ l.foldlM (flushText columns false) rows = .ok items ∨
      ¬DistinctKeys items ∧ ∃ f, l.foldlM (flushText columns false) rows = .error f := by
  induction l generalizing rows with
  | nil =>
    cases h
    exact Or.inl ⟨hrows, rfl⟩
  | cons p l ih =>
    rw [List.foldlM_cons] at h ⊢
    rcases flushText_cases columns p with ⟨f, hfail⟩ | ⟨item, -, hflush⟩
    · rw [hfail] at h
      cases h
    · rw [flushText_last hflush] at h
      rw [hflush]
      by_cases hdup : item.key ≠ [] ∧ !false ∧ rows.any (·.key == item.key)
      · refine Or.inr ⟨fun hall => ?_, _, by rw [if_pos hdup]; rfl⟩
        obtain ⟨more, rfl, -⟩ := foldlM_flush_last h
        obtain ⟨hkey, -, hany⟩ := hdup
        obtain ⟨e, he, heq⟩ := List.any_eq_true.1 hany
        rw [beq_iff_eq] at heq
        rw [DistinctKeys, List.append_assoc, List.pairwise_append] at hall
        exact hall.2.2 e he item (by simp) (heq ▸ hkey) heq
      · rw [if_neg hdup]
        refine ih (List.pairwise_append.2 ⟨hrows, by simp, fun e he i hi hne heq => ?_⟩) h
        rw [List.mem_singleton.1 hi] at heq
        exact hdup ⟨heq ▸ hne, rfl, List.any_eq_true.2 ⟨e, he, by simpa using heq⟩⟩

theorem foldlM_flush_error (h : l.foldlM (flushText columns true) rows = .error f) :
    ∃ f, l.foldlM (flushText columns false) rows = .error f := by
  induction l generalizing rows with
  | nil => cases h
  | cons p l ih =>
    rw [List.foldlM_cons] at h ⊢
    rcases flushText_cases columns p with ⟨f, hfail⟩ | ⟨item, -, hflush⟩
    · rw [hfail]
      exact ⟨f, rfl⟩
    · rw [flushText_last hflush] at h
      rw [hflush]
      split
      · exact ⟨_, rfl⟩
      · exact ih h

variable {raw : Bytes}

theorem parseInsertRowsMode_keyed (h : parseInsertRowsMode raw columns true = .ok items) :
    ∀ item ∈ items, KeyedFor columns item := by
  obtain ⟨rows, hscan, h⟩ := bind_ok h
  split at h <;> cases h
  rw [scanRows_eq] at hscan
  obtain ⟨more, rfl, hmore⟩ := foldlM_flush_last hscan
  simpa using hmore

theorem parseInsertRowsMode_plain (h : parseInsertRowsMode raw columns true = .ok items) :
    DistinctKeys items ∧ parseInsertRowsMode raw columns false = .ok items ∨
      ¬DistinctKeys items ∧ ∃ f, parseInsertRowsMode raw columns false = .error f := by
  obtain ⟨rows, hscan, h⟩ := bind_ok h
  split at h
  · cases h
  · next hsome =>
    cases h
    unfold parseInsertRowsMode
    rw [scanRows_eq] at hscan ⊢
    rcases foldlM_flush_plain List.Pairwise.nil hscan with ⟨hdistinct, hplain⟩ | ⟨hdup, f, hplain⟩
    · refine Or.inl ⟨hdistinct, ?_⟩
      rw [hplain]
      exact if_neg hsome
    · refine Or.inr ⟨hdup, f, ?_⟩
      rw [hplain]
      rfl

theorem parseInsertRowsMode_error (h : parseInsertRowsMode raw columns true = .error f) :
    ∃ f, parseInsertRowsMode raw columns false = .error f := by
  unfold parseInsertRowsMode at h ⊢
  rw [scanRows_eq] at h ⊢
  cases hscan : (outline (trimSpace raw)).rows.foldlM (flushText columns true) [] with
  | error e =>
    obtain ⟨f, hplain⟩ := foldlM_flush_error hscan
    rw [hplain]
    exact ⟨f, rfl⟩
  | ok rows =>
    rw [hscan] at h
    replace h : (if rows.isEmpty then .error (fault "INSERT requires VALUES") else .ok rows) =
      (Except.error f : Except Fault (List InsertRow)) := h
    split at h
    · next hempty =>
      rcases foldlM_flush_plain List.Pairwise.nil hscan with ⟨-, hplain⟩ | ⟨-, f, hplain⟩
      · rw [hplain]
        exact ⟨_, if_pos hempty⟩
      · rw [hplain]
        exact ⟨f, rfl⟩
    · cases h

theorem selectedInsertRows_keyed {lines : List (List Value)}
    (h : selectedInsertRows columns lines = .ok items) : ∀ item ∈ items, KeyedFor columns item :=
  mapM_ok_forall (fun _ _ _ hb => buildRow_keyed hb) h

end Reading

/-! ## The statement -/

section Statement

variable {env : Env} {db : Database} {s sql : Bytes}

def Database.queryRows (env : Env) (db : Database) (query : Bytes) (columns : List Column) :
    Except Fault (List InsertRow) := do
  let src ← db.selectRows env query
  if src.columns.length ≠ columns.length then .error (fault "column count mismatch")
  else selectedInsertRows columns src.rows

/-- The table that is named in a part of the text, and the rows for it. -/
def Database.requestAt (db : Database) (s : Bytes) (off start : Nat) (replace : Bool)
    (rows : List Column → Except Fault (List InsertRow)) :
    Except Fault (Bytes × Bool × List InsertRow) :=
  match firstField (slice s off start) with
  | none => .error (fault "invalid INSERT")
  | some name => do
    let t ← db.table name
    let items ← rows t.columns
    .ok (toLower name, replace, items)

/-- What the text of an INSERT asks for: the table, whether rows are replaced, and the rows, all
valid. Whether their keys repeat is not looked at. -/
def Database.insertRequest (env : Env) (db : Database) (s : Bytes) :
    Except Fault (Bytes × Bool × List InsertRow) := do
  let (replace, body) ← insertBody s
  let off := s.length - body.length + 4
  let values := fun vi => db.requestAt s off vi replace fun columns =>
    parseInsertRowsMode (s.drop (vi + 6)) columns true
  let select := fun si => db.requestAt s off si replace (db.queryRows env (trimSpace (s.drop si)))
  match indexKeyword s (str "VALUES"), indexKeyword s (str "SELECT") with
  | none, none => .error (fault "INSERT requires VALUES or SELECT")
  | some vi, none => values vi
  | none, some si => select si
  | some vi, some si => if si < vi then select si else values vi

/-- A statement that stores the rows asked for, unless it is a plain INSERT and a key repeats. -/
structure Database.Serves (db : Database) (request : Except Fault (Bytes × Bool × List InsertRow))
    (stmt : Except Fault Stmt) : Prop where
  refused : ∀ f, request = .error f → ∃ f, stmt = .error f
  stored : ∀ name replace items, request = .ok (name, replace, items) →
    ∃ t, db.tables[name]? = some t ∧ (∀ item ∈ items, KeyedFor t.columns item) ∧
      (stmt = .ok (.table name (.insert items replace)) ∨
        replace = false ∧ ¬DistinctKeys items ∧ ∃ f, stmt = .error f)

theorem Database.requestAt_serves {off start : Nat} {replace : Bool}
    {rows : List Column → Except Fault (List InsertRow)} {stmt : Except Fault Stmt}
    (rows' : List Column → Except Fault (List InsertRow))
    (hstmt : stmt = match firstField (slice s off start) with
      | none => .error (fault "invalid INSERT")
      | some name => do
        let t ← db.table name
        let items ← rows' t.columns
        .ok (.table (toLower name) (.insert items replace)))
    (herror : ∀ columns f, rows columns = .error f → ∃ f, rows' columns = .error f)
    (hkeyed : ∀ columns items, rows columns = .ok items → ∀ item ∈ items, KeyedFor columns item)
    (hok : ∀ columns items, rows columns = .ok items → rows' columns = .ok items ∨
      replace = false ∧ ¬DistinctKeys items ∧ ∃ f, rows' columns = .error f) :
    db.Serves (db.requestAt s off start replace rows) stmt := by
  subst hstmt
  unfold Database.requestAt
  cases firstField (slice s off start) with
  | none => exact ⟨fun f _ => ⟨_, rfl⟩, fun _ _ _ h => by cases h⟩
  | some name =>
    simp only
    cases ht : db.table name with
    | error e => exact ⟨fun f _ => ⟨e, rfl⟩, fun _ _ _ h => by cases h⟩
    | ok t =>
      cases hrows : rows t.columns with
      | error e =>
        obtain ⟨f, hf⟩ := herror _ _ hrows
        refine ⟨fun _ _ => ⟨f, ?_⟩, fun _ _ _ h => ?_⟩
        · show (rows' t.columns >>= _) = _
          rw [hf]
          rfl
        · replace h : (rows t.columns >>= _) = _ := h
          rw [hrows] at h
          cases h
      | ok items =>
        refine ⟨fun f h => ?_, fun n r l h => ?_⟩
        · replace h : (rows t.columns >>= _) = _ := h
          rw [hrows] at h
          cases h
        · replace h : (rows t.columns >>= _) = _ := h
          rw [hrows] at h
          cases h
          refine ⟨t, Database.table_ok ht, hkeyed _ _ hrows, ?_⟩
          show (rows' t.columns >>= _) = _ ∨ _ ∧ _ ∧ ∃ f, (rows' t.columns >>= _) = _
          rcases hok _ _ hrows with hsame | ⟨hplain, hdup, f, hf⟩
          · rw [hsame]
            exact Or.inl rfl
          · rw [hf]
            exact Or.inr ⟨hplain, hdup, f, rfl⟩

theorem Database.insertRequest_serves (env : Env) (db : Database) (s : Bytes) :
    db.Serves (db.insertRequest env s) (db.insertStmt env s) := by
  have hvalues : ∀ (off vi : Nat) (replace : Bool), db.Serves
      (db.requestAt s off vi replace fun columns =>
        parseInsertRowsMode (s.drop (vi + 6)) columns true)
      (db.insertValuesStmt s off vi replace) := by
    intro off vi replace
    refine Database.requestAt_serves
      (fun columns => parseInsertRowsMode (s.drop (vi + 6)) columns replace)
      rfl ?_ ?_ ?_
    · intro columns f h
      cases replace with
      | true => exact ⟨f, h⟩
      | false => exact parseInsertRowsMode_error h
    · exact fun columns items h => parseInsertRowsMode_keyed h
    · intro columns items h
      cases replace with
      | true => exact Or.inl h
      | false =>
        rcases parseInsertRowsMode_plain h with ⟨-, hplain⟩ | ⟨hdup, f, hplain⟩
        · exact Or.inl hplain
        · exact Or.inr ⟨rfl, hdup, f, hplain⟩
  have hselect : ∀ (off si : Nat) (replace : Bool), db.Serves
      (db.requestAt s off si replace (db.queryRows env (trimSpace (s.drop si))))
      (db.insertSelectStmt env s off si replace) := by
    intro off si replace
    refine Database.requestAt_serves (db.queryRows env (trimSpace (s.drop si))) ?_
      (fun columns f h => ⟨f, h⟩) ?_ (fun columns items h => Or.inl h)
    · unfold Database.insertSelectStmt Database.queryRows
      cases firstField (slice s off si) with
      | none => rfl
      | some name =>
        simp only [bind_assoc]
        congr 1
        funext t
        congr 1
        funext src
        split <;> rfl
    · intro columns items h
      obtain ⟨src, -, h⟩ := bind_ok h
      split at h
      · cases h
      · exact selectedInsertRows_keyed h
  unfold Database.insertRequest Database.insertStmt
  cases insertBody s with
  | error e => exact ⟨fun f _ => ⟨e, rfl⟩, fun _ _ _ h => by cases h⟩
  | ok p =>
    obtain ⟨replace, body⟩ := p
    cases indexKeyword s (str "VALUES") with
    | none =>
      cases indexKeyword s (str "SELECT") with
      | none => exact ⟨fun f _ => ⟨_, rfl⟩, fun _ _ _ h => by cases h⟩
      | some si => exact hselect _ si replace
    | some vi =>
      cases indexKeyword s (str "SELECT") with
      | none => exact hvalues _ vi replace
      | some si =>
        show db.Serves (if si < vi then _ else _) (if si < vi then _ else _)
        split
        · exact hselect _ si replace
        · exact hvalues _ vi replace

theorem not_freshKeys_iff {rows : Map Row} :
    ¬Table.FreshKeys rows items ↔ Table.Repeats rows items := by
  rw [not_iff_comm]
  constructor
  · intro hno
    refine ⟨fun item hitem hkey hmem => ?_,
      List.pairwise_iff_getElem.2 fun i j hi hj hij hkey heq => ?_⟩
    · obtain ⟨earlier, later, rfl⟩ := List.append_of_mem hitem
      exact hno ⟨earlier, item, later, rfl, hkey, Or.inl hmem⟩
    · refine hno ⟨items.take j, items[j], items.drop (j + 1), ?_, heq ▸ hkey,
        Or.inr ⟨items[i], ?_, heq⟩⟩
      · rw [← List.drop_eq_getElem_cons hj, List.take_append_drop]
      · exact List.mem_take_iff_getElem.2 ⟨i, by omega, rfl⟩
  · rintro ⟨hnew, hdistinct⟩ ⟨earlier, item, later, rfl, hkey, hmem | ⟨e, he, heq⟩⟩
    · exact hnew item (by simp) hkey hmem
    · exact (List.pairwise_append.1 hdistinct).2.2 e he item (by simp) (heq ▸ hkey) heq

theorem Table.Repeats.of_not_distinct {rows : Map Row} (h : ¬DistinctKeys items) :
    Table.Repeats rows items :=
  not_freshKeys_iff.1 fun hfresh => h hfresh.2

theorem Table.applyInsertRows_error_iff {t : Table} (henv : env.Live) :
    (∃ f, (t.applyInsertRows env items false).1 = .error f) ↔ Table.Repeats t.rows items := by
  rw [← not_freshKeys_iff]
  unfold Table.applyInsertRows
  simp only [Bool.false_eq_true, if_false]
  constructor
  · rintro ⟨f, hf⟩ hfresh
    rw [Table.rangeLoop_checkInsertRow henv hfresh (by simp)] at hf
    cases hf
  · intro hno
    cases hcheck : (rangeLoop env.applyTick t.checkInsertRow 0 items ∅).2 with
    | some f => exact ⟨f, rfl⟩
    | none => exact absurd (Table.checkInsertRow_fresh hcheck).1 hno

theorem Table.applyInsertRows_error {t : Table} {replace : Bool}
    (h : (t.applyInsertRows env items replace).1 = .error f) :
    (t.applyInsertRows env items replace).2 = t := by
  unfold Table.applyInsertRows at h ⊢
  split at h
  · rfl
  · cases h

theorem Database.execWithOptions_cases (env : Env) (db : Database) (sql : Bytes) :
    (∃ f, db.execWithOptions env sql = (.error f, db)) ∨
      db.execWithOptions env sql =
        ((db.exec env sql).1, (db.exec env sql).2.countWrite sql (db.exec env sql).1) := by
  unfold Database.execWithOptions
  split
  · exact Or.inl ⟨_, rfl⟩
  · split
    · exact Or.inl ⟨_, rfl⟩
    · exact Or.inr rfl

theorem Database.exec_insert_cases (env : Env) (db : Database)
    (hinsert : hasPrefixFold (statementText sql) (str "INSERT") = true) :
    (∃ f, db.exec env sql = (.error f, db) ∧
      ∀ name replace items, db.insertRequest env (statementText sql) = .ok (name, replace, items) →
        replace = false ∧ ¬DistinctKeys items) ∨
    ∃ name replace items t, db.insertRequest env (statementText sql) = .ok (name, replace, items) ∧
      db.tables[name]? = some t ∧ (∀ item ∈ items, KeyedFor t.columns item) ∧
      db.exec env sql = ((t.applyInsertRows env items replace).1,
        { db with tables := db.tables.insert name (t.applyInsertRows env items replace).2 }) := by
  have hserves := Database.insertRequest_serves env db (statementText sql)
  unfold Database.exec
  rw [Database.read_insert hinsert]
  cases hrequest : db.insertRequest env (statementText sql) with
  | error e =>
    obtain ⟨f, hstmt⟩ := hserves.refused e hrequest
    rw [hstmt]
    exact Or.inl ⟨f, rfl, fun _ _ _ h => by cases h⟩
  | ok request =>
    obtain ⟨name, replace, items⟩ := request
    obtain ⟨t, ht, hkeys, hstmt | ⟨hplain, hdup, f, hstmt⟩⟩ :=
      hserves.stored name replace items hrequest
    · refine Or.inr ⟨name, replace, items, t, rfl, ht, hkeys, ?_⟩
      rw [hstmt]
      simp only [Stmt.run, ht]
      rfl
    · rw [hstmt]
      refine Or.inl ⟨f, rfl, fun _ _ _ h => ?_⟩
      cases h
      exact ⟨hplain, hdup⟩

/-- INSERT on the list of the entries of a table. -/
theorem Database.insert_refines (env : Env) (db : Database)
    (hinsert : hasPrefixFold (statementText sql) (str "INSERT") = true) :
    (∀ f, (db.execWithOptions env sql).1 = .error f → (db.execWithOptions env sql).2 = db) ∧
    (∀ r, (db.execWithOptions env sql).1 = .ok r → ∃ name replace items t t',
      db.insertRequest env (statementText sql) = .ok (name, replace, items) ∧
      db.tables[name]? = some t ∧
      (db.execWithOptions env sql).2.tables = db.tables.insert name t' ∧
      (t.OrderInv → t.Inserted items replace t')) ∧
    (env.Live → ∀ name items t, db.insertRequest env (statementText sql) = .ok
      (name, false, items) → db.tables[name]? = some t →
      ((∃ f, (db.execWithOptions env sql).1 = .error f) ↔ Table.Repeats t.rows items)) := by
  have hcases := Database.exec_insert_cases env db hinsert
  refine ⟨fun f hf => ?_, fun r hr => ?_, fun henv name items t hrequest ht => ?_⟩
  · rcases Database.execWithOptions_cases env db sql with ⟨e, hexec⟩ | hexec
    · rw [hexec]
    · rw [hexec] at hf ⊢
      simp only at hf ⊢
      rw [hf]
      rcases hcases with ⟨e, hrun, -⟩ | ⟨name, replace, items, t, -, ht, -, hrun⟩
      · rw [hrun]
        simp [Database.countWrite, isOk]
      · rw [hrun] at hf ⊢
        rw [Table.applyInsertRows_error hf, Map.insert_get? ht]
        simp [Database.countWrite, isOk]
  · rcases Database.execWithOptions_cases env db sql with ⟨e, hexec⟩ | hexec
    · rw [hexec] at hr
      cases hr
    · rw [hexec] at hr ⊢
      rcases hcases with ⟨e, hrun, -⟩ | ⟨name, replace, items, t, hrequest, ht, hkeys, hrun⟩
      · rw [hrun] at hr
        cases hr
      · rw [hrun] at hr ⊢
        exact ⟨name, replace, items, t, _, hrequest, ht, Database.tables_countWrite _, fun h =>
          Table.applyInsertRows_inserted h hkeys hr⟩
  · rw [Database.execWithOptions_live henv]
    rcases hcases with ⟨e, hrun, hdup⟩ | ⟨name', replace, items', t', hrequest', ht', -, hrun⟩
    · rw [hrun]
      exact ⟨fun _ => Table.Repeats.of_not_distinct (hdup _ _ _ hrequest).2, fun _ => ⟨e, rfl⟩⟩
    · rw [hrequest] at hrequest'
      cases hrequest'
      rw [ht] at ht'
      cases ht'
      rw [hrun]
      exact Table.applyInsertRows_error_iff henv

end Statement

def staleListed : Database :=
  Database.runAll {} (script
    ["CREATE TABLE t (k INT PRIMARY KEY, v INT)",
      "INSERT INTO t VALUES (1, 1), (2, 2), (3, 3), (4, 4), (5, 5)", "DELETE FROM t WHERE k = 2"])

def replaceStale : Bytes := str "INSERT OR REPLACE INTO t VALUES (2, 7), (3, 8), (2, 9)"

/-- The row 3 keeps its place; the row 2, whose key is stale, is appended and then replaced. -/
theorem Database.insert_refines_staleListed : ∃ t t' items,
    hasPrefixFold (statementText replaceStale) (str "INSERT") = true ∧
    staleListed.insertRequest {} (statementText replaceStale) = .ok (str "t", true, items) ∧
    staleListed.tables[str "t"]? = some t ∧ t.OrderInv ∧ t.dead = 1 ∧
    (staleListed.execWithOptions {} replaceStale).2.tables =
      staleListed.tables.insert (str "t") t' ∧
    t'.listing = Table.upserts t.listing items ∧
    t'.listing.map Prod.fst = [str "1", str "3", str "4", str "5", str "2"] := by
  obtain ⟨hinsert, hrequest, hok, ⟨u, hu, hinv, hdead, hprimary⟩, hafter⟩ :
      hasPrefixFold (statementText replaceStale) (str "INSERT") = true ∧
      (staleListed.insertRequest {} (statementText replaceStale)).toOption.map
        (fun r => (r.1, r.2.1)) = some (str "t", true) ∧
      (staleListed.execWithOptions {} replaceStale).1 = .ok { affected := 3 } ∧
      (∃ t ∈ staleListed.tables[str "t"]?, t.OrderInv ∧ t.dead = 1 ∧
        hasPrimaryColumn t.columns = true) ∧
      ((staleListed.execWithOptions {} replaceStale).2.tables[str "t"]?).map (fun t =>
        t.listing.map Prod.fst) = some [str "1", str "3", str "4", str "5", str "2"] := by
    decide +kernel
  have h := Database.insert_refines {} staleListed hinsert
  obtain ⟨name, replace, items, t, t', hreq, ht, htables, hinserted⟩ := h.2.1 _ hok
  rw [hreq] at hrequest
  obtain ⟨rfl, rfl⟩ := Prod.mk.inj (Option.some.inj hrequest)
  rw [htables, Map.get?_insert_self] at hafter
  obtain rfl : u = t := Option.some.inj (hu.symm.trans ht)
  exact ⟨u, t', items, hinsert, hreq, ht, hinv, hdead, htables, (hinserted hinv).keyed rfl hprimary,
    Option.some.inj hafter⟩

end SuperDB.Engine
