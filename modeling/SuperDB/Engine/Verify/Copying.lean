import SuperDB.Go.FloatInt
import SuperDB.Engine.Verify.Insertion
import SuperDB.Engine.Verify.FastScan

/-!
# Numbers that INSERT ... SELECT copies

A FLOAT value that is selected for an INT column is stored as the integer that it is, or the
statement fails. The range check of `coerceValue` has one value too many: `2 ^ 63`, its upper bound,
is no `int64`, and is stored as `-2 ^ 63`.
-/

namespace SuperDB.Engine

open Go

def Table.Stores (t : Table) (items : List InsertRow) (t' : Table) : Prop :=
  ∃ keys : List Bytes, List.Forall₂ (fun item k => item.key = [] ∨ item.key = k) items keys ∧
    t'.rows = (keys.zip (items.map (·.row))).foldl (fun rows p => rows.insert p.1 p.2) t.rows

/-- An INSERT ... SELECT that is accepted: the rows that its query selects, the table that they go
to, and the rows that it stores there. -/
structure Database.Copies (env : Env) (db : Database) (sql name : Bytes) (src : Result) (t : Table)
    (items : List InsertRow) : Prop where
  insert : hasPrefixFold (statementText sql) (str "INSERT") = true
  source : ∃ query, insertQuery (statementText sql) = some query ∧ db.selectRows env query = .ok src
  target : db.tables[name]? = some t
  request : ∃ replace, db.insertRequest env (statementText sql) = .ok (name, replace, items)
  accepted : ∃ r, (db.execWithOptions env sql).1 = .ok r

/-- The double `x` is selected for the INT column `c` in the row `i`. -/
def FloatCell (src : Result) (t : Table) (i : Nat) (c : Column) (x : Float64) : Prop :=
  ∃ (j : Nat) (cells : List Value), t.columns[j]? = some c ∧ c.type = .int ∧ src.rows[i]? =
    some cells ∧
      cells[j]? = some (.float x)

/-- Every double that is selected for an INT column is an integer, and is stored as this integer. -/
def ExactCopy (src : Result) (t : Table) (items : List InsertRow) : Prop :=
  ∀ i c x, FloatCell src t i c x →
    ∃ (n : Int64) (item : InsertRow), x.IsInt n.toInt ∧ items[i]? = some item ∧
      item.row.get c.name = .int n

/-- The value `v` is selected for a column of the type `typ`, and stored as `w`. -/
def CellCopy (typ : ColType) (src : Result) (t : Table) (items : List InsertRow) (v w : Value) :
    Prop :=
  ∃ (i j : Nat) (c : Column) (cells : List Value) (item : InsertRow),
    t.columns[j]? = some c ∧ c.type = typ ∧ src.rows[i]? = some cells ∧ cells[j]? = some v ∧
      items[i]? = some item ∧ item.row.get c.name = w

/-! ## One cell -/

section Cell

theorem Float64.IsInt.unique {x : Float64} {m n : Int} (hm : x.IsInt m) (hn : x.IsInt n) :
    m = n := by
  obtain ⟨f, rfl, hm⟩ := hm
  obtain ⟨g, hg, hn⟩ := hn
  cases hg
  exact_mod_cast hm.symm.trans hn

theorem coerceValue_float_int {x : Float64} {v : Value} (h : coerceValue (.float x) .int = .ok v) :
    ∃ n : Int, x.IsInt n ∧ -2 ^ 63 ≤ n ∧ n ≤ 2 ^ 63 ∧ v = .int (Int64.ofInt n) := by
  cases x with
  | finite f =>
    simp only [coerceValue] at h
    cases hint : Float64.toInt? f with
    | none =>
      rw [hint] at h
      cases h
    | some n =>
      rw [hint] at h
      simp only at h
      split at h
      · next hrange =>
        cases h
        exact ⟨n, ⟨f, rfl, Float64.toInt?_eq_some.1 hint⟩, hrange.1, hrange.2, rfl⟩
      · cases h
  | inf neg => cases h
  | nan => cases h

theorem coerceValue_round_trip {n : Int64} (h : n.toInt.natAbs ≤ 2 ^ 53) :
    coerceValue (.int n) .float = .ok (.float (Float64.ofInt n.toInt)) ∧
      coerceValue (.float (Float64.ofInt n.toInt)) .int = .ok (.int n) := by
  refine ⟨rfl, ?_⟩
  obtain ⟨f, hf, hvalue⟩ := Float64.ofInt_isInt h
  rw [hf]
  simp only [coerceValue, Float64.toInt?_eq_some.2 hvalue]
  rw [if_pos (by omega), Int64.ofInt_toInt]

end Cell

/-! ## The rows -/

section Rows

variable {columns : List Column} {lines : List (List Value)} {items : List InsertRow}

theorem selectedInsertRows_cell (hnodup : (columns.map (·.name)).Nodup)
    (h : selectedInsertRows columns lines = .ok items) {i j : Nat} {cells : List Value} {c : Column}
    (hcells : lines[i]? = some cells) (hc : columns[j]? = some c) :
    ∃ (item : InsertRow) (v : Value), items[i]? = some item ∧
      coerceValue (cells.getD j .null) c.type = .ok v ∧ item.row.get c.name = v := by
  obtain ⟨item, hitem, hbuild⟩ := getElem?_of_forall₂ (Table.forall₂_of_mapM h) hcells
  obtain ⟨⟨row, key⟩, hfill, hbuild⟩ := bind_ok hbuild
  have hrow : item.row = row := by
    simp only at hbuild
    split at hbuild
    · cases hbuild
    · cases hbuild
      rfl
  have hnames :
      ((columns.zip (columns.zipIdx.map fun p => cells.getD p.2 .null)).map (·.1.name)).Nodup := by
    have hfst : (columns.zip (columns.zipIdx.map fun p => cells.getD p.2 .null)).map (·.1) =
        columns :=
      List.map_fst_zip (by simp)
    have hnames := congrArg (List.map (·.name)) hfst
    rw [List.map_map] at hnames
    exact hnames ▸ hnodup
  have hpair :
      (c, cells.getD j .null) ∈ columns.zip (columns.zipIdx.map fun p => cells.getD p.2 .null) := by
    refine List.mem_of_getElem? (i := j) ?_
    rw [List.getElem?_zip_eq_some]
    refine ⟨hc, ?_⟩
    rw [List.getElem?_map, List.getElem?_zipIdx, hc]
    simp
  obtain ⟨v, hv, hget⟩ := (fillRow_spec hnames hfill).1 _ hpair
  exact ⟨item, v, hitem, hv, by rw [hrow, Row.get_eq hget]⟩

variable {env : Env} {t : Table}

theorem Table.applyInsertRow_rows (env : Env) (replace : Bool) (t : Table) (item : InsertRow) :
    ∃ key, (item.key = [] ∨ item.key = key) ∧
      (applyInsertRow env replace t item).rows = t.rows.insert key item.row := by
  unfold applyInsertRow
  by_cases hkey : item.key = []
  · refine ⟨t.nextSyntheticKeyLocked.1, Or.inl hkey, ?_⟩
    simp only [if_pos hkey]
    cases (if replace then t.nextSyntheticKeyLocked.2.rows[t.nextSyntheticKeyLocked.1]? else
      none) with
    | some old => exact congrArg Table.rows (replaceRow_core _ _ old item.row)
    | none => exact congrArg Table.rows (appendRow_core env _ _ item.row)
  · refine ⟨item.key, Or.inr rfl, ?_⟩
    simp only [if_neg hkey]
    cases (if replace then t.rows[item.key]? else none) with
    | some old => exact congrArg Table.rows (replaceRow_core t item.key old item.row)
    | none => exact congrArg Table.rows (appendRow_core env t item.key item.row)

theorem Table.foldl_applyInsertRow_stores (env : Env) (replace : Bool) (items : List InsertRow)
    (t : Table) :
    t.Stores items (items.foldl (applyInsertRow env replace) t) := by
  induction items generalizing t with
  | nil => exact ⟨[], .nil, rfl⟩
  | cons item items ih =>
    obtain ⟨key, hkey, hrows⟩ := applyInsertRow_rows env replace t item
    obtain ⟨keys, hkeys, hrest⟩ := ih (applyInsertRow env replace t item)
    refine ⟨key :: keys, .cons hkey hkeys, ?_⟩
    rw [List.foldl_cons, hrest, hrows]
    rfl

theorem Table.applyInsertRows_stores {replace : Bool} {r : Result}
    (h : (t.applyInsertRows env items replace).1 = .ok r) :
    t.Stores items (t.applyInsertRows env items replace).2 := by
  unfold applyInsertRows at h ⊢
  split at h
  · cases h
  · simp only
    split
    · have hstores := foldl_applyInsertRow_stores env replace items (t.reclaimOrder env)
      have hrows : (t.reclaimOrder env).rows = t.rows := by
        rw [← clearFast_rows, reclaimOrder_core]
        rfl
      unfold Stores at hstores ⊢
      rwa [hrows] at hstores
    · exact foldl_applyInsertRow_stores env replace items t

end Rows

/-! ## The statement -/

section Statement

variable {env : Env} {db : Database} {sql name : Bytes} {src : Result} {t : Table}
  {items : List InsertRow}

theorem Database.insertRequest_query {s query : Bytes} {replace : Bool}
    (hquery : insertQuery s = some query) (ht : db.tables[name]? = some t)
    (h : db.insertRequest env s = .ok (name, replace, items)) :
    db.queryRows env query t.columns = .ok items := by
  have hat : ∀ {off start : Nat} {replace' : Bool},
      db.requestAt s off start replace' (db.queryRows env query) = .ok (name, replace, items) →
      db.queryRows env query t.columns = .ok items := by
    intro off start replace' h
    unfold Database.requestAt at h
    split at h
    · cases h
    · obtain ⟨u, hu, h⟩ := bind_ok h
      obtain ⟨items', hitems, h⟩ := bind_ok h
      cases h
      rw [Database.table_ok hu] at ht
      cases ht
      exact hitems
  obtain ⟨⟨replace', body⟩, -, h⟩ := bind_ok h
  unfold insertQuery at hquery
  cases hv : indexKeyword s (str "VALUES") with
  | none =>
    cases hs : indexKeyword s (str "SELECT") with
    | none => simp [hv, hs] at hquery
    | some si =>
      simp only [hv, hs, Option.some.injEq] at hquery h
      rw [hquery] at h
      exact hat h
  | some vi =>
    cases hs : indexKeyword s (str "SELECT") with
    | none => simp [hv, hs] at hquery
    | some si =>
      simp only [hv, hs] at hquery h
      by_cases hlt : si < vi
      · rw [if_pos hlt, Option.some.injEq] at hquery
        rw [if_pos hlt, hquery] at h
        exact hat h
      · simp [hlt] at hquery

namespace Database.Copies

theorem selected (h : db.Copies env sql name src t items) :
    selectedInsertRows t.columns src.rows = .ok items := by
  obtain ⟨query, hquery, hsrc⟩ := h.source
  obtain ⟨replace, hrequest⟩ := h.request
  have hrows := Database.insertRequest_query hquery h.target hrequest
  unfold Database.queryRows at hrows
  rw [hsrc] at hrows
  replace hrows : (if src.columns.length ≠ t.columns.length then
    .error (fault "column count mismatch") else selectedInsertRows t.columns src.rows) =
      .ok items := hrows
  split at hrows
  · cases hrows
  · exact hrows

theorem stores (h : db.Copies env sql name src t items) :
    ∃ t', (db.execWithOptions env sql).2.tables[name]? = some t' ∧ t.Stores items t' := by
  obtain ⟨r, hr⟩ := h.accepted
  obtain ⟨replace, hrequest⟩ := h.request
  rcases Database.execWithOptions_cases env db sql with ⟨e, hexec⟩ | hexec
  · rw [hexec] at hr
    cases hr
  · rw [hexec] at hr ⊢
    rcases Database.exec_insert_cases env db h.insert with
      ⟨e, hrun, -⟩ | ⟨name', replace', items', u, hrequest', hu, -, hrun⟩
    · rw [hrun] at hr
      cases hr
    · rw [hrequest] at hrequest'
      cases hrequest'
      rw [h.target] at hu
      cases hu
      rw [hrun] at hr ⊢
      refine ⟨_, ?_, Table.applyInsertRows_stores hr⟩
      rw [Database.tables_countWrite, Map.get?_insert_self]

theorem exact_iff (h : db.Copies env sql name src t items)
    (hnodup : (t.columns.map (·.name)).Nodup) :
    ExactCopy src t items ↔ ∀ i c x, FloatCell src t i c x → ¬x.IsInt (2 ^ 63) := by
  constructor
  · intro hexact i c x hcell hbound
    obtain ⟨n, item, hn, -, -⟩ := hexact i c x hcell
    have hlt := n.toInt_lt
    have := Float64.IsInt.unique hn hbound
    omega
  · rintro hbound i c x ⟨j, cells, hc, htype, hrow, hx⟩
    obtain ⟨item, v, hitem, hv, hget⟩ := selectedInsertRows_cell hnodup h.selected hrow hc
    rw [List.getD_eq_getElem?_getD, hx, htype] at hv
    obtain ⟨n, hn, hlow, hhigh, rfl⟩ := coerceValue_float_int hv
    have hne : n ≠ 2 ^ 63 := fun e => hbound i c x ⟨j, cells, hc, htype, hrow, hx⟩ (e ▸ hn)
    have hint : (Int64.ofInt n).toInt = n := Int64.toInt_ofInt_of_le (by omega) (by omega)
    exact ⟨Int64.ofInt n, item, by rwa [hint], hitem, hget⟩

theorem cell (h : db.Copies env sql name src t items) (hnodup : (t.columns.map (·.name)).Nodup)
    {typ : ColType} {v w : Value} (hcell : CellCopy typ src t items v w) : coerceValue v typ =
      .ok w := by
  obtain ⟨i, j, c, cells, item, hc, rfl, hrow, hv, hitem, rfl⟩ := hcell
  obtain ⟨item', w, hitem', hw, rfl⟩ := selectedInsertRows_cell hnodup h.selected hrow hc
  rw [hitem] at hitem'
  cases hitem'
  rwa [List.getD_eq_getElem?_getD, hv] at hw

end Database.Copies

/-- Numbers that are copied between columns of different types. -/
theorem Database.copied_numbers (h : db.Copies env sql name src t items)
    (hnodup : (t.columns.map (·.name)).Nodup) :
    (∃ t', (db.execWithOptions env sql).2.tables[name]? = some t' ∧ t.Stores items t') ∧
    (ExactCopy src t items ↔ ∀ i c x, FloatCell src t i c x → ¬x.IsInt (2 ^ 63)) ∧
    ∀ (n : Int64) (v : Value), n.toInt.natAbs ≤ 2 ^ 53 → CellCopy .float src t items (.int n) v →
      coerceValue v .int = .ok (.int n) ∧
      ∀ (env' : Env) (db' : Database) (sql' name' : Bytes) (src' : Result) (t' : Table)
        (items' : List InsertRow), db'.Copies env' sql' name' src' t' items' →
        (t'.columns.map (·.name)).Nodup → ∀ w, CellCopy .int src' t' items' v w → w = .int n := by
  refine ⟨h.stores, h.exact_iff hnodup, fun n v hn hcell => ?_⟩
  obtain ⟨hwide, hback⟩ := coerceValue_round_trip hn
  have hv := h.cell hnodup hcell
  rw [hwide] at hv
  cases hv
  refine ⟨hback, fun env' db' sql' name' src' t' items' h' hnodup' w hcell' => ?_⟩
  have hw := h'.cell hnodup' hcell'
  rw [hback] at hw
  cases hw
  rfl

end Statement

/-- A FLOAT column with one value, and an INT column to copy it to. -/
def measured (v : String) : Database :=
  Database.runAll {} (script
    ["CREATE TABLE a (f FLOAT)", "INSERT INTO a VALUES (" ++ v ++ ")", "CREATE TABLE b (n INT)"])

def copyMeasured : Bytes := str "INSERT INTO b SELECT f FROM a"

def selectedFloat (x : Float64) : Result := { columns := [str "f"], rows := [[.float x]] }

theorem Database.copies_measured {v : String} {x : Float64} {n : Int64}
    (h : (measured v).selectRows {} (str "SELECT f FROM a") = .ok (selectedFloat x) ∧
      ((measured v).insertRequest {} (statementText copyMeasured)).toOption.map
        (fun r => (r.1, r.2.2.map fun item => item.row.get (str "n"))) = some (str "b", [.int n]) ∧
      ((measured v).tables[str "b"]?).map (·.columns) = some [⟨str "n", .int, false⟩] ∧
      ((measured v).execWithOptions {} copyMeasured).1 = .ok { affected := 1 }) :
    ∃ t item, (measured v).Copies {} copyMeasured (str "b") (selectedFloat x) t [item] ∧
      (t.columns.map (·.name)).Nodup ∧ t.columns = [⟨str "n", .int, false⟩] ∧
      item.row.get (str "n") = .int n := by
  obtain ⟨hsrc, hitems, ht, hok⟩ := h
  obtain ⟨t, ht, hcolumns⟩ := Option.map_eq_some_iff.1 ht
  obtain ⟨⟨name, replace, items⟩, hrequest, hvals⟩ := Option.map_eq_some_iff.1 hitems
  obtain ⟨rfl, hvals⟩ := Prod.mk.inj hvals
  obtain ⟨item, rfl, hitem⟩ := List.map_eq_singleton_iff.1 hvals
  refine ⟨t, item,
    ⟨by decide +kernel, ⟨_, by decide +kernel, hsrc⟩, ht, ⟨replace, toOption_eq_some hrequest⟩,
    _, hok⟩, ?_, hcolumns, hitem⟩
  rw [hcolumns]
  decide +kernel

/-- A copy of the number 5. -/
theorem Database.copied_numbers_five : ∃ t item,
    (measured "5").Copies {} copyMeasured (str "b") (selectedFloat (Float64.ofInt 5)) t
      [item] ∧
    (t.columns.map (·.name)).Nodup ∧
    ExactCopy (selectedFloat (Float64.ofInt 5)) t [item] ∧
    item.row.get (str "n") = .int 5 := by
  obtain ⟨t, item, hcopies, hnodup, hcolumns, hitem⟩ :=
    Database.copies_measured (v := "5") (x := Float64.ofInt 5) (n := 5) (by decide +kernel)
  have h := Database.copied_numbers hcopies hnodup
  refine ⟨t, item, hcopies, hnodup, h.2.1.2 ?_, hitem⟩
  rintro i c x ⟨j, cells, -, -, hrow, hx⟩ hbound
  have hfive : x = Float64.ofInt 5 := by
    match i, hrow with
    | 0, hrow =>
      cases hrow
      match j, hx with
      | 0, hx =>
        cases hx
        rfl
  rw [hfive] at hbound
  have := Float64.IsInt.unique hbound (Float64.ofInt_isInt (by decide))
  omega

/-- The bound itself is accepted, and stored as the smallest integer. -/
theorem Database.copied_numbers_bound : ∃ t item,
    (measured "9223372036854775808").Copies {} copyMeasured (str "b")
      (selectedFloat (Float64.ofInt (2 ^ 63))) t [item] ∧
    (t.columns.map (·.name)).Nodup ∧
    ¬ExactCopy (selectedFloat (Float64.ofInt (2 ^ 63))) t [item] ∧
    item.row.get (str "n") = .int Int64.minValue := by
  obtain ⟨t, item, hcopies, hnodup, hcolumns, hitem⟩ :=
    Database.copies_measured (v := "9223372036854775808") (x := Float64.ofInt (2 ^ 63))
      (n := Int64.minValue) (by decide +kernel)
  refine ⟨t, item, hcopies, hnodup, fun hexact => ?_, hitem⟩
  obtain ⟨n, item', hn, hitem', hget⟩ := hexact 0 ⟨str "n", .int, false⟩ (Float64.ofInt (2 ^ 63))
    ⟨0, _, by rw [hcolumns]; rfl, rfl, rfl, rfl⟩
  cases hitem'
  rw [hitem] at hget
  cases hget
  have hbound : (Float64.ofInt (2 ^ 63)).IsInt (2 ^ 63) :=
    ⟨⟨false, 2 ^ 52, 11, by decide⟩, by decide +kernel, by norm_num [FiniteFloat.value,
    FiniteFloat.magnitude]⟩
  have := Float64.IsInt.unique hn hbound
  revert this
  decide

end SuperDB.Engine
