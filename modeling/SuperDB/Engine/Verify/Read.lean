import SuperDB.Engine.Database

/-!
# What reading a statement guarantees

A statement that is read without an error is well formed: the columns of a CREATE TABLE have
distinct names and at most one of them is primary, every row of an INSERT has a cell of the right
type for each column and is keyed by its primary column, and an UPDATE assigns a value of the
column's type.
-/

namespace SuperDB.Engine

open Go

variable {s : Bytes} {columns : List Column} {v : Value} {rows : List InsertRow}

theorem toLower_ne_nil (h : s ≠ []) : toLower s ≠ [] := by
  unfold toLower
  split
  · simpa using h
  · cases s with
    | nil => exact absurd rfl h
    | cons a s =>
      have hrune : ∀ r, encodeRune r ≠ [] := by
        intro r
        unfold encodeRune
        split_ifs <;> simp
      simp only [runes, runesFrom, List.flatMap_cons]
      simp [hrune]

theorem fieldsFrom_ne_nil {skip : Nat} {cur f : Bytes} (h : f ∈ fieldsFrom skip cur s) :
    f ≠ [] := by
  induction s generalizing skip cur with
  | nil =>
    cases skip <;> simp only [fieldsFrom] at h <;> split at h <;> simp_all
  | cons a s ih =>
    cases skip with
    | succ skip => exact ih h
    | zero =>
      simp only [fieldsFrom] at h
      split at h
      · exact ih h
      · split at h
        · exact ih h
        · next hcur =>
          rcases List.mem_cons.1 h with rfl | h
          · simpa using hcur
          · exact ih h

theorem fields_ne_nil {f : Bytes} (h : f ∈ fields s) : f ≠ [] := fieldsFrom_ne_nil h

/-! ## Columns -/

structure ColumnsOk (columns : List Column) : Prop where
  names_nodup : (columns.map (·.name)).Nodup
  name_ne_nil : ∀ c ∈ columns, c.name ≠ []
  one_primary : ∀ c ∈ columns, ∀ d ∈ columns, c.primary = true → d.primary = true → c = d

theorem hasColumn_iff {name : Bytes} :
    hasColumn columns name = true ↔ name ∈ columns.map (·.name) := by
  simp [hasColumn, List.mem_map]

theorem hasPrimaryColumn_iff :
    hasPrimaryColumn columns = true ↔ ∃ c ∈ columns, c.primary = true := by
  simp [hasPrimaryColumn]

theorem ColumnsOk.nil : ColumnsOk [] := ⟨List.nodup_nil, by simp, by simp⟩

theorem ColumnsOk.concat {c : Column} (h : ColumnsOk columns)
    (hnew : hasColumn columns c.name = false) (hname : c.name ≠ [])
    (hprimary : c.primary = true → hasPrimaryColumn columns = false) :
    ColumnsOk (columns ++ [c]) where
  names_nodup := by
    rw [List.map_append, List.nodup_append]
    refine ⟨h.names_nodup, by simp, ?_⟩
    intro a ha b hb e
    simp only [List.map_cons, List.map_nil, List.mem_singleton] at hb
    rw [e, hb, ← hasColumn_iff, hnew] at ha
    cases ha
  name_ne_nil := by
    intro d hd
    rcases List.mem_append.1 hd with hd | hd
    · exact h.name_ne_nil d hd
    · rw [List.mem_singleton.1 hd]
      exact hname
  one_primary := by
    have hnone : ∀ d ∈ columns, d.primary = true → c.primary = true → False := by
      intro d hd hdp hcp
      have hno := hprimary hcp
      rw [hasPrimaryColumn_iff.2 ⟨d, hd, hdp⟩] at hno
      cases hno
    intro d hd e he hdp hep
    rcases List.mem_append.1 hd with hd | hd <;> rcases List.mem_append.1 he with he | he
    · exact h.one_primary d hd e he hdp hep
    · rw [List.mem_singleton.1 he] at hep
      exact (hnone d hd hdp hep).elim
    · rw [List.mem_singleton.1 hd] at hdp
      exact (hnone e he hep hdp).elim
    · rw [List.mem_singleton.1 hd, List.mem_singleton.1 he]

theorem ColumnsOk.sublist {columns' : List Column} (h : ColumnsOk columns)
    (hsub : columns'.Sublist columns) : ColumnsOk columns' where
  names_nodup := h.names_nodup.sublist (hsub.map _)
  name_ne_nil c hc := h.name_ne_nil c (hsub.subset hc)
  one_primary c hc d hd := h.one_primary c (hsub.subset hc) d (hsub.subset hd)

theorem parseColumns_ok {parts : List Bytes} {cols cols' : List Column} (hcols : ColumnsOk cols)
    (h : parseColumns cols parts = .ok cols') : ColumnsOk cols' := by
  induction parts generalizing cols with
  | nil =>
    cases h
    exact hcols
  | cons part parts ih =>
    simp only [parseColumns] at h
    split at h
    · next name type flags hfields =>
      split at h
      · cases h
      · next hnew =>
        split at h
        · cases h
        · split at h
          · cases h
          · next hprimary =>
            have hname : name ≠ [] := fields_ne_nil (s := part) (by rw [hfields]; simp)
            refine ih (hcols.concat (by simpa using hnew) (toLower_ne_nil hname) ?_) h
            intro hp
            simp only [Bool.and_eq_true, not_and, Bool.not_eq_true] at hprimary
            exact hprimary hp
    · cases h

/-! ## Cells -/

/-- A cell that a column of the given type can hold. -/
def HasType : Value → ColType → Prop
  | .null, _ => True
  | .int _, .int => True
  | .float _, .float => True
  | .text _, .text => True
  | .bool _, .bool => True
  | _, _ => False

theorem parseVal_hasType {raw : Bytes} {typ : ColType} (h : parseVal raw typ = .ok v) :
    HasType v typ := by
  unfold parseVal at h
  simp only at h
  split at h
  · cases h
    trivial
  · cases typ <;> simp only at h
    · split at h <;> cases h
      trivial
    · split at h <;> cases h
      trivial
    · cases h
      trivial
    · split at h <;> cases h
      trivial

theorem coerceValue_hasType {w : Value} {typ : ColType} (h : coerceValue v typ = .ok w) :
    HasType w typ := by
  unfold coerceValue at h
  simp only at h
  cases v with
  | null =>
    cases h
    trivial
  | int n => cases typ <;> cases h <;> trivial
  | bool b => cases typ <;> cases h <;> trivial
  | count n =>
    cases typ <;> cases h
    trivial
  | float x =>
    cases typ with
    | int =>
      cases x with
      | finite x =>
        simp only at h
        split at h
        · split at h <;> cases h
          trivial
        · cases h
      | inf neg => cases h
      | nan => cases h
    | float => cases h; trivial
    | text => cases h; trivial
    | bool => cases h
  | text s =>
    cases typ with
    | text => cases h; trivial
    | _ =>
      simp only at h
      split at h <;> cases h
      trivial

/-! ## Rows -/

/-- A row with a cell of the right type for each column and no other. -/
structure RowOk (columns : List Column) (row : Row) : Prop where
  dom : ∀ name, name ∈ row ↔ name ∈ columns.map (·.name)
  typed : ∀ c ∈ columns, HasType (row.get c.name) c.type

structure InsertOk (columns : List Column) (item : InsertRow) : Prop where
  row : RowOk columns item.row
  key_eq : ∀ c ∈ columns, c.primary = true → item.key = valueKey (item.row.get c.name)
  key_ne_nil : hasPrimaryColumn columns = true → item.key ≠ []
  key_nil : hasPrimaryColumn columns = false → item.key = []

theorem Row.get_eq {row : Row} {n : Bytes} (h : row[n]? = some v) : row.get n = v := by
  rw [Row.get, Map.getD_eq, h]
  rfl

section FillRow

variable {α : Type} {conv : α → ColType → Except Fault Value}

/-- What a filled row holds: the converted cell of each column, and what was there before under
every other name. The key is that of the last primary column. -/
theorem fillRow_spec {l : List (Column × α)} {row row' : Row} {key key' : Bytes}
    (hnodup : (l.map (·.1.name)).Nodup) (h : fillRow conv l row key = .ok (row', key')) :
    (∀ p ∈ l, ∃ v, conv p.2 p.1.type = .ok v ∧ row'[p.1.name]? = some v) ∧
    (∀ n, n ∉ l.map (·.1.name) → row'[n]? = row[n]?) ∧
    (∀ p ∈ l, p.1.primary = true → (∀ q ∈ l, q.1.primary = true → q.1 = p.1) →
      key' = valueKey (row'.get p.1.name)) ∧
    ((∀ p ∈ l, p.1.primary = false) → key' = key) := by
  induction l generalizing row key with
  | nil =>
    cases h
    simp
  | cons p l ih =>
    obtain ⟨c, x⟩ := p
    rw [List.map_cons, List.nodup_cons] at hnodup
    obtain ⟨v, hv, h⟩ := bind_ok h
    obtain ⟨hcells, hother, hkey, hnone⟩ := ih hnodup.2 h
    have hc : row'[c.name]? = some v := by
      rw [hother _ hnodup.1, Map.get?_insert_self]
    refine ⟨?_, ?_, ?_, ?_⟩
    · intro q hq
      rcases List.mem_cons.1 hq with rfl | hq
      · exact ⟨v, hv, hc⟩
      · exact hcells q hq
    · intro n hn
      simp only [List.map_cons, List.mem_cons, not_or] at hn
      rw [hother n hn.2, Map.get?_insert_of_ne (Ne.symm hn.1)]
    · intro q hq hqp honly
      -- the key comes from a later primary column if there is one, and else from this one
      by_cases hrest : ∃ q' ∈ l, q'.1.primary = true
      · obtain ⟨q', hq', hq'p⟩ := hrest
        have hsame : q'.1 = q.1 := honly q' (List.mem_cons_of_mem _ hq') hq'p
        rw [← hsame]
        refine hkey q' hq' hq'p fun r hr hrp => ?_
        rw [hsame]
        exact honly r (List.mem_cons_of_mem _ hr) hrp
      · have hlast : ∀ r ∈ l, r.1.primary = false := fun r hr => by
          by_contra hrp
          exact hrest ⟨r, hr, by simpa using hrp⟩
        rcases List.mem_cons.1 hq with rfl | hq
        · simp only at hqp
          rw [hnone hlast, if_pos hqp, Row.get_eq hc]
        · rw [hlast q hq] at hqp
          cases hqp
    · intro hno
      have hcp : c.primary = false := hno (c, x) List.mem_cons_self
      rw [hnone fun q hq => hno q (List.mem_cons_of_mem _ hq), hcp]
      rfl

theorem buildRow_ok {cells : List α} {item : InsertRow}
    (hconv : ∀ x typ v, conv x typ = .ok v → HasType v typ) (hcols : ColumnsOk columns)
    (hlen : cells.length = columns.length) (h : buildRow conv columns cells = .ok item) :
    InsertOk columns item := by
  obtain ⟨⟨row, key⟩, hfill, h⟩ := bind_ok h
  simp only at h
  split at h
  · cases h
  · next hreq =>
    cases h
    have hfst : (columns.zip cells).map (·.1) = columns := by
      rw [List.map_fst_zip (by omega)]
    have hnames : (columns.zip cells).map (·.1.name) = columns.map (·.name) := by
      rw [← hfst, List.map_map]
      simp [hfst]
    obtain ⟨hcells, hother, hkey, hnone⟩ :=
      fillRow_spec (by rw [hnames]; exact hcols.names_nodup) hfill
    have hpair : ∀ c ∈ columns, ∃ p ∈ columns.zip cells, p.1 = c := by
      intro c hc
      rw [← hfst] at hc
      obtain ⟨p, hp, e⟩ := List.mem_map.1 hc
      exact ⟨p, hp, e⟩
    have hmem : ∀ p ∈ columns.zip cells, p.1 ∈ columns := fun p hp => (List.of_mem_zip hp).1
    refine ⟨⟨?_, ?_⟩, ?_, ?_, ?_⟩
    · intro name
      constructor
      · intro hname
        by_contra hnot
        rw [Map.mem_iff] at hname
        obtain ⟨v, hv⟩ := hname
        rw [hother name (by rw [hnames]; exact hnot), Map.get?_empty] at hv
        cases hv
      · intro hname
        obtain ⟨c, hc, rfl⟩ := List.mem_map.1 hname
        obtain ⟨p, hp, rfl⟩ := hpair c hc
        obtain ⟨v, -, hv⟩ := hcells p hp
        exact Map.mem_of_get? hv
    · intro c hc
      obtain ⟨p, hp, rfl⟩ := hpair c hc
      obtain ⟨v, hv, hget⟩ := hcells p hp
      rw [Row.get_eq hget]
      exact hconv _ _ _ hv
    · intro c hc hp
      obtain ⟨p, hpm, rfl⟩ := hpair c hc
      exact hkey p hpm hp fun q hq hqp => hcols.one_primary _ (hmem q hq) _ hc hqp hp
    · intro hhas hnil
      exact hreq ⟨hnil, hhas⟩
    · intro hhas
      refine hnone fun p hp => ?_
      by_contra hprim
      rw [hasPrimaryColumn_iff.2 ⟨p.1, hmem p hp, by simpa using hprim⟩] at hhas
      cases hhas

end FillRow

/-! ## The rows of an INSERT -/

section InsertRows

variable {columns : List Column} {keepLast : Bool}

theorem flushRow_ok {rows' : List InsertRow} {vals : List Bytes} (hcols : ColumnsOk columns)
    (hrows : ∀ item ∈ rows, InsertOk columns item)
    (h : flushRow columns keepLast rows vals = .ok rows') :
    ∀ item ∈ rows', InsertOk columns item := by
  unfold flushRow at h
  split at h
  · cases h
  · next hlen =>
    obtain ⟨item, hitem, h⟩ := bind_ok h
    split at h <;> cases h
    intro i hi
    rcases List.mem_append.1 hi with hi | hi
    · exact hrows i hi
    · rw [List.mem_singleton.1 hi]
      exact buildRow_ok (fun _ _ _ => parseVal_hasType) hcols (by simpa using hlen) hitem

theorem RowScan.plainByte_ok {a : UInt8} {st st' : RowScan} (hcols : ColumnsOk columns)
    (hrows : ∀ item ∈ st.rows, InsertOk columns item)
    (h : st.plainByte columns keepLast a = .ok st') :
    ∀ item ∈ st'.rows, InsertOk columns item := by
  unfold RowScan.plainByte at h
  split at h
  · split at h <;> cases h <;> exact hrows
  · split at h
    · split at h
      · obtain ⟨rows, hflush, h⟩ := bind_ok h
        cases h
        exact flushRow_ok hcols hrows hflush
      · cases h
        exact hrows
    · split at h <;> cases h <;> exact hrows

theorem scanRows_ok {q : Quote} {st : RowScan} (hcols : ColumnsOk columns)
    (hrows : ∀ item ∈ st.rows, InsertOk columns item)
    (h : scanRows columns keepLast q st s = .ok rows) : ∀ item ∈ rows, InsertOk columns item := by
  induction s generalizing q st with
  | nil =>
    cases h
    exact hrows
  | cons a s ih =>
    simp only [scanRows] at h
    split at h
    · obtain ⟨st', hst, h⟩ := bind_ok h
      exact ih (st.plainByte_ok hcols hrows hst) h
    · refine ih ?_ h
      exact hrows

theorem parseInsertRowsMode_ok {raw : Bytes} (hcols : ColumnsOk columns)
    (h : parseInsertRowsMode raw columns keepLast = .ok rows) :
    ∀ item ∈ rows, InsertOk columns item := by
  obtain ⟨rows', hscan, h⟩ := bind_ok h
  split at h <;> cases h
  exact scanRows_ok hcols (by simp) hscan

theorem mapM_ok_forall {α β ε : Type} {f : α → Except ε β} {P : β → Prop} {l : List α}
    {l' : List β} (hf : ∀ a ∈ l, ∀ b, f a = .ok b → P b) (h : l.mapM f = .ok l') :
    ∀ b ∈ l', P b := by
  induction l generalizing l' with
  | nil =>
    cases h
    simp
  | cons a l ih =>
    rw [List.mapM_cons] at h
    obtain ⟨b, hb, h⟩ := bind_ok h
    obtain ⟨bs, hbs, h⟩ := bind_ok h
    cases h
    intro b' hb'
    rcases List.mem_cons.1 hb' with rfl | hb'
    · exact hf a List.mem_cons_self _ hb
    · exact ih (fun a ha => hf a (List.mem_cons_of_mem _ ha)) hbs b' hb'

theorem selectedInsertRows_ok {lines : List (List Value)} (hcols : ColumnsOk columns)
    (h : selectedInsertRows columns lines = .ok rows) : ∀ item ∈ rows, InsertOk columns item :=
  mapM_ok_forall
    (fun _ _ _ hb => buildRow_ok (fun _ _ _ => coerceValue_hasType) hcols (by simp) hb) h

end InsertRows

/-! ## Statements -/

def OpOk (columns : List Column) : TableOp → Prop
  | .insert rows _ => ∀ item ∈ rows, InsertOk columns item
  | .update column v _ _ => ∃ c ∈ columns, c.name = column ∧ HasType v c.type
  | .addColumn name _ => name ≠ []
  | _ => True

def StmtOk (db : Database) : Stmt → Prop
  | .create _ columns => ColumnsOk columns
  | .table name op => ∃ t, db.tables[name]? = some t ∧ OpOk t.columns op
  | .dropTable _ _ => True
  | .reply _ => True

def Database.All (P : Table → Prop) (db : Database) : Prop :=
  ∀ (name : Bytes) (t : Table), db.tables[name]? = some t → P t

section Statements

variable {env : Env} {db : Database} {s : Bytes} {stmt : Stmt}

theorem Database.table_ok {name : Bytes} {t : Table} (h : db.table name = .ok t) :
    db.tables[toLower name]? = some t := by
  unfold Database.table at h
  split at h
  · next t' ht =>
    cases h
    exact ht
  · cases h

theorem Database.onTable_ok {name : Bytes} {op : TableOp} (h : db.onTable name op = .ok stmt)
    (hop : ∀ columns, OpOk columns op) : StmtOk db stmt := by
  obtain ⟨t, ht, h⟩ := bind_ok h
  cases h
  exact ⟨t, Database.table_ok ht, hop _⟩

theorem createStmt_ok (h : createStmt s = .ok stmt) : StmtOk db stmt := by
  unfold createStmt at h
  split at h
  · split at h
    · cases h
    · split at h
      · obtain ⟨cols, hcols, h⟩ := bind_ok h
        cases h
        exact parseColumns_ok ColumnsOk.nil hcols
      · cases h
  · cases h

theorem Database.createIndexStmt_ok (h : db.createIndexStmt s = .ok stmt) : StmtOk db stmt := by
  unfold Database.createIndexStmt at h
  simp only at h
  split at h
  · split at h
    · cases h
    · split at h
      · cases h
      · split at h
        · cases h
        · exact Database.onTable_ok h fun _ => trivial
  · cases h

theorem Database.alterTableStmt_ok (h : db.alterTableStmt s = .ok stmt) : StmtOk db stmt := by
  unfold Database.alterTableStmt at h
  simp only at h
  split at h
  · split at h
    · split at h
      · exact Database.onTable_ok h fun _ => trivial
      · cases h
    · split at h
      · split at h
        · obtain ⟨t, ht, h⟩ := bind_ok h
          split at h
          · split at h
            · cases h
            · next hname =>
              cases h
              exact ⟨t, Database.table_ok ht, hname⟩
          · cases h
        · cases h
      · cases h
  · cases h

theorem Database.dropStmt_ok (h : db.dropStmt s = .ok stmt) : StmtOk db stmt := by
  unfold Database.dropStmt at h
  split at h
  · simp only [dropTableStmt] at h
    split_ifs at h <;> cases h <;> trivial
  · unfold Database.dropIndexStmt at h
    simp only at h
    split at h
    · cases h
    · split at h
      · cases h
      · exact Database.onTable_ok h fun _ => trivial

theorem Database.truncateStmt_ok (h : db.truncateStmt s = .ok stmt) : StmtOk db stmt := by
  unfold Database.truncateStmt at h
  simp only at h
  split at h
  · exact Database.onTable_ok h fun _ => trivial
  · cases h

theorem Database.insertValuesStmt_ok {off start : Nat} {replace : Bool}
    (hcols : db.All fun t => ColumnsOk t.columns)
    (h : db.insertValuesStmt s off start replace = .ok stmt) : StmtOk db stmt := by
  unfold Database.insertValuesStmt at h
  split at h
  · cases h
  · obtain ⟨t, ht, h⟩ := bind_ok h
    obtain ⟨rows, hrows, h⟩ := bind_ok h
    cases h
    have hget := Database.table_ok ht
    exact ⟨t, hget, parseInsertRowsMode_ok (hcols _ t hget) hrows⟩

theorem Database.insertSelectStmt_ok {off start : Nat} {replace : Bool}
    (hcols : db.All fun t => ColumnsOk t.columns)
    (h : db.insertSelectStmt env s off start replace = .ok stmt) : StmtOk db stmt := by
  unfold Database.insertSelectStmt at h
  split at h
  · cases h
  · obtain ⟨t, ht, h⟩ := bind_ok h
    obtain ⟨src, -, h⟩ := bind_ok h
    split at h
    · cases h
    · obtain ⟨rows, hrows, h⟩ := bind_ok h
      cases h
      have hget := Database.table_ok ht
      exact ⟨t, hget, selectedInsertRows_ok (hcols _ t hget) hrows⟩

theorem Database.insertStmt_ok (hcols : db.All fun t => ColumnsOk t.columns)
    (h : db.insertStmt env s = .ok stmt) : StmtOk db stmt := by
  obtain ⟨⟨replace, body⟩, -, h⟩ := bind_ok h
  simp only at h
  split at h
  · cases h
  · exact Database.insertValuesStmt_ok hcols h
  · exact Database.insertSelectStmt_ok hcols h
  · split at h
    · exact Database.insertSelectStmt_ok hcols h
    · exact Database.insertValuesStmt_ok hcols h

theorem Database.updateStmt_ok (h : db.updateStmt s = .ok stmt) : StmtOk db stmt := by
  unfold Database.updateStmt at h
  split at h
  · cases h
  · split at h
    · obtain ⟨t, ht, h⟩ := bind_ok h
      simp only at h
      split at h
      · cases h
      · split at h
        · cases h
        · next c hc =>
          obtain ⟨v, hv, h⟩ := bind_ok h
          obtain ⟨w, -, h⟩ := bind_ok h
          obtain ⟨expected, -, h⟩ := bind_ok h
          cases h
          have hname := List.find?_some hc
          exact ⟨t, Database.table_ok ht, c, List.mem_of_find?_eq_some hc,
            by simpa using hname, parseVal_hasType hv⟩
    · cases h

theorem Database.deleteStmt_ok (h : db.deleteStmt s = .ok stmt) : StmtOk db stmt := by
  unfold Database.deleteStmt at h
  split at h
  · cases h
  · obtain ⟨t, ht, h⟩ := bind_ok h
    obtain ⟨w, -, h⟩ := bind_ok h
    obtain ⟨expected, -, h⟩ := bind_ok h
    cases h
    exact ⟨t, Database.table_ok ht, trivial⟩

theorem replyStmt_ok {r : Except Fault Result} (h : replyStmt r = .ok stmt) : StmtOk db stmt := by
  cases r with
  | error f => cases h
  | ok r =>
    cases h
    trivial

/-- **A statement that is read without an error is well formed.** -/
theorem Database.read_ok {sql : Bytes} (hcols : db.All fun t => ColumnsOk t.columns)
    (h : db.read env sql = .ok stmt) : StmtOk db stmt := by
  unfold Database.read at h
  simp only at h
  split at h
  · exact createStmt_ok h
  split at h
  · exact Database.createIndexStmt_ok h
  split at h
  · exact Database.alterTableStmt_ok h
  split at h
  · exact Database.dropStmt_ok h
  split at h
  · exact Database.truncateStmt_ok h
  split at h
  · exact Database.insertStmt_ok hcols h
  split at h
  · exact replyStmt_ok h
  split at h
  · exact replyStmt_ok h
  split at h
  · exact Database.updateStmt_ok h
  split at h
  · exact Database.deleteStmt_ok h
  · cases h

end Statements

end SuperDB.Engine
