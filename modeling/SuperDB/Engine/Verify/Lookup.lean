import SuperDB.Engine.Verify.Counting
import SuperDB.Engine.Verify.IndexExact
import SuperDB.Engine.Verify.Projection

/-!
# Lookups and scans

A bare equality with the primary column is answered by the key of its literal, one with an indexed
column by the bucket of that key. Both read the rows of the table; a scan reads the keys that
`order` lists, or the fast array. Where these list the rows once each, and the text NULL is not met
in place of the value NULL, a lookup and a scan find the same rows.
-/

namespace SuperDB.Engine

open Go

/-! ## The literal of an equality -/

def literalOf (raw : Bytes) (typ : ColType) : Value :=
  match parseVal raw typ with
  | .ok v => v
  | .error _ => .text raw

theorem literalOf_eq {raw : Bytes} {typ : ColType} (h : typ ≠ .float) :
    (∀ x, literalOf raw typ ≠ .float x) ∧ ∀ n, literalOf raw typ ≠ .count n := by
  unfold literalOf
  cases hparse : parseVal raw typ with
  | error f => exact ⟨fun x hx => (nomatch hx), fun n hn => (nomatch hn)⟩
  | ok v =>
    have htyped := parseVal_hasType hparse
    refine ⟨fun x hx => ?_, fun n hn => ?_⟩
    · obtain rfl : v = .float x := hx
      cases typ with
      | float => exact h rfl
      | _ => exact htyped
    · obtain rfl : v = .count n := hn
      cases typ <;> exact htyped

theorem conditionValueEqual_literalOf {raw : Bytes} {typ : ColType} (h : typ ≠ .float) (v : Value) :
    conditionValueEqual v (literalOf raw typ) = true ↔ v = literalOf raw typ := by
  obtain ⟨hfloat, hcount⟩ : (∀ x, literalOf raw typ ≠ .float x) ∧
      ∀ n, literalOf raw typ ≠ .count n :=
    literalOf_eq h
  generalize literalOf raw typ = e at hfloat hcount
  cases e with
  | float x => exact absurd rfl (hfloat x)
  | count n => exact absurd rfl (hcount n)
  | null => simp [conditionValueEqual]
  | _ => cases v <;> simp [conditionValueEqual]

theorem find?_name {l : List Column} {c : Column} (hc : c ∈ l)
    (honly : ∀ d ∈ l, d.name = c.name → d = c) :
    l.find? (·.name == c.name) = some c := by
  have hsome : (l.find? (·.name == c.name)).isSome :=
    List.find?_isSome.2 ⟨c, hc, beq_self_eq_true c.name⟩
  obtain ⟨d, hd⟩ := Option.isSome_iff_exists.1 hsome
  have hname := List.find?_some hd
  rw [hd, honly d (List.mem_of_find?_eq_some hd) (eq_of_beq hname)]

section Column

variable {t : Table} {c : Column} (hcols : ColumnsOk t.columns) (hc : c ∈ t.columns)

include hcols hc

theorem columnType_name : columnType t.columns c.name = some c.type := by
  unfold columnType
  rw [find?_name (List.mem_reverse.2 hc) fun d hd => hcols.eq_of_name (List.mem_reverse.1 hd) hc]
  rfl

theorem equalityKey_eq (raw : Bytes) : t.equalityKey c.name raw =
    valueKey (literalOf raw c.type) := by
  unfold Table.equalityKey literalOf
  rw [find?_name hc fun d hd => hcols.eq_of_name hd hc]
  simp only
  cases parseVal raw c.type <;> rfl

variable {cond raw : Bytes} {compiled : CompiledCondition}

theorem compileCondition_equality (htrim : trimSpace cond = cond)
    (hsides : simpleEquality cond = some (c.name, raw)) (hname : IdentifierName c.name)
    (hcompile : compileCondition cond t.columns = some compiled) :
    compiled = [[⟨c.name, .one (literalOf raw c.type), .eq⟩]] := by
  obtain ⟨typ, htype, rfl⟩ := compileCondition_sides htrim hsides hname hcompile
  rw [columnType_name hcols hc] at htype
  cases htype
  rfl

end Column

namespace Table

/-! ## The primary key -/

section Key

variable {env : Env} {q : Query} {t : Table} {key : Bytes} {compiled : CompiledCondition}

theorem keyRows_none (hfast : t.FastInv) (hrow : t.rows[key]? = none) : t.keyRows q key = [] := by
  have hnot : key ∉ t.rows := Map.not_mem_iff.2 hrow
  unfold keyRows
  rw [hfast.fastPos_none_of_not_mem hnot, hrow]

theorem keyRows_some (hfast : t.FastInv)
    (hnames : ∀ name ∈ q.names, hasColumn t.columns name = true)
    {row : Row} (hrow : t.rows[key]? = some row) :
    t.keyRows q key =
      if key = [] ∧ t.fastPos[key]?.isSome then [] else [selectedValues row q.names] := by
  unfold keyRows
  cases hpos : t.fastPos[key]? with
  | none =>
    rw [hrow, if_neg fun h => Bool.false_ne_true h.2]
  | some i =>
    obtain ⟨row', hrow', hat⟩ := hfast.entry key i hpos
    rw [hrow] at hrow'
    cases hrow'
    have hne : t.fast ≠ [] := by
      intro hnil
      rw [hnil] at hat
      cases hat
    simp only [hat, hfast.columns hne, selectedFastValues_rowValues hnames, Option.isSome_some,
      and_true]

theorem filter_eq_singleton {p : Bytes → Bool} {l : List Bytes} (hp : p key = true)
    (honly : ∀ k ∈ l, p k = true → k = key) (hcount : l.count key = 1) : l.filter p = [key] := by
  have hall : l.filter p = List.replicate (l.filter p).length key := by
    refine List.eq_replicate_iff.2 ⟨rfl, fun k hk => ?_⟩
    exact honly k (List.mem_of_mem_filter hk) (List.mem_filter.1 hk).2
  have hlength : (l.filter p).length = 1 := by
    rw [← hcount, ← List.count_filter hp, hall, List.count_replicate_self, List.length_replicate]
  rw [hall, hlength]
  rfl

/-- The row under the looked up key meets the condition and is listed once, and its key is not the
empty one while the fast array holds it; a name that is no identifier may moreover be read as
another condition, which must select no other row. -/
def KeyFound (compiled : CompiledCondition) (key : Bytes) (t : Table) : Prop :=
  (∀ row : Row, t.rows[key]? = some row → compiled.matchesMap row = true ∧ t.order.count key = 1 ∧
    (key = [] → t.fastPos[key]? = none)) ∧
  (¬IdentifierName t.primaryColumn → ∀ k ∈ t.order, ∀ row : Row, t.rows[k]? = some row →
    compiled.matchesMap row = true → k = key)

theorem selectOrder_filter (henv : env.Live) (hrows : env.maxRows = 0)
    (hdistinct : q.distinct = false)
    (horder : q.tail.orderColumn = []) (hoffset : q.tail.offset = 0)
    (compiled : CompiledCondition) :
    t.selectOrder env q none compiled = .ok
      { columns := q.names
        rows := (t.order.filter (t.meets q.tail.cond compiled)).map (t.lineOf q.names) } := by
  rw [selectOrder_lines henv horder (fun c (hc : none = some c) => nomatch hc), hrows,
    candidates_eq_filter hdistinct, hoffset]
  rfl

theorem selectPlain_key (henv : env.Live) (hrows : env.maxRows = 0) (hlimit : q.tail.limit = none)
    (hoffset : q.tail.offset = 0) (hkey : t.simpleKey q.tail.cond = some (t.primaryColumn, key)) :
    t.selectPlain env q = .ok { columns := q.names, rows := t.keyRows q key } := by
  have hpath : t.path q = .key key := by
    unfold path
    rw [hkey, Option.filter_some, if_pos (decide_eq_true rfl)]
  have hall : t.selectBy env q (.key key) =
      .ok { columns := q.names, rows := t.whole env q [] (.key key) } :=
    selectBy_whole henv hlimit hoffset hrows (Or.inl ⟨key, rfl⟩)
  rw [selectPlain_eq, hpath, hall]
  rfl

theorem aggregateResult_key (hkey : t.simpleKey q.tail.cond = some (t.primaryColumn, key))
    (hcompile : compileCondition q.tail.cond t.columns = some compiled) :
    t.aggregateResult env .count (str "COUNT(*)") q.tail.cond =
      .ok (oneCell (toLower (trimSpace (str "COUNT(*)")))
        (.count (if key ∈ t.rows then 1 else 0))) := by
  have hne : q.tail.cond ≠ [] := by
    intro hnil
    rw [hnil] at hkey
    cases hkey
  rw [aggregateResult_eq, aggregatePlan_countStar hcompile, countPlan, if_neg hne, hkey]
  simp only
  rw [if_pos trivial]
  rfl

theorem aggregateBy_scan (henv : env.Live) (hfast : t.fast = []) (expression cond : Bytes)
    (compiled : CompiledCondition) :
    t.aggregateBy env .count expression cond (.scan true (str "*") compiled) =
      .ok (oneCell (toLower (trimSpace expression))
        (.count (t.order.countP (t.meets cond compiled)))) := by
  obtain ⟨c, hc, hcount⟩ := aggregateScan_star t compiled cond henv
    (toLower (trimSpace expression))
  rw [if_neg (not_not.2 hfast)] at hcount
  rw [← hcount]
  exact ok_bind hc rfl

end Key

section Found

variable {t : Table} {cond key : Bytes} {compiled : CompiledCondition} {names : List Bytes}

theorem meets_iff (hne : cond ≠ []) (k : Bytes) :
    t.meets cond compiled k = true ↔
      ∃ row : Row, t.rows[k]? = some row ∧ compiled.matchesMap row = true := by
  rw [meets, Option.any_eq_true]
  simp only [decide_eq_false hne, Bool.false_or]

theorem listed_of_agrees {c : Column} (hfast : t.FastInv) (hc : c ∈ t.columns)
    (hkeys : ∀ (key : Bytes) (row : Row), t.rows[key]? = some row → key = valueKey (row.get c.name))
    (hne : cond ≠ []) {headEnd : Nat}
    (hall : t.keyRows ⟨t.columns.map (·.name), false, { cond, headEnd }⟩ key =
      (t.order.filter (t.meets cond compiled)).map fun k =>
        selectedValues (t.rows.getD k ∅) (t.columns.map (·.name)))
    (hlength : (t.order.filter (t.meets cond compiled)).length = 1) {row : Row}
    (hrow : t.rows[key]? = some row) :
    t.order.filter (t.meets cond compiled) = [key] ∧ (key = [] → t.fastPos[key]? = none) := by
  obtain ⟨k, hk⟩ := List.length_eq_one_iff.1 hlength
  rw [hk, List.map_singleton, keyRows_some hfast (fun name => hasColumn_iff.2) hrow] at hall
  split at hall
  · cases hall
  · next hpos =>
    have hmeet : t.meets cond compiled k = true :=
      (List.mem_filter.1 (hk ▸ List.mem_singleton_self k)).2
    obtain ⟨row', hrow', -⟩ := (meets_iff hne k).1 hmeet
    have hcell : row.get c.name = row'.get c.name := by
      have hline := (List.cons.inj hall).1
      rw [Map.getD_eq, hrow'] at hline
      exact List.map_inj_left.1 hline c.name (List.mem_map_of_mem hc)
    have hsame : k = key := by
      rw [hkeys k row' hrow', ← hcell, ← hkeys key row hrow]
    refine ⟨hsame ▸ hk, fun hnil => ?_⟩
    by_contra hsome
    exact hpos ⟨hnil, Option.isSome_iff_ne_none.2 hsome⟩

theorem keyFound_of_listed (hne : cond ≠ [])
    (hlisted : ∀ row : Row, t.rows[key]? = some row →
      t.order.filter (t.meets cond compiled) = [key] ∧ (key = [] → t.fastPos[key]? = none))
    (hnone : t.rows[key]? = none → t.order.filter (t.meets cond compiled) = []) :
    t.KeyFound compiled key := by
  refine ⟨fun row hrow => ?_, fun _ k hk row hrow hmatch => ?_⟩
  · obtain ⟨hlist, hempty⟩ := hlisted row hrow
    have hmeet : t.meets cond compiled key = true :=
      (List.mem_filter.1 (hlist ▸ List.mem_singleton_self key)).2
    obtain ⟨row', hrow', hmatch⟩ := (meets_iff hne key).1 hmeet
    rw [hrow] at hrow'
    cases hrow'
    refine ⟨hmatch, ?_, hempty⟩
    rw [← List.count_filter hmeet, hlist, List.count_singleton_self]
  · have hin : k ∈ t.order.filter (t.meets cond compiled) :=
      List.mem_filter.2 ⟨hk, (meets_iff hne k).2 ⟨row, hrow, hmatch⟩⟩
    cases hrowK : t.rows[key]? with
    | none =>
      rw [hnone hrowK] at hin
      cases hin
    | some rowK =>
      rw [(hlisted rowK hrowK).1] at hin
      exact List.mem_singleton.1 hin

theorem KeyFound.listed (h : t.KeyFound compiled key) (hne : cond ≠ [])
    (honly : IdentifierName t.primaryColumn → ∀ k, t.meets cond compiled k = true → k = key) :
    t.order.filter (t.meets cond compiled) = if key ∈ t.rows then [key] else [] := by
  have honly' : ∀ k ∈ t.order, t.meets cond compiled k = true → k = key := by
    intro k hk hmeet
    by_cases hident : IdentifierName t.primaryColumn
    · exact honly hident k hmeet
    · obtain ⟨row, hrow, hmatch⟩ := (meets_iff hne k).1 hmeet
      exact h.2 hident k hk row hrow hmatch
  cases hrow : t.rows[key]? with
  | none =>
    rw [if_neg (Map.not_mem_iff.2 hrow), List.filter_eq_nil_iff]
    intro k hk hmeet
    obtain ⟨row, hrow', -⟩ := (meets_iff hne key).1 (honly' k hk hmeet ▸ hmeet)
    rw [hrow] at hrow'
    cases hrow'
  | some row =>
    obtain ⟨hmatch, honce, -⟩ := h.1 row hrow
    rw [if_pos (Map.mem_of_get? hrow),
      filter_eq_singleton ((meets_iff hne key).2 ⟨row, hrow, hmatch⟩) honly' honce]

theorem KeyFound.keyRows (h : t.KeyFound compiled key) (hfast : t.FastInv) {q : Query}
    (hnames : ∀ name ∈ q.names, hasColumn t.columns name = true) :
    t.keyRows q key =
      (if key ∈ t.rows then [key] else []).map fun k =>
        selectedValues (t.rows.getD k ∅) q.names := by
  cases hrow : t.rows[key]? with
  | none =>
    rw [keyRows_none hfast hrow, if_neg (Map.not_mem_iff.2 hrow)]
    rfl
  | some row =>
    have hpos : ¬(key = [] ∧ t.fastPos[key]?.isSome = true) := by
      rintro ⟨hnil, hsome⟩
      rw [(h.1 row hrow).2.2 hnil] at hsome
      cases hsome
    rw [keyRows_some hfast hnames hrow, if_neg hpos, if_pos (Map.mem_of_get? hrow),
      List.map_singleton, Map.getD_eq, hrow]
    rfl

end Found

end Table

/-- The lookup of a key against the scan of `order`. -/
theorem key_lookup_iff {env : Env} {t : Table} {c : Column} {cond raw : Bytes} {headEnd : Nat}
    {compiled : CompiledCondition} (henv : env.Live) (hrows : env.maxRows = 0) (hwf : t.Wf)
    (hfast : t.FastInv) (hc : c ∈ t.columns) (hprimary : c.primary = true) (htype : c.type ≠ .float)
    (hkeys : ∀ (key : Bytes) (row : Row), t.rows[key]? = some row → key = valueKey (row.get c.name))
    (htrim : trimSpace cond = cond) (hsides : simpleEquality cond = some (c.name, raw))
    (hcompile : compileCondition cond t.columns = some compiled) :
    ((∀ names, (∀ name ∈ names, hasColumn t.columns name = true) →
        t.selectPlain env ⟨names, false, { cond, headEnd }⟩ =
          t.selectOrder env ⟨names, false, { cond, headEnd }⟩ none compiled) ∧
      t.aggregateResult env .count (str "COUNT(*)") cond =
        t.clearFast.aggregateBy env .count (str "COUNT(*)") cond (.scan true (str "*") compiled)) ↔
      t.KeyFound compiled (t.equalityKey c.name raw) := by
  have hname : t.primaryColumn = c.name := Table.primaryColumn_eq hwf.columns hc hprimary
  have hne : cond ≠ [] := by
    rintro rfl
    cases hsides
  have hsimple : t.simpleKey cond = some (t.primaryColumn, t.equalityKey c.name raw) := by
    rw [Table.simpleKey, hsides, hname]
    rfl
  generalize hK : t.equalityKey c.name raw = key at hsimple
  -- behind an identifier the condition compares with the literal, whose key is the key looked up
  have honly : IdentifierName t.primaryColumn → ∀ k, t.meets cond compiled k = true → k = key := by
    intro hident k hk
    obtain ⟨row, hrow, hmatch⟩ := (Table.meets_iff hne k).1 hk
    rw [compileCondition_equality hwf.columns hc htrim hsides (hname ▸ hident) hcompile,
      matchesMap_equality, conditionValueEqual_literalOf htype] at hmatch
    rw [hkeys k row hrow, hmatch, ← hK, equalityKey_eq hwf.columns hc]
  have hselect : ∀ names, (∀ name ∈ names, hasColumn t.columns name = true) →
      (t.selectPlain env ⟨names, false, { cond, headEnd }⟩ =
          t.selectOrder env ⟨names, false, { cond, headEnd }⟩ none compiled ↔
        t.keyRows ⟨names, false, { cond, headEnd }⟩ key =
          (t.order.filter (t.meets cond compiled)).map fun k =>
            selectedValues (t.rows.getD k ∅) names) := by
    intro names hnames
    rw [Table.selectPlain_key henv hrows rfl rfl hsimple,
      Table.selectOrder_filter henv hrows rfl rfl rfl,
      show t.lineOf names = fun k =>
        selectedValues (t.rows.getD k ∅) names from funext (hfast.lineOf hnames)]
    simp
  have hcount : t.aggregateResult env .count (str "COUNT(*)") cond =
      t.clearFast.aggregateBy env .count (str "COUNT(*)") cond (.scan true (str "*") compiled) ↔
        (if key ∈ t.rows then 1 else 0) = (t.order.filter (t.meets cond compiled)).length := by
    rw [Table.aggregateResult_key (q := ⟨[], false, { cond, headEnd }⟩) hsimple hcompile,
      Table.aggregateBy_scan henv rfl, ← List.countP_eq_length_filter]
    simp only [oneCell, Except.ok.injEq, Result.mk.injEq, List.cons.injEq, Value.count.injEq,
      and_true, true_and]
    rfl
  rw [hcount]
  constructor
  · rintro ⟨hsel, hlength⟩
    have hall := (hselect (t.columns.map (·.name)) fun name => hasColumn_iff.2).1
      (hsel _ fun name => hasColumn_iff.2)
    refine Table.keyFound_of_listed hne (fun row hrow => ?_) fun hrow => ?_
    · rw [if_pos (Map.mem_of_get? hrow)] at hlength
      exact Table.listed_of_agrees hfast hc hkeys hne hall hlength.symm hrow
    · rw [if_neg (Map.not_mem_iff.2 hrow)] at hlength
      exact List.length_eq_zero_iff.1 hlength.symm
  · intro hfound
    have hlisted := hfound.listed hne honly
    refine ⟨fun names hnames => (hselect names hnames).2 ?_, ?_⟩
    · rw [hlisted]
      exact hfound.keyRows hfast hnames
    · rw [hlisted]
      split <;> rfl

def textKeyed : Database :=
  Database.runAll {}
    (script ["CREATE TABLE t (id TEXT PRIMARY KEY)", "INSERT INTO t VALUES ('NULL')"])

/-- The value NULL has the key of the text NULL. -/
theorem key_lookup_null :
    textKeyed.selectRows {} (str "SELECT id FROM t WHERE id = NULL") =
      .ok { columns := [str "id"], rows := [[.text (str "NULL")]] } ∧
    ((textKeyed.table (str "t")).toOption.bind fun t =>
      (compileCondition (str "id = NULL") t.columns).map fun compiled =>
        t.selectOrder {} ⟨[str "id"], false, { cond := str "id = NULL", headEnd := 2 }⟩ none
          compiled) =
      some (.ok { columns := [str "id"] }) := by
  decide +kernel

theorem indexedRows_inv {t : Table} (ht : indexedRows.table (str "t") = .ok t) : t.Wf ∧ t.FastInv :=
  Database.runAll_fastInv (uncancelled_script _) _ t (Database.table_ok ht)

theorem key_lookup_two : ∃ (t : Table) (c : Column) (compiled : CompiledCondition), t.Wf ∧
    t.FastInv ∧ c ∈ t.columns ∧ c.primary = true ∧ c.type ≠ .float ∧
    (∀ (key : Bytes) (row : Row), t.rows[key]? = some row → key = valueKey (row.get c.name)) ∧
    trimSpace (str "id = 02") = str "id = 02" ∧ simpleEquality (str "id = 02") =
      some (c.name, str "02") ∧
    compileCondition (str "id = 02") t.columns = some compiled ∧
    t.selectPlain {} ⟨[str "v"], false, { cond := str "id = 02", headEnd := 2 }⟩ =
      t.selectOrder {} ⟨[str "v"], false, { cond := str "id = 02", headEnd := 2 }⟩ none
        compiled := by
  let c : Column := { name := str "id", type := .int, primary := true }
  obtain ⟨t, ht, hc, hstored, hcompile, hnames, ⟨hkey, hmatch, hlisted⟩, hident⟩ : ∃ t,
      indexedRows.table (str "t") = .ok t ∧ ⟨str "id", .int, true⟩ ∈ t.columns ∧
      (∀ (key : Bytes) (row : Row), t.rows[key]? = some row → key = valueKey (row.get (str "id"))) ∧
      compileCondition (str "id = 02") t.columns = some [[⟨str "id", .one (.int 2), .eq⟩]] ∧
      (∀ name ∈ [str "v"], hasColumn t.columns name = true) ∧
      (t.equalityKey (str "id") (str "02") = str "2" ∧
        (∀ row ∈ t.rows[str "2"]?,
          CompiledCondition.matchesMap [[⟨str "id", .one (.int 2), .eq⟩]] row = true) ∧
        t.order.count (str "2") = 1) ∧ IdentifierName t.primaryColumn := by
    decide +kernel
  obtain ⟨hwf, hfast⟩ := indexedRows_inv ht
  have hfound :
      t.KeyFound [[⟨str "id", .one (.int 2), .eq⟩]] (t.equalityKey c.name (str "02")) := by
    rw [show t.equalityKey c.name (str "02") = str "2" from hkey]
    exact ⟨fun row hrow => ⟨hmatch row hrow, hlisted, fun hnil => absurd hnil (by decide +kernel)⟩,
      fun hnot => absurd hident hnot⟩
  have htrim : trimSpace (str "id = 02") = str "id = 02" := by decide +kernel
  have hsides : simpleEquality (str "id = 02") = some (c.name, str "02") := by decide +kernel
  have htype : c.type ≠ .float := by decide
  have hiff := @key_lookup_iff {} t c _ _ 2 _ (fun _ => rfl) rfl hwf hfast hc rfl htype hstored
    htrim hsides hcompile
  exact ⟨t, c, _, hwf, hfast, hc, rfl, htype, hstored, htrim, hsides, hcompile,
    (hiff.2 hfound).1 [str "v"] hnames⟩

end SuperDB.Engine
