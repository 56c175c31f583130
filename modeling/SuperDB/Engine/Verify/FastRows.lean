import SuperDB.Go.Words
import SuperDB.Engine.Verify.Literal
import SuperDB.Engine.Verify.InvalidWhere

/-!
# The fast array and the rows

Where the fast array lists the live rows of a table, its cells by position are the cells of the
rows, a bare equality that is read for the array is the condition that the rows are compared with,
and a scan of the array collects what a scan of `order` collects, with the cap of LIMIT and OFFSET
too.
-/

namespace SuperDB.Engine

open Go

variable {s cond : Bytes} {columns : List Column} {i : Nat} {α : Type}

/-! ## Reading a bare equality -/

def IdentifierName (name : Bytes) : Prop := ∀ a ∈ name, identifierByte a = true

instance (name : Bytes) : Decidable (IdentifierName name) :=
  inferInstanceAs (Decidable (∀ a ∈ name, _))

/-- No byte at which a term is split or a literal starts belongs to a word, or is changed by
trimming and lower case. -/
theorem sign_bytes : ∀ c ∈ [quote, ch '!', ch '<', ch '>', ch '='],
    c < 0x80 ∧ space1 c = false ∧ lowerByte c = c ∧ identifierByte c = false := by
  decide +kernel

theorem no_sign_of_identifier {l : Bytes} (h : IdentifierName (toLower (trimSpace l))) :
    ∀ a ∈ l, a ≠ quote ∧ a ≠ ch '!' ∧ a ≠ ch '<' ∧ a ≠ ch '>' ∧ a ≠ ch '=' := by
  have hsign : ∀ c ∈ [quote, ch '!', ch '<', ch '>', ch '='], c ∉ l := by
    intro c hc hmem
    obtain ⟨hascii, hspace, hlower, hident⟩ := sign_bytes c hc
    have hcount : 0 < (trimSpace l).count c := by
      rw [count_trimSpace hascii hspace]
      exact List.count_pos_iff.2 hmem
    have hin := mem_toLower hascii hlower (List.count_pos_iff.1 hcount)
    rw [h c hin] at hident
    cases hident
  simp only [List.forall_mem_cons] at hsign
  obtain ⟨h₁, h₂, h₃, h₄, h₅, -⟩ := hsign
  intro a ha
  refine ⟨?_, ?_, ?_, ?_, ?_⟩ <;> rintro rfl <;> contradiction

theorem splitTerm_sides {l r : Bytes} (hcut : cut (ch '=') s = some (l, r))
    (hl : IdentifierName (toLower (trimSpace l))) : splitTerm s = some ⟨l, .eq, r⟩ := by
  obtain ⟨rfl, -⟩ := cut_eq_some_iff.1 hcut
  have hterm : splitConditionTerm (l ++ ch '=' :: r) = some ⟨l, .eq, r⟩ := by
    have hsigns : Quote.out.plain (ch '=') = true ∧ (ch '=' == ch '!') = false ∧
        (ch '=' == ch '<') = false ∧ (ch '=' == ch '>') = false := by
      decide
    obtain ⟨hplain, h₁, h₂, h₃⟩ := hsigns
    rw [splitConditionTerm, splitConditionTermFrom_name (no_sign_of_identifier hl), List.append_nil,
      splitConditionTermFrom]
    simp only [hplain, h₁, h₂, h₃, if_true, Bool.false_eq_true, if_false, beq_self_eq_true,
      List.reverse_reverse]
  rw [splitTerm, hterm]
  rfl

theorem foldEqualAt_of_containsFold {sub t u : Bytes} (hne : u ≠ [])
    (h : containsFold sub (t ++ u) = false) : foldEqualAt u sub = false := by
  induction t with
  | nil =>
    obtain ⟨a, u, rfl⟩ := List.exists_cons_of_ne_nil hne
    rw [List.nil_append, containsFold, Bool.or_eq_false_iff] at h
    exact h.1
  | cons b t ih =>
    rw [List.cons_append, containsFold, Bool.or_eq_false_iff] at h
    exact ih h.2

theorem splitLogical_single {word : Bytes} (h : containsFold (32 :: word ++ [32]) s = false) :
    splitLogical s word = [trimSpace s] := by
  unfold splitLogical
  rw [splitLogicalFrom_whole (Quote.Fits.out _), List.reverse_nil, List.nil_append]
  rintro t u rfl -
  have hat := foldEqualAt_of_containsFold (List.cons_ne_nil _ _) h
  rw [List.cons_append, foldEqualAt, Bool.and_eq_false_iff] at hat
  exact hat.resolve_left (by decide)

theorem unquoteLiteral_trimSpace (s : Bytes) : unquoteLiteral (trimSpace s) = unquoteLiteral s := by
  unfold unquoteLiteral
  rw [trimSpace_trimSpace]

theorem columnType_of_position {name : Bytes} {c : Column}
    (hi : (columnPositions columns)[name]? = some i) (hc : columns[i]? = some c) :
    columnType columns name = some c.type := by
  unfold columnType
  induction columns using List.reverseRecOn generalizing i with
  | nil => cases hc
  | append_singleton columns d ih =>
    rw [List.reverse_append, List.reverse_singleton, List.singleton_append]
    rw [columnPositions, positions_concat, Map.get?_insert] at hi
    split at hi
    · next hd =>
      cases hi
      have hcd : d = c := by simpa using hc
      rw [List.find?_cons, beq_iff_eq.2 hd, Option.map_some, hcd]
    · next hd =>
      obtain ⟨b, hb, -⟩ := get?_positions hi
      have hlt : i < columns.length := (List.getElem?_eq_some_iff.1 hb).1
      rw [List.getElem?_append_left hlt] at hc
      rw [List.find?_cons, beq_false_of_ne hd, ih hi hc]

theorem logical_words : str " AND " = 32 :: str "AND" ++ [32] ∧ str " OR " = 32 :: str "OR" ++
    [32] := by
  rw [str_ofList, str_ofList, str_ofList, str_ofList]
  decide

theorem literalValue_sides (r : Bytes) (typ : ColType) :
    literalValue (trimSpace r) typ =
      match parseVal (unquoteLiteral r) typ with
      | .ok v => v
      | .error _ => .text (unquoteLiteral r) := by
  calc literalValue (trimSpace r) typ
      = match parseVal (unquoteLiteral (trimSpace (trimSpace r))) typ with
        | .ok v => v
        | .error _ => .text (unquoteLiteral (trimSpace (trimSpace r))) := rfl
    _ = _ := by rw [trimSpace_trimSpace, unquoteLiteral_trimSpace]

theorem compileCondition_sides {column raw : Bytes} {compiled : CompiledCondition}
    (htrim : trimSpace cond = cond) (hsides : simpleSides cond = some (column, raw))
    (hname : IdentifierName column) (hcompile : compileCondition cond columns = some compiled) :
    ∃ typ, columnType columns column = some typ ∧
      compiled = [[⟨column, .one (match parseVal raw typ with | .ok v => v | .error _ => .text raw),
        .eq⟩]] := by
  unfold simpleSides at hsides
  split at hsides
  · cases hsides
  · next hplain =>
    rw [not_or, not_or] at hplain
    obtain ⟨hne, hand, hor⟩ := hplain
    obtain ⟨⟨l, r⟩, hcut, hpair⟩ := Option.map_eq_some_iff.1 hsides
    cases hpair
    rw [logical_words.1, Bool.not_eq_true] at hand
    rw [logical_words.2, Bool.not_eq_true] at hor
    unfold compileCondition at hcompile
    rw [htrim, if_neg hne, splitLogical_single hor, htrim] at hcompile
    simp only [List.mapM_cons, List.mapM_nil, Option.bind_eq_bind] at hcompile
    rw [splitLogical_single hand, htrim] at hcompile
    simp only [List.mapM_cons, List.mapM_nil, Option.bind_eq_bind, compileTerm,
      splitTerm_sides hcut hname, Option.bind_some] at hcompile
    cases htype : columnType columns (toLower (trimSpace l)) with
    | none =>
      rw [htype] at hcompile
      cases hcompile
    | some typ =>
      rw [htype] at hcompile
      simp only [Option.bind_some] at hcompile
      split at hcompile
      · cases hcompile
      · simp only [compileExpected, Option.bind_some, literalValue_sides] at hcompile
        cases hcompile
        exact ⟨typ, rfl, rfl⟩

/-! ## Cells by position -/

theorem getD_rowValues {name : Bytes} (hi : (columnPositions columns)[name]? = some i) (row : Row)
    (d : Value) : (rowValues columns row).getD i d = row.get name := by
  obtain ⟨c, hc, rfl⟩ := columnPositions_name hi
  rw [List.getD_eq_getElem?_getD, getElem?_rowValues, hc]
  rfl

theorem columnPositions_isSome {name : Bytes} (h : hasColumn columns name = true) :
    ∃ i, (columnPositions columns)[name]? = some i := by
  refine Map.mem_iff.1 (mem_positions.2 ?_)
  obtain ⟨c, hc, hname⟩ := List.any_eq_true.1 h
  exact ⟨c, hc, beq_iff_eq.1 hname⟩

theorem selectedFastValues_rowValues {names : List Bytes}
    (hnames : ∀ name ∈ names, hasColumn columns name = true) (row : Row) :
    selectedFastValues (rowValues columns row) names (columnPositions columns) =
      selectedValues row names := by
  unfold selectedFastValues selectedValues
  refine List.map_congr_left fun name hname => ?_
  obtain ⟨i, hi⟩ := columnPositions_isSome (hnames name hname)
  rw [hi]
  exact getD_rowValues hi row .null

theorem hasColumn_of_compileTerm {term : ConditionTerm} (h : compileTerm columns s = some term) :
    hasColumn columns term.column = true := by
  unfold compileTerm at h
  obtain ⟨raw, -, h⟩ := Option.bind_eq_some_iff.1 h
  obtain ⟨typ, htype, h⟩ := Option.bind_eq_some_iff.1 h
  simp only at h
  split at h
  · cases h
  · obtain ⟨expected, -, h⟩ := Option.bind_eq_some_iff.1 h
    cases h
    obtain ⟨c, hc, -⟩ := Option.map_eq_some_iff.1 htype
    have hname := List.find?_some hc
    rw [hasColumn, List.any_eq_true]
    exact ⟨c, List.mem_reverse.1 (List.mem_of_find?_eq_some hc), hname⟩

theorem forall_of_mapM {β : Type} {f : α → Option β} {P : β → Prop} {l : List α} {l' : List β}
    (hf : ∀ a b, f a = some b → P b) (h : l.mapM f = some l') : ∀ b ∈ l', P b := by
  induction l generalizing l' with
  | nil =>
    cases h
    exact fun b hb => by cases hb
  | cons a l ih =>
    rw [List.mapM_cons] at h
    obtain ⟨b, hb, h⟩ := Option.bind_eq_some_iff.1 h
    obtain ⟨l'', hl, h⟩ := Option.bind_eq_some_iff.1 h
    cases h
    exact List.forall_mem_cons.2 ⟨hf a b hb, ih hl⟩

theorem hasColumn_of_compileCondition {compiled : CompiledCondition}
    (h : compileCondition cond columns = some compiled) :
    ∀ group ∈ compiled, ∀ term ∈ group, hasColumn columns term.column = true := by
  unfold compileCondition at h
  split at h
  · cases h
    exact fun group hgroup => by cases hgroup
  · refine forall_of_mapM (fun s group hgroup => ?_) h
    exact forall_of_mapM (fun s term hterm => hasColumn_of_compileTerm hterm) hgroup

theorem CompiledCondition.holds_congr {c : CompiledCondition} {cell cell' : Bytes → Option Value}
    (h : ∀ group ∈ c, ∀ term ∈ group, cell term.column = cell' term.column) :
    c.holds cell = c.holds cell' := by
  unfold CompiledCondition.holds
  rw [Bool.eq_iff_iff, List.any_eq_true, List.any_eq_true]
  refine exists_congr fun group => and_congr_right fun hgroup => ?_
  rw [List.all_eq_true, List.all_eq_true]
  exact forall₂_congr fun term hterm => by rw [h group hgroup term hterm]

theorem matchesFast_rowValues {compiled : CompiledCondition}
    (h : ∀ group ∈ compiled, ∀ term ∈ group, hasColumn columns term.column = true) (row : Row) :
    compiled.matchesFast (rowValues columns row) (columnPositions columns) =
      compiled.matchesMap row := by
  refine CompiledCondition.holds_congr fun group hgroup term hterm => ?_
  obtain ⟨i, hi⟩ := columnPositions_isSome (h group hgroup term hterm)
  rw [hi, Option.map_some, getD_rowValues hi]

theorem matchFastTerm_equal (values : List Value) (i : Nat) (expected : Value) (typ : ColType) :
    matchFastTerm values ⟨i, expected, fastKind typ expected⟩ =
      conditionValueEqual (values.getD i .null) expected := by
  unfold matchFastTerm
  cases typ <;> cases expected <;> cases values.getD i .null <;> rfl

theorem matchesFast_equality {columns : Map Nat} {name : Bytes} (hi : columns[name]? = some i)
    (v : Value) (values : List Value) :
    CompiledCondition.matchesFast [[⟨name, .one v, .eq⟩]] values columns =
      conditionValueEqual (values.getD i .null) v := by
  simp [CompiledCondition.matchesFast, CompiledCondition.holds, conditionValueCompare, hi]

theorem matchFastTerm_matchesFast {t : Table} {term : FastTerm} {compiled : CompiledCondition}
    (hcolumns : t.fastColumns = columnPositions t.columns)
    (hnames : ∀ c ∈ t.columns, IdentifierName c.name) (htrim : trimSpace cond = cond)
    (hterm : simpleFastTerm cond t = some term)
    (hcompile : compileCondition cond t.columns = some compiled) (values : List Value) :
    matchFastTerm values term = compiled.matchesFast values t.fastColumns := by
  unfold simpleFastTerm at hterm
  obtain ⟨⟨column, raw⟩, hsides, hterm⟩ := Option.bind_eq_some_iff.1 hterm
  simp only at hterm
  split at hterm
  · cases hterm
  · obtain ⟨i, hi, hterm⟩ := Option.bind_eq_some_iff.1 hterm
    obtain ⟨c, hc, hterm⟩ := Option.bind_eq_some_iff.1 hterm
    cases hterm
    rw [hcolumns] at hi ⊢
    obtain ⟨d, hd, hname⟩ := columnPositions_name hi
    have hident : IdentifierName column := hname ▸ hnames d (List.mem_of_getElem? hd)
    obtain ⟨typ, htype, rfl⟩ := compileCondition_sides htrim hsides hident hcompile
    rw [columnType_of_position hi hc] at htype
    cases htype
    refine (matchFastTerm_equal ..).trans (Eq.trans ?_ (matchesFast_equality hi ..).symm)
    cases parseVal raw c.type <;> rfl

theorem matchFastTerm_eq {t : Table} {term : FastTerm} {compiled : CompiledCondition}
    (hcolumns : t.fastColumns = columnPositions t.columns)
    (hnames : ∀ c ∈ t.columns, IdentifierName c.name) (htrim : trimSpace cond = cond)
    (hterm : simpleFastTerm cond t = some term)
    (hcompile : compileCondition cond t.columns = some compiled) (row : Row) :
    matchFastTerm (rowValues t.columns row) term = compiled.matchesMap row := by
  rw [matchFastTerm_matchesFast hcolumns hnames htrim hterm hcompile, hcolumns,
    matchesFast_rowValues (hasColumn_of_compileCondition hcompile)]

theorem Collected.add_cases (distinct : Bool) (key : Bytes) (a : α) (c : Collected α) :
    c.add distinct key a = c ∨ (c.add distinct key a).items = a :: c.items := by
  unfold Collected.add
  split_ifs
  · exact Or.inl rfl
  · exact Or.inr rfl
  · exact Or.inr rfl

/-- What has been collected, the first first. -/
def Collected.listed {α : Type} (c : Collected α) : List α := c.items.reverse

theorem Collected.listed_add (distinct : Bool) (key : Bytes) (a : α) (c : Collected α) :
    (c.add distinct key a).listed = c.listed ∨
      (c.add distinct key a).listed = c.listed ++ [a] := by
  rcases c.add_cases distinct key a with h | h
  · exact Or.inl (congrArg Collected.listed h)
  · right
    rw [Collected.listed, h, List.reverse_cons]
    rfl

theorem Collected.length_items :
    (fun c : Collected α => c.items.length) = fun c => c.listed.length := by
  funext c
  exact List.length_reverse.symm

namespace Table

/-! ## Fast arrays that list the live rows -/

/-- The entries of the fast array that are not tombstones are the live rows in the order of `order`,
and the positions of its columns and keys are right. -/
structure Mirrors (t : Table) : Prop where
  columns : t.fastColumns = columnPositions t.columns
  rows : t.fast.filter (·.key ≠ []) = t.fastRows
  pos : ∀ (key : Bytes) (i : Nat), t.fastPos[key]? = some i → key ≠ [] ∧
    ∃ row : Row, t.rows[key]? = some row ∧ t.fast[i]? = some ⟨key, rowValues t.columns row⟩

section Mirrors

variable {t : Table} {names : List Bytes}

theorem Mirrors.key_ne (h : t.Mirrors) {key : Bytes} {row : Row} (hkey : key ∈ t.order)
    (hrow : t.rows[key]? = some row) : key ≠ [] := by
  have hin : (⟨key, rowValues t.columns row⟩ : FastRow) ∈ t.fast.filter (·.key ≠ []) := by
    rw [h.rows, fastRows, List.mem_filterMap]
    exact ⟨key, hkey, by rw [hrow]; rfl⟩
  simpa using (List.mem_filter.1 hin).2

theorem Mirrors.fastInv (h : t.Mirrors) : t.FastInv :=
  ⟨fun _ => h.columns, fun key i hi => (h.pos key i hi).2⟩

theorem FastInv.fastAt (h : t.FastInv) (key : Bytes) :
    t.fastAt key = none ∨
      ∃ row : Row, t.rows[key]? = some row ∧ t.fastAt key =
        some ⟨key, rowValues t.columns row⟩ := by
  unfold Table.fastAt
  cases hi : t.fastPos[key]? with
  | none => exact Or.inl rfl
  | some i =>
    obtain ⟨row, hrow, hat⟩ := h.entry key i hi
    simp only [hat]
    by_cases hne : key = []
    · exact Or.inl (if_pos hne)
    · exact Or.inr ⟨row, hrow, if_neg hne⟩

theorem FastInv.fast_ne_nil (h : t.FastInv) {key : Bytes} {r : FastRow}
    (hat : t.fastAt key = some r) :
    t.fast ≠ [] := by
  intro hnil
  rw [Table.fastAt, h.fastPos_none hnil key] at hat
  cases hat

theorem FastInv.lineOf (h : t.FastInv) (hnames : ∀ name ∈ names, hasColumn t.columns name = true)
    (key : Bytes) : t.lineOf names key = selectedValues (t.rows.getD key ∅) names := by
  unfold Table.lineOf
  rcases h.fastAt key with hat | ⟨row, hrow, hat⟩
  · rw [hat]
  · rw [hat, h.columns (h.fast_ne_nil hat)]
    simp only
    rw [selectedFastValues_rowValues hnames, Map.getD_eq, hrow]
    rfl

theorem lineOf_clearFast (key : Bytes) :
    t.clearFast.lineOf names key = selectedValues (t.rows.getD key ∅) names := by
  have hat : t.clearFast.fastAt key = none := by simp only [Table.fastAt, clearFast, Map.get?_empty]
  simp only [Table.lineOf, hat, clearFast_rows]

theorem Mirrors.lineOf_eq (h : t.Mirrors) (hnames : ∀ name ∈ names, hasColumn t.columns name = true)
    (key : Bytes) : t.lineOf names key = t.clearFast.lineOf names key := by
  rw [h.fastInv.lineOf hnames, lineOf_clearFast]

theorem Mirrors.orderValue_eq (h : t.Mirrors) (column key : Bytes) :
    t.orderValue column key = t.clearFast.orderValue column key := by
  have hslow : t.clearFast.orderValue column key = (t.rows.getD key ∅).get column := by
    simp only [Table.orderValue, clearFast_fast, if_true, clearFast_rows]
  rw [hslow]
  unfold Table.orderValue
  simp only
  split
  · rfl
  · cases hi : t.fastColumns[column]? with
    | none => rfl
    | some i =>
      rcases h.fastInv.fastAt key with hat | ⟨row, hrow, hat⟩
      · rw [hat]
      · rw [hat]
        simp only
        rw [h.columns] at hi
        rw [getD_rowValues hi, Map.getD_eq, hrow]
        rfl

theorem Mirrors.selectKey_eq (h : t.Mirrors) {q : Query}
    (hnames : ∀ name ∈ q.names, hasColumn t.columns name = true) (key : Bytes) :
    t.selectKey q key = t.clearFast.selectKey q key := by
  have hslow : t.clearFast.fastPos[key]? = none := Map.get?_empty key
  unfold Table.selectKey
  rw [hslow]
  cases hi : t.fastPos[key]? with
  | none => rfl
  | some i =>
    obtain ⟨hne, row, hrow, hat⟩ := h.pos key i hi
    simp only [hat, if_neg hne, clearFast_rows, hrow, h.columns,
      selectedFastValues_rowValues hnames]

end Mirrors

/-! ## What a scan answers -/

/-- Adds the cells of a row that meets the condition, unless DISTINCT has seen them. -/
def takeRow (q : Query) (compiled : CompiledCondition) (c : Collected (List Value)) (row : Row) :
    Collected (List Value) :=
  if q.tail.cond = [] || compiled.matchesMap row then
    c.add q.distinct (rowProjectionKey (selectedValues row q.names)) (selectedValues row q.names)
  else c

/-- The live rows in the order of `order`. -/
def liveRows (t : Table) : List Row := t.order.filterMap fun key => t.rows[key]?

/-- The keys that a scan of `order` collects: those that meet the condition, under DISTINCT one for
each line. -/
def candidates (q : Query) (compiled : CompiledCondition) (t : Table) : List Bytes :=
  (t.order.foldl (t.takeKey q compiled) {}).listed

/-- The answer to a query without ORDER BY, LIMIT and OFFSET. -/
def answer (q : Query) (compiled : CompiledCondition) (t : Table) : List (List Value) :=
  (t.liveRows.foldl (takeRow q compiled) {}).listed

section Answer

variable {env : Env} {q : Query} {t : Table} {compiled : CompiledCondition}

theorem takeKey_eq (c : Collected Bytes) (key : Bytes) :
    t.takeKey q compiled c key =
      match t.rows[key]? with
      | none => c
      | some row => if q.tail.cond = [] || compiled.matchesMap row then t.addKey q key c
        else c := by
  unfold takeKey takesKey
  cases t.rows[key]? with
  | none => rfl
  | some row =>
    rw [Option.any_some]
    simp only
    by_cases hm : (decide (q.tail.cond = []) || compiled.matchesMap row) = true
    · rw [hm, Bool.true_and, if_pos rfl]
      rcases Collected.add_cases q.distinct (rowProjectionKey (t.lineOf q.names key)) key
        c with h | h
      · have hsame : t.addKey q key c = c := h
        rw [hsame, ite_self]
      · have hmore : (t.addKey q key c).items = key :: c.items := h
        rw [hmore, if_pos (by simp)]
    · rw [Bool.not_eq_true] at hm
      rw [hm]
      rfl

theorem foldl_takeKey
    (hline : ∀ key, t.lineOf q.names key = selectedValues (t.rows.getD key ∅) q.names)
    (l : List Bytes) {c : Collected Bytes} {c' : Collected (List Value)}
    (hitems : c'.items = c.items.map (t.lineOf q.names)) (hseen : c'.seen = c.seen) :
    ((l.filterMap fun key => t.rows[key]?).foldl (takeRow q compiled) c').items =
      (l.foldl (t.takeKey q compiled) c).items.map (t.lineOf q.names) := by
  induction l generalizing c c' with
  | nil => exact hitems
  | cons key l ih =>
    rw [List.foldl_cons, takeKey_eq]
    cases hrow : t.rows[key]? with
    | none =>
      rw [List.filterMap_cons_none hrow]
      exact ih hitems hseen
    | some row =>
      rw [List.filterMap_cons_some hrow, List.foldl_cons, takeRow]
      have hcells : selectedValues row q.names = t.lineOf q.names key := by
        rw [hline, Map.getD_eq, hrow]
        rfl
      rw [hcells]
      simp only
      split
      · unfold addKey Collected.add
        rw [hseen]
        split_ifs
        · exact ih hitems hseen
        · exact ih (by rw [hitems, List.map_cons]) rfl
        · exact ih (by rw [hitems, List.map_cons]) rfl
      · exact ih hitems hseen

theorem Mirrors.foldl_takeFast (h : t.Mirrors) {term : Option FastTerm}
    {compiled' : CompiledCondition} (hnames : ∀ name ∈ q.names, hasColumn t.columns name = true)
    (hmatch : ∀ row, t.fastMatches q term compiled' (rowValues t.columns row) =
      (decide (q.tail.cond = []) || compiled.matchesMap row)) :
    t.fast.foldl (t.takeFast q term compiled') {} = t.liveRows.foldl (takeRow q compiled) {} := by
  have hlive : t.fast.foldl (t.takeFast q term compiled') {} =
      (t.fast.filter (·.key ≠ [])).foldl (t.takeFast q term compiled') {} := by
    rw [List.foldl_filter]
    congr 1
    funext c row
    by_cases hkey : row.key = []
    · simp [takeFast, takesFast, hkey]
    · simp [hkey]
  have hne : ∀ key ∈ t.order, ∀ row : Row, t.rows[key]? = some row → key ≠ [] :=
    fun key hkey row hrow => h.key_ne hkey hrow
  rw [hlive, h.rows, fastRows, liveRows]
  revert hne
  generalize ({} : Collected (List Value)) = c
  generalize t.order = l
  intro hne
  induction l generalizing c with
  | nil => rfl
  | cons key l ih =>
    rw [List.forall_mem_cons] at hne
    cases hrow : t.rows[key]? with
    | none =>
      rw [List.filterMap_cons_none hrow, List.filterMap_cons_none (by rw [hrow]; rfl)]
      exact ih c hne.2
    | some row =>
      have hstep : t.takeFast q term compiled' c ⟨key, rowValues t.columns row⟩ =
          takeRow q compiled c row := by
        simp only [takeFast, takesFast, takeRow, hmatch, h.columns,
          selectedFastValues_rowValues hnames, hne.1 row hrow, ne_eq, not_false_eq_true,
          decide_true, Bool.true_and]
      rw [List.filterMap_cons_some hrow, List.filterMap_cons_some (by rw [hrow]; rfl),
        List.foldl_cons, List.foldl_cons, hstep]
      exact ih _ hne.2

end Answer

/-! ## Scans under a cap -/

section Capped

variable {env : Env} {q : Query} {t : Table} {cap : Option Nat}

theorem takeFast_grow (term : Option FastTerm) (compiled : CompiledCondition)
    (c : Collected (List Value)) (row : FastRow) :
    (t.takeFast q term compiled c row).listed = c.listed ∨
      t.takesFast q term compiled row = true ∧
        ∃ line, (t.takeFast q term compiled c row).listed = c.listed ++ [line] := by
  unfold takeFast
  simp only
  split
  · next htakes =>
    rcases Collected.listed_add q.distinct _ (selectedFastValues row.values q.names t.fastColumns)
      c with
      h | h
    · exact Or.inl h
    · exact Or.inr ⟨htakes, _, h⟩
  · exact Or.inl rfl

theorem takeKey_grow (compiled : CompiledCondition) (c : Collected Bytes) (key : Bytes) :
    (t.takeKey q compiled c key).listed = c.listed ∨
      t.takesKey q compiled c key = true ∧
        ∃ key', (t.takeKey q compiled c key).listed = c.listed ++ [key'] := by
  unfold takeKey
  split
  · next htakes =>
    rcases Collected.listed_add q.distinct (rowProjectionKey (t.lineOf q.names key)) key
      c with h | h
    · exact Or.inl h
    · exact Or.inr ⟨htakes, key, h⟩
  · exact Or.inl rfl

theorem selectFast_eq (henv : env.Live) (hlimit : q.tail.limit ≠ some 0)
    (hcap : ∀ c, cap = some c → 0 < c) (term : Option FastTerm) (compiled : CompiledCondition) :
    t.selectFast env q cap term compiled = capResultRows env.maxRows
      { columns := q.names
        rows := applyOffset q.tail.offset
          (takeUpTo cap (t.fast.foldl (t.takeFast q term compiled) {}).listed) } := by
  obtain ⟨c, hloop, hitems⟩ := rangeLoop_takeUpTo henv.scanTick
    (takeFast_grow (t := t) (q := q) term compiled) 0 t.fast (s := {}) hcap
  unfold selectFast
  rw [if_neg hlimit, fastScanStep_eq, Collected.length_items, hloop, ← hitems]
  rfl

theorem loop_orderStep (henv : env.Live) (horder : q.tail.orderColumn = [])
    (hcap : ∀ c, cap = some c → 0 < c) (compiled : CompiledCondition) :
    ∃ c, loopResult (rangeLoop env.scanTick (t.orderStep q cap compiled) 0 t.order {}) = .ok c ∧
      c.listed = takeUpTo cap (t.candidates q compiled) := by
  obtain ⟨c, hloop, hitems⟩ := rangeLoop_takeUpTo henv.scanTick
    (takeKey_grow (t := t) (q := q) compiled) 0 t.order (s := {}) hcap
  refine ⟨c, ?_, hitems⟩
  rw [orderStep_eq horder, Collected.length_items, hloop]
  rfl

theorem takeUpTo_takeUpTo (cap : Option Nat) (l : List α) :
    takeUpTo cap (takeUpTo cap l) = takeUpTo cap l := by
  cases cap with
  | none => rfl
  | some c => exact List.take_take.trans (by rw [Nat.min_self]; rfl)

theorem takeUpTo_map {β : Type} (f : α → β) (cap : Option Nat) (l : List α) :
    (takeUpTo cap l).map f = takeUpTo cap (l.map f) := by
  cases cap with
  | none => rfl
  | some c => exact List.map_take

theorem materialize_takeUpTo (hcap : ∀ c, cap = some c → 0 < c) (keys : List Bytes) :
    t.materialize q cap (cutKeys q cap (takeUpTo cap keys)) =
      takeUpTo cap (keys.map (t.lineOf q.names)) := by
  rw [materialize_cutKeys cap hcap]
  have hlines : takeUpTo cap ((takeUpTo cap keys).map (t.lineOf q.names)) =
      takeUpTo cap (keys.map (t.lineOf q.names)) := by
    rw [takeUpTo_map, takeUpTo_takeUpTo]
  rw [← hlines]
  cases cap <;> rfl

theorem selectOrder_lines (henv : env.Live) (horder : q.tail.orderColumn = [])
    (hcap : ∀ c, cap = some c → 0 < c) (compiled : CompiledCondition) :
    t.selectOrder env q cap compiled = capResultRows env.maxRows
      { columns := q.names
        rows := applyOffset q.tail.offset
          (takeUpTo cap ((t.candidates q compiled).map (t.lineOf q.names))) } := by
  obtain ⟨c, hloop, hkeys⟩ := loop_orderStep (t := t) henv horder hcap compiled
  unfold selectOrder
  rw [hloop]
  show t.finishKeys env q cap c.listed = _
  rw [finishKeys_eq, orderedKeys, if_pos horder, hkeys, ← materialize_takeUpTo hcap]
  rfl

theorem candidates_lines (compiled : CompiledCondition)
    (hline : ∀ key, t.lineOf q.names key = selectedValues (t.rows.getD key ∅) q.names) :
    (t.candidates q compiled).map (t.lineOf q.names) = t.answer q compiled := by
  unfold candidates answer liveRows Collected.listed
  rw [foldl_takeKey hline t.order (c := {}) rfl rfl, List.map_reverse]

theorem selectOrder_eq (henv : env.Live) (horder : q.tail.orderColumn = [])
    (hcap : ∀ c, cap = some c → 0 < c) (compiled : CompiledCondition)
    (hline : ∀ key, t.lineOf q.names key = selectedValues (t.rows.getD key ∅) q.names) :
    t.selectOrder env q cap compiled = capResultRows env.maxRows
      { columns := q.names
        rows := applyOffset q.tail.offset (takeUpTo cap (t.answer q compiled)) } := by
  rw [selectOrder_lines henv horder hcap, candidates_lines compiled hline]

theorem orderStep_ne_fail (compiled : CompiledCondition) (c : Collected Bytes) (key : Bytes)
    (f : Fault) :
    t.orderStep q cap compiled c key ≠ .fail f := by
  unfold orderStep
  split
  · exact fun h => by cases h
  · simp only
    split_ifs <;> exact fun h => by cases h

theorem selectOrder_zero (henv : env.Live) (horder : q.tail.orderColumn = [])
    (hdistinct : q.distinct = false) (compiled : CompiledCondition) :
    t.selectOrder env q (some 0) compiled = .ok { columns := q.names } := by
  obtain ⟨c, hc⟩ := loopResult_live henv
    (fun c key f => orderStep_ne_fail (t := t) (q := q) compiled c key f) 0 t.order {}
  refine ok_bind hc ?_
  rw [finishKeys_eq, orderedKeys, if_pos horder]
  simp [cutKeys, hdistinct, materialize, applyOffset, capResultRows, Except.bind, bind]

theorem rowCap_pos {maxRows offset : Nat} {limit : Option Nat}
    (h : ¬(limit = some 0 ∧ offset = 0)) :
    ∀ c, rowCap maxRows limit offset = some c → 0 < c := by
  intro c hc
  have hsucc : ∀ n, 0 < satAdd n 1 := by
    intro n
    unfold satAdd
    split <;> omega
  have hemit := hsucc (satAdd maxRows offset)
  have hlimited : ∀ l, limit = some l → 0 < satAdd l offset := by
    rintro l rfl
    rw [Option.some.injEq] at h
    unfold satAdd
    split <;> omega
  unfold rowCap at hc
  cases limit with
  | none =>
    simp only [Option.map_none] at hc
    split at hc
    · cases hc
      exact hemit
    · cases hc
  | some l =>
    have hl := hlimited l rfl
    simp only [Option.map_some] at hc
    split_ifs at hc
    · cases hc
      exact hemit
    · cases hc
      exact hl
    · cases hc
      exact hl

theorem rowCap_zero (maxRows offset : Nat) :
    ∃ c, rowCap maxRows (some 0) offset = some c ∧ c ≤ offset := by
  have hsat : satAdd 0 offset = offset := by
    unfold satAdd
    split <;> omega
  unfold rowCap
  simp only [Option.map_some, hsat]
  split_ifs with hpos hle
  · exact ⟨_, rfl, Nat.le_of_lt hle⟩
  · exact ⟨_, rfl, Nat.le_refl _⟩
  · exact ⟨_, rfl, Nat.le_refl _⟩

end Capped

end Table

end SuperDB.Engine
