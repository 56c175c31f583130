import SuperDB.Go.Decimal
import SuperDB.Engine.Verify.Insertion
import SuperDB.Engine.Verify.Literal
import SuperDB.Engine.Verify.TwoParsers

/-!
# Bound rows

Arguments are bound into a list of rows of placeholders, and the text is read as the rows of an
INSERT: every argument comes back as the value that it is. The escaping of a string is undone in
three places, where the rows are cut, where the values are cut and where the quotes are removed;
commas, parentheses and placeholders inside it are no such characters.
-/

namespace SuperDB.Engine

open Go

def rowsText (rows : List (List Bytes)) : Bytes :=
  (str ", ").intercalate (rows.map fun row => str "(" ++ (str ", ").intercalate row ++ str ")")

def placeholders (rows : List (List Param)) : Bytes :=
  rowsText (rows.map fun row => row.map fun _ => str "?")

def Param.Fits (c : Column) : Param → Prop
  | .null => c.primary = false
  | .text s => c.type = .text ∧ (c.primary = true → s ≠ [])
  | .int n => c.type = .int ∧ -2 ^ 63 ≤ n ∧ n < 2 ^ 63
  | .bool _ => c.type = .bool
  | _ => False

def Param.value : Param → Value
  | .text s => .text s
  | .int n => .int (Int64.ofInt n)
  | .bool b => .bool b
  | .float x => .float x
  | .null => .null
  | .other s => .text s

def boundCell (item : InsertRow) (p : Column × Param) : InsertRow :=
  { key := if p.1.primary then valueKey p.2.value else item.key
    row := item.row.insert p.1.name p.2.value }

def boundRow (columns : List Column) (args : List Param) : InsertRow :=
  (columns.zip args).foldl boundCell ⟨[], ∅⟩

/-! ## Binding -/

section Binding

/-- The text takes the arguments, and becomes `out`. -/
def Binds (s : Bytes) (args : List Param) (out : Bytes) : Prop :=
  ∀ n rest tail, bindFrom .out n (args ++ rest) (s ++ tail) =
    (bindFrom .out (n + args.length) rest tail).map fun r => (out ++ r.1, r.2)

theorem Binds.append {s s' out out' : Bytes} {args args' : List Param} (h : Binds s args out)
    (h' : Binds s' args' out') : Binds (s ++ s') (args ++ args') (out ++ out') := by
  intro n rest tail
  rw [List.append_assoc, List.append_assoc, h n, h' (n + args.length), List.length_append,
    Nat.add_assoc]
  cases bindFrom .out (n + (args.length + args'.length)) rest tail with
  | error e => rfl
  | ok r => simp [Except.map]

theorem Binds.copy {s : Bytes} (hquote : quote ∉ s) (hplace : ch '?' ∉ s) : Binds s [] s := by
  intro n rest tail
  induction s with
  | nil =>
    show bindFrom .out n rest tail = (bindFrom .out n rest tail).map _
    cases bindFrom .out n rest tail with
    | error e => rfl
    | ok r => rfl
  | cons a s ih =>
    simp only [List.mem_cons, not_or] at hquote hplace
    have hstep : Quote.out.step a (s ++ tail) = .out := by
      simp [Quote.step, Ne.symm hquote.1]
    have hno : Quote.out.placeholder a = false := by
      simp [Quote.placeholder, Ne.symm hplace.1]
    have hrest := ih hquote.2 hplace.2
    simp only [List.nil_append] at hrest ⊢
    rw [List.cons_append, bindFrom.eq_def]
    simp only [hno, hstep, hrest, Bool.false_eq_true, if_false]
    cases bindFrom .out (n + ([] : List Param).length) rest tail with
    | error e => rfl
    | ok r => rfl

theorem Binds.placeholder (p : Param) : Binds (str "?") [p] (formatParam p) := by
  intro n rest tail
  have hstr : str "?" = [ch '?'] := str_ofList _
  have hyes : Quote.out.placeholder (ch '?') = true := by decide
  have hstep : Quote.out.step (ch '?') tail = .out := by
    simp [Quote.step, show ch '?' ≠ quote by decide]
  rw [hstr, List.singleton_append, List.singleton_append, bindFrom, hyes, hstep]
  rfl

theorem Binds.intercalate {α : Type} {sep : Bytes} (hsep : Binds sep [] sep) (l : List α)
    (args : α → List Param) {text out : α → Bytes} (h : ∀ x ∈ l, Binds (text x) (args x) (out x)) :
    Binds (sep.intercalate (l.map text)) (l.flatMap args) (sep.intercalate (l.map out)) := by
  induction l with
  | nil => exact Binds.copy (by simp) (by simp)
  | cons x l ih =>
    have hx := h x List.mem_cons_self
    have hl := ih fun y hy => h y (List.mem_cons_of_mem _ hy)
    cases l with
    | nil => simpa using hx
    | cons y l =>
      have happend := hx.append (hsep.append hl)
      simpa [List.intercalate] using happend

theorem bindParams_of_binds {s out : Bytes} {args : List Param} (h : Binds s args out)
    (hargs : args ≠ []) : bindParams s args = .ok out := by
  have hrun := h 0 [] []
  simp only [List.append_nil] at hrun
  unfold bindParams
  rw [if_neg (by simpa using hargs), hrun]
  simp [bindFrom, Except.map]

theorem str_comma : str ", " = [ch ',', 32] := str_ofList _

theorem bindParams_placeholders {rows : List (List Param)} (hrows : rows.flatten ≠ []) :
    bindParams (placeholders rows) rows.flatten =
      .ok (rowsText (rows.map (·.map formatParam))) := by
  have hsep : Binds (str ", ") [] (str ", ") := by
    rw [str_comma]
    exact Binds.copy (by decide) (by decide)
  have hopen : Binds (str "(") [] (str "(") := by
    rw [str_open]
    exact Binds.copy (by decide) (by decide)
  have hclose : Binds (str ")") [] (str ")") := by
    rw [str_close]
    exact Binds.copy (by decide) (by decide)
  have hrow : ∀ row : List Param,
      Binds (str "(" ++ (str ", ").intercalate (row.map fun _ => str "?") ++ str ")")
      row (str "(" ++ (str ", ").intercalate (row.map formatParam) ++ str ")") := by
    intro row
    have hcells := Binds.intercalate hsep row (fun p => [p]) fun p _ => Binds.placeholder p
    simpa using (hopen.append hcells).append hclose
  have hall := Binds.intercalate hsep rows id fun row _ => hrow row
  rw [List.flatMap_id] at hall
  refine bindParams_of_binds ?_ hrows
  simpa [placeholders, rowsText, Function.comp_def] using hall

end Binding

/-! ## Cutting -/

section Cutting

/-- A literal that no scanner cuts: a quoted one, or one without any byte that is looked for. -/
inductive Atom : Bytes → Prop where
  | quoted (s : Bytes) : Atom (quoteLiteral s)
  | plain {l : Bytes} (hgap : Gap l) (hcomma : ch ',' ∉ l) (htrim : trimSpace l = l) : Atom l

variable {l : Bytes} {lits : List Bytes}

theorem Atom.trimSpace_eq (h : Atom l) : trimSpace l = l := by
  cases h with
  | quoted s => exact trimSpace_quoted _
  | plain _ _ htrim => exact htrim

theorem foldlM_nest_gap (h : Gap l) (p : Nat × Bool) : l.foldlM nest p = some p := by
  induction l with
  | nil => rfl
  | cons a l ih =>
    obtain ⟨hquote, hopen, hclose⟩ := h
    simp only [List.mem_cons, not_or] at hquote hopen hclose
    rw [List.foldlM_cons, nest_skip (Ne.symm hquote.1) (Or.inr ⟨Ne.symm hopen.1, Ne.symm hclose.1⟩)]
    exact ih ⟨hquote.2, hopen.2, hclose.2⟩

theorem foldlM_nest_doubled (s : Bytes) (depth : Nat) :
    (s.flatMap fun a => if a == quote then [quote, quote] else [a]).foldlM nest (depth, true) =
      some (depth, true) := by
  induction s with
  | nil => rfl
  | cons a s ih =>
    rw [List.flatMap_cons, List.foldlM_append]
    by_cases ha : a = quote
    · rw [if_pos (by simpa using ha)]
      exact ih
    · rw [if_neg (by simpa using ha), List.foldlM_cons, nest_skip ha (Or.inl rfl)]
      exact ih

theorem Atom.foldlM_nest (h : Atom l) (depth : Nat) :
    l.foldlM nest (depth, false) = some (depth, false) := by
  cases h with
  | quoted s =>
    rw [quoteLiteral, List.foldlM_append, List.foldlM_cons]
    show ((s.flatMap _).foldlM nest (depth, true) >>= _) = _
    rw [foldlM_nest_doubled]
    rfl
  | plain hgap _ _ => exact foldlM_nest_gap hgap _

theorem gap_comma : Gap (str ", ") := by
  rw [str_comma]
  refine ⟨?_, ?_, ?_⟩ <;> decide

theorem balanced_intercalate (h : ∀ l ∈ lits, Atom l) : Balanced ((str ", ").intercalate lits) := by
  have hsep := gap_comma
  unfold Balanced
  induction lits with
  | nil => rfl
  | cons l lits ih =>
    have hl := (h l List.mem_cons_self).foldlM_nest 0
    cases lits with
    | nil => simpa using hl
    | cons l' lits =>
      have hrest := ih fun x hx => h x (List.mem_cons_of_mem _ hx)
      rw [List.intercalate_cons_cons, List.foldlM_append, List.foldlM_append, hl]
      show ((str ", ").foldlM nest (0, false) >>= _) = _
      rw [foldlM_nest_gap hsep]
      exact hrest

theorem foldl_cellStep_doubled (s : Bytes) (vals : List Bytes) (cur : Bytes) :
    (s.flatMap fun a => if a == quote then [quote, quote] else [a]).foldl cellStep
      (vals, cur, true) =
      (vals, cur ++ s.flatMap fun a => if a == quote then [quote, quote] else [a], true) := by
  induction s generalizing cur with
  | nil => simp
  | cons a s ih =>
    rw [List.flatMap_cons, List.foldl_append]
    by_cases ha : a = quote
    · rw [if_pos (by simpa using ha)]
      have htwo : [quote, quote].foldl cellStep (vals, cur, true) =
          (vals, cur ++ [quote, quote], true) := by
        simp [cellStep]
      rw [htwo, ih, List.append_assoc]
    · rw [if_neg (by simpa using ha), List.foldl_cons, cellStep_push ha (Or.inl rfl),
        List.foldl_nil, ih, List.append_assoc]

theorem Atom.foldl_cellStep (h : Atom l) (vals : List Bytes) (cur : Bytes) :
    l.foldl cellStep (vals, cur, false) = (vals, cur ++ l, false) := by
  cases h with
  | quoted s =>
    rw [quoteLiteral, List.foldl_append, List.foldl_cons]
    show List.foldl cellStep ((s.flatMap _).foldl cellStep (vals, cur ++ [quote], true)) [quote] = _
    rw [foldl_cellStep_doubled]
    simp [cellStep]
  | plain hgap hcomma _ =>
    exact foldl_cellStep_plain hgap.1 hcomma _

theorem cells_intercalate (h : ∀ l ∈ lits, Atom l) (hne : lits ≠ []) (vals : List Bytes)
    {cur : Bytes} (hcur : Blank cur) :
    ((((str ", ").intercalate lits).foldl cellStep (vals, cur, false)).1 ++
      [(((str ", ").intercalate lits).foldl cellStep (vals, cur, false)).2.1]).map trimSpace =
      vals.map trimSpace ++ lits := by
  induction lits generalizing vals cur with
  | nil => exact absurd rfl hne
  | cons l lits ih =>
    have hl := h l List.mem_cons_self
    have htrim : trimSpace (cur ++ l) = l := by rw [trimSpace_blank_append hcur, hl.trimSpace_eq]
    cases lits with
    | nil =>
      rw [List.intercalate_singleton, hl.foldl_cellStep]
      simp [htrim]
    | cons l' lits =>
      have hstep : (str ", ").foldl cellStep (vals, cur ++ l, false) =
          (vals ++ [cur ++ l], [32], false) := by
        rw [str_comma, List.foldl_cons, cellStep_comma]
        rfl
      have hrest := ih (fun x hx => h x (List.mem_cons_of_mem _ hx)) (List.cons_ne_nil _ _)
        (vals ++ [cur ++ l]) (show Blank [32] by decide)
      rw [List.intercalate_cons_cons, List.foldl_append, List.foldl_append, hl.foldl_cellStep,
        hstep, hrest]
      simp [htrim]

theorem rowCells_intercalate (h : ∀ l ∈ lits, Atom l) (hne : lits ≠ []) :
    (rowCells ((str ", ").intercalate lits)).map trimSpace = lits :=
  cells_intercalate h hne [] rfl

/-- The rows of the text, each with what stands before it. -/
def boundOutline : List (List Bytes) → List (Bytes × Bytes)
  | [] => []
  | row :: rows =>
    ([], (str ", ").intercalate row) :: rows.map fun row => (str ", ", (str ", ").intercalate row)

theorem rowsText_eq (rows : List (List Bytes)) : rowsText rows =
    joinRows (boundOutline rows) [] := by
  cases rows with
  | nil => rfl
  | cons row rows =>
    unfold rowsText boundOutline
    induction rows generalizing row with
    | nil => simp [joinRows, str_open, str_close]
    | cons row' rows ih =>
      have hrest := ih row'
      simp only [List.map_cons, joinRows, List.nil_append] at hrest ⊢
      rw [List.intercalate_cons_cons, hrest]
      simp [str_open, str_close]

theorem outline_rowsText {rows : List (List Bytes)} (h : ∀ row ∈ rows, ∀ l ∈ row, Atom l) :
    (outline (rowsText rows)).rows = boundOutline rows := by
  have hnil : Gap [] := ⟨List.not_mem_nil, List.not_mem_nil, List.not_mem_nil⟩
  have hrows : ∀ p ∈ boundOutline rows, Gap p.1 ∧ Balanced p.2 := by
    intro p hp
    cases rows with
    | nil => cases hp
    | cons row rows =>
      rcases List.mem_cons.1 hp with rfl | hp
      · exact ⟨hnil, balanced_intercalate (h row List.mem_cons_self)⟩
      · obtain ⟨row', hrow', rfl⟩ := List.mem_map.1 hp
        exact ⟨gap_comma, balanced_intercalate (h row' (List.mem_cons_of_mem _ hrow'))⟩
  rw [rowsText_eq, outline, foldl_step_joinRows hrows hnil []]
  rfl

theorem joinRows_ends (before body : Bytes) (rows : List (Bytes × Bytes)) :
    ∃ t, joinRows ((before, body) :: rows) [] = before ++ ch '(' :: t ++ [ch ')'] := by
  induction rows generalizing before body with
  | nil => exact ⟨body, by simp [joinRows]⟩
  | cons p rows ih =>
    obtain ⟨t, ht⟩ := ih p.1 p.2
    refine ⟨body ++ ch ')' :: p.1 ++ ch '(' :: t, ?_⟩
    rw [joinRows, ht]
    simp

theorem trimSpace_rowsText {rows : List (List Bytes)} (hne : rows ≠ []) :
    trimSpace (rowsText rows) = rowsText rows := by
  obtain ⟨t, ht⟩ : ∃ t, rowsText rows = ch '(' :: t ++ [ch ')'] := by
    rw [rowsText_eq]
    cases rows with
    | nil => exact absurd rfl hne
    | cons row rows => exact joinRows_ends [] _ _
  have hwidth : spaceWidth (ch '(' :: t ++ [ch ')']) = 0 :=
    spaceWidth_of_head (by decide) (by decide) _
  rw [ht, trimSpace, trimLeft_of_spaceWidth hwidth, trimRight_of_last (by decide) (by decide)]

end Cutting

/-! ## Reading -/

section Reading

variable {columns : List Column} {args : List Param} {c : Column} {p : Param}

theorem str_true : str "true" = [116, 114, 117, 101] := str_ofList _

theorem str_false : str "false" = [102, 97, 108, 115, 101] := str_ofList _

theorem Param.Fits.atom (h : p.Fits c) : Atom (formatParam p) := by
  have hplain : ∀ l : Bytes, quote ∉ l → ch '(' ∉ l → ch ')' ∉ l → ch ',' ∉ l → trimSpace l = l →
      Atom l :=
    fun l hquote hopen hclose hcomma htrim => .plain ⟨hquote, hopen, hclose⟩ hcomma htrim
  cases p with
  | null =>
    show Atom (str "NULL")
    rw [str_null]
    refine hplain _ ?_ ?_ ?_ ?_ ?_ <;> decide
  | text s => exact .quoted s
  | int n =>
    have hbytes : ∀ a ∈ formatInt n, isNumberByte a = true := fun a ha => isNumberByte_formatInt ha
    have hspec := fun a ha => (isNumberByte_spec a (hbytes a ha)).2.2
    exact hplain _ (fun h => (hspec _ h).1 rfl) (fun h => (hspec _ h).2.1.1 rfl)
      (fun h => (hspec _ h).2.1.2.1 rfl) (fun h => (hspec _ h).2.1.2.2 rfl)
      (BoundLiteral.number (formatInt_ne_nil n) hbytes).trimSpace_eq
  | bool b =>
    cases b with
    | true =>
      show Atom (str "true")
      rw [str_true]
      refine hplain _ ?_ ?_ ?_ ?_ ?_ <;> decide
    | false =>
      show Atom (str "false")
      rw [str_false]
      refine hplain _ ?_ ?_ ?_ ?_ ?_ <;> decide
  | float x => exact h.elim
  | other s => exact h.elim

theorem Param.Fits.parseVal_eq (h : p.Fits c) : parseVal (formatParam p) c.type = .ok p.value := by
  cases p with
  | null =>
    have hnull : equalFold (trimSpace (str "NULL")) (str "NULL") = true := by
      rw [str_null]
      decide
    show parseVal (str "NULL") c.type = _
    unfold parseVal
    simp only [hnull, if_true]
    rfl
  | text s =>
    rw [h.1]
    exact parseVal_quoteLiteral s
  | int n =>
    obtain ⟨htype, hlow, hhigh⟩ := h
    rw [htype]
    exact parseVal_number (formatInt_ne_nil n) (fun a ha => isNumberByte_formatInt ha)
      (parseInt_formatInt hlow hhigh)
  | bool b =>
    rw [show c.type = .bool from h]
    cases b with
    | true => decide +kernel
    | false => decide +kernel
  | float x => exact h.elim
  | other s => exact h.elim

theorem Param.Fits.key_ne_nil (h : p.Fits c) (hprimary : c.primary = true) :
    valueKey p.value ≠ [] := by
  cases p with
  | null =>
    rw [show c.primary = false from h] at hprimary
    cases hprimary
  | text s => exact h.2 hprimary
  | int n => exact formatInt_ne_nil _
  | bool b =>
    cases b with
    | true => exact ne_of_eq_of_ne str_true (List.cons_ne_nil _ _)
    | false => exact ne_of_eq_of_ne str_false (List.cons_ne_nil _ _)
  | float x => exact h.elim
  | other s => exact h.elim

theorem fillRow_bound (h : List.Forall₂ (fun c p => p.Fits c) columns args) (item : InsertRow) :
    fillRow parseVal (columns.zip (args.map formatParam)) item.row item.key =
      .ok (((columns.zip args).foldl boundCell item).row,
      ((columns.zip args).foldl boundCell item).key) := by
  induction h generalizing item with
  | nil => rfl
  | @cons c p columns args hp _ ih =>
    simp only [List.map_cons, List.zip_cons_cons, fillRow, hp.parseVal_eq, List.foldl_cons]
    exact ih (boundCell item (c, p))

theorem key_foldl_boundCell (h : List.Forall₂ (fun c p => p.Fits c) columns args) {item : InsertRow}
    (hkey : hasPrimaryColumn columns = true ∨ item.key ≠ []) :
    ((columns.zip args).foldl boundCell item).key ≠ [] := by
  induction h generalizing item with
  | nil => exact hkey.resolve_left (by simp [hasPrimaryColumn])
  | @cons c p columns args hp _ ih =>
    rw [List.zip_cons_cons, List.foldl_cons]
    refine ih ?_
    cases hprimary : c.primary with
    | true =>
      refine Or.inr ?_
      simpa [boundCell, hprimary] using hp.key_ne_nil hprimary
    | false => simpa [boundCell, hasPrimaryColumn, hprimary] using hkey

theorem buildRow_bound (h : List.Forall₂ (fun c p => p.Fits c) columns args) :
    buildRow parseVal columns (args.map formatParam) = .ok (boundRow columns args) := by
  have hfill := fillRow_bound h ⟨[], ∅⟩
  unfold buildRow
  rw [hfill]
  show (if _ then _ else _) = _
  rw [if_neg]
  · rfl
  · rintro ⟨hnil, hprimary⟩
    exact key_foldl_boundCell h (Or.inl hprimary) hnil

variable {rows : List (List Param)}

theorem flushRow_bound (hcolumns : columns ≠ [])
    (h : List.Forall₂ (fun c p => p.Fits c) columns args) (items : List InsertRow) :
    flushRow columns true items (rowCells ((str ", ").intercalate (args.map formatParam))) =
      .ok (items ++ [boundRow columns args]) := by
  have hatoms : ∀ l ∈ args.map formatParam, Atom l := by
    intro l hl
    obtain ⟨p, hp, rfl⟩ := List.mem_map.1 hl
    obtain ⟨c, -, hfits⟩ := (exists_of_forall₂ h).2 p hp
    exact hfits.atom
  have hlen := h.length_eq
  have hne : args.map formatParam ≠ [] := by
    intro hnil
    rw [List.map_eq_nil_iff] at hnil
    rw [hnil, List.length_nil] at hlen
    exact hcolumns (List.length_eq_zero_iff.1 hlen)
  rw [← flushRow_trimSpace, rowCells_intercalate hatoms hne, flushRow,
    if_neg (by rw [List.length_map]; omega), buildRow_bound h]
  show (if _ then _ else _) = _
  rw [if_neg (by simp)]

theorem parseInsertRowsMode_bound (hcolumns : columns ≠ []) (hrows : rows ≠ [])
    (h : ∀ args ∈ rows, List.Forall₂ (fun c p => p.Fits c) columns args) :
    parseInsertRowsMode (rowsText (rows.map (·.map formatParam))) columns true =
      .ok (rows.map (boundRow columns)) := by
  have hatoms : ∀ row ∈ rows.map (·.map formatParam), ∀ l ∈ row, Atom l := by
    intro row hrow l hl
    obtain ⟨args, hargs, rfl⟩ := List.mem_map.1 hrow
    obtain ⟨p, hp, rfl⟩ := List.mem_map.1 hl
    obtain ⟨c, -, hfits⟩ := (exists_of_forall₂ (h args hargs)).2 p hp
    exact hfits.atom
  have hbodies : (boundOutline (rows.map (·.map formatParam))).map Prod.snd =
      rows.map fun args => (str ", ").intercalate (args.map formatParam) := by
    cases rows with
    | nil => rfl
    | cons row rows => simp [boundOutline]
  have hfold : ∀ items, rows.foldlM (fun items args =>
      flushRow columns true items (rowCells ((str ", ").intercalate (args.map formatParam))))
        items =
      Except.ok (items ++ rows.map (boundRow columns)) := by
    clear hbodies hatoms hrows
    induction rows with
    | nil => simp [pure, Except.pure]
    | cons args rows ih =>
      intro items
      rw [List.foldlM_cons, flushRow_bound hcolumns (h args List.mem_cons_self)]
      show rows.foldlM _ _ = _
      rw [ih fun args hargs => h args (List.mem_cons_of_mem _ hargs)]
      simp
  have hscan : scanRows columns true .out {} (rowsText (rows.map (·.map formatParam))) =
      .ok (rows.map (boundRow columns)) := by
    have hbody : ((boundOutline (rows.map (·.map formatParam))).map Prod.snd).foldlM
        (fun items body => flushRow columns true items (rowCells body)) [] =
        (boundOutline (rows.map (·.map formatParam))).foldlM (flushText columns true) [] :=
      List.foldlM_map
    rw [hbodies, List.foldlM_map, hfold] at hbody
    rw [scanRows_eq, outline_rowsText hatoms]
    exact hbody.symm
  unfold parseInsertRowsMode
  rw [trimSpace_rowsText (by simpa using hrows), hscan]
  show (if _ then _ else _) = _
  rw [if_neg (by simpa using hrows)]

end Reading

/-- Arguments that are bound into rows and read again are stored exactly, unless a key repeats. -/
theorem bound_rows_iff {columns : List Column} {rows : List (List Param)} (hcolumns : columns ≠ [])
    (hrows : rows ≠ []) (h : ∀ args ∈ rows, List.Forall₂ (fun c p => p.Fits c) columns args) :
    ∃ text, bindParams (placeholders rows) rows.flatten = .ok text ∧
      (parseInsertRowsFast text columns = .ok (rows.map (boundRow columns)) ↔
        DistinctKeys (rows.map (boundRow columns))) := by
  have hargs : rows.flatten ≠ [] := by
    obtain ⟨row, rows, rfl⟩ := List.exists_cons_of_ne_nil hrows
    have hlen := (h row List.mem_cons_self).length_eq
    have hpos := List.length_pos_iff.2 hcolumns
    intro hnil
    rw [List.flatten_cons, List.append_eq_nil_iff] at hnil
    rw [hnil.1, List.length_nil] at hlen
    omega
  refine ⟨_, bindParams_placeholders hargs, ?_⟩
  unfold parseInsertRowsFast
  rcases parseInsertRowsMode_plain (parseInsertRowsMode_bound hcolumns hrows h) with
    ⟨hdistinct, hplain⟩ | ⟨hdup, f, hplain⟩
  · exact ⟨fun _ => hdistinct, fun _ => hplain⟩
  · rw [hplain]
    exact ⟨fun hno => (by cases hno), fun hyes => absurd hyes hdup⟩

def keyedText : List Column := [⟨str "k", .int, true⟩, ⟨str "s", .text, false⟩]

/-- A string of every byte that the scanners look for, and the word NULL. -/
theorem bound_rows_awkward :
    let rows := [[Param.int 1, .text (str "'),(?'")], [.int 2, .text (str "NULL")], [.int 3, .null]]
    keyedText ≠ [] ∧ rows ≠ [] ∧
    (∀ args ∈ rows, List.Forall₂ (fun c p => p.Fits c) keyedText args) ∧
      ∃ text, bindParams (placeholders rows) rows.flatten = .ok text ∧
        parseInsertRowsFast text keyedText = .ok (rows.map (boundRow keyedText)) := by
  intro rows
  have hcolumns : keyedText ≠ [] := by simp [keyedText]
  have hrows : rows ≠ [] := by simp [rows]
  have hfits : ∀ args ∈ rows, List.Forall₂ (fun c p => p.Fits c) keyedText args := by
    intro args hargs
    simp only [rows, List.mem_cons, List.not_mem_nil, or_false] at hargs
    rcases hargs with rfl | rfl | rfl <;>
      exact .cons (by simp [Param.Fits]) (.cons (by simp [Param.Fits]) .nil)
  obtain ⟨text, hbind, hread⟩ := bound_rows_iff hcolumns hrows hfits
  refine ⟨hcolumns, hrows, hfits, text, hbind, hread.2 ?_⟩
  have hkeys : (rows.map (boundRow keyedText)).map (·.key) =
      [str "1", str "2", str "3"] := by decide +kernel
  have hnodup : ((rows.map (boundRow keyedText)).map (·.key)).Nodup := by
    rw [hkeys]
    decide +kernel
  rw [List.Nodup, List.pairwise_map] at hnodup
  refine List.Pairwise.imp ?_ hnodup
  intro a b hne _
  exact hne

/-- Two rows with one key are refused. -/
theorem bound_rows_repeated :
    (∀ args ∈ [[Param.int 1, .null], [.int 1, .null]],
      List.Forall₂ (fun c p => p.Fits c) keyedText args) ∧
    bindParams (placeholders [[Param.int 1, .null], [.int 1, .null]])
      [[Param.int 1, .null], [.int 1, .null]].flatten = .ok (str "(1, NULL), (1, NULL)") ∧
    (parseInsertRowsFast (str "(1, NULL), (1, NULL)") keyedText).map List.length =
      .error (fault "duplicate primary key") := by
  refine ⟨?_, by decide +kernel, by decide +kernel⟩
  intro args hargs
  simp only [List.mem_cons, List.not_mem_nil, or_false, or_self] at hargs
  subst hargs
  exact .cons (by simp [Param.Fits]) (.cons (by simp [Param.Fits]) .nil)

end SuperDB.Engine
