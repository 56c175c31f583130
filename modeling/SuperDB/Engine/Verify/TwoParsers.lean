import SuperDB.Engine.Verify.RowList
import SuperDB.Go.Words

/-!
# The two parsers of VALUES agree

Both parsers see the same rows in a text, those of its outline. They cut a row at the same commas;
one has the white space around the row and around each value trimmed by then, the other leaves it to
`parseVal`, which trims it in any case.
-/

namespace SuperDB.Engine

open Go

/-! ## The values of a row -/

theorem cellStep_comma {vals : List Bytes} {cur : Bytes} :
    cellStep (vals, cur, false) (ch ',') = (vals ++ [cur], [], false) := by
  have hquote : ch ',' ≠ quote := by decide
  simp [cellStep, hquote]

theorem splitValsFrom_eq {q : Quote} {s : Bytes} (hfits : q.Fits s) (cur : Bytes)
    (vals : List Bytes) :
    vals.map trimSpace ++ splitValsFrom q cur s =
      ((s.foldl cellStep (vals, cur.reverse, q.odd)).1 ++
        [(s.foldl cellStep (vals, cur.reverse, q.odd)).2.1]).map trimSpace := by
  induction s generalizing q cur vals with
  | nil => simp [splitValsFrom]
  | cons a s ih =>
    rw [splitValsFrom, List.foldl_cons]
    by_cases hcomma : (q.plain a && a == ch ',') = true
    · rw [if_pos hcomma]
      simp only [Bool.and_eq_true, beq_iff_eq] at hcomma
      obtain ⟨hplain, rfl⟩ := hcomma
      obtain rfl : q = .out := by
        cases q
        · rfl
        · cases hplain
        · cases hplain
      have hnext := ih (Quote.Fits.out s) [] (vals ++ [cur.reverse])
      rw [List.map_append, List.append_assoc] at hnext
      rw [show Quote.out.odd = false from rfl, cellStep_comma]
      exact hnext
    · rw [if_neg hcomma]
      have hpush : cellStep (vals, cur.reverse, q.odd) a =
          (vals, (a :: cur).reverse, (q.step a s).odd) := by
        rw [Quote.odd_step hfits, List.reverse_cons]
        by_cases hquote : a = quote
        · simp [cellStep, hquote]
        · rw [beq_eq_false_iff_ne.2 hquote, Bool.xor_false]
          refine cellStep_push hquote ?_
          rw [Quote.plain_of_ne hfits hquote] at hcomma
          cases hodd : q.odd with
          | true => exact Or.inl rfl
          | false => exact Or.inr fun ha => hcomma (by simp [hodd, ha])
      rw [hpush]
      exact ih Quote.Fits.step (a :: cur) vals

theorem splitVals_eq (s : Bytes) : splitVals s = (rowCells s).map trimSpace :=
  splitValsFrom_eq (Quote.Fits.out s) [] []

/-- Two readings of a row that differ by white space before the values. -/
def SameCells (c c' : List Bytes × Bytes × Bool) : Prop :=
  c.1.map trimSpace = c'.1.map trimSpace ∧ (∃ g, Blank g ∧ c.2.1 = g ++ c'.2.1) ∧ c.2.2 = c'.2.2

theorem SameCells.step {c c' : List Bytes × Bytes × Bool} (h : SameCells c c') (a : UInt8) :
    SameCells (cellStep c a) (cellStep c' a) := by
  obtain ⟨vals, cur, odd⟩ := c
  obtain ⟨vals', cur', odd'⟩ := c'
  obtain ⟨hvals, ⟨g, hg, hcur⟩, hodd⟩ := h
  simp only at hvals hcur hodd
  subst hcur hodd
  unfold cellStep
  simp only
  split
  · exact ⟨hvals, ⟨g, hg, List.append_assoc _ _ _⟩, rfl⟩
  · split
    · refine ⟨?_, ⟨[], rfl, rfl⟩, rfl⟩
      simp [hvals, trimSpace_blank_append hg]
    · exact ⟨hvals, ⟨g, hg, List.append_assoc _ _ _⟩, rfl⟩

theorem SameCells.foldl {c c' : List Bytes × Bytes × Bool} (h : SameCells c c') (s : Bytes) :
    SameCells (s.foldl cellStep c) (s.foldl cellStep c') := by
  induction s generalizing c c' with
  | nil => exact h
  | cons a s ih => exact ih (h.step a)

theorem foldl_cellStep_plain {g : Bytes} (hquote : quote ∉ g) (hcomma : ch ',' ∉ g)
    (c : List Bytes × Bytes × Bool) : g.foldl cellStep c = (c.1, c.2.1 ++ g, c.2.2) := by
  induction g generalizing c with
  | nil => simp
  | cons a g ih =>
    simp only [List.mem_cons, not_or] at hquote hcomma
    rw [List.foldl_cons, cellStep_push (Ne.symm hquote.1) (Or.inr (Ne.symm hcomma.1)),
      ih hquote.2 hcomma.2]
    simp

theorem foldl_cellStep_blank {g : Bytes} (hg : Blank g) (c : List Bytes × Bytes × Bool) :
    g.foldl cellStep c = (c.1, c.2.1 ++ g, c.2.2) :=
  foldl_cellStep_plain (fun h => absurd (hg.space1 h (by decide)) (by decide))
    (fun h => absurd (hg.space1 h (by decide)) (by decide)) c

theorem rowCells_trimSpace (s : Bytes) :
    (rowCells (trimSpace s)).map trimSpace = (rowCells s).map trimSpace := by
  obtain ⟨g, hs, hg⟩ := exists_blank_trimLeft s
  obtain ⟨g', hs', hg'⟩ := exists_blank_trimRight (trimLeft s)
  have hsplit : s = g ++ (trimSpace s ++ g') := by
    rw [trimSpace, ← hs', ← hs]
  have hsame : SameCells (g.foldl cellStep ([], [], false)) ([], [], false) := by
    rw [foldl_cellStep_blank hg]
    exact ⟨rfl, ⟨g, hg, by simp⟩, rfl⟩
  obtain ⟨hvals, ⟨g₁, hg₁, hcur⟩, -⟩ := hsame.foldl (trimSpace s)
  conv_rhs => rw [rowCells, hsplit, List.foldl_append, List.foldl_append, foldl_cellStep_blank hg']
  simp only [rowCells, List.map_append, List.map_cons, List.map_nil]
  rw [hvals, hcur, trimSpace_append_blank hg', trimSpace_blank_append hg₁]

/-! ## The rows -/

theorem parseVal_trimSpace (s : Bytes) (typ : ColType) : parseVal (trimSpace s) typ =
    parseVal s typ := by
  unfold parseVal
  rw [trimSpace_trimSpace]

theorem fillRow_trimSpace (columns : List Column) (vals : List Bytes) (row : Row) (key : Bytes) :
    fillRow parseVal (columns.zip (vals.map trimSpace)) row key =
      fillRow parseVal (columns.zip vals) row key := by
  induction columns generalizing vals row key with
  | nil => rfl
  | cons c columns ih =>
    cases vals with
    | nil => rfl
    | cons v vals =>
      simp only [List.map_cons, List.zip_cons_cons, fillRow, parseVal_trimSpace, ih]

theorem flushRow_trimSpace (columns : List Column) (keepLast : Bool) (rows : List InsertRow)
    (vals : List Bytes) :
    flushRow columns keepLast rows (vals.map trimSpace) = flushRow columns keepLast rows vals := by
  unfold flushRow buildRow
  rw [List.length_map, fillRow_trimSpace]

theorem flushRow_splitVals (columns : List Column) (keepLast : Bool) (rows : List InsertRow)
    (p : Bytes × Bytes) :
    flushRow columns keepLast rows (splitVals (trimSpace p.2)) =
      flushText columns keepLast rows p := by
  rw [splitVals_eq, rowCells_trimSpace, flushRow_trimSpace, flushText]

/-- The two parsers of VALUES are one function. -/
theorem parseInsertRowsFast_eq (raw : Bytes) (columns : List Column) :
    parseInsertRowsFast raw columns = parseInsertRows raw columns := by
  unfold parseInsertRowsFast parseInsertRowsMode parseInsertRows
  rw [scanRows_eq, splitRows_eq]
  simp only [List.foldlM_map, flushRow_splitVals]
  cases hrows : (outline (trimSpace raw)).rows with
  | nil => rfl
  | cons p rows =>
    simp only [List.map_cons, List.isEmpty_cons, Bool.false_eq_true, if_false]
    cases hscan : (p :: rows).foldlM (flushText columns false) [] with
    | error e => rfl
    | ok scanned =>
      have hlen : scanned.length = 0 + (p :: rows).length := length_foldlM_flush hscan
      cases scanned with
      | nil => simp at hlen
      | cons item scanned => rfl

end SuperDB.Engine
