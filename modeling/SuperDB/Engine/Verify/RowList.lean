import SuperDB.Engine.InsertRows
import SuperDB.Engine.Verify.Bind
import SuperDB.Go.Trim

/-!
# The rows in the text of VALUES

Both parsers of VALUES take the parenthesised rows out of a text and skip whatever else it holds. An
outline of a text has its rows and what stands before, between and behind them. A text that is
accepted is a list of rows exactly if nothing but blanks and single commas stands there.
-/

namespace SuperDB.Engine

open Go

variable {s raw : Bytes} {p : Nat × Bool} {a : UInt8} {rows : List InsertRow}

/-! ## Lists of rows -/

/-- Reads a byte of a text in which `depth` parentheses are open, inside a literal or not; a
parenthesis that closes nothing has no place in it. -/
def nest (p : Nat × Bool) (a : UInt8) : Option (Nat × Bool) :=
  if a = quote then some (p.1, !p.2)
  else if p.2 then some p
  else if a = ch '(' then some (p.1 + 1, p.2)
  else if a = ch ')' then if p.1 = 0 then none else some (p.1 - 1, p.2)
  else some p

/-- A text with its quotes closed and its parentheses balanced. -/
def Balanced (s : Bytes) : Prop := s.foldlM nest (0, false) = some (0, false)

/-- Rows, each behind the text before it, and the text behind the last. -/
def joinRows : List (Bytes × Bytes) → Bytes → Bytes
  | [], last => last
  | (before, body) :: rows, last => before ++ ch '(' :: body ++ ch ')' :: joinRows rows last

/-- Nothing but blanks stands in front of the first row and behind the last, and one comma, with
blanks around it, between two rows. -/
def Spaced : List (Bytes × Bytes) → Bytes → Prop
  | [], _ => False
  | p :: rows, last =>
    trimSpace p.1 = [] ∧ (∀ p ∈ rows, trimSpace p.1 = str ",") ∧ trimSpace last = []

instance Spaced.decidable : (rows : List (Bytes × Bytes)) → (last : Bytes) →
    Decidable (Spaced rows last)
  | [], _ => .isFalse id
  | p :: rows, last =>
    inferInstanceAs (Decidable (trimSpace p.1 = [] ∧ (∀ p ∈ rows, trimSpace p.1 = str ",") ∧
      trimSpace last = []))

/-- A text is a comma-separated list of `n` complete rows. -/
def IsRowList (s : Bytes) (n : Nat) : Prop :=
  ∃ rows last, s = joinRows rows last ∧ rows.length = n ∧ Spaced rows last ∧
    ∀ p ∈ rows, Balanced p.2

/-! ## Outlines -/

/-- The outline of a text that has been read up to some byte: the complete rows with the text before
each, the text before the row being read, and the text since. -/
structure Outline where
  depth : Int := 0
  odd : Bool := false
  rows : List (Bytes × Bytes) := []
  before : Bytes := []
  cur : Bytes := []

namespace Outline

def step (o : Outline) (a : UInt8) : Outline :=
  if a = quote then { o with odd := !o.odd, cur := o.cur ++ [a] }
  else if o.odd then { o with cur := o.cur ++ [a] }
  else if a = ch '(' then
    if o.depth = 0 then { o with depth := 1, before := o.cur, cur := [] }
    else { o with depth := o.depth + 1, cur := o.cur ++ [a] }
  else if a = ch ')' then
    if o.depth = 1 then
      { o with depth := 0, rows := o.rows ++ [(o.before, o.cur)], before := [], cur := [] }
    else { o with depth := o.depth - 1, cur := o.cur ++ [a] }
  else { o with cur := o.cur ++ [a] }

def last (o : Outline) : Bytes := if 1 ≤ o.depth then o.before ++ ch '(' :: o.cur else o.cur

end Outline

def outline (s : Bytes) : Outline := s.foldl Outline.step {}

/-- Outside the rows of a text, which are those that are opened at depth zero and closed again,
there are only blanks, with one comma between two rows. -/
def Separated (s : Bytes) : Prop := Spaced (outline s).rows (outline s).last

instance Separated.decidable (s : Bytes) : Decidable (Separated s) :=
  Spaced.decidable _ _

namespace Outline

variable {o : Outline} {a : UInt8}

theorem step_quote : o.step quote = { o with odd := !o.odd, cur := o.cur ++ [quote] } := if_pos rfl

theorem step_skip (hquote : a ≠ quote) (h : o.odd = true ∨ a ≠ ch '(' ∧ a ≠ ch ')') :
    o.step a = { o with cur := o.cur ++ [a] } := by
  unfold step
  rw [if_neg hquote]
  rcases h with hodd | ⟨hopen, hclose⟩
  · rw [if_pos hodd]
  · rw [if_neg hopen, if_neg hclose, ite_self]

theorem paren_ne_quote : ch '(' ≠ quote ∧ ch ')' ≠ quote ∧ ch ')' ≠ ch '(' := by decide

theorem step_open (hodd : o.odd = false) (hdepth : o.depth = 0) :
    o.step (ch '(') = { o with depth := 1, before := o.cur, cur := [] } := by
  unfold step
  rw [if_neg paren_ne_quote.1, if_neg (by rw [hodd]; exact Bool.false_ne_true), if_pos rfl,
    if_pos hdepth]

theorem step_deeper (hodd : o.odd = false) (hdepth : o.depth ≠ 0) :
    o.step (ch '(') = { o with depth := o.depth + 1, cur := o.cur ++ [ch '('] } := by
  unfold step
  rw [if_neg paren_ne_quote.1, if_neg (by rw [hodd]; exact Bool.false_ne_true), if_pos rfl,
    if_neg hdepth]

theorem step_close (hodd : o.odd = false) (hdepth : o.depth = 1) :
    o.step (ch ')') =
      { o with depth := 0, rows := o.rows ++ [(o.before, o.cur)], before := [], cur := [] } := by
  unfold step
  rw [if_neg paren_ne_quote.2.1, if_neg (by rw [hodd]; exact Bool.false_ne_true),
    if_neg paren_ne_quote.2.2, if_pos rfl, if_pos hdepth]

theorem step_shallower (hodd : o.odd = false) (hdepth : o.depth ≠ 1) :
    o.step (ch ')') = { o with depth := o.depth - 1, cur := o.cur ++ [ch ')'] } := by
  unfold step
  rw [if_neg paren_ne_quote.2.1, if_neg (by rw [hodd]; exact Bool.false_ne_true),
    if_neg paren_ne_quote.2.2, if_pos rfl, if_neg hdepth]

theorem step_cases (o : Outline) (a : UInt8) :
    (a = quote ∧ o.step a = { o with odd := !o.odd, cur := o.cur ++ [a] }) ∨
    (a ≠ quote ∧ (o.odd = true ∨ a ≠ ch '(' ∧ a ≠ ch ')') ∧
      o.step a = { o with cur := o.cur ++ [a] }) ∨
    (a = ch '(' ∧ o.odd = false ∧ o.depth = 0 ∧
      o.step a = { o with depth := 1, before := o.cur, cur := [] }) ∨
    (a = ch ')' ∧ o.odd = false ∧ o.depth = 1 ∧ o.step a =
      { o with depth := 0, rows := o.rows ++ [(o.before, o.cur)], before := [], cur := [] }) ∨
    (a ≠ quote ∧ o.odd = false ∧ (a = ch '(' ∧ o.depth ≠ 0 ∧
        o.step a = { o with depth := o.depth + 1, cur := o.cur ++ [a] } ∨
      a = ch ')' ∧ o.depth ≠ 1 ∧
        o.step a = { o with depth := o.depth - 1, cur := o.cur ++ [a] })) := by
  by_cases hquote : a = quote
  · exact Or.inl ⟨hquote, hquote ▸ step_quote⟩
  by_cases hlit : o.odd = true
  · exact Or.inr (Or.inl ⟨hquote, Or.inl hlit, step_skip hquote (Or.inl hlit)⟩)
  have hodd : o.odd = false := Bool.eq_false_iff.2 hlit
  by_cases hopen : a = ch '('
  · subst hopen
    by_cases hdepth : o.depth = 0
    · exact Or.inr (Or.inr (Or.inl ⟨rfl, hodd, hdepth, step_open hodd hdepth⟩))
    · exact Or.inr (Or.inr (Or.inr (Or.inr
        ⟨hquote, hodd, Or.inl ⟨rfl, hdepth, step_deeper hodd hdepth⟩⟩)))
  by_cases hclose : a = ch ')'
  · subst hclose
    by_cases hdepth : o.depth = 1
    · exact Or.inr (Or.inr (Or.inr (Or.inl ⟨rfl, hodd, hdepth, step_close hodd hdepth⟩)))
    · exact Or.inr (Or.inr (Or.inr (Or.inr
        ⟨hquote, hodd, Or.inr ⟨rfl, hdepth, step_shallower hodd hdepth⟩⟩)))
  · exact Or.inr (Or.inl ⟨hquote, Or.inr ⟨hopen, hclose⟩,
      step_skip hquote (Or.inr ⟨hopen, hclose⟩)⟩)

end Outline

/-! ## The text of an outline -/

theorem joinRows_append (rows rows' : List (Bytes × Bytes)) (last : Bytes) :
    joinRows (rows ++ rows') last = joinRows rows (joinRows rows' last) := by
  induction rows with
  | nil => rfl
  | cons p rows ih => rw [List.cons_append, joinRows, ih, joinRows]

theorem append_joinRows (rows : List (Bytes × Bytes)) (last t : Bytes) :
    joinRows rows last ++ t = joinRows rows (last ++ t) := by
  induction rows with
  | nil => rfl
  | cons p rows ih => simp [joinRows, ih]

theorem Outline.joinRows_step (o : Outline) (a : UInt8) :
    joinRows (o.step a).rows (o.step a).last = joinRows o.rows o.last ++ [a] := by
  rw [append_joinRows]
  rcases o.step_cases a with ⟨-, h⟩ | ⟨-, -, h⟩ | ⟨rfl, -, hdepth, h⟩ | ⟨rfl, -, hdepth, h⟩ |
    ⟨-, -, ⟨-, hdepth, h⟩ | ⟨-, hdepth, h⟩⟩
  · rw [h]
    refine congrArg (joinRows o.rows) ?_
    unfold last
    split <;> simp
  · rw [h]
    refine congrArg (joinRows o.rows) ?_
    unfold last
    split <;> simp
  · rw [h]
    refine congrArg (joinRows o.rows) ?_
    simp [last, hdepth]
  · rw [h, joinRows_append]
    refine congrArg (joinRows o.rows) ?_
    simp [last, hdepth, joinRows]
  · rw [h]
    refine congrArg (joinRows o.rows) ?_
    unfold last
    by_cases hin : 1 ≤ o.depth
    · rw [if_pos hin, if_pos (show 1 ≤ o.depth + 1 by omega)]
      simp
    · rw [if_neg hin, if_neg (show ¬1 ≤ o.depth + 1 by omega)]
  · rw [h]
    refine congrArg (joinRows o.rows) ?_
    unfold last
    by_cases hin : 1 ≤ o.depth
    · rw [if_pos hin, if_pos (show 1 ≤ o.depth - 1 by omega)]
      simp
    · rw [if_neg hin, if_neg (show ¬1 ≤ o.depth - 1 by omega)]

theorem joinRows_foldl (s : Bytes) (o : Outline) :
    joinRows (s.foldl Outline.step o).rows (s.foldl Outline.step o).last =
      joinRows o.rows o.last ++ s := by
  induction s generalizing o with
  | nil => rw [List.foldl_nil, List.append_nil]
  | cons a s ih =>
    rw [List.foldl_cons, ih, o.joinRows_step, List.append_assoc, List.singleton_append]

theorem joinRows_outline (s : Bytes) : joinRows (outline s).rows (outline s).last = s :=
  joinRows_foldl s {}

/-! ## Complete rows -/

/-- The complete rows are balanced, and the row being read lacks what is still open. -/
structure Outline.Nested (o : Outline) : Prop where
  rows : ∀ p ∈ o.rows, Balanced p.2
  cur : 1 ≤ o.depth → o.cur.foldlM nest (0, false) = some ((o.depth - 1).toNat, o.odd)

theorem foldlM_nest_concat (h : s.foldlM nest (0, false) = some p) (a : UInt8) :
    (s ++ [a]).foldlM nest (0, false) = nest p a := by
  rw [List.foldlM_append, h]
  simp

theorem nest_skip (hquote : a ≠ quote) (h : p.2 = true ∨ a ≠ ch '(' ∧ a ≠ ch ')') :
    nest p a = some p := by
  unfold nest
  rw [if_neg hquote]
  rcases h with hodd | ⟨hopen, hclose⟩
  · rw [if_pos hodd]
  · rw [if_neg hopen, if_neg hclose, ite_self]

theorem nest_open (depth : Nat) : nest (depth, false) (ch '(') = some (depth + 1, false) := by
  unfold nest
  rw [if_neg Outline.paren_ne_quote.1, if_neg Bool.false_ne_true, if_pos rfl]

theorem nest_close {depth : Nat} (h : depth ≠ 0) :
    nest (depth, false) (ch ')') = some (depth - 1, false) := by
  unfold nest
  rw [if_neg Outline.paren_ne_quote.2.1, if_neg Bool.false_ne_true,
    if_neg Outline.paren_ne_quote.2.2, if_pos rfl, if_neg h]

theorem Outline.Nested.step {o : Outline} (h : o.Nested) (a : UInt8) : (o.step a).Nested := by
  rcases o.step_cases a with ⟨rfl, hs⟩ | ⟨hquote, hskip, hs⟩ | ⟨rfl, hodd, hdepth, hs⟩ |
    ⟨rfl, hodd, hdepth, hs⟩ | ⟨hquote, hodd, ⟨rfl, hdepth, hs⟩ | ⟨rfl, hdepth, hs⟩⟩
  · rw [hs]
    refine ⟨h.rows, fun hin => ?_⟩
    rw [foldlM_nest_concat (h.cur hin)]
    simp [nest]
  · rw [hs]
    refine ⟨h.rows, fun hin => ?_⟩
    rw [foldlM_nest_concat (h.cur hin), nest_skip hquote hskip]
  · rw [hs]
    exact ⟨h.rows, fun _ => by rw [hodd]; rfl⟩
  · rw [hs]
    refine ⟨fun p hp => ?_, fun hin => absurd hin (show ¬(1 : Int) ≤ 0 by decide)⟩
    rcases List.mem_append.1 hp with hp | hp
    · exact h.rows p hp
    · obtain rfl := List.mem_singleton.1 hp
      have hcur := h.cur (by omega)
      rwa [hdepth, hodd] at hcur
  · rw [hs]
    refine ⟨h.rows, fun hin => ?_⟩
    simp only at hin
    have hpos : 1 ≤ o.depth := by omega
    have hnat : (o.depth - 1).toNat + 1 = (o.depth + 1 - 1).toNat := by omega
    rw [foldlM_nest_concat (h.cur hpos), hodd, nest_open, hnat]
  · rw [hs]
    refine ⟨h.rows, fun hin => ?_⟩
    simp only at hin
    have hpos : 1 ≤ o.depth := by omega
    have hne : (o.depth - 1).toNat ≠ 0 := by omega
    have hnat : (o.depth - 1).toNat - 1 = (o.depth - 1 - 1).toNat := by omega
    rw [foldlM_nest_concat (h.cur hpos), hodd, nest_close hne, hnat]

theorem nested_outline (s : Bytes) : (outline s).Nested := by
  have hfold : ∀ (s : Bytes) (o : Outline), o.Nested → (s.foldl Outline.step o).Nested := by
    intro s
    induction s with
    | nil => exact fun o h => h
    | cons a s ih => exact fun o h => ih (o.step a) (h.step a)
  exact hfold s {} ⟨fun p hp => (List.not_mem_nil hp).elim,
    fun h => absurd h (show ¬(1 : Int) ≤ 0 by decide)⟩

/-! ## The outline of a list of rows -/

theorem foldl_step_skip (hquote : quote ∉ s) (hopen : ch '(' ∉ s) (hclose : ch ')' ∉ s)
    (o : Outline) : s.foldl Outline.step o = { o with cur := o.cur ++ s } := by
  induction s generalizing o with
  | nil => simp
  | cons a s ih =>
    simp only [List.mem_cons, not_or] at hquote hopen hclose
    rw [List.foldl_cons, Outline.step_skip (Ne.symm hquote.1)
      (Or.inr ⟨Ne.symm hopen.1, Ne.symm hclose.1⟩), ih hquote.2 hopen.2 hclose.2]
    simp

theorem Outline.step_nest {o : Outline} {p' : Nat × Bool} (h : nest p a = some p')
    (hdepth : o.depth = p.1 + 1) (hodd : o.odd = p.2) :
    o.step a = { o with depth := p'.1 + 1, odd := p'.2, cur := o.cur ++ [a] } := by
  obtain ⟨depth, odd⟩ := p
  simp only at hdepth hodd
  rcases o.step_cases a with ⟨rfl, hs⟩ | ⟨hquote, hskip, hs⟩ | ⟨rfl, -, hzero, -⟩ |
    ⟨rfl, hodd', hone, -⟩ | ⟨hquote, hodd', ⟨rfl, -, hs⟩ | ⟨rfl, hne, hs⟩⟩
  · simp only [nest, if_true, Option.some.injEq] at h
    rw [hs, ← h, hdepth, hodd]
  · rw [nest_skip hquote (hodd ▸ hskip), Option.some.injEq] at h
    rw [hs, ← h, ← hdepth, ← hodd]
  · omega
  · obtain rfl : odd = false := hodd.symm.trans hodd'
    obtain rfl : depth = 0 := by omega
    simp [nest, Outline.paren_ne_quote] at h
  · obtain rfl : odd = false := hodd.symm.trans hodd'
    rw [nest_open, Option.some.injEq] at h
    rw [hs, ← h, hdepth, hodd]
    rfl
  · obtain rfl : odd = false := hodd.symm.trans hodd'
    have hpos : depth ≠ 0 := by omega
    rw [nest_close hpos, Option.some.injEq] at h
    have hnat : o.depth - 1 = ((depth - 1 : Nat) : Int) + 1 := by omega
    rw [hs, ← h, hnat, hodd]

theorem foldl_step_nest {p' : Nat × Bool} (h : s.foldlM nest p = some p') {o : Outline}
    (hdepth : o.depth = p.1 + 1) (hodd : o.odd = p.2) :
    s.foldl Outline.step o = { o with depth := p'.1 + 1, odd := p'.2, cur := o.cur ++ s } := by
  induction s generalizing o p with
  | nil =>
    cases h
    simp [← hdepth, ← hodd]
  | cons a s ih =>
    rw [List.foldlM_cons] at h
    obtain ⟨q, hq, h⟩ := Option.bind_eq_some_iff.1 h
    rw [List.foldl_cons, Outline.step_nest hq hdepth hodd, ih h rfl rfl]
    simp

def Gap (s : Bytes) : Prop := quote ∉ s ∧ ch '(' ∉ s ∧ ch ')' ∉ s

theorem gap_of_trimSpace {t : Bytes} (ht : Gap t) (h : trimSpace s = t) : Gap s := by
  have hcount : ∀ c : UInt8, c < 0x80 → space1 c = false → c ∉ t → c ∉ s := by
    intro c hc hspace hnot
    rw [← List.count_eq_zero, ← count_trimSpace hc hspace, h]
    exact List.count_eq_zero.2 hnot
  exact ⟨hcount _ (by decide) (by decide) ht.1, hcount _ (by decide) (by decide) ht.2.1,
    hcount _ (by decide) (by decide) ht.2.2⟩

theorem foldl_step_joinRows {rows : List (Bytes × Bytes)} {last : Bytes}
    (hrows : ∀ p ∈ rows, Gap p.1 ∧ Balanced p.2) (hlast : Gap last) (l : List (Bytes × Bytes)) :
    (joinRows rows last).foldl Outline.step { rows := l } = { rows := l ++ rows, cur := last } := by
  induction rows generalizing l with
  | nil => simpa [joinRows] using foldl_step_skip hlast.1 hlast.2.1 hlast.2.2 { rows := l }
  | cons p rows ih =>
    obtain ⟨⟨hquote, hopen, hclose⟩, hbody⟩ := hrows p List.mem_cons_self
    have hnext := ih (fun p hp => hrows p (List.mem_cons_of_mem _ hp)) (l ++ [p])
    rw [joinRows, List.append_assoc, List.foldl_append, foldl_step_skip hquote hopen hclose,
      List.cons_append, List.foldl_cons, Outline.step_open rfl rfl, List.foldl_append,
      foldl_step_nest hbody rfl rfl, List.foldl_cons, Outline.step_close rfl rfl]
    simpa using hnext

/-- A text is a list of rows exactly if its outline is one. -/
theorem isRowList_iff (s : Bytes) (n : Nat) :
    IsRowList s n ↔ Separated s ∧ (outline s).rows.length = n := by
  constructor
  · rintro ⟨rows, last, rfl, hlen, hspaced, hbodies⟩
    have hnil : Gap [] := ⟨List.not_mem_nil, List.not_mem_nil, List.not_mem_nil⟩
    have hcomma : Gap (str ",") := by
      rw [str_ofList]
      refine ⟨?_, ?_, ?_⟩ <;> decide
    have hgaps : (∀ p ∈ rows, Gap p.1) ∧ Gap last := by
      cases rows with
      | nil => exact hspaced.elim
      | cons p rows =>
        obtain ⟨hfirst, hmore, hend⟩ := hspaced
        refine ⟨fun q hq => ?_, gap_of_trimSpace hnil hend⟩
        rcases List.mem_cons.1 hq with rfl | hq
        · exact gap_of_trimSpace hnil hfirst
        · exact gap_of_trimSpace hcomma (hmore q hq)
    have houtline : outline (joinRows rows last) = { rows := rows, cur := last } :=
      foldl_step_joinRows (fun p hp => ⟨hgaps.1 p hp, hbodies p hp⟩) hgaps.2 []
    unfold Separated
    rw [houtline]
    exact ⟨hspaced, hlen⟩
  · rintro ⟨hspaced, hlen⟩
    exact ⟨_, _, (joinRows_outline s).symm, hlen, hspaced, (nested_outline s).rows⟩

/-! ## The parsers -/

theorem Quote.plain_of_ne {q : Quote} (hfits : q.Fits (a :: s)) (hquote : a ≠ quote) :
    q.plain a = !q.odd := by
  have hplain := Quote.plain_eq hfits
  rw [beq_eq_false_iff_ne.2 hquote, Bool.false_or] at hplain
  rw [← hplain, Bool.not_not]

theorem Quote.not_plain_quote {q : Quote} (hfits : q.Fits (quote :: s)) :
    q.plain quote = false := by
  have hplain := Quote.plain_eq hfits
  rw [beq_self_eq_true, Bool.true_or] at hplain
  rw [← Bool.not_not (q.plain quote), hplain]
  rfl

/-- A byte adds a row or none, whatever the rows before are. -/
theorem Outline.step_rows (o : Outline) (a : UInt8) : ∃ more, (o.step a).rows = o.rows ++ more ∧
    ({ o with rows := [] } : Outline).step a = { o.step a with rows := more } := by
  unfold step
  split_ifs
  all_goals first
    | exact ⟨[], by simp, rfl⟩
    | exact ⟨[(o.before, o.cur)], rfl, rfl⟩

theorem rows_foldl_step (s : Bytes) (o : Outline) :
    (s.foldl Outline.step o).rows = o.rows ++
      (s.foldl Outline.step { o with rows := [] }).rows := by
  induction s generalizing o with
  | nil => simp
  | cons a s ih =>
    obtain ⟨more, hrows, hstep⟩ := o.step_rows a
    rw [List.foldl_cons, List.foldl_cons, hstep, ih, ih { o.step a with rows := more }, hrows,
      List.append_assoc]

/-- One byte of a row: commas outside literals separate the values. -/
def cellStep (c : List Bytes × Bytes × Bool) (a : UInt8) : List Bytes × Bytes × Bool :=
  if a = quote then (c.1, c.2.1 ++ [a], !c.2.2)
  else if c.2.2 = false ∧ a = ch ',' then (c.1 ++ [c.2.1], [], false)
  else (c.1, c.2.1 ++ [a], c.2.2)

def rowCells (body : Bytes) : List Bytes :=
  let c := body.foldl cellStep ([], [], false)
  c.1 ++ [c.2.1]

section Scan

variable {columns : List Column} {keepLast : Bool}

def flushText (columns : List Column) (keepLast : Bool) (rows : List InsertRow)
    (p : Bytes × Bytes) :
    Except Fault (List InsertRow) :=
  flushRow columns keepLast rows (rowCells p.2)

structure RowScan.Outlines (q : Quote) (st : RowScan) (o : Outline) : Prop where
  odd : q.odd = o.odd
  depth : st.depth = o.depth
  inRow : st.inRow = true ↔ 1 ≤ o.depth
  cells : 1 ≤ o.depth → o.cur.foldl cellStep ([], [], false) = (st.vals, st.cur.reverse, o.odd)

theorem cellStep_push {c : List Bytes × Bytes × Bool} (hquote : a ≠ quote)
    (h : c.2.2 = true ∨ a ≠ ch ',') : cellStep c a = (c.1, c.2.1 ++ [a], c.2.2) := by
  have hnot : ¬(c.2.2 = false ∧ a = ch ',') := by
    rintro ⟨hodd, hcomma⟩
    rcases h with h | h
    · rw [hodd] at h
      cases h
    · exact h hcomma
  unfold cellStep
  rw [if_neg hquote, if_neg hnot]

namespace RowScan.Outlines

variable {q : Quote} {st : RowScan} {o : Outline} {a : UInt8} {s : Bytes}

theorem push {st' : RowScan} {o' : Outline} (h : Outlines q st o) (hfits : q.Fits (a :: s))
    (hcell : 1 ≤ o.depth → a = quote ∨ o.odd = true ∨ a ≠ ch ',')
    (hst : st'.inRow = st.inRow ∧ st'.vals = st.vals ∧ st'.cur = a :: st.cur)
    (ho : o'.odd = (o.odd ^^ (a == quote)) ∧ o'.cur = o.cur ++ [a])
    (hdepth : st'.depth = o'.depth) (hin : 1 ≤ o'.depth ↔ 1 ≤ o.depth) :
    Outlines (q.step a s) st' o' := by
  refine ⟨by rw [Quote.odd_step hfits, h.odd, ho.1], hdepth, ?_, fun hin' => ?_⟩
  · rw [hst.1]
    exact h.inRow.trans hin.symm
  · have hrow : 1 ≤ o.depth := hin.1 hin'
    rw [ho.2, List.foldl_append, h.cells hrow, List.foldl_cons, List.foldl_nil, hst.2.1, hst.2.2,
      List.reverse_cons, ho.1]
    by_cases hquote : a = quote
    · simp [cellStep, hquote]
    · rw [cellStep_push hquote ((hcell hrow).resolve_left hquote), beq_eq_false_iff_ne.2 hquote,
        Bool.xor_false]

theorem scan_step (columns : List Column) (keepLast : Bool) (h : Outlines q st o)
    (hfits : q.Fits (a :: s)) (hend : ¬(a = ch ')' ∧ o.odd = false ∧ o.depth = 1)) :
    ∃ st', scanRows columns keepLast q st (a :: s) = scanRows columns keepLast (q.step a s) st' s ∧
      st'.rows = st.rows ∧ (o.step a).rows = o.rows ∧ Outlines (q.step a s) st' (o.step a) := by
  have hcommas : ch '(' ≠ ch ',' ∧ ch ')' ≠ ch ',' := by decide
  -- outside literals the parser looks at the byte
  have hscan : ∀ {st'}, a ≠ quote → o.odd = false →
      st.plainByte columns keepLast a = .ok st' →
      scanRows columns keepLast q st (a :: s) = scanRows columns keepLast (q.step a s) st' s := by
    intro st' hquote hodd hbyte
    rw [scanRows, Quote.plain_of_ne hfits hquote, h.odd, hodd, Bool.not_false, if_pos rfl, hbyte]
    rfl
  rcases o.step_cases a with ⟨rfl, hs⟩ | ⟨hquote, hskip, hs⟩ | ⟨rfl, hodd, hdepth, hs⟩ |
    ⟨rfl, hodd, hdepth, -⟩ | ⟨hquote, hodd, ⟨rfl, hdepth, hs⟩ | ⟨rfl, hdepth, hs⟩⟩
  · refine ⟨{ st with cur := quote :: st.cur }, ?_, rfl, by rw [hs], ?_⟩
    · rw [scanRows, Quote.not_plain_quote hfits, if_neg Bool.false_ne_true]
    · rw [hs]
      exact h.push hfits (fun _ => Or.inl rfl) ⟨rfl, rfl, rfl⟩ ⟨by simp, rfl⟩ h.depth Iff.rfl
  · have hxor : o.odd = (o.odd ^^ (a == quote)) := by
      rw [beq_eq_false_iff_ne.2 hquote, Bool.xor_false]
    have hpush : (1 ≤ o.depth → o.odd = true ∨ a ≠ ch ',') →
        Outlines (q.step a s) { st with cur := a :: st.cur } (o.step a) := fun hcell => by
      rw [hs]
      exact h.push hfits (fun hin => Or.inr (hcell hin)) ⟨rfl, rfl, rfl⟩ ⟨hxor, rfl⟩ h.depth Iff.rfl
    by_cases hodd : o.odd = true
    · refine ⟨{ st with cur := a :: st.cur }, ?_, rfl, by rw [hs], hpush fun _ => Or.inl hodd⟩
      rw [scanRows, Quote.plain_of_ne hfits hquote, h.odd, hodd, Bool.not_true,
        if_neg Bool.false_ne_true]
    · obtain ⟨hopen, hclose⟩ := hskip.resolve_left hodd
      have hodd : o.odd = false := Bool.eq_false_iff.2 hodd
      by_cases hsplit : a = ch ',' ∧ 1 ≤ o.depth
      · obtain ⟨rfl, hin⟩ := hsplit
        refine ⟨{ st with vals := st.vals ++ [st.cur.reverse], cur := [] }, hscan hquote hodd ?_,
          rfl, by rw [hs], ?_⟩
        · simp [RowScan.plainByte, hopen, hclose, h.inRow.2 hin, h.depth, hin]
        · rw [hs]
          refine ⟨by rw [Quote.odd_step hfits, h.odd, ← hxor], h.depth, h.inRow, fun hin => ?_⟩
          rw [List.foldl_append, h.cells hin, List.foldl_cons, List.foldl_nil, hodd]
          simp [cellStep, hquote]
      · refine ⟨{ st with cur := a :: st.cur }, hscan hquote hodd ?_, rfl, by rw [hs],
          hpush fun hin => Or.inr fun hcomma => hsplit ⟨hcomma, hin⟩⟩
        have hnot : ¬(a = ch ',' ∧ st.inRow = true ∧ 1 ≤ st.depth) := by
          rintro ⟨hcomma, -, hin⟩
          exact hsplit ⟨hcomma, h.depth ▸ hin⟩
        simp only [RowScan.plainByte, beq_iff_eq, hopen, hclose, if_false, if_neg hnot]
  · refine ⟨{ st with depth := 1, inRow := true, vals := [], cur := [] },
      hscan Outline.paren_ne_quote.1 hodd ?_, rfl, by rw [hs], ?_⟩
    · simp [RowScan.plainByte, h.depth, hdepth]
    · rw [hs]
      refine ⟨?_, rfl, by simp, fun _ => by rw [hodd]; rfl⟩
      rw [Quote.odd_step hfits, h.odd, beq_eq_false_iff_ne.2 Outline.paren_ne_quote.1,
        Bool.xor_false]
  · exact absurd ⟨rfl, hodd, hdepth⟩ hend
  · refine ⟨{ st with depth := st.depth + 1, cur := ch '(' :: st.cur }, hscan hquote hodd ?_, rfl,
      by rw [hs], ?_⟩
    · simp [RowScan.plainByte, h.depth, hdepth]
    · rw [hs]
      exact h.push hfits (fun _ => Or.inr (Or.inr hcommas.1)) ⟨rfl, rfl, rfl⟩
        ⟨by rw [beq_eq_false_iff_ne.2 hquote, Bool.xor_false], rfl⟩ (congrArg (· + 1) h.depth)
        (by simp only; omega)
  · refine ⟨{ st with depth := st.depth - 1, cur := ch ')' :: st.cur }, hscan hquote hodd ?_, rfl,
      by rw [hs], ?_⟩
    · simp [RowScan.plainByte, h.depth, hdepth, Outline.paren_ne_quote.2.2]
    · rw [hs]
      exact h.push hfits (fun _ => Or.inr (Or.inr hcommas.2)) ⟨rfl, rfl, rfl⟩
        ⟨by rw [beq_eq_false_iff_ne.2 hquote, Bool.xor_false], rfl⟩ (congrArg (· - 1) h.depth)
        (by simp only; omega)

theorem scan (h : Outlines q st o) (hfits : q.Fits s) :
    scanRows columns keepLast q st s =
      (s.foldl Outline.step { o with rows := [] }).rows.foldlM (flushText columns keepLast)
        st.rows := by
  induction s generalizing q st o with
  | nil => rfl
  | cons a s ih =>
    by_cases hend : a = ch ')' ∧ o.odd = false ∧ o.depth = 1
    · obtain ⟨rfl, hodd, hdepth⟩ := hend
      have hin : 1 ≤ o.depth := by omega
      have hcells : rowCells o.cur = st.vals ++ [st.cur.reverse] := by
        simp only [rowCells, h.cells hin]
      have hscan : scanRows columns keepLast q st (ch ')' :: s) =
          flushRow columns keepLast st.rows (rowCells o.cur) >>= fun rows =>
            scanRows columns keepLast (q.step (ch ')') s) { depth := 0, rows } s := by
        rw [scanRows, Quote.plain_of_ne hfits Outline.paren_ne_quote.2.1, h.odd, hodd,
          Bool.not_false, if_pos rfl, hcells]
        have hbyte : st.plainByte columns keepLast (ch ')') =
            flushRow columns keepLast st.rows (st.vals ++ [st.cur.reverse]) >>= fun rows =>
              .ok { depth := 0, rows } := by
          simp [RowScan.plainByte, h.depth, hdepth, h.inRow.2 hin, Outline.paren_ne_quote.2.2]
        rw [hbyte]
        cases flushRow columns keepLast st.rows (st.vals ++ [st.cur.reverse]) <;> rfl
      have hnext : ∀ rows, Outlines (q.step (ch ')') s) { depth := 0, rows }
          { o with depth := 0, rows := [], before := [], cur := [] } := by
        intro rows
        refine ⟨?_, rfl, by simp, fun hin => absurd hin (show ¬(1 : Int) ≤ 0 by decide)⟩
        rw [Quote.odd_step hfits, h.odd, beq_eq_false_iff_ne.2 Outline.paren_ne_quote.2.1,
          Bool.xor_false]
      rw [hscan, List.foldl_cons, Outline.step_close (o := { o with rows := [] }) hodd hdepth,
        rows_foldl_step, List.foldlM_append]
      have hone : ([] ++ [(o.before, o.cur)]).foldlM (flushText columns keepLast) st.rows =
          flushRow columns keepLast st.rows (rowCells o.cur) := by simp [flushText]
      rw [hone]
      cases flushRow columns keepLast st.rows (rowCells o.cur) with
      | error e => rfl
      | ok rows =>
        exact ih (o := { o with depth := 0, rows := [], before := [], cur := [] }) (hnext rows)
          Quote.Fits.step
    · obtain ⟨st', hscan, hrows, hsame, hnext⟩ := h.scan_step columns keepLast hfits hend
      obtain ⟨more, hmore, hstep⟩ := o.step_rows a
      obtain rfl : more = [] := List.append_right_eq_self.1 (hmore.symm.trans hsame)
      rw [hscan, ih hnext Quote.Fits.step, hrows, List.foldl_cons, hstep]

end RowScan.Outlines

theorem scanRows_eq (s : Bytes) : scanRows columns keepLast .out {} s =
    (outline s).rows.foldlM (flushText columns keepLast) [] :=
  RowScan.Outlines.scan (o := {})
    ⟨rfl, rfl, by simp, fun h => absurd h (show ¬(1 : Int) ≤ 0 by decide)⟩
    (Quote.Fits.out s)

theorem length_flushRow {rows' : List InsertRow} {vals : List Bytes}
    (h : flushRow columns keepLast rows vals = .ok rows') : rows'.length = rows.length + 1 := by
  unfold flushRow at h
  split at h
  · cases h
  · cases hbuild : buildRow parseVal columns vals with
    | error e =>
      rw [hbuild] at h
      cases h
    | ok item =>
      rw [hbuild] at h
      replace h : (if item.key ≠ [] ∧ !keepLast ∧ rows.any (·.key == item.key) then
        .error (fault "duplicate primary key") else .ok (rows ++ [item])) = Except.ok rows' := h
      split at h
      · cases h
      · cases h
        simp

theorem length_foldlM_flush {α : Type} {f : α → List Bytes} {l : List α} {rows' : List InsertRow}
    (h : l.foldlM (fun rows a => flushRow columns keepLast rows (f a)) rows = .ok rows') :
    rows'.length = rows.length + l.length := by
  induction l generalizing rows with
  | nil =>
    cases h
    rfl
  | cons a l ih =>
    rw [List.foldlM_cons] at h
    cases hflush : flushRow columns keepLast rows (f a) with
    | error e =>
      rw [hflush] at h
      cases h
    | ok next =>
      rw [hflush] at h
      rw [ih h, length_flushRow hflush, List.length_cons]
      omega

theorem length_parseInsertRowsMode (h : parseInsertRowsMode raw columns keepLast = .ok rows) :
    rows.length = (outline (trimSpace raw)).rows.length := by
  unfold parseInsertRowsMode at h
  rw [scanRows_eq] at h
  cases hscan : (outline (trimSpace raw)).rows.foldlM (flushText columns keepLast) [] with
  | error e =>
    rw [hscan] at h
    cases h
  | ok scanned =>
    rw [hscan] at h
    replace h : (if scanned.isEmpty then .error (fault "INSERT requires VALUES") else .ok scanned) =
      Except.ok rows := h
    split at h
    · cases h
    · cases h
      simpa using length_foldlM_flush hscan

/-! ### The two-pass parser -/

theorem splitRowsFrom_eq {q : Quote} {o : Outline} {cur : Option Bytes} (hfits : q.Fits s)
    (hodd : q.odd = o.odd) (hcur : 1 ≤ o.depth → cur = some o.cur.reverse) :
    splitRowsFrom q o.depth cur s =
      (s.foldl Outline.step { o with rows := [] }).rows.map fun p => trimSpace p.2 := by
  induction s generalizing q o cur with
  | nil => rfl
  | cons a s ih =>
    have hstep : (q.step a s).odd = (o.odd ^^ (a == quote)) := by rw [Quote.odd_step hfits, hodd]
    have hnoquote : a ≠ quote → (q.step a s).odd = o.odd := fun hquote => by
      rw [hstep, beq_eq_false_iff_ne.2 hquote, Bool.xor_false]
    -- a byte that does not end a row: the rest follows by induction
    have hgo : ∀ cur' : Option Bytes, (o.step a).rows = o.rows →
        (q.step a s).odd = (o.step a).odd →
        (1 ≤ (o.step a).depth → cur' = some (o.step a).cur.reverse) →
        splitRowsFrom q o.depth cur (a :: s) =
          splitRowsFrom (q.step a s) (o.step a).depth cur' s →
        splitRowsFrom q o.depth cur (a :: s) =
          ((a :: s).foldl Outline.step { o with rows := [] }).rows.map fun p => trimSpace p.2 := by
      intro cur' hrows hodd' hcur' hsplit
      obtain ⟨more, hmore, hs⟩ := o.step_rows a
      obtain rfl : more = [] := List.append_right_eq_self.1 (hmore.symm.trans hrows)
      rw [hsplit, ih Quote.Fits.step hodd' hcur', List.foldl_cons, hs]
    have hmap : 1 ≤ o.depth → cur.map (a :: ·) = some (o.cur ++ [a]).reverse := fun hin => by
      rw [hcur hin, List.reverse_append]
      rfl
    rcases o.step_cases a with ⟨rfl, hs⟩ | ⟨hquote, hskip, hs⟩ | ⟨rfl, hout, hdepth, hs⟩ |
      ⟨rfl, hout, hdepth, hs⟩ | ⟨hquote, hout, ⟨rfl, hdepth, hs⟩ | ⟨rfl, hdepth, hs⟩⟩
    · refine hgo (cur.map (quote :: ·)) (by rw [hs]) (by rw [hs, hstep]; simp)
        (by rw [hs]; exact hmap) ?_
      rw [splitRowsFrom, Quote.not_plain_quote hfits, hs]
      rfl
    · refine hgo (cur.map (a :: ·)) (by rw [hs]) (by rw [hs, hnoquote hquote])
        (by rw [hs]; exact hmap) ?_
      rw [splitRowsFrom, Quote.plain_of_ne hfits hquote, hodd, hs]
      rcases hskip with hlit | ⟨hopen, hclose⟩
      · rw [hlit]
        rfl
      · simp [hopen, hclose]
    · refine hgo (some []) (by rw [hs]) (by rw [hs, hnoquote Outline.paren_ne_quote.1])
        (by rw [hs]; exact fun _ => rfl) ?_
      rw [splitRowsFrom, Quote.plain_of_ne hfits Outline.paren_ne_quote.1, hodd, hout, hs, hdepth]
      rfl
    · have hin : 1 ≤ o.depth := by omega
      rw [List.foldl_cons, Outline.step_close (o := { o with rows := [] }) hout hdepth,
        rows_foldl_step, List.map_append, splitRowsFrom,
        Quote.plain_of_ne hfits Outline.paren_ne_quote.2.1, hodd, hout, hcur hin, hdepth]
      have hrest : splitRowsFrom (q.step (ch ')') s) 0 (some (ch ')' :: o.cur.reverse)) s =
          (s.foldl Outline.step { odd := o.odd }).rows.map fun p => trimSpace p.2 :=
        ih (o := { odd := o.odd }) Quote.Fits.step (hnoquote Outline.paren_ne_quote.2.1)
          fun h => absurd h (show ¬(1 : Int) ≤ 0 by decide)
      simpa [Outline.paren_ne_quote.2.2, hout] using hrest
    · refine hgo (cur.map (ch '(' :: ·)) (by rw [hs]) (by rw [hs, hnoquote hquote])
        (by rw [hs]; exact fun h => hmap (by simp only at h; omega)) ?_
      rw [splitRowsFrom, Quote.plain_of_ne hfits hquote, hodd, hout, hs]
      simp [hdepth]
    · refine hgo (cur.map (ch ')' :: ·)) (by rw [hs]) (by rw [hs, hnoquote hquote])
        (by rw [hs]; exact fun h => hmap (by simp only at h; omega)) ?_
      rw [splitRowsFrom, Quote.plain_of_ne hfits hquote, hodd, hout, hs]
      cases cur with
      | none => simp [Outline.paren_ne_quote.2.2]
      | some body => simp [Outline.paren_ne_quote.2.2, hdepth]

theorem splitRows_eq (s : Bytes) : splitRows s = (outline s).rows.map fun p => trimSpace p.2 :=
  splitRowsFrom_eq (o := {}) (Quote.Fits.out s) rfl
    fun h => absurd h (show ¬(1 : Int) ≤ 0 by decide)

theorem length_parseInsertRows (h : parseInsertRows raw columns = .ok rows) :
    rows.length = (outline (trimSpace raw)).rows.length := by
  unfold parseInsertRows at h
  simp only at h
  split at h
  · cases h
  · rw [length_foldlM_flush h, splitRows_eq]
    simp

end Scan

/-! ## Accepted texts -/

def Accepts (raw : Bytes) (columns : List Column) (rows : List InsertRow) : Prop :=
  parseInsertRows raw columns = .ok rows ∨
    ∃ keepLast, parseInsertRowsMode raw columns keepLast = .ok rows

theorem Accepts.length_eq {columns : List Column} (h : Accepts raw columns rows) :
    rows.length = (outline (trimSpace raw)).rows.length := by
  rcases h with h | ⟨keepLast, h⟩
  · exact length_parseInsertRows h
  · exact length_parseInsertRowsMode h

/-- A text that is accepted is a comma-separated list of as many complete rows as are stored exactly
if nothing but blanks, and one comma between two rows, stands outside its complete rows. -/
theorem accepted_isRowList_iff (raw : Bytes) (columns : List Column) (rows : List InsertRow)
    (h : Accepts raw columns rows) :
    IsRowList (trimSpace raw) rows.length ↔ Separated (trimSpace raw) := by
  rw [isRowList_iff, h.length_eq]
  exact and_iff_left rfl

/-- A text of two rows, the second of which is not closed. -/
def openRow : Bytes := str "(1), (2"

def intColumn : List Column := [{ name := str "v", type := .int }]

/-- The row that is not closed is dropped. -/
theorem accepted_isRowList_openRow :
    (parseInsertRowsMode openRow intColumn false).toOption.map List.length = some 1 ∧
    (parseInsertRows openRow intColumn).toOption.map List.length = some 1 ∧
    ∀ n, ¬IsRowList (trimSpace openRow) n := by
  refine ⟨by decide +kernel, by decide +kernel, fun n hrows => ?_⟩
  have hnot : ¬Separated (trimSpace openRow) := by decide +kernel
  exact hnot ((isRowList_iff _ n).1 hrows).1

theorem accepted_isRowList_closedRow : ∃ rows,
    Accepts (str "(1), (2)") intColumn rows ∧ rows.length = 2 ∧
      IsRowList (trimSpace (str "(1), (2)")) rows.length := by
  have hrun : (parseInsertRows (str "(1), (2)") intColumn).toOption.map List.length = some 2 := by
    decide +kernel
  cases hparse : parseInsertRows (str "(1), (2)") intColumn with
  | error e =>
    rw [hparse] at hrun
    cases hrun
  | ok rows =>
    rw [hparse] at hrun
    have haccepts : Accepts (str "(1), (2)") intColumn rows := Or.inl hparse
    exact ⟨rows, haccepts, Option.some.inj hrun,
      (accepted_isRowList_iff _ _ rows haccepts).2 (by decide +kernel)⟩

end SuperDB.Engine
