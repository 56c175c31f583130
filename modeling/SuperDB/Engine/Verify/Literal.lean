import SuperDB.Engine.Database
import SuperDB.Engine.Verify.Bind
import SuperDB.Go.Trim

/-!
# Bound literals in statements

What the engine reads where a template has a placeholder: in `VALUES (?)` and in `WHERE column = ?`.
-/

namespace SuperDB.Engine

open Go

variable {s l : Bytes} {c : UInt8} {n : Int64}

/-! ## Quoted literals -/

theorem undouble_flatMap (s : Bytes) :
    undouble (s.flatMap fun a => if a == quote then [quote, quote] else [a]) = s := by
  induction s with
  | nil => rfl
  | cons a s ih =>
    rw [List.flatMap_cons]
    by_cases ha : a = quote
    · rw [if_pos (beq_iff_eq.2 ha), ha]
      simp only [List.cons_append, List.nil_append, undouble, beq_self_eq_true, Bool.and_self,
        if_true]
      rw [ih]
    · rw [if_neg (by simpa using ha), List.singleton_append]
      generalize (s.flatMap fun a => if a == quote then [quote, quote] else [a]) = l at ih
      cases l with
      | nil =>
        rw [← ih]
        rfl
      | cons b l =>
        rw [undouble, if_neg (by simp [ha]), ih]

theorem quoteLiteral_eq (s : Bytes) :
    ∃ t, quoteLiteral s = quote :: t ++ [quote] ∧ undouble t = s :=
  ⟨_, rfl, undouble_flatMap s⟩

theorem trimSpace_quoted (t : Bytes) : trimSpace (quote :: t ++ [quote]) = quote :: t ++
    [quote] := by
  have hwidth : spaceWidth (quote :: t ++ [quote]) = 0 := by
    match t with
    | [] => rfl
    | [a] => rfl
    | a :: b :: t => rfl
  rw [trimSpace, trimLeft_of_spaceWidth hwidth, trimRight_of_last (by decide) (by decide)]

theorem unquoteLiteral_quoteLiteral (s : Bytes) : unquoteLiteral (quoteLiteral s) = s := by
  obtain ⟨t, ht, hs⟩ := quoteLiteral_eq s
  have hslice : slice (quote :: t ++ [quote]) 1 ((quote :: t ++ [quote]).length - 1) = t := by
    simp [slice]
  have hlast : (quote :: t ++ [quote]).getLast? = some quote := List.getLast?_concat
  have hquoted :
      (2 ≤ (quote :: t ++ [quote]).length && (quote :: t ++ [quote]).head? == some quote &&
      (quote :: t ++ [quote]).getLast? == some quote) = true := by
    rw [hlast]
    simp
  unfold unquoteLiteral
  rw [ht, trimSpace_quoted]
  simp only [hslice, hs]
  rw [if_pos hquoted]

theorem str_null : str "NULL" = [78, 85, 76, 76] := str_ofList _

theorem parseVal_quoteLiteral (s : Bytes) : parseVal (quoteLiteral s) .text = .ok (.text s) := by
  obtain ⟨t, ht, -⟩ := quoteLiteral_eq s
  have htrim : trimSpace (quoteLiteral s) = quoteLiteral s := by rw [ht, trimSpace_quoted]
  have hnull : equalFold (quoteLiteral s) (str "NULL") = false := by
    have hhead : (upperByte quote == 78) = false := by decide
    rw [ht, str_null, equalFold, List.cons_append, List.map_cons]
    simp only [List.cons_beq_cons, hhead, Bool.false_and]
  unfold parseVal
  simp only [htrim, hnull, Bool.false_eq_true, if_false, unquoteLiteral_quoteLiteral]

/-! ## Literals in conditions -/

/-- A literal as binding writes it: quoted, or a number. -/
inductive BoundLiteral : Bytes → Prop where
  | quoted (s : Bytes) : BoundLiteral (quoteLiteral s)
  | number {l : Bytes} : l ≠ [] → (∀ a ∈ l, isNumberByte a = true) → BoundLiteral l

/-- The bytes of a number are in ASCII, and neither blanks, quotes, signs of a row nor the `U` of
NULL. -/
theorem isNumberByte_spec : ∀ a : UInt8, isNumberByte a = true →
    (a < 0x80 ∧ space1 a = false) ∧ a ≠ 32 ∧ a ≠ quote ∧ (a ≠ ch '(' ∧ a ≠ ch ')' ∧ a ≠ ch ',') ∧
      upperByte a ≠ 85 := by
  decide +kernel

theorem isNumberByte_ascii {a : UInt8} (h : isNumberByte a = true) : a < 0x80 ∧ space1 a = false :=
  (isNumberByte_spec a h).1

section BoundLiteral

variable {l : Bytes}

theorem BoundLiteral.ends (h : BoundLiteral l) :
    ∃ u a, l = u ++ [a] ∧ a < 0x80 ∧ space1 a = false := by
  cases h with
  | quoted s => exact ⟨_, quote, rfl, by decide, by decide⟩
  | number hne hbytes =>
    obtain ⟨u, a, rfl⟩ := (List.eq_nil_or_concat l).resolve_left hne
    rw [List.concat_eq_append] at hbytes ⊢
    exact ⟨u, a, rfl, isNumberByte_ascii (hbytes a (by simp))⟩

theorem BoundLiteral.trimSpace_eq (h : BoundLiteral l) : trimSpace l = l := by
  cases h with
  | quoted s => exact trimSpace_quoted _
  | number hne hbytes =>
    obtain ⟨u, a, rfl, ha, hspace⟩ := (BoundLiteral.number hne hbytes).ends
    have hwidth : spaceWidth (u ++ [a]) = 0 := by
      cases hl : u ++ [a] with
      | nil => rfl
      | cons b v =>
        obtain ⟨hb, hbspace⟩ := isNumberByte_ascii (hbytes b (by rw [hl]; exact List.mem_cons_self))
        exact spaceWidth_of_head hb hbspace v
    rw [trimSpace, trimLeft_of_spaceWidth hwidth, trimRight_of_last ha hspace]

theorem BoundLiteral.oddQuotes_blank (h : BoundLiteral l) {t u : Bytes} (hl : l = t ++ 32 :: u) :
    oddQuotes t = true := by
  cases h with
  | quoted s => exact oddQuotes_formatParam_start (p := .text s) rfl (by decide) hl
  | number _ hbytes =>
    exact absurd rfl (isNumberByte_spec 32 (hbytes 32 (by rw [hl]; simp))).2.1

end BoundLiteral

theorem foldEqualAt_mem {needle : Bytes} (h : foldEqualAt s needle = true) (hc : c ∈ needle) :
    ∃ b ∈ s, upperByte b = c := by
  induction needle generalizing s with
  | nil => cases hc
  | cons d needle ih =>
    cases s with
    | nil => cases h
    | cons b s =>
      obtain ⟨hb, h⟩ := Bool.and_eq_true_iff.1 h
      rcases List.mem_cons.1 hc with rfl | hc
      · exact ⟨b, List.mem_cons_self, beq_iff_eq.1 hb⟩
      · obtain ⟨b', hb', hup⟩ := ih h hc
        exact ⟨b', List.mem_cons_of_mem _ hb', hup⟩

theorem eq_of_upperByte {b : UInt8} (hc : c < 65) (h : upperByte b = c) : b = c := by
  unfold upperByte at h
  split at h
  · next hlower =>
    rw [Bool.and_eq_true, decide_eq_true_eq, decide_eq_true_eq] at hlower
    rw [← UInt8.toNat_inj, UInt8.toNat_sub_of_le _ _ (UInt8.le_trans (by decide) hlower.1)] at h
    have hlow := UInt8.le_iff_toNat_le.1 hlower.1
    have hhigh := UInt8.lt_iff_toNat_lt.1 hc
    have h97 : (97 : UInt8).toNat = 97 := rfl
    have h65 : (65 : UInt8).toNat = 65 := rfl
    have h32 : (32 : UInt8).toNat = 32 := rfl
    omega
  · exact h

theorem BoundLiteral.not_word {word : Bytes} (h : BoundLiteral l) {w : Bytes}
    (hword : word = c :: w) (hc : c ≠ quote) : foldEqualAt l (word ++ [32]) = false := by
  rw [Bool.eq_false_iff]
  intro hmatch
  cases h with
  | quoted s =>
    rw [hword, quoteLiteral, List.cons_append, List.cons_append, foldEqualAt] at hmatch
    have hhead := beq_iff_eq.1 (Bool.and_eq_true_iff.1 hmatch).1
    exact hc (hhead.symm.trans (by decide))
  | number _ hbytes =>
    obtain ⟨b, hb, hup⟩ := foldEqualAt_mem hmatch (c := 32) (by simp)
    obtain rfl := eq_of_upperByte (by decide) hup
    exact (isNumberByte_spec 32 (hbytes 32 hb)).2.1 rfl

/-- A text in which every blank outside quotes is followed by something else than the operator has
one operand. -/
theorem splitLogicalFrom_whole {word : Bytes} {q : Quote} {prev : Option UInt8} {pending : Nat}
    {cur : Bytes} (hq : q.Fits s) (h : ∀ t u, s = t ++ 32 :: u → (q.odd ^^ oddQuotes t) = false →
      foldEqualAt u (word ++ [32]) = false) :
    splitLogicalFrom word 0 q prev pending cur s = [trimSpace (cur.reverse ++ s)] := by
  induction s generalizing q prev pending cur with
  | nil => rw [splitLogicalFrom, List.append_nil]
  | cons a s ih =>
    have hhere : (q.plain a && foldEqualAt (a :: s) (ch ' ' :: word ++ [ch ' '])) = false := by
      rw [Bool.and_eq_false_iff]
      by_cases ha : a = 32
      · by_cases hodd : q.odd = true
        · refine Or.inl ?_
          have hplain := Quote.plain_eq hq
          rw [hodd, Bool.or_true] at hplain
          simpa using hplain
        · refine Or.inr ?_
          have hrest := h [] s (by rw [ha]; rfl) (by simpa [oddQuotes] using hodd)
          rw [ha, List.cons_append, foldEqualAt]
          exact Bool.and_eq_false_iff.2 (Or.inr hrest)
      · refine Or.inr ?_
        rw [List.cons_append, foldEqualAt]
        refine Bool.and_eq_false_iff.2 (Or.inl (beq_eq_false_iff_ne.2 fun hup => ha ?_))
        exact eq_of_upperByte (by decide) hup
    have hrest : ∀ t u, s = t ++ 32 :: u → ((q.step a s).odd ^^ oddQuotes t) = false →
        foldEqualAt u (word ++ [32]) = false := by
      intro t u hs hodd
      refine h (a :: t) u (by rw [hs]; rfl) ?_
      rw [Quote.odd_step hq, Bool.xor_assoc] at hodd
      exact hodd
    rw [splitLogicalFrom]
    simp only [hhere, Bool.false_eq_true, if_false]
    rw [ih Quote.Fits.step hrest, List.reverse_cons, List.append_assoc, List.singleton_append]

/-! ## Equalities -/

/-- A column name that WHERE can name: it is as the engine stores it, and has no blank and no byte
at which a term is split. -/
def PlainName (name : Bytes) : Prop :=
  name ≠ [] ∧ trimSpace name = name ∧ toLower name = name ∧
    ∀ a ∈ name, a ≠ 32 ∧ a ≠ quote ∧ a ≠ ch '!' ∧ a ≠ ch '<' ∧ a ≠ ch '>' ∧ a ≠ ch '='

instance (name : Bytes) : Decidable (PlainName name) := inferInstanceAs (Decidable (_ ∧ _ ∧ _ ∧ _))

def equalityText (name l : Bytes) : Bytes := name ++ str " = " ++ l

theorem equals_eq : str " = " = [32, 61, 32] := str_ofList _

section Equality

variable {name l : Bytes}

theorem BoundLiteral.ne_nil (h : BoundLiteral l) : l ≠ [] := by
  obtain ⟨u, a, rfl, -, -⟩ := h.ends
  simp

theorem PlainName.oddQuotes (h : PlainName name) : oddQuotes name = false :=
  oddQuotes_eq_false fun hq => (h.2.2.2 quote hq).2.1 rfl

theorem trimSpace_equalityText (hname : PlainName name) (hl : BoundLiteral l) :
    trimSpace (equalityText name l) = equalityText name l := by
  obtain ⟨u, a, rfl, ha, hspace⟩ := hl.ends
  have htext : equalityText name (u ++ [a]) = name ++ 32 :: (61 :: 32 :: u) ++ [a] := by
    rw [equalityText, equals_eq]
    simp
  rw [htext]
  exact trimSpace_of_ends hname.1 hname.2.1 (by decide) ha hspace

theorem splitLogical_equalityText (hname : PlainName name) (hl : BoundLiteral l) {word : Bytes}
    {w : Bytes} (hword : word = c :: w) (hquote : c ≠ quote) (heq : c ≠ 61) :
    splitLogical (equalityText name l) word = [equalityText name l] := by
  unfold splitLogical
  rw [splitLogicalFrom_whole (Quote.Fits.out _), List.reverse_nil, List.nil_append,
    trimSpace_equalityText hname hl]
  intro t u hsplit hodd
  have hsign : foldEqualAt (61 :: 32 :: l) (word ++ [32]) = false := by
    rw [hword, List.cons_append, foldEqualAt]
    refine Bool.and_eq_false_iff.2 (Or.inl (beq_eq_false_iff_ne.2 fun h => heq ?_))
    exact h.symm.trans (by decide)
  rw [equalityText, equals_eq] at hsplit
  rcases append_cases hsplit with ⟨v, hv⟩ | ⟨v, rfl, hv⟩
  · rcases append_cases hv with ⟨v', hname'⟩ | ⟨v', rfl, hv'⟩
    · exact absurd rfl (hname.2.2.2 32 (by rw [hname']; simp)).1
    · rw [List.append_assoc, List.append_assoc, List.append_cancel_left_eq] at hsplit
      match v', hsplit with
      | [], hsplit =>
        simp only [List.cons_append, List.nil_append, List.cons.injEq, true_and] at hsplit
        rw [← hsplit]
        exact hsign
      | [b], hsplit => simp at hsplit
      | [b, b'], hsplit =>
        simp only [List.cons_append, List.nil_append, List.cons.injEq, true_and] at hsplit
        rw [← hsplit.2.2]
        exact hl.not_word hword hquote
      | b :: b' :: b'' :: v', _ => simp at hv'
  · -- a blank in the literal is inside quotes
    have hv' := hl.oddQuotes_blank hv
    rw [oddQuotes_append, oddQuotes_append, hname.oddQuotes, hv'] at hodd
    exact absurd hodd (by decide)

theorem splitConditionTermFrom_name (h : ∀ a ∈ name, a ≠ quote ∧ a ≠ ch '!' ∧ a ≠ ch '<' ∧
    a ≠ ch '>' ∧ a ≠ ch '=') (cur s : Bytes) :
    splitConditionTermFrom .out cur (name ++ s) =
      splitConditionTermFrom .out (name.reverse ++ cur) s := by
  induction name generalizing cur with
  | nil => rfl
  | cons a name ih =>
    obtain ⟨hquote, h₁, h₂, h₃, h₄⟩ := h a List.mem_cons_self
    have hplain : Quote.out.plain a = true := by simp [Quote.plain, hquote]
    have hstep : Quote.out.step a (name ++ s) = .out := by simp [Quote.step, hquote]
    rw [List.cons_append, splitConditionTermFrom]
    simp only [hplain, if_true, beq_iff_eq, h₁, h₂, h₃, h₄, if_false, hstep]
    rw [ih fun b hb => h b (List.mem_cons_of_mem _ hb), List.reverse_cons, List.append_assoc,
      List.singleton_append]

theorem splitTerm_equalityText (hname : PlainName name) :
    splitTerm (equalityText name l) = some ⟨name ++ [32], .eq, 32 :: l⟩ := by
  have hterm : splitConditionTerm (equalityText name l) = some ⟨name ++ [32], .eq, 32 :: l⟩ := by
    rw [equalityText, equals_eq, splitConditionTerm, List.append_assoc,
      splitConditionTermFrom_name fun a ha => (hname.2.2.2 a ha).2, List.append_nil]
    have hsigns : (32 == ch '!') = false ∧ (32 == ch '<') = false ∧ (32 == ch '>') = false ∧
        (32 == ch '=') = false ∧ (61 == ch '!') = false ∧ (61 == ch '<') = false ∧
        (61 == ch '>') = false ∧ (61 == ch '=') = true := by decide
    obtain ⟨h₁, h₂, h₃, h₄, h₅, h₆, h₇, h₈⟩ := hsigns
    have hplain : Quote.out.plain 32 = true ∧ Quote.out.plain 61 = true := by decide
    have hstep : Quote.out.step 32 (61 :: 32 :: l) = .out := by simp [Quote.step]; decide
    simp only [List.cons_append, List.nil_append, splitConditionTermFrom, hplain, hstep, h₁, h₂, h₃,
      h₄, h₅, h₆, h₇, h₈, if_true, Bool.false_eq_true, if_false, List.reverse_cons,
      List.reverse_reverse]
  rw [splitTerm, hterm]
  rfl

/-- **The compiled condition of an equality.** -/
theorem compileCondition_equalityText (hname : PlainName name) (hl : BoundLiteral l)
    {columns : List Column} {typ : ColType} (htype : columnType columns name = some typ) :
    compileCondition (equalityText name l) columns =
      some [[⟨name, .one (literalValue l typ), .eq⟩]] := by
  have hne : equalityText name l ≠ [] := by
    rw [equalityText, equals_eq]
    simp
  have hor : str "OR" = [79, 82] := str_ofList _
  have hand : str "AND" = [65, 78, 68] := str_ofList _
  have hterm : compileTerm columns (equalityText name l) =
      some ⟨name, .one (literalValue l typ), .eq⟩ := by
    unfold compileTerm
    rw [splitTerm_equalityText hname]
    simp only [Option.bind_eq_bind, Option.bind_some, trimSpace_blank_right hname.2.1,
      trimSpace_blank_left, hl.trimSpace_eq, hname.2.2.1, htype]
    rw [if_neg (by simp [hname.1, hl.ne_nil])]
    rfl
  unfold compileCondition
  rw [trimSpace_equalityText hname hl, if_neg hne,
    splitLogical_equalityText hname hl hor (by decide) (by decide)]
  simp only [List.mapM_cons, List.mapM_nil, Option.bind_eq_bind]
  rw [splitLogical_equalityText hname hl hand (by decide) (by decide)]
  simp [hterm]

end Equality

/-! ## Literals in VALUES -/

/-- The state after a text, with `s` still to come. -/
def Quote.after : Quote → Bytes → Bytes → Quote
  | q, [], _ => q
  | q, a :: l, s => (q.step a (l ++ s)).after l s

theorem Quote.after_fits {q : Quote} (h : q.Fits (l ++ s)) : (q.after l s).Fits s := by
  induction l generalizing q with
  | nil => exact h
  | cons a l ih => exact ih Quote.Fits.step

theorem Quote.odd_after {q : Quote} (h : q.Fits (l ++ s)) :
    (q.after l s).odd = (q.odd ^^ oddQuotes l) := by
  induction l generalizing q with
  | nil => rw [Quote.after, oddQuotes, Bool.xor_false]
  | cons a l ih =>
    have hcons : q.Fits (a :: (l ++ s)) := h
    rw [Quote.after, ih Quote.Fits.step, Quote.odd_step hcons, oddQuotes, Bool.xor_assoc]

theorem Quote.after_eq_out (hl : oddQuotes l = false) (hs : s.head? ≠ some quote) :
    Quote.out.after l s = .out := by
  have hodd := Quote.odd_after (s := s) (Quote.Fits.out (l ++ s))
  have hfits := Quote.after_fits (l := l) (s := s) (Quote.Fits.out _)
  rw [hl] at hodd
  cases hq : Quote.out.after l s with
  | out => rfl
  | lit =>
    rw [hq] at hodd
    cases hodd
  | esc => exact absurd (hfits hq) hs

theorem scanRows_value {columns : List Column} {keepLast : Bool} {q : Quote} {st : RowScan}
    (hq : q.Fits (l ++ s))
    (h : ∀ t a u, l = t ++ a :: u → a ≠ quote → (q.odd ^^ oddQuotes t) = false →
      a ≠ ch '(' ∧ a ≠ ch ')' ∧ a ≠ ch ',') :
    scanRows columns keepLast q st (l ++ s) =
      scanRows columns keepLast (q.after l s) { st with cur := l.reverse ++ st.cur } s := by
  induction l generalizing q st with
  | nil => rfl
  | cons a l ih =>
    have hcons : q.Fits (a :: (l ++ s)) := hq
    have hrest : ∀ t b u, l = t ++ b :: u → b ≠ quote →
        ((q.step a (l ++ s)).odd ^^ oddQuotes t) = false → b ≠ ch '(' ∧ b ≠ ch ')' ∧
        b ≠ ch ',' := by
      intro t b u hl hb hodd
      rw [Quote.odd_step hcons, Bool.xor_assoc] at hodd
      exact h (a :: t) b u (by rw [hl]; rfl) hb hodd
    have hstep : scanRows columns keepLast q st (a :: (l ++ s)) =
        scanRows columns keepLast (q.step a (l ++ s)) { st with cur := a :: st.cur } (l ++ s) := by
      rw [scanRows]
      split
      · next hplain =>
        have hside := Quote.plain_eq hcons
        rw [hplain] at hside
        obtain ⟨ha, hodd⟩ := Bool.or_eq_false_iff.1 hside.symm
        obtain ⟨h₁, h₂, h₃⟩ := h [] a l rfl (beq_eq_false_iff_ne.1 ha) (by rw [hodd]; rfl)
        have hplainByte : st.plainByte columns keepLast a = .ok { st with cur := a :: st.cur } := by
          unfold RowScan.plainByte
          simp only [beq_iff_eq, h₁, h₂, h₃, if_false, false_and]
        rw [hplainByte]
        rfl
      · rfl
    rw [List.cons_append, hstep, ih Quote.Fits.step hrest, Quote.after, List.reverse_cons,
      List.append_assoc, List.singleton_append]

theorem BoundLiteral.oddQuotes_eq (h : BoundLiteral l) : oddQuotes l = false := by
  cases h with
  | quoted s => exact oddQuotes_quoteLiteral s
  | number _ hbytes =>
    exact oddQuotes_eq_false fun hq => (isNumberByte_spec quote (hbytes quote hq)).2.2.1 rfl

theorem BoundLiteral.ordinary (h : BoundLiteral l) {t u : Bytes} {a : UInt8}
    (hl : l = t ++ a :: u) (ha : a ≠ quote) (hodd : oddQuotes t = false) :
    a ≠ ch '(' ∧ a ≠ ch ')' ∧ a ≠ ch ',' := by
  cases h with
  | quoted s =>
    rw [oddQuotes_formatParam_start (p := .text s) rfl ha hl] at hodd
    cases hodd
  | number _ hbytes =>
    exact (isNumberByte_spec a (hbytes a (by rw [hl]; simp))).2.2.2.1

theorem str_open : str "(" = [ch '('] := str_ofList _

theorem str_close : str ")" = [ch ')'] := str_ofList _

/-- **The row of VALUES with one literal.** -/
theorem parseInsertRowsMode_literal (hl : BoundLiteral l) (c : Column) (keepLast : Bool) :
    parseInsertRowsMode (str "(" ++ l ++ str ")") [c] keepLast =
      (buildRow parseVal [c] [l]).map fun item => [item] := by
  have hopen : str "(" = [40] := str_open
  have hclose : str ")" = [41] := str_close
  have hwidth : spaceWidth (40 :: l ++ [41]) = 0 := by
    rw [List.cons_append]
    exact spaceWidth_of_head (by decide) (by decide) _
  have htrim : trimSpace (40 :: l ++ [41]) = 40 :: l ++ [41] := by
    rw [trimSpace, trimLeft_of_spaceWidth hwidth, trimRight_of_last (by decide) (by decide)]
  have hparens : (40 == ch '(') = true ∧ (41 == ch '(') = false ∧ (41 == ch ')') = true := by decide
  have hstep : Quote.out.step 40 (l ++ [41]) = .out := by
    simp [Quote.step]
    decide
  have hafter : Quote.out.after l [41] = .out :=
    Quote.after_eq_out hl.oddQuotes_eq (by decide)
  have hscan : scanRows [c] keepLast .out {} (40 :: l ++ [41]) =
      flushRow [c] keepLast [] [l] := by
    have hplain : Quote.out.plain 40 = true ∧ Quote.out.plain 41 = true := by decide
    rw [List.cons_append, scanRows, if_pos hplain.1]
    have hfirst : RowScan.plainByte [c] keepLast 40 {} =
        .ok { depth := 1, inRow := true, vals := [], cur := [] } := by
      unfold RowScan.plainByte
      rw [if_pos hparens.1, if_pos rfl]
    rw [hfirst]
    show scanRows [c] keepLast (Quote.out.step 40 (l ++ [41])) _ (l ++ [41]) = _
    rw [hstep, scanRows_value (Quote.Fits.out _), hafter]
    · rw [scanRows, if_pos hplain.2]
      unfold RowScan.plainByte
      simp only [hparens, Bool.false_eq_true, if_false, if_true, and_self, List.nil_append,
        List.append_nil, List.reverse_reverse]
      cases flushRow [c] keepLast [] [l] with
      | error f => rfl
      | ok rows => rfl
    · intro t a u hsplit ha hodd
      exact hl.ordinary hsplit ha ((Bool.false_xor _).symm.trans hodd)
  unfold parseInsertRowsMode
  rw [hopen, hclose, List.singleton_append, htrim, hscan]
  unfold flushRow
  simp only [List.length_singleton, ne_eq, not_true_eq_false, if_false, List.any_nil,
    Bool.false_eq_true, and_false, List.nil_append]
  cases buildRow parseVal [c] [l] with
  | error f => rfl
  | ok item => rfl

/-! ## Integers -/

theorem formatFloat_ofInt_ne_nil {n : Int} (hn : n.natAbs ≤ 2 ^ 53) :
    formatFloat (Float64.ofInt n) ≠ [] := by
  by_cases hsmall : n.natAbs < 10 ^ 6
  · rw [formatFloat_ofInt_small hsmall, formatInt]
    split
    · exact List.cons_ne_nil _ _
    · exact decimal_ne_nil _
  · obtain ⟨a, b, hform⟩ := formatFloat_ofInt_large (Nat.le_of_not_lt hsmall) hn
    rw [hform]
    simp

section Integers

variable {l : Bytes}

theorem unquoteLiteral_number (hne : l ≠ []) (h : ∀ a ∈ l, isNumberByte a = true) :
    unquoteLiteral l = l := by
  have hl := BoundLiteral.number hne h
  have hquote : ∀ a ∈ l, (a == quote) = false := fun a ha =>
    beq_false_of_ne (isNumberByte_spec a (h a ha)).2.2.1
  have hkeep : ∀ m : Bytes, (∀ a ∈ m, (a == quote) = false) → m.dropWhile (· == quote) = m := by
    intro m hm
    cases m with
    | nil => rfl
    | cons a m => rw [List.dropWhile_cons, hm a List.mem_cons_self]; rfl
  have htrim : trimQuotes l = l := by
    unfold trimQuotes
    rw [hkeep l hquote, hkeep l.reverse (fun a ha => hquote a (List.mem_reverse.1 ha)),
      List.reverse_reverse]
  have hhead : (l.head? == some quote) = false := by
    cases l with
    | nil => rfl
    | cons a m => simpa using hquote a List.mem_cons_self
  unfold unquoteLiteral
  simp only [hl.trimSpace_eq, hhead, Bool.and_false, Bool.false_and, Bool.false_eq_true, if_false,
    htrim]

theorem not_null_of_number (h : ∀ a ∈ l, isNumberByte a = true) :
    equalFold l (str "NULL") = false := by
  rw [Bool.eq_false_iff]
  intro hfold
  have hword : l.map upperByte = str "NULL" := beq_iff_eq.1 hfold
  -- `U` is the upper case of no byte of a number
  have hmem : (85 : UInt8) ∈ l.map upperByte := by simp [hword, str_null]
  obtain ⟨a, ha, hup⟩ := List.mem_map.1 hmem
  exact (isNumberByte_spec a (h a ha)).2.2.2.2 hup

theorem parseVal_number (hne : l ≠ []) (h : ∀ a ∈ l, isNumberByte a = true)
    (hint : parseInt l = .ok n) : parseVal l .int = .ok (.int n) := by
  unfold parseVal
  simp only [(BoundLiteral.number hne h).trimSpace_eq, not_null_of_number h, Bool.false_eq_true,
    if_false, hint]

theorem parseVal_number_error (hne : l ≠ []) (h : ∀ a ∈ l, isNumberByte a = true) {e : NumErr}
    (hint : parseInt l = .error e) : parseVal l .int = .error (.error (.num .parseInt l e)) := by
  unfold parseVal
  simp only [(BoundLiteral.number hne h).trimSpace_eq, not_null_of_number h, Bool.false_eq_true,
    if_false, hint]

theorem literalValue_number (hne : l ≠ []) (h : ∀ a ∈ l, isNumberByte a = true)
    (hint : parseInt l = .ok n) : literalValue l .int = .int n := by
  unfold literalValue
  simp only [(BoundLiteral.number hne h).trimSpace_eq, unquoteLiteral_number hne h,
    parseVal_number hne h hint]

end Integers

theorem formatInt_ne_nil (n : Int) : formatInt n ≠ [] := by
  unfold formatInt
  split
  · exact List.cons_ne_nil _ _
  · exact decimal_ne_nil _

theorem buildRow_int {c : Column} (hc : c.type = .int) (hparse : parseVal l .int = .ok (.int n)) :
    ∃ key, buildRow parseVal [c] [l] = .ok ⟨key, (∅ : Row).insert c.name (.int n)⟩ := by
  refine ⟨if c.primary then valueKey (.int n) else [], ?_⟩
  have hfill : fillRow parseVal ([c].zip [l]) ∅ [] =
      .ok ((∅ : Row).insert c.name (.int n), if c.primary then valueKey (.int n) else []) := by
    simp only [List.zip_cons_cons, List.zip_nil_right, fillRow, hc, hparse]
    rfl
  have hkey : ¬((if c.primary then valueKey (.int n) else []) = [] ∧
      hasPrimaryColumn [c] = true) := by
    rintro ⟨hnil, hprimary⟩
    simp only [hasPrimaryColumn, List.any_cons, List.any_nil, Bool.or_false] at hprimary
    rw [if_pos hprimary] at hnil
    exact formatInt_ne_nil _ hnil
  unfold buildRow
  rw [hfill]
  exact if_neg hkey

theorem matchesMap_equality (name : Bytes) (v : Value) (row : Row) :
    CompiledCondition.matchesMap [[⟨name, .one v, .eq⟩]] row =
      conditionValueEqual (row.get name) v := by
  simp [CompiledCondition.matchesMap, CompiledCondition.holds, conditionValueCompare]

theorem conditionValueEqual_int (v : Value) (n : Int64) :
    conditionValueEqual v (.int n) = true ↔ v = .int n := by
  cases v <;> simp [conditionValueEqual]

/-- **Bound integers.** An integer that JSON carries as a double is read back from its literal, is
stored by `VALUES (?)` and is compared by `WHERE column = ?` if and only if it has at most six
digits. -/
theorem bound_integer_iff {n : Int} (hn : n.natAbs ≤ 2 ^ 53) {c : Column} (hc : c.type = .int)
    (hname : PlainName c.name) (columns : List Column)
    (htype : columnType columns c.name = some .int) :
    let l := formatParam (.float (Float64.ofInt n))
    (parseVal l .int = .ok (.int (Int64.ofInt n)) ∧
      (∀ keepLast, ∃ key, parseInsertRowsMode (str "(" ++ l ++ str ")") [c] keepLast =
        .ok [⟨key, (∅ : Row).insert c.name (.int (Int64.ofInt n))⟩]) ∧
      ∃ compiled, compileCondition (equalityText c.name l) columns = some compiled ∧
        ∀ row : Row, compiled.matchesMap row = true ↔ row.get c.name = .int (Int64.ofInt n)) ↔
      n.natAbs < 10 ^ 6 := by
  intro l
  have hne : l ≠ [] := formatFloat_ofInt_ne_nil hn
  have hbytes : ∀ a ∈ l, isNumberByte a = true := fun a => isNumberByte_formatFloat
  constructor
  · rintro ⟨hparse, -, -⟩
    refine Nat.lt_of_not_le fun hlarge => ?_
    obtain ⟨e, he⟩ := parseInt_formatFloat_large hlarge hn
    rw [parseVal_number_error hne hbytes he] at hparse
    cases hparse
  · intro hsmall
    have hl : l = formatInt n := formatFloat_ofInt_small hsmall
    have hint : parseInt l = .ok (Int64.ofInt n) := by
      rw [hl]
      exact parseInt_formatInt (by omega) (by omega)
    refine ⟨parseVal_number hne hbytes hint, fun keepLast => ?_, _,
      compileCondition_equalityText hname (.number hne hbytes) htype, fun row => ?_⟩
    · obtain ⟨key, hrow⟩ := buildRow_int hc (parseVal_number hne hbytes hint)
      exact ⟨key, by rw [parseInsertRowsMode_literal (.number hne hbytes), hrow]; rfl⟩
    · rw [literalValue_number hne hbytes hint, matchesMap_equality]
      exact conditionValueEqual_int _ _

/-- A million is bound to a literal that is no integer: it can neither be inserted nor found. -/
theorem bound_integer_million :
    bindParams (str "INSERT INTO t VALUES (?)") [.float (Float64.ofInt 1000000)] =
        .ok (str "INSERT INTO t VALUES (1e+06)") ∧
      isOk (Database.execWithOptions {} (Database.runAll {} (script ["CREATE TABLE t (c INT)"]))
        (str "INSERT INTO t VALUES (1e+06)")).1 = false ∧
      bindParams (str "SELECT c FROM t WHERE c = ?") [.float (Float64.ofInt 1000000)] =
        .ok (str "SELECT c FROM t WHERE c = 1e+06") ∧
      (Database.execWithOptions {} (Database.runAll {} (script
        ["CREATE TABLE t (c INT)", "INSERT INTO t VALUES (1000000)"]))
        (str "SELECT c FROM t WHERE c = 1e+06")).1 = .ok { columns := [str "c"], rows := [] } := by
  decide +kernel

theorem bound_integer_small :
    PlainName (str "c") ∧
      parseVal (formatParam (.float (Float64.ofInt 999999))) .int = .ok (.int 999999) :=
  ⟨by decide +kernel,
    ((bound_integer_iff (n := 999999) (c := ⟨str "c", .int, false⟩) (by decide) rfl
      (by decide +kernel) [⟨str "c", .int, false⟩] (by decide +kernel)).2 (by decide)).1⟩

end SuperDB.Engine
