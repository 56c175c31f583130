import SuperDB.Go.Words
import SuperDB.Engine.Verify.Literal
import SuperDB.Engine.Verify.Repeat

/-!
# The form of UPDATE and DELETE

Both statements are read by cutting the text at keywords, and neither reader looks at everything
between the cuts. The forms say what a whole text should be. An accepted text has its form exactly
if one word stands where the table does, the value is a literal where the column takes any text, and
the condition compares with literals.
-/

namespace SuperDB.Engine

open Go

variable {s z sql : Bytes} {columns : List Column} {e : Expected} {op : TableOp} {t : Table}

/-! ## Keywords in a text -/

/-- Bytes that spell the letters of `word` belong to words. -/
def Lettered (word : Bytes) : Prop := ∀ c ∈ word, ∀ b : UInt8, upperByte b = c →
    identifierByte b = true

section Keyword

variable {word : Bytes}

theorem indexKeywordFrom_some {k i : Nat} {q : Quote} {prev : Option UInt8}
    (h : indexKeywordFrom word k q prev s = some i) :
    ∃ p z, s = p ++ z ∧ k + p.length = i ∧ foldEqualAt z word = true ∧
      boundary (z.drop word.length) = true ∧ (p.getLast?.or prev).any identifierByte = false := by
  induction s generalizing k q prev with
  | nil => cases h
  | cons a s ih =>
    rw [indexKeywordFrom] at h
    split at h
    · next hfound =>
      simp only [Bool.and_eq_true, Bool.not_eq_true'] at hfound
      obtain ⟨⟨⟨-, hprev⟩, hfold⟩, hbound⟩ := hfound
      exact ⟨[], a :: s, rfl, Option.some.inj h, hfold, hbound, hprev⟩
    · obtain ⟨p, z, rfl, hi, hfold, hbound, hprev⟩ := ih h
      refine ⟨a :: p, z, rfl, by rw [List.length_cons]; omega, hfold, hbound, ?_⟩
      cases p with
      | nil => exact hprev
      | cons b p => rwa [List.getLast?_cons_cons]

theorem indexKeyword_some {i : Nat} (h : indexKeyword s word = some i) :
    ∃ p z, s = p ++ z ∧ p.length = i ∧ foldEqualAt z word = true ∧
      boundary (z.drop word.length) = true ∧ p.getLast?.any identifierByte = false := by
  obtain ⟨p, z, hs, hi, hfold, hbound, hprev⟩ := indexKeywordFrom_some h
  exact ⟨p, z, hs, by omega, hfold, hbound, by rwa [Option.or_none] at hprev⟩

theorem indexKeywordFrom_shift (k : Nat) (q : Quote) (prev : Option UInt8) (s : Bytes) :
    indexKeywordFrom word k q prev s = (indexKeywordFrom word 0 q prev s).map (k + ·) := by
  have hgen : ∀ (s : Bytes) (j k : Nat) (q : Quote) (prev : Option UInt8),
      indexKeywordFrom word (k + j) q prev s = (indexKeywordFrom word j q prev s).map (k + ·) := by
    intro s
    induction s with
    | nil => intros; rfl
    | cons a s ih =>
      intro j k q prev
      simp only [indexKeywordFrom]
      split
      · rfl
      · exact ih (j + 1) k _ _
  exact hgen s 0 k q prev

theorem keyword_append (hword : Lettered word) (hz : boundary z = true) (p : Bytes) :
    (foldEqualAt (p ++ z) word && boundary ((p ++ z).drop word.length)) =
      (foldEqualAt p word && boundary (p.drop word.length)) := by
  by_cases hlen : word.length ≤ p.length
  · have hfold : foldEqualAt (p ++ z) word = foldEqualAt p word := by
      rw [Bool.eq_iff_iff, foldEqualAt_iff, foldEqualAt_iff, List.map_append]
      constructor
      · intro h
        exact List.prefix_of_prefix_length_le h (List.prefix_append _ _) (by rwa [List.length_map])
      · intro h
        exact h.trans (List.prefix_append _ _)
    have hbound : boundary ((p ++ z).drop word.length) = boundary (p.drop word.length) := by
      rw [List.drop_append_of_le_length hlen]
      cases p.drop word.length with
      | nil => exact hz
      | cons b p => rfl
    rw [hfold, hbound]
  · have hp : foldEqualAt p word = false := by
      rw [← Bool.not_eq_true, foldEqualAt_iff]
      intro h
      have hle := h.length_le
      rw [List.length_map] at hle
      exact hlen hle
    have hpz : foldEqualAt (p ++ z) word = false := by
      rw [← Bool.not_eq_true, foldEqualAt_iff, List.map_append]
      rintro ⟨t, ht⟩
      cases z with
      | nil =>
        have hlength := congrArg List.length ht
        simp only [List.length_append, List.length_map, List.map_nil, List.length_nil] at hlength
        omega
      | cons b z =>
        -- The first byte behind the text would be a letter of the word.
        have hat := congrArg (·[p.length]?) ht
        rw [List.getElem?_append_left (by omega), List.getElem?_append_right (by simp),
          List.length_map, Nat.sub_self, List.map_cons, List.getElem?_cons_zero] at hat
        have hident := hword _ (List.mem_of_getElem? hat) b rfl
        rw [boundary, hident] at hz
        cases hz
    rw [hp, hpz, Bool.false_and, Bool.false_and]

theorem Quote.step_append {q : Quote} {a : UInt8} {p : Bytes} (h : p ≠ [] ∨ a ≠ quote) :
    q.step a (p ++ z) = q.step a p := by
  rcases h with hp | ha
  · obtain ⟨b, p, rfl⟩ := List.exists_cons_of_ne_nil hp
    rfl
  · have hbeq : (a == quote) = false := beq_false_of_ne ha
    cases q <;> simp [Quote.step, hbeq]

theorem indexKeywordFrom_append (hword : Lettered word) {p : Bytes} (hz : boundary z = true)
    (hlast : p.getLast? ≠ some quote) (k : Nat) (q : Quote) (prev : Option UInt8) :
    indexKeywordFrom word k q prev (p ++ z) = (indexKeywordFrom word k q prev p).or
      (indexKeywordFrom word (k + p.length) (q.after p z) (p.getLast?.or prev) z) := by
  induction p generalizing k q prev with
  | nil => rfl
  | cons a p ih =>
    have hstep : q.step a (p ++ z) = q.step a p := by
      refine Quote.step_append ?_
      by_cases hp : p = []
      · refine Or.inr fun ha => hlast ?_
        rw [hp, ha]
        rfl
      · exact Or.inl hp
    have hlast' : p.getLast? ≠ some quote := by
      intro h
      refine hlast ?_
      rw [List.getLast?_cons, h]
      rfl
    have hprev : (p.getLast?.or (some a)) = ((a :: p).getLast?.or prev) := by
      cases p with
      | nil => rfl
      | cons b p =>
        rw [List.getLast?_cons_cons, List.getLast?_cons]
        rfl
    have hfound := keyword_append hword hz (a :: p)
    rw [List.cons_append] at hfound
    rw [List.cons_append, indexKeywordFrom, indexKeywordFrom, Bool.and_assoc, hfound,
      ← Bool.and_assoc, hstep, Quote.after, hstep, List.length_cons]
    split
    · rfl
    · rw [ih hlast', hprev, Nat.add_assoc, Nat.add_comm 1]

theorem indexKeywordFrom_boundary (hword : Lettered word) (hne : word ≠ [])
    (hz : boundary z = true) (k : Nat) (q : Quote) (prev : Option UInt8) :
    indexKeywordFrom word k q prev z = indexKeywordFrom word k q none z := by
  cases z with
  | nil => rfl
  | cons a z =>
    obtain ⟨c, word, rfl⟩ := List.exists_cons_of_ne_nil hne
    have hfold : foldEqualAt (a :: z) (c :: word) = false := by
      rw [foldEqualAt]
      by_contra h
      rw [Bool.not_eq_false, Bool.and_eq_true, beq_iff_eq] at h
      rw [boundary, hword c List.mem_cons_self a h.1] at hz
      cases hz
    simp [indexKeywordFrom, hfold]

theorem str_where : str "WHERE" = [87, 72, 69, 82, 69] := str_ofList _

theorem str_set : str "SET" = [83, 69, 84] := str_ofList _

theorem length_where : (str "WHERE").length = 5 := by rw [str_where]; rfl

theorem length_set : (str "SET").length = 3 := by rw [str_set]; rfl

theorem lettered_of_upper (h : ∀ c ∈ word, 65 ≤ c ∧ c ≤ 90) : Lettered word := by
  intro c hc b hb
  obtain ⟨hle, hge⟩ := h c hc
  unfold upperByte at hb
  unfold identifierByte
  split at hb
  · next hlower => rw [hlower, Bool.true_or, Bool.true_or, Bool.true_or, Bool.true_or]
  · subst hb
    simp [hle, hge]

theorem lettered_where : Lettered (str "WHERE") := by
  refine lettered_of_upper ?_
  simp [str_where]

end Keyword

/-- The text before the first keyword `word` outside quotes, or all of it. -/
def beforeKeyword (s word : Bytes) : Bytes :=
  match indexKeyword s word with
  | some i => s.take i
  | none => s

/-- The text behind the first keyword `word` outside quotes. -/
def behindKeyword (s word : Bytes) : Option Bytes :=
  (indexKeyword s word).map fun i => s.drop (i + word.length)

theorem getLast?_beforeKeyword {word : Bytes} (h : (behindKeyword s word).isSome = true) :
    (beforeKeyword s word).getLast?.any identifierByte = false := by
  rw [behindKeyword, Option.isSome_map] at h
  obtain ⟨i, hi⟩ := Option.isSome_iff_exists.1 h
  obtain ⟨p, z, rfl, rfl, -, -, hlast⟩ := indexKeyword_some hi
  simp only [beforeKeyword, hi, List.take_left]
  exact hlast

/-! ## What the texts should be -/

/-- One quoted string, with the quotes in it doubled, a number, a boolean or NULL. -/
def isLiteral (s : Bytes) : Bool :=
  s == quoteLiteral (unquoteLiteral s) || isOk (parseInt s) || isOk (parseFloat s) ||
    (parseBool s).isSome || equalFold s (str "NULL")

/-- The right side of a term consists of literals: a list of them for IN, two for BETWEEN. -/
def RawTerm.literal (t : RawTerm) : Bool :=
  match t.op with
  | .isIn =>
    match inListBody t.rhs with
    | some body => (splitVals body).all isLiteral
    | none => false
  | .between =>
    match splitBetweenBounds t.rhs with
    | some (lo, hi) => isLiteral lo && isLiteral hi
    | none => false
  | _ => isLiteral (trimSpace t.rhs)

def IsTerm (columns : List Column) (s : Bytes) : Prop :=
  ∃ t, splitTerm (trimSpace s) = some t ∧ hasColumn columns (toLower (trimSpace t.lhs)) = true ∧
    t.literal = true ∧ (t.op ≠ .between →
      indexKeyword (trimSpace s) (str "AND") = none ∧ indexKeyword (trimSpace s) (str "OR") = none)

/-- A word behind white space, and in front of white space if more of the statement follows. -/
def IsOperand (s : Bytes) (more : Bool) : Prop :=
  ∃ g w g', s = g ++ w ++ g' ∧ Blank g ∧ g ≠ [] ∧ IsWord w ∧ Blank g' ∧ (more = true → g' ≠ [])

/-- A column of the table, an equals sign and a literal. -/
def IsAssignment (columns : List Column) (s : Bytes) : Prop :=
  ∃ lhs rhs, trimSpace s = lhs ++ ch '=' :: rhs ∧ ch '=' ∉ lhs ∧
    hasColumn columns (toLower (trimSpace lhs)) = true ∧ isLiteral (trimSpace rhs) = true

/-- `DELETE FROM table [WHERE term]` -/
def IsDelete (columns : List Column) (s : Bytes) : Prop :=
  hasPrefixFold s (str "DELETE FROM") = true ∧
  IsOperand ((beforeKeyword s (str "WHERE")).drop 11) (behindKeyword s (str "WHERE")).isSome ∧
  ∀ c ∈ behindKeyword s (str "WHERE"), IsTerm columns c

/-- `UPDATE table SET column = literal [WHERE term]` -/
def IsUpdate (columns : List Column) (s : Bytes) : Prop :=
  hasPrefixFold s (str "UPDATE") = true ∧
  ∃ tail, behindKeyword s (str "SET") = some tail ∧
    IsOperand ((beforeKeyword s (str "SET")).drop 6) true ∧
    indexKeyword (s.take (s.length - tail.length)) (str "WHERE") = none ∧
    IsAssignment columns (beforeKeyword tail (str "WHERE")) ∧
    ∀ c ∈ behindKeyword tail (str "WHERE"), IsTerm columns c

/-! ## What the readers leave open -/

/-- One field behind white space, and in front of white space if more follows. -/
def oneOperand (s : Bytes) (more : Bool) : Bool :=
  (fields s).length == 1 && spaceWidth s != 0 && (!more || s.getLast?.any space1)

def literalWhere (condition : Option Bytes) : Bool :=
  condition.all fun c => (splitTerm (trimSpace c)).all RawTerm.literal

def literalValueOf (columns : List Column) (s : Bytes) : Bool :=
  (cut (ch '=') (trimSpace s)).all fun p =>
    (columns.find? (·.name == toLower (trimSpace p.1))).all fun c =>
      c.type != .text || isLiteral (trimSpace p.2)

def plainDelete (s : Bytes) : Bool :=
  oneOperand ((beforeKeyword s (str "WHERE")).drop 11) (behindKeyword s (str "WHERE")).isSome &&
    literalWhere (behindKeyword s (str "WHERE"))

def plainUpdate (columns : List Column) (s : Bytes) : Bool :=
  (behindKeyword s (str "SET")).any fun tail =>
    oneOperand ((beforeKeyword s (str "SET")).drop 6) true &&
    (indexKeyword (s.take (s.length - tail.length)) (str "WHERE")).isNone &&
    literalValueOf columns (beforeKeyword tail (str "WHERE")) &&
    literalWhere (behindKeyword tail (str "WHERE"))

theorem ascii_of_not_identifierByte (a : UInt8) (h : identifierByte a = false) : a < 0x80 := by
  rw [identifierByte, Bool.or_eq_false_iff, decide_eq_false_iff_not] at h
  exact UInt8.not_le.1 h.2

theorem isOperand_iff {more : Bool} (hlast : more = true → s.getLast?.any identifierByte = false) :
    IsOperand s more ↔ oneOperand s more = true := by
  unfold oneOperand
  rw [Bool.and_eq_true, Bool.and_eq_true, beq_iff_eq, bne_iff_ne, Bool.or_eq_true,
    Bool.not_eq_true', List.length_eq_one_iff]
  constructor
  · rintro ⟨g, w, g', rfl, hg, hne, hw, hg', hmore⟩
    have hwidth := hg.spaceWidth_ne_zero hne
    refine ⟨⟨⟨w, fields_eq_singleton_iff.2 ⟨hw, g, g', rfl, hg, hg'⟩⟩, ?_⟩, ?_⟩
    · rw [List.append_assoc, spaceWidth_append_of_ne_zero hwidth]
      exact hwidth
    · cases more with
      | false => exact Or.inl rfl
      | true =>
        obtain ⟨z, b, rfl⟩ := (List.eq_nil_or_concat g').resolve_left (hmore rfl)
        have hb := hlast rfl
        rw [List.concat_eq_append, ← List.append_assoc, List.getLast?_concat,
          Option.any_some] at hb ⊢
        exact Or.inr (hg'.space1 (by simp) (ascii_of_not_identifierByte b hb))
  · rintro ⟨⟨⟨w, hfields⟩, hwidth⟩, hend⟩
    obtain ⟨hw, g, g', rfl, hg, hg'⟩ := fields_eq_singleton_iff.1 hfields
    refine ⟨g, w, g', rfl, hg, ?_, hw, hg', ?_⟩
    · rintro rfl
      obtain ⟨a, w, rfl⟩ := List.exists_cons_of_ne_nil hw.1
      exact hwidth (spaceWidth_append_space hw.spaceWidth hg'.spaceWidth_ne_zero)
    · rintro rfl rfl
      rcases hend with hend | hend
      · cases hend
      · obtain ⟨z, b, rfl⟩ := (List.eq_nil_or_concat w).resolve_left hw.1
        rw [List.append_nil, List.concat_eq_append, ← List.append_assoc, List.getLast?_concat,
          Option.any_some, not_space1_of_untilSpace hw.2 (by simp)] at hend
        cases hend

theorem hasColumn_of_mutationExpected {w : MutationWhere}
    (h : mutationExpected columns (some w) = .ok e) : hasColumn columns w.column = true := by
  rw [mutationExpected] at h
  split at h
  · cases h
  · next col hcol =>
    have hname := List.find?_some hcol
    rw [hasColumn, List.any_eq_true]
    exact ⟨col, List.mem_of_find?_eq_some hcol, hname⟩

theorem isTerm_iff {c : Bytes} {w : Option MutationWhere} (hw : parseMutationWhere s = .ok w)
    (he : mutationExpected columns w = .ok e) (hc : behindKeyword s (str "WHERE") = some c) :
    IsTerm columns c ↔ (splitTerm (trimSpace c)).all RawTerm.literal = true := by
  obtain ⟨i, hi, rfl⟩ := Option.map_eq_some_iff.1 hc
  rw [length_where]
  unfold parseMutationWhere at hw
  simp only [hi] at hw
  split at hw
  · cases hw
  · split at hw
    · cases hw
    · next t ht =>
      unfold IsTerm
      rw [ht, Option.all_some]
      constructor
      · rintro ⟨t', ht', -, hliteral, -⟩
        cases ht'
        exact hliteral
      · intro hliteral
        generalize hsingle : (if t.op = .between then (splitBetweenBounds t.rhs).isSome else _) =
          single at hw
        split at hw
        · cases hw
        · next hok =>
          cases hw
          simp only [Bool.or_eq_true, Bool.not_eq_true', not_or, Bool.not_eq_false] at hok
          refine ⟨t, rfl, hasColumn_of_mutationExpected he, hliteral, fun hop => ?_⟩
          rw [if_neg hop, hok.1.1, Bool.and_eq_true, Option.isNone_iff_eq_none,
            Option.isNone_iff_eq_none] at hsingle
          exact hsingle

theorem forall_isTerm_iff {w : Option MutationWhere} (hw : parseMutationWhere s = .ok w)
    (he : mutationExpected columns w = .ok e) :
    (∀ c ∈ behindKeyword s (str "WHERE"), IsTerm columns c) ↔
      literalWhere (behindKeyword s (str "WHERE")) = true := by
  unfold literalWhere
  cases hc : behindKeyword s (str "WHERE") with
  | none => simp
  | some c =>
    rw [Option.all_some, ← isTerm_iff hw he hc]
    simp

theorem isDelete_iff {db : Database} {name : Bytes} (h : db.deleteStmt s = .ok (.table name op))
    (ht : db.tables[name]? = some t) (hstart : hasPrefixFold s (str "DELETE FROM") = true) :
    IsDelete t.columns s ↔ plainDelete s = true := by
  have hparsed : ∃ w e, parseMutationWhere s = .ok w ∧ mutationExpected t.columns w = .ok e := by
    unfold Database.deleteStmt at h
    split at h
    · cases h
    · obtain ⟨t', ht', h⟩ := bind_ok h
      obtain ⟨w, hw, h⟩ := bind_ok h
      obtain ⟨e, he, h⟩ := bind_ok h
      cases h
      rw [Database.table_ok ht'] at ht
      cases ht
      exact ⟨w, e, hw, he⟩
  obtain ⟨w, e, hw, he⟩ := hparsed
  have hlast : (behindKeyword s (str "WHERE")).isSome = true →
      ((beforeKeyword s (str "WHERE")).drop 11).getLast?.any identifierByte = false := by
    intro hsome
    rw [List.getLast?_drop]
    split
    · rfl
    · exact getLast?_beforeKeyword hsome
  unfold IsDelete plainDelete
  rw [Bool.and_eq_true, isOperand_iff hlast, forall_isTerm_iff hw he]
  exact and_iff_right hstart

/-! ## UPDATE -/

theorem Quote.after_ne_esc {l : Bytes} (hne : l ≠ []) (hlast : l.getLast? ≠ some quote)
    (q : Quote) : q.after l s ≠ .esc := by
  induction l generalizing q with
  | nil => exact absurd rfl hne
  | cons a l ih =>
    cases l with
    | nil =>
      have ha : (a == quote) = false := beq_false_of_ne fun h => hlast (by rw [h]; rfl)
      cases q <;> simp [Quote.after, Quote.step, ha]
    | cons b l =>
      rw [List.getLast?_cons_cons] at hlast
      exact ih (List.cons_ne_nil _ _) hlast _

theorem Quote.after_out_of_last {l : Bytes} (hodd : oddQuotes l = false) (hne : l ≠ [])
    (hlast : l.getLast? ≠ some quote) : Quote.out.after l s = .out := by
  have hafter := Quote.odd_after (l := l) (s := s) (Quote.Fits.out _)
  rw [hodd] at hafter
  cases hq : Quote.out.after l s with
  | out => rfl
  | lit =>
    rw [hq] at hafter
    cases hafter
  | esc => exact absurd hq (Quote.after_ne_esc hne hlast _)

theorem set_bytes (h : foldEqualAt z (str "SET") = true) :
    ∃ k tail, z = k ++ tail ∧ k.length = 3 ∧ quote ∉ k := by
  have hquote : ∀ c ∈ str "SET", upperByte quote ≠ c := by
    simp [str_set, upperByte, quote]
  have hlen : 3 ≤ z.length := by
    have hle := (foldEqualAt_iff.1 h).length_le
    rwa [length_set, List.length_map] at hle
  refine ⟨z.take 3, z.drop 3, (List.take_append_drop 3 z).symm, by simp [hlen], fun hmem => ?_⟩
  have htake := List.prefix_iff_eq_take.1 (foldEqualAt_iff.1 h)
  rw [length_set, ← List.map_take] at htake
  exact hquote _ (htake ▸ List.mem_map_of_mem hmem) rfl

theorem behindKeyword_where {tail : Bytes} (hset : behindKeyword s (str "SET") = some tail)
    (hno : indexKeyword (s.take (s.length - tail.length)) (str "WHERE") = none) :
    behindKeyword s (str "WHERE") = behindKeyword tail (str "WHERE") := by
  obtain ⟨i, hi, rfl⟩ := Option.map_eq_some_iff.1 hset
  have hquotes := inLiteral_indexKeyword hi
  obtain ⟨p, z, rfl, rfl, hfold, hbound, -⟩ := indexKeyword_some hi
  obtain ⟨k, tail, rfl, hk, hquote⟩ := set_bytes hfold
  obtain ⟨a, k', rfl⟩ := List.exists_cons_of_ne_nil (List.ne_nil_of_length_eq_add_one hk)
  have hodd : oddQuotes (p ++ a :: k') = false := by
    rw [List.cons_append, inLiteral_eq, Bool.or_eq_false_iff] at hquotes
    rw [oddQuotes_append, hquotes.2, oddQuotes_eq_false hquote]
    rfl
  have hlast : (p ++ a :: k').getLast? ≠ some quote := by
    rw [List.getLast?_append_of_ne_nil _ (List.cons_ne_nil _ _)]
    intro h
    exact hquote (List.mem_of_getLast? h)
  have htail : (p ++ (a :: k' ++ tail)).drop (p.length + (str "SET").length) = tail := by
    rw [length_set, ← hk, ← List.length_append, ← List.append_assoc, List.drop_left]
  have hhead : (p ++ (a :: k' ++ tail)).take ((p ++ (a :: k' ++ tail)).length - tail.length) =
      p ++ a :: k' := by
    rw [← List.append_assoc, List.length_append, Nat.add_sub_cancel, List.take_left]
  rw [htail] at hno ⊢
  rw [hhead] at hno
  rw [length_set, ← hk, List.drop_left] at hbound
  have hne : p ++ a :: k' ≠ [] := by simp
  have hwhere : indexKeyword (p ++ (a :: k' ++ tail)) (str "WHERE") =
      (indexKeyword tail (str "WHERE")).map ((p ++ a :: k').length + ·) := by
    unfold indexKeyword at hno ⊢
    rw [← List.append_assoc, indexKeywordFrom_append lettered_where hbound hlast, hno,
      Quote.after_out_of_last hodd hne hlast,
      indexKeywordFrom_boundary lettered_where (List.ne_nil_of_length_pos (by simp [length_where]))
        hbound, Nat.zero_add,
      indexKeywordFrom_shift, Option.none_or]
  unfold behindKeyword
  rw [hwhere, Option.map_map]
  congr 1
  funext j
  simp only [Function.comp_apply]
  rw [Nat.add_assoc, ← List.append_assoc, List.drop_append]
  simp

theorem isLiteral_of_parseVal {raw : Bytes} {typ : ColType} {v : Value}
    (h : parseVal raw typ = .ok v) (htyp : typ ≠ .text) : isLiteral (trimSpace raw) = true := by
  unfold isLiteral
  simp only [Bool.or_eq_true]
  by_cases hnull : equalFold (trimSpace raw) (str "NULL") = true
  · exact Or.inr hnull
  · simp only [parseVal, if_neg hnull] at h
    cases typ with
    | text => exact absurd rfl htyp
    | int =>
      cases hparse : parseInt (trimSpace raw) with
      | ok n => exact Or.inl (Or.inl (Or.inl (Or.inr rfl)))
      | error e =>
        rw [hparse] at h
        cases h
    | float =>
      cases hparse : parseFloat (trimSpace raw) with
      | ok x => exact Or.inl (Or.inl (Or.inr rfl))
      | error e =>
        rw [hparse] at h
        cases h
    | bool =>
      cases hparse : parseBool (trimSpace raw) with
      | some b => exact Or.inl (Or.inr rfl)
      | none =>
        rw [hparse] at h
        cases h

theorem isAssignment_iff {lhs rhs : Bytes} {c : Column} {v : Value}
    (hcut : cut (ch '=') (trimSpace s) = some (lhs, rhs))
    (hcol : columns.find? (·.name == toLower (trimSpace lhs)) = some c)
    (hv : parseVal rhs c.type = .ok v) :
    IsAssignment columns s ↔ literalValueOf columns s = true := by
  unfold literalValueOf
  rw [hcut, Option.all_some]
  simp only [hcol, Option.all_some]
  have hname := List.find?_some hcol
  have hhas : hasColumn columns (toLower (trimSpace lhs)) = true := by
    rw [hasColumn, List.any_eq_true]
    exact ⟨c, List.mem_of_find?_eq_some hcol, hname⟩
  constructor
  · rintro ⟨lhs', rhs', hs, hmem, -, hliteral⟩
    have heq := cut_eq_some_iff.2 ⟨hs, hmem⟩
    rw [hcut] at heq
    cases heq
    rw [hliteral, Bool.or_true]
  · intro h
    obtain ⟨hs, hmem⟩ := cut_eq_some_iff.1 hcut
    refine ⟨lhs, rhs, hs, hmem, hhas, ?_⟩
    rcases Bool.or_eq_true _ _ ▸ h with htyp | hliteral
    · exact isLiteral_of_parseVal hv (bne_iff_ne.1 htyp)
    · exact hliteral

/-- What an UPDATE that is accepted has: an assignment to a column that takes its value, and a
condition that is accepted if WHERE follows. -/
theorem Database.updateStmt_parts {db : Database} {name : Bytes}
    (h : db.updateStmt s = .ok (.table name op)) (ht : db.tables[name]? = some t) :
    ∃ tail lhs rhs c v w e, behindKeyword s (str "SET") = some tail ∧
      cut (ch '=') (trimSpace (beforeKeyword tail (str "WHERE"))) = some (lhs, rhs) ∧
      t.columns.find? (·.name == toLower (trimSpace lhs)) = some c ∧ parseVal rhs c.type = .ok v ∧
      updateWhere (indexKeyword tail (str "WHERE")) s = .ok w ∧
      mutationExpected t.columns w = .ok e := by
  unfold Database.updateStmt at h
  split at h
  · cases h
  · next si hsi =>
    split at h
    · obtain ⟨t', ht', h⟩ := bind_ok h
      simp only at h
      split at h
      · cases h
      · next lhs rhs hcut =>
        split at h
        · cases h
        · next c hc =>
          obtain ⟨v, hv, h⟩ := bind_ok h
          obtain ⟨w, hw, h⟩ := bind_ok h
          obtain ⟨e, he, h⟩ := bind_ok h
          cases h
          rw [Database.table_ok ht'] at ht
          cases ht
          refine ⟨s.drop (si + 3), lhs, rhs, c, v, w, e, ?_, hcut, hc, hv, hw, he⟩
          rw [behindKeyword, hsi, Option.map_some, length_set]
    · cases h

theorem isUpdate_iff {db : Database} {name : Bytes} (h : db.updateStmt s = .ok (.table name op))
    (ht : db.tables[name]? = some t) (hstart : hasPrefixFold s (str "UPDATE") = true) :
    IsUpdate t.columns s ↔ plainUpdate t.columns s = true := by
  obtain ⟨tail, lhs, rhs, c, v, w, e, hset, hcut, hcol, hv, hw, he⟩ :=
    Database.updateStmt_parts h ht
  have hlast : true = true →
      ((beforeKeyword s (str "SET")).drop 6).getLast?.any identifierByte = false := by
    intro _
    rw [List.getLast?_drop]
    split
    · rfl
    · exact getLast?_beforeKeyword (by rw [hset]; rfl)
  -- A condition is read from the whole text, so it is compared where none stands before SET.
  have hwhere : indexKeyword (s.take (s.length - tail.length)) (str "WHERE") = none →
      ((∀ c ∈ behindKeyword tail (str "WHERE"), IsTerm t.columns c) ↔
        literalWhere (behindKeyword tail (str "WHERE")) = true) := by
    intro hno
    have hsame := behindKeyword_where hset hno
    cases hi : indexKeyword tail (str "WHERE") with
    | none => simp [behindKeyword, hi, literalWhere]
    | some i =>
      rw [updateWhere, hi, Option.isSome_some, if_pos rfl] at hw
      rw [← hsame]
      exact forall_isTerm_iff hw he
  unfold IsUpdate plainUpdate
  rw [hset, Option.any_some]
  simp only [Bool.and_eq_true, Option.isNone_iff_eq_none, Option.some.injEq, exists_eq_left',
    isOperand_iff hlast, isAssignment_iff hcut hcol hv]
  constructor
  · rintro ⟨-, hoperand, hno, hvalue, hterms⟩
    exact ⟨⟨⟨hoperand, hno⟩, hvalue⟩, (hwhere hno).1 hterms⟩
  · rintro ⟨⟨⟨hoperand, hno⟩, hvalue⟩, hliteral⟩
    exact ⟨hstart, hoperand, hno, hvalue, (hwhere hno).2 hliteral⟩

/-! ## Both statements -/

def plainMutation (columns : List Column) (s : Bytes) : Bool :=
  if hasPrefixFold s (str "UPDATE") then plainUpdate columns s else plainDelete s

/-- UPDATE and DELETE FROM are no other words of statements. -/
theorem mutation_words :
    (∀ w ∈ writeWords ++ readWords, ¬str "UPDATE" <+: w ∧ ¬w <+: str "UPDATE") ∧
    ∀ w ∈ writeWords ++ readWords ++ [str "UPDATE"],
      ¬str "DELETE FROM" <+: w ∧ ¬w <+: str "DELETE FROM" := by
  decide +kernel

theorem Database.read_update {db : Database} {env : Env}
    (h : hasPrefixFold (statementText sql) (str "UPDATE") = true) :
    db.read env sql = db.updateStmt (statementText sql) := by
  have hother : ∀ w ∈ writeWords ++ readWords, hasPrefixFold (statementText sql) w = false :=
    fun w hw => foldEqualAt_eq_false h (mutation_words.1 w hw).1 (mutation_words.1 w hw).2
  simp only [writeWords, readWords, List.cons_append, List.nil_append,
    List.forall_mem_cons] at hother
  obtain ⟨h₁, h₂, h₃, h₄, h₅, h₆, h₇, h₈, h₉, h₁₀, -⟩ := hother
  simp [Database.read, h₁, h₂, h₃, h₄, h₅, h₆, h₇, h₈, h₉, h₁₀, h]

theorem delete_words (h : hasPrefixFold s (str "DELETE FROM") = true) :
    ∀ w ∈ writeWords ++ readWords ++ [str "UPDATE"], hasPrefixFold s w = false :=
  fun w hw => foldEqualAt_eq_false h (mutation_words.2 w hw).1 (mutation_words.2 w hw).2

theorem Database.read_delete {db : Database} {env : Env}
    (h : hasPrefixFold (statementText sql) (str "DELETE FROM") = true) :
    db.read env sql = db.deleteStmt (statementText sql) := by
  have hother := delete_words h
  simp only [writeWords, readWords, List.cons_append, List.nil_append,
    List.forall_mem_cons] at hother
  obtain ⟨h₁, h₂, h₃, h₄, h₅, h₆, h₇, h₈, h₉, h₁₀, h₁₁, -⟩ := hother
  simp [Database.read, h₁, h₂, h₃, h₄, h₅, h₆, h₇, h₈, h₉, h₁₀, h₁₁, h]

/-- An UPDATE or a DELETE that is accepted has the form of its statement exactly if it leaves
nothing open: one word stands where the table does, a TEXT column gets a literal, the condition
compares with literals, and none stands before SET. -/
theorem mutation_form_iff {db : Database} {env : Env} {name : Bytes}
    (hread : db.read env sql = .ok (.table name op)) (ht : db.tables[name]? = some t)
    (hword : hasPrefixFold (statementText sql) (str "UPDATE") = true ∨
      hasPrefixFold (statementText sql) (str "DELETE FROM") = true) :
    (IsUpdate t.columns (statementText sql) ∨ IsDelete t.columns (statementText sql)) ↔
      plainMutation t.columns (statementText sql) = true := by
  unfold plainMutation
  by_cases hupdate : hasPrefixFold (statementText sql) (str "UPDATE") = true
  · rw [Database.read_update hupdate] at hread
    rw [if_pos hupdate, ← isUpdate_iff hread ht hupdate]
    refine or_iff_left fun hdelete => ?_
    rw [delete_words hdelete.1 _ (by simp)] at hupdate
    cases hupdate
  · have hdelete := hword.resolve_left hupdate
    rw [Database.read_delete hdelete] at hread
    rw [if_neg hupdate, ← isDelete_iff hread ht hdelete]
    exact or_iff_right fun hform => hupdate hform.1

def people : Database :=
  Database.runAll {} (script ["CREATE TABLE t (id INT PRIMARY KEY, name TEXT)",
    "INSERT INTO t VALUES (1, 'a'), (2, 'b')"])

def peopleColumns : List Column :=
  [{ name := str "id", type := .int, primary := true }, { name := str "name", type := .text }]

/-- With WHERE misspelt every row is deleted, and of two assignments the second is stored as text of
the first. -/
theorem mutation_form_leftover :
    people.tables[str "t"]?.map Table.columns = some peopleColumns ∧
    (Database.exec {} people (str "DELETE FROM t WHER id = 1")).1.toOption.map Result.affected =
      some 2 ∧
    ¬IsDelete peopleColumns (str "DELETE FROM t WHER id = 1") ∧
    ((Database.exec {} people (str "UPDATE t SET name = 'x', id = 5")).2.tables[str "t"]?.map
        fun t => t.rows[str "1"]?.map fun row => row.get (str "name")) =
      some (some (.text (str "x', id = 5"))) ∧
    ¬IsUpdate peopleColumns (str "UPDATE t SET name = 'x', id = 5") := by
  obtain ⟨⟨hcolumns, hdeleted, hupdated⟩, hnone, htail, hcut⟩ :
      (people.tables[str "t"]?.map Table.columns = some peopleColumns ∧
      (Database.exec {} people (str "DELETE FROM t WHER id = 1")).1.toOption.map Result.affected =
        some 2 ∧
      ((Database.exec {} people (str "UPDATE t SET name = 'x', id = 5")).2.tables[str "t"]?.map
          fun t => t.rows[str "1"]?.map fun row => row.get (str "name")) =
        some (some (.text (str "x', id = 5")))) ∧
      behindKeyword (str "DELETE FROM t WHER id = 1") (str "WHERE") = none ∧
      behindKeyword (str "UPDATE t SET name = 'x', id = 5") (str "SET") =
        some (str " name = 'x', id = 5") ∧
      cut (ch '=') (trimSpace (beforeKeyword (str " name = 'x', id = 5") (str "WHERE"))) =
        some (str "name ", str " 'x', id = 5") := by
    decide +kernel
  refine ⟨hcolumns, hdeleted, ?_, hupdated, ?_⟩
  · rintro ⟨-, hoperand, -⟩
    rw [hnone, isOperand_iff (fun h => by cases h)] at hoperand
    revert hoperand
    decide +kernel
  · rintro ⟨-, tail, hset, -, -, ⟨lhs, rhs, hs, hmem, -, hliteral⟩, -⟩
    rw [htail] at hset
    cases hset
    have heq := cut_eq_some_iff.2 ⟨hs, hmem⟩
    rw [hcut] at heq
    cases heq
    revert hliteral
    decide +kernel

theorem mutation_form_where : ∃ op t,
    Database.read {} people (str "DELETE FROM t WHERE id = 1") = .ok (.table (str "t") op) ∧
      people.tables[str "t"]? = some t ∧
      (IsUpdate t.columns (statementText (str "DELETE FROM t WHERE id = 1")) ∨
        IsDelete t.columns (statementText (str "DELETE FROM t WHERE id = 1"))) := by
  obtain ⟨hok, hfirst, hlower, hcolumns⟩ :
      isOk (Database.read {} people (str "DELETE FROM t WHERE id = 1")) = true ∧
      firstField (trimSpace ((statementText (str "DELETE FROM t WHERE id = 1")).drop 11)) =
        some (str "t") ∧ toLower (str "t") = str "t" ∧
      people.tables[str "t"]?.map Table.columns = some peopleColumns := by
    decide +kernel
  obtain ⟨t, ht, htcols⟩ := Option.map_eq_some_iff.1 hcolumns
  cases hread : Database.read {} people (str "DELETE FROM t WHERE id = 1") with
  | error f =>
    rw [hread] at hok
    cases hok
  | ok stmt =>
    have hdelete := hread
    rw [Database.read_delete (by decide +kernel), Database.deleteStmt, hfirst] at hdelete
    obtain ⟨t', -, hdelete⟩ := bind_ok hdelete
    obtain ⟨w, -, hdelete⟩ := bind_ok hdelete
    obtain ⟨e, -, hdelete⟩ := bind_ok hdelete
    cases hdelete
    rw [hlower] at hread ⊢
    refine ⟨_, t, rfl, ht, (mutation_form_iff hread ht (Or.inr (by decide +kernel))).2 ?_⟩
    rw [htcols]
    decide +kernel

end SuperDB.Engine
