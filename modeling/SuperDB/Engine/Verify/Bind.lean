import SuperDB.Engine.Bind
import SuperDB.Go.Decimal

/-!
# What binding puts where

A byte belongs to a quoted literal if it is a quote or if an odd number of quotes stands in front of
it. Binding puts an even number of quotes into the place of a placeholder, so no byte of the
template changes sides, and every byte of a text argument other than a quote is inside a literal.
-/

namespace SuperDB.Engine

open Go

variable {s t u : Bytes} {a : UInt8}

/-! ## Literals and parity -/

/-- For each byte whether it belongs to a literal: whether it is inside one or one of its quotes. -/
def literalsFrom : Quote → Bytes → List Bool
  | _, [] => []
  | q, a :: s => (!q.plain a) :: literalsFrom (q.step a s) s

def inLiteral (s : Bytes) (i : Nat) : Bool := (literalsFrom .out s).getD i false

def oddQuotes : Bytes → Bool
  | [] => false
  | a :: s => (a == quote) ^^ oddQuotes s

theorem oddQuotes_append (s t : Bytes) : oddQuotes (s ++ t) = (oddQuotes s ^^ oddQuotes t) := by
  induction s with
  | nil => simp [oddQuotes]
  | cons a s ih => simp only [List.cons_append, oddQuotes, ih, Bool.xor_assoc]

theorem oddQuotes_eq_false (h : quote ∉ s) : oddQuotes s = false := by
  induction s with
  | nil => rfl
  | cons a s ih =>
    have ha : (a == quote) = false := beq_eq_false_iff_ne.2 fun ha => h (ha ▸ List.mem_cons_self)
    rw [oddQuotes, ha, ih fun hs => h (List.mem_cons_of_mem _ hs)]
    rfl

def Quote.odd (q : Quote) : Bool := q == .lit

/-- The state before the second quote of a pair is left with that quote. -/
def Quote.Fits (q : Quote) (s : Bytes) : Prop := q = .esc → s.head? = some quote

theorem Quote.Fits.out (s : Bytes) : Quote.out.Fits s := fun h => by cases h

theorem Quote.Fits.step {q : Quote} : (q.step a s).Fits s := by
  intro h
  unfold Quote.step at h
  cases q with
  | out =>
    simp only at h
    split at h <;> cases h
  | esc => cases h
  | lit =>
    simp only at h
    split at h
    · split at h
      · exact beq_iff_eq.1 ‹_›
      · cases h
    · cases h

theorem Quote.odd_step {q : Quote} (h : q.Fits (a :: s)) :
    (q.step a s).odd = (q.odd ^^ (a == quote)) := by
  unfold Quote.step
  cases q with
  | out => cases a == quote <;> rfl
  | esc =>
    have ha : a = quote := by simpa using h rfl
    rw [ha]
    rfl
  | lit =>
    cases a == quote with
    | true => cases s.head? == some quote <;> rfl
    | false => rfl

theorem Quote.plain_eq {q : Quote} (h : q.Fits (a :: s)) :
    (!q.plain a) = (a == quote || q.odd) := by
  cases q with
  | out => cases ha : a == quote <;> simp [Quote.plain, Quote.odd, ha, bne]
  | esc =>
    have ha : a = quote := by simpa using h rfl
    rw [ha]
    rfl
  | lit => cases a == quote <;> rfl

theorem literalsFrom_get? {q : Quote} (s : Bytes) (a : UInt8) (t : Bytes)
    (h : q.Fits (s ++ a :: t)) :
    (literalsFrom q (s ++ a :: t))[s.length]? = some (a == quote || (q.odd ^^ oddQuotes s)) := by
  induction s generalizing q with
  | nil =>
    rw [List.nil_append] at h ⊢
    simp only [literalsFrom, oddQuotes, Bool.xor_false, List.length_nil, List.getElem?_cons_zero]
    rw [Quote.plain_eq h]
  | cons b s ih =>
    rw [List.cons_append] at h ⊢
    simp only [literalsFrom, List.length_cons, List.getElem?_cons_succ]
    rw [ih Quote.Fits.step, Quote.odd_step h, oddQuotes, Bool.xor_assoc]

theorem inLiteral_eq (s : Bytes) (a : UInt8) (t : Bytes) :
    inLiteral (s ++ a :: t) s.length = (a == quote || oddQuotes s) := by
  unfold inLiteral
  rw [List.getD_eq_getElem?_getD, literalsFrom_get? s a t (Quote.Fits.out _)]
  exact congrArg (a == quote || ·) (Bool.false_xor _)

theorem inLiteral_indexKeyword {word : Bytes} {i : Nat} (h : indexKeyword s word = some i) :
    inLiteral s i = false := by
  have hfrom : ∀ (s : Bytes) (k : Nat) (q : Quote) (prev : Option UInt8),
      indexKeywordFrom word k q prev s = some i →
        k ≤ i ∧ (literalsFrom q s)[i - k]? = some false := by
    intro s
    induction s with
    | nil => intro k q prev h; cases h
    | cons a s ih =>
      intro k q prev h
      unfold indexKeywordFrom at h
      split at h
      · next hfound =>
        cases h
        simp only [Bool.and_eq_true] at hfound
        rw [Nat.sub_self]
        exact ⟨Nat.le_refl _, by simp [literalsFrom, hfound.1.1.1]⟩
      · obtain ⟨hle, hat⟩ := ih _ _ _ h
        have hsucc : i - k = i - (k + 1) + 1 := by omega
        rw [hsucc]
        exact ⟨by omega, by simpa [literalsFrom] using hat⟩
  have hat := (hfrom s 0 .out none h).2
  unfold inLiteral
  rw [List.getD_eq_getElem?_getD, ← Nat.sub_zero i, hat]
  rfl

/-! ## Literals of arguments -/

/-- An argument whose literal is quoted: a string, a byte slice, or what `fmt.Sprint` prints. -/
def Param.quoted : Param → Bool
  | .text _ => true
  | .other _ => true
  | _ => false

theorem oddQuotes_double (s : Bytes) :
    oddQuotes (s.flatMap fun a => if a == quote then [quote, quote] else [a]) = false := by
  induction s with
  | nil => rfl
  | cons a s ih =>
    rw [List.flatMap_cons, oddQuotes_append, ih, Bool.xor_false]
    split
    · rfl
    · next ha => simp [oddQuotes, ha]

theorem oddQuotes_quoteLiteral (s : Bytes) : oddQuotes (quoteLiteral s) = false := by
  unfold quoteLiteral
  rw [List.cons_append, oddQuotes, oddQuotes_append, oddQuotes_double]
  rfl

theorem oddQuotes_formatParam (p : Param) : oddQuotes (formatParam p) = false := by
  have hnumber : isNumberByte quote = false := by decide +kernel
  cases p with
  | null => decide +kernel
  | text s => exact oddQuotes_quoteLiteral s
  | bool b => cases b <;> decide +kernel
  | int n =>
    refine oddQuotes_eq_false fun hq => ?_
    rw [isNumberByte_formatInt hq] at hnumber
    cases hnumber
  | float x =>
    refine oddQuotes_eq_false fun hq => ?_
    rw [isNumberByte_formatFloat hq] at hnumber
    cases hnumber
  | other s => exact oddQuotes_quoteLiteral s

theorem oddQuotes_double_start (ha : a ≠ quote)
    (h : (s.flatMap fun a => if a == quote then [quote, quote] else [a]) = t ++ a :: u) :
    oddQuotes t = false := by
  induction s generalizing t with
  | nil => simp at h
  | cons b s ih =>
    rw [List.flatMap_cons] at h
    by_cases hb : b = quote
    · rw [if_pos (beq_iff_eq.2 hb)] at h
      match t, h with
      | [], h => exact absurd (List.cons.inj h).1.symm ha
      | [c], h => exact absurd (List.cons.inj (List.cons.inj h).2).1.symm ha
      | c :: d :: t, h =>
        simp only [List.cons_append, List.nil_append, List.cons.injEq] at h
        obtain ⟨rfl, rfl, h⟩ := h
        have ht := ih h
        simp [oddQuotes, ht]
    · rw [if_neg (by simpa using hb)] at h
      match t, h with
      | [], h => rfl
      | c :: t, h =>
        simp only [List.cons_append, List.nil_append, List.cons.injEq] at h
        obtain ⟨rfl, h⟩ := h
        have ht := ih h
        simp [oddQuotes, ht, hb]

theorem oddQuotes_formatParam_start {p : Param} (hp : p.quoted = true) (ha : a ≠ quote)
    (h : formatParam p = t ++ a :: u) : oddQuotes t = true := by
  have hliteral : ∀ s, quoteLiteral s = t ++ a :: u → oddQuotes t = true := by
    intro s h
    unfold quoteLiteral at h
    match t, h with
    | [], h => exact absurd (List.cons.inj h).1.symm ha
    | b :: t, h =>
      simp only [List.cons_append, List.cons.injEq] at h
      obtain ⟨rfl, h⟩ := h
      -- the byte is not the closing quote
      rcases List.eq_nil_or_concat u with rfl | ⟨u', b, rfl⟩
      · obtain ⟨-, hlast⟩ := List.append_inj' h rfl
        exact absurd (List.cons.inj hlast).1.symm ha
      · rw [List.concat_eq_append, ← List.cons_append, ← List.append_assoc] at h
        have ht := oddQuotes_double_start ha (List.append_inj' h rfl).1
        simp [oddQuotes, ht]
  cases p with
  | text s => exact hliteral s h
  | other s => exact hliteral s h
  | null => cases hp
  | bool b => cases hp
  | int n => cases hp
  | float x => cases hp

/-! ## Origins -/

/-- Where a byte of a bound text comes from: a position of the template, or a position in the
literal of an argument. -/
inductive Origin where
  | template (i : Nat)
  | param (k i : Nat)

/-- The origins of the bytes that the loop of `bindParams` writes, from position `i` of the template
and argument `k` on. -/
def originsFrom : Quote → Nat → Nat → List Param → Bytes → List Origin
  | _, _, _, _, [] => []
  | q, i, k, args, a :: s =>
    if q.placeholder a then
      match args with
      | [] => []
      | p :: args =>
        (List.range (formatParam p).length).map (.param k) ++
          originsFrom (q.step a s) (i + 1) (k + 1) args s
    else .template i :: originsFrom (q.step a s) (i + 1) k args s

def origins (sql : Bytes) (args : List Param) : List Origin := originsFrom .out 0 0 args sql

/-- What is true of the byte `a` with the bytes `before` in front of it, written by the loop for the
rest `s` of the template, according to its origin. -/
def Origin.Sound (q : Quote) (i k : Nat) (args : List Param) (s before : Bytes) (a : UInt8) :
    Origin → Prop
  | .template i' => ∃ t u, s = t ++ a :: u ∧ i' = i + t.length ∧ oddQuotes before = oddQuotes t
  | .param k' j => k ≤ k' ∧ ∃ p, args[k' - k]? = some p ∧ (formatParam p)[j]? = some a ∧
      (p.quoted = true → a ≠ quote → (q.odd ^^ oddQuotes before) = true)

theorem map_ok {ε α β : Type} {x : Except ε α} {f : α → β} {b : β} (h : x.map f = .ok b) :
    ∃ a, x = .ok a ∧ f a = b := by
  cases x with
  | error e => cases h
  | ok a => exact ⟨a, rfl, Except.ok.inj h⟩

theorem append_cases {x y : Bytes} (h : x ++ y = t ++ a :: u) :
    (∃ v, x = t ++ a :: v) ∨ ∃ v, t = x ++ v ∧ y = v ++ a :: u := by
  rcases List.append_eq_append_iff.1 h with ⟨v, ht, hy⟩ | ⟨v, hx, hv⟩
  · exact Or.inr ⟨v, ht, hy⟩
  · cases v with
    | nil => exact Or.inr ⟨[], by rw [hx, List.append_nil, List.append_nil], hv.symm⟩
    | cons b v =>
      obtain ⟨rfl, -⟩ := List.cons.inj hv
      exact Or.inl ⟨v, hx⟩

section Origins

variable {q : Quote} {i k n : Nat} {args : List Param} {s before : Bytes} {a b : UInt8} {o : Origin}

theorem Origin.Sound.copied (h : o.Sound (q.step b s) (i + 1) k args s before a)
    (hq : q.Fits (b :: s)) : o.Sound q i k args (b :: s) (b :: before) a := by
  cases o with
  | template i' =>
    obtain ⟨t, u, rfl, rfl, hodd⟩ := h
    exact ⟨b :: t, u,
      rfl, by simp only [List.length_cons]; omega, by rw [oddQuotes, hodd, oddQuotes]⟩
  | param k' j =>
    obtain ⟨hk, p, hp, hbyte, hodd⟩ := h
    refine ⟨hk, p, hp, hbyte, fun hquoted ha => ?_⟩
    have hbefore := hodd hquoted ha
    rwa [Quote.odd_step hq, Bool.xor_assoc] at hbefore

theorem Quote.placeholder_iff : q.placeholder b = true ↔ q = .out ∧ b = ch '?' := by
  have hquote : ch '?' ≠ quote := by decide +kernel
  unfold Quote.placeholder Quote.plain
  simp only [Bool.and_eq_true, beq_iff_eq, bne_iff_ne]
  constructor
  · rintro ⟨⟨hq, -⟩, hb⟩
    exact ⟨hq, hb⟩
  · rintro ⟨hq, hb⟩
    exact ⟨⟨hq, hb ▸ hquote⟩, hb⟩

theorem Origin.Sound.substituted {p : Param}
    (h : o.Sound (q.step b s) (i + 1) (k + 1) args s before a) (hb : q.placeholder b = true) :
    o.Sound q i k (p :: args) (b :: s) (formatParam p ++ before) a := by
  obtain ⟨rfl, rfl⟩ := Quote.placeholder_iff.1 hb
  have hodd_eq : oddQuotes (formatParam p ++ before) = oddQuotes before := by
    rw [oddQuotes_append, oddQuotes_formatParam, Bool.false_xor]
  cases o with
  | template i' =>
    obtain ⟨t, u, rfl, rfl, hodd⟩ := h
    refine ⟨ch '?' :: t, u, rfl, by simp only [List.length_cons]; omega, ?_⟩
    have hplain : (ch '?' == quote) = false := by decide +kernel
    rw [hodd_eq, oddQuotes, hplain, Bool.false_xor, hodd]
  | param k' j =>
    obtain ⟨hk, p', hp, hbyte, hodd⟩ := h
    have hsucc : k' - k = k' - (k + 1) + 1 := by omega
    refine ⟨by omega, p', by rw [hsucc, List.getElem?_cons_succ, hp], hbyte, fun hquoted ha => ?_⟩
    rw [hodd_eq]
    exact hodd hquoted ha

theorem originsFrom_sound {r : Bytes × Nat × List Param} (h : bindFrom q n args s = .ok r)
    (hq : q.Fits s) :
    (originsFrom q i k args s).length = r.1.length ∧
      ∀ (before : Bytes) (a : UInt8) (after : Bytes), r.1 = before ++ a :: after →
        ∀ o, (originsFrom q i k args s)[before.length]? = some o →
          o.Sound q i k args s before a := by
  induction s generalizing q i k n args r with
  | nil =>
    cases h
    exact ⟨rfl, fun before a after hsplit => by simp at hsplit⟩
  | cons b s ih =>
    unfold bindFrom at h
    unfold originsFrom
    cases hb : q.placeholder b with
    | true =>
      rw [if_pos hb] at h
      rw [if_pos rfl]
      cases args with
      | nil => cases h
      | cons p args =>
        simp only at h ⊢
        obtain ⟨r', hr', rfl⟩ := map_ok h
        obtain ⟨hlength, hsound⟩ := ih (i := i + 1) (k := k + 1) hr' Quote.Fits.step
        refine ⟨by simp only [List.length_append, List.length_map, List.length_range, hlength], ?_⟩
        intro before a after hsplit o ho
        rcases append_cases hsplit with ⟨u, hliteral⟩ | ⟨t, rfl, hrest⟩
        · have hin : before.length < (formatParam p).length := by
            rw [hliteral, List.length_append, List.length_cons]
            omega
          rw [List.getElem?_append_left (by simpa using hin)] at ho
          have ho' : o = .param k before.length := by simpa [hin] using ho.symm
          obtain ⟨rfl, -⟩ := Quote.placeholder_iff.1 hb
          rw [ho']
          refine ⟨Nat.le_refl _, p, by rw [Nat.sub_self]; rfl, by rw [hliteral]; simp, ?_⟩
          intro hquoted ha
          rw [oddQuotes_formatParam_start hquoted ha hliteral]
          rfl
        · rw [List.getElem?_append_right (by simp)] at ho
          exact (hsound t a after hrest o (by simpa using ho)).substituted hb
    | false =>
      rw [if_neg (by simp [hb])] at h
      rw [if_neg (by simp)]
      obtain ⟨r', hr', rfl⟩ := map_ok h
      obtain ⟨hlength, hsound⟩ := ih (i := i + 1) (k := k) hr' Quote.Fits.step
      refine ⟨by simp only [List.length_cons, hlength], fun before a after hsplit o ho => ?_⟩
      cases before with
      | nil =>
        simp only [List.nil_append, List.cons.injEq] at hsplit
        obtain ⟨rfl, -⟩ := hsplit
        cases ho
        exact ⟨[], s, rfl, rfl, rfl⟩
      | cons c before =>
        simp only [List.cons_append, List.cons.injEq] at hsplit
        obtain ⟨rfl, hsplit⟩ := hsplit
        exact (hsound before a after hsplit o ho).copied hq

end Origins

theorem bindParams_loop {sql out : Bytes} {args : List Param} (h : bindParams sql args = .ok out) :
    ∃ n rest, bindFrom .out 0 args sql = .ok (out, n, rest) := by
  unfold bindParams at h
  split at h
  · next hargs =>
    obtain rfl := List.isEmpty_iff.1 hargs
    split at h
    · cases h
    · next hnone =>
      cases h
      have hcopy : ∀ (q : Quote) (n : Nat) (s : Bytes), hasPlaceholderFrom q s = false →
          bindFrom q n [] s = .ok (s, n, []) := by
        intro q n s
        induction s generalizing q with
        | nil => intro _; rfl
        | cons a s ih =>
          intro hs
          obtain ⟨ha, hs⟩ := Bool.or_eq_false_iff.1 hs
          rw [bindFrom, if_neg (by simp [ha]), ih _ hs]
          rfl
      exact ⟨0, [], hcopy _ _ _ (Bool.eq_false_iff.2 hnone)⟩
  · split at h
    · cases h
    · next text n rest hloop =>
      split at h
      · cases h
        exact ⟨n, rest, hloop⟩
      · cases h

/-- **Parameters stay in their literals.** In a bound text every byte comes from the template or
from an argument. A byte of the template belongs to a literal exactly if it did there; a byte of a
quoted argument other than a quote is inside a literal; and no keyword is found in a quoted
argument. -/
theorem bindParams_keeps_literals {sql out : Bytes} {args : List Param}
    (h : bindParams sql args = .ok out) :
    (origins sql args).length = out.length ∧
      (∀ j i, (origins sql args)[j]? = some (.template i) →
        i < sql.length ∧ out[j]? = sql[i]? ∧ inLiteral out j = inLiteral sql i) ∧
      (∀ j k m, (origins sql args)[j]? = some (.param k m) →
        ∃ p, args[k]? = some p ∧ m < (formatParam p).length ∧ out[j]? = (formatParam p)[m]? ∧
          (p.quoted = true → out[j]? ≠ some quote → inLiteral out j = true)) ∧
      ∀ word j, indexKeyword out word = some j →
        ∀ k m p, (origins sql args)[j]? = some (.param k m) → args[k]? = some p →
          p.quoted = false := by
  obtain ⟨n, rest, hloop⟩ := bindParams_loop h
  obtain ⟨hlength, hsound⟩ := originsFrom_sound (i := 0) (k := 0) hloop (Quote.Fits.out _)
  -- the byte at a position that has an origin
  have hat : ∀ j o, (origins sql args)[j]? = some o → ∃ before a after,
      out = before ++ a :: after ∧ before.length = j ∧ o.Sound .out 0 0 args sql before a := by
    intro j o ho
    have hj : j < out.length := hlength ▸ (List.getElem?_eq_some_iff.1 ho).1
    have hsplit : out = out.take j ++ out[j] :: out.drop (j + 1) := by
      rw [List.getElem_cons_drop, List.take_append_drop]
    have htake : (out.take j).length = j := List.length_take_of_le (Nat.le_of_lt hj)
    exact ⟨_, _, _, hsplit, htake, hsound _ _ _ hsplit o (by rw [htake]; exact ho)⟩
  have hparam : ∀ j k m, (origins sql args)[j]? = some (.param k m) →
      ∃ p, args[k]? = some p ∧ m < (formatParam p).length ∧ out[j]? = (formatParam p)[m]? ∧
        (p.quoted = true → inLiteral out j = true) := by
    intro j k m ho
    obtain ⟨before, a, after, rfl, rfl, -, p, hp, hbyte, hodd⟩ := hat j _ ho
    refine ⟨p, hp, (List.getElem?_eq_some_iff.1 hbyte).1, ?_, fun hquoted => ?_⟩
    · rw [hbyte]
      simp
    · rw [inLiteral_eq]
      by_cases ha : a = quote
      · rw [beq_iff_eq.2 ha, Bool.true_or]
      · have hbefore := hodd hquoted ha
        rw [Bool.or_eq_true]
        exact Or.inr ((Bool.false_xor _).symm.trans hbefore)
  refine ⟨hlength, fun j i ho => ?_, fun j k m ho => ?_, fun word j hword k m p ho hp => ?_⟩
  · obtain ⟨before, a, after, rfl, rfl, t, u, rfl, rfl, hodd⟩ := hat j _ ho
    rw [Nat.zero_add, inLiteral_eq, inLiteral_eq, hodd]
    refine ⟨by simp, by simp, rfl⟩
  · obtain ⟨p, hp, hm, hbyte, hquoted⟩ := hparam j k m ho
    exact ⟨p, hp, hm, hbyte, fun hq _ => hquoted hq⟩
  · obtain ⟨p', hp', -, -, hquoted⟩ := hparam j k m ho
    obtain rfl := Option.some.inj (hp'.symm.trans hp)
    have hout := inLiteral_indexKeyword hword
    cases hcase : p'.quoted with
    | false => rfl
    | true =>
      rw [hquoted hcase] at hout
      cases hout

/-- A placeholder next to a literal: the two literals become one. -/
theorem bindParams_keeps_literals_merged :
    bindParams (str "SELECT v FROM t WHERE v = 'a'?") [.text (str " OR '1' = '1")] =
        .ok (str "SELECT v FROM t WHERE v = 'a'' OR ''1'' = ''1'") ∧
      (origins (str "SELECT v FROM t WHERE v = 'a'?") [.text (str " OR '1' = '1")]).length =
        (str "SELECT v FROM t WHERE v = 'a'' OR ''1'' = ''1'").length := by
  have hbind : bindParams (str "SELECT v FROM t WHERE v = 'a'?") [.text (str " OR '1' = '1")] =
      .ok (str "SELECT v FROM t WHERE v = 'a'' OR ''1'' = ''1'") := by decide +kernel
  exact ⟨hbind, (bindParams_keeps_literals hbind).1⟩

end SuperDB.Engine
