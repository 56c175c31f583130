import SuperDB.Engine.Verify.Window

/-!
# The order of ORDER BY

`valueLess` compares cells of one type by their value and a cell with NULL by their rendered texts.
NULL is rendered as `<nil>`: behind every number, before both booleans, and among texts where that
text would stand. So the cells of an INT, TEXT or BOOL column with NULLs are ordered, entries with
places are ordered totally, and the selection of the best `k` keys is the start of the stable sort.
-/

namespace SuperDB.Go

section TieBreak

variable {α : Type} {less : α → α → Bool} {l : List α}

def tieBreak (less : α → α → Bool) (place : α → Nat) (a b : α) : Bool :=
  if less a b then true else if less b a then false else place a < place b

theorem Orders.tieBreak (h : Orders less l) (place : α → Nat) : Orders (tieBreak less place) l := by
  refine ⟨fun a ha b hb hab => ?_, fun a ha b hb c hc hab hbc => ?_⟩
  · unfold Go.tieBreak at hab ⊢
    cases hless : less a b with
    | true => simp [h.asymm a ha b hb hless]
    | false =>
      rw [hless] at hab
      cases hless' : less b a with
      | true => simp [hless'] at hab
      | false =>
        simp only [hless', Bool.false_eq_true, if_false, decide_eq_true_eq,
          decide_eq_false_iff_not] at hab ⊢
        omega
  · -- `a` is not before `b` and `b` not before `c`; were `a` before `c`, all three would be level
    unfold Go.tieBreak at hab hbc ⊢
    have hnab : less a b = false := by
      cases hless : less a b with
      | false => rfl
      | true => simp [hless] at hab
    have hnbc : less b c = false := by
      cases hless : less b c with
      | false => rfl
      | true => simp [hless] at hbc
    have hnac := h.trans a ha b hb c hc hnab hnbc
    cases hca : less c a with
    | true => simp [hnac]
    | false =>
      have hnba := h.trans b hb c hc a ha hnbc hca
      have hncb := h.trans c hc a ha b hb hca hnab
      simp only [hnab, hnba, hnbc, hncb, hnac, Bool.false_eq_true, if_false,
        decide_eq_false_iff_not] at hab hbc ⊢
      omega

theorem isStrictWeakOrder_of_orders {S : α → Prop}
    (h : ∀ l : List α, (∀ a ∈ l, S a) → Orders less l) :
    IsStrictWeakOrder {a // S a} fun a b => less a.1 b.1 = true := by
  have hthree : ∀ a b c : {a // S a}, Orders less [a.1, b.1, c.1] := fun a b c =>
    h _ (by simp [a.2, b.2, c.2])
  refine { irrefl := fun a haa => ?_, trans := fun a b c hab hbc => ?_, incomp_trans := ?_ }
  · have := (hthree a a a).irrefl (a := a.1) (by simp)
    rw [this] at haa
    cases haa
  · have ho := hthree a b c
    have hcb := ho.asymm b.1 (by simp) c.1 (by simp) hbc
    cases hac : less a.1 c.1 with
    | true => rfl
    | false =>
      rw [ho.trans a.1 (by simp) c.1 (by simp) b.1 (by simp) hac hcb] at hab
      cases hab
  · rintro a b c ⟨hab, hba⟩ ⟨hbc, hcb⟩
    have ho := hthree a b c
    rw [Bool.not_eq_true] at hab hba hbc hcb
    rw [Bool.not_eq_true, Bool.not_eq_true]
    exact ⟨ho.trans a.1 (by simp) b.1 (by simp) c.1 (by simp) hab hbc,
      ho.trans c.1 (by simp) b.1 (by simp) a.1 (by simp) hcb hba⟩

end TieBreak

end SuperDB.Go

namespace SuperDB.Engine

open Go

/-! ## Cells of a column -/

def Value.InColumn (ty : ColType) : Value → Prop
  | .null => True
  | .int _ => ty = .int
  | .float _ => ty = .float
  | .text _ => ty = .text
  | .bool _ => ty = .bool
  | .count _ => False

theorem bytesLess_cons {a b : UInt8} (h : a < b) (s t : Bytes) :
    bytesLess (a :: s) (b :: t) = true := by
  have hlt : compare a b = .lt := Std.compare_eq_lt.2 h
  rw [bytesLess, List.compare_cons_cons, hlt]
  rfl

theorem bytesLess_trans {a b c : Bytes} (hab : bytesLess a b = false)
    (hbc : bytesLess b c = false) : bytesLess a c = false := by
  have hge : ∀ {x y : Bytes}, bytesLess x y = false ↔ (compare x y).isGE := by
    intro x y
    rw [bytesLess]
    cases compare x y <;> decide
  rw [hge] at *
  exact Std.TransCmp.isGE_trans hab hbc

theorem null_eq : sprint .null = ch '<' :: str "nil>" := by
  rw [sprint, str_ofList, str_ofList]
  rfl

theorem valueLess_int_null (n : Int64) : valueLess (.int n) .null = true := by
  have hhead : ∃ c s, formatInt n.toInt = c :: s ∧ c < ch '<' := by
    unfold formatInt
    split
    · exact ⟨_, _, rfl, by decide⟩
    · obtain ⟨c, s, hs⟩ := List.exists_cons_of_ne_nil (decimal_ne_nil n.toInt.natAbs)
      have hdigit : isDigit c = true := isDigit_of_mem_decimal (hs ▸ List.mem_cons_self)
      simp only [isDigit, Bool.and_eq_true, decide_eq_true_eq] at hdigit
      exact ⟨c, s, hs, UInt8.lt_of_le_of_lt hdigit.2 (by decide)⟩
  obtain ⟨c, s, hs, hc⟩ := hhead
  show bytesLess (sprint (.int n)) (sprint .null) = true
  rw [null_eq, show sprint (.int n) = c :: s from hs]
  exact bytesLess_cons hc _ _

/-- Where a cell of a BOOL column stands: NULL is before both booleans. -/
def boolRank : Value → Nat
  | .bool false => 1
  | .bool true => 2
  | _ => 0

theorem valueLess_bool {a b : Value} (ha : a.InColumn .bool) (hb : b.InColumn .bool) :
    valueLess a b = decide (boolRank a < boolRank b) := by
  cases a with
  | null =>
    cases b with
    | null => decide +kernel
    | bool b => cases b <;> decide +kernel
    | _ => cases hb
  | bool a =>
    cases b with
    | null => cases a <;> decide +kernel
    | bool b => cases a <;> cases b <;> rfl
    | _ => cases hb
  | _ => cases ha

theorem valueLess_text {a b : Value} (ha : a.InColumn .text) (hb : b.InColumn .text) :
    valueLess a b = bytesLess (sprint a) (sprint b) := by
  cases a with
  | null =>
    cases b with
    | null | text => rfl
    | _ => cases hb
  | text a =>
    cases b with
    | null | text => rfl
    | _ => cases hb
  | _ => cases ha

/-- Where a cell of an INT column stands: NULL is behind every number. -/
def intRank : Value → WithTop Int
  | .int n => n.toInt
  | _ => ⊤

theorem valueLess_int {a b : Value} (ha : a.InColumn .int) (hb : b.InColumn .int) :
    valueLess a b = true ↔ intRank a < intRank b := by
  cases a with
  | null =>
    cases b with
    | null => exact ⟨fun h => absurd h (by decide +kernel), fun h => absurd h (lt_irrefl _)⟩
    | int n =>
      rw [valueLess_asymm (valueLess_int_null n)]
      exact ⟨fun h => absurd h Bool.false_ne_true, fun h => absurd h not_top_lt⟩
    | _ => cases hb
  | int m =>
    cases b with
    | null => exact ⟨fun _ => WithTop.coe_lt_top m.toInt, fun _ => valueLess_int_null m⟩
    | int n => exact decide_eq_true_iff.trans WithTop.coe_lt_coe.symm
    | _ => cases hb
  | _ => cases ha

theorem valueLess_trans {ty : ColType} (hty : ty ≠ .float) {a b c : Value} (ha : a.InColumn ty)
    (hb : b.InColumn ty) (hc : c.InColumn ty) (hab : valueLess a b = false)
    (hbc : valueLess b c = false) : valueLess a c = false := by
  cases ty with
  | float => exact absurd rfl hty
  | int =>
    rw [← Bool.not_eq_true, valueLess_int ha hb, not_lt] at hab
    rw [← Bool.not_eq_true, valueLess_int hb hc, not_lt] at hbc
    rw [← Bool.not_eq_true, valueLess_int ha hc, not_lt]
    exact hbc.trans hab
  | text =>
    rw [valueLess_text ha hb] at hab
    rw [valueLess_text hb hc] at hbc
    rw [valueLess_text ha hc]
    exact bytesLess_trans hab hbc
  | bool =>
    rw [valueLess_bool ha hb, decide_eq_false_iff_not, not_lt] at hab
    rw [valueLess_bool hb hc, decide_eq_false_iff_not, not_lt] at hbc
    rw [valueLess_bool ha hc, decide_eq_false_iff_not, not_lt]
    exact hbc.trans hab

theorem orders_valueLess {ty : ColType} (hty : ty ≠ .float) {l : List Value}
    (h : ∀ v ∈ l, v.InColumn ty) : Orders valueLess l :=
  ⟨fun _ _ _ _ => valueLess_asymm,
    fun a ha b hb c hc => valueLess_trans hty (h a ha) (h b hb) (h c hc)⟩

/-! ## Entries -/

/-- The order of the cells alone, reversed for DESC. -/
def valueBefore (descending : Bool) (v w : Value) : Bool :=
  if descending then valueLess w v else valueLess v w

theorem valueBefore_asymm {descending : Bool} {v w : Value}
    (h : valueBefore descending v w = true) :
    valueBefore descending w v = false := by
  cases descending with
  | false => exact valueLess_asymm h
  | true => exact valueLess_asymm h

theorem rankBefore_eq_tieBreak (descending : Bool) : rankBefore descending =
    tieBreak (fun a b => valueBefore descending a.val b.val) OrderEntry.seq := by
  funext a b
  unfold rankBefore tieBreak valueBefore
  cases descending with
  | false => simp
  | true =>
    cases hab : valueLess a.val b.val with
    | false => simp [hab]
    | true => simp [hab, valueLess_asymm hab]

theorem orders_rankBefore {ty : ColType} (hty : ty ≠ .float) (descending : Bool)
    {entries : List OrderEntry} (h : ∀ e ∈ entries, e.val.InColumn ty) :
    Orders (rankBefore descending) entries := by
  have hvalues : Orders (fun a b : OrderEntry => valueBefore descending a.val b.val) entries := by
    refine ⟨fun a _ b _ => valueBefore_asymm, fun a ha b hb c hc hab hbc => ?_⟩
    cases descending with
    | false => exact valueLess_trans hty (h a ha) (h b hb) (h c hc) hab hbc
    | true => exact valueLess_trans hty (h c hc) (h b hb) (h a ha) hbc hab
  rw [rankBefore_eq_tieBreak]
  exact hvalues.tieBreak OrderEntry.seq

/-- **The cells of an INT, TEXT or BOOL column are ordered, NULLs included, and entries in different
places are ordered totally.** -/
theorem valueLess_isStrictWeakOrder (ty : ColType) (hty : ty ≠ .float) :
    IsStrictWeakOrder {v : Value // v.InColumn ty} (fun a b => valueLess a.1 b.1 = true) ∧
      ∀ (descending : Bool) (S : Set OrderEntry), (∀ e ∈ S, e.val.InColumn ty) →
        (∀ a ∈ S, ∀ b ∈ S, a.seq = b.seq → a = b) →
          IsStrictTotalOrder S fun a b => rankBefore descending a.1 b.1 = true := by
  refine ⟨isStrictWeakOrder_of_orders fun l hl => orders_valueLess hty hl,
    fun descending S hS hplace => ?_⟩
  have hweak : IsStrictWeakOrder S fun a b => rankBefore descending a.1 b.1 = true :=
    isStrictWeakOrder_of_orders fun l hl => orders_rankBefore hty descending fun e he =>
      hS e (hl e he)
  refine { trichotomous := fun a b hab hba => ?_, irrefl := hweak.irrefl, trans := hweak.trans }
  rw [Bool.not_eq_true] at hab hba
  exact Subtype.ext (hplace a.1 a.2 b.1 b.2 (rankBefore_total hab hba))

/-- An INT column, with a number that is the smaller one as a number and the larger one as a
text. -/
theorem valueLess_isStrictWeakOrder_int :
    (∀ a b c : {v : Value // v.InColumn .int}, valueLess a.1 b.1 = true → valueLess b.1 c.1 = true →
      valueLess a.1 c.1 = true) ∧
      valueLess (.int 9) (.int 10) = true ∧ valueLess (.int 10) .null = true ∧
      ∀ a b : ({⟨str "x", .null, 0⟩, ⟨str "y", .int 9, 1⟩} : Set OrderEntry),
        rankBefore true a.1 b.1 = true ∨ a = b ∨ rankBefore true b.1 a.1 = true := by
  have h := valueLess_isStrictWeakOrder .int (by decide)
  have htotal := h.2 true {⟨str "x", .null, 0⟩, ⟨str "y", .int 9, 1⟩}
    (by
      rintro e (rfl | rfl)
      · trivial
      · rfl)
    (by
      rintro a (rfl | rfl) b (rfl | rfl) hseq
      · rfl
      · exact absurd hseq (by decide)
      · exact absurd hseq (by decide)
      · rfl)
  refine ⟨h.1.trans, by decide +kernel, by decide +kernel, fun a b => ?_⟩
  by_cases hab : rankBefore true a.1 b.1 = true
  · exact .inl hab
  by_cases hba : rankBefore true b.1 a.1 = true
  · exact .inr (.inr hba)
  · exact .inr (.inl (htotal.trichotomous a b hab hba))

/-! ## Sorting -/

def Table.stableSort (t : Table) (column : Bytes) (descending : Bool) (keys : List Bytes) :
    List Bytes :=
  keys.mergeSort fun a b => !valueBefore descending (t.orderValue column b) (t.orderValue column a)

theorem sort_unique {sorter sorter' : Sorter} (hs : sorter.Sorts) (hs' : sorter'.Sorts)
    {entries : List OrderEntry} {descending : Bool} (hplaced : Placed entries)
    (ho : Orders (rankBefore descending) entries) :
    sorter.sort (rankBefore descending) entries = sorter'.sort (rankBefore descending) entries := by
  refine List.Perm.eq_of_pairwise ?_ (hs _ _ ho) (hs' _ _ ho)
    ((sorter.perm _ _).trans (sorter'.perm _ _).symm)
  intro a b ha hb hba hab
  exact hplaced a ((sorter.perm _ _).subset ha) b ((sorter'.perm _ _).subset hb)
    (rankBefore_total hab hba)

theorem merge_orderEntries (t : Table) (column : Bytes) (descending : Bool) (keys : List Bytes) :
    (Sorter.merge.sort (rankBefore descending) (t.orderEntries column keys)).map OrderEntry.key =
      t.stableSort column descending keys := by
  let entry : Bytes × Nat → OrderEntry := fun p => ⟨p.1, t.orderValue column p.1, p.2⟩
  let le : Bytes → Bytes → Bool := fun a b =>
    !valueBefore descending (t.orderValue column b) (t.orderValue column a)
  have hle : ∀ p q : Bytes × Nat,
      List.zipIdxLE le p q = !rankBefore descending (entry q) (entry p) := by
    intro p q
    rw [rankBefore_eq_tieBreak]
    simp only [List.zipIdxLE, le, tieBreak, entry]
    by_cases hqp : valueBefore descending (t.orderValue column q.1) (t.orderValue column p.1) = true
    · simp [hqp]
    by_cases hpq : valueBefore descending (t.orderValue column p.1) (t.orderValue column q.1) = true
    · simp [hqp, hpq]
    · simp only [hqp, hpq, Bool.not_false, if_true, Bool.false_eq_true, if_false]
      rw [← decide_not]
      exact decide_eq_decide.2 Nat.not_lt.symm
  have hmap := List.map_mergeSort (l := keys.zipIdx) (f := entry)
    (s := fun a b => !rankBefore descending b a) fun p _ q _ => hle p q
  calc (Sorter.merge.sort (rankBefore descending) (t.orderEntries column keys)).map OrderEntry.key
      = ((keys.zipIdx.mergeSort (List.zipIdxLE le)).map entry).map OrderEntry.key := by
        rw [hmap]
        rfl
    _ = (keys.zipIdx.mergeSort (List.zipIdxLE le)).map (·.1) := by
        rw [List.map_map]
        rfl
    _ = t.stableSort column descending keys := List.mergeSort_zipIdx

/-- **Selecting the best keys is the start of the stable sort.** With a cap of at least one, ORDER
BY on an INT, TEXT or BOOL column returns the first keys of the stable sort of all of them, without
a cap all. -/
theorem orderKeys_eq_stableSort (env : Env) (hs : env.sorter.Sorts) (t : Table) (keys : List Bytes)
    (column : Bytes) (descending : Bool) {ty : ColType} (hty : ty ≠ .float)
    (hcells : ∀ key ∈ keys, (t.orderValue column key).InColumn ty) :
    (∀ k, 1 ≤ k → orderKeys env t keys column descending (some k) =
        .ok ((t.stableSort column descending keys).take k)) ∧
      orderKeys env t keys column descending none = .ok (t.stableSort column descending keys) := by
  have hplaced : Placed (t.orderEntries column keys) := Table.placed_orderEntries column keys
  have ho : Orders (rankBefore descending) (t.orderEntries column keys) := by
    refine orders_rankBefore hty descending fun e he => ?_
    obtain ⟨⟨key, i⟩, hi, rfl⟩ := List.mem_map.1 he
    exact hcells key (List.fst_mem_of_mem_zipIdx hi)
  have hall : (env.sorter.sort (rankBefore descending) (t.orderEntries column keys)).map
      OrderEntry.key = t.stableSort column descending keys := by
    rw [sort_unique hs Sorter.merge_sorts hplaced ho, merge_orderEntries]
  have hlength : (t.orderEntries column keys).length = keys.length := by
    simp [Table.orderEntries]
  refine ⟨fun k hk => ?_, congrArg Except.ok hall⟩
  show (capEntries (t.orderEntries column keys) (some k) descending).bind _ = _
  unfold capEntries
  simp only
  split
  · next hlt =>
    obtain ⟨best, hbest, hsort⟩ := sort_topKEntries hs hplaced hk (Nat.le_of_lt hlt) ho
    rw [hbest]
    show Except.ok ((env.sorter.sort (rankBefore descending) best).map OrderEntry.key) = _
    rw [hsort, List.map_take, hall]
  · next hle =>
    have hshort : (t.stableSort column descending keys).length ≤ k := by
      rw [Table.stableSort, (List.mergeSort_perm keys _).length_eq, ← hlength]
      exact Nat.not_lt.1 hle
    rw [List.take_of_length_le hshort]
    exact congrArg Except.ok hall

def fourRows : Database :=
  Database.runAll {} (script ["CREATE TABLE t (id TEXT PRIMARY KEY, v INT)",
    "INSERT INTO t VALUES ('a', 2), ('b', 5), ('c', 5), ('d', NULL)"])

/-- The best three of four rows, one of them with NULL and two with the same number. -/
theorem orderKeys_eq_stableSort_three : ∃ t, fourRows.tables.get? (str "t") = some t ∧
    (["c", "a", "b", "d"].map fun key => t.orderValue (str "v") (str key)) =
      [.int 5, .int 2, .int 5, .null] ∧
    orderKeys {} t (["c", "a", "b", "d"].map str) (str "v") true (some 3) =
      .ok ((t.stableSort (str "v") true (["c", "a", "b", "d"].map str)).take 3) := by
  have hcells : (fourRows.tables.get? (str "t")).map (fun t =>
      ["c", "a", "b", "d"].map fun key => t.orderValue (str "v") (str key)) =
      some [.int 5, .int 2, .int 5, .null] := by
    decide +kernel
  obtain ⟨t, ht, hvals⟩ := Option.map_eq_some_iff.1 hcells
  have hcolumn : ∀ key ∈ ["c", "a", "b", "d"].map str,
      (t.orderValue (str "v") key).InColumn .int := by
    simp only [List.map_cons, List.map_nil, List.cons.injEq] at hvals
    obtain ⟨hc, ha, hb, hd, -⟩ := hvals
    simp [hc, ha, hb, hd, Value.InColumn]
  have h := orderKeys_eq_stableSort {} Sorter.merge_sorts t (["c", "a", "b", "d"].map str)
    (str "v") true (by decide) hcolumn
  exact ⟨t, ht, hvals, h.1 3 (by decide)⟩

end SuperDB.Engine
