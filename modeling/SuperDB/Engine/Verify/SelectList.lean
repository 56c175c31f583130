import SuperDB.Engine.Verify.IndexLookup
import SuperDB.Engine.Verify.Quiet

/-!
# Select lists that begin with an aggregate

Without GROUP BY a select list that begins with an aggregate call is read from its first opening to
its last closing parenthesis. What comes before is the name of the aggregate and what is between is
its argument; what comes after is not looked at. So such a list is read in full exactly if it ends
with a closing parenthesis.
-/

namespace SuperDB.Engine

open Go

def AggKind.word : AggKind → Bytes
  | .count => str "COUNT"
  | .sum => str "SUM"
  | .min => str "MIN"
  | .max => str "MAX"
  | .avg => str "AVG"

/-- The select list is one aggregate call: the name in any case, and in parentheses a column of the
table, or `*` for COUNT. -/
def Table.WholeCall (t : Table) (kind : AggKind) (selectExpr : Bytes) : Prop :=
  ∃ word arg, selectExpr = word ++ ch '(' :: (arg ++ [ch ')']) ∧ word.map upperByte = kind.word ∧
    (kind = .count ∧ toLower (trimSpace arg) = str "*" ∨
      hasColumn t.columns (toLower (trimSpace arg)) = true)

section

variable {db : Database} {s : Bytes} {t : Table} {selectExpr : Bytes} {distinct : Bool}
  {tail : SelectTail} {kind : AggKind} {env : Env} {r : Result}

theorem Database.Reads.trimmed_list (h : db.Reads s t selectExpr distinct tail) :
    trimSpace selectExpr = selectExpr := by
  obtain ⟨fi, name, -, -, -, hexpr, -⟩ := h
  unfold splitDistinct at hexpr
  extract_lets blankAfter expr at hexpr
  by_cases hdistinct : (hasPrefixFold (trimSpace (slice s 6 fi)) (str "DISTINCT") && blankAfter) =
    true
  · rw [if_pos hdistinct] at hexpr
    by_cases hnil : expr = []
    · rw [if_pos hnil] at hexpr
      cases hexpr
    · rw [if_neg hnil] at hexpr
      obtain ⟨rfl, -⟩ := Prod.mk.inj (Except.ok.inj hexpr)
      exact trimSpace_trimSpace _
  · rw [if_neg hdistinct] at hexpr
    cases hexpr
    exact trimSpace_trimSpace _

theorem eq_append_of_hasPrefixFold {w : Bytes} (h : hasPrefixFold s (w ++ [ch '(']) = true) :
    ∃ word rest, s = word ++ ch '(' :: rest ∧ word.map upperByte = w := by
  obtain ⟨rest, hrest⟩ := foldEqualAt_iff.1 h
  rw [List.append_assoc, eq_comm] at hrest
  obtain ⟨word, s', rfl, hword, hs'⟩ := List.map_eq_append_iff.1 hrest
  obtain ⟨b, rest', rfl, hb, -⟩ := List.map_eq_cons_iff.1 hs'
  rw [eq_of_upperByte (by decide) hb]
  exact ⟨word, rest', rfl, hword⟩

theorem aggregateKind_parts (htrim : trimSpace selectExpr = selectExpr)
    (h : aggregateKind selectExpr = some kind) :
    ∃ word rest, selectExpr = word ++ ch '(' :: rest ∧ word.map upperByte = kind.word := by
  have hsplit : str "COUNT(" = AggKind.count.word ++ [ch '('] ∧ str "SUM(" = AggKind.sum.word ++
      [ch '('] ∧
      str "MIN(" = AggKind.min.word ++ [ch '('] ∧ str "MAX(" = AggKind.max.word ++ [ch '('] ∧
      str "AVG(" = AggKind.avg.word ++ [ch '('] := by
    refine ⟨?_, ?_, ?_, ?_, ?_⟩ <;> rw [AggKind.word, str_ofList, str_ofList] <;> decide
  obtain ⟨hcount, hsum, hmin, hmax, havg⟩ := hsplit
  unfold aggregateKind at h
  simp only [htrim, hcount, hsum, hmin, hmax, havg] at h
  split_ifs at h with h₁ h₂ h₃ h₄ h₅ <;> cases h
  · exact eq_append_of_hasPrefixFold h₁
  · exact eq_append_of_hasPrefixFold h₂
  · exact eq_append_of_hasPrefixFold h₃
  · exact eq_append_of_hasPrefixFold h₄
  · exact eq_append_of_hasPrefixFold h₅

theorem opening_not_mem_word {word : Bytes} (h : word.map upperByte = kind.word) :
    ch '(' ∉ word := by
  intro hmem
  have hup : upperByte (ch '(') ∈ kind.word := h ▸ List.mem_map_of_mem hmem
  revert hup
  cases kind <;> rw [AggKind.word, str_ofList] <;> decide

/-- What an aggregate that is accepted has between its first opening and its last closing
parenthesis. -/
theorem argument_of_aggregateResult (hok : t.aggregateResult env kind selectExpr tail.cond = .ok r)
    {opening closing : Nat} (hopen : indexByte (ch '(') selectExpr = some opening)
    (hclose : lastIndexByte (ch ')') selectExpr = some closing) :
    kind = .count ∧ toLower (trimSpace (slice selectExpr (opening + 1) closing)) = str "*" ∨
      hasColumn t.columns (toLower (trimSpace (slice selectExpr (opening + 1) closing))) =
        true := by
  rw [Table.aggregateResult_eq, Table.aggregatePlan, hopen, hclose] at hok
  simp only at hok
  split at hok
  · cases hok
  split at hok
  · cases hok
  split at hok
  · cases hok
  next hstar hcolumn =>
    by_cases hall : toLower (trimSpace (slice selectExpr (opening + 1) closing)) = str "*"
    · rw [not_and, not_not] at hstar
      exact .inl ⟨hstar hall, hall⟩
    · rw [not_and] at hcolumn
      exact .inr (by simpa using hcolumn hall)

theorem wholeCall_of_closed (htrim : trimSpace selectExpr = selectExpr)
    (hkind : aggregateKind selectExpr = some kind)
    (hok : t.aggregateResult env kind selectExpr tail.cond = .ok r)
    (hclosed : selectExpr.getLast? = some (ch ')')) : t.WholeCall kind selectExpr := by
  obtain ⟨word, rest, rfl, hword⟩ := aggregateKind_parts htrim hkind
  have hrest : rest ≠ [] := by
    rintro rfl
    rw [List.getLast?_concat] at hclosed
    exact absurd hclosed (by decide)
  obtain ⟨arg, b, rfl⟩ := (List.eq_nil_or_concat rest).resolve_left hrest
  rw [List.concat_eq_append] at *
  obtain rfl : b = ch ')' := by
    rw [← List.cons_append, ← List.append_assoc, List.getLast?_concat] at hclosed
    exact Option.some.inj hclosed
  have hlast : lastIndexByte (ch ')') (word ++ ch '(' :: (arg ++ [ch ')'])) =
      some (word.length + 1 + arg.length) := by
    rw [← List.cons_append, ← List.append_assoc, lastIndexByte_concat]
    simp only [List.length_append, List.length_cons]
    congr 1
    omega
  have harg :=
    argument_of_aggregateResult hok (indexByte_append (opening_not_mem_word hword) _) hlast
  rw [slice_between] at harg
  exact ⟨word, arg, rfl, hword, harg⟩

theorem Table.WholeCall.closed (h : t.WholeCall kind selectExpr) :
    selectExpr.getLast? = some (ch ')') := by
  obtain ⟨word, arg, rfl, -⟩ := h
  rw [← List.cons_append, ← List.append_assoc, List.getLast?_concat]

theorem aggregateResult_of_select (hgroup : tail.groupBy = [])
    (hkind : aggregateKind selectExpr = some kind)
    (hok : t.selectTable env selectExpr distinct tail = .ok r) :
    ∃ r', t.aggregateResult env kind selectExpr tail.cond = .ok r' := by
  unfold Table.selectTable at hok
  rw [if_neg (not_not.2 hgroup)] at hok
  split at hok
  · cases hok
  · rw [hkind] at hok
    obtain ⟨r', hr', -⟩ := bind_ok hok
    exact ⟨r', hr'⟩

/-- Of the select lists that begin with an aggregate call and are accepted without GROUP BY, those
that are one call are those that end with a closing parenthesis. -/
theorem aggregate_list_iff (hreads : db.Reads s t selectExpr distinct tail)
    (hgroup : tail.groupBy = [])
    (hkind : aggregateKind selectExpr = some kind) (hok : db.selectRows env s = .ok r) :
    t.WholeCall kind selectExpr ↔ selectExpr.getLast? = some (ch ')') := by
  rw [hreads.selectRows] at hok
  obtain ⟨r', hr'⟩ := aggregateResult_of_select hgroup hkind hok
  exact ⟨fun h => h.closed, fun h => wholeCall_of_closed hreads.trimmed_list hkind hr' h⟩

end

def oneColumn : Database :=
  Database.runAll {} (script ["CREATE TABLE t (v INT)", "INSERT INTO t VALUES (5), (6)"])

/-- The second item is dropped. -/
theorem aggregate_list_dropped :
    oneColumn.selectRows {} (str "SELECT COUNT(*), v FROM t") =
      .ok { columns := [str "count(*), v"], rows := [[.count 2]] } ∧
    aggregateKind (str "COUNT(*), v") = some .count ∧
    ∀ t : Table, ¬ t.WholeCall .count (str "COUNT(*), v") := by
  refine ⟨by decide +kernel, by decide +kernel, fun t h => ?_⟩
  exact absurd h.closed (by decide +kernel)

theorem aggregate_list_sum : ∃ t : Table,
    oneColumn.Reads (str "SELECT SUM( V ) FROM t") t (str "SUM( V )") false { headEnd := 1 } ∧
    aggregateKind (str "SUM( V )") = some .sum ∧
    oneColumn.selectRows {} (str "SELECT SUM( V ) FROM t") =
      .ok { columns := [str "sum( v )"], rows := [[.float (Float64.ofInt 11)]] } ∧
    t.WholeCall .sum (str "SUM( V )") := by
  obtain ⟨t, ht, hfrom, hok, hkind⟩ : ∃ t, oneColumn.table (str "t") = .ok t ∧
      oneColumn.readsFrom (str "SELECT SUM( V ) FROM t") (str "t") (str "SUM( V )") false
        { headEnd := 1 } ∧
      oneColumn.selectRows {} (str "SELECT SUM( V ) FROM t") =
        .ok { columns := [str "sum( v )"], rows := [[.float (Float64.ofInt 11)]] } ∧
      aggregateKind (str "SUM( V )") = some .sum := by
    decide +kernel
  have hreads := Database.reads_of_table ht hfrom
  have h := aggregate_list_iff hreads rfl hkind hok
  exact ⟨t, hreads, hkind, hok, h.2 (by decide +kernel)⟩

end SuperDB.Engine
