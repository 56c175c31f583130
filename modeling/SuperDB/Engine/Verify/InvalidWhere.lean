import SuperDB.Engine.Verify.RowCap

/-!
# Conditions that do not compile

A SELECT compiles its condition unless the text is a bare equality with the primary column, or one
with any column while the fast array is scanned; what those two take for a bare equality need not be
a condition. An invalid condition is reported exactly if it is compiled.
-/

namespace SuperDB.Engine

open Go

variable {s selectExpr : Bytes} {t : Table} {distinct : Bool}

/-! ## How a text reads -/

/-- The text is a query with these parts. -/
def Database.Reads (db : Database) (s : Bytes) (t : Table) (selectExpr : Bytes) (distinct : Bool)
    (tail : SelectTail) : Prop :=
  ∃ fi name, indexKeyword s (str "FROM") = some fi ∧
    firstField (trimSpace (s.drop (fi + 4))) = some name ∧ db.table name = .ok t ∧
    splitDistinct (trimSpace (slice s 6 fi)) = .ok (selectExpr, distinct) ∧
    parseSelectTail (trimSpace (s.drop (fi + 4))) = .ok tail ∧
    (fields ((trimSpace (s.drop (fi + 4))).take tail.headEnd)).length = 1

section Reads

variable {db : Database} {s : Bytes} {t : Table} {selectExpr : Bytes} {distinct : Bool}
  {tail : SelectTail}

theorem Database.Reads.selectRows (h : db.Reads s t selectExpr distinct tail) (env : Env) :
    db.selectRows env s = t.selectTable env selectExpr distinct tail := by
  obtain ⟨fi, name, hfrom, hname, ht, hexpr, htail, hhead⟩ := h
  unfold Database.selectRows
  simp only [hfrom, hname, ht, hexpr, htail]
  exact if_neg (not_not.2 hhead)

theorem Database.Reads.table (h : db.Reads s t selectExpr distinct tail) (name : Bytes)
    (hname : (indexKeyword s (str "FROM")).bind
      (fun fi => firstField (trimSpace (s.drop (fi + 4)))) =
      some name) : db.table name = .ok t := by
  obtain ⟨fi, name', hfrom, hname', ht, -⟩ := h
  rw [hfrom, Option.bind_some, hname'] at hname
  rw [← Option.some.inj hname, ht]

end Reads

def Database.reading (db : Database) (s : Bytes) : Option (Table × Bytes × Bool × SelectTail) := do
  let fi ← indexKeyword s (str "FROM")
  let name ← firstField (trimSpace (s.drop (fi + 4)))
  let t ← (db.table name).toOption
  let expr ← (splitDistinct (trimSpace (slice s 6 fi))).toOption
  let tail ← (parseSelectTail (trimSpace (s.drop (fi + 4)))).toOption
  if (fields ((trimSpace (s.drop (fi + 4))).take tail.headEnd)).length = 1 then
    some (t, expr.1, expr.2, tail)
  else none

theorem Database.reads_of_reading {db : Database} {tail : SelectTail}
    (h : db.reading s = some (t, selectExpr, distinct, tail)) :
    db.Reads s t selectExpr distinct tail := by
  obtain ⟨fi, hfrom, h⟩ := Option.bind_eq_some_iff.1 h
  obtain ⟨name, hname, h⟩ := Option.bind_eq_some_iff.1 h
  obtain ⟨t', ht, h⟩ := Option.bind_eq_some_iff.1 h
  obtain ⟨expr, hexpr, h⟩ := Option.bind_eq_some_iff.1 h
  obtain ⟨tail', htail, h⟩ := Option.bind_eq_some_iff.1 h
  split at h
  · next hhead =>
    cases h
    exact ⟨fi, name, hfrom, hname, toOption_eq_some ht, toOption_eq_some hexpr,
      toOption_eq_some htail, hhead⟩
  · cases h

/-- What a text reads, with its table by name. -/
def Database.readsFrom (db : Database) (s name selectExpr : Bytes) (distinct : Bool)
    (tail : SelectTail) : Prop :=
  (indexKeyword s (str "FROM")).bind (fun fi => firstField (trimSpace (s.drop (fi + 4)))) =
    some name ∧ (db.reading s).map (·.2) = some (selectExpr, distinct, tail)
deriving Decidable

theorem Database.reads_of_table {db : Database} {name : Bytes} {tail : SelectTail}
    (ht : db.table name = .ok t) (h : db.readsFrom s name selectExpr distinct tail) :
    db.Reads s t selectExpr distinct tail := by
  obtain ⟨hname, h⟩ := h
  obtain ⟨⟨t', p⟩, hreading, rfl⟩ := Option.map_eq_some_iff.1 h
  have hreads := Database.reads_of_reading hreading
  have ht' := hreads.table name hname
  rw [ht] at ht'
  cases ht'
  exact hreads

/-- A property of a table of a database can be decided. -/
instance {db : Database} {name : Bytes} {P : Table → Prop} [DecidablePred P] :
    Decidable (∃ t, db.table name = .ok t ∧ P t) :=
  decidable_of_iff (∃ t ∈ (db.table name).toOption, P t)
    ⟨fun ⟨t, ht, h⟩ => ⟨t, toOption_eq_some ht, h⟩, fun ⟨t, ht, h⟩ => ⟨t, by rw [ht]; rfl, h⟩⟩

namespace Table

def selectNames (selectExpr : Bytes) (t : Table) : List Bytes :=
  if selectExpr = str "*" then t.columns.map (·.name)
  else (selectExpr.splitOn (ch ',')).map fun x => toLower (trimSpace x)

/-- The select list names columns of the table, and nothing is grouped. -/
def Projects (selectExpr : Bytes) (tail : SelectTail) (t : Table) : Prop :=
  tail.groupBy = [] ∧ aggregateKind selectExpr = none ∧
    ∀ name ∈ t.selectNames selectExpr, hasColumn t.columns name = true

instance (selectExpr : Bytes) (tail : SelectTail) (t : Table) :
    Decidable (t.Projects selectExpr tail) :=
  inferInstanceAs (Decidable (_ ∧ _ ∧ _))

/-- The condition is taken for a bare equality with the primary column, the empty name if there is
none, or for one with any column while the fast array is scanned. -/
def skipsWhere (tail : SelectTail) (t : Table) : Bool :=
  (simpleEquality tail.cond).any (·.1 = t.primaryColumn) ||
    (decide (t.fast ≠ [] ∧ tail.orderColumn = []) && (simpleFastTerm tail.cond t).isSome)

def badOrder (tail : SelectTail) (t : Table) : Bool :=
  decide (tail.orderColumn ≠ []) && !hasColumn t.columns tail.orderColumn

section Projects

variable {env : Env} {t : Table} {selectExpr : Bytes} {distinct : Bool} {tail : SelectTail}

theorem selectTable_badOrder (h : t.Projects selectExpr tail) (hbad : t.badOrder tail = true) :
    t.selectTable env selectExpr distinct tail =
      .error (faultWith "ORDER BY column not found: " tail.orderColumn) := by
  unfold badOrder at hbad
  rw [Bool.and_eq_true, decide_eq_true_eq] at hbad
  unfold selectTable
  rw [if_neg (not_not.2 h.1), if_pos hbad]

theorem selectTable_projects (h : t.Projects selectExpr tail) (hbad : t.badOrder tail = false) :
    t.selectTable env selectExpr distinct tail =
      t.selectPlain env ⟨t.selectNames selectExpr, distinct, tail⟩ := by
  obtain ⟨hgroup, hagg, hnames⟩ := h
  have horder : ¬(tail.orderColumn ≠ [] ∧ (!hasColumn t.columns tail.orderColumn) = true) := by
    rintro ⟨hne, hmissing⟩
    rw [badOrder, decide_eq_true hne, hmissing] at hbad
    cases hbad
  have hfind : (t.selectNames selectExpr).find? (!hasColumn t.columns ·) = none := by
    rw [List.find?_eq_none]
    intro name hname
    rw [hnames name hname]
    exact Bool.false_ne_true
  unfold selectTable
  rw [if_neg (not_not.2 hgroup), if_neg horder]
  simp only [hagg]
  unfold selectNames at hfind
  simp only [hfind]
  rfl

end Projects

section Where

variable {env : Env} {t : Table} {q : Query}

theorem selectPlain_invalid (hcond : compileCondition q.tail.cond t.columns = none)
    (h : t.skipsWhere q.tail = false) :
    t.selectPlain env q = .error (fault "invalid WHERE expression") := by
  unfold skipsWhere at h
  rw [Bool.or_eq_false_iff, Bool.and_eq_false_iff] at h
  obtain ⟨hkey, hfast⟩ := h
  have hne : q.tail.cond ≠ [] := by
    intro hnil
    rw [hnil] at hcond
    cases hcond
  have hsimple : (t.simpleKey q.tail.cond).filter (·.1 = t.primaryColumn) = none := by
    unfold simpleKey
    cases hp : simpleEquality q.tail.cond with
    | none => rfl
    | some p =>
      rw [hp, Option.any_some] at hkey
      simp [Option.filter, of_decide_eq_false hkey]
  have huse : t.termFor q = none ∨ q.tail.orderColumn ≠ [] := by
    unfold termFor
    by_cases horder : q.tail.orderColumn = []
    · left
      split
      · rfl
      · next hrows =>
        rcases hfast with hscan | hterm
        · exact absurd ⟨hrows, horder⟩ (of_decide_eq_false hscan)
        · exact Option.not_isSome_iff_eq_none.1 (Bool.eq_false_iff.1 hterm)
    · exact Or.inr horder
  have hcompile : t.compileFor q (t.termFor q) = .error (fault "invalid WHERE expression") := by
    unfold compileFor
    rw [if_pos ⟨hne, huse⟩, hcond]
  rw [selectPlain_eq]
  unfold path
  rw [hsimple]
  simp only
  split
  · simp only [selectBy, hcompile]
    rfl
  · split
    · simp only [selectBy, hcompile]
      rfl
    · simp only [selectBy, hcompile]
      rfl

theorem loopResult_live {σ α : Type} (henv : env.Live) {body : σ → α → Ctl σ Fault}
    (hbody : ∀ s a f, body s a ≠ .fail f) (n : Nat) (l : List α) (s : σ) :
    ∃ s', loopResult (rangeLoop env.scanTick body n l s) = .ok s' := by
  cases hloop : rangeLoop env.scanTick body n l s with
  | mk s' e =>
    cases e with
    | none => exact ⟨s', rfl⟩
    | some f =>
      have herror : (rangeLoop env.scanTick body n l s).2 = some f := by rw [hloop]
      have hnever : False := rangeLoop_error (P := fun _ => False)
        (fun n f hf => by rw [henv.scanTick] at hf; cases hf) hbody herror
      exact hnever.elim

theorem fastScanStep_ne_fail (cap : Option Nat) (term : Option FastTerm)
    (compiled : CompiledCondition) (c : Collected (List Value)) (row : FastRow) (f : Fault) :
    t.fastScanStep q cap term compiled c row ≠ .fail f := by
  unfold fastScanStep
  simp only
  split_ifs <;> exact fun h => by cases h

theorem bucketStep_ne_fail (cap : Option Nat) (column : Bytes) (term : Option FastTerm)
    (compiled : CompiledCondition) (c : Collected Bytes) (key : Bytes) (f : Fault) :
    t.bucketStep q cap column term compiled c key ≠ .fail f := by
  unfold bucketStep
  split_ifs <;> exact fun h => by cases h

theorem finishKeys_unordered (hrows : env.maxRows = 0) (horder : q.tail.orderColumn = [])
    (cap : Option Nat) (keys : List Bytes) :
    t.finishKeys env q cap keys = .ok
      { columns := q.names
        rows := applyOffset q.tail.offset (t.materialize q cap (cutKeys q cap keys)) } := by
  rw [finishKeys_eq, orderedKeys, if_pos horder, hrows]
  exact capResultRows_zero _

section Answered

variable (henv : env.Live) (hrows : env.maxRows = 0)

include henv hrows

theorem selectBucket_answered (horder : q.tail.orderColumn = []) (cap : Option Nat)
    (column value : Bytes) (term : Option FastTerm) (compiled : CompiledCondition) :
    ∃ r, t.selectBucket env q cap column value term compiled = .ok r := by
  obtain ⟨c, hc⟩ := loopResult_live henv
    (fun c key f => bucketStep_ne_fail (t := t) (q := q) cap column term compiled c key f) 0
    (t.bucket env column value) {}
  exact ⟨_, ok_bind hc (finishKeys_unordered hrows horder cap _)⟩

theorem selectFast_answered (cap : Option Nat) (term : Option FastTerm)
    (compiled : CompiledCondition) : ∃ r, t.selectFast env q cap term compiled = .ok r := by
  unfold selectFast
  split
  · exact ⟨_, rfl⟩
  · obtain ⟨c, hc⟩ := loopResult_live henv
      (fun c row f => fastScanStep_ne_fail (t := t) (q := q) cap term compiled c row f) 0 t.fast {}
    rw [hrows]
    exact ⟨_, ok_bind hc (capResultRows_zero _)⟩

theorem selectPlain_answered (h : t.skipsWhere q.tail = true) :
    ∃ r, t.selectPlain env q = .ok r := by
  unfold skipsWhere at h
  rw [selectPlain_eq]
  unfold path
  cases hkey : (t.simpleKey q.tail.cond).filter (·.1 = t.primaryColumn) with
  | some p => exact ⟨_, rfl⟩
  | none =>
    have hnot : (simpleEquality q.tail.cond).any (·.1 = t.primaryColumn) = false := by
      unfold simpleKey at hkey
      cases hp : simpleEquality q.tail.cond with
      | none => rfl
      | some p =>
        rw [hp, Option.map_some] at hkey
        rw [Option.any_some]
        by_contra hyes
        rw [Bool.not_eq_false, decide_eq_true_eq] at hyes
        simp [Option.filter, hyes] at hkey
    rw [hnot, Bool.false_or, Bool.and_eq_true, decide_eq_true_eq] at h
    obtain ⟨hscan, hterm⟩ := h
    have hcompile : t.compileFor q (t.termFor q) = .ok [] := by
      unfold compileFor termFor
      rw [if_neg hscan.1]
      refine if_neg ?_
      rintro ⟨-, hnone | hne⟩
      · rw [hnone] at hterm
        cases hterm
      · exact hne hscan.2
    simp only
    split
    · next column value hbucket =>
      obtain ⟨r, hr⟩ := selectBucket_answered henv hrows hscan.2
        (rowCap env.maxRows q.tail.limit q.tail.offset) column value (t.termFor q) []
      exact ⟨r, ok_bind hcompile hr⟩
    · rw [if_pos hscan]
      obtain ⟨r, hr⟩ := selectFast_answered henv hrows
        (rowCap env.maxRows q.tail.limit q.tail.offset) (t.termFor q) []
      exact ⟨r, ok_bind hcompile hr⟩

end Answered

end Where

end Table

/-- A SELECT of columns whose condition does not compile fails if the condition is compiled, or if
its ORDER BY column is not there; otherwise it is answered, unless it is cancelled or exceeds a row
cap. -/
theorem invalid_where_iff {db : Database} {tail : SelectTail}
    (hread : db.Reads s t selectExpr distinct tail) (hprojects : t.Projects selectExpr tail)
    (hcond : compileCondition tail.cond t.columns = none) (env : Env) :
    ((t.badOrder tail || !t.skipsWhere tail) = true → ∃ f, db.selectRows env s = .error f) ∧
    (env.Live → env.maxRows = 0 → ((∃ f, db.selectRows env s = .error f) ↔
      (t.badOrder tail || !t.skipsWhere tail) = true)) := by
  have hfails : (t.badOrder tail || !t.skipsWhere tail) = true →
      ∃ f, db.selectRows env s = .error f := by
    intro h
    rw [hread.selectRows]
    cases hbad : t.badOrder tail with
    | true => exact ⟨_, Table.selectTable_badOrder hprojects hbad⟩
    | false =>
      rw [hbad, Bool.false_or, Bool.not_eq_true'] at h
      rw [Table.selectTable_projects hprojects hbad]
      exact ⟨_, Table.selectPlain_invalid hcond h⟩
  refine ⟨hfails, fun henv hrows => ⟨?_, hfails⟩⟩
  rintro ⟨f, hf⟩
  by_contra hno
  rw [Bool.not_eq_true, Bool.or_eq_false_iff, Bool.not_eq_false'] at hno
  rw [hread.selectRows, Table.selectTable_projects hprojects hno.1] at hf
  obtain ⟨r, hr⟩ := Table.selectPlain_answered (q := ⟨t.selectNames selectExpr, distinct, tail⟩)
    henv hrows hno.2
  rw [hr] at hf
  cases hf

def keyed : Database := Database.runAll {} (script ["CREATE TABLE t (id INT PRIMARY KEY)"])

/-- Without a value behind the equals sign there is no condition, yet the query has a result. -/
theorem invalid_where_blank :
    (keyed.tables[str "t"]?.map fun t => compileCondition (str "id =") t.columns) = some none ∧
    keyed.selectRows {} (str "SELECT id FROM t WHERE id =") = .ok { columns := [str "id"] } := by
  decide +kernel

theorem invalid_where_unknown : ∃ t tail, keyed.Reads (str "SELECT id FROM t WHERE x = 1") t
      (str "id") false tail ∧ t.Projects (str "id") tail ∧
      compileCondition tail.cond t.columns = none ∧
      ∃ f, keyed.selectRows {} (str "SELECT id FROM t WHERE x = 1") = .error f := by
  obtain ⟨t, ht, hread, hprojects, hinvalid, hskips⟩ : ∃ t, keyed.table (str "t") = .ok t ∧
      keyed.readsFrom (str "SELECT id FROM t WHERE x = 1") (str "t") (str "id") false
        { cond := str "x = 1", headEnd := 2 } ∧
      t.Projects (str "id") { cond := str "x = 1", headEnd := 2 } ∧
      compileCondition (str "x = 1") t.columns = none ∧
      t.skipsWhere { cond := str "x = 1", headEnd := 2 } = false := by
    decide +kernel
  have hread := Database.reads_of_table ht hread
  refine ⟨t, _, hread, hprojects, hinvalid, (invalid_where_iff hread hprojects hinvalid {}).1 ?_⟩
  rw [hskips, Bool.not_false, Bool.or_true]

end SuperDB.Engine
