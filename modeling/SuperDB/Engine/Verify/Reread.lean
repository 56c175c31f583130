import SuperDB.Engine.Verify.Replay
import SuperDB.Engine.Verify.FastInv

/-!
# Reading statements again

Only INSERT ... SELECT reads more of a database than the columns of its table. The rows it selects
are the same again unless they come from the bucket of a secondary index, whose keys are visited in
the order of map iteration.
-/

namespace SuperDB.Engine

open Go

/-! ## Databases with the same copies -/

/-- Databases that agree on everything a copy keeps. -/
def Database.Same (db db' : Database) : Prop := db.cloneImage = db'.cloneImage

section Same

variable {env env' : Env} {db db' : Database}

theorem Database.same_iff :
    db.Same db' ↔ ∀ name : Bytes,
      db.tables[name]?.map Table.cloneLocked = db'.tables[name]?.map Table.cloneLocked := by
  constructor
  · intro h name
    have hget := congrArg (fun d : Database => d.tables[name]?) h
    simpa only [Database.cloneImage, Map.get?_map] using hget
  · intro h
    unfold Database.Same Database.cloneImage
    congr 1
    apply Map.ext_get?
    intro name
    rw [Map.get?_map, Map.get?_map]
    exact h name

theorem Database.Same.refl (db : Database) : db.Same db := rfl

theorem Database.Same.symm (h : db.Same db') : db'.Same db := Eq.symm h

theorem Database.Same.trans {db'' : Database} (h : db.Same db') (h' : db'.Same db'') :
    db.Same db'' := Eq.trans h h'

theorem Database.Same.get? (h : db.Same db') {name : Bytes} {t : Table}
    (ht : db.tables[name]? = some t) :
    ∃ t', db'.tables[name]? = some t' ∧ t.cloneLocked = t'.cloneLocked := by
  have hname := Database.same_iff.1 h name
  rw [ht] at hname
  obtain ⟨t', ht', e⟩ := Option.map_eq_some_iff.1 hname.symm
  exact ⟨t', ht', e.symm⟩

theorem Database.Same.get?_none (h : db.Same db') {name : Bytes} (ht : db.tables[name]? = none) :
    db'.tables[name]? = none := by
  have hname := Database.same_iff.1 h name
  rw [ht] at hname
  exact Option.map_eq_none_iff.1 hname.symm

theorem Database.Same.mem_iff (h : db.Same db') {name : Bytes} :
    name ∈ db.tables ↔ name ∈ db'.tables := by
  constructor
  · intro hmem
    obtain ⟨t, ht⟩ := Map.mem_iff.1 hmem
    obtain ⟨t', ht', -⟩ := h.get? ht
    exact Map.mem_of_get? ht'
  · intro hmem
    obtain ⟨t, ht⟩ := Map.mem_iff.1 hmem
    obtain ⟨t', ht', -⟩ := h.symm.get? ht
    exact Map.mem_of_get? ht'

theorem Database.Same.insert (h : db.Same db') {t t' : Table} (name : Bytes)
    (ht : t.cloneLocked = t'.cloneLocked) :
    Database.Same { db with tables := db.tables.insert name t }
      { db' with tables := db'.tables.insert name t' } := by
  rw [Database.same_iff] at h ⊢
  intro a
  simp only [Map.get?_insert]
  split
  · simp only [Option.map_some, ht]
  · exact h a

theorem Database.Same.erase (h : db.Same db') (name : Bytes) :
    Database.Same { db with tables := db.tables.erase name }
      { db' with tables := db'.tables.erase name } := by
  rw [Database.same_iff] at h ⊢
  intro a
  simp only [Map.get?_erase]
  split
  · rfl
  · exact h a

/-- **Running a statement again**, in another order of map iteration and on a copy, gives the same
reply and leaves a copy of the same database. -/
theorem Stmt.run_same (henv : env.Twin env') (h : db.Same db') (stmt : Stmt) :
    (stmt.run env db).1 = (stmt.run env' db').1 ∧
      (stmt.run env db).2.Same (stmt.run env' db').2 := by
  cases stmt with
  | create name columns =>
    simp only [Stmt.run]
    by_cases hmem : name ∈ db.tables
    · rw [if_pos hmem, if_pos (h.mem_iff.1 hmem)]
      exact ⟨rfl, h⟩
    · rw [if_neg hmem, if_neg fun hm => hmem (h.mem_iff.2 hm)]
      exact ⟨rfl, h.insert name rfl⟩
  | dropTable name ifExists =>
    simp only [Stmt.run]
    by_cases hmem : name ∈ db.tables
    · rw [if_pos hmem, if_pos (h.mem_iff.1 hmem)]
      exact ⟨rfl, h.erase name⟩
    · rw [if_neg hmem, if_neg fun hm => hmem (h.mem_iff.2 hm)]
      split_ifs
      · exact ⟨rfl, h⟩
      · exact ⟨rfl, h⟩
  | table name op =>
    simp only [Stmt.run]
    cases ht : db.tables[name]? with
    | none =>
      rw [h.get?_none ht]
      exact ⟨rfl, h⟩
    | some t =>
      obtain ⟨t', ht', hclone⟩ := h.get? ht
      rw [ht']
      have hrun := op.run_clone env t
      have hrun' := op.run_clone env t'
      rw [hclone, hrun'.1, hrun'.2, op.run_twin henv t'] at hrun
      exact ⟨hrun.1.symm, h.insert name hrun.2.symm⟩
  | reply r => exact ⟨rfl, h⟩

end Same

/-! ## Statements that only read columns -/

def insertQuery (s : Bytes) : Option Bytes :=
  match indexKeyword s (str "VALUES"), indexKeyword s (str "SELECT") with
  | none, some si => some (trimSpace (s.drop si))
  | some vi, some si => if si < vi then some (trimSpace (s.drop si)) else none
  | _, none => none

section Columns

variable {env env' : Env} {db db' : Database} {s : Bytes}

theorem Table.columns_eq_of_clone {t t' : Table} (h : t.cloneLocked = t'.cloneLocked) :
    t.columns = t'.columns := by
  have hclear := congrArg Table.clearFast h
  rw [Table.clearFast_cloneLocked, Table.clearFast_cloneLocked] at hclear
  rw [← t.clearFast_columns, hclear, Table.clearFast_columns]

theorem Database.Same.bind_table {β : Type} (h : db.Same db') {name : Bytes}
    {f f' : Table → Except Fault β}
    (hf : ∀ t t' : Table, db.tables[toLower name]? = some t → db'.tables[toLower name]? = some t' →
      t.cloneLocked = t'.cloneLocked → f t = f' t') :
    (db.table name >>= f) = (db'.table name >>= f') := by
  unfold Database.table
  cases ht : db.tables[toLower name]? with
  | none =>
    rw [h.get?_none ht]
    rfl
  | some t =>
    obtain ⟨t', ht', hclone⟩ := h.get? ht
    rw [ht']
    exact hf t t' ht ht' hclone

/-- Both have the same tables and columns. -/
def Database.Headed (db db' : Database) : Prop :=
  ∀ name : Bytes, db.tables[name]?.map Table.columns = db'.tables[name]?.map Table.columns

theorem Database.Same.headed (h : db.Same db') : db.Headed db' := by
  intro name
  cases ht : db.tables[name]? with
  | none =>
    rw [h.get?_none ht]
  | some t =>
    obtain ⟨t', ht', hclone⟩ := h.get? ht
    rw [ht', Option.map_some, Option.map_some, Table.columns_eq_of_clone hclone]

theorem Database.Headed.bind_table {β : Type} (h : db.Headed db') {name : Bytes}
    {f f' : Table → Except Fault β} (hf : ∀ t t' : Table, t.columns = t'.columns → f t = f' t') :
    (db.table name >>= f) = (db'.table name >>= f') := by
  have hname := h (toLower name)
  unfold Database.table
  cases ht : db.tables[toLower name]? <;> cases ht' : db'.tables[toLower name]? <;>
    rw [ht, ht'] at hname
  · rfl
  · cases hname
  · cases hname
  · exact hf _ _ (Option.some.inj hname)

theorem Database.Headed.onTable (h : db.Headed db') (name : Bytes) (op : TableOp) :
    db.onTable name op = db'.onTable name op :=
  h.bind_table fun _ _ _ => rfl

theorem Database.Headed.createIndexStmt (h : db.Headed db') (s : Bytes) :
    db.createIndexStmt s = db'.createIndexStmt s := by
  simp only [Database.createIndexStmt, h.onTable]

theorem Database.Headed.alterTableStmt (h : db.Headed db') (s : Bytes) :
    db.alterTableStmt s = db'.alterTableStmt s := by
  unfold Database.alterTableStmt
  simp only [h.onTable]
  split
  · split
    · rfl
    · split
      · split
        · exact h.bind_table fun _ _ _ => rfl
        · rfl
      · rfl
  · rfl

theorem Database.Headed.dropStmt (h : db.Headed db') (s : Bytes) : db.dropStmt s =
    db'.dropStmt s := by
  simp only [Database.dropStmt, Database.dropIndexStmt, h.onTable]

theorem Database.Headed.truncateStmt (h : db.Headed db') (s : Bytes) :
    db.truncateStmt s = db'.truncateStmt s := by
  simp only [Database.truncateStmt, h.onTable]

theorem Database.Headed.insertValuesStmt (h : db.Headed db') (off start : Nat) (replace : Bool) :
    db.insertValuesStmt s off start replace = db'.insertValuesStmt s off start replace := by
  unfold Database.insertValuesStmt
  split
  · rfl
  · exact h.bind_table fun t t' e => by rw [e]

theorem Database.Headed.updateStmt (h : db.Headed db') (s : Bytes) :
    db.updateStmt s = db'.updateStmt s := by
  unfold Database.updateStmt
  split
  · rfl
  · split
    · exact h.bind_table fun t t' e => by rw [e]
    · rfl

theorem Database.Headed.deleteStmt (h : db.Headed db') (s : Bytes) :
    db.deleteStmt s = db'.deleteStmt s := by
  unfold Database.deleteStmt
  split
  · rfl
  · exact h.bind_table fun t t' e => by rw [e]

theorem Database.Headed.insertStmt (h : db.Headed db')
    (hquery : ∀ query, insertQuery s = some query →
      db.selectRows env query = db'.selectRows env' query) :
    db.insertStmt env s = db'.insertStmt env' s := by
  have hselect : ∀ (off start : Nat) (replace : Bool),
      insertQuery s = some (trimSpace (s.drop start)) →
      db.insertSelectStmt env s off start replace =
        db'.insertSelectStmt env' s off start replace := by
    intro off start replace hq
    unfold Database.insertSelectStmt
    split
    · rfl
    · exact h.bind_table fun t t' e => by rw [e, hquery _ hq]
  unfold Database.insertStmt
  unfold insertQuery at hselect
  cases insertBody s with
  | error f => rfl
  | ok p =>
    cases hv : indexKeyword s (str "VALUES") with
    | none =>
      cases hs : indexKeyword s (str "SELECT") with
      | none => rfl
      | some si =>
        rw [hv, hs] at hselect
        exact hselect _ si _ rfl
    | some vi =>
      cases hs : indexKeyword s (str "SELECT") with
      | none => exact h.insertValuesStmt _ vi _
      | some si =>
        rw [hv, hs] at hselect
        show (if si < vi then _ else _) = (if si < vi then _ else _)
        by_cases hlt : si < vi
        · rw [if_pos hlt, if_pos hlt]
          exact hselect _ si _ (if_pos hlt)
        · rw [if_neg hlt, if_neg hlt]
          exact h.insertValuesStmt _ vi _

end Columns

/-! ## Queries -/

namespace Table

/-- The index bucket that serves a condition; empty where no index does. -/
def servingBucket (cond : Bytes) (t : Table) : StrSet :=
  match (t.simpleKey cond).filter (·.1 ≠ t.primaryColumn) with
  | some (column, value) => (t.indexes.getD column ∅).getD value ∅
  | none => ∅

/-- Whether the rows of a query may come in the order of map iteration: two or more keys of an
index bucket are visited. A count through an index looks at what a copy leaves out, so one key is
enough for an aggregate. -/
def scattered (selectExpr : Bytes) (tail : SelectTail) (t : Table) : Bool :=
  tail.groupBy = [] &&
    (if aggregateKind selectExpr = none then 1 else 0) < (t.servingBucket tail.cond).size

/-- Whether a query counts the rows of an index bucket. The count looks at the column positions of
the fast array, which a copy of a table without an array leaves out. -/
def counted (selectExpr : Bytes) (tail : SelectTail) (t : Table) : Bool :=
  tail.groupBy = [] && aggregateKind selectExpr =
    some .count && 0 < (t.servingBucket tail.cond).size

theorem counted_of_scattered {selectExpr : Bytes} {tail : SelectTail} {t : Table}
    (h : t.scattered selectExpr tail = false) : t.counted selectExpr tail = false := by
  unfold scattered at h
  unfold counted
  by_cases hkind : aggregateKind selectExpr = some .count
  · simpa [hkind] using h
  · simp [hkind]

section Bucket

variable {t : Table}

theorem range_of_size_le_one {V : Type} (o o' : MapOrder) {m : Map V} (h : m.size ≤ 1) :
    o.range m = o'.range m := by
  have hperm := range_perm_range o o' m
  have hlen : (o.range m).length ≤ 1 := by
    rw [(o.range_perm m).length_eq, Std.ExtTreeMap.length_keys]
    exact h
  rcases hl : o.range m with _ | ⟨a, _ | ⟨b, l⟩⟩
  · rw [hl] at hperm
    exact (List.nil_perm.1 hperm).symm
  · rw [hl] at hperm
    exact List.singleton_perm.1 hperm
  · rw [hl] at hlen
    simp at hlen

end Bucket

/-! ### The path of a plain SELECT -/

/-- How a plain SELECT finds its rows. -/
inductive Path where
  | key (key : Bytes)
  | bucket (column value : Bytes)
  | fast
  | order

def path (q : Query) (t : Table) : Path :=
  match (t.simpleKey q.tail.cond).filter (·.1 = t.primaryColumn) with
  | some (_, key) => .key key
  | none =>
    match (t.simpleKey q.tail.cond).filter (·.1 ∈ t.indexes) with
    | some (column, value) => .bucket column value
    | none => if t.fast ≠ [] ∧ q.tail.orderColumn = [] then .fast else .order

/-- The term of a bare equality, if there is a fast array. -/
def termFor (q : Query) (t : Table) : Option FastTerm :=
  if t.fast = [] then none else simpleFastTerm q.tail.cond t

def selectBy (env : Env) (q : Query) (t : Table) : Path → Except Fault Result
  | .key key => .ok (t.selectKey q key)
  | .bucket column value => do
    let compiled ← t.compileFor q (t.termFor q)
    t.selectBucket env q (rowCap env.maxRows q.tail.limit q.tail.offset) column value (t.termFor q)
      compiled
  | .fast => do
    let compiled ← t.compileFor q (t.termFor q)
    t.selectFast env q (rowCap env.maxRows q.tail.limit q.tail.offset) (t.termFor q) compiled
  | .order => do
    let compiled ← t.compileFor q (t.termFor q)
    t.selectOrder env q (rowCap env.maxRows q.tail.limit q.tail.offset) compiled

section Path

variable {t : Table} {q : Query}

theorem selectPlain_eq (env : Env) (q : Query) (t : Table) :
    t.selectPlain env q = t.selectBy env q (t.path q) := by
  unfold selectPlain path
  simp only
  cases (t.simpleKey q.tail.cond).filter (·.1 = t.primaryColumn) with
  | some p => rfl
  | none =>
    cases (t.simpleKey q.tail.cond).filter (·.1 ∈ t.indexes) with
    | some p => rfl
    | none =>
      by_cases hfast : t.fast ≠ [] ∧ q.tail.orderColumn = []
      · simp only [if_pos hfast]
        rfl
      · simp only [if_neg hfast]
        rfl

theorem servingBucket_of_path {column value : Bytes} (h : t.path q = .bucket column value) :
    t.servingBucket q.tail.cond = (t.indexes.getD column ∅).getD value ∅ := by
  unfold path at h
  unfold servingBucket
  cases hs : t.simpleKey q.tail.cond with
  | none =>
    simp only [hs, Option.filter] at h
    split at h <;> cases h
  | some p =>
    by_cases hpk : p.1 = t.primaryColumn
    · simp [hs, Option.filter, hpk] at h
    · by_cases hin : p.1 ∈ t.indexes
      · simp only [hs, Option.filter, hpk, hin, decide_false, decide_true, Bool.false_eq_true,
          if_false, if_true, Path.bucket.injEq] at h
        obtain ⟨rfl, rfl⟩ := h
        simp [Option.filter, hpk]
      · simp only [hs, Option.filter, hpk, hin, decide_false, Bool.false_eq_true, if_false] at h
        split at h <;> cases h

end Path

/-! ### The order of map iteration -/

section Order

variable {t : Table}

theorem selectPlain_order (env : Env) (o : MapOrder) (q : Query)
    (h : (t.servingBucket q.tail.cond).size ≤ 1) :
    t.selectPlain { env with order := o } q = t.selectPlain env q := by
  rw [selectPlain_eq, selectPlain_eq]
  cases hpath : t.path q with
  | key key => rfl
  | bucket column value =>
    rw [servingBucket_of_path hpath] at h
    have hbucket : t.bucket { env with order := o } column value = t.bucket env column value :=
      range_of_size_le_one _ _ h
    simp only [selectBy, selectBucket, hbucket]
    rfl
  | fast => rfl
  | order => rfl

theorem servingBucket_eq {cond column value : Bytes} (h : t.simpleKey cond = some (column, value))
    (hne : column ≠ t.primaryColumn) :
    t.servingBucket cond = (t.indexes.getD column ∅).getD value ∅ := by
  simp [servingBucket, h, Option.filter, hne]

theorem bucket_empty (env : Env) {cond column value : Bytes}
    (hs : t.simpleKey cond = some (column, value)) (hne : column ≠ t.primaryColumn)
    (h : (t.servingBucket cond).size = 0) : t.bucket env column value = [] := by
  rw [servingBucket_eq hs hne] at h
  unfold bucket
  rw [← List.length_eq_zero_iff, (env.order.range_perm _).length_eq, Std.ExtTreeMap.length_keys, h]

theorem aggregateResult_order (env : Env) (o : MapOrder) (kind : AggKind) (expression cond : Bytes)
    (h : (t.servingBucket cond).size = 0) :
    t.aggregateResult { env with order := o } kind expression cond =
      t.aggregateResult env kind expression cond := by
  unfold aggregateResult
  cases hs : t.simpleKey cond with
  | none => rfl
  | some p =>
    obtain ⟨column, value⟩ := p
    by_cases hpk : column = t.primaryColumn
    · simp only [if_pos hpk]
      rfl
    · have hcount : ∀ env term compiled,
          t.countIndexEquality env column value term compiled = .ok 0 := by
        intro env term compiled
        unfold countIndexEquality
        rw [bucket_empty env hs hpk h]
        rfl
      simp only [if_neg hpk, hcount]
      rfl

/-- **A query gives the same result in every order of map iteration** unless it is scattered over
an index bucket. -/
theorem selectTable_order (env : Env) (o : MapOrder) {selectExpr : Bytes} (distinct : Bool)
    {tail : SelectTail} (h : t.scattered selectExpr tail = false) :
    t.selectTable { env with order := o } selectExpr distinct tail =
      t.selectTable env selectExpr distinct tail := by
  unfold selectTable
  by_cases hgroup : tail.groupBy = []
  · simp only [scattered, hgroup, decide_true, Bool.true_and, decide_eq_false_iff_not] at h
    rw [if_neg (not_not.2 hgroup), if_neg (not_not.2 hgroup)]
    split
    · rfl
    · cases hagg : aggregateKind selectExpr with
      | some kind =>
        rw [hagg, if_neg (by simp)] at h
        simp only [aggregateResult_order env o kind selectExpr tail.cond (Nat.eq_zero_of_not_pos h)]
      | none =>
        rw [hagg, if_pos rfl] at h
        simp only
        split
        · rfl
        · exact selectPlain_order env o _ (Nat.not_lt.1 h)
  · rw [if_pos hgroup, if_pos hgroup]
    rfl

end Order

/-! ### What a copy leaves out -/

section Copy

variable {t : Table} (hfast : t.fast = []) (hpos : ∀ key : Bytes, t.fastPos[key]? = none)
include hpos

theorem lineOf_bare (names : List Bytes) (key : Bytes) :
    t.clearFast.lineOf names key = t.lineOf names key := by
  have hat : t.fastAt key = none := by simp only [fastAt, hpos]
  have hat' : t.clearFast.fastAt key = none := by simp only [fastAt, clearFast, Map.get?_empty]
  simp only [lineOf, hat, hat', clearFast_rows]

theorem selectKey_bare (q : Query) (key : Bytes) :
    t.clearFast.selectKey q key = t.selectKey q key := by
  have hempty : t.clearFast.fastPos[key]? = none := Map.get?_empty key
  simp only [selectKey, hpos, hempty, clearFast_rows]

include hfast

theorem finishKeys_bare (env : Env) (q : Query) (cap : Option Nat) (keys : List Bytes) :
    t.clearFast.finishKeys env q cap keys = t.finishKeys env q cap keys := by
  have horder : ∀ column key, t.clearFast.orderValue column key = t.orderValue column key := by
    intro column key
    simp only [orderValue, hfast, clearFast_fast, if_true, clearFast_rows]
  simp only [finishKeys, orderedKeys, orderKeys, horder, materialize, lineOf_bare hpos]

theorem selectPlain_bare (env : Env) (q : Query) :
    t.clearFast.selectPlain env q = t.selectPlain env q := by
  have hpath : t.clearFast.path q = t.path q := by
    simp only [path, hfast, clearFast_fast]
    rfl
  have hterm : t.clearFast.termFor q = none := if_pos rfl
  have hterm' : t.termFor q = none := if_pos hfast
  have hadd : ∀ key c, t.clearFast.addKey q key c = t.addKey q key c := by
    intro key c
    simp only [addKey, lineOf_bare hpos]
  rw [selectPlain_eq, selectPlain_eq, hpath]
  cases hp : t.path q with
  | key key => simp only [selectBy, selectKey_bare hpos]
  | bucket column value =>
    have hstep : ∀ cap compiled, t.clearFast.bucketStep q cap column none compiled =
        t.bucketStep q cap column none compiled := by
      intro cap compiled
      funext c key
      simp only [bucketStep, hadd]
      rfl
    simp only [selectBy, selectBucket, hterm, hterm', hstep, finishKeys_bare hfast hpos]
    rfl
  | fast =>
    unfold path at hp
    split at hp
    · cases hp
    · split at hp
      · cases hp
      · rw [if_neg fun h => h.1 hfast] at hp
        cases hp
  | order =>
    have hstep : ∀ cap compiled, t.clearFast.orderStep q cap compiled =
        t.orderStep q cap compiled := by
      intro cap compiled
      funext c key
      simp only [orderStep, hadd]
      rfl
    simp only [selectBy, selectOrder, hterm, hterm', hstep, finishKeys_bare hfast hpos]
    rfl

omit hpos in
theorem aggregateResult_bare (env : Env) (kind : AggKind) (expression cond : Bytes)
    (h : kind = .count → (t.servingBucket cond).size = 0) :
    t.clearFast.aggregateResult env kind expression cond =
      t.aggregateResult env kind expression cond := by
  have hscan : ∀ star name column compiled,
      t.clearFast.aggregateScan env kind star name column cond compiled =
        t.aggregateScan env kind star name column cond compiled := by
    intro star name column compiled
    simp only [aggregateScan, hfast, clearFast_fast, ne_eq, not_true_eq_false, if_false]
    rfl
  have hsame : t.clearFast.simpleKey cond = t.simpleKey cond := rfl
  unfold aggregateResult
  simp only [hscan, hsame]
  by_cases hkind : kind = .count
  swap
  · simp only [hkind, false_and, not_false_eq_true, if_true]
    rfl
  cases hs : t.simpleKey cond with
  | none => rfl
  | some p =>
    obtain ⟨column, value⟩ := p
    by_cases hpk : column = t.primaryColumn
    · have hpk' : column = t.clearFast.primaryColumn := hpk
      simp only [if_pos hpk, if_pos hpk']
      rfl
    · have hpk' : column ≠ t.clearFast.primaryColumn := hpk
      have hcount : ∀ term compiled,
          t.countIndexEquality env column value term compiled = .ok 0 := by
        intro term compiled
        unfold countIndexEquality
        rw [bucket_empty env hs hpk (h hkind)]
        rfl
      have hcount' : ∀ term compiled,
          t.clearFast.countIndexEquality env column value term compiled = .ok 0 := by
        intro term compiled
        unfold countIndexEquality
        rw [bucket_empty (t := t.clearFast) env hs hpk' (h hkind)]
        rfl
      simp only [if_neg hpk, if_neg hpk', hcount, hcount']
      rfl

theorem selectTable_bare (env : Env) {selectExpr : Bytes} (distinct : Bool) {tail : SelectTail}
    (h : t.counted selectExpr tail = false) :
    t.clearFast.selectTable env selectExpr distinct tail =
      t.selectTable env selectExpr distinct tail := by
  unfold selectTable
  by_cases hgroup : tail.groupBy = []
  · simp only [counted, hgroup, decide_true, Bool.true_and, Bool.and_eq_false_iff,
      decide_eq_false_iff_not] at h
    rw [if_neg (not_not.2 hgroup), if_neg (not_not.2 hgroup)]
    by_cases horder : tail.orderColumn ≠ [] ∧ (!hasColumn t.columns tail.orderColumn) = true
    · rw [if_pos horder, if_pos (c := tail.orderColumn ≠ [] ∧
        (!hasColumn t.clearFast.columns tail.orderColumn) = true) horder]
    · rw [if_neg horder, if_neg (c := tail.orderColumn ≠ [] ∧
        (!hasColumn t.clearFast.columns tail.orderColumn) = true) horder]
      cases hagg : aggregateKind selectExpr with
      | some kind =>
        have hcount : kind = .count → (t.servingBucket tail.cond).size = 0 := fun hkind =>
          Nat.eq_zero_of_not_pos (h.resolve_left (not_not.2 (hkind ▸ hagg)))
        simp only [aggregateResult_bare hfast env kind selectExpr tail.cond hcount]
      | none => simp only [selectPlain_bare hfast hpos, clearFast_columns]
  · rw [if_pos hgroup, if_pos hgroup]
    have hscan : ∀ groupBy gIdx aggs cond compiled,
        t.clearFast.groupScan env groupBy gIdx aggs cond compiled =
          t.groupScan env groupBy gIdx aggs cond compiled := by
      intro groupBy gIdx aggs cond compiled
      simp only [groupScan, hfast, clearFast_fast, ne_eq, not_true_eq_false, if_false]
      rfl
    simp only [groupedResult, hscan]
    rfl

end Copy

theorem servingBucket_clone (cond : Bytes) (t : Table) :
    t.cloneLocked.servingBucket cond = t.servingBucket cond := by
  by_cases h : t.fast = []
  · rw [cloneLocked_bare h]
    rfl
  · rw [cloneLocked_of_ne h]

theorem selectTable_clone {t : Table} (hinv : t.FastInv) (env : Env) {selectExpr : Bytes}
    (distinct : Bool) {tail : SelectTail} (h : t.counted selectExpr tail = false) :
    t.cloneLocked.selectTable env selectExpr distinct tail =
      t.selectTable env selectExpr distinct tail := by
  by_cases hfast : t.fast = []
  · rw [cloneLocked_bare hfast]
    exact selectTable_bare hfast (hinv.fastPos_none hfast) env distinct h
  · rw [cloneLocked_of_ne hfast]

end Table

/-! ### Queries of a database -/

/-- Environments that differ in the order of map iteration only; neither is cancelled. -/
structure Env.Peer (env env' : Env) : Prop where
  live : env.Live
  live' : env'.Live
  threshold : env.threshold = env'.threshold
  sorter : env.sorter = env'.sorter
  maxRows : env.maxRows = env'.maxRows

theorem Env.Peer.twin {env env' : Env} (h : env.Peer env') : env.Twin env' :=
  ⟨h.live, h.live', h.threshold⟩

theorem Env.Peer.eq {env env' : Env} (h : env.Peer env') :
    env' = { env with order := env'.order } := by
  have hctx : env'.ctx = env.ctx := by
    funext p
    rw [h.live p, h.live' p]
  obtain ⟨ctx, order, sorter, maxRows, threshold⟩ := env'
  obtain ⟨-, -, hthreshold, hsorter, hrows⟩ := h
  simp only at hctx hthreshold hsorter hrows
  rw [hctx, hthreshold, hsorter, hrows]

/-- Whether a query meets a condition on its table, its select expression and its tail. -/
def Database.queryMeets (P : Bytes → SelectTail → Table → Bool) (db : Database) (s : Bytes) :
    Bool :=
  match indexKeyword s (str "FROM") with
  | none => false
  | some fi =>
    let rest := trimSpace (s.drop (fi + 4))
    match firstField rest with
    | none => false
    | some name =>
      match db.tables[toLower name]?, splitDistinct (trimSpace (slice s 6 fi)),
        parseSelectTail rest with
      | some t, .ok (selectExpr, _), .ok tail => P selectExpr tail t
      | _, _, _ => false

def Database.scatteredQuery : Database → Bytes → Bool := Database.queryMeets Table.scattered

/-- Whether a statement inserts the rows of a query that meets a condition. -/
def insertsQuery (P : Bytes → Bool) (sql : Bytes) : Bool :=
  hasPrefixFold (statementText sql) (str "INSERT") && (insertQuery (statementText sql)).any P

/-- Whether a statement inserts the rows of a query that is scattered over an index bucket. -/
def Database.scattered (db : Database) (sql : Bytes) : Bool := insertsQuery db.scatteredQuery sql

/-- Whether a statement inserts a count of the rows of an index bucket. -/
def Database.counted (db : Database) (sql : Bytes) : Bool :=
  insertsQuery (db.queryMeets Table.counted) sql

theorem insertsQuery_eq_false {P : Bytes → Bool} {sql query : Bytes}
    (h : insertsQuery P sql = false)
    (hinsert : hasPrefixFold (statementText sql) (str "INSERT") = true)
    (hq : insertQuery (statementText sql) = some query) : P query = false := by
  rw [insertsQuery, hinsert, hq] at h
  simpa using h

section Queries

variable {env env' : Env} {db db' : Database} {s : Bytes}

theorem Database.Same.selectRows_of {P : Bytes → SelectTail → Table → Bool} (h : db.Same db')
    (hquery : db.queryMeets P s = false)
    (hselect : ∀ (name : Bytes) (t t' : Table) (selectExpr : Bytes) (distinct : Bool)
      (tail : SelectTail), db.tables[name]? = some t → db'.tables[name]? = some t' →
      t.cloneLocked = t'.cloneLocked → P selectExpr tail t = false →
      t.selectTable env selectExpr distinct tail = t'.selectTable env' selectExpr distinct tail) :
    db.selectRows env s = db'.selectRows env' s := by
  unfold Database.selectRows
  unfold Database.queryMeets at hquery
  cases hfrom : indexKeyword s (str "FROM") with
  | none => rfl
  | some fi =>
    simp only [hfrom] at hquery ⊢
    cases hname : firstField (trimSpace (s.drop (fi + 4))) with
    | none => rfl
    | some name =>
      simp only [hname] at hquery ⊢
      refine h.bind_table fun t t' ht ht' hclone => ?_
      cases hexpr : splitDistinct (trimSpace (slice s 6 fi)) with
      | error f => rfl
      | ok p =>
        cases htail : parseSelectTail (trimSpace (s.drop (fi + 4))) with
        | error f => rfl
        | ok tail =>
          simp only [ht, hexpr, htail] at hquery
          show (if _ then _ else _) = (if _ then _ else _)
          rw [hselect _ t t' p.1 p.2 tail ht ht' hclone hquery]

/-- **A query gives the same result again** in another order of map iteration and on a copy. -/
theorem Database.Same.selectRows (h : db.Same db') (henv : env.Peer env')
    (hinv : db.All Table.FastInv) (hinv' : db'.All Table.FastInv)
    (hquery : db.scatteredQuery s = false) : db.selectRows env s = db'.selectRows env' s := by
  refine h.selectRows_of hquery fun name t t' selectExpr distinct tail ht ht' hclone hfalse => ?_
  have hfalse' : t'.scattered selectExpr tail = false := by
    rw [Table.scattered, ← t'.servingBucket_clone, ← hclone, t.servingBucket_clone]
    exact hfalse
  rw [henv.eq, Table.selectTable_order env _ _ hfalse',
    ← Table.selectTable_clone (hinv' _ _ ht') env _ (Table.counted_of_scattered hfalse'), ← hclone,
    Table.selectTable_clone (hinv _ _ ht) env _ (Table.counted_of_scattered hfalse)]

/-- In one order of map iteration a copy answers every query that does not count an index bucket. -/
theorem Database.Same.selectRows_counted (h : db.Same db') (hinv : db.All Table.FastInv)
    (hinv' : db'.All Table.FastInv) (hquery : db.queryMeets Table.counted s = false) :
    db.selectRows env s = db'.selectRows env s := by
  refine h.selectRows_of hquery fun name t t' selectExpr distinct tail ht ht' hclone hfalse => ?_
  have hfalse' : t'.counted selectExpr tail = false := by
    rw [Table.counted, ← t'.servingBucket_clone, ← hclone, t.servingBucket_clone]
    exact hfalse
  rw [← Table.selectTable_clone (hinv' _ _ ht') env _ hfalse', ← hclone,
    Table.selectTable_clone (hinv _ _ ht) env _ hfalse]

end Queries

end SuperDB.Engine
