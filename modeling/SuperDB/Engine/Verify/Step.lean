import SuperDB.Engine.Verify.Core
import SuperDB.Engine.Verify.Read

/-!
# What a statement can do

A statement leaves the database as it is, creates a table, drops one, or applies one well-formed
operation to one table. An invariant of tables that new tables have and operations preserve
therefore holds throughout every run.
-/

namespace SuperDB.Engine

open Go

variable {l : List (Env × Bytes)}

/-! ## Synthetic keys are free -/

theorem syntheticKey_injective : Function.Injective syntheticKey := fun _ _ h =>
  decimal_injective (List.cons.inj h).2

theorem syntheticKey_ne_nil (n : Nat) : syntheticKey n ≠ [] := List.cons_ne_nil _ _

theorem length_le_size {V : Type} {m : Map V} {l : List Bytes} (hl : l.Nodup)
    (hmem : ∀ k ∈ l, k ∈ m) : l.length ≤ m.size := by
  rw [← Std.ExtTreeMap.length_keys]
  exact hl.length_le_of_subset fun k hk => Map.mem_keys.2 (hmem k hk)

theorem nextSyntheticFrom_spec (rows : Map Row) (fuel n : Nat) :
    syntheticKey (nextSyntheticFrom rows fuel n) ∉ rows ∨
      ∀ i ≤ fuel, syntheticKey (n + i) ∈ rows := by
  induction fuel generalizing n with
  | zero =>
    by_cases h : syntheticKey n ∈ rows
    · refine Or.inr fun i hi => ?_
      obtain rfl : i = 0 := by omega
      exact h
    · exact Or.inl h
  | succ fuel ih =>
    simp only [nextSyntheticFrom]
    split
    · next hn =>
      refine (ih (n + 1)).imp_right fun hall i hi => ?_
      cases i with
      | zero => exact hn
      | succ i =>
        have hi' := hall i (by omega)
        rwa [show n + 1 + i = n + (i + 1) by omega] at hi'
    · next hn => exact Or.inl hn

theorem Table.nextSyntheticKey_not_mem (t : Table) : t.nextSyntheticKeyLocked.1 ∉ t.rows := by
  rcases nextSyntheticFrom_spec t.rows t.rows.size t.autoKey with h | h
  · exact h
  · -- one key more than there are rows cannot all be in use
    have hnodup :
        ((List.range (t.rows.size + 1)).map fun i => syntheticKey (t.autoKey + i)).Nodup :=
      List.nodup_range.map fun i j e => by
        have := syntheticKey_injective e
        omega
    have hle := length_le_size hnodup fun k hk => by
      obtain ⟨i, hi, rfl⟩ := List.mem_map.1 hk
      exact h i (by have := List.mem_range.1 hi; omega)
    simp at hle

theorem Table.nextSyntheticKey_ne_nil (t : Table) : t.nextSyntheticKeyLocked.1 ≠ [] :=
  syntheticKey_ne_nil _

/-! ## The effect of a statement -/

section Exec

variable {env : Env} {db : Database} {sql : Bytes}

/-- What executing a statement can do, seen as a reply and a new database. -/
inductive Effect (env : Env) (db : Database) (sql : Bytes) :
    Except Fault Result × Database → Prop where
  | unchanged (r : Except Fault Result) : Effect env db sql (r, db)
  | created (r : Result) (name : Bytes) (columns : List Column) (hnew : name ∉ db.tables)
      (hcols : ColumnsOk columns) :
      Effect env db sql (.ok r, { db with tables := db.tables.insert name { name, columns } })
  | dropped (r : Result) (name : Bytes) :
      Effect env db sql (.ok r, { db with tables := db.tables.erase name })
  | applied (name : Bytes) (t : Table) (op : TableOp)
    (hread : db.read env sql = .ok (.table name op))
      (ht : db.tables[name]? = some t) (hop : OpOk t.columns op) :
      Effect env db sql
        ((op.run env t).1, { db with tables := db.tables.insert name (op.run env t).2 })

theorem Database.exec_effect (env : Env) (sql : Bytes)
    (hcols : db.All fun t => ColumnsOk t.columns) :
    Effect env db sql (db.exec env sql) := by
  unfold Database.exec
  cases hread : db.read env sql with
  | error f => exact .unchanged _
  | ok stmt =>
    have hok := Database.read_ok hcols hread
    cases stmt with
    | create name columns =>
      simp only [Stmt.run]
      split
      · exact .unchanged _
      · next hnew => exact .created _ name columns hnew hok
    | dropTable name ifExists =>
      simp only [Stmt.run]
      split
      · exact .dropped _ name
      · split <;> exact .unchanged _
    | table name op =>
      obtain ⟨t, ht, hop⟩ := hok
      simp only [Stmt.run, ht]
      exact .applied name t op hread ht hop
    | reply r => exact .unchanged _

/-- An invariant of tables survives a statement if new tables have it and the operation that the
statement applies preserves it. -/
theorem Database.All.exec {P : Table → Prop} (h : db.All P)
    (hcols : db.All fun t => ColumnsOk t.columns)
    (hnew : ∀ name columns, ColumnsOk columns → P { name, columns })
    (hop : ∀ name t op, db.read env sql = .ok (.table name op) → db.tables[name]? = some t →
      OpOk t.columns op → P t → P (op.run env t).2) : (db.exec env sql).2.All P := by
  have heffect := Database.exec_effect env sql hcols
  generalize db.exec env sql = p at heffect ⊢
  cases heffect with
  | unchanged r => exact h
  | created r name columns _ hc =>
    intro n t ht
    rw [Map.get?_insert] at ht
    split at ht
    · cases ht
      exact hnew name columns hc
    · exact h n t ht
  | dropped r name =>
    intro n t ht
    rw [Map.get?_erase] at ht
    split at ht
    · cases ht
    · exact h n t ht
  | applied name t op hread ht hok =>
    intro n t' ht'
    rw [Map.get?_insert] at ht'
    split at ht'
    · cases ht'
      exact hop name t op hread ht hok (h name t ht)
    · exact h n t' ht'

theorem Database.tables_countWrite (r : Except Fault Result) :
    (db.countWrite sql r).tables = db.tables := by
  unfold Database.countWrite
  split <;> rfl

theorem Database.execWithOptions_live (henv : env.Live) :
    db.execWithOptions env sql =
      ((db.exec env sql).1, (db.exec env sql).2.countWrite sql (db.exec env sql).1) := by
  simp only [Database.execWithOptions, henv .entry, henv .locked]

theorem Database.All.of_tables {P : Table → Prop} {db' : Database} (h : db.All P)
    (htables : db'.tables = db.tables) : db'.All P := by
  intro name t ht
  rw [htables] at ht
  exact h name t ht

end Exec

/-! ## Runs -/

/-- The property of a run that all its statements, each in the state it is executed in, have. -/
def Database.Steps (ok : Database → Env → Bytes → Prop) : Database → List (Env × Bytes) → Prop
  | _, [] => True
  | db, (env, sql) :: l => ok db env sql ∧ Database.Steps ok (db.execWithOptions env sql).2 l

instance Database.Steps.decidable {ok : Database → Env → Bytes → Prop}
    [∀ db env sql, Decidable (ok db env sql)] :
    (db : Database) → (l : List (Env × Bytes)) → Decidable (db.Steps ok l)
  | _, [] => .isTrue trivial
  | db, (env, sql) :: l =>
    @instDecidableAnd _ _ _ (Database.Steps.decidable (db.execWithOptions env sql).2 l)

theorem Database.runAll_cons (db : Database) (p : Env × Bytes) (l : List (Env × Bytes)) :
    db.runAll (p :: l) = (db.execWithOptions p.1 p.2).2.runAll l := rfl

theorem Database.runAll_append (db : Database) (l l' : List (Env × Bytes)) :
    db.runAll (l ++ l') = (db.runAll l).runAll l' :=
  List.foldl_append

theorem Uncancelled.head {p : Env × Bytes} (h : Uncancelled (p :: l)) : p.1.Live :=
  h p List.mem_cons_self

theorem Uncancelled.tail {p : Env × Bytes} (h : Uncancelled (p :: l)) : Uncancelled l :=
  fun q hq => h q (List.mem_cons_of_mem _ hq)

theorem uncancelled_scriptIn {env : Env} (h : env.Live) (l : List String) :
    Uncancelled (scriptIn env l) := by
  intro p hp
  obtain ⟨sql, -, rfl⟩ := List.mem_map.1 hp
  exact h

theorem uncancelled_script (l : List String) : Uncancelled (script l) :=
  uncancelled_scriptIn (fun _ => rfl) l

/-- A property of databases that every statement of a run preserves holds at its end. -/
theorem Database.runAll_invariant {I : Database → Prop} {ok : Database → Env → Bytes → Prop}
    (hstep : ∀ db env sql, env.Live → ok db env sql → I db → I (db.execWithOptions env sql).2)
    {db : Database} (hl : Uncancelled l) (hok : db.Steps ok l) (hdb : I db) : I (db.runAll l) := by
  induction l generalizing db with
  | nil => exact hdb
  | cons p l ih =>
    rw [Database.runAll_cons]
    exact ih hl.tail hok.2 (hstep db p.1 p.2 hl.head hok.1 hdb)

/-- If a condition on statements decides whether a statement preserves a property, it decides
whether a run has the property in all its states. -/
theorem Database.runAll_iff_steps {I : Database → Prop} (ok : Database → Env → Bytes → Prop)
    (hstep : ∀ db env sql, env.Live → I db → (ok db env sql ↔ I (db.execWithOptions env sql).2))
    {db : Database} (hl : Uncancelled l) (hdb : I db) :
    (∀ l₁, l₁ <+: l → I (db.runAll l₁)) ↔ db.Steps ok l := by
  induction l generalizing db with
  | nil => exact ⟨fun _ => trivial, fun _ l₁ hl₁ => by rw [List.prefix_nil.1 hl₁]; exact hdb⟩
  | cons p l ih =>
    have hhead := hstep db p.1 p.2 hl.head hdb
    constructor
    · intro hall
      have hnext : I (db.execWithOptions p.1 p.2).2 := hall [p] ⟨l, rfl⟩
      refine ⟨hhead.2 hnext, (ih hl.tail hnext).1 fun l₁ hl₁ => ?_⟩
      exact hall (p :: l₁) (List.cons_prefix_cons.2 ⟨rfl, hl₁⟩)
    · rintro ⟨hok, hrest⟩ l₁ hl₁
      cases l₁ with
      | nil => exact hdb
      | cons q l₁ =>
        obtain ⟨rfl, htail⟩ := List.cons_prefix_cons.1 hl₁
        exact (ih hl.tail (hhead.1 hok)).2 hrest l₁ htail

theorem Database.Steps.of_forall {ok : Database → Env → Bytes → Prop}
    (h : ∀ db env sql, ok db env sql) (db : Database) (l : List (Env × Bytes)) :
    db.Steps ok l := by
  induction l generalizing db with
  | nil => trivial
  | cons p l ih => exact ⟨h _ _ _, ih _⟩

end SuperDB.Engine
