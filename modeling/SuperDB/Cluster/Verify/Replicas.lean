import SuperDB.Engine.Verify.Repeat
import SuperDB.Cluster.Verify.Directory
import SuperDB.Cluster.State

/-!
# Replicas

Members that have the same tables and the same directory keep them while they apply the same log,
and give the same results, except where the order of map iteration shows: an INSERT that selects its
rows from an index bucket stores them in that order, and of several fences of a range operation that
object the first one is reported.
-/

namespace SuperDB.Cluster

open Go Engine

/-! ## Statements that are the same everywhere -/

section Exec

variable {env env' : Nat → Env} {db db' : Database}

/-- Among the statements that are executed there are only writes, and none inserts rows in the order
of map iteration. -/
def steadyAll (env : Nat → Env) : Nat → List Bytes → Database → Bool
  | _, [], _ => true
  | i, sql :: l, db =>
    !isReadOnly sql && !db.scattered sql &&
      match db.execWithOptions (env i) sql with
      | (.error _, _) => true
      | (.ok _, db') => steadyAll env (i + 1) l db'

theorem execAll_same (h : db.Same db') (hsound : db.Sound) (hsound' : db'.Sound)
    (henv : ∀ i, (env i).Peer (env' i)) (i : Nat) {sqls : List Bytes}
    (hsteady : steadyAll env i sqls db = true) :
    (execAll env i sqls db).1 = (execAll env' i sqls db').1 ∧
      (execAll env i sqls db).2.Same (execAll env' i sqls db').2 ∧
      (execAll env i sqls db).2.Sound ∧ (execAll env' i sqls db').2.Sound := by
  induction sqls generalizing i db db' with
  | nil => exact ⟨rfl, h, hsound, hsound'⟩
  | cons sql l ih =>
    simp only [steadyAll, Bool.and_eq_true, Bool.not_eq_true'] at hsteady
    obtain ⟨⟨hwrite, hscattered⟩, hrest⟩ := hsteady
    obtain ⟨hreply, hsame⟩ :=
      h.execWithOptions_peer (henv i) hsound hsound' hwrite hscattered
    have hnext := hsound.execWithOptions (henv i).live sql
    have hnext' := hsound'.execWithOptions (henv i).live' sql
    rcases hp : db.execWithOptions (env i) sql with ⟨f | r, d⟩ <;>
      rcases hp' : db'.execWithOptions (env' i) sql with ⟨f' | r', d'⟩ <;>
      rw [hp, hp'] at hreply hsame <;> rw [hp] at hrest hnext <;> rw [hp'] at hnext'
    · cases hreply
      simp only [execAll, hp, hp']
      exact ⟨trivial, hsame, hnext, hnext'⟩
    · cases hreply
    · cases hreply
    · cases hreply
      obtain ⟨hresult, hrestSame, hs, hs'⟩ := ih hsame hnext hnext' (i + 1) hrest
      simp only [execAll, hp, hp']
      exact ⟨by rw [hresult], hrestSame, hs, hs'⟩

end Exec

/-- What the runtime of a member chooses for an entry: statements run to their end, without a row
cap and with a sorting algorithm that all members share, in any order of map iteration. -/
def Choice.Background (sorter : Sorter) (c : Choice) : Prop := ∀ i, (c.env i).Background sorter

namespace ReplicatedState

variable {s s' : ReplicatedState} {c c' : Choice}

structure Alike (s s' : ReplicatedState) : Prop where
  same : s.db.Same s'.db
  sound : s.db.Sound
  sound' : s'.db.Sound
  ranges : s.ranges = s'.ranges

/-- An entry has one outcome, whatever the order of map iteration. -/
def steady (c : Choice) (e : Entry) (s : ReplicatedState) : Bool :=
  match e with
  | .exec sqls atomic rangeID generation =>
    (s.refusal rangeID generation).isSome ||
      steadyAll c.env 0 sqls (if atomic then s.db.clone else s.db)
  | .range (some op) =>
    (op.baseGenerations.keys.filter fun id => (s.ranges.fence op id).isSome).length ≤ 1
  | _ => true

/-- Two members that do the same: both crash, or they have the same result and stay alike. -/
inductive Agree {ρ : Type} : Option (ρ × ReplicatedState) → Option (ρ × ReplicatedState) → Prop
  | crash : Agree none none
  | both {t t' : ReplicatedState} (r : ρ) : Alike t t' → Agree (some (r, t)) (some (r, t'))

theorem Agree.map {ρ σ : Type} {p p' : Option (ρ × ReplicatedState)} (g : ρ → σ)
    {f : ReplicatedState → ReplicatedState} (hf : ∀ t t', Alike t t' → Alike (f t) (f t'))
    (h : Agree p p') :
    Agree (p.map fun q => (g q.1, f q.2)) (p'.map fun q => (g q.1, f q.2)) := by
  cases h with
  | crash => exact .crash
  | both r h => exact .both (g r) (hf _ _ h)

/-! ## Steps -/

theorem Alike.refusal (h : Alike s s') (rangeID generation : Nat) :
    s.refusal rangeID generation = s'.refusal rangeID generation := by
  unfold ReplicatedState.refusal
  rw [h.ranges]

theorem Alike.with_index (h : Alike s s') (idx : Nat) :
    Alike { s with index := idx } { s' with index := idx } := ⟨h.same, h.sound, h.sound', h.ranges⟩

theorem Alike.appendWAL (h : Alike s s') (sqls : List Bytes) :
    Alike (s.appendWAL sqls) (s'.appendWAL sqls) := by
  unfold ReplicatedState.appendWAL
  split
  · exact h
  · exact ⟨h.same, h.sound, h.sound', h.ranges⟩

theorem same_replaceFrom (db source : Database) : (db.replaceFrom source).Same source :=
  Database.same_clone source

theorem Sound.replaceFrom {source : Database} (h : source.Sound) (db : Database) :
    (db.replaceFrom source).Sound := h.cloneImage

theorem Alike.execLocked (h : Alike s s') {env env' : Nat → Env}
    (henv : ∀ i, (env i).Peer (env' i)) (sqls : List Bytes) (atomic : Bool)
    (rangeID generation : Nat) (hsteady : s.refusal rangeID generation = none →
      steadyAll env 0 sqls (if atomic then s.db.clone else s.db) = true) :
    Agree (s.execLocked env sqls atomic rangeID generation)
      (s'.execLocked env' sqls atomic rangeID generation) := by
  unfold ReplicatedState.execLocked
  rw [← h.refusal]
  cases hrefused : s.refusal rangeID generation with
  | some r => exact .both r h
  | none =>
    have hbase : (if atomic then s.db.clone else s.db).Same
        (if atomic then s'.db.clone else s'.db) ∧
        (if atomic then s.db.clone else s.db).Sound ∧
        (if atomic then s'.db.clone else s'.db).Sound := by
      cases atomic with
      | true =>
        exact ⟨(Database.same_clone s.db).trans (h.same.trans (Database.same_clone s'.db).symm),
          h.sound.cloneImage, h.sound'.cloneImage⟩
      | false => exact ⟨h.same, h.sound, h.sound'⟩
    obtain ⟨hresult, hsame, hsound, hsound'⟩ :=
      execAll_same hbase.1 hbase.2.1 hbase.2.2 henv 0 (hsteady hrefused)
    simp only
    rw [← hresult]
    cases (execAll env 0 sqls (if atomic then s.db.clone else s.db)).1 with
    | ok affected =>
      refine .both _ (Alike.appendWAL ?_ sqls)
      cases atomic with
      | true =>
        refine ⟨?_, Sound.replaceFrom hsound _, Sound.replaceFrom hsound' _, h.ranges⟩
        exact (same_replaceFrom _ _).trans (hsame.trans (same_replaceFrom _ _).symm)
      | false => exact ⟨hsame, hsound, hsound', h.ranges⟩
    | error p =>
      obtain ⟨i, f⟩ := p
      cases f with
      | panic => exact .crash
      | error e =>
        refine .both _ ?_
        cases atomic with
        | true => exact h
        | false => exact ⟨hsame, hsound, hsound', h.ranges⟩

theorem findSome?_perm {α β : Type} {f : α → Option β} {l l' : List α} (h : l.Perm l')
    (hone : (l.filter fun a => (f a).isSome).length ≤ 1) : l.findSome? f = l'.findSome? f := by
  rw [← List.head?_filterMap, ← List.head?_filterMap]
  have hperm := h.filterMap f
  have hlength : (l.filterMap f).length ≤ 1 := by
    rwa [List.length_filterMap_eq_countP, List.countP_eq_length_filter]
  match hl : l.filterMap f with
  | [] => rw [hl] at hperm; rw [hperm.symm.eq_nil]
  | [b] => rw [hl] at hperm; rw [List.singleton_perm.1 hperm]
  | _ :: _ :: _ => simp [hl] at hlength

theorem Alike.rangeLocked (h : Alike s s') (o o' : IdOrder) {op : Option RangeOp}
    (hsteady : s.steady c (.range op) = true) :
    (s.rangeLocked o op).1 = (s'.rangeLocked o' op).1 ∧
      Alike (s.rangeLocked o op).2 (s'.rangeLocked o' op).2 := by
  cases op with
  | none => exact ⟨rfl, h⟩
  | some op =>
    have hfind : (o.range op.baseGenerations).findSome? (s.ranges.fence op) =
        (o'.range op.baseGenerations).findSome? (s.ranges.fence op) := by
      have hperm := (o.perm_perm op.baseGenerations.keys).trans
        (o'.perm_perm op.baseGenerations.keys).symm
      refine findSome?_perm hperm ?_
      have hlength := ((o.perm_perm op.baseGenerations.keys).filter fun id =>
        (s.ranges.fence op id).isSome).length_eq
      rw [IdOrder.range, hlength]
      simpa [steady] using hsteady
    have happly : s.ranges.applyOp o op = s'.ranges.applyOp o' op := by
      rw [← h.ranges]
      unfold RangeStore.applyOp
      rw [hfind]
    simp only [ReplicatedState.rangeLocked, happly]
    cases s'.ranges.applyOp o' op with
    | error e => exact ⟨rfl, h⟩
    | ok ranges => exact ⟨rfl, h.same, h.sound, h.sound', rfl⟩

/-- **One entry**, applied by two members that are alike. -/
theorem Alike.apply {sorter : Sorter} (h : Alike s s') (hc : c.Background sorter)
    (hc' : c'.Background sorter) (idx : Nat) {e : Entry} (hsteady : s.steady c e.wire = true) :
    Agree (s.apply c idx (.ok e)) (s'.apply c' idx (.ok e)) := by
  cases e with
  | exec sqls atomic rangeID generation =>
    have henv : ∀ i, (c.env i).Peer (c'.env i) := fun i =>
      ⟨(hc i).live, (hc' i).live, (hc i).threshold.trans (hc' i).threshold.symm,
        (hc i).sorter_eq.trans (hc' i).sorter_eq.symm,
        (hc i).uncapped.trans (hc' i).uncapped.symm⟩
    have hagree := h.execLocked henv (sqls.map toValidUTF8) atomic rangeID generation
      fun hnone => by simpa [steady, Entry.wire, hnone] using hsteady
    exact hagree.map id fun _ _ halike => halike.with_index idx
  | range op =>
    obtain ⟨hresult, halike⟩ := h.rangeLocked c.order c'.order hsteady
    simp only [ReplicatedState.apply, Entry.wire, applyCommitted]
    rw [hresult]
    exact .both _ (halike.with_index idx)
  | unknown => exact .both _ h

/-! ## Logs -/

def steadily (choice : Nat → Choice) : List (Nat × Entry) → ReplicatedState → Bool
  | [], _ => true
  | (idx, e) :: l, s => s.steady (choice idx) e.wire &&
    match s.apply (choice idx) idx (.ok e) with
    | none => true
    | some (_, s') => steadily choice l s'

/-- **Replicas apply a log alike**: from the same tables and directory they come to the same
results, tables and directory, if no entry shows the order of map iteration. -/
theorem replicas_agree {sorter : Sorter} {choice choice' : Nat → Choice}
    (hchoice : ∀ i, (choice i).Background sorter) (hchoice' : ∀ i, (choice' i).Background sorter)
    {s s' : ReplicatedState} (h : Alike s s') {log : List (Nat × Entry)}
    (hsteady : steadily choice log s = true) :
    Agree (s.applyAll choice log) (s'.applyAll choice' log) := by
  induction log generalizing s s' with
  | nil => exact .both [] h
  | cons e l ih =>
    obtain ⟨idx, e⟩ := e
    simp only [steadily, Bool.and_eq_true] at hsteady
    have hstep := h.apply (hchoice idx) (hchoice' idx) idx hsteady.1
    generalize hp : s.apply (choice idx) idx (.ok e) = p at hstep hsteady
    generalize hp' : s'.apply (choice' idx) idx (.ok e) = p' at hstep
    simp only [applyAll, hp, hp']
    cases hstep with
    | crash => exact .crash
    | both r halike => exact (ih halike hsteady.2).map (r :: ·) fun _ _ h => h

def backwards : Nat → Choice := fun _ =>
  { env := fun _ => { order := ⟨List.reverse, fun l => List.reverse_perm l⟩ } }

def writesLog (l : List String) : List (Nat × Entry) :=
  l.zipIdx.map fun p => (p.2, .exec [str p.1] false 0 0)

def copyLog : List (Nat × Entry) :=
  writesLog ["CREATE TABLE a (k INT PRIMARY KEY, v INT)", "CREATE INDEX i ON a (v)",
    "INSERT INTO a VALUES (1, 7), (2, 7)", "CREATE TABLE b (k INT, v INT)",
    "INSERT INTO b SELECT k, v FROM a WHERE v = 7"]

def copiedRows (choice : Nat → Choice) : Option (List (List Value)) :=
  (applyAll choice copyLog {}).bind fun p =>
    (p.2.db.selectRows {} (str "SELECT k FROM b")).toOption.map (·.rows)

theorem replicas_agree_copy :
    copiedRows (fun _ => {}) = some [[.int 1], [.int 2]] ∧
      copiedRows backwards = some [[.int 2], [.int 1]] := by
  decide +kernel

theorem replicas_agree_insert :
    (applyAll (fun _ => {}) (copyLog.take 3) {}).isSome = true ∧
      Agree (applyAll (fun _ => {}) (copyLog.take 3) {})
        (applyAll backwards (copyLog.take 3) {}) := by
  refine ⟨by decide +kernel, ?_⟩
  have hbackground : ∀ order : MapOrder,
      Env.Background Sorter.merge { order } := fun order => ⟨fun _ => rfl, rfl, rfl, rfl⟩
  exact replicas_agree (fun _ _ => hbackground _) (fun _ _ => hbackground _)
    ⟨Database.Same.refl _, Database.sound_empty, Database.sound_empty, rfl⟩ (by decide +kernel)

end ReplicatedState

end SuperDB.Cluster
