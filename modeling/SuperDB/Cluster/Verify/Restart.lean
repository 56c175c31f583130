import SuperDB.Engine.Verify.Idle
import SuperDB.Cluster.Verify.Replicas
import SuperDB.Cluster.Verify.Restore

/-!
# Restarting a member

A member that restarts replays the WAL, and then it applies the log once more on what it has got.
The second time a statement does no harm if it is refused or finds nothing to change; a row without
a primary key is inserted again.
-/

namespace SuperDB.Cluster

open Go Engine

variable {sqls : List Bytes} {r : EntryResult} {idx : Nat} {e : Entry} {t : ReplicatedState}

section Exec

variable {sorter : Sorter} {env : Nat → Env} {db : Database}

theorem execAll_reached (henv : ∀ i, (env i).Background sorter) (hsound : db.Sound) (i : Nat)
    (hsteady : steadyAll env i sqls db = true) {n : Nat} (hok : (execAll env i sqls db).1 = .ok n) :
    db.Reached sorter sqls (execAll env i sqls db).2 ∧ (execAll env i sqls db).2.Sound := by
  induction sqls generalizing i db n with
  | nil => exact ⟨.refl (Database.Same.refl db), hsound⟩
  | cons sql l ih =>
    simp only [steadyAll, Bool.and_eq_true, Bool.not_eq_true'] at hsteady
    obtain ⟨⟨hwrite, hscattered⟩, hrest⟩ := hsteady
    have hnext := hsound.execWithOptions (henv i).live sql
    rcases hp : db.execWithOptions (env i) sql with ⟨f | r, d⟩
    · simp only [execAll, hp] at hok
      cases hok
    · have hrepeat : db.Repeatable (env i) sql :=
        ⟨hscattered, fun hpos => absurd hpos (by rw [(henv i).uncapped]; exact Nat.lt_irrefl 0)⟩
      have hone := Database.Reached.write (henv i).live (henv i).threshold (henv i).sorter_eq
        hsound hrepeat hwrite (r := r) (by rw [hp])
      rw [hp] at hone hnext hrest
      simp only [execAll, hp] at hok ⊢
      cases hl : (execAll env (i + 1) l d).1 with
      | error e =>
        rw [hl] at hok
        cases hok
      | ok m =>
        obtain ⟨hreached, hlast⟩ := ih hnext (i + 1) hrest hl
        exact ⟨hone.trans hreached, hlast⟩

theorem execAll_idle {final : Database} (henv : ∀ i, (env i).Live) (hdb : db.All Table.Consistent)
    (halike : db.Alike final) (i : Nat) (hidle : ∀ sql ∈ sqls, final.idle sql = true) :
    (execAll env i sqls db).2.All Table.Consistent ∧ (execAll env i sqls db).2.Alike final ∧
      ∀ k, (execAll env i sqls db).1 ≠ .error (k, .panic) := by
  induction sqls generalizing i db with
  | nil => exact ⟨hdb, halike, fun k h => by cases h⟩
  | cons sql l ih =>
    rw [List.forall_mem_cons] at hidle
    have hhere : db.idle sql = true := by rw [Database.idle_congr halike, hidle.1]
    obtain ⟨hstep, hpanic⟩ := Database.execWithOptions_idle hdb (henv i) hhere
    have hnext := Database.consistent_execWithOptions hdb (henv i) sql
    rcases hp : db.execWithOptions (env i) sql with ⟨f | r, d⟩
    · rw [hp] at hstep hpanic hnext
      simp only [execAll, hp]
      refine ⟨hnext, hstep.trans halike, fun k hk => ?_⟩
      cases hk
      exact hpanic rfl
    · rw [hp] at hstep hnext
      obtain ⟨hrest, hrestAlike, hrestPanic⟩ := ih hnext (hstep.trans halike) (i + 1) hidle.2
      simp only [execAll, hp]
      refine ⟨hrest, hrestAlike, fun k hk => ?_⟩
      cases hl : (execAll env (i + 1) l d).1 with
      | ok m =>
        rw [hl] at hk
        cases hk
      | error e =>
        rw [hl] at hk
        exact hrestPanic k (hl.trans (by cases hk; rfl))

end Exec

namespace ReplicatedState

variable {sorter : Sorter} {s s' : ReplicatedState} {c c' : Choice} {final : Database}

/-- The entry leaves nothing to do when it is applied once more at the end: its write is one
statement or atomic and fits the WAL, it does not depend on the order of map iteration, and its
statements are idle in the final database. A write that is refused by its fence is refused again. -/
def lasts (c : Choice) (final : Database) (e : Entry) (s : ReplicatedState) : Bool :=
  match e with
  | .exec sqls atomic rangeID generation =>
    (s.refusal rangeID generation).isSome ||
      ((atomic || decide (sqls.length ≤ 1)) &&
        sqls.all (fun sql => decide (sql.length ≤ Storage.maxPayloadSize)) &&
        steadyAll c.env 0 sqls (if atomic then s.db.clone else s.db) && sqls.all final.idle)
  | _ => true

structure Copied (sorter : Sorter) (s : ReplicatedState) : Prop where
  sound : s.db.Sound
  reached : Database.Reached sorter {} s.wal s.db

theorem reached_congr {db db' d d' : Database} {log : List Bytes} (h : db.Reached sorter log db')
    (hd : d.Same db) (hd' : db'.Same d') : d.Reached sorter log d' := by
  intro x l hx hsound hl
  obtain ⟨y, hrun, hy, hysound⟩ := h x l (hx.trans hd) hsound hl
  exact ⟨y, hrun, hy.trans hd', hysound⟩

theorem execAll_error {env : Nat → Env} {db : Database} {e : Nat × Fault} (hlive : (env 0).Live)
    (hone : sqls.length ≤ 1) (h : (execAll env 0 sqls db).1 = .error e) :
    (execAll env 0 sqls db).2 = db := by
  match sqls, hone with
  | [], _ => rfl
  | [sql], _ =>
    rcases hp : db.execWithOptions (env 0) sql with ⟨f | r, d⟩
    · have hsame := Database.execWithOptions_error hlive (f := f) (by rw [hp])
      rw [hp] at hsame
      simp only [execAll, hp]
      exact hsame
    · simp only [execAll, hp] at h
      cases h

theorem Copied.execLocked (h : Copied sorter s) (hc : c.Background sorter) {atomic : Bool}
    {rangeID generation : Nat}
    (hlasts : s.lasts c final (.exec sqls atomic rangeID generation) = true)
    (hstep : s.execLocked c.env sqls atomic rangeID generation = some (r, s')) :
    Copied sorter s' := by
  unfold ReplicatedState.execLocked at hstep
  cases hrefused : s.refusal rangeID generation with
  | some r' =>
    rw [hrefused] at hstep
    obtain ⟨-, rfl⟩ := Prod.mk.inj (Option.some.inj hstep)
    exact h
  | none =>
    rw [hrefused] at hstep
    simp only [lasts, hrefused, Option.isSome_none, Bool.false_or, Bool.and_eq_true] at hlasts
    obtain ⟨⟨⟨hsingle, hshort⟩, hsteady⟩, -⟩ := hlasts
    have hbase : (if atomic then s.db.clone else s.db).Same s.db ∧
        (if atomic then s.db.clone else s.db).Sound := by
      cases atomic with
      | true => exact ⟨Database.same_clone s.db, h.sound.cloneImage⟩
      | false => exact ⟨Database.Same.refl _, h.sound⟩
    simp only at hstep
    split at hstep
    · cases hstep
    · next i e hfail =>
      obtain ⟨-, rfl⟩ := Prod.mk.inj (Option.some.inj hstep)
      cases atomic with
      | true => exact h
      | false =>
        have hone : sqls.length ≤ 1 := by simpa using hsingle
        have hsame : (execAll c.env 0 sqls s.db).2 = s.db := execAll_error (hc 0).live hone hfail
        change Copied sorter { s with db := (execAll c.env 0 sqls s.db).2 }
        rw [hsame]
        exact ⟨h.sound, h.reached⟩
    · next n hok =>
      obtain ⟨-, rfl⟩ := Prod.mk.inj (Option.some.inj hstep)
      obtain ⟨hreached, hsound⟩ := execAll_reached hc hbase.2 0 hsteady hok
      have hfits : (sqls.any fun sql => decide (Storage.maxPayloadSize < sql.length)) = false := by
        simpa using hshort
      unfold ReplicatedState.appendWAL
      rw [hfits]
      simp only [Bool.false_eq_true, if_false]
      refine ⟨?_, h.reached.trans (reached_congr hreached hbase.1.symm ?_)⟩
      · cases atomic with
        | true => exact Sound.replaceFrom hsound _
        | false => exact hsound
      · cases atomic with
        | true => exact (same_replaceFrom _ _).symm
        | false => exact Database.Same.refl _

theorem rangeLocked_snd (o : IdOrder) (op : Option RangeOp) :
    (s.rangeLocked o op).2.db = s.db ∧ (s.rangeLocked o op).2.wal = s.wal := by
  cases op with
  | none => exact ⟨rfl, rfl⟩
  | some op =>
    simp only [rangeLocked]
    cases s.ranges.applyOp o op with
    | error e => exact ⟨rfl, rfl⟩
    | ok ranges => exact ⟨rfl, rfl⟩

theorem Copied.apply (h : Copied sorter s) (hc : c.Background sorter)
    (hlasts : s.lasts c final e.wire = true) (hstep : s.apply c idx (.ok e) = some (r, s')) :
    Copied sorter s' := by
  cases e with
  | exec sqls atomic rangeID generation =>
    obtain ⟨⟨r', s''⟩, hexec, heq⟩ := Option.map_eq_some_iff.1 hstep
    obtain ⟨rfl, rfl⟩ := Prod.mk.inj heq
    have hcopied : Copied sorter s'' := h.execLocked hc hlasts hexec
    exact ⟨hcopied.sound, hcopied.reached⟩
  | range op =>
    obtain ⟨-, rfl⟩ := Prod.mk.inj (Option.some.inj hstep)
    obtain ⟨hdb, hwal⟩ := rangeLocked_snd (s := s) c.order (op.map RangeOp.wire)
    refine ⟨?_, ?_⟩
    · rw [hdb]
      exact h.sound
    · rw [hdb, hwal]
      exact h.reached
  | unknown =>
    obtain ⟨-, rfl⟩ := Prod.mk.inj (Option.some.inj hstep)
    exact h

/-! ## The second time -/

/-- A member that applies a log once more beside one that applies it for the first time: it has the
same directory and the content of the final database. -/
structure Again (final : Database) (s s' : ReplicatedState) : Prop where
  ranges : s'.ranges = s.ranges
  consistent : s'.db.All Table.Consistent
  alike : s'.db.Alike final

theorem Again.execLocked (h : Again final s t) (hc' : c'.Background sorter) {atomic : Bool}
    {rangeID generation : Nat}
    (hlasts : s.lasts c final (.exec sqls atomic rangeID generation) = true) :
    ∃ r t', t.execLocked c'.env sqls atomic rangeID generation = some (r, t') ∧
      Again final s t' := by
  have hrefusal : t.refusal rangeID generation = s.refusal rangeID generation := by
    unfold ReplicatedState.refusal
    rw [h.ranges]
  unfold ReplicatedState.execLocked
  rw [hrefusal]
  cases hrefused : s.refusal rangeID generation with
  | some r => exact ⟨r, t, rfl, h⟩
  | none =>
    simp only [lasts, hrefused, Option.isSome_none, Bool.false_or, Bool.and_eq_true,
      List.all_eq_true] at hlasts
    have hbase : (if atomic then t.db.clone else t.db).All Table.Consistent ∧
        (if atomic then t.db.clone else t.db).Alike final := by
      cases atomic with
      | true =>
        exact ⟨Database.consistent_cloneImage h.consistent,
          (Database.same_clone t.db).alike.trans h.alike⟩
      | false => exact ⟨h.consistent, h.alike⟩
    obtain ⟨hconsistent, halike, hpanic⟩ :=
      execAll_idle (fun i => (hc' i).live) hbase.1 hbase.2 0 hlasts.2
    simp only
    split
    · next k hk => exact absurd hk (hpanic k)
    · refine ⟨_, _, rfl, ?_⟩
      cases atomic with
      | true => exact h
      | false => exact ⟨h.ranges, hconsistent, halike⟩
    · refine ⟨_, _, rfl, ?_⟩
      have hdb : Again final s { t with
          db := if atomic then
              t.db.replaceFrom (execAll c'.env 0 sqls (if atomic then t.db.clone else t.db)).2
            else (execAll c'.env 0 sqls (if atomic then t.db.clone else t.db)).2 } := by
        cases atomic with
        | true =>
          exact ⟨h.ranges, Database.consistent_cloneImage hconsistent,
            (same_replaceFrom _ _).alike.trans halike⟩
        | false => exact ⟨h.ranges, hconsistent, halike⟩
      unfold ReplicatedState.appendWAL
      split
      · exact hdb
      · exact ⟨hdb.ranges, hdb.consistent, hdb.alike⟩

theorem Again.apply (h : Again final s t) (hc' : c'.Background sorter)
    (hlasts : s.lasts c final e.wire = true) (hstep : s.apply c idx (.ok e) = some (r, s')) :
    ∃ r' t', t.apply c' idx (.ok e) = some (r', t') ∧ Again final s' t' := by
  obtain ⟨hranges, -, -⟩ := apply_eq_some hstep
  cases e with
  | exec sqls atomic rangeID generation =>
    obtain ⟨r', t', hexec, hagain⟩ := h.execLocked hc' hlasts
    refine ⟨r', { t' with index := idx }, ?_, hagain.ranges.trans hranges.symm,
      hagain.consistent, hagain.alike⟩
    simp only [ReplicatedState.apply, Entry.wire, applyCommitted, hexec, Option.map_some]
  | range op =>
    refine ⟨_, _, rfl, ?_⟩
    obtain ⟨hdb, -⟩ := rangeLocked_snd (s := t) c'.order (op.map RangeOp.wire)
    have hsame : (t.apply c' idx (.ok (.range op))) = some (_, _) := rfl
    refine ⟨?_, ?_, ?_⟩
    · rw [hranges, ← h.ranges]
      exact (apply_eq_some hsame).1
    · change (t.rangeLocked c'.order (op.map RangeOp.wire)).2.db.All Table.Consistent
      rw [hdb]
      exact h.consistent
    · change (t.rangeLocked c'.order (op.map RangeOp.wire)).2.db.Alike final
      rw [hdb]
      exact h.alike
  | unknown => exact ⟨_, t, rfl, h.ranges.trans hranges.symm, h.consistent, h.alike⟩

/-! ## Restarts -/

def lasting (choice : Nat → Choice) (final : Database) :
    List (Nat × Entry) → ReplicatedState → Bool
  | [], _ => true
  | (idx, e) :: l, s => s.lasts (choice idx) final e.wire &&
    match s.apply (choice idx) idx (.ok e) with
    | none => true
    | some (_, s') => lasting choice final l s'

section Runs

variable {choice choice' : Nat → Choice} {log : List (Nat × Entry)} {results : List EntryResult}

/-- The first entry of a run and the rest. -/
theorem applyAll_cons (h : s.applyAll choice ((idx, e) :: log) = some (results, s')) :
    ∃ r t rest, s.apply (choice idx) idx (.ok e) = some (r, t) ∧
      t.applyAll choice log = some (rest, s') ∧ results = r :: rest := by
  unfold applyAll at h
  cases hstep : s.apply (choice idx) idx (.ok e) with
  | none =>
    rw [hstep] at h
    cases h
  | some p =>
    rw [hstep] at h
    obtain ⟨⟨rest, t⟩, hrest, heq⟩ := Option.map_eq_some_iff.1 h
    obtain ⟨rfl, rfl⟩ := Prod.mk.inj heq
    exact ⟨p.1, p.2, rest, rfl, hrest, rfl⟩

theorem Copied.applyAll (h : Copied sorter s) (hchoice : ∀ i, (choice i).Background sorter)
    (hlasting : lasting choice final log s = true)
    (hrun : s.applyAll choice log = some (results, s')) : Copied sorter s' := by
  induction log generalizing s results with
  | nil =>
    obtain ⟨-, rfl⟩ := Prod.mk.inj (Option.some.inj hrun)
    exact h
  | cons e l ih =>
    obtain ⟨idx, e⟩ := e
    obtain ⟨r, t, rest, hstep, hrest, -⟩ := applyAll_cons hrun
    simp only [lasting, hstep, Bool.and_eq_true] at hlasting
    exact ih (h.apply (hchoice idx) hlasting.1 hstep) hlasting.2 hrest

theorem Again.applyAll (h : Again final s t) (hchoice' : ∀ i, (choice' i).Background sorter)
    (hlasting : lasting choice final log s = true)
    (hrun : s.applyAll choice log = some (results, s')) :
    ∃ results' t', t.applyAll choice' log = some (results', t') ∧ Again final s' t' := by
  induction log generalizing s t results with
  | nil =>
    obtain ⟨-, rfl⟩ := Prod.mk.inj (Option.some.inj hrun)
    exact ⟨[], t, rfl, h⟩
  | cons e l ih =>
    obtain ⟨idx, e⟩ := e
    obtain ⟨r, u, rest, hstep, hrest, -⟩ := applyAll_cons hrun
    simp only [lasting, hstep, Bool.and_eq_true] at hlasting
    obtain ⟨r', t', hstep', hagain⟩ := h.apply (hchoice' idx) hlasting.1 hstep
    obtain ⟨results', t'', hrest', hlast⟩ := ih hagain hlasting.2 hrest
    refine ⟨r' :: results', t'', ?_, hlast⟩
    simp only [ReplicatedState.applyAll, hstep', hrest', Option.map_some]

end Runs

/-- The files that a member which stops in the state `s` leaves for its restart: the WAL, or, after
`superdb compact`, a snapshot that is a copy of the tables and no WAL. -/
inductive Stored (sorter : Sorter) (s : ReplicatedState) :
    Option Database → List (Env × Bytes) → Prop where
  | wal {records : List (Env × Bytes)} (h : ReplayOf sorter s.wal records) :
    Stored sorter s none records
  | compacted {db : Database} (hsame : db.Same s.db) (hconsistent : db.All Table.Consistent) :
    Stored sorter s (some db) []

theorem Stored.load {snapshot : Option Database} {records : List (Env × Bytes)}
    (h : Stored sorter s snapshot records) (hcopied : Copied sorter s) :
    ∃ db, (snapshot.getD {}).replay records = .ok db ∧ db.Same s.db ∧ db.All Table.Consistent := by
  cases h with
  | compacted hsame hconsistent => exact ⟨_, rfl, hsame, hconsistent⟩
  | wal hrecords =>
    obtain ⟨db, hreplay, hsame, -⟩ :=
      hcopied.reached {} records (Database.Same.refl _) Database.sound_empty hrecords
    refine ⟨db, hreplay, hsame, ?_⟩
    exact Database.replay_invariant (P := (·.All Table.Consistent))
      (fun _ _ sql henv h => Database.consistent_execWithOptions h henv sql)
      (fun p hp => (hrecords.2 p hp).live) (Database.all_empty _) hreplay

/-- **A restart restores the tables** if the log leaves nothing to do: the member comes to the
content that it had. -/
theorem restart_restores {choice choice' : Nat → Choice}
    (hchoice : ∀ i, (choice i).Background sorter) (hchoice' : ∀ i, (choice' i).Background sorter)
    {log : List (Nat × Entry)} {results : List EntryResult}
    (hrun : applyAll choice log {} = some (results, s))
    (hlasting : lasting choice s.db log {} = true) {snapshot : Option Database}
    {records : List (Env × Bytes)} (hstored : Stored sorter s snapshot records) :
    ∃ results' s', restart snapshot records choice' log = some (results', s') ∧
      s'.db.Alike s.db := by
  have hempty : Copied sorter {} := ⟨Database.sound_empty, .refl (Database.Same.refl _)⟩
  obtain ⟨db, hreplay, hsame, hconsistent⟩ :=
    hstored.load (hempty.applyAll hchoice hlasting hrun)
  have hagain : Again s.db {} { db, wal := records.map (·.2) } :=
    ⟨rfl, hconsistent, hsame.alike⟩
  obtain ⟨results', s', hrun', hlast⟩ := hagain.applyAll hchoice' hlasting hrun
  refine ⟨results', s', ?_, hlast.alike⟩
  simp only [restart, hreplay]
  exact hrun'

/-- The rows of a table that a member has after it has applied a log once, and after a restart. -/
def rowsTwice (log : List (Nat × Entry)) (sql : String) :
    Option (List (List Value) × List (List Value)) := do
  let first ← applyAll (fun _ => {}) log {}
  let second ← restart none (first.2.wal.map ({}, ·)) (fun _ => {}) log
  let rows ← (first.2.db.selectRows {} (str sql)).toOption
  let rows' ← (second.2.db.selectRows {} (str sql)).toOption
  return (rows.rows, rows'.rows)

theorem restart_restores_keyless :
    rowsTwice (writesLog ["CREATE TABLE t (v INT)", "INSERT INTO t VALUES (1)"])
      "SELECT v FROM t" = some ([[.int 1]], [[.int 1], [.int 1]]) := by
  decide +kernel

def keyedLog : List (Nat × Entry) :=
  writesLog ["CREATE TABLE t (k INT PRIMARY KEY, v INT)", "INSERT INTO t VALUES (1, 5)",
    "UPDATE t SET v = 6 WHERE k = 1"]

theorem restart_restores_keyed :
    ∃ results s, applyAll (fun _ => {}) keyedLog {} = some (results, s) ∧ s.wal.length = 3 ∧
      ∃ results' s', restart none (s.wal.map ({}, ·)) backwards keyedLog = some (results', s') ∧
        s'.db.Alike s.db := by
  have hbackground : ∀ order : MapOrder,
      Env.Background Sorter.merge { order } := fun order => ⟨fun _ => rfl, rfl, rfl, rfl⟩
  have hrun : (applyAll (fun _ => {}) keyedLog {}).map
      (fun p => (p.2.wal.length, lasting (fun _ => {}) p.2.db keyedLog {})) = some (3, true) := by
    decide +kernel
  obtain ⟨⟨results, s⟩, hsome, hpair⟩ := Option.map_eq_some_iff.1 hrun
  obtain ⟨hwal, hlasting⟩ := Prod.mk.inj hpair
  refine ⟨results, s, hsome, hwal, ?_⟩
  refine restart_restores (fun _ _ => hbackground _) (fun _ _ => hbackground _) hsome hlasting
    (.wal ⟨?_, ?_⟩)
  · simp
  · intro p hp
    obtain ⟨sql, -, rfl⟩ := List.mem_map.1 hp
    exact hbackground _

end ReplicatedState

end SuperDB.Cluster
