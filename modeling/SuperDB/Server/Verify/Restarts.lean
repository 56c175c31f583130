import SuperDB.Engine.Verify.Image
import SuperDB.Server.DataDir
import SuperDB.Server.Verify.WalOrder
import SuperDB.Storage.Verify.Frames

/-!
# Restarts

A server that stops and starts again has its database back: the WAL of the first start and what was
appended since are one log. This needs a WAL file from the beginning; records of a legacy file are
read as long as there is no other WAL, and the first start makes one. It also needs a WAL file of
frames, since frames are appended to it whatever it holds. A stop between writing the snapshot and
removing the WAL leaves both, and the next start replays the records on top of their own effect.
-/

namespace SuperDB.Engine

open Go

/-- Each record of a log is a write that does not depend on the order of map iteration, up to the
first one that fails. -/
def Database.steady : Database → List (Env × Bytes) → Bool
  | _, [] => true
  | db, (env, sql) :: l =>
    !isReadOnly sql && !db.scattered sql &&
      match db.execWithOptions env sql with
      | (.error _, _) => true
      | (.ok _, db') => db'.steady l

theorem Database.Reached.of_replay {sorter : Sorter} {db d : Database} {l : List (Env × Bytes)}
    (henv : ∀ p ∈ l, p.1.Background sorter) (hsound : db.Sound) (hsteady : db.steady l = true)
    (h : db.replay l = .ok d) : db.Reached sorter (l.map (·.2)) d ∧ d.Sound := by
  induction l generalizing db with
  | nil =>
    obtain rfl := Except.ok.inj h
    exact ⟨.refl (Database.Same.refl _), hsound⟩
  | cons p l ih =>
    obtain ⟨env, sql⟩ := p
    obtain ⟨hhere, hrest⟩ := List.forall_mem_cons.1 henv
    simp only [Database.steady, Bool.and_eq_true, Bool.not_eq_true'] at hsteady
    obtain ⟨⟨hwrite, hscattered⟩, hsteady⟩ := hsteady
    have hnext := hsound.execWithOptions hhere.live sql
    simp only [Database.replay] at h
    rcases hp : db.execWithOptions env sql with ⟨f | r, db'⟩
    · rw [hp] at h
      cases h
    · rw [hp] at h hsteady hnext
      have hrepeat : db.Repeatable env sql :=
        ⟨hscattered, fun hpos => absurd hpos (by rw [hhere.uncapped]; exact Nat.lt_irrefl 0)⟩
      have hone := Database.Reached.write hhere.live hhere.threshold hhere.sorter_eq hsound hrepeat
        hwrite (r := r) (by rw [hp])
      rw [hp] at hone
      obtain ⟨hreached, hlast⟩ := ih hrest hnext hsteady h
      exact ⟨hone.trans hreached, hlast⟩

end SuperDB.Engine

namespace SuperDB.Server

open Go Engine Storage

/-! ## Records are short -/

def Short (sh : Shared) : Prop := ∀ sql ∈ sh.store.wal, sql.length ≤ maxPayloadSize

theorem Store.append_short {store : Store} {sqls : List Bytes} {disk : Disk}
    (h : ∀ sql ∈ store.wal, sql.length ≤ maxPayloadSize) :
    ∀ sql ∈ (store.append sqls disk).2.wal, sql.length ≤ maxPayloadSize := by
  unfold Store.append
  split
  · exact h
  · split
    · exact h
    · next hfit =>
      simp only [List.any_eq_true, decide_eq_true_eq, not_exists, not_and, Nat.not_lt] at hfit
      cases disk with
      | done => exact fun sql hsql => (List.mem_append.1 hsql).elim (h sql) (hfit sql)
      | failed message written =>
        exact fun sql hsql => (List.mem_append.1 hsql).elim (h sql)
          fun hnew => hfit sql (List.mem_of_mem_take hnew)

theorem Store.wal_save (store : Store) (tables : Map Table) (disk : Disk) :
    (store.save tables disk).2.wal = store.wal := by
  rcases store.save_cases tables disk with ⟨-, -, h⟩ | ⟨-, e, h⟩ <;> rw [h]

theorem Short.run {sh : Shared} (h : Short sh) (mode : Mode) (a : Action) :
    Short (a.run mode sh).2 := by
  cases a with
  | append sqls disk => exact Store.append_short h
  | save tables disk =>
    simp only [Short, Action.run, Store.wal_save]
    exact h
  | commitFrom source sqls disk =>
    simp only [Short, Action.run, Shared.commitFrom]
    split
    · cases mode with
      | memory => exact h
      | wal => exact Store.append_short h
      | snapshot =>
        simp only [Store.persist]
        split
        · exact h
        · rw [Store.wal_save]
          exact h
    · exact h
  | _ => exact h

theorem inEnvs_snd (env : Nat → Env) (records : List Bytes) :
    (inEnvs env records).map (·.2) = records := by
  simp [inEnvs, List.map_map, Function.comp_def]

def Quiet (sorter : Sorter) (env : Nat → Env) : Prop := ∀ i, (env i).Background sorter

theorem Quiet.replayOf {sorter : Sorter} {env : Nat → Env} (h : Quiet sorter env)
    (records : List Bytes) : ReplayOf sorter records (inEnvs env records) := by
  refine ⟨inEnvs_snd env records, fun p hp => ?_⟩
  obtain ⟨q, -, rfl⟩ := List.mem_map.1 hp
  exact h q.2

namespace DataDir

variable {z : Zlib} {sorter : Sorter} {env env' : Nat → Env} {dir : DataDir} {db : Database}
  {records : List Bytes}

theorem load_eq_some (hrecords : dir.records z = some records) : dir.load z env = some db ↔
    (dir.loadSnapshot (env 0)).replay (inEnvs (fun i => env (i + 1)) records) = .ok db := by
  rw [load, hrecords, Option.bind_some]
  cases (dir.loadSnapshot (env 0)).replay (inEnvs (fun i => env (i + 1)) records) with
  | error f => simp [Except.toOption]
  | ok d => simp [Except.toOption]

def WellFormed (dir : DataDir) : Prop := ∀ image, dir.image = some image → Restorable image

/-- The statements that a start replays are writes that do not depend on the order of map
iteration. -/
def steady (z : Zlib) (env : Nat → Env) (dir : DataDir) : Bool :=
  (dir.records z).all fun records =>
    (dir.loadSnapshot (env 0)).steady (inEnvs (fun i => env (i + 1)) records)

/-- No legacy records are in use: there is a newer WAL, or there are none. -/
def Current (z : Zlib) (dir : DataDir) : Prop :=
  dir.wal.isSome = true ∨ walRecords z dir.legacyWAL = some []

/-- `wal.spdb` has frames, as they are written to it, and not the lines of a legacy file. -/
def Framed (z : Zlib) (dir : DataDir) : Prop :=
  ∃ l : List (Bytes × Bytes), (∀ r ∈ l, Holds z r.1 r.2) ∧ dir.wal.getD [] = (l.map (·.1)).flatten

theorem walRecords_frames {l : List (Bytes × Bytes)} (hl : ∀ r ∈ l, Holds z r.1 r.2) :
    walRecords z (some (l.map (·.1)).flatten) = some (l.map (·.2)) := by
  rw [walRecords, replayed_flatten hl]

/-- The statements of a directory whose server has stopped. -/
theorem records_stopped (hframed : dir.Framed z) (hcurrent : dir.Current z) {sh : Shared}
    (hshort : Short sh) : ∃ records, dir.records z = some records ∧
      (dir.stopped sh).records z = some (records ++ sh.store.wal) := by
  obtain ⟨l, hl, hbytes⟩ := hframed
  have hold : dir.records z = some (l.map (·.2)) := by
    rw [← walRecords_frames hl, ← hbytes, DataDir.records]
    cases hwal : dir.wal with
    | some b => rfl
    | none =>
      rw [Current, hwal] at hcurrent
      rw [Option.none_or, hcurrent.resolve_left (by simp), Option.getD_none, walRecords,
        replayed_nil]
  have hnew : ∀ r ∈ l ++ Storage.records sh.store.wal, Holds z r.1 r.2 := by
    intro r hr
    exact (List.mem_append.1 hr).elim (hl r) (holds_records hshort r)
  have hfile := walRecords_frames hnew
  rw [List.map_append, List.map_append, List.flatten_append, flatten_records, statements_records,
    ← hbytes] at hfile
  exact ⟨_, hold, hfile⟩

theorem WellFormed.consistent (h : dir.WellFormed) (env : Env) :
    (dir.loadSnapshot env).All Table.Consistent := by
  unfold loadSnapshot
  cases himage : dir.image with
  | none => exact Database.all_empty _
  | some image => exact (h image himage).consistent env

theorem WellFormed.listed (h : dir.WellFormed) (env : Env) :
    (dir.loadSnapshot env).All Table.Listed := by
  unfold loadSnapshot
  cases himage : dir.image with
  | none => exact Database.all_empty _
  | some image => exact (h image himage).listed env

theorem WellFormed.sound (h : dir.WellFormed) (env : Env) : (dir.loadSnapshot env).Sound :=
  fun name t ht => ⟨(h.consistent env name t ht).wf, (h.consistent env name t ht).fast⟩

theorem WellFormed.loadSnapshot_congr (h : dir.WellFormed) {e e' : Env}
    (he : e.threshold = e'.threshold) : dir.loadSnapshot e = dir.loadSnapshot e' := by
  unfold loadSnapshot
  cases himage : dir.image with
  | none => rfl
  | some image => exact (h image himage).congr he

theorem WellFormed.reached (h : dir.WellFormed) (henv : Quiet sorter env)
    (hsteady : dir.steady z env = true) (hrecords : dir.records z = some records)
    (hload : dir.load z env = some db) :
    (dir.loadSnapshot (env 0)).Reached sorter records db ∧ db.Sound := by
  rw [steady, hrecords, Option.all_some] at hsteady
  have hreached := Database.Reached.of_replay
    ((Quiet.replayOf (fun i => henv (i + 1)) records).2) (h.sound (env 0)) hsteady
    ((load_eq_some hrecords).1 hload)
  rwa [inEnvs_snd] at hreached

/-- A directory whose snapshot is that of `dir` and whose records lead from there to a database
loads a copy of it. -/
theorem WellFormed.load_of_reached (h : dir.WellFormed) (henv : Quiet sorter env)
    (henv' : Quiet sorter env') {dir' : DataDir} (himage : dir'.image = dir.image)
    (hrecords : dir'.records z = some records)
    (hreached : (dir.loadSnapshot (env 0)).Reached sorter records db) :
    ∃ db', dir'.load z env' = some db' ∧ db'.Same db := by
  have hsnapshot : dir'.loadSnapshot (env' 0) = dir.loadSnapshot (env 0) := by
    have hthreshold : (env' 0).threshold = (env 0).threshold :=
      (henv' 0).threshold.trans (henv 0).threshold.symm
    rw [← h.loadSnapshot_congr hthreshold]
    unfold loadSnapshot
    rw [himage]
  obtain ⟨db', hreplay, hsame, -⟩ := hreached _ _ (Database.Same.refl _) (h.sound (env 0))
    (Quiet.replayOf (fun i => henv' (i + 1)) records)
  exact ⟨db', (load_eq_some hrecords).2 (hsnapshot ▸ hreplay), hsame⟩

/-- **A restart gives the database back.** A server starts from well-formed files, with a WAL of
frames and no records in use that are in a legacy file, and is stopped once its sessions have been
answered, the writes of which were appended in order. The next start loads the database as it
was. -/
theorem restart_keeps (cfg : Config) (hmode : cfg.mode = .wal) (hdir : dir.WellFormed)
    (hframed : dir.Framed z) (hcurrent : dir.Current z) (henv : Quiet cfg.sorter env)
    (henv' : Quiet cfg.sorter env') (hsteady : dir.steady z env = true)
    (hload : dir.load z env = some db) {l : List (Move Nat Request)}
    (hl : (startOn (dir.opened db)).Runs (localServer cfg) (Request.Live cfg) InOrder l)
    (hidle : ∀ i, (((startOn (dir.opened db)).run (localServer cfg) l).conn i).isIdle = true) :
    let sh := ((startOn (dir.opened db)).run (localServer cfg) l).shared.shared
    ∃ db', (dir.stopped sh).load z env' = some db' ∧ db'.Same sh.db := by
  intro sh
  have hshort : Short sh := World.shared_run (P := fun g : Logged => Short g.shared)
    (fun _ a _ h => h.run cfg.mode a) (fun sql hsql => by cases hsql) l
  obtain ⟨records, hrecords, hstopped⟩ := records_stopped hframed hcurrent hshort
  obtain ⟨hreached, hsound⟩ := hdir.reached henv hsteady hrecords hload
  obtain ⟨hordered, -⟩ := ordered_run cfg hmode (dir.opened db) hsound hl
  obtain ⟨hwal, -⟩ := ordered_idle cfg hmode (dir.opened db) hsound hl hidle
  rw [show sh.store.wal = _ from hwal] at hstopped
  exact hdir.load_of_reached henv henv' rfl hstopped (hreached.trans hordered.reached)

/-- The tables when a server stops that was started and has appended some records, and after the
next start, if there is one. -/
def tablesKept (dir : DataDir) (appended : List String) :
    Option (List Bytes × Option (List Bytes)) :=
  (dir.load .stored fun _ => {}).map fun db =>
    let sh := dir.opened db
    let sh := { sh with store.wal := appended.map str }
    (db.tables.keys, ((dir.stopped sh).load .stored fun _ => {}).map (·.tables.keys))

/-- The records of a legacy file are dropped; lines in `wal.spdb` cannot be read once a frame has
been put behind them. -/
theorem restart_keeps_legacy :
    tablesKept { legacyWAL := some (str "CREATE TABLE t (v INT)") } [] = some ([str "t"], some []) ∧
      tablesKept { wal := some (str "CREATE TABLE t (v INT)\n") } ["INSERT INTO t VALUES (1)"] =
        some ([str "t"], none) := by
  decide +kernel

def bothWALs : DataDir :=
  { wal := some (walRecord (str "CREATE TABLE t (v INT)"))
    legacyWAL := some (str "CREATE TABLE u (v INT)") }

def bothWALsDb : Database := (bothWALs.load .stored fun _ => {}).getD {}

theorem restart_keeps_insert :
    let sh := ((startOn (bothWALs.opened bothWALsDb)).run (localServer { mode := .wal })
      [.send 0 (request "INSERT INTO t VALUES (1)"), .act 0, .act 0]).shared.shared
    sh.store.wal = [str "INSERT INTO t VALUES (1)"] ∧
      ∃ db', (bothWALs.stopped sh).load .stored (fun _ => {}) = some db' ∧ db'.Same sh.db := by
  have hquiet : Quiet Sorter.merge fun _ => {} := fun _ => ⟨fun _ => rfl, rfl, rfl, rfl⟩
  have hload : bothWALs.load .stored (fun _ => {}) = some bothWALsDb := by
    have hok : (bothWALs.load .stored fun _ => {}).isSome = true := by decide +kernel
    exact (Option.getD_of_ne_none (Option.isSome_iff_ne_none.1 hok) _).symm
  have hframed : bothWALs.Framed .stored := by
    refine ⟨Storage.records [str "CREATE TABLE t (v INT)"], holds_records ?_, ?_⟩
    · decide +kernel
    · rw [flatten_records, List.flatMap_singleton]
      rfl
  have hruns : (startOn (bothWALs.opened bothWALsDb)).Runs (localServer { mode := .wal })
      (fun _ => True) InOrder [.send 0 (request "INSERT INTO t VALUES (1)"), .act 0, .act 0] := by
    decide +kernel
  refine ⟨by decide +kernel, ?_⟩
  refine restart_keeps { mode := .wal } rfl (fun image himage => by cases himage) hframed
    (Or.inl rfl)
    hquiet hquiet (by decide +kernel) hload (hruns.of_actions fun _ q _ => q.live_of_untimed rfl) ?_
  intro i
  match i with
  | 0 => decide +kernel
  | i + 1 =>
    rw [World.conn_run (by simp [Move.conn])]
    rfl

/-! ## Stops inside Compact and RecoverLatest -/

/-- Two starts that load the same, or both fail. -/
def Loads : Option Database → Option Database → Prop
  | some db, some db' => db'.Alike db
  | none, none => True
  | _, _ => False

theorem Loads.refl (r : Option Database) : Loads r r := by
  cases r with
  | none => trivial
  | some db => exact Database.Alike.refl db

end DataDir

end SuperDB.Server
