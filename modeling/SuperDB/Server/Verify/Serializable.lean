import SuperDB.Engine.Verify.Repeat
import SuperDB.Server.Verify.Discipline

/-!
# Transactions are serializable

Whatever the sessions do, the shared database is what the published statements make of the initial
one, executed one after the other in the order of publication, and a copy is published only if
nothing else has been since it was taken. A session that holds a copy cannot exclude the others;
what it knows is that, as long as the revision is the one its copy was taken at, the copy is the
shared database with the statements of the session applied.
-/

namespace SuperDB.Server

open Go Engine

theorem ledger_append (history : List Event) (e : Event) :
    ledger (history ++ [e]) = (ledger history).record e := by
  simp only [ledger, List.foldl_append, List.foldl_cons, List.foldl_nil]

def Event.commits : Event → Bool
  | ⟨_, .commitFrom _ _ _, .ok ()⟩ => true
  | _ => false

/-- The statement of the action, if it has one, is not cancelled. -/
def Action.Live : Action → Prop
  | .exec env _ | .execTx _ env _ => env.Live
  | _ => True

structure Ledger.Live (l : Ledger) : Prop where
  published : ∀ p ∈ l.published, Uncancelled p.statements
  onCopy : ∀ i, Uncancelled (l.onCopy i)

theorem Ledger.Live.publish {l : Ledger} {p : Publication} (h : l.Live)
    (hp : Uncancelled p.statements) : (l.publish p).Live :=
  ⟨List.forall_mem_append.2 ⟨h.published, List.forall_mem_singleton.2 hp⟩, h.onCopy⟩

theorem Ledger.Live.record {l : Ledger} {e : Event} (h : l.Live) (he : e.action.Live) :
    (l.record e).Live := by
  have hcopy : ∀ (sid : Nat) (s : List (Env × Bytes)), Uncancelled s →
      ∀ i, Uncancelled (Function.update l.onCopy sid s i) := by
    intro sid s hs i
    by_cases hi : i = sid
    · rw [hi, Function.update_self]
      exact hs
    · rw [Function.update_of_ne hi]
      exact h.onCopy i
  unfold Ledger.record
  split
  · exact ⟨h.published, hcopy _ _ (List.forall_mem_nil _)⟩
  · split
    · exact h.publish (List.forall_mem_singleton.2 he)
    · exact h
  · exact ⟨h.published, hcopy _ _
      (List.forall_mem_append.2 ⟨h.onCopy _, List.forall_mem_singleton.2 he⟩)⟩
  · exact h.publish (h.onCopy _)
  · exact h

theorem ledger_live {history : List Event} (h : ∀ e ∈ history, e.action.Live) :
    (ledger history).Live := by
  induction history using List.reverseRecOn with
  | nil => exact ⟨List.forall_mem_nil _, fun _ => List.forall_mem_nil _⟩
  | append_singleton history e ih =>
    rw [ledger_append]
    exact (ih fun e he => h e (List.mem_append_left _ he)).record
      (h e (List.mem_append_right _ List.mem_cons_self))

/-! ## Publications on a copy -/

/-- How a publication comes about: the statements of a transaction are executed on a copy, which
takes the place of the tables. -/
def Publication.publish (db : Database) : Publication → Database
  | .statement env sql => (db.execWithOptions env sql).2
  | .commit l =>
    { db with tables := (db.clone.runAll l).cloneImage.tables, revision := db.revision + 1 }

theorem Publication.publish_same {p : Publication} {db db' : Database}
    (hl : Uncancelled p.statements) (h : db.Same db') (hinv : db.Sound) (hinv' : db'.Sound)
    (hplain : db.plain p.statements = true) :
    (db.runAll p.statements).Same (p.publish db') ∧ (db.runAll p.statements).Sound ∧
      (p.publish db').Sound := by
  cases p with
  | statement env sql => exact h.runAll hl hinv hinv' hplain
  | commit l =>
    have hclone : db.Same db'.clone := h.trans db'.same_clone.symm
    obtain ⟨hsame, hsound, hsound'⟩ := hclone.runAll hl hinv hinv'.cloneImage hplain
    exact ⟨hsame.trans (db'.clone.runAll l).same_clone.symm, hsound, hsound'.cloneImage⟩

/-- **Publishing copies is executing the statements.** -/
theorem Publication.foldl_publish {ps : List Publication} {db db' : Database}
    (hl : ∀ p ∈ ps, Uncancelled p.statements) (h : db.Same db') (hinv : db.Sound)
    (hinv' : db'.Sound) (hplain : db.plain (ps.flatMap Publication.statements) = true) :
    (db.runAll (ps.flatMap Publication.statements)).Same (ps.foldl Publication.publish db') := by
  induction ps generalizing db db' with
  | nil => exact h
  | cons p ps ih =>
    obtain ⟨hp, hl⟩ := List.forall_mem_cons.1 hl
    rw [List.flatMap_cons, Database.plain_append, Bool.and_eq_true] at hplain
    obtain ⟨hsame, hsound, hsound'⟩ := p.publish_same hp h hinv hinv' hplain.1
    rw [List.flatMap_cons, Database.runAll_append]
    exact ih hl hsame hsound hsound' hplain.2

/-- Equality of all tables but for the fast arrays, which are derived. -/
def Matches (db db' : Database) : Prop :=
  ∀ name : Bytes, db.tables[name]?.map Table.clearFast = db'.tables[name]?.map Table.clearFast

theorem matches_of_same {db db' : Database} (h : db.Same db') : Matches db db' := by
  intro name
  have hname := congrArg (Option.map Table.clearFast) (Database.same_iff.1 h name)
  simpa only [Option.map_map, Function.comp_def, Table.clearFast_cloneLocked] using hname

/-! ## What the sessions rely on -/

/-- What a session relies on: the others leave its statements alone, and while the revision stays
the same they have published nothing. -/
structure Undisturbed (i : Nat) (g g' : Logged) : Prop where
  onCopy : (ledger g'.history).onCopy i = (ledger g.history).onCopy i
  revision : g.shared.db.revision ≤ g'.shared.db.revision
  same : g'.shared.db.revision = g.shared.db.revision →
    g'.shared.db = g.shared.db ∧ (ledger g'.history).since i = (ledger g.history).since i

theorem Undisturbed.refl (i : Nat) (g : Logged) : Undisturbed i g g :=
  ⟨rfl, Nat.le_refl _, fun _ => ⟨rfl, rfl⟩⟩

theorem Undisturbed.trans {i : Nat} {g₁ g₂ g₃ : Logged} (h : Undisturbed i g₁ g₂)
    (h' : Undisturbed i g₂ g₃) : Undisturbed i g₁ g₃ where
  onCopy := h'.onCopy.trans h.onCopy
  revision := Nat.le_trans h.revision h'.revision
  same hrev := by
    have hle := h.revision
    have hle' := h'.revision
    obtain ⟨hdb, hsince⟩ := h.same (by omega)
    obtain ⟨hdb', hsince'⟩ := h'.same (by omega)
    exact ⟨hdb'.trans hdb, hsince'.trans hsince⟩

/-- The database is what the publications make of `db`, and every copy was published before
anything else was since it was taken. -/
structure Serial (db : Database) (g : Logged) : Prop where
  live : ∀ e ∈ g.history, e.action.Live
  published : g.shared.db = (ledger g.history).published.foldl Publication.publish db
  alone : ∀ (h₁ : List Event) (e : Event) (h₂ : List Event), g.history = h₁ ++ e :: h₂ →
    e.commits = true → (ledger h₁).since e.sid = []

def serialRules (cfg : Config) (db : Database) (i : Nat) : Rules Action Action.Answer Logged where
  handle := Logged.perform cfg.mode i
  pre _ _ := True
  rely := Undisturbed i
  guar g g' := (∀ j, j ≠ i → Undisturbed j g g') ∧ (Serial db g → Serial db g')
  rely_refl := Undisturbed.refl i
  rely_trans := Undisturbed.trans

/-! ## Two kinds of steps -/

structure Still (i : Nat) (g g' : Logged) : Prop where
  db : g'.shared.db = g.shared.db
  published : (ledger g'.history).published = (ledger g.history).published
  others : ∀ j, j ≠ i → (ledger g'.history).onCopy j = (ledger g.history).onCopy j ∧
    (ledger g'.history).since j = (ledger g.history).since j
  history : ∃ e : Event, g'.history = g.history ++ [e] ∧ e.action.Live ∧ e.commits = false

structure Publishes (i : Nat) (p : Publication) (g g' : Logged) : Prop where
  db : g'.shared.db = p.publish g.shared.db
  revision : g'.shared.db.revision = g.shared.db.revision + 1
  record : ledger g'.history = (ledger g.history).publish p
  history : ∃ e : Event, g'.history = g.history ++ [e] ∧ e.action.Live ∧
    (e.commits = true → (ledger g.history).since e.sid = [])

section Steps

variable {cfg : Config} {db : Database} {i : Nat} {g g' : Logged} {p : Publication}

theorem Serial.extend {e : Event} (h : Serial db g) (hhistory : g'.history = g.history ++ [e])
    (hlive : e.action.Live)
    (he : e.commits = true → (ledger g.history).since e.sid = [])
    (hpublished : g'.shared.db = (ledger g'.history).published.foldl Publication.publish db) :
    Serial db g' := by
  refine ⟨?_, hpublished, fun h₁ e' h₂ hsplit hcommits => ?_⟩
  · rw [hhistory]
    exact List.forall_mem_append.2 ⟨h.live, List.forall_mem_singleton.2 hlive⟩
  rw [hhistory] at hsplit
  rcases List.eq_nil_or_concat h₂ with rfl | ⟨h₂', e'', rfl⟩
  · obtain ⟨rfl, hlast⟩ := List.append_inj' hsplit rfl
    obtain rfl : e = e' := by simpa using hlast
    exact he hcommits
  · rw [List.concat_eq_append, ← List.cons_append, ← List.append_assoc] at hsplit
    obtain ⟨hfront, -⟩ := List.append_inj' hsplit rfl
    exact h.alone h₁ e' h₂' hfront hcommits

theorem Still.guar (h : Still i g g') : (serialRules cfg db i).guar g g' := by
  obtain ⟨e, hhistory, hlive, hcommits⟩ := h.history
  refine ⟨fun j hj => ⟨(h.others j hj).1, by rw [h.db], fun _ => ⟨h.db, (h.others j hj).2⟩⟩,
    fun hserial => hserial.extend hhistory hlive (fun he => by rw [hcommits] at he; cases he) ?_⟩
  rw [h.db, h.published]
  exact hserial.published

theorem Publishes.guar (h : Publishes i p g g') : (serialRules cfg db i).guar g g' := by
  obtain ⟨e, hhistory, hlive, hcommits⟩ := h.history
  refine ⟨fun j _ => ⟨by rw [h.record]; rfl, by rw [h.revision]; exact Nat.le_succ _, ?_⟩,
    fun hserial => hserial.extend hhistory hlive hcommits ?_⟩
  · intro hrev
    rw [h.revision] at hrev
    omega
  · rw [h.db, h.record, Ledger.publish, List.foldl_append, ← hserial.published]
    rfl

end Steps

/-! ## The actions -/

section Actions

variable (cfg : Config) (i : Nat) (g : Logged)

theorem still_of_eq (a : Action) (hlive : a.Live)
    (hdb : (Logged.perform cfg.mode i a g).2.shared.db = g.shared.db)
    (hledger : ledger (Logged.perform cfg.mode i a g).2.history = ledger g.history)
    (hcommits : Event.commits ⟨i, a, (Logged.perform cfg.mode i a g).1⟩ = false) :
    Still i g (Logged.perform cfg.mode i a g).2 :=
  ⟨hdb, by rw [hledger], fun j _ => by rw [hledger]; exact ⟨rfl, rfl⟩, _, rfl, hlive, hcommits⟩

theorem perform_clone : Still i g (Logged.perform cfg.mode i .clone g).2 := by
  have hrecord : ledger (Logged.perform cfg.mode i .clone g).2.history =
      (ledger g.history).record ⟨i, .clone, g.shared.db.clone⟩ := ledger_append _ _
  refine ⟨rfl, by rw [hrecord]; rfl, fun j hj => ?_, _, rfl, trivial, rfl⟩
  rw [hrecord]
  simp only [Ledger.record, Function.update_of_ne hj, and_self]

theorem perform_execTx (tx : Database) (env : Env) (sql : Bytes) (hlive : env.Live) :
    Still i g (Logged.perform cfg.mode i (.execTx tx env sql) g).2 := by
  have hrecord : ledger (Logged.perform cfg.mode i (.execTx tx env sql) g).2.history =
      (ledger g.history).record ⟨i, .execTx tx env sql, tx.execWithOptions env sql⟩ :=
    ledger_append _ _
  rcases hanswer : tx.execWithOptions env sql with ⟨e | r, tx'⟩
  · rw [hanswer] at hrecord
    exact still_of_eq cfg i g _ hlive rfl hrecord rfl
  · rw [hanswer] at hrecord
    refine ⟨rfl, by rw [hrecord]; rfl, fun j hj => ?_, _, rfl, hlive, rfl⟩
    rw [hrecord]
    simp only [Ledger.record, Function.update_of_ne hj, and_self]

theorem perform_exec (env : Env) (sql : Bytes) (hlive : env.Live) :
    Still i g (Logged.perform cfg.mode i (.exec env sql) g).2 ∨
      Publishes i (.statement env sql) g (Logged.perform cfg.mode i (.exec env sql) g).2 := by
  have hrecord : ledger (Logged.perform cfg.mode i (.exec env sql) g).2.history =
      (ledger g.history).record ⟨i, .exec env sql, (g.shared.db.execWithOptions env sql).1⟩ :=
    ledger_append _ _
  have hrevision := g.shared.db.revision_execWithOptions env sql
  cases hanswer : (g.shared.db.execWithOptions env sql).1 with
  | error f =>
    rw [hanswer] at hrecord
    exact Or.inl (still_of_eq cfg i g _ hlive (Database.execWithOptions_error hlive hanswer)
      hrecord rfl)
  | ok r =>
    rw [hanswer] at hrecord hrevision
    cases hread : isReadOnly sql with
    | true =>
      refine Or.inl (still_of_eq cfg i g _ hlive (Database.execWithOptions_readOnly _ _ hread) ?_
        rfl)
      rw [hrecord]
      simp only [Ledger.record, isWriteSQL, hread, Bool.not_true, Bool.false_eq_true, if_false]
    | false =>
      refine Or.inr ⟨rfl, ?_, ?_, _, rfl, hlive, fun he => by cases he⟩
      · rw [hread] at hrevision
        exact hrevision
      · rw [hrecord]
        simp only [Ledger.record, isWriteSQL, hread, Bool.not_false, if_true]

theorem perform_commitFrom {tx : Database} (writes : List Bytes) (disk : Disk)
    (htx : tx.baseRevision = g.shared.db.revision →
      tx = g.shared.db.clone.runAll ((ledger g.history).onCopy i) ∧
        (ledger g.history).since i = []) :
    match (Logged.perform cfg.mode i (.commitFrom tx writes disk) g).1 with
    | .error _ => Still i g (Logged.perform cfg.mode i (.commitFrom tx writes disk) g).2 ∧
        ledger (Logged.perform cfg.mode i (.commitFrom tx writes disk) g).2.history =
          ledger g.history
    | .ok () => Publishes i (.commit ((ledger g.history).onCopy i)) g
        (Logged.perform cfg.mode i (.commitFrom tx writes disk) g).2 := by
  have hrecord : ledger (Logged.perform cfg.mode i (.commitFrom tx writes disk) g).2.history =
      (ledger g.history).record ⟨i, .commitFrom tx writes disk,
        (g.shared.commitFrom cfg.mode tx writes disk).1⟩ :=
    ledger_append _ _
  have hperform : Logged.perform cfg.mode i (.commitFrom tx writes disk) g =
      ((g.shared.commitFrom cfg.mode tx writes disk).1,
        { shared := (g.shared.commitFrom cfg.mode tx writes disk).2
          history := g.history ++ [⟨i, .commitFrom tx writes disk,
            (g.shared.commitFrom cfg.mode tx writes disk).1⟩] }) := rfl
  rcases g.shared.db.commitFrom_cases tx
    (g.shared.store.persist cfg.mode writes tx.cloneImage.tables disk).1 with
    ⟨e, hfail⟩ | ⟨hrev, -, hdone⟩
  · have hanswer : (g.shared.commitFrom cfg.mode tx writes disk).1 = .error e := by
      simp only [Shared.commitFrom, hfail]
    have hdb : (g.shared.commitFrom cfg.mode tx writes disk).2.db = g.shared.db := by
      simp only [Shared.commitFrom, hfail]
    rw [hanswer] at hrecord hperform
    rw [hperform] at hrecord ⊢
    exact ⟨⟨hdb, by rw [hrecord]; rfl, fun j _ => by rw [hrecord]; exact ⟨rfl, rfl⟩, _, rfl,
      trivial, rfl⟩, hrecord⟩
  · have hanswer : (g.shared.commitFrom cfg.mode tx writes disk).1 = .ok () := by
      simp only [Shared.commitFrom, hdone]
    have hdb : (g.shared.commitFrom cfg.mode tx writes disk).2.db =
        { g.shared.db with
          tables := tx.cloneImage.tables
          revision := g.shared.db.revision + 1 } := by
      simp only [Shared.commitFrom, hdone]
    rw [hanswer] at hrecord hperform
    rw [hperform] at hrecord ⊢
    obtain ⟨hcopy, hsince⟩ := htx hrev.symm
    refine ⟨?_, by simp only [hdb], hrecord, _, rfl, trivial, fun _ => hsince⟩
    simp only [hdb, Publication.publish, ← hcopy]

end Actions

/-! ## What a session knows -/

/-- A copy was taken at an earlier revision, or it is the shared database with the statements of
the session applied. -/
structure Current (i : Nat) (tx : Database) (g : Logged) : Prop where
  base : tx.baseRevision ≤ g.shared.db.revision
  exact : tx.baseRevision = g.shared.db.revision →
    tx = g.shared.db.clone.runAll ((ledger g.history).onCopy i) ∧ (ledger g.history).since i = []

section Current

variable {i : Nat} {tx : Database} {g g' : Logged}

theorem Current.undisturbed (h : Current i tx g) (hg : Undisturbed i g g') : Current i tx g' where
  base := Nat.le_trans h.base hg.revision
  exact hrev := by
    have hbase := h.base
    have hgrow := hg.revision
    obtain ⟨hdb, hsince⟩ := hg.same (by omega)
    rw [hdb, hg.onCopy, hsince]
    exact h.exact (by omega)

theorem Current.keep (h : Current i tx g) (hdb : g'.shared.db = g.shared.db)
    (hledger : ledger g'.history = ledger g.history) : Current i tx g' :=
  h.undisturbed ⟨by rw [hledger], by rw [hdb], fun _ => ⟨hdb, by rw [hledger]⟩⟩

theorem Current.clone (cfg : Config) : Current i (Logged.perform cfg.mode i .clone g).1
    (Logged.perform cfg.mode i .clone g).2 := by
  have hrecord : ledger (Logged.perform cfg.mode i .clone g).2.history =
      (ledger g.history).record ⟨i, .clone, g.shared.db.clone⟩ := ledger_append _ _
  refine ⟨Nat.le_refl _, fun _ => ?_⟩
  rw [hrecord]
  simp only [Ledger.record, Function.update_self, and_true]
  rfl

theorem Current.execTx (cfg : Config) {env : Env} {sql : Bytes} (hlive : env.Live)
    (h : Current i tx g) :
    Current i (tx.execWithOptions env sql).2
      (Logged.perform cfg.mode i (.execTx tx env sql) g).2 := by
  have hrecord : ledger (Logged.perform cfg.mode i (.execTx tx env sql) g).2.history =
      (ledger g.history).record ⟨i, .execTx tx env sql, tx.execWithOptions env sql⟩ :=
    ledger_append _ _
  cases hanswer : tx.execWithOptions env sql with
  | mk answer tx' =>
    rw [hanswer] at hrecord
    cases answer with
    | error f =>
      have hsame := Database.execWithOptions_error hlive (congrArg Prod.fst hanswer)
      rw [hanswer] at hsame
      rw [show tx' = tx from hsame]
      exact h.keep rfl hrecord
    | ok r =>
      have hbase := tx.baseRevision_execWithOptions env sql
      rw [hanswer] at hbase
      refine ⟨hbase ▸ h.base, fun hrev => ?_⟩
      obtain ⟨hcopy, hsince⟩ := h.exact (hbase ▸ hrev)
      rw [hrecord]
      simp only [Ledger.record, Function.update_self, Database.runAll_append]
      refine ⟨?_, hsince⟩
      change tx' = ((g.shared.db.clone.runAll _).execWithOptions env sql).2
      rw [← hcopy, hanswer]

end Current

theorem persist_current {cfg : Config} {db : Database} {i : Nat} {copy : Copy} (owed : List Bytes)
    (disk : Disk) {g : Logged} (h : ∀ p ∈ copy, Current i p.1 g) :
    (persistStatements cfg.mode owed disk).Spec (serialRules cfg db i)
      (fun _ g' => ∀ p ∈ copy, Current i p.1 g') g := by
  have hreturn : ∀ (answer : Except Bytes Unit) (g' : Logged), (∀ p ∈ copy, Current i p.1 g') →
      (Proc.ret answer).Spec (serialRules cfg db i)
        (fun _ g' => ∀ p ∈ copy, Current i p.1 g') g' := fun answer g' hg' g'' hrely p hp =>
    (hg' p hp).undisturbed hrely
  -- one silent action
  have hact : ∀ (a : Action) (g₁ : Logged), a.Live → (∀ p ∈ copy, Current i p.1 g₁) →
      (∀ g, (Logged.perform cfg.mode i a g).2.shared.db = g.shared.db) →
      (∀ g, ledger (Logged.perform cfg.mode i a g).2.history = ledger g.history) →
      (∀ g, Event.commits ⟨i, a, (Logged.perform cfg.mode i a g).1⟩ = false) →
      ∀ k : a.Answer → Handler (Except Bytes Unit),
      (∀ answer g', (∀ p ∈ copy, Current i p.1 g') → (k answer).Spec (serialRules cfg db i)
        (fun _ g' => ∀ p ∈ copy, Current i p.1 g') g') →
      (Proc.act a k).Spec (serialRules cfg db i) (fun _ g' => ∀ p ∈ copy, Current i p.1 g') g₁ :=
    fun a g₁ hlive hg₁ hdb hledger hcommits k hk g' hrely _ =>
      ⟨(still_of_eq cfg i g' a hlive (hdb g') (hledger g') (hcommits g')).guar,
        hk _ _ fun p hp => ((hg₁ p hp).undisturbed hrely).keep (hdb g') (hledger g')⟩
  unfold persistStatements
  split
  · exact hact (.append owed disk) g trivial h (fun _ => rfl) (fun _ => ledger_append _ _)
      (fun _ => rfl) _ hreturn
  · split
    · exact hreturn _ _ h
    · refine hact .image g trivial h (fun _ => rfl) (fun _ => ledger_append _ _) (fun _ => rfl) _
        fun tables g' hg' => ?_
      exact hact (.save tables disk) g' trivial hg' (fun _ => rfl) (fun _ => ledger_append _ _)
        (fun _ => rfl) _ hreturn
  · exact hreturn _ _ h

def serialDiscipline (cfg : Config) (db : Database) (i : Nat) :
    Discipline cfg Env.Live (serialRules cfg db i) where
  Knows copy _ g := ∀ p ∈ copy, Current i p.1 g
  stable hg h p hp := (h p hp).undisturbed hg
  forget _ p hp := by cases hp
  rowCount_step {owed g} h _ :=
    ⟨(still_of_eq cfg i g .rowCount trivial rfl (ledger_append _ _) rfl).guar,
    fun p hp => by cases hp⟩
  clone_step {owed g} h _ := by
    refine ⟨(perform_clone cfg i g).guar, fun p hp => ?_⟩
    cases hp
    exact Current.clone cfg
  exec_step {c owed g} hlive h _ := by
    refine ⟨?_, ?_⟩
    · rcases perform_exec cfg i g (cfg.env c) c.sql hlive with hstill | hpublishes
      · exact hstill.guar
      · exact hpublishes.guar
    · split <;> exact fun p hp => by cases hp
  execTx_step {c tx writes owed g} hlive h _ := by
    have hcurrent : Current i
        ((serialRules cfg db i).handle (.execTx tx (cfg.env c) c.sql) g).1.2
        ((serialRules cfg db i).handle (.execTx tx (cfg.env c) c.sql) g).2 :=
      (h _ rfl).execTx cfg hlive
    refine ⟨(perform_execTx cfg i g tx (cfg.env c) c.sql hlive).guar, ?_⟩
    generalize (serialRules cfg db i).handle (.execTx tx (cfg.env c) c.sql) g = answer at hcurrent
    obtain ⟨⟨e | r, tx'⟩, g'⟩ := answer
    · rintro p ⟨⟩
      exact hcurrent
    · rintro p ⟨⟩
      exact hcurrent
  commitFrom_step {tx writes owed disk g} h _ := by
    have hstep := perform_commitFrom cfg i g writes disk (h _ rfl).exact
    have hhandle : (serialRules cfg db i).handle (.commitFrom tx writes disk) g =
        Logged.perform cfg.mode i (.commitFrom tx writes disk) g := rfl
    rw [hhandle]
    rcases hperform : Logged.perform cfg.mode i (.commitFrom tx writes disk) g with ⟨e | u, g'⟩
    · rw [hperform] at hstep
      exact ⟨hstep.1.guar, fun p hp => (h p hp).keep hstep.1.db hstep.2⟩
    · rw [hperform] at hstep
      exact ⟨hstep.guar, fun p hp => by cases hp⟩
  persist_spec {copy owed disk g} h := persist_current owed disk h

/-- **Transactions are serializable.** After every run the shared database is what the published
statements make of the initial one, executed in the order of publication, unless one inserts a count
of an index bucket; and a copy was published only if nothing had been published since it was
taken. -/
theorem serializable (cfg : Config) (sh : Shared) (hsound : sh.db.Sound)
    {l : List (Move Nat Request)} (hl : ∀ i q, Move.send i q ∈ l → q.Live cfg) :
    let g := ((startOn sh).run (localServer cfg) l).shared
    let statements := (ledger g.history).published.flatMap Publication.statements
    (sh.db.plain statements = true → Matches g.shared.db (sh.db.runAll statements)) ∧
      ∀ (h₁ : List Event) (e : Event) (h₂ : List Event), g.history = h₁ ++ e :: h₂ →
        e.commits = true → (ledger h₁).since e.sid = [] := by
  have hstart : (startOn sh).Holds (serialRules cfg sh.db)
      fun i => (serialDiscipline cfg sh.db i).Between false :=
    fun i g' _ => ⟨fun p hp => (by cases hp), rfl, fun _ => rfl⟩
  have hserial : Serial sh.db (startOn sh).shared := by
    refine ⟨List.forall_mem_nil _, rfl, fun h₁ e h₂ hsplit => ?_⟩
    simp [startOn] at hsplit
  have hhandle : ∀ i, (serialRules cfg sh.db i).handle = (localServer cfg).handle i := fun _ => rfl
  have hkeeps : ∀ i g g', (serialRules cfg sh.db i).guar g g' → Serial sh.db g → Serial sh.db g' :=
    fun _ _ _ hg => hg.2
  have hserve : ∀ i q s g, Request.Live cfg q → (serialDiscipline cfg sh.db i).Between false s g →
      ((localServer cfg).serve q s).Spec (serialRules cfg sh.db i)
        (fun r => (serialDiscipline cfg sh.db i).Between false r.2) g :=
    fun i q s g hq hs => (serialDiscipline cfg sh.db i).executeRequest_spec hq hs
  obtain ⟨-, hrun⟩ := World.Holds.run hhandle (fun i j s s' hj hg => hg.1 j hj) hserve
    (fun _ _ _ _ _ => trivial) hkeeps hstart hserial
    (World.Runs.of_requests (fun _ _ _ => trivial) hl : (startOn sh).Runs (localServer cfg)
      (Request.Live cfg) (fun _ _ _ => True) l)
  refine ⟨fun hplain => ?_, hrun.alone⟩
  rw [hrun.published]
  exact matches_of_same (Publication.foldl_publish (ledger_live hrun.live).published
    (Database.Same.refl _) hsound hsound hplain).symm

/-- A transaction of session 0 that reads while session 1 writes, and one of session 1 that
writes. -/
def readerAndWriter : List (Move Nat Request) :=
  [.send 0 (request "BEGIN"), .act 0, .send 1 (request "CREATE TABLE t (v INT)"), .act 1,
    .send 1 (request "BEGIN"), .act 1, .send 1 (request "INSERT INTO t VALUES (1)"), .act 1,
    .send 1 (request "COMMIT"), .act 1, .send 0 (request "COMMIT")]

/-- A row in a table with an index, whose fast array is empty; but the table has kept the position
that the column `b` had in an array before another column was dropped. -/
def leftBehind : Database :=
  let db := Database.runAll {}
    (script ["CREATE TABLE u (n TEXT)", "CREATE TABLE t (b TEXT, c BOOL)",
    "CREATE INDEX i ON t (b)", "INSERT INTO t VALUES ('true', TRUE)"])
  { db with tables := db.tables.map fun _ t =>
      { t.clearFast with fastColumns := (∅ : Map Nat).insert (str "b") 1 } }

theorem leftBehind_sound : leftBehind.Sound := by
  intro name t ht
  simp only [leftBehind, Map.get?_map] at ht
  obtain ⟨u, hu, rfl⟩ := Option.map_eq_some_iff.1 ht
  have hwf := (Database.runAll_fastInv (uncancelled_script _) name u hu).1
  exact ⟨hwf.congr rfl rfl, .bare rfl fun _ => Map.get?_empty _⟩

/-- A transaction that inserts a count of an index bucket. -/
def countInTransaction : List (Move Nat Request) :=
  [.send 0 (request "BEGIN"), .act 0,
    .send 0 (request "INSERT INTO u SELECT COUNT(*) FROM t WHERE b = 'true'"), .act 0,
    .send 0 (request "COMMIT"), .act 0]

/-- A transaction without writes commits whatever has been published since its BEGIN; and a count of
an index bucket on the copy of a transaction can differ from the one on the database. -/
theorem serializable_readerCommits :
    (((startOn {}).run (localServer {}) readerAndWriter).replies.getLast? =
        some (0, .single (.message (str "COMMIT ok"))) ∧
      ((ledger ((startOn {}).run (localServer {}) readerAndWriter).shared.history).since 0).length =
        2) ∧
    leftBehind.Sound ∧
      let g := ((startOn { db := leftBehind }).run (localServer {}) countInTransaction).shared
      ¬Matches g.shared.db (leftBehind.runAll
        ((ledger g.history).published.flatMap Publication.statements)) := by
  refine ⟨by decide +kernel, leftBehind_sound, fun h => ?_⟩
  have hcells :=
    congrArg (Option.map fun t => t.rows.values.map (Row.get · (str "n"))) (h (str "u"))
  revert hcells
  decide +kernel

theorem serializable_readerAndWriter :
    let g := ((startOn {}).run (localServer {}) readerAndWriter).shared
    let statements := (ledger g.history).published.flatMap Publication.statements
    statements.length = 2 ∧ Matches g.shared.db (Database.runAll {} statements) :=
  ⟨by decide +kernel, (serializable {} {} Database.sound_empty
    fun _ q _ => q.live_of_untimed rfl).1 (by decide +kernel)⟩

end SuperDB.Server
