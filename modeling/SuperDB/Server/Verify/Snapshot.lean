import SuperDB.Engine.Verify.Clone
import SuperDB.Server.Verify.Discipline

/-!
# Snapshots and acknowledged writes

In snapshot mode a session applies its write, encodes an image of the shared database and puts the
image into the place of the file; the three are separate steps. What the file holds is described by
positions in the history: that of each write, and that at which the image in the file was encoded.
The file holds every acknowledged write as long as no image is put into the place of a newer one.
-/

namespace SuperDB.Server

open Go Engine

/-! ## Positions -/

/-- Positions in a history: how long it is; for each session where its writes were applied, those
aside for which it has been told that they were not persisted, and where its last image was encoded;
and where the image in the file was. -/
structure Files where
  length : Nat := 0
  own : Nat → List Nat := fun _ => []
  imaged : Nat → Nat := fun _ => 0
  saved : Nat := 0

def Files.next (f : Files) : Files := { f with length := f.length + 1 }

def Files.write (sid : Nat) (f : Files) : Files :=
  { f.next with own := Function.update f.own sid (f.own sid ++ [f.length + 1]) }

def Files.record (f : Files) : Event → Files
  | ⟨sid, .exec _ sql, .ok _⟩ => if isWriteSQL sql then f.write sid else f.next
  | ⟨sid, .commitFrom _ sqls _, .ok ()⟩ =>
    -- the image of what is published is put into its place under the same lock
    if sqls.isEmpty then f.next else { f.write sid with saved := f.length + 1 }
  | ⟨sid, .image, _⟩ => { f.next with imaged := Function.update f.imaged sid (f.length + 1) }
  | ⟨sid, .save _ _, .ok ()⟩ => { f.next with saved := f.imaged sid }
  | ⟨sid, .save _ _, .error _⟩ => { f.next with own := Function.update f.own sid [] }
  | _ => f.next

def files (history : List Event) : Files := history.foldl Files.record {}

def stateAt (mode : Mode) (sh : Shared) (history : List Event) : Shared :=
  history.foldl (fun s e => (e.action.run mode s).2) sh

theorem files_append (history : List Event) (e : Event) :
    files (history ++ [e]) = (files history).record e := by
  simp only [files, List.foldl_append, List.foldl_cons, List.foldl_nil]

theorem stateAt_append (mode : Mode) (sh : Shared) (history : List Event) (e : Event) :
    stateAt mode sh (history ++ [e]) = (e.action.run mode (stateAt mode sh history)).2 := by
  simp only [stateAt, List.foldl_append, List.foldl_cons, List.foldl_nil]

section Record

variable (f : Files) (e : Event)

theorem Files.record_cases :
    f.record e = f.next ∨ f.record e = f.write e.sid ∨
      f.record e = { f.write e.sid with saved := f.length + 1 } ∨
      f.record e = { f.next with imaged := Function.update f.imaged e.sid (f.length + 1) } ∨
      f.record e = { f.next with saved := f.imaged e.sid } ∨
      f.record e = { f.next with own := Function.update f.own e.sid [] } := by
  obtain ⟨sid, a, answer⟩ := e
  cases a with
  | exec env sql =>
    cases answer with
    | error e => exact Or.inl rfl
    | ok r =>
      simp only [Files.record]
      split
      · exact Or.inr (Or.inl rfl)
      · exact Or.inl rfl
  | commitFrom source sqls disk =>
    cases answer with
    | error e => exact Or.inl rfl
    | ok u =>
      simp only [Files.record]
      split
      · exact Or.inl rfl
      · exact Or.inr (Or.inr (Or.inl rfl))
  | image => exact Or.inr (Or.inr (Or.inr (Or.inl rfl)))
  | save tables disk =>
    cases answer with
    | error e => exact Or.inr (Or.inr (Or.inr (Or.inr (Or.inr rfl))))
    | ok u => exact Or.inr (Or.inr (Or.inr (Or.inr (Or.inl rfl))))
  | _ => exact Or.inl rfl

theorem Files.length_record : (f.record e).length = f.length + 1 := by
  rcases f.record_cases e with h | h | h | h | h | h <;> rw [h] <;> rfl

theorem Files.record_other {j : Nat} (hj : j ≠ e.sid) :
    (f.record e).own j = f.own j ∧ (f.record e).imaged j = f.imaged j := by
  rcases f.record_cases e with h | h | h | h | h | h <;> rw [h] <;>
    simp [Files.next, Files.write, Function.update_of_ne hj]

theorem Files.own_record (h : ∀ i, ∀ p ∈ f.own i, 1 ≤ p ∧ p ≤ f.length) :
    ∀ i, ∀ p ∈ (f.record e).own i, 1 ≤ p ∧ p ≤ f.length + 1 := by
  intro i p hp
  have hold : ∀ p ∈ f.own i, 1 ≤ p ∧ p ≤ f.length + 1 := fun p hp =>
    ⟨(h i p hp).1, Nat.le_succ_of_le (h i p hp).2⟩
  by_cases hi : i = e.sid
  · subst hi
    have hwrite : ∀ p ∈ f.own e.sid ++ [f.length + 1], 1 ≤ p ∧ p ≤ f.length + 1 := by
      intro p hp
      rcases List.mem_append.1 hp with hp | hp
      · exact hold p hp
      · rw [List.mem_singleton.1 hp]
        omega
    rcases f.record_cases e with hr | hr | hr | hr | hr | hr <;>
      simp only [hr, Files.next, Files.write, Function.update_self] at hp
    · exact hold p hp
    · exact hwrite p hp
    · exact hwrite p hp
    · exact hold p hp
    · exact hold p hp
    · cases hp
  · rw [(f.record_other e hi).1] at hp
    exact hold p hp

end Record

/-! ## The file -/

/-- The positions describe the history, and the file is the image encoded at the position that is
given for it. -/
structure FileOk (mode : Mode) (sh : Shared) (g : Logged) : Prop where
  shared : g.shared = stateAt mode sh g.history
  length : (files g.history).length = g.history.length
  own : ∀ i, ∀ p ∈ (files g.history).own i, 1 ≤ p ∧ p ≤ (files g.history).length
  saved : (files g.history).saved ≤ (files g.history).length
  file : (files g.history).saved = 0 ∨ g.shared.store.snapshot =
    some (stateAt mode sh (g.history.take (files g.history).saved)).db.tables

/-- What a session relies on: the others do not touch its entries, and the image in the file only
gets newer. -/
structure Forward (i : Nat) (g g' : Logged) : Prop where
  own : (files g'.history).own i = (files g.history).own i
  imaged : (files g'.history).imaged i = (files g.history).imaged i
  saved : (files g.history).saved ≤ (files g'.history).saved
  history : g.history <+: g'.history

/-- The condition on a run: an image is not put into the place of a newer one. -/
def Installs (i : Nat) (a : Action) (g : Logged) : Prop :=
  match a with
  | .save _ _ => (files g.history).saved ≤ (files g.history).imaged i
  | _ => True

instance (i : Nat) (a : Action) (g : Logged) : Decidable (Installs i a g) := by
  unfold Installs
  split <;> infer_instance

def fileRules (cfg : Config) (sh : Shared) (i : Nat) : Rules Action Action.Answer Logged where
  handle := Logged.perform cfg.mode i
  pre a g := FileOk cfg.mode sh g ∧ Installs i a g
  rely := Forward i
  guar g g' := (∀ j, j ≠ i → Forward j g g') ∧ (FileOk cfg.mode sh g → FileOk cfg.mode sh g') ∧
    (files g.history).saved ≤ (files g'.history).saved
  rely_refl _ := ⟨rfl, rfl, Nat.le_refl _, List.prefix_refl _⟩
  rely_trans h h' := ⟨h'.own.trans h.own, h'.imaged.trans h.imaged, Nat.le_trans h.saved h'.saved,
    h.history.trans h'.history⟩

section Steps

variable {cfg : Config} {sh : Shared} {i : Nat} {g : Logged} {a : Action}

theorem fileRules_guar (hok : FileOk cfg.mode sh g) {f : Files}
    (hf : (files g.history).record ⟨i, a, (a.run cfg.mode g.shared).1⟩ = f)
    (hsaved : (files g.history).saved ≤ f.saved)
    (hfile : f.saved = (files g.history).saved ∧
        (a.run cfg.mode g.shared).2.store.snapshot = g.shared.store.snapshot ∨
      f.saved = (files g.history).length + 1 ∧ (a.run cfg.mode g.shared).2.store.snapshot =
        some (a.run cfg.mode g.shared).2.db.tables ∨
      f.saved ≤ (files g.history).length ∧ (a.run cfg.mode g.shared).2.store.snapshot =
        some (stateAt cfg.mode sh (g.history.take f.saved)).db.tables) :
    (fileRules cfg sh i).guar g (Logged.perform cfg.mode i a g).2 := by
  have hfiles : files (Logged.perform cfg.mode i a g).2.history = f := by
    rw [← hf]
    exact files_append _ _
  have hlength : f.length = (files g.history).length + 1 := by
    rw [← hf]
    exact Files.length_record _ _
  have hstate : (Logged.perform cfg.mode i a g).2.shared =
      stateAt cfg.mode sh (Logged.perform cfg.mode i a g).2.history := by
    have happend := stateAt_append cfg.mode sh g.history ⟨i, a, (a.run cfg.mode g.shared).1⟩
    rw [← hok.shared] at happend
    exact happend.symm
  have htake : ∀ n, n ≤ g.history.length →
      (Logged.perform cfg.mode i a g).2.history.take n = g.history.take n := fun n hn =>
    List.take_append_of_le_length hn
  refine ⟨fun j hj => ?_, fun _ => ⟨hstate, ?_, ?_, ?_, ?_⟩, by rw [hfiles]; exact hsaved⟩
  · obtain ⟨hown, himaged⟩ := (files g.history).record_other
      ⟨i, a, (a.run cfg.mode g.shared).1⟩ hj
    rw [hf] at hown himaged
    refine ⟨?_, ?_, ?_, List.prefix_append _ _⟩ <;> rw [hfiles]
    · exact hown
    · exact himaged
    · exact hsaved
  · rw [hfiles, hlength, hok.length]
    simp only [Logged.perform, List.length_append, List.length_singleton]
  · rw [hfiles, hlength, ← hf]
    exact Files.own_record _ _ hok.own
  · have hle := hok.saved
    rw [hfiles, hlength]
    rcases hfile with ⟨h, -⟩ | ⟨h, -⟩ | ⟨h, -⟩ <;> omega
  · rw [hfiles]
    rcases hfile with ⟨hsame, hsnap⟩ | ⟨hnow, hsnap⟩ | ⟨hold, hsnap⟩
    · rw [hsame, htake _ (hok.length ▸ hok.saved)]
      refine hok.file.imp_right fun hfile => ?_
      exact hsnap.trans hfile
    · refine Or.inr ?_
      rw [hnow, hok.length]
      have hall : (Logged.perform cfg.mode i a g).2.history.take (g.history.length + 1) =
          (Logged.perform cfg.mode i a g).2.history := by
        apply List.take_of_length_le
        exact Nat.le_of_eq List.length_append
      rw [hall, ← hstate]
      exact hsnap
    · rw [htake _ (hok.length ▸ hold)]
      exact Or.inr hsnap

theorem files_perform : files (Logged.perform cfg.mode i a g).2.history =
    (files g.history).record ⟨i, a, (a.run cfg.mode g.shared).1⟩ :=
  files_append _ _

theorem quiet_guar (hok : FileOk cfg.mode sh g)
    (hf : (files g.history).record ⟨i, a, (a.run cfg.mode g.shared).1⟩ = (files g.history).next)
    (hsnap : (a.run cfg.mode g.shared).2.store.snapshot = g.shared.store.snapshot) :
    (fileRules cfg sh i).guar g (Logged.perform cfg.mode i a g).2 :=
  fileRules_guar hok hf (Nat.le_refl _) (Or.inl ⟨rfl, hsnap⟩)

end Steps

/-! ## What a session knows -/

def Recorded (i : Nat) (g : Logged) : Prop :=
  ∀ p ∈ (files g.history).own i, p ≤ (files g.history).saved

structure Holding (mode : Mode) (sh : Shared) (i : Nat) (tables : Map Table) (g : Logged) :
    Prop where
  own : ∀ p ∈ (files g.history).own i, p ≤ (files g.history).imaged i
  imaged : (files g.history).imaged i ≤ g.history.length
  tables : tables = (stateAt mode sh (g.history.take ((files g.history).imaged i))).db.tables

section Knowledge

variable {cfg : Config} {sh : Shared} {i : Nat} {g g' : Logged}

theorem Recorded.forward (h : Recorded i g) (hg : Forward i g g') : Recorded i g' := by
  intro p hp
  rw [hg.own] at hp
  exact Nat.le_trans (h p hp) hg.saved

theorem Holding.forward {tables : Map Table} (h : Holding cfg.mode sh i tables g)
    (hg : Forward i g g') : Holding cfg.mode sh i tables g' where
  own := by
    rw [hg.own, hg.imaged]
    exact h.own
  imaged := by
    rw [hg.imaged]
    exact Nat.le_trans h.imaged hg.history.length_le
  tables := by
    obtain ⟨rest, hrest⟩ := hg.history
    rw [hg.imaged, ← hrest, List.take_append_of_le_length h.imaged]
    exact h.tables

theorem Recorded.keep {f : Files} (h : Recorded i g) (hf : files g'.history = f)
    (hown : f.own i = (files g.history).own i) (hsaved : f.saved = (files g.history).saved) :
    Recorded i g' := by
  intro p hp
  rw [hf, hown] at hp
  rw [hf, hsaved]
  exact h p hp

end Knowledge

section Persist

variable {cfg : Config} {sh : Shared} {i : Nat} {g : Logged}

theorem holding_image (hok : FileOk cfg.mode sh g) :
    (fileRules cfg sh i).guar g (Logged.perform cfg.mode i .image g).2 ∧
      Holding cfg.mode sh i (Logged.perform cfg.mode i .image g).1
        (Logged.perform cfg.mode i .image g).2 := by
  have hfiles : files (Logged.perform cfg.mode i .image g).2.history =
      { (files g.history).next with
        imaged := Function.update (files g.history).imaged i ((files g.history).length + 1) } :=
    files_perform
  have hlength : (Logged.perform cfg.mode i .image g).2.history.length = g.history.length + 1 := by
    simp only [Logged.perform, List.length_append, List.length_singleton]
  refine ⟨fileRules_guar hok rfl (Nat.le_refl _) (Or.inl ⟨rfl, rfl⟩), ?_, ?_, ?_⟩
  · rw [hfiles]
    simp only [Function.update_self]
    exact fun p hp => Nat.le_succ_of_le (hok.own i p hp).2
  · rw [hfiles, hlength, ← hok.length]
    simp only [Function.update_self, Nat.le_refl]
  · rw [hfiles]
    simp only [Function.update_self]
    rw [hok.length, List.take_of_length_le (Nat.le_of_eq hlength)]
    have happend := stateAt_append cfg.mode sh g.history
      ⟨i, .image, (Action.image.run cfg.mode g.shared).1⟩
    rw [← hok.shared] at happend
    exact (congrArg (·.db.tables) happend).symm

theorem recorded_save {tables : Map Table} {disk : Disk} (hok : FileOk cfg.mode sh g)
    (hforward : (files g.history).saved ≤ (files g.history).imaged i)
    (h : Holding cfg.mode sh i tables g) :
    (fileRules cfg sh i).guar g (Logged.perform cfg.mode i (.save tables disk) g).2 ∧
      Recorded i (Logged.perform cfg.mode i (.save tables disk) g).2 := by
  have hfiles : files (Logged.perform cfg.mode i (.save tables disk) g).2.history =
      (files g.history).record ⟨i, .save tables disk,
        ((Action.save tables disk).run cfg.mode g.shared).1⟩ := files_perform
  rcases g.shared.store.save_cases tables disk with ⟨-, -, hsave⟩ | ⟨-, e, hsave⟩
  · have hrun : (Action.save tables disk).run cfg.mode g.shared =
        (.ok (), { g.shared with store.snapshot := some tables }) := by
      simp only [Action.run, hsave]
    rw [hrun] at hfiles
    refine ⟨fileRules_guar hok (by rw [hrun]) hforward (Or.inr (Or.inr ⟨?_, ?_⟩)), ?_⟩
    · rw [hok.length]
      exact h.imaged
    · rw [hrun]
      exact congrArg some h.tables
    · intro p hp
      rw [hfiles] at hp ⊢
      exact h.own p hp
  · have hrun : (Action.save tables disk).run cfg.mode g.shared = (.error e, g.shared) := by
      simp only [Action.run, hsave]
    rw [hrun] at hfiles
    refine ⟨fileRules_guar hok (f := (files g.history).record ⟨i, .save tables disk, .error e⟩)
      (by rw [hrun]) (Nat.le_refl _) (Or.inl ⟨rfl, by rw [hrun]⟩), ?_⟩
    intro p hp
    rw [hfiles] at hp
    simp [Files.record] at hp

theorem persist_recorded (hmode : cfg.mode = .snapshot) {owed : List Bytes} {disk : Disk}
    (h : owed = [] → Recorded i g) :
    (persistStatements cfg.mode owed disk).Spec (fileRules cfg sh i)
      (fun _ g' => Recorded i g') g := by
  have hreturn : ∀ (answer : Except Bytes Unit) (g' : Logged), Recorded i g' →
      (Proc.ret answer).Spec (fileRules cfg sh i) (fun _ g' => Recorded i g') g' :=
    fun _ g' hg' g'' hrely => hg'.forward hrely
  rw [hmode]
  simp only [persistStatements]
  split
  · next hempty => exact hreturn _ _ (h (List.isEmpty_iff.1 hempty))
  · intro g₁ _ hpre
    obtain ⟨hguar, hholding⟩ := holding_image (i := i) hpre.1
    refine ⟨hguar, fun g₂ hrely hpre₂ => ?_⟩
    obtain ⟨hguar₂, hrecorded⟩ := recorded_save hpre₂.1 hpre₂.2 (hholding.forward hrely)
    exact ⟨hguar₂, hreturn _ _ hrecorded⟩

end Persist

/-! ## Publishing -/

theorem commitFrom_file (sh : Shared) (source : Database) (sqls : List Bytes) (disk : Disk) :
    match (sh.commitFrom .snapshot source sqls disk).1 with
    | .error _ => (sh.commitFrom .snapshot source sqls disk).2.store.snapshot = sh.store.snapshot
    | .ok () =>
      if sqls.isEmpty then
        (sh.commitFrom .snapshot source sqls disk).2.store.snapshot = sh.store.snapshot
      else (sh.commitFrom .snapshot source sqls disk).2.store.snapshot =
        some (sh.commitFrom .snapshot source sqls disk).2.db.tables := by
  rcases sh.db.commitFrom_cases source
    (sh.store.persist .snapshot sqls source.cloneImage.tables disk).1 with
    ⟨e, hfail⟩ | ⟨hrev, hpersist, hdone⟩
  · simp only [Shared.commitFrom, hfail]
    split
    · next hrev =>
      simp only [Database.commitFrom, hrev, ne_eq, not_true_eq_false, if_false] at hfail
      simp only [Store.persist] at hfail ⊢
      split
      · rfl
      · next hne =>
        rw [if_neg hne] at hfail
        rcases sh.store.save_cases source.cloneImage.tables disk with
          ⟨-, -, hsave⟩ | ⟨-, e', hsave⟩
        · rw [hsave] at hfail
          cases hfail
        · rw [hsave]
    · rfl
  · simp only [Shared.commitFrom, hdone, hrev, if_true]
    simp only [Store.persist] at hpersist ⊢
    split
    · next hempty => rfl
    · next hne =>
      rw [if_neg hne] at hpersist
      rcases sh.store.save_cases source.cloneImage.tables disk with
        ⟨-, -, hsave⟩ | ⟨-, e, hsave⟩
      · rw [hsave]
      · rw [hsave] at hpersist
        cases hpersist

section Actions

variable {cfg : Config} {sh : Shared} {i : Nat} {g : Logged}

theorem exec_recorded (env : Env) (sql : Bytes) (hok : FileOk cfg.mode sh g) :
    (fileRules cfg sh i).guar g (Logged.perform cfg.mode i (.exec env sql) g).2 ∧
      match (Logged.perform cfg.mode i (.exec env sql) g).1 with
      | .ok _ => isWriteSQL sql = false → Recorded i g →
          Recorded i (Logged.perform cfg.mode i (.exec env sql) g).2
      | .error _ => Recorded i g → Recorded i (Logged.perform cfg.mode i (.exec env sql) g).2 := by
  have hfiles : files (Logged.perform cfg.mode i (.exec env sql) g).2.history =
      (files g.history).record ⟨i, .exec env sql, (g.shared.db.execWithOptions env sql).1⟩ :=
    files_perform
  have hanswer : (Logged.perform cfg.mode i (.exec env sql) g).1 =
      (g.shared.db.execWithOptions env sql).1 := rfl
  have hguar : ∀ f, (files g.history).record ⟨i, .exec env sql,
      (g.shared.db.execWithOptions env sql).1⟩ = f → f.saved = (files g.history).saved →
      (fileRules cfg sh i).guar g (Logged.perform cfg.mode i (.exec env sql) g).2 :=
    fun f hf hsaved => fileRules_guar hok hf (Nat.le_of_eq hsaved.symm) (Or.inl ⟨hsaved, rfl⟩)
  rw [hanswer]
  cases hresult : (g.shared.db.execWithOptions env sql).1 with
  | error e =>
    rw [hresult] at hfiles hguar
    exact ⟨hguar _ rfl rfl, fun h => h.keep hfiles rfl rfl⟩
  | ok r =>
    rw [hresult] at hfiles hguar
    cases hwrite : isWriteSQL sql with
    | true =>
      refine ⟨hguar _ rfl ?_, fun hfalse => by cases hfalse⟩
      simp only [Files.record, hwrite, if_true]
      rfl
    | false =>
      have hnext : (files g.history).record ⟨i, .exec env sql, .ok r⟩ = (files g.history).next := by
        simp only [Files.record, hwrite, Bool.false_eq_true, if_false]
      rw [hnext] at hfiles
      exact ⟨hguar _ hnext rfl, fun _ h => h.keep hfiles rfl rfl⟩

theorem commitFrom_recorded (hmode : cfg.mode = .snapshot) (tx : Database) (writes : List Bytes)
    (disk : Disk) (hok : FileOk cfg.mode sh g) :
    (fileRules cfg sh i).guar g (Logged.perform cfg.mode i (.commitFrom tx writes disk) g).2 ∧
      (Recorded i g → Recorded i (Logged.perform cfg.mode i (.commitFrom tx writes disk) g).2) := by
  have hfiles : files (Logged.perform cfg.mode i (.commitFrom tx writes disk) g).2.history =
      (files g.history).record ⟨i, .commitFrom tx writes disk,
        (g.shared.commitFrom cfg.mode tx writes disk).1⟩ := files_perform
  have hfile := commitFrom_file g.shared tx writes disk
  rw [← hmode] at hfile
  have hguar : ∀ f, (files g.history).record ⟨i, .commitFrom tx writes disk,
      (g.shared.commitFrom cfg.mode tx writes disk).1⟩ = f →
      (f.saved = (files g.history).saved ∧
          (g.shared.commitFrom cfg.mode tx writes disk).2.store.snapshot =
            g.shared.store.snapshot ∨
        f.saved = (files g.history).length + 1 ∧
          (g.shared.commitFrom cfg.mode tx writes disk).2.store.snapshot =
            some (g.shared.commitFrom cfg.mode tx writes disk).2.db.tables) →
      (fileRules cfg sh i).guar g (Logged.perform cfg.mode i (.commitFrom tx writes disk) g).2 := by
    intro f hf hcases
    refine fileRules_guar hok hf ?_ (hcases.imp_right Or.inl)
    have hle := hok.saved
    rcases hcases with ⟨h, -⟩ | ⟨h, -⟩ <;> omega
  cases hanswer : (g.shared.commitFrom cfg.mode tx writes disk).1 with
  | error e =>
    rw [hanswer] at hfiles hguar hfile
    exact ⟨hguar _ rfl (Or.inl ⟨rfl, hfile⟩), fun h => h.keep hfiles rfl rfl⟩
  | ok u =>
    rw [hanswer] at hfiles hguar hfile
    cases hempty : writes.isEmpty with
    | true =>
      simp only [hempty, if_true] at hfile
      have hnext : (files g.history).record ⟨i, .commitFrom tx writes disk, .ok u⟩ =
          (files g.history).next := by
        simp only [Files.record, hempty, if_true]
      rw [hnext] at hfiles
      exact ⟨hguar _ hnext (Or.inl ⟨rfl, hfile⟩), fun h => h.keep hfiles rfl rfl⟩
    | false =>
      simp only [hempty, Bool.false_eq_true, if_false] at hfile
      have hwrite : (files g.history).record ⟨i, .commitFrom tx writes disk, .ok u⟩ =
          { (files g.history).write i with saved := (files g.history).length + 1 } := by
        simp only [Files.record, hempty, Bool.false_eq_true, if_false]
      refine ⟨hguar _ hwrite (Or.inr ⟨rfl, hfile⟩), fun _ p hp => ?_⟩
      have hle := (files g.history).own_record ⟨i, .commitFrom tx writes disk, .ok u⟩ hok.own i p
      rw [hfiles] at hp ⊢
      rw [hwrite] at hp hle ⊢
      exact (hle hp).2

end Actions

/-- A session that has nothing to persist knows that the file holds its writes. -/
def fileDiscipline (cfg : Config) (hmode : cfg.mode = .snapshot) (sh : Shared) (i : Nat) :
    Discipline cfg (fun _ => True) (fileRules cfg sh i) where
  Knows _ owed g := owed = [] → Recorded i g
  stable hg h howed := (h howed).forward hg
  forget h := h
  rowCount_step h hpre :=
    ⟨quiet_guar hpre.1 rfl rfl, fun howed => (h howed).keep files_perform rfl rfl⟩
  clone_step h hpre :=
    ⟨quiet_guar hpre.1 rfl rfl, fun howed => (h howed).keep files_perform rfl rfl⟩
  exec_step {c owed g} _ h hpre := by
    have hstep := exec_recorded (i := i) (cfg.env c) c.sql hpre.1
    refine ⟨hstep.1, ?_⟩
    have hhandle : (fileRules cfg sh i).handle (.exec (cfg.env c) c.sql) g =
        Logged.perform cfg.mode i (.exec (cfg.env c) c.sql) g := rfl
    rw [hhandle]
    rcases hperform : Logged.perform cfg.mode i (.exec (cfg.env c) c.sql) g with ⟨e | r, g'⟩
    · rw [hperform] at hstep
      exact fun howed => hstep.2 (h howed)
    · rw [hperform] at hstep
      intro howed
      obtain ⟨howed, hread⟩ := List.append_eq_nil_iff.1 howed
      refine hstep.2 ?_ (h howed)
      simpa [writesOf] using hread
  execTx_step {c tx writes owed g} _ h hpre := by
    refine ⟨quiet_guar hpre.1 rfl rfl, ?_⟩
    have hkeep : owed = [] →
        Recorded i ((fileRules cfg sh i).handle (.execTx tx (cfg.env c) c.sql) g).2 :=
      fun howed => (h howed).keep files_perform rfl rfl
    split <;> exact hkeep
  commitFrom_step {tx writes owed disk g} h hpre := by
    obtain ⟨hguar, hrecorded⟩ := commitFrom_recorded (i := i) hmode tx writes disk hpre.1
    refine ⟨hguar, ?_⟩
    split <;> exact fun howed => hrecorded (h howed)
  persist_spec h := (persist_recorded hmode h).mono fun _ _ hrecorded _ => hrecorded

/-- **Acknowledged writes stay in the file.** In a run in snapshot mode in which no image is put
into the place of a newer one, the file holds every write of a session that has been answered, then
and ever after: it is an image that was encoded after the write was applied. -/
theorem snapshot_keeps_writes (cfg : Config) (hmode : cfg.mode = .snapshot) (sh : Shared)
    {l l' : List (Move Nat Request)}
    (hl : (startOn sh).Runs (localServer cfg) (fun _ => True) Installs (l ++ l')) {i : Nat}
    (hidle : (((startOn sh).run (localServer cfg) l).conn i).isIdle = true) :
    let before := ((startOn sh).run (localServer cfg) l).shared
    let after := ((startOn sh).run (localServer cfg) (l ++ l')).shared
    ∀ p ∈ (files before.history).own i, p ≤ (files after.history).saved ∧
      after.shared.store.snapshot =
        some (stateAt cfg.mode sh (after.history.take (files after.history).saved)).db.tables := by
  intro before after p hp
  have hhandle : ∀ i, (fileRules cfg sh i).handle = (localServer cfg).handle i := fun _ => rfl
  have hothers : ∀ i j g g', j ≠ i → (fileRules cfg sh i).guar g g' →
      (fileRules cfg sh j).rely g g' :=
    fun _ j _ _ hj hg => hg.1 j hj
  have hserve : ∀ i q s g, True → (fileDiscipline cfg hmode sh i).Between false s g →
      ((localServer cfg).serve q s).Spec (fileRules cfg sh i)
        (fun r => (fileDiscipline cfg hmode sh i).Between false r.2) g :=
    fun i q s g _ hs => (fileDiscipline cfg hmode sh i).executeRequest_spec (fun _ _ => trivial) hs
  have hstart : (startOn sh).Holds (fileRules cfg sh)
      fun i => (fileDiscipline cfg hmode sh i).Between false := by
    refine fun i g' hg => ⟨fun _ => ?_, rfl, fun _ => rfl⟩
    have hempty : Recorded i (startOn sh).shared := fun p hp => by cases hp
    exact hempty.forward hg
  have hok : FileOk cfg.mode sh (startOn sh).shared :=
    ⟨rfl, rfl, fun _ p hp => (by cases hp), Nat.le_refl _, Or.inl rfl⟩
  obtain ⟨hl₁, hl₂⟩ := World.Runs.append hl
  obtain ⟨hholds, hbefore⟩ := World.Holds.run hhandle hothers hserve
    (fun _ _ _ hfile hinstalls => ⟨hfile, hinstalls⟩) (fun _ _ _ hg => hg.2.1) hstart hok hl₁
  have hrecorded : Recorded i before := by
    obtain ⟨s, hs⟩ := Conn.exists_idle hidle
    have hknows := hholds.idle hs
    exact hknows.1 (hknows.2.2 rfl)
  have hlater : FileOk cfg.mode sh after ∧
      (files before.history).saved ≤ (files after.history).saved := by
    have hrun : after =
        (((startOn sh).run (localServer cfg) l).run (localServer cfg) l').shared := by
      simp only [after, World.run, List.foldl_append]
    have hkeeps : ∀ i g g', (fileRules cfg sh i).guar g g' →
        FileOk cfg.mode sh g ∧ (files before.history).saved ≤ (files g.history).saved →
        FileOk cfg.mode sh g' ∧ (files before.history).saved ≤ (files g'.history).saved :=
      fun _ _ _ hg hP => ⟨hg.2.1 hP.1, Nat.le_trans hP.2 hg.2.2⟩
    rw [hrun]
    exact (World.Holds.run hhandle hothers hserve
      (fun _ _ _ hP hinstalls => ⟨hP.1, hinstalls⟩) hkeeps hholds ⟨hbefore, Nat.le_refl _⟩ hl₂).2
  have hpos := (hbefore.own i p hp).1
  have hle := Nat.le_trans (hrecorded p hp) hlater.2
  exact ⟨hle, hlater.1.file.resolve_left (by omega)⟩

/-- Two sessions whose images overtake each other: that of session 0 is encoded first and put into
its place last. -/
def overtaking : List (Move Nat Request) :=
  [.send 0 (request "CREATE TABLE a (v INT)"), .act 0, .act 0,
    .send 1 (request "CREATE TABLE b (v INT)"), .act 1, .act 1, .act 1, .act 0]

/-- The write of session 1 has been acknowledged, and the file does not have it. -/
theorem snapshot_keeps_writes_overtaken :
    let w := (startOn {}).run (localServer { mode := .snapshot }) overtaking
    w.replies = [(1, .single (.result { message := str "table created" })),
        (0, .single (.result { message := str "table created" }))] ∧
      w.shared.shared.db.tables.keys = [str "a", str "b"] ∧
      w.shared.shared.store.snapshot.map (·.keys) = some [str "a"] := by
  decide +kernel

def inTurn : List (Move Nat Request) :=
  [.send 0 (request "CREATE TABLE a (v INT)"), .act 0, .act 0, .act 0,
    .send 1 (request "CREATE TABLE b (v INT)"), .act 1, .act 1, .act 1]

theorem snapshot_keeps_writes_inTurn :
    1 ∈ (files ((startOn {}).run (localServer { mode := .snapshot })
        (inTurn.take 4)).shared.history).own 0 ∧
      1 ≤ (files ((startOn {}).run (localServer { mode := .snapshot })
        (inTurn.take 4 ++ inTurn.drop 4)).shared.history).saved := by
  have hown : 1 ∈ (files ((startOn {}).run (localServer { mode := .snapshot })
      (inTurn.take 4)).shared.history).own 0 := by decide +kernel
  have hruns : (startOn {}).Runs (localServer { mode := .snapshot }) (fun _ => True) Installs
      (inTurn.take 4 ++ inTurn.drop 4) := by decide +kernel
  have hidle : (((startOn {}).run (localServer { mode := .snapshot })
      (inTurn.take 4)).conn 0).isIdle = true := by decide +kernel
  exact ⟨hown, (snapshot_keeps_writes _ rfl _ hruns hidle 1 hown).1⟩

end SuperDB.Server
