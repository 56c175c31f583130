import SuperDB.Server.World

/-!
# What the handlers do, once for all

A discipline says what each action does to what a session knows: whether it holds a copy of the
database, with the writes made to it, and which of its writes on the shared database wait to be
persisted. From these facts about single actions follows that every request keeps the session's
knowledge and the guarantee, for every discipline.
-/

namespace SuperDB.Server

open Go Engine

variable {tx : Database} {l : List Call}

/-- The copy of a session, with the writes recorded for it. -/
abbrev Copy := Option (Database × List Bytes)

def writesOf (sql : Bytes) : List Bytes := if isWriteSQL sql then [sql] else []

/-- The facts about single actions, in the environments that are admitted. `Knows copy owed` is what
a session can rely on when it holds `copy` and has to persist `owed`. -/
structure Discipline (cfg : Config) (admits : Env → Prop) {σ : Type 1}
    (rules : Rules Action Action.Answer σ) where
  Knows : Copy → List Bytes → σ → Prop
  stable : ∀ {copy owed g g'}, rules.rely g g' → Knows copy owed g → Knows copy owed g'
  forget : ∀ {p owed g}, Knows (some p) owed g → Knows none owed g
  rowCount_step : ∀ {owed g}, Knows none owed g → rules.pre .rowCount g →
    rules.guar g (rules.handle .rowCount g).2 ∧ Knows none owed (rules.handle .rowCount g).2
  clone_step : ∀ {owed g}, Knows none owed g → rules.pre .clone g →
    rules.guar g (rules.handle .clone g).2 ∧
      Knows (some ((rules.handle .clone g).1, [])) owed (rules.handle .clone g).2
  exec_step : ∀ {c : Call} {owed g}, admits (cfg.env c) → Knows none owed g →
    rules.pre (.exec (cfg.env c) c.sql) g →
    rules.guar g (rules.handle (.exec (cfg.env c) c.sql) g).2 ∧
      match (rules.handle (.exec (cfg.env c) c.sql) g).1 with
      | .ok _ => Knows none (owed ++ writesOf c.sql) (rules.handle (.exec (cfg.env c) c.sql) g).2
      | .error _ => Knows none owed (rules.handle (.exec (cfg.env c) c.sql) g).2
  execTx_step : ∀ {c : Call} {tx writes owed g}, admits (cfg.env c) →
    Knows (some (tx, writes)) owed g →
    rules.pre (.execTx tx (cfg.env c) c.sql) g →
    rules.guar g (rules.handle (.execTx tx (cfg.env c) c.sql) g).2 ∧
      match (rules.handle (.execTx tx (cfg.env c) c.sql) g).1 with
      | (.ok _, tx') => Knows (some (tx', writes ++ writesOf c.sql)) owed
          (rules.handle (.execTx tx (cfg.env c) c.sql) g).2
      | (.error _, tx') => Knows (some (tx', writes)) owed
          (rules.handle (.execTx tx (cfg.env c) c.sql) g).2
  commitFrom_step : ∀ {tx writes owed disk g}, Knows (some (tx, writes)) owed g →
    rules.pre (.commitFrom tx writes disk) g →
    rules.guar g (rules.handle (.commitFrom tx writes disk) g).2 ∧
      match (rules.handle (.commitFrom tx writes disk) g).1 with
      | .ok () => Knows none owed (rules.handle (.commitFrom tx writes disk) g).2
      | .error _ => Knows (some (tx, writes)) owed (rules.handle (.commitFrom tx writes disk) g).2
  persist_spec : ∀ {copy owed disk g}, Knows copy owed g →
    (persistStatements cfg.mode owed disk).Spec rules (fun _ => Knows copy []) g

theorem writeStatements_append (sqls : List Bytes) (sql : Bytes) :
    writeStatements (sqls ++ [sql]) = writeStatements sqls ++ writesOf sql := by
  simp [writeStatements, writesOf, List.filter_append, List.filter_cons]

def Session.copy (s : Session) : Copy := s.tx.map fun tx => (tx, writeStatements s.txSQL)

namespace Discipline

variable {cfg : Config} {admits : Env → Prop} {σ : Type 1} {rules : Rules Action Action.Answer σ}
  (d : Discipline cfg admits rules) {s : Session} {c : Call} {g : σ} {owed : List Bytes}
  {batch : Bool}

section Actions

variable {α : Type} {post : α → σ → Prop} {tx : Database} {writes : List Bytes} {disk : Disk}

theorem ret_spec {a : α} {copy : Copy} (h : d.Knows copy owed g)
    (hpost : ∀ g', d.Knows copy owed g' → post a g') : (Proc.ret a).Spec rules post g :=
  fun g' hg => hpost g' (d.stable hg h)

theorem rowCount_spec {f : Nat → Handler α} (h : d.Knows none owed g)
    (hf : ∀ n g', d.Knows none owed g' → (f n).Spec rules post g') :
    (rowCount >>= f).Spec rules post g := fun _ hg hpre =>
  have hstep := d.rowCount_step (d.stable hg h) hpre
  ⟨hstep.1, hf _ _ hstep.2⟩

theorem clone_spec {f : Database → Handler α} (h : d.Knows none owed g)
    (hf : ∀ tx g', d.Knows (some (tx, [])) owed g' → (f tx).Spec rules post g') :
    (clone >>= f).Spec rules post g := fun _ hg hpre =>
  have hstep := d.clone_step (d.stable hg h) hpre
  ⟨hstep.1, hf _ _ hstep.2⟩

theorem exec_spec {f : Except Fault Result → Handler α} (hadmits : admits (cfg.env c))
    (h : d.Knows none owed g)
    (hok : ∀ r g', d.Knows none (owed ++ writesOf c.sql) g' → (f (.ok r)).Spec rules post g')
    (herror : ∀ e g', d.Knows none owed g' → (f (.error e)).Spec rules post g') :
    (exec (cfg.env c) c.sql >>= f).Spec rules post g := by
  refine fun g' hg hpre => ?_
  obtain ⟨hguar, hknows⟩ := d.exec_step hadmits (d.stable hg h) hpre
  refine ⟨hguar, ?_⟩
  generalize rules.handle (.exec (cfg.env c) c.sql) g' = p at hknows
  obtain ⟨e | r, g''⟩ := p
  · exact herror e g'' hknows
  · exact hok r g'' hknows

theorem execTx_spec {f : Except Fault Result × Database → Handler α} (hadmits : admits (cfg.env c))
    (h : d.Knows (some (tx, writes)) owed g)
    (hok : ∀ r tx' g', d.Knows (some (tx', writes ++ writesOf c.sql)) owed g' →
      (f (.ok r, tx')).Spec rules post g')
    (herror : ∀ e tx' g', d.Knows (some (tx', writes)) owed g' →
      (f (.error e, tx')).Spec rules post g') :
    (execTx tx (cfg.env c) c.sql >>= f).Spec rules post g := by
  refine fun g' hg hpre => ?_
  obtain ⟨hguar, hknows⟩ := d.execTx_step hadmits (d.stable hg h) hpre
  refine ⟨hguar, ?_⟩
  generalize rules.handle (.execTx tx (cfg.env c) c.sql) g' = p at hknows
  obtain ⟨⟨e | r, tx'⟩, g''⟩ := p
  · exact herror e tx' g'' hknows
  · exact hok r tx' g'' hknows

theorem commitFrom_spec {f : Except Bytes Unit → Handler α} (h : d.Knows (some (tx, writes)) owed g)
    (hok : ∀ g', d.Knows none owed g' → (f (.ok ())).Spec rules post g')
    (herror : ∀ e g', d.Knows (some (tx, writes)) owed g' → (f (.error e)).Spec rules post g') :
    (commitFrom tx writes disk >>= f).Spec rules post g := by
  refine fun g' hg hpre => ?_
  obtain ⟨hguar, hknows⟩ := d.commitFrom_step (d.stable hg h) hpre
  refine ⟨hguar, ?_⟩
  generalize rules.handle (.commitFrom tx writes disk) g' = p at hknows
  obtain ⟨e | u, g''⟩ := p
  · exact herror e g'' hknows
  · exact hok g'' hknows

end Actions

/-! ## Statements -/

/-- What a session knows between the statements of a batch, or of a request that is none: then
nothing waits to be persisted. -/
def Between (batch : Bool) (s : Session) (g : σ) : Prop :=
  d.Knows s.copy s.pendingPersist g ∧ s.batch = batch ∧ (batch = false → s.pendingPersist = [])

theorem Between.ret {r : Reply} (h : d.Between batch s g) :
    (Proc.ret (r, s)).Spec rules (fun p => d.Between batch p.2) g :=
  d.ret_spec h.1 fun _ hknows => ⟨hknows, h.2⟩

theorem Between.drop (h : d.Between batch s g) :
    d.Between batch { s with tx := none, txSQL := [] } g := by
  refine ⟨?_, h.2⟩
  have hknows := h.1
  unfold Session.copy at hknows ⊢
  cases htx : s.tx with
  | none => rwa [htx] at hknows
  | some tx =>
    rw [htx] at hknows
    exact d.forget hknows

theorem beginTx_spec (h : d.Between batch s g) :
    (beginTx cfg s).Spec rules (fun p => d.Between batch p.2) g := by
  unfold beginTx
  cases htx : s.tx with
  | some tx => exact h.ret
  | none =>
    have hnone : d.Knows none s.pendingPersist g := by
      have hknows := h.1
      rwa [Session.copy, htx] at hknows
    have hstart : ∀ g', d.Knows none s.pendingPersist g' →
        (do
          let tx ← clone
          return (.message (str "BEGIN ok"), { s with tx := some tx, txSQL := [] }) :
            Handler (Reply × Session)).Spec rules (fun p => d.Between batch p.2) g' := fun g' hg' =>
      d.clone_spec hg' fun tx g'' hg'' => d.ret_spec hg'' fun _ hknows => ⟨hknows, h.2⟩
    simp only [Option.isSome_none, Bool.false_eq_true, if_false]
    split
    · exact hstart g hnone
    · refine d.rowCount_spec hnone fun n g' hg' => ?_
      split
      · refine d.rowCount_spec hg' fun _ g'' hg'' => d.ret_spec hg'' fun _ hknows => ⟨?_, h.2⟩
        rwa [Session.copy, htx]
      · exact hstart g' hg'

theorem rollbackTx_spec (h : d.Between batch s g) :
    (Proc.ret (rollbackTx s)).Spec rules (fun p => d.Between batch p.2) g := by
  unfold rollbackTx
  split
  · exact h.ret
  · exact h.drop.ret

theorem commitTx_spec (h : d.Between batch s g) :
    (commitTx c s).Spec rules (fun p => d.Between batch p.2) g := by
  unfold commitTx
  cases htx : s.tx with
  | none => exact h.ret
  | some tx =>
    have hsome : d.Knows (some (tx, writeStatements s.txSQL)) s.pendingPersist g := by
      have hknows := h.1
      rwa [Session.copy, htx] at hknows
    simp only
    split
    · exact h.drop.ret
    · refine d.commitFrom_spec hsome (fun g' hg' => ?_) fun e g' hg' => ?_
      · exact d.ret_spec hg' fun _ hknows => ⟨hknows, h.2⟩
      · refine d.ret_spec hg' fun _ hknows => ⟨?_, h.2⟩
        rwa [Session.copy, htx]

theorem recordTx_spec {r : Result} (htx : s.tx = some tx)
    (h : d.Knows (some (tx, writeStatements s.txSQL ++ writesOf c.sql)) s.pendingPersist g)
    (hbatch : s.batch = batch ∧ (batch = false → s.pendingPersist = [])) :
    (Proc.ret (recordTx cfg.limits c.sql r s)).Spec rules (fun p => d.Between batch p.2) g := by
  unfold recordTx
  split
  · split
    · exact d.ret_spec (d.forget h) fun _ hknows => ⟨hknows, hbatch⟩
    · refine d.ret_spec h fun _ hknows => ⟨?_, hbatch⟩
      rwa [Session.copy, htx, Option.map_some, writeStatements_append]
  · next hread =>
    refine d.ret_spec h fun _ hknows => ⟨?_, hbatch⟩
    rw [writesOf, if_neg hread, List.append_nil] at hknows
    rwa [Session.copy, htx]

theorem statementTx_spec (hadmits : admits (cfg.env c)) (htx : s.tx = some tx)
    (h : d.Between batch s g) :
    (statementTx cfg c tx s).Spec rules (fun p => d.Between batch p.2) g := by
  have hsome : d.Knows (some (tx, writeStatements s.txSQL)) s.pendingPersist g := by
    have hknows := h.1
    rwa [Session.copy, htx] at hknows
  unfold statementTx
  refine d.execTx_spec hadmits hsome (fun r tx' g' hg' => ?_) fun e tx' g' hg' => ?_
  · exact d.recordTx_spec rfl hg' h.2
  · cases e with
    | panic => trivial
    | error e => exact d.ret_spec hg' fun _ hknows => ⟨hknows, h.2⟩

theorem recordWrite_spec {r : Result} (htx : s.tx = none)
    (h : d.Knows none (s.pendingPersist ++ writesOf c.sql) g)
    (hbatch : s.batch = batch ∧ (batch = false → s.pendingPersist = [])) :
    (recordWrite cfg.mode c r s).Spec rules (fun p => d.Between batch p.2) g := by
  have hcopy : s.copy = none := by rw [Session.copy, htx, Option.map_none]
  unfold recordWrite
  cases hwrite : isWriteSQL c.sql with
  | false =>
    rw [writesOf, hwrite, if_neg Bool.false_ne_true, List.append_nil] at h
    refine d.ret_spec h fun _ hknows => ⟨?_, hbatch⟩
    rwa [hcopy]
  | true =>
    rw [writesOf, hwrite, if_pos rfl] at h
    simp only [Bool.not_true, Bool.false_eq_true, if_false]
    split
    · next hb =>
      refine d.ret_spec h fun _ hknows => ⟨?_, hbatch.1, fun hfalse => ?_⟩
      · rwa [Session.copy, htx]
      · rw [hbatch.1, hfalse] at hb
        cases hb
    · next hb =>
      have hempty := hbatch.2 (hbatch.1 ▸ Bool.eq_false_iff.2 hb)
      rw [hempty] at h
      refine (d.persist_spec h).bind fun answer g' hg' => ?_
      have hreturn : ∀ reply : Reply,
          (Proc.ret (reply, s)).Spec rules (fun p => d.Between batch p.2) g' := fun reply =>
        d.ret_spec hg' fun _ hknows => ⟨by rwa [hcopy, hempty], hbatch⟩
      cases answer with
      | error e => exact hreturn _
      | ok _ => exact hreturn _

theorem statement_spec (hadmits : admits (cfg.env c)) (htx : s.tx = none)
    (h : d.Between batch s g) :
    (statement cfg c s).Spec rules (fun p => d.Between batch p.2) g := by
  have hnone : d.Knows none s.pendingPersist g := by
    have hknows := h.1
    rwa [Session.copy, htx] at hknows
  unfold statement
  refine d.exec_spec hadmits hnone (fun r g' hg' => d.recordWrite_spec htx hg' h.2)
    fun e g' hg' => ?_
  cases e with
  | panic => trivial
  | error e =>
    refine d.ret_spec hg' fun _ hknows => ⟨?_, h.2⟩
    rwa [Session.copy, htx]

theorem executeSQL_spec (hadmits : admits (cfg.env c)) (h : d.Between batch s g) :
    (executeSQL cfg c s).Spec rules (fun p => d.Between batch p.2) g := by
  unfold executeSQL
  simp only
  split
  · exact d.beginTx_spec h
  · split
    · exact d.rollbackTx_spec h
    · split
      · exact d.commitTx_spec h
      · split
        · next tx htx => exact d.statementTx_spec hadmits htx h
        · next htx => exact d.statement_spec hadmits htx h

/-! ## Requests -/

theorem executeAll_spec (hadmits : ∀ c ∈ l, admits (cfg.env c)) (h : d.Between batch s g) :
    (executeAll cfg l s).Spec rules (fun p => d.Between batch p.2) g := by
  induction l generalizing s g with
  | nil => exact d.ret_spec h.1 fun _ hknows => ⟨hknows, h.2⟩
  | cons c l ih =>
    rw [List.forall_mem_cons] at hadmits
    refine (d.executeSQL_spec hadmits.1 h).bind fun p g' hg' =>
      (ih hadmits.2 hg').bind fun q g'' hg'' => ?_
    exact d.ret_spec hg''.1 fun _ hknows => ⟨hknows, hg''.2⟩

theorem executeBatch_spec {disk : Disk} (hadmits : ∀ c ∈ l, admits (cfg.env c))
    (h : d.Knows s.copy [] g) :
    (executeBatch cfg l disk s).Spec rules (fun p => d.Between false p.2) g := by
  have hstart : d.Between true { s with batch := true, pendingPersist := [] } g :=
    ⟨h, rfl, fun hfalse => absurd hfalse (by simp)⟩
  unfold executeBatch
  refine (d.executeAll_spec hadmits hstart).bind fun p g' hg' => ?_
  refine (d.persist_spec hg'.1).bind fun answer g'' hg'' => ?_
  have hreturn : ∀ response : Response,
      (Proc.ret (response, { p.2 with batch := false, pendingPersist := [] })).Spec rules
        (fun p => d.Between false p.2) g'' := fun response =>
    d.ret_spec hg'' fun _ hknows => ⟨hknows, rfl, fun _ => rfl⟩
  cases answer with
  | error e => exact hreturn _
  | ok _ => exact hreturn _

theorem executeOnClone_spec {n : Nat} {writes : List Bytes}
    (hadmits : ∀ c ∈ l, admits (cfg.env c)) (h : d.Knows (some (tx, writes)) owed g) :
    (executeOnClone cfg n l tx).Spec rules (fun answer g' =>
      match answer with
      | .ok (_, more, tx') => d.Knows (some (tx', writes ++ more)) owed g'
      | .error _ => d.Knows none owed g') g := by
  induction l generalizing n tx writes g with
  | nil =>
    refine d.ret_spec h fun g' hknows => ?_
    rwa [← List.append_nil writes] at hknows
  | cons c l ih =>
    rw [List.forall_mem_cons] at hadmits
    refine d.execTx_spec hadmits.1 h (fun r tx' g' hg' => ?_) fun e tx' g' hg' => ?_
    · refine (ih hadmits.2 hg').bind fun answer g'' hg'' => ?_
      cases answer with
      | error e => exact d.ret_spec hg'' fun _ hknows => hknows
      | ok q =>
        refine d.ret_spec hg'' fun _ hknows => ?_
        rwa [List.append_assoc] at hknows
    · cases e with
      | panic => trivial
      | error e => exact d.ret_spec (d.forget hg') fun _ hknows => hknows

theorem executeAtomicBatch_spec {disk : Disk} (hadmits : ∀ c ∈ l, admits (cfg.env c))
    (h : d.Knows s.copy [] g) :
    (executeAtomicBatch cfg l disk s).Spec rules (fun _ => d.Knows s.copy []) g := by
  unfold executeAtomicBatch
  cases htx : s.tx with
  | some tx => exact d.ret_spec h fun _ hknows => hknows
  | none =>
    have hcopy : s.copy = none := by rw [Session.copy, htx, Option.map_none]
    rw [hcopy] at h ⊢
    refine d.clone_spec h fun tx g' hg' =>
      (d.executeOnClone_spec hadmits hg').bind fun answer g'' hg'' => ?_
    cases answer with
    | error e => exact d.ret_spec hg'' fun _ hknows => hknows
    | ok q =>
      refine d.commitFrom_spec hg'' (fun g₃ hg₃ => ?_) fun e g₃ hg₃ => ?_
      · exact d.ret_spec hg₃ fun _ hknows => hknows
      · exact d.ret_spec (d.forget hg₃) fun _ hknows => hknows

/-- **Every request keeps what its session knows.** -/
theorem executeRequest_spec {q : Request} (hadmits : ∀ c ∈ q.calls, admits (cfg.env c))
    (h : d.Between false s g) :
    (executeRequest cfg q s).Spec rules (fun p => d.Between false p.2) g := by
  have hreturn : ∀ response : Response,
      (Proc.ret (response, s)).Spec rules (fun p => d.Between false p.2) g := fun response =>
    d.ret_spec h.1 fun _ hknows => ⟨hknows, h.2⟩
  have hempty : s.pendingPersist = [] := h.2.2 rfl
  have hknows : d.Knows s.copy [] g := hempty ▸ h.1
  have hcalls : ∀ c ∈ q.sqls, admits (cfg.env c) :=
    fun c hc => hadmits c (List.mem_cons_of_mem _ hc)
  unfold executeRequest
  simp only
  split
  · split
    · exact hreturn _
    · next bound _ =>
      split
      · exact hreturn _
      · -- the environment of a statement does not depend on its text
        have hbound : admits (cfg.env { q.sql with sql := bound }) :=
          hadmits q.sql List.mem_cons_self
        refine (d.executeSQL_spec hbound h).bind fun p g' hg' => ?_
        exact d.ret_spec hg'.1 fun _ hknows => ⟨hknows, hg'.2⟩
  · split
    · exact hreturn _
    · split
      · exact hreturn _
      · split
        · exact hreturn _
        · split
          · refine (d.executeAtomicBatch_spec hcalls hknows).bind fun r g' hg' => ?_
            exact d.ret_spec hg' fun _ hknows => ⟨hempty ▸ hknows, h.2⟩
          · exact d.executeBatch_spec hcalls hknows

end Discipline

end SuperDB.Server
