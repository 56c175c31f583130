import Mathlib
import SuperDB.Go.Lists
import SuperDB.Remote.Server

/-!
# Authentication of hosted connections

Of every history of a connection: if authentication is required, whatever reaches the engine comes
after credentials that were verified, and no more than five authentications fail.
-/

namespace SuperDB.Remote

open Go hiding equalFold
open Engine
open SuperDB.Server hiding equalFold isWriteSQL writeStatements persistStatements
open Proc (Obeys Yields History)

/-- The events of a connection with their answers, the oldest first. -/
abbrev Log := List (Sigma Event.Answer)

/-- Credentials are verified against those of the configuration; the engine and the node may answer
anything, since others use them as well. -/
def Possible (cfg : HostConfig) : (e : Event) → e.Answer → Prop
  | .verify user secret, r => r = cfg.authenticator.verify cfg.sha256 user secret
  | .engine _, _ => True
  | .cluster _, _ => True

def Event.reachesEngine : Event → Bool
  | .verify _ _ => false
  | .engine _ => true
  | .cluster _ => true

def failed : Sigma Event.Answer → Bool
  | ⟨.verify _ _, r⟩ => !r
  | ⟨.engine _, _⟩ => false
  | ⟨.cluster _, _⟩ => false

/-- A login was accepted. -/
def Verified (past : Log) : Prop :=
  ∃ user secret, (⟨.verify user secret, true⟩ : Sigma Event.Answer) ∈ past

def Allowed (past : Log) : Event → Prop
  | .verify _ _ => past.countP failed < maxAuthFailures
  | .engine _ => Verified past
  | .cluster _ => Verified past

theorem Verified.append {past : Log} (h : Verified past) (l : Log) : Verified (past ++ l) := by
  obtain ⟨user, secret, hmem⟩ := h
  exact ⟨user, secret, List.mem_append_left l hmem⟩

/-! ## Sessions -/

/-- The session has its logins right. -/
structure Knows (s : Session) (past : Log) : Prop where
  authed : s.authed = true → Verified past
  authFails : s.authFails = past.countP failed

theorem Knows.append {s : Session} {past l : Log} (h : Knows s past)
    (hl : ∀ e ∈ l, failed e = false) : Knows s (past ++ l) := by
  refine ⟨fun hauthed => (h.authed hauthed).append l, ?_⟩
  have hnone : l.countP failed = 0 := List.countP_eq_zero.2 fun e he => by simp [hl e he]
  rw [List.countP_append, hnone, Nat.add_zero]
  exact h.authFails

def SameAuth (s s' : Session) : Prop := s'.authed = s.authed ∧ s'.authFails = s.authFails

theorem Knows.of_sameAuth {s s' : Session} {past : Log} (h : Knows s past) (hs : SameAuth s s') :
    Knows s' past :=
  ⟨fun hauthed => h.authed (hs.1 ▸ hauthed), hs.2.trans h.authFails⟩

section Statements

variable {cfg : Config} {c : Call} {s : Session}

theorem execBegin_sameAuth : Yields (fun p => SameAuth s p.2) (execBegin cfg s) := by
  have hstart : Yields (fun p => SameAuth s p.2) (clone >>= fun tx =>
      pure ((.ok (message "BEGIN ok") : Except ExecError Result),
        ({ s with tx := some tx, txSQL := [] } : Session)) : Handler _) :=
    Yields.bind fun tx => ⟨rfl, rfl⟩
  unfold execBegin
  split
  · exact ⟨rfl, rfl⟩
  · split
    · exact hstart
    · refine Yields.bind fun rows => ?_
      split
      · exact Yields.bind fun rows => ⟨rfl, rfl⟩
      · exact hstart

theorem execCommit_sameAuth : Yields (fun p => SameAuth s p.2) (execCommit c s) := by
  unfold execCommit
  split
  · exact ⟨rfl, rfl⟩
  · simp only
    split
    · exact ⟨rfl, rfl⟩
    · refine Yields.bind fun r => ?_
      cases r with
      | error e => exact ⟨rfl, rfl⟩
      | ok _ => exact ⟨rfl, rfl⟩

theorem execInTx_sameAuth (tx : Database) :
    Yields (fun p => SameAuth s p.2) (execInTx cfg c tx s) := by
  refine Yields.bind fun p => ?_
  simp only
  split
  · trivial
  · exact ⟨rfl, rfl⟩
  · split
    · exact ⟨rfl, rfl⟩
    · split
      · exact ⟨rfl, rfl⟩
      · exact ⟨rfl, rfl⟩

theorem execShared_sameAuth : Yields (fun p => SameAuth s p.2) (execShared cfg c s) := by
  refine Yields.bind fun r => ?_
  split
  · trivial
  · exact ⟨rfl, rfl⟩
  · split
    · refine Yields.bind fun r => ?_
      cases r with
      | error e => exact ⟨rfl, rfl⟩
      | ok _ => exact ⟨rfl, rfl⟩
    · exact ⟨rfl, rfl⟩

theorem execOne_sameAuth : Yields (fun p => SameAuth s p.2) (execOne cfg c s) := by
  unfold execOne
  simp only
  split
  · exact execBegin_sameAuth
  · split
    · unfold execRollback
      split
      · exact ⟨rfl, rfl⟩
      · exact ⟨rfl, rfl⟩
    · split
      · exact execCommit_sameAuth
      · split
        · exact execInTx_sameAuth _
        · exact execShared_sameAuth

end Statements

/-! ## Frames -/

section Frames

variable {cfg : HostConfig} {f : Incoming} {s : Session} {past : Log}

/-- After a frame its session knows the past; a panic has left it as it was. -/
def Knowing {α : Type} (s : Session) : Option (α × Session) → Log → Prop
  | some p, past => Knows p.2 past
  | none, past => Knows s past

theorem perform_obeys {α : Type} {p : Handler (α × Session)}
    (hp : Yields (fun p => SameAuth s p.2) p) (h : Knows s past) (hpast : Verified past) :
    Obeys (Possible cfg) Allowed (Knowing s) (perform p) past := by
  induction p generalizing past with
  | ret p => exact h.of_sameAuth hp
  | crash => exact h
  | act a k ih =>
    refine ⟨hpast, fun r _ => ih r (hp r) (h.append fun e he => ?_) (hpast.append _)⟩
    obtain rfl := List.mem_singleton.1 he
    rfl

theorem executeOne_obeys {c : Call} (h : Knows s past) (hpast : Verified past) :
    Obeys (Possible cfg) Allowed (Knowing s) (executeOne cfg c s) past := by
  unfold executeOne
  split
  · split
    · exact h
    · refine ⟨hpast, fun r _ => ?_⟩
      have hnext : Knows s (past ++ [⟨.cluster c.sql, r⟩]) := h.append fun e he => by
        obtain rfl := List.mem_singleton.1 he
        rfl
      cases r with
      | error e => exact hnext
      | ok r => exact hnext
  · exact perform_obeys execOne_sameAuth h hpast

theorem handleAuth_obeys (h : Knows s past) (hfails : s.authFails < maxAuthFailures) :
    Obeys (Possible cfg) Allowed (Knowing s) (handleAuth cfg f s) past := by
  unfold handleAuth
  split
  · exact h
  · next p _ =>
    have hdb : SameAuth s (if p.database = [] then s else { s with database := p.database }) := by
      split
      · exact ⟨rfl, rfl⟩
      · exact ⟨rfl, rfl⟩
    generalize (if p.database = [] then s else { s with database := p.database }) = s' at hdb
    have hs' := h.of_sameAuth hdb
    have hallowed : past.countP failed < maxAuthFailures := h.authFails ▸ hfails
    refine ⟨hallowed, fun r _ => ?_⟩
    cases r with
    | true =>
      refine ⟨fun _ => ⟨_, _, List.mem_append_right past List.mem_cons_self⟩, ?_⟩
      simpa [failed] using hs'.authFails
    | false =>
      refine ⟨fun hauthed => (hs'.authed hauthed).append _, ?_⟩
      simpa [failed] using hs'.authFails

theorem handleQuery_obeys (h : Knows s past) (hpast : Verified past) :
    Obeys (Possible cfg) Allowed (Knowing s) (handleQuery cfg f s) past := by
  unfold handleQuery
  split
  · exact h
  · split
    · exact h
    · split
      · exact h
      · split
        · exact h
        · refine (executeOne_obeys h hpast).bind (fun p past' hp => ?_) fun past' hp => hp
          rcases p with ⟨e | r, s'⟩
          · exact hp
          · exact hp

theorem handleTx_obeys {keyword : String} (h : Knows s past) (hpast : Verified past) :
    Obeys (Possible cfg) Allowed (Knowing s) (handleTx cfg keyword f s) past := by
  refine (executeOne_obeys h hpast).bind (fun p past' hp => ?_) fun past' hp => hp
  rcases p with ⟨e | r, s'⟩
  · exact hp
  · exact hp

theorem guarded_obeys (hreq : cfg.authenticator.required = true) (h : Knows s past)
    {k : Serving (Response × Session)}
    (hk : Verified past → Obeys (Possible cfg) Allowed (Knowing s) k past) :
    Obeys (Possible cfg) Allowed (Knowing s) (guarded cfg s k) past := by
  unfold guarded
  rw [hreq]
  cases hauthed : s.authed with
  | false => exact h
  | true => exact hk (h.authed hauthed)

theorem handle_obeys (hreq : cfg.authenticator.required = true) (h : Knows s past)
    (hfails : s.authFails < maxAuthFailures) :
    Obeys (Possible cfg) Allowed (Knowing s) (handle cfg f s) past := by
  unfold handle
  simp only
  split_ifs
  · exact h
  · exact handleAuth_obeys h hfails
  · exact h
  · exact guarded_obeys hreq h (handleQuery_obeys h)
  · exact guarded_obeys hreq h (handleTx_obeys h)
  · exact guarded_obeys hreq h (handleTx_obeys h)
  · exact guarded_obeys hreq h (handleTx_obeys h)
  · exact h
  · exact h

theorem respond_obeys (hreq : cfg.authenticator.required = true) (h : Knows s past)
    (hfails : s.authFails < maxAuthFailures) :
    Obeys (Possible cfg) Allowed (Knowing s) (respond cfg f s) past := by
  unfold respond
  split
  · exact h
  · exact (handle_obeys hreq h hfails).recover fun past' hpast => hpast

theorem serveFrames_obeys (hreq : cfg.authenticator.required = true) (frames : List Incoming)
    (h : Knows s past) (hfails : s.authFails < maxAuthFailures) :
    Obeys (Possible cfg) Allowed (fun _ _ => True) (serveFrames cfg frames s) past := by
  induction frames generalizing s past with
  | nil => trivial
  | cons f frames ih =>
    refine (respond_obeys hreq h hfails).bind (fun p past' hp => ?_) fun _ _ => trivial
    obtain ⟨r, s'⟩ := p
    simp only
    split
    · trivial
    · split
      · trivial
      · next hopen =>
        have hfails' : s'.authFails < maxAuthFailures := Nat.lt_of_not_le fun hle =>
          hopen (Or.inr hle)
        exact (ih hp hfails').bind (fun _ _ _ => trivial) fun _ _ => trivial

end Frames

/-! ## Connections -/

/-- If authentication is required, then in every history of a connection, for every sequence of
frames, whatever reaches the engine comes after an authentication frame whose credentials were
verified, and at most five authentications fail. -/
theorem handleConn_guarded (cfg : HostConfig) (hreq : cfg.authenticator.required = true)
    (frames : List Incoming) (l : Log) (h : History (Possible cfg) (handleConn cfg frames) l) :
    (∀ l₁ e l₂, l = l₁ ++ e :: l₂ → e.1.reachesEngine = true →
      ∃ user secret, (⟨.verify user secret, true⟩ : Sigma Event.Answer) ∈ l₁ ∧
        cfg.authenticator.verify cfg.sha256 user secret = true) ∧
    l.countP failed ≤ 5 := by
  have hstart : Knows { authed := !cfg.authenticator.required } [] := by
    rw [hreq]
    exact ⟨fun hauthed => (Bool.false_ne_true hauthed).elim, rfl⟩
  have hobeys : Obeys (Possible cfg) Allowed (fun _ _ => True) (handleConn cfg frames) [] :=
    serveFrames_obeys hreq frames hstart (show 0 < 5 by decide)
  refine ⟨fun l₁ e l₂ hl he => ?_, countP_le_of_before fun l₁ e l₂ hl he => ?_⟩
  · have hallowed : Allowed l₁ e.1 := hobeys.history h hl
    have hverified : Verified l₁ := by
      rcases e with ⟨_ | a | sql, r⟩
      · cases he
      · exact hallowed
      · exact hallowed
    obtain ⟨user, secret, hmem⟩ := hverified
    have hpossible := h.answered (hl ▸ List.mem_append_left _ hmem)
    exact ⟨user, secret, hmem, hpossible.symm⟩
  · have hallowed : Allowed l₁ e.1 := hobeys.history h hl
    rcases e with ⟨_ | a | sql, r⟩
    · exact hallowed
    · cases he
    · cases he

/-- A configuration with a password, and payloads that carry nothing else. -/
def passwordConfig : HostConfig where
  password := str "secret"
  sha256 := id
  codec := { auth := fun p => some { password := p }, query := fun _ => none, size := fun _ => 0 }

/-- An authentication frame and a `BEGIN` frame. -/
def loginFrames : List Incoming :=
  [{ hdr := ⟨1, typeAuth, 0, 1, 6⟩, payload := str "secret" },
    { hdr := ⟨1, typeBegin, 0, 2, 0⟩, payload := [] }]

theorem handleAuth_passwordConfig (f : Incoming) (s : Session) (hf : f.payload = str "secret") :
    handleAuth passwordConfig f s = verify (str "admin") (str "secret") >>= fun r =>
      if r then pure (.ok (str "authenticated"), { s with authed := true })
      else pure (invalid .authFailed "authentication failed",
        { s with authFails := s.authFails + 1 }) := by
  have hcred : passwordConfig.credentials { password := str "secret" } =
      (str "admin", str "secret") := by decide +kernel
  show (verify (passwordConfig.credentials { password := f.payload }).1
    (passwordConfig.credentials { password := f.payload }).2 >>= _) = _
  rw [hf, hcred]
  rfl

theorem handleTx_passwordConfig (f : Incoming) (s : Session) (hs : s.tx = none) :
    handleTx passwordConfig "BEGIN" f s = .act (.engine .clone) fun tx =>
      .ret (.ok (str "BEGIN ok"), { s with tx := some tx, txSQL := [] }) := by
  have hbegin : equalFold (trimSpace (str "BEGIN")) (str "BEGIN") = true := by decide +kernel
  have hone : execOne passwordConfig.session (f.call (str "BEGIN")) s =
      execBegin passwordConfig.session s := if_pos hbegin
  unfold handleTx executeOne
  rw [if_neg (show ¬passwordConfig.cluster = true from Bool.false_ne_true), hone, execBegin, hs]
  rfl

/-- A connection that logs in and begins a transaction. -/
theorem handleConn_guarded_login :
    ∃ l : Log, History (Possible passwordConfig) (handleConn passwordConfig loginFrames) l ∧
      passwordConfig.authenticator.required = true ∧ l.length = 2 ∧ l.countP failed ≤ 5 := by
  have hreq : passwordConfig.authenticator.required = true := by decide +kernel
  have hverify : true = passwordConfig.authenticator.verify id (str "admin") (str "secret") := by
    decide +kernel
  have hl : History (Possible passwordConfig) (handleConn passwordConfig loginFrames)
      [⟨.verify (str "admin") (str "secret"), true⟩, ⟨.engine .clone, ({} : Database)⟩] := by
    show History _ ((handleAuth passwordConfig _ _).recover _ >>= _) _
    rw [handleAuth_passwordConfig _ _ rfl]
    refine .act (Event.verify (str "admin") (str "secret")) hverify ?_
    show History _
        (((guarded passwordConfig _ (handleTx passwordConfig "BEGIN" _ _)).recover _ >>= _)
      >>= _) _
    rw [guarded, hreq, handleTx_passwordConfig _ _ rfl]
    exact .act (Event.engine .clone) trivial (.nil _)
  exact ⟨_, hl, hreq, rfl, (handleConn_guarded passwordConfig hreq loginFrames _ hl).2⟩

end SuperDB.Remote
