import SuperDB.Cluster.Forward

/-!
# How often a forwarded write is applied

A write is forwarded a second time if the first node answers that it does not lead. That is also its
answer if it has put the write into its log and lost the leadership before the entry was committed.
The next leader may commit that entry, and then it is one of two.
-/

namespace SuperDB.Cluster

open Go Engine

variable {r : Request}

def Stage.mayPropose : Stage → Bool
  | .sent => true
  | .queued _ => true
  | _ => false

def Phase.fresh : Phase → Bool
  | .idle => true
  | .entered => true
  | .routing => true
  | _ => false

def Attempt.live (a : Attempt) : Nat := a.requests.countP (·.stage.mayPropose)

namespace World

variable {writes : Nat → Write} {s s' : World} {w i : Nat} {a : Attempt}

/-- The entries of a write, applied or not. -/
def entries (s : World) (w : Nat) : Nat :=
  s.pending.countP (·.write = w) + s.log.countP (·.write = w)

/-- A write is in one place at most: in a request that may lead to an entry, or in an entry. -/
structure Once (a : Attempt) (entries : Nat) : Prop where
  copies : a.live + entries ≤ 1
  fresh : a.phase.fresh = true → a.requests = [] ∧ entries = 0
  first : a.phase = .calling .first → a.requests.length = 1
  again : ∀ addr, a.phase = .again addr → a.live = 0

/-! ## What keeps a write in one place -/

section Moves

variable {entries entries' : Nat}

theorem Once.entries_le (h : Once a entries) (hle : entries' ≤ entries) : Once a entries' where
  copies := by have := h.copies; omega
  fresh hfresh := ⟨(h.fresh hfresh).1, by have := (h.fresh hfresh).2; omega⟩
  first := h.first
  again := h.again

/-- A step of the code that makes no request. -/
theorem Once.phase (h : Once a entries) {p : Phase}
    (hfresh : p.fresh = true → a.phase.fresh = true)
    (hfirst : p ≠ .calling .first) (hagain : ∀ addr, p = .again addr → a.live = 0) :
    Once { a with phase := p } entries where
  copies := h.copies
  fresh hp := h.fresh (hfresh hp)
  first hp := absurd hp hfirst
  again := hagain

theorem Once.advance (h : Once a entries) {r' : Request} (hr : a.requests[i]? = some r)
    (hlive : r'.stage.mayPropose = true → r.stage.mayPropose = true)
    (hcopies : r'.stage.mayPropose.toNat + entries' ≤ r.stage.mayPropose.toNat + entries) :
    Once { a with requests := a.requests.set i r' } entries' := by
  obtain ⟨hi, hget⟩ := List.getElem?_eq_some_iff.1 hr
  have hset : (a.requests.set i r').countP (·.stage.mayPropose) + r.stage.mayPropose.toNat =
      a.live + r'.stage.mayPropose.toNat := by
    have hpos : r.stage.mayPropose.toNat ≤ a.live := by
      cases hmay : r.stage.mayPropose with
      | false => exact Nat.zero_le _
      | true => exact List.countP_pos_iff.2 ⟨r, List.mem_of_getElem? hr, hmay⟩
    rw [List.countP_set hi, hget]
    unfold Attempt.live at hpos ⊢
    generalize r.stage.mayPropose = b at hpos ⊢
    generalize r'.stage.mayPropose = b'
    cases b <;> cases b' <;>
      simp only [Bool.toNat_true, Bool.toNat_false, reduceIte, Bool.false_eq_true] at hpos ⊢
        <;> omega
  refine ⟨?_, fun hfresh => ?_, fun hfirst => ?_, fun addr hagain => ?_⟩
  · have := h.copies
    simp only [Attempt.live] at this hset ⊢
    omega
  · rw [(h.fresh hfresh).1] at hr
    cases hr
  · rw [List.length_set]
    exact h.first hfirst
  · have hzero := h.again addr hagain
    have hmay : r.stage.mayPropose = false := by
      by_contra hne
      have := List.countP_pos_iff (p := fun r : Request => r.stage.mayPropose).2
        ⟨r, List.mem_of_getElem? hr, by simpa using hne⟩
      rw [Attempt.live] at hzero
      omega
    have hmay' : r'.stage.mayPropose = false := by
      by_contra hne
      rw [hlive (by simpa using hne)] at hmay
      cases hmay
    simp only [Attempt.live] at hzero hset ⊢
    simp only [hmay, hmay', Bool.toNat_false] at hset
    omega

theorem once_send {c : Calling} (hlive : a.live = 0) (hentries : entries = 0)
    (hfirst : c = .first → a.requests = []) :
    Once { phase := .calling c, requests := a.requests ++ [r] } entries where
  copies := by
    simp only [Attempt.live, List.countP_append, List.countP_singleton] at hlive ⊢
    split <;> omega
  fresh hp := by cases hp
  first hp := by
    cases hp
    rw [hfirst rfl]
    rfl
  again addr hp := by cases hp

end Moves

/-! ## Steps -/

@[simp] theorem attempts_proceed (w' : Nat) :
    (s.proceed w a).attempts w' = if w' = w then a else s.attempts w' :=
  Function.update_apply ..

@[simp] theorem log_proceed : (s.proceed w a).log = s.log := rfl

@[simp] theorem entries_proceed (w' : Nat) : (s.proceed w a).entries w' = s.entries w' := rfl

/-- A step of one write. -/
theorem once_proceed (hs : ∀ w, Once (s.attempts w) (s.entries w)) (ha : Once a (s.entries w)) :
    ∀ w', Once ((s.proceed w a).attempts w') ((s.proceed w a).entries w') := by
  intro w'
  rw [attempts_proceed, entries_proceed]
  split
  · next hw => exact hw ▸ ha
  · exact hs w'

theorem once_returns (hs : ∀ w, Once (s.attempts w) (s.entries w)) (r : Except ClusterError Unit) :
    ∀ w', Once ((s.returns w r).attempts w') ((s.returns w r).entries w') :=
  once_proceed hs ((hs w).phase (fun h => by cases h) (fun h => by cases h) fun _ h => by cases h)

/-- A step of one request that leads to no entry. -/
theorem once_advance (hs : ∀ w, Once (s.attempts w) (s.entries w))
    (hr : (s.attempts w).requests[i]? = some r) {addr : Bytes} {stage : Stage}
    (hlive : stage.mayPropose = true → r.stage.mayPropose = true) :
    ∀ w', Once ((s.advance w i addr stage).attempts w')
      ((s.advance w i addr stage).entries w') := by
  refine once_proceed hs ((hs w).advance hr hlive ?_)
  cases hmay : stage.mayPropose with
  | false => simp
  | true => simp [hlive hmay]

/-- **Steps keep every write in one place**, if a write is forwarded again only while there is no
entry of it. -/
theorem step_once {act : Action} (h : s.step writes act = some s')
    (hs : ∀ w, Once (s.attempts w) (s.entries w))
    (hagain : ∀ w, act = .again w → s.entries w = 0) :
    ∀ w, Once (s'.attempts w) (s'.entries w) := by
  cases act with
  | elect node isLeader =>
    obtain rfl := Option.some.inj h
    exact hs
  | learn node addr =>
    obtain rfl := Option.some.inj h
    exact hs
  | commit k =>
    simp only [step] at h
    split at h
    · next p hp =>
      obtain rfl := Option.some.inj h
      intro w
      refine (hs w).entries_le (Nat.le_of_eq ?_)
      obtain ⟨hk, rfl⟩ := List.getElem?_eq_some_iff.1 hp
      have hperm := (List.getElem_cons_eraseIdx_perm hk).countP_eq fun p => p.write = w
      rw [List.countP_cons] at hperm
      simp only [entries, List.countP_append, List.countP_singleton]
      omega
    · cases h
  | discard k =>
    obtain rfl := Option.some.inj h
    intro w
    refine (hs w).entries_le ?_
    have := (List.eraseIdx_sublist s.pending k).countP_le (p := fun p => p.write = w)
    simp only [entries]
    omega
  | submit w =>
    simp only [step] at h
    split at h
    · next hphase =>
      obtain rfl := Option.some.inj h
      refine once_proceed hs
        ((hs w).phase (fun _ => ?_) (fun h => by cases h) fun _ h => by cases h)
      rw [hphase]
      rfl
    · cases h
  | check w range =>
    simp only [step] at h
    split at h
    · next hphase =>
      have hfresh : (s.attempts w).phase.fresh = true := by rw [hphase]; rfl
      obtain ⟨hnone, hentries⟩ := (hs w).fresh hfresh
      split at h
      · split at h
        · obtain rfl := Option.some.inj h
          exact once_returns hs _
        · obtain rfl := Option.some.inj h
          exact once_proceed hs (once_send (by simp [Attempt.live, hnone]) hentries fun _ => hnone)
      · obtain rfl := Option.some.inj h
        exact once_proceed hs ((hs w).phase (fun _ => hfresh) (fun h => by cases h)
          fun _ h => by cases h)
    · cases h
  | route w =>
    simp only [step] at h
    split at h
    · next hphase =>
      obtain ⟨hnone, hentries⟩ := (hs w).fresh (by rw [hphase]; rfl)
      split at h
      · obtain rfl := Option.some.inj h
        exact once_proceed hs (once_send (by simp [Attempt.live, hnone]) hentries fun _ => hnone)
      · obtain rfl := Option.some.inj h
        exact once_returns hs _
    · cases h
  | respond w =>
    simp only [step] at h
    split at h
    · next c addr r hphase hlast =>
      obtain rfl := Option.some.inj h
      unfold afterCall
      split
      · split
        · refine once_proceed hs ((hs w).phase (fun h => by cases h) (fun h => by cases h)
            fun _ _ => ?_)
          -- the only request has been answered
          obtain ⟨q, hq⟩ := List.length_eq_one_iff.1 ((hs w).first hphase)
          rw [hq, List.getLast?_singleton] at hlast
          rw [Attempt.live, hq, Option.some.inj hlast]
          rfl
        · exact once_returns hs _
      · exact once_returns hs _
    · cases h
  | fail w e =>
    simp only [step] at h
    split at h
    · split at h
      · obtain rfl := Option.some.inj h
        exact once_returns hs _
      · cases h
    · cases h
  | again w =>
    simp only [step] at h
    split at h
    · next addr hphase =>
      split at h
      · obtain rfl := Option.some.inj h
        exact once_proceed hs (once_send ((hs w).again addr hphase) (hagain w rfl)
          fun h => by cases h)
      · obtain rfl := Option.some.inj h
        exact once_returns hs _
    · cases h
  | deliver w i here =>
    simp only [step] at h
    split at h
    · next addr hr =>
      split at h
      · obtain rfl := Option.some.inj h
        exact once_advance hs hr fun h => by cases h
      · obtain rfl := Option.some.inj h
        exact once_advance hs hr fun _ => rfl
    · cases h
  | lose w i =>
    simp only [step] at h
    split at h
    · next addr hr =>
      obtain rfl := Option.some.inj h
      exact once_advance hs hr fun h => by cases h
    · cases h
  | take w i =>
    simp only [step] at h
    split at h
    · next addr e hr =>
      split at h
      · obtain rfl := Option.some.inj h
        intro w'
        simp only [advance, attempts_proceed, entries, List.countP_append, List.countP_singleton]
        split
        · next hw =>
          subst hw
          refine (hs w').advance hr (fun h => by cases h) ?_
          simp [entries, Stage.mayPropose]
          omega
        · next hw =>
          rw [if_neg (by simp [Ne.symm hw])]
          exact hs w'
      · cases h
    · cases h
  | refuse w i e =>
    simp only [step] at h
    split at h
    · next addr e' hr =>
      obtain rfl := Option.some.inj h
      exact once_advance hs hr fun h => by cases h
    · cases h
  | finish w i result =>
    simp only [step] at h
    split at h
    · next addr e hr =>
      split at h
      · obtain rfl := Option.some.inj h
        exact once_advance hs hr fun h => by cases h
      · cases h
    · cases h
  | abort w i e =>
    simp only [step] at h
    split at h
    · cases h
    · next addr e' hr _ =>
      obtain rfl := Option.some.inj h
      exact once_advance hs hr fun h => by cases h
    · cases h

/-! ## Runs -/

def absent (s : World) (w : Nat) : Bool := (s.pending ++ s.log).all fun p => p.write ≠ w

/-- A write is forwarded a second time only while there is no entry of it. -/
def careful (s : World) : Action → Bool
  | .again w => s.absent w
  | _ => true

def carefully (writes : Nat → Write) : List Action → World → Bool
  | [], _ => true
  | act :: l, s => s.careful act &&
    match s.step writes act with
    | some t => carefully writes l t
    | none => true

theorem absent_iff : s.absent w = true ↔ s.entries w = 0 := by
  rw [entries, ← List.countP_append, List.countP_eq_zero, absent, List.all_eq_true]
  simp only [decide_eq_true_eq, ne_eq]

theorem run_once {actions : List Action} (h : run writes actions s = some s')
    (hs : ∀ w, Once (s.attempts w) (s.entries w)) (hcareful : carefully writes actions s = true) :
    ∀ w, Once (s'.attempts w) (s'.entries w) := by
  induction actions generalizing s with
  | nil =>
    obtain rfl := Option.some.inj h
    exact hs
  | cons act l ih =>
    obtain ⟨t, hstep, hrest⟩ := Option.bind_eq_some_iff.1 h
    rw [carefully, hstep, Bool.and_eq_true] at hcareful
    refine ih hrest (step_once hstep hs ?_) hcareful.2
    rintro w rfl
    exact absent_iff.1 hcareful.1

/-- Where a run begins: no write has been submitted and there is no entry. -/
structure Initial (s : World) : Prop where
  attempts : ∀ w, s.attempts w = {}
  pending : s.pending = []
  log : s.log = []

/-- **A write is applied at most once** in every run in which a write is forwarded a second time
only while no entry of it waits in a log or has been committed. -/
theorem applied_once {actions : List Action} (hinit : s.Initial)
    (hrun : run writes actions s = some s') (hcareful : carefully writes actions s = true)
    (w : Nat) : (s'.log.filter fun p => p.write = w).length ≤ 1 := by
  have hstart : ∀ w, Once (s.attempts w) (s.entries w) := by
    intro w
    rw [hinit.attempts w, entries, hinit.pending, hinit.log]
    exact ⟨Nat.zero_le _, fun _ => ⟨rfl, rfl⟩, (fun h => by cases h), fun _ h => by cases h⟩
  have hcopies := (run_once hrun hstart hcareful w).copies
  rw [← List.countP_eq_length_filter]
  rw [entries] at hcopies
  omega

def insertsAt (node : Bytes) : Nat → Write := fun _ =>
  { node, sqls := [str "INSERT INTO t VALUES (1)"], atomic := false, rangeID := 1 }

def firstLocal : Local := { range := .ok { id := 1, generation := 1 } }

def forwardToA : List Action :=
  [.elect (str "a") true, .learn (str "f") (str "a"), .submit 0, .check 0 (.ok {}), .route 0]

def forwardToB : List Action :=
  [.elect (str "a") false, .elect (str "b") true, .learn (str "f") (str "b"), .again 0]

/-- The node `a` puts the write into its log and steps down; `b`, which has the entry in its log as
well, commits it, and then the write once more. -/
theorem applied_once_stepDown :
    (run (insertsAt (str "f"))
        (forwardToA ++
          [.deliver 0 0 firstLocal, .take 0 0, .abort 0 0 .leadershipLost, .respond 0] ++
          forwardToB ++ [.commit 0, .deliver 0 1 firstLocal, .take 0 1, .commit 0]) {}).map
      (fun s => s.log.map fun p => (p.write, p.request)) = some [(0, 0), (0, 1)] := by
  decide +kernel

/-- A run in which `a` has stepped down before the write arrives, and `b` commits it. -/
def refusedRun : List Action :=
  forwardToA ++ [.elect (str "a") false, .deliver 0 0 firstLocal, .respond 0] ++
    forwardToB ++ [.deliver 0 1 firstLocal, .take 0 1, .commit 0]

theorem applied_once_refused :
    ∃ s', run (insertsAt (str "f")) refusedRun {} = some s' ∧ s'.log.length = 1 ∧
      (s'.log.filter fun p => p.write = 0).length ≤ 1 := by
  have hlength : (run (insertsAt (str "f")) refusedRun {}).map (·.log.length) = some 1 := by
    decide +kernel
  obtain ⟨s', hrun, hlog⟩ := Option.map_eq_some_iff.1 hlength
  exact ⟨s', hrun, hlog, applied_once ⟨fun _ => rfl, rfl, rfl⟩ hrun (by decide +kernel) 0⟩

end World

end SuperDB.Cluster
