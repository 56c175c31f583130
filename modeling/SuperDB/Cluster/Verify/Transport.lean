import SuperDB.Cluster.Transport
import SuperDB.Go.Trace
import Mathlib.Logic.Function.Basic

/-!
# Every connection has one owner

Seen from above, a transport is a ledger: a function from the connections to the places where they
are. Each move of a call or of `Close` moves at most one connection, so the ledger is kept whatever
the order of the moves. `Close` races with calls that have their channel already; such a call may
still receive a connection, or a nil one.
-/

namespace SuperDB.Cluster

open Go

variable {stage old : CallStage} {moves : List Move}

/-- Where a connection is. -/
inductive Place where
  | call (i : Nat)
  | idle (addr : Bytes)
  | shut
  deriving DecidableEq

namespace Transport

def At (t : Transport) (c : Nat) : Place → Prop
  | .call i => ∃ addr, t.calls[i]? = some (.talking addr c)
  | .idle addr => c ∈ (t.pool addr).conns
  | .shut => c ∈ t.shut

variable {t t' : Transport} {c i : Nat} {addr : Bytes}

/-! ## The ledger -/

section Fields

variable (t) (addr : Bytes) (conns : List Nat) (i : Nat) (stage : CallStage)

theorem pool_insert (p : Pool) (other : Bytes) :
    ({ t with pools := t.pools.insert addr p } : Transport).pool other =
      if addr = other then p else t.pool other := by
  simp only [pool, Map.getD_eq, Map.get?_insert]
  split <;> rfl

theorem conns_setConns (other : Bytes) :
    ((t.setConns addr conns).pool other).conns =
      if addr = other then conns else (t.pool other).conns := by
  rw [setConns, pool_insert]
  split <;> rfl

theorem conns_setConns_self (other : Bytes) :
    ((t.setConns addr (t.pool addr).conns).pool other).conns = (t.pool other).conns := by
  rw [conns_setConns]
  split
  · next h => rw [h]
  · rfl

theorem closed_setConns (other : Bytes) :
    ((t.setConns addr conns).pool other).closed = (t.pool other).closed := by
  rw [setConns, pool_insert]
  split
  · next h => rw [h]
  · rfl

theorem conns_closePool (other : Bytes) : ((t.closePool addr).pool other).conns =
    (t.pool other).conns := by
  refine (congrArg Pool.conns (pool_insert t addr _ other)).trans ?_
  split
  · next h => rw [h]
  · rfl

end Fields

theorem getElem?_setCall (hcall : t.calls[i]? = some old) (j : Nat) (x : CallStage) :
    (t.setCall i stage).calls[j]? = some x ↔ (j = i ∧ x = stage) ∨
    (j ≠ i ∧ t.calls[j]? = some x) := by
  have hlt : i < t.calls.length := (List.getElem?_eq_some_iff.1 hcall).1
  rw [setCall, List.getElem?_set]
  by_cases hj : i = j
  · subst hj
    simp [hlt, eq_comm]
  · simp [hj, Ne.symm hj]

theorem getElem?_concat {x : CallStage} (h : stage ≠ x) (i : Nat) :
    (t.calls ++ [stage])[i]? = some x ↔ t.calls[i]? = some x := by
  rw [List.getElem?_append]
  split
  · rfl
  · next hlt =>
    rw [List.getElem?_eq_none (Nat.not_lt.1 hlt)]
    cases i - t.calls.length <;> simp [h]

/-- The connections, where they are, and the peer each one belongs to; `hand` is the one that the
move under way has taken and not yet put down. -/
structure Ledger (t : Transport) (owner : Nat → Place) (hand : Option Nat) : Prop where
  known : ∀ c ∈ hand, c < t.dials.length
  places : ∀ c p, t.At c p ↔ c < t.dials.length ∧ hand ≠ some c ∧ owner c = p
  nodup : ∀ addr, (t.pool addr).conns.Nodup
  room : ∀ addr, (t.pool addr).conns.length ≤ maxPoolPerPeer
  peer : ∀ addr, ∀ c ∈ (t.pool addr).conns, t.dials[c]? = some addr
  talk : ∀ (i : Nat) addr c, t.calls[i]? = some (.talking addr c) → t.dials[c]? = some addr

namespace Ledger

variable {owner : Nat → Place} {hand : Option Nat}

theorem initial (owner : Nat → Place) : Ledger {} owner none where
  known := by simp
  places c p := by cases p <;> simp [At, pool]
  nodup := by simp [pool]
  room := by simp [pool]
  peer := by simp [pool]
  talk := by simp

theorem congr (h : Ledger t owner hand)
    (hconns : ∀ addr, (t'.pool addr).conns = (t.pool addr).conns := by exact fun _ => rfl)
    (htalk : ∀ (i : Nat) addr c, t'.calls[i]? = some (.talking addr c) ↔
      t.calls[i]? = some (.talking addr c) := by exact fun _ _ _ => Iff.rfl)
    (hshut : t'.shut = t.shut := by rfl) (hdials : t'.dials = t.dials := by rfl) :
    Ledger t' owner hand where
  known := by rw [hdials]; exact h.known
  places c p := by
    have hat : t'.At c p ↔ t.At c p := by
      cases p with
      | call i => exact exists_congr fun addr => htalk i addr c
      | idle addr => exact Iff.of_eq (congrArg (c ∈ ·) (hconns addr))
      | shut => exact Iff.of_eq (congrArg (c ∈ ·) hshut)
    rw [hat, hdials, h.places]
  nodup addr := hconns addr ▸ h.nodup addr
  room addr := hconns addr ▸ h.room addr
  peer addr := by rw [hconns, hdials]; exact h.peer addr
  talk i addr c hcall := by rw [hdials]; exact h.talk i addr c ((htalk i addr c).1 hcall)

theorem not_at (h : Ledger t owner (some c)) (p : Place) : ¬t.At c p := by
  simp [h.places]

theorem places_put (h : Ledger t owner (some c)) {p : Place} (hdials : t'.dials = t.dials)
    (hat : ∀ d q, t'.At d q ↔ d = c ∧ q = p ∨ t.At d q) (d : Nat) (q : Place) :
    t'.At d q ↔ d < t'.dials.length ∧ none ≠ some d ∧ Function.update owner c p d = q := by
  rw [hat, hdials, h.places]
  by_cases hd : d = c
  · subst hd
    simp [h.known d rfl, eq_comm]
  · simp [hd, Ne.symm hd]

/-! ### What is taken -/

theorem takeIdle (h : Ledger t owner none) {rest : List Nat}
    (hconns : (t.pool addr).conns = c :: rest) : Ledger (t.setConns addr rest) owner (some c) := by
  have hnodup := h.nodup addr
  have hroom := h.room addr
  have hpeer := h.peer addr
  rw [hconns] at hnodup hroom hpeer
  obtain ⟨hc, hrest⟩ := List.nodup_cons.1 hnodup
  obtain ⟨hlt, -, howner⟩ := (h.places c (.idle addr)).1 (by simp [At, hconns])
  refine ⟨by rintro d ⟨⟩; exact hlt, fun d p => ?_, fun other => ?_, fun other => ?_,
    fun other => ?_, h.talk⟩
  · have hat : (t.setConns addr rest).At d p ↔ t.At d p ∧ ¬(d = c ∧ p = .idle addr) := by
      cases p with
      | call i => exact (and_iff_left (by simp)).symm
      | shut => exact (and_iff_left (by simp)).symm
      | idle other =>
        simp only [At, conns_setConns]
        split
        · next heq => grind
        · next hne => simp [Ne.symm hne]
    rw [hat, h.places]
    change _ ↔ d < t.dials.length ∧ _
    grind
  all_goals
    rw [conns_setConns]
    split
  · exact hrest
  · exact h.nodup other
  · exact (Nat.le_succ _).trans hroom
  · exact h.room other
  · next heq => exact heq ▸ fun d hd => hpeer d (List.mem_cons_of_mem c hd)
  · exact h.peer other

theorem takeCall (h : Ledger t owner none) (hcall : t.calls[i]? = some (.talking addr c)) :
    Ledger (t.setCall i .ended) owner (some c) := by
  obtain ⟨hlt, -, howner⟩ := (h.places c (.call i)).1 ⟨addr, hcall⟩
  refine ⟨by rintro d ⟨⟩; exact hlt, fun d p => ?_, h.nodup, h.room, h.peer, fun j other d hd => ?_⟩
  · have hat : (t.setCall i .ended).At d p ↔ t.At d p ∧ ¬(d = c ∧ p = .call i) := by
      cases p with
      | idle other => exact (and_iff_left (by simp)).symm
      | shut => exact (and_iff_left (by simp)).symm
      | call j =>
        simp only [At, getElem?_setCall hcall]
        by_cases hj : j = i
        · subst hj
          simp [hcall, eq_comm]
        · simp [hj]
    rw [hat, h.places]
    change _ ↔ d < t.dials.length ∧ _
    grind
  · obtain ⟨-, hd⟩ | ⟨-, hd⟩ := (getElem?_setCall hcall j _).1 hd
    · cases hd
    · exact h.talk j other d hd

theorem takeNew (h : Ledger t owner none) (addr : Bytes) :
    Ledger { t with dials := t.dials ++ [addr] } owner (some t.dials.length) := by
  have hmono : ∀ {d : Nat} {a : Bytes}, t.dials[d]? = some a → (t.dials ++ [addr])[d]? = some a :=
    fun hd => List.getElem?_append_left (List.getElem?_eq_some_iff.1 hd).1 ▸ hd
  refine ⟨by simp, fun d p => ?_, h.nodup, h.room, fun other d hd => hmono (h.peer other d hd),
    fun j other d hd => hmono (h.talk j other d hd)⟩
  refine (h.places d p).trans ?_
  simp only [List.length_append, List.length_singleton]
  grind

/-! ### What is put down -/

theorem putShut (h : Ledger t owner (some c)) :
    Ledger (t.shutConn c) (Function.update owner c .shut) none := by
  refine ⟨by simp, h.places_put rfl fun d p => ?_, h.nodup, h.room, h.peer, h.talk⟩
  cases p with
  | call i => exact (or_iff_right (by simp)).symm
  | idle other => exact (or_iff_right (by simp)).symm
  | shut => simp [At, shutConn, or_comm]

theorem putCall (h : Ledger t owner (some c)) (hcall : t.calls[i]? = some old)
    (hold : ∀ addr c, old ≠ .talking addr c) (haddr : t.dials[c]? = some addr) :
    Ledger (t.setCall i (.talking addr c)) (Function.update owner c (.call i)) none := by
  refine ⟨by simp, h.places_put rfl fun d p => ?_, h.nodup, h.room, h.peer, fun j other d hd => ?_⟩
  · cases p with
    | idle other => exact (or_iff_right (by simp)).symm
    | shut => exact (or_iff_right (by simp)).symm
    | call j =>
      simp only [At, getElem?_setCall hcall]
      by_cases hj : j = i
      · subst hj
        simp [hcall, hold]
      · simp [hj]
  · obtain ⟨-, hd⟩ | ⟨-, hd⟩ := (getElem?_setCall hcall j _).1 hd
    · cases hd
      exact haddr
    · exact h.talk j other d hd

theorem putIdle (h : Ledger t owner (some c)) (haddr : t.dials[c]? = some addr)
    (hroom : (t.pool addr).conns.length < maxPoolPerPeer) :
    Ledger (t.setConns addr ((t.pool addr).conns ++ [c])) (Function.update owner c (.idle addr))
      none := by
  refine ⟨by simp, h.places_put rfl fun d p => ?_, fun other => ?_, fun other => ?_,
    fun other => ?_, h.talk⟩
  · cases p with
    | call i => exact (or_iff_right (by simp)).symm
    | shut => exact (or_iff_right (by simp)).symm
    | idle other =>
      simp only [At, conns_setConns]
      split
      · next heq => simp [heq, or_comm]
      · next hne => simp [Ne.symm hne]
  all_goals
    rw [conns_setConns]
    split
  · exact List.nodup_append.2 ⟨h.nodup addr, List.nodup_singleton c, fun d hd e he =>
      ne_of_mem_of_not_mem hd (List.mem_singleton.1 he ▸ h.not_at (.idle addr))⟩
  · exact h.nodup other
  · rw [List.length_append]
    exact hroom
  · exact h.room other
  · next heq =>
    intro d hd
    obtain hd | hd := List.mem_append.1 hd
    · exact heq ▸ h.peer addr d hd
    · exact heq ▸ List.mem_singleton.1 hd ▸ haddr
  · exact h.peer other

/-- A call that talks to nobody before or after leaves the ledger alone. -/
theorem setCall (h : Ledger t owner hand) (hcall : t.calls[i]? = some old)
    (hold : ∀ addr c, old ≠ .talking addr c) (hnew : ∀ addr c, stage ≠ .talking addr c) :
    Ledger (t.setCall i stage) owner hand := by
  refine h.congr (fun _ => rfl) fun j addr c => ?_
  rw [getElem?_setCall hcall]
  by_cases hj : j = i
  · subst hj
    simp [hcall, Ne.symm (hnew addr c), hold addr c]
  · simp [hj]

end Ledger

/-! ## Closing -/

/-- Up to where `Close` has come, and what a call may have died of. -/
structure Closes (t : Transport) : Prop where
  mutex : t.closing = true → t.closed = true
  opened : t.closed = false → ∀ addr, (t.pool addr).closed = false
  drained : ∀ addr, (t.pool addr).closed = true → t.draining ≠ some addr → (t.pool addr).conns = []
  unlocked : t.closing = false → t.draining = none
  done : t.closed = true → t.closing = false → ∀ addr, (t.pool addr).conns = []
  crash : t.crashed = none ∨ t.crashed = some .nilConn ∧ t.closed = true

namespace Closes

theorem initial : Closes {} := by
  constructor <;> simp [pool]

theorem closed_of_closed (h : Closes t) (hpool : (t.pool addr).closed = true) :
    t.closed = true := by
  by_contra hopen
  rw [h.opened (by simpa using hopen) addr] at hpool
  cases hpool

theorem congr (h : Closes t)
    (hconns : t.closed = true → ∀ addr, (t.pool addr).conns = [] → (t'.pool addr).conns = [] := by
      exact fun _ _ hnil => hnil)
    (hpool : ∀ addr, (t'.pool addr).closed = (t.pool addr).closed := by exact fun _ => rfl)
    (hcrash : t'.crashed = t.crashed ∨ t'.crashed = some .nilConn ∧
      t.closed = true := by exact .inl rfl)
    (hclosed : t'.closed = t.closed := by rfl) (hclosing : t'.closing = t.closing := by rfl)
    (hdraining : t'.draining = t.draining := by rfl) : Closes t' where
  mutex := by rw [hclosing, hclosed]; exact h.mutex
  opened hopen addr := by rw [hpool]; exact h.opened (hclosed ▸ hopen) addr
  drained addr hc hd := by
    rw [hpool] at hc
    exact hconns (h.closed_of_closed hc) addr (h.drained addr hc (hdraining ▸ hd))
  unlocked := by rw [hclosing, hdraining]; exact h.unlocked
  done hc hmu addr := by
    rw [hclosed] at hc
    exact hconns hc addr (h.done hc (hclosing ▸ hmu) addr)
  crash := by
    rw [hclosed]
    obtain heq | hnil := hcrash
    · rw [heq]; exact h.crash
    · exact Or.inr hnil

theorem takeIdle (h : Closes t) {rest : List Nat} (hconns : (t.pool addr).conns = c :: rest) :
    Closes (t.setConns addr rest) := by
  refine h.congr (fun _ other hnil => ?_) (closed_setConns t addr rest)
  rw [conns_setConns, if_neg]
  · exact hnil
  · rintro rfl
    rw [hconns] at hnil
    cases hnil

end Closes

/-! ## The moves -/

/-- What a move leaves. -/
structure Keeps (t t' : Transport) : Prop where
  ledger : ∃ owner, Ledger t' owner none
  closes : Closes t'
  shut : t.shut <+: t'.shut

section Moves

variable {owner : Nat → Place} (h : Ledger t owner none) (hc : Closes t)

include h hc

theorem acquire_keeps (addr : Bytes) : Keeps t (t.acquire addr) := by
  unfold acquire
  split
  · exact ⟨⟨owner, h.congr (fun _ => rfl) fun i _ _ => getElem?_concat (by simp) i⟩,
      hc.congr, List.prefix_rfl⟩
  · exact ⟨⟨owner, h.congr (conns_setConns_self t addr) fun i _ _ => getElem?_concat (by simp) i⟩,
      hc.congr (fun _ other hnil => (conns_setConns_self t addr other).trans hnil)
        (closed_setConns t addr _), List.prefix_rfl⟩

theorem receive_keeps (hcall : t.calls[i]? = some (.looking addr)) (alive : Bool) :
    Keeps t (t.receive i addr alive) := by
  unfold receive
  split
  · split
    · next hpool =>
      exact ⟨⟨owner, h.congr⟩, hc.congr (fun _ _ hnil => hnil) (fun _ => rfl)
        (.inr ⟨rfl, hc.closed_of_closed hpool⟩), List.prefix_rfl⟩
    · exact ⟨⟨owner, h.setCall hcall (by simp) (by simp)⟩, hc.congr, List.prefix_rfl⟩
  · next c rest hconns =>
    have htake := h.takeIdle hconns
    have hcloses := hc.takeIdle hconns
    split
    · exact ⟨⟨_, htake.putCall hcall (by simp) (h.peer _ c (by simp [hconns]))⟩, hcloses.congr,
        List.prefix_rfl⟩
    · exact ⟨⟨_, htake.putShut.setCall hcall (by simp) (by simp)⟩, hcloses.congr,
        List.prefix_append _ _⟩

theorem dial_keeps (hcall : t.calls[i]? = some (.dialing addr)) (ok : Bool) :
    Keeps t (t.dial i addr ok) := by
  unfold dial
  split
  · exact ⟨⟨_, (h.takeNew _).putCall hcall (by simp) (by simp)⟩, hc.congr, List.prefix_rfl⟩
  · exact ⟨⟨owner, h.setCall hcall (by simp) (by simp)⟩, hc.congr, List.prefix_rfl⟩

theorem release_keeps (hcall : t.calls[i]? = some (.talking addr c)) (failed : Bool) :
    Keeps t (t.release i addr c failed) := by
  have htake := h.takeCall hcall
  unfold release
  simp only
  split
  · exact ⟨⟨_, htake.putShut⟩, hc.congr, List.prefix_append _ _⟩
  · next hopen =>
    simp only [Bool.or_eq_true, not_or, Bool.not_eq_true] at hopen
    split
    · -- an open transport has no closed channel
      next hpool => exact absurd (hc.opened hopen.2 addr) (by simp [hpool])
    · split
      · next hroom =>
        exact ⟨⟨_, htake.putIdle (h.talk _ _ _ hcall) hroom⟩,
          hc.congr (fun hclosed => absurd hclosed (by simp [hopen.2])) (closed_setConns t addr _),
          List.prefix_rfl⟩
      · exact ⟨⟨_, htake.putShut⟩, hc.congr, List.prefix_append _ _⟩

theorem closePool_keeps (hmu : t.closing = true) (hidle : t.draining = none) (addr : Bytes) :
    Keeps t (t.closePool addr) := by
  refine ⟨⟨owner, h.congr (conns_closePool t addr)⟩,
    ⟨hc.mutex, fun hopen => ?_, fun other hpool hother => ?_, fun hno => ?_, fun _ hno => ?_,
    hc.crash⟩, List.prefix_rfl⟩
  · exact absurd (hc.mutex hmu) (ne_true_of_eq_false hopen)
  · have hne : addr ≠ other := fun heq => hother (congrArg some heq)
    have hclosed : (t.pool other).closed = true :=
      (congrArg Pool.closed ((pool_insert t addr _ other).trans (if_neg hne))).symm.trans hpool
    rw [conns_closePool]
    exact hc.drained other hclosed (by simp [hidle])
  · exact absurd hmu (ne_true_of_eq_false hno)
  · exact absurd hmu (ne_true_of_eq_false hno)

theorem drain_keeps (haddr : t.draining = some addr) : Keeps t (t.drain addr) := by
  unfold drain
  split
  · next hnil =>
    refine ⟨⟨owner, h.congr⟩, ⟨hc.mutex, hc.opened, fun other hpool _ => ?_, fun _ => rfl, hc.done,
      hc.crash⟩, List.prefix_rfl⟩
    by_cases heq : addr = other
    · exact heq ▸ hnil
    · exact hc.drained other hpool (by simp [haddr, heq])
  · next hconns =>
    exact ⟨⟨_, (h.takeIdle hconns).putShut⟩, (hc.takeIdle hconns).congr, List.prefix_append _ _⟩

theorem unlock_keeps (hidle : t.draining = none)
    (hall : ∀ addr ∈ t.pools, (t.pool addr).closed = true) :
    Keeps t { t with closing := false } := by
  refine ⟨⟨owner, h.congr⟩, ⟨by simp, hc.opened, hc.drained, fun _ => hidle, fun _ _ addr => ?_,
    hc.crash⟩, List.prefix_rfl⟩
  by_cases haddr : addr ∈ t.pools
  · exact hc.drained addr (hall addr haddr) (by simp [hidle])
  · simp [pool, Map.getD_eq, Map.not_mem_iff.1 haddr]

theorem step_keeps {m : Move} (hstep : t.step m = some t') : Keeps t t' := by
  unfold step at hstep
  split at hstep
  · cases hstep
  · cases m with
    | call addr =>
      simp only [Option.ite_none_left_eq_some, Option.some.injEq] at hstep
      exact hstep.2 ▸ acquire_keeps h hc addr
    | receive i alive =>
      simp only at hstep
      split at hstep
      · next hcall => exact Option.some.inj hstep ▸ receive_keeps h hc hcall alive
      · cases hstep
    | dial i ok =>
      simp only at hstep
      split at hstep
      · next hcall => exact Option.some.inj hstep ▸ dial_keeps h hc hcall ok
      · cases hstep
    | release i failed =>
      simp only at hstep
      split at hstep
      · next hcall =>
        simp only [Option.ite_none_left_eq_some, Option.some.injEq] at hstep
        exact hstep.2 ▸ release_keeps h hc hcall failed
      · cases hstep
    | close =>
      simp only [Option.ite_none_left_eq_some, Option.some.injEq] at hstep
      refine hstep.2 ▸ ⟨⟨owner, h.congr⟩, ?_, List.prefix_rfl⟩
      exact ⟨fun _ => rfl, by simp, hc.drained, by simp, by simp, hc.crash.imp id fun hnil =>
        ⟨hnil.1, rfl⟩⟩
    | closePool addr =>
      simp only [Option.ite_none_right_eq_some, Bool.and_eq_true, Option.isNone_iff_eq_none,
        Option.some.injEq] at hstep
      exact hstep.2 ▸ closePool_keeps h hc hstep.1.1.1.1 hstep.1.1.1.2 addr
    | drain =>
      simp only [Option.ite_none_right_eq_some, Option.map_eq_some_iff] at hstep
      obtain ⟨-, addr, haddr, rfl⟩ := hstep
      exact drain_keeps h hc haddr
    | unlock =>
      simp only [Option.ite_none_right_eq_some, Bool.and_eq_true, Option.isNone_iff_eq_none,
        Option.some.injEq, List.all_eq_true] at hstep
      exact hstep.2 ▸ unlock_keeps h hc hstep.1.1.2 fun addr haddr =>
        hstep.1.2 addr (Map.mem_keys.2 haddr)

end Moves

/-! ## Runs -/

theorem run_keeps (h : Keeps {} t) (hrun : Trace.run step t moves = some t') : Keeps t t' := by
  refine Trace.run_holds (I := Keeps t) (fun u m u' hu hstep => ?_)
    ⟨h.ledger, h.closes, List.prefix_rfl⟩ hrun
  obtain ⟨owner, hledger⟩ := hu.ledger
  have hnext := step_keeps hledger hu.closes hstep
  exact ⟨hnext.ledger, hnext.closes, hu.shut.trans hnext.shut⟩

theorem initial_keeps : Keeps {} {} :=
  ⟨⟨fun _ => .shut, .initial _⟩, .initial, List.prefix_rfl⟩

/-- Calls in any order, and `Close` among them: every connection that was dialled is held by one
call, or idle in one channel, or closed; a channel keeps at most eight of them; and a connection is
only ever used for the peer it was dialled to. -/
theorem connection_has_one_owner (hrun : Trace.run step {} moves = some t) :
    (∃ owner : Nat → Place, ∀ c p, t.At c p ↔ c < t.dials.length ∧ owner c = p) ∧
      ∀ addr, (t.pool addr).conns.Nodup ∧ (t.pool addr).conns.length ≤ maxPoolPerPeer ∧
        (∀ c ∈ (t.pool addr).conns, t.dials[c]? = some addr) ∧
        ∀ (i c : Nat), t.calls[i]? = some (.talking addr c) → t.dials[c]? = some addr := by
  obtain ⟨owner, h⟩ := (run_keeps initial_keeps hrun).ledger
  refine ⟨⟨owner, fun c p => ?_⟩, fun addr =>
    ⟨h.nodup addr, h.room addr, h.peer addr, fun i => h.talk i addr⟩⟩
  rw [h.places]
  simp

/-- Two calls that share a peer; the second one dials while the first one holds its connection. -/
def sharing : List Move :=
  [.call [97], .receive 0 true, .dial 0 true, .call [97], .receive 1 true, .release 0 false,
  .dial 1 true]

theorem connection_has_one_owner_sharing :
    ∃ t, Trace.run step {} sharing = some t ∧ t.dials = [[97], [97]] ∧
      ∃ owner : Nat → Place, ∀ c p, t.At c p ↔ c < t.dials.length ∧ owner c = p := by
  have hdials : (Trace.run step {} sharing).map (·.dials) = some [[97], [97]] := by decide +kernel
  obtain ⟨t, hrun, hdials⟩ := Option.map_eq_some_iff.1 hdials
  exact ⟨t, hrun, hdials, (connection_has_one_owner hrun).1⟩

/-- Once `Close` has returned, a connection that no call holds is closed, and a closed connection is
never used again. No call sends on a closed channel. A call dies of a nil connection only if `Close`
has begun, and a call that had its channel by then can. -/
theorem close_leaks_nothing (hrun : Trace.run step {} moves = some t) :
    (t.closed = true → t.closing = false → ∀ c < t.dials.length, t.At c .shut ∨
    ∃ i, t.At c (.call i)) ∧
      (∀ later t', Trace.run step t later = some t' → ∀ c, t.At c .shut → ∀ p, t'.At c p ↔
        p = .shut) ∧
      (t.crashed = none ∨ t.crashed = some .nilConn ∧ t.closed = true) ∧
      ∃ dying u, Trace.run step {} dying = some u ∧ u.crashed = some .nilConn := by
  have hkeeps := run_keeps initial_keeps hrun
  have hcloses := hkeeps.closes
  obtain ⟨owner, h⟩ := hkeeps.ledger
  refine ⟨fun hclosed hmu c hc => ?_, fun later t' hlater c hshut p => ?_, hcloses.crash, ?_⟩
  · have hat : t.At c (owner c) := (h.places c _).2 ⟨hc, by simp, rfl⟩
    cases hplace : owner c with
    | call i => exact .inr ⟨i, hplace ▸ hat⟩
    | shut => exact .inl (hplace ▸ hat)
    | idle addr =>
      rw [hplace, At, hcloses.done hclosed hmu] at hat
      cases hat
  · have hlast := run_keeps hkeeps hlater
    obtain ⟨owner', h'⟩ := hlast.ledger
    obtain ⟨hc, -, howner⟩ := (h'.places c .shut).1 (hlast.shut.subset hshut)
    rw [h'.places, howner]
    simp [hc, eq_comm]
  · have hdies :
        (Trace.run step {} [.call [97], .close, .closePool [97], .drain, .receive 0 true]).map
        (·.crashed) = some (some .nilConn) := by decide +kernel
    obtain ⟨u, hu, hcrash⟩ := Option.map_eq_some_iff.1 hdies
    exact ⟨_, u, hu, hcrash⟩

theorem close_leaks_nothing_sharing :
    ∃ t, Trace.run step {} (sharing ++ [.close, .closePool [97], .drain, .drain, .unlock]) =
      some t ∧ (t.closed, t.closing) = (true, false) ∧
      ∀ c < t.dials.length, t.At c .shut ∨ ∃ i, t.At c (.call i) := by
  have hdone :
      (Trace.run step {} (sharing ++ [.close, .closePool [97], .drain, .drain, .unlock])).map
      (fun t => (t.closed, t.closing)) = some (true, false) := by decide +kernel
  obtain ⟨t, hrun, hdone⟩ := Option.map_eq_some_iff.1 hdone
  obtain ⟨hclosed, hmu⟩ := Prod.mk.inj hdone
  exact ⟨t, hrun, hdone, (close_leaks_nothing hrun).1 hclosed hmu⟩

end Transport

end SuperDB.Cluster
