import SuperDB.Client.Verify.Machine

/-!
# A connection that has died

When a read fails, `failAll` sends an error to every round trip that is registered, releases `mu`,
sets the latch and closes the socket. A round trip looks at the latch under `mu`, so one that comes
between the release and the latch is registered after the errors have been sent; if it also writes
its frame before the socket is closed, it waits for an answer that nobody will send. In a run
without such a write every round trip that waits has an answer in its channel once the loop has
ended.
-/

namespace SuperDB.Client

open Go Wire

variable {i : Nat} {err : Bytes}

variable {Cell : Type}

/-- `failAll` has released `mu`. -/
def LoopState.handled : LoopState Cell → Bool
  | .latching _ | .closing _ | .ended _ => true
  | _ => false

def Answered (c : Client Cell) : Prop :=
  ∀ (i : Nat) call, c.calls[i]? = some call → call.state = .waiting → call.ch.isSome = true

/-- The condition on a step: a round trip does not register under a number that is registered, and
if its write succeeds after `failAll` has released `mu`, then its channel is not empty. -/
def prompt (c : Client Cell) : Label → Bool
  | .call i .next =>
    match c.calls[i]? with
    | some call =>
      match call.state with
      | .inserting => (c.pending[call.id]?).isNone
      | .writing => !c.loop.handled || call.ch.isSome
      | _ => true
    | none => true
  | _ => true

def CallState.registered : CallState Cell → Bool
  | .sending | .writing | .waiting | .leaving _ | .removing _ => true
  | _ => false

def CallState.expecting : CallState Cell → Bool
  | .sending | .writing | .waiting => true
  | _ => false

/-- The invariant: a round trip that is registered is the one under its number; while `failAll`
ranges over what was registered, a round trip that has no answer yet is among what is left;
afterwards those that wait have one. -/
structure Failing (c : Client Cell) : Prop where
  owned : Owned c
  registered : ∀ {i : Nat} {call}, c.calls[i]? = some call → call.state.registered = true →
    c.pending[call.id]? = some i
  todo : ∀ {err todo}, c.loop = .answering err todo → ∀ {n i}, (n, i) ∈ todo →
    c.pending[n]? = some i
  answering : ∀ {err todo}, c.loop = .answering err todo →
    ∀ {i : Nat} {call}, c.calls[i]? = some call → call.state.expecting = true → call.ch.isSome =
      true ∨ (call.id, i) ∈ todo
  handled : c.loop.handled = true → Answered c
  ended : ∀ {err}, c.loop = .ended err → c.socketOpen = false

variable {decode : Bytes → Option (Response Cell)} {c c' : Client Cell} {l : Label}

namespace Failing

/-- A step of a round trip that registers and removes nothing. -/
theorem putCall {call call' : Call Cell} (h : Failing c) (howned : Owned c')
    (hi : c.calls[i]? = some call) (hcalls : c'.calls = (c.put i call').calls)
    (hid : call'.id = call.id) (hloop : c'.loop = c.loop) (hsocket : c'.socketOpen = c.socketOpen)
    (hpending : c'.pending = c.pending)
    (hreg : call'.state.registered = true → call.state.registered = true)
    (hexp : call'.state.expecting = true → call.state.expecting = true ∧ call'.ch = call.ch)
    (hwait : c.loop.handled = true → call'.state = .waiting → call'.ch.isSome = true) :
    Failing c' where
  owned := howned
  registered := by
    intro j x hj hs
    rw [hcalls] at hj
    rw [hpending]
    rcases getElem?_put hi hj with ⟨rfl, rfl⟩ | ⟨-, hj⟩
    · rw [hid]
      exact h.registered hi (hreg hs)
    · exact h.registered hj hs
  todo hl := by
    rw [hpending]
    exact h.todo (hloop ▸ hl)
  answering hl := by
    intro j x hj hs
    rw [hcalls] at hj
    rcases getElem?_put hi hj with ⟨rfl, rfl⟩ | ⟨-, hj⟩
    · rw [hid, (hexp hs).2]
      exact h.answering (hloop ▸ hl) hi (hexp hs).1
    · exact h.answering (hloop ▸ hl) hj hs
  handled hl := by
    intro j x hj hs
    rw [hcalls] at hj
    rw [hloop] at hl
    rcases getElem?_put hi hj with ⟨rfl, rfl⟩ | ⟨-, hj⟩
    · exact hwait hl hs
    · exact h.handled hl j x hj hs
  ended hl := by
    rw [hsocket]
    exact h.ended (hloop ▸ hl)

/-- A step after which a round trip has no claim on its channel. -/
theorem settle {call call' : Call Cell} (h : Failing c) (howned : Owned c')
    (hi : c.calls[i]? = some call) (hcalls : c'.calls = (c.put i call').calls)
    (hid : call'.id = call.id) (hloop : c'.loop = c.loop) (hsocket : c'.socketOpen = c.socketOpen)
    (hpending : c'.pending = c.pending)
    (hreg : call'.state.registered = true → call.state.registered = true)
    (hexp : call'.state.expecting = false) : Failing c' :=
  h.putCall howned hi hcalls hid hloop hsocket hpending hreg
    (fun hs => absurd hs (by simp [hexp]))
    (fun _ hs => absurd hexp (by simp [hs, CallState.expecting]))

theorem not_answering {call : Call Cell} {todo : List (UInt64 × Nat)} (h : Failing c)
    (hi : c.calls[i]? = some call) (hs : call.state.locked = true) :
    c.loop ≠ .answering err todo := by
  intro hl
  have hcall := (h.owned.call i).2 ⟨call, hi, hs⟩
  have hloop := h.owned.loop.2 (by rw [hl]; rfl)
  simp [hcall] at hloop

theorem insert {call : Call Cell} (h : Failing c) (hi : c.calls[i]? = some call)
    (hs : call.state = .inserting) (hnew : c.pending[call.id]? = none)
    (howned : Owned { c.put i { call with state := .sending } with
      mu := none
      pending := c.pending.insert call.id i }) :
    Failing { c.put i { call with state := .sending } with
      mu := none
      pending := c.pending.insert call.id i } where
  owned := howned
  registered := by
    intro j x hj hx
    rw [Std.ExtTreeMap.getElem?_insert]
    rcases getElem?_put hi hj with ⟨rfl, rfl⟩ | ⟨-, hj⟩
    · simp
    · have hother := h.registered hj hx
      split
      · next heq =>
        rw [← Std.LawfulEqCmp.compare_eq_iff_eq.1 heq, hnew] at hother
        cases hother
      · exact hother
  todo hl := absurd hl (h.not_answering hi (by simp [hs, CallState.locked]))
  answering hl := absurd hl (h.not_answering hi (by simp [hs, CallState.locked]))
  handled hl := by
    intro j x hj hx
    rcases getElem?_put hi hj with ⟨rfl, rfl⟩ | ⟨-, hj⟩
    · cases hx
    · exact h.handled hl j x hj hx
  ended := h.ended

theorem remove {call : Call Cell} {result : Except CallError (Response Cell)} (h : Failing c)
    (hi : c.calls[i]? = some call) (hs : call.state = .removing result)
    (howned : Owned { c.put i { call with state := .returned result } with
      mu := none
      pending := c.pending.erase call.id }) :
    Failing { c.put i { call with state := .returned result } with
      mu := none
      pending := c.pending.erase call.id } where
  owned := howned
  registered := by
    intro j x hj hx
    rw [Std.ExtTreeMap.getElem?_erase]
    rcases getElem?_put hi hj with ⟨rfl, rfl⟩ | ⟨hne, hj⟩
    · cases hx
    · have hother := h.registered hj hx
      split
      · next heq =>
        -- two round trips under one number
        have hown := h.registered hi (by simp [hs, CallState.registered])
        rw [Std.LawfulEqCmp.compare_eq_iff_eq.1 heq, hother] at hown
        cases hown
        exact absurd rfl hne
      · exact hother
  todo hl := absurd hl (h.not_answering hi (by simp [hs, CallState.locked]))
  answering hl := absurd hl (h.not_answering hi (by simp [hs, CallState.locked]))
  handled hl := by
    intro j x hj hx
    rcases getElem?_put hi hj with ⟨rfl, rfl⟩ | ⟨-, hj⟩
    · cases hx
    · exact h.handled hl j x hj hx
  ended := h.ended

theorem offered {j : Nat} {resp : Response Cell} {x : Call Cell}
    (hj : (c.offer i resp).calls[j]? = some x) :
    ∃ call, c.calls[j]? = some call ∧ x.state = call.state ∧ x.id = call.id ∧
      (call.ch.isSome = true → x.ch.isSome = true) ∧ (i = j → x.ch.isSome = true) := by
  obtain ⟨call, hcall, hx⟩ := getElem?_offer hj
  refine ⟨call, hcall, ?_⟩
  rcases hx with ⟨rfl, rfl⟩ | ⟨hne, rfl⟩
  · cases call.ch <;> simp
  · exact ⟨rfl, rfl, id, fun heq => absurd heq hne⟩

theorem early (h : Failing c) (howned : Owned c')
    (hcalls : ∀ {j : Nat} {x}, c'.calls[j]? = some x →
      ∃ call, c.calls[j]? = some call ∧ x.state = call.state ∧ x.id = call.id)
    (hpending : c'.pending = c.pending) (hanswering : ∀ err todo, c'.loop ≠ .answering err todo)
    (hhandled : c'.loop.handled = false) : Failing c' where
  owned := howned
  registered := by
    intro j x hj hs
    obtain ⟨call, hcall, hstate, hid⟩ := hcalls hj
    rw [hpending, hid]
    exact h.registered hcall (hstate ▸ hs)
  todo hl := absurd hl (hanswering _ _)
  answering hl := absurd hl (hanswering _ _)
  handled hl := absurd hl (by simp [hhandled])
  ended hl := absurd hhandled (by simp [hl, LoopState.handled])

theorem earlyLoop (h : Failing c) (howned : Owned c') (hcalls : c'.calls = c.calls)
    (hpending : c'.pending = c.pending) (hanswering : ∀ err todo, c'.loop ≠ .answering err todo)
    (hhandled : c'.loop.handled = false) : Failing c' := by
  refine h.early howned (fun hj => ?_) hpending hanswering hhandled
  rw [hcalls] at hj
  exact ⟨_, hj, rfl, rfl⟩

theorem begin (h : Failing c) (howned : Owned c') (hcalls : c'.calls = c.calls)
    (hpending : c'.pending = c.pending) (hloop : c'.loop = .answering err c.pending.toList) :
    Failing c' where
  owned := howned
  registered hj hs := by
    rw [hcalls] at hj
    rw [hpending]
    exact h.registered hj hs
  todo hl := by
    rw [hloop] at hl
    cases hl
    intro n i hm
    rw [hpending]
    exact Std.ExtTreeMap.mem_toList_iff_getElem?_eq_some.1 hm
  answering hl := by
    rw [hloop] at hl
    cases hl
    intro i call hi hs
    rw [hcalls] at hi
    have hreg : call.state.registered = true := by
      revert hs
      cases call.state <;> simp [CallState.expecting, CallState.registered]
    exact .inr (Std.ExtTreeMap.mem_toList_iff_getElem?_eq_some.2 (h.registered hi hreg))
  handled hl := by rw [hloop] at hl; cases hl
  ended hl := by rw [hloop] at hl; cases hl

theorem answer {todo : List (UInt64 × Nat)} {n : UInt64} (h : Failing c)
    (hl : c.loop = .answering err todo) (hi : todo.lookup n = some i)
    (howned : Owned { c.offer i (failure err n) with
      loop := .answering err (todo.filter (·.1 != n)) }) :
    Failing { c.offer i (failure err n) with
      loop := .answering err (todo.filter (·.1 != n)) } where
  owned := howned
  registered hj hs := by
    obtain ⟨call, hcall, hstate, hid, -⟩ := offered hj
    rw [hid]
    exact h.registered hcall (hstate ▸ hs)
  todo hl' := by
    cases hl'
    intro m j hm
    exact h.todo hl (List.mem_filter.1 hm).1
  answering hl' := by
    cases hl'
    intro j x hj hs
    obtain ⟨call, hcall, hstate, hid, hkeep, hfill⟩ := offered hj
    rw [hstate] at hs
    rcases h.answering hl hcall hs with hch | hm
    · exact .inl (hkeep hch)
    by_cases hn : call.id = n
    · -- the entry that is answered is the one of this round trip
      have hmem : (n, i) ∈ todo := by
        obtain ⟨before, after, rfl, -⟩ := List.lookup_eq_some_iff.1 hi
        simp
      have hij := (h.todo hl hmem).symm.trans (hn ▸ h.todo hl hm)
      exact .inl (hfill (Option.some.inj hij))
    · exact .inr (hid ▸ List.mem_filter.2 ⟨hm, by simpa using hn⟩)
  handled hl' := by cases hl'
  ended hl' := by cases hl'

theorem release (h : Failing c) (hl : c.loop = .answering err []) (howned : Owned c')
    (hcalls : c'.calls = c.calls) (hpending : c'.pending = c.pending)
    (hloop : c'.loop = .latching err) : Failing c' where
  owned := howned
  registered hj hs := by
    rw [hcalls] at hj
    rw [hpending]
    exact h.registered hj hs
  todo hl' := by rw [hloop] at hl'; cases hl'
  answering hl' := by rw [hloop] at hl'; cases hl'
  handled _ := by
    intro j x hj hs
    rw [hcalls] at hj
    rcases h.answering hl hj (by simp [hs, CallState.expecting]) with hch | hm
    · exact hch
    · cases hm
  ended hl' := by rw [hloop] at hl'; cases hl'

theorem late (h : Failing c) (howned : Owned c') (hcalls : c'.calls = c.calls)
    (hpending : c'.pending = c.pending)
    (hanswering : ∀ err todo, c'.loop = .answering err todo → c.loop = .answering err todo)
    (hhandled : c'.loop.handled = true → c.loop.handled = true)
    (hended : ∀ {err}, c'.loop = .ended err → c'.socketOpen = false) : Failing c' where
  owned := howned
  registered hj hs := by
    rw [hcalls] at hj
    rw [hpending]
    exact h.registered hj hs
  todo hl := by
    rw [hpending]
    exact h.todo (hanswering _ _ hl)
  answering hl := by
    rw [hcalls]
    exact h.answering (hanswering _ _ hl)
  handled hl := by
    intro j x hj hs
    rw [hcalls] at hj
    exact h.handled (hhandled hl) j x hj hs
  ended := hended

theorem newCall {call : Call Cell} (h : Failing c) (hs : call.state = .locking)
    (howned : Owned c') (hcalls : c'.calls = c.calls ++ [call]) (hpending : c'.pending = c.pending)
    (hloop : c'.loop = c.loop) (hsocket : c'.socketOpen = c.socketOpen) : Failing c' where
  owned := howned
  registered := by
    intro j x hj hx
    rw [hcalls] at hj
    rw [hpending]
    rcases getElem?_entered hj with hj | ⟨-, rfl⟩
    · exact h.registered hj hx
    · simp [hs, CallState.registered] at hx
  todo hl := by
    rw [hpending]
    exact h.todo (hloop ▸ hl)
  answering hl := by
    intro j x hj hx
    rw [hcalls] at hj
    rcases getElem?_entered hj with hj | ⟨-, rfl⟩
    · exact h.answering (hloop ▸ hl) hj hx
    · simp [hs, CallState.expecting] at hx
  handled hl := by
    intro j x hj hx
    rw [hcalls] at hj
    rcases getElem?_entered hj with hj | ⟨-, rfl⟩
    · exact h.handled (hloop ▸ hl) j x hj hx
    · simp [hs] at hx
  ended hl := by
    rw [hsocket]
    exact h.ended (hloop ▸ hl)

theorem initial : Failing ({} : Client Cell) where
  owned := Owned.initial
  registered hi := by simp at hi
  todo hl := by cases hl
  answering hl := by cases hl
  handled hl := by cases hl
  ended hl := by cases hl

theorem step (h : Failing c) (hprompt : prompt c l = true) (hstep : c.step decode l = some c') :
    Failing c' := by
  have howned := h.owned.step hstep
  cases takes_of_step hstep with
  | refused => exact h
  | enter => exact h.newCall rfl howned rfl rfl rfl rfl
  | cancel hi =>
    refine h.putCall howned hi rfl rfl rfl rfl rfl id (fun hs => ⟨hs, rfl⟩) (fun hl hs => ?_)
    have hwait := h.handled hl _ _ hi hs
    exact hwait
  | lock hi => exact h.settle howned hi rfl rfl rfl rfl rfl nofun rfl
  | turnedAway hi => exact h.settle howned hi rfl rfl rfl rfl rfl nofun rfl
  | check hi => exact h.settle howned hi rfl rfl rfl rfl rfl nofun rfl
  | insert hi hs => exact h.insert hi hs (by simpa [prompt, hi, hs] using hprompt) howned
  | lockWriter hi hs =>
    exact h.putCall howned hi rfl rfl rfl rfl rfl (fun _ => by simp [hs, CallState.registered])
      (fun _ => ⟨by simp [hs, CallState.expecting], rfl⟩) nofun
  | write hi hs =>
    refine h.putCall howned hi rfl rfl rfl rfl rfl (fun _ => by simp [hs, CallState.registered])
      (fun _ => ⟨by simp [hs, CallState.expecting], rfl⟩) (fun hl _ => ?_)
    simpa [prompt, hi, hs, hl] using hprompt
  | writeError hi hs =>
    exact h.settle howned hi rfl rfl rfl rfl rfl (fun _ => by simp [hs, CallState.registered]) rfl
  | receive hi hs =>
    exact h.settle howned hi rfl rfl rfl rfl rfl (fun _ => by simp [hs, CallState.registered]) rfl
  | quit hi hs =>
    exact h.settle howned hi rfl rfl rfl rfl rfl (fun _ => by simp [hs, CallState.registered]) rfl
  | leave hi hs =>
    exact h.settle howned hi rfl rfl rfl rfl rfl (fun _ => by simp [hs, CallState.registered]) rfl
  | remove hi hs => exact h.remove hi hs howned
  | ignored => exact h
  | frame => exact h.earlyLoop howned rfl rfl nofun rfl
  | readError => exact h.earlyLoop howned rfl rfl nofun rfl
  | lookup => exact h.earlyLoop howned rfl rfl nofun rfl
  | found => exact h.earlyLoop howned rfl rfl nofun rfl
  | unknown => exact h.earlyLoop howned rfl rfl nofun rfl
  | deliver =>
    refine h.early howned (fun hj => ?_) rfl nofun rfl
    obtain ⟨call, hcall, hstate, hid, -⟩ := offered hj
    exact ⟨call, hcall, hstate, hid⟩
  | fail => exact h.begin howned rfl rfl rfl
  | answer hl hi => exact h.answer hl hi howned
  | answered hl => exact h.release hl howned rfl rfl rfl
  | latch hl => exact h.late howned rfl rfl nofun (fun _ => by rw [hl]; rfl) nofun
  | shut hl => exact h.late howned rfl rfl nofun (fun _ => by rw [hl]; rfl) (fun _ => rfl)
  | close => exact h.newCall rfl howned rfl rfl rfl rfl
  | closeLatch => exact h.late howned rfl rfl (fun _ _ hl => hl) id h.ended
  | closeSocket => exact h.late howned rfl rfl (fun _ _ hl => hl) id (fun _ => rfl)

end Failing

/-! ## Every run -/

/-- The steps that are left to the receive loop after it has released `mu`. -/
theorem loop_ends (hl : c.loop = .latching err ∨ c.loop = .closing err) :
    ∃ ls c', Trace.run (Client.step decode) c ls = some c' ∧ c'.loop = .ended err ∧
      c'.calls = c.calls := by
  rcases hl with hl | hl
  · have hlatch : c.step decode (.loop .next) =
        some { c with closed := true, loop := .closing err } := by
      simp [Client.step, readLoop, hl]
    have hshut : { c with closed := true, loop := LoopState.closing err }.step decode
        (.loop .next) =
        some { c with closed := true, socketOpen := false, loop := .ended err } := rfl
    exact ⟨_, _, Trace.run_two hlatch hshut, rfl, rfl⟩
  · have hshut : c.step decode (.loop .next) =
        some { c with socketOpen := false, loop := .ended err } := by
      simp [Client.step, readLoop, hl]
    exact ⟨_, _, Trace.run_one hshut, rfl, rfl⟩

/-- A round trip writes with an empty channel after `failAll` has released `mu` and before the
socket is closed: once the receive loop has ended, it waits and its channel is empty. -/
theorem stranded_of_write {call : Call Cell} (hi : c.calls[i]? = some call)
    (hs : call.state = .writing) (hch : call.ch = none) (hopen : c.socketOpen = true)
    (hwriter : c.writerFailed = false) (hl : c.loop = .latching err ∨ c.loop = .closing err) :
    ∃ ls c', Trace.run (Client.step decode) c (.call i .next :: ls) = some c' ∧
      c'.loop = .ended err ∧ ¬ Answered c' := by
  have hwrite : c.step decode (.call i .next) =
      some { c.put i { call with state := .waiting } with
        writeMu := none
        written := c.written ++ encodeFrame call.msgType call.id call.payload } := by
    simp [Client.step, hi, roundTrip, hs, hopen, hwriter]
  obtain ⟨ls, c', hrun, hended, hcalls⟩ :=
    loop_ends (c := { c.put i { call with state := .waiting } with
    writeMu := none
    written := c.written ++ encodeFrame call.msgType call.id call.payload }) hl
  refine ⟨ls, c', by rw [Trace.run_cons, hwrite]; exact hrun, hended, fun hanswered => ?_⟩
  have hget : c'.calls[i]? = some { call with state := .waiting } := by
    rw [hcalls]
    exact List.getElem?_set_self (List.getElem?_eq_some_iff.1 hi).1
  simpa [hch] using hanswered i _ hget rfl

/-- In every run whose steps all are prompt, a round trip that waits after the receive loop has
ended has an answer in its channel. A write that is not prompt leads to one that has none. -/
theorem dead_connection_answers (decode : Bytes → Option (Response Cell)) :
    (∀ ls c err, Trace.run (Client.step decode) {} ls = some c →
      Trace.Along (Client.step decode) (fun c l => prompt c l = true) {} ls →
      c.loop = .ended err → Answered c) ∧
    (∀ (c : Client Cell) (i : Nat) call err, c.calls[i]? = some call → call.state = .writing →
      call.ch = none → c.socketOpen = true → c.writerFailed = false →
      (c.loop = .latching err ∨ c.loop = .closing err) →
      ∃ ls c', Trace.run (Client.step decode) c (.call i .next :: ls) = some c' ∧
        c'.loop = .ended err ∧ ¬ Answered c') := by
  refine ⟨fun ls c err hrun hprompt hl => ?_, fun c i call err hi hs hch hopen hwriter hl =>
    stranded_of_write hi hs hch hopen hwriter hl⟩
  have hfailing : Failing c :=
    Trace.run_along (fun _ _ _ h hp hstep => h.step hp hstep) Failing.initial hprompt hrun
  exact hfailing.handled (by rw [hl]; rfl)

/-- A round trip registers before the read fails, and the receive loop ends. -/
def registeredEarly : List Label :=
  .enter 4 [] :: List.replicate 5 (.call 0 .next) ++
    [.loop (.readError (str "EOF")), .loop .next, .loop (.answer 1)] ++
      List.replicate 3 (.loop .next)

/-- A round trip registers and writes when `failAll` has released `mu` and the latch is not set. -/
def registeredLate : List Label :=
  [.enter 4 [], .loop (.readError (str "EOF")), .loop .next, .loop .next] ++
    List.replicate 5 (.call 0 .next) ++ List.replicate 2 (.loop .next)

def mute (_ : Bytes) : Option (Response Unit) := none

theorem dead_connection_answers_early :
    ∃ c, Trace.run (Client.step mute) {} registeredEarly = some c ∧
      Trace.Along (Client.step mute) (fun c l => prompt c l = true) {} registeredEarly ∧
      c.loop = .ended (str "EOF") ∧ c.calls.map (·.state) = [.waiting] ∧ Answered c := by
  have hvals : (Trace.run (Client.step mute) {} registeredEarly).map
      (fun c => (c.loop, c.calls.map (·.state))) = some (.ended (str "EOF"), [.waiting]) := by
    decide +kernel
  obtain ⟨c, hrun, hvals⟩ := Option.map_eq_some_iff.1 hvals
  simp only [Prod.mk.injEq] at hvals
  have hprompt : Trace.Along (Client.step mute) (fun c l => prompt c l = true) {}
      registeredEarly := by decide +kernel
  have h := (dead_connection_answers mute).1 _ c _ hrun hprompt hvals.1
  exact ⟨c, hrun, hprompt, hvals.1, hvals.2, h⟩

theorem dead_connection_strands :
    ∃ c, Trace.run (Client.step mute) {} registeredLate = some c ∧
      c.loop = .ended (str "EOF") ∧
      c.calls.map (fun call => (call.state, call.ch)) = [(.waiting, none)] ∧ ¬ Answered c := by
  have hvals : (Trace.run (Client.step mute) {} registeredLate).map
      (fun c => (c.loop, c.calls.map fun call => (call.state, call.ch))) =
      some (.ended (str "EOF"), [(.waiting, none)]) := by decide +kernel
  obtain ⟨c, hrun, hvals⟩ := Option.map_eq_some_iff.1 hvals
  simp only [Prod.mk.injEq] at hvals
  refine ⟨c, hrun, hvals.1, hvals.2, fun hanswered => ?_⟩
  obtain ⟨call, hcalls, hcall⟩ := List.map_eq_singleton_iff.1 hvals.2
  simp only [Prod.mk.injEq] at hcall
  have := hanswered 0 call (by simp [hcalls]) hcall.1
  simp [hcall.2] at this

end SuperDB.Client
