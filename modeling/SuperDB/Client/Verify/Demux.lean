import SuperDB.Client.Verify.Machine

/-!
# Responses are not crossed

The receive loop looks a number up under `mu` and sends to the channel after it has released `mu`,
so that a response may arrive in a channel whose round trip has left long ago, and a second response
to one request may find its channel full, or emptied by a round trip that is on its way out. None of
this is seen by a round trip that returns a response: it returns the first one that was handed over
for its number, or the error that `failAll` made for it when none was.
-/

namespace SuperDB.Client

open Go Wire

variable {Cell : Type}

/-! ## What the receive loop hands over -/

/-- The response that a step of the receive loop hands to a channel. -/
def delivery (c : Client Cell) : Label → List (Response Cell)
  | .loop .next =>
    match c.loop with
    | .delivering _ resp => [resp]
    | _ => []
  | _ => []

/-- The responses handed over in the run from `c`, in order. -/
def deliveries (decode : Bytes → Option (Response Cell)) (c : Client Cell) (ls : List Label) :
    List (Response Cell) :=
  Trace.emitted (step decode) delivery c ls

/-- The response in a frame, under the number of the frame. -/
def response (decode : Bytes → Option (Response Cell)) : Label → Option (Response Cell)
  | .loop (.frame hdr payload) =>
    if hdr.type ≠ typeResponse then none
    else (decode payload).map fun resp => { resp with requestID := hdr.requestID }
  | _ => none

def firstFor (id : UInt64) (responses : List (Response Cell)) : Option (Response Cell) :=
  responses.find? (·.requestID == id)

def LoopState.failed : LoopState Cell → Option Bytes
  | .failing err | .answering err _ | .latching err | .closing err | .ended err => some err
  | _ => none

/-- The answer to a number: the first response handed over for it, or the error made for it if the
read has failed before there was one. -/
def Answer (failed : Option Bytes) (handed : List (Response Cell)) (id : UInt64)
    (resp : Response Cell) : Prop :=
  firstFor id handed = some resp ∨
    firstFor id handed = none ∧ ∃ err, failed = some err ∧ resp = failure err id

/-- The receive loop has ended, or it can take its next step, if need be after at most two steps of
the round trip that holds `mu`. -/
def LoopGoesOn (decode : Bytes → Option (Response Cell)) (c : Client Cell) : Prop :=
  (∃ err, c.loop = .ended err) ∨
    ∃ ls c₁ move c₂, ls.length ≤ 2 ∧ (∀ l ∈ ls, ∃ i, c.mu = some (.call i) ∧ l = .call i .next) ∧
      Trace.run (step decode) c ls = some c₁ ∧ c₁.loop = c.loop ∧
        step decode c₁ (.loop move) = some c₂

variable {decode : Bytes → Option (Response Cell)} {c c' : Client Cell} {l : Label}
variable {failed : Option Bytes} {handed : List (Response Cell)} {id : UInt64}
variable {resp : Response Cell}

theorem Answer.requestID (h : Answer failed handed id resp) : resp.requestID = id := by
  rcases h with h | ⟨-, err, -, rfl⟩
  · simpa using List.find?_some h
  · rfl

theorem Answer.first (h : Answer none handed id resp) : firstFor id handed = some resp := by
  rcases h with h | ⟨-, err, hf, -⟩
  · exact h
  · cases hf

theorem Answer.fail (h : Answer none handed id resp) : Answer failed handed id resp :=
  .inl h.first

theorem Answer.accept (h : Answer failed handed id resp) : accept id resp = .ok resp := by
  have hid := h.requestID
  simp only [Client.accept, ← hid]
  simp

theorem firstFor_concat_ne {other : Response Cell} (h : other.requestID ≠ id) :
    firstFor id (handed ++ [other]) = firstFor id handed := by
  simp [firstFor, List.find?_append, h]

theorem firstFor_concat_of_some {other : Response Cell} (h : firstFor id handed = some resp) :
    firstFor id (handed ++ [other]) = some resp := by
  simp only [firstFor] at h
  simp [firstFor, List.find?_append, h]

theorem firstFor_concat_of_none (h : firstFor resp.requestID handed = none) :
    firstFor resp.requestID (handed ++ [resp]) = some resp := by
  simp only [firstFor] at h
  simp [firstFor, List.find?_append, h]

/-! ## The channel and the result of a round trip -/

def CallState.result : CallState Cell → Option (Except CallError (Response Cell))
  | .leaving r | .removing r | .returned r => some r
  | _ => none

/-- As long as a round trip has no result, its channel holds the answer to its number, and is empty
only if nothing has been handed over; a response that is its result is the answer. -/
def Served (failed : Option Bytes) (handed : List (Response Cell)) (id : UInt64)
    (ch : Option (Response Cell)) : Option (Except CallError (Response Cell)) → Prop
  | some result => ∀ resp, result = .ok resp → Answer failed handed id resp
  | none =>
    match ch with
    | some resp => Answer failed handed id resp
    | none => firstFor id handed = none

def AllServed (c : Client Cell) (handed : List (Response Cell)) : Prop :=
  ∀ i call, c.calls[i]? = some call →
    Served c.loop.failed handed (number i) call.ch call.state.result

theorem Served.fail {ch : Option (Response Cell)}
    {result : Option (Except CallError (Response Cell))}
    (h : Served none handed id ch result) : Served failed handed id ch result := by
  cases result with
  | some r => exact fun resp hr => (h resp hr).fail
  | none =>
    cases ch with
    | some resp => exact Answer.fail h
    | none => exact h

theorem Served.other {other : Response Cell} {ch : Option (Response Cell)}
    {result : Option (Except CallError (Response Cell))} (hne : other.requestID ≠ id)
    (h : Served failed handed id ch result) : Served failed (handed ++ [other]) id ch result := by
  have hfirst : firstFor id (handed ++ [other]) = firstFor id handed := firstFor_concat_ne hne
  cases result with
  | some r =>
    intro resp hr
    have := h resp hr
    rwa [Answer, hfirst]
  | none =>
    cases ch with
    | some resp =>
      have : Answer failed handed id resp := h
      show Answer _ _ _ _
      rwa [Answer, hfirst]
    | none => exact hfirst.trans h

theorem Served.deliver {ch : Option (Response Cell)}
    {result : Option (Except CallError (Response Cell))}
    (h : Served none handed resp.requestID ch result) :
    Served none (handed ++ [resp]) resp.requestID (ch <|> some resp) result := by
  cases result with
  | some r => exact fun resp' hr => .inl (firstFor_concat_of_some (h resp' hr).first)
  | none =>
    cases ch with
    | some resp' => exact .inl (firstFor_concat_of_some (Answer.first h))
    | none => exact .inl (firstFor_concat_of_none h)

theorem Served.answer {err : Bytes} {ch : Option (Response Cell)}
    {result : Option (Except CallError (Response Cell))}
    (h : Served (some err) handed id ch result) :
    Served (some err) handed id (ch <|> some (failure err id)) result := by
  cases result with
  | some r => exact h
  | none =>
    cases ch with
    | some resp => exact h
    | none => exact .inr ⟨h, err, rfl, rfl⟩

namespace AllServed

theorem putCall {i : Nat} {call call' : Call Cell} (h : AllServed c handed)
    (hi : c.calls[i]? = some call) (hcalls : c'.calls = (c.put i call').calls)
    (hloop : c'.loop = c.loop)
    (hserved : Served c.loop.failed handed (number i) call.ch call.state.result →
      Served c.loop.failed handed (number i) call'.ch call'.state.result) :
    AllServed c' handed := by
  intro j x hj
  rw [hcalls] at hj
  rw [hloop]
  rcases getElem?_put hi hj with ⟨rfl, rfl⟩ | ⟨-, hj⟩
  · exact hserved (h i call hi)
  · exact h j x hj

theorem goOn {i : Nat} {call call' : Call Cell} (h : AllServed c handed)
    (hi : c.calls[i]? = some call) (hcalls : c'.calls = (c.put i call').calls)
    (hloop : c'.loop = c.loop) (hch : call'.ch = call.ch)
    (hresult : call'.state.result = call.state.result) : AllServed c' handed :=
  h.putCall hi hcalls hloop (by rw [hch, hresult]; exact fun hs => hs)

theorem giveUp {i : Nat} {call call' : Call Cell} {err : CallError} (h : AllServed c handed)
    (hi : c.calls[i]? = some call) (hcalls : c'.calls = (c.put i call').calls)
    (hloop : c'.loop = c.loop) (hresult : call'.state.result = some (.error err)) :
    AllServed c' handed := by
  refine h.putCall hi hcalls hloop fun _ => ?_
  rw [hresult]
  intro resp hr
  cases hr

theorem newCall {call : Call Cell} (h : AllServed c handed) (hch : call.ch = none)
    (hstate : call.state = .locking) (hcalls : c'.calls = c.calls ++ [call])
    (hloop : c'.loop = c.loop) (hfresh : firstFor (number c.calls.length) handed = none) :
    AllServed c' handed := by
  intro j x hj
  rw [hcalls] at hj
  rw [hloop]
  rcases getElem?_entered hj with hj | ⟨rfl, rfl⟩
  · exact h j x hj
  · rw [hch, hstate]
    exact hfresh

theorem setLoop (h : AllServed c handed) (hcalls : c'.calls = c.calls)
    (hfailed : c'.loop.failed = c.loop.failed) : AllServed c' handed := by
  intro j x hj
  rw [hcalls] at hj
  rw [hfailed]
  exact h j x hj

end AllServed

/-! ## The invariant -/

def Taken (c : Client Cell) (handed : List (Response Cell)) : Prop :=
  ∀ resp ∈ handed, ∃ i < c.calls.length, resp.requestID = number i

theorem Taken.mono (h : Taken c handed) (hlen : c.calls.length ≤ c'.calls.length) :
    Taken c' handed := by
  intro resp hm
  obtain ⟨i, hi, hid⟩ := h resp hm
  exact ⟨i, by omega, hid⟩

/-- The invariant of every run with fewer than `2 ^ 64` round trips. -/
structure Demux (c : Client Cell) (handed : List (Response Cell)) : Prop where
  numbered : Numbered c
  taken : Taken c handed
  served : c.calls.length < 2 ^ 64 → AllServed c handed

theorem length_le_of_step (hstep : c.step decode l = some c') :
    c.calls.length ≤ c'.calls.length := by
  cases takes_of_step hstep <;> simp [put, offer]

theorem Demux.taken_step {handed : List (Response Cell)} (h : Demux c handed)
    (hstep : c.step decode l = some c') : Taken c' (handed ++ delivery c l) := by
  intro resp hm
  rcases List.mem_append.1 hm with hm | hm
  · exact h.taken.mono (length_le_of_step hstep) resp hm
  · unfold delivery at hm
    split at hm
    · split at hm
      · next i r hl =>
        obtain ⟨hi, hid⟩ := h.numbered.delivering hl
        obtain rfl := List.mem_singleton.1 hm
        exact ⟨i, lt_of_lt_of_le hi (length_le_of_step hstep), hid⟩
      · cases hm
    · cases hm

theorem Demux.fresh (h : Demux c handed) (hcount : c.calls.length + 1 < 2 ^ 64) :
    firstFor (number c.calls.length) handed = none := by
  refine List.find?_eq_none.2 fun resp hm heq => ?_
  obtain ⟨i, hi, hid⟩ := h.taken resp hm
  have : i = c.calls.length :=
    number_injective (by omega) hcount (hid.symm.trans (by simpa using heq))
  omega

theorem delivery_eq_nil (hl : ∀ i resp, c.loop ≠ .delivering i resp) : delivery c l = [] := by
  unfold delivery
  split
  · split
    · next hloop => exact absurd hloop (hl _ _)
    · rfl
  · rfl

/-- The step of the receive loop that hands a response over. -/
theorem Demux.deliver {i : Nat} (h : Demux c handed) (hcount : c.calls.length < 2 ^ 64)
    (hl : c.loop = .delivering i resp) :
    AllServed { c.offer i resp with loop := .reading } (handed ++ [resp]) := by
  obtain ⟨hi, hid⟩ := h.numbered.delivering hl
  intro j x hj
  obtain ⟨call, hcall, hx⟩ := getElem?_offer hj
  have hserved := h.served hcount j call hcall
  rw [hl] at hserved
  have hjlt : j < c.calls.length := (List.getElem?_eq_some_iff.1 hcall).1
  rcases hx with ⟨rfl, rfl⟩ | ⟨hne, rfl⟩
  · rw [← hid] at hserved ⊢
    exact hserved.deliver
  · refine Served.other (fun heq => hne ?_) hserved
    exact number_injective (by omega) (by omega) (hid.symm.trans heq)

/-- A step of `failAll` that sends the error to one channel. -/
theorem Demux.answer {err : Bytes} {todo rest : List (UInt64 × Nat)} {i : Nat} (h : Demux c handed)
    (hcount : c.calls.length < 2 ^ 64) (hl : c.loop = .answering err todo)
    (hi : todo.lookup id = some i) :
    AllServed { c.offer i (failure err id) with loop := .answering err rest } handed := by
  have hmem : (id, i) ∈ todo := by
    obtain ⟨before, after, rfl, -⟩ := List.lookup_eq_some_iff.1 hi
    simp
  obtain ⟨-, hid⟩ := h.numbered.answering hl hmem
  intro j x hj
  obtain ⟨call, hcall, hx⟩ := getElem?_offer hj
  have hserved := h.served hcount j call hcall
  rw [hl] at hserved
  rcases hx with ⟨rfl, rfl⟩ | ⟨-, rfl⟩
  · rw [hid]
    exact Served.answer hserved
  · exact hserved

theorem Demux.initial : Demux ({} : Client Cell) [] where
  numbered := Numbered.initial
  taken := by simp [Taken]
  served _ := by simp [AllServed]

theorem Demux.step (h : Demux c handed) (hstep : c.step decode l = some c') :
    Demux c' (handed ++ delivery c l) := by
  refine ⟨h.numbered.step hstep, h.taken_step hstep, fun hcount => ?_⟩
  have hlen := length_le_of_step hstep
  have hserved := h.served (by omega)
  have hkeep (hnil : delivery c l = []) (hc' : AllServed c' handed) :
      AllServed c' (handed ++ delivery c l) := by
    rw [hnil, List.append_nil]
    exact hc'
  have hquiet {loop : LoopState Cell} (hl : c.loop = loop)
      (hn : ∀ i resp, loop ≠ .delivering i resp) : delivery c l = [] :=
    delivery_eq_nil fun i resp => hl ▸ hn i resp
  cases takes_of_step hstep with
  | refused => exact hkeep rfl hserved
  | enter =>
    have hfresh := h.fresh (by simpa using hcount)
    exact hkeep rfl (hserved.newCall rfl rfl rfl rfl hfresh)
  | cancel hi => exact hkeep rfl (hserved.goOn hi rfl rfl rfl rfl)
  | lock hi hs => exact hkeep rfl (hserved.goOn hi rfl rfl rfl (by simp [hs, CallState.result]))
  | turnedAway hi => exact hkeep rfl (hserved.giveUp hi rfl rfl rfl)
  | check hi hs => exact hkeep rfl (hserved.goOn hi rfl rfl rfl (by simp [hs, CallState.result]))
  | insert hi hs => exact hkeep rfl (hserved.goOn hi rfl rfl rfl (by simp [hs, CallState.result]))
  | lockWriter hi hs =>
    exact hkeep rfl (hserved.goOn hi rfl rfl rfl (by simp [hs, CallState.result]))
  | write hi hs => exact hkeep rfl (hserved.goOn hi rfl rfl rfl (by simp [hs, CallState.result]))
  | writeError hi => exact hkeep rfl (hserved.giveUp hi rfl rfl rfl)
  | receive hi hs hch =>
    refine hkeep rfl (hserved.putCall hi rfl rfl fun hanswer => ?_)
    rw [hs, hch] at hanswer
    rw [h.numbered.id hi, Answer.accept hanswer]
    intro resp hr
    cases hr
    exact hanswer
  | quit hi => exact hkeep rfl (hserved.giveUp hi rfl rfl rfl)
  | leave hi hs => exact hkeep rfl (hserved.goOn hi rfl rfl rfl (by simp [hs, CallState.result]))
  | remove hi hs =>
    exact hkeep rfl (hserved.goOn hi rfl rfl rfl (by simp [hs, CallState.result]))
  | ignored => exact hkeep rfl hserved
  | frame hl =>
    exact hkeep (hquiet hl nofun) (hserved.setLoop rfl (by rw [hl]; rfl))
  | readError _ hl =>
    refine hkeep (hquiet hl nofun) fun j x hj => ?_
    have hj := hserved j x hj
    rw [hl] at hj
    exact Served.fail hj
  | lookup hl =>
    exact hkeep (hquiet hl nofun) (hserved.setLoop rfl (by rw [hl]; rfl))
  | found hl =>
    exact hkeep (hquiet hl nofun) (hserved.setLoop rfl (by rw [hl]; rfl))
  | unknown hl =>
    exact hkeep (hquiet hl nofun) (hserved.setLoop rfl (by rw [hl]; rfl))
  | deliver hl =>
    have := h.deliver (by omega) hl
    simpa [delivery, hl] using this
  | fail hl =>
    exact hkeep (hquiet hl nofun) (hserved.setLoop rfl (by rw [hl]; rfl))
  | answer hl hi =>
    exact hkeep (hquiet hl nofun) (h.answer (by omega) hl hi)
  | answered hl =>
    exact hkeep (hquiet hl nofun) (hserved.setLoop rfl (by rw [hl]; rfl))
  | latch hl =>
    exact hkeep (hquiet hl nofun) (hserved.setLoop rfl (by rw [hl]; rfl))
  | shut hl =>
    exact hkeep (hquiet hl nofun) (hserved.setLoop rfl (by rw [hl]; rfl))
  | close =>
    have hfresh := h.fresh (by simpa using hcount)
    exact hkeep rfl (hserved.newCall rfl rfl rfl rfl hfresh)
  | closeLatch => exact hkeep rfl hserved
  | closeSocket => exact hkeep rfl hserved

/-! ## The receive loop is not held up -/

/-- The round trip that holds `mu` releases it in one step, or in two. -/
theorem Owned.released {i : Nat} (h : Owned c) (hmu : c.mu = some (.call i)) :
    ∃ ls c₁, ls.length ≤ 2 ∧ (∀ l ∈ ls, l = .call i .next) ∧
      Trace.run (Client.step decode) c ls = some c₁ ∧ c₁.loop = c.loop ∧ c₁.mu = none := by
  obtain ⟨call, hi, hlocked⟩ := (h.call i).1 hmu
  have hlt : i < c.calls.length := (List.getElem?_eq_some_iff.1 hi).1
  have hone (c₁ : Client Cell) (hstep : c.step decode (.call i .next) = some c₁)
      (hloop : c₁.loop = c.loop) (hfree : c₁.mu = none) :
      ∃ ls c₁, ls.length ≤ 2 ∧ (∀ l ∈ ls, l = .call i .next) ∧
        Trace.run (Client.step decode) c ls = some c₁ ∧ c₁.loop = c.loop ∧ c₁.mu = none :=
    ⟨[.call i .next], c₁, by simp, by simp, by simp [hstep], hloop, hfree⟩
  cases hs : call.state with
  | checking =>
    cases hclosed : c.closed with
    | true =>
      refine hone { c.put i { call with state := .returned (.error .clientClosed) } with
        mu := none } ?_ rfl rfl
      simp [Client.step, hi, roundTrip, hs, hclosed]
    | false =>
      have hcheck : c.step decode (.call i .next) =
          some (c.put i { call with state := .inserting }) := by
        simp [Client.step, hi, roundTrip, hs, hclosed]
      have hinsert : (c.put i { call with state := .inserting }).step decode (.call i .next) =
          some { (c.put i { call with state := .inserting }).put i
            { call with state := .sending } with
            mu := none
            pending := c.pending.insert call.id i } := by
        have hput : (c.calls.set i { call with state := .inserting })[i]? =
            some { call with state := .inserting } := List.getElem?_set_self hlt
        simp only [Client.step, put, hput, Option.bind_some, roundTrip]
      exact ⟨_, _, by simp, by simp, Trace.run_two hcheck hinsert, rfl, rfl⟩
  | inserting =>
    refine hone { c.put i { call with state := .sending } with
      mu := none
      pending := c.pending.insert call.id i } ?_ rfl rfl
    simp [Client.step, hi, roundTrip, hs]
  | removing result =>
    refine hone { c.put i { call with state := .returned result } with
      mu := none
      pending := c.pending.erase call.id } ?_ rfl rfl
    simp [Client.step, hi, roundTrip, hs]
  | _ => simp [hs, CallState.locked] at hlocked

theorem Owned.loopGoesOn_of_lock (h : Owned c) (hl : c.loop.locked = false)
    (hnext : ∀ c₁ : Client Cell, c₁.loop = c.loop → c₁.mu = none →
      ∃ c₂, c₁.step decode (.loop .next) = some c₂) : LoopGoesOn decode c := by
  cases hmu : c.mu with
  | none =>
    obtain ⟨c₂, hstep⟩ := hnext c rfl hmu
    exact .inr ⟨[], c, .next, c₂, by simp, by simp, rfl, rfl, hstep⟩
  | some owner =>
    cases owner with
    | loop => exact absurd (h.loop.1 hmu) (by simp [hl])
    | call i =>
      obtain ⟨ls, c₁, hlen, hls, hrun, hloop, hfree⟩ := h.released hmu
      obtain ⟨c₂, hstep⟩ := hnext c₁ hloop hfree
      exact .inr ⟨ls, c₁, .next, c₂, hlen, fun l hm => ⟨i, hmu, hls l hm⟩, hrun, hloop, hstep⟩

theorem loopGoesOn_of_step (move : LoopMove) (h : ∃ c', c.step decode (.loop move) = some c') :
    LoopGoesOn decode c := by
  obtain ⟨c', h⟩ := h
  exact .inr ⟨[], c, move, c', by simp, by simp, rfl, rfl, h⟩

theorem Owned.loopGoesOn (h : Owned c) : LoopGoesOn decode c := by
  cases hl : c.loop with
  | reading => exact loopGoesOn_of_step (.readError []) (by simp [Client.step, readLoop, hl])
  | decoded resp =>
    refine h.loopGoesOn_of_lock (by rw [hl]; rfl) fun c₁ hloop hfree => ?_
    simp [Client.step, readLoop, hloop, hl, hfree]
  | looking resp =>
    refine loopGoesOn_of_step .next ?_
    cases hp : c.pending[resp.requestID]? <;> simp [Client.step, readLoop, hl, hp]
  | delivering i resp => exact loopGoesOn_of_step .next (by simp [Client.step, readLoop, hl])
  | failing err =>
    refine h.loopGoesOn_of_lock (by rw [hl]; rfl) fun c₁ hloop hfree => ?_
    simp [Client.step, readLoop, hloop, hl, hfree]
  | answering err todo =>
    cases todo with
    | nil => exact loopGoesOn_of_step .next (by simp [Client.step, readLoop, hl])
    | cons p todo =>
      exact loopGoesOn_of_step (.answer p.1) (by simp [Client.step, readLoop, hl, List.lookup])
  | latching err => exact loopGoesOn_of_step .next (by simp [Client.step, readLoop, hl])
  | closing err => exact loopGoesOn_of_step .next (by simp [Client.step, readLoop, hl])
  | ended err => exact .inl ⟨err, hl⟩

/-! ## Every run -/

def LoopState.inHand : LoopState Cell → List (Response Cell)
  | .decoded resp | .looking resp | .delivering _ resp => [resp]
  | _ => []

theorem inHand_step (hstep : c.step decode l = some c') :
    (delivery c l ++ c'.loop.inHand).Sublist (c.loop.inHand ++ (response decode l).toList) := by
  cases takes_of_step hstep with
  | ignored => exact List.sublist_append_left _ _
  | frame hl ht hd => simp [delivery, hl, response, ht, hd, LoopState.inHand]
  | readError _ hl => simp [delivery, hl, LoopState.inHand]
  | lookup hl => simp [delivery, hl, LoopState.inHand]
  | found hl => simp [delivery, hl, LoopState.inHand]
  | unknown hl => simp [delivery, hl, LoopState.inHand]
  | deliver hl => simp [delivery, hl, LoopState.inHand]
  | fail hl => simp [delivery, hl, LoopState.inHand]
  | answer hl => simp [delivery, hl, LoopState.inHand]
  | answered hl => simp [delivery, hl, LoopState.inHand]
  | latch hl => simp [delivery, hl, LoopState.inHand]
  | shut hl => simp [delivery, hl, LoopState.inHand]
  -- a step of a round trip or of `Close` leaves the loop where it is
  | _ => exact List.sublist_append_left _ _

theorem deliveries_sublist {ls : List Label}
    (hrun : Trace.run (Client.step decode) c ls = some c') :
    (deliveries decode c ls).Sublist (c.loop.inHand ++ ls.filterMap (response decode)) := by
  induction ls generalizing c with
  | nil => simp [deliveries, Trace.emitted]
  | cons l ls ih =>
    obtain ⟨c₁, h₁, hrun⟩ := Option.bind_eq_some_iff.1 hrun
    have hone := inHand_step h₁
    have hrest := ih hrun
    simp only [deliveries] at hrest
    have hdrop := (hrest.append_left (delivery c l)).trans
      (List.append_assoc (delivery c l) c₁.loop.inHand _ ▸ hone.append_right _)
    have hcons : (l :: ls).filterMap (response decode) =
        (response decode l).toList ++ ls.filterMap (response decode) := by
      cases hl : response decode l <;> simp [hl]
    simpa [deliveries, Trace.emitted, h₁, hcons] using hdrop

/-- In every run of fewer than `2 ^ 64` round trips, whatever frames the server sends, a round trip
that returns a response returns the first one handed over for its number, or the error that was made
for its number if there was none; what is handed over are responses in the order of their frames;
and the receive loop is never held up by a round trip. -/
theorem responses_not_crossed (decode : Bytes → Option (Response Cell)) {ls : List Label}
    {c : Client Cell} (hrun : Trace.run (Client.step decode) {} ls = some c)
    (hcount : c.calls.length < 2 ^ 64) :
    (∀ (i : Nat) call resp, c.calls[i]? = some call → call.state = .returned (.ok resp) →
      Answer c.loop.failed (deliveries decode {} ls) call.id resp) ∧
    (deliveries decode {} ls).Sublist (ls.filterMap (response decode)) ∧
    LoopGoesOn decode c := by
  have hdemux : Demux c (deliveries decode {} ls) :=
    Trace.run_invariant (fun _ _ _ _ h _ hstep => h.step hstep) Demux.initial
      (Trace.along_true _ ls) hrun
  have howned : Owned c := Trace.run_holds (fun _ _ _ h hstep => h.step hstep) Owned.initial hrun
  refine ⟨fun i call resp hi hs => ?_, by simpa [LoopState.inHand] using deliveries_sublist hrun,
    howned.loopGoesOn⟩
  have hserved := hdemux.served hcount i call hi
  rw [hs] at hserved
  rw [hdemux.numbered.id hi]
  exact hserved resp rfl

def echo (payload : Bytes) : Option (Response Unit) :=
  some { status := str "ok", message := payload }

def replyTo (id : UInt64) : Label :=
  .loop (.frame { version := 1, type := typeResponse, flags := 0, requestID := id, length := 0 } [])

/-- Two round trips: the second is answered twice, and the read fails before the first is
answered. -/
def crossing : List Label :=
  [.enter 4 [], .enter 4 []] ++
    List.replicate 5 (.call 1 .next) ++ List.replicate 5 (.call 0 .next) ++
    [replyTo 2, .loop .next, .loop .next, .loop .next] ++
    [replyTo 2, .loop .next, .loop .next, .loop .next] ++
    [.loop (.readError (str "EOF")), .loop .next, .loop (.answer 1), .loop (.answer 2),
    .loop .next] ++ List.replicate 3 (.call 0 .next) ++ List.replicate 3 (.call 1 .next)

theorem responses_not_crossed_twice :
    ∃ c : Client Unit, Trace.run (Client.step echo) {} crossing = some c ∧
      c.calls.map (·.state) =
        [.returned (.ok (failure (str "EOF") 1)),
          .returned (.ok { requestID := 2, status := str "ok" })] ∧
      (∀ (i : Nat) call resp, c.calls[i]? = some call → call.state = .returned (.ok resp) →
        Answer c.loop.failed (deliveries echo {} crossing) call.id resp) ∧
      (deliveries echo {} crossing).Sublist (crossing.filterMap (response echo)) ∧
      LoopGoesOn echo c := by
  have hstates : (Trace.run (Client.step echo) {} crossing).map (fun c => c.calls.map (·.state)) =
      some [.returned (.ok (failure (str "EOF") 1)),
        .returned (.ok { requestID := 2, status := str "ok" })] := by decide +kernel
  obtain ⟨c, hrun, hstates⟩ := Option.map_eq_some_iff.1 hstates
  have hlen : c.calls.length = 2 := by simpa using congrArg List.length hstates
  have h := responses_not_crossed echo hrun (by omega)
  exact ⟨c, hrun, hstates, h⟩

end SuperDB.Client
