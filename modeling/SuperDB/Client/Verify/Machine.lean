import SuperDB.Client.Conn
import SuperDB.Go.Trace

/-!
# What a step of the client can do

The steps of the client one by one, and what every run keeps whatever the network does: round trips
are numbered in the order in which they enter, a channel is registered under the number of its round
trip only, and `mu` is held by the one goroutine that is in a critical section.
-/

namespace SuperDB.Client

open Go Wire

variable {Cell : Type}

/-! ## The steps -/

/-- The number that the round trip `i` takes from the counter. -/
def number (i : Nat) : UInt64 := UInt64.ofNat (i + 1)

/-- Every step, with its guard and what it leaves. -/
inductive Takes (decode : Bytes → Option (Response Cell)) (c : Client Cell) :
    Label → Client Cell → Prop where
  | refused (msgType : UInt8) (payload : Bytes) : Takes decode c (.enter msgType payload) c
  | enter (msgType : UInt8) (payload : Bytes) :
      Takes decode c (.enter msgType payload)
        { c with
          nextID := c.nextID + 1
          calls := c.calls ++ [{ msgType, payload, id := c.nextID + 1 }] }
  | cancel {i : Nat} {call : Call Cell} (hi : c.calls[i]? = some call) :
      Takes decode c (.cancel i) (c.put i { call with cancelled := true })
  | lock {i : Nat} {call : Call Cell} (hi : c.calls[i]? = some call) (hs : call.state = .locking)
      (hmu : c.mu = none) :
      Takes decode c (.call i .next)
        { c.put i { call with state := .checking } with mu := some (.call i) }
  | turnedAway {i : Nat} {call : Call Cell} (hi : c.calls[i]? = some call)
      (hs : call.state = .checking) (hc : c.closed = true) :
      Takes decode c (.call i .next)
        { c.put i { call with state := .returned (.error .clientClosed) } with mu := none }
  | check {i : Nat} {call : Call Cell} (hi : c.calls[i]? = some call) (hs : call.state = .checking)
      (hc : c.closed = false) :
      Takes decode c (.call i .next) (c.put i { call with state := .inserting })
  | insert {i : Nat} {call : Call Cell} (hi : c.calls[i]? = some call)
      (hs : call.state = .inserting) :
      Takes decode c (.call i .next)
        { c.put i { call with state := .sending } with
          mu := none
          pending := c.pending.insert call.id i }
  | lockWriter {i : Nat} {call : Call Cell} (hi : c.calls[i]? = some call)
      (hs : call.state = .sending) (hw : c.writeMu = none) :
      Takes decode c (.call i .next)
        { c.put i { call with state := .writing } with writeMu := some i }
  | write {i : Nat} {call : Call Cell} (hi : c.calls[i]? = some call) (hs : call.state = .writing)
      (ho : c.socketOpen = true) :
      Takes decode c (.call i .next)
        { c.put i { call with state := .waiting } with
          writeMu := none
          written := c.written ++ encodeFrame call.msgType call.id call.payload }
  | writeError {i : Nat} {call : Call Cell} (hi : c.calls[i]? = some call)
      (hs : call.state = .writing) (n : Nat) (err : Bytes) :
      Takes decode c (.call i (.writeError n err))
        { c.put i { call with state := .leaving (.error (.write err)) } with
          writeMu := none
          writerFailed := true
          written := c.written ++ (encodeFrame call.msgType call.id call.payload).take n }
  | receive {i : Nat} {call : Call Cell} {resp : Response Cell} (hi : c.calls[i]? = some call)
      (hs : call.state = .waiting) (hch : call.ch = some resp) :
      Takes decode c (.call i .next)
        (c.put i { call with ch := none, state := .leaving (accept call.id resp) })
  | quit {i : Nat} {call : Call Cell} (hi : c.calls[i]? = some call) (hs : call.state = .waiting) :
      Takes decode c (.call i .quit) (c.put i { call with state := .leaving (.error .ctx) })
  | leave {i : Nat} {call : Call Cell} {result : Except CallError (Response Cell)}
      (hi : c.calls[i]? = some call) (hs : call.state = .leaving result) (hmu : c.mu = none) :
      Takes decode c (.call i .next)
        { c.put i { call with state := .removing result } with mu := some (.call i) }
  | remove {i : Nat} {call : Call Cell} {result : Except CallError (Response Cell)}
      (hi : c.calls[i]? = some call) (hs : call.state = .removing result) :
      Takes decode c (.call i .next)
        { c.put i { call with state := .returned result } with
          mu := none
          pending := c.pending.erase call.id }
  | ignored (hdr : Header) (payload : Bytes) : Takes decode c (.loop (.frame hdr payload)) c
  | frame {hdr : Header} {payload : Bytes} {resp : Response Cell} (hl : c.loop = .reading)
      (ht : hdr.type = typeResponse) (hd : decode payload = some resp) :
      Takes decode c (.loop (.frame hdr payload))
        { c with loop := .decoded { resp with requestID := hdr.requestID } }
  | readError (err : Bytes) (hl : c.loop = .reading) :
      Takes decode c (.loop (.readError err)) { c with loop := .failing err }
  | lookup {resp : Response Cell} (hl : c.loop = .decoded resp) (hmu : c.mu = none) :
      Takes decode c (.loop .next) { c with mu := some .loop, loop := .looking resp }
  | found {resp : Response Cell} {i : Nat} (hl : c.loop = .looking resp)
      (hp : c.pending[resp.requestID]? = some i) :
      Takes decode c (.loop .next) { c with mu := none, loop := .delivering i resp }
  | unknown {resp : Response Cell} (hl : c.loop = .looking resp) :
      Takes decode c (.loop .next) { c with mu := none, loop := .reading }
  | deliver {i : Nat} {resp : Response Cell} (hl : c.loop = .delivering i resp) :
      Takes decode c (.loop .next) { c.offer i resp with loop := .reading }
  | fail {err : Bytes} (hl : c.loop = .failing err) (hmu : c.mu = none) :
      Takes decode c (.loop .next)
        { c with mu := some .loop, loop := .answering err c.pending.toList }
  | answer {err : Bytes} {todo : List (UInt64 × Nat)} {id : UInt64} {i : Nat}
      (hl : c.loop = .answering err todo) (hi : todo.lookup id = some i) :
      Takes decode c (.loop (.answer id))
        { c.offer i (failure err id) with loop := .answering err (todo.filter (·.1 != id)) }
  | answered {err : Bytes} (hl : c.loop = .answering err []) :
      Takes decode c (.loop .next) { c with mu := none, loop := .latching err }
  | latch {err : Bytes} (hl : c.loop = .latching err) :
      Takes decode c (.loop .next) { c with closed := true, loop := .closing err }
  | shut {err : Bytes} (hl : c.loop = .closing err) :
      Takes decode c (.loop .next) { c with socketOpen := false, loop := .ended err }
  | close :
      Takes decode c .close
        { c with
          nextID := c.nextID + 1
          calls := c.calls ++
            [{ msgType := typeClose, payload := str "\x7b\x7d", id := c.nextID + 1 }]
          closer := .trip c.calls.length }
  | closeLatch : Takes decode c .close { c with closed := true, closer := .latched }
  | closeSocket : Takes decode c .close { c with socketOpen := false, closer := .done }

variable {decode : Bytes → Option (Response Cell)} {c c' : Client Cell} {l : Label}

theorem takes_roundTrip {i : Nat} {call : Call Cell} {move : CallMove}
    (hi : c.calls[i]? = some call) (h : c.roundTrip i call move = some c') :
    Takes decode c (.call i move) c' := by
  unfold roundTrip at h
  split at h
  · next hs =>
    split at h <;> cases h
    exact .lock hi hs ‹_›
  · next hs =>
    split at h <;> cases h
    · exact .turnedAway hi hs ‹_›
    · exact .check hi hs (by simpa using ‹¬ c.closed = true›)
  · next hs => cases h; exact .insert hi hs
  · next hs =>
    split at h <;> cases h
    exact .lockWriter hi hs ‹_›
  · next hs =>
    split at h
    · next ho =>
      cases h
      simp only [Bool.and_eq_true] at ho
      exact .write hi hs ho.1
    · cases h
  · next hs => cases h; exact .writeError hi hs _ _
  · next hs =>
    obtain ⟨resp, hch, rfl⟩ := Option.map_eq_some_iff.1 h
    exact .receive hi hs hch
  · next hs =>
    split at h <;> cases h
    exact .quit hi hs
  · next hs =>
    split at h <;> cases h
    exact .leave hi hs ‹_›
  · next hs => cases h; exact .remove hi hs
  · cases h

theorem takes_readLoop {move : LoopMove} (h : c.readLoop decode move = some c') :
    Takes decode c (.loop move) c' := by
  unfold readLoop at h
  split at h
  · next hl =>
    split at h
    · cases h; exact .ignored _ _
    · next ht =>
      split at h <;> cases h
      · exact .ignored _ _
      · exact .frame hl (not_not.1 ht) ‹_›
  · next hl => cases h; exact .readError _ hl
  · next hl =>
    split at h <;> cases h
    exact .lookup hl ‹_›
  · next hl =>
    split at h <;> cases h
    · exact .found hl ‹_›
    · exact .unknown hl
  · next hl => cases h; exact .deliver hl
  · next hl =>
    split at h <;> cases h
    exact .fail hl ‹_›
  · next hl =>
    obtain ⟨i, hi, rfl⟩ := Option.map_eq_some_iff.1 h
    exact .answer hl hi
  · next hl => cases h; exact .answered hl
  · next hl => cases h; exact .latch hl
  · next hl => cases h; exact .shut hl
  · cases h

theorem takes_close (h : c.close = some c') : Takes decode c .close c' := by
  unfold close at h
  split at h
  · split at h
    · next c₁ h₁ =>
      cases h
      simp only [Client.enter] at h₁
      split at h₁ <;> cases h₁
      exact .close
    · cases h
  · split at h <;> cases h
    exact .closeLatch
  · cases h; exact .closeSocket
  · cases h

theorem takes_of_step (h : c.step decode l = some c') : Takes decode c l c' := by
  cases l with
  | enter msgType payload =>
    simp only [step, Client.enter] at h
    split at h
    · next c₁ h₁ =>
      cases h
      split at h₁ <;> cases h₁
      exact .enter _ _
    · cases h; exact .refused _ _
  | cancel i =>
    obtain ⟨call, hi, rfl⟩ := Option.map_eq_some_iff.1 h
    exact .cancel hi
  | call i move =>
    obtain ⟨call, hi, h⟩ := Option.bind_eq_some_iff.1 h
    exact takes_roundTrip hi h
  | loop move => exact takes_readLoop h
  | close => exact takes_close h

/-! ## The round trips after a step -/

theorem getElem?_put {i j : Nat} {call call' x : Call Cell} (hi : c.calls[i]? = some call)
    (hj : (c.calls.set i call')[j]? = some x) :
    i = j ∧ x = call' ∨ i ≠ j ∧ c.calls[j]? = some x := by
  have hlt : i < c.calls.length := (List.getElem?_eq_some_iff.1 hi).1
  rw [List.getElem?_set] at hj
  split at hj
  · next hij => exact .inl ⟨hij, by simpa [hlt] using hj.symm⟩
  · next hij => exact .inr ⟨hij, hj⟩

theorem getElem?_offer {i j : Nat} {resp : Response Cell} {x : Call Cell}
    (hj : (c.offer i resp).calls[j]? = some x) :
    ∃ call, c.calls[j]? = some call ∧
      (i = j ∧ x = { call with ch := call.ch <|> some resp } ∨ i ≠ j ∧ x = call) := by
  simp only [offer, List.getElem?_modify] at hj
  obtain ⟨call, hc, rfl⟩ := Option.map_eq_some_iff.1 hj
  by_cases hij : i = j
  · exact ⟨call, hc, .inl ⟨hij, by simp [hij]⟩⟩
  · exact ⟨call, hc, .inr ⟨hij, by simp [hij]⟩⟩

theorem getElem?_entered {j : Nat} {call x : Call Cell}
    (hj : (c.calls ++ [call])[j]? = some x) :
    c.calls[j]? = some x ∨ j = c.calls.length ∧ x = call := by
  rw [List.getElem?_append] at hj
  split at hj
  · exact .inl hj
  · next h =>
    obtain ⟨hlt, hx⟩ := List.getElem?_eq_some_iff.1 hj
    simp only [List.length_singleton] at hlt
    refine .inr ⟨by omega, ?_⟩
    simpa using hx.symm

/-! ## Numbers -/

/-- The counter has counted the round trips, each has its number, and whatever names a round trip
together with a number names the one that has this number. -/
structure Numbered (c : Client Cell) : Prop where
  count : c.nextID = UInt64.ofNat c.calls.length
  id : ∀ {i call}, c.calls[i]? = some call → call.id = number i
  pending : ∀ {n i}, c.pending[n]? = some i → i < c.calls.length ∧ n = number i
  delivering : ∀ {i resp}, c.loop = .delivering i resp →
    i < c.calls.length ∧ resp.requestID = number i
  answering : ∀ {err todo n i}, c.loop = .answering err todo → (n, i) ∈ todo →
    i < c.calls.length ∧ n = number i

theorem number_injective {i j : Nat} (hi : i + 1 < 2 ^ 64) (hj : j + 1 < 2 ^ 64)
    (h : number i = number j) : i = j := by
  have htoNat := congrArg UInt64.toNat h
  simp only [number, UInt64.toNat_ofNat', Nat.mod_eq_of_lt hi, Nat.mod_eq_of_lt hj] at htoNat
  omega

theorem number_eq (n : Nat) : UInt64.ofNat n + 1 = number n := by
  simp [number, UInt64.ofNat_add]

theorem ids_put {i : Nat} {call call' : Call Cell} (hi : c.calls[i]? = some call)
    (hid : call'.id = call.id) : (c.put i call').calls.map Call.id = c.calls.map Call.id := by
  obtain ⟨hlt, rfl⟩ := List.getElem?_eq_some_iff.1 hi
  rw [put, List.map_set, hid, ← List.getElem_map Call.id (h := by simpa using hlt),
    List.set_getElem_self]

theorem ids_offer (c : Client Cell) (i : Nat) (resp : Response Cell) :
    (c.offer i resp).calls.map Call.id = c.calls.map Call.id := by
  refine List.ext_getElem? fun j => ?_
  simp only [offer, List.getElem?_map, List.getElem?_modify]
  cases c.calls[j]? with
  | none => rfl
  | some call => by_cases h : i = j <;> simp [h]

namespace Numbered

theorem length_eq (hids : c'.calls.map Call.id = c.calls.map Call.id) :
    c'.calls.length = c.calls.length := by
  simpa using congrArg List.length hids

/-- A step that makes no round trip. -/
theorem same (h : Numbered c) (hcount : c'.nextID = c.nextID)
    (hids : c'.calls.map Call.id = c.calls.map Call.id)
    (hpending : ∀ {n i}, c'.pending[n]? = some i → i < c.calls.length ∧ n = number i)
    (hdelivering : ∀ {i resp}, c'.loop = .delivering i resp →
      i < c.calls.length ∧ resp.requestID = number i)
    (hanswering : ∀ {err todo n i}, c'.loop = .answering err todo → (n, i) ∈ todo →
      i < c.calls.length ∧ n = number i) : Numbered c' where
  count := by rw [hcount, length_eq hids, h.count]
  id := by
    intro i call hi
    have hget := congrArg (·[i]?) hids
    simp only [List.getElem?_map, hi, Option.map_some] at hget
    obtain ⟨call₀, hi₀, hid⟩ := Option.map_eq_some_iff.1 hget.symm
    rw [← hid, h.id hi₀]
  pending hp := by rw [length_eq hids]; exact hpending hp
  delivering hl := by rw [length_eq hids]; exact hdelivering hl
  answering hl hm := by rw [length_eq hids]; exact hanswering hl hm

/-- A step of a round trip that leaves the receive loop where it is. -/
theorem putCall {i : Nat} {call call' : Call Cell} (h : Numbered c) (hi : c.calls[i]? = some call)
    (hcalls : c'.calls = (c.put i call').calls) (hid : call'.id = call.id)
    (hcount : c'.nextID = c.nextID) (hloop : c'.loop = c.loop)
    (hpending : ∀ {n i}, c'.pending[n]? = some i → i < c.calls.length ∧ n = number i) :
    Numbered c' :=
  h.same hcount (by rw [hcalls, ids_put hi hid]) hpending
    (fun hl => h.delivering (hloop ▸ hl)) (fun hl hm => h.answering (hloop ▸ hl) hm)

/-- A step of the receive loop that does not touch the round trips. -/
theorem setLoop {loop : LoopState Cell} {mu : Option Owner} {closed socketOpen : Bool}
    (h : Numbered c)
    (hdelivering : ∀ {i resp}, loop = .delivering i resp →
      i < c.calls.length ∧ resp.requestID = number i)
    (hanswering : ∀ {err todo n i}, loop = .answering err todo → (n, i) ∈ todo →
      i < c.calls.length ∧ n = number i) :
    Numbered { c with loop := loop, mu := mu, closed := closed, socketOpen := socketOpen } :=
  h.same rfl rfl h.pending hdelivering hanswering

theorem newCall {call : Call Cell} (h : Numbered c) (hid : call.id = c.nextID + 1)
    (closer : Closer) :
    Numbered { c with nextID := c.nextID + 1, calls := c.calls ++ [call], closer := closer } where
  count := by
    simp only [h.count, List.length_append, List.length_singleton]
    exact number_eq _
  id := by
    intro i x hx
    rcases getElem?_entered hx with hx | ⟨rfl, rfl⟩
    · exact h.id hx
    · rw [hid, h.count, number_eq]
  pending hp := by
    obtain ⟨hlt, hn⟩ := h.pending hp
    exact ⟨by simp only [List.length_append]; omega, hn⟩
  delivering hl := by
    obtain ⟨hlt, hn⟩ := h.delivering hl
    exact ⟨by simp only [List.length_append]; omega, hn⟩
  answering hl hm := by
    obtain ⟨hlt, hn⟩ := h.answering hl hm
    exact ⟨by simp only [List.length_append]; omega, hn⟩

theorem initial : Numbered ({} : Client Cell) where
  count := rfl
  id hi := by simp at hi
  pending hp := by simp at hp
  delivering hl := by simp at hl
  answering hl _ := by simp at hl

theorem step (h : Numbered c) (hstep : c.step decode l = some c') : Numbered c' := by
  cases takes_of_step hstep with
  | refused => exact h
  | enter => exact h.newCall rfl c.closer
  | cancel hi => exact h.putCall hi rfl rfl rfl rfl h.pending
  | lock hi => exact h.putCall hi rfl rfl rfl rfl h.pending
  | turnedAway hi => exact h.putCall hi rfl rfl rfl rfl h.pending
  | check hi => exact h.putCall hi rfl rfl rfl rfl h.pending
  | insert hi =>
    refine h.putCall hi rfl rfl rfl rfl fun {n j} hp => ?_
    rw [Std.ExtTreeMap.getElem?_insert] at hp
    split at hp
    · next hn =>
      cases hp
      rw [← Std.LawfulEqCmp.compare_eq_iff_eq.1 hn, h.id hi]
      exact ⟨(List.getElem?_eq_some_iff.1 hi).1, rfl⟩
    · exact h.pending hp
  | lockWriter hi => exact h.putCall hi rfl rfl rfl rfl h.pending
  | write hi => exact h.putCall hi rfl rfl rfl rfl h.pending
  | writeError hi => exact h.putCall hi rfl rfl rfl rfl h.pending
  | receive hi => exact h.putCall hi rfl rfl rfl rfl h.pending
  | quit hi => exact h.putCall hi rfl rfl rfl rfl h.pending
  | leave hi => exact h.putCall hi rfl rfl rfl rfl h.pending
  | remove hi =>
    refine h.putCall hi rfl rfl rfl rfl fun {n j} hp => ?_
    rw [Std.ExtTreeMap.getElem?_erase] at hp
    split at hp
    · cases hp
    · exact h.pending hp
  | ignored => exact h
  | frame => exact h.setLoop (fun hl => by cases hl) (fun hl => by cases hl)
  | readError => exact h.setLoop (fun hl => by cases hl) (fun hl => by cases hl)
  | lookup => exact h.setLoop (fun hl => by cases hl) (fun hl => by cases hl)
  | found hl hp =>
    refine h.setLoop (fun hl' => ?_) (fun hl' => by cases hl')
    cases hl'
    exact h.pending hp
  | unknown => exact h.setLoop (fun hl => by cases hl) (fun hl => by cases hl)
  | deliver =>
    exact h.same rfl (ids_offer _ _ _) h.pending (fun hl => by cases hl) (fun hl => by cases hl)
  | fail =>
    refine h.setLoop (fun hl => by cases hl) (fun hl hm => ?_)
    cases hl
    exact h.pending (Std.ExtTreeMap.mem_toList_iff_getElem?_eq_some.1 hm)
  | answer hl =>
    refine h.same rfl (ids_offer _ _ _) h.pending (fun hl' => by cases hl') (fun hl' hm => ?_)
    cases hl'
    exact h.answering hl (List.mem_filter.1 hm).1
  | answered => exact h.setLoop (fun hl => by cases hl) (fun hl => by cases hl)
  | latch => exact h.setLoop (fun hl => by cases hl) (fun hl => by cases hl)
  | shut => exact h.setLoop (fun hl => by cases hl) (fun hl => by cases hl)
  | close => exact h.newCall rfl _
  | closeLatch => exact h.same rfl rfl h.pending h.delivering h.answering
  | closeSocket => exact h.same rfl rfl h.pending h.delivering h.answering

end Numbered

/-! ## The mutex -/

def CallState.locked : CallState Cell → Bool
  | .checking | .inserting | .removing _ => true
  | _ => false

def LoopState.locked : LoopState Cell → Bool
  | .looking _ | .answering _ _ => true
  | _ => false

/-- `mu` is held by whoever is in a critical section. -/
structure Owned (c : Client Cell) : Prop where
  call : ∀ i, c.mu = some (.call i) ↔ ∃ call, c.calls[i]? = some call ∧ call.state.locked = true
  loop : c.mu = some .loop ↔ c.loop.locked = true

namespace Owned

/-- A step of a round trip that takes or releases nothing. -/
theorem putCall {i : Nat} {call call' : Call Cell} (h : Owned c) (hi : c.calls[i]? = some call)
    (hcalls : c'.calls = (c.put i call').calls) (hs : call'.state.locked = call.state.locked)
    (hmu : c'.mu = c.mu) (hloop : c'.loop = c.loop) : Owned c' where
  call j := by
    rw [hmu, h.call j, hcalls]
    simp only [put, List.getElem?_set]
    by_cases hij : i = j
    · subst hij
      obtain ⟨hlt, rfl⟩ := List.getElem?_eq_some_iff.1 hi
      simp [hlt, hs]
    · simp [hij]
  loop := by rw [hmu, hloop, h.loop]

theorem lock {i : Nat} {call call' : Call Cell} (h : Owned c) (hi : c.calls[i]? = some call)
    (hfree : c.mu = none) (hcalls : c'.calls = (c.put i call').calls)
    (hs : call'.state.locked = true) (hmu : c'.mu = some (.call i))
    (hloop : c'.loop = c.loop) : Owned c' where
  call j := by
    rw [hmu, hcalls]
    simp only [put, List.getElem?_set]
    by_cases hij : i = j
    · subst hij
      simp [(List.getElem?_eq_some_iff.1 hi).1, hs]
    · have hj := h.call j
      simp only [hfree, reduceCtorEq, false_iff] at hj
      simpa [hij] using hj
  loop := by
    have hl := h.loop
    rw [hmu, hloop]
    simpa [hfree] using hl

theorem unlock {i : Nat} {call call' : Call Cell} (h : Owned c) (hi : c.calls[i]? = some call)
    (hheld : call.state.locked = true) (hcalls : c'.calls = (c.put i call').calls)
    (hs : call'.state.locked = false) (hmu : c'.mu = none)
    (hloop : c'.loop = c.loop) : Owned c' where
  call j := by
    have hown := (h.call i).2 ⟨call, hi, hheld⟩
    rw [hmu, hcalls]
    simp only [put, List.getElem?_set]
    by_cases hij : i = j
    · subst hij
      simp [(List.getElem?_eq_some_iff.1 hi).1, hs]
    · have hj := h.call j
      simp only [hown, Option.some.injEq, Owner.call.injEq, hij, false_iff] at hj
      simpa [hij] using hj
  loop := by
    have hown := (h.call i).2 ⟨call, hi, hheld⟩
    have hl := h.loop
    rw [hmu, hloop]
    simpa [hown] using hl

theorem setLoop (h : Owned c)
    (hcalls : c'.calls.map (·.state) = c.calls.map (·.state))
    (hmu : ∀ i, c'.mu = some (.call i) ↔ c.mu = some (.call i))
    (hloop : c'.mu = some .loop ↔ c'.loop.locked = true) : Owned c' where
  call j := by
    rw [hmu, h.call j]
    have hget := congrArg (·[j]?) hcalls
    simp only [List.getElem?_map] at hget
    cases h₁ : c.calls[j]? <;> cases h₂ : c'.calls[j]? <;> simp_all
  loop := hloop

theorem newCall {call : Call Cell} (h : Owned c) (hs : call.state = .locking)
    (hcalls : c'.calls = c.calls ++ [call]) (hmu : c'.mu = c.mu) (hloop : c'.loop = c.loop) :
    Owned c' where
  call j := by
    rw [hmu, h.call j, hcalls]
    constructor
    · rintro ⟨x, hx, hl⟩
      have hlt : j < c.calls.length := (List.getElem?_eq_some_iff.1 hx).1
      exact ⟨x, by rw [List.getElem?_append_left hlt, hx], hl⟩
    · rintro ⟨x, hx, hl⟩
      rcases getElem?_entered hx with hx | ⟨-, rfl⟩
      · exact ⟨x, hx, hl⟩
      · simp [hs, CallState.locked] at hl
  loop := by rw [hmu, hloop, h.loop]

theorem states_offer (c : Client Cell) (i : Nat) (resp : Response Cell) :
    (c.offer i resp).calls.map (·.state) = c.calls.map (·.state) := by
  refine List.ext_getElem? fun j => ?_
  simp only [offer, List.getElem?_map, List.getElem?_modify]
  cases c.calls[j]? with
  | none => rfl
  | some call => by_cases h : i = j <;> simp [h]

theorem initial : Owned ({} : Client Cell) where
  call i := by simp
  loop := by simp [LoopState.locked]

theorem freeMove (h : Owned c) (hl : c.loop.locked = false)
    (hcalls : c'.calls.map (·.state) = c.calls.map (·.state)) (hmu : c'.mu = c.mu)
    (hl' : c'.loop.locked = false) : Owned c' := by
  refine h.setLoop hcalls (fun i => by rw [hmu]) ?_
  rw [hmu, h.loop, hl, hl']

theorem loopLock (h : Owned c) (hfree : c.mu = none)
    (hcalls : c'.calls.map (·.state) = c.calls.map (·.state)) (hmu : c'.mu = some .loop)
    (hl' : c'.loop.locked = true) : Owned c' :=
  h.setLoop hcalls (fun i => by simp [hmu, hfree]) (by simp [hmu, hl'])

theorem loopUnlock (h : Owned c) (hl : c.loop.locked = true)
    (hcalls : c'.calls.map (·.state) = c.calls.map (·.state)) (hmu : c'.mu = none)
    (hl' : c'.loop.locked = false) : Owned c' :=
  h.setLoop hcalls (fun i => by simp [hmu, h.loop.2 hl]) (by simp [hmu, hl'])

theorem step (h : Owned c) (hstep : c.step decode l = some c') : Owned c' := by
  cases takes_of_step hstep with
  | refused => exact h
  | enter => exact h.newCall rfl rfl rfl rfl
  | cancel hi => exact h.putCall hi rfl rfl rfl rfl
  | lock hi _ hmu => exact h.lock hi hmu rfl rfl rfl rfl
  | turnedAway hi hs => exact h.unlock hi (by simp [hs, CallState.locked]) rfl rfl rfl rfl
  | check hi hs => exact h.putCall hi rfl (by simp [hs, CallState.locked]) rfl rfl
  | insert hi hs => exact h.unlock hi (by simp [hs, CallState.locked]) rfl rfl rfl rfl
  | lockWriter hi hs => exact h.putCall hi rfl (by simp [hs, CallState.locked]) rfl rfl
  | write hi hs => exact h.putCall hi rfl (by simp [hs, CallState.locked]) rfl rfl
  | writeError hi hs => exact h.putCall hi rfl (by simp [hs, CallState.locked]) rfl rfl
  | receive hi hs => exact h.putCall hi rfl (by simp [hs, CallState.locked]) rfl rfl
  | quit hi hs => exact h.putCall hi rfl (by simp [hs, CallState.locked]) rfl rfl
  | leave hi _ hmu => exact h.lock hi hmu rfl rfl rfl rfl
  | remove hi hs => exact h.unlock hi (by simp [hs, CallState.locked]) rfl rfl rfl rfl
  | ignored => exact h
  | frame hl => exact h.freeMove (by rw [hl]; rfl) rfl rfl rfl
  | readError _ hl => exact h.freeMove (by rw [hl]; rfl) rfl rfl rfl
  | lookup _ hmu => exact h.loopLock hmu rfl rfl rfl
  | found hl => exact h.loopUnlock (by rw [hl]; rfl) rfl rfl rfl
  | unknown hl => exact h.loopUnlock (by rw [hl]; rfl) rfl rfl rfl
  | deliver hl => exact h.freeMove (by rw [hl]; rfl) (states_offer _ _ _) rfl rfl
  | fail _ hmu => exact h.loopLock hmu rfl rfl rfl
  | answer hl =>
    refine h.setLoop (states_offer _ _ _) (fun i => Iff.rfl) (iff_of_true (h.loop.2 ?_) rfl)
    rw [hl]
    rfl
  | answered hl => exact h.loopUnlock (by rw [hl]; rfl) rfl rfl rfl
  | latch hl => exact h.freeMove (by rw [hl]; rfl) rfl rfl rfl
  | shut hl => exact h.freeMove (by rw [hl]; rfl) rfl rfl rfl
  | close => exact h.newCall rfl rfl rfl rfl
  | closeLatch => exact h.setLoop rfl (fun _ => Iff.rfl) h.loop
  | closeSocket => exact h.setLoop rfl (fun _ => Iff.rfl) h.loop

end Owned

end SuperDB.Client
