import SuperDB.Wire.Frames

/-!
# Reading back what was written

The two writers write the same bytes, and the reader takes a frame apart again wherever it stands in
the input and whatever follows it. A sequence of frames is read to its end. Conversely the reader
checks or returns every byte of a frame, so what it accepts is a frame that can be written.
-/

namespace SuperDB.Wire

open Go

variable {msgType : UInt8} {requestID : UInt64} {payload rest s : Bytes}

theorem magic_eq : magic = [83, 68, 66, 49] := by decide +kernel

theorem encodeFrame_eq : encodeFrame msgType requestID payload =
    rawHeader msgType requestID payload.length ++ payload := by
  simp [encodeFrame, rawHeader]

theorem length_rawHeader (n : Nat) : (rawHeader msgType requestID n).length = headerLen := by
  simp [rawHeader, magic_eq, headerLen]

theorem readFull_append (s rest : Bytes) : readFull s.length (s ++ rest) = .ok (s, rest) := by
  simp [readFull]

theorem readFull_eq_ok {n : Nat} {a b : Bytes} (h : readFull n s = .ok (a, b)) :
    s = a ++ b ∧ a.length = n := by
  unfold readFull at h
  split at h
  · next hle =>
    obtain ⟨rfl, rfl⟩ := Prod.mk.inj (Except.ok.inj h)
    exact ⟨(List.take_append_drop n s).symm, List.length_take_of_le hle⟩
  · split at h <;> cases h

/-! ## One frame -/

def headerOf (msgType : UInt8) (requestID : UInt64) (length : Nat) : Header :=
  { version, type := msgType, flags := 0, requestID, length }

theorem readHeader_rawHeader {n : Nat} (h : n ≤ maxFrameSize) :
    readHeader (rawHeader msgType requestID n ++ rest) =
      .ok (headerOf msgType requestID n, rest) := by
  have hlen : uint32 (putUint32 n) = n := by
    have hback := uint32_putUint32 (n := n) (by unfold maxFrameSize at h; omega) []
    rwa [List.append_nil] at hback
  have hfull := readFull_append (rawHeader msgType requestID n) rest
  rw [length_rawHeader] at hfull
  have hmagic : (rawHeader msgType requestID n).take 4 = magic := by rw [rawHeader, magic_eq]; rfl
  have hversion : uint16 ((rawHeader msgType requestID n).drop 4) = version := by
    rw [rawHeader, magic_eq]
    rfl
  have htype : (rawHeader msgType requestID n).getD 6 0 =
      msgType := by rw [rawHeader, magic_eq]; rfl
  have hflags : (rawHeader msgType requestID n).getD 7 0 = 0 := by rw [rawHeader, magic_eq]; rfl
  have hid : ((rawHeader msgType requestID n).drop 8).take 8 = putUint64 requestID.toNat := by
    rw [rawHeader, magic_eq]
    rfl
  have hlength : (rawHeader msgType requestID n).drop 16 = putUint32 n := by
    rw [rawHeader, magic_eq]
    rfl
  simp only [readHeader, hfull, hmagic, hversion, htype, hflags, hid, hlength, hlen,
    uint64_putUint64 requestID.toNat_lt, UInt64.ofNat_toNat, Nat.not_lt.2 h, ne_eq,
    not_true_eq_false, ite_false, headerOf]

theorem readFrame_encodeFrame (h : payload.length ≤ maxFrameSize) :
    readFrame (encodeFrame msgType requestID payload ++ rest) =
      .ok (headerOf msgType requestID payload.length, payload, rest) := by
  rw [encodeFrame_eq, List.append_assoc, readFrame, readHeader_rawHeader h]
  simp only [headerOf, readFull_append]

theorem pair_eq_take {b : Bytes} {n : Nat} (h : n + 1 < b.length) :
    [b.getD n 0, b.getD (n + 1) 0] = (b.drop n).take 2 := by
  have hdrop : b.drop n = b[n] :: b[n + 1] :: b.drop (n + 2) := by
    rw [List.drop_eq_getElem_cons (Nat.lt_of_succ_lt h), List.drop_eq_getElem_cons h]
  rw [hdrop, List.getD_eq_getElem _ _ (Nat.lt_of_succ_lt h), List.getD_eq_getElem _ _ h]
  rfl

theorem rawHeader_of_checked {b : Bytes} (hlen : b.length = headerLen) (hmagic : b.take 4 = magic)
    (hversion : uint16 (b.drop 4) = version) (hflags : b.getD 7 0 = 0) :
    rawHeader (b.getD 6 0) (UInt64.ofNat (uint64 ((b.drop 8).take 8))) (uint32 (b.drop 16)) =
      b := by
  have hid : putUint64 (UInt64.ofNat (uint64 ((b.drop 8).take 8))).toNat = (b.drop 8).take 8 := by
    rw [UInt64.toNat_ofNat', Nat.mod_eq_of_lt (uint64_lt _), putUint64_uint64]
    simp [hlen, headerLen]
  have hlength : putUint32 (uint32 (b.drop 16)) = b.drop 16 :=
    putUint32_uint32 (by simp [hlen, headerLen])
  have hword : putUint16 version = (b.drop 4).take 2 := by
    rw [← hversion, ← uint16_take, putUint16_uint16]
    simp [hlen, headerLen]
  have hpair : [b.getD 6 0, 0] = (b.drop 6).take 2 := by
    have htwo := pair_eq_take (b := b) (n := 6) (by rw [hlen]; decide)
    rwa [hflags] at htwo
  have hjoin : ∀ n k, (b.drop n).take k ++ b.drop (n + k) = b.drop n := fun n k => by
    rw [← List.drop_drop, List.take_append_drop]
  rw [rawHeader, ← hmagic, hword, hpair, hid, hlength]
  simp only [List.append_assoc]
  rw [hjoin 8 8, hjoin 6 2, hjoin 4 2, List.take_append_drop]

theorem rawHeader_of_readHeader {h : Header} (hs : readHeader s = .ok (h, rest)) :
    s = rawHeader h.type h.requestID h.length ++ rest ∧ h.length ≤ maxFrameSize := by
  unfold readHeader at hs
  cases hfull : readFull headerLen s with
  | error e =>
    rw [hfull] at hs
    cases hs
  | ok p =>
    obtain ⟨b, rest'⟩ := p
    obtain ⟨rfl, hlen⟩ := readFull_eq_ok hfull
    simp only [hfull, ne_eq, ite_not] at hs
    split_ifs at hs with hmagic hversion hflags hlength
    obtain ⟨rfl, rfl⟩ := Prod.mk.inj (Except.ok.inj hs)
    refine ⟨?_, Nat.not_lt.1 hlength⟩
    exact congrArg (· ++ _) (rawHeader_of_checked hlen hmagic hversion hflags).symm

theorem encodeFrame_of_readFrame {h : Header} (hs : readFrame s = .ok (h, payload, rest)) :
    s = encodeFrame h.type h.requestID payload ++ rest ∧ payload.length ≤ maxFrameSize := by
  unfold readFrame at hs
  cases hheader : readHeader s with
  | error e =>
    rw [hheader] at hs
    cases hs
  | ok p =>
    obtain ⟨h', rest'⟩ := p
    obtain ⟨rfl, hle⟩ := rawHeader_of_readHeader hheader
    simp only [hheader] at hs
    cases hfull : readFull h'.length rest' with
    | error e =>
      rw [hfull] at hs
      cases hs
    | ok q =>
      obtain ⟨payload', rest''⟩ := q
      rw [hfull] at hs
      simp only [Except.ok.injEq, Prod.mk.injEq] at hs
      obtain ⟨rfl, rfl, rfl⟩ := hs
      obtain ⟨rfl, hlen⟩ := readFull_eq_ok hfull
      rw [encodeFrame_eq, hlen, List.append_assoc]
      exact ⟨rfl, hle⟩

/-! ## Sequences of frames -/

/-- A message, and which of the writers writes it. -/
structure Message where
  type : UInt8
  requestID : UInt64
  payload : Bytes
  raw : Bool

def Message.write (m : Message) : Except Bytes Bytes :=
  if m.raw then writeFrameRaw m.type m.requestID m.payload
  else writeFrame m.type m.requestID m.payload

def writeAll : List Message → Except Bytes Bytes
  | [] => .ok []
  | m :: l => do return (← m.write) ++ (← writeAll l)

theorem Message.write_eq (m : Message) (h : m.payload.length ≤ maxFrameSize) :
    m.write = .ok (encodeFrame m.type m.requestID m.payload) := by
  have hsize : ¬maxFrameSize < m.payload.length := Nat.not_lt.2 h
  unfold Message.write writeFrameRaw writeFrame
  rw [encodeFrame_eq, if_neg hsize, ite_self]

theorem writeAll_eq {l : List Message} (h : ∀ m ∈ l, m.payload.length ≤ maxFrameSize) :
    writeAll l = .ok (l.flatMap fun m => encodeFrame m.type m.requestID m.payload) := by
  induction l with
  | nil => rfl
  | cons m l ih =>
    obtain ⟨hm, hl⟩ := List.forall_mem_cons.1 h
    rw [writeAll, m.write_eq hm, ih hl]
    rfl

theorem length_le_encoded (l : List Message) :
    l.length ≤ (l.flatMap fun m => encodeFrame m.type m.requestID m.payload).length := by
  induction l with
  | nil => exact Nat.le_refl 0
  | cons m l ih =>
    rw [List.flatMap_cons, List.length_append, encodeFrame_eq, List.length_append, length_rawHeader,
      List.length_cons, headerLen]
    omega

theorem readFrames_encoded {l : List Message} (h : ∀ m ∈ l, m.payload.length ≤ maxFrameSize)
    {fuel : Nat} (hfuel : l.length < fuel) :
    readFrames fuel (l.flatMap fun m => encodeFrame m.type m.requestID m.payload) =
      (l.map fun m => (headerOf m.type m.requestID m.payload.length, m.payload), .eof) := by
  induction l generalizing fuel with
  | nil =>
    obtain ⟨fuel, rfl⟩ := Nat.exists_eq_add_of_lt hfuel
    rfl
  | cons m l ih =>
    obtain ⟨hm, hl⟩ := List.forall_mem_cons.1 h
    obtain ⟨fuel, rfl⟩ := Nat.exists_eq_add_of_lt hfuel
    have hrest :=
      ih hl (Nat.lt_of_lt_of_le (Nat.lt_succ_self _) (Nat.le_add_right (m :: l).length fuel))
    rw [readFrames, List.flatMap_cons, readFrame_encodeFrame hm]
    simp only [hrest, List.map_cons]

/-- **Frames are read back.** Messages of any type, with any number and a payload of at most 16 MiB,
written one after the other by either of the writers, are read back with their types, numbers and
payloads, and then the input ends; and the bytes that the reader takes for one frame are the
encoding of what it returns. -/
theorem frames_roundTrip :
    (∀ l : List Message, (∀ m ∈ l, m.payload.length ≤ maxFrameSize) →
      ∃ s, writeAll l = .ok s ∧
        ∀ fuel, s.length < fuel → readFrames fuel s =
          (l.map fun m => (headerOf m.type m.requestID m.payload.length, m.payload), .eof)) ∧
    ∀ (s payload rest : Bytes) (h : Header), readFrame s = .ok (h, payload, rest) →
      s = encodeFrame h.type h.requestID payload ++ rest := by
  refine ⟨fun l hl => ⟨_, writeAll_eq hl, fun fuel hfuel => ?_⟩, fun s payload rest h hs => ?_⟩
  · exact readFrames_encoded hl (Nat.lt_of_le_of_lt (length_le_encoded l) hfuel)
  · exact (encodeFrame_of_readFrame hs).1

/-- A ping and a query, one from each writer. -/
def twoMessages : List Message := [⟨3, 1, [], true⟩, ⟨4, 2, str "x", false⟩]

theorem frames_roundTrip_two :
    (∃ s, writeAll twoMessages = .ok s ∧
      readFrames 42 s = ([(headerOf 3 1 0, []), (headerOf 4 2 1, str "x")], .eof)) ∧
    readFrame (encodeFrame 4 2 (str "x")) = .ok (headerOf 4 2 1, str "x", []) ∧
      encodeFrame 4 2 (str "x") = encodeFrame (headerOf 4 2 1).type (headerOf 4 2 1).requestID
        (str "x") ++ [] := by
  obtain ⟨hforth, hback⟩ := frames_roundTrip
  refine ⟨?_, ?_⟩
  · obtain ⟨s, hs, hread⟩ := hforth twoMessages (by decide +kernel)
    have hlen : s.length = 41 := by
      have hwritten : (writeAll twoMessages).toOption.map List.length = some 41 := by decide +kernel
      rw [hs] at hwritten
      exact Option.some.inj hwritten
    exact ⟨s, hs, (hread 42 (by omega)).trans (by decide +kernel)⟩
  · have hread : readFrame (encodeFrame 4 2 (str "x")) = .ok (headerOf 4 2 1, str "x", []) := by
      decide +kernel
    exact ⟨hread, hback _ _ _ _ hread⟩

end SuperDB.Wire
