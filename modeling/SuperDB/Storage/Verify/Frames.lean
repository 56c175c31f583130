import SuperDB.Storage.Files

/-!
# Frames and the WAL

What is written into a frame is read back from it, wherever the frame stands in a file and whatever
follows it. A WAL is a sequence of such frames, of any version, and replaying it gives the payloads
in order. Conversely a frame without compression that is accepted is one that was written, up to
the two reserved bytes.
-/

namespace SuperDB.Storage

open Go

variable {v : UInt8} {offset : Nat} {l : List (Bytes × Bytes)}

theorem magic_eq : magic = [83, 85, 80, 69, 82, 68, 66, 49] := str_ofList _

@[simp] theorem length_magic : magic.length = 8 := congrArg List.length magic_eq

theorem take_add_append {a : Bytes} {k : Nat} (h : a.length = k) (t : Bytes) (n : Nat) :
    (a ++ t).take (k + n) = a ++ t.take n := by
  subst h
  exact List.take_length_add_append ..

/-! ## Headers -/

section Header

variable {z : Zlib} {b rest raw sto : Bytes} {offset : Nat} {kind : UInt8}

theorem decodeFrame_header (hraw : raw.length = 4) (hsto : sto.length = 4) {k r₀ r₁ : UInt8}
    (h : b.drop offset = magic ++ ([k, v, r₀, r₁] ++ (raw ++ (sto ++ rest)))) :
    decodeFrame z b offset kind =
      if k ≠ kind then .error (.unexpectedKind k)
      else if validFrameVersion kind v = false then .error (.unsupportedVersion v)
      else
        (decodePayload z kind v (uint32 raw) (uint32 sto) rest).map
          fun p => (p.1, offset + (headerSize + p.2)) := by
  match raw, hraw, sto, hsto with
  | [a₀, a₁, a₂, a₃], _, [c₀, c₁, c₂, c₃], _ =>
    have hlen : ¬(b.drop offset).length < headerSize := by
      rw [h]
      simp [headerSize]
      omega
    have hmagic : (b.drop offset).take 8 = magic := by
      rw [h]
      exact List.take_left' length_magic
    unfold decodeFrame
    simp only [hlen, hmagic, ite_false, ne_eq, not_true_eq_false]
    rw [h, magic_eq]
    rfl

theorem decodeFrame_magic (hlen : headerSize ≤ (b.drop offset).length)
    (h : (b.drop offset).take 8 ≠ magic) : decodeFrame z b offset kind = .error .invalidMagic := by
  unfold decodeFrame
  simp only [Nat.not_lt.2 hlen, h, ite_false, ne_eq, not_false_eq_true, ite_true]

theorem decodeFrame_short (hlen : (b.drop offset).length < headerSize) :
    decodeFrame z b offset kind = .error .truncatedHeader := by
  unfold decodeFrame
  simp only [hlen, ite_true]

theorem header_of_decodeFrame {payload : Bytes} {next : Nat}
    (h : decodeFrame z b offset kind = .ok (payload, next)) :
    ∃ v r₀ r₁ raw sto rest, raw.length = 4 ∧ sto.length = 4 ∧
      b.drop offset = magic ++ ([kind, v, r₀, r₁] ++ (raw ++ (sto ++ rest))) := by
  by_cases hlen : (b.drop offset).length < headerSize
  · rw [decodeFrame_short hlen] at h
    cases h
  by_cases hmagic : (b.drop offset).take 8 = magic
  swap
  · rw [decodeFrame_magic (Nat.not_lt.1 hlen) hmagic] at h
    cases h
  obtain ⟨tail, htail⟩ : ∃ tail, b.drop offset = magic ++ tail :=
    ⟨(b.drop offset).drop 8, by rw [← hmagic, List.take_append_drop]⟩
  have hlong : 12 ≤ tail.length := by
    rw [htail, List.length_append, length_magic, headerSize] at hlen
    omega
  match tail, hlong with
  | k :: v :: r₀ :: r₁ :: a₀ :: a₁ :: a₂ :: a₃ :: c₀ :: c₁ :: c₂ :: c₃ :: rest, _ =>
    have hform : b.drop offset =
        magic ++ ([k, v, r₀, r₁] ++ ([a₀, a₁, a₂, a₃] ++ ([c₀, c₁, c₂, c₃] ++ rest))) := htail
    rw [decodeFrame_header rfl rfl hform] at h
    by_cases hkind : k = kind
    · subst hkind
      exact ⟨v, r₀, r₁, _, _, rest, rfl, rfl, hform⟩
    · rw [if_pos hkind] at h
      cases h

theorem decodePayload_eq_ok {rawLen storedLen n : Nat} {payload : Bytes} :
    decodePayload z kind v rawLen storedLen rest = .ok (payload, n) ↔
      (rawLen ≤ maxPayloadSize ∧ storedLen ≤ maxPayloadSize) ∧
      extra v + storedLen ≤ rest.length ∧ n = extra v + storedLen ∧
      (v = checksumVersion → uint32 rest = (crc32 ((rest.drop (extra v)).take storedLen)).toNat) ∧
      if kind = walKind ∧ walVersion ≤ v then
        (rest.drop (extra v)).take storedLen = payload ∧ storedLen = rawLen
      else inflate z ((rest.drop (extra v)).take storedLen) rawLen = .ok payload := by
  unfold decodePayload
  simp only
  by_cases hshort : rest.length < extra v
  · rw [if_pos hshort]
    exact ⟨fun h => (by cases h), fun h => absurd h.2.1 (by omega)⟩
  rw [if_neg hshort]
  by_cases hsize : maxPayloadSize < rawLen ∨ maxPayloadSize < storedLen
  · rw [if_pos hsize]
    exact ⟨fun h => (by cases h), fun h => absurd h.1 (by omega)⟩
  rw [if_neg hsize]
  by_cases htrunc : rest.length < extra v + storedLen
  · rw [if_pos htrunc]
    exact ⟨fun h => (by cases h), fun h => absurd h.2.1 (by omega)⟩
  rw [if_neg htrunc]
  by_cases hcrc : v = checksumVersion ∧
      uint32 rest ≠ (crc32 ((rest.drop (extra v)).take storedLen)).toNat
  · rw [if_pos hcrc]
    exact ⟨fun h => (by cases h), fun h => absurd (h.2.2.2.1 hcrc.1) hcrc.2⟩
  rw [if_neg hcrc]
  have hcheck : v = checksumVersion →
      uint32 rest = (crc32 ((rest.drop (extra v)).take storedLen)).toNat := fun hv =>
    not_not.1 fun hne => hcrc ⟨hv, hne⟩
  have hstored : ((rest.drop (extra v)).take storedLen).length = storedLen := by
    rw [List.length_take, List.length_drop]
    omega
  have hbounds : rawLen ≤ maxPayloadSize ∧ storedLen ≤ maxPayloadSize := by omega
  by_cases hraw : kind = walKind ∧ walVersion ≤ v
  · rw [if_pos hraw, if_pos hraw, hstored]
    by_cases hlen : storedLen = rawLen
    · rw [if_neg (not_not.2 hlen), Except.ok.injEq, Prod.mk.injEq]
      exact ⟨fun h => ⟨hbounds, by omega, h.2.symm, hcheck, h.1, hlen⟩,
        fun h => ⟨h.2.2.2.2.1, h.2.2.1.symm⟩⟩
    · rw [if_pos hlen]
      exact ⟨fun h => (by cases h), fun h => absurd h.2.2.2.2.2 hlen⟩
  · rw [if_neg hraw, if_neg hraw]
    cases hinflate : inflate z ((rest.drop (extra v)).take storedLen) rawLen with
    | error e => exact ⟨fun h => (by cases h), fun h => (by cases h.2.2.2.2)⟩
    | ok p =>
      simp only [Except.map, Except.ok.injEq, Prod.mk.injEq]
      exact ⟨fun h => ⟨hbounds, by omega, h.2.symm, hcheck, h.1⟩,
        fun h => ⟨h.2.2.2.2, h.2.2.1.symm⟩⟩

theorem decodeFrame_eq_ok (hraw : raw.length = 4) (hsto : sto.length = 4) {k r₀ r₁ : UInt8}
    {payload : Bytes} {next : Nat}
    (h : b.drop offset = magic ++ ([k, v, r₀, r₁] ++ (raw ++ (sto ++ rest)))) :
    decodeFrame z b offset kind = .ok (payload, next) ↔
      k = kind ∧ validFrameVersion kind v = true ∧ offset + headerSize ≤ next ∧
        decodePayload z kind v (uint32 raw) (uint32 sto) rest =
          .ok (payload, next - (offset + headerSize)) := by
  rw [decodeFrame_header hraw hsto h]
  by_cases hkind : k = kind
  swap
  · rw [if_pos hkind]
    exact ⟨fun h => (by cases h), fun h => absurd h.1 hkind⟩
  rw [if_neg (not_not.2 hkind)]
  cases hv : validFrameVersion kind v with
  | false => exact ⟨fun h => (by cases h), fun h => (by cases h.2.1)⟩
  | true =>
    rw [if_neg (by decide)]
    cases decodePayload z kind v (uint32 raw) (uint32 sto) rest with
    | error e => exact ⟨fun h => (by cases h), fun h => (by cases h.2.2.2)⟩
    | ok p =>
      simp only [Except.map, Except.ok.injEq, Prod.ext_iff]
      constructor
      · rintro ⟨hpayload, hnext⟩
        exact ⟨hkind, trivial, by omega, hpayload, by omega⟩
      · rintro ⟨-, -, hle, hpayload, hnext⟩
        exact ⟨hpayload, by omega⟩

theorem decodeFrame_next {payload : Bytes} {next : Nat}
    (h : decodeFrame z b offset kind = .ok (payload, next)) :
    offset + headerSize ≤ next ∧ next ≤ b.length := by
  obtain ⟨v, r₀, r₁, raw, sto, rest, hraw, hsto, hform⟩ := header_of_decodeFrame h
  obtain ⟨-, -, hle, hp⟩ := (decodeFrame_eq_ok hraw hsto hform).1 h
  obtain ⟨-, hfits, hsize, -⟩ := decodePayload_eq_ok.1 hp
  have hlen := congrArg List.length hform
  simp only [List.length_drop, List.length_append, length_magic, List.length_cons,
    List.length_nil, hraw, hsto] at hlen
  refine ⟨hle, ?_⟩
  simp only [headerSize] at hle hsize
  omega

end Header

/-! ## Round trip -/

section RoundTrip

variable {z : Zlib} {kind v : UInt8} {payload f : Bytes} {compress : Bool}

theorem inflate_compress (p : Bytes) : inflate z (z.compress p) p.length = .ok p := by
  have hall : p.take (p.length + 1) = p := List.take_of_length_le (Nat.le_succ _)
  unfold inflate
  simp only [z.newReader_compress, z.readAll_compress, z.close_compress, hall, ne_eq,
    not_true_eq_false, ite_false]

theorem frame_eq (rawLen : Nat) (encoded : Bytes) :
    frame kind v rawLen encoded =
      magic ++ ([kind, v, 0, 0] ++ (putUint32 rawLen ++ (putUint32 encoded.length ++
        ((if v = checksumVersion then putUint32 (crc32 encoded).toNat else []) ++ encoded)))) := by
  simp only [frame, List.append_assoc]

theorem encodeFrame_eq_ok :
    encodeFrame z kind v payload compress = .ok f ↔
      (kind = snapshotKind → v ≠ walVersion ∧ compress = true) ∧
      (kind = walKind → (v = version → compress = true) ∧ (walVersion ≤ v → compress = false)) ∧
      payload.length ≤ maxPayloadSize ∧ (storedBytes z compress payload).length ≤ maxPayloadSize ∧
      f = frame kind v payload.length (storedBytes z compress payload) := by
  unfold encodeFrame
  simp only
  split_ifs with h₁ h₂ h₃ h₄ h₅ h₆
  · exact ⟨fun h => (by cases h), fun h => absurd h₁.2 (h.1 h₁.1).1⟩
  · exact ⟨fun h => (by cases h), fun h => absurd (h.1 h₂.1).2 (by simp [h₂.2])⟩
  · exact ⟨fun h => (by cases h), fun h => absurd ((h.2.1 h₃.1).1 h₃.2.1) (by simp [h₃.2.2])⟩
  · exact ⟨fun h => (by cases h), fun h => absurd ((h.2.1 h₄.1).2 h₄.2.1) (by simp [h₄.2.2])⟩
  · exact ⟨fun h => (by cases h), fun h => absurd h.2.2.1 (Nat.not_le.2 h₅)⟩
  · exact ⟨fun h => (by cases h), fun h => absurd h.2.2.2.1 (Nat.not_le.2 h₆)⟩
  · rw [Except.ok.injEq]
    constructor
    · intro h
      refine ⟨fun hk => ⟨fun hv => h₁ ⟨hk, hv⟩, ?_⟩, fun hk => ⟨fun hv => ?_, fun hv => ?_⟩,
        Nat.not_lt.1 h₅, Nat.not_lt.1 h₆, h.symm⟩
      · simpa using fun hc => h₂ ⟨hk, hc⟩
      · simpa using fun hc => h₃ ⟨hk, hv, hc⟩
      · simpa using fun hc => h₄ ⟨hk, hv, hc⟩
    · exact fun h => h.2.2.2.2.symm

theorem version_or_later (h : validFrameVersion kind v = true) : v = version ∨ walVersion ≤ v := by
  have hall : ∀ v : UInt8, v = version ∨ v = walVersion ∨ v = checksumVersion →
      v = version ∨ walVersion ≤ v := by decide +kernel
  apply hall
  unfold validFrameVersion at h
  split_ifs at h with h₁ h₂ h₃
  · exact Or.inl h₁
  · exact Or.inr (Or.inl h₂)
  · exact Or.inr (Or.inr h₃)

theorem maxPayloadSize_lt : maxPayloadSize < 2 ^ 32 := by decide

/-- **What is written into a frame is read back**, whatever stands before and behind it. -/
theorem decodeFrame_encodeFrame (hkind : kind = walKind ∨ kind = snapshotKind)
    (hv : validFrameVersion kind v = true) (h : encodeFrame z kind v payload compress = .ok f)
    (pre post : Bytes) :
    decodeFrame z (pre ++ (f ++ post)) pre.length kind = .ok (payload, pre.length + f.length) := by
  obtain ⟨hsnapshot, hwal, hlen, hstored, rfl⟩ := encodeFrame_eq_ok.1 h
  have hmax := maxPayloadSize_lt
  have hraw : uint32 (putUint32 payload.length) = payload.length := by
    simpa using uint32_putUint32 (by omega) []
  have hsto : uint32 (putUint32 (storedBytes z compress payload).length) =
      (storedBytes z compress payload).length := by
    simpa using uint32_putUint32 (by omega) []
  generalize hs : storedBytes z compress payload = stored at *
  generalize hsum : (if v = checksumVersion then putUint32 (crc32 stored).toNat else []) = sum
  have hextra : sum.length = extra v := by
    rw [← hsum, extra]
    split <;> rfl
  have hform : (pre ++ (frame kind v payload.length stored ++ post)).drop pre.length =
      magic ++ ([kind, v, 0, 0] ++ (putUint32 payload.length ++ (putUint32 stored.length ++
        (sum ++ (stored ++ post))))) := by
    rw [List.drop_left, frame_eq, hsum]
    simp only [List.append_assoc]
  have hbody : ((sum ++ (stored ++ post)).drop (extra v)).take stored.length = stored := by
    rw [← hextra, List.drop_left, List.take_left]
  have hframe : (frame kind v payload.length stored).length =
      headerSize + (extra v + stored.length) := by
    rw [frame_eq, hsum]
    simp only [List.length_append, length_magic, List.length_cons, List.length_nil,
      length_putUint32, hextra, headerSize]
    omega
  rw [decodeFrame_eq_ok (length_putUint32 _) (length_putUint32 _) hform, hraw, hsto]
  refine ⟨rfl, hv, by omega, decodePayload_eq_ok.2 ⟨⟨hlen, hstored⟩, ?_, ?_, fun hsumv => ?_, ?_⟩⟩
  · rw [← hextra]
    simp only [List.length_append]
    omega
  · omega
  · rw [hbody, ← hsum, if_pos hsumv]
    exact uint32_putUint32 (crc32 stored).toNat_lt _
  · rw [hbody]
    split
    · next hw =>
      have hplain : stored = payload := by rw [← hs, storedBytes, (hwal hw.1).2 hw.2]; rfl
      exact ⟨hplain, by rw [hplain]⟩
    · next hw =>
      have hcompress : compress = true := by
        rcases hkind with rfl | rfl
        · refine (hwal rfl).1 ?_
          exact (version_or_later hv).resolve_right fun hle => hw ⟨rfl, hle⟩
        · exact (hsnapshot rfl).2
      have hzip : stored = z.compress payload := by rw [← hs, storedBytes, if_pos hcompress]
      rw [hzip]
      exact inflate_compress payload

end RoundTrip

/-! ## Replay -/

section Replay

variable {σ ε : Type} {apply : σ → Bytes → Option ε × σ} {z : Zlib} {b : Bytes}

theorem replayFrames_fuel (fuel fuel' : Nat) (h : b.length ≤ offset + fuel)
    (h' : b.length ≤ offset + fuel') (record : Nat) (s : σ) :
    replayFrames apply z b fuel offset record s = replayFrames apply z b fuel' offset record s := by
  have hend : ∀ fuel offset record (s : σ), b.length ≤ offset →
      replayFrames apply z b fuel offset record s = (none, s) := by
    intro fuel offset record s hle
    cases fuel with
    | zero => rfl
    | succ fuel => rw [replayFrames, if_pos hle]
  induction fuel generalizing fuel' offset record s with
  | zero => rw [hend 0 offset record s h, hend fuel' offset record s h]
  | succ fuel ih =>
    by_cases hle : b.length ≤ offset
    · rw [hend _ _ _ _ hle, hend _ _ _ _ hle]
    cases fuel' with
    | zero => exact absurd h' (by omega)
    | succ fuel' =>
      rw [replayFrames, replayFrames, if_neg hle, if_neg hle]
      cases hd : decodeFrame z b offset walKind with
      | error e => rfl
      | ok p =>
        have hnext := (decodeFrame_next hd).1
        simp only [headerSize] at hnext
        rcases ha : apply s p.1 with ⟨_ | e, s'⟩
        · simp only [ha]
          exact ih fuel' (by omega) (by omega) _ _
        · simp only [ha]

def replayFrom (apply : σ → Bytes → Option ε × σ) (z : Zlib) (b : Bytes) (offset record : Nat)
    (s : σ) : Option (ReplayError ε) × σ :=
  replayFrames apply z b b.length offset record s

theorem replayFrom_end (h : b.length ≤ offset) (record : Nat) (s : σ) :
    replayFrom apply z b offset record s = (none, s) := by
  rw [replayFrom, replayFrames_fuel b.length 0 (by omega) (by omega)]
  rfl

theorem replayFrom_error {e : FormatError} (h : offset < b.length)
    (hd : decodeFrame z b offset walKind = .error e) (record : Nat) (s : σ) :
    replayFrom apply z b offset record s = (some (.record record e), s) := by
  rw [replayFrom, replayFrames_fuel b.length (b.length + 1) (by omega) (by omega), replayFrames,
    if_neg (Nat.not_le.2 h), hd]

theorem replayFrom_record {next : Nat} {payload : Bytes}
    (hd : decodeFrame z b offset walKind = .ok (payload, next)) (record : Nat) (s : σ) :
    replayFrom apply z b offset record s =
      match apply s payload with
      | (some e, s') => (some (.applyRecord record e), s')
      | (none, s') => replayFrom apply z b next (record + 1) s' := by
  obtain ⟨hnext, hle⟩ := decodeFrame_next hd
  simp only [headerSize] at hnext
  rw [replayFrom, replayFrames_fuel b.length (b.length + 1) (by omega) (by omega), replayFrames,
    if_neg (by omega), hd]
  rfl

end Replay

/-- A frame that holds a WAL record: it is read as such wherever it stands. -/
def Holds (z : Zlib) (f payload : Bytes) : Prop :=
  ∀ pre post, decodeFrame z (pre ++ (f ++ post)) pre.length walKind =
    .ok (payload, pre.length + f.length)

section Records

variable {z : Zlib}

/-- What `apply` does when only the statements are of interest. -/
abbrev recorder : List Bytes → Bytes → Option Empty × List Bytes := fun l sql => (none, l ++ [sql])

theorem replayFrom_frames (hl : ∀ r ∈ l, Holds z r.1 r.2) (pre post : Bytes) (record : Nat)
    (acc : List Bytes) :
    replayFrom recorder z (pre ++ ((l.map (·.1)).flatten ++ post)) pre.length record acc =
      replayFrom recorder z (pre ++ ((l.map (·.1)).flatten ++ post))
        (pre.length + (l.map (·.1)).flatten.length) (record + l.length)
        (acc ++ l.map (·.2)) := by
  induction l generalizing pre record acc with
  | nil => simp
  | cons r l ih =>
    rw [List.forall_mem_cons] at hl
    have hfile : pre ++ (((r :: l).map (·.1)).flatten ++ post) =
        pre ++ (r.1 ++ ((l.map (·.1)).flatten ++ post)) := by simp
    have hnext := ih hl.2 (pre ++ r.1) (record + 1) (acc ++ [r.2])
    rw [List.append_assoc, List.length_append] at hnext
    rw [hfile, replayFrom_record (hl.1 pre _)]
    refine hnext.trans ?_
    simp only [List.map_cons, List.flatten_cons, List.length_append, List.length_cons,
      List.append_assoc, List.cons_append, List.nil_append]
    congr 1 <;> omega

theorem Holds.magic {f payload : Bytes} (h : Holds z f payload) (post : Bytes) :
    8 ≤ (f ++ post).length ∧ (f ++ post).take 8 = Storage.magic := by
  obtain ⟨v, r₀, r₁, raw, sto, rest, hraw, hsto, hform⟩ := header_of_decodeFrame (h [] post)
  rw [List.nil_append, List.length_nil, List.drop_zero] at hform
  rw [hform, List.length_append, length_magic]
  exact ⟨Nat.le_add_right _ _, List.take_left' length_magic⟩

theorem replayed_eq {b : Bytes} (h : 8 ≤ b.length ∧ b.take 8 = magic) :
    replayed z b = replayFrom recorder z b 0 1 [] := by
  rw [replayed, replayWAL, if_pos h]
  rfl

theorem replayed_nil : replayed z [] = (none, []) := by
  rw [replayed, replayWAL, if_neg (by simp)]
  decide +kernel

theorem replayed_frames (hl : ∀ r ∈ l, Holds z r.1 r.2) (post : Bytes)
    (hmagic : 8 ≤ ((l.map (·.1)).flatten ++ post).length ∧
      ((l.map (·.1)).flatten ++ post).take 8 = magic) :
    replayed z ((l.map (·.1)).flatten ++ post) =
      replayFrom recorder z ((l.map (·.1)).flatten ++ post) (l.map (·.1)).flatten.length
        (1 + l.length) (l.map (·.2)) := by
  have hrun := replayFrom_frames hl [] post 1 []
  simp only [List.nil_append, List.length_nil, Nat.zero_add] at hrun
  rw [replayed_eq hmagic, hrun]

theorem replayed_flatten (hl : ∀ r ∈ l, Holds z r.1 r.2) :
    replayed z (l.map (·.1)).flatten = (none, l.map (·.2)) := by
  cases l with
  | nil => exact replayed_nil
  | cons r l =>
    have hmagic := (hl r List.mem_cons_self).magic (l.map (·.1)).flatten
    have hrun := replayed_frames hl [] (by simpa using hmagic)
    rw [List.append_nil] at hrun
    rw [hrun, replayFrom_end (Nat.le_refl _)]

end Records

/-! ## What the writer makes -/

section Writer

variable {z : Zlib}

theorem encodeFrame_walRecord {sql : Bytes} (h : sql.length ≤ maxPayloadSize) :
    encodeFrame z walKind checksumVersion sql false = .ok (walRecord sql) := by
  refine encodeFrame_eq_ok.2 ⟨fun hk => absurd hk (by decide), fun _ => ⟨fun hv => absurd hv (by
    decide), fun _ => rfl⟩, h, h, ?_⟩
  rw [frame_eq, if_pos rfl]
  simp only [walRecord, storedBytes, Bool.false_eq_true, ite_false, List.append_assoc]

theorem holds_walRecord {sql : Bytes} (h : sql.length ≤ maxPayloadSize) :
    Holds z (walRecord sql) sql :=
  decodeFrame_encodeFrame (Or.inl rfl) (by decide) (encodeFrame_walRecord h)

/-- The records of statements, each with its frame. -/
def records (l : List Bytes) : List (Bytes × Bytes) := l.map fun q => (walRecord q, q)

theorem flatten_records (l : List Bytes) : ((records l).map (·.1)).flatten =
    l.flatMap walRecord := by
  rw [records, List.map_map, List.flatMap_def]
  rfl

theorem statements_records (l : List Bytes) : (records l).map (·.2) = l := by
  rw [records, List.map_map]
  exact List.map_id l

theorem holds_records {l : List Bytes} (hsize : ∀ q ∈ l, q.length ≤ maxPayloadSize) :
    ∀ r ∈ records l, Holds z r.1 r.2 := by
  intro r hr
  obtain ⟨q, hq, rfl⟩ := List.mem_map.1 hr
  exact holds_walRecord (hsize q hq)

theorem append_eq_ok {sqls : List Bytes} {file file' : Bytes} :
    append sqls file = .ok file' ↔
      (∀ sql ∈ sqls, sql.length ≤ maxPayloadSize) ∧ file' = file ++ sqls.flatMap walRecord := by
  unfold append
  split
  · next h =>
    refine ⟨fun h' => (by cases h'), fun h' => ?_⟩
    obtain ⟨sql, hsql, hlong⟩ := List.any_eq_true.1 h
    exact absurd (h'.1 sql hsql) (by simpa using hlong)
  · next h =>
    rw [Except.ok.injEq]
    refine ⟨fun h' => ⟨fun sql hsql => ?_, h'.symm⟩, fun h' => h'.2.symm⟩
    by_contra hlong
    exact h (List.any_eq_true.2 ⟨sql, hsql, by simpa using hlong⟩)

theorem appendAll_eq_ok {batches : List (List Bytes)} {file file' : Bytes} :
    appendAll batches file = .ok file' ↔
      (∀ sql ∈ batches.flatten, sql.length ≤ maxPayloadSize) ∧
        file' = file ++ batches.flatten.flatMap walRecord := by
  induction batches generalizing file with
  | nil =>
    simp only [appendAll, List.foldlM_nil, List.flatten_nil, List.flatMap_nil, List.append_nil]
    exact ⟨fun h => ⟨by simp, (Except.ok.inj h).symm⟩, fun h => congrArg Except.ok h.2.symm⟩
  | cons sqls batches ih =>
    rw [appendAll, List.foldlM_cons, List.flatten_cons, List.flatMap_append,
      List.forall_mem_append, ← List.append_assoc]
    cases happ : append sqls file with
    | error e =>
      refine ⟨fun h => (by cases h), fun h => ?_⟩
      rw [append_eq_ok.2 ⟨h.1.1, rfl⟩] at happ
      cases happ
    | ok file₁ =>
      obtain ⟨hsizes, rfl⟩ := append_eq_ok.1 happ
      refine Iff.trans ih ?_
      exact ⟨fun h => ⟨⟨hsizes, h.1⟩, h.2⟩, fun h => ⟨h.1.2, h.2⟩⟩

end Writer

/-! ## The WAL format -/

section Format

variable {z : Zlib}

structure OldFrame (z : Zlib) where
  frameVersion : UInt8
  payload : Bytes
  bytes : Bytes
  earlier : frameVersion = version ∨ frameVersion = walVersion
  encoded : encodeFrame z walKind frameVersion payload (frameVersion = version) = .ok bytes

theorem OldFrame.holds (f : OldFrame z) : Holds z f.bytes f.payload := by
  refine decodeFrame_encodeFrame (Or.inl rfl) ?_ f.encoded
  rcases f.earlier with h | h <;>
    · rw [h]
      decide

theorem encodeFrame_of_decodeFrame {b payload : Bytes} {next : Nat}
    (h : decodeFrame z b offset walKind = .ok (payload, next)) (hv : b[offset + 9]? = some v)
    (hraw : v = walVersion ∨ v = checksumVersion) :
    encodeFrame z walKind v payload false =
      .ok ((((b.drop offset).take (next - offset)).set 10 0).set 11 0) := by
  obtain ⟨v', r₀, r₁, raw, sto, rest, hlraw, hlsto, hform⟩ := header_of_decodeFrame h
  obtain rfl : v' = v := by
    rw [← List.getElem?_drop, hform, magic_eq] at hv
    exact Option.some.inj hv
  obtain ⟨-, -, hle, hp⟩ := (decodeFrame_eq_ok hlraw hlsto hform).1 h
  obtain ⟨⟨hmax, -⟩, hfits, hnext, hcrc, hpayload⟩ := decodePayload_eq_ok.1 hp
  have hlate : walVersion ≤ v' := by
    rcases hraw with rfl | rfl <;> decide
  rw [if_pos ⟨rfl, hlate⟩] at hpayload
  obtain ⟨hstored, hsame⟩ := hpayload
  have hlen : payload.length = uint32 sto := by
    rw [← hstored, List.length_take, List.length_drop]
    omega
  -- the lengths and the checksum are those that the writer computes
  have hraw' : raw = putUint32 payload.length := by rw [hlen, hsame, putUint32_uint32 hlraw]
  have hsto' : sto = putUint32 payload.length := by rw [hlen, putUint32_uint32 hlsto]
  have hsum : rest.take (extra v') =
      if v' = checksumVersion then putUint32 (crc32 payload).toNat else [] := by
    rcases hraw with rfl | rfl
    · rfl
    · rw [if_pos rfl, ← hstored, ← hcrc rfl, ← uint32_take, putUint32_uint32]
      · rfl
      · rw [List.length_take]
        simp only [extra, checksumSize, ite_true] at hfits
        omega
  have hrest : rest.take (extra v' + payload.length) =
      (if v' = checksumVersion then putUint32 (crc32 payload).toNat else []) ++ payload := by
    rw [List.take_add, hsum, hlen, hstored]
  have hconsumed : (b.drop offset).take (next - offset) =
      magic ++ ([walKind, v', r₀, r₁] ++ (putUint32 payload.length ++ (putUint32 payload.length ++
        ((if v' = checksumVersion then putUint32 (crc32 payload).toNat else []) ++ payload)))) := by
    have hsize : next - offset = 8 + (4 + (4 + (4 + (extra v' + payload.length)))) := by
      simp only [headerSize] at hle hnext
      omega
    rw [hform, hsize, take_add_append length_magic,
      take_add_append (show [walKind, v', r₀, r₁].length = 4 from rfl), take_add_append hlraw,
      take_add_append hlsto, hrest, hraw', hsto']
  rw [hconsumed]
  refine encodeFrame_eq_ok.2 ⟨fun hk => absurd hk (by decide), fun _ => ⟨fun hv => ?_,
    fun _ => rfl⟩, by omega, by rw [storedBytes, if_neg (by decide)]; omega, ?_⟩
  · rw [hv] at hlate
    exact absurd hlate (by decide)
  · rw [frame_eq, magic_eq]
    rfl

/-- **The WAL format.** Statements that are appended in batches, behind frames of earlier versions,
are replayed in order. A frame of version 2 or 3 that is accepted is what the writer makes of the
payload, up to the reserved bytes. -/
theorem wal_roundTrip (z : Zlib) :
    (∀ (old : List (OldFrame z)) (batches : List (List Bytes)),
      (∀ sqls ∈ batches, ∀ sql ∈ sqls, sql.length ≤ maxPayloadSize) →
      ∃ file, appendAll batches (old.flatMap (·.bytes)) = .ok file ∧
        replayed z file = (none, old.map (·.payload) ++ batches.flatten)) ∧
    ∀ (b payload : Bytes) (offset next : Nat) (v : UInt8),
      decodeFrame z b offset walKind = .ok (payload, next) → b[offset + 9]? = some v →
      v = walVersion ∨ v = checksumVersion →
      encodeFrame z walKind v payload false =
        .ok ((((b.drop offset).take (next - offset)).set 10 0).set 11 0) := by
  refine ⟨fun old batches hsizes => ?_, fun b payload offset next v h hv hraw =>
    encodeFrame_of_decodeFrame h hv hraw⟩
  have hall : ∀ sql ∈ batches.flatten, sql.length ≤ maxPayloadSize := by
    intro sql hsql
    obtain ⟨sqls, hsqls, hmem⟩ := List.mem_flatten.1 hsql
    exact hsizes sqls hsqls sql hmem
  refine ⟨_, appendAll_eq_ok.2 ⟨hall, rfl⟩, ?_⟩
  have hrun := replayed_flatten (z := z)
    (l := old.map (fun f => (f.bytes, f.payload)) ++ batches.flatten.map fun q => (walRecord q, q))
    (by
      intro r hr
      rcases List.mem_append.1 hr with hr | hr
      · obtain ⟨f, -, rfl⟩ := List.mem_map.1 hr
        exact f.holds
      · obtain ⟨q, hq, rfl⟩ := List.mem_map.1 hr
        exact holds_walRecord (hall q hq))
  simpa [List.flatMap_def, Function.comp_def] using hrun

def oldFrames : List (OldFrame .stored) :=
  [⟨version, str "A", frame walKind version 1 (storedStream (str "A")), Or.inl rfl,
      encodeFrame_eq_ok.2 (by decide +kernel)⟩,
    ⟨walVersion, str "B", frame walKind walVersion 1 (str "B"), Or.inr rfl,
      encodeFrame_eq_ok.2 (by decide +kernel)⟩]

/-- A file with frames of all three versions, one of them with the magic as its payload, and the
frame at its end. -/
theorem wal_roundTrip_versions :
    (∃ file, appendAll [[str "C", magic], []] (oldFrames.flatMap (·.bytes)) = .ok file ∧
      replayed .stored file = (none, [str "A", str "B", str "C", magic])) ∧
    encodeFrame .stored walKind checksumVersion (str "C") false =
      .ok ((((walRecord (str "C")).drop 0).take 25 |>.set 10 0).set 11 0) := by
  obtain ⟨hforth, hback⟩ := wal_roundTrip .stored
  refine ⟨?_, ?_⟩
  · have hpayloads : oldFrames.map (·.payload) ++ [[str "C", magic], []].flatten =
        [str "A", str "B", str "C", magic] := rfl
    rw [← hpayloads]
    exact hforth oldFrames [[str "C", magic], []] (by decide +kernel)
  · exact hback (walRecord (str "C")) (str "C") 0 25 checksumVersion (by decide +kernel)
      (by decide +kernel) (Or.inr rfl)

end Format

end SuperDB.Storage
