import SuperDB.Storage.Verify.Damage

/-!
# Damaged snapshots

A snapshot with a changed byte is not loaded as something else. A change of the magic makes plain
JSON out of the file, which it is not; a change of the version moves the end of the frame away from
the end of the file, as a change of the stored length does; every other change is noticed in the
frame, or hits a reserved byte.
-/

namespace SuperDB.Storage

open Go

section Snapshot

variable {z : Zlib} {payload : Bytes} {j : Nat} {c : UInt8}

def snapshotFile (z : Zlib) (payload : Bytes) : Bytes :=
  current snapshotKind payload.length (z.compress payload)

theorem writeSnapshot_eq_ok {α : Type} {marshal : α → Except Bytes Bytes} {value : α} {file : Bytes}
    (h : writeSnapshot z marshal value = .ok file) :
    ∃ payload, marshal value = .ok payload ∧ payload.length ≤ maxPayloadSize ∧
      (z.compress payload).length ≤ maxPayloadSize ∧ file = snapshotFile z payload := by
  unfold writeSnapshot at h
  cases hm : marshal value with
  | error e =>
    rw [hm] at h
    cases h
  | ok payload =>
    simp only [hm] at h
    cases he : encode z snapshotKind payload with
    | error e =>
      rw [he] at h
      cases h
    | ok encoded =>
      rw [he] at h
      obtain rfl := Except.ok.inj h
      obtain ⟨-, -, hlen, hstored, rfl⟩ := encodeFrame_eq_ok.1 he
      refine ⟨payload, rfl, hlen, hstored, ?_⟩
      rw [frame_current]
      rfl

theorem notJSON_start (hj : j < 8) (hc : magic[j]? ≠ some c) :
    (magic.set j c ++ [snapshotKind, checksumVersion]).foldlM Scan.step {} = none := by
  rw [magic_eq] at hc ⊢
  have hfirst : ∀ c : UInt8, c ≠ 83 →
      ([c, 85, 80, 69, 82, 68, 66, 49] ++ [snapshotKind, checksumVersion]).foldlM Scan.step {} =
        none := by decide +kernel
  cases j with
  | zero => exact hfirst c fun h => hc (by rw [h]; rfl)
  | succ j => rfl

theorem Damage.snapshot {f q : Bytes} {next : Nat} (hlen : payload.length ≤ maxPayloadSize)
    (hstored : (z.compress payload).length ≤ maxPayloadSize)
    (hd : Damage snapshotKind payload.length (z.compress payload) j c f)
    (h : decodeFrame z f 0 snapshotKind = .ok (q, next)) (hnext : next = f.length) :
    q = payload := by
  have hplain : ¬(snapshotKind = walKind ∧ walVersion ≤ checksumVersion) := by decide
  have hback : uint32 (putUint32 payload.length) = payload.length := uint32_length hlen
  have hwhole : ∀ sum : Bytes, sum.length = 4 →
      ((sum ++ z.compress payload).drop (extra checksumVersion)).take
        (z.compress payload).length = z.compress payload := fun sum hsum => by
    rw [drop_checksum hsum, List.take_length]
  cases hd with
  | magic hlt hne =>
    obtain ⟨v, r₀, r₁, raw, sto, rest, -, -, hform⟩ := header_of_decodeFrame h
    have htake := congrArg (List.take 8) hform
    rw [List.drop_zero, List.take_left' (by rw [List.length_set, length_magic]),
      List.take_left' length_magic] at htake
    exact absurd htake (set_ne_self (by rwa [length_magic]) hne)
  | kind _ hne =>
    exact absurd (accepted (length_putUint32 _) (length_putUint32 _) List.drop_zero h).1 hne
  | version _ hne =>
    obtain ⟨-, -, hend, -⟩ := accepted (length_putUint32 _) (length_putUint32 _) List.drop_zero h
    rw [uint32_length hstored, show extra c = 0 from if_neg hne] at hend
    simp only [List.length_append, length_magic, List.length_cons, List.length_nil,
      length_putUint32, headerSize] at hend hnext
    omega
  | reserved r₀ r₁ _ =>
    obtain ⟨-, -, -, -, hq⟩ := accepted (length_putUint32 _) (length_putUint32 _) List.drop_zero h
    rw [if_neg hplain, uint32_length hstored, hwhole _ (length_putUint32 _), hback,
      inflate_compress] at hq
    exact (Except.ok.inj hq).symm
  | rawLen raw _ hraw hne =>
    obtain ⟨-, -, -, -, hq⟩ := accepted hraw (length_putUint32 _) List.drop_zero h
    rw [if_neg hplain, uint32_length hstored, hwhole _ (length_putUint32 _)] at hq
    unfold inflate at hq
    simp only [z.newReader_compress, z.readAll_compress, z.close_compress] at hq
    split at hq
    · cases hq
    · next hsame =>
      have hn := not_not.1 hsame
      have hother := putUint32_ne hraw hne
      rw [List.length_take] at hn
      omega
  | storedLen sto _ hsto hne =>
    obtain ⟨-, -, hend, -⟩ := accepted (length_putUint32 _) hsto List.drop_zero h
    have hother := putUint32_ne hsto hne
    simp only [List.length_append, length_magic, List.length_cons, List.length_nil,
      length_putUint32, headerSize, hsto, show extra checksumVersion = 4 from rfl] at hend hnext
    omega
  | checksum sum _ hsum hne =>
    exact absurd h (checksum_rejects hstored hsum (putUint32_ne hsum hne) List.take_length
      List.drop_zero)
  | stored s t a _ hst hne =>
    have hsame : (z.compress payload).length = (s ++ c :: t).length := by
      rw [hst]
      simp
    rw [hsame] at h hstored
    rw [hst] at h
    exact absurd h (checksum_rejects hstored (length_putUint32 _) (crc32_toNat_ne hne)
      List.take_length List.drop_zero)

theorem Damage.notJSON {f : Bytes} {rawLen : Nat} {stored : Bytes}
    (hd : Damage snapshotKind rawLen stored j c f) (h : f.take 8 ≠ Storage.magic) :
    jsonValid f = false := by
  cases hd with
  | magic hlt hne =>
    have hstart := jsonValid_of_start (notJSON_start hlt hne) ([0, 0] ++ (putUint32 rawLen ++
      (putUint32 stored.length ++ (putUint32 (crc32 stored).toNat ++ stored))))
    rw [List.append_assoc] at hstart
    exact hstart
  | _ => exact absurd (List.take_left' length_magic) h

/-- **A damaged snapshot is not loaded as something else.** -/
theorem snapshot_damage {α β : Type} {marshal : α → Except Bytes Bytes}
    (decode : Bytes → Except Bytes β) {value : α} {file : Bytes} {i : Nat}
    (hfile : writeSnapshot z marshal value = .ok file) (hi : i < file.length)
    (hc : file[i]? ≠ some c) :
    (∃ e, readSnapshot z decode (some (file.set i c)) = .error e) ∨
      ∃ payload, marshal value = .ok payload ∧ snapshotText z (file.set i c) = .ok payload ∧
        readSnapshot z decode (some (file.set i c)) = (unmarshal decode payload).map some := by
  obtain ⟨payload, hm, hlen, hstored, rfl⟩ := writeSnapshot_eq_ok hfile
  have hd := damage_set hi hc
  rw [← snapshotFile] at hd
  generalize (snapshotFile z payload).set i c = f at hd
  by_cases hmagic : 8 ≤ f.length ∧ f.take 8 = magic
  · cases hdec : decodeFrame z f 0 snapshotKind with
    | error e =>
      left
      refine ⟨.decode e, ?_⟩
      rw [readSnapshot, snapshotText, if_pos hmagic, hdec]
    | ok p =>
      by_cases hnext : p.2 = f.length
      · have hq : p.1 = payload := hd.snapshot hlen hstored hdec hnext
        have htext : snapshotText z f = .ok payload := by
          rw [snapshotText, if_pos hmagic, hdec]
          simp only [hnext, ne_eq, not_true_eq_false, ite_false, hq]
        right
        refine ⟨payload, hm, htext, ?_⟩
        rw [readSnapshot, htext]
      · left
        refine ⟨.trailingData, ?_⟩
        rw [readSnapshot, snapshotText, if_pos hmagic, hdec]
        simp only [ne_eq, hnext, not_false_eq_true, ite_true]
  · left
    refine ⟨.notJSON, ?_⟩
    have htake : f.take 8 ≠ magic := fun h => hmagic ⟨?_, h⟩
    · rw [readSnapshot, snapshotText, if_neg hmagic]
      simp only [unmarshal, hd.notJSON htake, ite_true, Except.map]
    · have hlen8 := congrArg List.length h
      rw [length_magic, List.length_take] at hlen8
      omega

/-- A changed reserved byte. -/
theorem snapshot_damage_bytes :
    ∃ file, writeSnapshot .stored (fun p : Bytes => .ok p) (str "[]") = .ok file ∧
      ((∃ e, readSnapshot .stored (fun p => Except.ok p) (some (file.set 10 1)) = .error e) ∨
        ∃ payload, Except.ok (str "[]") = (Except.ok payload : Except Bytes Bytes) ∧
          snapshotText .stored (file.set 10 1) = .ok payload ∧
          readSnapshot .stored (fun p => Except.ok p) (some (file.set 10 1)) =
            (unmarshal (fun p => Except.ok p) payload).map some) := by
  have hfile : writeSnapshot .stored (fun p : Bytes => .ok p) (str "[]") =
      .ok (frame snapshotKind checksumVersion 2 (storedStream (str "[]"))) := by
    have hencode : encode .stored snapshotKind (str "[]") =
        .ok (frame snapshotKind checksumVersion 2 (storedStream (str "[]"))) :=
      encodeFrame_eq_ok.2 (by decide +kernel)
    rw [writeSnapshot]
    simp only [hencode]
  exact ⟨_, hfile, snapshot_damage _ hfile (by decide +kernel) (by decide +kernel)⟩

end Snapshot

end SuperDB.Storage
