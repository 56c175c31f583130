import SuperDB.Storage.Verify.Frames
import SuperDB.Go.Trim

/-!
# Damaged files

What a changed byte and a lost end do to the files. A frame of the current version notices a change
of any byte but the reserved ones and its version: the checksum is checked only for version 3, so
that a frame whose version is changed is taken for an older one without a checksum. A WAL whose
first bytes are not the magic is taken for lines of SQL.
-/

namespace SuperDB.Storage

open Go

variable {c r₀ r₁ : UInt8} {rawLen : Nat} {s : Bytes}

/-! ## Changes of a frame -/

def current (kind : UInt8) (rawLen : Nat) (stored : Bytes) : Bytes :=
  magic ++ ([kind, checksumVersion, 0, 0] ++ (putUint32 rawLen ++ (putUint32 stored.length ++
    (putUint32 (crc32 stored).toNat ++ stored))))

theorem frame_current (kind : UInt8) (rawLen : Nat) (stored : Bytes) :
    frame kind checksumVersion rawLen stored = current kind rawLen stored := by
  rw [frame_eq, if_pos rfl]
  rfl

theorem walRecord_eq (sql : Bytes) : walRecord sql = current walKind sql.length sql := by
  simp only [walRecord, current, List.append_assoc]

@[simp] theorem length_current (kind : UInt8) (rawLen : Nat) (stored : Bytes) :
    (current kind rawLen stored).length = 24 + stored.length := by
  simp only [current, List.length_append, length_magic, List.length_cons, List.length_nil,
    length_putUint32]
  omega

/-- A frame in which byte `j` has been changed to `c`, by the field in which it lies. -/
inductive Damage (kind : UInt8) (rawLen : Nat) (stored : Bytes) (j : Nat) (c : UInt8) : Bytes → Prop
  | magic : j < 8 → magic[j]? ≠ some c →
    Damage kind rawLen stored j c
      (magic.set j c ++ ([kind, checksumVersion, 0, 0] ++ (putUint32 rawLen ++
        (putUint32 stored.length ++ (putUint32 (crc32 stored).toNat ++ stored)))))
  | kind : j = 8 → c ≠ kind →
    Damage kind rawLen stored j c
      (magic ++ ([c, checksumVersion, 0, 0] ++ (putUint32 rawLen ++
        (putUint32 stored.length ++ (putUint32 (crc32 stored).toNat ++ stored)))))
  | version : j = 9 → c ≠ checksumVersion →
    Damage kind rawLen stored j c
      (magic ++ ([kind, c, 0, 0] ++ (putUint32 rawLen ++
        (putUint32 stored.length ++ (putUint32 (crc32 stored).toNat ++ stored)))))
  | reserved (r₀ r₁ : UInt8) : j = 10 ∨ j = 11 →
    Damage kind rawLen stored j c
      (magic ++ ([kind, checksumVersion, r₀, r₁] ++ (putUint32 rawLen ++
        (putUint32 stored.length ++ (putUint32 (crc32 stored).toNat ++ stored)))))
  | rawLen (raw : Bytes) : 12 ≤ j → raw.length = 4 → raw ≠ putUint32 rawLen →
    Damage kind rawLen stored j c
      (magic ++ ([kind, checksumVersion, 0, 0] ++ (raw ++
        (putUint32 stored.length ++ (putUint32 (crc32 stored).toNat ++ stored)))))
  | storedLen (sto : Bytes) : 12 ≤ j → sto.length = 4 → sto ≠ putUint32 stored.length →
    Damage kind rawLen stored j c
      (magic ++ ([kind, checksumVersion, 0, 0] ++ (putUint32 rawLen ++
        (sto ++ (putUint32 (crc32 stored).toNat ++ stored)))))
  | checksum (sum : Bytes) : 12 ≤ j → sum.length = 4 → sum ≠ putUint32 (crc32 stored).toNat →
    Damage kind rawLen stored j c
      (magic ++ ([kind, checksumVersion, 0, 0] ++ (putUint32 rawLen ++
        (putUint32 stored.length ++ (sum ++ stored)))))
  | stored (s t : Bytes) (a : UInt8) : 12 ≤ j → stored = s ++ a :: t → a ≠ c →
    Damage kind rawLen stored j c
      (magic ++ ([kind, checksumVersion, 0, 0] ++ (putUint32 rawLen ++
        (putUint32 stored.length ++ (putUint32 (crc32 stored).toNat ++ (s ++ c :: t))))))

section Forms

variable {kind c : UInt8} {rawLen j : Nat} {stored f : Bytes}

theorem Damage.version_form (h : Damage kind rawLen stored j c f) (hj : j = 9) :
    f = Storage.magic ++ ([kind, c, 0, 0] ++ (putUint32 rawLen ++
      (putUint32 stored.length ++ (putUint32 (crc32 stored).toNat ++ stored)))) := by
  cases h with
  | version => rfl
  | _ => omega

theorem Damage.reserved_form (h : Damage kind rawLen stored j c f) (hj : j = 10 ∨ j = 11) :
    ∃ r₀ r₁, f = Storage.magic ++ ([kind, checksumVersion, r₀, r₁] ++ (putUint32 rawLen ++
      (putUint32 stored.length ++ (putUint32 (crc32 stored).toNat ++ stored)))) := by
  cases h with
  | reserved r₀ r₁ => exact ⟨r₀, r₁, rfl⟩
  | _ => omega

end Forms

theorem set_ne_self {l : Bytes} {j : Nat} (hj : j < l.length) (h : l[j]? ≠ some c) :
    l.set j c ≠ l := by
  intro heq
  apply h
  rw [← heq, List.getElem?_set_self hj]

theorem damage_set {kind : UInt8} {stored : Bytes} {j : Nat}
    (hj : j < (current kind rawLen stored).length)
    (hc : (current kind rawLen stored)[j]? ≠ some c) :
    Damage kind rawLen stored j c ((current kind rawLen stored).set j c) := by
  rw [length_current] at hj
  unfold current at hc ⊢
  rw [List.getElem?_append, length_magic] at hc
  rw [List.set_append, length_magic]
  by_cases h₁ : j < 8
  · rw [if_pos h₁] at hc ⊢
    exact .magic h₁ hc
  rw [if_neg h₁] at hc ⊢
  by_cases h₂ : j < 12
  · obtain rfl | rfl | rfl | rfl : j = 8 ∨ j = 9 ∨ j = 10 ∨ j = 11 := by omega
    · exact .kind rfl fun h => hc (by rw [h]; rfl)
    · exact .version rfl fun h => hc (by rw [h]; rfl)
    · exact .reserved c 0 (Or.inl rfl)
    · exact .reserved 0 c (Or.inr rfl)
  rw [List.getElem?_append_right (by simp only [List.length_cons, List.length_nil]; omega)] at hc
  rw [List.set_append_right _ _ (by simp only [List.length_cons, List.length_nil]; omega)]
  simp only [List.length_cons, List.length_nil] at hc ⊢
  rw [List.getElem?_append, length_putUint32] at hc
  rw [List.set_append, length_putUint32]
  by_cases h₃ : j - 8 - 4 < 4
  · rw [if_pos h₃] at hc ⊢
    exact .rawLen _ (by omega) (by simp) (set_ne_self h₃ hc)
  rw [if_neg h₃] at hc ⊢
  rw [List.getElem?_append, length_putUint32] at hc
  rw [List.set_append, length_putUint32]
  by_cases h₄ : j - 8 - 4 - 4 < 4
  · rw [if_pos h₄] at hc ⊢
    exact .storedLen _ (by omega) (by simp) (set_ne_self h₄ hc)
  rw [if_neg h₄] at hc ⊢
  rw [List.getElem?_append, length_putUint32] at hc
  rw [List.set_append, length_putUint32]
  by_cases h₅ : j - 8 - 4 - 4 - 4 < 4
  · rw [if_pos h₅] at hc ⊢
    exact .checksum _ (by omega) (by simp) (set_ne_self h₅ hc)
  rw [if_neg h₅] at hc ⊢
  have hlt : j - 8 - 4 - 4 - 4 - 4 < stored.length := by omega
  rw [List.getElem?_eq_getElem hlt] at hc
  rw [List.set_eq_take_append_cons_drop, if_pos hlt]
  refine .stored _ _ _ (by omega) ?_ fun h => hc (congrArg some h)
  rw [List.getElem_cons_drop, List.take_append_drop]

/-! ## Reading a damaged frame -/

section Read

variable {z : Zlib} {b rest raw sto post f q : Bytes} {offset next j : Nat} {kind c : UInt8}

theorem accepted (hraw : raw.length = 4) (hsto : sto.length = 4) {k v : UInt8}
    (hform : b.drop offset = magic ++ ([k, v, r₀, r₁] ++ (raw ++ (sto ++ rest))))
    (h : decodeFrame z b offset kind = .ok (q, next)) :
    k = kind ∧ validFrameVersion kind v = true ∧
      next = offset + (headerSize + (extra v + uint32 sto)) ∧
      (v = checksumVersion →
        uint32 rest = (crc32 ((rest.drop (extra v)).take (uint32 sto))).toNat) ∧
      if kind = walKind ∧ walVersion ≤ v then
        (rest.drop (extra v)).take (uint32 sto) = q ∧ uint32 sto = uint32 raw
      else inflate z ((rest.drop (extra v)).take (uint32 sto)) (uint32 raw) = .ok q := by
  obtain ⟨hkind, hv, hle, hp⟩ := (decodeFrame_eq_ok hraw hsto hform).1 h
  obtain ⟨-, -, hnext, hcrc, hq⟩ := decodePayload_eq_ok.1 hp
  exact ⟨hkind, hv, by omega, hcrc, hq⟩

theorem uint32_length (h : s.length ≤ maxPayloadSize) : uint32 (putUint32 s.length) = s.length := by
  have hmax := maxPayloadSize_lt
  simpa using uint32_putUint32 (by omega) []

theorem putUint32_ne {n : Nat} (hs : s.length = 4) (h : s ≠ putUint32 n) : uint32 s ≠ n := by
  intro heq
  apply h
  rw [← heq, putUint32_uint32 hs]

theorem drop_checksum {sum : Bytes} (hsum : sum.length = 4) :
    (sum ++ rest).drop (extra checksumVersion) = rest := List.drop_left' hsum

theorem checksum_rejects {sum stored : Bytes} (hsize : stored.length ≤ maxPayloadSize)
    (hsum : sum.length = 4) (hne : uint32 sum ≠ (crc32 stored).toNat)
    (hrest : rest.take stored.length = stored)
    (hform : b.drop offset = magic ++ ([kind, checksumVersion, r₀, r₁] ++ (putUint32 rawLen ++
      (putUint32 stored.length ++ (sum ++ rest))))) :
    decodeFrame z b offset kind ≠ .ok (q, next) := by
  intro h
  obtain ⟨-, -, -, hcrc, -⟩ := accepted (length_putUint32 _) (length_putUint32 _) hform h
  have heq := hcrc rfl
  rw [uint32_length hsize, drop_checksum hsum, hrest, ← uint32_take, List.take_left' hsum] at heq
  exact hne heq

theorem reserved_ignored {stored : Bytes}
    (hform : b.drop offset = magic ++ ([kind, checksumVersion, r₀, r₁] ++ (putUint32 rawLen ++
      (putUint32 stored.length ++ (putUint32 (crc32 stored).toNat ++ (stored ++ post))))))
    (pre : Bytes) (hpre : pre.length = offset) :
    decodeFrame z b offset kind =
      decodeFrame z (pre ++ (current kind rawLen stored ++ post)) pre.length kind := by
  have hsame : (pre ++ (current kind rawLen stored ++ post)).drop pre.length =
      magic ++ ([kind, checksumVersion, 0, 0] ++ (putUint32 rawLen ++
        (putUint32 stored.length ++ (putUint32 (crc32 stored).toNat ++ (stored ++ post))))) := by
    rw [List.drop_left]
    simp only [current, List.append_assoc]
  rw [decodeFrame_header (length_putUint32 _) (length_putUint32 _) hform,
    decodeFrame_header (length_putUint32 _) (length_putUint32 _) hsame, hpre]

theorem crc32_toNat_ne {t : Bytes} {a : UInt8} (h : a ≠ c) :
    uint32 (putUint32 (crc32 (s ++ a :: t)).toNat) ≠ (crc32 (s ++ c :: t)).toNat := by
  have hword := uint32_putUint32 (crc32 (s ++ a :: t)).toNat_lt []
  rw [List.append_nil] at hword
  rw [hword]
  exact fun heq => crc32_set_ne h (UInt32.toNat_inj.1 heq)

/-- What is read in place of a statement if its frame is taken for one without a checksum. -/
def misread (sql : Bytes) : Bytes := (putUint32 (crc32 sql).toNat ++ sql).take sql.length

def reread (z : Zlib) (sql : Bytes) (c : UInt8) : Except FormatError Bytes :=
  if c = walVersion then .ok (misread sql)
  else if c = version then inflate z (misread sql) sql.length
  else .error (.unsupportedVersion c)

theorem decodeFrame_reread {sql : Bytes} (hsize : sql.length ≤ maxPayloadSize)
    (hc : c ≠ checksumVersion)
    (hform : b.drop offset = magic ++ ([walKind, c, 0, 0] ++ (putUint32 sql.length ++
      (putUint32 sql.length ++ (putUint32 (crc32 sql).toNat ++ (sql ++ post)))))) :
    decodeFrame z b offset walKind =
      (reread z sql c).map fun q => (q, offset + (headerSize + sql.length)) := by
  have hextra : extra c = 0 := if_neg hc
  have hfits : ¬(putUint32 (crc32 sql).toNat ++ (sql ++ post)).length < sql.length := by
    simp only [List.length_append]
    omega
  have hstored : (putUint32 (crc32 sql).toNat ++ (sql ++ post)).take sql.length = misread sql := by
    rw [misread, ← List.append_assoc, List.take_append_of_le_length]
    rw [List.length_append]
    omega
  have hlen : (misread sql).length = sql.length := by
    rw [misread, List.length_take, List.length_append]
    omega
  have hbound : ¬(maxPayloadSize < sql.length ∨ maxPayloadSize < sql.length) := by omega
  rw [decodeFrame_header (length_putUint32 _) (length_putUint32 _) hform, uint32_length hsize,
    if_neg (not_not.2 rfl)]
  by_cases h₂ : c = walVersion
  · subst h₂
    rw [if_neg (by decide), decodePayload]
    simp only [hextra, Nat.not_lt_zero, ite_false, hbound, Nat.zero_add, hfits, hc, false_and,
      List.drop_zero, hstored, hlen, ne_eq, not_true_eq_false]
    rfl
  by_cases h₁ : c = version
  · subst h₁
    rw [if_neg (by decide), decodePayload, reread, if_neg h₂, if_pos rfl]
    simp only [hextra, Nat.not_lt_zero, ite_false, hbound, Nat.zero_add, hfits, hc, false_and,
      List.drop_zero, hstored]
    cases inflate z (misread sql) sql.length with
    | error e => rfl
    | ok p => rfl
  · have hinvalid : validFrameVersion walKind c = false := by
      unfold validFrameVersion
      rw [if_neg h₁, if_neg h₂, if_neg hc]
    rw [if_pos hinvalid, reread, if_neg h₂, if_neg h₁]
    rfl

theorem Damage.rejected {sql : Bytes} (hd : Damage walKind sql.length sql j c f)
    (hsize : sql.length ≤ maxPayloadSize) (hj : j ≠ 9 ∧ j ≠ 10 ∧ j ≠ 11)
    (hb : b.drop offset = f ++ post) (r : Bytes × Nat) :
      decodeFrame z b offset walKind ≠ .ok r := by
  cases hd with
  | magic hlt hne =>
    intro h
    obtain ⟨v, r₀, r₁, raw, sto, rest, -, -, hform⟩ := header_of_decodeFrame h
    have htake := congrArg (List.take 8) (hb.symm.trans hform)
    rw [List.append_assoc, List.take_left' (by rw [List.length_set, length_magic]),
      List.take_left' length_magic] at htake
    exact set_ne_self (by rwa [length_magic]) hne htake
  | kind _ hne =>
    simp only [List.append_assoc] at hb
    exact fun h => hne (accepted (length_putUint32 _) (length_putUint32 _) hb h).1
  | version h9 _ => exact absurd h9 hj.1
  | reserved r₀ r₁ h => exact absurd h (by omega)
  | rawLen raw _ hlen hne =>
    simp only [List.append_assoc] at hb
    intro h
    have hsame := (accepted hlen (length_putUint32 _) hb h).2.2.2.2
    rw [if_pos ⟨rfl, by decide⟩, uint32_length hsize] at hsame
    exact putUint32_ne hlen hne hsame.2.symm
  | storedLen sto _ hlen hne =>
    simp only [List.append_assoc] at hb
    intro h
    have hsame := (accepted (length_putUint32 _) hlen hb h).2.2.2.2
    rw [if_pos ⟨rfl, by decide⟩, uint32_length hsize] at hsame
    exact putUint32_ne hlen hne hsame.2
  | checksum sum _ hlen hne =>
    simp only [List.append_assoc] at hb
    exact checksum_rejects hsize hlen (putUint32_ne hlen hne) List.take_left hb
  | stored s t a _ hsql hne =>
    have hlen : sql.length = (s ++ c :: t).length := by
      rw [hsql]
      simp
    rw [hlen] at hb hsize
    rw [hsql] at hb
    simp only [List.append_assoc] at hb
    rw [← List.append_assoc s] at hb
    exact checksum_rejects hsize (length_putUint32 _) (crc32_toNat_ne hne) List.take_left hb

end Read

/-! ## Legacy files -/

section Legacy

variable {z : Zlib} {b : Bytes}

def statementLines (b : Bytes) : List Bytes := ((b.splitOn 10).map trimSpace).filter (· ≠ [])

theorem replayLines_eq (n : Nat) (l acc : List Bytes) :
    replayLines recorder n l acc = (none, acc ++ (l.map trimSpace).filter (· ≠ [])) := by
  induction l generalizing n acc with
  | nil => simp [replayLines]
  | cons line l ih =>
    rw [replayLines]
    simp only [List.map_cons]
    by_cases hline : trimSpace line = []
    · rw [if_pos hline, ih, List.filter_cons_of_neg (by simpa using hline)]
    · rw [if_neg hline, List.filter_cons_of_pos (by simpa using hline)]
      refine (ih (n + 1) (acc ++ [trimSpace line])).trans ?_
      rw [List.append_assoc]
      rfl

theorem replayed_legacy (h : b.take 8 ≠ magic) : replayed z b = (none, statementLines b) := by
  rw [replayed, replayWAL, if_neg fun hframes => h hframes.2, replayLines_eq]
  rfl

theorem count_splitOn (hc : c ≠ 10) (b : Bytes) : (b.splitOn 10).flatten.count c = b.count c := by
  unfold List.splitOn
  induction b with
  | nil => rfl
  | cons a b ih =>
    rw [List.splitOnP_cons_eq_if_modifyHead]
    split
    · next ha =>
      have ha' : a ≠ c := fun h => hc (h ▸ by simpa using ha)
      rw [List.flatten_cons, List.nil_append, ih, List.count_cons_of_ne ha']
    · obtain ⟨line, lines, hlines⟩ := List.exists_cons_of_ne_nil
        (List.splitOnP_ne_nil (fun x : UInt8 => x == 10) b)
      rw [hlines] at ih ⊢
      rw [List.modifyHead_cons, List.flatten_cons, List.cons_append, List.count_cons,
        List.count_cons, ← ih, List.flatten_cons]

theorem count_statementLines (b : Bytes) : (statementLines b).flatten.count walKind =
    b.count walKind := by
  have htrim : ∀ l : List Bytes, (l.map trimSpace).flatten.count walKind =
      l.flatten.count walKind := by
    intro l
    induction l with
    | nil => rfl
    | cons line l ih =>
      rw [List.map_cons, List.flatten_cons, List.flatten_cons, List.count_append, List.count_append,
        ih, count_trimSpace (by decide) (by decide)]
  rw [statementLines, List.flatten_filter_ne_nil, htrim, count_splitOn (by decide)]

end Legacy

/-! ## WAL files -/

section Wal

variable {z : Zlib} {l l₁ l₂ : List Bytes} {p : Bytes} {i j : Nat} {c : UInt8}

theorem length_walRecord (p : Bytes) : (walRecord p).length = 24 + p.length := by
  rw [walRecord_eq, length_current]

theorem exists_record (h : i < (l.flatMap walRecord).length) :
    ∃ l₁ p l₂ j, l = l₁ ++ p :: l₂ ∧ i = (l₁.flatMap walRecord).length + j ∧
      j < (walRecord p).length := by
  induction l generalizing i with
  | nil => simp at h
  | cons p l ih =>
    rw [List.flatMap_cons, List.length_append] at h
    by_cases hlt : i < (walRecord p).length
    · exact ⟨[], p, l, i, rfl, by simp, hlt⟩
    · obtain ⟨l₁, q, l₂, j, rfl, hj, hlt'⟩ := ih (i := i - (walRecord p).length) (by omega)
      refine ⟨p :: l₁, q, l₂, j, rfl, ?_, hlt'⟩
      rw [List.flatMap_cons, List.length_append]
      omega

theorem set_flatMap (hj : j < (walRecord p).length) :
    ((l₁ ++ p :: l₂).flatMap walRecord).set ((l₁.flatMap walRecord).length + j) c =
      l₁.flatMap walRecord ++ ((walRecord p).set j c ++ l₂.flatMap walRecord) := by
  rw [List.flatMap_append, List.flatMap_cons, List.set_append_right _ _ (by omega),
    Nat.add_sub_cancel_left, List.set_append_left _ _ hj]

theorem replayed_records (hsize : ∀ q ∈ l₁, q.length ≤ maxPayloadSize) (post : Bytes)
    (hmagic : 8 ≤ (l₁.flatMap walRecord ++ post).length ∧
      (l₁.flatMap walRecord ++ post).take 8 = magic) :
    replayed z (l₁.flatMap walRecord ++ post) =
      replayFrom recorder z (l₁.flatMap walRecord ++ post) (l₁.flatMap walRecord).length
        (1 + l₁.length) l₁ := by
  have hrun := replayed_frames (holds_records (z := z) hsize) post
  rw [flatten_records, statements_records, records, List.length_map] at hrun
  exact hrun hmagic

theorem replayFrom_records (hsize : ∀ q ∈ l₂, q.length ≤ maxPayloadSize) (pre : Bytes) (n : Nat)
    (acc : List Bytes) :
    replayFrom recorder z (pre ++ l₂.flatMap walRecord) pre.length n acc = (none, acc ++ l₂) := by
  have hrun := replayFrom_frames (holds_records (z := z) hsize) pre [] n acc
  rw [List.append_nil, flatten_records, statements_records] at hrun
  rw [hrun, replayFrom_end (by rw [List.length_append])]

theorem decodeFrame_misaligned {b : Bytes} {offset : Nat} (hs : s.length = 4)
    (hb : b.drop offset = s ++ l₂.flatMap walRecord) (r : Bytes × Nat) :
    decodeFrame z b offset walKind ≠ .ok r := by
  intro h
  obtain ⟨v, r₀, r₁, raw, sto, rest, hraw, hsto, hform⟩ := header_of_decodeFrame h
  have hsame := hb.symm.trans hform
  cases l₂ with
  | nil =>
    have hlen := congrArg List.length hsame
    simp only [List.flatMap_nil, List.length_append, hs, List.length_nil, length_magic,
      List.length_cons] at hlen
    omega
  | cons p l =>
    -- the bytes from the fifth to the eighth would be those of the magic from the first on
    have hbytes := congrArg (fun s => (s.drop 4).take 4) hsame
    simp only [List.flatMap_cons, walRecord_eq, current] at hbytes
    rw [List.drop_left' hs, magic_eq] at hbytes
    simp at hbytes

/-- What a replay must not do with a file of statements: call `apply` on anything else, or leave one
out without an error. -/
def Faithful (l : List Bytes) (r : Option (ReplayError Empty) × List Bytes) : Prop :=
  r.2.Sublist l ∧ (r.1 = none → r.2 = l)

/-- The change of byte `i` to `c` does no harm: it does not hit the magic of the first record, and a
record whose version becomes an earlier one is read as a statement that is still to come, or not at
all. -/
def Harmless (z : Zlib) (l : List Bytes) (i : Nat) (c : UInt8) : Prop :=
  8 ≤ i ∧ ∀ l₁ p l₂, l = l₁ ++ p :: l₂ → i = (l₁.flatMap walRecord).length + 9 →
    ∀ q, reread z p c = .ok q → q ∈ p :: l₂

theorem not_ok {α ε : Type} {x : Except ε α} (h : ∀ a, x ≠ .ok a) : ∃ e, x = .error e := by
  cases x with
  | ok a => exact absurd rfl (h a)
  | error e => exact ⟨e, rfl⟩

theorem take_magic (hl : l ≠ []) : (l.flatMap walRecord).take 8 = magic := by
  cases l with
  | nil => exact absurd rfl hl
  | cons p l =>
    rw [List.flatMap_cons, walRecord_eq, current, List.append_assoc]
    exact List.take_left' length_magic

theorem set_magic (hi : 8 ≤ i) (hlt : i < (l.flatMap walRecord).length) :
    8 ≤ ((l.flatMap walRecord).set i c).length ∧ ((l.flatMap walRecord).set i c).take 8 =
      magic := by
  have hl : l ≠ [] := by
    rintro rfl
    simp at hlt
  refine ⟨by rw [List.length_set]; omega, ?_⟩
  rw [List.take_set, take_magic hl, List.set_eq_of_length_le (by rw [length_magic]; exact hi)]

theorem count_flatMap (l : List Bytes) :
    l.length + l.flatten.count walKind ≤ (l.flatMap walRecord).count walKind := by
  induction l with
  | nil => simp
  | cons p l ih =>
    have hone : 1 + p.count walKind ≤ (walRecord p).count walKind := by
      rw [walRecord_eq, current]
      simp only [List.count_append, List.count_cons_self, List.count_cons]
      omega
    rw [List.flatten_cons, List.flatMap_cons, List.count_append, List.count_append,
      List.length_cons]
    omega

theorem not_faithful_magic (hi : i < 8) (hlt : i < (l.flatMap walRecord).length)
    (hc : (l.flatMap walRecord)[i]? ≠ some c) :
    ¬Faithful l (replayed z ((l.flatMap walRecord).set i c)) := by
  have hl : l ≠ [] := by
    rintro rfl
    simp at hlt
  have hmagic : (l.flatMap walRecord).take 8 = magic := take_magic hl
  have hlegacy : ((l.flatMap walRecord).set i c).take 8 ≠ magic := by
    rw [List.take_set, hmagic]
    refine set_ne_self (by rwa [length_magic]) ?_
    rw [← hmagic, List.getElem?_take_of_lt hi]
    exact hc
  rintro ⟨-, hall⟩
  rw [replayed_legacy hlegacy] at hall
  have hsame := congrArg (fun m : List Bytes => m.flatten.count walKind) (hall rfl)
  simp only [count_statementLines] at hsame
  -- the magic has no `W`, so that none is lost by the change
  have hkeep : (l.flatMap walRecord).count walKind ≤
      ((l.flatMap walRecord).set i c).count walKind := by
    have hold := congrArg (List.count walKind) (List.take_append_drop 8 (l.flatMap walRecord))
    have hnew := congrArg (List.count walKind)
      (List.take_append_drop 8 ((l.flatMap walRecord).set i c))
    rw [List.count_append, hmagic, show magic.count walKind = 0 by decide +kernel] at hold
    rw [List.count_append, List.drop_set_of_lt hi] at hnew
    omega
  have hcount := count_flatMap l
  have hpos := List.length_pos_iff.2 hl
  omega

theorem replayed_damaged (hsize : ∀ q ∈ l₁ ++ p :: l₂, q.length ≤ maxPayloadSize)
    (hi : 8 ≤ (l₁.flatMap walRecord).length + j) (hj : j < (walRecord p).length)
    (hc : (walRecord p)[j]? ≠ some c) :
    Faithful (l₁ ++ p :: l₂) (replayed z (((l₁ ++ p :: l₂).flatMap walRecord).set
      ((l₁.flatMap walRecord).length + j) c)) ↔
      (j = 9 → ∀ q, reread z p c = .ok q → q ∈ p :: l₂) := by
  have hbefore : ∀ q ∈ l₁, q.length ≤ maxPayloadSize := fun q hq =>
    hsize q (List.mem_append_left _ hq)
  have hp : p.length ≤ maxPayloadSize := hsize p (by simp)
  have hafter : ∀ q ∈ l₂, q.length ≤ maxPayloadSize := fun q hq => hsize q (by simp [hq])
  have hlt : (l₁.flatMap walRecord).length + j < ((l₁ ++ p :: l₂).flatMap walRecord).length := by
    simp only [List.flatMap_append, List.flatMap_cons, List.length_append]
    omega
  have hmagic := set_magic (c := c) hi hlt
  rw [set_flatMap hj] at hmagic ⊢
  rw [replayed_records hbefore _ hmagic]
  generalize hpre : l₁.flatMap walRecord = pre
  generalize hf : (walRecord p).set j c = f
  have hd : Damage walKind p.length p j c f := by
    rw [walRecord_eq] at hj hc hf
    rw [← hf]
    exact damage_set hj hc
  have hlen : f.length = 24 + p.length := by rw [← hf, List.length_set, length_walRecord]
  have hdrop : (pre ++ (f ++ l₂.flatMap walRecord)).drop pre.length =
      f ++ l₂.flatMap walRecord := List.drop_left
  have hinside : pre.length < (pre ++ (f ++ l₂.flatMap walRecord)).length := by
    simp only [List.length_append]
    omega
  by_cases hrej : j ≠ 9 ∧ j ≠ 10 ∧ j ≠ 11
  · -- the record is rejected
    obtain ⟨e, he⟩ := not_ok (hd.rejected (z := z) hp hrej hdrop)
    rw [replayFrom_error hinside he]
    refine iff_of_true ⟨List.sublist_append_left _ _, fun h => (by cases h)⟩ fun h9 =>
      absurd h9 hrej.1
  by_cases h9 : j = 9
  · -- the record is read in another way, and then the reader is out of step
    have hform : (pre ++ (f ++ l₂.flatMap walRecord)).drop pre.length =
        magic ++ ([walKind, c, 0, 0] ++ (putUint32 p.length ++ (putUint32 p.length ++
          (putUint32 (crc32 p).toNat ++ (p ++ l₂.flatMap walRecord))))) := by
      rw [hdrop, hd.version_form h9]
      simp only [List.append_assoc]
    have hcv : c ≠ checksumVersion := by
      rintro rfl
      rw [h9, walRecord_eq, current, magic_eq] at hc
      exact hc rfl
    have hdec := decodeFrame_reread (z := z) hp hcv hform
    cases hre : reread z p c with
    | error e =>
      rw [hre] at hdec
      rw [replayFrom_error hinside hdec]
      exact iff_of_true ⟨List.sublist_append_left _ _, fun h => (by cases h)⟩
        fun _ q hq => (by cases hq)
    | ok q =>
      rw [hre] at hdec
      rw [replayFrom_record hdec]
      have hout : (pre ++ (f ++ l₂.flatMap walRecord)).drop (pre.length + (headerSize + p.length)) =
          (putUint32 (crc32 p).toNat ++ p).drop p.length ++ l₂.flatMap walRecord := by
        rw [← List.drop_drop, ← List.drop_drop, hform]
        simp only [headerSize]
        rw [← List.append_assoc (putUint32 (crc32 p).toNat), ← List.drop_append_of_le_length
          (by rw [List.length_append]; omega), magic_eq]
        rfl
      have hfour : ((putUint32 (crc32 p).toNat ++ p).drop p.length).length = 4 := by
        rw [List.length_drop, List.length_append, length_putUint32]
        omega
      obtain ⟨e, he⟩ := not_ok (decodeFrame_misaligned (z := z) hfour hout)
      have hinside' : pre.length + (headerSize + p.length) <
          (pre ++ (f ++ l₂.flatMap walRecord)).length := by
        simp only [List.length_append, headerSize]
        omega
      simp only
      rw [replayFrom_error hinside' he]
      constructor
      · rintro ⟨hsub, -⟩ - q' hq'
        obtain rfl := Except.ok.inj hq'
        exact List.singleton_sublist.1 ((List.append_sublist_append_left l₁).1 hsub)
      · intro h
        exact ⟨(List.append_sublist_append_left l₁).2 (List.singleton_sublist.2 (h h9 q rfl)),
          fun h => (by cases h)⟩
  · -- the byte is reserved, and the record is read as before
    obtain ⟨r₀, r₁, hform⟩ := hd.reserved_form (by omega)
    have hfile : (pre ++ (f ++ l₂.flatMap walRecord)).drop pre.length =
        magic ++ ([walKind, checksumVersion, r₀, r₁] ++
          (putUint32 p.length ++ (putUint32 p.length ++
          (putUint32 (crc32 p).toNat ++ (p ++ l₂.flatMap walRecord))))) := by
      rw [hdrop, hform]
      simp only [List.append_assoc]
    have hdec := reserved_ignored (z := z) hfile pre rfl
    rw [← walRecord_eq, holds_walRecord hp pre, length_walRecord, ← hlen] at hdec
    rw [replayFrom_record hdec]
    have hrun := replayFrom_records (z := z) hafter (pre ++ f) (1 + l₁.length + 1) (l₁ ++ [p])
    rw [List.append_assoc, List.length_append, List.append_assoc] at hrun
    simp only
    rw [hrun]
    exact iff_of_true ⟨List.Sublist.refl _, fun _ => rfl⟩ fun h => absurd h h9

/-- **When a changed byte of a WAL does no harm.** -/
theorem wal_damage_iff {batches : List (List Bytes)} {file : Bytes}
    (hfile : appendAll batches [] = .ok file) (hi : i < file.length) (hc : file[i]? ≠ some c) :
    Faithful batches.flatten (replayed z (file.set i c)) ↔ Harmless z batches.flatten i c := by
  obtain ⟨hsize, rfl⟩ := appendAll_eq_ok.1 hfile
  rw [List.nil_append] at hi hc ⊢
  by_cases hfirst : i < 8
  · exact iff_of_false (not_faithful_magic hfirst hi hc) fun h => absurd h.1 (Nat.not_le.2 hfirst)
  have hat : ∀ {l₁ p l₂ j}, batches.flatten = l₁ ++ p :: l₂ →
      i = (l₁.flatMap walRecord).length + j → j < (walRecord p).length →
      (Faithful batches.flatten (replayed z ((batches.flatten.flatMap walRecord).set i c)) ↔
        (j = 9 → ∀ q, reread z p c = .ok q → q ∈ p :: l₂)) := by
    intro l₁ p l₂ j hl hij hj
    rw [hl] at hsize hc ⊢
    rw [hij] at hc hfirst ⊢
    refine replayed_damaged hsize (by omega) hj ?_
    rwa [List.flatMap_append, List.flatMap_cons, List.getElem?_append_right (by omega),
      Nat.add_sub_cancel_left, List.getElem?_append_left hj] at hc
  constructor
  · intro h
    refine ⟨by omega, fun l₁ p l₂ hl hij => ?_⟩
    exact (hat hl hij (by rw [length_walRecord]; omega)).1 h rfl
  · rintro ⟨-, h⟩
    obtain ⟨l₁, p, l₂, j, hl, hij, hj⟩ := exists_record hi
    refine (hat hl hij hj).2 fun h9 => h l₁ p l₂ hl ?_
    rw [hij, h9]

/-- A changed first byte makes lines of SQL out of a file, and a record that is taken for one of
version 2 is read together with its checksum. -/
theorem wal_damage_invented :
    ∃ file, appendAll [[str "DROP TABLE t"]] [] = .ok file ∧
      (replayed .stored (file.set 0 (ch 'X'))).1 = none ∧
      (replayed .stored (file.set 0 (ch 'X'))).2 ≠ [str "DROP TABLE t"] ∧
      (replayed .stored (file.set 9 walVersion)).2 = [misread (str "DROP TABLE t")] ∧
      misread (str "DROP TABLE t") ≠ str "DROP TABLE t" := by
  refine ⟨_, appendAll_eq_ok.2 ⟨by decide +kernel, rfl⟩, ?_⟩
  decide +kernel

/-- A changed checksum and a changed reserved byte do no harm. -/
theorem wal_damage_noticed :
    ∃ file, appendAll [[str "A"], [str "B"]] [] = .ok file ∧
      Faithful [str "A", str "B"] (replayed .stored (file.set 45 0)) ∧
      Faithful [str "A", str "B"] (replayed .stored (file.set 10 7)) := by
  have hfile : appendAll [[str "A"], [str "B"]] [] =
      .ok ([] ++ [[str "A"], [str "B"]].flatten.flatMap walRecord) :=
    appendAll_eq_ok.2 ⟨by decide +kernel, rfl⟩
  have hother : ∀ i c, 8 ≤ i → i ≠ 9 → i ≠ 34 → Harmless .stored [str "A", str "B"] i c := by
    intro i c hi h9 h34
    refine ⟨hi, fun l₁ p l₂ hl hij => ?_⟩
    match l₁, hl with
    | [], _ => exact absurd hij (by simpa using h9)
    | [_], hl =>
      simp only [List.cons_append, List.cons.injEq] at hl
      have hlen : (str "A").length = 1 := congrArg List.length (str_ofList _)
      rw [← hl.1, List.flatMap_cons, List.flatMap_nil, List.append_nil, length_walRecord,
        hlen] at hij
      omega
    | _ :: _ :: _, hl => simp at hl
  exact ⟨_, hfile,
    (wal_damage_iff hfile (by decide +kernel) (by decide +kernel)).2
      (hother 45 0 (by decide) (by decide) (by decide)),
    (wal_damage_iff hfile (by decide +kernel) (by decide +kernel)).2
      (hother 10 7 (by decide) (by decide) (by decide))⟩

end Wal

/-! ## Torn WAL files -/

section Torn

variable {z : Zlib} {l l₁ l₂ : List Bytes} {p : Bytes} {n m : Nat}

/-- The statements whose frames lie within the first `n` bytes. -/
def complete : Nat → List Bytes → List Bytes
  | _, [] => []
  | n, p :: l =>
    if (walRecord p).length ≤ n then p :: complete (n - (walRecord p).length) l else []

/-- The length `n` is the end of a frame, or 0. -/
def Boundary (l : List Bytes) (n : Nat) : Prop := ∃ k, n = ((l.take k).flatMap walRecord).length

theorem exists_cut (h : n ≤ (l.flatMap walRecord).length) :
    ∃ l₁ l₂ m, l = l₁ ++ l₂ ∧ n = (l₁.flatMap walRecord).length + m ∧ complete n l = l₁ ∧
      (m = 0 ∨ ∃ p l₃, l₂ = p :: l₃ ∧ m < (walRecord p).length) := by
  induction l generalizing n with
  | nil => exact ⟨[], [], 0, rfl, by simpa using h, rfl, Or.inl rfl⟩
  | cons p l ih =>
    rw [List.flatMap_cons, List.length_append] at h
    by_cases hle : (walRecord p).length ≤ n
    · obtain ⟨l₁, l₂, m, rfl, hn, hcomplete, hm⟩ := ih (n := n - (walRecord p).length) (by omega)
      have hlen : n = (walRecord p).length + ((l₁.flatMap walRecord).length + m) := by
        rw [← hn]
        exact (Nat.add_sub_of_le hle).symm
      refine ⟨p :: l₁, l₂, m, rfl, ?_, by rw [complete, if_pos hle, hcomplete], hm⟩
      rw [List.flatMap_cons, List.length_append, Nat.add_assoc, ← hlen]
    · refine ⟨[], p :: l, n, rfl, by simp, by rw [complete, if_neg hle], Or.inr ⟨p, l, rfl, ?_⟩⟩
      omega

theorem not_boundary (hm : 0 < m) (hlt : m < (walRecord p).length) :
    ¬Boundary (l₁ ++ p :: l₂) ((l₁.flatMap walRecord).length + m) := by
  rintro ⟨k, hk⟩
  by_cases hle : k ≤ l₁.length
  · have hsub : ((l₁.take k).flatMap walRecord).length ≤ (l₁.flatMap walRecord).length :=
      ((List.take_sublist k l₁).flatMap walRecord).length_le
    rw [List.take_append_of_le_length hle] at hk
    omega
  · obtain ⟨d, rfl⟩ : ∃ d, k = l₁.length + (d + 1) := ⟨k - l₁.length - 1, by omega⟩
    rw [List.take_length_add_append, List.take_succ_cons, List.flatMap_append, List.flatMap_cons,
      List.length_append, List.length_append] at hk
    omega

theorem decodeFrame_torn (hp : p.length ≤ maxPayloadSize) (hlt : m < (walRecord p).length)
    (pre : Bytes) (r : Bytes × Nat) :
    decodeFrame z (pre ++ (walRecord p).take m) pre.length walKind ≠ .ok r := by
  intro h
  have hdrop : (pre ++ (walRecord p).take m).drop pre.length = (walRecord p).take m :=
    List.drop_left
  by_cases hshort : m < 20
  · rw [decodeFrame_short (by
      rw [hdrop, List.length_take, headerSize]
      omega)] at h
    cases h
  · obtain ⟨d, rfl⟩ : ∃ d, m = 8 + (4 + (4 + (4 + d))) := ⟨m - 20, by omega⟩
    have hform : (pre ++ (walRecord p).take (8 + (4 + (4 + (4 + d))))).drop pre.length =
        magic ++ ([walKind, checksumVersion, 0, 0] ++ (putUint32 p.length ++ (putUint32 p.length ++
          (putUint32 (crc32 p).toNat ++ p).take d))) := by
      rw [hdrop, walRecord_eq, current, take_add_append length_magic,
        take_add_append (show [walKind, checksumVersion, 0, 0].length = 4 from rfl),
        take_add_append (length_putUint32 _), take_add_append (length_putUint32 _)]
    obtain ⟨-, -, -, hpay⟩ :=
      (decodeFrame_eq_ok (length_putUint32 _) (length_putUint32 _) hform).1 h
    obtain ⟨-, hfits, -⟩ := decodePayload_eq_ok.1 hpay
    rw [uint32_length hp, List.length_take, show extra checksumVersion = 4 from rfl] at hfits
    rw [length_walRecord] at hlt
    omega

theorem replayed_torn (hsize : ∀ q ∈ l, q.length ≤ maxPayloadSize)
    (hn : n ≤ (l.flatMap walRecord).length) (hmagic : 8 ≤ n) :
    (replayed z ((l.flatMap walRecord).take n)).2 = complete n l ∧
      ((replayed z ((l.flatMap walRecord).take n)).1 ≠ none ↔ ¬Boundary l n) := by
  have hstart : 8 ≤ ((l.flatMap walRecord).take n).length ∧
      ((l.flatMap walRecord).take n).take 8 = magic := by
    refine ⟨by rw [List.length_take]; omega, ?_⟩
    rw [List.take_take, Nat.min_eq_left hmagic]
    apply take_magic
    rintro rfl
    simp at hn
    omega
  obtain ⟨l₁, l₂, m, rfl, rfl, hcomplete, hm⟩ := exists_cut hn
  have hbefore : ∀ q ∈ l₁, q.length ≤ maxPayloadSize := fun q hq =>
    hsize q (List.mem_append_left _ hq)
  rw [List.flatMap_append, take_add_append rfl] at hstart ⊢
  rw [replayed_records hbefore _ hstart, hcomplete]
  rcases Nat.eq_zero_or_pos m with rfl | hpos
  · rw [List.take_zero, List.append_nil, replayFrom_end (Nat.le_refl _)]
    refine ⟨rfl, iff_of_false (fun h => h rfl) fun h => h ⟨l₁.length, ?_⟩⟩
    rw [List.take_left, Nat.add_zero]
  · obtain ⟨p, l₃, rfl, hlt⟩ := hm.resolve_left (by omega)
    rw [List.flatMap_cons, List.take_append_of_le_length (Nat.le_of_lt hlt)]
    obtain ⟨e, he⟩ := not_ok (decodeFrame_torn (z := z) (hsize p (by simp)) hlt
      (l₁.flatMap walRecord))
    rw [replayFrom_error (by rw [List.length_append, List.length_take]; omega) he]
    exact ⟨rfl, iff_of_true (fun h => (by cases h)) (not_boundary hpos hlt)⟩

/-- **When a torn WAL replays its complete records.** -/
theorem wal_torn_iff {batches : List (List Bytes)} {file : Bytes}
    (hfile : appendAll batches [] = .ok file) (hn : n ≤ file.length) :
    ((replayed z (file.take n)).2 = complete n batches.flatten ∧
      ((replayed z (file.take n)).1 ≠ none ↔ ¬Boundary batches.flatten n)) ↔ n = 0 ∨ 8 ≤ n := by
  obtain ⟨hsize, rfl⟩ := appendAll_eq_ok.1 hfile
  rw [List.nil_append] at hn ⊢
  rcases Nat.eq_zero_or_pos n with rfl | hpos
  · rw [List.take_zero, replayed_nil]
    refine iff_of_true ⟨?_, iff_of_false (fun h => h rfl) fun h => h ⟨0, rfl⟩⟩ (Or.inl rfl)
    cases batches.flatten with
    | nil => rfl
    | cons p l => rw [complete, if_neg (by rw [length_walRecord]; omega)]
  by_cases hmagic : 8 ≤ n
  · exact iff_of_true (replayed_torn hsize hn hmagic) (Or.inr hmagic)
  -- a part of the magic is a line of SQL
  have hshort : ((batches.flatten.flatMap walRecord).take n).take 8 ≠ magic := by
    intro h
    have hlen := congrArg List.length h
    rw [length_magic, List.length_take, List.length_take] at hlen
    omega
  rw [replayed_legacy hshort]
  refine iff_of_false (fun h => h.2.2 (fun hb => ?_) rfl) (by omega)
  obtain ⟨k, hk⟩ := hb
  cases hl : batches.flatten.take k with
  | nil =>
    rw [hl] at hk
    simp at hk
    omega
  | cons p l =>
    rw [hl, List.flatMap_cons, List.length_append, length_walRecord] at hk
    omega

/-- Four bytes of the magic are executed as a statement. -/
theorem wal_torn_magic :
    ∃ file, appendAll [[str "DROP TABLE t"]] [] = .ok file ∧
      replayed .stored (file.take 4) = (none, [str "SUPE"]) ∧
      complete 4 [str "DROP TABLE t"] = [] := by
  refine ⟨_, appendAll_eq_ok.2 ⟨by decide +kernel, rfl⟩, ?_⟩
  decide +kernel

/-- A cut within the payload of the second record. -/
theorem wal_torn_payload :
    ∃ file, appendAll [[str "AB"], [str "CD"]] [] = .ok file ∧
      (replayed .stored (file.take 51)).2 = [str "AB"] ∧
      (replayed .stored (file.take 51)).1 ≠ none := by
  have hfile : appendAll [[str "AB"], [str "CD"]] [] =
      .ok ([] ++ [[str "AB"], [str "CD"]].flatten.flatMap walRecord) :=
    appendAll_eq_ok.2 ⟨by decide +kernel, rfl⟩
  obtain ⟨hcalls, herror⟩ := (wal_torn_iff (z := .stored) (n := 51) hfile (by decide +kernel)).2
    (Or.inr (by decide))
  have hcut : 51 = ([str "AB"].flatMap walRecord).length + 25 := by decide +kernel
  refine ⟨_, hfile, hcalls.trans (by decide +kernel), herror.2 ?_⟩
  rw [hcut]
  have hcd : 25 < (walRecord (str "CD")).length := by decide +kernel
  have hboundary :
      ¬Boundary ([str "AB"] ++ str "CD" :: []) (([str "AB"].flatMap walRecord).length + 25) :=
    not_boundary (by decide) hcd
  exact hboundary

end Torn

end SuperDB.Storage
