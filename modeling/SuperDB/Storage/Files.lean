import SuperDB.Go.Json
import SuperDB.Storage.Format

/-!
# WAL and snapshot files

The WAL is a sequence of frames, one for each statement, to which batches are appended; a file that
does not start with a frame is read as lines of SQL, as earlier versions wrote it. A snapshot is one
frame; a file that does not start with one is read as plain JSON.
-/

namespace SuperDB.Storage

open Go

/-! ## The WAL -/

/-- The frame that the writer makes by hand for a statement. -/
def walRecord (sql : Bytes) : Bytes :=
  magic ++ [walKind, checksumVersion, 0, 0] ++ putUint32 sql.length ++ putUint32 sql.length ++
    putUint32 (crc32 sql).toNat ++ sql

/-- `WALWriter.Append` on a disk that takes the write. -/
def append (sqls : List Bytes) (file : Bytes) : Except Bytes Bytes :=
  if sqls.any fun sql => maxPayloadSize < sql.length then
    .error (str "payload exceeds SUPERDB size limit")
  else .ok (file ++ sqls.flatMap walRecord)

def appendAll (batches : List (List Bytes)) (file : Bytes) : Except Bytes Bytes :=
  batches.foldlM (fun file sqls => append sqls file) file

/-- The errors of `ReplayWAL`, with the number of the record or line; the last two are those of
`apply`. -/
inductive ReplayError (ε : Type) where
  | record (n : Nat) (e : FormatError)
  | applyRecord (n : Nat) (e : ε)
  | applyLine (n : Nat) (e : ε)
  deriving DecidableEq

section Replay

variable {σ ε : Type} (apply : σ → Bytes → Option ε × σ)

/-- The loop of `ReplayWAL` over frames. -/
def replayFrames (z : Zlib) (b : Bytes) : Nat → Nat → Nat → σ → Option (ReplayError ε) × σ
  | 0, _, _, s => (none, s)
  | fuel + 1, offset, record, s =>
    if b.length ≤ offset then (none, s)
    else
      match decodeFrame z b offset walKind with
      | .error e => (some (.record record e), s)
      | .ok (payload, next) =>
        match apply s payload with
        | (some e, s') => (some (.applyRecord record e), s')
        | (none, s') => replayFrames z b fuel next (record + 1) s'

/-- The loop of `ReplayWAL` over the lines of a legacy file. -/
def replayLines : Nat → List Bytes → σ → Option (ReplayError ε) × σ
  | _, [], s => (none, s)
  | n, line :: l, s =>
    let line := trimSpace line
    if line = [] then replayLines (n + 1) l s
    else
      match apply s line with
      | (some e, s') => (some (.applyLine n e), s')
      | (none, s') => replayLines (n + 1) l s'

/-- `ReplayWAL`; no file holds no statements. -/
def replayWAL (z : Zlib) (file : Option Bytes) (s : σ) : Option (ReplayError ε) × σ :=
  match file with
  | none => (none, s)
  | some b =>
    if 8 ≤ b.length ∧ b.take 8 = magic then replayFrames apply z b b.length 0 1 s
    else replayLines apply 1 (b.splitOn 10) s

end Replay

/-- The statements on which `ReplayWAL` calls `apply`, in order, if none of them fails, and how it
returns. -/
def replayed (z : Zlib) (b : Bytes) : Option (ReplayError Empty) × List Bytes :=
  replayWAL (fun l sql => (none, l ++ [sql])) z (some b) []

/-! ## Snapshots -/

/-- The errors of `ReadSnapshot`; the last two are those of `json.Unmarshal`. -/
inductive SnapshotError where
  | decode (e : FormatError)
  | trailingData
  | notJSON
  | parse (e : Bytes)
  deriving DecidableEq

section Snapshot

variable {α : Type}

/-- `WriteSnapshot`: the content of the file. -/
def writeSnapshot (z : Zlib) (marshal : α → Except Bytes Bytes) (value : α) : Except Bytes Bytes :=
  match marshal value with
  | .error e => .error (str "marshal snapshot: " ++ e)
  | .ok payload =>
    match encode z snapshotKind payload with
    | .error e => .error (str "encode snapshot: " ++ e)
    | .ok encoded => .ok encoded

/-- The text that `ReadSnapshot` hands to the JSON decoder. -/
def snapshotText (z : Zlib) (b : Bytes) : Except SnapshotError Bytes :=
  if 8 ≤ b.length ∧ b.take 8 = magic then
    match decodeFrame z b 0 snapshotKind with
    | .error e => .error (.decode e)
    | .ok (payload, next) => if next ≠ b.length then .error .trailingData else .ok payload
  else .ok b

/-- `json.Unmarshal`, which decodes valid JSON only. -/
def unmarshal (decode : Bytes → Except Bytes α) (text : Bytes) : Except SnapshotError α :=
  if jsonValid text = false then .error .notJSON
  else
    match decode text with
    | .error e => .error (.parse e)
    | .ok value => .ok value

/-- `ReadSnapshot`; there is no value without a file. -/
def readSnapshot (z : Zlib) (decode : Bytes → Except Bytes α) (file : Option Bytes) :
    Except SnapshotError (Option α) :=
  match file with
  | none => .ok none
  | some b =>
    match snapshotText z b with
    | .error e => .error e
    | .ok text => (unmarshal decode text).map some

end Snapshot

end SuperDB.Storage
