import SuperDB.Go.Binary
import SuperDB.Go.Strconv

/-!
# The container format

Snapshots and WAL records are stored in frames: a header with the kind of the record, the version of
the format and the lengths of the payload before and after compression, followed by what is stored.
Version 1 is compressed, version 2 holds WAL records as they are, and version 3 adds a checksum of
what is stored to the header.
-/

namespace SuperDB.Storage

open Go

def magic : Bytes := str "SUPERDB1"

def version : UInt8 := 1

def walVersion : UInt8 := 2

def checksumVersion : UInt8 := 3

def snapshotKind : UInt8 := ch 'S'

def walKind : UInt8 := ch 'W'

def headerSize : Nat := 20

def checksumSize : Nat := 4

def maxPayloadSize : Nat := 256 * 2 ^ 20

/-! ## Compression -/

/-- `compress/zlib`: the writer, and what reading a stream up to a limit does. Opening, reading and
closing can fail; none of them does on what the writer has made, which gives back what was
compressed. -/
structure Zlib where
  compress : Bytes → Bytes
  newReader : Bytes → Option Bytes
  readAll : Bytes → Nat → Bytes × Option Bytes
  close : Bytes → Nat → Option Bytes
  newReader_compress : ∀ p, newReader (compress p) = none
  readAll_compress : ∀ p n, readAll (compress p) n = (p.take n, none)
  close_compress : ∀ p n, close (compress p) n = none

/-- `adler32.Checksum`. -/
def adler32 (p : Bytes) : Nat :=
  let (a, b) := p.foldl (fun (a, b) c => ((a + c.toNat) % 65521, (b + a + c.toNat) % 65521)) (1, 0)
  b * 2 ^ 16 + a

/-- A zlib stream of stored blocks, each with one byte, the last with none. -/
def storedStream (p : Bytes) : Bytes :=
  [0x78, 0x01] ++ (p.flatMap fun b => [0, 1, 0, 0xFE, 0xFF, b]) ++ [1, 0, 0, 0xFF, 0xFF] ++
    putUint32 (adler32 p)

def storedContent : Bytes → Bytes
  | _ :: _ :: _ :: _ :: _ :: b :: s => b :: storedContent s
  | _ => []

/-- What a stream of stored blocks holds. -/
def readStored (s : Bytes) : Option Bytes :=
  let p := storedContent ((s.drop 2).take (s.length - 11))
  if storedStream p = s then some p else none

theorem readStored_storedStream (p : Bytes) : readStored (storedStream p) = some p := by
  have hcontent : storedContent (p.flatMap fun b => [0, 1, 0, 0xFE, 0xFF, b]) = p := by
    induction p with
    | nil => rfl
    | cons b p ih => exact congrArg (b :: ·) ih
  have hblocks : ((storedStream p).drop 2).take ((storedStream p).length - 11) =
      p.flatMap fun b => [0, 1, 0, 0xFE, 0xFF, b] := by
    simp [storedStream]
  rw [readStored, hblocks, hcontent, if_pos rfl]

/-- A writer that compresses nothing, and its reader. -/
def Zlib.stored : Zlib where
  compress := storedStream
  newReader s := if s.take 2 = [0x78, 0x01] then none else some (str "zlib: invalid header")
  readAll s n :=
    match readStored s with
    | some p => (p.take n, none)
    | none => ([], some (str "flate: corrupt input"))
  close _ _ := none
  newReader_compress _ := rfl
  readAll_compress p _ := by simp only [readStored_storedStream]
  close_compress _ _ := rfl

/-! ## Errors -/

/-- The errors of `decodeFrame`; those of the compressed stream with their text. -/
inductive FormatError where
  | truncatedHeader
  | invalidMagic
  | unexpectedKind (kind : UInt8)
  | unsupportedVersion (frameVersion : UInt8)
  | truncatedChecksumHeader
  | sizeLimit
  | truncatedPayload
  | checksumMismatch
  | lengthMismatch (got want : Nat)
  | openCompressed (e : Bytes)
  | readCompressed (e : Bytes)
  | closeCompressed (e : Bytes)
  deriving DecidableEq

def hexByte (b : UInt8) : Bytes :=
  let digit (n : Nat) : UInt8 := UInt8.ofNat (if n < 10 then 48 + n else 87 + n)
  [digit (b.toNat / 16), digit (b.toNat % 16)]

/-- The verb `%q` for a byte, which reads it as a rune. -/
def quoteByte (b : UInt8) : Bytes :=
  let body : Bytes :=
    if b = 7 then str "\\a" else if b = 8 then str "\\b" else if b = 12 then str "\\f"
    else if b = 10 then str "\\n" else if b = 13 then str "\\r" else if b = 9 then str "\\t"
    else if b = 11 then str "\\v" else if b = quote ∨ b = ch '\\' then [ch '\\', b]
    else if b < 32 ∨ b = 127 then str "\\x" ++ hexByte b
    else if b < 127 then [b]
    else if b ≤ 0xA0 ∨ b = 0xAD then str "\\u00" ++ hexByte b
    else encodeRune b.toNat
  [quote] ++ body ++ [quote]

def FormatError.text : FormatError → Bytes
  | .truncatedHeader => str "truncated SUPERDB header"
  | .invalidMagic => str "invalid SUPERDB magic"
  | .unexpectedKind kind => str "unexpected SUPERDB record kind " ++ quoteByte kind
  | .unsupportedVersion v => str "unsupported SUPERDB version " ++ decimal v.toNat
  | .truncatedChecksumHeader => str "truncated SUPERDB checksum header"
  | .sizeLimit => str "SUPERDB payload exceeds size limit"
  | .truncatedPayload => str "truncated SUPERDB payload"
  | .checksumMismatch => str "SUPERDB checksum mismatch"
  | .lengthMismatch got want =>
    str "payload length mismatch: got " ++ decimal got ++ str ", want " ++ decimal want
  | .openCompressed e => str "open compressed payload: " ++ e
  | .readCompressed e => str "read compressed payload: " ++ e
  | .closeCompressed e => str "close compressed payload: " ++ e

/-! ## Frames -/

def validFrameVersion (kind frameVersion : UInt8) : Bool :=
  if frameVersion = version then true
  else if frameVersion = walVersion then kind = walKind
  else if frameVersion = checksumVersion then true
  else false

def frame (kind frameVersion : UInt8) (rawLen : Nat) (encoded : Bytes) : Bytes :=
  magic ++ [kind, frameVersion, 0, 0] ++ putUint32 rawLen ++ putUint32 encoded.length ++
    (if frameVersion = checksumVersion then putUint32 (crc32 encoded).toNat else []) ++ encoded

def storedBytes (z : Zlib) (compress : Bool) (payload : Bytes) : Bytes :=
  if compress then z.compress payload else payload

def encodeFrame (z : Zlib) (kind frameVersion : UInt8) (payload : Bytes) (compress : Bool) :
    Except Bytes Bytes :=
  if kind = snapshotKind ∧ frameVersion = walVersion then .error (str "invalid snapshot version")
  else if kind = snapshotKind ∧ compress = false then
    .error (str "snapshot frames must be compressed")
  else if kind = walKind ∧ frameVersion = version ∧ compress = false then
    .error (str "v1 WAL frames must be compressed")
  else if kind = walKind ∧ walVersion ≤ frameVersion ∧ compress = true then
    .error (str "v2/v3 WAL frames must be raw")
  else if maxPayloadSize < payload.length then .error (str "payload exceeds SUPERDB size limit")
  else
    let encoded := storedBytes z compress payload
    if maxPayloadSize < encoded.length then
      .error (str "compressed payload exceeds SUPERDB size limit")
    else .ok (frame kind frameVersion payload.length encoded)

/-- `encode`: the current version of the format. -/
def encode (z : Zlib) (kind : UInt8) (payload : Bytes) : Except Bytes Bytes :=
  encodeFrame z kind checksumVersion payload (kind ≠ walKind)

/-- The payload of a compressed frame; one byte more than announced is read. -/
def inflate (z : Zlib) (stored : Bytes) (rawLen : Nat) : Except FormatError Bytes :=
  match z.newReader stored with
  | some e => .error (.openCompressed e)
  | none =>
    match (z.readAll stored (rawLen + 1)).2 with
    | some e => .error (.readCompressed e)
    | none =>
      match z.close stored (rawLen + 1) with
      | some e => .error (.closeCompressed e)
      | none =>
        let payload := (z.readAll stored (rawLen + 1)).1
        if payload.length ≠ rawLen then .error (.lengthMismatch payload.length rawLen)
        else .ok payload

/-- The bytes that a version puts between the common header and what is stored. -/
def extra (frameVersion : UInt8) : Nat :=
  if frameVersion = checksumVersion then checksumSize else 0

/-- The part of `decodeFrame` behind the common header: the payload and the number of bytes of
`rest` that belong to the frame. -/
def decodePayload (z : Zlib) (expectedKind frameVersion : UInt8) (rawLen storedLen : Nat)
    (rest : Bytes) : Except FormatError (Bytes × Nat) :=
  let size := extra frameVersion
  if rest.length < size then .error .truncatedChecksumHeader
  else if maxPayloadSize < rawLen ∨ maxPayloadSize < storedLen then .error .sizeLimit
  else if rest.length < size + storedLen then .error .truncatedPayload
  else
    let stored := (rest.drop size).take storedLen
    if frameVersion = checksumVersion ∧ uint32 rest ≠ (crc32 stored).toNat then
      .error .checksumMismatch
    else if expectedKind = walKind ∧ walVersion ≤ frameVersion then
      if stored.length ≠ rawLen then .error (.lengthMismatch stored.length rawLen)
      else .ok (stored, size + storedLen)
    else (inflate z stored rawLen).map fun payload => (payload, size + storedLen)

/-- `decodeFrame`: the payload of the frame at an offset, and the offset behind it. -/
def decodeFrame (z : Zlib) (b : Bytes) (offset : Nat) (expectedKind : UInt8) :
    Except FormatError (Bytes × Nat) :=
  let h := b.drop offset
  if h.length < headerSize then .error .truncatedHeader
  else if h.take 8 ≠ magic then .error .invalidMagic
  else if h.getD 8 0 ≠ expectedKind then .error (.unexpectedKind (h.getD 8 0))
  else if validFrameVersion expectedKind (h.getD 9 0) = false then
    .error (.unsupportedVersion (h.getD 9 0))
  else
    (decodePayload z expectedKind (h.getD 9 0) (uint32 (h.drop 12)) (uint32 (h.drop 16))
      (h.drop headerSize)).map fun p => (p.1, offset + (headerSize + p.2))

end SuperDB.Storage
