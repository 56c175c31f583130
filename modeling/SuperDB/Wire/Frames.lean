import SuperDB.Go.Binary
import SuperDB.Go.Strconv

/-!
# The frames of the hosted protocol

Every message is a frame: a header of twenty bytes with a magic, a version, the type of the message,
flags, the number of the request and the length of the payload, and the payload. There are two
writers, which put the header together each on its own, and one reader.
-/

namespace SuperDB.Wire

open Go

def magic : Bytes := str "SDB1"

def version : Nat := 1

def headerLen : Nat := 20

def maxFrameSize : Nat := 16 * 2 ^ 20

structure Header where
  version : Nat
  type : UInt8
  flags : UInt8
  requestID : UInt64
  length : Nat
  deriving DecidableEq

/-- The errors of the reader; the first two are those of `io.ReadFull`. -/
inductive ReadError where
  | eof
  | unexpectedEOF
  | badMagic
  | version (v : Nat)
  | unsupportedFlags
  | tooLarge (length : Nat)
  deriving DecidableEq

/-! ## Writers -/

def encodeFrame (msgType : UInt8) (requestID : UInt64) (payload : Bytes) : Bytes :=
  magic ++ (putUint16 version ++ [msgType] ++ [0] ++ putUint64 requestID.toNat ++
    putUint32 payload.length) ++ payload

/-- `fmt.Errorf` of a payload that is too large. -/
def tooLarge (payload : Bytes) : Bytes := str "payload too large: " ++ decimal payload.length

/-- `WriteFrame`: the bytes that are written. -/
def writeFrame (msgType : UInt8) (requestID : UInt64) (payload : Bytes) : Except Bytes Bytes :=
  if maxFrameSize < payload.length then .error (tooLarge payload)
  else .ok (encodeFrame msgType requestID payload)

/-- The header that `WriteFrameRaw` fills in place, byte range by byte range. -/
def rawHeader (msgType : UInt8) (requestID : UInt64) (length : Nat) : Bytes :=
  magic ++ putUint16 version ++ [msgType, 0] ++ putUint64 requestID.toNat ++ putUint32 length

/-- `WriteFrameRaw`: the header and the payload, in two writes. -/
def writeFrameRaw (msgType : UInt8) (requestID : UInt64) (payload : Bytes) : Except Bytes Bytes :=
  if maxFrameSize < payload.length then .error (tooLarge payload)
  else .ok (rawHeader msgType requestID payload.length ++ payload)

/-! ## The reader -/

/-- `io.ReadFull` of `n` bytes; what is left of the input comes with them. -/
def readFull (n : Nat) (s : Bytes) : Except ReadError (Bytes × Bytes) :=
  if n ≤ s.length then .ok (s.take n, s.drop n)
  else if s = [] then .error .eof
  else .error .unexpectedEOF

/-- `ReadHeader`. -/
def readHeader (s : Bytes) : Except ReadError (Header × Bytes) :=
  match readFull headerLen s with
  | .error e => .error e
  | .ok (h, rest) =>
    if h.take 4 ≠ magic then .error .badMagic
    else if uint16 (h.drop 4) ≠ version then .error (.version (uint16 (h.drop 4)))
    else if h.getD 7 0 ≠ 0 then .error .unsupportedFlags
    else if maxFrameSize < uint32 (h.drop 16) then .error (.tooLarge (uint32 (h.drop 16)))
    else
      .ok ({ version := uint16 (h.drop 4)
             type := h.getD 6 0
             flags := h.getD 7 0
             requestID := UInt64.ofNat (uint64 ((h.drop 8).take 8))
             length := uint32 (h.drop 16) }, rest)

/-- `ReadFrame`: the header, the payload and the input that is left. -/
def readFrame (s : Bytes) : Except ReadError (Header × Bytes × Bytes) :=
  match readHeader s with
  | .error e => .error e
  | .ok (h, rest) =>
    match readFull h.length rest with
    | .error e => .error e
    | .ok (payload, rest) => .ok (h, payload, rest)

/-- `ReadFrame` again and again, until it fails. A frame has at least its header, so there are fewer
frames than bytes. -/
def readFrames : Nat → Bytes → List (Header × Bytes) × ReadError
  | 0, _ => ([], .eof)
  | fuel + 1, s =>
    match readFrame s with
    | .error e => ([], e)
    | .ok (h, payload, rest) =>
      ((h, payload) :: (readFrames fuel rest).1, (readFrames fuel rest).2)

end SuperDB.Wire
