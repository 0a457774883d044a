import Knomosis.Host.Drr
import Knomosis.Lib.Bits
import Knomosis.Lib.Reader
import Knomosis.Lib.Word

/-!
# Frames of the host's protocol

A request is a length of four bytes and that many bytes.  A client that opens its
connection with a preamble writes the number of a signer before each request.  The
host looks for the preamble once, and what it finds instead is the first length.
-/

namespace Knomosis.Host

open Lib

def HARD_MAX_FRAME_SIZE : ℕ := 16 * 1024 * 1024

def HEADER_LEN : ℕ := 4

/-- The letters KNH2. -/
def KNH2_PREAMBLE : List UInt8 := [0x4b, 0x4e, 0x48, 0x32]

def SIGNER_HINT_LEN : ℕ := 8

inductive FrameError (ε : Type) where
  | io (e : ε)
  | eofBeforeHeader
  | truncatedHeader (bytesRead : ℕ)
  | truncatedHint (bytesRead : ℕ)
  | truncatedHintedFrame (headerBytesRead : ℕ)
  | truncatedPayload (bytesRead declaredLength : ℕ)
  | oversizeFrame (declaredLength max : ℕ)
  | zeroLengthFrame
deriving DecidableEq

/-- The errors that say that a request broke off. -/
def FrameError.IsTruncation {ε : Type} : FrameError ε → Bool
  | truncatedHeader _ | truncatedHint _ | truncatedHintedFrame _ | truncatedPayload _ _ => true
  | _ => false

section Reading

variable {σ ε : Type} (r : Reader σ ε UInt8)

/-- The loop around a reading, with its failures among the errors of a frame. -/
def readBytes (want : ℕ) (s : σ) : Except (FrameError ε) (List UInt8 × σ) :=
  (r.fill want s).mapError .io

def readHeaderBytes (s : σ) : Except (FrameError ε) (List UInt8 × σ) := do
  let (buf, s) ← readBytes r HEADER_LEN s
  if buf.length < HEADER_LEN then
    if buf.length = 0 then .error .eofBeforeHeader else .error (.truncatedHeader buf.length)
  else .ok (buf, s)

def readPayload (declared maxFrameSize : ℕ) (s : σ) : Except (FrameError ε) (List UInt8 × σ) :=
  if declared = 0 then .error .zeroLengthFrame
  else if maxFrameSize < declared then .error (.oversizeFrame declared maxFrameSize)
  else do
    let (payload, s) ← readBytes r declared s
    if payload.length < declared then .error (.truncatedPayload payload.length declared)
    else .ok (payload, s)

def readFrame (maxFrameSize : ℕ) (s : σ) : Except (FrameError ε) (List UInt8 × σ) := do
  let maxFrameSize := min maxFrameSize HARD_MAX_FRAME_SIZE
  let (header, s) ← readHeaderBytes r s
  readPayload r (beNat header) maxFrameSize s

/-- The length was read before. -/
def readFrameWithPrefix (header : List UInt8) (maxFrameSize : ℕ) (s : σ) :
    Except (FrameError ε) (List UInt8 × σ) :=
  readPayload r (beNat header) (min maxFrameSize HARD_MAX_FRAME_SIZE) s

def readHintedFrame (maxFrameSize : ℕ) (s : σ) :
    Except (FrameError ε) ((SignerHint × List UInt8) × σ) := do
  let maxFrameSize := min maxFrameSize HARD_MAX_FRAME_SIZE
  let (hint, s) ← readBytes r SIGNER_HINT_LEN s
  if hint.length < SIGNER_HINT_LEN then
    if hint.length = 0 then .error .eofBeforeHeader else .error (.truncatedHint hint.length)
  else do
    let signer := UInt64.ofNat (beNat hint)
    let (header, s) ← readBytes r HEADER_LEN s
    if header.length < HEADER_LEN then .error (.truncatedHintedFrame header.length)
    else do
      let (payload, s) ← readPayload r (beNat header) maxFrameSize s
      .ok ((signer, payload), s)

inductive Negotiation where
  | hinted
  | legacy (header : List UInt8)

def negotiateConnection (s : σ) : Except (FrameError ε) (Negotiation × σ) := do
  let (head, s) ← readHeaderBytes r s
  if head = KNH2_PREAMBLE then .ok (.hinted, s) else .ok (.legacy head, s)

/-- What is known of a connection: nothing before the first request. -/
structure ConnReader where
  hinted : Option Bool
deriving DecidableEq

def ConnReader.new : ConnReader where
  hinted := none

/-- A legacy request, under the sign of all legacy connections. -/
def legacyRequest (read : Except (FrameError ε) (List UInt8 × σ)) :
    Except (FrameError ε) ((SignerHint × List UInt8) × ConnReader × σ) := do
  let (payload, s) ← read
  .ok ((legacySignerHint, payload), ⟨some false⟩, s)

def hintedRequest (read : Except (FrameError ε) ((SignerHint × List UInt8) × σ)) :
    Except (FrameError ε) ((SignerHint × List UInt8) × ConnReader × σ) := do
  let (request, s) ← read
  .ok (request, ⟨some true⟩, s)

def readNext (conn : ConnReader) (maxFrameSize : ℕ) (s : σ) :
    Except (FrameError ε) ((SignerHint × List UInt8) × ConnReader × σ) :=
  match conn.hinted with
  | none => do
    let (negotiation, s) ← negotiateConnection r s
    match negotiation with
    | .hinted => hintedRequest (readHintedFrame r maxFrameSize s)
    | .legacy header => legacyRequest (readFrameWithPrefix r header maxFrameSize s)
  | some true => hintedRequest (readHintedFrame r maxFrameSize s)
  | some false => legacyRequest (readFrame r maxFrameSize s)

/-- What the calls on a connection come to, one after the other, up to the first error. -/
inductive Yields (maxFrameSize : ℕ) :
    ConnReader → σ → List (SignerHint × List UInt8) → FrameError ε → Prop
  | stop {conn s e} (h : readNext r conn maxFrameSize s = .error e) :
      Yields maxFrameSize conn s [] e
  | next {conn s request conn' s' requests e}
      (h : readNext r conn maxFrameSize s = .ok (request, conn', s'))
      (hrest : Yields maxFrameSize conn' s' requests e) :
      Yields maxFrameSize conn s (request :: requests) e

end Reading

inductive WriteFrameError where
  | payloadTooLarge (len : ℕ)
deriving DecidableEq

def encodeFrame (payload : List UInt8) : Except WriteFrameError (List UInt8) :=
  if payload.length < 2 ^ 32 then .ok (beBytes HEADER_LEN payload.length ++ payload)
  else .error (.payloadTooLarge payload.length)

def encodeHintedFrame (signer : SignerHint) (payload : List UInt8) :
    Except WriteFrameError (List UInt8) :=
  if payload.length < 2 ^ 32 then
    .ok (beBytes SIGNER_HINT_LEN signer.toNat ++ beBytes HEADER_LEN payload.length ++ payload)
  else .error (.payloadTooLarge payload.length)

/-- Frames one behind the other. -/
def encodeFrames (payloads : List (List UInt8)) : Except WriteFrameError (List UInt8) := do
  let frames ← payloads.mapM encodeFrame
  .ok frames.flatten

def encodeHintedFrames (requests : List (SignerHint × List UInt8)) :
    Except WriteFrameError (List UInt8) := do
  let frames ← requests.mapM (fun request => encodeHintedFrame request.1 request.2)
  .ok frames.flatten

end Knomosis.Host
