import Hush.Frame.Framing
import Hush.Session.Crypto
import Hush.Tlv.Decode

/-! Requests and responses of `frame.rs`: a header of an opcode or a status, an
optional TLV map after it, and the two sealed under the session key if there is
one. -/
namespace Hush.Frame

open Hush.Foundation BigEndian
open Hush.Session hiding encrypt decrypt

inductive StatusCode where
  | success | badRequest | unauthenticated | permissionDenied
  | notFound | sessionExpired | rateLimited | internalError
  deriving DecidableEq, Repr

namespace StatusCode

/-- `self as u8`, the discriminant. -/
def toU8 : StatusCode → UInt8
  | .success => 0x00
  | .badRequest => 0x01
  | .unauthenticated => 0x02
  | .permissionDenied => 0x03
  | .notFound => 0x04
  | .sessionExpired => 0x05
  | .rateLimited => 0x06
  | .internalError => 0x07

def fromU8 (b : UInt8) : Option StatusCode :=
  match b with
  | 0x00 => some .success
  | 0x01 => some .badRequest
  | 0x02 => some .unauthenticated
  | 0x03 => some .permissionDenied
  | 0x04 => some .notFound
  | 0x05 => some .sessionExpired
  | 0x06 => some .rateLimited
  | 0x07 => some .internalError
  | _ => none

@[simp] theorem fromU8_toU8 (status : StatusCode) : fromU8 status.toU8 = some status := by
  cases status <;> rfl

end StatusCode

inductive RequestError where
  | frame (e : FrameError)
  | session (e : SessionError)
  | tooShort
  | unknownStatus (b : UInt8)
  | io (kind : ErrorKind)
  deriving DecidableEq, Repr

structure Request where
  opcode : UInt16
  payload : Option Tlv.Map

structure Response where
  status : StatusCode
  payload : Option Tlv.Map
  seq : UInt32

/-- The optional map behind the header of a plaintext. -/
def appendPayload (plaintext : List UInt8) (payload : Option Tlv.Map) : List UInt8 :=
  match payload with
  | some map => plaintext ++ Tlv.encodeMap map
  | none => plaintext

/-- `session::encrypt` under a key, or the plaintext itself without one. -/
def sealBody (aead : Aead) (nonce : Nonce) (key : Option (List UInt8)) (plaintext : List UInt8) :
    Except RequestError (List UInt8) :=
  match key with
  | none => .ok plaintext
  | some k => (Session.encrypt aead nonce k plaintext).mapError .session

/-- `session::decrypt` under a key, or the data itself without one. -/
def openBody (aead : Aead) (key : Option (List UInt8)) (data : List UInt8) :
    Except RequestError (List UInt8) :=
  match key with
  | none => .ok data
  | some k => (Session.decrypt aead k data).mapError .session

def encodeRequestBody (aead : Aead) (nonce : Nonce) (key : Option (List UInt8)) (req : Request) :
    Except RequestError (List UInt8) :=
  sealBody aead nonce key (appendPayload (u16.toBeBytes req.opcode) req.payload)

def decodeRequest (aead : Aead) (key : Option (List UInt8)) (wireData : List UInt8) :
    Except RequestError (Request × UInt32) := do
  let frame ← (parseFrameData wireData).mapError .frame
  let plaintext ← openBody aead key frame.data
  if plaintext.length < 2 then .error .tooShort
  else
    let opcode := u16.fromBeBytes (plaintext.take 2)
    let payload := if 2 < plaintext.length then Tlv.decodeMapOpt (plaintext.drop 2) else none
    return (⟨opcode, payload⟩, frame.seq)

def encodeResponseBody (aead : Aead) (nonce : Nonce) (key : Option (List UInt8))
    (resp : Response) : Except RequestError (List UInt8) :=
  sealBody aead nonce key (appendPayload [resp.status.toU8] resp.payload)

def decodeResponse (aead : Aead) (key : Option (List UInt8)) (wireData : List UInt8) :
    Except RequestError Response := do
  let frame ← (parseFrameData wireData).mapError .frame
  let plaintext ← openBody aead key frame.data
  match plaintext with
  | [] => .error .tooShort
  | statusByte :: rest =>
    match StatusCode.fromU8 statusByte with
    | none => .error (.unknownStatus statusByte)
    | some status =>
      let payload := if 1 < plaintext.length then Tlv.decodeMapOpt rest else none
      return ⟨status, payload, frame.seq⟩

/-- Create a successful response with a payload map. -/
def newResponse (payload : Tlv.Map) : Response := ⟨.success, some payload, 0⟩

/-- Create an error response with a message. -/
def errorResponse (code : StatusCode) (message : String) : Response :=
  ⟨code, some (Tlv.MapOf.new.set "error" (.string message)), 0⟩

/-- Read a full request from an async stream. The frame is put back together
for the decoder of whole frames. -/
def readRequestAsync (aead : Aead) (r : Source) (key : Option (List UInt8)) :
    Except RequestError ((Request × UInt32) × Source) := do
  let (frame, r) ← (readFrameAsync r).mapError .frame
  let request ← decodeRequest aead key (u32.toBeBytes frame.seq ++ frame.data)
  return (request, r)

def writeResponseAsync (aead : Aead) (nonce : Nonce) (w : Sink) (key : Option (List UInt8))
    (seq : UInt32) (resp : Response) : Except RequestError Unit × Sink :=
  match encodeResponseBody aead nonce key resp with
  | .error e => (.error e, w)
  | .ok body =>
    match writeFrameAsync w seq body with
    | (.error e, w) => (.error (.frame e), w)
    | (.ok (), w) => (.ok (), w)

end Hush.Frame
