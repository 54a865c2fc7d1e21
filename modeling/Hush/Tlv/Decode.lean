import Hush.Foundation.Cursor
import Hush.Tlv.Encode

/-! `decode` of `tlv.rs`. `decode_value` reads one element at a position of its
buffer and returns the position after it; the payload of a container is a
buffer of its own, which a loop reads element by element, one level deeper. -/
namespace Hush.Tlv

open Hush.Foundation BigEndian Cursor

def maxPayloadSize : UInt64 := 524288
def maxDecodeDepth : Nat := 64

/-- `{:02x}` of a byte. -/
def hexByte (b : UInt8) : String :=
  String.ofList [Nat.digitChar (b.toNat / 16), Nat.digitChar (b.toNat % 16)]

/-- The scalar cases of a fixed width: too short a payload is refused with the
message of its type, and bytes past the width are ignored. -/
def fixedWidth (width : Nat) (needs : String) (build : List UInt8 → Value)
    (payload : List UInt8) : Except String Value :=
  if payload.length < width then .error needs else .ok (build (payload.take width))

/-- One round of the map loop: a string element, then an element. -/
def decodeEntry (decode : Parser UInt8 String Value) : Parser UInt8 String (String × Value) :=
  fun payload p => do
    let (keyVal, p) ← decode payload p
    match keyVal with
    | .string key =>
      if payload.length ≤ p then
        .error s!"tlv: map entry missing value for key '{key}'"
      else do
        let (val, p) ← decode payload p
        return ((key, val), p)
    | _ => .error "tlv: map key must be string"

/-- The `match typ` of `decode_value`, over the decoder of the elements inside. -/
def decodePayload (decode : Parser UInt8 String Value) (typ : TypeTag)
    (payload : List UInt8) : Except String Value :=
  match typ with
  | .string =>
    match Utf8.fromUtf8 payload with
    | some s => .ok (.string s)
    | none => .error "tlv: invalid utf-8 string"
  | .bytes => .ok (.bytes payload)
  | .uint8 => fixedWidth 1 "tlv: uint8 needs 1 byte" (fun b => .uint8 (b.headD 0)) payload
  | .uint16 => fixedWidth 2 "tlv: uint16 needs 2 bytes" (fun b => .uint16 (u16.fromBeBytes b)) payload
  | .uint32 => fixedWidth 4 "tlv: uint32 needs 4 bytes" (fun b => .uint32 (u32.fromBeBytes b)) payload
  | .uint64 => fixedWidth 8 "tlv: uint64 needs 8 bytes" (fun b => .uint64 (u64.fromBeBytes b)) payload
  | .int32 =>
    fixedWidth 4 "tlv: int32 needs 4 bytes" (fun b => .int32 (u32.fromBeBytes b).toInt32) payload
  | .int64 =>
    fixedWidth 8 "tlv: int64 needs 8 bytes" (fun b => .int64 (u64.fromBeBytes b).toInt64) payload
  | .float32 =>
    fixedWidth 4 "tlv: float32 needs 4 bytes" (fun b => .float32 (u32.fromBeBytes b)) payload
  | .float64 =>
    fixedWidth 8 "tlv: float64 needs 8 bytes" (fun b => .float64 (u64.fromBeBytes b)) payload
  | .bool => fixedWidth 1 "tlv: bool needs 1 byte" (fun b => .bool (b.headD 0 != 0)) payload
  | .null => .ok .null
  | .timestamp =>
    fixedWidth 8 "tlv: timestamp needs 8 bytes"
      (fun b => .timestamp (Duration.fromMillis (u64.fromBeBytes b))) payload
  | .array => do
    let (items, _) ← whileM (fun s => s.2 < payload.length)
      (consume decode (fun items item => items ++ [item]) payload) payload.length ([], 0)
    return .array items
  | .map => do
    let (m, _) ← whileM (fun s => s.2 < payload.length)
      (consume (decodeEntry decode) (fun m entry => m.set entry.1 entry.2) payload)
      payload.length (MapOf.new, 0)
    return .map m

/-- The first half of `decode_value`: type byte, length field and payload, with
the position after the payload. -/
def decodeHeader : Parser UInt8 String (TypeTag × List UInt8) := fun buf pos =>
  match buf[pos]? with
  | none => .error "tlv: unexpected EOF"
  | some typByte =>
    match TypeTag.fromU8 typByte with
    | none => .error s!"tlv: unknown type 0x{hexByte typByte}"
    | some typ =>
      match decodeVarint (buf.drop (pos + 1)) with
      | .error e => .error s!"tlv: decode varint: {e}"
      | .ok (len, adv) =>
        let payloadStart := pos + 1 + adv
        let payloadEnd := payloadStart + len.toNat
        if maxPayloadSize < len then
          .error s!"tlv: payload too large ({len} bytes, max {maxPayloadSize})"
        else if buf.length < payloadEnd then .error "tlv: payload exceeds buffer"
        else .ok ((typ, (buf.drop payloadStart).take len.toNat), payloadEnd)

/-- `decode_value` at a depth, with `room` levels left before the depth limit:
`room` is zero exactly when `depth` exceeds it. -/
def decodeAt : (room depth : Nat) → Parser UInt8 String Value
  | 0, depth => fun _ _ => .error s!"tlv: nested depth {depth} exceeds max {maxDecodeDepth}"
  | room + 1, depth => fun buf pos => do
    let ((typ, payload), next) ← decodeHeader buf pos
    let value ← decodePayload (decodeAt room (depth + 1)) typ payload
    return (value, next)

def decodeValue (buf : List UInt8) (pos depth : Nat) : Except String (Value × Nat) :=
  decodeAt (maxDecodeDepth + 1 - depth) depth buf pos

def decode (buf : List UInt8) : Except String Value := do
  let (val, _) ← decodeValue buf 0 0
  return val

def decodeMap (buf : List UInt8) : Except String Map := do
  match ← decode buf with
  | .map m => return m
  | _ => .error "tlv: expected map"

/-- An empty buffer and a buffer that does not decode both read as no map. -/
def decodeMapOpt (buf : List UInt8) : Option Map :=
  if buf.isEmpty then none else (decodeMap buf).toOption

/-- `decode_value` as its source has it: the depth check, then the header, then
the payload one level deeper. -/
theorem decodeValue_eq (buf : List UInt8) (pos depth : Nat) :
    decodeValue buf pos depth =
      if maxDecodeDepth < depth then
        .error s!"tlv: nested depth {depth} exceeds max {maxDecodeDepth}"
      else do
        let ((typ, payload), next) ← decodeHeader buf pos
        let value ← decodePayload (fun buf pos => decodeValue buf pos (depth + 1)) typ payload
        return (value, next) := by
  by_cases h : maxDecodeDepth < depth
  · rw [if_pos h, decodeValue, Nat.sub_eq_zero_of_le h, decodeAt]
  · have hroom : maxDecodeDepth + 1 - depth = (maxDecodeDepth + 1 - (depth + 1)) + 1 := by omega
    rw [if_neg h, decodeValue, hroom, decodeAt]
    rfl

example : decode [0x0C, 5, 0x03, 1, 7, 0x0E, 0] = .ok (.array [.uint8 7, .null]) := by rfl

end Hush.Tlv
