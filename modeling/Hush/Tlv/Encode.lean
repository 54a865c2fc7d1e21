import Hush.Foundation.BigEndian
import Hush.Foundation.Utf8
import Hush.Tlv.Value
import Hush.Tlv.Varint

/-! `encode` of `tlv.rs`. Its `Result` is never an error, so the functions are
total here; the two container loops append to a buffer that starts empty. -/
namespace Hush.Tlv

open Hush.Foundation BigEndian

def typeByte (v : Value) : UInt8 :=
  match v with
  | .string _ => 0x01
  | .bytes _ => 0x02
  | .uint8 _ => 0x03
  | .uint16 _ => 0x04
  | .uint32 _ => 0x05
  | .uint64 _ => 0x06
  | .int32 _ => 0x07
  | .int64 _ => 0x08
  | .float32 _ => 0x09
  | .float64 _ => 0x0A
  | .bool _ => 0x0B
  | .array _ => 0x0C
  | .map _ => 0x0D
  | .null => 0x0E
  | .timestamp _ => 0x0F

/-- What `encode_into` appends for a type byte and a payload. The length is
cast to 64 bits, which loses nothing of a vector that memory can hold. -/
def frameElement (tag : UInt8) (payload : List UInt8) : List UInt8 :=
  tag :: (encodeVarint (UInt64.ofNat payload.length) ++ payload)

mutual

def payloadBytes : Value → List UInt8
  | .string s => Utf8.asBytes s
  | .bytes b => b
  | .uint8 n => [n]
  | .uint16 n => u16.toBeBytes n
  | .uint32 n => u32.toBeBytes n
  | .uint64 n => u64.toBeBytes n
  | .int32 n => u32.toBeBytes n.toUInt32
  | .int64 n => u64.toBeBytes n.toUInt64
  | .float32 bits => u32.toBeBytes bits
  | .float64 bits => u64.toBeBytes bits
  | .bool b => [if b then 1 else 0]
  | .null => []
  | .timestamp d => u64.toBeBytes (UInt64.ofNat d.asMillis)
  | .array items => payloadItems items
  | .map m => payloadMap m

def payloadItems : List Value → List UInt8
  | [] => []
  | item :: rest => frameElement (typeByte item) (payloadBytes item) ++ payloadItems rest

def payloadMap : Map → List UInt8
  | ⟨entries⟩ => payloadEntries entries

def payloadEntries : List (String × Value) → List UInt8
  | [] => []
  | (key, val) :: rest =>
    frameElement (typeByte (.string key)) (Utf8.asBytes key) ++
      (frameElement (typeByte val) (payloadBytes val) ++ payloadEntries rest)

end

def encode (v : Value) : List UInt8 := frameElement (typeByte v) (payloadBytes v)

def encodeMap (m : Map) : List UInt8 := encode (.map m)

/-- The bytes of one map entry: its key as a string element, then its value. -/
def encodeEntry (entry : String × Value) : List UInt8 :=
  encode (.string entry.1) ++ encode entry.2

@[simp] theorem payloadBytes_array (items : List Value) :
    payloadBytes (.array items) = items.flatMap encode := by
  rw [payloadBytes]
  induction items with
  | nil => rfl
  | cons item rest ih => rw [payloadItems, ih, List.flatMap_cons, encode]

@[simp] theorem payloadBytes_map (m : Map) :
    payloadBytes (.map m) = m.entries.flatMap encodeEntry := by
  obtain ⟨entries⟩ := m
  rw [payloadBytes, payloadMap]
  induction entries with
  | nil => rfl
  | cons entry rest ih =>
    rw [payloadEntries, ih, List.flatMap_cons, encodeEntry, List.append_assoc, encode, encode,
      payloadBytes]

theorem length_frameElement (tag : UInt8) (payload : List UInt8) :
    (frameElement tag payload).length =
      1 + (encodeVarint (UInt64.ofNat payload.length)).length + payload.length := by
  simp only [frameElement, List.length_cons, List.length_append]
  omega

/-- The payload of a `Value` that memory holds: its length is a `usize`. -/
def Value.Addressable (v : Value) : Prop := (payloadBytes v).length < 2 ^ 64

theorem length_payloadBytes_lt (v : Value) : (payloadBytes v).length < (encode v).length := by
  rw [encode, length_frameElement]
  omega

example : encode (.array [.uint8 7, .null]) = [0x0C, 5, 0x03, 1, 7, 0x0E, 0] := by decide

end Hush.Tlv
