import Hush.Foundation.Checked
import Hush.Tlv.Grammar

/-! The decoders of `tlv.rs` with the checks of the machine. On a buffer that Rust can hold
none of the checks fails: they decode as `Decode` says, and that is all they do. -/
namespace Hush.Tlv.Checked

open Hush.Foundation BigEndian
open Hush.Foundation.Checked hiding whileM

def decodeVarintLoop (result : UInt64) (shift i : Nat) :
    List UInt8 → Outcome String (UInt64 × Nat)
  | [] => .err "unterminated varint"
  | byte :: rest =>
    if 10 ≤ i then .err "varint too long"
    else do
      let group ← shiftLeft (byte &&& 0x7F).toUInt64 shift
      let next ← addUsize i 1
      if byte &&& 0x80 = 0 then return (result ||| group, next)
      else do
        let shift ← add 31 shift 7
        decodeVarintLoop (result ||| group) shift next rest

def decodeVarint (buf : List UInt8) : Outcome String (UInt64 × Nat) :=
  decodeVarintLoop 0 0 0 buf

/-- The scalar cases of a fixed width: the bytes are indexed one by one. -/
def fixedWidth (width : Nat) (needs : String) (build : List UInt8 → Value)
    (payload : List UInt8) : Outcome String Value :=
  if payload.length < width then .err needs
  else do
    let bytes ← indices payload 0 width
    return build bytes

/-- `decode_value` one level deeper, as a function of buffer, position and depth. -/
abbrev Nested := List UInt8 → Nat → Nat → Outcome String (Value × Nat)

def decodeItem (decodeValue : Nested) (depth : Nat) (payload : List UInt8)
    (s : List Value × Nat) : Outcome String (List Value × Nat) := do
  let depth ← addUsize depth 1
  let (item, p) ← decodeValue payload s.2 depth
  return (s.1 ++ [item], p)

def decodeEntry (decodeValue : Nested) (depth : Nat) (payload : List UInt8) (s : Map × Nat) :
    Outcome String (Map × Nat) := do
  let depth ← addUsize depth 1
  let (keyVal, p) ← decodeValue payload s.2 depth
  match keyVal with
  | .string key =>
    if payload.length ≤ p then
      .err s!"tlv: map entry missing value for key '{key}'"
    else do
      let (val, p) ← decodeValue payload p depth
      return (s.1.set key val, p)
  | _ => .err "tlv: map key must be string"

def decodePayload (decodeValue : Nested) (depth : Nat) (typ : TypeTag) (payload : List UInt8) :
    Outcome String Value :=
  match typ with
  | .string =>
    match Utf8.fromUtf8 payload with
    | some s => .ok (.string s)
    | none => .err "tlv: invalid utf-8 string"
  | .bytes => .ok (.bytes payload)
  | .uint8 => fixedWidth 1 "tlv: uint8 needs 1 byte" (fun b => .uint8 (b.headD 0)) payload
  | .uint16 => fixedWidth 2 "tlv: uint16 needs 2 bytes" (fun b => .uint16 (u16.fromBeBytes b)) payload
  | .uint32 => fixedWidth 4 "tlv: uint32 needs 4 bytes" (fun b => .uint32 (u32.fromBeBytes b)) payload
  | .uint64 => fixedWidth 8 "tlv: uint64 needs 8 bytes" (fun b => .uint64 (u64.fromBeBytes b)) payload
  | .int32 =>
    fixedWidth 4 "tlv: int32 needs 4 bytes" (fun b => .int32 (u32.fromBeBytes b).toInt32) payload
  | .int64 =>
    fixedWidth 8 "tlv: int64 needs 8 bytes" (fun b => .int64 (u64.fromBeBytes b).toInt64) payload
  | .float32 =>
    fixedWidth 4 "tlv: float32 needs 4 bytes" (fun b => .float32 (u32.fromBeBytes b)) payload
  | .float64 =>
    fixedWidth 8 "tlv: float64 needs 8 bytes" (fun b => .float64 (u64.fromBeBytes b)) payload
  | .bool => fixedWidth 1 "tlv: bool needs 1 byte" (fun b => .bool (b.headD 0 != 0)) payload
  | .null => .ok .null
  | .timestamp =>
    fixedWidth 8 "tlv: timestamp needs 8 bytes"
      (fun b => .timestamp (Duration.fromMillis (u64.fromBeBytes b))) payload
  | .array => do
    let (items, _) ← Checked.whileM (fun s => s.2 < payload.length)
      (decodeItem decodeValue depth payload) payload.length ([], 0)
    return .array items
  | .map => do
    let (m, _) ← Checked.whileM (fun s => s.2 < payload.length)
      (decodeEntry decodeValue depth payload) payload.length (MapOf.new, 0)
    return .map m

/-- Type byte, length field and payload, with the position after the payload. -/
def decodeHeader (buf : List UInt8) (pos : Nat) :
    Outcome String ((TypeTag × List UInt8) × Nat) :=
  if buf.length ≤ pos then .err "tlv: unexpected EOF"
  else do
    let typByte ← index buf pos
    let pos ← addUsize pos 1
    match TypeTag.fromU8 typByte with
    | none => .err s!"tlv: unknown type 0x{hexByte typByte}"
    | some typ => do
      let tail ← sliceFrom buf pos
      let (len, adv) ← (decodeVarint tail).mapErr fun e => s!"tlv: decode varint: {e}"
      let payloadStart ← addUsize pos adv
      if maxPayloadSize < len then
        .err s!"tlv: payload too large ({len} bytes, max {maxPayloadSize})"
      else do
        let payloadEnd ← addUsize payloadStart len.toNat
        if buf.length < payloadEnd then .err "tlv: payload exceeds buffer"
        else do
          let payload ← slice buf payloadStart payloadEnd
          return ((typ, payload), payloadEnd)

/-- `decode_value`, over the call of itself one level deeper. -/
def decodeLevel (decodeValue : Nested) : Nested := fun buf pos depth =>
  if maxDecodeDepth < depth then
    .err s!"tlv: nested depth {depth} exceeds max {maxDecodeDepth}"
  else do
    let ((typ, payload), next) ← decodeHeader buf pos
    let value ← decodePayload decodeValue depth typ payload
    return (value, next)

/-- `decode_value` with so many nested calls allowed below it, one inside the other. -/
def decodeValue : (levels : Nat) → Nested
  | 0 => decodeLevel fun _ _ _ => .panic .recursion
  | levels + 1 => decodeLevel (decodeValue levels)

def maxNestedCalls : Nat := 65

def decode (buf : List UInt8) : Outcome String Value := do
  let (val, _) ← decodeValue maxNestedCalls buf 0 0
  return val

def decodeMap (buf : List UInt8) : Outcome String Map := do
  match ← decode buf with
  | .map m => return m
  | _ => .err "tlv: expected map"

/-- `decode_map(buf).ok()`: an error is no map, a panic stays a panic. -/
def decodeMapOpt {ε : Type} (buf : List UInt8) : Outcome ε (Option Map) :=
  if buf.isEmpty then .ok none
  else
    match decodeMap buf with
    | .ok m => .ok (some m)
    | .err _ => .ok none
    | .panic why => .panic why

/-- The shift stays below 64 because the tenth byte is the last. -/
theorem decodeVarintLoop_eq (buf : List UInt8) (result : UInt64) (i : Nat) :
    decodeVarintLoop result (7 * i) i buf =
      .ofExcept (Tlv.decodeVarintLoop result (7 * i) i buf) := by
  induction buf generalizing result i with
  | nil => rfl
  | cons byte rest ih =>
    rw [decodeVarintLoop, Tlv.decodeVarintLoop]
    by_cases hi : 10 ≤ i
    · rw [if_pos hi, if_pos hi, Outcome.ofExcept_error]
    · rw [if_neg hi, if_neg hi, shiftLeft_of_lt (by omega), Outcome.ok_bind, addUsize,
        add_of_lt (by omega), Outcome.ok_bind]
      by_cases hlast : byte &&& 0x80 = 0
      · rw [if_pos hlast]
        dsimp only
        rw [if_pos hlast]
        rfl
      · rw [if_neg hlast, add_of_lt (by omega), Outcome.ok_bind]
        dsimp only
        rw [if_neg hlast]
        exact ih _ (i + 1)

theorem decodeVarint_eq (buf : List UInt8) :
    decodeVarint buf = .ofExcept (Tlv.decodeVarint buf) := decodeVarintLoop_eq buf 0 0

theorem fixedWidth_eq (width : Nat) (needs : String) (build : List UInt8 → Value)
    (payload : List UInt8) :
    fixedWidth width needs build payload =
      .ofExcept (Tlv.fixedWidth width needs build payload) := by
  unfold fixedWidth Tlv.fixedWidth
  by_cases h : payload.length < width
  · rw [if_pos h, if_pos h, Outcome.ofExcept_error]
  · rw [if_neg h, if_neg h, indices_of_le (by omega)]
    rfl

/-- Positions stay within the buffer, and a length is looked at before it is added. -/
theorem decodeHeader_eq {buf : List UInt8} (hbuf : buf.length ≤ isizeMax) (pos : Nat) :
    decodeHeader buf pos = .ofExcept (Tlv.decodeHeader buf pos) := by
  unfold isizeMax at hbuf
  unfold decodeHeader Tlv.decodeHeader
  cases hget : buf[pos]? with
  | none =>
    rw [if_pos (List.getElem?_eq_none_iff.mp hget)]
    rfl
  | some typByte =>
    have hpos := (List.getElem?_eq_some_iff.mp hget).1
    rw [if_neg (Nat.not_le.mpr hpos), index_of_get hget, Outcome.ok_bind, addUsize,
      add_of_lt (by omega), Outcome.ok_bind]
    dsimp only
    cases TypeTag.fromU8 typByte with
    | none => rfl
    | some typ =>
      dsimp only
      rw [sliceFrom_of_le (by omega), Outcome.ok_bind, decodeVarint_eq]
      cases hvarint : Tlv.decodeVarint (buf.drop (pos + 1)) with
      | error e => rfl
      | ok result =>
        obtain ⟨len, adv⟩ := result
        obtain ⟨chunk, hpre, -, -, -, rfl⟩ := decodeVarint_ok_iff.mp hvarint
        have hadv := hpre.length_le
        rw [List.length_drop] at hadv
        have hmapped : (Outcome.ofExcept (.ok (len, chunk.length)) :
            Outcome String (UInt64 × Nat)).mapErr (fun e => s!"tlv: decode varint: {e}") =
          .ok (len, chunk.length) := rfl
        rw [hmapped, Outcome.ok_bind]
        dsimp only
        rw [addUsize, add_of_lt (by omega), Outcome.ok_bind]
        by_cases hlarge : maxPayloadSize < len
        · rw [if_pos hlarge, if_pos hlarge]
          rfl
        · have hlen : len.toNat ≤ 524288 := UInt64.le_iff_toNat_le.mp (UInt64.not_lt.mp hlarge)
          rw [if_neg hlarge, if_neg hlarge, addUsize, add_of_lt (by omega), Outcome.ok_bind]
          by_cases hexceeds : buf.length < pos + 1 + chunk.length + len.toNat
          · rw [if_pos hexceeds, if_pos hexceeds]
            rfl
          · rw [if_neg hexceeds, if_neg hexceeds, slice_of_le (Nat.le_add_right _ _)
              (Nat.not_lt.mp hexceeds), Nat.add_sub_cancel_left]
            rfl

section Payload

variable {nested : Nested} {plain : Cursor.Parser UInt8 String Value} {depth : Nat}
  {payload : List UInt8}

theorem decodeItem_eq (hdepth : depth ≤ maxDecodeDepth)
    (hnested : ∀ p, nested payload p (depth + 1) = .ofExcept (plain payload p))
    (s : List Value × Nat) :
    decodeItem nested depth payload s =
      .ofExcept (Cursor.consume plain (fun items item => items ++ [item]) payload s) := by
  unfold maxDecodeDepth at hdepth
  unfold decodeItem Cursor.consume
  rw [addUsize, add_of_lt (by omega), Outcome.ok_bind, hnested]
  cases plain payload s.2 <;> rfl

theorem decodeEntry_eq (hdepth : depth ≤ maxDecodeDepth)
    (hnested : ∀ p, nested payload p (depth + 1) = .ofExcept (plain payload p))
    (s : Map × Nat) :
    decodeEntry nested depth payload s =
      .ofExcept (Cursor.consume (Tlv.decodeEntry plain) (fun m entry => m.set entry.1 entry.2)
        payload s) := by
  unfold maxDecodeDepth at hdepth
  unfold decodeEntry Cursor.consume Tlv.decodeEntry
  rw [addUsize, add_of_lt (by omega), Outcome.ok_bind, hnested]
  cases plain payload s.2 with
  | error e => rfl
  | ok result =>
    obtain ⟨keyVal, p⟩ := result
    cases keyVal with
    | string key =>
      rw [Outcome.ofExcept_ok, Outcome.ok_bind]
      dsimp only [bind, Except.bind]
      by_cases hend : payload.length ≤ p
      · rw [if_pos hend, if_pos hend]
        rfl
      · rw [if_neg hend, if_neg hend, hnested]
        cases plain payload p <;> rfl
    | _ => rfl

/-- A round of a container loop that reads an element comes nearer to the end. -/
theorem consume_near {α σ : Type} {parse : Cursor.Parser UInt8 String α}
    {R : List UInt8 → α → Prop} (hparse : Cursor.Recognises parse R)
    (hR : ∀ chunk x, R chunk x → chunk ≠ []) (push : σ → α → σ) (s s' : σ × Nat)
    (hround : Cursor.consume parse push payload s = .ok s') :
    payload.length - s'.2 < payload.length - s.2 := by
  unfold Cursor.consume at hround
  cases hrun : parse payload s.2 with
  | error e =>
    rw [hrun] at hround
    cases hround
  | ok result =>
    rw [hrun] at hround
    obtain rfl := Except.ok.inj hround
    obtain ⟨hmore, hwithin⟩ := hparse.advances hR hrun
    omega

theorem decodePayload_eq (hdepth : depth ≤ maxDecodeDepth)
    (hplain : Cursor.Recognises plain (Denotes (depth + 1)))
    (hnested : ∀ p, nested payload p (depth + 1) = .ofExcept (plain payload p))
    (typ : TypeTag) :
    decodePayload nested depth typ payload = .ofExcept (Tlv.decodePayload plain typ payload) := by
  have hend {σ : Type} (s : σ × Nat) (h : decide (s.2 < payload.length) = true) :
      0 < payload.length - s.2 := by
    have := of_decide_eq_true h
    omega
  cases typ with
  | string =>
    unfold decodePayload Tlv.decodePayload
    dsimp only
    cases Utf8.fromUtf8 payload <;> rfl
  | bytes => rfl
  | null => rfl
  | array =>
    unfold decodePayload Tlv.decodePayload
    dsimp only
    rw [whileM_eq (fun s => payload.length - s.2) hend
      (fun s _ => decodeItem_eq hdepth hnested s)
      (fun s s' _ => consume_near hplain (fun _ _ h => h.ne_nil) _ s s') (Nat.sub_le _ _),
      Outcome.ofExcept_bind]
    rfl
  | map =>
    unfold decodePayload Tlv.decodePayload
    dsimp only
    rw [whileM_eq (fun s => payload.length - s.2) hend
      (fun s _ => decodeEntry_eq hdepth hnested s)
      (fun s s' _ => consume_near (decodeEntry_recognises hplain) (fun _ _ h => h.ne_nil) _ s s')
      (Nat.sub_le _ _), Outcome.ofExcept_bind]
    rfl
  | _ => exact fixedWidth_eq ..

end Payload

theorem length_payload_le {buf payload : List UInt8} {pos next : Nat} {typ : TypeTag}
    (h : Tlv.decodeHeader buf pos = .ok ((typ, payload), next)) : payload.length ≤ isizeMax := by
  obtain ⟨_, _, ⟨_, _, len, _, _, _, hlen, hlength⟩, _⟩ := decodeHeader_sound h
  have hmax : len.toNat ≤ 524288 := UInt64.le_iff_toNat_le.mp hlen
  dsimp only at hlength
  unfold isizeMax
  omega

/-- At any depth, with calls enough left to get to the depth limit, `decode_value` is the
plain one. -/
theorem decodeValue_eq {levels depth : Nat} (hlevels : maxDecodeDepth < depth + levels)
    {buf : List UInt8} (hbuf : buf.length ≤ isizeMax) (pos : Nat) :
    decodeValue levels buf pos depth = .ofExcept (Tlv.decodeValue buf pos depth) := by
  induction levels generalizing depth buf pos with
  | zero =>
    rw [Nat.add_zero] at hlevels
    rw [decodeValue, decodeLevel, if_pos hlevels, Tlv.decodeValue_eq, if_pos hlevels]
    rfl
  | succ levels ih =>
    rw [decodeValue, decodeLevel, Tlv.decodeValue_eq]
    by_cases hdeep : maxDecodeDepth < depth
    · rw [if_pos hdeep, if_pos hdeep]
      rfl
    · rw [if_neg hdeep, if_neg hdeep, decodeHeader_eq hbuf, Outcome.ofExcept_bind]
      cases hheader : Tlv.decodeHeader buf pos with
      | error e => rfl
      | ok result =>
        obtain ⟨⟨typ, payload⟩, next⟩ := result
        have hpayload := length_payload_le hheader
        rw [Outcome.ofExcept_ok, Outcome.ok_bind, Outcome.ok_bind]
        dsimp only
        rw [decodePayload_eq (Nat.not_lt.mp hdeep) (decodeValue_recognises (depth + 1))
          (fun p => ih (by omega) hpayload p), Outcome.ofExcept_bind]
        rfl

example : decodeValue 0 [0x0C, 2, 0x0E, 0] 0 0 = .panic .recursion := by rfl

/-- Whatever is left of calls and depth, a call that succeeds moves on within its buffer. -/
theorem decodeValue_advances {levels depth pos next : Nat} {buf : List UInt8} {v : Value}
    (hbuf : buf.length ≤ isizeMax) (h : decodeValue levels buf pos depth = .ok (v, next)) :
    pos < next ∧ next ≤ buf.length := by
  have hlevel {nested : Nested} (h : decodeLevel nested buf pos depth = .ok (v, next)) :
      pos < next ∧ next ≤ buf.length := by
    unfold decodeLevel at h
    split at h
    · cases h
    · rw [decodeHeader_eq hbuf] at h
      obtain ⟨⟨⟨typ, payload⟩, next'⟩, hheader, hvalue⟩ := Outcome.bind_eq_ok.mp h
      obtain ⟨value, -, hpair⟩ := Outcome.bind_eq_ok.mp hvalue
      obtain rfl : next' = next := (Prod.mk.inj (Outcome.ok.inj hpair)).2
      obtain ⟨chunk, hpre, ⟨_, _, _, rfl, -⟩, rfl⟩ :=
        decodeHeader_sound (Outcome.ofExcept_eq_ok.mp hheader)
      have hlength := hpre.length_le
      rw [List.length_drop, List.length_cons] at hlength
      rw [List.length_cons]
      omega
  cases levels <;> exact hlevel h

theorem decode_eq {buf : List UInt8} (hbuf : buf.length ≤ isizeMax) :
    decode buf = .ofExcept (Tlv.decode buf) := by
  unfold decode Tlv.decode
  rw [decodeValue_eq (by decide) hbuf, Outcome.ofExcept_bind]
  rfl

theorem decodeMap_eq {buf : List UInt8} (hbuf : buf.length ≤ isizeMax) :
    decodeMap buf = .ofExcept (Tlv.decodeMap buf) := by
  unfold decodeMap Tlv.decodeMap
  rw [decode_eq hbuf, Outcome.ofExcept_bind]
  congr 1
  funext v
  cases v <;> rfl

theorem decodeMapOpt_eq {ε : Type} {buf : List UInt8} (hbuf : buf.length ≤ isizeMax) :
    decodeMapOpt buf = (.ok (Tlv.decodeMapOpt buf) : Outcome ε (Option Map)) := by
  unfold decodeMapOpt Tlv.decodeMapOpt
  rw [decodeMap_eq hbuf]
  split
  · rfl
  · cases Tlv.decodeMap buf <;> rfl

end Hush.Tlv.Checked
