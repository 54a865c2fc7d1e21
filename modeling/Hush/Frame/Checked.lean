import Hush.Frame.Message
import Hush.Tlv.DecodeChecked

/-! Decoding of bytes from the network with the checks of the machine, from the frame and
the cipher down to the TLV map. -/
namespace Hush.Frame.Checked

open Hush.Foundation BigEndian Hush.Foundation.Checked
open Hush.Session (Aead SessionError nonceSize tagSize newFromSlice)

/-- The sequence number of a frame, byte by byte, and the data behind it. -/
def splitSeq (data : List UInt8) : Outcome FrameError Frame := do
  let seq ← indices data 0 4
  let rest ← sliceFrom data 4
  return ⟨u32.fromBeBytes seq, rest⟩

def readFrame (r : Source) : Outcome FrameError (Frame × Source) :=
  match r.readExact 4 with
  | .error .unexpectedEof => .err .eof
  | .error e => .err (.io e)
  | .ok (lenBuf, r) =>
    let frameLen := u32.fromBeBytes lenBuf
    if maxFrameSize < frameLen then .err (.tooLarge frameLen maxFrameSize)
    else if frameLen < frameMinData then .err (.tooShort frameLen)
    else
      match r.readExact frameLen.toNat with
      | .error e => .err (.io e)
      | .ok (data, r) => do
        let frame ← splitSeq data
        return (frame, r)

def parseFrameData (data : List UInt8) : Outcome FrameError Frame :=
  if data.length < 4 then .err (.tooShort (UInt32.ofNat data.length)) else splitSeq data

/-- `Nonce::from_slice`, which panics unless it is given twelve bytes. -/
def nonceFromSlice (bytes : List UInt8) : Outcome SessionError (List UInt8) :=
  if bytes.length = nonceSize then .ok bytes else .panic .length

def decrypt (aead : Aead) (key data : List UInt8) : Outcome SessionError (List UInt8) :=
  if data.length < nonceSize + tagSize then .err (.crypto "ciphertext too short")
  else do
    let cipher ← .ofExcept (newFromSlice key)
    let (nonceBytes, ciphertext) ← splitAt data nonceSize
    let nonce ← nonceFromSlice nonceBytes
    match aead.decrypt cipher nonce ciphertext with
    | some plaintext => return plaintext
    | none => .err (.crypto "gcm decrypt: message authentication failed")

/-- `session::decrypt` under a key, or the data itself without one. -/
def openBody (aead : Aead) (key : Option (List UInt8)) (data : List UInt8) :
    Outcome RequestError (List UInt8) :=
  match key with
  | none => .ok data
  | some k => (decrypt aead k data).mapErr .session

/-- The optional map behind a header of this size. -/
def decodeRest (plaintext : List UInt8) (header : Nat) :
    Outcome RequestError (Option Tlv.Map) :=
  if header < plaintext.length then do
    let rest ← sliceFrom plaintext header
    Tlv.Checked.decodeMapOpt rest
  else .ok none

def decodeRequest (aead : Aead) (key : Option (List UInt8)) (wireData : List UInt8) :
    Outcome RequestError (Request × UInt32) := do
  let frame ← (parseFrameData wireData).mapErr .frame
  let plaintext ← openBody aead key frame.data
  if plaintext.length < 2 then .err .tooShort
  else do
    let opcode ← indices plaintext 0 2
    let payload ← decodeRest plaintext 2
    return (⟨u16.fromBeBytes opcode, payload⟩, frame.seq)

def decodeResponse (aead : Aead) (key : Option (List UInt8)) (wireData : List UInt8) :
    Outcome RequestError Response := do
  let frame ← (parseFrameData wireData).mapErr .frame
  let plaintext ← openBody aead key frame.data
  if plaintext.isEmpty then .err .tooShort
  else do
    let statusByte ← index plaintext 0
    match StatusCode.fromU8 statusByte with
    | none => .err (.unknownStatus statusByte)
    | some status => do
      let payload ← decodeRest plaintext 1
      return ⟨status, payload, frame.seq⟩

/-- What is opened is no longer than what was sealed, as the tag is part of the latter. -/
def Shortens (aead : Aead) : Prop :=
  ∀ {key nonce ciphertext plaintext}, aead.decrypt key nonce ciphertext = some plaintext →
    plaintext.length ≤ ciphertext.length

theorem splitSeq_of_le {data : List UInt8} (h : 4 ≤ data.length) :
    splitSeq data = .ok ⟨u32.fromBeBytes (data.take 4), data.drop 4⟩ := by
  unfold splitSeq
  rw [indices_of_le (by omega), Outcome.ok_bind, sliceFrom_of_le h]
  rfl

theorem length_of_readExact {r r' : Source} {count : Nat} {data : List UInt8}
    (h : r.readExact count = .ok (data, r')) : data.length = count := by
  obtain ⟨hlength, -⟩ := Stream.Source.readExact_ok_iff.mp h
  exact hlength

theorem readFrame_eq (r : Source) : readFrame r = .ofExcept (Frame.readFrame r) := by
  unfold readFrame Frame.readFrame readFrameFrom
  cases r.readExact 4 with
  | error e => cases e <;> rfl
  | ok result =>
    obtain ⟨lenBuf, r⟩ := result
    dsimp only
    by_cases hlarge : maxFrameSize < u32.fromBeBytes lenBuf
    · rw [if_pos hlarge, if_pos hlarge]
      rfl
    · rw [if_neg hlarge, if_neg hlarge]
      by_cases hshort : u32.fromBeBytes lenBuf < frameMinData
      · rw [if_pos hshort, if_pos hshort]
        rfl
      · rw [if_neg hshort, if_neg hshort]
        have hmin : 4 ≤ (u32.fromBeBytes lenBuf).toNat :=
          UInt32.le_iff_toNat_le.mp (UInt32.not_lt.mp hshort)
        cases hread : r.readExact (u32.fromBeBytes lenBuf).toNat with
        | error e => rfl
        | ok result =>
          obtain ⟨data, r'⟩ := result
          have hlength := length_of_readExact hread
          dsimp only
          rw [splitSeq_of_le (hlength ▸ hmin)]
          rfl

theorem parseFrameData_eq (data : List UInt8) :
    parseFrameData data = .ofExcept (Frame.parseFrameData data) := by
  unfold parseFrameData Frame.parseFrameData
  by_cases hshort : data.length < 4
  · rw [if_pos hshort, if_pos hshort]
    rfl
  · rw [if_neg hshort, if_neg hshort, splitSeq_of_le (Nat.not_lt.mp hshort)]
    rfl

theorem decrypt_eq (aead : Aead) (key data : List UInt8) :
    decrypt aead key data = .ofExcept (Session.decrypt aead key data) := by
  unfold decrypt Session.decrypt
  by_cases hshort : data.length < nonceSize + tagSize
  · rw [if_pos hshort, if_pos hshort]
    rfl
  · have hnonce : nonceSize ≤ data.length := by omega
    rw [if_neg hshort, if_neg hshort, Outcome.ofExcept_bind]
    congr 1
    funext cipher
    rw [splitAt_of_le hnonce, Outcome.ok_bind]
    dsimp only
    unfold nonceFromSlice
    rw [if_pos (List.length_take_of_le hnonce), Outcome.ok_bind]
    cases aead.decrypt cipher (data.take nonceSize) (data.drop nonceSize) <;> rfl

theorem openBody_eq (aead : Aead) (key : Option (List UInt8)) (data : List UInt8) :
    openBody aead key data = .ofExcept (Frame.openBody aead key data) := by
  cases key with
  | none => rfl
  | some k =>
    unfold openBody Frame.openBody
    dsimp only
    rw [decrypt_eq, Outcome.ofExcept_mapError]

/-- What is opened is a part of the data, or what the cipher gave. -/
theorem length_openBody {aead : Aead} (hshort : Shortens aead) {key : Option (List UInt8)}
    {data plaintext : List UInt8} (hdata : data.length ≤ isizeMax)
    (h : Frame.openBody aead key data = .ok plaintext) : plaintext.length ≤ isizeMax := by
  cases key with
  | none =>
    obtain rfl := Except.ok.inj h
    exact hdata
  | some k =>
    unfold Frame.openBody at h
    dsimp only at h
    cases hopen : Session.decrypt aead k data with
    | error e =>
      rw [hopen] at h
      cases h
    | ok opened =>
      rw [hopen] at h
      obtain rfl := Except.ok.inj h
      have hopened := hshort (Session.decrypt_ok_iff.mp hopen).2.2
      rw [List.length_drop] at hopened
      omega

theorem decodeRest_eq {plaintext : List UInt8} (hplaintext : plaintext.length ≤ isizeMax)
    (header : Nat) :
    decodeRest plaintext header = .ok
      (if header < plaintext.length then Tlv.decodeMapOpt (plaintext.drop header) else none) := by
  unfold decodeRest
  by_cases h : header < plaintext.length
  · have hrest : (plaintext.drop header).length ≤ isizeMax := by
      rw [List.length_drop]
      omega
    rw [if_pos h, if_pos h, sliceFrom_of_le h.le, Outcome.ok_bind,
      Tlv.Checked.decodeMapOpt_eq hrest]
  · rw [if_neg h, if_neg h]

section Opened

variable {aead : Aead} {wireData : List UInt8} {α : Type}
  {checked : Frame → List UInt8 → Outcome RequestError α}
  {plain : Frame → List UInt8 → Except RequestError α}

/-- Parsing and opening are safe, if what is done with the opened text is. -/
theorem opened_eq (hshort : Shortens aead) (hwire : wireData.length ≤ isizeMax)
    (key : Option (List UInt8))
    (h : ∀ frame plaintext, plaintext.length ≤ isizeMax →
      checked frame plaintext = .ofExcept (plain frame plaintext)) :
    (do
      let frame ← (parseFrameData wireData).mapErr RequestError.frame
      let plaintext ← openBody aead key frame.data
      checked frame plaintext) =
    .ofExcept (do
      let frame ← (Frame.parseFrameData wireData).mapError RequestError.frame
      let plaintext ← Frame.openBody aead key frame.data
      plain frame plaintext) := by
  rw [parseFrameData_eq, ← Outcome.ofExcept_mapError, Outcome.ofExcept_bind]
  cases hframe : Frame.parseFrameData wireData with
  | error e => rfl
  | ok frame =>
    have hdata : frame.data.length ≤ isizeMax := by
      unfold Frame.parseFrameData at hframe
      split at hframe
      · cases hframe
      · obtain rfl := Except.ok.inj hframe
        dsimp only
        rw [List.length_drop]
        omega
    change (openBody aead key frame.data >>= checked frame) =
      .ofExcept (Frame.openBody aead key frame.data >>= plain frame)
    rw [openBody_eq, Outcome.ofExcept_bind]
    cases hopen : Frame.openBody aead key frame.data with
    | error e => rfl
    | ok plaintext => exact h frame plaintext (length_openBody hshort hdata hopen)

theorem decodeRequest_eq (hshort : Shortens aead) (hwire : wireData.length ≤ isizeMax)
    (key : Option (List UInt8)) :
    decodeRequest aead key wireData = .ofExcept (Frame.decodeRequest aead key wireData) := by
  refine opened_eq hshort hwire key fun frame plaintext hplaintext => ?_
  by_cases htwo : plaintext.length < 2
  · rw [if_pos htwo, if_pos htwo]
    rfl
  · rw [if_neg htwo, if_neg htwo, indices_of_le (by omega), Outcome.ok_bind,
      decodeRest_eq hplaintext]
    rfl

theorem decodeResponse_eq (hshort : Shortens aead) (hwire : wireData.length ≤ isizeMax)
    (key : Option (List UInt8)) :
    decodeResponse aead key wireData = .ofExcept (Frame.decodeResponse aead key wireData) := by
  refine opened_eq hshort hwire key fun frame plaintext hplaintext => ?_
  cases plaintext with
  | nil => rfl
  | cons statusByte rest =>
    dsimp only [List.isEmpty_cons]
    rw [if_neg Bool.false_ne_true, index_of_get List.getElem?_cons_zero, Outcome.ok_bind]
    cases StatusCode.fromU8 statusByte with
    | none => rfl
    | some status =>
      dsimp only
      rw [decodeRest_eq hplaintext]
      rfl

end Opened

/-- Decoding what comes from the network does not panic, and ends: no check of the machine
fails, no loop outlasts the bytes, and no call is nested deeper than the limit; a call of
`decode_value` that succeeds moves on within its slice. -/
theorem decoding_is_safe {aead : Aead} (hshort : Shortens aead) (buf : List UInt8)
    (hbuf : buf.length ≤ isizeMax) (key : Option (List UInt8)) (r : Source) (why : Panic) :
    (Tlv.Checked.decode buf ≠ .panic why ∧ Tlv.Checked.decodeMap buf ≠ .panic why ∧
      readFrame r ≠ .panic why ∧ parseFrameData buf ≠ .panic why ∧
      decodeRequest aead key buf ≠ .panic why ∧ decodeResponse aead key buf ≠ .panic why) ∧
    ∀ levels depth pos v next, Tlv.Checked.decodeValue levels buf pos depth = .ok (v, next) →
      pos < next ∧ next ≤ buf.length := by
  refine ⟨⟨?_, ?_, ?_, ?_, ?_, ?_⟩,
    fun _ _ _ _ _ hrun => Tlv.Checked.decodeValue_advances hbuf hrun⟩
  · rw [Tlv.Checked.decode_eq hbuf]
    exact Outcome.ofExcept_ne_panic _ why
  · rw [Tlv.Checked.decodeMap_eq hbuf]
    exact Outcome.ofExcept_ne_panic _ why
  · rw [readFrame_eq]
    exact Outcome.ofExcept_ne_panic _ why
  · rw [parseFrameData_eq]
    exact Outcome.ofExcept_ne_panic _ why
  · rw [decodeRequest_eq hshort hbuf key]
    exact Outcome.ofExcept_ne_panic _ why
  · rw [decodeResponse_eq hshort hbuf key]
    exact Outcome.ofExcept_ne_panic _ why

theorem keyTagAead_shortens : Shortens Session.keyTagAead := by
  intro key nonce ciphertext plaintext h
  obtain ⟨-, hplaintext⟩ := Option.ite_none_right_eq_some.mp h
  obtain rfl := Option.some.inj hplaintext
  exact List.length_take_le' _ _

/-- An array in an array whose element claims more than there is. -/
theorem decoding_is_safe_malformed :
    let buf : List UInt8 := [0x0C, 4, 0x0C, 2, 0x02, 0x7F]
    Tlv.Checked.decode buf ≠ .panic .slice ∧
      decodeRequest Session.keyTagAead (some (List.replicate 32 7)) buf ≠ .panic .index :=
  ⟨(decoding_is_safe keyTagAead_shortens _ (by decide) none ⟨[], .unexpectedEof⟩ .slice).1.1,
    (decoding_is_safe keyTagAead_shortens _ (by decide) (some (List.replicate 32 7))
      ⟨[], .unexpectedEof⟩ .index).1.2.2.2.2.1⟩

end Hush.Frame.Checked
