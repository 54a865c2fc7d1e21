import Hush.Frame.Codec

/-! The length prefix that `encode_frame` and the writers put before a frame, for
data of every size. The size limit is checked on a 32-bit sum that may have wrapped. -/
namespace Hush.Frame

open Hush.Foundation BigEndian Stream

/-- A length prefix that says how many bytes follow it, within the limit. -/
def Truthful (buf : List UInt8) : Prop :=
  4 ≤ buf.length ∧ (u32.fromBeBytes (buf.take 4)).toNat = (buf.drop 4).length ∧
    u32.fromBeBytes (buf.take 4) ≤ maxFrameSize

/-- A writer refused the frame as too large and emitted nothing, or emitted a
truthful buffer, as much of it as the stream took. -/
def WritesTruthful (write : Sink → UInt32 → List UInt8 → Except FrameError Unit × Sink)
    (seq : UInt32) (frameData : List UInt8) : Prop :=
  ∀ w, (∃ len max, write w seq frameData = (.error (.tooLarge len max), w)) ∨
    ∃ buf, Truthful buf ∧
      write w seq frameData = ((w.writeAll buf).1.mapError .io, (w.writeAll buf).2)

/-- What the encoder and both writers owe their callers for one frame. -/
structure PrefixTruthful (seq : UInt32) (frameData : List UInt8) : Prop where
  encoded : (∃ len max, encodeFrame seq frameData = .error (.tooLarge len max)) ∨
    ∃ buf, encodeFrame seq frameData = .ok buf ∧ Truthful buf
  written : WritesTruthful writeFrame seq frameData
  writtenAsync : WritesTruthful writeFrameAsync seq frameData

/-- The header of a frame is right exactly when the frame is within the limit. -/
theorem truthful_bytes_iff (f : Frame) : Truthful f.bytes ↔ f.Fits := by
  have htake : f.bytes.take 4 = u32.toBeBytes (totalLen f.data) :=
    List.take_left' (u32.length_toBeBytes _)
  unfold Truthful
  rw [htake, Frame.drop_bytes, u32.fromBeBytes_toBeBytes, Frame.length_body]
  constructor
  · intro h
    obtain ⟨-, hlength, hmax⟩ := h
    rw [UInt32.le_iff_toNat_le, hlength] at hmax
    unfold Frame.Fits
    omega
  · intro h
    refine ⟨?_, h.toNat_totalLen, h.totalLen_le⟩
    simp [Frame.bytes]

theorem encodeFrame_truthful (seq : UInt32) {frameData : List UInt8}
    (hkept : LengthKept frameData.length) :
    (∃ len max, encodeFrame seq frameData = .error (.tooLarge len max)) ∨
      ∃ buf, encodeFrame seq frameData = .ok buf ∧ Truthful buf := by
  by_cases hlarge : maxFrameSize < totalLen frameData
  · refine .inl ⟨totalLen frameData, maxFrameSize, ?_⟩
    unfold encodeFrame
    rw [if_pos hlarge]
  · have hrun : encodeFrame seq frameData = .ok (Frame.bytes ⟨seq, frameData⟩) :=
      encodeFrame_ok_iff.mpr ⟨UInt32.not_lt.mp hlarge, rfl⟩
    exact .inr ⟨_, hrun, (truthful_bytes_iff _).mpr (fits_of_encodeFrame hrun hkept)⟩

/-- The writers emit what the encoder makes, and nothing when it refuses. -/
theorem writeFrameTo_truthful {seq : UInt32} {frameData : List UInt8}
    (hkept : LengthKept frameData.length) : WritesTruthful writeFrameTo seq frameData := by
  intro w
  obtain ⟨len, max, herror⟩ | ⟨buf, hbuf, htruthful⟩ := encodeFrame_truthful seq hkept
  · refine .inl ⟨len, max, ?_⟩
    unfold writeFrameTo
    rw [herror]
  · refine .inr ⟨buf, htruthful, ?_⟩
    unfold writeFrameTo
    rw [hbuf]
    dsimp only
    cases w.writeAll buf with
    | mk result w' => cases result <;> rfl

/-- Data whose length wraps into the limit is encoded behind a false header. -/
theorem encodeFrame_of_not_lengthKept (seq : UInt32) {frameData : List UInt8}
    (h : ¬LengthKept frameData.length) :
    encodeFrame seq frameData = .ok (Frame.bytes ⟨seq, frameData⟩) ∧
      ¬Truthful (Frame.bytes ⟨seq, frameData⟩) := by
  unfold LengthKept at h
  rw [not_or, Nat.not_lt] at h
  constructor
  · refine encodeFrame_ok_iff.mpr ⟨?_, rfl⟩
    rw [UInt32.le_iff_toNat_le, toNat_totalLen]
    exact h.2
  · rw [truthful_bytes_iff]
    intro hfits
    apply h.1
    unfold Frame.Fits at hfits
    rw [toNat_maxFrameSize] at hfits ⊢
    dsimp only at hfits
    omega

theorem not_prefixTruthful (seq : UInt32) {frameData : List UInt8}
    (h : ¬LengthKept frameData.length) : ¬PrefixTruthful seq frameData := by
  intro htruthful
  obtain ⟨hencode, hfalse⟩ := encodeFrame_of_not_lengthKept seq h
  obtain ⟨len, max, herror⟩ | ⟨buf, hbuf, hbufTruthful⟩ := htruthful.encoded
  · rw [hencode] at herror
    cases herror
  · rw [hencode] at hbuf
    obtain rfl := Except.ok.inj hbuf
    exact hfalse hbufTruthful

/-- The prefix is right, or the frame refused, for data of every size that fits
or that is too large even after the cast, and for no other. -/
theorem prefixTruthful_iff (seq : UInt32) (frameData : List UInt8) :
    PrefixTruthful seq frameData ↔ LengthKept frameData.length := by
  constructor
  · intro h
    by_contra hkept
    exact not_prefixTruthful seq hkept h
  · intro h
    exact ⟨encodeFrame_truthful seq h, writeFrameTo_truthful h, writeFrameTo_truthful h⟩

theorem not_lengthKept_two_pow_32 : ¬LengthKept (2 ^ 32) := by
  unfold LengthKept
  rw [toNat_maxFrameSize]
  omega

/-- Data of `2 ^ 32` bytes goes out behind a header that announces four. -/
theorem two_pow_32_announced_as_four :
    ¬PrefixTruthful 0 (List.replicate (2 ^ 32) 0) ∧
      ∃ buf, encodeFrame 0 (List.replicate (2 ^ 32) 0) = .ok buf ∧
        (u32.fromBeBytes (buf.take 4)).toNat = 4 ∧ (buf.drop 4).length = 4 + 2 ^ 32 := by
  obtain ⟨frameData, hdata⟩ : ∃ frameData, frameData = List.replicate (2 ^ 32) (0 : UInt8) :=
    ⟨_, rfl⟩
  have hlength : frameData.length = 2 ^ 32 := by rw [hdata, List.length_replicate]
  have hwrapped : ¬LengthKept frameData.length := by
    rw [hlength]
    exact not_lengthKept_two_pow_32
  rw [← hdata]
  refine ⟨not_prefixTruthful 0 hwrapped, _, (encodeFrame_of_not_lengthKept 0 hwrapped).1, ?_, ?_⟩
  · unfold Frame.bytes
    rw [List.take_left' (u32.length_toBeBytes _), u32.fromBeBytes_toBeBytes, toNat_totalLen]
    dsimp only
    rw [hlength, Nat.add_mod_left, Nat.mod_eq_of_lt (by decide)]
  · rw [Frame.drop_bytes, Frame.length_body, hlength]

end Hush.Frame
