import Hush.Foundation.BigEndian
import Hush.Foundation.Stream

/-! Frames of `frame.rs`: a length prefix, a sequence number and data. The sync
and the async functions have the same text, so each pair is one definition. -/
namespace Hush.Frame

set_option linter.dupNamespace false

open Hush.Foundation BigEndian Stream

def maxFrameSize : UInt32 := 1048576
def frameOverhead : UInt32 := 4 + 12 + 16
def frameMinData : UInt32 := 4

def maxSafePayload : UInt32 := maxFrameSize - frameOverhead

/-- The kinds of I/O error that the code tells apart, or that end a stream. A
connection that is still open ends in `wouldBlock`: a read past its bytes waits. -/
inductive ErrorKind where
  | unexpectedEof | wouldBlock | connectionReset | brokenPipe
  deriving DecidableEq, Repr

abbrev Source := Stream.Source ErrorKind
abbrev Sink := Stream.Sink ErrorKind

inductive FrameError where
  | eof
  | io (kind : ErrorKind)
  | tooLarge (len max : UInt32)
  | tooShort (len : UInt32)
  deriving DecidableEq, Repr

structure Frame where
  seq : UInt32
  data : List UInt8
  deriving DecidableEq, Repr

def readFrameFrom (r : Source) : Except FrameError (Frame × Source) :=
  match r.readExact 4 with
  | .error .unexpectedEof => .error .eof
  | .error e => .error (.io e)
  | .ok (lenBuf, r) =>
    let frameLen := u32.fromBeBytes lenBuf
    if maxFrameSize < frameLen then .error (.tooLarge frameLen maxFrameSize)
    else if frameLen < frameMinData then .error (.tooShort frameLen)
    else
      match r.readExact frameLen.toNat with
      | .error e => .error (.io e)
      | .ok (data, r) => .ok (⟨u32.fromBeBytes (data.take 4), data.drop 4⟩, r)

/-- Read a frame from an async reader. -/
def readFrameAsync : Source → Except FrameError (Frame × Source) := readFrameFrom

def readFrame : Source → Except FrameError (Frame × Source) := readFrameFrom

/-- `4u32 + frame_data.len() as u32`: the cast drops the high bits, and the sum
wraps as it does in a release build. -/
def totalLen (frameData : List UInt8) : UInt32 := 4 + UInt32.ofNat frameData.length

def encodeFrame (seq : UInt32) (frameData : List UInt8) : Except FrameError (List UInt8) :=
  if maxFrameSize < totalLen frameData then .error (.tooLarge (totalLen frameData) maxFrameSize)
  else .ok (u32.toBeBytes (totalLen frameData) ++ (u32.toBeBytes seq ++ frameData))

/-- The writers build the buffer of `encode_frame` and write it whole. -/
def writeFrameTo (w : Sink) (seq : UInt32) (frameData : List UInt8) :
    Except FrameError Unit × Sink :=
  match encodeFrame seq frameData with
  | .error e => (.error e, w)
  | .ok buf =>
    match w.writeAll buf with
    | (.ok (), w) => (.ok (), w)
    | (.error e, w) => (.error (.io e), w)

/-- Write a frame to an async writer. -/
def writeFrameAsync : Sink → UInt32 → List UInt8 → Except FrameError Unit × Sink := writeFrameTo

def writeFrame : Sink → UInt32 → List UInt8 → Except FrameError Unit × Sink := writeFrameTo

def parseFrameData (data : List UInt8) : Except FrameError Frame :=
  if data.length < 4 then .error (.tooShort (UInt32.ofNat data.length))
  else .ok ⟨u32.fromBeBytes (data.take 4), data.drop 4⟩

/-- The frame is within the size limit. -/
def Frame.Fits (f : Frame) : Prop := f.data.length ≤ maxFrameSize.toNat - 4

/-- What follows the length prefix on the wire. -/
def Frame.body (f : Frame) : List UInt8 := u32.toBeBytes f.seq ++ f.data

/-- The frame on the wire. -/
def Frame.bytes (f : Frame) : List UInt8 := u32.toBeBytes (totalLen f.data) ++ f.body

@[simp] theorem toNat_maxFrameSize : maxFrameSize.toNat = 1048576 := rfl

@[simp] theorem Frame.length_body (f : Frame) : f.body.length = 4 + f.data.length := by
  simp [Frame.body]

theorem Frame.bytes_ne_nil (f : Frame) : f.bytes ≠ [] := by
  apply List.ne_nil_of_length_pos
  simp [Frame.bytes]

theorem Frame.drop_bytes (f : Frame) : f.bytes.drop 4 = f.body :=
  List.drop_left' (u32.length_toBeBytes _)

theorem toNat_totalLen (frameData : List UInt8) :
    (totalLen frameData).toNat = (frameData.length + 4) % 2 ^ 32 := by
  unfold totalLen
  rw [UInt32.toNat_add, UInt32.toNat_ofNat']
  simp only [UInt32.reduceToNat]
  omega

theorem Frame.Fits.toNat_totalLen {f : Frame} (h : f.Fits) :
    (totalLen f.data).toNat = 4 + f.data.length := by
  unfold Frame.Fits at h
  rw [toNat_maxFrameSize] at h
  rw [Hush.Frame.toNat_totalLen, Nat.mod_eq_of_lt (by omega), Nat.add_comm]

theorem encodeFrame_ok_iff {seq : UInt32} {frameData buf : List UInt8} :
    encodeFrame seq frameData = .ok buf ↔
      totalLen frameData ≤ maxFrameSize ∧ buf = Frame.bytes ⟨seq, frameData⟩ := by
  unfold encodeFrame
  split
  · rename_i h
    simp [UInt32.not_le.mpr h]
  · rename_i h
    simp only [Except.ok.injEq, UInt32.not_lt.mp h, true_and, Frame.bytes, Frame.body]
    exact eq_comm

theorem Frame.Fits.totalLen_le {f : Frame} (h : f.Fits) : totalLen f.data ≤ maxFrameSize := by
  rw [UInt32.le_iff_toNat_le, h.toNat_totalLen, toNat_maxFrameSize]
  unfold Frame.Fits at h
  rw [toNat_maxFrameSize] at h
  omega

/-- Frame data of this size fits a frame, or is refused: its length is beyond the
limit even as the cast makes it. -/
def LengthKept (size : Nat) : Prop :=
  size + 4 ≤ maxFrameSize.toNat ∨ maxFrameSize.toNat < (size + 4) % 2 ^ 32

/-- Frame data that could be encoded fits, unless its length has wrapped. -/
theorem fits_of_encodeFrame {seq : UInt32} {frameData buf : List UInt8}
    (h : encodeFrame seq frameData = .ok buf) (hkept : LengthKept frameData.length) :
    Frame.Fits ⟨seq, frameData⟩ := by
  have hmax := UInt32.le_iff_toNat_le.mp (encodeFrame_ok_iff.mp h).1
  rw [toNat_totalLen] at hmax
  obtain hfits | hrefused := hkept
  · exact Nat.le_sub_of_add_le hfits
  · exact absurd hmax (Nat.not_le.mpr hrefused)

theorem Frame.Fits.encodeFrame {f : Frame} (h : f.Fits) :
    Frame.encodeFrame f.seq f.data = .ok f.bytes :=
  encodeFrame_ok_iff.mpr ⟨h.totalLen_le, rfl⟩

@[simp] theorem parseFrameData_body (f : Frame) : parseFrameData f.body = .ok f := by
  unfold parseFrameData
  rw [if_neg (by simp), Frame.body, List.take_left' (u32.length_toBeBytes _),
    List.drop_left' (u32.length_toBeBytes _), u32.fromBeBytes_toBeBytes]

/-- The two fields of a body are read back from it. -/
theorem Frame.ofBody {body : List UInt8} (h : 4 ≤ body.length) :
    Frame.body ⟨u32.fromBeBytes (body.take 4), body.drop 4⟩ = body := by
  unfold Frame.body
  rw [u32.toBeBytes_fromBeBytes (List.length_take_of_le h), List.take_append_drop]

example : encodeFrame 42 [104, 105] = .ok [0, 0, 0, 6, 0, 0, 0, 42, 104, 105] := by decide

end Hush.Frame
