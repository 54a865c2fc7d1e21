import Mathlib.Algebra.Ring.Nat

/-! Strings, the byte strings that encode them, and the lossy reading of the
byte strings that encode none. -/
namespace Hush.Foundation.Utf8

def asBytes (s : String) : List UInt8 := s.toByteArray.data.toList

/-- The string that the bytes encode, when they are valid UTF-8. -/
def fromUtf8 (bytes : List UInt8) : Option String := String.fromUTF8? ⟨bytes.toArray⟩

theorem fromUtf8_eq_some_iff {bytes : List UInt8} {s : String} :
    fromUtf8 bytes = some s ↔ bytes = asBytes s := by
  unfold fromUtf8 String.fromUTF8? asBytes
  constructor
  · intro h
    split at h
    · cases h
      rfl
    · cases h
  · rintro rfl
    rw [dif_pos s.isValidUTF8]
    rfl

@[simp] theorem fromUtf8_asBytes (s : String) : fromUtf8 (asBytes s) = some s :=
  fromUtf8_eq_some_iff.mpr rfl

/-- Bytes that a first byte announces, itself included; none starts with zero. -/
def charWidth (first : UInt8) : Nat :=
  if first < 0x80 then 1
  else if 0xC2 ≤ first ∧ first ≤ 0xDF then 2
  else if 0xE0 ≤ first ∧ first ≤ 0xEF then 3
  else if 0xF0 ≤ first ∧ first ≤ 0xF4 then 4
  else 0

def isContinuation (b : UInt8) : Bool := 0x80 ≤ b ∧ b ≤ 0xBF

/-- Second bytes, without the overlong forms, the surrogates and what lies
beyond the last code point. -/
def isSecond (first second : UInt8) : Bool :=
  match first with
  | 0xE0 => 0xA0 ≤ second ∧ second ≤ 0xBF
  | 0xED => 0x80 ≤ second ∧ second ≤ 0x9F
  | 0xF0 => 0x90 ≤ second ∧ second ≤ 0xBF
  | 0xF4 => 0x80 ≤ second ∧ second ≤ 0x8F
  | _ => isContinuation second

/-- The code point of a first byte, which keeps `bits` bits, and the bytes after it. -/
def codePoint (bits : Nat) (first : UInt8) (rest : List UInt8) : Char :=
  Char.ofNat (rest.foldl (fun acc b => acc * 64 + b.toNat % 64) (first.toNat % 2 ^ bits))

/-- The character at the start of the bytes, or none and the length of the
longest start of one, which the replacement character stands for. -/
def scanChar (first : UInt8) (rest : List UInt8) : Option Char × Nat :=
  match charWidth first with
  | 0 => (none, 1)
  | 1 => (some (codePoint 7 first []), 1)
  | width =>
    if !isSecond first (rest.getD 0 0) then (none, 1)
    else if width = 2 then (some (codePoint 5 first (rest.take 1)), 2)
    else if !isContinuation (rest.getD 1 0) then (none, 2)
    else if width = 3 then (some (codePoint 4 first (rest.take 2)), 3)
    else if !isContinuation (rest.getD 2 0) then (none, 3)
    else (some (codePoint 3 first (rest.take 3)), 4)

def lossyChars : Nat → List UInt8 → List Char
  | 0, _ => []
  | _, [] => []
  | fuel + 1, first :: rest =>
    let (c, width) := scanChar first rest
    c.getD '\uFFFD' :: lossyChars fuel (rest.drop (width - 1))

/-- `from_utf8_lossy`: valid bytes as they are, else every ill-formed part
replaced. -/
def fromUtf8Lossy (bytes : List UInt8) : String :=
  match fromUtf8 bytes with
  | some s => s
  | none => String.ofList (lossyChars bytes.length bytes)

@[simp] theorem fromUtf8Lossy_asBytes (s : String) : fromUtf8Lossy (asBytes s) = s := by
  unfold fromUtf8Lossy
  rw [fromUtf8_asBytes]

example : fromUtf8Lossy [0x61, 0xE2, 0x82, 0x28, 0xFF] = "a\uFFFD(\uFFFD" := by decide

theorem length_asBytes_ofList (cs : List Char) :
    (asBytes (String.ofList cs)).length = (cs.map Char.utf8Size).sum := by
  unfold asBytes
  rw [String.toByteArray_ofList, Array.length_toList]
  change cs.utf8Encode.size = _
  induction cs with
  | nil => rfl
  | cons c cs ih =>
    rw [List.utf8Encode_cons, ByteArray.size_append, ih, List.utf8Encode_singleton]
    simp

theorem length_asBytes_ofList_le (cs : List Char) :
    (asBytes (String.ofList cs)).length ≤ 4 * cs.length := by
  rw [length_asBytes_ofList]
  induction cs with
  | nil => exact Nat.le_refl 0
  | cons c cs ih =>
    have hsize := c.utf8Size_le_four
    rw [List.map_cons, List.sum_cons, List.length_cons]
    omega

theorem length_lossyChars_le (fuel : Nat) (bytes : List UInt8) :
    (lossyChars fuel bytes).length ≤ fuel := by
  fun_induction lossyChars fuel bytes with
  | case1 => exact Nat.le_refl 0
  | case2 => exact Nat.zero_le _
  | case3 fuel first rest c width hscan ih => exact Nat.succ_le_succ ih

/-- The reading of some bytes has at most four times as many. -/
theorem length_fromUtf8Lossy_le (bytes : List UInt8) :
    (asBytes (fromUtf8Lossy bytes)).length ≤ 4 * bytes.length := by
  unfold fromUtf8Lossy
  split
  · rename_i s hvalid
    rw [fromUtf8_eq_some_iff.mp hvalid]
    omega
  · refine Nat.le_trans (length_asBytes_ofList_le _) ?_
    exact Nat.mul_le_mul_left 4 (length_lossyChars_le _ _)
end Hush.Foundation.Utf8
