import Hush.Foundation.Utf8

/-! Bytes as text, two lower-case digits each. -/
namespace Hush.Foundation.Hex

def digit (n : Nat) : Char := if n < 10 then Char.ofNat (48 + n) else Char.ofNat (87 + n)

def digits (b : UInt8) : List Char := [digit (b.toNat / 16), digit (b.toNat % 16)]

def encode (bytes : List UInt8) : String := String.ofList (bytes.flatMap digits)

/-- The value of a digit of either case. -/
def value (c : Char) : Option Nat :=
  if 48 ≤ c.toNat ∧ c.toNat ≤ 57 then some (c.toNat - 48)
  else if 97 ≤ c.toNat ∧ c.toNat ≤ 102 then some (c.toNat - 87)
  else if 65 ≤ c.toNat ∧ c.toNat ≤ 70 then some (c.toNat - 55)
  else none

def decodeChars : List Char → Option (List UInt8)
  | [] => some []
  | [_] => none
  | high :: low :: rest => do
    let h ← value high
    let l ← value low
    let bytes ← decodeChars rest
    return UInt8.ofNat (16 * h + l) :: bytes

def decode (s : String) : Option (List UInt8) := decodeChars s.toList

theorem value_digit {n : Nat} (h : n < 16) : value (digit n) = some n := by
  have hall : ∀ n < 16, value (digit n) = some n := by decide
  exact hall n h

theorem utf8Size_digit {n : Nat} (h : n < 16) : (digit n).utf8Size = 1 := by
  have hall : ∀ n < 16, (digit n).utf8Size = 1 := by decide
  exact hall n h

theorem digits_lt (b : UInt8) : b.toNat / 16 < 16 ∧ b.toNat % 16 < 16 := by
  have hlt := b.toNat_lt
  omega

theorem decodeChars_digits (bytes : List UInt8) :
    decodeChars (bytes.flatMap digits) = some bytes := by
  induction bytes with
  | nil => rfl
  | cons b rest ih =>
    obtain ⟨hhigh, hlow⟩ := digits_lt b
    have hbyte : UInt8.ofNat (16 * (b.toNat / 16) + b.toNat % 16) = b := by
      rw [Nat.div_add_mod]
      exact UInt8.ofNat_toNat
    rw [List.flatMap_cons, digits, List.cons_append, List.cons_append, List.nil_append, decodeChars,
      value_digit hhigh, value_digit hlow, ih]
    change some (UInt8.ofNat (16 * (b.toNat / 16) + b.toNat % 16) :: rest) = _
    rw [hbyte]

/-- What is written reads back. -/
@[simp] theorem decode_encode (bytes : List UInt8) : decode (encode bytes) = some bytes := by
  unfold decode encode
  rw [String.toList_ofList]
  exact decodeChars_digits bytes

theorem encode_injective : Function.Injective encode := by
  intro bytes bytes' h
  have hdecode := congrArg decode h
  rw [decode_encode, decode_encode] at hdecode
  exact Option.some.inj hdecode

@[simp] theorem length_asBytes_encode (bytes : List UInt8) :
    (Utf8.asBytes (encode bytes)).length = 2 * bytes.length := by
  unfold encode
  rw [Utf8.length_asBytes_ofList]
  induction bytes with
  | nil => rfl
  | cons b rest ih =>
    obtain ⟨hhigh, hlow⟩ := digits_lt b
    rw [List.flatMap_cons, List.map_append, List.sum_append, ih, digits, List.map_cons,
      List.map_cons, utf8Size_digit hhigh, utf8Size_digit hlow, List.length_cons]
    simp
    omega

end Hush.Foundation.Hex
