import Hush.Foundation.Leb128
import Mathlib.Data.Nat.Bitwise

/-! The length field of `tlv.rs`: two loops over a 64-bit word. Both are
measured against the LEB128 numerals, which have no word size. -/
namespace Hush.Tlv

open Hush.Foundation

theorem toNat_shiftRight_seven (n : UInt64) : (n >>> 7).toNat = n.toNat / 128 := by
  rw [UInt64.toNat_shiftRight]
  simp [Nat.shiftRight_eq_div_pow]

@[semireducible] def encodeVarint (n : UInt64) : List UInt8 :=
  let byte := (n &&& 0x7F).toUInt8
  if n >>> 7 ≠ 0 then (byte ||| 0x80) :: encodeVarint (n >>> 7) else [byte]
termination_by n.toNat
decreasing_by
  rename_i h
  have hnext : (n >>> 7).toNat ≠ 0 := fun hzero => h (UInt64.toNat_inj.mp hzero)
  rw [toNat_shiftRight_seven] at hnext ⊢
  omega

def decodeVarintLoop (result : UInt64) (shift i : Nat) :
    List UInt8 → Except String (UInt64 × Nat)
  | [] => .error "unterminated varint"
  | byte :: rest =>
    if 10 ≤ i then .error "varint too long"
    else
      let result := result ||| ((byte &&& 0x7F).toUInt64 <<< UInt64.ofNat shift)
      if byte &&& 0x80 = 0 then .ok (result, i + 1)
      else decodeVarintLoop result (shift + 7) (i + 1) rest

def decodeVarint (buf : List UInt8) : Except String (UInt64 × Nat) :=
  decodeVarintLoop 0 0 0 buf

theorem toNat_and_low (byte : UInt8) : (byte &&& 0x7F).toNat = byte.toNat % 128 := by
  rw [UInt8.toNat_and]
  exact Nat.and_two_pow_sub_one_eq_mod byte.toNat 7

theorem and_high_eq_zero_iff (byte : UInt8) : byte &&& 0x80 = 0 ↔ byte.toNat < 128 := by
  have hbyte : byte.toNat < 256 := byte.toNat_lt
  rw [← UInt8.toNat_inj, UInt8.toNat_and]
  change byte.toNat &&& 2 ^ 7 = 0 ↔ _
  rw [Nat.and_two_pow, Nat.testBit_eq_decide_div_mod_eq]
  simp only [Nat.reducePow, mul_eq_zero, Bool.toNat_eq_zero, decide_eq_false_iff_not]
  omega

/-- The encoder writes the shortest numeral of its word. -/
theorem encodeVarint_eq (n : UInt64) : encodeVarint n = Leb128.encode n.toNat := by
  induction h : n.toNat using Nat.strongRecOn generalizing n with
  | ind m ih =>
    have hlow : (n &&& 0x7F).toUInt8 = UInt8.ofNat (m % 128) := by
      apply UInt8.toNat_inj.mp
      rw [UInt64.toNat_toUInt8, UInt64.toNat_and, UInt8.toNat_ofNat', h]
      exact congrArg (· % 256) (Nat.and_two_pow_sub_one_eq_mod m 7)
    have hzero : n >>> 7 ≠ 0 ↔ 128 ≤ m := by
      rw [← UInt64.toNat_inj.ne, toNat_shiftRight_seven, h]
      simp only [UInt64.toNat_zero]
      omega
    rw [encodeVarint, hlow]
    by_cases hm : 128 ≤ m
    · rw [if_pos (hzero.mpr hm), ih (m / 128) (by omega) _ (by rw [toNat_shiftRight_seven, h]),
        Leb128.encode_of_le hm]
      congr 1
      apply UInt8.toNat_inj.mp
      rw [UInt8.toNat_or, UInt8.toNat_ofNat', Leb128.toNat_continued,
        Nat.mod_eq_of_lt (by omega : m % 128 < 2 ^ 8), Nat.or_comm]
      have hgroup : m % 128 < 2 ^ 7 := Nat.mod_lt _ (by decide)
      rw [Nat.add_comm]
      exact (Nat.two_pow_add_eq_or_of_lt hgroup 1).symm
    · rw [if_neg (fun hnext => hm (hzero.mp hnext)), Leb128.encode_of_lt (by omega),
        Nat.mod_eq_of_lt (by omega)]

/-- One round of the accumulator: a group lands above the bits gathered so far,
and what does not fit in the word is lost. -/
theorem toNat_or_shiftLeft {result group : UInt64} {shift : Nat} (hshift : shift < 64)
    (h : result.toNat < 2 ^ shift) :
    (result ||| (group <<< UInt64.ofNat shift)).toNat =
      (result.toNat + 2 ^ shift * group.toNat) % 2 ^ 64 := by
  have hword : (2 : Nat) ^ 64 = 2 ^ shift * 2 ^ (64 - shift) := by
    rw [← Nat.pow_add]
    congr 1
    omega
  have hamount : (UInt64.ofNat shift).toNat % 64 = shift := by
    rw [UInt64.toNat_ofNat', Nat.mod_mod_of_dvd _ (by decide), Nat.mod_eq_of_lt hshift]
  have hgroup : group.toNat <<< shift % 2 ^ 64 = 2 ^ shift * (group.toNat % 2 ^ (64 - shift)) := by
    rw [Nat.shiftLeft_eq, Nat.mul_comm, hword, Nat.mul_mod_mul_left]
  rw [UInt64.toNat_or, UInt64.toNat_shiftLeft, hamount, hgroup, Nat.or_comm,
    ← Nat.two_pow_add_eq_or_of_lt h, hword, Nat.add_comm result.toNat, Nat.mod_mul,
    Nat.mul_add_mod, Nat.mod_eq_of_lt h, Nat.mul_add_div (Nat.two_pow_pos shift),
    Nat.div_eq_of_lt h, Nat.add_zero, Nat.add_comm]

theorem toNat_accumulate {result : UInt64} {byte : UInt8} {i : Nat} (hi : i < 10)
    (hresult : result.toNat < 2 ^ (7 * i)) :
    (result ||| ((byte &&& 0x7F).toUInt64 <<< UInt64.ofNat (7 * i))).toNat =
      (result.toNat + 2 ^ (7 * i) * (byte.toNat % 128)) % 2 ^ 64 := by
  have hgroup : ((byte &&& 0x7F).toUInt64).toNat = byte.toNat % 128 := by
    rw [UInt8.toNat_toUInt64, toNat_and_low]
  rw [toNat_or_shiftLeft (by omega) hresult, hgroup]

theorem accumulate_lt {result : UInt64} (byte : UInt8) {i : Nat} (hi : i < 10)
    (hresult : result.toNat < 2 ^ (7 * i)) :
    (result ||| ((byte &&& 0x7F).toUInt64 <<< UInt64.ofNat (7 * i))).toNat <
      2 ^ (7 * (i + 1)) := by
  have hlow : byte.toNat % 128 + 1 ≤ 128 := Nat.mod_lt _ (by decide)
  rw [toNat_accumulate hi hresult]
  calc (result.toNat + 2 ^ (7 * i) * (byte.toNat % 128)) % 2 ^ 64
      ≤ result.toNat + 2 ^ (7 * i) * (byte.toNat % 128) := Nat.mod_le _ _
    _ < 2 ^ (7 * i) * (byte.toNat % 128 + 1) := by
      rw [Nat.mul_add, Nat.mul_one]
      omega
    _ ≤ 2 ^ (7 * i) * 128 := Nat.mul_le_mul_left _ hlow
    _ = 2 ^ (7 * (i + 1)) := by rw [Nat.mul_add, Nat.pow_add]

/-- What the accumulator and the groups above it add up to does not change. -/
theorem accumulate_value {result : UInt64} (byte : UInt8) {i : Nat} (hi : i < 10)
    (hresult : result.toNat < 2 ^ (7 * i)) (tail : List UInt8) :
    ((result ||| ((byte &&& 0x7F).toUInt64 <<< UInt64.ofNat (7 * i))).toNat +
        2 ^ (7 * (i + 1)) * Leb128.value tail) % 2 ^ 64 =
      (result.toNat + 2 ^ (7 * i) * Leb128.value (byte :: tail)) % 2 ^ 64 := by
  have hpow : 2 ^ (7 * (i + 1)) = 2 ^ (7 * i) * 128 := by
    rw [Nat.mul_add, Nat.pow_add]
  rw [toNat_accumulate hi hresult, Nat.mod_add_mod, Leb128.value, hpow]
  congr 1
  ring

/-- The loop reads a numeral of at most ten groups in all and adds its value,
modulo the word, to the accumulator. -/
theorem decodeVarintLoop_ok_iff (buf : List UInt8) {result : UInt64} {i : Nat}
    (hresult : result.toNat < 2 ^ (7 * i)) {n : UInt64} {k : Nat} :
    decodeVarintLoop result (7 * i) i buf = .ok (n, k) ↔
      ∃ chunk, (chunk <+: buf ∧ Leb128.IsNumeral chunk) ∧ i + chunk.length ≤ 10 ∧
        n.toNat = (result.toNat + 2 ^ (7 * i) * Leb128.value chunk) % 2 ^ 64 ∧
        k = i + chunk.length := by
  induction buf generalizing result i with
  | nil =>
    simp only [decodeVarintLoop, reduceCtorEq, List.prefix_nil, false_iff, not_exists]
    rintro chunk ⟨⟨rfl, hnumeral⟩, -⟩
    exact hnumeral.ne_nil rfl
  | cons byte rest ih =>
    rw [decodeVarintLoop]
    by_cases hi : 10 ≤ i
    · simp only [if_pos hi, reduceCtorEq, false_iff, not_exists]
      rintro chunk ⟨⟨-, hnumeral⟩, hlength, -⟩
      have := hnumeral.length_pos
      omega
    · have hvalue := accumulate_value byte (Nat.not_le.mp hi) hresult
      have hbound := accumulate_lt byte (Nat.not_le.mp hi) hresult
      rw [if_neg hi]
      generalize result ||| ((byte &&& 0x7F).toUInt64 <<< UInt64.ofNat (7 * i)) = next
        at hvalue hbound
      by_cases hlast : byte.toNat < 128
      · -- the last byte of a numeral
        have hnil := hvalue []
        rw [Leb128.value, Nat.mul_zero, Nat.add_zero, Nat.mod_eq_of_lt next.toNat_lt] at hnil
        simp only [if_pos ((and_high_eq_zero_iff byte).mpr hlast), Except.ok.injEq, Prod.mk.injEq,
          Leb128.IsNumeral.prefix_last_iff hlast, exists_eq_left, List.length_singleton, ← hnil,
          UInt64.toNat_inj]
        constructor
        · rintro ⟨rfl, rfl⟩
          exact ⟨by omega, rfl, rfl⟩
        · rintro ⟨-, rfl, rfl⟩
          exact ⟨rfl, rfl⟩
      · -- a continued byte: the rest of the numeral starts one group higher
        rw [if_neg (fun hzero => hlast ((and_high_eq_zero_iff byte).mp hzero))]
        change decodeVarintLoop _ (7 * (i + 1)) (i + 1) rest = _ ↔ _
        simp only [ih hbound, Leb128.IsNumeral.prefix_more_iff (Nat.not_lt.mp hlast), hvalue]
        constructor
        · rintro ⟨tail, htail, hlength, hn, rfl⟩
          refine ⟨byte :: tail, ⟨tail, rfl, htail⟩, ?_, hn, ?_⟩
          · rw [List.length_cons]
            omega
          · rw [List.length_cons]
            omega
        · rintro ⟨chunk, ⟨tail, rfl, htail⟩, hlength, hn, rfl⟩
          rw [List.length_cons] at hlength ⊢
          exact ⟨tail, htail, by omega, hn, by omega⟩

/-- `decode_varint` reads the numeral of at most ten bytes that the buffer
starts with; its value is reduced modulo `2 ^ 64`. -/
theorem decodeVarint_ok_iff {buf : List UInt8} {n : UInt64} {k : Nat} :
    decodeVarint buf = .ok (n, k) ↔
      ∃ chunk, chunk <+: buf ∧ Leb128.IsNumeral chunk ∧ chunk.length ≤ 10 ∧
        n.toNat = Leb128.value chunk % 2 ^ 64 ∧ k = chunk.length := by
  have hzero : (0 : UInt64).toNat < 2 ^ (7 * 0) := by decide
  simpa [decodeVarint, and_assoc] using decodeVarintLoop_ok_iff buf hzero (n := n) (k := k)

theorem length_encodeVarint_le_ten (n : UInt64) : (encodeVarint n).length ≤ 10 := by
  rw [encodeVarint_eq, Leb128.length_encode_le_iff (by decide)]
  exact n.toNat_lt.trans (by decide)

theorem length_encodeVarint_mono {m n : UInt64} (h : m ≤ n) :
    (encodeVarint m).length ≤ (encodeVarint n).length := by
  rw [encodeVarint_eq, encodeVarint_eq]
  exact Leb128.length_encode_mono h

theorem decodeVarint_encodeVarint_append (n : UInt64) (rest : List UInt8) :
    decodeVarint (encodeVarint n ++ rest) = .ok (n, (encodeVarint n).length) := by
  refine decodeVarint_ok_iff.mpr ⟨encodeVarint n, List.prefix_append _ _, ?_,
    length_encodeVarint_le_ten n, ?_, rfl⟩
  · rw [encodeVarint_eq]
    exact Leb128.isNumeral_encode _
  · rw [encodeVarint_eq, Leb128.value_encode, Nat.mod_eq_of_lt n.toNat_lt]

/-- What follows the length field does not matter. -/
theorem decodeVarint_append {buf : List UInt8} {n : UInt64} {k : Nat}
    (h : decodeVarint buf = .ok (n, k)) (rest : List UInt8) :
    decodeVarint (buf ++ rest) = .ok (n, k) := by
  obtain ⟨chunk, hpre, hchunk⟩ := decodeVarint_ok_iff.mp h
  exact decodeVarint_ok_iff.mpr ⟨chunk, hpre.trans (List.prefix_append _ _), hchunk⟩

/-- The bytes read are themselves a complete length field. -/
theorem decodeVarint_take {buf : List UInt8} {n : UInt64} {k : Nat}
    (h : decodeVarint buf = .ok (n, k)) :
    k ≤ buf.length ∧ decodeVarint (buf.take k) = .ok (n, k) := by
  obtain ⟨chunk, ⟨rest, rfl⟩, hchunk, hlength, hn, rfl⟩ := decodeVarint_ok_iff.mp h
  rw [List.take_left, List.length_append]
  exact ⟨Nat.le_add_right _ _,
    decodeVarint_ok_iff.mpr ⟨chunk, List.prefix_rfl, hchunk, hlength, hn, rfl⟩⟩

/-- No length field is shorter than the one the encoder writes. -/
theorem length_encodeVarint_le {buf : List UInt8} {n : UInt64} {k : Nat}
    (h : decodeVarint buf = .ok (n, k)) : (encodeVarint n).length ≤ k := by
  obtain ⟨chunk, -, hchunk, -, hn, rfl⟩ := decodeVarint_ok_iff.mp h
  rw [encodeVarint_eq]
  exact Leb128.length_encode_le_of_le_value hchunk (hn ▸ Nat.mod_le _ _)

/-- A length field that is cut short is none. -/
theorem decodeVarint_cut {n : UInt64} {front : List UInt8} (hfront : front <+: encodeVarint n)
    (hcut : front ≠ encodeVarint n) : ∃ msg, decodeVarint front = .error msg := by
  cases hread : decodeVarint front with
  | error msg => exact ⟨msg, rfl⟩
  | ok read =>
    obtain ⟨chunk, hchunk, hnumeral, -⟩ := decodeVarint_ok_iff.mp hread
    have hwhole : Leb128.IsNumeral (encodeVarint n) := by
      rw [encodeVarint_eq]
      exact Leb128.isNumeral_encode _
    obtain rfl := hnumeral.prefix_unique (hchunk.trans hfront) hwhole List.prefix_rfl
    exact absurd (hfront.eq_of_length_le hchunk.length_le) hcut

/-- The encoder and the decoder agree, on fields of one to ten bytes that no proper prefix
of theirs stands for, and nothing shorter is read as the same number. -/
theorem varint_roundtrip (n : UInt64) :
    (∀ rest, decodeVarint (encodeVarint n ++ rest) = .ok (n, (encodeVarint n).length)) ∧
      1 ≤ (encodeVarint n).length ∧ (encodeVarint n).length ≤ 10 ∧
      (∀ front, front <+: encodeVarint n → front ≠ encodeVarint n →
        ∃ msg, decodeVarint front = .error msg) ∧
      ∀ buf k, decodeVarint buf = .ok (n, k) → (encodeVarint n).length ≤ k := by
  have hpos : 1 ≤ (encodeVarint n).length := by
    rw [encodeVarint_eq]
    exact (Leb128.isNumeral_encode _).length_pos
  exact ⟨decodeVarint_encodeVarint_append n, hpos, length_encodeVarint_le_ten n,
    fun _ hfront hcut => decodeVarint_cut hfront hcut,
    fun _ _ hread => length_encodeVarint_le hread⟩

example : encodeVarint 300 = [0xAC, 0x02] := by decide
example : decodeVarint [0xAC, 0x02, 0xFF] = .ok (300, 2) := by rfl

end Hush.Tlv
