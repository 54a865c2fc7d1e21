import Hush.Tlv.Varint

/-! Where the length field's 64-bit word is too small. Ten groups carry seventy
bits; the loop counts the bytes and not the bits, so a tenth byte may hold six
that the word does not. -/
namespace Hush.Tlv

open Hush.Foundation Leb128

/-- What `decode_varint` should be: the number it returns is the one that the
bytes it read denote, and bytes that denote more than a word are refused. -/
structure ReadsExactly (buf : List UInt8) : Prop where
  exact : ∀ {n : UInt64} {k : Nat}, decodeVarint buf = .ok (n, k) →
    k ≤ 10 ∧ k ≤ buf.length ∧ IsNumeral (buf.take k) ∧
      n.toNat = ∑ i ∈ Finset.range k, (buf.getD i 0).toNat % 128 * 2 ^ (7 * i)
  refuses : ∀ {chunk : List UInt8}, chunk <+: buf → IsNumeral chunk → 2 ^ 64 ≤ value chunk →
    ∃ e, decodeVarint buf = .error e

/-- Nine continued bytes, then a last byte with more than the one bit that is
left of the word. -/
def TenthByteOverflows (buf : List UInt8) : Prop :=
  (∀ byte ∈ buf.take 9, 128 ≤ byte.toNat) ∧
    ∃ byte ∈ buf[9]?, 2 ≤ byte.toNat ∧ byte.toNat < 128

instance (buf : List UInt8) : Decidable (TenthByteOverflows buf) :=
  inferInstanceAs (Decidable (_ ∧ _))

/-- A numeral of at most ten groups fits the word unless its tenth byte overflows. -/
theorem value_lt_of_not_overflows {buf chunk : List UInt8} (hbuf : ¬TenthByteOverflows buf)
    (hpre : chunk <+: buf) (hnumeral : IsNumeral chunk) (hlength : chunk.length ≤ 10) :
    value chunk < 2 ^ 64 := by
  obtain ⟨front, last, rfl, hfront, hlast⟩ := isNumeral_iff.mp hnumeral
  obtain ⟨rest, rfl⟩ := hpre
  rw [List.length_append, List.length_singleton] at hlength
  have hvalue := value_lt front
  rw [value_append_singleton, Nat.mod_eq_of_lt hlast]
  obtain hshort | hten : front.length ≤ 8 ∨ front.length = 9 := by omega
  · have hpow : 128 ^ front.length ≤ 128 ^ 8 := Nat.pow_le_pow_right (by decide) hshort
    have hmul : 128 ^ front.length * last.toNat ≤ 128 ^ 8 * 127 := Nat.mul_le_mul hpow (by omega)
    omega
  · have hbit : last.toNat < 2 := by
      by_contra hover
      refine hbuf ⟨?_, last, ?_, by omega, hlast⟩
      · rw [List.append_assoc, List.take_left' hten]
        exact hfront
      · simp [hten]
    rw [hten] at hvalue ⊢
    omega

/-- Ten bytes that the loop reads although the word cannot hold them. -/
theorem numeral_of_overflows {buf : List UInt8} (h : TenthByteOverflows buf) :
    ∃ chunk, chunk <+: buf ∧ IsNumeral chunk ∧ chunk.length = 10 ∧ 2 ^ 64 ≤ value chunk := by
  obtain ⟨hfront, last, hmem, hover, hlast⟩ := h
  obtain ⟨hlength, hget⟩ := List.getElem?_eq_some_iff.mp hmem
  have hnine : (buf.take 9).length = 9 := List.length_take_of_le (by omega)
  refine ⟨buf.take 9 ++ [last], ?_, isNumeral_iff.mpr ⟨_, _, rfl, hfront, hlast⟩, ?_, ?_⟩
  · rw [← hget, List.take_append_getElem]
    exact List.take_prefix _ _
  · rw [List.length_append, hnine, List.length_singleton]
  · rw [value_append_singleton, hnine, Nat.mod_eq_of_lt hlast]
    omega

/-- The number and the bytes agree, and too large numbers are refused, for every
buffer that does not start with a tenth byte of more than one bit, and for no other. -/
theorem readsExactly_iff (buf : List UInt8) : ReadsExactly buf ↔ ¬TenthByteOverflows buf := by
  constructor
  · intro h hover
    obtain ⟨chunk, hpre, hnumeral, hten, hlarge⟩ := numeral_of_overflows hover
    obtain ⟨e, he⟩ := h.refuses hpre hnumeral hlarge
    have hread : decodeVarint buf = .ok (UInt64.ofNat (value chunk), chunk.length) :=
      decodeVarint_ok_iff.mpr ⟨chunk, hpre, hnumeral, hten.le, UInt64.toNat_ofNat', rfl⟩
    rw [he] at hread
    cases hread
  · intro hfits
    constructor
    · intro n k hread
      obtain ⟨chunk, ⟨rest, rfl⟩, hnumeral, hlength, hn, rfl⟩ := decodeVarint_ok_iff.mp hread
      have hvalue := value_lt_of_not_overflows hfits (List.prefix_append _ _) hnumeral hlength
      refine ⟨hlength, ?_, ?_, ?_⟩
      · rw [List.length_append]
        omega
      · rwa [List.take_left]
      · rw [hn, Nat.mod_eq_of_lt hvalue, value_eq_sum]
        refine Finset.sum_congr rfl fun i hi => ?_
        rw [List.getD_append _ _ _ _ (Finset.mem_range.mp hi)]
    · intro chunk hpre hnumeral hlarge
      match hread : decodeVarint buf with
      | .error e => exact ⟨e, rfl⟩
      | .ok (n, k) =>
        -- what was read is the numeral that the buffer starts with
        obtain ⟨read, hreadPre, hreadNumeral, hlength, -, -⟩ := decodeVarint_ok_iff.mp hread
        obtain rfl := hreadNumeral.prefix_unique hreadPre hnumeral hpre
        have hvalue := value_lt_of_not_overflows hfits hpre hnumeral hlength
        omega

/-- Ten bytes that denote `2 ^ 64`, read as nought. -/
theorem two_pow_64_read_as_zero :
    ¬ReadsExactly (List.replicate 9 0x80 ++ [0x02]) ∧
      decodeVarint (List.replicate 9 0x80 ++ [0x02]) = .ok (0, 10) ∧
      value (List.replicate 9 0x80 ++ [0x02]) = 2 ^ 64 := by
  have hread : decodeVarint (List.replicate 9 0x80 ++ [0x02]) = .ok (0, 10) := by rfl
  refine ⟨?_, hread, by decide⟩
  intro h
  obtain ⟨-, -, -, hn⟩ := h.exact hread
  revert hn
  decide

end Hush.Tlv
