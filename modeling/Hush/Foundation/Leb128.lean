import Mathlib.Algebra.BigOperators.Group.Finset.Basic
import Mathlib.Data.Nat.Log
import Mathlib.Data.List.GetD
import Mathlib.Data.List.Infix
import Mathlib.Tactic.Ring

/-! LEB128 numerals over the natural numbers: seven bits a byte, least
significant group first, the top bit set on every byte but the last. No word
size appears here; a reader with a bounded accumulator is measured against it. -/
namespace Hush.Foundation.Leb128

/-- The number that a string of seven-bit groups denotes. -/
def value : List UInt8 → Nat
  | [] => 0
  | byte :: rest => byte.toNat % 128 + 128 * value rest

/-- The continuation bit is set on all bytes but the last. -/
inductive IsNumeral : List UInt8 → Prop where
  | last {byte : UInt8} : byte.toNat < 128 → IsNumeral [byte]
  | more {byte : UInt8} {rest : List UInt8} :
      128 ≤ byte.toNat → IsNumeral rest → IsNumeral (byte :: rest)

/-- The shortest numeral of a number. -/
def encode (n : Nat) : List UInt8 :=
  if n < 128 then [UInt8.ofNat n] else UInt8.ofNat (n % 128 + 128) :: encode (n / 128)

theorem encode_of_lt {n : Nat} (h : n < 128) : encode n = [UInt8.ofNat n] := by
  rw [encode, if_pos h]

theorem encode_of_le {n : Nat} (h : 128 ≤ n) :
    encode n = UInt8.ofNat (n % 128 + 128) :: encode (n / 128) := by
  rw [encode, if_neg (Nat.not_lt.mpr h)]

/-- The continuation bit set on every byte of the front, clear on the last. -/
theorem isNumeral_iff {chunk : List UInt8} :
    IsNumeral chunk ↔ ∃ front last, chunk = front ++ [last] ∧
      (∀ byte ∈ front, 128 ≤ byte.toNat) ∧ last.toNat < 128 := by
  constructor
  · intro h
    induction h with
    | @last byte hbyte => exact ⟨[], byte, rfl, fun _ hmem => absurd hmem List.not_mem_nil, hbyte⟩
    | @more byte rest hbyte _ ih =>
      obtain ⟨front, last, rfl, hfront, hlast⟩ := ih
      exact ⟨byte :: front, last, rfl, List.forall_mem_cons.mpr ⟨hbyte, hfront⟩, hlast⟩
  · rintro ⟨front, last, rfl, hfront, hlast⟩
    induction front with
    | nil => exact .last hlast
    | cons byte front ih =>
      rw [List.forall_mem_cons] at hfront
      exact .more hfront.1 (ih hfront.2)

theorem value_append_singleton (front : List UInt8) (last : UInt8) :
    value (front ++ [last]) = value front + 128 ^ front.length * (last.toNat % 128) := by
  induction front with
  | nil => simp [value]
  | cons byte front ih =>
    rw [List.cons_append, value, value, ih, List.length_cons, Nat.pow_succ]
    ring

/-- Group `i` of a numeral weighs `2 ^ (7 * i)`. -/
theorem value_eq_sum (chunk : List UInt8) :
    value chunk = ∑ i ∈ Finset.range chunk.length, (chunk.getD i 0).toNat % 128 * 2 ^ (7 * i) := by
  induction chunk using List.reverseRecOn with
  | nil => rfl
  | append_singleton front last ih =>
    have hfront : ∀ i ∈ Finset.range front.length, ((front ++ [last]).getD i 0).toNat % 128 *
        2 ^ (7 * i) = (front.getD i 0).toNat % 128 * 2 ^ (7 * i) := by
      intro i hi
      rw [List.getD_append _ _ _ _ (Finset.mem_range.mp hi)]
    have hlast : (front ++ [last]).getD front.length 0 = last := by
      rw [List.getD_append_right _ _ _ _ (Nat.le_refl _), Nat.sub_self]
      rfl
    rw [value_append_singleton, List.length_append, List.length_singleton, Finset.sum_range_succ,
      Finset.sum_congr rfl hfront, ← ih, hlast, Nat.pow_mul, Nat.mul_comm (last.toNat % 128)]

theorem IsNumeral.ne_nil {chunk : List UInt8} (h : IsNumeral chunk) : chunk ≠ [] := by
  cases h <;> exact List.cons_ne_nil _ _

theorem IsNumeral.length_pos {chunk : List UInt8} (h : IsNumeral chunk) : 0 < chunk.length :=
  List.length_pos_iff.mpr h.ne_nil

/-- A byte without the continuation bit is all of the numeral that it starts. -/
theorem IsNumeral.prefix_last_iff {byte : UInt8} (h : byte.toNat < 128) {chunk rest : List UInt8} :
    chunk <+: byte :: rest ∧ IsNumeral chunk ↔ chunk = [byte] := by
  constructor
  · intro hchunk
    obtain ⟨hpre, hnumeral⟩ := hchunk
    cases hnumeral with
    | last _ => rw [(List.cons_prefix_cons.mp hpre).1]
    | more hmore _ =>
      rw [(List.cons_prefix_cons.mp hpre).1] at hmore
      exact absurd h (Nat.not_lt.mpr hmore)
  · rintro rfl
    exact ⟨List.prefix_append [byte] rest, .last h⟩

/-- After a byte with the continuation bit comes the rest of its numeral. -/
theorem IsNumeral.prefix_more_iff {byte : UInt8} (h : 128 ≤ byte.toNat)
    {chunk rest : List UInt8} :
    chunk <+: byte :: rest ∧ IsNumeral chunk ↔
      ∃ tail, chunk = byte :: tail ∧ tail <+: rest ∧ IsNumeral tail := by
  constructor
  · intro hchunk
    obtain ⟨hpre, hnumeral⟩ := hchunk
    cases hnumeral with
    | last hlast =>
      rw [(List.cons_prefix_cons.mp hpre).1] at hlast
      exact absurd hlast (Nat.not_lt.mpr h)
    | more _ hnumeral =>
      obtain ⟨rfl, htail⟩ := List.cons_prefix_cons.mp hpre
      exact ⟨_, rfl, htail, hnumeral⟩
  · rintro ⟨tail, rfl, hpre, hnumeral⟩
    exact ⟨List.cons_prefix_cons.mpr ⟨rfl, hpre⟩, .more h hnumeral⟩

/-- Numerals are prefix-free: no buffer starts with two. -/
theorem IsNumeral.prefix_unique {left right buf : List UInt8} (hleft : IsNumeral left)
    (hleftPre : left <+: buf) (hright : IsNumeral right) (hrightPre : right <+: buf) :
    left = right := by
  induction hleft generalizing right buf with
  | @last byte hbyte =>
    obtain ⟨rest, rfl⟩ := hleftPre
    exact ((prefix_last_iff hbyte).mp ⟨hrightPre, hright⟩).symm
  | @more byte rest hbyte _ ih =>
    obtain ⟨after, rfl⟩ := hleftPre
    obtain ⟨tail, rfl, htail, hnumeral⟩ := (prefix_more_iff hbyte).mp ⟨hrightPre, hright⟩
    rw [ih (List.prefix_append _ _) hnumeral htail]

theorem toNat_continued (n : Nat) : (UInt8.ofNat (n % 128 + 128)).toNat = n % 128 + 128 := by
  rw [UInt8.toNat_ofNat']
  omega

theorem isNumeral_encode (n : Nat) : IsNumeral (encode n) := by
  induction n using Nat.strongRecOn with
  | ind n ih =>
    by_cases h : n < 128
    · rw [encode_of_lt h]
      refine .last ?_
      rw [UInt8.toNat_ofNat']
      omega
    · rw [encode_of_le (by omega)]
      refine .more ?_ (ih (n / 128) (by omega))
      rw [toNat_continued]
      omega

@[simp] theorem value_encode (n : Nat) : value (encode n) = n := by
  induction n using Nat.strongRecOn with
  | ind n ih =>
    by_cases h : n < 128
    · rw [encode_of_lt h, value, value, UInt8.toNat_ofNat']
      omega
    · rw [encode_of_le (by omega), value, ih (n / 128) (by omega), toNat_continued]
      omega

theorem value_lt (chunk : List UInt8) : value chunk < 128 ^ chunk.length := by
  induction chunk with
  | nil => exact Nat.one_pos
  | cons byte rest ih =>
    have hgroup : byte.toNat % 128 < 128 := Nat.mod_lt _ (by decide)
    rw [value, List.length_cons, Nat.pow_succ]
    omega

/-- `k` groups are enough for a number exactly when it is below `128 ^ k`. -/
theorem length_encode_le_iff {n k : Nat} (hk : 0 < k) :
    (encode n).length ≤ k ↔ n < 128 ^ k := by
  constructor
  · intro h
    calc n = value (encode n) := (value_encode n).symm
      _ < 128 ^ (encode n).length := value_lt _
      _ ≤ 128 ^ k := Nat.pow_le_pow_right (by decide) h
  · intro h
    induction k generalizing n with
    | zero => exact absurd hk (Nat.lt_irrefl 0)
    | succ k ih =>
      by_cases hn : n < 128
      · rw [encode_of_lt hn, List.length_singleton]
        omega
      · have hk : 0 < k := by
          by_contra hzero
          obtain rfl : k = 0 := by omega
          omega
        have hquotient : n / 128 < 128 ^ k := by
          rw [Nat.div_lt_iff_lt_mul (by decide), ← Nat.pow_succ]
          exact h
        have hrest := ih hk hquotient
        rw [encode_of_le (by omega), List.length_cons]
        omega

/-- Any numeral whose value is at least `n` is at least as long as the shortest
one of `n`. -/
theorem length_encode_le_of_le_value {n : Nat} {chunk : List UInt8} (hchunk : IsNumeral chunk)
    (h : n ≤ value chunk) : (encode n).length ≤ chunk.length :=
  (length_encode_le_iff hchunk.length_pos).mpr (h.trans_lt (value_lt chunk))

theorem length_encode_mono {m n : Nat} (h : m ≤ n) : (encode m).length ≤ (encode n).length :=
  length_encode_le_of_le_value (isNumeral_encode n) (by rwa [value_encode])

end Hush.Foundation.Leb128
