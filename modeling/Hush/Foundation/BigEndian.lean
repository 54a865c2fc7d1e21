import Mathlib.Data.Nat.Digits.Lemmas

/-! Fixed-width big-endian byte strings and the naturals they spell. Nothing
here knows about a wire format: a width and a natural go in, bytes come out. -/
namespace Hush.Foundation.BigEndian

/-- The `width` low-order base-256 digits of `value`, most significant first. -/
def toBytes : (width value : Nat) → List UInt8
  | 0, _ => []
  | width + 1, value => UInt8.ofNat (value / 256 ^ width) :: toBytes width value

/-- The natural that a byte string spells, most significant byte first. -/
def ofBytes : List UInt8 → Nat
  | [] => 0
  | byte :: rest => byte.toNat * 256 ^ rest.length + ofBytes rest

@[simp] theorem length_toBytes (width value : Nat) :
    (toBytes width value).length = width := by
  induction width with
  | zero => rfl
  | succ width ih => rw [toBytes, List.length_cons, ih]

theorem ofBytes_lt (bytes : List UInt8) : ofBytes bytes < 256 ^ bytes.length := by
  induction bytes with
  | nil => exact Nat.one_pos
  | cons byte rest ih =>
    have hbyte : byte.toNat + 1 ≤ 256 := byte.toNat_lt
    calc ofBytes (byte :: rest)
        < byte.toNat * 256 ^ rest.length + 256 ^ rest.length := by
          rw [ofBytes]
          exact Nat.add_lt_add_left ih _
      _ = (byte.toNat + 1) * 256 ^ rest.length := (Nat.succ_mul _ _).symm
      _ ≤ 256 * 256 ^ rest.length := Nat.mul_le_mul_right _ hbyte
      _ = 256 ^ (byte :: rest).length := by rw [List.length_cons, Nat.pow_succ, Nat.mul_comm]

theorem ofBytes_toBytes_mod (width value : Nat) :
    ofBytes (toBytes width value) = value % 256 ^ width := by
  induction width with
  | zero => simp [toBytes, ofBytes, Nat.mod_one]
  | succ width ih =>
    rw [toBytes, ofBytes, ih, length_toBytes, UInt8.toNat_ofNat',
      Nat.mod_pow_succ (x := value) (b := 256) (k := width)]
    ring

theorem ofBytes_toBytes {width value : Nat} (h : value < 256 ^ width) :
    ofBytes (toBytes width value) = value := by
  rw [ofBytes_toBytes_mod, Nat.mod_eq_of_lt h]

/-- Strings of one length spell different numbers: the leading byte is the
quotient by the weight of the rest, the rest the remainder. -/
theorem ofBytes_inj {left right : List UInt8} (hlength : left.length = right.length)
    (h : ofBytes left = ofBytes right) : left = right := by
  induction left generalizing right with
  | nil => exact (List.length_eq_zero_iff.mp hlength.symm).symm
  | cons byte rest ih =>
    match right with
    | [] => simp at hlength
    | byte' :: rest' =>
      have hrest : rest.length = rest'.length := by simpa using hlength
      have hlt := ofBytes_lt rest
      have hlt' := ofBytes_lt rest'
      rw [ofBytes, ofBytes, ← hrest, Nat.mul_comm, Nat.mul_comm byte'.toNat] at h
      rw [← hrest] at hlt'
      have hdigit : byte.toNat = byte'.toNat := by
        have hquotient := congrArg (· / 256 ^ rest.length) h
        simpa [Nat.mul_add_div, Nat.div_eq_of_lt, hlt, hlt', Nat.pow_pos] using hquotient
      have htail : ofBytes rest = ofBytes rest' := by
        rw [hdigit] at h
        exact Nat.add_left_cancel h
      rw [UInt8.toNat_inj.mp hdigit, ih hrest htail]

theorem toBytes_ofBytes (bytes : List UInt8) :
    toBytes bytes.length (ofBytes bytes) = bytes := by
  apply ofBytes_inj (length_toBytes _ _)
  exact ofBytes_toBytes (ofBytes_lt bytes)

/-- An unsigned machine word of `width` bytes, given by its numbering. -/
structure Word (α : Type) (width : Nat) where
  toNat : α → Nat
  ofNat : Nat → α
  toNat_lt : ∀ x, toNat x < 256 ^ width
  ofNat_toNat : ∀ x, ofNat (toNat x) = x
  toNat_ofNat : ∀ n, n < 256 ^ width → toNat (ofNat n) = n

namespace Word

variable {α : Type} {width : Nat}

def toBeBytes (word : Word α width) (x : α) : List UInt8 := toBytes width (word.toNat x)

def fromBeBytes (word : Word α width) (bytes : List UInt8) : α := word.ofNat (ofBytes bytes)

@[simp] theorem length_toBeBytes (word : Word α width) (x : α) :
    (word.toBeBytes x).length = width := length_toBytes _ _

@[simp] theorem fromBeBytes_toBeBytes (word : Word α width) (x : α) :
    word.fromBeBytes (word.toBeBytes x) = x := by
  rw [fromBeBytes, toBeBytes, ofBytes_toBytes (word.toNat_lt x), word.ofNat_toNat]

theorem toBeBytes_inj (word : Word α width) {x y : α} (h : word.toBeBytes x = word.toBeBytes y) :
    x = y := by
  rw [← word.fromBeBytes_toBeBytes x, h, word.fromBeBytes_toBeBytes]

theorem toBeBytes_fromBeBytes (word : Word α width) {bytes : List UInt8}
    (h : bytes.length = width) : word.toBeBytes (word.fromBeBytes bytes) = bytes := by
  subst h
  rw [fromBeBytes, toBeBytes, word.toNat_ofNat _ (ofBytes_lt bytes), toBytes_ofBytes]

/-- A buffer starts with the bytes of a word exactly when it is wide enough and
its first bytes read as that word. -/
theorem toBeBytes_prefix_iff (word : Word α width) {buf : List UInt8} {x : α} :
    word.toBeBytes x <+: buf ↔ width ≤ buf.length ∧ word.fromBeBytes (buf.take width) = x := by
  constructor
  · rintro ⟨rest, rfl⟩
    rw [List.length_append, length_toBeBytes, List.take_left' (word.length_toBeBytes x),
      fromBeBytes_toBeBytes]
    exact ⟨Nat.le_add_right _ _, rfl⟩
  · rintro ⟨hwidth, rfl⟩
    rw [word.toBeBytes_fromBeBytes (List.length_take_of_le hwidth)]
    exact List.take_prefix _ _

end Word

def u16 : Word UInt16 2 where
  toNat := UInt16.toNat
  ofNat := UInt16.ofNat
  toNat_lt := UInt16.toNat_lt
  ofNat_toNat := fun _ => UInt16.ofNat_toNat
  toNat_ofNat := fun _ h => UInt16.toNat_ofNat_of_lt' h

def u32 : Word UInt32 4 where
  toNat := UInt32.toNat
  ofNat := UInt32.ofNat
  toNat_lt := UInt32.toNat_lt
  ofNat_toNat := fun _ => UInt32.ofNat_toNat
  toNat_ofNat := fun _ h => UInt32.toNat_ofNat_of_lt' h

def u64 : Word UInt64 8 where
  toNat := UInt64.toNat
  ofNat := UInt64.ofNat
  toNat_lt := UInt64.toNat_lt
  ofNat_toNat := fun _ => UInt64.ofNat_toNat
  toNat_ofNat := fun _ h => UInt64.toNat_ofNat_of_lt' h

example : u16.toBeBytes 258 = [1, 2] := by decide
example : u32.fromBeBytes [0, 0, 1, 2] = 258 := by decide

end Hush.Foundation.BigEndian
