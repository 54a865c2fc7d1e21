import Mathlib.Algebra.Ring.Nat
import Mathlib.Data.List.Basic
import Mathlib.Data.List.Infix

/-! Cursor parsers: functions that read a buffer at a position and return a
value with the position after it. A parser recognises a grammar, a relation
between chunks and values, when it accepts exactly the chunks of the grammar. -/
namespace Hush.Foundation.Cursor

variable {β α γ ε σ : Type}

abbrev Parser (β ε α : Type) := List β → Nat → Except ε (α × Nat)

/-- `while cond s { s = body s? }`, cut off after `fuel` rounds. -/
def whileM (cond : σ → Bool) (body : σ → Except ε σ) : Nat → σ → Except ε σ
  | 0, s => .ok s
  | fuel + 1, s => if cond s then body s >>= whileM cond body fuel else .ok s

/-- One round of a loop that reads an element and folds it into a result. -/
def consume (parse : Parser β ε α) (push : σ → α → σ) (buf : List β)
    (s : σ × Nat) : Except ε (σ × Nat) := do
  let (x, next) ← parse buf s.2
  return (push s.1 x, next)

/-- A string of chunks of a grammar, end to end. -/
inductive Concat (R : List β → α → Prop) : List β → List α → Prop where
  | nil : Concat R [] []
  | cons {chunk rest x xs} : R chunk x → Concat R rest xs → Concat R (chunk ++ rest) (x :: xs)

structure Recognises (parse : Parser β ε α) (R : List β → α → Prop) : Prop where
  sound : ∀ {buf pos x next}, parse buf pos = .ok (x, next) →
    ∃ chunk, chunk <+: buf.drop pos ∧ R chunk x ∧ next = pos + chunk.length
  complete : ∀ {buf pos chunk x}, chunk <+: buf.drop pos → R chunk x →
    parse buf pos = .ok (x, pos + chunk.length)

theorem drop_add_length {buf chunk rest : List β} {pos : Nat}
    (h : buf.drop pos = chunk ++ rest) : buf.drop (pos + chunk.length) = rest := by
  rw [← List.drop_drop, h, List.drop_left]

namespace Concat

variable {R : List β → α → Prop}

/-- The encodings of a list of values, end to end, when each is a chunk. -/
theorem of_flatMap {encode : γ → List β} {denote : γ → α} {xs : List γ}
    (h : ∀ x ∈ xs, R (encode x) (denote x)) :
    Concat R (xs.flatMap encode) (xs.map denote) := by
  induction xs with
  | nil => exact .nil
  | cons x xs ih =>
    rw [List.forall_mem_cons] at h
    exact .cons h.1 (ih h.2)

/-- Read back from encodings end to end, every chunk is one of them, provided
that a chunk at the start of an encoding is that encoding. -/
theorem forall_of_flatMap {encode : γ → List β} {p : γ → Prop} {xs : List γ} {ys : List α}
    (hne : ∀ x ∈ xs, encode x ≠ [])
    (hsplit : ∀ x ∈ xs, ∀ chunk y rest, R chunk y → chunk <+: encode x ++ rest →
      chunk = encode x ∧ p x)
    (h : Concat R (xs.flatMap encode) ys) : ∀ x ∈ xs, p x := by
  induction xs generalizing ys with
  | nil => exact fun _ hx => absurd hx List.not_mem_nil
  | cons x xs ih =>
    rw [List.forall_mem_cons] at hne hsplit ⊢
    rw [List.flatMap_cons] at h
    generalize hbuf : encode x ++ xs.flatMap encode = buf at h
    cases h with
    | nil => exact absurd (List.append_eq_nil_iff.mp hbuf).1 hne.1
    | @cons chunk rest y ys hchunk hrest =>
      obtain ⟨rfl, hp⟩ := hsplit.1 chunk y (xs.flatMap encode) hchunk ⟨rest, hbuf.symm⟩
      obtain rfl := List.append_cancel_left hbuf
      exact ⟨hp, ih hne.2 hsplit.2 hrest⟩

theorem forall_mem {p : α → Prop} {buf : List β} {xs : List α} (h : Concat R buf xs)
    (hp : ∀ chunk x, R chunk x → p x) : ∀ x ∈ xs, p x := by
  induction h with
  | nil => exact fun _ hx => absurd hx List.not_mem_nil
  | cons hchunk _ ih => exact List.forall_mem_cons.mpr ⟨hp _ _ hchunk, ih⟩

/-- If no chunk is shorter than the weight of its value, the string is not
shorter than the weights together. -/
theorem sum_le_length {weight : α → Nat} {buf : List β} {xs : List α} (h : Concat R buf xs)
    (hweight : ∀ chunk x, R chunk x → weight x ≤ chunk.length) :
    (xs.map weight).sum ≤ buf.length := by
  induction h with
  | nil => exact Nat.le_refl 0
  | cons hchunk _ ih =>
    rw [List.map_cons, List.sum_cons, List.length_append]
    exact Nat.add_le_add (hweight _ _ hchunk) ih

theorem single {chunk : List β} {x : α} (h : R chunk x) : Concat R chunk [x] := by
  have hcons : Concat R (chunk ++ []) [x] := .cons h .nil
  rwa [List.append_nil] at hcons

theorem append {xs ys : List α} {buf buf' : List β} (h : Concat R buf xs)
    (h' : Concat R buf' ys) : Concat R (buf ++ buf') (xs ++ ys) := by
  induction h with
  | nil => exact h'
  | cons hchunk _ ih =>
    rw [List.append_assoc]
    exact .cons hchunk ih

/-- Each chunk is itself a string of chunks of another grammar. -/
theorem flatMap {S : List β → γ → Prop} {f : α → List γ} {buf : List β} {xs : List α}
    (h : Concat R buf xs) (hf : ∀ chunk x, R chunk x → Concat S chunk (f x)) :
    Concat S buf (xs.flatMap f) := by
  induction h with
  | nil => exact .nil
  | cons hchunk _ ih => exact (hf _ _ hchunk).append ih

theorem mono {S : List β → α → Prop} {buf : List β} {xs : List α} (h : Concat R buf xs)
    (himp : ∀ chunk x, R chunk x → S chunk x) : Concat S buf xs := by
  induction h with
  | nil => exact .nil
  | cons hchunk _ ih => exact .cons (himp _ _ hchunk) ih

theorem nil_iff (hR : ∀ chunk x, R chunk x → chunk ≠ [])
    {xs : List α} : Concat R [] xs ↔ xs = [] := by
  constructor
  · generalize hbuf : ([] : List β) = buf
    rintro (_ | ⟨hchunk, _⟩)
    · rfl
    · exact absurd (List.append_eq_nil_iff.mp hbuf.symm).1 (hR _ _ hchunk)
  · rintro rfl
    exact .nil

end Concat

namespace Recognises

variable {parse : Parser β ε α} {R : List β → α → Prop}

/-- A recognised grammar is self-delimiting: no two chunks of it start the same
buffer. -/
theorem unique (h : Recognises parse R) {buf left right : List β} {x y : α}
    (hleft : left <+: buf) (hx : R left x) (hright : right <+: buf) (hy : R right y) :
    left = right ∧ x = y := by
  have hparse : parse buf 0 = .ok (x, 0 + left.length) := h.complete hleft hx
  have hparse' : parse buf 0 = .ok (y, 0 + right.length) := h.complete hright hy
  rw [hparse'] at hparse
  simp only [Except.ok.injEq, Prod.mk.injEq, Nat.zero_add] at hparse
  obtain ⟨hvalue, hlength⟩ := hparse
  refine ⟨?_, hvalue.symm⟩
  exact (List.prefix_of_prefix_length_le hleft hright hlength.ge).eq_of_length hlength.symm

theorem ok_iff (h : Recognises parse R) {buf : List β} {pos next : Nat} {x : α} :
    parse buf pos = .ok (x, next) ↔
      ∃ chunk, chunk <+: buf.drop pos ∧ R chunk x ∧ next = pos + chunk.length := by
  constructor
  · exact h.sound
  · rintro ⟨chunk, hpre, hchunk, rfl⟩
    exact h.complete hpre hchunk

/-- If no chunk is empty, a parser moves on, and stays within the buffer. -/
theorem advances (h : Recognises parse R) (hR : ∀ chunk x, R chunk x → chunk ≠ [])
    {buf : List β} {pos next : Nat} {x : α} (hparse : parse buf pos = .ok (x, next)) :
    pos < next ∧ next ≤ buf.length := by
  obtain ⟨chunk, hpre, hchunk, rfl⟩ := h.sound hparse
  have hpositive := List.length_pos_iff.mpr (hR _ _ hchunk)
  have hlength := hpre.length_le
  rw [List.length_drop] at hlength
  omega

/-- The loop `while p < buf.len()`, entered at `pos` with fuel for what is left
of the buffer, accepts exactly the strings of chunks. -/
theorem whileM_ok_iff (h : Recognises parse R) (hR : ∀ chunk x, R chunk x → chunk ≠ [])
    (push : σ → α → σ) (buf : List β) {fuel pos : Nat} (hpos : pos ≤ buf.length)
    (hfuel : buf.length ≤ pos + fuel) (start : σ) (s : σ × Nat) :
    whileM (fun s => s.2 < buf.length) (consume parse push buf) fuel (start, pos) = .ok s ↔
      ∃ xs, Concat R (buf.drop pos) xs ∧ s = (xs.foldl push start, buf.length) := by
  induction fuel generalizing pos start with
  | zero =>
    obtain rfl : pos = buf.length := by omega
    rw [List.drop_length]
    simp only [Concat.nil_iff hR, exists_eq_left, List.foldl_nil, whileM, Except.ok.injEq]
    exact eq_comm
  | succ fuel ih =>
    rw [whileM]
    by_cases hend : pos < buf.length
    · rw [if_pos (by simpa using hend)]
      constructor
      · intro hrun
        rw [consume] at hrun
        -- a failed round fails the loop, so the round read a chunk
        match hparse : parse buf pos with
        | .error e => rw [hparse] at hrun; cases hrun
        | .ok (x, next) =>
          rw [hparse] at hrun
          obtain ⟨chunk, ⟨rest, hrest⟩, hchunk, rfl⟩ := h.sound hparse
          have hlength := congrArg List.length hrest
          rw [List.length_append, List.length_drop] at hlength
          have hpositive := List.length_pos_iff.mpr (hR _ _ hchunk)
          obtain ⟨xs, hxs, hs⟩ := (ih (by omega) (by omega) (push start x)).mp hrun
          rw [drop_add_length hrest.symm] at hxs
          refine ⟨x :: xs, ?_, hs⟩
          rw [← hrest]
          exact .cons hchunk hxs
      · rintro ⟨xs, hxs, rfl⟩
        generalize hdrop : buf.drop pos = tail at hxs
        cases hxs with
        | nil =>
          rw [List.drop_eq_nil_iff] at hdrop
          omega
        | @cons chunk rest x xs hchunk hxs =>
          have hlength := congrArg List.length hdrop
          rw [List.length_append, List.length_drop] at hlength
          have hpositive := List.length_pos_iff.mpr (hR _ _ hchunk)
          have hparse : parse buf pos = .ok (x, pos + chunk.length) :=
            h.complete (hdrop ▸ List.prefix_append _ _) hchunk
          rw [consume, hparse]
          refine (ih (by omega) (by omega) (push start x)).mpr ⟨xs, ?_, rfl⟩
          rwa [drop_add_length hdrop]
    · obtain rfl : pos = buf.length := by omega
      rw [if_neg (by simp), List.drop_length]
      simp only [Concat.nil_iff hR, exists_eq_left, List.foldl_nil, Except.ok.injEq]
      exact eq_comm

end Recognises

end Hush.Foundation.Cursor
