import Hush.Foundation.Cursor

/-! Programs with the checks of the machine made visible: every index, slice, shift and
addition may panic, a loop may not end, and a recursion may go too deep. A checked program
is safe when it is a plain one with nothing added. -/
namespace Hush.Foundation.Checked

inductive Panic where
  | index | slice | length | shift | overflow | recursion | loop
  deriving DecidableEq, Repr

inductive Outcome (ε α : Type) where
  | ok (a : α)
  | err (e : ε)
  | panic (why : Panic)
  deriving DecidableEq, Repr

namespace Outcome

variable {ε ε' α β : Type}

protected def bind : Outcome ε α → (α → Outcome ε β) → Outcome ε β
  | .ok a, f => f a
  | .err e, _ => .err e
  | .panic why, _ => .panic why

instance : Monad (Outcome ε) where
  pure := .ok
  bind := .bind

/-- A plain result: it does not panic. -/
def ofExcept : Except ε α → Outcome ε α
  | .ok a => .ok a
  | .error e => .err e

def mapErr (f : ε → ε') : Outcome ε α → Outcome ε' α
  | .ok a => .ok a
  | .err e => .err (f e)
  | .panic why => .panic why

@[simp] theorem ok_bind (a : α) (f : α → Outcome ε β) : (Outcome.ok a >>= f) = f a := rfl

@[simp] theorem err_bind (e : ε) (f : α → Outcome ε β) : (Outcome.err e >>= f) = .err e := rfl

@[simp] theorem panic_bind (why : Panic) (f : α → Outcome ε β) :
    (Outcome.panic why >>= f) = .panic why := rfl

@[simp] theorem pure_eq (a : α) : (pure a : Outcome ε α) = .ok a := rfl

@[simp] theorem ofExcept_ok (a : α) : ofExcept (.ok a : Except ε α) = .ok a := rfl

@[simp] theorem ofExcept_error (e : ε) : ofExcept (.error e : Except ε α) = .err e := rfl

theorem ofExcept_bind (x : Except ε α) (f : α → Except ε β) :
    ofExcept (x >>= f) = ofExcept x >>= fun a => ofExcept (f a) := by
  cases x <;> rfl

theorem ofExcept_mapError (f : ε → ε') (x : Except ε α) :
    ofExcept (x.mapError f) = (ofExcept x).mapErr f := by
  cases x <;> rfl

theorem ofExcept_ne_panic (x : Except ε α) (why : Panic) : ofExcept x ≠ .panic why := by
  cases x <;> exact nofun

theorem ofExcept_eq_ok {x : Except ε α} {a : α} : ofExcept x = .ok a ↔ x = .ok a := by
  cases x <;> simp [ofExcept]

theorem bind_eq_ok {x : Outcome ε α} {f : α → Outcome ε β} {b : β} :
    (x >>= f) = .ok b ↔ ∃ a, x = .ok a ∧ f a = .ok b := by
  cases x <;> simp

end Outcome

variable {ε α β σ : Type}

/-- The largest size of a slice, `isize::MAX`. -/
def isizeMax : Nat := 2 ^ 63 - 1

/-- `buf[i]`. -/
def index (buf : List β) (i : Nat) : Outcome ε β :=
  match buf[i]? with
  | some b => .ok b
  | none => .panic .index

/-- `buf[start..]`. -/
def sliceFrom (buf : List β) (start : Nat) : Outcome ε (List β) :=
  if start ≤ buf.length then .ok (buf.drop start) else .panic .slice

/-- `buf[start..stop]`. -/
def slice (buf : List β) (start stop : Nat) : Outcome ε (List β) :=
  if start ≤ stop ∧ stop ≤ buf.length then .ok ((buf.drop start).take (stop - start))
  else .panic .slice

/-- `buf.split_at(mid)`. -/
def splitAt (buf : List β) (mid : Nat) : Outcome ε (List β × List β) :=
  if mid ≤ buf.length then .ok (buf.take mid, buf.drop mid) else .panic .slice

/-- `[buf[start], buf[start + 1], ..]`, as an array literal of bytes. -/
def indices (buf : List β) (start : Nat) : (count : Nat) → Outcome ε (List β)
  | 0 => .ok []
  | count + 1 => do
    let first ← index buf start
    let rest ← indices buf (start + 1) count
    return first :: rest

/-- `a + b` of numbers below `2 ^ width`. -/
def add (width a b : Nat) : Outcome ε Nat :=
  if a + b < 2 ^ width then .ok (a + b) else .panic .overflow

abbrev addUsize (a b : Nat) : Outcome ε Nat := add 64 a b

/-- `a << b` of 64-bit words. -/
def shiftLeft (a : UInt64) (b : Nat) : Outcome ε UInt64 :=
  if b < 64 then .ok (a <<< UInt64.ofNat b) else .panic .shift

/-- `while cond s { s = body s? }`, which must end within the fuel. -/
def whileM (cond : σ → Bool) (body : σ → Outcome ε σ) : Nat → σ → Outcome ε σ
  | 0, s => if cond s then .panic .loop else .ok s
  | fuel + 1, s => if cond s then body s >>= whileM cond body fuel else .ok s

theorem index_of_get {buf : List β} {i : Nat} {b : β} (h : buf[i]? = some b) :
    (index buf i : Outcome ε β) = .ok b := by
  rw [index, h]

theorem sliceFrom_of_le {buf : List β} {start : Nat} (h : start ≤ buf.length) :
    (sliceFrom buf start : Outcome ε (List β)) = .ok (buf.drop start) := if_pos h

theorem slice_of_le {buf : List β} {start stop : Nat} (h : start ≤ stop) (h' : stop ≤ buf.length) :
    (slice buf start stop : Outcome ε (List β)) = .ok ((buf.drop start).take (stop - start)) :=
  if_pos ⟨h, h'⟩

theorem splitAt_of_le {buf : List β} {mid : Nat} (h : mid ≤ buf.length) :
    (splitAt buf mid : Outcome ε (List β × List β)) = .ok (buf.take mid, buf.drop mid) := if_pos h

theorem add_of_lt {width a b : Nat} (h : a + b < 2 ^ width) :
    (add width a b : Outcome ε Nat) = .ok (a + b) := if_pos h

theorem shiftLeft_of_lt {a : UInt64} {b : Nat} (h : b < 64) :
    (shiftLeft a b : Outcome ε UInt64) = .ok (a <<< UInt64.ofNat b) := if_pos h

theorem indices_of_le {buf : List β} {start count : Nat} (h : start + count ≤ buf.length) :
    (indices buf start count : Outcome ε (List β)) = .ok ((buf.drop start).take count) := by
  induction count generalizing start with
  | zero => rfl
  | succ count ih =>
    have hlt : start < buf.length := by omega
    rw [indices, index_of_get (List.getElem?_eq_getElem hlt), ih (by omega),
      List.drop_eq_getElem_cons hlt]
    rfl

/-- A loop whose rounds bring it nearer to its end needs no more fuel than the distance,
and is the plain loop. -/
theorem whileM_eq {cond : σ → Bool} {body : σ → Outcome ε σ} {plain : σ → Except ε σ}
    (distance : σ → Nat) (hend : ∀ s, cond s = true → 0 < distance s)
    (hbody : ∀ s, cond s = true → body s = .ofExcept (plain s))
    (hnear : ∀ s s', cond s = true → plain s = .ok s' → distance s' < distance s)
    {fuel : Nat} {s : σ} (hfuel : distance s ≤ fuel) :
    whileM cond body fuel s = .ofExcept (Cursor.whileM cond plain fuel s) := by
  induction fuel generalizing s with
  | zero =>
    have hdone : ¬cond s = true := fun hcond => absurd (hend s hcond) (by omega)
    rw [whileM, if_neg hdone]
    rfl
  | succ fuel ih =>
    rw [whileM, Cursor.whileM]
    by_cases hcond : cond s = true
    · rw [if_pos hcond, if_pos hcond, hbody s hcond, Outcome.ofExcept_bind]
      cases hround : plain s with
      | error e => rfl
      | ok s' =>
        have hdistance := hnear s s' hcond hround
        exact ih (by omega)
    · rw [if_neg hcond, if_neg hcond]
      rfl

end Hush.Foundation.Checked
