import Mathlib.Data.List.TakeDrop

/-! Byte streams with an end, and frames written back to back into them. A
framing is a reader and an encoder that undo each other; nothing here knows what
a frame looks like. -/
namespace Hush.Foundation.Stream

variable {α ε κ : Type}

/-- The bytes that a reader will still deliver and the error it then reports. -/
structure Source (κ : Type) where
  bytes : List UInt8
  ending : κ
  deriving DecidableEq, Repr

/-- `read_exact`: all of the bytes asked for, or the error at the end. -/
def Source.readExact (src : Source κ) (count : Nat) : Except κ (List UInt8 × Source κ) :=
  if src.bytes.length < count then .error src.ending
  else .ok (src.bytes.take count, { src with bytes := src.bytes.drop count })

/-- What a writer has taken so far; `room` is `none` for a writer that never
fails, else the bytes it will still take and the error it then reports. -/
structure Sink (κ : Type) where
  written : List UInt8
  room : Option (Nat × κ)
  deriving DecidableEq, Repr

/-- A vector, which takes every write. -/
def Sink.vec : Sink κ := ⟨[], none⟩

/-- `write_all`: a failing writer has taken as much as it had room for. -/
def Sink.writeAll (sink : Sink κ) (buf : List UInt8) : Except κ Unit × Sink κ :=
  match sink.room with
  | none => (.ok (), { sink with written := sink.written ++ buf })
  | some (room, e) =>
    if buf.length ≤ room then (.ok (), ⟨sink.written ++ buf, some (room - buf.length, e)⟩)
    else (.error e, ⟨sink.written ++ buf.take room, some (0, e)⟩)

/-- A writer takes a part of what it is given, and all of it unless it fails. -/
theorem Sink.writeAll_takes {sink sink' : Sink κ} {buf : List UInt8} {result : Except κ Unit}
    (h : sink.writeAll buf = (result, sink')) :
    ∃ part, part <+: buf ∧ sink'.written = sink.written ++ part ∧
      (result = .ok () → part = buf) := by
  unfold Sink.writeAll at h
  split at h
  · obtain ⟨-, rfl⟩ := Prod.mk.inj h
    exact ⟨buf, List.prefix_rfl, rfl, fun _ => rfl⟩
  · split at h
    · obtain ⟨-, rfl⟩ := Prod.mk.inj h
      exact ⟨buf, List.prefix_rfl, rfl, fun _ => rfl⟩
    · obtain ⟨rfl, rfl⟩ := Prod.mk.inj h
      exact ⟨_, List.take_prefix _ _, rfl, by simp⟩

/-- The writer has room for so many bytes. -/
def Sink.Takes (sink : Sink κ) (count : Nat) : Prop :=
  ∀ room e, sink.room = some (room, e) → count ≤ room

theorem Sink.takes_iff_writeAll {sink : Sink κ} {buf : List UInt8} :
    sink.Takes buf.length ↔ ∃ sink', sink.writeAll buf = (.ok (), sink') := by
  unfold Takes writeAll
  cases sink.room with
  | none => simp
  | some limit =>
    obtain ⟨room, e⟩ := limit
    dsimp only
    constructor
    · intro h
      rw [if_pos (h room e rfl)]
      exact ⟨_, rfl⟩
    · rintro ⟨sink', hwrite⟩ room' e' hroom
      obtain ⟨rfl, rfl⟩ := Prod.mk.inj (Option.some.inj hroom)
      split at hwrite
      · assumption
      · cases (Prod.mk.inj hwrite).1

theorem Source.readExact_append {front : List UInt8} {count : Nat} (h : front.length = count)
    (rest : List UInt8) (k : κ) :
    Source.readExact ⟨front ++ rest, k⟩ count = .ok (front, ⟨rest, k⟩) := by
  unfold Source.readExact
  rw [if_neg (by simp [h]), List.take_left' h, List.drop_left' h]

theorem Source.readExact_of_lt {src : Source κ} {count : Nat} (h : src.bytes.length < count) :
    src.readExact count = .error src.ending := if_pos h

theorem Source.readExact_ok_iff {src src' : Source κ} {count : Nat} {front : List UInt8} :
    src.readExact count = .ok (front, src') ↔
      front.length = count ∧ src.bytes = front ++ src'.bytes ∧ src'.ending = src.ending := by
  unfold Source.readExact
  constructor
  · intro h
    split at h
    · cases h
    · rename_i hcount
      simp only [Except.ok.injEq, Prod.mk.injEq] at h
      obtain ⟨rfl, rfl⟩ := h
      exact ⟨List.length_take_of_le (Nat.le_of_not_lt hcount), (List.take_append_drop _ _).symm, rfl⟩
  · intro h
    obtain ⟨rfl, hbytes, hending⟩ := h
    rw [hbytes, if_neg (by simp), List.take_left, List.drop_left]
    cases src'
    simp_all

/-- Read until an error, at most `fuel` times. -/
def readAll (read : Source κ → Except ε (α × Source κ)) : Nat → Source κ → List α × Option ε
  | 0, _ => ([], none)
  | fuel + 1, src =>
    match read src with
    | .error e => ([], some e)
    | .ok (x, rest) => ((x :: (readAll read fuel rest).1), (readAll read fuel rest).2)

/-- A reader and an encoder of the frames in `valid` undo each other. -/
structure Framing (read : Source κ → Except ε (α × Source κ)) (encode : α → List UInt8)
    (valid : α → Prop) : Prop where
  read_encode : ∀ {x rest k}, valid x → read ⟨encode x ++ rest, k⟩ = .ok (x, ⟨rest, k⟩)
  encode_read : ∀ {src x src'}, read src = .ok (x, src') →
    valid x ∧ src.bytes = encode x ++ src'.bytes ∧ src'.ending = src.ending
  encode_ne_nil : ∀ x, encode x ≠ []

/-- Where a cut falls in frames back to back: after some whole frames and a
part of the next that is not all of it. -/
theorem take_flatMap_encode {encode : α → List UInt8} (xs : List α) {cut : Nat}
    (hcut : cut ≤ (xs.flatMap encode).length) :
    ∃ count tail, (xs.flatMap encode).take cut = (xs.take count).flatMap encode ++ tail ∧
      (tail = [] ∧ xs.take count = xs ∨
        ∃ x, xs[count]? = some x ∧ tail <+: encode x ∧ tail.length < (encode x).length) := by
  induction xs generalizing cut with
  | nil => exact ⟨0, [], by simp, .inl ⟨rfl, rfl⟩⟩
  | cons x xs ih =>
    rw [List.flatMap_cons] at hcut ⊢
    by_cases hinside : cut < (encode x).length
    · refine ⟨0, (encode x).take cut, ?_, .inr ⟨x, rfl, List.take_prefix _ _, ?_⟩⟩
      · rw [List.take_append_of_le_length (Nat.le_of_lt hinside)]
        simp
      · rw [List.length_take]
        omega
    · rw [List.length_append] at hcut
      have hcut' : cut - (encode x).length ≤ (xs.flatMap encode).length := by omega
      obtain ⟨count, tail, htake, htail⟩ := ih hcut'
      refine ⟨count + 1, tail, ?_, ?_⟩
      · rw [List.take_append, List.take_of_length_le (Nat.le_of_not_lt hinside), htake,
          List.take_succ_cons, List.flatMap_cons, List.append_assoc]
      · obtain ⟨hnil, hall⟩ | hnext := htail
        · exact .inl ⟨hnil, by rw [List.take_succ_cons, hall]⟩
        · exact .inr (by simpa using hnext)

/-- No frame starts with these bytes, whatever comes next. -/
def NoFrame (encode : α → List UInt8) (valid : α → Prop) (tail : List UInt8) : Prop :=
  ∀ x more, valid x → tail ≠ encode x ++ more

namespace Framing

variable {read : Source κ → Except ε (α × Source κ)} {encode : α → List UInt8} {valid : α → Prop}

/-- Frames back to back are read one by one, up to a tail that fails. -/
theorem readAll_flatMap (h : Framing read encode valid) {xs : List α} {tail : List UInt8} {k : κ}
    {e : ε} (hxs : ∀ x ∈ xs, valid x) (htail : read ⟨tail, k⟩ = .error e) {fuel : Nat}
    (hfuel : xs.length < fuel) :
    readAll read fuel ⟨xs.flatMap encode ++ tail, k⟩ = (xs, some e) := by
  induction xs generalizing fuel with
  | nil =>
    obtain ⟨fuel, rfl⟩ := Nat.exists_eq_add_one.mpr hfuel
    rw [readAll, List.flatMap_nil, List.nil_append, htail]
  | cons x xs ih =>
    rw [List.forall_mem_cons] at hxs
    obtain ⟨fuel, rfl⟩ := Nat.exists_eq_add_one.mpr (Nat.zero_lt_of_lt hfuel)
    rw [readAll, List.flatMap_cons, List.append_assoc, h.read_encode hxs.1]
    have hrest := ih hxs.2 (Nat.lt_of_succ_lt_succ hfuel)
    dsimp only
    rw [hrest]

/-- Whatever is read was there, frame by frame, and the reader stopped at the
first place where no frame starts. -/
theorem readAll_sound (h : Framing read encode valid) {fuel : Nat} {src : Source κ}
    (hfuel : src.bytes.length < fuel) :
    ∃ rest e, (readAll read fuel src).2 = some e ∧ read ⟨rest, src.ending⟩ = .error e ∧
      src.bytes = (readAll read fuel src).1.flatMap encode ++ rest ∧
        ∀ x ∈ (readAll read fuel src).1, valid x := by
  induction fuel generalizing src with
  | zero => exact absurd hfuel (Nat.not_lt_zero _)
  | succ fuel ih =>
    rw [readAll]
    match hread : read src with
    | .error e => exact ⟨src.bytes, e, rfl, hread, rfl, fun _ hx => absurd hx List.not_mem_nil⟩
    | .ok (x, src') =>
      obtain ⟨hvalid, hbytes, hending⟩ := h.encode_read hread
      have hpositive := List.length_pos_iff.mpr (h.encode_ne_nil x)
      have hlength := congrArg List.length hbytes
      rw [List.length_append] at hlength
      have hfuel' : src'.bytes.length < fuel := by omega
      obtain ⟨rest, e, herror, hrest, hsplit, hall⟩ := ih hfuel'
      refine ⟨rest, e, herror, by rwa [← hending], ?_, List.forall_mem_cons.mpr ⟨hvalid, hall⟩⟩
      rw [List.flatMap_cons, List.append_assoc, ← hsplit, hbytes]

theorem noFrame_nil (h : Framing read encode valid) : NoFrame encode valid [] := by
  intro x more _ hsame
  exact h.encode_ne_nil x (List.append_eq_nil_iff.mp hsame.symm).1

/-- Frames at the start of the same bytes are the same. -/
theorem encode_inj (h : Framing read encode valid) (k : κ) {x y : α} {more more' : List UInt8}
    (hx : valid x) (hy : valid y) (hsame : encode x ++ more = encode y ++ more') :
    x = y ∧ more = more' := by
  have hread : read ⟨encode x ++ more, k⟩ = .ok (x, ⟨more, k⟩) := h.read_encode hx
  rw [hsame, h.read_encode hy] at hread
  simp only [Except.ok.injEq, Prod.mk.injEq, Source.mk.injEq, and_true] at hread
  exact ⟨hread.1.symm, hread.2.symm⟩

/-- A part of a frame that is not all of it starts with no frame. -/
theorem noFrame_part (h : Framing read encode valid) (k : κ) {x : α} {part : List UInt8}
    (hx : valid x) (hpart : part <+: encode x) (hlength : part.length < (encode x).length) :
    NoFrame encode valid part := by
  rintro y more hy rfl
  obtain ⟨rest, hrest⟩ := hpart
  rw [List.append_assoc] at hrest
  have hsame : encode y ++ (more ++ rest) = encode x ++ [] := by
    rw [hrest, List.append_nil]
  obtain ⟨rfl, -⟩ := h.encode_inj k hy hx hsame
  rw [List.length_append] at hlength
  omega

/-- Frames that are the start of other frames, and of a tail with none, are the
first of them. -/
theorem front_of_flatMap (h : Framing read encode valid) (k : κ) {xs ys : List α}
    {rest tail : List UInt8} (hxs : ∀ x ∈ xs, valid x) (hys : ∀ y ∈ ys, valid y)
    (htail : NoFrame encode valid tail)
    (hsame : xs.flatMap encode ++ rest = ys.flatMap encode ++ tail) : xs <+: ys := by
  induction xs generalizing ys with
  | nil => exact List.nil_prefix
  | cons x xs ih =>
    obtain ⟨hx, hxs⟩ := List.forall_mem_cons.mp hxs
    rw [List.flatMap_cons, List.append_assoc] at hsame
    cases ys with
    | nil => exact absurd hsame.symm (htail x _ hx)
    | cons y ys =>
      obtain ⟨hy, hys'⟩ := List.forall_mem_cons.mp hys
      rw [List.flatMap_cons, List.append_assoc] at hsame
      obtain ⟨rfl, hrest⟩ := h.encode_inj k hx hy hsame
      exact List.cons_prefix_cons.mpr ⟨rfl, ih hxs hys' hrest⟩

end Framing

end Hush.Foundation.Stream
