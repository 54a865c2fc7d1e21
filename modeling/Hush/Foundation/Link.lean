import Hush.Foundation.Execution

/-! Two parties joined by a channel in each direction. A channel keeps what is
written to it in order and loses nothing; how much of it arrives at a time, and
when, is up to the run. -/
namespace Hush.Foundation.Link

open Execution

variable {S T A B β : Type}

/-- One end of the link: its own steps, the arrival of input, and all that it has
written and received so far. -/
structure Party (S A β : Type) where
  step : S → A → Option S
  feed : S → List β → Option S
  written : S → List β
  received : S → List β
  written_step : ∀ {s a s'}, step s a = some s' → written s <+: written s'
  received_step : ∀ {s a s'}, step s a = some s' → received s' = received s
  written_feed : ∀ {s input s'}, feed s input = some s' → written s' = written s
  received_feed : ∀ {s input s'}, feed s input = some s' → received s' = received s ++ input

/-- A party that takes only the steps that a condition allows. -/
def Party.restrict (p : Party S A β) (allows : S → A → Bool) : Party S A β where
  step := fun s a => if allows s a then p.step s a else none
  feed := p.feed
  written := p.written
  received := p.received
  written_step := by
    intro s a s' h
    split at h
    · exact p.written_step h
    · cases h
  received_step := by
    intro s a s' h
    split at h
    · exact p.received_step h
    · cases h
  written_feed := p.written_feed
  received_feed := p.received_feed

/-- The two parties. -/
structure Pair (S T : Type) where
  left : S
  right : T

/-- A step of either party, or the arrival of up to `count` items on their way to it. -/
inductive LinkAction (A B : Type) where
  | left (action : A)
  | right (action : B)
  | toLeft (count : Nat)
  | toRight (count : Nat)

/-- The next items on their way from one party to the other. -/
def inFlight (written received : List β) (count : Nat) : List β :=
  (written.drop received.length).take count

def linkStep (p : Party S A β) (q : Party T B β) (l : Pair S T) : LinkAction A B → Option (Pair S T)
  | .left action => (p.step l.left action).map fun left => { l with left }
  | .right action => (q.step l.right action).map fun right => { l with right }
  | .toLeft count =>
    (p.feed l.left (inFlight (q.written l.right) (p.received l.left) count)).map
      fun left => { l with left }
  | .toRight count =>
    (q.feed l.right (inFlight (p.written l.left) (q.received l.right) count)).map
      fun right => { l with right }

/-- What a step of the link can do. -/
inductive LinkSteps (p : Party S A β) (q : Party T B β) (l : Pair S T) :
    LinkAction A B → Pair S T → Prop where
  | left {action : A} {left : S} : p.step l.left action = some left →
      LinkSteps p q l (.left action) { l with left }
  | right {action : B} {right : T} : q.step l.right action = some right →
      LinkSteps p q l (.right action) { l with right }
  | toLeft {count : Nat} {left : S} :
      p.feed l.left (inFlight (q.written l.right) (p.received l.left) count) = some left →
        LinkSteps p q l (.toLeft count) { l with left }
  | toRight {count : Nat} {right : T} :
      q.feed l.right (inFlight (p.written l.left) (q.received l.right) count) = some right →
        LinkSteps p q l (.toRight count) { l with right }

variable {p : Party S A β} {q : Party T B β}

theorem linkStep_steps {l l' : Pair S T} {action : LinkAction A B}
    (h : linkStep p q l action = some l') : LinkSteps p q l action l' := by
  cases action with
  | left action =>
    obtain ⟨left, hleft, rfl⟩ := Option.map_eq_some_iff.mp h
    exact .left hleft
  | right action =>
    obtain ⟨right, hright, rfl⟩ := Option.map_eq_some_iff.mp h
    exact .right hright
  | toLeft count =>
    obtain ⟨left, hleft, rfl⟩ := Option.map_eq_some_iff.mp h
    exact .toLeft hleft
  | toRight count =>
    obtain ⟨right, hright, rfl⟩ := Option.map_eq_some_iff.mp h
    exact .toRight hright

/-- What each party received is the start of what the other wrote. -/
structure InOrder (p : Party S A β) (q : Party T B β) (l : Pair S T) : Prop where
  toRight : q.received l.right <+: p.written l.left
  toLeft : p.received l.left <+: q.written l.right

theorem received_inFlight {written received : List β} (h : received <+: written) (count : Nat) :
    received ++ inFlight written received count <+: written := by
  obtain ⟨rest, rfl⟩ := h
  unfold inFlight
  rw [List.drop_left]
  exact List.prefix_append_right_inj received |>.mpr (List.take_prefix count rest)

theorem received_inFlight_all {written received : List β} (h : received <+: written) :
    received ++ inFlight written received written.length = written := by
  obtain ⟨rest, rfl⟩ := h
  unfold inFlight
  rw [List.drop_left, List.take_of_length_le (by simp)]

theorem inOrder_step {l l' : Pair S T} {action : LinkAction A B} (hinv : InOrder p q l)
    (h : linkStep p q l action = some l') : InOrder p q l' := by
  cases linkStep_steps h with
  | left hleft =>
    refine ⟨hinv.toRight.trans (p.written_step hleft), ?_⟩
    rw [p.received_step hleft]
    exact hinv.toLeft
  | right hright =>
    refine ⟨?_, hinv.toLeft.trans (q.written_step hright)⟩
    rw [q.received_step hright]
    exact hinv.toRight
  | toLeft hleft =>
    constructor
    · rw [p.written_feed hleft]
      exact hinv.toRight
    · rw [p.received_feed hleft]
      exact received_inFlight hinv.toLeft _
  | toRight hright =>
    constructor
    · rw [q.received_feed hright]
      exact received_inFlight hinv.toRight _
    · rw [q.written_feed hright]
      exact hinv.toLeft

end Hush.Foundation.Link
