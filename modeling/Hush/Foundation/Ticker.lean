import Hush.Foundation.Execution

/-! Timers that make a machine tick. A tick comes when it is due or later, but at most `slack`
later; the next tick of its timer is due one interval after it was due, however late it came. -/
namespace Hush.Foundation.Ticker

open Execution

variable {S A Item : Type}

/-- A machine with a clock, which a tick does not move. -/
structure Machine (S A : Type) where
  step : S → A → Option S
  tick : S → S
  now : S → Nat
  now_step : ∀ {s a s'}, step s a = some s' → now s ≤ now s'
  now_tick : ∀ s, now (tick s) = now s

/-- The machine, and when the next tick of each of its timers is due. -/
structure Timed (S : Type) where
  state : S
  due : List Nat

inductive TimedAction (A : Type) where
  | own (action : A)
  | start
  | tick (timer : Nat)

/-- The first tick of a timer is due at once. -/
def timedStep (m : Machine S A) (interval slack : Nat) (s : Timed S) :
    TimedAction A → Option (Timed S)
  | .own action =>
    (m.step s.state action).bind fun state =>
      if ∀ due ∈ s.due, m.now state ≤ due + slack then some { s with state } else none
  | .start => some { s with due := s.due ++ [m.now s.state] }
  | .tick timer =>
    match s.due[timer]? with
    | none => none
    | some due =>
      if due ≤ m.now s.state then some ⟨m.tick s.state, s.due.set timer (due + interval)⟩
      else none

/-- What a step with timers can do. -/
inductive TimedSteps (m : Machine S A) (interval slack : Nat) (s : Timed S) :
    TimedAction A → Timed S → Prop where
  | own {action : A} {state : S} : m.step s.state action = some state →
      (∀ due ∈ s.due, m.now state ≤ due + slack) →
        TimedSteps m interval slack s (.own action) { s with state }
  | start : TimedSteps m interval slack s .start { s with due := s.due ++ [m.now s.state] }
  | tick {timer due : Nat} : s.due[timer]? = some due → due ≤ m.now s.state →
      TimedSteps m interval slack s (.tick timer)
        ⟨m.tick s.state, s.due.set timer (due + interval)⟩

theorem timedStep_steps {m : Machine S A} {interval slack : Nat} {s s' : Timed S}
    {action : TimedAction A} (h : timedStep m interval slack s action = some s') :
    TimedSteps m interval slack s action s' := by
  cases action with
  | own action =>
    obtain ⟨state, hstate, hlate⟩ := Option.bind_eq_some_iff.mp h
    split at hlate
    · rename_i hpunctual
      obtain rfl := Option.some.inj hlate
      exact .own hstate hpunctual
    · cases hlate
  | start =>
    obtain rfl := Option.some.inj h
    exact .start
  | tick timer =>
    unfold timedStep at h
    dsimp only at h
    split at h
    · cases h
    · rename_i due hdue
      split at h
      · rename_i hnow
        obtain rfl := Option.some.inj h
        exact .tick hdue hnow
      · cases h

/-- A machine whose steps bring in items, each new when it comes, and whose ticks leave no item
that has outlived the lifetime. -/
structure Collects (m : Machine S A) (inv : S → Prop) (items : S → Item → Prop) (born : Item → Nat)
    (lifetime : Nat) : Prop where
  inv_step : ∀ {s a s'}, inv s → m.step s a = some s' → inv s'
  inv_tick : ∀ {s}, inv s → inv (m.tick s)
  added : ∀ {s a s' item}, inv s → m.step s a = some s' → items s' item →
    items s item ∨ m.now s ≤ born item
  left : ∀ {s item}, inv s → items (m.tick s) item →
    items s item ∧ m.now s ≤ born item + lifetime

namespace Collects

variable {m : Machine S A} {inv : S → Prop} {items : S → Item → Prop} {born : Item → Nat}
  {lifetime interval slack : Nat}

/-- The first timer's next tick is at most an interval away, and comes before any item has been
too old for longer than an interval. -/
structure Retained (m : Machine S A) (inv : S → Prop) (items : S → Item → Prop)
    (born : Item → Nat) (lifetime interval slack : Nat) (s : Timed S) : Prop where
  inv : inv s.state
  due : ∃ due, s.due[0]? = some due ∧ due ≤ m.now s.state + interval ∧
    m.now s.state ≤ due + slack ∧
    ∀ item, items s.state item → due ≤ born item + lifetime + interval

theorem Retained.step (h : Collects m inv items born lifetime) {s s' : Timed S}
    {action : TimedAction A} (hs : Retained m inv items born lifetime interval slack s)
    (hstep : timedStep m interval slack s action = some s') :
    Retained m inv items born lifetime interval slack s' := by
  obtain ⟨hinv, due, hdue, hnear, hlate, hitems⟩ := hs
  cases timedStep_steps hstep with
  | @own action state hstate hpunctual =>
    have hnow := m.now_step hstate
    refine ⟨h.inv_step hinv hstate, due, hdue, ?_, hpunctual due (List.mem_of_getElem? hdue), ?_⟩
    · dsimp only
      omega
    · intro item hitem
      obtain hold | hnew := h.added hinv hstate hitem
      · exact hitems item hold
      · omega
  | start =>
    refine ⟨hinv, due, ?_, hnear, hlate, hitems⟩
    exact (List.getElem?_append_left (List.getElem?_eq_some_iff.mp hdue).1).trans hdue
  | @tick timer ticked hticked hready =>
    have hnow := m.now_tick s.state
    by_cases hfirst : timer = 0
    · subst hfirst
      obtain rfl := Option.some.inj (hdue.symm.trans hticked)
      refine ⟨h.inv_tick hinv, due + interval, ?_, ?_, ?_, ?_⟩
      · exact List.getElem?_set_self (List.getElem?_eq_some_iff.mp hdue).1
      · dsimp only
        omega
      · dsimp only
        omega
      · intro item hitem
        obtain ⟨-, hyoung⟩ := h.left hinv hitem
        omega
    · refine ⟨h.inv_tick hinv, due, ?_, ?_, ?_, ?_⟩
      · exact (List.getElem?_set_ne hfirst).trans hdue
      · dsimp only
        omega
      · dsimp only
        omega
      · intro item hitem
        exact hitems item (h.left hinv hitem).1

/-- Where a timer runs from the start, no item is older than the lifetime and the interval. -/
theorem age_le (h : Collects m inv items born lifetime) {start : S} (hinv : inv start)
    (hnone : ∀ item, ¬items start item) {actions : List (TimedAction A)} {s : Timed S}
    (hrun : run (timedStep m interval slack) ⟨start, [m.now start]⟩ actions = some s) :
    inv s.state ∧ ∀ item, items s.state item →
      m.now s.state - born item ≤ lifetime + interval + slack := by
  have hstart : Retained m inv items born lifetime interval slack ⟨start, [m.now start]⟩ :=
    ⟨hinv, m.now start, rfl, Nat.le_add_right _ _, Nat.le_add_right _ _,
      fun item hitem => absurd hitem (hnone item)⟩
  obtain ⟨hinv', due, -, -, hlate, hitems⟩ := run_preserves (Retained.step h) hrun hstart
  refine ⟨hinv', fun item hitem => ?_⟩
  have hdue := hitems item hitem
  omega

end Collects

end Hush.Foundation.Ticker
