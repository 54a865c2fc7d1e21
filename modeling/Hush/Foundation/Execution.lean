import Mathlib.Data.List.Basic
import Mathlib.Data.List.Induction

/-! Runs of a step function: what every step preserves holds of every state that
a run reaches, and so does what the steps of that very run preserve. -/
namespace Hush.Foundation.Execution

variable {State Action : Type} {step : State → Action → Option State}

/-- Take the actions one after the other; an action that is not enabled has no run. -/
def run (step : State → Action → Option State) : State → List Action → Option State
  | s, [] => some s
  | s, a :: rest =>
    match step s a with
    | none => none
    | some s' => run step s' rest

/-- Every step of the run meets a condition on the state before it and its action. -/
def Along (step : State → Action → Option State) (cond : State → Action → Prop) :
    State → List Action → Prop
  | _, [] => True
  | s, a :: rest => cond s a ∧ ∀ s' ∈ step s a, Along step cond s' rest

instance decidableAlong {cond : State → Action → Prop} [∀ s a, Decidable (cond s a)] :
    ∀ s actions, Decidable (Along step cond s actions)
  | _, [] => .isTrue trivial
  | s, a :: rest =>
    have := fun s' => @decidableAlong cond _ s' rest
    inferInstanceAs (Decidable (cond s a ∧ ∀ s' ∈ step s a, Along step cond s' rest))

/-- A condition that the actions meet in every state. -/
theorem along_of_forall {cond : State → Action → Prop} {s : State} {actions : List Action}
    (h : ∀ a ∈ actions, ∀ s, cond s a) : Along step cond s actions := by
  induction actions generalizing s with
  | nil => trivial
  | cons a rest ih =>
    obtain ⟨ha, hrest⟩ := List.forall_mem_cons.mp h
    exact ⟨ha s, fun s' _ => ih hrest⟩

theorem run_cons {s s'' : State} {a : Action} {rest : List Action} :
    run step s (a :: rest) = some s'' ↔ ∃ s', step s a = some s' ∧ run step s' rest = some s'' := by
  rw [run]
  split
  · rename_i h
    simp [h]
  · rename_i s' h
    simp [h]

/-- The invariant rule, for runs whose steps all meet a condition. -/
theorem run_preserves_along {inv : State → Prop} {cond : State → Action → Prop}
    (hstep : ∀ {s a s'}, inv s → cond s a → step s a = some s' → inv s')
    {s s' : State} {actions : List Action} (hcond : Along step cond s actions)
    (hrun : run step s actions = some s') (h : inv s) : inv s' := by
  induction actions generalizing s with
  | nil =>
    obtain rfl := Option.some.inj hrun
    exact h
  | cons a rest ih =>
    obtain ⟨mid, hmid, hrest⟩ := run_cons.mp hrun
    exact ih (hcond.2 mid hmid) hrest (hstep h hcond.1 hmid)

/-- The invariant rule. -/
theorem run_preserves {inv : State → Prop}
    (hstep : ∀ {s a s'}, inv s → step s a = some s' → inv s')
    {s s' : State} {actions : List Action} (hrun : run step s actions = some s') (h : inv s) :
    inv s' := by
  induction actions generalizing s with
  | nil =>
    obtain rfl := Option.some.inj hrun
    exact h
  | cons a rest ih =>
    obtain ⟨mid, hmid, hrest⟩ := run_cons.mp hrun
    exact ih hrest (hstep h hmid)

theorem run_append {s : State} {xs ys : List Action} :
    run step s (xs ++ ys) = (run step s xs).bind fun mid => run step mid ys := by
  induction xs generalizing s with
  | nil => rfl
  | cons a rest ih =>
    rw [List.cons_append, run, run]
    split
    · rfl
    · exact ih

theorem along_append {cond : State → Action → Prop} {s : State} {xs ys : List Action} :
    Along step cond s (xs ++ ys) ↔
      Along step cond s xs ∧ ∀ mid ∈ run step s xs, Along step cond mid ys := by
  induction xs generalizing s with
  | nil => simp [Along, run]
  | cons a rest ih =>
    rw [List.cons_append, Along, Along, run]
    cases hstep : step s a with
    | none => simp
    | some s' => simp [ih, and_assoc]

/-- Conditions that agree wherever an invariant holds are met by the same runs. -/
theorem along_congr {inv : State → Prop} {cond cond' : State → Action → Prop}
    (hstep : ∀ {s a s'}, inv s → step s a = some s' → inv s')
    (hcond : ∀ {s} a, inv s → (cond s a ↔ cond' s a)) {s : State} {actions : List Action}
    (h : inv s) : Along step cond s actions ↔ Along step cond' s actions := by
  induction actions generalizing s with
  | nil => exact Iff.rfl
  | cons a rest ih =>
    exact and_congr (hcond a h) (forall₂_congr fun s' hs' => ih (hstep h hs'))

/-- Some actions lead from one state to the other. -/
def Reaches (step : State → Action → Option State) (s s' : State) : Prop :=
  ∃ actions, run step s actions = some s'

namespace Reaches

theorem refl (s : State) : Reaches step s s := ⟨[], rfl⟩

theorem single {s s' : State} {a : Action} (h : step s a = some s') : Reaches step s s' :=
  ⟨[a], run_cons.mpr ⟨s', h, rfl⟩⟩

theorem trans {s s' s'' : State} (h : Reaches step s s') (h' : Reaches step s' s'') :
    Reaches step s s'' := by
  obtain ⟨xs, hxs⟩ := h
  obtain ⟨ys, hys⟩ := h'
  refine ⟨xs ++ ys, ?_⟩
  rw [run_append, hxs]
  exact hys

end Reaches

/-- Allowed actions lead from one state to the other. -/
def ReachesBy (step : State → Action → Option State) (allowed : Action → Prop) (s s' : State) :
    Prop :=
  ∃ actions, (∀ a ∈ actions, allowed a) ∧ run step s actions = some s'

namespace ReachesBy

variable {allowed : Action → Prop}

theorem refl (s : State) : ReachesBy step allowed s s := ⟨[], by simp, rfl⟩

theorem single {s s' : State} {a : Action} (ha : allowed a) (h : step s a = some s') :
    ReachesBy step allowed s s' :=
  ⟨[a], List.forall_mem_singleton.mpr ha, run_cons.mpr ⟨s', h, rfl⟩⟩

theorem trans {s s' s'' : State} (h : ReachesBy step allowed s s')
    (h' : ReachesBy step allowed s' s'') : ReachesBy step allowed s s'' := by
  obtain ⟨xs, hxs, hrun⟩ := h
  obtain ⟨ys, hys, hrun'⟩ := h'
  refine ⟨xs ++ ys, List.forall_mem_append.mpr ⟨hxs, hys⟩, ?_⟩
  rw [run_append, hrun]
  exact hrun'

end ReachesBy

/-- The invariant rule with history: the invariant may speak of the actions that
led to the state. -/
theorem run_history {inv : List Action → State → Prop} {start : State}
    (hstep : ∀ {past s a s'}, run step start past = some s → inv past s → step s a = some s' →
      inv (past ++ [a]) s')
    {s : State} {actions : List Action} (hrun : run step start actions = some s)
    (h : inv [] start) : inv actions s := by
  induction actions using List.reverseRecOn generalizing s with
  | nil =>
    obtain rfl := Option.some.inj hrun
    exact h
  | append_singleton past a ih =>
    rw [run_append] at hrun
    obtain ⟨mid, hmid, hlast⟩ := Option.bind_eq_some_iff.mp hrun
    obtain ⟨s', hs', hend⟩ := run_cons.mp hlast
    obtain rfl := Option.some.inj hend
    exact hstep hmid (ih hmid) hs'

/-- The invariant rule with input, for runs whose steps all meet a condition: the
invariant counts some of the steps and speaks of the input that is still to come.
Nothing comes once the input is closed. -/
theorem run_fed {Input : Type} {arrival : Action → List Input} {own : Action → Bool}
    {closed : State → Prop} {inv : Nat → List Input → State → Prop}
    {cond : State → Action → Prop} {start : State}
    (hstep : ∀ {n later s a s'}, cond s a → step s a = some s' →
      ((closed s → arrival a ++ later = []) → inv n (arrival a ++ later) s) →
        (closed s' → later = []) → inv (n + if own a then 1 else 0) later s')
    {s : State} {actions : List Action} (hcond : Along step cond start actions)
    (hrun : run step start actions = some s) {later : List Input}
    (hclosed : closed s → later = []) (h : inv 0 (actions.flatMap arrival ++ later) start) :
    inv (actions.countP own) later s := by
  induction actions using List.reverseRecOn generalizing s later with
  | nil =>
    obtain rfl := Option.some.inj hrun
    exact h
  | append_singleton past a ih =>
    rw [run_append] at hrun
    obtain ⟨mid, hmid, hlast⟩ := Option.bind_eq_some_iff.mp hrun
    obtain ⟨s', hs', hend⟩ := run_cons.mp hlast
    obtain rfl := Option.some.inj hend
    obtain ⟨hpast, hnext⟩ := along_append.mp hcond
    rw [List.flatMap_append, List.flatMap_singleton, List.append_assoc] at h
    rw [List.countP_append, List.countP_singleton]
    exact hstep (hnext mid hmid).1 hs' (fun hmidClosed => ih hpast hmid hmidClosed h) hclosed

/-- The invariant rule with a count, for runs whose steps all meet a condition:
some of the steps move the invariant on by one, the others keep it. -/
theorem run_counts {own : Action → Bool} {inv : Nat → State → Prop}
    {cond : State → Action → Prop}
    (hown : ∀ {n s a s'}, inv n s → cond s a → own a = true → step s a = some s' → inv (n + 1) s')
    (hother : ∀ {n s a s'}, inv n s → cond s a → own a = false → step s a = some s' → inv n s')
    {n : Nat} {s s' : State} {actions : List Action} (hcond : Along step cond s actions)
    (hrun : run step s actions = some s') (h : inv n s) : inv (n + actions.countP own) s' := by
  induction actions generalizing n s with
  | nil =>
    obtain rfl := Option.some.inj hrun
    exact h
  | cons a rest ih =>
    obtain ⟨mid, hmid, hrest⟩ := run_cons.mp hrun
    cases ha : own a with
    | true =>
      have hnext := ih (hcond.2 mid hmid) hrest (hown h hcond.1 ha hmid)
      rw [List.countP_cons_of_pos ha]
      rwa [Nat.add_assoc, Nat.add_comm 1] at hnext
    | false =>
      rw [List.countP_cons_of_neg (by simp [ha])]
      exact ih (hcond.2 mid hmid) hrest (hother h hcond.1 ha hmid)

/-- What holds of all members of a list is kept when one is replaced. -/
theorem forall_mem_set {α : Type} {l : List α} {p : α → Prop} {index : Nat} {a : α}
    (h : ∀ x ∈ l, p x) (ha : p a) : ∀ x ∈ l.set index a, p x := by
  intro x hx
  obtain hold | rfl := List.mem_or_eq_of_mem_set hx
  · exact h x hold
  · exact ha

end Hush.Foundation.Execution
