import Mathlib.Data.List.Induction

/-! What is written lasts until a call that does not spare it. So a state that is reached by a
history of calls can be told by the history alone. What a call writes and spares may depend
on the calls before it. -/
namespace Hush.Foundation.History

variable {Call α : Type} {writes spares : List Call → Call → α → Prop}

/-- Of the calls of a kind there is a last one. -/
theorem exists_last {P : Call → Prop} {history : List Call} (h : ∃ call ∈ history, P call) :
    ∃ before call rest, history = before ++ call :: rest ∧ P call ∧ ∀ later ∈ rest, ¬P later := by
  induction history using List.reverseRecOn with
  | nil =>
    obtain ⟨call, hmem, -⟩ := h
    cases hmem
  | append_singleton past last ih =>
    by_cases hlast : P last
    · exact ⟨past, last, [], rfl, hlast, by simp⟩
    · obtain ⟨call, hmem, hcall⟩ := h
      obtain hmem | hmem := List.mem_append.mp hmem
      · obtain ⟨before, final, rest, rfl, hfinal, hrest⟩ := ih ⟨call, hmem, hcall⟩
        refine ⟨before, final, rest ++ [last], by simp, hfinal, ?_⟩
        exact List.forall_mem_append.mpr ⟨hrest, List.forall_mem_singleton.mpr hlast⟩
      · exact absurd (List.mem_singleton.mp hmem ▸ hcall) hlast

/-- A call wrote the value, and every call since then spared it. -/
def Lasts (writes spares : List Call → Call → α → Prop) (history : List Call) (a : α) : Prop :=
  ∃ before call rest, history = before ++ call :: rest ∧ writes before call a ∧
    ∀ front later back, rest = front ++ later :: back → spares (before ++ call :: front) later a

/-- Where the calls before do not matter. -/
theorem lasts_iff_forall_mem {writes spares : Call → α → Prop} {history : List Call} {a : α} :
    Lasts (fun _ => writes) (fun _ => spares) history a ↔
      ∃ before call rest, history = before ++ call :: rest ∧ writes call a ∧
        ∀ later ∈ rest, spares later a := by
  constructor
  · rintro ⟨before, call, rest, hhistory, hwrites, hspares⟩
    refine ⟨before, call, rest, hhistory, hwrites, fun later hlater => ?_⟩
    obtain ⟨front, back, hrest⟩ := List.append_of_mem hlater
    exact hspares front later back hrest
  · rintro ⟨before, call, rest, hhistory, hwrites, hspares⟩
    refine ⟨before, call, rest, hhistory, hwrites, fun front later back hrest => ?_⟩
    exact hspares later (hrest ▸ List.mem_append_right _ List.mem_cons_self)

theorem not_lasts_nil (a : α) : ¬Lasts writes spares [] a := by
  rintro ⟨before, call, rest, hhistory, -⟩
  cases before <;> cases hhistory

/-- The last call wrote the value, or spared one that had lasted until then. -/
theorem lasts_concat {past : List Call} {last : Call} {a : α} :
    Lasts writes spares (past ++ [last]) a ↔
      writes past last a ∨ (Lasts writes spares past a ∧ spares past last a) := by
  constructor
  · rintro ⟨before, call, rest, hhistory, hwrites, hspares⟩
    cases rest using List.reverseRecOn with
    | nil =>
      obtain ⟨rfl, hcall⟩ := List.append_inj' hhistory rfl
      obtain rfl := List.head_eq_of_cons_eq hcall
      exact .inl hwrites
    | append_singleton front final =>
      rw [← List.cons_append, ← List.append_assoc] at hhistory
      obtain ⟨rfl, hcall⟩ := List.append_inj' hhistory rfl
      obtain rfl := List.head_eq_of_cons_eq hcall
      refine .inr ⟨⟨before, call, front, rfl, hwrites, ?_⟩, hspares front last [] rfl⟩
      rintro first later back rfl
      exact hspares first later (back ++ [last]) (by simp)
  · rintro (hwrites | ⟨⟨before, call, rest, rfl, hwrites, hspares⟩, hlast⟩)
    · exact ⟨past, last, [], rfl, hwrites, by simp⟩
    · refine ⟨before, call, rest ++ [last], by simp, hwrites, fun front later back hrest => ?_⟩
      cases back using List.reverseRecOn with
      | nil =>
        obtain ⟨rfl, hlater⟩ := List.append_inj' hrest rfl
        obtain rfl := List.head_eq_of_cons_eq hlater
        exact hlast
      | append_singleton back final =>
        rw [← List.cons_append, ← List.append_assoc] at hrest
        exact hspares front later back (List.append_inj' hrest rfl).1

/-- The rule: what each call adds if it writes it, and keeps if it spares it, and nothing
else, is what lasts. It is asked only of the beginnings of the history. -/
theorem holds_iff_lasts {holds : List Call → α → Prop} {history : List Call}
    (hnone : ∀ a, ¬holds [] a)
    (hstep : ∀ past call, past ++ [call] <+: history → ∀ a,
      (holds (past ++ [call]) a ↔ writes past call a ∨ (holds past a ∧ spares past call a)))
    (a : α) : holds history a ↔ Lasts writes spares history a := by
  induction history using List.reverseRecOn with
  | nil => exact iff_of_false (hnone a) (not_lasts_nil a)
  | append_singleton past last ih =>
    rw [hstep past last List.prefix_rfl, lasts_concat, ih]
    exact fun front call hfront => hstep front call (hfront.trans (List.prefix_append _ _))

end Hush.Foundation.History
