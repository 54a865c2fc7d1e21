import Mathlib.Data.List.Basic

/-! Codes that mark their own end. A code is studied through a view of what it
encodes: two values with the same view are allowed the same encoding. -/
namespace Hush.Foundation.PrefixCode

variable {α α' β γ γ' : Type}

/-- Strings that start with the encodings of these two values are the same only
if the values look the same and what follows is the same. -/
def Delimited (encode : α → List β) (view : α → γ) (x y : α) : Prop :=
  ∀ s t, encode x ++ s = encode y ++ t → s = t ∧ view x = view y

/-- A pair is written one after the other. -/
theorem Delimited.pair {encode : α → List β} {view : α → γ} {encode' : α' → List β}
    {view' : α' → γ'} {x y : α × α'} (hfst : Delimited encode view x.1 y.1)
    (hsnd : Delimited encode' view' x.2 y.2) :
    Delimited (fun p => encode p.1 ++ encode' p.2) (fun p => (view p.1, view' p.2)) x y := by
  intro s t h
  dsimp only at h
  rw [List.append_assoc, List.append_assoc] at h
  obtain ⟨hrest, hview⟩ := hfst _ _ h
  obtain ⟨hsame, hview'⟩ := hsnd _ _ hrest
  exact ⟨hsame, Prod.ext hview hview'⟩

/-- Encodings end to end are read in only one way. -/
theorem flatMap_inj {encode : α → List β} {view : α → γ} {xs ys : List α}
    (hne : ∀ x, encode x ≠ []) (h : ∀ x ∈ xs, ∀ y ∈ ys, Delimited encode view x y)
    (hsame : xs.flatMap encode = ys.flatMap encode) : xs.map view = ys.map view := by
  induction xs generalizing ys with
  | nil =>
    cases ys with
    | nil => rfl
    | cons y ys =>
      rw [List.flatMap_nil, List.flatMap_cons] at hsame
      exact absurd (List.append_eq_nil_iff.mp hsame.symm).1 (hne y)
  | cons x xs ih =>
    cases ys with
    | nil =>
      rw [List.flatMap_nil, List.flatMap_cons] at hsame
      exact absurd (List.append_eq_nil_iff.mp hsame).1 (hne x)
    | cons y ys =>
      rw [List.flatMap_cons, List.flatMap_cons] at hsame
      obtain ⟨hrest, hview⟩ := h x List.mem_cons_self y List.mem_cons_self _ _ hsame
      have htail : ∀ x' ∈ xs, ∀ y' ∈ ys, Delimited encode view x' y' := fun x' hx y' hy =>
        h x' (List.mem_cons_of_mem _ hx) y' (List.mem_cons_of_mem _ hy)
      rw [List.map_cons, List.map_cons, hview, ih htail hrest]

end Hush.Foundation.PrefixCode
