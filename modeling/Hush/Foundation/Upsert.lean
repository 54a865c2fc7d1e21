import Mathlib.Algebra.Ring.Nat
import Mathlib.Data.List.Nodup

/-! Association lists kept in order of first insertion: a new key goes to the
end, a known key has its value replaced in place. -/
namespace Hush.Foundation.Upsert

variable {κ ν : Type} [DecidableEq κ]

def upsert (key : κ) (value : ν) : List (κ × ν) → List (κ × ν)
  | [] => [(key, value)]
  | entry :: rest =>
    if entry.1 = key then (entry.1, value) :: rest else entry :: upsert key value rest

/-- Fold a list of entries into an association list, first to last. -/
def upsertAll (start entries : List (κ × ν)) : List (κ × ν) :=
  entries.foldl (fun acc entry => upsert entry.1 entry.2 acc) start

theorem keys_upsert (key : κ) (value : ν) (entries : List (κ × ν)) :
    (upsert key value entries).map Prod.fst =
      if key ∈ entries.map Prod.fst then entries.map Prod.fst
      else entries.map Prod.fst ++ [key] := by
  induction entries with
  | nil => rfl
  | cons entry rest ih =>
    by_cases h : entry.1 = key
    · simp [upsert, h]
    · simp only [upsert, if_neg h, List.map_cons, ih, List.mem_cons, Ne.symm h, false_or]
      split <;> rfl

theorem nodup_keys_upsert {entries : List (κ × ν)} (h : (entries.map Prod.fst).Nodup)
    (key : κ) (value : ν) : ((upsert key value entries).map Prod.fst).Nodup := by
  rw [keys_upsert]
  split
  · exact h
  · rename_i hkey
    exact List.nodup_append.mpr ⟨h, List.nodup_singleton key, by
      rintro a ha b hb rfl
      exact hkey (List.mem_singleton.mp hb ▸ ha)⟩

theorem upsert_of_notMem {key : κ} {value : ν} {entries : List (κ × ν)}
    (h : key ∉ entries.map Prod.fst) : upsert key value entries = entries ++ [(key, value)] := by
  induction entries with
  | nil => rfl
  | cons entry rest ih =>
    simp only [List.map_cons, List.mem_cons, not_or] at h
    rw [upsert, if_neg (Ne.symm h.1), ih h.2, List.cons_append]

theorem mem_upsert {key : κ} {value : ν} {entries : List (κ × ν)} {entry : κ × ν}
    (h : entry ∈ upsert key value entries) : entry = (key, value) ∨ entry ∈ entries := by
  induction entries with
  | nil => exact .inl (List.mem_singleton.mp h)
  | cons first rest ih =>
    rw [upsert] at h
    split at h
    · rename_i hkey
      rcases List.mem_cons.mp h with rfl | h
      · exact .inl (by rw [hkey])
      · exact .inr (List.mem_cons_of_mem _ h)
    · rcases List.mem_cons.mp h with rfl | h
      · exact .inr List.mem_cons_self
      · exact (ih h).imp_right (List.mem_cons_of_mem _)

/-- Whatever entries weigh, an upsert adds at most the weight of its own. -/
theorem sum_upsert_le (weight : κ × ν → Nat) (key : κ) (value : ν) (entries : List (κ × ν)) :
    ((upsert key value entries).map weight).sum ≤
      (entries.map weight).sum + weight (key, value) := by
  induction entries with
  | nil => simp [upsert]
  | cons entry rest ih =>
    rw [upsert]
    split
    · rename_i hkey
      rw [hkey]
      simp only [List.map_cons, List.sum_cons]
      omega
    · simp only [List.map_cons, List.sum_cons]
      omega

theorem nodup_keys_upsertAll {start : List (κ × ν)} (h : (start.map Prod.fst).Nodup)
    (entries : List (κ × ν)) : ((upsertAll start entries).map Prod.fst).Nodup := by
  induction entries generalizing start with
  | nil => exact h
  | cons entry rest ih => exact ih (nodup_keys_upsert h entry.1 entry.2)

theorem mem_upsertAll {start entries : List (κ × ν)} {entry : κ × ν}
    (h : entry ∈ upsertAll start entries) : entry ∈ start ∨ entry ∈ entries := by
  induction entries generalizing start with
  | nil => exact .inl h
  | cons first rest ih =>
    rcases ih h with h | h
    · rcases mem_upsert h with rfl | h
      · exact .inr List.mem_cons_self
      · exact .inl h
    · exact .inr (List.mem_cons_of_mem _ h)

theorem sum_upsertAll_le (weight : κ × ν → Nat) (start entries : List (κ × ν)) :
    ((upsertAll start entries).map weight).sum ≤
      (start.map weight).sum + (entries.map weight).sum := by
  induction entries generalizing start with
  | nil => exact Nat.le_add_right _ _
  | cons entry rest ih =>
    obtain ⟨key, value⟩ := entry
    have hfirst := sum_upsert_le weight key value start
    have hrest := ih (upsert key value start)
    rw [List.map_cons, List.sum_cons]
    exact Nat.le_trans hrest (by omega)

/-- Entries whose keys are new and pairwise distinct are simply appended. -/
theorem upsertAll_of_nodup {start entries : List (κ × ν)}
    (h : ((start ++ entries).map Prod.fst).Nodup) :
    upsertAll start entries = start ++ entries := by
  induction entries generalizing start with
  | nil => exact (List.append_nil start).symm
  | cons entry rest ih =>
    have hnew : entry.1 ∉ start.map Prod.fst := by
      rw [List.map_append, List.nodup_append] at h
      intro hmem
      exact h.2.2 _ hmem entry.1 List.mem_cons_self rfl
    rw [List.append_cons] at h ⊢
    rw [← ih h, upsertAll, List.foldl_cons, upsert_of_notMem hnew]
    rfl

end Hush.Foundation.Upsert
