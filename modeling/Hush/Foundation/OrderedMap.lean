import Hush.Foundation.Upsert
import Mathlib.Data.List.Induction

/-! Finite maps that remember the order in which their keys first came. An
association list with distinct keys stands for one, and an upsert into the list
is an insertion into the map. -/
namespace Hush.Foundation

variable {κ ν : Type} [DecidableEq κ]

namespace Upsert

/-- The value of the first entry with the key. -/
def lookup (key : κ) (entries : List (κ × ν)) : Option ν :=
  (entries.find? fun entry => entry.1 = key).map Prod.snd

theorem lookup_cons (key : κ) (entry : κ × ν) (rest : List (κ × ν)) :
    lookup key (entry :: rest) = if entry.1 = key then some entry.2 else lookup key rest := by
  unfold lookup
  rw [List.find?_cons]
  by_cases h : entry.1 = key <;> simp [h]

theorem lookup_isSome_iff (key : κ) (entries : List (κ × ν)) :
    (lookup key entries).isSome ↔ key ∈ entries.map Prod.fst := by
  induction entries with
  | nil => simp [lookup]
  | cons entry rest ih =>
    rw [lookup_cons, List.map_cons, List.mem_cons, ← ih]
    by_cases h : entry.1 = key
    · simp [h]
    · simp [h, Ne.symm h]

theorem lookup_upsert (key : κ) (value : ν) (entries : List (κ × ν)) (other : κ) :
    lookup other (upsert key value entries) =
      if other = key then some value else lookup other entries := by
  induction entries with
  | nil =>
    rw [upsert, lookup_cons]
    by_cases h : other = key
    · simp [h]
    · simp [h, Ne.symm h]
  | cons entry rest ih =>
    rw [upsert]
    by_cases hkey : entry.1 = key
    · rw [if_pos hkey, lookup_cons, lookup_cons, hkey]
      by_cases h : key = other
      · simp [h]
      · simp [h, Ne.symm h]
    · rw [if_neg hkey, lookup_cons, lookup_cons, ih]
      by_cases h : entry.1 = other
      · simp [h, h ▸ hkey]
      · simp [h]

/-- With distinct keys an entry is found under its key. -/
theorem lookup_of_mem {entries : List (κ × ν)} (h : (entries.map Prod.fst).Nodup)
    {entry : κ × ν} (hmem : entry ∈ entries) : lookup entry.1 entries = some entry.2 := by
  induction entries with
  | nil => exact absurd hmem List.not_mem_nil
  | cons first rest ih =>
    rw [List.map_cons, List.nodup_cons] at h
    rw [lookup_cons]
    rcases List.mem_cons.mp hmem with rfl | hrest
    · rw [if_pos rfl]
    · have hne : first.1 ≠ entry.1 := by
        intro hsame
        exact h.1 (hsame ▸ List.mem_map_of_mem hrest)
      rw [if_neg hne, ih h.2 hrest]

end Upsert

/-- Keys in the order of their first insertion, and a value for each of them. -/
@[ext] structure OrderedMap (κ ν : Type) where
  keys : List κ
  find : κ → Option ν
  nodup : keys.Nodup
  find_isSome : ∀ key, (find key).isSome ↔ key ∈ keys

namespace OrderedMap

def empty : OrderedMap κ ν := ⟨[], fun _ => none, List.nodup_nil, by simp⟩

/-- A new key comes last, a known key keeps its place. -/
def insert (m : OrderedMap κ ν) (key : κ) (value : ν) : OrderedMap κ ν where
  keys := if key ∈ m.keys then m.keys else m.keys ++ [key]
  find := fun other => if other = key then some value else m.find other
  nodup := by
    split
    · exact m.nodup
    · rename_i hkey
      rw [List.nodup_append]
      refine ⟨m.nodup, List.nodup_singleton key, ?_⟩
      rintro a ha b hb rfl
      exact hkey (List.mem_singleton.mp hb ▸ ha)
  find_isSome := by
    intro other
    have hother := m.find_isSome other
    by_cases hsame : other = key <;> by_cases hkey : key ∈ m.keys <;> simp_all

def insertAll (m : OrderedMap κ ν) (entries : List (κ × ν)) : OrderedMap κ ν :=
  entries.foldl (fun m entry => m.insert entry.1 entry.2) m

/-- The map that an association list with distinct keys stands for. -/
def ofEntries (entries : List (κ × ν)) (h : (entries.map Prod.fst).Nodup) : OrderedMap κ ν where
  keys := entries.map Prod.fst
  find := fun key => Upsert.lookup key entries
  nodup := h
  find_isSome := fun key => Upsert.lookup_isSome_iff key entries

theorem ofEntries_upsert {entries : List (κ × ν)} (h : (entries.map Prod.fst).Nodup) (key : κ)
    (value : ν) : ofEntries (Upsert.upsert key value entries) (Upsert.nodup_keys_upsert h key value) =
      (ofEntries entries h).insert key value := by
  apply OrderedMap.ext
  · exact Upsert.keys_upsert key value entries
  · exact funext fun other => Upsert.lookup_upsert key value entries other

theorem insertAll_append (m : OrderedMap κ ν) (front : List (κ × ν)) (last : κ × ν) :
    m.insertAll (front ++ [last]) = (m.insertAll front).insert last.1 last.2 := by
  unfold insertAll
  rw [List.foldl_append]
  rfl

/-- The keys in the order of their first insertion. -/
theorem keys_insertAll (entries : List (κ × ν)) :
    (empty.insertAll entries : OrderedMap κ ν).keys = (entries.map Prod.fst).eraseDups := by
  induction entries using List.reverseRecOn with
  | nil => rfl
  | append_singleton front last ih =>
    have hmem : last.1 ∈ (empty.insertAll front : OrderedMap κ ν).keys ↔
        last.1 ∈ front.map Prod.fst := by
      rw [ih, List.mem_eraseDups]
    rw [insertAll_append, List.map_append, List.eraseDups_append, ← ih]
    dsimp only [insert]
    by_cases hkey : last.1 ∈ front.map Prod.fst
    · rw [if_pos (hmem.mpr hkey)]
      simp [List.removeAll, hkey]
    · rw [if_neg (fun h => hkey (hmem.mp h))]
      simp [List.removeAll, hkey, List.eraseDups_cons]

/-- The value that was inserted last under the key. -/
theorem find_insertAll (entries : List (κ × ν)) (key : κ) :
    (empty.insertAll entries : OrderedMap κ ν).find key =
      ((entries.filter fun entry => entry.1 = key).getLast?).map Prod.snd := by
  induction entries using List.reverseRecOn with
  | nil => rfl
  | append_singleton front last ih =>
    rw [insertAll_append, List.filter_append]
    dsimp only [insert]
    by_cases hkey : key = last.1
    · simp [hkey]
    · simp [hkey, Ne.symm hkey, ih]

end OrderedMap

end Hush.Foundation
