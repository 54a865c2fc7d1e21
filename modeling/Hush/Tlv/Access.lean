import Hush.Foundation.OrderedMap
import Hush.Tlv.Value

/-! The typed getters of `Map`: what was set is read back under the type that it was set with, on
either side of the wire. -/
namespace Hush.Tlv

open Hush.Foundation

/-- Look a key up and read its value as one of a type. -/
def getAs {α : Type} (read : Value → Option α) (m : Map) (key : String) : Option α :=
  (m.get key).bind read

def Value.asString : Value → Option String
  | .string s => some s
  | _ => none

def Value.asUint64 : Value → Option UInt64
  | .uint64 n => some n
  | _ => none

def Value.asBytes : Value → Option (List UInt8)
  | .bytes b => some b
  | _ => none

def Value.asMap : Value → Option Map
  | .map m => some m
  | _ => none

namespace MapOf

def getString : Map → String → Option String := getAs Value.asString

def getUint64 : Map → String → Option UInt64 := getAs Value.asUint64

def getBytes : Map → String → Option (List UInt8) := getAs Value.asBytes

def getMap : Map → String → Option Map := getAs Value.asMap

theorem get_eq_lookup {α : Type} (m : MapOf α) (key : String) :
    m.get key = Upsert.lookup key m.entries := rfl

theorem get_set {α : Type} (m : MapOf α) (key other : String) (value : α) :
    (m.set key value).get other = if other = key then some value else m.get other := by
  rw [get_eq_lookup, get_eq_lookup, entries_set, Upsert.lookup_upsert]

end MapOf

theorem getAs_set {α : Type} (read : Value → Option α) (m : Map) (key other : String)
    (value : Value) :
    getAs read (m.set key value) other =
      if other = key then read value else getAs read m other := by
  unfold getAs
  rw [MapOf.get_set]
  split <;> rfl

/-- What the receiver of a map finds under a key is what the sender had there, with the
timestamps cut down. -/
theorem get_truncMillisMap (m : Map) (key : String) :
    (Value.truncMillisMap m).get key = (m.get key).map Value.truncMillis := by
  obtain ⟨entries⟩ := m
  induction entries with
  | nil => rfl
  | cons entry rest ih =>
    simp only [Value.truncMillisMap, Value.truncMillisEntries, MapOf.get, List.find?_cons] at ih ⊢
    by_cases hkey : entry.1 = key
    · simp [hkey]
    · simpa [hkey] using ih

/-- A type that keeps no timestamps is read alike on both sides. -/
theorem getAs_truncMillisMap {α : Type} {read : Value → Option α}
    (hread : ∀ v, read v.truncMillis = read v) (m : Map) (key : String) :
    getAs read (Value.truncMillisMap m) key = getAs read m key := by
  unfold getAs
  rw [get_truncMillisMap]
  cases m.get key with
  | none => rfl
  | some v => exact hread v

theorem asString_truncMillis (v : Value) : v.truncMillis.asString = v.asString := by
  cases v <;> rfl

theorem asUint64_truncMillis (v : Value) : v.truncMillis.asUint64 = v.asUint64 := by
  cases v <;> rfl

theorem asBytes_truncMillis (v : Value) : v.truncMillis.asBytes = v.asBytes := by
  cases v <;> rfl

theorem asMap_truncMillis (v : Value) :
    v.truncMillis.asMap = v.asMap.map Value.truncMillisMap := by
  cases v <;> rfl

theorem getMap_truncMillisMap (m : Map) (key : String) :
    (Value.truncMillisMap m).getMap key = (m.getMap key).map Value.truncMillisMap := by
  unfold MapOf.getMap getAs
  rw [get_truncMillisMap]
  cases m.get key with
  | none => rfl
  | some v => exact asMap_truncMillis v

end Hush.Tlv
