import Hush.Foundation.Upsert

/-! The value model of `tlv.rs`. Byte vectors are lists, floats are their bit
patterns, and a map is the vector of its entries in insertion order. -/
namespace Hush.Tlv

open Hush.Foundation

/-- The `Type` enumeration of the wire format. -/
inductive TypeTag where
  | string | bytes | uint8 | uint16 | uint32 | uint64 | int32 | int64
  | float32 | float64 | bool | array | map | null | timestamp
  deriving DecidableEq, Repr

def TypeTag.fromU8 (b : UInt8) : Option TypeTag :=
  match b with
  | 0x01 => some .string
  | 0x02 => some .bytes
  | 0x03 => some .uint8
  | 0x04 => some .uint16
  | 0x05 => some .uint32
  | 0x06 => some .uint64
  | 0x07 => some .int32
  | 0x08 => some .int64
  | 0x09 => some .float32
  | 0x0A => some .float64
  | 0x0B => some .bool
  | 0x0C => some .array
  | 0x0D => some .map
  | 0x0E => some .null
  | 0x0F => some .timestamp
  | _ => none

/-- A span of time, as the standard library stores it. -/
structure Duration where
  secs : UInt64
  nanos : UInt32
  nanos_lt : nanos < 1000000000
  deriving DecidableEq, Repr

namespace Duration

@[ext] theorem ext {d e : Duration} (hsecs : d.secs = e.secs) (hnanos : d.nanos = e.nanos) :
    d = e := by
  cases d
  cases e
  simp_all

/-- `as_millis`, a `u128`: it does not wrap. -/
def asMillis (d : Duration) : Nat :=
  d.secs.toNat * 1000 + d.nanos.toNat / 1000000

private theorem toNat_subsecNanos (millis : UInt64) :
    ((millis % 1000).toUInt32 * 1000000).toNat = millis.toNat % 1000 * 1000000 := by
  have h : millis.toNat % 1000 < 1000 := Nat.mod_lt _ (by decide)
  simp only [UInt32.toNat_mul, UInt64.toNat_toUInt32, UInt64.toNat_mod, UInt64.reduceToNat,
    UInt32.reduceToNat]
  rw [Nat.mod_eq_of_lt (by omega : millis.toNat % 1000 < 2 ^ 32)]
  exact Nat.mod_eq_of_lt (by omega)

def fromMillis (millis : UInt64) : Duration where
  secs := millis / 1000
  nanos := (millis % 1000).toUInt32 * 1000000
  nanos_lt := by
    rw [UInt32.lt_iff_toNat_lt, toNat_subsecNanos]
    simp only [UInt32.reduceToNat]
    omega

theorem nanos_fromMillis (millis : UInt64) :
    (fromMillis millis).nanos.toNat = millis.toNat % 1000 * 1000000 :=
  toNat_subsecNanos millis

@[simp] theorem asMillis_fromMillis (millis : UInt64) :
    (fromMillis millis).asMillis = millis.toNat := by
  have hsecs : (fromMillis millis).secs.toNat = millis.toNat / 1000 := by
    simp [fromMillis]
  rw [asMillis, hsecs, nanos_fromMillis, Nat.mul_div_cancel _ (by decide)]
  omega

/-- A whole number of milliseconds that fits in 64 bits, the part of the range
that the wire format can carry. -/
def WholeMillis (d : Duration) : Prop :=
  d.nanos.toNat % 1000000 = 0 ∧ d.asMillis < 2 ^ 64

theorem fromMillis_asMillis {d : Duration} (h : d.WholeMillis) :
    fromMillis (UInt64.ofNat d.asMillis) = d := by
  obtain ⟨hwhole, hlt⟩ := h
  have hnanos := UInt32.lt_iff_toNat_lt.mp d.nanos_lt
  have hmillis : (UInt64.ofNat d.asMillis).toNat = d.asMillis := by
    rw [UInt64.toNat_ofNat', Nat.mod_eq_of_lt hlt]
  simp only [UInt32.reduceToNat] at hnanos
  apply Duration.ext
  · apply UInt64.toNat_inj.mp
    simp only [fromMillis, UInt64.toNat_div, hmillis, UInt64.reduceToNat]
    rw [asMillis]
    omega
  · apply UInt32.toNat_inj.mp
    rw [nanos_fromMillis, hmillis, asMillis]
    omega

end Duration

/-- `Map`, over the type of its values so that `Value` can nest through it. -/
structure MapOf (α : Type) where
  entries : List (String × α)

inductive Value where
  | string (s : String)
  | bytes (b : List UInt8)
  | uint8 (n : UInt8)
  | uint16 (n : UInt16)
  | uint32 (n : UInt32)
  | uint64 (n : UInt64)
  | int32 (n : Int32)
  | int64 (n : Int64)
  | float32 (bits : UInt32)
  | float64 (bits : UInt64)
  | bool (b : Bool)
  | array (items : List Value)
  | map (m : MapOf Value)
  | null
  | timestamp (d : Duration)

abbrev Map := MapOf Value

namespace MapOf

variable {α : Type}

def new : MapOf α := ⟨[]⟩

/-- Overwrite the entry of a known key in place, append a new key. -/
def set (m : MapOf α) (key : String) (value : α) : MapOf α :=
  ⟨Upsert.upsert key value m.entries⟩

def get (m : MapOf α) (key : String) : Option α :=
  (m.entries.find? fun entry => entry.1 = key).map Prod.snd

def iter (m : MapOf α) : List (String × α) := m.entries

def len (m : MapOf α) : Nat := m.entries.length

def keys (m : MapOf α) : List String := m.entries.map Prod.fst

/-- The map that a sequence of `set` calls leaves behind. -/
def setAll (m : MapOf α) (entries : List (String × α)) : MapOf α :=
  entries.foldl (fun m entry => m.set entry.1 entry.2) m

@[simp] theorem entries_new : (new : MapOf α).entries = [] := rfl

@[simp] theorem entries_set (m : MapOf α) (key : String) (value : α) :
    (m.set key value).entries = Upsert.upsert key value m.entries := rfl

theorem entries_setAll (m : MapOf α) (entries : List (String × α)) :
    (m.setAll entries).entries = Upsert.upsertAll m.entries entries := by
  induction entries generalizing m with
  | nil => rfl
  | cons entry rest ih => exact ih (m.set entry.1 entry.2)

theorem nodup_keys_setAll (entries : List (String × α)) :
    (new.setAll entries).keys.Nodup := by
  rw [keys, entries_setAll]
  exact Upsert.nodup_keys_upsertAll (by simp) entries

/-- Setting the entries of a map with distinct keys rebuilds that map. -/
theorem setAll_entries {m : MapOf α} (h : m.keys.Nodup) : new.setAll m.entries = m := by
  have hentries := entries_setAll new m.entries
  rw [entries_new, Upsert.upsertAll_of_nodup (by simpa [keys] using h), List.nil_append] at hentries
  cases m
  exact congrArg MapOf.mk hentries

end MapOf

namespace Value

/-- Not a container. -/
def IsScalar : Value → Prop
  | .array _ => False
  | .map _ => False
  | _ => True

/-- Induction over the tree of a value, with the scalar constructors as one case. -/
@[elab_as_elim] theorem induction {motive : Value → Prop}
    (scalar : ∀ v, v.IsScalar → motive v)
    (array : ∀ items, (∀ v ∈ items, motive v) → motive (.array items))
    (map : ∀ m : Map, (∀ entry ∈ m.entries, motive entry.2) → motive (.map m))
    (v : Value) : motive v := by
  refine @Value.rec motive (fun items => ∀ v ∈ items, motive v)
    (fun m => ∀ entry ∈ m.entries, motive entry.2) (fun entries => ∀ entry ∈ entries, motive entry.2)
    (fun entry => motive entry.2) ?_ ?_ ?_ ?_ ?_ ?_ ?_ ?_ ?_ ?_ ?_ array map ?_ ?_ ?_ ?_ ?_ ?_ ?_ ?_ v
  case refine_14 => exact fun _ h => absurd h List.not_mem_nil
  case refine_15 => exact fun _ _ hhead htail => List.forall_mem_cons.mpr ⟨hhead, htail⟩
  case refine_16 => exact fun _ hentries => hentries
  case refine_17 => exact fun _ h => absurd h List.not_mem_nil
  case refine_18 => exact fun _ _ hhead htail => List.forall_mem_cons.mpr ⟨hhead, htail⟩
  case refine_19 => exact fun _ _ hvalue => hvalue
  all_goals first
    | exact fun _ => scalar _ trivial
    | exact scalar _ trivial

mutual

/-- Nesting height: scalars and empty containers have none, a map key counts as
a child of no height of its own. -/
def height : Value → Nat
  | .array items => heightItems items
  | .map m => heightMap m
  | _ => 0

def heightItems : List Value → Nat
  | [] => 0
  | v :: rest => max (v.height + 1) (heightItems rest)

def heightMap : Map → Nat
  | ⟨entries⟩ => heightEntries entries

def heightEntries : List (String × Value) → Nat
  | [] => 0
  | (_, v) :: rest => max (v.height + 1) (heightEntries rest)

end

theorem height_of_isScalar {v : Value} (h : v.IsScalar) : v.height = 0 := by
  cases v <;> first | rfl | exact h.elim

theorem height_array_le {items : List Value} {n : Nat} :
    (Value.array items).height ≤ n ↔ ∀ v ∈ items, v.height + 1 ≤ n := by
  rw [height]
  induction items with
  | nil => simp [heightItems]
  | cons v rest ih => rw [heightItems, Nat.max_le, ih, List.forall_mem_cons]

theorem height_map_le {m : Map} {n : Nat} :
    (Value.map m).height ≤ n ↔ ∀ entry ∈ m.entries, entry.2.height + 1 ≤ n := by
  obtain ⟨entries⟩ := m
  rw [height, heightMap]
  induction entries with
  | nil => simp [heightEntries]
  | cons entry rest ih => rw [heightEntries, Nat.max_le, ih, List.forall_mem_cons]

mutual

/-- A property of every node of the tree. -/
def Everywhere (p : Value → Prop) : Value → Prop
  | .array items => p (.array items) ∧ EverywhereItems p items
  | .map m => p (.map m) ∧ EverywhereMap p m
  | v => p v

def EverywhereItems (p : Value → Prop) : List Value → Prop
  | [] => True
  | v :: rest => v.Everywhere p ∧ EverywhereItems p rest

def EverywhereMap (p : Value → Prop) : Map → Prop
  | ⟨entries⟩ => EverywhereEntries p entries

def EverywhereEntries (p : Value → Prop) : List (String × Value) → Prop
  | [] => True
  | (_, v) :: rest => v.Everywhere p ∧ EverywhereEntries p rest

end

theorem everywhere_of_isScalar {p : Value → Prop} {v : Value} (h : v.IsScalar) :
    v.Everywhere p ↔ p v := by
  cases v <;> first | exact Iff.rfl | exact h.elim

@[simp] theorem everywhere_array {p : Value → Prop} {items : List Value} :
    (Value.array items).Everywhere p ↔ p (.array items) ∧ ∀ v ∈ items, v.Everywhere p := by
  rw [Everywhere]
  refine and_congr_right fun hroot => ?_
  clear hroot
  induction items with
  | nil => simp [EverywhereItems]
  | cons v rest ih => rw [EverywhereItems, ih, List.forall_mem_cons]

@[simp] theorem everywhere_map {p : Value → Prop} {m : Map} :
    (Value.map m).Everywhere p ↔ p (.map m) ∧ ∀ entry ∈ m.entries, entry.2.Everywhere p := by
  obtain ⟨entries⟩ := m
  rw [Everywhere, EverywhereMap]
  refine and_congr_right fun hroot => ?_
  clear hroot
  induction entries with
  | nil => simp [EverywhereEntries]
  | cons entry rest ih => rw [EverywhereEntries, ih, List.forall_mem_cons]

/-- What `Map::set` guarantees of one node: a map has distinct keys. -/
def HasDistinctKeys : Value → Prop
  | .map m => m.keys.Nodup
  | _ => True

/-- One node carries no time that the wire format cannot. -/
def HasWholeMillis : Value → Prop
  | .timestamp d => d.WholeMillis
  | _ => True

/-- Every map of the value has distinct keys. -/
def DistinctKeys (v : Value) : Prop := v.Everywhere HasDistinctKeys

/-- Every timestamp of the value is a whole number of milliseconds below `2 ^ 64`. -/
def WholeMillis (v : Value) : Prop := v.Everywhere HasWholeMillis

mutual

/-- The value with every timestamp cut down to its milliseconds modulo `2 ^ 64`. -/
def truncMillis : Value → Value
  | .array items => .array (truncMillisItems items)
  | .map m => .map (truncMillisMap m)
  | .timestamp d => .timestamp (Duration.fromMillis (UInt64.ofNat d.asMillis))
  | v => v

def truncMillisItems : List Value → List Value
  | [] => []
  | v :: rest => v.truncMillis :: truncMillisItems rest

def truncMillisMap : Map → Map
  | ⟨entries⟩ => ⟨truncMillisEntries entries⟩

def truncMillisEntries : List (String × Value) → List (String × Value)
  | [] => []
  | (key, v) :: rest => (key, v.truncMillis) :: truncMillisEntries rest

end

theorem truncMillisItems_eq (items : List Value) :
    truncMillisItems items = items.map truncMillis := by
  induction items with
  | nil => rfl
  | cons v rest ih => rw [truncMillisItems, ih, List.map_cons]

theorem truncMillisEntries_eq (entries : List (String × Value)) :
    truncMillisEntries entries = entries.map (Prod.map id truncMillis) := by
  induction entries with
  | nil => rfl
  | cons entry rest ih => rw [truncMillisEntries, ih, List.map_cons, Prod.map_apply, id]

@[simp] theorem truncMillis_array (items : List Value) :
    (Value.array items).truncMillis = .array (items.map truncMillis) := by
  rw [truncMillis, truncMillisItems_eq]

@[simp] theorem truncMillis_map (m : Map) :
    (Value.map m).truncMillis = .map ⟨m.entries.map (Prod.map id truncMillis)⟩ := by
  obtain ⟨entries⟩ := m
  rw [truncMillis, truncMillisMap, truncMillisEntries_eq]

/-- Cutting timestamps down changes no value whose timestamps the wire format can carry. -/
theorem truncMillis_of_wholeMillis {v : Value} (h : v.WholeMillis) : v.truncMillis = v := by
  induction v using Value.induction with
  | scalar v hv =>
    cases v with
    | timestamp d => exact congrArg timestamp (Duration.fromMillis_asMillis h)
    | array items => exact hv.elim
    | map m => exact hv.elim
    | _ => rfl
  | array items ih =>
    rw [WholeMillis, everywhere_array] at h
    rw [truncMillis_array]
    congr
    exact (List.map_congr_left fun v hv => ih v hv (h.2 v hv)).trans (List.map_id _)
  | map m ih =>
    rw [WholeMillis, everywhere_map] at h
    rw [truncMillis_map]
    congr
    refine (List.map_congr_left fun entry hentry => ?_).trans (List.map_id _)
    exact Prod.ext rfl (ih entry hentry (h.2 entry hentry))

end Value

end Hush.Tlv
