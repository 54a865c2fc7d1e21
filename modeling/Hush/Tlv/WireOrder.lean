import Hush.Foundation.OrderedMap
import Hush.Tlv.Grammar

/-! What a map holds after any sequence of `set` calls, and that every map of a
decoded value is what `set` makes of the pairs on the wire, in their order and
with their duplicates. -/
namespace Hush.Tlv

open Hush.Foundation BigEndian Cursor

namespace MapOf

variable {α : Type}

/-- The finite map, ordered by insertion, that a `Map` with distinct keys represents. -/
def toOrdered (m : MapOf α) (h : m.keys.Nodup) : OrderedMap String α := .ofEntries m.entries h

theorem toOrdered_set {m : MapOf α} (h : m.keys.Nodup) (key : String) (value : α) :
    (m.set key value).toOrdered (Upsert.nodup_keys_upsert h key value) =
      (m.toOrdered h).insert key value :=
  OrderedMap.ofEntries_upsert h key value

theorem toOrdered_setAll {m : MapOf α} (h : m.keys.Nodup) (calls : List (String × α))
    (h' : (m.setAll calls).keys.Nodup) :
    (m.setAll calls).toOrdered h' = (m.toOrdered h).insertAll calls := by
  induction calls generalizing m with
  | nil => rfl
  | cons call rest ih =>
    rw [OrderedMap.insertAll, List.foldl_cons, ← toOrdered_set h]
    exact ih (Upsert.nodup_keys_upsert h call.1 call.2) h'

theorem toOrdered_new : (new : MapOf α).toOrdered List.nodup_nil = OrderedMap.empty := rfl

theorem get_eq_find {m : MapOf α} (h : m.keys.Nodup) : m.get = (m.toOrdered h).find := rfl

/-- A new map after any sequence of `set` calls. -/
structure HoldsCalls (m : MapOf α) (calls : List (String × α)) : Prop where
  distinct : (m.iter.map Prod.fst).Nodup
  ordered : m.iter.map Prod.fst = (calls.map Prod.fst).eraseDups
  counted : m.len = (calls.map Prod.fst).toFinset.card
  last : ∀ key, m.get key = (calls.filter fun call => call.1 = key).getLast?.map Prod.snd
  found : ∀ entry ∈ m.iter, m.get entry.1 = some entry.2

theorem holdsCalls_setAll (calls : List (String × α)) : HoldsCalls (new.setAll calls) calls := by
  have hdistinct := nodup_keys_setAll calls
  have hrun := toOrdered_setAll (m := new) List.nodup_nil calls hdistinct
  rw [toOrdered_new] at hrun
  have hkeys : (new.setAll calls).keys = (calls.map Prod.fst).eraseDups := by
    rw [← OrderedMap.keys_insertAll, ← hrun]
    rfl
  refine ⟨hdistinct, hkeys, ?_, ?_, fun entry => Upsert.lookup_of_mem hdistinct⟩
  · have hset : (new.setAll calls).keys.toFinset = (calls.map Prod.fst).toFinset := by
      ext key
      rw [hkeys, List.mem_toFinset, List.mem_toFinset, List.mem_eraseDups]
    rw [← hset, List.toFinset_card_of_nodup hdistinct, keys, List.length_map]
    rfl
  · intro key
    rw [get_eq_find hdistinct, hrun, OrderedMap.find_insertAll]

end MapOf

/-- An element as it stands on the wire: a map is the list of its pairs, with a
key as often as it was sent. -/
inductive Element where
  | scalar (v : Value) (isScalar : v.IsScalar)
  | array (items : List Element)
  | map (pairs : List (String × Element))

namespace Element

/-- Induction over the tree of an element. -/
@[elab_as_elim] theorem induction {motive : Element → Prop}
    (scalar : ∀ v h, motive (.scalar v h))
    (array : ∀ items, (∀ e ∈ items, motive e) → motive (.array items))
    (map : ∀ pairs, (∀ pair ∈ pairs, motive pair.2) → motive (.map pairs))
    (e : Element) : motive e := by
  refine @Element.rec motive (fun items => ∀ e ∈ items, motive e)
    (fun pairs => ∀ pair ∈ pairs, motive pair.2) (fun pair => motive pair.2)
    scalar array map ?_ ?_ ?_ ?_ ?_ e
  · exact fun _ h => absurd h List.not_mem_nil
  · exact fun _ _ hhead htail => List.forall_mem_cons.mpr ⟨hhead, htail⟩
  · exact fun _ h => absurd h List.not_mem_nil
  · exact fun _ _ hhead htail => List.forall_mem_cons.mpr ⟨hhead, htail⟩
  · exact fun _ _ hvalue => hvalue

mutual

/-- The value of an element: each map is a new map with its pairs set one by one. -/
def value : Element → Value
  | .scalar v _ => v
  | .array items => .array (valueItems items)
  | .map pairs => .map (MapOf.new.setAll (valuePairs pairs))

def valueItems : List Element → List Value
  | [] => []
  | e :: rest => e.value :: valueItems rest

def valuePairs : List (String × Element) → List (String × Value)
  | [] => []
  | (key, e) :: rest => (key, e.value) :: valuePairs rest

end

theorem valueItems_eq (items : List Element) : valueItems items = items.map value := by
  induction items with
  | nil => rfl
  | cons e rest ih => rw [valueItems, ih, List.map_cons]

theorem valuePairs_eq (pairs : List (String × Element)) :
    valuePairs pairs = pairs.map (Prod.map id value) := by
  induction pairs with
  | nil => rfl
  | cons pair rest ih => rw [valuePairs, ih, List.map_cons, Prod.map_apply, id]

mutual

/-- The byte string spells the element at a nesting depth. -/
def Spelled : Element → Nat → List UInt8 → Prop
  | .scalar v _, depth, chunk => depth ≤ maxDecodeDepth ∧
    ∃ typ payload, HeaderDenotes chunk (typ, payload) ∧ PayloadDenotes depth typ payload v
  | .array items, depth, chunk => depth ≤ maxDecodeDepth ∧
    ∃ payload, HeaderDenotes chunk (.array, payload) ∧ SpelledItems items (depth + 1) payload
  | .map pairs, depth, chunk => depth ≤ maxDecodeDepth ∧
    ∃ payload, HeaderDenotes chunk (.map, payload) ∧ SpelledPairs pairs (depth + 1) payload

def SpelledItems : List Element → Nat → List UInt8 → Prop
  | [], _, payload => payload = []
  | e :: rest, depth, payload => ∃ chunk tail, payload = chunk ++ tail ∧
    e.Spelled depth chunk ∧ SpelledItems rest depth tail

def SpelledPairs : List (String × Element) → Nat → List UInt8 → Prop
  | [], _, payload => payload = []
  | (key, e) :: rest, depth, payload => ∃ keyChunk valChunk tail,
    payload = keyChunk ++ valChunk ++ tail ∧ Denotes depth keyChunk (.string key) ∧
      e.Spelled depth valChunk ∧ SpelledPairs rest depth tail

end

/-- An element somewhere inside another, or the element itself. -/
inductive Inside (root : Element) : Element → Prop where
  | root : Inside root root
  | item {items e} : Inside root (.array items) → e ∈ items → Inside root e
  | pair {pairs pair} : Inside root (.map pairs) → pair ∈ pairs → Inside root pair.2

/-- At a node that is a map: it is what `set` makes of pairs on the wire. -/
def SetInOrder (root : Element) (node : Value) : Prop :=
  ∀ m, node = .map m → m.keys.Nodup ∧ ∃ pairs, root.Inside (.map pairs) ∧
    m = MapOf.new.setAll (pairs.map (Prod.map id value))

theorem everywhere_setInOrder {root e : Element} (h : root.Inside e) :
    e.value.Everywhere root.SetInOrder := by
  induction e using Element.induction with
  | scalar v hv =>
    rw [value, Value.everywhere_of_isScalar hv]
    rintro m rfl
    exact hv.elim
  | array items ih =>
    rw [value, valueItems_eq, Value.everywhere_array]
    constructor
    · intro m hm
      cases hm
    intro v hv
    obtain ⟨e, he, rfl⟩ := List.mem_map.mp hv
    exact ih e he (.item h he)
  | map pairs ih =>
    rw [value, valuePairs_eq, Value.everywhere_map]
    constructor
    · intro m hm
      obtain rfl := Value.map.inj hm
      exact ⟨MapOf.nodup_keys_setAll _, pairs, h, rfl⟩
    · -- an entry that was overwritten is not in the map, the others are from the wire
      intro entry hentry
      rw [MapOf.entries_setAll] at hentry
      obtain hnew | hwire := Upsert.mem_upsertAll hentry
      · exact absurd hnew List.not_mem_nil
      · obtain ⟨pair, hpair, rfl⟩ := List.mem_map.mp hwire
        exact ih pair hpair (.pair h hpair)

/-! ### The grammar, with the pairs kept -/

theorem spelledItems_of_concat {depth : Nat} {payload : List UInt8} {items : List Value}
    (h : Concat (fun chunk v => ∃ e : Element, e.Spelled depth chunk ∧ e.value = v) payload items) :
    ∃ es, SpelledItems es depth payload ∧ valueItems es = items := by
  induction h with
  | nil => exact ⟨[], rfl, rfl⟩
  | cons hchunk _ ih =>
    obtain ⟨e, hspelled, rfl⟩ := hchunk
    obtain ⟨es, hes, rfl⟩ := ih
    exact ⟨e :: es, ⟨_, _, rfl, hspelled, hes⟩, rfl⟩

theorem spelledPairs_of_concat {depth : Nat} {payload : List UInt8}
    {entries : List (String × Value)}
    (h : Concat (fun chunk entry => ∃ keyChunk valChunk, chunk = keyChunk ++ valChunk ∧
      Denotes depth keyChunk (.string entry.1) ∧
        ∃ e : Element, e.Spelled depth valChunk ∧ e.value = entry.2) payload entries) :
    ∃ pairs, SpelledPairs pairs depth payload ∧ valuePairs pairs = entries := by
  induction h with
  | nil => exact ⟨[], rfl, rfl⟩
  | @cons _ _ entry _ hchunk _ ih =>
    obtain ⟨key, v⟩ := entry
    obtain ⟨keyChunk, valChunk, rfl, hkey, e, hspelled, rfl⟩ := hchunk
    obtain ⟨pairs, hpairs, rfl⟩ := ih
    exact ⟨(key, e) :: pairs, ⟨_, _, _, rfl, hkey, hspelled, hpairs⟩, rfl⟩

end Element

theorem HeaderDenotes.denotes {depth : Nat} {chunk payload : List UInt8} {typ : TypeTag} {v : Value}
    (h : HeaderDenotes chunk (typ, payload)) (hdepth : depth ≤ maxDecodeDepth)
    (hpayload : PayloadDenotes depth typ payload v) : Denotes depth chunk v := by
  obtain ⟨tag, lenField, len, rfl, htyp, hvarint, hlen, hlength⟩ := h
  exact .element hdepth htyp hvarint hlen hlength hpayload

/-- An element denotes its value. -/
theorem denotes_of_spelled {e : Element} {depth : Nat} {chunk : List UInt8}
    (h : e.Spelled depth chunk) : Denotes depth chunk e.value := by
  induction e using Element.induction generalizing depth chunk with
  | scalar v hv =>
    obtain ⟨hdepth, typ, payload, hheader, hpayload⟩ := h
    exact hheader.denotes hdepth hpayload
  | array items ih =>
    obtain ⟨hdepth, payload, hheader, hitems⟩ := h
    refine hheader.denotes hdepth (.array ?_)
    clear hheader
    induction items generalizing payload with
    | nil =>
      obtain rfl := hitems
      exact .nil
    | cons e rest ihRest =>
      rw [List.forall_mem_cons] at ih
      obtain ⟨chunk, tail, rfl, he, hrest⟩ := hitems
      exact .cons (ih.1 he) (ihRest ih.2 tail hrest)
  | map pairs ih =>
    obtain ⟨hdepth, payload, hheader, hpairs⟩ := h
    refine hheader.denotes hdepth (.map ?_)
    clear hheader
    induction pairs generalizing payload with
    | nil =>
      obtain rfl := hpairs
      exact .nil
    | cons pair rest ihRest =>
      rw [List.forall_mem_cons] at ih
      obtain ⟨keyChunk, valChunk, tail, rfl, hkey, he, hrest⟩ := hpairs
      exact .cons hkey (ih.1 he) (ihRest ih.2 tail hrest)

/-- Whatever denotes a value spells an element of that value. The induction is on
the levels that are left below the depth limit. -/
theorem spelled_of_denotes {depth : Nat} {chunk : List UInt8} {v : Value}
    (h : Denotes depth chunk v) : ∃ e : Element, e.Spelled depth chunk ∧ e.value = v := by
  induction hroom : maxDecodeDepth + 1 - depth generalizing depth chunk v with
  | zero =>
    have hdepth := h.depth_le
    omega
  | succ room ih =>
    cases h with
    | @element _ tag typ lenField len payload _ hdepth htyp hvarint hlen hlength hpayload =>
      have hheader : HeaderDenotes (tag :: (lenField ++ payload)) (typ, payload) :=
        ⟨tag, lenField, len, rfl, htyp, hvarint, hlen, hlength⟩
      by_cases hscalar : v.IsScalar
      · exact ⟨.scalar v hscalar, ⟨hdepth, typ, payload, hheader, hpayload⟩, rfl⟩
      cases hpayload with
      | @array _ _ items hitems =>
        have hspelled := (itemsDenote_iff.mp hitems).mono fun _ _ hv => ih hv (by omega)
        obtain ⟨es, hes, rfl⟩ := Element.spelledItems_of_concat hspelled
        exact ⟨.array es, ⟨hdepth, payload, hheader, hes⟩, rfl⟩
      | @map _ _ entries hentries =>
        have hspelled : Concat (fun chunk entry => ∃ keyChunk valChunk,
            chunk = keyChunk ++ valChunk ∧ Denotes (depth + 1) keyChunk (.string entry.1) ∧
              ∃ e : Element, e.Spelled (depth + 1) valChunk ∧ e.value = entry.2)
            payload entries := by
          refine (entriesDenote_iff.mp hentries).mono fun chunk entry hentry => ?_
          obtain ⟨keyChunk, valChunk, rfl, hkey, hval⟩ := hentry
          exact ⟨keyChunk, valChunk, rfl, hkey, ih hval (by omega)⟩
        obtain ⟨pairs, hpairs, rfl⟩ := Element.spelledPairs_of_concat hspelled
        exact ⟨.map pairs, ⟨hdepth, payload, hheader, hpairs⟩, rfl⟩
      | _ => exact absurd trivial hscalar

/-- The decoder reads the element that the buffer starts with. -/
theorem decode_ok_iff_spelled {buf : List UInt8} {v : Value} :
    decode buf = .ok v ↔ ∃ chunk, ∃ e : Element, chunk <+: buf ∧ e.Spelled 0 chunk ∧ e.value = v := by
  rw [decode_ok_iff]
  constructor
  · rintro ⟨chunk, hpre, hchunk⟩
    obtain ⟨e, hspelled, hvalue⟩ := spelled_of_denotes hchunk
    exact ⟨chunk, e, hpre, hspelled, hvalue⟩
  · rintro ⟨chunk, e, hpre, hspelled, rfl⟩
    exact ⟨chunk, hpre, denotes_of_spelled hspelled⟩

/-- A map after any sequence of `set` calls is the finite map of those calls,
ordered by first insertion; and every map at every level of a decoded value has
distinct keys and is what `set` makes of its pairs on the wire. -/
theorem maps_refine_set :
    (∀ (α : Type) (calls : List (String × α)),
      (MapOf.new.setAll calls).HoldsCalls calls) ∧
    ∀ buf v, decode buf = .ok v → ∃ chunk, ∃ e : Element, chunk <+: buf ∧ e.Spelled 0 chunk ∧
      e.value = v ∧ v.Everywhere e.SetInOrder := by
  refine ⟨fun α calls => MapOf.holdsCalls_setAll calls, ?_⟩
  intro buf v h
  obtain ⟨chunk, e, hpre, hspelled, rfl⟩ := decode_ok_iff_spelled.mp h
  exact ⟨chunk, e, hpre, hspelled, rfl, Element.everywhere_setInOrder .root⟩

/-- One key sent twice. -/
theorem maps_refine_set_duplicate :
    ∃ chunk, ∃ e : Element, chunk <+: [0x0D, 12, 0x01, 1, 97, 0x03, 1, 7, 0x01, 1, 97, 0x03, 1, 8] ∧
      e.Spelled 0 chunk ∧ e.value = .map ⟨[("a", .uint8 8)]⟩ ∧
        (Value.map ⟨[("a", .uint8 8)]⟩).Everywhere e.SetInOrder :=
  maps_refine_set.2 _ _ (by rfl)

end Hush.Tlv
