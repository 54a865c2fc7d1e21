import Hush.Tlv.Grammar

/-! The encoder against the grammar: what an encoding denotes, within which
limits the decoder reads it back, and that decoding normalises. -/
namespace Hush.Tlv

open Hush.Foundation BigEndian Cursor

/-- The limits that the decoder puts on an element it meets at a depth. -/
def WithinLimits (depth : Nat) (v : Value) : Prop :=
  v.height + depth ≤ maxDecodeDepth ∧ (payloadBytes v).length ≤ maxPayloadSize.toNat

theorem toNat_maxPayloadSize : maxPayloadSize.toNat = 524288 := rfl

theorem length_le_of_mem_flatMap {α : Type} {encode : α → List UInt8} {x : α} {xs : List α}
    (h : x ∈ xs) : (encode x).length ≤ (xs.flatMap encode).length := by
  rw [List.flatMap_def]
  exact (List.sublist_flatten_of_mem (List.mem_map_of_mem h)).length_le

/-- Whatever makes a container's payload fit makes its items' payloads fit. -/
theorem length_payload_item_lt {items : List Value} {item : Value} (h : item ∈ items) :
    (payloadBytes item).length < (payloadBytes (.array items)).length := by
  rw [payloadBytes_array]
  exact (length_payloadBytes_lt item).trans_le (length_le_of_mem_flatMap h)

theorem length_entry_le {m : Map} {entry : String × Value} (h : entry ∈ m.entries) :
    (encodeEntry entry).length ≤ (payloadBytes (.map m)).length := by
  rw [payloadBytes_map]
  exact length_le_of_mem_flatMap h

theorem length_payload_key_lt {m : Map} {entry : String × Value} (h : entry ∈ m.entries) :
    (payloadBytes (.string entry.1)).length < (payloadBytes (.map m)).length := by
  have hkey := length_payloadBytes_lt (.string entry.1)
  have hentry := length_entry_le h
  rw [encodeEntry, List.length_append] at hentry
  omega

theorem length_payload_val_lt {m : Map} {entry : String × Value} (h : entry ∈ m.entries) :
    (payloadBytes entry.2).length < (payloadBytes (.map m)).length := by
  have hval := length_payloadBytes_lt entry.2
  have hentry := length_entry_le h
  rw [encodeEntry, List.length_append] at hentry
  omega

/-- A framed payload is an element as soon as the payload denotes the value. -/
theorem denotes_frameElement {depth : Nat} {tag : UInt8} {typ : TypeTag} {payload : List UInt8}
    {v : Value} (hdepth : depth ≤ maxDecodeDepth) (htyp : TypeTag.fromU8 tag = some typ)
    (hlength : payload.length ≤ maxPayloadSize.toNat) (h : PayloadDenotes depth typ payload v) :
    Denotes depth (frameElement tag payload) v := by
  rw [toNat_maxPayloadSize] at hlength
  have hlen : (UInt64.ofNat payload.length).toNat = payload.length := by
    rw [UInt64.toNat_ofNat', Nat.mod_eq_of_lt (by omega)]
  have hfield := decodeVarint_encodeVarint_append (UInt64.ofNat payload.length) []
  rw [List.append_nil] at hfield
  refine .element hdepth htyp hfield ?_ hlen.symm h
  rw [UInt64.le_iff_toNat_le, hlen]
  exact hlength

/-- Conversely a chunk at the start of a framed payload is all of it, since the
length field that the encoder wrote is the one that is read. -/
theorem denotes_frameElement_inv {depth : Nat} {tag : UInt8} {payload chunk rest : List UInt8}
    {v : Value} (hsize : payload.length < 2 ^ 64) (h : Denotes depth chunk v)
    (hpre : chunk <+: frameElement tag payload ++ rest) :
    chunk = frameElement tag payload ∧ depth ≤ maxDecodeDepth ∧
      payload.length ≤ maxPayloadSize.toNat ∧
        ∃ typ, TypeTag.fromU8 tag = some typ ∧ PayloadDenotes depth typ payload v := by
  cases h with
  | @element _ tag' typ lenField len payload' _ hdepth htyp hvarint hlen hlength hpayload =>
    rw [frameElement, List.cons_append, List.cons_prefix_cons, List.append_assoc] at hpre
    obtain ⟨rfl, tail, htail⟩ := hpre
    have hread := decodeVarint_append hvarint (payload' ++ tail)
    rw [← List.append_assoc, htail, decodeVarint_encodeVarint_append] at hread
    simp only [Except.ok.injEq, Prod.mk.injEq] at hread
    obtain ⟨rfl, hfieldLength⟩ := hread
    rw [UInt64.toNat_ofNat', Nat.mod_eq_of_lt hsize] at hlength
    rw [List.append_assoc] at htail
    obtain ⟨rfl, hrest⟩ := List.append_inj htail hfieldLength.symm
    obtain ⟨rfl, -⟩ := List.append_inj hrest hlength
    refine ⟨rfl, hdepth, ?_, typ, htyp, hpayload⟩
    rw [UInt64.le_iff_toNat_le, UInt64.toNat_ofNat', Nat.mod_eq_of_lt hsize] at hlen
    exact hlen

theorem scalar_payloadDenotes {v : Value} (h : v.IsScalar) (depth : Nat) :
    ∃ typ, TypeTag.fromU8 (typeByte v) = some typ ∧
      PayloadDenotes depth typ (payloadBytes v) v.truncMillis := by
  have hnil {typ bytes w} (h : PayloadDenotes depth typ (bytes ++ []) w) :
      PayloadDenotes depth typ bytes w := List.append_nil bytes ▸ h
  cases v with
  | string s => exact ⟨.string, rfl, .string⟩
  | bytes b => exact ⟨.bytes, rfl, .bytes⟩
  | uint8 n => exact ⟨.uint8, rfl, .uint8⟩
  | uint16 n => exact ⟨.uint16, rfl, hnil .uint16⟩
  | uint32 n => exact ⟨.uint32, rfl, hnil .uint32⟩
  | uint64 n => exact ⟨.uint64, rfl, hnil .uint64⟩
  | int32 n => exact ⟨.int32, rfl, hnil .int32⟩
  | int64 n => exact ⟨.int64, rfl, hnil .int64⟩
  | float32 bits => exact ⟨.float32, rfl, hnil .float32⟩
  | float64 bits => exact ⟨.float64, rfl, hnil .float64⟩
  | bool b => cases b <;> exact ⟨.bool, rfl, .bool⟩
  | null => exact ⟨.null, rfl, .null⟩
  | timestamp d => exact ⟨.timestamp, rfl, hnil .timestamp⟩
  | array items => exact h.elim
  | map m => exact h.elim

/-- Within the limits an encoding denotes its value, timestamps cut down. -/
theorem denotes_encode {depth : Nat} {v : Value} (hkeys : v.DistinctKeys)
    (h : WithinLimits depth v) : Denotes depth (encode v) v.truncMillis := by
  induction v using Value.induction generalizing depth with
  | scalar v hv =>
    obtain ⟨typ, htyp, hpayload⟩ := scalar_payloadDenotes hv depth
    have hdepth := h.1
    exact denotes_frameElement (by omega) htyp h.2 hpayload
  | array items ih =>
    rw [Value.DistinctKeys, Value.everywhere_array] at hkeys
    have hdepth : ∀ v ∈ items, v.height + 1 ≤ maxDecodeDepth - depth := by
      have hheight := h.1
      exact Value.height_array_le.mp (by omega)
    have hitems : Concat (Denotes (depth + 1)) (items.flatMap encode)
        (items.map Value.truncMillis) := by
      apply Concat.of_flatMap
      intro v hv
      have hv64 := hdepth v hv
      have hlength := length_payload_item_lt hv
      exact ih v hv (hkeys.2 v hv) ⟨by omega, (hlength.le.trans h.2)⟩
    have hheight := h.1
    refine denotes_frameElement (by omega) rfl h.2 ?_
    rw [payloadBytes_array, Value.truncMillis_array]
    exact .array (itemsDenote_iff.mpr hitems)
  | map m ih =>
    rw [Value.DistinctKeys, Value.everywhere_map] at hkeys
    have hdepth : ∀ entry ∈ m.entries, entry.2.height + 1 ≤ maxDecodeDepth - depth := by
      have hheight := h.1
      exact Value.height_map_le.mp (by omega)
    have hentries : Concat (EntryDenotes (depth + 1)) (m.entries.flatMap encodeEntry)
        (m.entries.map (Prod.map id Value.truncMillis)) := by
      apply Concat.of_flatMap
      intro entry hentry
      have hv64 := hdepth entry hentry
      have hkeyLength := length_payload_key_lt hentry
      have hvalLength := length_payload_val_lt hentry
      refine ⟨encode (.string entry.1), encode entry.2, rfl, ?_,
        ih entry hentry (hkeys.2 entry hentry) ⟨by omega, hvalLength.le.trans h.2⟩⟩
      exact denotes_frameElement (by omega) rfl (hkeyLength.le.trans h.2) .string
    have hsame : (⟨m.entries.map (Prod.map id Value.truncMillis)⟩ : Map).keys = m.keys :=
      List.map_map
    have hnodup : (⟨m.entries.map (Prod.map id Value.truncMillis)⟩ : Map).keys.Nodup := by
      rw [hsame]
      exact hkeys.1
    have hheight := h.1
    refine denotes_frameElement (by omega) rfl h.2 ?_
    rw [payloadBytes_map, Value.truncMillis_map, ← MapOf.setAll_entries hnodup]
    exact .map (entriesDenote_iff.mpr hentries)

/-- A chunk that starts an encoding is the encoding, and then the value is
within the limits. -/
theorem withinLimits_of_denotes {depth : Nat} {v w : Value} {chunk rest : List UInt8}
    (hsize : v.Addressable) (h : Denotes depth chunk w) (hpre : chunk <+: encode v ++ rest) :
    chunk = encode v ∧ WithinLimits depth v := by
  induction v using Value.induction generalizing depth w chunk rest with
  | scalar v hv =>
    obtain ⟨rfl, hdepth, hlength, -⟩ := denotes_frameElement_inv hsize h hpre
    exact ⟨rfl, by rwa [Value.height_of_isScalar hv, Nat.zero_add], hlength⟩
  | array items ih =>
    obtain ⟨rfl, hdepth, hlength, typ, htyp, hpayload⟩ := denotes_frameElement_inv hsize h hpre
    obtain rfl : .array = typ := Option.some.inj htyp
    refine ⟨rfl, ?_, hlength⟩
    cases hpayload with
    | @array _ _ ws hitems =>
      rw [payloadBytes_array, itemsDenote_iff] at hitems
      have hinner : ∀ v ∈ items, WithinLimits (depth + 1) v := by
        refine Concat.forall_of_flatMap (fun v _ => List.cons_ne_nil _ _) ?_ hitems
        intro v hv chunk w rest hchunk hpre
        exact ih v hv ((length_payload_item_lt hv).trans hsize) hchunk hpre
      have hheight : (Value.array items).height ≤ maxDecodeDepth - depth := by
        rw [Value.height_array_le]
        intro v hv
        have := (hinner v hv).1
        omega
      omega
  | map m ih =>
    obtain ⟨rfl, hdepth, hlength, typ, htyp, hpayload⟩ := denotes_frameElement_inv hsize h hpre
    obtain rfl : .map = typ := Option.some.inj htyp
    refine ⟨rfl, ?_, hlength⟩
    generalize hw : w = w' at hpayload
    cases hpayload with
    | @map _ _ entries hentries =>
      rw [payloadBytes_map, entriesDenote_iff] at hentries
      have hinner : ∀ entry ∈ m.entries, WithinLimits (depth + 1) entry.2 := by
        refine Concat.forall_of_flatMap (fun entry _ => List.cons_ne_nil _ _) ?_ hentries
        intro entry hentry chunk w rest hchunk hpre
        obtain ⟨keyChunk, valChunk, rfl, hkey, hval⟩ := hchunk
        have hkeyPre : keyChunk <+: encode (.string entry.1) ++ (encode entry.2 ++ rest) := by
          rw [← List.append_assoc]
          exact (List.prefix_append keyChunk valChunk).trans hpre
        obtain ⟨rfl, -⟩ := denotes_frameElement_inv
          ((length_payload_key_lt hentry).trans hsize) hkey hkeyPre
        change encode (.string entry.1) ++ valChunk <+:
          encode (.string entry.1) ++ encode entry.2 ++ rest at hpre
        rw [List.append_assoc, List.prefix_append_right_inj] at hpre
        obtain ⟨rfl, hlimits⟩ := ih entry hentry ((length_payload_val_lt hentry).trans hsize) hval hpre
        exact ⟨rfl, hlimits⟩
      have hheight : (Value.map m).height ≤ maxDecodeDepth - depth := by
        rw [Value.height_map_le]
        intro entry hentry
        have := (hinner entry hentry).1
        omega
      omega

/-- The decoder reads an encoding back exactly when the value is within its
limits, and then it reads the value with its timestamps cut down. -/
theorem decode_encode {v : Value} (hkeys : v.DistinctKeys) (h : WithinLimits 0 v) :
    decode (encode v) = .ok v.truncMillis :=
  decode_ok_iff.mpr ⟨encode v, List.prefix_rfl, denotes_encode hkeys h⟩

theorem withinLimits_of_decode_encode {v w : Value} (hsize : v.Addressable)
    (h : decode (encode v) = .ok w) : WithinLimits 0 v := by
  obtain ⟨chunk, hpre, hchunk⟩ := decode_ok_iff.mp h
  rw [← List.append_nil (encode v)] at hpre
  exact (withinLimits_of_denotes hsize hchunk hpre).2

/-- The exact limits of a round trip. -/
theorem decode_encode_exact (v : Value) (hkeys : v.DistinctKeys) (hsize : v.Addressable) :
    (v.height ≤ 64 ∧ (payloadBytes v).length ≤ 524288 →
      decode (encode v) = .ok v.truncMillis) ∧
    (¬(v.height ≤ 64 ∧ (payloadBytes v).length ≤ 524288) →
      ∃ e, decode (encode v) = .error e) := by
  constructor
  · exact decode_encode hkeys
  · intro hlimits
    match hrun : decode (encode v) with
    | .error e => exact ⟨e, rfl⟩
    | .ok w => exact absurd (withinLimits_of_decode_encode hsize hrun) hlimits

/-- A timestamp that is no whole number of milliseconds, inside a map. -/
theorem decode_encode_exact_timestamp :
    decode (encode (.map ⟨[("at", .timestamp ⟨1, 500001, by decide⟩)]⟩)) =
      .ok (.map ⟨[("at", .timestamp ⟨1, 0, by decide⟩)]⟩) := by
  have hkeys : (Value.map ⟨[("at", .timestamp ⟨1, 500001, by decide⟩)]⟩).DistinctKeys := by
    simp [Value.DistinctKeys, Value.HasDistinctKeys, MapOf.keys, Value.Everywhere,
      Value.EverywhereMap, Value.EverywhereEntries]
  exact (decode_encode_exact _ hkeys (by unfold Value.Addressable; decide)).1 (by decide)

/-- What decoding makes of a value: no larger than its chunk, with distinct
keys and whole milliseconds, inside the limits. -/
structure Normal (depth : Nat) (chunk : List UInt8) (v : Value) : Prop where
  length_le : (encode v).length ≤ chunk.length
  distinctKeys : v.DistinctKeys
  wholeMillis : v.WholeMillis
  withinLimits : WithinLimits depth v

/-- The same of a payload, whose length field is still to be written. -/
structure PayloadNormal (depth : Nat) (payload : List UInt8) (v : Value) : Prop where
  length_le : (payloadBytes v).length ≤ payload.length
  distinctKeys : v.DistinctKeys
  wholeMillis : v.WholeMillis
  height_le : v.height + depth ≤ maxDecodeDepth

theorem fromMillis_wholeMillis (millis : UInt64) : (Duration.fromMillis millis).WholeMillis := by
  constructor
  · rw [Duration.nanos_fromMillis]
    exact Nat.mul_mod_left _ _
  · rw [Duration.asMillis_fromMillis]
    exact millis.toNat_lt

theorem PayloadNormal.of_isScalar {depth : Nat} {payload : List UInt8} {v : Value}
    (hscalar : v.IsScalar) (hdepth : depth ≤ maxDecodeDepth)
    (hlength : (payloadBytes v).length ≤ payload.length) (hmillis : v.HasWholeMillis) :
    PayloadNormal depth payload v where
  length_le := hlength
  distinctKeys := by
    rw [Value.DistinctKeys, Value.everywhere_of_isScalar hscalar]
    cases v <;> trivial
  wholeMillis := (Value.everywhere_of_isScalar hscalar).mpr hmillis
  height_le := by rwa [Value.height_of_isScalar hscalar, Nat.zero_add]

theorem payloadNormal_array {depth : Nat} {payload : List UInt8} {items : List Value}
    (hdepth : depth ≤ maxDecodeDepth) (h : Concat (Normal (depth + 1)) payload items) :
    PayloadNormal depth payload (.array items) where
  length_le := by
    rw [payloadBytes_array, List.length_flatMap]
    exact h.sum_le_length fun _ _ hv => hv.length_le
  distinctKeys := Value.everywhere_array.mpr ⟨trivial, h.forall_mem fun _ _ hv => hv.distinctKeys⟩
  wholeMillis := Value.everywhere_array.mpr ⟨trivial, h.forall_mem fun _ _ hv => hv.wholeMillis⟩
  height_le := by
    have hitems : ∀ v ∈ items, v.height + (depth + 1) ≤ maxDecodeDepth :=
      h.forall_mem fun _ _ hv => hv.withinLimits.1
    have hheight : (Value.array items).height ≤ maxDecodeDepth - depth := by
      rw [Value.height_array_le]
      intro v hv
      have := hitems v hv
      omega
    omega

theorem payloadNormal_map {depth : Nat} {payload : List UInt8} {entries : List (String × Value)}
    (hdepth : depth ≤ maxDecodeDepth)
    (h : Concat (fun chunk entry => (encodeEntry entry).length ≤ chunk.length ∧
      entry.2.DistinctKeys ∧ entry.2.WholeMillis ∧ WithinLimits (depth + 1) entry.2)
      payload entries) :
    PayloadNormal depth payload (.map (MapOf.new.setAll entries)) := by
  have hmem : ∀ entry ∈ (MapOf.new.setAll entries).entries, entry ∈ entries := by
    intro entry hentry
    rw [MapOf.entries_setAll] at hentry
    exact (Upsert.mem_upsertAll hentry).resolve_left List.not_mem_nil
  have hall := h.forall_mem fun _ _ hentry => hentry.2
  constructor
  · -- an overwritten entry only makes the map lighter than its wire form
    rw [payloadBytes_map, List.length_flatMap, MapOf.entries_setAll]
    refine (Upsert.sum_upsertAll_le (fun entry => (encodeEntry entry).length) _ _).trans ?_
    rw [MapOf.entries_new, List.map_nil, List.sum_nil, Nat.zero_add]
    exact h.sum_le_length fun _ _ hentry => hentry.1
  · exact Value.everywhere_map.mpr ⟨MapOf.nodup_keys_setAll entries,
      fun entry hentry => (hall entry (hmem entry hentry)).1⟩
  · exact Value.everywhere_map.mpr ⟨trivial,
      fun entry hentry => (hall entry (hmem entry hentry)).2.1⟩
  · have hheight : (Value.map (MapOf.new.setAll entries)).height ≤ maxDecodeDepth - depth := by
      rw [Value.height_map_le]
      intro entry hentry
      have := (hall entry (hmem entry hentry)).2.2.1
      omega
    omega

theorem payloadNormal_of_denotes {depth : Nat} {typ : TypeTag} {payload : List UInt8} {v : Value}
    (hdepth : depth ≤ maxDecodeDepth)
    (ih : ∀ chunk w, Denotes (depth + 1) chunk w → Normal (depth + 1) chunk w)
    (h : PayloadDenotes depth typ payload v) : PayloadNormal depth payload v := by
  cases h with
  | array hitems => exact payloadNormal_array hdepth ((itemsDenote_iff.mp hitems).mono ih)
  | map hentries =>
    refine payloadNormal_map hdepth ((entriesDenote_iff.mp hentries).mono ?_)
    intro chunk entry hentry
    obtain ⟨keyChunk, valChunk, rfl, hkey, hval⟩ := hentry
    have hkeyNormal := ih _ _ hkey
    have hvalNormal := ih _ _ hval
    refine ⟨?_, hvalNormal.distinctKeys, hvalNormal.wholeMillis, hvalNormal.withinLimits⟩
    rw [encodeEntry, List.length_append, List.length_append]
    exact Nat.add_le_add hkeyNormal.length_le hvalNormal.length_le
  | timestamp =>
    refine .of_isScalar trivial hdepth ?_ (fromMillis_wholeMillis _)
    rw [payloadBytes, Word.length_toBeBytes, List.length_append, Word.length_toBeBytes]
    exact Nat.le_add_right _ _
  | string => exact .of_isScalar trivial hdepth (Nat.le_refl _) trivial
  | bytes => exact .of_isScalar trivial hdepth (Nat.le_refl _) trivial
  | null => exact .of_isScalar trivial hdepth (Nat.zero_le _) trivial
  | uint8 => exact .of_isScalar trivial hdepth (Nat.le_add_left 1 _) trivial
  | bool => exact .of_isScalar trivial hdepth (Nat.le_add_left 1 _) trivial
  | uint16 | uint32 | uint64 | int32 | int64 | float32 | float64 =>
    refine .of_isScalar trivial hdepth ?_ trivial
    rw [payloadBytes, List.length_append]
    exact Nat.le_add_right _ _

theorem normal_of_denotes {depth : Nat} {chunk : List UInt8} {v : Value}
    (h : Denotes depth chunk v) : Normal depth chunk v := by
  -- induction on the levels left below the depth
  induction hroom : maxDecodeDepth + 1 - depth generalizing depth chunk v with
  | zero =>
    have := h.depth_le
    omega
  | succ room ih =>
    cases h with
    | @element _ tag typ lenField len payload _ hdepth htyp hvarint hlen hlength hpayload =>
      have hnormal := payloadNormal_of_denotes hdepth
        (fun chunk w hw => ih hw (by omega)) hpayload
      have hlen' := UInt64.le_iff_toNat_le.mp hlen
      have hle := hnormal.length_le
      rw [toNat_maxPayloadSize] at hlen'
      refine ⟨?_, hnormal.distinctKeys, hnormal.wholeMillis, hnormal.height_le, ?_⟩
      · -- the shorter payload has the shorter length field, which is minimal
        have hfield : (encodeVarint (UInt64.ofNat (payloadBytes v).length)).length ≤
            lenField.length := by
          refine (length_encodeVarint_mono ?_).trans (length_encodeVarint_le hvarint)
          rw [UInt64.le_iff_toNat_le, UInt64.toNat_ofNat', Nat.mod_eq_of_lt (by omega)]
          omega
        rw [encode, length_frameElement, List.length_cons, List.length_append]
        omega
      · rw [toNat_maxPayloadSize]
        omega

/-- A decoded value encodes to no more bytes than were read for it, and reads
back as itself. -/
theorem decode_normalises (buf : List UInt8) (v : Value) (h : decode buf = .ok v) :
    ∃ consumed, decodeValue buf 0 0 = .ok (v, consumed) ∧ consumed ≤ buf.length ∧
      (encode v).length ≤ consumed ∧ decode (encode v) = .ok v := by
  obtain ⟨chunk, hpre, hchunk⟩ := decode_ok_iff.mp h
  have hnormal := normal_of_denotes hchunk
  have hencode := decode_encode hnormal.distinctKeys hnormal.withinLimits
  rw [Value.truncMillis_of_wholeMillis hnormal.wholeMillis] at hencode
  refine ⟨0 + chunk.length, (decodeValue_recognises 0).complete hpre hchunk, ?_, ?_, hencode⟩
  · rw [Nat.zero_add]
    exact hpre.length_le
  · rw [Nat.zero_add]
    exact hnormal.length_le

/-- A duplicate key, a long length field, a null with a payload and bytes after
the element. -/
theorem decode_normalises_duplicate :
    ∃ consumed, decodeValue
        [0x0D, 0x8C, 0x00, 0x01, 1, 97, 0x03, 1, 7, 0x01, 1, 97, 0x0E, 1, 9, 0xFF] 0 0 =
          .ok (.map ⟨[("a", .null)]⟩, consumed) ∧ consumed ≤ 16 ∧
      (encode (.map ⟨[("a", .null)]⟩)).length ≤ consumed ∧
        decode (encode (.map ⟨[("a", .null)]⟩)) = .ok (.map ⟨[("a", .null)]⟩) :=
  decode_normalises
    [0x0D, 0x8C, 0x00, 0x01, 1, 97, 0x03, 1, 7, 0x01, 1, 97, 0x0E, 1, 9, 0xFF]
    (.map ⟨[("a", .null)]⟩) rfl

end Hush.Tlv
