import Hush.Foundation.PrefixCode
import Hush.Tlv.RoundTrip

/-! The encoder on its own: no two values share an encoding, or the start of
one, beyond what timestamps lose, whatever their size and depth. The decoder's
limits play no part here. -/
namespace Hush.Tlv

open Hush.Foundation BigEndian PrefixCode

/-- The type byte and the length field mark the end of an element. -/
theorem frameElement_inj {tag tag' : UInt8} {payload payload' s t : List UInt8}
    (hsize : payload.length < 2 ^ 64) (hsize' : payload'.length < 2 ^ 64)
    (h : frameElement tag payload ++ s = frameElement tag' payload' ++ t) :
    tag = tag' ∧ payload = payload' ∧ s = t := by
  unfold frameElement at h
  rw [List.cons_append, List.cons_append, List.cons.injEq, List.append_assoc,
    List.append_assoc] at h
  obtain ⟨htag, hrest⟩ := h
  have hread := decodeVarint_encodeVarint_append (UInt64.ofNat payload.length) (payload ++ s)
  rw [hrest, decodeVarint_encodeVarint_append] at hread
  have hfield : UInt64.ofNat payload'.length = UInt64.ofNat payload.length := by
    simp only [Except.ok.injEq, Prod.mk.injEq] at hread
    exact hread.1
  have hlength : payload'.length = payload.length := by
    have hnat := congrArg UInt64.toNat hfield
    rwa [UInt64.toNat_ofNat', UInt64.toNat_ofNat', Nat.mod_eq_of_lt hsize',
      Nat.mod_eq_of_lt hsize] at hnat
  rw [hfield, List.append_cancel_left_eq] at hrest
  obtain ⟨hpayload, hs⟩ := List.append_inj hrest hlength.symm
  exact ⟨htag, hpayload, hs⟩

theorem isScalar_iff_typeByte (v : Value) :
    v.IsScalar ↔ typeByte v ≠ 0x0C ∧ typeByte v ≠ 0x0D := by
  cases v <;> simp [Value.IsScalar, typeByte]

/-- A scalar is known by its type byte and payload. No limit of the decoder
concerns a scalar's payload, so the cases of its `match` can be read backwards. -/
theorem scalar_eq_of_payload {v w : Value} (hv : v.IsScalar) (htag : typeByte v = typeByte w)
    (hpayload : payloadBytes v = payloadBytes w) : v.truncMillis = w.truncMillis := by
  have hw : w.IsScalar := by
    rw [isScalar_iff_typeByte, ← htag]
    exact (isScalar_iff_typeByte v).mp hv
  obtain ⟨typ, htyp, hdenotes⟩ := scalar_payloadDenotes hv 0
  obtain ⟨typ', htyp', hdenotes'⟩ := scalar_payloadDenotes hw 0
  rw [← htag, htyp] at htyp'
  obtain rfl := Option.some.inj htyp'
  rw [← hpayload] at hdenotes'
  have hread := (decodePayload_ok_iff (decodeValue_recognises 1)).mpr hdenotes
  rw [(decodePayload_ok_iff (decodeValue_recognises 1)).mpr hdenotes'] at hread
  exact (Except.ok.inj hread).symm

theorem typeByte_eq_array {w : Value} (h : typeByte w = 0x0C) : ∃ items, w = .array items := by
  cases w <;> first | exact ⟨_, rfl⟩ | simp [typeByte] at h

theorem typeByte_eq_map {w : Value} (h : typeByte w = 0x0D) : ∃ m, w = .map m := by
  cases w <;> first | exact ⟨_, rfl⟩ | simp [typeByte] at h

theorem encodeEntry_delimited {entry entry' : String × Value}
    (hkey : Delimited encode Value.truncMillis (.string entry.1) (.string entry'.1))
    (hval : Delimited encode Value.truncMillis entry.2 entry'.2) :
    Delimited encodeEntry (Prod.map id Value.truncMillis) entry entry' := by
  have hstring : Delimited (fun key => encode (.string key)) id entry.1 entry'.1 := by
    intro s t h
    obtain ⟨hs, hview⟩ := hkey s t h
    exact ⟨hs, Value.string.inj hview⟩
  exact hstring.pair hval

/-- Two elements whose payloads tell the values apart. -/
theorem delimited_of_payload {v w : Value} (hv : v.Addressable) (hw : w.Addressable)
    (h : typeByte v = typeByte w → payloadBytes v = payloadBytes w →
      v.truncMillis = w.truncMillis) :
    Delimited encode Value.truncMillis v w := by
  intro s t hsame
  obtain ⟨htag, hpayload, hs⟩ := frameElement_inj hv hw hsame
  exact ⟨hs, h htag hpayload⟩

/-- The induction over the first value: the second has the same type byte, so the
same shape, and its parts are smaller too. -/
theorem encode_delimited {v w : Value} (hv : v.Addressable) (hw : w.Addressable) :
    Delimited encode Value.truncMillis v w := by
  induction v using Value.induction generalizing w with
  | scalar v hscalar => exact delimited_of_payload hv hw (scalar_eq_of_payload hscalar)
  | array items ih =>
    refine delimited_of_payload hv hw fun htag hpayload => ?_
    obtain ⟨items', rfl⟩ := typeByte_eq_array htag.symm
    rw [payloadBytes_array, payloadBytes_array] at hpayload
    rw [Value.truncMillis_array, Value.truncMillis_array]
    congr 1
    refine flatMap_inj (fun _ => List.cons_ne_nil _ _) ?_ hpayload
    intro item hitem item' hitem'
    exact ih item hitem ((length_payload_item_lt hitem).trans hv)
      ((length_payload_item_lt hitem').trans hw)
  | map m ih =>
    refine delimited_of_payload hv hw fun htag hpayload => ?_
    obtain ⟨m', rfl⟩ := typeByte_eq_map htag.symm
    rw [payloadBytes_map, payloadBytes_map] at hpayload
    rw [Value.truncMillis_map, Value.truncMillis_map]
    congr 2
    refine flatMap_inj (fun _ => List.cons_ne_nil _ _) ?_ hpayload
    intro entry hentry entry' hentry'
    refine encodeEntry_delimited ?_ ?_
    · exact delimited_of_payload ((length_payload_key_lt hentry).trans hv)
        ((length_payload_key_lt hentry').trans hw) (scalar_eq_of_payload trivial)
    · exact ih entry hentry ((length_payload_val_lt hentry).trans hv)
        ((length_payload_val_lt hentry').trans hw)

/-- What the view forgets: of a timestamp, all but its milliseconds modulo `2 ^ 64`. -/
theorem truncMillis_timestamp_eq_iff (d e : Duration) :
    (Value.timestamp d).truncMillis = (Value.timestamp e).truncMillis ↔
      d.asMillis % 2 ^ 64 = e.asMillis % 2 ^ 64 := by
  unfold Value.truncMillis
  constructor
  · intro h
    have hmillis := congrArg Duration.asMillis (Value.timestamp.inj h)
    rwa [Duration.asMillis_fromMillis, Duration.asMillis_fromMillis, UInt64.toNat_ofNat',
      UInt64.toNat_ofNat'] at hmillis
  · intro h
    have hword : UInt64.ofNat d.asMillis = UInt64.ofNat e.asMillis := by
      apply UInt64.toNat_inj.mp
      rw [UInt64.toNat_ofNat', UInt64.toNat_ofNat', h]
    rw [hword]

@[simp] theorem typeByte_truncMillis (v : Value) : typeByte v.truncMillis = typeByte v := by
  cases v <;> rfl

/-- The encoder sees no more of a value than the view does. -/
theorem encode_truncMillis (v : Value) : encode v.truncMillis = encode v := by
  have hframe {v : Value} (h : payloadBytes v.truncMillis = payloadBytes v) :
      encode v.truncMillis = encode v := by
    rw [encode, typeByte_truncMillis, h, encode]
  induction v using Value.induction with
  | scalar v hv =>
    cases v with
    | timestamp d =>
      apply hframe
      rw [Value.truncMillis, payloadBytes, payloadBytes, Duration.asMillis_fromMillis,
        UInt64.ofNat_toNat]
    | array items => exact hv.elim
    | map m => exact hv.elim
    | _ => rfl
  | array items ih =>
    apply hframe
    rw [Value.truncMillis_array, payloadBytes_array, payloadBytes_array, List.flatMap_map]
    exact List.flatMap_congr ih
  | map m ih =>
    apply hframe
    rw [Value.truncMillis_map, payloadBytes_map, payloadBytes_map, List.flatMap_map]
    refine List.flatMap_congr fun entry hentry => ?_
    rw [encodeEntry, encodeEntry, Prod.map_fst, Prod.map_snd, id, ih entry hentry]

theorem addressable_of_length_encode {v : Value} (h : (encode v).length < 2 ^ 64) :
    v.Addressable := (length_payloadBytes_lt v).trans h

/-- Encodings are injective and prefix-free up to what timestamps lose, and
encodings end to end, of items or of map entries, are read in only one way. -/
theorem encode_prefix_free :
    (∀ v w s t, (encode v).length < 2 ^ 64 → (encode w).length < 2 ^ 64 →
      (encode v ++ s = encode w ++ t ↔ s = t ∧ v.truncMillis = w.truncMillis)) ∧
    (∀ vs ws : List Value, (vs.flatMap encode).length < 2 ^ 64 →
      vs.flatMap encode = ws.flatMap encode →
        vs.map Value.truncMillis = ws.map Value.truncMillis) ∧
    (∀ m n : Map, (m.entries.flatMap encodeEntry).length < 2 ^ 64 →
      m.entries.flatMap encodeEntry = n.entries.flatMap encodeEntry →
        (Value.map m).truncMillis = (Value.map n).truncMillis) := by
  refine ⟨?_, ?_, ?_⟩
  · intro v w s t hv hw
    constructor
    · exact encode_delimited (addressable_of_length_encode hv) (addressable_of_length_encode hw) s t
    · rintro ⟨rfl, hview⟩
      rw [← encode_truncMillis v, hview, encode_truncMillis]
  · intro vs ws hsize hsame
    have hws : (ws.flatMap encode).length < 2 ^ 64 := hsame ▸ hsize
    refine flatMap_inj (fun _ => List.cons_ne_nil _ _) ?_ hsame
    intro v hv w hw
    exact encode_delimited
      (addressable_of_length_encode ((length_le_of_mem_flatMap hv).trans_lt hsize))
      (addressable_of_length_encode ((length_le_of_mem_flatMap hw).trans_lt hws))
  · intro m n hsize hsame
    rw [← payloadBytes_map, ← payloadBytes_map] at hsame
    have hm : (Value.map m).Addressable := by
      unfold Value.Addressable
      rwa [payloadBytes_map]
    have hn : (Value.map n).Addressable := by
      unfold Value.Addressable at hm ⊢
      rwa [← hsame]
    have hencode : encode (.map m) ++ [] = encode (.map n) ++ [] := by
      rw [encode, encode, hsame, typeByte, typeByte]
    exact (encode_delimited hm hn [] [] hencode).2

/-- Half a millisecond is all that is lost of this array. -/
theorem encode_prefix_free_halfMillis :
    encode (.array [.timestamp ⟨1, 500000, by decide⟩, .null]) ++ [7] =
        encode (.array [.timestamp ⟨1, 0, by decide⟩, .null]) ++ [7] ↔
      [7] = [(7 : UInt8)] ∧ (Value.array [.timestamp ⟨1, 500000, by decide⟩, .null]).truncMillis =
        (Value.array [.timestamp ⟨1, 0, by decide⟩, .null]).truncMillis :=
  encode_prefix_free.1 _ _ [7] [7] (by decide) (by decide)

end Hush.Tlv
