import Hush.Tlv.Decode

/-! The grammar of the wire format, as a relation between byte strings and
values, and the theorem that the decoder recognises exactly it. -/
namespace Hush.Tlv

open Hush.Foundation BigEndian Cursor

mutual

/-- The byte string is one element of the value, read at a nesting depth. -/
inductive Denotes : Nat → List UInt8 → Value → Prop where
  | element {depth tag typ lenField len payload v} :
      depth ≤ maxDecodeDepth →
      TypeTag.fromU8 tag = some typ →
      decodeVarint lenField = .ok (len, lenField.length) →
      len ≤ maxPayloadSize →
      payload.length = len.toNat →
      PayloadDenotes depth typ payload v →
      Denotes depth (tag :: (lenField ++ payload)) v

/-- The payload of an element at a depth. Fixed-width types ignore what follows
their width, and the elements of a container are one level deeper. -/
inductive PayloadDenotes : Nat → TypeTag → List UInt8 → Value → Prop where
  | string {depth s} : PayloadDenotes depth .string (Utf8.asBytes s) (.string s)
  | bytes {depth b} : PayloadDenotes depth .bytes b (.bytes b)
  | uint8 {depth n extra} : PayloadDenotes depth .uint8 (n :: extra) (.uint8 n)
  | uint16 {depth n extra} :
      PayloadDenotes depth .uint16 (u16.toBeBytes n ++ extra) (.uint16 n)
  | uint32 {depth n extra} :
      PayloadDenotes depth .uint32 (u32.toBeBytes n ++ extra) (.uint32 n)
  | uint64 {depth n extra} :
      PayloadDenotes depth .uint64 (u64.toBeBytes n ++ extra) (.uint64 n)
  | int32 {depth extra} {n : Int32} :
      PayloadDenotes depth .int32 (u32.toBeBytes n.toUInt32 ++ extra) (.int32 n)
  | int64 {depth extra} {n : Int64} :
      PayloadDenotes depth .int64 (u64.toBeBytes n.toUInt64 ++ extra) (.int64 n)
  | float32 {depth bits extra} :
      PayloadDenotes depth .float32 (u32.toBeBytes bits ++ extra) (.float32 bits)
  | float64 {depth bits extra} :
      PayloadDenotes depth .float64 (u64.toBeBytes bits ++ extra) (.float64 bits)
  | bool {depth b extra} : PayloadDenotes depth .bool (b :: extra) (.bool (b != 0))
  | null {depth payload} : PayloadDenotes depth .null payload .null
  | timestamp {depth millis extra} :
      PayloadDenotes depth .timestamp (u64.toBeBytes millis ++ extra)
        (.timestamp (Duration.fromMillis millis))
  | array {depth payload items} :
      ItemsDenote (depth + 1) payload items →
      PayloadDenotes depth .array payload (.array items)
  | map {depth payload entries} :
      EntriesDenote (depth + 1) payload entries →
      PayloadDenotes depth .map payload (.map (MapOf.new.setAll entries))

/-- Elements end to end. -/
inductive ItemsDenote : Nat → List UInt8 → List Value → Prop where
  | nil {depth} : ItemsDenote depth [] []
  | cons {depth chunk rest v vs} :
      Denotes depth chunk v → ItemsDenote depth rest vs →
      ItemsDenote depth (chunk ++ rest) (v :: vs)

/-- Pairs of a string element and an element, end to end. -/
inductive EntriesDenote : Nat → List UInt8 → List (String × Value) → Prop where
  | nil {depth} : EntriesDenote depth [] []
  | cons {depth keyChunk valChunk rest key v entries} :
      Denotes depth keyChunk (.string key) → Denotes depth valChunk v →
      EntriesDenote depth rest entries →
      EntriesDenote depth (keyChunk ++ valChunk ++ rest) ((key, v) :: entries)

end

/-- The chunk of one map entry. -/
def EntryDenotes (depth : Nat) (chunk : List UInt8) (entry : String × Value) : Prop :=
  ∃ keyChunk valChunk, chunk = keyChunk ++ valChunk ∧
    Denotes depth keyChunk (.string entry.1) ∧ Denotes depth valChunk entry.2

theorem Denotes.ne_nil {depth : Nat} {chunk : List UInt8} {v : Value}
    (h : Denotes depth chunk v) : chunk ≠ [] := by
  cases h
  exact List.cons_ne_nil _ _

theorem Denotes.depth_le {depth : Nat} {chunk : List UInt8} {v : Value}
    (h : Denotes depth chunk v) : depth ≤ maxDecodeDepth := by
  cases h
  assumption

theorem EntryDenotes.ne_nil {depth : Nat} {chunk : List UInt8} {entry : String × Value}
    (h : EntryDenotes depth chunk entry) : chunk ≠ [] := by
  obtain ⟨keyChunk, valChunk, rfl, hkey, -⟩ := h
  exact List.append_ne_nil_of_left_ne_nil hkey.ne_nil valChunk

theorem itemsDenote_iff {depth : Nat} {payload : List UInt8} {items : List Value} :
    ItemsDenote depth payload items ↔ Concat (Denotes depth) payload items := by
  induction items generalizing payload with
  | nil =>
    constructor
    · intro h
      cases h
      exact .nil
    · intro h
      cases h
      exact .nil
  | cons v vs ih =>
    constructor
    · intro h
      cases h with
      | cons hv hvs => exact .cons hv (ih.mp hvs)
    · intro h
      cases h with
      | cons hv hvs => exact .cons hv (ih.mpr hvs)

theorem entriesDenote_iff {depth : Nat} {payload : List UInt8}
    {entries : List (String × Value)} :
    EntriesDenote depth payload entries ↔ Concat (EntryDenotes depth) payload entries := by
  induction entries generalizing payload with
  | nil =>
    constructor
    · intro h
      cases h
      exact .nil
    · intro h
      cases h
      exact .nil
  | cons entry entries ih =>
    constructor
    · intro h
      cases h with
      | cons hkey hval hrest => exact .cons ⟨_, _, rfl, hkey, hval⟩ (ih.mp hrest)
    · intro h
      cases h with
      | cons hentry hrest =>
        obtain ⟨keyChunk, valChunk, rfl, hkey, hval⟩ := hentry
        exact .cons hkey hval (ih.mpr hrest)

/-- The chunk that `decode_value` reads before it looks at the payload. -/
def HeaderDenotes (chunk : List UInt8) (header : TypeTag × List UInt8) : Prop :=
  ∃ tag lenField len, chunk = tag :: (lenField ++ header.2) ∧
    TypeTag.fromU8 tag = some header.1 ∧ decodeVarint lenField = .ok (len, lenField.length) ∧
    len ≤ maxPayloadSize ∧ header.2.length = len.toNat

theorem decodeHeader_sound {buf : List UInt8} {pos next : Nat} {header : TypeTag × List UInt8}
    (h : decodeHeader buf pos = .ok (header, next)) :
    ∃ chunk, chunk <+: buf.drop pos ∧ HeaderDenotes chunk header ∧ next = pos + chunk.length := by
  unfold decodeHeader at h
  split at h
  · cases h
  rename_i tag htag
  split at h
  · cases h
  rename_i typ htyp
  split at h
  · cases h
  rename_i len adv hvarint
  dsimp only at h
  split at h
  · cases h
  rename_i hlen
  split at h
  · cases h
  rename_i hend
  simp only [Except.ok.injEq, Prod.mk.injEq] at h
  obtain ⟨rfl, rfl⟩ := h
  obtain ⟨hpos, rfl⟩ := List.getElem?_eq_some_iff.mp htag
  obtain ⟨hadv, hfield⟩ := decodeVarint_take hvarint
  have hfieldLength : ((buf.drop (pos + 1)).take adv).length = adv :=
    List.length_take_of_le hadv
  have hpayloadLength :
      ((buf.drop (pos + 1 + adv)).take len.toNat).length = len.toNat := by
    rw [List.length_take_of_le]
    rw [List.length_drop]
    omega
  refine ⟨buf[pos] :: ((buf.drop (pos + 1)).take adv ++ (buf.drop (pos + 1 + adv)).take len.toNat),
    ?_, ⟨buf[pos], _, len, rfl, htyp, by rw [hfieldLength]; exact hfield,
      UInt64.not_lt.mp hlen, hpayloadLength⟩, ?_⟩
  · have hpayload : buf.drop (pos + 1 + adv) = (buf.drop (pos + 1)).drop adv :=
      List.drop_drop.symm
    rw [List.drop_eq_getElem_cons hpos, List.cons_prefix_cons, hpayload, ← List.take_add]
    exact ⟨rfl, List.take_prefix _ _⟩
  · rw [List.length_cons, List.length_append, hfieldLength, hpayloadLength]
    omega

theorem decodeHeader_complete {buf : List UInt8} {pos : Nat} {chunk : List UInt8}
    {header : TypeTag × List UInt8} (hpre : chunk <+: buf.drop pos)
    (h : HeaderDenotes chunk header) :
    decodeHeader buf pos = .ok (header, pos + chunk.length) := by
  obtain ⟨typ, payload⟩ := header
  obtain ⟨tag, lenField, len, rfl, htyp, hvarint, hlen, hpayload⟩ := h
  obtain ⟨rest, hrest⟩ := hpre
  dsimp only at htyp hpayload hrest
  have hdrop : buf.drop pos = [tag] ++ (lenField ++ (payload ++ rest)) := by
    rw [← hrest]
    simp
  have htag : buf[pos]? = some tag := by
    rw [← Nat.add_zero pos, ← List.getElem?_drop, hdrop]
    rfl
  have hfield : buf.drop (pos + 1) = lenField ++ (payload ++ rest) := drop_add_length hdrop
  have hstart : buf.drop (pos + 1 + lenField.length) = payload ++ rest := drop_add_length hfield
  have hend := congrArg List.length hstart
  simp only [List.length_drop, List.length_append] at hend
  have hposition : pos < buf.length := (List.getElem?_eq_some_iff.mp htag).1
  have hfieldEnd := congrArg List.length hfield
  simp only [List.length_drop, List.length_append] at hfieldEnd
  unfold decodeHeader
  rw [htag]
  dsimp only
  rw [htyp]
  dsimp only
  rw [hfield, decodeVarint_append hvarint]
  dsimp only
  rw [if_neg (UInt64.not_lt.mpr hlen), if_neg (by omega), hstart, ← hpayload, List.take_left,
    List.length_cons, List.length_append]
  congr 2
  omega

theorem decodeEntry_sound {decode : Parser UInt8 String Value} {depth : Nat}
    (hdecode : Recognises decode (Denotes depth)) {payload : List UInt8} {pos next : Nat}
    {entry : String × Value} (h : decodeEntry decode payload pos = .ok (entry, next)) :
    ∃ chunk, chunk <+: payload.drop pos ∧ EntryDenotes depth chunk entry ∧
      next = pos + chunk.length := by
  unfold decodeEntry at h
  match hkey : decode payload pos with
  | .error e => rw [hkey] at h; cases h
  | .ok (keyVal, p) =>
    rw [hkey] at h
    dsimp only [bind, Except.bind] at h
    split at h
    · rename_i key
      split at h
      · cases h
      match hval : decode payload p with
      | .error e => rw [hval] at h; cases h
      | .ok (v, q) =>
        rw [hval] at h
        cases h
        obtain ⟨keyChunk, ⟨rest, hrest⟩, hkeyChunk, rfl⟩ := hdecode.sound hkey
        obtain ⟨valChunk, hvalPre, hvalChunk, rfl⟩ := hdecode.sound hval
        rw [drop_add_length hrest.symm] at hvalPre
        refine ⟨keyChunk ++ valChunk, ?_, ⟨keyChunk, valChunk, rfl, hkeyChunk, hvalChunk⟩, ?_⟩
        · rw [← hrest]
          exact (List.prefix_append_right_inj keyChunk).mpr hvalPre
        · rw [List.length_append, Nat.add_assoc]
    · cases h

theorem decodeEntry_complete {decode : Parser UInt8 String Value} {depth : Nat}
    (hdecode : Recognises decode (Denotes depth)) {payload chunk : List UInt8} {pos : Nat}
    {entry : String × Value} (hpre : chunk <+: payload.drop pos)
    (h : EntryDenotes depth chunk entry) :
    decodeEntry decode payload pos = .ok (entry, pos + chunk.length) := by
  obtain ⟨key, v⟩ := entry
  obtain ⟨keyChunk, valChunk, rfl, hkey, hval⟩ := h
  obtain ⟨rest, hrest⟩ := hpre
  rw [List.append_assoc] at hrest
  have hdrop := drop_add_length hrest.symm
  have hlength := congrArg List.length hdrop
  rw [List.length_drop, List.length_append] at hlength
  have hvalPositive := List.length_pos_iff.mpr hval.ne_nil
  unfold decodeEntry
  rw [hdecode.complete (hrest ▸ List.prefix_append _ _) hkey]
  dsimp only [bind, Except.bind]
  rw [if_neg (by omega), hdecode.complete (hdrop ▸ List.prefix_append _ _) hval,
    List.length_append, ← Nat.add_assoc]
  rfl

theorem decodeEntry_recognises {decode : Parser UInt8 String Value} {depth : Nat}
    (hdecode : Recognises decode (Denotes depth)) :
    Recognises (decodeEntry decode) (EntryDenotes depth) where
  sound := decodeEntry_sound hdecode
  complete := decodeEntry_complete hdecode

theorem fixedWidth_ok_iff {width : Nat} {needs : String} {build : List UInt8 → Value}
    {payload : List UInt8} {v : Value} :
    fixedWidth width needs build payload = .ok v ↔
      width ≤ payload.length ∧ v = build (payload.take width) := by
  unfold fixedWidth
  by_cases h : payload.length < width
  · simp [h, Nat.not_le.mpr h]
  · simp [h, Nat.not_lt.mp h, eq_comm]

/-- A type whose payload starts with one machine word: the decoder and the
grammar agree once the grammar's cases for the type are those words. -/
theorem fixedWidth_word_ok_iff {α : Type} {width depth : Nat} {typ : TypeTag}
    (word : Word α width) (build : α → Value) {needs : String}
    (intro : ∀ x extra, PayloadDenotes depth typ (word.toBeBytes x ++ extra) (build x))
    (elim : ∀ {payload v}, PayloadDenotes depth typ payload v →
      ∃ x extra, payload = word.toBeBytes x ++ extra ∧ v = build x)
    {payload : List UInt8} {v : Value} :
    fixedWidth width needs (fun b => build (word.fromBeBytes b)) payload = .ok v ↔
      PayloadDenotes depth typ payload v := by
  rw [fixedWidth_ok_iff]
  constructor
  · intro h
    obtain ⟨hwidth, rfl⟩ := h
    obtain ⟨extra, hextra⟩ := word.toBeBytes_prefix_iff.mpr ⟨hwidth, rfl⟩
    rw [← hextra, List.take_left' (word.length_toBeBytes _), word.fromBeBytes_toBeBytes]
    exact intro _ extra
  · intro h
    obtain ⟨x, extra, rfl, rfl⟩ := elim h
    obtain ⟨hwidth, hx⟩ := word.toBeBytes_prefix_iff.mp (List.prefix_append (word.toBeBytes x) extra)
    exact ⟨hwidth, by rw [hx]⟩

/-- A type whose payload starts with one byte. -/
theorem fixedWidth_byte_ok_iff {depth : Nat} {typ : TypeTag} (build : UInt8 → Value)
    {needs : String} (intro : ∀ b extra, PayloadDenotes depth typ (b :: extra) (build b))
    (elim : ∀ {payload v}, PayloadDenotes depth typ payload v →
      ∃ b extra, payload = b :: extra ∧ v = build b)
    {payload : List UInt8} {v : Value} :
    fixedWidth 1 needs (fun b => build (b.headD 0)) payload = .ok v ↔
      PayloadDenotes depth typ payload v := by
  rw [fixedWidth_ok_iff]
  constructor
  · intro h
    obtain ⟨hwidth, rfl⟩ := h
    match payload with
    | b :: extra => exact intro b extra
  · intro h
    obtain ⟨b, extra, rfl, rfl⟩ := elim h
    exact ⟨Nat.le_add_left 1 _, rfl⟩

theorem decodeString_ok_iff {depth : Nat} {decode : Parser UInt8 String Value}
    {payload : List UInt8} {v : Value} :
    decodePayload decode .string payload = .ok v ↔ PayloadDenotes depth .string payload v := by
  unfold decodePayload
  constructor
  · intro h
    dsimp only at h
    split at h
    · rename_i s hs
      cases h
      rw [Utf8.fromUtf8_eq_some_iff] at hs
      subst hs
      exact .string
    · cases h
  · intro h
    cases h
    rw [Utf8.fromUtf8_asBytes]

theorem decodeItems_ok_iff {decode : Parser UInt8 String Value} {depth : Nat}
    (hdecode : Recognises decode (Denotes depth)) {payload : List UInt8}
    {s : List Value × Nat} :
    whileM (fun s => s.2 < payload.length)
        (consume decode (fun items item => items ++ [item]) payload) payload.length ([], 0) = .ok s ↔
      ItemsDenote depth payload s.1 ∧ s.2 = payload.length := by
  have hpush (items : List Value) :
      items.foldl (fun items item => items ++ [item]) [] = items := by
    rw [List.foldl_append_eq_append, List.nil_append]
    exact List.flatMap_singleton' items
  rw [hdecode.whileM_ok_iff (fun _ _ h => h.ne_nil) _ _ (Nat.zero_le _) (by omega), List.drop_zero]
  constructor
  · intro h
    obtain ⟨items, hitems, rfl⟩ := h
    rw [hpush]
    exact ⟨itemsDenote_iff.mpr hitems, rfl⟩
  · intro h
    refine ⟨s.1, itemsDenote_iff.mp h.1, ?_⟩
    rw [hpush, ← h.2]

theorem decodeEntries_ok_iff {decode : Parser UInt8 String Value} {depth : Nat}
    (hdecode : Recognises decode (Denotes depth)) {payload : List UInt8} {s : Map × Nat} :
    whileM (fun s => s.2 < payload.length)
        (consume (decodeEntry decode) (fun m entry => m.set entry.1 entry.2) payload)
        payload.length (MapOf.new, 0) = .ok s ↔
      ∃ entries, EntriesDenote depth payload entries ∧
        s = (MapOf.new.setAll entries, payload.length) := by
  rw [(decodeEntry_recognises hdecode).whileM_ok_iff (fun _ _ h => h.ne_nil) _ _ (Nat.zero_le _)
    (by omega), List.drop_zero]
  simp only [entriesDenote_iff]
  rfl

theorem decodeArray_ok_iff {decode : Parser UInt8 String Value} {depth : Nat}
    (hdecode : Recognises decode (Denotes (depth + 1))) {payload : List UInt8} {v : Value} :
    decodePayload decode .array payload = .ok v ↔ PayloadDenotes depth .array payload v := by
  unfold decodePayload
  dsimp only
  constructor
  · intro h
    match hloop : whileM (fun s => s.2 < payload.length)
        (consume decode (fun items item => items ++ [item]) payload) payload.length ([], 0) with
    | .error e => rw [hloop] at h; cases h
    | .ok s =>
      rw [hloop] at h
      cases h
      exact .array ((decodeItems_ok_iff hdecode).mp hloop).1
  · intro h
    cases h with
    | @array _ _ items hitems =>
      rw [(decodeItems_ok_iff hdecode (s := (items, payload.length))).mpr ⟨hitems, rfl⟩]
      rfl

theorem decodeMapPayload_ok_iff {decode : Parser UInt8 String Value} {depth : Nat}
    (hdecode : Recognises decode (Denotes (depth + 1))) {payload : List UInt8} {v : Value} :
    decodePayload decode .map payload = .ok v ↔ PayloadDenotes depth .map payload v := by
  unfold decodePayload
  dsimp only
  constructor
  · intro h
    match hloop : whileM (fun s => s.2 < payload.length)
        (consume (decodeEntry decode) (fun m entry => m.set entry.1 entry.2) payload)
        payload.length (MapOf.new, 0) with
    | .error e => rw [hloop] at h; cases h
    | .ok s =>
      rw [hloop] at h
      obtain ⟨entries, hentries, rfl⟩ := (decodeEntries_ok_iff hdecode).mp hloop
      cases h
      exact .map hentries
  · intro h
    cases h with
    | map hentries =>
      rw [(decodeEntries_ok_iff hdecode).mpr ⟨_, hentries, rfl⟩]
      rfl

theorem decodePayload_ok_iff {decode : Parser UInt8 String Value} {depth : Nat}
    (hdecode : Recognises decode (Denotes (depth + 1))) {typ : TypeTag} {payload : List UInt8}
    {v : Value} :
    decodePayload decode typ payload = .ok v ↔ PayloadDenotes depth typ payload v := by
  cases typ with
  | string => exact decodeString_ok_iff
  | array => exact decodeArray_ok_iff hdecode
  | map => exact decodeMapPayload_ok_iff hdecode
  | bytes =>
    constructor <;> intro h <;> cases h
    · exact .bytes
    · rfl
  | null =>
    constructor <;> intro h <;> cases h
    · exact .null
    · rfl
  | uint8 =>
    refine fixedWidth_byte_ok_iff .uint8 (fun _ _ => .uint8) fun h => ?_
    cases h
    exact ⟨_, _, rfl, rfl⟩
  | bool =>
    refine fixedWidth_byte_ok_iff (fun b => .bool (b != 0)) (fun _ _ => .bool) fun h => ?_
    cases h
    exact ⟨_, _, rfl, rfl⟩
  | uint16 =>
    refine fixedWidth_word_ok_iff u16 .uint16 (fun _ _ => .uint16) fun h => ?_
    cases h
    exact ⟨_, _, rfl, rfl⟩
  | uint32 =>
    refine fixedWidth_word_ok_iff u32 .uint32 (fun _ _ => .uint32) fun h => ?_
    cases h
    exact ⟨_, _, rfl, rfl⟩
  | uint64 =>
    refine fixedWidth_word_ok_iff u64 .uint64 (fun _ _ => .uint64) fun h => ?_
    cases h
    exact ⟨_, _, rfl, rfl⟩
  | float32 =>
    refine fixedWidth_word_ok_iff u32 .float32 (fun _ _ => .float32) fun h => ?_
    cases h
    exact ⟨_, _, rfl, rfl⟩
  | float64 =>
    refine fixedWidth_word_ok_iff u64 .float64 (fun _ _ => .float64) fun h => ?_
    cases h
    exact ⟨_, _, rfl, rfl⟩
  | timestamp =>
    refine fixedWidth_word_ok_iff u64 (fun millis => .timestamp (Duration.fromMillis millis))
      (fun _ _ => .timestamp) fun h => ?_
    cases h
    exact ⟨_, _, rfl, rfl⟩
  | int32 =>
    refine fixedWidth_word_ok_iff u32 (fun bits => .int32 bits.toInt32)
      (fun bits extra => ?_) fun h => ?_
    · rw [← UInt32.toUInt32_toInt32 bits]
      exact .int32
    · cases h
      exact ⟨_, _, rfl, by rw [Int32.toInt32_toUInt32]⟩
  | int64 =>
    refine fixedWidth_word_ok_iff u64 (fun bits => .int64 bits.toInt64)
      (fun bits extra => ?_) fun h => ?_
    · rw [← UInt64.toUInt64_toInt64 bits]
      exact .int64
    · cases h
      exact ⟨_, _, rfl, by rw [Int64.toInt64_toUInt64]⟩

/-- The decoder at a depth accepts exactly the elements of that depth. -/
theorem decodeAt_recognises {room depth : Nat} (h : room = maxDecodeDepth + 1 - depth) :
    Recognises (decodeAt room depth) (Denotes depth) := by
  induction room generalizing depth with
  | zero =>
    constructor
    · intro buf pos x next hrun
      cases hrun
    · intro buf pos chunk x _ hchunk
      have := hchunk.depth_le
      omega
  | succ room ih =>
    have hinner : Recognises (decodeAt room (depth + 1)) (Denotes (depth + 1)) := ih (by omega)
    constructor
    · intro buf pos v next hrun
      unfold decodeAt at hrun
      cases hheader : decodeHeader buf pos with
      | error e =>
        rw [hheader] at hrun
        cases hrun
      | ok header =>
        obtain ⟨⟨typ, payload⟩, next'⟩ := header
        rw [hheader] at hrun
        dsimp only [bind, Except.bind] at hrun
        cases hpayload : decodePayload (decodeAt room (depth + 1)) typ payload with
        | error e =>
          rw [hpayload] at hrun
          cases hrun
        | ok v' =>
          rw [hpayload] at hrun
          cases hrun
          obtain ⟨chunk, hpre, hchunk, hnext⟩ := decodeHeader_sound hheader
          obtain ⟨tag, lenField, len, rfl, htyp, hvarint, hlen, hlength⟩ := hchunk
          exact ⟨_, hpre, .element (by omega) htyp hvarint hlen hlength
            ((decodePayload_ok_iff hinner).mp hpayload), hnext⟩
    · intro buf pos chunk v hpre hchunk
      cases hchunk with
      | @element _ tag typ lenField len payload _ _ htyp hvarint hlen hlength hpayload =>
        have hheader : HeaderDenotes (tag :: (lenField ++ payload)) (typ, payload) :=
          ⟨tag, lenField, len, rfl, htyp, hvarint, hlen, hlength⟩
        unfold decodeAt
        rw [decodeHeader_complete hpre hheader]
        dsimp only [bind, Except.bind]
        rw [(decodePayload_ok_iff hinner).mpr hpayload]
        rfl

theorem decodeValue_recognises (depth : Nat) :
    Recognises (fun buf pos => decodeValue buf pos depth) (Denotes depth) :=
  decodeAt_recognises rfl

theorem decode_ok_iff {buf : List UInt8} {v : Value} :
    decode buf = .ok v ↔ ∃ chunk, chunk <+: buf ∧ Denotes 0 chunk v := by
  have hvalue {next : Nat} : decodeValue buf 0 0 = .ok (v, next) ↔
      ∃ chunk, chunk <+: buf ∧ Denotes 0 chunk v ∧ next = 0 + chunk.length :=
    (decodeValue_recognises 0).ok_iff
  unfold decode
  constructor
  · intro h
    match hrun : decodeValue buf 0 0 with
    | .error e => rw [hrun] at h; cases h
    | .ok (w, next) =>
      rw [hrun] at h
      cases h
      obtain ⟨chunk, hpre, hchunk, -⟩ := hvalue.mp hrun
      exact ⟨chunk, hpre, hchunk⟩
  · intro h
    obtain ⟨chunk, hpre, hchunk⟩ := h
    rw [hvalue.mpr ⟨chunk, hpre, hchunk, rfl⟩]
    rfl

theorem decode_append {chunk : List UInt8} {v : Value} (h : Denotes 0 chunk v)
    (rest : List UInt8) : decode (chunk ++ rest) = .ok v :=
  decode_ok_iff.mpr ⟨chunk, List.prefix_append _ _, h⟩

/-- The decoder accepts exactly the grammar, the chunk it reads is unique, and
nothing shorter than that chunk is accepted. -/
theorem decode_iff_denotes (buf : List UInt8) (v : Value) :
    (decode buf = .ok v ↔ ∃! chunk, chunk <+: buf ∧ Denotes 0 chunk v) ∧
      ∀ chunk, chunk <+: buf → Denotes 0 chunk v →
        (∀ rest, decode (chunk ++ rest) = .ok v) ∧
          ∀ short, short <+: chunk → short ≠ chunk → ∃ e, decode short = .error e := by
  have hrecognises := decodeValue_recognises 0
  refine ⟨?_, fun chunk hpre hchunk => ⟨decode_append hchunk, ?_⟩⟩
  · rw [decode_ok_iff]
    constructor
    · intro h
      obtain ⟨chunk, hpre, hchunk⟩ := h
      refine ⟨chunk, ⟨hpre, hchunk⟩, ?_⟩
      intro other hother
      exact (hrecognises.unique hother.1 hother.2 hpre hchunk).1
    · intro h
      exact h.exists
  · intro short hshort hne
    match hrun : decode short with
    | .error e => exact ⟨e, rfl⟩
    | .ok w =>
      -- an accepted prefix holds a whole element, which is then all of the chunk
      obtain ⟨inner, hinner, hw⟩ := decode_ok_iff.mp hrun
      obtain ⟨rfl, -⟩ := hrecognises.unique (hinner.trans hshort) hw List.prefix_rfl hchunk
      exact absurd (hshort.eq_of_length_le hinner.length_le) hne

end Hush.Tlv
