import Hush.Frame.Message
import Hush.Tlv.RoundTrip

/-! Messages over the whole stack: what the receiver makes of a message that the
sender could encode and frame. -/
namespace Hush.Frame

open Hush.Foundation BigEndian
open Hush.Session hiding encrypt decrypt

/-- No key, or one of the size that the cipher takes. -/
def KeyOk (key : Option (List UInt8)) : Prop := ∀ k, key = some k → k.length = keySize

/-- A payload as `Map::set` builds it, of times that the wire format carries. -/
structure Sendable (payload : Option Tlv.Map) : Prop where
  distinctKeys : ∀ m, payload = some m → (Tlv.Value.map m).DistinctKeys
  wholeMillis : ∀ m, payload = some m → (Tlv.Value.map m).WholeMillis

/-- A payload that the TLV decoder's limits admit. -/
def Receivable (payload : Option Tlv.Map) : Prop :=
  ∀ m, payload = some m →
    (Tlv.Value.map m).height ≤ 64 ∧ (Tlv.payloadBytes (.map m)).length ≤ 524288

/-- What a receiver makes of a payload. -/
def arrival (payload : Option Tlv.Map) : Option Tlv.Map :=
  payload.bind fun m => Tlv.decodeMapOpt (Tlv.encodeMap m)

theorem encodeMap_ne_nil (m : Tlv.Map) : Tlv.encodeMap m ≠ [] := List.cons_ne_nil _ _

/-- An encoded map reads back as the map, or not at all. -/
theorem decodeMapOpt_encodeMap {m : Tlv.Map} (hkeys : (Tlv.Value.map m).DistinctKeys)
    (hmillis : (Tlv.Value.map m).WholeMillis) (hsize : (Tlv.Value.map m).Addressable) :
    Tlv.decodeMapOpt (Tlv.encodeMap m) = some m ↔
      (Tlv.Value.map m).height ≤ 64 ∧ (Tlv.payloadBytes (.map m)).length ≤ 524288 := by
  unfold Tlv.decodeMapOpt Tlv.decodeMap
  rw [if_neg (by simpa using encodeMap_ne_nil m)]
  unfold Tlv.encodeMap
  constructor
  · intro h
    match hrun : Tlv.decode (Tlv.encode (.map m)) with
    | .error e =>
      rw [hrun] at h
      cases h
    | .ok w => exact Tlv.withinLimits_of_decode_encode hsize hrun
  · intro h
    have hrun := Tlv.decode_encode hkeys h
    rw [Tlv.Value.truncMillis_of_wholeMillis hmillis] at hrun
    rw [hrun]
    rfl

theorem arrival_eq_iff {payload : Option Tlv.Map} (hsend : Sendable payload)
    (hsize : ∀ m, payload = some m → (Tlv.Value.map m).Addressable) :
    arrival payload = payload ↔ Receivable payload := by
  unfold arrival Receivable
  cases payload with
  | none => simp
  | some m =>
    simp only [Option.bind_some, Option.some.injEq, forall_eq']
    exact decodeMapOpt_encodeMap (hsend.distinctKeys m rfl) (hsend.wholeMillis m rfl) (hsize m rfl)

/-- The receiver has no third answer: the map that was sent, or none. -/
theorem arrival_of_not_receivable {payload : Option Tlv.Map}
    (hsize : ∀ m, payload = some m → (Tlv.Value.map m).Addressable)
    (h : ¬Receivable payload) : arrival payload = none := by
  cases payload with
  | none => rfl
  | some m =>
    unfold arrival Tlv.decodeMapOpt Tlv.decodeMap
    rw [Option.bind_some, if_neg (by simpa using encodeMap_ne_nil m)]
    unfold Tlv.encodeMap
    match hrun : Tlv.decode (Tlv.encode (.map m)) with
    | .error e => rfl
    | .ok w =>
      apply absurd _ h
      intro m' hm
      obtain rfl := Option.some.inj hm
      exact Tlv.withinLimits_of_decode_encode (hsize _ rfl) hrun

/-- An addressable size, from the decoder's own limit. -/
theorem Receivable.addressable {payload : Option Tlv.Map} (h : Receivable payload) (m : Tlv.Map)
    (hm : payload = some m) : (Tlv.Value.map m).Addressable := by
  have hlength := (h m hm).2
  unfold Tlv.Value.Addressable
  omega

theorem openBody_sealBody {aead : Aead} (hlaw : aead.Lawful) {nonce : Nonce}
    {key : Option (List UInt8)} {plaintext body : List UInt8}
    (h : sealBody aead nonce key plaintext = .ok body) :
    openBody aead key body = .ok plaintext ∧ body.length ≤ plaintext.length + 28 := by
  cases key with
  | none =>
    obtain rfl := Except.ok.inj h
    exact ⟨rfl, Nat.le_add_right _ _⟩
  | some k =>
    unfold sealBody at h
    unfold openBody
    match hrun : Session.encrypt aead nonce k plaintext with
    | .error e =>
      dsimp only at h
      rw [hrun] at h
      cases h
    | .ok out =>
      dsimp only at h ⊢
      rw [hrun] at h
      obtain rfl := Except.ok.inj h
      obtain ⟨hdecrypt, hlength⟩ := Session.decrypt_encrypt hlaw hrun
      rw [hdecrypt]
      exact ⟨rfl, by rw [hlength, nonceSize, tagSize]; omega⟩

/-- Sealing adds the nonce and the tag. -/
theorem length_sealBody {aead : Aead} (hlaw : aead.Lawful) {nonce : Nonce}
    {key plaintext body : List UInt8} (h : sealBody aead nonce (some key) plaintext = .ok body) :
    body.length = plaintext.length + (nonceSize + tagSize) := by
  unfold sealBody at h
  match hrun : Session.encrypt aead nonce key plaintext with
  | .error e => simp [hrun, Except.mapError] at h
  | .ok out =>
    simp only [hrun, Except.mapError, Except.ok.injEq] at h
    subst h
    rw [(Session.decrypt_encrypt hlaw hrun).2]
    omega

theorem sealBody_isOk {aead : Aead} (hlaw : aead.Lawful) (nonce : Nonce)
    {key : Option (List UInt8)} (hkey : KeyOk key) {plaintext : List UInt8}
    (hlength : plaintext.length ≤ maxPlaintext) :
    ∃ body, sealBody aead nonce key plaintext = .ok body := by
  cases key with
  | none => exact ⟨plaintext, rfl⟩
  | some k =>
    obtain ⟨out, hout⟩ : ∃ out, Session.encrypt aead nonce k plaintext = .ok out :=
      Session.encrypt_isOk hlaw (hkey k rfl) hlength
    refine ⟨out, ?_⟩
    unfold sealBody
    dsimp only
    rw [hout]
    rfl

/-- The payload part of a plaintext, behind a header of its own length. -/
theorem payload_of_plaintext (header : List UInt8) (payload : Option Tlv.Map) :
    (if header.length < (appendPayload header payload).length then
      Tlv.decodeMapOpt ((appendPayload header payload).drop header.length) else none) =
      arrival payload := by
  cases payload with
  | none => simp [appendPayload, arrival]
  | some m =>
    have hpositive := List.length_pos_iff.mpr (encodeMap_ne_nil m)
    simp only [appendPayload, arrival, Option.bind_some, List.length_append, List.drop_left]
    rw [if_pos (by omega)]

theorem take_plaintext (header : List UInt8) (payload : Option Tlv.Map) :
    (appendPayload header payload).take header.length = header := by
  cases payload with
  | none => simp [appendPayload]
  | some m => simp [appendPayload]

/-- What `decode_request` makes of a request that was encoded and framed. -/
theorem decodeRequest_encodeRequestBody {aead : Aead} (hlaw : aead.Lawful) {nonce : Nonce}
    {key : Option (List UInt8)} {req : Request} {body : List UInt8} (seq : UInt32)
    (h : encodeRequestBody aead nonce key req = .ok body) :
    decodeRequest aead key (Frame.body ⟨seq, body⟩) = .ok (⟨req.opcode, arrival req.payload⟩, seq) := by
  have hopen := (openBody_sealBody hlaw h).1
  have hheader : (u16.toBeBytes req.opcode).length = 2 := u16.length_toBeBytes _
  have htake := take_plaintext (u16.toBeBytes req.opcode) req.payload
  have hpayload := payload_of_plaintext (u16.toBeBytes req.opcode) req.payload
  have hlength : ¬(appendPayload (u16.toBeBytes req.opcode) req.payload).length < 2 := by
    have := congrArg List.length htake
    rw [List.length_take, hheader] at this
    omega
  rw [hheader] at htake hpayload
  unfold decodeRequest
  rw [parseFrameData_body]
  dsimp only [Except.mapError, bind, Except.bind]
  rw [hopen]
  dsimp only
  rw [if_neg hlength, htake, hpayload, u16.fromBeBytes_toBeBytes]
  rfl

/-- What `decode_response` makes of a response that was encoded and framed. -/
theorem decodeResponse_encodeResponseBody {aead : Aead} (hlaw : aead.Lawful) {nonce : Nonce}
    {key : Option (List UInt8)} {resp : Response} {body : List UInt8} (seq : UInt32)
    (h : encodeResponseBody aead nonce key resp = .ok body) :
    decodeResponse aead key (Frame.body ⟨seq, body⟩) =
      .ok ⟨resp.status, arrival resp.payload, seq⟩ := by
  have hopen := (openBody_sealBody hlaw h).1
  have hpayload := payload_of_plaintext [resp.status.toU8] resp.payload
  have hcons : ∃ rest, appendPayload [resp.status.toU8] resp.payload = resp.status.toU8 :: rest := by
    cases resp.payload with
    | none => exact ⟨[], rfl⟩
    | some m => exact ⟨Tlv.encodeMap m, rfl⟩
  obtain ⟨rest, hrest⟩ := hcons
  rw [hrest] at hopen hpayload
  unfold decodeResponse
  rw [parseFrameData_body]
  dsimp only [Except.mapError, bind, Except.bind]
  rw [hopen]
  dsimp only
  rw [StatusCode.fromU8_toU8]
  dsimp only
  rw [← hpayload]
  rfl

theorem length_encodeMap_le {m : Tlv.Map}
    (h : (Tlv.payloadBytes (.map m)).length ≤ 524288) : (Tlv.encodeMap m).length ≤ 524299 := by
  have hvarint := Tlv.length_encodeVarint_le_ten
    (UInt64.ofNat (Tlv.payloadBytes (.map m)).length)
  unfold Tlv.encodeMap Tlv.encode
  rw [Tlv.length_frameElement]
  omega

/-- A plaintext with a receivable payload seals to a body that fits a frame. -/
theorem sealBody_fits {aead : Aead} (hlaw : aead.Lawful) (nonce : Nonce)
    {key : Option (List UInt8)} (hkey : KeyOk key) {header : List UInt8}
    (hheader : header.length ≤ 2) {payload : Option Tlv.Map} (h : Receivable payload)
    (seq : UInt32) :
    ∃ body, sealBody aead nonce key (appendPayload header payload) = .ok body ∧
      Frame.Fits ⟨seq, body⟩ := by
  have hlength : (appendPayload header payload).length ≤ 524301 := by
    cases payload with
    | none =>
      simp only [appendPayload]
      omega
    | some m =>
      have hmap := length_encodeMap_le (h m rfl).2
      simp only [appendPayload, List.length_append]
      omega
  have hmax : (appendPayload header payload).length ≤ maxPlaintext := by
    unfold maxPlaintext
    omega
  obtain ⟨body, hbody⟩ := sealBody_isOk hlaw nonce hkey hmax
  have hsealed := (openBody_sealBody hlaw hbody).2
  refine ⟨body, hbody, ?_⟩
  unfold Frame.Fits
  rw [toNat_maxFrameSize]
  dsimp only
  omega

/-- Every message with a receivable payload arrives as it was sent, under the
sequence number of its frame, and the reader takes its frame and nothing more. -/
theorem message_roundtrip (aead : Aead) (hlaw : aead.Lawful) (nonce : Nonce)
    (key : Option (List UInt8)) (hkey : KeyOk key) (seq : UInt32) (rest : List UInt8)
    (k : ErrorKind) (payload : Option Tlv.Map) (hsend : Sendable payload)
    (hreceive : Receivable payload) :
    (∀ opcode, ∃ body frame,
      encodeRequestBody aead nonce key ⟨opcode, payload⟩ = .ok body ∧
      encodeFrame seq body = .ok frame ∧
      decodeRequest aead key (frame.drop 4) = .ok (⟨opcode, payload⟩, seq) ∧
      readRequestAsync aead ⟨frame ++ rest, k⟩ key = .ok ((⟨opcode, payload⟩, seq), ⟨rest, k⟩)) ∧
    (∀ status seq', ∃ body frame,
      encodeResponseBody aead nonce key ⟨status, payload, seq'⟩ = .ok body ∧
      encodeFrame seq body = .ok frame ∧
      decodeResponse aead key (frame.drop 4) = .ok ⟨status, payload, seq⟩ ∧
      writeResponseAsync aead nonce ⟨[], none⟩ key seq ⟨status, payload, seq'⟩ =
        (.ok (), ⟨frame, none⟩) ∧
      readFrameAsync ⟨frame ++ rest, k⟩ = .ok (⟨seq, body⟩, ⟨rest, k⟩)) := by
  have harrival : arrival payload = payload :=
    (arrival_eq_iff hsend hreceive.addressable).mpr hreceive
  constructor
  · intro opcode
    have hheader : (u16.toBeBytes opcode).length ≤ 2 := (u16.length_toBeBytes _).le
    obtain ⟨body, hbody, hfits⟩ := sealBody_fits hlaw nonce hkey hheader hreceive seq
    have hdecode := decodeRequest_encodeRequestBody hlaw seq
      (show encodeRequestBody aead nonce key ⟨opcode, payload⟩ = .ok body from hbody)
    rw [harrival] at hdecode
    refine ⟨body, _, hbody, hfits.encodeFrame, ?_, ?_⟩
    · rw [Frame.drop_bytes]
      exact hdecode
    · unfold readRequestAsync readFrameAsync
      rw [readFrameFrom_bytes hfits]
      dsimp only [Except.mapError, bind, Except.bind]
      rw [show u32.toBeBytes seq ++ body = Frame.body ⟨seq, body⟩ from rfl, hdecode]
      rfl
  · intro status seq'
    have hheader : [status.toU8].length ≤ 2 := by simp
    obtain ⟨body, hbody, hfits⟩ :=
      sealBody_fits hlaw nonce hkey hheader hreceive seq
    have hdecode := decodeResponse_encodeResponseBody hlaw seq
      (show encodeResponseBody aead nonce key ⟨status, payload, seq'⟩ = .ok body from hbody)
    rw [harrival] at hdecode
    refine ⟨body, _, hbody, hfits.encodeFrame, ?_, ?_, readFrameFrom_bytes hfits rest k⟩
    · rw [Frame.drop_bytes]
      exact hdecode
    · have hwrite := writeFrameTo_vec hfits []
      unfold writeResponseAsync
      rw [show encodeResponseBody aead nonce key ⟨status, payload, seq'⟩ = .ok body from hbody]
      dsimp only [writeFrameAsync] at hwrite ⊢
      rw [hwrite]
      rfl

/-- An empty map under a key, told apart from no payload. -/
theorem message_roundtrip_empty :
    ∃ body frame,
      encodeRequestBody keyTagAead ⟨List.replicate 12 7, rfl⟩ (some (List.replicate 32 1))
        ⟨5, some ⟨[]⟩⟩ = .ok body ∧
      encodeFrame 9 body = .ok frame ∧
      decodeRequest keyTagAead (some (List.replicate 32 1)) (frame.drop 4) =
        .ok (⟨5, some ⟨[]⟩⟩, 9) ∧
      readRequestAsync keyTagAead ⟨frame ++ [0xFF], .unexpectedEof⟩ (some (List.replicate 32 1)) =
        .ok ((⟨5, some ⟨[]⟩⟩, 9), ⟨[0xFF], .unexpectedEof⟩) := by
  have hkey : KeyOk (some (List.replicate 32 1)) := by
    intro k hk
    obtain rfl := Option.some.inj hk
    rfl
  have hsend : Sendable (some ⟨[]⟩) := by
    constructor <;> intro m hm <;> obtain rfl := Option.some.inj hm
    · exact Tlv.Value.everywhere_map.mpr ⟨List.nodup_nil, fun _ h => absurd h List.not_mem_nil⟩
    · exact Tlv.Value.everywhere_map.mpr ⟨trivial, fun _ h => absurd h List.not_mem_nil⟩
  have hreceive : Receivable (some ⟨[]⟩) := by
    intro m hm
    obtain rfl := Option.some.inj hm
    decide
  exact (message_roundtrip keyTagAead keyTagAead_lawful ⟨List.replicate 12 7, rfl⟩ _ hkey 9 [0xFF]
    .unexpectedEof _ hsend hreceive).1 5

/-- A message that could be encoded and framed is delivered exactly when its
payload is one that the decoder's limits admit: any other arrives as no payload. -/
theorem delivered_iff_receivable (aead : Aead) (hlaw : aead.Lawful) (nonce : Nonce)
    (key : Option (List UInt8)) (seq : UInt32) (payload : Option Tlv.Map)
    (hsend : Sendable payload) (hsize : ∀ m, payload = some m → (Tlv.Value.map m).Addressable)
    (body frame : List UInt8) (hframe : encodeFrame seq body = .ok frame) :
    (∀ opcode, encodeRequestBody aead nonce key ⟨opcode, payload⟩ = .ok body →
      ((∃ got seq', decodeRequest aead key (frame.drop 4) = .ok (got, seq') ∧
        got.payload = payload) ↔ Receivable payload)) ∧
    (∀ status seq', encodeResponseBody aead nonce key ⟨status, payload, seq'⟩ = .ok body →
      ((∃ got, decodeResponse aead key (frame.drop 4) = .ok got ∧ got.payload = payload) ↔
        Receivable payload)) := by
  obtain ⟨-, rfl⟩ := encodeFrame_ok_iff.mp hframe
  rw [Frame.drop_bytes, ← arrival_eq_iff hsend hsize]
  constructor
  · intro opcode hbody
    rw [decodeRequest_encodeRequestBody hlaw seq hbody]
    simp
  · intro status seq' hbody
    rw [decodeResponse_encodeResponseBody hlaw seq hbody]
    simp

/-- `count` arrays one inside the other, around null. -/
def nestedArray : Nat → Tlv.Value
  | 0 => .null
  | count + 1 => .array [nestedArray count]

theorem nestedArray_everywhere {p : Tlv.Value → Prop} (hnull : p .null)
    (harray : ∀ items, p (.array items)) (count : Nat) : (nestedArray count).Everywhere p := by
  induction count with
  | zero => exact hnull
  | succ count ih =>
    rw [nestedArray, Tlv.Value.everywhere_array]
    exact ⟨harray _, by simpa using ih⟩

/-- A map of height 65, whose encoding has 137 bytes. -/
def deepMap : Tlv.Map := ⟨[("a", nestedArray 64)]⟩

theorem deepMap_sendable : Sendable (some deepMap) := by
  constructor <;> intro m hm <;> obtain rfl := Option.some.inj hm
  · refine Tlv.Value.everywhere_map.mpr ⟨List.nodup_singleton _, ?_⟩
    simpa [deepMap] using nestedArray_everywhere trivial (fun _ => trivial) 64
  · refine Tlv.Value.everywhere_map.mpr ⟨trivial, ?_⟩
    simpa [deepMap] using nestedArray_everywhere trivial (fun _ => trivial) 64

theorem deepMap_not_receivable : ¬Receivable (some deepMap) := by
  intro h
  exact absurd (h deepMap rfl).1 (by decide +kernel)

theorem deepMap_addressable (m : Tlv.Map) (hm : some deepMap = some m) :
    (Tlv.Value.map m).Addressable := by
  obtain rfl := Option.some.inj hm
  unfold Tlv.Value.Addressable
  decide +kernel

theorem deepMap_encodeRequestBody :
    encodeRequestBody keyTagAead ⟨List.replicate 12 7, rfl⟩ none ⟨5, some deepMap⟩ =
      .ok (appendPayload (u16.toBeBytes 5) (some deepMap)) := rfl

theorem deepMap_encodeFrame :
    encodeFrame 9 (appendPayload (u16.toBeBytes 5) (some deepMap)) =
      .ok (Frame.bytes ⟨9, appendPayload (u16.toBeBytes 5) (some deepMap)⟩) := by
  have hsize : (appendPayload (u16.toBeBytes 5) (some deepMap)).length = 139 := by decide +kernel
  apply @Frame.Fits.encodeFrame ⟨9, appendPayload (u16.toBeBytes 5) (some deepMap)⟩
  unfold Frame.Fits
  rw [hsize]
  decide

theorem delivered_iff_receivable_deepMap :
    (∃ got seq, decodeRequest keyTagAead none ((Frame.bytes
      ⟨9, appendPayload (u16.toBeBytes 5) (some deepMap)⟩).drop 4) = .ok (got, seq) ∧
        got.payload = some deepMap) ↔ Receivable (some deepMap) :=
  (delivered_iff_receivable keyTagAead keyTagAead_lawful ⟨List.replicate 12 7, rfl⟩ none 9
    (some deepMap) deepMap_sendable deepMap_addressable _ _ deepMap_encodeFrame).1 5
    deepMap_encodeRequestBody

/-- The payload is encoded and framed, and arrives as no payload. -/
theorem deepMap_dropped :
    Sendable (some deepMap) ∧ ∃ body frame,
      encodeRequestBody keyTagAead ⟨List.replicate 12 7, rfl⟩ none ⟨5, some deepMap⟩ = .ok body ∧
      encodeFrame 9 body = .ok frame ∧
      decodeRequest keyTagAead none (frame.drop 4) = .ok (⟨5, none⟩, 9) := by
  have hdecode := decodeRequest_encodeRequestBody keyTagAead_lawful 9 deepMap_encodeRequestBody
  rw [arrival_of_not_receivable deepMap_addressable deepMap_not_receivable,
    ← Frame.drop_bytes] at hdecode
  exact ⟨deepMap_sendable, _, _, deepMap_encodeRequestBody, deepMap_encodeFrame, hdecode⟩

end Hush.Frame
