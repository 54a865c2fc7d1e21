import Hush.Frame.Message
import Hush.Tlv.Grammar

/-! The documented plaintexts of requests and responses, and when the two
decoders agree with them: they swallow what does not decode as a map, ignore
what follows one, and know none of the application-defined statuses. -/
namespace Hush.Frame

open Hush.Foundation BigEndian
open Hush.Session hiding encrypt decrypt

/-- `tlv_payload (optional)`: nothing, or exactly one map element. -/
inductive PayloadGrammar : List UInt8 → Option Tlv.Map → Prop where
  | absent : PayloadGrammar [] none
  | element {tail : List UInt8} {m : Tlv.Map} : Tlv.Denotes 0 tail (.map m) →
      PayloadGrammar tail (some m)

/-- `opcode (uint16 BE) || tlv_payload (optional)`. -/
inductive RequestGrammar : List UInt8 → Request → Prop where
  | mk {opcode : UInt16} {tail : List UInt8} {payload : Option Tlv.Map} :
      PayloadGrammar tail payload → RequestGrammar (u16.toBeBytes opcode ++ tail) ⟨opcode, payload⟩

/-- The table of status codes, with the application-defined ones. -/
def Documented (status : UInt8) : Prop := status ≤ 0x07 ∨ 0x80 ≤ status

/-- `status_code (uint8) || tlv_payload (optional)`. -/
inductive ResponseGrammar : List UInt8 → UInt8 → Option Tlv.Map → Prop where
  | mk {status : UInt8} {tail : List UInt8} {payload : Option Tlv.Map} : Documented status →
      PayloadGrammar tail payload → ResponseGrammar (status :: tail) status payload

/-- The map that the decoder finds, if it is all of the bytes. -/
def wholeMap (tail : List UInt8) : Option Tlv.Map :=
  match Tlv.decodeValue tail 0 0 with
  | .ok (.map m, next) => if next = tail.length then some m else none
  | _ => none

theorem wholeMap_eq_some_iff {tail : List UInt8} {m : Tlv.Map} :
    wholeMap tail = some m ↔ Tlv.Denotes 0 tail (.map m) := by
  have hrecognises := Tlv.decodeValue_recognises 0
  unfold wholeMap
  constructor
  · intro h
    split at h
    · rename_i m' next hvalue
      obtain ⟨chunk, hpre, hchunk, rfl⟩ := hrecognises.sound hvalue
      split at h
      · rename_i hlength
        obtain rfl := Option.some.inj h
        rw [Nat.zero_add] at hlength
        rwa [hpre.eq_of_length hlength] at hchunk
      · cases h
    · cases h
  · intro h
    have hvalue : Tlv.decodeValue tail 0 0 = .ok (.map m, 0 + tail.length) :=
      hrecognises.complete List.prefix_rfl h
    rw [hvalue]
    simp

theorem decodeMapOpt_of_denotes {tail : List UInt8} {m : Tlv.Map}
    (h : Tlv.Denotes 0 tail (.map m)) : Tlv.decodeMapOpt tail = some m := by
  have hrun : Tlv.decode tail = .ok (.map m) := Tlv.decode_ok_iff.mpr ⟨tail, List.prefix_rfl, h⟩
  unfold Tlv.decodeMapOpt Tlv.decodeMap
  rw [if_neg (by simpa using h.ne_nil), hrun]
  rfl

/-- The tail of a plaintext is one that the grammar allows. -/
def WholeTail (tail : List UInt8) : Prop := tail = [] ∨ (wholeMap tail).isSome

/-- On such a tail the decoder finds what the grammar does, and on no other is
there anything to find. -/
theorem payloadGrammar_iff {tail : List UInt8} {payload : Option Tlv.Map} :
    PayloadGrammar tail payload ↔ payload = Tlv.decodeMapOpt tail ∧ WholeTail tail := by
  constructor
  · intro h
    cases h with
    | absent => exact ⟨rfl, .inl rfl⟩
    | element hm =>
      refine ⟨(decodeMapOpt_of_denotes hm).symm, .inr ?_⟩
      rw [wholeMap_eq_some_iff.mpr hm]
      rfl
  · rintro ⟨rfl, rfl | hsome⟩
    · exact .absent
    · obtain ⟨m, hm⟩ := Option.isSome_iff_exists.mp hsome
      rw [decodeMapOpt_of_denotes (wholeMap_eq_some_iff.mp hm)]
      exact .element (wholeMap_eq_some_iff.mp hm)

theorem requestGrammar_iff {plaintext : List UInt8} {req : Request} :
    RequestGrammar plaintext req ↔ 2 ≤ plaintext.length ∧
      req.opcode = u16.fromBeBytes (plaintext.take 2) ∧
        PayloadGrammar (plaintext.drop 2) req.payload := by
  constructor
  · intro h
    cases h with
    | @mk opcode tail payload hpayload =>
      have hheader : (u16.toBeBytes opcode).length = 2 := u16.length_toBeBytes _
      rw [List.take_left' hheader, List.drop_left' hheader, u16.fromBeBytes_toBeBytes]
      refine ⟨?_, rfl, hpayload⟩
      rw [List.length_append, hheader]
      exact Nat.le_add_right 2 _
  · rintro ⟨hlength, hopcode, hpayload⟩
    obtain ⟨opcode, payload⟩ := req
    obtain rfl := hopcode
    have hgrammar := @RequestGrammar.mk (u16.fromBeBytes (plaintext.take 2)) _ _ hpayload
    rwa [u16.toBeBytes_fromBeBytes (List.length_take_of_le hlength), List.take_append_drop]
      at hgrammar

theorem responseGrammar_iff {plaintext : List UInt8} {status : UInt8} {payload : Option Tlv.Map} :
    ResponseGrammar plaintext status payload ↔
      ∃ tail, plaintext = status :: tail ∧ Documented status ∧ PayloadGrammar tail payload := by
  constructor
  · intro h
    cases h with
    | mk hstatus hpayload => exact ⟨_, rfl, hstatus, hpayload⟩
  · rintro ⟨tail, rfl, hstatus, hpayload⟩
    exact .mk hstatus hpayload

/-! ### The decoders on a plaintext -/

/-- The plaintext of a message's frame data. -/
def plaintextOf (aead : Aead) (key : Option (List UInt8)) (wireData : List UInt8) :
    Except RequestError (List UInt8) := do
  let frame ← (parseFrameData wireData).mapError .frame
  openBody aead key frame.data

section

variable {aead : Aead} {key : Option (List UInt8)} {wireData plaintext : List UInt8}

/-- A plaintext comes from a frame that opens. -/
theorem plaintextOf_ok_iff : plaintextOf aead key wireData = .ok plaintext ↔
    ∃ frame, parseFrameData wireData = .ok frame ∧ openBody aead key frame.data = .ok plaintext := by
  unfold plaintextOf
  match parseFrameData wireData with
  | .error e => simp [Except.mapError, bind, Except.bind]
  | .ok frame => simp [Except.mapError, bind, Except.bind]

theorem decodeMapOpt_tail (plaintext : List UInt8) (n : Nat) :
    (if n < plaintext.length then Tlv.decodeMapOpt (plaintext.drop n) else none) =
      Tlv.decodeMapOpt (plaintext.drop n) := by
  split
  · rfl
  · rename_i h
    rw [List.drop_of_length_le (Nat.not_lt.mp h)]
    rfl

theorem decodeRequest_eq (h : plaintextOf aead key wireData = .ok plaintext) :
    ∃ seq, decodeRequest aead key wireData =
      if plaintext.length < 2 then .error .tooShort
      else .ok (⟨u16.fromBeBytes (plaintext.take 2), Tlv.decodeMapOpt (plaintext.drop 2)⟩, seq) := by
  obtain ⟨frame, hframe, hopen⟩ := plaintextOf_ok_iff.mp h
  refine ⟨frame.seq, ?_⟩
  unfold decodeRequest
  rw [hframe]
  dsimp only [Except.mapError, bind, Except.bind]
  rw [hopen]
  dsimp only
  rw [decodeMapOpt_tail plaintext 2]
  rfl

theorem decodeResponse_eq (h : plaintextOf aead key wireData = .ok plaintext) :
    ∃ seq, decodeResponse aead key wireData =
      match plaintext with
      | [] => .error .tooShort
      | status :: tail =>
        match StatusCode.fromU8 status with
        | none => .error (.unknownStatus status)
        | some status => .ok ⟨status, Tlv.decodeMapOpt tail, seq⟩ := by
  obtain ⟨frame, hframe, hopen⟩ := plaintextOf_ok_iff.mp h
  refine ⟨frame.seq, ?_⟩
  unfold decodeResponse
  rw [hframe]
  dsimp only [Except.mapError, bind, Except.bind]
  rw [hopen]
  cases plaintext with
  | nil => rfl
  | cons status tail =>
    dsimp only
    match StatusCode.fromU8 status with
    | none => rfl
    | some code =>
      have htail := decodeMapOpt_tail (status :: tail) 1
      rw [List.drop_one, List.tail_cons] at htail
      dsimp only
      rw [htail]
      rfl

/-! ### Where decoders and grammar agree -/

/-- `decode_request` accepts what the grammar of requests does, and reads it so. -/
def DecodesRequests (aead : Aead) (key : Option (List UInt8)) (wireData plaintext : List UInt8) :
    Prop :=
  ∀ req, (∃ seq, decodeRequest aead key wireData = .ok (req, seq)) ↔ RequestGrammar plaintext req

/-- `decode_response` accepts what the grammar of responses does, and reads it so. -/
def DecodesResponses (aead : Aead) (key : Option (List UInt8)) (wireData plaintext : List UInt8) :
    Prop :=
  ∀ status payload, (∃ resp, decodeResponse aead key wireData = .ok resp ∧
    resp.status.toU8 = status ∧ resp.payload = payload) ↔ ResponseGrammar plaintext status payload

/-- After an opcode there is nothing or one whole map. -/
def RequestReadable (plaintext : List UInt8) : Prop :=
  plaintext.length < 2 ∨ WholeTail (plaintext.drop 2)

/-- After a status of the table there is nothing or one whole map, and after an
application-defined one there is something else. -/
def ResponseReadable : List UInt8 → Prop
  | [] => True
  | status :: tail => (status ≤ 0x07 → WholeTail tail) ∧ (0x80 ≤ status → ¬WholeTail tail)

theorem decodeRequest_ok_iff (h : plaintextOf aead key wireData = .ok plaintext) (req : Request) :
    (∃ seq, decodeRequest aead key wireData = .ok (req, seq)) ↔ 2 ≤ plaintext.length ∧
      req.opcode = u16.fromBeBytes (plaintext.take 2) ∧
        req.payload = Tlv.decodeMapOpt (plaintext.drop 2) := by
  obtain ⟨seq, hdecode⟩ := decodeRequest_eq h
  obtain ⟨opcode, payload⟩ := req
  rw [hdecode]
  split
  · rename_i hshort
    simp [Nat.not_le.mpr hshort]
  · rename_i hlong
    simp only [Except.ok.injEq, Prod.mk.injEq, Request.mk.injEq, Nat.not_lt.mp hlong, true_and]
    constructor
    · rintro ⟨_, ⟨rfl, rfl⟩, -⟩
      exact ⟨rfl, rfl⟩
    · rintro ⟨rfl, rfl⟩
      exact ⟨seq, ⟨rfl, rfl⟩, rfl⟩

theorem decodesRequests_iff (h : plaintextOf aead key wireData = .ok plaintext) :
    DecodesRequests aead key wireData plaintext ↔ RequestReadable plaintext := by
  unfold DecodesRequests RequestReadable
  simp only [decodeRequest_ok_iff h, requestGrammar_iff, payloadGrammar_iff]
  constructor
  · intro hagree
    by_cases hshort : plaintext.length < 2
    · exact .inl hshort
    · have hdecoded := (hagree ⟨u16.fromBeBytes (plaintext.take 2),
        Tlv.decodeMapOpt (plaintext.drop 2)⟩).mp ⟨Nat.not_lt.mp hshort, rfl, rfl⟩
      exact .inr hdecoded.2.2.2
  · rintro (hshort | hwhole) req
    · simp [Nat.not_le.mpr hshort]
    · simp [hwhole]

theorem toU8_of_fromU8 {b : UInt8} {status : StatusCode} (h : StatusCode.fromU8 b = some status) :
    status.toU8 = b := by
  unfold StatusCode.fromU8 at h
  split at h <;> simp only [Option.some.injEq, reduceCtorEq] at h <;> subst h <;> rfl

theorem toU8_le (status : StatusCode) : status.toU8 ≤ 0x07 := by
  cases status <;> decide

/-- The statuses that the decoder knows are the first eight. -/
theorem fromU8_isSome_iff (b : UInt8) : (StatusCode.fromU8 b).isSome ↔ b ≤ 0x07 := by
  constructor
  · intro h
    obtain ⟨status, hstatus⟩ := Option.isSome_iff_exists.mp h
    rw [← toU8_of_fromU8 hstatus]
    exact toU8_le status
  · intro h
    have hcases : b = 0 ∨ b = 1 ∨ b = 2 ∨ b = 3 ∨ b = 4 ∨ b = 5 ∨ b = 6 ∨ b = 7 := by
      rw [UInt8.le_iff_toNat_le] at h
      simp only [← UInt8.toNat_inj]
      simp at h ⊢
      omega
    rcases hcases with rfl | rfl | rfl | rfl | rfl | rfl | rfl | rfl <;> rfl

theorem decodeResponse_ok_iff (h : plaintextOf aead key wireData = .ok plaintext) (status : UInt8)
    (payload : Option Tlv.Map) :
    (∃ resp, decodeResponse aead key wireData = .ok resp ∧ resp.status.toU8 = status ∧
      resp.payload = payload) ↔
        ∃ tail, plaintext = status :: tail ∧ status ≤ 0x07 ∧ payload = Tlv.decodeMapOpt tail := by
  obtain ⟨seq, hdecode⟩ := decodeResponse_eq h
  rw [hdecode]
  cases plaintext with
  | nil => simp
  | cons b tail =>
    dsimp only
    constructor
    · rintro ⟨resp, hresp, rfl, rfl⟩
      split at hresp
      · cases hresp
      · rename_i code hcode
        obtain rfl := Except.ok.inj hresp
        exact ⟨tail, by rw [toU8_of_fromU8 hcode], toU8_le code, rfl⟩
    · rintro ⟨tail', heq, hknown, rfl⟩
      obtain ⟨rfl, rfl⟩ := List.cons.inj heq
      obtain ⟨code, hcode⟩ := Option.isSome_iff_exists.mp ((fromU8_isSome_iff b).mpr hknown)
      rw [hcode]
      exact ⟨_, rfl, toU8_of_fromU8 hcode, rfl⟩

theorem decodesResponses_iff (h : plaintextOf aead key wireData = .ok plaintext) :
    DecodesResponses aead key wireData plaintext ↔ ResponseReadable plaintext := by
  unfold DecodesResponses
  simp only [decodeResponse_ok_iff h, responseGrammar_iff, payloadGrammar_iff]
  cases plaintext with
  | nil => simp [ResponseReadable]
  | cons status tail =>
    unfold ResponseReadable
    constructor
    · intro hagree
      constructor
      · intro hknown
        obtain ⟨_, heq, -, -, hwhole⟩ := (hagree status _).mp ⟨tail, rfl, hknown, rfl⟩
        obtain ⟨-, rfl⟩ := List.cons.inj heq
        exact hwhole
      · intro happlication hwhole
        obtain ⟨_, -, hknown, -⟩ := (hagree status _).mpr
          ⟨tail, rfl, .inr happlication, rfl, hwhole⟩
        exact absurd (UInt8.le_trans happlication hknown) (by decide)
    · rintro ⟨hknown, happlication⟩ status' payload
      constructor
      · rintro ⟨tail', heq, hle, rfl⟩
        obtain ⟨rfl, rfl⟩ := List.cons.inj heq
        exact ⟨tail, rfl, .inl hle, rfl, hknown hle⟩
      · rintro ⟨tail', heq, hle | hge, rfl, hwhole⟩
        · obtain ⟨rfl, rfl⟩ := List.cons.inj heq
          exact ⟨tail, rfl, hle, rfl⟩
        · obtain ⟨rfl, rfl⟩ := List.cons.inj heq
          exact absurd hwhole (happlication hge)

end

/-- The decoders agree with the documented plaintexts exactly where the tail is
empty or one whole map, a status is undocumented, or an application-defined
status is followed by something else. -/
theorem decoders_agree_iff (aead : Aead) (key : Option (List UInt8))
    (wireData plaintext : List UInt8) (h : plaintextOf aead key wireData = .ok plaintext) :
    (DecodesRequests aead key wireData plaintext ↔ RequestReadable plaintext) ∧
      (DecodesResponses aead key wireData plaintext ↔ ResponseReadable plaintext) :=
  ⟨decodesRequests_iff h, decodesResponses_iff h⟩

/-- A plaintext sealed with the key of seven times seven bytes, for examples. -/
def exampleSealed (plaintext : List UInt8) : List UInt8 :=
  Frame.body ⟨9, List.replicate 12 7 ++ (plaintext ++ List.replicate tagSize 7)⟩

theorem decoders_agree_iff_empty :
    DecodesRequests keyTagAead (some (List.replicate 32 7)) (exampleSealed [0, 5]) [0, 5] ∧
      DecodesResponses keyTagAead (some (List.replicate 32 7)) (exampleSealed [0]) [0] := by
  have hrequest := decoders_agree_iff keyTagAead (some (List.replicate 32 7))
    (exampleSealed [0, 5]) [0, 5] rfl
  have hresponse := decoders_agree_iff keyTagAead (some (List.replicate 32 7))
    (exampleSealed [0]) [0] rfl
  constructor
  · exact hrequest.1.mpr (.inr (.inl rfl))
  · exact hresponse.2.mpr ⟨fun _ => .inl rfl, fun h => absurd h (by decide)⟩

/-- A tail that is no map reads as no payload, what follows a map is ignored,
and an application-defined status is refused. -/
theorem decoders_disagree :
    ¬DecodesRequests keyTagAead (some (List.replicate 32 7)) (exampleSealed [0, 5, 255])
        [0, 5, 255] ∧
      ¬DecodesRequests keyTagAead (some (List.replicate 32 7)) (exampleSealed [0, 5, 13, 0, 1])
        [0, 5, 13, 0, 1] ∧
      ¬DecodesResponses keyTagAead (some (List.replicate 32 7)) (exampleSealed [128]) [128] := by
  refine ⟨?_, ?_, ?_⟩
  · rw [decodesRequests_iff rfl]
    rintro (hshort | hempty | hmap)
    · exact absurd hshort (by decide)
    · cases hempty
    · cases hmap
  · rw [decodesRequests_iff rfl]
    rintro (hshort | hempty | hmap)
    · exact absurd hshort (by decide)
    · cases hempty
    · cases hmap
  · rw [decodesResponses_iff rfl]
    rintro ⟨-, happlication⟩
    exact happlication (by decide) (.inl rfl)

end Hush.Frame
