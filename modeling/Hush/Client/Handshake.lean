import Hush.Client.Dial
import Hush.Server.Greeters

/-! The handshake of both sides: a dialing client linked with the task that
greets it, over channels that deliver in order. -/
namespace Hush.Client

open Hush.Foundation BigEndian Execution Link
open Hush.Frame hiding Request Response
open Hush.Session
open Hush.Server (NetAction ServerKeys Hello HelloWire helloReply Established)

/-! ### What the hello says -/

/-- The two branches of the hello write the same: the length, the id, the key. -/
theorem Dialer.hello_eq (d : Dialer) :
    d.hello = u16.toBeBytes (UInt16.ofNat (Utf8.asBytes d.apiKey.id).length) ++
      (Utf8.asBytes d.apiKey.id ++ d.exchange.publicKey d.secret) := by
  unfold Dialer.hello
  dsimp only
  split
  · rename_i hempty
    rw [String.isEmpty_iff.mp hempty]
    rfl
  · rfl

/-- The key id and the public key that the client means to say. -/
def Dialer.said (d : Dialer) : Hello :=
  ⟨if d.apiKey.id = "" then none else some d.apiKey.id, d.exchange.publicKey d.secret⟩

theorem asBytes_eq_nil_iff {s : String} : Utf8.asBytes s = [] ↔ s = "" := by
  constructor
  · intro h
    have hsame : Utf8.fromUtf8 (Utf8.asBytes s) = Utf8.fromUtf8 (Utf8.asBytes "") := by
      rw [h]
      rfl
    rw [Utf8.fromUtf8_asBytes, Utf8.fromUtf8_asBytes] at hsame
    exact Option.some.inj hsame
  · rintro rfl
    rfl

/-- An id of at most 256 bytes is said as it is meant. -/
theorem Dialer.helloWire {d : Dialer} (hpub : (d.exchange.publicKey d.secret).length = 32)
    (hshort : (Utf8.asBytes d.apiKey.id).length ≤ 256) : HelloWire d.hello d.said := by
  rw [d.hello_eq]
  unfold Dialer.said
  by_cases hempty : d.apiKey.id = ""
  · rw [if_pos hempty, hempty]
    exact .anonymous hpub
  · have hpositive : 0 < (Utf8.asBytes d.apiKey.id).length :=
      List.length_pos_iff.mpr fun h => hempty (asBytes_eq_nil_iff.mp h)
    have hlen : (UInt16.ofNat (Utf8.asBytes d.apiKey.id).length).toNat =
        (Utf8.asBytes d.apiKey.id).length := by
      apply UInt16.toNat_ofNat_of_lt'
      show _ < 65536
      omega
    have hne : UInt16.ofNat (Utf8.asBytes d.apiKey.id).length ≠ 0 := by
      intro hzero
      rw [hzero] at hlen
      simp only [UInt16.toNat_zero] at hlen
      omega
    have hnamed := HelloWire.named hne (by rw [hlen]; exact hshort) hlen.symm hpub
    rw [Utf8.fromUtf8Lossy_asBytes] at hnamed
    rwa [if_neg hempty]

/-- Two hellos at the start of the same bytes are the same. -/
theorem helloWire_unique {wire wire' bytes : List UInt8} {hello hello' : Hello}
    (h : HelloWire wire hello) (h' : HelloWire wire' hello') (hfront : wire <+: bytes)
    (hfront' : wire' <+: bytes) : wire = wire' ∧ hello = hello' := by
  obtain ⟨rest, rfl⟩ := hfront
  obtain ⟨rest', hrest⟩ := hfront'
  have hread := Server.readHello_helloWire h .tcp rest .wouldBlock
  have hread' := Server.readHello_helloWire h' .tcp rest' .wouldBlock
  rw [hrest, hread] at hread'
  simp only [Except.ok.injEq, Prod.mk.injEq, Stream.Source.mk.injEq, and_true] at hread'
  obtain ⟨rfl, rfl⟩ := hread'
  exact ⟨(List.append_cancel_right hrest).symm, rfl⟩

/-- The header of a hello says how much of what follows is the id. -/
theorem helloWire_header {wire body : List UInt8} {hello : Hello} {keyLen : UInt16}
    (h : HelloWire wire hello) (hfront : wire <+: u16.toBeBytes keyLen ++ body) :
    keyLen.toNat ≤ 256 ∧ hello.apiKeyId =
      if keyLen = 0 then none else some (Utf8.fromUtf8Lossy (body.take keyLen.toNat)) := by
  have hheader {n : UInt16} {rest : List UInt8}
      (hsame : u16.toBeBytes n ++ rest <+: u16.toBeBytes keyLen ++ body) :
      n = keyLen ∧ rest <+: body := by
    obtain ⟨tail, htail⟩ := hsame
    rw [List.append_assoc] at htail
    obtain ⟨hbytes, hrest⟩ := List.append_inj htail (by simp)
    have hread := congrArg u16.fromBeBytes hbytes
    rw [u16.fromBeBytes_toBeBytes, u16.fromBeBytes_toBeBytes] at hread
    exact ⟨hread, tail, hrest⟩
  cases h with
  | anonymous hpub =>
    obtain ⟨rfl, -⟩ := hheader hfront
    exact ⟨by decide, rfl⟩
  | @named n keyId clientPub hne hmax hkeyId hpub =>
    obtain ⟨rfl, tail, hbody⟩ := hheader hfront
    refine ⟨hmax, ?_⟩
    rw [if_neg hne, ← hbody, List.append_assoc, List.take_left' hkeyId]

/-! ### The dial in every run -/

/-- Both directions still work. -/
def Endpoint.Sound (stream : Endpoint) : Prop :=
  stream.recv.ending = .wouldBlock ∧ stream.send.room = none

theorem Endpoint.Sound.net {stream stream' : Endpoint} {action : NetAction}
    (h : stream.net action = some stream') (hsound : stream'.Sound) : stream.Sound := by
  unfold Endpoint.net at h
  cases action with
  | deliver bytes =>
    dsimp only at h
    split at h
    · obtain rfl := Option.some.inj h
      exact hsound
    · cases h
  | hangup kind =>
    dsimp only at h
    split at h
    · rename_i hend
      obtain rfl := Option.some.inj h
      exact absurd hsound.1 hend.2
    · cases h
  | limit room kind =>
    obtain rfl := Option.some.inj h
    cases hsound.2

/-- How far the dial has come, by what it wrote and read. -/
structure Dialed (d : Dialer) (task : Dial) : Prop where
  written : task.stream.send.written <+: d.hello
  phase : match task.phase with
    | .hello => task.stream.send.written = [] ∧ task.stream.taken = []
    | .reply => task.stream.send.written = d.hello ∧ task.stream.taken = []
    | .done (.ok sess) => task.stream.send.written = d.hello ∧ task.stream.taken.length = 40 ∧
        ∃ now, d.complete now task.stream.taken = .ok sess
    | .done (.error _) => task.stream.Sound → task.stream.taken.length = 40 ∧
        ∃ now e, d.complete now task.stream.taken = .error e

theorem Dialed.net {d : Dialer} {task : Dial} {stream : Endpoint} {action : NetAction}
    (hdialed : Dialed d task) (h : task.stream.net action = some stream) :
    Dialed d { task with stream } := by
  obtain ⟨hwritten, htaken⟩ : stream.send.written = task.stream.send.written ∧
      stream.taken = task.stream.taken := by
    unfold Endpoint.net at h
    cases action with
    | deliver bytes =>
      dsimp only at h
      split at h
      · obtain rfl := Option.some.inj h
        exact ⟨rfl, rfl⟩
      · cases h
    | hangup kind =>
      dsimp only at h
      split at h
      · obtain rfl := Option.some.inj h
        exact ⟨rfl, rfl⟩
      · cases h
    | limit room kind =>
      obtain rfl := Option.some.inj h
      exact ⟨rfl, rfl⟩
  have hphase := hdialed.phase
  refine ⟨by rw [hwritten]; exact hdialed.written, ?_⟩
  dsimp only
  rw [hwritten, htaken]
  split at hphase
  · exact hphase
  · exact hphase
  · exact hphase
  · exact fun hsound => hphase (Endpoint.Sound.net h hsound)

theorem dialed_step {tr : Transport} {d : Dialer} {task task' : Dial} {action : DialAction}
    (hdialed : Dialed d task) (h : dialStep tr d task action = some task') : Dialed d task' := by
  have hphase := hdialed.phase
  cases dialStep_steps h with
  | net hnet => exact hdialed.net hnet
  | @unwritten now kind stream heq hwrite =>
    rw [heq] at hphase
    obtain ⟨-, -, part, hpart, hwritten, -⟩ := Endpoint.writeAll_takes hwrite
    constructor
    · dsimp only
      rw [hwritten, hphase.1]
      exact hpart
    · intro hsound
      -- a write that failed leaves a sink that fails
      unfold Endpoint.writeAll Stream.Sink.writeAll at hwrite
      obtain ⟨hresult, rfl⟩ := Prod.mk.inj hwrite
      split at hresult
      · cases hresult
      · rename_i hroom
        split at hresult
        · cases hresult
        · rename_i hlong
          have hnone := hsound.2
          simp [hroom, hlong] at hnone
  | @written now stream heq hwrite =>
    rw [heq] at hphase
    obtain ⟨-, htaken, part, -, hwritten, hall⟩ := Endpoint.writeAll_takes hwrite
    rw [hphase.1, hall rfl] at hwritten
    exact ⟨by rw [hwritten]; exact List.prefix_rfl, hwritten, by rw [htaken, hphase.2]⟩
  | @unread now kind stream heq hread hkind =>
    rw [heq] at hphase
    obtain ⟨hsend, -, -⟩ := Endpoint.readExact_takes hread
    refine ⟨by rw [hsend]; exact hdialed.written, ?_⟩
    intro hsound
    unfold Endpoint.readExact at hread
    split at hread
    · cases hread
    · obtain ⟨hresult, -⟩ := Prod.mk.inj hread
      exact absurd (Except.error.inj hresult).symm hkind
    · rename_i kind' hkind' hrun
      obtain ⟨-, rfl⟩ := Prod.mk.inj hread
      unfold Stream.Source.readExact at hrun
      split at hrun
      · exact absurd ((Except.error.inj hrun).symm.trans hsound.1) hkind'
      · cases hrun
  | @read now resp stream heq hread =>
    rw [heq] at hphase
    obtain ⟨hsend, -, hok⟩ := Endpoint.readExact_takes hread
    obtain ⟨hlength, htaken⟩ := hok resp rfl
    rw [hphase.2, List.nil_append] at htaken
    refine ⟨by rw [hsend]; exact hdialed.written, ?_⟩
    dsimp only
    match hrun : d.complete now resp with
    | .ok sess => exact ⟨by rw [hsend]; exact hphase.1, by rw [htaken]; exact hlength, now,
        by rw [htaken]; exact hrun⟩
    | .error e => exact fun _ => ⟨by rw [htaken]; exact hlength, now, e, by rw [htaken]; exact hrun⟩

def DialAction.local : DialAction → Bool
  | .net (.deliver _) => false
  | _ => true

/-- The dial at its end of the link: bytes come over the link, and only there. -/
def dialParty (tr : Transport) (d : Dialer) : Party Dial DialAction UInt8 where
  step := fun task action => if action.local then dialStep tr d task action else none
  feed := fun task bytes => dialStep tr d task (.net (.deliver bytes))
  written := fun task => task.stream.send.written
  received := fun task => task.stream.received
  written_step := by
    intro task action task' h
    split at h
    · cases dialStep_steps h with
      | net hnet => rw [(Endpoint.received_net hnet).2]
      | unwritten _ hwrite =>
        obtain ⟨-, -, part, -, hwritten, -⟩ := Endpoint.writeAll_takes hwrite
        exact ⟨part, hwritten.symm⟩
      | written _ hwrite =>
        obtain ⟨-, -, part, -, hwritten, -⟩ := Endpoint.writeAll_takes hwrite
        exact ⟨part, hwritten.symm⟩
      | unread _ hread _ => rw [(Endpoint.readExact_takes hread).1]
      | read _ hread => rw [(Endpoint.readExact_takes hread).1]
    · cases h
  received_step := by
    intro task action task' h
    split at h
    · rename_i hlocal
      cases dialStep_steps h with
      | @net action stream hnet =>
        dsimp only
        rw [(Endpoint.received_net hnet).1]
        cases action with
        | deliver bytes => cases hlocal
        | hangup kind => exact List.append_nil _
        | limit room kind => exact List.append_nil _
      | unwritten _ hwrite =>
        obtain ⟨hrecv, htaken, -⟩ := Endpoint.writeAll_takes hwrite
        unfold Endpoint.received
        rw [hrecv, htaken]
      | written _ hwrite =>
        obtain ⟨hrecv, htaken, -⟩ := Endpoint.writeAll_takes hwrite
        unfold Endpoint.received
        rw [hrecv, htaken]
      | unread _ hread _ => exact (Endpoint.readExact_takes hread).2.1
      | read _ hread => exact (Endpoint.readExact_takes hread).2.1
    · cases h
  written_feed := by
    intro task bytes task' h
    obtain ⟨stream, hnet, rfl⟩ := Option.map_eq_some_iff.mp h
    exact (Endpoint.received_net hnet).2
  received_feed := by
    intro task bytes task' h
    obtain ⟨stream, hnet, rfl⟩ := Option.map_eq_some_iff.mp h
    exact (Endpoint.received_net hnet).1

/-! ### What both sides hold -/

/-- The secret that goes into the client's session key. -/
def Dialer.keySecret (d : Dialer) : List UInt8 :=
  if d.apiKey.id = "" then Server.anonymousSecret else d.apiKey.secret

theorem complete_helloReply {d : Dialer} {keys : ServerKeys} (now : Instant) (sid : UInt64)
    (hpub : (keys.exchange.publicKey keys.serverPriv).length = 32) :
    d.complete now (helloReply keys sid) =
      (deriveSessionKey d.exchange
        (sharedSecret d.exchange d.secret (keys.exchange.publicKey keys.serverPriv))
          d.keySecret).map (Session.new now sid d.apiKey.id) := by
  unfold Dialer.complete Dialer.keySecret helloReply
  dsimp only
  rw [List.take_left' hpub, List.drop_left' hpub, u64.fromBeBytes_toBeBytes]
  by_cases hempty : d.apiKey.id = ""
  · rw [if_pos (String.isEmpty_iff.mpr hempty), if_pos hempty, hempty]
    rfl
  · rw [if_neg (fun h => hempty (String.isEmpty_iff.mp h)), if_neg hempty]
    rfl

/-- The server lets the key in: it is anonymous, or short enough and known. -/
def Welcome (keys : ServerKeys) (apiKey : ApiKey) : Prop :=
  apiKey.id = "" ∨
    (Utf8.asBytes apiKey.id).length ≤ 256 ∧ keys.keyStore apiKey.id = some apiKey.secret

/-- The server turns the key away: its id is too long, or unknown. -/
def TurnedAway (keys : ServerKeys) (apiKey : ApiKey) : Prop :=
  256 < (Utf8.asBytes apiKey.id).length ∨ apiKey.id ≠ "" ∧ keys.keyStore apiKey.id = none

/-- The hello starts with one that the server lets in, under this key id. -/
def Admitted (keys : ServerKeys) (d : Dialer) (apiKeyId : String) : Prop :=
  ∃ wire hello secret, HelloWire wire hello ∧ wire <+: d.hello ∧
    Server.selectSecret keys hello = .ok (apiKeyId, secret)

/-- The length that the header gives is too long, or what the server then takes for
the id is unknown. -/
def Refuses (keys : ServerKeys) (apiKey : ApiKey) : Prop :=
  let keyLen := (Utf8.asBytes apiKey.id).length % 65536
  256 < keyLen ∨ keyLen ≠ 0 ∧
    keys.keyStore (Utf8.fromUtf8Lossy ((Utf8.asBytes apiKey.id).take keyLen)) = none

theorem Welcome.short {keys : ServerKeys} {apiKey : ApiKey} (h : Welcome keys apiKey) :
    (Utf8.asBytes apiKey.id).length ≤ 256 := by
  obtain hempty | ⟨hshort, -⟩ := h
  · rw [hempty]
    decide
  · exact hshort

theorem Welcome.selectSecret {keys : ServerKeys} {d : Dialer} (h : Welcome keys d.apiKey) :
    Server.selectSecret keys d.said = .ok (d.apiKey.id, d.keySecret) := by
  unfold Server.selectSecret Dialer.said Dialer.keySecret
  by_cases hempty : d.apiKey.id = ""
  · rw [if_pos hempty, if_pos hempty, hempty]
  · obtain habsurd | ⟨-, hknown⟩ := h
    · exact absurd habsurd hempty
    · rw [if_neg hempty, if_neg hempty]
      dsimp only
      rw [hknown]

theorem Welcome.admitted {keys : ServerKeys} {d : Dialer} (h : Welcome keys d.apiKey)
    (hpub : (d.exchange.publicKey d.secret).length = 32) : Admitted keys d d.apiKey.id :=
  ⟨d.hello, d.said, d.keySecret, d.helloWire hpub h.short, List.prefix_rfl, h.selectSecret⟩

theorem TurnedAway.refuses {keys : ServerKeys} {apiKey : ApiKey} (h : TurnedAway keys apiKey)
    (hlength : (Utf8.asBytes apiKey.id).length ≤ 65535) : Refuses keys apiKey := by
  unfold Refuses
  dsimp only
  rw [Nat.mod_eq_of_lt (by omega)]
  obtain hlong | ⟨hne, hunknown⟩ := h
  · exact .inl hlong
  · refine .inr ⟨?_, ?_⟩
    · intro hzero
      exact hne (asBytes_eq_nil_iff.mp (List.eq_nil_of_length_eq_zero hzero))
    · rw [List.take_length, Utf8.fromUtf8Lossy_asBytes]
      exact hunknown

/-- A client that the server refuses says no hello that it would answer. -/
theorem Refuses.not_admitted {keys : ServerKeys} {d : Dialer} (h : Refuses keys d.apiKey)
    (apiKeyId : String) : ¬Admitted keys d apiKeyId := by
  rintro ⟨wire, hello, secret, hwire, hfront, hsecret⟩
  rw [d.hello_eq] at hfront
  obtain ⟨hmax, hkeyId⟩ := helloWire_header hwire hfront
  have hlen : (UInt16.ofNat (Utf8.asBytes d.apiKey.id).length).toNat =
      (Utf8.asBytes d.apiKey.id).length % 65536 := UInt16.toNat_ofNat'
  rw [hlen] at hmax hkeyId
  obtain hlong | ⟨hne, hunknown⟩ := h
  · omega
  · have hzero : UInt16.ofNat (Utf8.asBytes d.apiKey.id).length ≠ 0 := by
      intro hzero
      rw [hzero] at hlen
      exact hne hlen.symm
    rw [if_neg hzero, List.take_append_of_le_length (Nat.mod_le _ _)] at hkeyId
    unfold Server.selectSecret at hsecret
    rw [hkeyId] at hsecret
    dsimp only at hsecret
    rw [hunknown] at hsecret
    cases hsecret

end Hush.Client
