import Hush.Client.Agreement

/-! Whose session a client gets. The header of the hello gives the length of the
id modulo 2^16, so the server takes the first bytes of a longer id for all of it. -/
namespace Hush.Client

open Hush.Foundation BigEndian Execution Link
open Hush.Frame hiding Request Response
open Hush.Session
open Hush.Server (ServerKeys Greeter Hello HelloWire tcpGreeter quicGreeter tcpAccepted quicAccepted)

variable {σ T B : Type} {keys : ServerKeys} {sid : UInt64}

/-- In every run, a client that got a session and a server that established one
hold the same, under the client's id. -/
def IdentityKept (tr : Transport) (d : Dialer) (g : Greeter keys sid T B) (start : Pair Dial T) :
    Prop :=
  ∀ actions l, run (linkStep (dialParty tr d) g.party) start actions = some l →
    ∀ client server, l.left.phase = .done (.ok client) →
      .established server ∈ (g.chan l.right).log →
        server.apiKeyId = d.apiKey.id ∧ server.key = client.key

/-- The key id that the server reads at the start of the hello. -/
def readKeyId (keyIdBytes : List UInt8) : String :=
  Utf8.fromUtf8Lossy (keyIdBytes.take (keyIdBytes.length % 65536))

/-- Where the length is a multiple of 2^16, the hello starts with an anonymous one. -/
theorem admitted_anonymous {d : Dialer} (hpub : (d.exchange.publicKey d.secret).length = 32)
    (hzero : (Utf8.asBytes d.apiKey.id).length % 65536 = 0) : Admitted keys d "" := by
  have hkeyLen : UInt16.ofNat (Utf8.asBytes d.apiKey.id).length = 0 := by
    apply UInt16.toNat_inj.mp
    rw [UInt16.toNat_ofNat']
    exact hzero
  refine ⟨u16.toBeBytes 0 ++ (Utf8.asBytes d.apiKey.id ++ d.exchange.publicKey d.secret).take 32, _,
    Server.anonymousSecret, .anonymous ?_, ?_, rfl⟩
  · rw [List.length_take, List.length_append]
    omega
  · rw [d.hello_eq, hkeyLen]
    exact (List.prefix_append_right_inj _).mpr (List.take_prefix _ _)

/-- Else it starts with that of the id that its first bytes make. -/
theorem admitted_readKeyId {d : Dialer} (hpub : (d.exchange.publicKey d.secret).length = 32)
    (hpositive : (Utf8.asBytes d.apiKey.id).length % 65536 ≠ 0)
    (hmax : (Utf8.asBytes d.apiKey.id).length % 65536 ≤ 256) {secret : List UInt8}
    (hknown : keys.keyStore (readKeyId (Utf8.asBytes d.apiKey.id)) = some secret) :
    Admitted keys d (readKeyId (Utf8.asBytes d.apiKey.id)) := by
  have hkeyLen : (UInt16.ofNat (Utf8.asBytes d.apiKey.id).length).toNat =
      (Utf8.asBytes d.apiKey.id).length % 65536 := UInt16.toNat_ofNat'
  have hne : UInt16.ofNat (Utf8.asBytes d.apiKey.id).length ≠ 0 := by
    intro hzero
    rw [hzero] at hkeyLen
    exact hpositive hkeyLen.symm
  have hhello := d.hello_eq
  unfold readKeyId at hknown ⊢
  rw [← hkeyLen] at hmax hknown ⊢
  -- the id falls into what the server takes for it and what it takes for the public key
  obtain ⟨more, hmore⟩ := List.take_prefix (UInt16.ofNat (Utf8.asBytes d.apiKey.id).length).toNat
    (Utf8.asBytes d.apiKey.id)
  have hkeyId : ((Utf8.asBytes d.apiKey.id).take
      (UInt16.ofNat (Utf8.asBytes d.apiKey.id).length).toNat).length =
        (UInt16.ofNat (Utf8.asBytes d.apiKey.id).length).toNat := by
    rw [List.length_take, hkeyLen]
    exact Nat.min_eq_left (Nat.mod_le _ _)
  generalize UInt16.ofNat (Utf8.asBytes d.apiKey.id).length = keyLen at hmax hne hkeyId hknown hmore hhello ⊢
  generalize (Utf8.asBytes d.apiKey.id).take keyLen.toNat = keyId at hkeyId hknown hmore ⊢
  refine ⟨u16.toBeBytes keyLen ++ (keyId ++ (more ++ d.exchange.publicKey d.secret).take 32), _,
    secret, .named hne hmax hkeyId ?_, ?_, ?_⟩
  · rw [List.length_take, List.length_append]
    omega
  · rw [hhello, ← hmore, List.append_assoc]
    refine (List.prefix_append_right_inj _).mpr ((List.prefix_append_right_inj _).mpr ?_)
    exact List.take_prefix _ _
  · unfold Server.selectSecret
    dsimp only
    rw [hknown]

/-- What the server reads of an id of 2^16 bytes or more is another one. -/
theorem readKeyId_ne {id : String} (hmax : (Utf8.asBytes id).length % 65536 ≤ 256)
    (hlong : 65536 ≤ (Utf8.asBytes id).length) : readKeyId (Utf8.asBytes id) ≠ id := by
  intro hsame
  have hlength := Utf8.length_fromUtf8Lossy_le
    ((Utf8.asBytes id).take ((Utf8.asBytes id).length % 65536))
  unfold readKeyId at hsame
  rw [hsame, List.length_take] at hlength
  omega

/-- Where the hello starts with one that the server lets in under another id, some
run gives the client a session and the server one of that id. -/
theorem not_identityKept {tr : Transport} {d : Dialer} {g : Greeter keys sid T B}
    {start : Pair Dial T} (hmeet : Meeting g start) (hlaw : keys.exchange.Lawful)
    (hex : d.exchange = keys.exchange) {apiKeyId : String} (hadmitted : Admitted keys d apiKeyId)
    (hne : apiKeyId ≠ d.apiKey.id) : ¬IdentityKept tr d g start := by
  intro hkept
  have hnone : run (linkStep (dialParty tr d) g.party) start [] = some start := rfl
  have hworking : Working g start := by
    unfold Working
    rw [hmeet.left, hmeet.chan]
    exact ⟨⟨rfl, rfl⟩, rfl, rfl⟩
  obtain ⟨l, client, server, ⟨actions, hrun⟩, hclient, hserver⟩ :=
    (shaking_run hmeet hnone).completes hlaw hex hadmitted hworking
  have hid := (hkept actions l hrun client server hclient hserver).1
  rw [(shaking_run hmeet hrun).admitted_apiKeyId hadmitted hserver] at hid
  exact hne hid

theorem identityKept_iff {tr : Transport} {d : Dialer} {g : Greeter keys sid T B}
    {start : Pair Dial T} (hmeet : Meeting g start) (hlaw : keys.exchange.Lawful)
    (hex : d.exchange = keys.exchange) (hne : d.apiKey.id ≠ "")
    (hknown : keys.keyStore d.apiKey.id = some d.apiKey.secret) :
    IdentityKept tr d g start ↔
      (Utf8.asBytes d.apiKey.id).length < 65536 ∨ Refuses keys d.apiKey := by
  have hpub : (d.exchange.publicKey d.secret).length = 32 := by
    rw [hex]
    exact hlaw.length_publicKey d.secret
  constructor
  · intro hkept
    by_contra hcond
    obtain ⟨hlong, haccepted⟩ := not_or.mp hcond
    have hlong := Nat.le_of_not_lt hlong
    unfold Refuses at haccepted
    dsimp only at haccepted
    obtain ⟨hmax, hread⟩ := not_or.mp haccepted
    have hmax := Nat.le_of_not_lt hmax
    by_cases hzero : (Utf8.asBytes d.apiKey.id).length % 65536 = 0
    · exact not_identityKept hmeet hlaw hex (admitted_anonymous hpub hzero) hne.symm hkept
    · obtain ⟨secret, hsecret⟩ := Option.ne_none_iff_exists'.mp (not_and.mp hread hzero)
      exact not_identityKept hmeet hlaw hex (admitted_readKeyId hpub hzero hmax hsecret)
        (readKeyId_ne hmax hlong) hkept
  · intro hcond actions l hrun client server hclient hserver
    have hinv : Shaking tr d g l := shaking_run hmeet hrun
    have hrefused (hrefuses : Refuses keys d.apiKey) : False :=
      (hinv.refuses hrefuses).2 server hserver
    obtain hshort | hrefuses := hcond
    · by_cases hmax : (Utf8.asBytes d.apiKey.id).length ≤ 256
      · have hagreed := hinv.agreed hlaw hex (.inr ⟨hmax, hknown⟩) hclient hserver
        exact ⟨hagreed.keyIds.2, hagreed.keys.symm⟩
      · exact (hrefused (TurnedAway.refuses (.inl (by omega)) (by omega))).elim
    · exact (hrefused hrefuses).elim

/-- Over either transport: the identity is kept exactly when the length of the id
fits its header, or the server refuses what the header makes of it. -/
theorem identity_kept_iff (srv : Server.Server σ) (sid : UInt64) (sh : Server.Shared σ) (d : Dialer)
    (hlaw : srv.keys.exchange.Lawful) (hex : d.exchange = srv.keys.exchange)
    (hne : d.apiKey.id ≠ "") (hknown : srv.keys.keyStore d.apiKey.id = some d.apiKey.secret) :
    (IdentityKept .tcp d (tcpGreeter srv sid) ⟨dialing, tcpAccepted sh⟩ ↔
      (Utf8.asBytes d.apiKey.id).length < 65536 ∨ Refuses srv.keys d.apiKey) ∧
    (IdentityKept .quic d (quicGreeter srv sid) ⟨dialing, quicAccepted sh⟩ ↔
      (Utf8.asBytes d.apiKey.id).length < 65536 ∨ Refuses srv.keys d.apiKey) :=
  ⟨identityKept_iff ⟨rfl, rfl, rfl⟩ hlaw hex hne hknown,
    identityKept_iff ⟨rfl, rfl, rfl⟩ hlaw hex hne hknown⟩

theorem identity_kept_known :
    IdentityKept .quic (presenting "a") (quicGreeter (knowing "a") 7)
      ⟨dialing, quicAccepted ⟨0, .new ⟨100, 100⟩, 0⟩⟩ :=
  (identity_kept_iff (knowing "a") 7 ⟨0, .new ⟨100, 100⟩, 0⟩ (presenting "a") sumExchange_lawful rfl
    (by decide) (by decide)).2.mpr (.inl (by decide))

/-- An id of 2^16 bytes. -/
def longId : String := String.ofList (List.replicate 65536 'a')

theorem length_longId : (Utf8.asBytes longId).length = 65536 := by
  unfold longId
  rw [Utf8.length_asBytes_ofList, List.map_replicate, List.sum_replicate]
  rfl

/-- A known id whose length is a multiple of 2^16 gets an anonymous session. -/
theorem presenting_anonymous {id : String} (hzero : (Utf8.asBytes id).length % 65536 = 0)
    (sid : UInt64) (sh : Server.Shared Nat) :
    (knowing id).keys.keyStore id = some (presenting id).apiKey.secret ∧ ∃ l client server,
      Reaches (linkStep (dialParty .tcp (presenting id)) (tcpGreeter (knowing id) sid).party)
        ⟨dialing, tcpAccepted sh⟩ l ∧ l.left.phase = .done (.ok client) ∧
        .established server ∈ l.right.task.chan.log ∧ server.apiKeyId = "" := by
  have hadmitted : Admitted (knowing id).keys (presenting id) "" :=
    admitted_anonymous (sumExchange_lawful.length_publicKey _) hzero
  have hmeet : Meeting (tcpGreeter (knowing id) sid) ⟨dialing, tcpAccepted sh⟩ := ⟨rfl, rfl, rfl⟩
  have hnone : run (linkStep (dialParty .tcp (presenting id)) (tcpGreeter (knowing id) sid).party)
      ⟨dialing, tcpAccepted sh⟩ [] = some ⟨dialing, tcpAccepted sh⟩ := rfl
  obtain ⟨l, client, server, ⟨actions, hrun⟩, hclient, hserver⟩ :=
    (shaking_run hmeet hnone).completes sumExchange_lawful rfl hadmitted ⟨⟨rfl, rfl⟩, rfl, rfl⟩
  exact ⟨if_pos rfl, l, client, server, ⟨actions, hrun⟩, hclient, hserver,
    (shaking_run hmeet hrun).admitted_apiKeyId hadmitted hserver⟩

theorem longId_anonymous :
    (knowing longId).keys.keyStore longId = some (presenting longId).apiKey.secret ∧
      ¬IdentityKept .tcp (presenting longId) (tcpGreeter (knowing longId) 7)
        ⟨dialing, tcpAccepted ⟨0, .new ⟨100, 100⟩, 0⟩⟩ := by
  obtain ⟨hknown, l, client, server, ⟨actions, hrun⟩, hclient, hserver, hid⟩ :=
    presenting_anonymous (by rw [length_longId]) 7 ⟨0, .new ⟨100, 100⟩, 0⟩
  refine ⟨hknown, fun hkept => ?_⟩
  have hsame := (hkept actions l hrun client server hclient hserver).1
  rw [hid] at hsame
  have hlength := length_longId
  rw [show longId = "" from hsame.symm] at hlength
  cases hlength

end Hush.Client
