import Hush.Foundation.Hex
import Hush.Server.SyncHandshake

/-! `negotiate_client` of `session.rs`, the client's handshake over a blocking stream, with the keys
that `ApiKey::generate` makes and the map that keeps them: when the two sides of the sync handshake
hold the same session. -/
namespace Hush.Client

open Hush.Foundation BigEndian Stream
open Hush.Frame Hush.Session
open Hush.Server (ServerKeys syncHandshake)

/-- What `negotiate_client` writes, under the length of the id cast to 16 bits. -/
def syncHello (exchange : KeyExchange) (secret : List UInt8) (key : ApiKey) : List UInt8 :=
  let keyIdBytes := Utf8.asBytes key.id
  u16.toBeBytes (UInt16.ofNat keyIdBytes.length) ++ (keyIdBytes ++ exchange.publicKey secret)

/-- Client-side handshake (sync). -/
def negotiateClient (describe : ErrorKind → String) (exchange : KeyExchange) (now : Instant)
    (secret : List UInt8) (key : ApiKey) (recv : Source) (send : Sink) :
    Except SessionError (Session × Source) × Sink :=
  match send.writeAll (syncHello exchange secret key) with
  | (.error e, send) => (.error (.crypto s!"write: {describe e}"), send)
  | (.ok (), send) =>
    match recv.readExact (pubKeySize + 8) with
    | .error e => (.error (.crypto s!"read: {describe e}"), send)
    | .ok (resp, recv) =>
      let serverPub := resp.take pubKeySize
      let sessionId := u64.fromBeBytes (resp.drop pubKeySize)
      let shared := sharedSecret exchange secret serverPub
      match deriveSessionKey exchange shared key.secret with
      | .error e => (.error e, send)
      | .ok sessionKey => (.ok (Session.new now sessionId key.id sessionKey, recv), send)

/-- A completed negotiation, part by part. -/
theorem negotiateClient_ok_iff {describe : ErrorKind → String} {exchange : KeyExchange}
    {now : Instant} {secret : List UInt8} {key : ApiKey} {recv rest : Source} {send send' : Sink}
    {sess : Session} :
    negotiateClient describe exchange now secret key recv send = (.ok (sess, rest), send') ↔
      send.writeAll (syncHello exchange secret key) = (.ok (), send') ∧
      ∃ resp sessionKey, recv.readExact (pubKeySize + 8) = .ok (resp, rest) ∧
        deriveSessionKey exchange (sharedSecret exchange secret (resp.take pubKeySize)) key.secret =
          .ok sessionKey ∧
        sess = .new now (u64.fromBeBytes (resp.drop pubKeySize)) key.id sessionKey := by
  unfold negotiateClient
  cases hwrite : send.writeAll (syncHello exchange secret key) with
  | mk written sent =>
    cases written with
    | error e => simp
    | ok _ =>
      dsimp only
      cases hread : recv.readExact (pubKeySize + 8) with
      | error e => simp
      | ok read =>
        obtain ⟨resp, rest'⟩ := read
        dsimp only
        cases hkey : deriveSessionKey exchange
            (sharedSecret exchange secret (resp.take pubKeySize)) key.secret with
        | error e => simp [hkey]
        | ok sessionKey =>
          constructor
          · intro h
            obtain ⟨hok, rfl⟩ := Prod.mk.inj h
            obtain ⟨rfl, rfl⟩ := Prod.mk.inj (Except.ok.inj hok)
            exact ⟨rfl, resp, sessionKey, rfl, hkey, rfl⟩
          · rintro ⟨hsent, resp', sessionKey', hresp, hkey', rfl⟩
            obtain ⟨-, rfl⟩ := Prod.mk.inj hsent
            obtain ⟨rfl, rfl⟩ := Prod.mk.inj (Except.ok.inj hresp)
            rw [hkey] at hkey'
            obtain rfl := Except.ok.inj hkey'
            rfl

/-- The hello is the one that `dial` writes, for the empty id too. -/
theorem syncHello_eq (d : Dialer) : syncHello d.exchange d.secret d.apiKey = d.hello :=
  d.hello_eq.symm

/-! ### Both sides -/

/-- Both sides hold a session, the same but for their clocks. -/
def SameSession (dialed served : Except SessionError (Session × Source)) : Prop :=
  ∃ client server rest rest', dialed = .ok (client, rest) ∧ served = .ok (server, rest') ∧
    client.id = server.id ∧ client.apiKeyId = server.apiKeyId ∧ client.key = server.key

/-- The server's side of a handshake: it reads the client's hello and whatever comes after it. -/
def syncServed (describe : ErrorKind → String) (keys : ServerKeys) (now : Instant)
    (sessionId : UInt64) (secret : List UInt8) (key : ApiKey) (more : List UInt8)
    (ending : ErrorKind) : Except SessionError (Session × Source) × Sink :=
  syncHandshake describe keys now sessionId
    ⟨syncHello keys.exchange secret key ++ more, ending⟩ .vec

/-- The client's side, which reads what the server wrote and whatever comes after it. -/
def syncDialed (describe : ErrorKind → String) (exchange : KeyExchange) (now : Instant)
    (secret : List UInt8) (key : ApiKey) (served more : List UInt8) (ending : ErrorKind) :
    Except SessionError (Session × Source) × Sink :=
  negotiateClient describe exchange now secret key ⟨served ++ more, ending⟩ .vec

/-- The session key that a secret makes of the exchange between the two. -/
def agreedKey (keys : ServerKeys) (secret apiKeySecret : List UInt8) :
    Except SessionError (List UInt8) :=
  deriveSessionKey keys.exchange
    (sharedSecret keys.exchange secret (keys.exchange.publicKey keys.serverPriv)) apiKeySecret

variable {describe : ErrorKind → String} {keys : ServerKeys} {now : Instant} {sid : UInt64}
  {secret : List UInt8} {key : ApiKey} {more : List UInt8} {ending : ErrorKind}

/-- The server's side completes for a known id of 1 to 256 bytes. -/
theorem syncServed_ok {stored sessionKey : List UInt8} (hlaw : keys.exchange.Lawful)
    (hne : key.id ≠ "") (hmax : (Utf8.asBytes key.id).length ≤ 256)
    (hstored : keys.keyStore key.id = some stored)
    (hkey : agreedKey keys secret stored = .ok sessionKey) :
    syncServed describe keys now sid secret key more ending =
      (.ok (.new now sid key.id sessionKey, ⟨more, ending⟩),
        ⟨Server.helloReply keys sid, none⟩) := by
  have hpositive : (Utf8.asBytes key.id).length ≠ 0 := fun hzero =>
    hne (asBytes_eq_nil_iff.mp (List.eq_nil_of_length_eq_zero hzero))
  have hlength : (UInt16.ofNat (Utf8.asBytes key.id).length).toNat =
      (Utf8.asBytes key.id).length := by
    apply UInt16.toNat_ofNat_of_lt'
    change _ < 65536
    omega
  have hlen : UInt16.ofNat (Utf8.asBytes key.id).length ≠ 0 := by
    intro hzero
    rw [hzero] at hlength
    exact hpositive hlength.symm
  rw [agreedKey, sharedSecret, hlaw.diffieHellman_comm] at hkey
  refine negotiateServer_ok_iff.mpr ⟨key.id, keys.exchange.publicKey secret, stored, sessionKey,
    ?_, hstored, hkey, rfl, rfl⟩
  refine Server.readKeyAndPub_of_named hlen ?_ hlength.symm (hlaw.length_publicKey secret) ?_ rfl
  · rwa [hlength]
  · rfl

/-- Of the server's reply the client makes its session. -/
theorem syncDialed_ok {sessionKey : List UInt8} (describe : ErrorKind → String) (now : Instant)
    (sid : UInt64) (more : List UInt8) (ending : ErrorKind) (hlaw : keys.exchange.Lawful)
    (hkey : agreedKey keys secret key.secret = .ok sessionKey) :
    (syncDialed describe keys.exchange now secret key (Server.helloReply keys sid) more ending).1 =
      .ok (.new now sid key.id sessionKey, ⟨more, ending⟩) := by
  have hpub := hlaw.length_publicKey keys.serverPriv
  have hread : Stream.Source.readExact (⟨Server.helloReply keys sid ++ more, ending⟩ : Frame.Source)
      (pubKeySize + 8) = .ok (Server.helloReply keys sid, ⟨more, ending⟩) :=
    Source.readExact_append (Server.length_helloReply hlaw sid) more ending
  have hok : syncDialed describe keys.exchange now secret key (Server.helloReply keys sid) more
      ending = (.ok (.new now sid key.id sessionKey, ⟨more, ending⟩),
        ⟨syncHello keys.exchange secret key, none⟩) := by
    refine negotiateClient_ok_iff.mpr ⟨rfl, _, sessionKey, hread, ?_, ?_⟩
    · rw [Server.helloReply, List.take_left' hpub]
      exact hkey
    · rw [Server.helloReply, List.drop_left' hpub, u64.fromBeBytes_toBeBytes]
  rw [hok]

/-- What the server took for the id is the id, if it is as long: the length is not cut. -/
theorem syncServed_named {server : Session} {rest : Source} {send : Sink}
    (hlaw : keys.exchange.Lawful)
    (h : syncServed describe keys now sid secret key more ending = (.ok (server, rest), send))
    (hsame : server.apiKeyId = key.id) :
    key.id ≠ "" ∧ (Utf8.asBytes key.id).length ≤ 256 ∧ ∃ stored sessionKey,
      keys.keyStore key.id = some stored ∧ agreedKey keys secret stored = .ok sessionKey ∧
        server = .new now sid key.id sessionKey ∧ send.written = Server.helloReply keys sid := by
  obtain ⟨apiKeyId, clientPub, stored, sessionKey, hread, hstored, hkey, rfl, hwrite⟩ :=
    negotiateServer_ok_iff.mp h
  obtain rfl : apiKeyId = key.id := hsame
  obtain ⟨keyLen, keyId, hne, hmax, hkeyId, hpub, hutf8, hbytes, -⟩ := readKeyAndPub_ok_iff.mp hread
  obtain rfl := Utf8.fromUtf8_eq_some_iff.mp hutf8
  dsimp only [syncHello] at hbytes
  rw [List.append_assoc, List.append_assoc] at hbytes
  obtain ⟨-, hbody⟩ := List.append_inj hbytes (by simp)
  obtain ⟨-, hpubs⟩ := List.append_inj hbody rfl
  obtain ⟨rfl, -⟩ := List.append_inj hpubs ((hlaw.length_publicKey secret).trans hpub.symm)
  refine ⟨?_, hkeyId ▸ hmax, stored, sessionKey, hstored, ?_, rfl, ?_⟩
  · intro hempty
    rw [hempty] at hkeyId
    exact hne (UInt16.toNat_inj.mp hkeyId.symm)
  · rw [agreedKey, sharedSecret, hlaw.diffieHellman_comm]
    exact hkey
  · obtain ⟨part, -, hwritten, hall⟩ := Sink.writeAll_takes hwrite
    rw [hwritten, hall rfl]
    rfl

variable {now' : Instant} {more' : List UInt8} {ending' : ErrorKind}

/-- Sides that hold the same session know the same id, whole. -/
theorem known_of_sameSession {served dialed : Except SessionError (Session × Source) × Sink}
    (hlaw : keys.exchange.Lawful)
    (hserved : syncServed describe keys now sid secret key more ending = served)
    (hdialed : syncDialed describe keys.exchange now' secret key served.2.written more' ending' =
      dialed) (h : SameSession dialed.1 served.1) :
    key.id ≠ "" ∧ (Utf8.asBytes key.id).length ≤ 256 ∧ ∃ stored,
      keys.keyStore key.id = some stored ∧
        agreedKey keys secret stored = agreedKey keys secret key.secret := by
  obtain ⟨client, server, rest, rest', hclient, hserver, -, hids, hkeys⟩ := h
  have hid : client.apiKeyId = key.id := by
    obtain ⟨-, resp, sessionKey, -, -, rfl⟩ :=
      negotiateClient_ok_iff.mp (hdialed.trans (Prod.ext hclient rfl))
    rfl
  obtain ⟨hne, hmax, stored, sessionKey, hstored, hkey, rfl, hwritten⟩ :=
    syncServed_named hlaw (hserved.trans (Prod.ext hserver rfl)) (hids.symm.trans hid)
  refine ⟨hne, hmax, stored, hstored, ?_⟩
  -- the reply was the server's, so the client's key is the one of its own secret
  obtain ⟨own, hown⟩ := deriveSessionKey_isOk hlaw
    (sharedSecret keys.exchange secret (keys.exchange.publicKey keys.serverPriv)) key.secret
  have hmade := syncDialed_ok describe now' sid more' ending' hlaw hown
  rw [← hwritten, hdialed, hclient] at hmade
  obtain rfl : client = .new now' sid key.id own :=
    congrArg Prod.fst (Except.ok.inj hmade)
  obtain rfl : own = sessionKey := hkeys
  exact hkey.trans hown.symm

theorem sameSession_of_known {served dialed : Except SessionError (Session × Source) × Sink}
    {stored : List UInt8} (hlaw : keys.exchange.Lawful)
    (hserved : syncServed describe keys now sid secret key more ending = served)
    (hdialed : syncDialed describe keys.exchange now' secret key served.2.written more' ending' =
      dialed) (hne : key.id ≠ "") (hmax : (Utf8.asBytes key.id).length ≤ 256)
    (hstored : keys.keyStore key.id = some stored)
    (hsame : agreedKey keys secret stored = agreedKey keys secret key.secret) :
    SameSession dialed.1 served.1 := by
  obtain ⟨own, hown⟩ := deriveSessionKey_isOk hlaw
    (sharedSecret keys.exchange secret (keys.exchange.publicKey keys.serverPriv)) key.secret
  obtain rfl := hserved.symm.trans (syncServed_ok hlaw hne hmax hstored (hsame.trans hown))
  obtain rfl := hdialed
  exact ⟨_, _, _, _, syncDialed_ok _ _ _ _ _ hlaw hown, rfl, rfl, rfl, rfl⟩

/-- The two sides of a sync handshake hold the same session exactly under an id of 1 to 256 bytes
that the server knows, if the secret it keeps makes the same key as the client's. -/
theorem sync_sides_agree_iff (describe : ErrorKind → String) (keys : ServerKeys)
    (hlaw : keys.exchange.Lawful) (now now' : Instant) (sid : UInt64) (secret : List UInt8)
    (key : ApiKey) (more more' : List UInt8) (ending ending' : ErrorKind) :
    let served := syncServed describe keys now sid secret key more ending
    let dialed := syncDialed describe keys.exchange now' secret key served.2.written more' ending'
    SameSession dialed.1 served.1 ↔
      key.id ≠ "" ∧ (Utf8.asBytes key.id).length ≤ 256 ∧ ∃ stored,
        keys.keyStore key.id = some stored ∧
          agreedKey keys secret stored = agreedKey keys secret key.secret := by
  intro served dialed
  constructor
  · intro h
    exact known_of_sameSession hlaw rfl rfl h
  · rintro ⟨hne, hmax, stored, hstored, hsame⟩
    exact sameSession_of_known hlaw rfl rfl hne hmax hstored hsame

/-- A known key, with bytes of the session right after the reply. -/
theorem sync_sides_agree_iff_known :
    SameSession
        (syncDialed (fun _ => "eof") sumExchange 8 [5] ⟨"a", [1]⟩
          (syncServed (fun _ => "eof") (knowing "a").keys 5 7 [5] ⟨"a", [1]⟩ []
            .unexpectedEof).2.written [3] .unexpectedEof).1
        (syncServed (fun _ => "eof") (knowing "a").keys 5 7 [5] ⟨"a", [1]⟩ [] .unexpectedEof).1 :=
  (sync_sides_agree_iff (fun _ => "eof") (knowing "a").keys sumExchange_lawful 5 8 7 [5] ⟨"a", [1]⟩
    [] [3] .unexpectedEof .unexpectedEof).mpr ⟨by decide, by decide, [1], rfl, rfl⟩

/-! ### Generated keys -/

/-- What the operating system's generator gives for one key. -/
structure KeyBytes where
  secret : List UInt8
  idBytes : List UInt8
  length_secret : secret.length = 32
  length_idBytes : idBytes.length = 8
  deriving DecidableEq

def ApiKey.generate (drawn : KeyBytes) : ApiKey := ⟨Hex.encode drawn.idBytes, drawn.secret⟩

/-- A hash map of secrets by key id. -/
structure MapKeyStore where
  keys : String → Option (List UInt8)

namespace MapKeyStore

def new : MapKeyStore := ⟨fun _ => none⟩

def insert (store : MapKeyStore) (id : String) (secret : List UInt8) : MapKeyStore :=
  ⟨fun other => if other = id then some secret else store.keys other⟩

def get (store : MapKeyStore) (id : String) : Option (List UInt8) := store.keys id

/-- Generated keys entered one after the other. -/
def enroll (store : MapKeyStore) (drawn : List KeyBytes) : MapKeyStore :=
  drawn.foldl (fun store drawn =>
    store.insert (ApiKey.generate drawn).id (ApiKey.generate drawn).secret) store

/-- The store keeps the last secret entered under an id. -/
theorem get_enroll (store : MapKeyStore) (enrolled : List KeyBytes) (drawn : KeyBytes) :
    (store.enroll enrolled).get (ApiKey.generate drawn).id =
      ((enrolled.reverse.find? fun other => other.idBytes = drawn.idBytes).map
        KeyBytes.secret).or (store.get (ApiKey.generate drawn).id) := by
  induction enrolled generalizing store with
  | nil => rfl
  | cons first rest ih =>
    have hid : (ApiKey.generate drawn).id = (ApiKey.generate first).id ↔
        first.idBytes = drawn.idBytes :=
      ⟨fun h => (Hex.encode_injective h).symm, fun h => congrArg Hex.encode h.symm⟩
    have hfirst : (store.insert (ApiKey.generate first).id (ApiKey.generate first).secret).get
        (ApiKey.generate drawn).id =
          if first.idBytes = drawn.idBytes then some first.secret
          else store.get (ApiKey.generate drawn).id := by
      change (if (ApiKey.generate drawn).id = (ApiKey.generate first).id then _ else _) = _
      rw [if_congr hid rfl rfl]
      rfl
    change ((store.insert _ _).enroll rest).get _ = _
    rw [ih, hfirst, List.reverse_cons, List.find?_append]
    by_cases h : first.idBytes = drawn.idBytes <;>
      cases rest.reverse.find? (fun other => other.idBytes = drawn.idBytes) <;> simp [h]

end MapKeyStore

/-- A generated id is 16 bytes of hexadecimal text. -/
theorem length_generate_id (drawn : KeyBytes) :
    (Utf8.asBytes (ApiKey.generate drawn).id).length = 16 := by
  rw [ApiKey.generate, Hex.length_asBytes_encode, drawn.length_idBytes]

theorem generate_id_ne_empty (drawn : KeyBytes) : (ApiKey.generate drawn).id ≠ "" := by
  intro hempty
  have hlength := length_generate_id drawn
  rw [hempty] at hlength
  exact absurd hlength (by decide)

/-- With the keys of a `MapKeyStore` into which generated keys were entered, whatever their number,
a generated key makes the same session on both sides exactly if some key of its id was entered and
the last such one makes the same session key. -/
theorem generated_keys_agree (describe : ErrorKind → String) (exchange : KeyExchange)
    (hlaw : exchange.Lawful) (serverPriv : List UInt8) (enrolled : List KeyBytes)
    (drawn : KeyBytes) (now now' : Instant) (sid : UInt64) (secret more more' : List UInt8)
    (ending ending' : ErrorKind) :
    let keys : ServerKeys := ⟨exchange, serverPriv, (MapKeyStore.new.enroll enrolled).get⟩
    let key := ApiKey.generate drawn
    let served := syncServed describe keys now sid secret key more ending
    let dialed := syncDialed describe exchange now' secret key served.2.written more' ending'
    SameSession dialed.1 served.1 ↔ ∃ last,
      (enrolled.reverse.find? fun other => other.idBytes = drawn.idBytes) = some last ∧
        agreedKey keys secret last.secret = agreedKey keys secret drawn.secret := by
  intro keys key served dialed
  have hstored : keys.keyStore key.id =
      (enrolled.reverse.find? fun other => other.idBytes = drawn.idBytes).map
        KeyBytes.secret := by
    change (MapKeyStore.new.enroll enrolled).get _ = _
    rw [MapKeyStore.get_enroll]
    exact Option.or_none
  constructor
  · intro h
    obtain ⟨-, -, stored, hknown, hsame⟩ :=
      @known_of_sameSession describe keys now sid secret key more ending now' more' ending' _ _
        hlaw rfl rfl h
    rw [hstored] at hknown
    obtain ⟨last, hlast, rfl⟩ := Option.map_eq_some_iff.mp hknown
    exact ⟨last, hlast, hsame⟩
  · rintro ⟨last, hlast, hsame⟩
    have hknown : keys.keyStore key.id = some last.secret := by
      rw [hstored, hlast]
      rfl
    have hlength : (Utf8.asBytes key.id).length = 16 := length_generate_id drawn
    exact @sameSession_of_known describe keys now sid secret key more ending now' more' ending' _ _
      _ hlaw rfl rfl (generate_id_ne_empty drawn) (by omega) hknown hsame

def drawnKey (b : UInt8) : KeyBytes := ⟨List.replicate 32 b, List.replicate 8 7, rfl, rfl⟩

/-- Two keys entered under one id. -/
def twiceEnrolled : ServerKeys :=
  ⟨sumExchange, [9], (MapKeyStore.new.enroll [drawnKey 1, drawnKey 2]).get⟩

/-- The second takes the place of the first. -/
theorem generated_keys_agree_replaced :
    ¬SameSession
      (syncDialed (fun _ => "eof") sumExchange 8 [5] (ApiKey.generate (drawnKey 1))
        (syncServed (fun _ => "eof") twiceEnrolled 5 7 [5] (ApiKey.generate (drawnKey 1)) []
          .unexpectedEof).2.written [] .unexpectedEof).1
      (syncServed (fun _ => "eof") twiceEnrolled 5 7 [5] (ApiKey.generate (drawnKey 1)) []
        .unexpectedEof).1 := by
  have hiff := generated_keys_agree (fun _ => "eof") sumExchange sumExchange_lawful [9]
    [drawnKey 1, drawnKey 2] (drawnKey 1) 5 8 7 [5] [] [] .unexpectedEof .unexpectedEof
  have hlast : ([drawnKey 1, drawnKey 2].reverse.find?
      fun other => other.idBytes = (drawnKey 1).idBytes) = some (drawnKey 2) := by decide +kernel
  have hkeys : agreedKey twiceEnrolled [5] (drawnKey 2).secret ≠
      agreedKey twiceEnrolled [5] (drawnKey 1).secret := by decide +kernel
  intro h
  obtain ⟨last, hfound, hsame⟩ := hiff.mp h
  obtain rfl := Option.some.inj (hlast.symm.trans hfound)
  exact hkeys hsame

end Hush.Client
