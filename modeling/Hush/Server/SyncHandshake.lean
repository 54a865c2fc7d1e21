import Hush.Client.Agreement
import Hush.Session.Negotiate

/-! The sync handshake against those of the connection handlers: three readers of
one hello, with different guards on the key length and the key id. -/
namespace Hush.Server

open Hush.Foundation BigEndian Stream
open Hush.Frame Hush.Session

/-- `negotiate_server` with the keys that the connection handlers have. -/
def syncHandshake (describe : ErrorKind → String) (keys : ServerKeys) (now : Instant)
    (sessionId : UInt64) (recv : Source) (send : Sink) :
    Except SessionError (Session × Source) × Sink :=
  negotiateServer describe keys.exchange now keys.serverPriv
    (keys.exchange.publicKey keys.serverPriv) keys.keyStore sessionId recv send

/-- Both fail, or both succeed with the same bytes unread, the same reply of 40
bytes written and the same session. -/
def SameOutcome (now : Instant) (sessionId : UInt64) (send : Sink)
    (sync : Except SessionError (Session × Source) × Sink)
    (async : Except ServerError (Established × Source) × Sink) : Prop :=
  match sync, async with
  | (.error _, _), (.error _, _) => True
  | (.ok (sess, rest), w), (.ok (est, rest'), w') => rest = rest' ∧ w = w' ∧
    (∃ reply, reply.length = 40 ∧ w.written = send.written ++ reply) ∧
      sess = .new now sessionId est.apiKeyId est.sessionKey
  | _, _ => False

/-- A complete hello that only the connection handlers accept: an anonymous one,
or one whose key id is no UTF-8 and is known to the key store in its lossy reading. -/
inductive AsyncOnly (keyStore : String → Option (List UInt8)) : List UInt8 → Prop where
  | anonymous {clientPub rest : List UInt8} : clientPub.length = 32 →
      AsyncOnly keyStore (u16.toBeBytes 0 ++ (clientPub ++ rest))
  | notUtf8 {keyLen : UInt16} {keyId clientPub rest secret : List UInt8} : keyLen ≠ 0 →
      keyLen.toNat ≤ 256 → keyId.length = keyLen.toNat → clientPub.length = 32 →
      Utf8.fromUtf8 keyId = none → keyStore (Utf8.fromUtf8Lossy keyId) = some secret →
      AsyncOnly keyStore (u16.toBeBytes keyLen ++ (keyId ++ (clientPub ++ rest)))

theorem readHello_ok_iff {tr : Transport} {recv rest : Source} {hello : Hello} :
    readHello tr recv = .ok (hello, rest) ↔
      ∃ wire, HelloWire wire hello ∧ recv.bytes = wire ++ rest.bytes ∧ rest.ending = recv.ending := by
  constructor
  · intro h
    obtain ⟨wire, hbytes, hhello⟩ := helloWire_of_readHello h
    refine ⟨wire, hhello, hbytes, ?_⟩
    have hread := readHello_helloWire hhello tr rest.bytes recv.ending
    rw [← hbytes, h] at hread
    simp only [Except.ok.injEq, Prod.mk.injEq, true_and] at hread
    rw [hread]
  · rintro ⟨wire, hhello, hbytes, hending⟩
    obtain ⟨bytes, ending⟩ := recv
    obtain ⟨restBytes, restEnding⟩ := rest
    dsimp only at hbytes hending
    obtain rfl := hbytes
    obtain rfl := hending
    exact readHello_helloWire hhello tr restBytes restEnding

/-- A completed handshake, part by part. -/
theorem handshake_ok_iff {tr : Transport} {keys : ServerKeys} {sessionId : UInt64}
    {recv rest : Source} {send send' : Sink} {est : Established} :
    handshake tr keys sessionId recv send = (.ok (est, rest), send') ↔
      ∃ hello secret, readHello tr recv = .ok (hello, rest) ∧
        selectSecret keys hello = .ok (est.apiKeyId, secret) ∧
        deriveSessionKey keys.exchange
          (sharedSecretStatic keys.exchange keys.serverPriv hello.clientPub) secret =
            .ok est.sessionKey ∧
        send.writeAll (helloReply keys sessionId) = (.ok (), send') := by
  constructor
  · intro h
    obtain ⟨hello, secret, hhello, hsecret, hkey⟩ := handshake_ok (congrArg Prod.fst h)
    refine ⟨hello, secret, hhello, hsecret, hkey, ?_⟩
    unfold handshake at h
    simp only [hhello, hsecret, hkey, bind, Except.bind, pure, Except.pure, Except.mapError] at h
    split at h
    · cases h
    · rename_i hwrite
      rw [hwrite]
      simp only [Prod.mk.injEq] at h ⊢
      exact ⟨trivial, h.2⟩
  · rintro ⟨hello, secret, hhello, hsecret, hkey, hwrite⟩
    unfold handshake
    simp only [hhello, hsecret, hkey, hwrite, bind, Except.bind, pure, Except.pure, Except.mapError]

theorem length_helloReply {keys : ServerKeys} (hlaw : keys.exchange.Lawful) (sessionId : UInt64) :
    (helloReply keys sessionId).length = 40 := by
  unfold helloReply
  rw [List.length_append, hlaw.length_publicKey, u64.length_toBeBytes, pubKeySize]

/-- A hello cannot be read by one rule and by the other. -/
theorem not_asyncOnly_of_readKeyAndPub {describe : ErrorKind → String}
    {keyStore : String → Option (List UInt8)} {recv rest : Source} {apiKeyId : String}
    {clientPub : List UInt8} (h : readKeyAndPub describe recv = .ok ((apiKeyId, clientPub), rest)) :
    ¬AsyncOnly keyStore recv.bytes := by
  obtain ⟨keyLen, keyId, hne, -, hkeyId, -, hutf8, hbytes, -⟩ := readKeyAndPub_ok_iff.mp h
  rw [hbytes]
  intro honly
  generalize hsame : u16.toBeBytes keyLen ++ (keyId ++ (clientPub ++ rest.bytes)) = bytes at honly
  cases honly with
  | anonymous _ =>
    have hheader := (List.append_inj hsame (by simp)).1
    exact hne (u16.toBeBytes_inj hheader)
  | @notUtf8 keyLen' keyId' _ _ _ _ _ hkeyId' _ hnone _ =>
    obtain ⟨hheader, hbody⟩ := List.append_inj hsame (by simp)
    obtain rfl := u16.toBeBytes_inj hheader
    obtain ⟨rfl, -⟩ := List.append_inj hbody (hkeyId.trans hkeyId'.symm)
    rw [hutf8] at hnone
    cases hnone

variable {keys : ServerKeys} {sessionId : UInt64} {recv : Source} {send : Sink}

/-- Whatever the sync handshake completes, the handlers' handshake completes alike. -/
theorem handshake_of_negotiateServer {describe : ErrorKind → String} {now : Instant} {rest : Source}
    {send' : Sink} {sess : Session}
    (h : syncHandshake describe keys now sessionId recv send = (.ok (sess, rest), send'))
    (tr : Transport) :
    ∃ est, handshake tr keys sessionId recv send = (.ok (est, rest), send') ∧
      sess = .new now sessionId est.apiKeyId est.sessionKey ∧
        ¬AsyncOnly keys.keyStore recv.bytes := by
  obtain ⟨apiKeyId, clientPub, secret, sessionKey, hread, hstore, hkey, rfl, hwrite⟩ :=
    negotiateServer_ok_iff.mp h
  obtain ⟨keyLen, keyId, hne, hmax, hkeyId, hpub, hutf8, hbytes, hending⟩ :=
    readKeyAndPub_ok_iff.mp hread
  obtain rfl := Utf8.fromUtf8_eq_some_iff.mp hutf8
  refine ⟨⟨apiKeyId, sessionKey⟩, handshake_ok_iff.mpr ?_, rfl, not_asyncOnly_of_readKeyAndPub hread⟩
  refine ⟨⟨some apiKeyId, clientPub⟩, secret, ?_, ?_, hkey, hwrite⟩
  · refine readHello_ok_iff.mpr ⟨u16.toBeBytes keyLen ++ (Utf8.asBytes apiKeyId ++ clientPub), ?_,
      ?_, hending⟩
    · have hwire := HelloWire.named hne hmax hkeyId hpub
      rwa [Utf8.fromUtf8Lossy_asBytes] at hwire
    · rw [hbytes, List.append_assoc, List.append_assoc]
  · unfold selectSecret
    dsimp only
    rw [hstore]

/-- A named hello of the wire is read by the sync handshake when its key id is
UTF-8, and then it is the same hello. -/
theorem readKeyAndPub_of_named {describe : ErrorKind → String} {keyLen : UInt16} {apiKeyId : String}
    {clientPub : List UInt8} {rest : Source} (hne : keyLen ≠ 0) (hmax : keyLen.toNat ≤ 256)
    (hkeyId : (Utf8.asBytes apiKeyId).length = keyLen.toNat) (hpub : clientPub.length = 32)
    (hbytes : recv.bytes = u16.toBeBytes keyLen ++ (Utf8.asBytes apiKeyId ++ clientPub) ++ rest.bytes)
    (hending : rest.ending = recv.ending) :
    readKeyAndPub describe recv = .ok ((apiKeyId, clientPub), rest) := by
  rw [List.append_assoc, List.append_assoc] at hbytes
  exact readKeyAndPub_ok_iff.mpr ⟨keyLen, Utf8.asBytes apiKeyId, hne, hmax, hkeyId, hpub,
    Utf8.fromUtf8_asBytes apiKeyId, hbytes, hending⟩

/-- What the handlers' handshake completes and the sync one does not starts with
a hello that only the handlers accept. -/
theorem asyncOnly_of_handshake {describe : ErrorKind → String} {now : Instant} {tr : Transport}
    {rest : Source} {send' : Sink} {est : Established} {e : SessionError}
    (h : handshake tr keys sessionId recv send = (.ok (est, rest), send'))
    (hsync : (syncHandshake describe keys now sessionId recv send).1 = .error e) :
    AsyncOnly keys.keyStore recv.bytes := by
  obtain ⟨hello, secret, hread, hsecret, hkey, hwrite⟩ := handshake_ok_iff.mp h
  obtain ⟨wire, hhello, hbytes, hending⟩ := readHello_ok_iff.mp hread
  cases hhello with
  | anonymous hpub =>
    rw [hbytes, List.append_assoc]
    exact .anonymous hpub
  | @named keyLen keyId clientPub hne hmax hkeyId hpub =>
    unfold selectSecret at hsecret
    dsimp only at hsecret hkey
    split at hsecret
    · rename_i secret' hstore
      simp only [Except.ok.injEq, Prod.mk.injEq] at hsecret
      obtain ⟨haid, rfl⟩ := hsecret
      cases hutf8 : Utf8.fromUtf8 keyId with
      | none =>
        rw [hbytes, List.append_assoc, List.append_assoc]
        exact .notUtf8 hne hmax hkeyId hpub hutf8 hstore
      | some apiKeyId =>
        -- valid UTF-8 is read alike, so the sync handshake completes too
        obtain rfl := Utf8.fromUtf8_eq_some_iff.mp hutf8
        rw [Utf8.fromUtf8Lossy_asBytes] at hstore
        have hcomplete : syncHandshake describe keys now sessionId recv send =
            (.ok (.new now sessionId apiKeyId est.sessionKey, rest), send') :=
          negotiateServer_ok_iff.mpr ⟨apiKeyId, clientPub, secret', est.sessionKey,
            readKeyAndPub_of_named hne hmax hkeyId hpub hbytes hending, hstore, hkey, rfl, hwrite⟩
        rw [hcomplete] at hsync
        cases hsync
    · cases hsecret

/-- The handlers complete such a hello, if the client takes the reply. -/
theorem handshake_of_asyncOnly (hlaw : keys.exchange.Lawful) (tr : Transport)
    (honly : AsyncOnly keys.keyStore recv.bytes) (htakes : send.Takes 40) :
    ∃ est rest send', handshake tr keys sessionId recv send = (.ok (est, rest), send') := by
  have hreply := length_helloReply hlaw sessionId
  rw [← hreply] at htakes
  obtain ⟨send', hwrite⟩ := Sink.takes_iff_writeAll.mp htakes
  have hcomplete {hello : Hello} {wire rest secret : List UInt8} {aid : String}
      (hhello : HelloWire wire hello) (hbytes : recv.bytes = wire ++ rest)
      (hsecret : selectSecret keys hello = .ok (aid, secret)) :
      ∃ est rest send', handshake tr keys sessionId recv send = (.ok (est, rest), send') := by
    obtain ⟨sessionKey, hkey⟩ := deriveSessionKey_isOk hlaw
      (sharedSecretStatic keys.exchange keys.serverPriv hello.clientPub) secret
    exact ⟨⟨aid, sessionKey⟩, ⟨rest, recv.ending⟩, send', handshake_ok_iff.mpr ⟨hello, secret,
      readHello_ok_iff.mpr ⟨wire, hhello, hbytes, rfl⟩, hsecret, hkey, hwrite⟩⟩
  generalize hbytes : recv.bytes = bytes at honly
  cases honly with
  | anonymous hpub =>
    rw [← List.append_assoc] at hbytes
    exact hcomplete (.anonymous hpub) hbytes rfl
  | @notUtf8 keyLen keyId clientPub rest secret hne hmax hkeyId hpub _ hstore =>
    have hsecret : selectSecret keys ⟨some (Utf8.fromUtf8Lossy keyId), clientPub⟩ =
        .ok (Utf8.fromUtf8Lossy keyId, secret) := by
      unfold selectSecret
      dsimp only
      rw [hstore]
    rw [← List.append_assoc (u16.toBeBytes _), ← List.append_assoc (u16.toBeBytes _ ++ _),
      List.append_assoc (u16.toBeBytes _)] at hbytes
    exact hcomplete (.named hne hmax hkeyId hpub) hbytes hsecret

theorem sameOutcome_iff (describe : ErrorKind → String) (hlaw : keys.exchange.Lawful)
    (now : Instant) (tr : Transport) :
    SameOutcome now sessionId send (syncHandshake describe keys now sessionId recv send)
        (handshake tr keys sessionId recv send) ↔
      ¬(AsyncOnly keys.keyStore recv.bytes ∧ send.Takes 40) := by
  cases hsync : syncHandshake describe keys now sessionId recv send with
  | mk result w =>
    cases result with
    | ok done =>
      obtain ⟨sess, rest⟩ := done
      obtain ⟨est, hasync, hsess, hnot⟩ := handshake_of_negotiateServer hsync tr
      obtain ⟨-, -, -, -, -, hwrite⟩ := handshake_ok_iff.mp hasync
      obtain ⟨part, -, hwritten, hall⟩ := Sink.writeAll_takes hwrite
      obtain rfl := hall rfl
      rw [hasync]
      exact iff_of_true ⟨rfl, rfl, ⟨_, length_helloReply hlaw sessionId, hwritten⟩, hsess⟩
        fun honly => hnot honly.1
    | error e =>
      cases hasync : handshake tr keys sessionId recv send with
      | mk result' w' =>
        cases result' with
        | ok done =>
          obtain ⟨est, rest⟩ := done
          obtain ⟨-, -, -, -, -, hwrite⟩ := handshake_ok_iff.mp hasync
          have honly := asyncOnly_of_handshake hasync (congrArg Prod.fst hsync)
          have htakes := Sink.takes_iff_writeAll.mpr ⟨w', hwrite⟩
          rw [length_helloReply hlaw] at htakes
          exact iff_of_false id fun hnot => hnot ⟨honly, htakes⟩
        | error e' =>
          refine iff_of_true trivial ?_
          rintro ⟨honly, htakes⟩
          obtain ⟨est, rest, send', hdone⟩ := handshake_of_asyncOnly hlaw tr honly htakes
          rw [hasync] at hdone
          cases hdone

/-- The sync handshake and those of the connection handlers come to the same,
except where a hello that only the handlers accept is complete and the client
takes the reply: there the handlers' succeed and the sync one fails. -/
theorem handshakes_agree_iff (describe : ErrorKind → String) (keys : ServerKeys)
    (hlaw : keys.exchange.Lawful) (now : Instant) (sessionId : UInt64) (recv : Source)
    (send : Sink) :
    (SameOutcome now sessionId send (syncHandshake describe keys now sessionId recv send)
        (quicHandshake keys sessionId recv send) ↔
      ¬(AsyncOnly keys.keyStore recv.bytes ∧ send.Takes 40)) ∧
    (SameOutcome now sessionId send (syncHandshake describe keys now sessionId recv send)
        (tcpHandshake keys sessionId recv send) ↔
      ¬(AsyncOnly keys.keyStore recv.bytes ∧ send.Takes 40)) :=
  ⟨sameOutcome_iff describe hlaw now .quic, sameOutcome_iff describe hlaw now .tcp⟩

/-- An anonymous hello. -/
theorem handshakes_agree_iff_anonymous :
    SameOutcome 5 1 .vec
        (syncHandshake (fun _ => "eof") (Client.knowing "a").keys 5 1
          ⟨anonymousHello 1, .unexpectedEof⟩ .vec)
        (tcpHandshake (Client.knowing "a").keys 1 ⟨anonymousHello 1, .unexpectedEof⟩ .vec) ↔
      ¬(AsyncOnly (Client.knowing "a").keys.keyStore (anonymousHello 1) ∧ (Sink.vec : Frame.Sink).Takes 40) :=
  (handshakes_agree_iff (fun _ => "eof") (Client.knowing "a").keys Client.sumExchange_lawful 5 1 _ _).2

/-- The handlers establish the anonymous session, the sync handshake refuses it. -/
theorem anonymous_refused_by_sync :
    ¬SameOutcome 5 1 .vec
        (syncHandshake (fun _ => "eof") (Client.knowing "a").keys 5 1
          ⟨anonymousHello 1, .unexpectedEof⟩ .vec)
        (tcpHandshake (Client.knowing "a").keys 1 ⟨anonymousHello 1, .unexpectedEof⟩ .vec) ∧
      (syncHandshake (fun _ => "eof") (Client.knowing "a").keys 5 1
        ⟨anonymousHello 1, .unexpectedEof⟩ .vec).1 = .error (.crypto "invalid key length") := by
  constructor
  · rw [show tcpHandshake = handshake .tcp from rfl, sameOutcome_iff _ Client.sumExchange_lawful]
    intro hnot
    refine hnot ⟨@AsyncOnly.anonymous _ (List.replicate 32 1) [] rfl, ?_⟩
    intro room e hroom
    cases hroom
  · rfl

end Hush.Server
