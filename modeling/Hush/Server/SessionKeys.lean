import Hush.Frame.Delivery
import Hush.Server.Handshake

/-! Which handshakes of one server end in the same session key, and what that
means for frames recorded under it. -/
namespace Hush.Server

open Hush.Foundation BigEndian Stream
open Hush.Frame Hush.Session

/-- The bytes of a client hello, and what they say. -/
inductive HelloWire : List UInt8 → Hello → Prop where
  | anonymous {clientPub : List UInt8} : clientPub.length = 32 →
      HelloWire (u16.toBeBytes 0 ++ clientPub) ⟨none, clientPub⟩
  | named {keyLen : UInt16} {keyId clientPub : List UInt8} : keyLen ≠ 0 →
      keyLen.toNat ≤ 256 → keyId.length = keyLen.toNat → clientPub.length = 32 →
      HelloWire (u16.toBeBytes keyLen ++ (keyId ++ clientPub))
        ⟨some (Utf8.fromUtf8Lossy keyId), clientPub⟩

theorem readHello_helloWire {wire : List UInt8} {hello : Hello} (h : HelloWire wire hello)
    (tr : Transport) (rest : List UInt8) (k : ErrorKind) :
    readHello tr ⟨wire ++ rest, k⟩ = .ok (hello, ⟨rest, k⟩) := by
  unfold readHello
  cases h with
  | anonymous hpub =>
    rw [List.append_assoc, Source.readExact_append (u16.length_toBeBytes 0)]
    dsimp only
    rw [u16.fromBeBytes_toBeBytes, if_neg (by decide), if_pos (show UInt16.toNat 0 = 0 from rfl),
      Source.readExact_append hpub]
  | @named keyLen keyId clientPub hne hmax hkeyId hpub =>
    have hlength : (keyId ++ clientPub).length = keyLen.toNat + 32 := by
      rw [List.length_append, hkeyId, hpub]
    have hzero : keyLen.toNat ≠ 0 := by
      intro h
      exact hne (UInt16.toNat_inj.mp h)
    rw [List.append_assoc, Source.readExact_append (u16.length_toBeBytes keyLen)]
    dsimp only
    rw [u16.fromBeBytes_toBeBytes, if_neg (Nat.not_lt.mpr hmax), if_neg hzero,
      Source.readExact_append hlength]
    dsimp only
    rw [List.take_left' hkeyId, List.drop_left' hkeyId]

theorem helloWire_of_readHello {tr : Transport} {recv recv' : Source} {hello : Hello}
    (h : readHello tr recv = .ok (hello, recv')) :
    ∃ wire, recv.bytes = wire ++ recv'.bytes ∧ HelloWire wire hello := by
  unfold readHello at h
  split at h
  · cases h
  · rename_i header mid hheader
    obtain ⟨hlength, hbytes, -⟩ := Source.readExact_ok_iff.mp hheader
    dsimp only at h
    rw [← u16.toBeBytes_fromBeBytes hlength] at hbytes
    generalize u16.fromBeBytes header = keyLen at h hbytes
    split at h
    · cases h
    rename_i hmax
    split at h
    · rename_i hzero
      obtain rfl : keyLen = 0 := UInt16.toNat_inj.mp hzero
      split at h
      · cases h
      · rename_i clientPub rest hpub
        obtain ⟨hpubLength, hrest, -⟩ := Source.readExact_ok_iff.mp hpub
        simp only [Except.ok.injEq, Prod.mk.injEq] at h
        obtain ⟨rfl, rfl⟩ := h
        refine ⟨_, ?_, .anonymous hpubLength⟩
        rw [hbytes, hrest, List.append_assoc]
    · rename_i hnonzero
      split at h
      · cases h
      · rename_i keyBuf rest hkeyBuf
        obtain ⟨hbufLength, hrest, -⟩ := Source.readExact_ok_iff.mp hkeyBuf
        simp only [Except.ok.injEq, Prod.mk.injEq] at h
        obtain ⟨rfl, rfl⟩ := h
        have hkeyId : (keyBuf.take keyLen.toNat).length = keyLen.toNat := by
          rw [List.length_take, hbufLength]
          omega
        have hpubLength : (keyBuf.drop keyLen.toNat).length = 32 := by
          rw [List.length_drop, hbufLength]
          omega
        refine ⟨_, ?_, .named ?_ (Nat.not_lt.mp hmax) hkeyId hpubLength⟩
        · rw [hbytes, hrest, List.append_assoc, List.append_assoc, ← List.append_assoc (keyBuf.take _),
            List.take_append_drop]
        · intro hzero
          exact hnonzero (congrArg UInt16.toNat hzero)

/-- A hello that starts the bytes of another connection is read there as it was. -/
theorem readHello_replayed {tr₁ tr₂ : Transport} {recv₁ rest₁ recv₂ rest₂ : Source}
    {hello₁ hello₂ : Hello} {wire : List UInt8} (h₁ : readHello tr₁ recv₁ = .ok (hello₁, rest₁))
    (h₂ : readHello tr₂ recv₂ = .ok (hello₂, rest₂)) (hwire : recv₁.bytes = wire ++ rest₁.bytes)
    (hreplay : wire <+: recv₂.bytes) : hello₁ = hello₂ := by
  obtain ⟨wire', hwire', hhello⟩ := helloWire_of_readHello h₁
  obtain rfl : wire' = wire := List.append_cancel_right (hwire'.symm.trans hwire)
  obtain ⟨tail, htail⟩ := hreplay
  have hread := readHello_helloWire hhello tr₂ tail recv₂.ending
  rw [htail] at hread
  rw [hread] at h₂
  simp only [Except.ok.injEq, Prod.mk.injEq] at h₂
  exact h₂.1

/-- The session key of a completed handshake, from the hello that was read. -/
theorem sessionKey_of_hello {tr : Transport} {keys : ServerKeys} {sid : UInt64}
    {recv rest : Source} {send : Sink} {est : Established} {hello : Hello} {secret : List UInt8}
    (h : (handshake tr keys sid recv send).1 = .ok (est, rest))
    (hhello : readHello tr recv = .ok (hello, rest))
    (hsecret : selectSecret keys hello = .ok (est.apiKeyId, secret)) :
    deriveSessionKey keys.exchange
      (keys.exchange.diffieHellman keys.serverPriv hello.clientPub) secret =
        .ok est.sessionKey := by
  obtain ⟨hello', secret', hhello', hsecret', hkey⟩ := handshake_ok h
  rw [hhello] at hhello'
  simp only [Except.ok.injEq, Prod.mk.injEq, and_true] at hhello'
  subst hhello'
  rw [hsecret] at hsecret'
  simp only [Except.ok.injEq, Prod.mk.injEq, true_and] at hsecret'
  rwa [hsecret']

/-- A frame of a session is refused under a key that the cipher keeps apart from
the session's own. -/
theorem decodeRequest_other_key {aead : Aead} {key other : List UInt8} {nonce : Nonce}
    {req : Frame.Request} {body : List UInt8} (seq : UInt32)
    (hapart : ∀ text sealed, aead.encrypt key nonce.bytes text = some sealed →
      aead.decrypt other nonce.bytes sealed = none)
    (h : encodeRequestBody aead nonce (some key) req = .ok body) :
    ∃ e, decodeRequest aead (some other) (Frame.body ⟨seq, body⟩) = .error e := by
  have hopen : ∃ e, openBody aead (some other) body = .error e := by
    unfold encodeRequestBody sealBody at h
    dsimp only at h
    match hrun : Session.encrypt aead nonce key
        (appendPayload (u16.toBeBytes req.opcode) req.payload) with
    | .error e =>
      rw [hrun] at h
      cases h
    | .ok out =>
      rw [hrun] at h
      obtain rfl := Except.ok.inj h
      obtain ⟨-, sealed, hsealed, rfl⟩ := Session.encrypt_ok_iff.mp hrun
      have hnone := hapart _ sealed hsealed
      unfold openBody
      dsimp only
      match hdecrypt : Session.decrypt aead other (nonce.bytes ++ sealed) with
      | .error e => exact ⟨_, rfl⟩
      | .ok text =>
        have hsome := (Session.decrypt_ok_iff.mp hdecrypt).2.2
        rw [List.take_left' nonce.length_bytes, List.drop_left' nonce.length_bytes, hnone] at hsome
        cases hsome
  obtain ⟨e, he⟩ := hopen
  refine ⟨e, ?_⟩
  unfold decodeRequest
  rw [parseFrameData_body]
  dsimp only [Except.mapError, bind, Except.bind]
  rw [he]

/-- The keys of two sessions of one server are equal exactly when the hellos
brought the same public key and selected the same secret, whatever the session
ids: so always when the second hello is a replay of the first. Frames recorded in
one session are accepted in the other exactly then. -/
theorem sessionKey_eq_iff (aead : Aead) (hlaw : aead.Lawful) (keys : ServerKeys)
    (tr₁ tr₂ : Transport) (sid₁ sid₂ : UInt64) (recv₁ rest₁ recv₂ rest₂ : Source)
    (send₁ send₂ : Sink) (est₁ est₂ : Established)
    (h₁ : (handshake tr₁ keys sid₁ recv₁ send₁).1 = .ok (est₁, rest₁))
    (h₂ : (handshake tr₂ keys sid₂ recv₂ send₂).1 = .ok (est₂, rest₂))
    (hello₁ hello₂ : Hello) (hhello₁ : readHello tr₁ recv₁ = .ok (hello₁, rest₁))
    (hhello₂ : readHello tr₂ recv₂ = .ok (hello₂, rest₂)) (secret₁ secret₂ : List UInt8)
    (hsecret₁ : selectSecret keys hello₁ = .ok (est₁.apiKeyId, secret₁))
    (hsecret₂ : selectSecret keys hello₂ = .ok (est₂.apiKeyId, secret₂))
    (hexchange : keys.exchange.diffieHellman keys.serverPriv hello₁.clientPub =
      keys.exchange.diffieHellman keys.serverPriv hello₂.clientPub →
        hello₁.clientPub = hello₂.clientPub)
    (hhkdf : deriveSessionKey keys.exchange
        (keys.exchange.diffieHellman keys.serverPriv hello₁.clientPub) secret₁ =
      deriveSessionKey keys.exchange
        (keys.exchange.diffieHellman keys.serverPriv hello₂.clientPub) secret₂ →
          keys.exchange.diffieHellman keys.serverPriv hello₁.clientPub =
            keys.exchange.diffieHellman keys.serverPriv hello₂.clientPub ∧ secret₁ = secret₂)
    (haead : est₁.sessionKey ≠ est₂.sessionKey → ∀ (nonce : Nonce) text sealed,
      aead.encrypt est₁.sessionKey nonce.bytes text = some sealed →
        aead.decrypt est₂.sessionKey nonce.bytes sealed = none) :
    (est₁.sessionKey = est₂.sessionKey ↔
      hello₁.clientPub = hello₂.clientPub ∧ secret₁ = secret₂) ∧
    (∀ wire, recv₁.bytes = wire ++ rest₁.bytes → wire <+: recv₂.bytes →
      est₁.sessionKey = est₂.sessionKey) ∧
    (∀ nonce req body seq frame,
      encodeRequestBody aead nonce (some est₁.sessionKey) req = .ok body →
      encodeFrame seq body = .ok frame →
        ((∃ result, decodeRequest aead (some est₂.sessionKey) (frame.drop 4) = .ok result) ↔
          hello₁.clientPub = hello₂.clientPub ∧ secret₁ = secret₂)) := by
  have hkey₁ := sessionKey_of_hello h₁ hhello₁ hsecret₁
  have hkey₂ := sessionKey_of_hello h₂ hhello₂ hsecret₂
  have hiff : est₁.sessionKey = est₂.sessionKey ↔
      hello₁.clientPub = hello₂.clientPub ∧ secret₁ = secret₂ := by
    constructor
    · intro hkey
      obtain ⟨hshared, hsecret⟩ := hhkdf (by rw [hkey₁, hkey₂, hkey])
      exact ⟨hexchange hshared, hsecret⟩
    · intro hsame
      rw [hsame.1, hsame.2, hkey₂] at hkey₁
      exact (Except.ok.inj hkey₁).symm
  refine ⟨hiff, ?_, ?_⟩
  · intro wire hwire hreplay
    obtain rfl := readHello_replayed hhello₁ hhello₂ hwire hreplay
    rw [hsecret₁] at hsecret₂
    simp only [Except.ok.injEq, Prod.mk.injEq] at hsecret₂
    exact hiff.mpr ⟨rfl, hsecret₂.2⟩
  · intro nonce req body seq frame hbody hframe
    obtain ⟨-, rfl⟩ := encodeFrame_ok_iff.mp hframe
    rw [Frame.drop_bytes, ← hiff]
    constructor
    · intro haccepted
      by_contra hne
      obtain ⟨e, he⟩ := decodeRequest_other_key seq (haead hne nonce) hbody
      obtain ⟨result, hresult⟩ := haccepted
      rw [he] at hresult
      cases hresult
    · intro hkey
      rw [← hkey]
      exact ⟨_, decodeRequest_encodeRequestBody hlaw seq hbody⟩

/-- Sessions over TCP and over QUIC, from different public keys. -/
theorem sessionKey_eq_iff_example :
    (anonymousSession 1).sessionKey = (anonymousSession 2).sessionKey ↔
      List.replicate 32 (1 : UInt8) = List.replicate 32 2 ∧ anonymousSecret = anonymousSecret := by
  have htag : (anonymousSession 1).sessionKey.take tagSize ≠
      (anonymousSession 2).sessionKey.take tagSize := by decide
  refine (sessionKey_eq_iff keyTagAead keyTagAead_lawful exampleKeys .tcp .quic 1 2
    ⟨anonymousHello 1, .wouldBlock⟩ ⟨[], .wouldBlock⟩ ⟨anonymousHello 2, .wouldBlock⟩
    ⟨[], .wouldBlock⟩ .vec .vec (anonymousSession 1) (anonymousSession 2) rfl rfl
    ⟨none, List.replicate 32 1⟩ ⟨none, List.replicate 32 2⟩ rfl rfl anonymousSecret
    anonymousSecret rfl rfl id ?_ ?_).1
  · intro h
    exact absurd (congrArg (List.take tagSize) (Except.ok.inj h)) htag
  · intro _ nonce text sealed hsealed
    obtain rfl := Option.some.inj hsealed
    rw [keyTagAead_decrypt rfl, if_neg htag]

/-- The hello of the first session, replayed to the same server: another session
id, the same key, and a frame recorded in the first session is accepted. -/
theorem replayed_hello_same_key :
    (tcpHandshake exampleKeys 1 ⟨anonymousHello 1, .wouldBlock⟩ .vec).1 =
      .ok (anonymousSession 1, ⟨[], .wouldBlock⟩) ∧
    (tcpHandshake exampleKeys 2 ⟨anonymousHello 1, .wouldBlock⟩ .vec).1 =
      .ok (anonymousSession 1, ⟨[], .wouldBlock⟩) ∧
    ∃ body frame,
      encodeRequestBody keyTagAead ⟨List.replicate 12 7, rfl⟩ (some (anonymousSession 1).sessionKey)
        ⟨5, none⟩ = .ok body ∧
      encodeFrame 9 body = .ok frame ∧
      decodeRequest keyTagAead (some (anonymousSession 1).sessionKey) (frame.drop 4) =
        .ok (⟨5, none⟩, 9) :=
  ⟨rfl, rfl, _, _, rfl, rfl, rfl⟩

end Hush.Server
