import Hush.Frame.Codec
import Hush.Session.Crypto
import Hush.Session.Store

/-! `negotiate_server` of `session.rs`, the server's handshake over a blocking
stream. What an I/O error prints is left open. -/
namespace Hush.Session

open Hush.Foundation BigEndian
open Hush.Frame (ErrorKind Source Sink)

/-- Compute ECDH shared secret. -/
def sharedSecret (exchange : KeyExchange) (privKey pubKey : List UInt8) : List UInt8 :=
  exchange.diffieHellman privKey pubKey

/-- The hello as `negotiate_server` reads it: the key id has at least one byte and
is UTF-8. -/
def readKeyAndPub (describe : ErrorKind → String) (recv : Source) :
    Except SessionError ((String × List UInt8) × Source) :=
  match recv.readExact 2 with
  | .error e => .error (.crypto s!"read header: {describe e}")
  | .ok (header, recv) =>
    let keyLen := (u16.fromBeBytes header).toNat
    if keyLen = 0 ∨ 256 < keyLen then .error (.crypto "invalid key length")
    else
      match recv.readExact (keyLen + pubKeySize) with
      | .error e => .error (.crypto s!"read key+pub: {describe e}")
      | .ok (keyBuf, recv) =>
        match Utf8.fromUtf8 (keyBuf.take keyLen) with
        | none => .error (.crypto "invalid utf-8 key id")
        | some apiKeyId => .ok ((apiKeyId, keyBuf.drop keyLen), recv)

/-- Server-side handshake (sync). -/
def negotiateServer (describe : ErrorKind → String) (exchange : KeyExchange) (now : Instant)
    (serverSecret serverPublic : List UInt8) (keyStore : String → Option (List UInt8))
    (nextId : UInt64) (recv : Source) (send : Sink) :
    Except SessionError (Session × Source) × Sink :=
  let derived := do
    let ((apiKeyId, clientPub), recv) ← readKeyAndPub describe recv
    match keyStore apiKeyId with
    | none => .error (.crypto s!"unknown api key id '{apiKeyId}'")
    | some apiKeySecret =>
      let shared := sharedSecret exchange serverSecret clientPub
      let sessionKey ← deriveSessionKey exchange shared apiKeySecret
      return (Session.new now nextId apiKeyId sessionKey, recv)
  match derived with
  | .error e => (.error e, send)
  | .ok result =>
    match send.writeAll (serverPublic ++ u64.toBeBytes nextId) with
    | (.error e, send) => (.error (.crypto s!"write response: {describe e}"), send)
    | (.ok (), send) => (.ok result, send)

theorem readKeyAndPub_ok_iff {describe : ErrorKind → String} {recv rest : Source}
    {apiKeyId : String} {clientPub : List UInt8} :
    readKeyAndPub describe recv = .ok ((apiKeyId, clientPub), rest) ↔
      ∃ (keyLen : UInt16) (keyId : List UInt8), keyLen ≠ 0 ∧ keyLen.toNat ≤ 256 ∧
        keyId.length = keyLen.toNat ∧ clientPub.length = 32 ∧ Utf8.fromUtf8 keyId = some apiKeyId ∧
        recv.bytes = u16.toBeBytes keyLen ++ (keyId ++ (clientPub ++ rest.bytes)) ∧
        rest.ending = recv.ending := by
  unfold readKeyAndPub
  constructor
  · intro h
    split at h
    · cases h
    rename_i header mid hheader
    obtain ⟨hlength, hbytes, hending⟩ := Stream.Source.readExact_ok_iff.mp hheader
    dsimp only at h
    rw [← u16.toBeBytes_fromBeBytes hlength] at hbytes
    generalize u16.fromBeBytes header = keyLen at h hbytes
    split at h
    · cases h
    rename_i hrange
    rw [not_or, Nat.not_lt] at hrange
    split at h
    · cases h
    rename_i keyBuf rest' hkeyBuf
    obtain ⟨hbufLength, hrest, hending'⟩ := Stream.Source.readExact_ok_iff.mp hkeyBuf
    split at h
    · cases h
    rename_i apiKeyId' hutf8
    simp only [Except.ok.injEq, Prod.mk.injEq] at h
    obtain ⟨⟨rfl, rfl⟩, rfl⟩ := h
    refine ⟨keyLen, keyBuf.take keyLen.toNat, ?_, hrange.2, ?_, ?_, hutf8, ?_,
      hending'.trans hending⟩
    · rintro rfl
      exact hrange.1 rfl
    · rw [List.length_take, hbufLength]
      omega
    · rw [List.length_drop, hbufLength, pubKeySize]
      omega
    · rw [hbytes, hrest, ← List.append_assoc (keyBuf.take _), List.take_append_drop]
  · rintro ⟨keyLen, keyId, hne, hmax, hkeyId, hpub, hutf8, hbytes, hending⟩
    have hlength : (keyId ++ clientPub).length = keyLen.toNat + pubKeySize := by
      rw [List.length_append, hkeyId, hpub, pubKeySize]
    have hrange : ¬(keyLen.toNat = 0 ∨ 256 < keyLen.toNat) := by
      rw [not_or, Nat.not_lt]
      exact ⟨fun hzero => hne (UInt16.toNat_inj.mp hzero), hmax⟩
    obtain ⟨bytes, ending⟩ := recv
    obtain ⟨restBytes, restEnding⟩ := rest
    dsimp only at hbytes hending
    obtain rfl := hbytes
    obtain rfl := hending
    rw [Stream.Source.readExact_append (u16.length_toBeBytes keyLen)]
    dsimp only
    rw [u16.fromBeBytes_toBeBytes, if_neg hrange, ← List.append_assoc keyId,
      Stream.Source.readExact_append hlength]
    dsimp only
    rw [List.take_left' hkeyId, List.drop_left' hkeyId, hutf8]

/-- A completed negotiation, part by part. -/
theorem negotiateServer_ok_iff {describe : ErrorKind → String} {exchange : KeyExchange}
    {now : Instant} {serverSecret serverPublic : List UInt8}
    {keyStore : String → Option (List UInt8)} {nextId : UInt64} {recv rest : Source}
    {send send' : Sink} {sess : Session} :
    negotiateServer describe exchange now serverSecret serverPublic keyStore nextId recv send =
        (.ok (sess, rest), send') ↔
      ∃ apiKeyId clientPub apiKeySecret sessionKey,
        readKeyAndPub describe recv = .ok ((apiKeyId, clientPub), rest) ∧
        keyStore apiKeyId = some apiKeySecret ∧
        deriveSessionKey exchange (sharedSecret exchange serverSecret clientPub) apiKeySecret =
          .ok sessionKey ∧
        sess = .new now nextId apiKeyId sessionKey ∧
        send.writeAll (serverPublic ++ u64.toBeBytes nextId) = (.ok (), send') := by
  unfold negotiateServer
  dsimp only [bind, Except.bind, pure, Except.pure]
  constructor
  · intro h
    cases hread : readKeyAndPub describe recv with
    | error e => simp [hread] at h
    | ok hello =>
      obtain ⟨⟨apiKeyId, clientPub⟩, rest'⟩ := hello
      simp only [hread] at h
      cases hstore : keyStore apiKeyId with
      | none => simp [hstore] at h
      | some apiKeySecret =>
        simp only [hstore] at h
        cases hkey : deriveSessionKey exchange (sharedSecret exchange serverSecret clientPub)
            apiKeySecret with
        | error e => simp [hkey] at h
        | ok sessionKey =>
          simp only [hkey] at h
          split at h
          · cases h
          · rename_i hwrite
            simp only [Prod.mk.injEq, Except.ok.injEq] at h
            obtain ⟨⟨rfl, rfl⟩, rfl⟩ := h
            exact ⟨apiKeyId, clientPub, apiKeySecret, sessionKey, rfl, hstore, hkey, rfl, hwrite⟩
  · rintro ⟨apiKeyId, clientPub, apiKeySecret, sessionKey, hread, hstore, hkey, rfl, hwrite⟩
    simp only [hread, hstore, hkey, hwrite]

end Hush.Session
