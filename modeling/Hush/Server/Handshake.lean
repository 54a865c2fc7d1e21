import Hush.Frame.Message

/-! The handshake of `handle_connection` and `handle_tcp_connection`. The two
have the same text, over transports that report I/O errors differently. -/
namespace Hush.Server

open Hush.Foundation BigEndian
open Hush.Frame Hush.Session

inductive ServerError where
  | config (msg : String)
  | session (e : SessionError)
  | io (kind : ErrorKind)
  deriving DecidableEq, Repr

/-- What a connection handler is given of the server: its static secret, from
which its public key follows, and the key store. -/
structure ServerKeys where
  exchange : KeyExchange
  serverPriv : List UInt8
  keyStore : String → Option (List UInt8)

/-- The kind of I/O error that a failed read and a failed write become. -/
structure Transport where
  readError : ErrorKind → ErrorKind
  writeError : ErrorKind → ErrorKind

/-- Over TCP errors pass unchanged. -/
def Transport.tcp : Transport := ⟨id, id⟩

/-- Over QUIC every failed `read_exact` is an unexpected end and every failed
write a broken pipe; a read that has to wait is no error. -/
def Transport.quic : Transport where
  readError := fun kind => if kind = .wouldBlock then .wouldBlock else .unexpectedEof
  writeError := fun _ => .brokenPipe

/-- A client hello: the API key id, unless it is anonymous, and the public key. -/
structure Hello where
  apiKeyId : Option String
  clientPub : List UInt8
  deriving DecidableEq, Repr

/-- What the handshake leaves behind. -/
structure Established where
  apiKeyId : String
  sessionKey : List UInt8
  deriving DecidableEq, Repr

def readHello (tr : Transport) (recv : Source) : Except ServerError (Hello × Source) :=
  match recv.readExact 2 with
  | .error e => .error (.io (tr.readError e))
  | .ok (header, recv) =>
    let keyLen := (u16.fromBeBytes header).toNat
    if 256 < keyLen then .error (.config "invalid key length")
    else if keyLen = 0 then
      match recv.readExact 32 with
      | .error e => .error (.io (tr.readError e))
      | .ok (clientPub, recv) => .ok (⟨none, clientPub⟩, recv)
    else
      match recv.readExact (keyLen + 32) with
      | .error e => .error (.io (tr.readError e))
      | .ok (keyBuf, recv) =>
        .ok (⟨some (Utf8.fromUtf8Lossy (keyBuf.take keyLen)), keyBuf.drop keyLen⟩, recv)

/-- The secret that every anonymous session is derived from. -/
def anonymousSecret : List UInt8 := Utf8.asBytes "hush-anonymous"

/-- The session's key id and the secret that goes into its key. -/
def selectSecret (keys : ServerKeys) (hello : Hello) :
    Except ServerError (String × List UInt8) :=
  match hello.apiKeyId with
  | none => .ok ("", anonymousSecret)
  | some aid =>
    match keys.keyStore aid with
    | some secret => .ok (aid, secret)
    | none => .error (.config s!"unknown api key '{aid}'")

/-- `server_pub || session_id`. -/
def helloReply (keys : ServerKeys) (sessionId : UInt64) : List UInt8 :=
  keys.exchange.publicKey keys.serverPriv ++ u64.toBeBytes sessionId

/-- Read the hello, derive the session key, write the reply. -/
def handshake (tr : Transport) (keys : ServerKeys) (sessionId : UInt64) (recv : Source)
    (send : Sink) : Except ServerError (Established × Source) × Sink :=
  let derived := do
    let (hello, recv) ← readHello tr recv
    let (aid, secret) ← selectSecret keys hello
    let shared := sharedSecretStatic keys.exchange keys.serverPriv hello.clientPub
    let sessionKey ← (deriveSessionKey keys.exchange shared secret).mapError .session
    return (Established.mk aid sessionKey, recv)
  match derived with
  | .error e => (.error e, send)
  | .ok result =>
    match send.writeAll (helloReply keys sessionId) with
    | (.error e, send) => (.error (.io (tr.writeError e)), send)
    | (.ok (), send) => (.ok result, send)

/-- The handshake of `handle_connection`. -/
def quicHandshake := handshake .quic

/-- The handshake of `handle_tcp_connection`. -/
def tcpHandshake := handshake .tcp

/-- A completed handshake derived the session key from the client's public key
and the selected secret, whatever the session id. -/
theorem handshake_ok {tr : Transport} {keys : ServerKeys} {sessionId : UInt64}
    {recv recv' : Source} {send : Sink} {est : Established}
    (h : (handshake tr keys sessionId recv send).1 = .ok (est, recv')) :
    ∃ hello secret, readHello tr recv = .ok (hello, recv') ∧
      selectSecret keys hello = .ok (est.apiKeyId, secret) ∧
      deriveSessionKey keys.exchange
        (sharedSecretStatic keys.exchange keys.serverPriv hello.clientPub) secret =
          .ok est.sessionKey := by
  unfold handshake at h
  dsimp only [bind, Except.bind] at h
  match hhello : readHello tr recv with
  | .error e =>
    simp [hhello] at h
  | .ok (hello, rest) =>
    simp only [hhello] at h
    match hsecret : selectSecret keys hello with
    | .error e =>
      simp [hsecret] at h
    | .ok (aid, secret) =>
      simp only [hsecret] at h
      match hkey : deriveSessionKey keys.exchange
          (sharedSecretStatic keys.exchange keys.serverPriv hello.clientPub) secret with
      | .error e =>
        simp [hkey, Except.mapError] at h
      | .ok sessionKey =>
        simp only [hkey, Except.mapError, pure, Except.pure] at h
        split at h
        · cases h
        · simp only [Except.ok.injEq, Prod.mk.injEq] at h
          obtain ⟨rfl, rfl⟩ := h
          exact ⟨hello, secret, rfl, hsecret, hkey⟩

/-- Keys for examples: a public key is its own secret, and a session key is the
shared secret with the key material added to its bytes. -/
def exampleKeys : ServerKeys where
  exchange :=
    { publicKey := id
      diffieHellman := fun _ pubKey => pubKey
      hkdf := fun salt ikm _ len =>
        some ((List.zipWith (· + ·) salt (ikm ++ List.replicate len 0)).take len) }
  serverPriv := List.replicate 32 9
  keyStore := fun _ => none

/-- The anonymous hello of a public key of 32 equal bytes. -/
def anonymousHello (b : UInt8) : List UInt8 := [0, 0] ++ List.replicate 32 b

/-- What the example keys make of that hello. -/
def anonymousSession (b : UInt8) : Established :=
  ⟨"", List.zipWith (· + ·) (List.replicate 32 b) (anonymousSecret ++ List.replicate 32 0)⟩

example : (tcpHandshake exampleKeys 1 ⟨anonymousHello 1, .wouldBlock⟩ .vec).1 =
    .ok (anonymousSession 1, ⟨[], .wouldBlock⟩) := by rfl

end Hush.Server
