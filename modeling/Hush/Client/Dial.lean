import Hush.Client.Endpoint
import Hush.Foundation.Link

/-! `Client::dial` and `Client::dial_tcp`: write the hello, read the reply, derive
the session key. The two have the same text, over transports that report I/O
errors differently. -/
namespace Hush.Client

set_option linter.dupNamespace false

open Hush.Foundation BigEndian Link
open Hush.Frame Hush.Session
open Hush.Server (NetAction)

structure ApiKey where
  id : String
  secret : List UInt8
  deriving DecidableEq, Repr

/-- What a failed write and a failed read of the handshake become. -/
structure Transport where
  writeError : ErrorKind → ClientError
  readError : ErrorKind → ClientError

def Transport.tcp : Transport where
  writeError := .io
  readError := .negotiate "read tcp handshake"

def Transport.quic : Transport where
  writeError := .negotiate "write"
  readError := .negotiate "read handshake resp"

/-- The caller's key and the ephemeral secret of one dial. -/
structure Dialer where
  exchange : KeyExchange
  apiKey : ApiKey
  secret : List UInt8

/-- Compute ECDH shared secret. -/
def sharedSecret (exchange : KeyExchange) (privKey pubKey : List UInt8) : List UInt8 :=
  exchange.diffieHellman privKey pubKey

/-- The length of the id is cast to 16 bits. -/
def Dialer.hello (d : Dialer) : List UInt8 :=
  let pubBytes := d.exchange.publicKey d.secret
  if d.apiKey.id.isEmpty then u16.toBeBytes 0 ++ pubBytes
  else
    let keyIdBytes := Utf8.asBytes d.apiKey.id
    u16.toBeBytes (UInt16.ofNat keyIdBytes.length) ++ (keyIdBytes ++ pubBytes)

/-- The session that the client makes of the 40 bytes of a reply. -/
def Dialer.complete (d : Dialer) (now : Instant) (resp : List UInt8) :
    Except SessionError Session := do
  let serverPub := resp.take 32
  let sid := u64.fromBeBytes (resp.drop 32)
  let shared := sharedSecret d.exchange d.secret serverPub
  if d.apiKey.id.isEmpty then
    let key ← deriveSessionKey d.exchange shared Server.anonymousSecret
    return .new now sid "" key
  else
    let key ← deriveSessionKey d.exchange shared d.apiKey.secret
    return .new now sid d.apiKey.id key

inductive DialPhase where
  | hello
  | reply
  | done (result : Except ClientError Session)

structure Dial where
  stream : Endpoint
  phase : DialPhase

inductive DialAction where
  | net (action : NetAction)
  | run (now : Instant)

/-- One step of the dialing task, up to its next read. -/
def dialRun (tr : Transport) (d : Dialer) (now : Instant) (task : Dial) : Option Dial :=
  match task.phase with
  | .hello =>
    match task.stream.writeAll d.hello with
    | (.error kind, stream) => some ⟨stream, .done (.error (tr.writeError kind))⟩
    | (.ok (), stream) => some ⟨stream, .reply⟩
  | .reply =>
    match task.stream.readExact (32 + 8) with
    | (.error .wouldBlock, _) => none
    | (.error kind, stream) => some ⟨stream, .done (.error (tr.readError kind))⟩
    | (.ok resp, stream) =>
      some ⟨stream, .done ((d.complete now resp).mapError .session)⟩
  | .done _ => none

def dialStep (tr : Transport) (d : Dialer) (task : Dial) : DialAction → Option Dial
  | .net action => (task.stream.net action).map fun stream => { task with stream }
  | .run now => dialRun tr d now task

/-- A dial whose connection has just been opened. -/
def dialing : Dial := ⟨.opened, .hello⟩

/-- What a step of the dial can do, one case for each way through its code. -/
inductive DialSteps (tr : Transport) (d : Dialer) (task : Dial) : DialAction → Dial → Prop where
  | net {action : NetAction} {stream : Endpoint} : task.stream.net action = some stream →
      DialSteps tr d task (.net action) { task with stream }
  | unwritten {now : Instant} {kind : ErrorKind} {stream : Endpoint} : task.phase = .hello →
      task.stream.writeAll d.hello = (.error kind, stream) →
        DialSteps tr d task (.run now) ⟨stream, .done (.error (tr.writeError kind))⟩
  | written {now : Instant} {stream : Endpoint} : task.phase = .hello →
      task.stream.writeAll d.hello = (.ok (), stream) →
        DialSteps tr d task (.run now) ⟨stream, .reply⟩
  | unread {now : Instant} {kind : ErrorKind} {stream : Endpoint} : task.phase = .reply →
      task.stream.readExact 40 = (.error kind, stream) → kind ≠ .wouldBlock →
        DialSteps tr d task (.run now) ⟨stream, .done (.error (tr.readError kind))⟩
  | read {now : Instant} {resp : List UInt8} {stream : Endpoint} : task.phase = .reply →
      task.stream.readExact 40 = (.ok resp, stream) →
        DialSteps tr d task (.run now)
          ⟨stream, .done ((d.complete now resp).mapError .session)⟩

theorem dialStep_steps {tr : Transport} {d : Dialer} {task task' : Dial} {action : DialAction}
    (h : dialStep tr d task action = some task') : DialSteps tr d task action task' := by
  cases action with
  | net action =>
    obtain ⟨stream, hstream, rfl⟩ := Option.map_eq_some_iff.mp h
    exact .net hstream
  | run now =>
    unfold dialStep dialRun at h
    dsimp only at h
    split at h
    · rename_i hphase
      split at h <;> rename_i hwrite <;> obtain rfl := Option.some.inj h
      · exact .unwritten hphase hwrite
      · exact .written hphase hwrite
    · rename_i hphase
      split at h
      · cases h
      · rename_i kind stream hkind hread
        obtain rfl := Option.some.inj h
        refine .unread hphase hread ?_
        rintro rfl
        exact hkind rfl
      · rename_i hread
        obtain rfl := Option.some.inj h
        exact .read hphase hread
    · cases h

end Hush.Client
