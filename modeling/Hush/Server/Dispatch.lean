import Hush.Server.Handshake
import Hush.Session.Store

/-! What the two request loops of `server.rs` share: handlers, replies, the
channel to the client, and the rest of the server around a connection. -/
namespace Hush.Server

set_option linter.dupNamespace false

open Hush.Foundation
open Hush.Frame hiding Request
open Hush.Session

/-- A decoded request with session metadata. -/
structure Request where
  opcode : UInt16
  payload : Tlv.Map
  sessionId : UInt64
  apiKeyId : String

/-- How a handler call ends, with the application state that it leaves. -/
inductive HandlerOutcome (σ : Type) where
  | returned (result : Except String Response) (app : σ)
  | panicked (app : σ)

/-- The closure of a handler, over the state that the application keeps. -/
abbrev SyncHandler (σ : Type) := Request → σ → HandlerOutcome σ

/-- A streaming handler takes over the stream with the session key; what it
reads and writes there is its own, and only its effect on the state is kept. -/
abbrev StreamHandler (σ : Type) := Request → List UInt8 → σ → σ

inductive HandlerType (σ : Type) where
  | sync (handler : SyncHandler σ)
  | stream (handler : StreamHandler σ)

structure Server (σ : Type) where
  aead : Aead
  keys : ServerKeys
  handlers : UInt16 → Option (HandlerType σ)

/-- Why the server answers. -/
inductive Cause where
  | expiry | badRequest | notFound | streaming | handled | failed
  deriving DecidableEq, Repr

/-- What an observer of a connection notes, in order. -/
inductive Event where
  | arrived (now : Instant) (bytes : List UInt8)
  | established (sess : Session)
  | checked (found : Option Session) (now : Instant)
  | received (key : List UInt8) (frame : Frame)
  | dispatched (req : Request) (seq : UInt32)
  | answered (cause : Cause) (seq : UInt32) (resp : Response)

/-- A byte channel to the client: what is still unread, what was written, and
the events on it so far. -/
structure Channel where
  recv : Source
  send : Sink
  log : List Event

namespace Channel

/-- A channel that the client has just opened. -/
def opened : Channel := ⟨⟨[], .wouldBlock⟩, .vec, []⟩

def note (chan : Channel) (events : List Event) : Channel :=
  { chan with log := chan.log ++ events }

/-- Encode the response under the session key and write its frame; an error of
either is ignored. -/
def reply (chan : Channel) (aead : Aead) (nonce : Nonce) (key : List UInt8) (cause : Cause)
    (seq : UInt32) (resp : Response) : Channel :=
  let send :=
    match encodeResponseBody aead nonce (some key) resp with
    | .ok body => (writeFrameAsync chan.send seq body).2
    | .error _ => chan.send
  { chan with send, log := chan.log ++ [.answered cause seq resp] }

@[simp] theorem log_reply (chan : Channel) (aead : Aead) (nonce : Nonce) (key : List UInt8)
    (cause : Cause) (seq : UInt32) (resp : Response) :
    (chan.reply aead nonce key cause seq resp).log = chan.log ++ [.answered cause seq resp] := rfl

end Channel

/-- What the client and the network do to a channel. -/
inductive NetAction where
  | deliver (bytes : List UInt8)
  | hangup (kind : ErrorKind)
  | limit (room : Nat) (kind : ErrorKind)

/-- Bytes arrive while the client's side is open, then it ends once; the
server's side may stop taking bytes at any time. -/
def Channel.net (chan : Channel) (now : Instant) : NetAction → Option Channel
  | .deliver bytes =>
    if chan.recv.ending = .wouldBlock then
      some { chan with
        recv := { chan.recv with bytes := chan.recv.bytes ++ bytes }
        log := chan.log ++ [.arrived now bytes] }
    else none
  | .hangup kind =>
    if chan.recv.ending = .wouldBlock ∧ kind ≠ .wouldBlock then
      some { chan with recv := { chan.recv with ending := kind } }
    else none
  | .limit room kind => some { chan with send := { chan.send with room := some (room, kind) } }

/-- The clock, the session store and the application state, which the
connections of a server share. -/
structure Shared (σ : Type) where
  now : Instant
  store : SessionStore
  app : σ

/-- What the rest of the server does meanwhile: time passes, the collector
ticks, other connections come and go and call handlers. -/
inductive EnvAction (σ : Type) where
  | advance (span : Nat)
  | gc
  | insert (sess : Session)
  | delete (id : UInt64)
  | app (app : σ)

/-- The other connections leave the session `own` alone. -/
def Shared.env {σ : Type} (sh : Shared σ) (own : UInt64) : EnvAction σ → Option (Shared σ)
  | .advance span => some { sh with now := sh.now + span }
  | .gc => some { sh with store := sh.store.gc sh.now }
  | .insert sess => if sess.id = own then none else some { sh with store := sh.store.insert sess }
  | .delete id => if id = own then none else some { sh with store := sh.store.delete id }
  | .app app => some { sh with app }

/-- `if let Some(mut sess) = sessions.get(id) { sess.touch() }`: the session
touched is the clone, and the store keeps its own. -/
def touchSession (store : SessionStore) (now : Instant) (id : UInt64) : SessionStore :=
  match store.get id with
  | some sess =>
    let _touched := sess.touch now
    store
  | none => store

@[simp] theorem touchSession_eq (store : SessionStore) (now : Instant) (id : UInt64) :
    touchSession store now id = store := by
  unfold touchSession
  split <;> rfl

/-- The expiry check on the session that was found, if one was. -/
def expiryCheck (store : SessionStore) (now : Instant) : Option Session → Bool
  | some sess => store.isExpired now sess || store.isIdleDead now sess
  | none => false

def expiredResponse : Response := ⟨.sessionExpired, none, 0⟩

def notFoundResponse (opcode : UInt16) (seq : UInt32) : Response :=
  ⟨.notFound, some (Tlv.MapOf.new.set "opcode" (.uint16 opcode)), seq⟩

/-- The request that a handler sees: no payload becomes the empty map. -/
def toRequest (sessionId : UInt64) (apiKeyId : String) (freq : Frame.Request) : Request :=
  ⟨freq.opcode, freq.payload.getD Tlv.MapOf.new, sessionId, apiKeyId⟩

/-- What comes of a request: whether its handler was called, the application
state after it, and the answer, unless the handler panicked or took over. -/
structure Served (σ : Type) where
  called : Bool
  app : σ
  answer : Option (Cause × Response)

/-- Call a handler and answer with its response, or an internal error. -/
def callHandler {σ : Type} (handler : SyncHandler σ) (req : Request) (app : σ) : Served σ :=
  match handler req app with
  | .returned (.ok resp) app => ⟨true, app, some (.handled, resp)⟩
  | .returned (.error _) app =>
    ⟨true, app, some (.failed, errorResponse .internalError "internal error")⟩
  | .panicked app => ⟨true, app, none⟩

/-- What the observer notes of a call. -/
def dispatchEvents (called : Bool) (req : Request) (seq : UInt32) : List Event :=
  if called then [.dispatched req seq] else []

/-- The frame that a read took, for the observer. -/
def receivedFrame (key : List UInt8) (recv : Source) : List Event :=
  match readFrameAsync recv with
  | .ok (frame, _) => [.received key frame]
  | .error _ => []

/-- A server for examples, with one handler that counts its calls. -/
def exampleServer : Server Nat where
  aead := keyTagAead
  keys := exampleKeys
  handlers := fun opcode =>
    if opcode = 5 then some (.sync fun _ calls => .returned (.ok (newResponse .new)) (calls + 1))
    else none

/-- A request frame for that handler, in the session of `anonymousHello 1`. -/
def exampleFrame : List UInt8 :=
  Frame.bytes ⟨9, List.replicate 12 7 ++ ([0, 5] ++ (anonymousSession 1).sessionKey.take tagSize)⟩

/-- A nonce for examples. -/
def exampleNonce : Nonce := ⟨List.replicate 12 7, rfl⟩

/-- The session that the example server makes of that hello at time zero. -/
def exampleSession : Session := .new 0 1 "" (anonymousSession 1).sessionKey

example : readRequestAsync keyTagAead ⟨exampleFrame, .wouldBlock⟩
    (some (anonymousSession 1).sessionKey) = .ok ((⟨5, none⟩, 9), ⟨[], .wouldBlock⟩) := by rfl

end Hush.Server
