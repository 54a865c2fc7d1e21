import Hush.Frame.Delivery
import Hush.Server.ExpiryGate

/-! What a request is answered with. The reply to a request is sealed and framed
under the request's own sequence number; an error of either is ignored, and then
nothing is written. -/
namespace Hush.Server

open Hush.Foundation Execution
open Hush.Frame hiding Request
open Hush.Session

variable {σ : Type}

/-! ### One reply -/

/-- What a reply writes: a frame, or nothing if it could not be made. -/
def replyBytes (aead : Aead) (nonce : Nonce) (key : List UInt8) (seq : UInt32) (resp : Response) :
    List UInt8 :=
  match encodeResponseBody aead nonce (some key) resp with
  | .ok body =>
    match encodeFrame seq body with
    | .ok buf => buf
    | .error _ => []
  | .error _ => []

theorem send_reply {chan : Channel} {written : List UInt8} (hsend : chan.send = ⟨written, none⟩)
    (aead : Aead) (nonce : Nonce) (key : List UInt8) (cause : Cause) (seq : UInt32)
    (resp : Response) :
    (chan.reply aead nonce key cause seq resp).send =
      ⟨written ++ replyBytes aead nonce key seq resp, none⟩ := by
  unfold Channel.reply replyBytes
  match encodeResponseBody aead nonce (some key) resp with
  | .error e =>
    dsimp only
    rw [hsend, List.append_nil]
  | .ok body =>
    dsimp only
    rw [hsend]
    unfold writeFrameAsync writeFrameTo
    cases encodeFrame seq body with
    | ok buf => rfl
    | error e => simp

@[simp] theorem recv_reply (chan : Channel) (aead : Aead) (nonce : Nonce) (key : List UInt8)
    (cause : Cause) (seq : UInt32) (resp : Response) :
    (chan.reply aead nonce key cause seq resp).recv = chan.recv := rfl

/-- The sealed response is no longer than a frame may be. -/
def ReplyFits (resp : Response) : Prop :=
  (appendPayload [resp.status.toU8] resp.payload).length + (nonceSize + tagSize) ≤
    maxFrameSize.toNat - 4

/-- A frame that the client takes whole, and nothing else; it decodes to the
status, and to the sequence number that is its own. -/
def AnsweredOnce (aead : Aead) (key : List UInt8) (seq : UInt32) (status : StatusCode)
    (out : List UInt8) : Prop :=
  ∃ frame, readFrameAsync ⟨out, .wouldBlock⟩ = .ok (frame, ⟨[], .wouldBlock⟩) ∧
    frame.seq = seq ∧
    ∃ got, decodeResponse aead (some key) frame.body = .ok got ∧ got.status = status ∧
      got.seq = seq

theorem length_encodeResponseBody {aead : Aead} (hlaw : aead.Lawful) {nonce : Nonce}
    {key body : List UInt8} {resp : Response}
    (h : encodeResponseBody aead nonce (some key) resp = .ok body) :
    body.length =
      (appendPayload [resp.status.toU8] resp.payload).length + (nonceSize + tagSize) :=
  length_sealBody hlaw h

theorem replyBytes_of_fits {aead : Aead} (hlaw : aead.Lawful) (nonce : Nonce) {key : List UInt8}
    (hkey : key.length = keySize) (seq : UInt32) {resp : Response} (h : ReplyFits resp) :
    ∃ body, encodeResponseBody aead nonce (some key) resp = .ok body ∧
      Frame.Fits ⟨seq, body⟩ ∧ replyBytes aead nonce key seq resp = Frame.bytes ⟨seq, body⟩ := by
  unfold ReplyFits at h
  rw [toNat_maxFrameSize] at h
  have hmax : (appendPayload [resp.status.toU8] resp.payload).length ≤ maxPlaintext := by
    unfold maxPlaintext
    omega
  have hkeyOk : KeyOk (some key) := by
    intro k hk
    obtain rfl := Option.some.inj hk
    exact hkey
  obtain ⟨body, hbody⟩ := sealBody_isOk hlaw nonce hkeyOk hmax
  have hencode : encodeResponseBody aead nonce (some key) resp = .ok body := hbody
  have hfits : Frame.Fits ⟨seq, body⟩ := by
    unfold Frame.Fits
    rw [toNat_maxFrameSize, length_encodeResponseBody hlaw hencode]
    exact h
  refine ⟨body, hencode, hfits, ?_⟩
  unfold replyBytes
  rw [hencode]
  dsimp only
  rw [show encodeFrame seq body = .ok (Frame.bytes ⟨seq, body⟩) from hfits.encodeFrame]

/-- A frame that the client can take is the frame of a body that fits. -/
theorem fits_of_read_replyBytes {aead : Aead} (hlaw : aead.Lawful) {nonce : Nonce}
    {key : List UInt8} {seq : UInt32} {resp : Response} {frame : Frame}
    (h : readFrameAsync ⟨replyBytes aead nonce key seq resp, .wouldBlock⟩ =
      .ok (frame, ⟨[], .wouldBlock⟩)) : ReplyFits resp := by
  obtain ⟨hfits, hbytes, -⟩ := readFrameFrom_sound h
  rw [List.append_nil] at hbytes
  dsimp only at hbytes
  unfold replyBytes at hbytes
  split at hbytes
  · rename_i body hencode
    split at hbytes
    · rename_i buf hbuf
      obtain ⟨-, rfl⟩ := encodeFrame_ok_iff.mp hbuf
      have hlength := congrArg List.length hbytes
      have hbody := length_encodeResponseBody hlaw hencode
      unfold Frame.Fits at hfits
      unfold ReplyFits
      simp only [Frame.bytes, List.length_append, BigEndian.u32.length_toBeBytes,
        Frame.length_body] at hlength
      omega
    · exact absurd hbytes.symm frame.bytes_ne_nil
  · exact absurd hbytes.symm frame.bytes_ne_nil

/-- A reply answers its request if it fits a frame, and only then. -/
theorem answeredOnce_replyBytes_iff {aead : Aead} (hlaw : aead.Lawful) (nonce : Nonce)
    {key : List UInt8} (hkey : key.length = keySize) (seq : UInt32) (resp : Response) :
    AnsweredOnce aead key seq resp.status (replyBytes aead nonce key seq resp) ↔
      ReplyFits resp := by
  constructor
  · intro hanswered
    obtain ⟨frame, hread, -⟩ := hanswered
    exact fits_of_read_replyBytes hlaw hread
  · intro hfits
    obtain ⟨body, hencode, hframe, hbytes⟩ := replyBytes_of_fits hlaw nonce hkey seq hfits
    rw [hbytes]
    have hread := readFrameFrom_bytes hframe [] .wouldBlock
    rw [List.append_nil] at hread
    exact ⟨⟨seq, body⟩, hread, rfl, _, decodeResponse_encodeResponseBody hlaw seq hencode, rfl, rfl⟩

/-- A request opens only under a key of the cipher's size. -/
theorem length_key_of_decodeRequest {aead : Aead} {key : List UInt8} {frame : Frame}
    {freq : Frame.Request} {seq : UInt32}
    (h : decodeRequest aead (some key) frame.body = .ok (freq, seq)) : key.length = keySize := by
  by_contra hne
  obtain ⟨e, he⟩ : ∃ e, Session.decrypt aead key frame.data = .error e := decrypt_of_length_ne hne
  unfold decodeRequest openBody at h
  simp [he, bind, Except.bind, Except.mapError] at h

/-! ### One request -/

/-- What a request is owed: its handler's response, an internal error if the
handler failed, and that there is none if there is no handler. -/
inductive Owed (srv : Server σ) (req : Request) (seq : UInt32) (app : σ) : Response → Prop where
  | unregistered : srv.handlers req.opcode = none →
      Owed srv req seq app (notFoundResponse req.opcode seq)
  | handled {handler : SyncHandler σ} {resp : Response} {left : σ} :
      srv.handlers req.opcode = some (.sync handler) →
        handler req app = .returned (.ok resp) left → Owed srv req seq app resp
  | failed {handler : SyncHandler σ} {msg : String} {left : σ} :
      srv.handlers req.opcode = some (.sync handler) →
        handler req app = .returned (.error msg) left →
          Owed srv req seq app (errorResponse .internalError "internal error")

/-- The request's opcode has no handler, or one that returns whatever the
application state. -/
def Answerable (srv : Server σ) (req : Request) : Prop :=
  srv.handlers req.opcode = none ∨
    ∃ handler, srv.handlers req.opcode = some (.sync handler) ∧
      ∀ app, ∃ result left, handler req app = .returned result left

theorem callHandler_owed {srv : Server σ} {handler : SyncHandler σ} {req : Request} {app left : σ}
    {result : Except String Response} (seq : UInt32)
    (hhandler : srv.handlers req.opcode = some (.sync handler))
    (hresult : handler req app = .returned result left) :
    ∃ cause resp, (callHandler handler req app).answer = some (cause, resp) ∧
      Owed srv req seq app resp := by
  unfold callHandler
  rw [hresult]
  cases result with
  | ok resp => exact ⟨_, resp, rfl, .handled hhandler hresult⟩
  | error msg => exact ⟨_, _, rfl, .failed hhandler hresult⟩

theorem tcpServe_owed {srv : Server σ} {sess : Session} {freq : Frame.Request}
    (h : Answerable srv (toRequest sess.id sess.apiKeyId freq)) (seq : UInt32) (app : σ) :
    ∃ cause resp, (tcpServe srv sess freq seq app).answer = some (cause, resp) ∧
      Owed srv (toRequest sess.id sess.apiKeyId freq) seq app resp := by
  obtain hnone | ⟨handler, hhandler, hreturns⟩ := h
  · unfold tcpServe
    rw [show srv.handlers freq.opcode = none from hnone]
    exact ⟨_, _, rfl, .unregistered hnone⟩
  · obtain ⟨result, left, hresult⟩ := hreturns app
    unfold tcpServe
    rw [show srv.handlers freq.opcode = some (.sync handler) from hhandler]
    exact callHandler_owed seq hhandler hresult

theorem quicServe_owed {srv : Server σ} {task : StreamTask} {freq : Frame.Request}
    (h : Answerable srv (toRequest task.sessionId task.apiKeyId freq)) (key : List UInt8)
    (seq : UInt32) (app : σ) :
    ∃ cause resp, (quicServe srv task key freq seq app).answer = some (cause, resp) ∧
      Owed srv (toRequest task.sessionId task.apiKeyId freq) seq app resp := by
  obtain hnone | ⟨handler, hhandler, hreturns⟩ := h
  · unfold quicServe
    dsimp only
    rw [show srv.handlers freq.opcode = none from hnone]
    exact ⟨_, _, rfl, .unregistered hnone⟩
  · obtain ⟨result, left, hresult⟩ := hreturns app
    unfold quicServe
    dsimp only
    rw [show srv.handlers freq.opcode = some (.sync handler) from hhandler]
    exact callHandler_owed seq hhandler hresult

/-- A request at the head of a session's channel: its frame opens under the
session's key and can be answered; `before` was written, `rest` comes behind it. -/
structure Pending (srv : Server σ) where
  sess : Session
  frame : Frame
  freq : Frame.Request
  seq : UInt32
  before : List UInt8
  rest : List UInt8
  fits : frame.Fits
  decodes : decodeRequest srv.aead (some sess.key) frame.body = .ok (freq, seq)
  answerable : Answerable srv (toRequest sess.id sess.apiKeyId freq)

/-- The server wrote these bytes, its writes succeed, and it reads those next. -/
structure ChannelAt (written unread : List UInt8) (chan : Channel) : Prop where
  send : chan.send = ⟨written, none⟩
  recv : unread <+: chan.recv.bytes

/-- One answer was written to the request, and its frame is no longer there: the
answer reaches the client exactly if it fits a frame. -/
def RequestAnswered {srv : Server σ} (ask : Pending srv) (chan : Channel) : Prop :=
  ∃ app resp out,
    Owed srv (toRequest ask.sess.id ask.sess.apiKeyId ask.freq) ask.seq app resp ∧
    ChannelAt (ask.before ++ out) ask.rest chan ∧
    (AnsweredOnce srv.aead ask.sess.key ask.seq resp.status out ↔ ReplyFits resp)

/-- The action keeps the channel's writes from failing. -/
def NetAction.keepsWriting : NetAction → Bool
  | .limit _ _ => false
  | _ => true

/-- The session is in the store, within its lifetime and idle timeout. -/
def sessionAlive (sess : Session) (sh : Shared σ) : Bool :=
  decide (sh.store.get sess.id = some sess) && !expiryCheck sh.store sh.now (some sess)

theorem sessionAlive_iff {sess : Session} {sh : Shared σ} :
    sessionAlive sess sh = true ↔
      sh.store.get sess.id = some sess ∧ expiryCheck sh.store sh.now (some sess) = false := by
  simp [sessionAlive]

namespace ChannelAt

variable {written unread : List UInt8} {chan chan' : Channel}

theorem net (h : ChannelAt written unread chan) {now : Instant} {action : NetAction}
    (hkeeps : action.keepsWriting = true) (hnet : chan.net now action = some chan') :
    ChannelAt written unread chan' := by
  unfold Channel.net at hnet
  cases action with
  | deliver bytes =>
    dsimp only at hnet
    split at hnet
    · obtain rfl := Option.some.inj hnet
      exact ⟨h.send, h.recv.trans (List.prefix_append _ _)⟩
    · cases hnet
  | hangup kind =>
    dsimp only at hnet
    split at hnet
    · obtain rfl := Option.some.inj hnet
      exact ⟨h.send, h.recv⟩
    · cases hnet
  | limit room kind => cases hkeeps

theorem note (h : ChannelAt written unread chan) (events : List Event) :
    ChannelAt written unread (chan.note events) := ⟨h.send, h.recv⟩

/-- The frame at the head of the channel is the one that is read. -/
theorem readRequest {srv : Server σ} {ask : Pending srv}
    (h : ChannelAt written (ask.frame.bytes ++ ask.rest) chan) :
    ∃ recv, readRequestAsync srv.aead chan.recv (some ask.sess.key) =
        .ok ((ask.freq, ask.seq), recv) ∧
      ∀ log, ChannelAt written ask.rest { chan with recv, log } := by
  obtain ⟨more, hmore⟩ := h.recv
  have hrecv : chan.recv = ⟨ask.frame.bytes ++ (ask.rest ++ more), chan.recv.ending⟩ := by
    rw [← List.append_assoc, hmore]
  refine ⟨⟨ask.rest ++ more, chan.recv.ending⟩, ?_, fun log => ⟨h.send, List.prefix_append _ _⟩⟩
  have hdecode := ask.decodes
  unfold Frame.body at hdecode
  unfold readRequestAsync readFrameAsync
  rw [hrecv, readFrameFrom_bytes ask.fits]
  dsimp only [Except.mapError, bind, Except.bind]
  rw [hdecode]
  rfl

/-- The answer to a request that was read. -/
theorem reply {srv : Server σ} {ask : Pending srv} (hlaw : srv.aead.Lawful)
    (h : ChannelAt ask.before ask.rest chan) (nonce : Nonce) (cause : Cause) {app : σ}
    {resp : Response}
    (howed : Owed srv (toRequest ask.sess.id ask.sess.apiKeyId ask.freq) ask.seq app resp) :
    RequestAnswered ask (chan.reply srv.aead nonce ask.sess.key cause ask.seq resp) := by
  exact ⟨app, resp, _, howed, ⟨send_reply h.send _ _ _ _ _ _, h.recv⟩,
    answeredOnce_replyBytes_iff hlaw nonce (length_key_of_decodeRequest ask.decodes) ask.seq resp⟩

end ChannelAt

theorem RequestAnswered.net {srv : Server σ} {ask : Pending srv} {chan chan' : Channel}
    (h : RequestAnswered ask chan) {now : Instant} {action : NetAction}
    (hkeeps : action.keepsWriting = true) (hnet : chan.net now action = some chan') :
    RequestAnswered ask chan' := by
  obtain ⟨app, resp, out, howed, hat, hiff⟩ := h
  exact ⟨app, resp, out, howed, hat.net hkeeps hnet, hiff⟩

end Hush.Server
