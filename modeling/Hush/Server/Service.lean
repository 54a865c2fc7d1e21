import Hush.Server.Answers
import Hush.Server.Quic
import Hush.Server.Reads

/-! Requests served one after the other, whatever transport they come by: which handlers are
called, which responses are sent, and the application state from one request to the next. -/
namespace Hush.Server

open Hush.Foundation Cursor
open Hush.Frame hiding Request
open Hush.Session

variable {σ : Type}

/-- A request frame that opens under a key and decodes. -/
structure Ask (aead : Aead) (key : List UInt8) where
  frame : Frame
  freq : Frame.Request
  seq : UInt32
  fits : frame.Fits
  decodes : decodeRequest aead (some key) frame.body = .ok (freq, seq)

/-- Every handler is a sync handler that returns. -/
def SyncOnly (srv : Server σ) : Prop :=
  ∀ opcode kind, srv.handlers opcode = some kind → ∃ handler, kind = .sync handler ∧
    ∀ req app, ∃ result left, handler req app = .returned result left

/-- The crate refuses a text for its length alone: the nonce does not matter. -/
def NonceBlind (aead : Aead) : Prop :=
  ∀ {key text : List UInt8} {nonce : Nonce}, (aead.encrypt key nonce.bytes text).isSome →
    ∀ nonce' : Nonce, (aead.encrypt key nonce'.bytes text).isSome

section Served

variable (srv : Server σ) (sess : Session)

/-- What is asked for, as the handler sees it. -/
def Ask.request {sess : Session} {aead : Aead} (ask : Ask aead sess.key) : Request :=
  toRequest sess.id sess.apiKeyId ask.freq

def serve (app : σ) (ask : Ask srv.aead sess.key) : Served σ :=
  tcpServe srv sess ask.freq ask.seq app

def appAfter (app : σ) (asks : List (Ask srv.aead sess.key)) : σ :=
  asks.foldl (fun app ask => (serve srv sess app ask).app) app

/-- What is noted of each of the requests, served in their order. -/
def collect {α : Type} (note : σ → Ask srv.aead sess.key → List α) :
    σ → List (Ask srv.aead sess.key) → List α
  | _, [] => []
  | app, ask :: rest => note app ask ++ collect note (serve srv sess app ask).app rest

/-- The call of a handler, if there is one. -/
def callOf (app : σ) (ask : Ask srv.aead sess.key) : List Call :=
  if (serve srv sess app ask).called then [(ask.request, ask.seq)] else []

/-- The response and the sequence number that it is sent under. -/
def replyOf (app : σ) (ask : Ask srv.aead sess.key) : List (UInt32 × Response) :=
  ((serve srv sess app ask).answer.map fun answer => (ask.seq, answer.2)).toList

variable {srv sess}

theorem appAfter_concat (app : σ) (asks : List (Ask srv.aead sess.key))
    (ask : Ask srv.aead sess.key) :
    appAfter srv sess app (asks ++ [ask]) =
      (serve srv sess (appAfter srv sess app asks) ask).app := by
  unfold appAfter
  rw [List.foldl_append]
  rfl

theorem collect_concat {α : Type} (note : σ → Ask srv.aead sess.key → List α) (app : σ)
    (asks : List (Ask srv.aead sess.key)) (ask : Ask srv.aead sess.key) :
    collect srv sess note app (asks ++ [ask]) =
      collect srv sess note app asks ++ note (appAfter srv sess app asks) ask := by
  induction asks generalizing app with
  | nil =>
    rw [List.nil_append, collect, collect, collect, List.append_nil]
    rfl
  | cons first rest ih =>
    rw [List.cons_append, collect, collect, ih, List.append_assoc]
    rfl

theorem serve_answer (hsync : SyncOnly srv) (app : σ) (ask : Ask srv.aead sess.key) :
    ∃ cause resp, (serve srv sess app ask).answer = some (cause, resp) := by
  unfold serve tcpServe
  cases hkind : srv.handlers ask.freq.opcode with
  | none => exact ⟨_, _, rfl⟩
  | some kind =>
    obtain ⟨handler, rfl, hreturns⟩ := hsync _ _ hkind
    obtain ⟨result, left, hresult⟩ := hreturns (toRequest sess.id sess.apiKeyId ask.freq) app
    dsimp only
    unfold callHandler
    rw [hresult]
    cases result with
    | ok resp => exact ⟨_, _, rfl⟩
    | error msg => exact ⟨_, _, rfl⟩

theorem serve_called (hsync : SyncOnly srv) (app : σ) (ask : Ask srv.aead sess.key) :
    (serve srv sess app ask).called = (srv.handlers ask.freq.opcode).isSome := by
  unfold serve tcpServe
  cases hkind : srv.handlers ask.freq.opcode with
  | none => rfl
  | some kind =>
    obtain ⟨handler, rfl, hreturns⟩ := hsync _ _ hkind
    obtain ⟨result, left, hresult⟩ := hreturns (toRequest sess.id sess.apiKeyId ask.freq) app
    dsimp only
    unfold callHandler
    rw [hresult]
    cases result with
    | ok resp => rfl
    | error msg => rfl

/-- A handler is called once for each request that has one, in their order. -/
theorem collect_callOf (hsync : SyncOnly srv) (app : σ) (asks : List (Ask srv.aead sess.key)) :
    collect srv sess (callOf srv sess) app asks =
      (asks.filter fun ask => (srv.handlers ask.freq.opcode).isSome).map fun ask =>
        (ask.request, ask.seq) := by
  induction asks generalizing app with
  | nil => rfl
  | cons ask rest ih =>
    rw [collect, ih, callOf, serve_called hsync, List.filter_cons]
    split
    · rfl
    · rfl

/-- Both transports look up the same handler, and do the same with what it returns. -/
theorem quicServe_eq (hsync : SyncOnly srv) (app : σ) (ask : Ask srv.aead sess.key)
    (chan : Channel) (phase : StreamPhase) :
    quicServe srv ⟨sess.id, sess.apiKeyId, chan, phase⟩ sess.key ask.freq ask.seq app =
      serve srv sess app ask := by
  unfold serve tcpServe quicServe
  dsimp only
  cases hkind : srv.handlers ask.freq.opcode with
  | none => rfl
  | some kind =>
    obtain ⟨handler, rfl, -⟩ := hsync _ _ hkind
    rfl

end Served

/-! ### What is written -/

/-- The bytes of a reply, under some nonce. -/
def IsReply (aead : Aead) (key bytes : List UInt8) (reply : UInt32 × Response) : Prop :=
  ∃ nonce, bytes = replyBytes aead nonce key reply.1 reply.2

/-- The frame of a response that decodes under the key. -/
def DecodesTo (aead : Aead) (key bytes : List UInt8) (resp : Response) : Prop :=
  ∃ body, bytes = Frame.bytes ⟨resp.seq, body⟩ ∧
    decodeResponse aead (some key) (Frame.body ⟨resp.seq, body⟩) = .ok resp

/-- A response that can be sealed under one nonce can be sealed under all, in as many bytes. -/
theorem encodeResponseBody_blind {aead : Aead} (hlaw : aead.Lawful) (hblind : NonceBlind aead)
    {key body : List UInt8} {nonce : Nonce} {resp : Response}
    (h : encodeResponseBody aead nonce (some key) resp = .ok body) (nonce' : Nonce) :
    ∃ body', encodeResponseBody aead nonce' (some key) resp = .ok body' ∧
      body'.length = body.length := by
  have hlength := length_encodeResponseBody hlaw h
  unfold encodeResponseBody sealBody at h
  dsimp only at h
  cases hrun : Session.encrypt aead nonce key (appendPayload [resp.status.toU8] resp.payload) with
  | error e =>
    rw [hrun] at h
    cases h
  | ok out =>
    obtain ⟨hkey, sealed, hsealed, -⟩ := encrypt_ok_iff.mp hrun
    obtain ⟨sealed', hsealed'⟩ := Option.isSome_iff_exists.mp
      (hblind (Option.isSome_iff_exists.mpr ⟨sealed, hsealed⟩) nonce')
    have hbody : encodeResponseBody aead nonce' (some key) resp =
        .ok (nonce'.bytes ++ sealed') := by
      unfold encodeResponseBody sealBody
      dsimp only
      rw [encrypt_ok_iff.mpr ⟨hkey, sealed', hsealed', rfl⟩]
      rfl
    exact ⟨_, hbody, (length_encodeResponseBody hlaw hbody).trans hlength.symm⟩

/-- What a reply decodes to does not depend on its nonce; it is nothing if the reply
cannot be sealed or framed. -/
theorem replyBytes_decodes {aead : Aead} (hlaw : aead.Lawful) (hblind : NonceBlind aead)
    (key : List UInt8) (reply : UInt32 × Response) :
    ∃ resps, ∀ bytes, IsReply aead key bytes reply → Concat (DecodesTo aead key) bytes resps := by
  obtain ⟨seq, resp⟩ := reply
  by_cases hsent : ∃ nonce body, encodeResponseBody aead nonce (some key) resp = .ok body ∧
      totalLen body ≤ maxFrameSize
  · obtain ⟨nonce, body, hencode, hfits⟩ := hsent
    refine ⟨[⟨resp.status, arrival resp.payload, seq⟩], ?_⟩
    rintro _ ⟨nonce', rfl⟩
    obtain ⟨body', hencode', hlength⟩ := encodeResponseBody_blind hlaw hblind hencode nonce'
    have htotal : totalLen body' = totalLen body := by
      unfold totalLen
      rw [hlength]
    have hframe : encodeFrame seq body' = .ok (Frame.bytes ⟨seq, body'⟩) :=
      encodeFrame_ok_iff.mpr ⟨htotal ▸ hfits, rfl⟩
    have hbytes : replyBytes aead nonce' key seq resp = Frame.bytes ⟨seq, body'⟩ := by
      unfold replyBytes
      rw [hencode']
      dsimp only
      rw [hframe]
    exact .single ⟨body', hbytes, decodeResponse_encodeResponseBody hlaw seq hencode'⟩
  · refine ⟨[], ?_⟩
    rintro _ ⟨nonce, rfl⟩
    have hnothing : replyBytes aead nonce key seq resp = [] := by
      unfold replyBytes
      cases hencode : encodeResponseBody aead nonce (some key) resp with
      | error e => rfl
      | ok body =>
        dsimp only
        cases hframe : encodeFrame seq body with
        | error e => rfl
        | ok buf =>
          exact absurd ⟨nonce, body, hencode, (encodeFrame_ok_iff.mp hframe).1⟩ hsent
    dsimp only
    rw [hnothing]
    exact .nil

/-! ### A channel in service -/

/-- On the channel these requests have been served since it was as in `base`. -/
structure Serving (srv : Server σ) (sess : Session) (base : Channel) (app₀ : σ)
    (done : List (Ask srv.aead sess.key)) (app : σ) (chan : Channel) : Prop where
  app_eq : app = appAfter srv sess app₀ done
  calls_eq : calls chan.log = calls base.log ++ collect srv sess (callOf srv sess) app₀ done
  sent : ∃ out, chan.send = ⟨base.send.written ++ out, none⟩ ∧
    Concat (IsReply srv.aead sess.key) out (collect srv sess (replyOf srv sess) app₀ done)

namespace Serving

variable {srv : Server σ} {sess : Session} {base chan : Channel} {app₀ app : σ}
  {done : List (Ask srv.aead sess.key)}

theorem start {base : Channel} (hsend : base.send = ⟨base.send.written, none⟩) (app : σ) :
    Serving srv sess base app [] app base where
  app_eq := rfl
  calls_eq := (List.append_nil _).symm
  sent := ⟨[], hsend.trans (by rw [List.append_nil]), .nil⟩

/-- Nothing is called or written. -/
theorem quiet (h : Serving srv sess base app₀ done app chan) {chan' : Channel}
    (hcalls : calls chan'.log = calls chan.log) (hsend : chan'.send = chan.send) :
    Serving srv sess base app₀ done app chan' where
  app_eq := h.app_eq
  calls_eq := hcalls.trans h.calls_eq
  sent := hsend ▸ h.sent

theorem note (h : Serving srv sess base app₀ done app chan) {events : List Event}
    (hcalls : calls events = []) : Serving srv sess base app₀ done app (chan.note events) := by
  refine h.quiet ?_ rfl
  change calls (chan.log ++ events) = _
  rw [calls_append, hcalls, List.append_nil]

theorem net (h : Serving srv sess base app₀ done app chan) {chan' : Channel} {now : Instant}
    {action : NetAction} (hkeeps : action.keepsWriting = true)
    (hnet : chan.net now action = some chan') : Serving srv sess base app₀ done app chan' := by
  unfold Channel.net at hnet
  cases action with
  | deliver bytes =>
    obtain ⟨-, hsome⟩ := Option.ite_none_right_eq_some.mp hnet
    obtain rfl := Option.some.inj hsome
    exact h.quiet ((calls_append _ _).trans (List.append_nil _)) rfl
  | hangup kind =>
    obtain ⟨-, hsome⟩ := Option.ite_none_right_eq_some.mp hnet
    obtain rfl := Option.some.inj hsome
    exact h.quiet rfl rfl
  | limit room kind => cases hkeeps

/-- The next request is served: its handler is called, if it has one, and it is answered. -/
theorem answered (h : Serving srv sess base app₀ done app chan) (ask : Ask srv.aead sess.key)
    {cause : Cause} {resp : Response}
    (hanswer : (serve srv sess app ask).answer = some (cause, resp)) (nonce : Nonce) :
    Serving srv sess base app₀ (done ++ [ask]) (serve srv sess app ask).app
      ((chan.note (dispatchEvents (serve srv sess app ask).called ask.request ask.seq)).reply
        srv.aead nonce sess.key cause ask.seq resp) := by
  obtain ⟨out, hsend, hout⟩ := h.sent
  constructor
  · rw [appAfter_concat, ← h.app_eq]
  · have hcall : calls (dispatchEvents (serve srv sess app ask).called ask.request ask.seq) =
        callOf srv sess app ask := by
      unfold dispatchEvents callOf
      split <;> rfl
    rw [Channel.log_reply, collect_concat, ← h.app_eq, ← List.append_assoc, ← h.calls_eq]
    change calls (chan.log ++ _ ++ _) = _
    rw [calls_append, calls_append, hcall]
    exact List.append_nil _
  · have hreply : replyOf srv sess app ask = [(ask.seq, resp)] := by
      unfold replyOf
      rw [hanswer]
      rfl
    refine ⟨out ++ replyBytes srv.aead nonce sess.key ask.seq resp, ?_, ?_⟩
    · have hnoted (events : List Event) :
          (chan.note events).send = ⟨base.send.written ++ out, none⟩ := hsend
      rw [send_reply (hnoted _), List.append_assoc]
    · rw [collect_concat, ← h.app_eq, hreply]
      exact hout.append (.single ⟨nonce, rfl⟩)

end Serving

end Hush.Server
