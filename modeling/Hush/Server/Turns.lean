import Hush.Server.Conversation
import Hush.Server.Listen

/-! Turns: a server that serves one request after the other, and what a step of a connection's task
is to it. -/
namespace Hush.Server

open Hush.Foundation Execution
open Hush.Frame hiding Request
open Hush.Session

variable {σ : Type}

/-! ### One request after the other -/

/-- A request when it is served: the connection that it came on, and the stream if it is QUIC; the
session and its key. -/
structure Turn where
  conn : Nat
  stream : Option Nat
  sessionId : UInt64
  apiKeyId : String
  key : List UInt8
  freq : Frame.Request
  seq : UInt32

/-- What comes of a request that has the application state to itself. -/
def Turn.serve (srv : Server σ) (turn : Turn) (app : σ) : Served σ :=
  let req := toRequest turn.sessionId turn.apiKeyId turn.freq
  match srv.handlers turn.freq.opcode, turn.stream with
  | none, _ => ⟨false, app, some (.notFound, notFoundResponse turn.freq.opcode turn.seq)⟩
  | some (.stream _), none =>
    let m := Tlv.MapOf.new.set "error" (.string "streaming not supported over TCP")
    ⟨false, app, some (.streaming, ⟨.badRequest, some m, turn.seq⟩)⟩
  | some (.stream handler), some _ => ⟨true, handler req turn.key app, none⟩
  | some (.sync handler), _ => callHandler handler req app

/-- Serve the requests one after the other. -/
def inTurn (srv : Server σ) : σ → List Turn → List (Turn × Served σ)
  | _, [] => []
  | app, turn :: rest =>
    (turn, turn.serve srv app) :: inTurn srv (turn.serve srv app).app rest

def appAfterTurns (srv : Server σ) (app : σ) (turns : List Turn) : σ :=
  turns.foldl (fun app turn => (turn.serve srv app).app) app

theorem inTurn_concat (srv : Server σ) (app : σ) (turns : List Turn) (turn : Turn) :
    inTurn srv app (turns ++ [turn]) =
      inTurn srv app turns ++ [(turn, turn.serve srv (appAfterTurns srv app turns))] := by
  induction turns generalizing app with
  | nil => rfl
  | cons first rest ih =>
    rw [List.cons_append, inTurn, ih, inTurn]
    rfl

theorem appAfterTurns_concat (srv : Server σ) (app : σ) (turns : List Turn) (turn : Turn) :
    appAfterTurns srv app (turns ++ [turn]) =
      (turn.serve srv (appAfterTurns srv app turns)).app := by
  unfold appAfterTurns
  rw [List.foldl_append]
  rfl

/-- A connection, and a stream on it if it is QUIC. -/
abbrev Place := Nat × Option Nat

def Turn.place (turn : Turn) : Place := (turn.conn, turn.stream)

/-- The answers to the requests that came at a place. -/
def answersTo (place : Place) (done : List (Turn × Served σ)) : List Answer :=
  done.flatMap fun entry =>
    if entry.1.place = place then
      (entry.2.answer.map fun answer => (answer.1, entry.1.seq, answer.2)).toList
    else []

/-- The requests that came at a place. -/
def requestsAt (place : Place) (turns : List Turn) : List (Frame.Request × UInt32) :=
  turns.flatMap fun turn => if turn.place = place then [(turn.freq, turn.seq)] else []

/-! ### The connections in any order -/

/-- The request that a step serves, if it serves one. -/
def Listening.turn (s : Listening σ) : ListenAction σ → Option Turn
  | .tcp index (.run _) =>
    match s.conns[index]? with
    | some (_, .tcp ⟨_, .loop sess (.dispatch freq seq)⟩) =>
      some ⟨index, none, sess.id, sess.apiKeyId, sess.key, freq, seq⟩
    | _ => none
  | .quic index (.stream stream _) =>
    match s.conns[index]? with
    | some (_, .quic _ _ streams) =>
      match streams[stream]? with
      | some ⟨sid, apiKeyId, _, .dispatch key freq seq⟩ =>
        some ⟨index, some stream, sid, apiKeyId, key, freq, seq⟩
      | _ => none
    | _ => none
  | _ => none

/-- The requests that a run serves, in the order of its steps. -/
def turns (srv : Server σ) : Listening σ → List (ListenAction σ) → List Turn
  | _, [] => []
  | s, a :: rest => (s.turn a).toList ++ (listenStep srv s a).elim [] fun s' => turns srv s' rest

/-- An answer to a request that was served, with its handler or for want of one. -/
def Cause.isServed : Cause → Bool
  | .expiry => false
  | .badRequest => false
  | _ => true

def servedAnswers (log : List Event) : List Answer := (answers log).filter fun a => a.1.isServed

/-- The requests that were read and understood. -/
def requestsRead (aead : Aead) (log : List Event) : List (Frame.Request × UInt32) :=
  (reads log).flatMap fun read => (decodeRequest aead (some read.1) read.2.body).toOption.toList

@[simp] theorem servedAnswers_append (log events : List Event) :
    servedAnswers (log ++ events) = servedAnswers log ++ servedAnswers events := by
  unfold servedAnswers
  rw [answers_append, List.filter_append]

@[simp] theorem requestsRead_append (aead : Aead) (log events : List Event) :
    requestsRead aead (log ++ events) = requestsRead aead log ++ requestsRead aead events := by
  unfold requestsRead
  rw [reads_append, List.flatMap_append]

/-- The log at a place, and the request there that was read and is not served yet. -/
structure View where
  log : List Event
  waiting : List (Frame.Request × UInt32)

def TcpTask.view (task : TcpTask) : View where
  log := task.chan.log
  waiting :=
    match task.phase with
    | .loop _ (.dispatch freq seq) => [(freq, seq)]
    | _ => []

def StreamTask.view (task : StreamTask) : View where
  log := task.chan.log
  waiting :=
    match task.phase with
    | .dispatch _ freq seq => [(freq, seq)]
    | _ => []

def Connection.view : Connection → Option Nat → View
  | .tcp task, none => task.view
  | .quic _ _ streams, some stream => (streams[stream]?.map StreamTask.view).getD ⟨[], []⟩
  | _, _ => ⟨[], []⟩

def Listening.view (s : Listening σ) (place : Place) : View :=
  (s.conns[place.1]?.map fun conn => conn.2.view place.2).getD ⟨[], []⟩

/-- Nothing is served between the two, but a request may have been read. -/
structure Quiet (aead : Aead) (v v' : View) : Prop where
  answers : servedAnswers v'.log = servedAnswers v.log
  read : ∃ new, requestsRead aead v'.log = requestsRead aead v.log ++ new ∧
    v'.waiting = v.waiting ++ new

theorem Quiet.refl (aead : Aead) (v : View) : Quiet aead v v := ⟨rfl, [], by simp, by simp⟩

/-- The waiting request is served between the two. -/
structure Took (aead : Aead) (freq : Frame.Request) (seq : UInt32) (served : Served σ)
    (v v' : View) : Prop where
  answers : servedAnswers v'.log = servedAnswers v.log ++
    (served.answer.map fun answer => (answer.1, seq, answer.2)).toList
  read : requestsRead aead v'.log = requestsRead aead v.log
  waiting : v.waiting = [(freq, seq)]
  done : v'.waiting = []

/-- Events that are no answers and no reads. -/
theorem Quiet.noted {aead : Aead} {waiting : List (Frame.Request × UInt32)}
    (log events : List Event)
    (hanswers : servedAnswers events = []) (hreads : requestsRead aead events = []) :
    Quiet aead ⟨log, waiting⟩ ⟨log ++ events, waiting⟩ := by
  refine ⟨?_, [], ?_, (List.append_nil _).symm⟩
  · rw [servedAnswers_append, hanswers, List.append_nil]
  · rw [requestsRead_append, hreads]

theorem requestsRead_receivedFrame {aead : Aead} {key : List UInt8} {recv recv' : Source}
    {freq : Frame.Request} {seq : UInt32}
    (h : readRequestAsync aead recv (some key) = .ok ((freq, seq), recv')) :
    requestsRead aead (receivedFrame key recv) = [(freq, seq)] := by
  obtain ⟨frame, hframe, hdecode⟩ := readRequestAsync_ok h
  rw [receivedFrame_ok hframe]
  simp [requestsRead, reads, hdecode, Except.toOption]

theorem requestsRead_receivedFrame_error {aead : Aead} {key : List UInt8} {recv : Source}
    {e : RequestError} (h : readRequestAsync aead recv (some key) = .error e) :
    requestsRead aead (receivedFrame key recv) = [] := by
  cases hframe : readFrameAsync recv with
  | error e' =>
    rw [receivedFrame_error hframe]
    rfl
  | ok read =>
    obtain ⟨frame, recv'⟩ := read
    rw [receivedFrame_ok hframe]
    cases hdecode : decodeRequest aead (some key) frame.body with
    | error e' => simp [requestsRead, reads, hdecode, Except.toOption]
    | ok request =>
      unfold readRequestAsync at h
      rw [hframe] at h
      unfold Frame.body at hdecode
      simp only [Except.mapError, bind, Except.bind, hdecode] at h
      cases h

theorem servedAnswers_receivedFrame (key : List UInt8) (recv : Source) :
    servedAnswers (receivedFrame key recv) = [] := by
  unfold servedAnswers
  rw [answers_receivedFrame]
  rfl

theorem quiet_dispatchEvents (aead : Aead) (called : Bool) (req : Request) (seq : UInt32) :
    servedAnswers (dispatchEvents called req seq) = [] ∧
      requestsRead aead (dispatchEvents called req seq) = [] := by
  unfold servedAnswers requestsRead
  rw [answers_dispatchEvents, (reads_dispatchEvents called req seq).1]
  exact ⟨rfl, rfl⟩

/-- Answers to requests come from serving them. -/
theorem Turn.isServed {srv : Server σ} {turn : Turn} {app : σ} {cause : Cause} {resp : Response}
    (h : (turn.serve srv app).answer = some (cause, resp)) : cause.isServed = true := by
  have hcall (handler : SyncHandler σ) (req : Request)
      (hcall : (callHandler handler req app).answer = some (cause, resp)) :
      cause.isServed = true := by
    unfold callHandler at hcall
    cases houtcome : handler req app with
    | returned result app' =>
      rw [houtcome] at hcall
      cases result with
      | ok resp' =>
        obtain ⟨rfl, -⟩ := Prod.mk.inj (Option.some.inj hcall)
        rfl
      | error msg =>
        obtain ⟨rfl, -⟩ := Prod.mk.inj (Option.some.inj hcall)
        rfl
    | panicked app' =>
      rw [houtcome] at hcall
      cases hcall
  unfold Turn.serve at h
  dsimp only at h
  split at h
  · obtain ⟨rfl, -⟩ := Prod.mk.inj (Option.some.inj h)
    rfl
  · obtain ⟨rfl, -⟩ := Prod.mk.inj (Option.some.inj h)
    rfl
  · cases h
  · exact hcall _ _ h

theorem Took.of_reply (aead : Aead) (freq : Frame.Request) (seq : UInt32) {served : Served σ}
    (log : List Event) (req : Request)
    (hserved : ∀ cause resp, served.answer = some (cause, resp) → cause.isServed = true) :
    Took aead freq seq served ⟨log, [(freq, seq)]⟩
      ⟨log ++ dispatchEvents served.called req seq ++
        (served.answer.map fun answer => Event.answered answer.1 seq answer.2).toList, []⟩ := by
  obtain ⟨hanswers, hreads⟩ := quiet_dispatchEvents aead served.called req seq
  have hreply : servedAnswers
      (served.answer.map fun answer => Event.answered answer.1 seq answer.2).toList =
        (served.answer.map fun answer => (answer.1, seq, answer.2)).toList ∧
      requestsRead aead
        (served.answer.map fun answer => Event.answered answer.1 seq answer.2).toList = [] := by
    cases hanswer : served.answer with
    | none => exact ⟨rfl, rfl⟩
    | some answer =>
      have hcause : answer.1.isServed = true := hserved answer.1 answer.2 hanswer
      exact ⟨List.filter_cons_of_pos hcause, rfl⟩
  refine ⟨?_, ?_, rfl, rfl⟩
  · dsimp only
    rw [servedAnswers_append, servedAnswers_append, hanswers, hreply.1, List.append_nil]
  · dsimp only
    rw [requestsRead_append, requestsRead_append, hreads, hreply.2, List.append_nil,
      List.append_nil]

theorem tcpServe_turn (srv : Server σ) (conn : Nat) (sess : Session) (freq : Frame.Request)
    (seq : UInt32) (app : σ) : tcpServe srv sess freq seq app =
      Turn.serve srv ⟨conn, none, sess.id, sess.apiKeyId, sess.key, freq, seq⟩ app := by
  unfold tcpServe Turn.serve
  dsimp only
  cases srv.handlers freq.opcode with
  | none => rfl
  | some handlerType => cases handlerType <;> rfl

theorem quicServe_turn (srv : Server σ) (conn stream : Nat) (task : StreamTask) (key : List UInt8)
    (freq : Frame.Request) (seq : UInt32) (app : σ) : quicServe srv task key freq seq app =
      Turn.serve srv ⟨conn, some stream, task.sessionId, task.apiKeyId, key, freq, seq⟩ app := by
  unfold quicServe Turn.serve
  dsimp only
  cases srv.handlers freq.opcode with
  | none => rfl
  | some handlerType => cases handlerType <;> rfl

theorem tcpServe_isServed (srv : Server σ) (sess : Session) (freq : Frame.Request) (seq : UInt32)
    (app : σ) (cause : Cause) (resp : Response)
    (h : (tcpServe srv sess freq seq app).answer = some (cause, resp)) : cause.isServed = true := by
  rw [tcpServe_turn srv 0] at h
  exact Turn.isServed h

theorem quicServe_isServed (srv : Server σ) (task : StreamTask) (key : List UInt8)
    (freq : Frame.Request) (seq : UInt32) (app : σ) (cause : Cause) (resp : Response)
    (h : (quicServe srv task key freq seq app).answer = some (cause, resp)) :
    cause.isServed = true := by
  rw [quicServe_turn srv 0 0] at h
  exact Turn.isServed h

/-- A step of a TCP task serves the request that waits, or it is quiet. -/
theorem TcpMoves.view {srv : Server σ} {sid : UInt64} {sh sh' : Shared σ} {chan : Channel}
    {phase : TcpPhase} {task' : TcpTask} (h : TcpMoves srv sid sh chan phase sh' task') :
    (∃ sess freq seq, phase = .loop sess (.dispatch freq seq) ∧
        sh'.app = (tcpServe srv sess freq seq sh.app).app ∧
        Took srv.aead freq seq (tcpServe srv sess freq seq sh.app) (TcpTask.view ⟨chan, phase⟩)
          task'.view) ∨
      (∀ sess freq seq, phase ≠ .loop sess (.dispatch freq seq)) ∧ sh'.app = sh.app ∧
        Quiet srv.aead (TcpTask.view ⟨chan, phase⟩) task'.view := by
  cases h with
  | refused _ => exact .inr ⟨by simp, rfl, .refl _ _⟩
  | accepted _ => exact .inr ⟨by simp, rfl, .refl _ _⟩
  | inserted _ => exact .inr ⟨by simp, rfl, .noted _ _ rfl rfl⟩
  | fetched => exact .inr ⟨by simp, rfl, .refl _ _⟩
  | @expired sess found nonce _ =>
    refine .inr ⟨by simp, rfl, ?_⟩
    have hquiet : Quiet srv.aead ⟨chan.log, []⟩ ⟨_, []⟩ :=
      .noted chan.log [.checked found sh.now, .answered .expiry 0 expiredResponse] rfl rfl
    simpa [TcpTask.view, Channel.note] using hquiet
  | alive _ => exact .inr ⟨by simp, rfl, .noted _ _ rfl rfl⟩
  | touched => exact .inr ⟨by simp, rfl, .refl _ _⟩
  | unread herror =>
    exact .inr ⟨by simp, rfl, .noted _ _ (servedAnswers_receivedFrame _ _)
      (requestsRead_receivedFrame_error herror)⟩
  | @read sess freq seq recv hread =>
    refine .inr ⟨by simp, rfl, ?_, [(freq, seq)], ?_, rfl⟩
    · change servedAnswers (chan.log ++ _) = _
      rw [servedAnswers_append, servedAnswers_receivedFrame]
      exact List.append_nil _
    · change requestsRead srv.aead (chan.log ++ _) = _
      rw [requestsRead_append, requestsRead_receivedFrame hread]
      rfl
  | @panicked sess freq seq served hserve hanswer =>
    subst hserve
    refine .inl ⟨sess, freq, seq, rfl, rfl, ?_⟩
    have htook := Took.of_reply srv.aead freq seq chan.log (toRequest sess.id sess.apiKeyId freq)
      (tcpServe_isServed srv sess freq seq sh.app)
    simpa [TcpTask.view, Channel.note, hanswer] using htook
  | @answered sess freq seq served cause resp nonce hserve hanswer =>
    subst hserve
    refine .inl ⟨sess, freq, seq, rfl, rfl, ?_⟩
    have htook := Took.of_reply srv.aead freq seq chan.log (toRequest sess.id sess.apiKeyId freq)
      (tcpServe_isServed srv sess freq seq sh.app)
    simpa [TcpTask.view, Channel.note, hanswer] using htook
  | closed => exact .inr ⟨by simp, rfl, .refl _ _⟩

theorem StreamMoves.view {srv : Server σ} {sh sh' : Shared σ} {task task' : StreamTask}
    (h : StreamMoves srv sh task task.phase sh' task') :
    (∃ key freq seq, task.phase = .dispatch key freq seq ∧
        sh'.app = (quicServe srv task key freq seq sh.app).app ∧
        Took srv.aead freq seq (quicServe srv task key freq seq sh.app) task.view task'.view) ∨
      (∀ key freq seq, task.phase ≠ .dispatch key freq seq) ∧ sh'.app = sh.app ∧
        Quiet srv.aead task.view task'.view := by
  obtain ⟨sid, apiKeyId, chan, phase⟩ := task
  dsimp only at h ⊢
  cases h with
  | fetched => exact .inr ⟨by simp, rfl, .refl _ _⟩
  | @expired sess nonce _ =>
    refine .inr ⟨by simp, rfl, ?_⟩
    have hquiet : Quiet srv.aead ⟨chan.log, []⟩ ⟨_, []⟩ :=
      .noted chan.log [.checked (some sess) sh.now, .answered .expiry 0 expiredResponse] rfl rfl
    simpa [StreamTask.view, StreamTask.next, Channel.note] using hquiet
  | alive _ => exact .inr ⟨by simp, rfl, .noted _ _ rfl rfl⟩
  | keyed => exact .inr ⟨by simp, rfl, .refl _ _⟩
  | touched => exact .inr ⟨by simp, rfl, .refl _ _⟩
  | @unread key e nonce resp herror =>
    refine .inr ⟨by simp, rfl, ?_⟩
    have hquiet : Quiet srv.aead ⟨chan.log, []⟩ ⟨_, []⟩ := .noted chan.log
      (receivedFrame key chan.recv ++ [.answered .badRequest 0 resp])
      (by rw [servedAnswers_append, servedAnswers_receivedFrame]; rfl)
      (by rw [requestsRead_append, requestsRead_receivedFrame_error herror]; rfl)
    simpa [StreamTask.view, StreamTask.next, Channel.note] using hquiet
  | @read key freq seq recv hread =>
    refine .inr ⟨by simp, rfl, ?_, [(freq, seq)], ?_, rfl⟩
    · change servedAnswers (chan.log ++ _) = _
      rw [servedAnswers_append, servedAnswers_receivedFrame]
      exact List.append_nil _
    · change requestsRead srv.aead (chan.log ++ _) = _
      rw [requestsRead_append, requestsRead_receivedFrame hread]
      rfl
  | @unanswered key freq seq served hserve hanswer =>
    subst hserve
    refine .inl ⟨key, freq, seq, rfl, rfl, ?_⟩
    have htook := Took.of_reply srv.aead freq seq chan.log (toRequest sid apiKeyId freq)
      (quicServe_isServed srv ⟨sid, apiKeyId, chan, .dispatch key freq seq⟩ key freq seq sh.app)
    simpa [StreamTask.view, StreamTask.next, Channel.note, hanswer] using htook
  | @answered key freq seq served cause resp nonce hserve hanswer =>
    subst hserve
    refine .inl ⟨key, freq, seq, rfl, rfl, ?_⟩
    have htook := Took.of_reply srv.aead freq seq chan.log (toRequest sid apiKeyId freq)
      (quicServe_isServed srv ⟨sid, apiKeyId, chan, .dispatch key freq seq⟩ key freq seq sh.app)
    simpa [StreamTask.view, StreamTask.next, Channel.note, hanswer] using htook

end Hush.Server
