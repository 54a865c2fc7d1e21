import Hush.Server.Answers
import Hush.Server.Greeters

/-! What a TCP connection reads and writes after its handshake: it answers one
request after the other, in the order in which they were read, and the last
thing that it writes may be that its session has expired. -/
namespace Hush.Server

open Hush.Foundation Execution
open Hush.Frame hiding Request
open Hush.Session

variable {σ : Type}

/-- An answer: why, under which sequence number, and what. -/
abbrev Answer := Cause × UInt32 × Response

/-- The answers given, in order. -/
def answers (log : List Event) : List Answer :=
  log.filterMap fun e => match e with
    | .answered cause seq resp => some (cause, seq, resp)
    | _ => none

@[simp] theorem answers_append (log events : List Event) :
    answers (log ++ events) = answers log ++ answers events := List.filterMap_append

@[simp] theorem answers_receivedFrame (key : List UInt8) (recv : Source) :
    answers (receivedFrame key recv) = [] := by
  unfold receivedFrame
  split <;> rfl

@[simp] theorem answers_dispatchEvents (called : Bool) (req : Request) (seq : UInt32) :
    answers (dispatchEvents called req seq) = [] := by
  unfold dispatchEvents
  split <;> rfl

/-- A response whose sealed body fits a frame, or is refused. -/
def ResponseKept (resp : Response) : Prop :=
  LengthKept ((appendPayload [resp.status.toU8] resp.payload).length + (nonceSize + tagSize))

/-- What was written of an answer: nothing, or one frame that decodes to it. -/
def Carries (aead : Aead) (key : List UInt8) (answer : Answer) (out : List UInt8) : Prop :=
  out = [] ∨ ∃ frame : Frame, frame.Fits ∧ out = frame.bytes ∧
    decodeResponse aead (some key) frame.body =
      .ok ⟨answer.2.2.status, arrival answer.2.2.payload, answer.2.1⟩

theorem carries_replyBytes {aead : Aead} (hlaw : aead.Lawful) (nonce : Nonce) (key : List UInt8)
    (cause : Cause) (seq : UInt32) {resp : Response} (hlengths : ResponseKept resp) :
    Carries aead key (cause, seq, resp) (replyBytes aead nonce key seq resp) := by
  unfold replyBytes
  split
  · rename_i body hbody
    split
    · rename_i buf hbuf
      unfold ResponseKept at hlengths
      rw [← length_encodeResponseBody hlaw hbody] at hlengths
      exact .inr ⟨⟨seq, body⟩, fits_of_encodeFrame hbuf hlengths,
        (encodeFrame_ok_iff.mp hbuf).2, decodeResponse_encodeResponseBody hlaw seq hbody⟩
    · exact .inl rfl
  · exact .inl rfl

/-- The handshake of a connection: the id of its session, what the server made of
the hello, and the bytes of the hello and of the reply. -/
structure Joining where
  sid : UInt64
  est : Established
  hello : List UInt8
  reply : List UInt8

/-- The session that the connection inserts, at some time. -/
def Joining.Opens (join : Joining) (sess : Session) : Prop :=
  ∃ now, sess = .new now join.sid join.est.apiKeyId join.est.sessionKey

theorem Joining.Opens.key {join : Joining} {sess : Session} (h : join.Opens sess) :
    sess.key = join.est.sessionKey := by
  obtain ⟨now, rfl⟩ := h
  rfl

/-- A request that was read and answered, and what was written of the answer. -/
structure Exchange where
  frame : Frame
  cause : Cause
  seq : UInt32
  resp : Response
  out : List UInt8

def Exchange.answer (ex : Exchange) : Answer := (ex.cause, ex.seq, ex.resp)

/-- The answer is what the server computed for the request of the frame, in some
state of the application. -/
def Exchange.Served (srv : Server σ) (join : Joining) (ex : Exchange) : Prop :=
  ∃ sess freq app nonce, join.Opens sess ∧
    decodeRequest srv.aead (some join.est.sessionKey) ex.frame.body = .ok (freq, ex.seq) ∧
    (tcpServe srv sess freq ex.seq app).answer = some (ex.cause, ex.resp) ∧
    ex.out = replyBytes srv.aead nonce join.est.sessionKey ex.seq ex.resp

/-- The task no longer reads. -/
def TcpPhase.isOver : TcpPhase → Bool
  | .closing _ => true
  | .ended _ => true
  | _ => false

/-- A task that no longer reads writes nothing more. -/
theorem TcpMoves.over {srv : Server σ} {sid : UInt64} {sh sh' : Shared σ} {chan : Channel}
    {phase : TcpPhase} {task' : TcpTask} (h : TcpMoves srv sid sh chan phase sh' task')
    (hover : phase.isOver = true) : task'.phase.isOver = true ∧ task'.chan = chan := by
  cases h with
  | closed => exact ⟨rfl, rfl⟩
  | _ => cases hover

/-- The task has read a request and not yet answered it. -/
def TcpPhase.isDispatching : TcpPhase → Bool
  | .loop _ (.dispatch _ _) => true
  | _ => false

/-- The frames that were read and wait for their answer. -/
def Standing (srv : Server σ) (join : Joining) (waiting : List Frame) : TcpPhase → Prop
  | .insert est => est = join.est ∧ waiting = []
  | .loop sess (.dispatch freq seq) => join.Opens sess ∧ ∃ frame, waiting = [frame] ∧
      decodeRequest srv.aead (some join.est.sessionKey) frame.body = .ok (freq, seq)
  | .loop sess _ => join.Opens sess ∧ waiting = []
  | _ => False

theorem Standing.waiting_nil {srv : Server σ} {join : Joining} {waiting : List Frame}
    {phase : TcpPhase} (h : Standing srv join waiting phase) (hidle : phase.isDispatching = false) :
    waiting = [] := by
  unfold Standing at h
  split at h
  · exact h.2
  · cases hidle
  · exact h.2
  · exact h.elim

/-- What was written at the end: nothing, or that the session has expired. -/
def Parting (srv : Server σ) (join : Joining) (last : List (Answer × List UInt8)) : Prop :=
  last = [] ∨ ∃ nonce, last = [((.expiry, 0, expiredResponse),
    replyBytes srv.aead nonce join.est.sessionKey 0 expiredResponse)]

/-- The conversation so far: the exchanges, the frames read after them, and what
was written after them. -/
structure Conversed (srv : Server σ) (join : Joining) (task : TcpTask) (exs : List Exchange)
    (waiting : List Frame) (last : List (Answer × List UInt8)) : Prop where
  room : task.chan.send.room = none
  written : task.chan.send.written =
    join.reply ++ (exs.flatMap (·.out) ++ last.flatMap (·.2))
  reads : reads task.chan.log =
    (exs.map (·.frame) ++ waiting).map fun frame => (join.est.sessionKey, frame)
  fits : ∀ frame ∈ exs.map (·.frame) ++ waiting, frame.Fits
  arrived : join.hello ++ readBytes task.chan.log <+: arrivedBytes task.chan.log
  answers : answers task.chan.log = exs.map (·.answer) ++ last.map (·.1)
  served : ∀ ex ∈ exs, ex.Served srv join
  parting : Parting srv join last
  standing : task.phase.isOver = false →
    last = [] ∧ InStep join.hello task.chan ∧ Standing srv join waiting task.phase

theorem Exchange.Served.carries {srv : Server σ} {join : Joining} {ex : Exchange}
    (hlaw : srv.aead.Lawful) (h : ex.Served srv join) (hlengths : ResponseKept ex.resp) :
    Carries srv.aead join.est.sessionKey ex.answer ex.out := by
  obtain ⟨sess, freq, app, nonce, -, -, -, hout⟩ := h
  rw [hout]
  exact carries_replyBytes hlaw nonce join.est.sessionKey ex.cause ex.seq hlengths

namespace Conversed

variable {srv : Server σ} {join : Joining} {task : TcpTask} {exs : List Exchange}
  {waiting : List Frame} {last : List (Answer × List UInt8)}

theorem readBytes_eq (h : Conversed srv join task exs waiting last) :
    readBytes task.chan.log = (exs.map (·.frame) ++ waiting).flatMap (·.bytes) := by
  unfold readBytes
  rw [h.reads, List.flatMap_map]

/-- Events that are neither reads nor answers, while nothing is written. -/
theorem advance (h : Conversed srv join task exs waiting last) {task' : TcpTask}
    (events : List Event) (hsend : task'.chan.send = task.chan.send)
    (hlog : task'.chan.log = task.chan.log ++ events) (hreads : Server.reads events = [])
    (hanswers : Server.answers events = [])
    (hstanding : task'.phase.isOver = false →
      last = [] ∧ InStep join.hello task'.chan ∧ Standing srv join waiting task'.phase) :
    Conversed srv join task' exs waiting last := by
  refine ⟨by rw [hsend]; exact h.room, by rw [hsend]; exact h.written, ?_, h.fits, ?_, ?_, h.served,
    h.parting, hstanding⟩
  · rw [hlog, reads_append, hreads, List.append_nil]
    exact h.reads
  · have hbytes : readBytes events = [] := by
      unfold readBytes
      rw [hreads]
      rfl
    rw [hlog, readBytes_append, hbytes, List.append_nil, arrivedBytes_append]
    exact h.arrived.trans (List.prefix_append _ _)
  · rw [hlog, answers_append, hanswers, List.append_nil]
    exact h.answers

theorem net (h : Conversed srv join task exs waiting last) {chan' : Channel} {now : Instant}
    {action : NetAction} (hkeeps : action.keepsWriting = true)
    (hnet : task.chan.net now action = some chan') :
    Conversed srv join { task with chan := chan' } exs waiting last := by
  have hstanding (hopen : task.phase.isOver = false) :
      last = [] ∧ InStep join.hello chan' ∧ Standing srv join waiting task.phase := by
    obtain ⟨hlast, hstep, hphase⟩ := h.standing hopen
    exact ⟨hlast, hstep.net hnet, hphase⟩
  unfold Channel.net at hnet
  cases action with
  | deliver bytes =>
    dsimp only at hnet
    split at hnet
    · obtain rfl := Option.some.inj hnet
      exact h.advance [.arrived now bytes] rfl rfl rfl rfl hstanding
    · cases hnet
  | hangup kind =>
    dsimp only at hnet
    split at hnet
    · obtain rfl := Option.some.inj hnet
      exact h.advance [] rfl (List.append_nil _).symm rfl rfl hstanding
    · cases hnet
  | limit room kind => cases hkeeps

/-- The next frame is read. -/
theorem read (h : Conversed srv join task exs [] last) {recv : Source} {frame : Frame}
    (hstep : InStep join.hello task.chan) (hread : readFrameAsync task.chan.recv = .ok (frame, recv))
    {task' : TcpTask} (hsend : task'.chan.send = task.chan.send)
    (hlog : task'.chan.log = task.chan.log ++ [.received join.est.sessionKey frame])
    (hstanding : task'.phase.isOver = false →
      last = [] ∧ InStep join.hello task'.chan ∧ Standing srv join [frame] task'.phase) :
    Conversed srv join task' exs [frame] last := by
  obtain ⟨hfits, hbytes, -⟩ := readFrameFrom_sound hread
  refine ⟨by rw [hsend]; exact h.room, by rw [hsend]; exact h.written, ?_, ?_, ?_, ?_, h.served,
    h.parting, hstanding⟩
  · rw [hlog, reads_append, h.reads, List.append_nil, List.map_append]
    rfl
  · intro other hin
    obtain hold | hnew := List.mem_append.mp hin
    · exact h.fits other (List.mem_append_left _ hold)
    · obtain rfl := List.mem_singleton.mp hnew
      exact hfits
  · unfold InStep at hstep
    rw [hlog, readBytes_append, arrivedBytes_append, ← hstep, hbytes]
    refine ⟨recv.bytes, ?_⟩
    simp [readBytes, Server.reads, arrivedBytes]
  · rw [hlog, answers_append, h.answers]
    exact List.append_nil _

/-- Every answer was written as one frame, or not at all. -/
theorem carries (h : Conversed srv join task exs waiting last) (hlaw : srv.aead.Lawful)
    (hlengths : ∀ answer ∈ Server.answers task.chan.log, ResponseKept answer.2.2) :
    (∀ ex ∈ exs, Carries srv.aead join.est.sessionKey ex.answer ex.out) ∧
      ∀ part ∈ last, Carries srv.aead join.est.sessionKey part.1 part.2 := by
  rw [h.answers] at hlengths
  constructor
  · intro ex hex
    exact (h.served ex hex).carries hlaw
      (hlengths ex.answer (List.mem_append_left _ (List.mem_map_of_mem hex)))
  · intro part hpart
    have hresp := hlengths part.1 (List.mem_append_right _ (List.mem_map_of_mem hpart))
    obtain rfl | ⟨nonce, rfl⟩ := h.parting
    · cases hpart
    · obtain rfl := List.mem_singleton.mp hpart
      exact carries_replyBytes hlaw nonce _ .expiry 0 hresp

theorem send_eq (h : Conversed srv join task exs waiting last) : task.chan.send =
    ⟨join.reply ++ (exs.flatMap (·.out) ++ last.flatMap (·.2)), none⟩ := by
  rw [← h.written, ← h.room]

/-- The session has expired, and the task says so. -/
theorem expire (h : Conversed srv join task exs waiting []) (nonce : Nonce) {task' : TcpTask}
    (hchan : task'.chan =
      task.chan.reply srv.aead nonce join.est.sessionKey .expiry 0 expiredResponse)
    (hover : task'.phase.isOver = true) :
    Conversed srv join task' exs waiting [((.expiry, 0, expiredResponse),
      replyBytes srv.aead nonce join.est.sessionKey 0 expiredResponse)] := by
  have hsend := send_reply h.send_eq srv.aead nonce join.est.sessionKey .expiry 0 expiredResponse
  have hlog := Channel.log_reply task.chan srv.aead nonce join.est.sessionKey .expiry 0 expiredResponse
  rw [← hchan] at hsend hlog
  refine ⟨by rw [hsend], ?_, ?_, h.fits, ?_, ?_, h.served, .inr ⟨nonce, rfl⟩, by simp [hover]⟩
  · rw [hsend]
    simp
  · rw [hlog, reads_append, h.reads]
    exact List.append_nil _
  · rw [hlog, readBytes_append, arrivedBytes_append]
    simpa [readBytes, Server.reads, arrivedBytes] using h.arrived
  · rw [hlog, answers_append, h.answers]
    simp [Server.answers]

/-- The request that waits is answered. -/
theorem exchanged (ex : Exchange) (h : Conversed srv join task exs [ex.frame] [])
    (hserved : ex.Served srv join) {nonce : Nonce} {task' : TcpTask}
    (hout : ex.out = replyBytes srv.aead nonce join.est.sessionKey ex.seq ex.resp)
    (hchan : task'.chan =
      task.chan.reply srv.aead nonce join.est.sessionKey ex.cause ex.seq ex.resp)
    (hstanding : InStep join.hello task'.chan ∧ Standing srv join [] task'.phase) :
    Conversed srv join task' (exs ++ [ex]) [] [] := by
  have hsend := send_reply h.send_eq srv.aead nonce join.est.sessionKey ex.cause ex.seq ex.resp
  have hlog := Channel.log_reply task.chan srv.aead nonce join.est.sessionKey ex.cause ex.seq ex.resp
  rw [← hchan] at hsend hlog
  have hframes : (exs ++ [ex]).map (·.frame) ++ [] = exs.map (·.frame) ++ [ex.frame] := by simp
  refine ⟨by rw [hsend], ?_, ?_, by rw [hframes]; exact h.fits, ?_, ?_, ?_, .inl rfl,
    fun _ => ⟨rfl, hstanding⟩⟩
  · rw [hsend, ← hout]
    simp
  · rw [hlog, reads_append, h.reads, hframes]
    exact List.append_nil _
  · rw [hlog, readBytes_append, arrivedBytes_append]
    simpa [readBytes, Server.reads, arrivedBytes] using h.arrived
  · rw [hlog, answers_append, h.answers]
    simp [Server.answers, Exchange.answer]
  · intro other hin
    obtain hold | hnew := List.mem_append.mp hin
    · exact h.served other hold
    · obtain rfl := List.mem_singleton.mp hnew
      exact hserved

/-- A step of the task: the exchanges so far stay, and no more than one is new. -/
theorem moves {sh sh' : Shared σ} {task' : TcpTask} (h : Conversed srv join task exs waiting last)
    (hmoves : TcpMoves srv join.sid sh task.chan task.phase sh' task') :
    ∃ exs' waiting' last', Conversed srv join task' exs' waiting' last' ∧ exs <+: exs' := by
  obtain ⟨chan, phase⟩ := task
  dsimp only at hmoves
  have hstanding := h.standing
  dsimp only at hstanding
  cases hmoves with
  | refused _ => exact (hstanding rfl).2.2.elim
  | accepted _ => exact (hstanding rfl).2.2.elim
  | @inserted est sess hsess =>
    obtain ⟨hlast, hstep, rfl, hwaiting⟩ := hstanding rfl
    exact ⟨exs, waiting, last, h.advance [.established sess] rfl rfl rfl rfl
      fun _ => ⟨hlast, hstep.noted rfl rfl, ⟨_, hsess⟩, hwaiting⟩, List.prefix_rfl⟩
  | fetched =>
    obtain ⟨hlast, hstep, hphase⟩ := hstanding rfl
    exact ⟨exs, waiting, last, h.advance [] rfl (List.append_nil _).symm rfl rfl
      fun _ => ⟨hlast, hstep, hphase⟩, List.prefix_rfl⟩
  | touched =>
    obtain ⟨hlast, hstep, hphase⟩ := hstanding rfl
    exact ⟨exs, waiting, last, h.advance [] rfl (List.append_nil _).symm rfl rfl
      fun _ => ⟨hlast, hstep, hphase⟩, List.prefix_rfl⟩
  | @alive sess found _ =>
    obtain ⟨hlast, hstep, hphase⟩ := hstanding rfl
    exact ⟨exs, waiting, last, h.advance [.checked found sh.now] rfl rfl rfl rfl
      fun _ => ⟨hlast, hstep.noted rfl rfl, hphase⟩, List.prefix_rfl⟩
  | @expired sess found nonce _ =>
    obtain ⟨rfl, hstep, hopens, rfl⟩ := hstanding rfl
    have hnoted : Conversed srv join ⟨chan.note [.checked found sh.now], .loop sess .touch⟩ exs [] [] :=
      h.advance [.checked found sh.now] rfl rfl rfl rfl fun _ =>
        ⟨rfl, hstep.noted rfl rfl, hopens, rfl⟩
    rw [hopens.key]
    exact ⟨exs, [], _, hnoted.expire nonce rfl rfl, List.prefix_rfl⟩
  | @unread sess e herror =>
    obtain ⟨hlast, hstep, hopens, rfl⟩ := hstanding rfl
    rw [hopens.key]
    match hread : readFrameAsync chan.recv with
    | .error e' =>
      rw [receivedFrame_error hread]
      exact ⟨exs, [], last, h.advance [] rfl rfl rfl rfl fun hopen => absurd hopen (by simp [TcpPhase.isOver]),
        List.prefix_rfl⟩
    | .ok (frame, recv) =>
      rw [receivedFrame_ok hread]
      exact ⟨exs, [frame], last, h.read hstep hread rfl rfl
        fun hopen => absurd hopen (by simp [TcpPhase.isOver]), List.prefix_rfl⟩
  | @read sess freq seq recv hok =>
    obtain ⟨hlast, hstep, hopens, rfl⟩ := hstanding rfl
    obtain ⟨frame, hread, hdecode⟩ := readRequestAsync_ok hok
    rw [hopens.key] at hdecode ⊢
    rw [receivedFrame_ok hread]
    have hstep' : InStep join.hello
        { chan.note [.received join.est.sessionKey frame] with recv } := by
      have hbytes := (readFrameFrom_sound hread).2.1
      unfold InStep at hstep ⊢
      rw [hbytes] at hstep
      simpa [Channel.note, readBytes, Server.reads, arrivedBytes] using hstep
    exact ⟨exs, [frame], last, h.read hstep hread rfl rfl
      fun _ => ⟨hlast, hstep', hopens, frame, rfl, hdecode⟩, List.prefix_rfl⟩
  | @panicked sess freq seq served _ _ =>
    obtain ⟨hreads, -⟩ := reads_dispatchEvents served.called (toRequest sess.id sess.apiKeyId freq) seq
    exact ⟨exs, waiting, last, h.advance _ rfl rfl hreads (answers_dispatchEvents _ _ _)
      fun hopen => absurd hopen (by simp [TcpPhase.isOver]), List.prefix_rfl⟩
  | @answered sess freq seq served cause resp nonce hserved hanswer =>
    obtain ⟨rfl, hstep, hopens, frame, rfl, hdecode⟩ := hstanding rfl
    subst hserved
    have hcalled := hstep.called (tcpServe srv sess freq seq sh.app).called
      (toRequest sess.id sess.apiKeyId freq) seq
    obtain ⟨hreads, -⟩ := reads_dispatchEvents (tcpServe srv sess freq seq sh.app).called
      (toRequest sess.id sess.apiKeyId freq) seq
    have hnoted : Conversed srv join ⟨chan.note _, .loop sess (.dispatch freq seq)⟩ exs [frame] [] :=
      h.advance _ rfl rfl hreads (answers_dispatchEvents _ _ _)
        fun _ => ⟨rfl, hcalled, hopens, frame, rfl, hdecode⟩
    have hstep' := hcalled.quiet (Channel.log_reply _ srv.aead nonce sess.key cause seq resp)
      (by simp [Event.IsQuiet]) rfl
    have hsame := hopens.key
    refine ⟨_, [], [], exchanged ⟨frame, cause, seq, resp,
      replyBytes srv.aead nonce join.est.sessionKey seq resp⟩ hnoted
        ⟨sess, freq, sh.app, nonce, hopens, hdecode, hanswer, rfl⟩ rfl ?_ ⟨hstep', hopens, rfl⟩,
      List.prefix_append _ _⟩
    rw [hsame]
  | closed =>
    exact ⟨exs, waiting, last, h.advance [] rfl (List.append_nil _).symm rfl rfl
      fun hopen => absurd hopen (by simp [TcpPhase.isOver]), List.prefix_rfl⟩

end Conversed

end Hush.Server
