import Hush.Server.Conversation
import Hush.Server.QuicSession
import Hush.Server.Replay
import Hush.Server.TcpService

/-! What a request stream reads and writes: nothing until its request has been read, and then at
most one answer, to that request or to nothing that could be read. -/
namespace Hush.Server

open Hush.Foundation
open Hush.Frame hiding Request
open Hush.Session

variable {σ : Type}

/-! ### One reply on a stream that may fail -/

/-- Nothing more is written to the channel. -/
def Channel.Muted (chan : Channel) : Prop := ∃ kind, chan.send.room = some (0, kind)

/-- A reply is written from its front, or not at all. -/
theorem reply_part (chan : Channel) (aead : Aead) (nonce : Nonce) (key : List UInt8) (cause : Cause)
    (seq : UInt32) (resp : Response) :
    ∃ part, part <+: replyBytes aead nonce key seq resp ∧
      (chan.reply aead nonce key cause seq resp).send.written = chan.send.written ++ part ∧
      (chan.Muted → part = [] ∧ (chan.reply aead nonce key cause seq resp).Muted) := by
  unfold Channel.reply replyBytes Channel.Muted
  dsimp only
  cases encodeResponseBody aead nonce (some key) resp with
  | error e => exact ⟨[], List.nil_prefix, (List.append_nil _).symm, fun h => ⟨rfl, h⟩⟩
  | ok body =>
    dsimp only [writeFrameAsync, writeFrameTo]
    cases encodeFrame seq body with
    | error e => exact ⟨[], List.nil_prefix, (List.append_nil _).symm, fun h => ⟨rfl, h⟩⟩
    | ok buf =>
      dsimp only
      cases hwrite : chan.send.writeAll buf with
      | mk result send =>
        obtain ⟨part, hpart, hwritten, -⟩ := Stream.Sink.writeAll_takes hwrite
        have hmuted : (∃ kind, chan.send.room = some (0, kind)) →
            part = [] ∧ ∃ kind, send.room = some (0, kind) := by
          rintro ⟨kind, hroom⟩
          unfold Stream.Sink.writeAll at hwrite
          rw [hroom] at hwrite
          dsimp only at hwrite
          split at hwrite
          · rename_i hnone
            obtain ⟨-, rfl⟩ := Prod.mk.inj hwrite
            obtain rfl := List.eq_nil_of_length_eq_zero (Nat.le_zero.mp hnone)
            exact ⟨List.prefix_nil.mp hpart, kind, rfl⟩
          · obtain ⟨-, rfl⟩ := Prod.mk.inj hwrite
            rw [List.take_zero] at hwritten
            exact ⟨List.append_cancel_left hwritten.symm, kind, rfl⟩
        cases result with
        | ok _ => exact ⟨part, hpart, hwritten, hmuted⟩
        | error _ => exact ⟨part, hpart, hwritten, hmuted⟩

/-- Under the empty key no reply can be sealed. -/
theorem replyBytes_nil (aead : Aead) (nonce : Nonce) (seq : UInt32) (resp : Response) :
    replyBytes aead nonce [] seq resp = [] := by
  have hseal : encodeResponseBody aead nonce (some []) resp =
      .error (.session (.aes "invalid key length")) := rfl
  unfold replyBytes
  rw [hseal]

/-! ### The phases of a stream -/

/-- Nothing was read, called, answered or written. -/
structure Untouched (chan : Channel) : Prop where
  inStep : InStep [] chan
  reads : reads chan.log = []
  calls : calls chan.log = []
  answers : answers chan.log = []
  written : chan.send.written = []

/-- The one request of the stream was read. -/
structure ReadBy (srv : Server σ) (sess : Session) (log : List Event) (frame : Frame)
    (freq : Frame.Request) (seq : UInt32) : Prop where
  reads : Server.reads log = [(sess.key, frame)]
  fits : frame.Fits
  arrived : frame.bytes <+: arrivedBytes log
  decodes : decodeRequest srv.aead (some sess.key) frame.body = .ok (freq, seq)

/-- No streaming handler was called. -/
def Plain (srv : Server σ) (log : List Event) : Prop :=
  ∀ call ∈ calls log, ∀ handler, srv.handlers call.1.opcode ≠ some (.stream handler)

/-- What a stream was answered that no streaming handler took over. -/
inductive Replied (srv : Server σ) (sess : Session) (task : StreamTask) : Prop where
  | silent : task.chan.send.written = [] → answers task.chan.log = [] → Replied srv sess task
  | expired {nonce : Nonce} : answers task.chan.log = [(.expiry, 0, expiredResponse)] →
      task.chan.send.written <+: replyBytes srv.aead nonce sess.key 0 expiredResponse →
        Replied srv sess task
  | refused {resp : Response} : answers task.chan.log = [(.badRequest, 0, resp)] →
      Replied srv sess task
  | served {nonce : Nonce} {frame : Frame} {freq : Frame.Request} {seq : UInt32} {app : σ}
      {cause : Cause} {resp : Response} : ReadBy srv sess task.chan.log frame freq seq →
      (quicServe srv task sess.key freq seq app).answer = some (cause, resp) →
      answers task.chan.log = [(cause, seq, resp)] →
      task.chan.send.written <+: replyBytes srv.aead nonce sess.key seq resp →
        Replied srv sess task

/-- The end of a stream: it was handed over, or answered at most once. -/
inductive Finished (srv : Server σ) (sess : Session) (task : StreamTask) : Prop where
  | handed {frame : Frame} {freq : Frame.Request} {seq : UInt32} {handler : StreamHandler σ} :
      ReadBy srv sess task.chan.log frame freq seq → answers task.chan.log = [] →
      srv.handlers freq.opcode = some (.stream handler) → Finished srv sess task
  | plain : Plain srv task.chan.log → Replied srv sess task → Finished srv sess task

/-- What the stream of a session has read and written, by the phase of its task. -/
structure StreamTalk (srv : Server σ) (sess : Session) (task : StreamTask) : Prop where
  id_eq : task.sessionId = sess.id
  keyId_eq : task.apiKeyId = sess.apiKeyId
  phase : match task.phase with
    | .dispatch key freq seq => key = sess.key ∧ calls task.chan.log = [] ∧
        answers task.chan.log = [] ∧ task.chan.send.written = [] ∧
          ∃ frame, ReadBy srv sess task.chan.log frame freq seq
    | .ended => Finished srv sess task
    | .judge found => (found = none ∨ found = some sess) ∧ Untouched task.chan
    | .touch key | .read key => (key = [] ∨ key = sess.key) ∧ Untouched task.chan
    | _ => Untouched task.chan

theorem Untouched.note {chan : Channel} (h : Untouched chan) (found : Option Session)
    (now : Instant) : Untouched (chan.note [.checked found now]) := by
  refine ⟨h.inStep.noted rfl rfl, ?_, ?_, ?_, h.written⟩
  · exact (reads_append _ _).trans (by rw [h.reads]; rfl)
  · exact (calls_append _ _).trans (by rw [h.calls]; rfl)
  · exact (answers_append _ _).trans (by rw [h.answers]; rfl)

/-- The network adds arrivals to a log, and nothing else that is told of it. -/
theorem net_talk {chan chan' : Channel} {now : Instant} {action : NetAction}
    (h : chan.net now action = some chan') :
    reads chan'.log = reads chan.log ∧ calls chan'.log = calls chan.log ∧
      answers chan'.log = answers chan.log ∧ arrivedBytes chan.log <+: arrivedBytes chan'.log ∧
        chan'.send.written = chan.send.written := by
  obtain ⟨-, harrived, hwritten⟩ := net_delivered h
  obtain ⟨events, hlog, hcalls, hreads, -⟩ := net_reads h
  have hanswers : answers chan'.log = answers chan.log := by
    unfold Channel.net at h
    cases action with
    | deliver bytes =>
      dsimp only at h
      split at h
      · obtain rfl := Option.some.inj h
        exact (answers_append _ _).trans (List.append_nil _)
      · cases h
    | hangup kind =>
      dsimp only at h
      split at h
      · obtain rfl := Option.some.inj h
        rfl
      · cases h
    | limit room kind =>
      obtain rfl := Option.some.inj h
      rfl
  refine ⟨?_, ?_, hanswers, ?_, hwritten⟩
  · rw [hlog, reads_append, hreads, List.append_nil]
  · rw [hlog, calls_append, hcalls, List.append_nil]
  · rw [harrived]
    exact List.prefix_append _ _

theorem Untouched.net {chan chan' : Channel} {now : Instant} {action : NetAction}
    (h : Untouched chan) (hnet : chan.net now action = some chan') : Untouched chan' := by
  obtain ⟨hreads, hcalls, hanswers, -, hwritten⟩ := net_talk hnet
  exact ⟨h.inStep.net hnet, hreads.trans h.reads, hcalls.trans h.calls, hanswers.trans h.answers,
    hwritten.trans h.written⟩

theorem ReadBy.net {srv : Server σ} {sess : Session} {chan chan' : Channel} {now : Instant}
    {action : NetAction} {frame : Frame} {freq : Frame.Request} {seq : UInt32}
    (h : ReadBy srv sess chan.log frame freq seq) (hnet : chan.net now action = some chan') :
    ReadBy srv sess chan'.log frame freq seq := by
  obtain ⟨hreads, -, -, harrived, -⟩ := net_talk hnet
  exact ⟨hreads.trans h.reads, h.fits, h.arrived.trans harrived, h.decodes⟩

theorem Finished.net {srv : Server σ} {sess : Session} {task : StreamTask} {chan : Channel}
    {now : Instant} {action : NetAction} (h : Finished srv sess task)
    (hnet : task.chan.net now action = some chan) :
    Finished srv sess { task with chan } := by
  obtain ⟨-, hcalls, hanswers, -, hwritten⟩ := net_talk hnet
  cases h with
  | handed hread hnone hhandler => exact .handed (hread.net hnet) (hanswers.trans hnone) hhandler
  | plain hplain hreplied =>
    refine .plain ?_ ?_
    · unfold Plain at hplain ⊢
      dsimp only
      rw [hcalls]
      exact hplain
    · cases hreplied with
      | silent hnone hanswer => exact .silent (hwritten.trans hnone) (hanswers.trans hanswer)
      | expired hanswer hpart => exact .expired (hanswers.trans hanswer) (hwritten ▸ hpart)
      | refused hanswer => exact .refused (hanswers.trans hanswer)
      | served hread hserve hanswer hpart =>
        exact .served (hread.net hnet) hserve (hanswers.trans hanswer) (hwritten ▸ hpart)

/-! ### The steps of a stream -/

/-- The answer to a stream of which nothing was read yet. -/
theorem Untouched.reply {chan : Channel} (h : Untouched chan) (events : List Event)
    (hcalls : Server.calls events = []) (hanswers : Server.answers events = []) (aead : Aead)
    (nonce : Nonce) (key : List UInt8) (cause : Cause) (seq : UInt32) (resp : Response) :
    let chan' := (chan.note events).reply aead nonce key cause seq resp
    Server.calls chan'.log = [] ∧ Server.answers chan'.log = [(cause, seq, resp)] ∧
      chan'.send.written <+: replyBytes aead nonce key seq resp ∧
        (chan.Muted → chan'.send.written = []) := by
  intro chan'
  obtain ⟨part, hpart, hwritten, hmuted⟩ :=
    reply_part (chan.note events) aead nonce key cause seq resp
  have hpartOnly : chan'.send.written = part := by
    rw [show chan'.send.written = _ from hwritten, Channel.note, h.written, List.nil_append]
  refine ⟨?_, ?_, ?_, ?_⟩
  · rw [Channel.log_reply, Channel.note, calls_append, calls_append, h.calls, hcalls]
    rfl
  · rw [Channel.log_reply, Channel.note, answers_append, answers_append, h.answers, hanswers]
    rfl
  · rw [hpartOnly]
    exact hpart
  · intro hmute
    rw [hpartOnly]
    exact (hmuted hmute).1

theorem plain_of_calls_nil {srv : Server σ} {log : List Event} (h : calls log = []) :
    Plain srv log := by
  unfold Plain
  rw [h]
  nofun

/-- What could not be read as a request was answered. -/
def Refused (task : StreamTask) : Prop :=
  ∃ resp, answers task.chan.log = [(.badRequest, 0, resp)]

theorem quicServe_cause {srv : Server σ} {task : StreamTask} {key : List UInt8}
    {freq : Frame.Request} {seq : UInt32} {app : σ} {cause : Cause} {resp : Response}
    (h : (quicServe srv task key freq seq app).answer = some (cause, resp)) :
    cause ≠ .badRequest := by
  rintro rfl
  unfold quicServe callHandler at h
  dsimp only at h
  split at h
  · cases h
  · cases h
  · split at h <;> cases h

/-- A task that has to wait for its request takes no step. -/
theorem streamRun_ready {srv : Server σ} {nonce : Nonce} {sh : Shared σ} {task : StreamTask}
    {key : List UInt8} {next : Shared σ × StreamTask} (hphase : task.phase = .read key)
    (h : streamRun srv nonce sh task = some next) :
    readRequestAsync srv.aead task.chan.recv (some key) ≠ .error (.frame (.io .wouldBlock)) := by
  intro hwaits
  unfold streamRun at h
  simp only [hphase, hwaits] at h
  cases h

/-- Nothing is read under the empty key. -/
theorem readRequestAsync_nil {aead : Aead} {recv recv' : Source} {freq : Frame.Request}
    {seq : UInt32} : readRequestAsync aead recv (some []) ≠ .ok ((freq, seq), recv') := by
  intro h
  obtain ⟨frame, -, hdecode⟩ := readRequestAsync_ok h
  exact absurd (length_key_of_decodeRequest hdecode) (by decide)

theorem ReadBy.noted {srv : Server σ} {sess : Session} {chan : Channel} {freq : Frame.Request}
    {seq : UInt32} {frame : Frame} (h : ReadBy srv sess chan.log frame freq seq) (called : Bool)
    (req : Request) (seq' : UInt32) :
    ReadBy srv sess (chan.note (dispatchEvents called req seq')).log frame freq seq := by
  obtain ⟨hreads, harrived⟩ := reads_dispatchEvents called req seq'
  refine ⟨?_, h.fits, ?_, h.decodes⟩
  · rw [Channel.note, reads_append, hreads, List.append_nil]
    exact h.reads
  · rw [Channel.note, arrivedBytes_append, harrived, List.append_nil]
    exact h.arrived

theorem ReadBy.replied {srv : Server σ} {sess : Session} {log : List Event} {freq : Frame.Request}
    {seq seq' : UInt32} {frame : Frame} {cause : Cause} {resp : Response}
    (h : ReadBy srv sess log frame freq seq) :
    ReadBy srv sess (log ++ [.answered cause seq' resp]) frame freq seq := by
  refine ⟨?_, h.fits, ?_, h.decodes⟩
  · rw [reads_append, h.reads]
    rfl
  · rw [arrivedBytes_append]
    exact h.arrived.trans (List.prefix_append _ _)

/-- The handler that was looked up is no streaming one. -/
theorem plain_dispatchEvents {srv : Server σ} {chan : Channel} {freq : Frame.Request}
    (hcalls : calls chan.log = [])
    (hstream : ∀ handler, srv.handlers freq.opcode ≠ some (.stream handler)) (called : Bool)
    (id : UInt64) (keyId : String) (seq : UInt32) :
    Plain srv (chan.note (dispatchEvents called (toRequest id keyId freq) seq)).log := by
  intro call hcall
  rw [Channel.note, calls_append, hcalls, List.nil_append] at hcall
  unfold dispatchEvents at hcall
  split at hcall
  · obtain rfl := List.mem_singleton.mp hcall
    exact hstream
  · cases hcall

theorem Plain.replied {srv : Server σ} {log : List Event} {cause : Cause} {seq : UInt32}
    {resp : Response} (h : Plain srv log) : Plain srv (log ++ [.answered cause seq resp]) := by
  unfold Plain at h ⊢
  rw [calls_append]
  simpa [calls] using h

/-- A step of a stream brings no bytes, and takes none back that were written. -/
theorem StreamMoves.keeps {srv : Server σ} {sh sh' : Shared σ} {task task' : StreamTask}
    {phase : StreamPhase} (h : StreamMoves srv sh task phase sh' task') :
    arrivedBytes task'.chan.log = arrivedBytes task.chan.log ∧
      task.chan.send.written <+: task'.chan.send.written ∧
        (task.chan.Muted → task'.chan.Muted) := by
  have hnoted (events : List Event) (harrived : arrivedBytes events = []) :
      arrivedBytes (task.chan.log ++ events) = arrivedBytes task.chan.log := by
    rw [arrivedBytes_append, harrived, List.append_nil]
  have hreplied (events : List Event) (harrived : arrivedBytes events = []) (nonce : Nonce)
      (key : List UInt8) (cause : Cause) (seq : UInt32) (resp : Response) :
      arrivedBytes ((task.chan.note events).reply srv.aead nonce key cause seq resp).log =
          arrivedBytes task.chan.log ∧
        task.chan.send.written <+:
          ((task.chan.note events).reply srv.aead nonce key cause seq resp).send.written ∧
        (task.chan.Muted →
          ((task.chan.note events).reply srv.aead nonce key cause seq resp).Muted) := by
    obtain ⟨part, -, hwritten, hmuted⟩ :=
      reply_part (task.chan.note events) srv.aead nonce key cause seq resp
    refine ⟨?_, ⟨part, hwritten.symm⟩, fun hmute => (hmuted hmute).2⟩
    rw [Channel.log_reply, arrivedBytes_append]
    exact (List.append_nil _).trans (hnoted events harrived)
  cases h with
  | fetched | keyed | touched => exact ⟨rfl, List.prefix_rfl, id⟩
  | expired _ => exact hreplied _ rfl _ _ _ _ _
  | alive _ => exact ⟨hnoted _ rfl, List.prefix_rfl, id⟩
  | unread _ => exact hreplied _ (passive_receivedFrame _ _).1 _ _ _ _ _
  | read _ => exact ⟨hnoted _ (passive_receivedFrame _ _).1, List.prefix_rfl, id⟩
  | unanswered _ _ => exact ⟨hnoted _ (reads_dispatchEvents _ _ _).2, List.prefix_rfl, id⟩
  | answered _ _ => exact hreplied _ (reads_dispatchEvents _ _ _).2 _ _ _ _ _

namespace StreamTalk

variable {srv : Server σ} {sess : Session} {task task' : StreamTask}

theorem net {chan : Channel} {now : Instant} {action : NetAction} (h : StreamTalk srv sess task)
    (hnet : task.chan.net now action = some chan) :
    StreamTalk srv sess { task with chan } := by
  obtain ⟨id, keyId, chan₀, phase⟩ := task
  refine ⟨h.id_eq, h.keyId_eq, ?_⟩
  have hphase := h.phase
  dsimp only at hphase hnet ⊢
  cases phase with
  | fetch => exact hphase.net hnet
  | judge found => exact ⟨hphase.1, hphase.2.net hnet⟩
  | key => exact hphase.net hnet
  | touch key => exact ⟨hphase.1, hphase.2.net hnet⟩
  | read key => exact ⟨hphase.1, hphase.2.net hnet⟩
  | dispatch key freq seq =>
    obtain ⟨hkey, hcalls, hanswers, hwritten, frame, hread⟩ := hphase
    obtain ⟨-, hcalls', hanswers', -, hwritten'⟩ := net_talk hnet
    exact ⟨hkey, hcalls'.trans hcalls, hanswers'.trans hanswers, hwritten'.trans hwritten, frame,
      hread.net hnet⟩
  | ended => exact Finished.net hphase hnet

/-- The frame of a request is read. -/
theorem readBy {chan : Channel} {recv : Source} {freq : Frame.Request} {seq : UInt32}
    (h : Untouched chan)
    (hread : readRequestAsync srv.aead chan.recv (some sess.key) = .ok ((freq, seq), recv)) :
    ∃ frame, ReadBy srv sess (chan.log ++ receivedFrame sess.key chan.recv) frame freq seq := by
  obtain ⟨frame, hframe, hdecode⟩ := readRequestAsync_ok hread
  obtain ⟨hfits, hbytes, -⟩ := readFrameFrom_sound hframe
  have hinStep := h.inStep
  unfold InStep readBytes at hinStep
  rw [h.reads, hbytes] at hinStep
  rw [receivedFrame_ok hframe]
  refine ⟨frame, ?_, hfits, ?_, hdecode⟩
  · rw [reads_append, h.reads]
    rfl
  · rw [arrivedBytes_append, ← hinStep]
    simp [arrivedBytes]

theorem moves {sh sh' : Shared σ} (h : StreamTalk srv sess task) (hstored : Unchanged sh sess)
    (hmoves : StreamMoves srv sh task task.phase sh' task') : StreamTalk srv sess task' := by
  obtain ⟨id, keyId, chan, phase⟩ := task
  have hphase := h.phase
  obtain ⟨hid, hkeyId, -⟩ := h
  dsimp only at hid hkeyId hphase hmoves
  subst hid hkeyId
  have hfound : sh.store.get sess.id = none ∨ sh.store.get sess.id = some sess := hstored
  cases hmoves with
  | fetched => exact ⟨rfl, rfl, hfound, hphase⟩
  | @expired sess' nonce _ =>
    obtain ⟨hsess, huntouched⟩ := hphase
    obtain rfl : sess' = sess := by
      obtain habsurd | hsame := hsess
      · cases habsurd
      · exact Option.some.inj hsame
    obtain ⟨hcalls, hanswers, hpart, -⟩ := huntouched.reply [.checked (some sess') sh.now]
      rfl rfl srv.aead nonce sess'.key .expiry 0 expiredResponse
    exact ⟨rfl, rfl, .plain (plain_of_calls_nil hcalls) (.expired hanswers hpart)⟩
  | alive _ => exact ⟨rfl, rfl, hphase.2.note _ _⟩
  | keyed =>
    refine ⟨rfl, rfl, ?_, hphase⟩
    obtain hnone | hsome := hfound
    · exact .inl (by rw [hnone]; rfl)
    · exact .inr (by rw [hsome]; rfl)
  | touched => exact ⟨rfl, rfl, hphase⟩
  | @unread key e nonce resp _ =>
    obtain ⟨hcalls, hanswers, -, -⟩ := hphase.2.reply (receivedFrame key chan.recv)
      (calls_receivedFrame _ _) (answers_receivedFrame _ _) srv.aead nonce key .badRequest 0 resp
    exact ⟨rfl, rfl, .plain (plain_of_calls_nil hcalls) (.refused hanswers)⟩
  | @read key freq seq recv hread =>
    obtain ⟨hkey, huntouched⟩ := hphase
    obtain rfl | rfl := hkey
    · exact absurd hread readRequestAsync_nil
    · obtain ⟨frame, hreadBy⟩ := readBy huntouched hread
      refine ⟨rfl, rfl, rfl, ?_, ?_, huntouched.written, frame, hreadBy⟩
      · exact (calls_append _ _).trans (by rw [huntouched.calls, calls_receivedFrame]; rfl)
      · exact (answers_append _ _).trans (by rw [huntouched.answers, answers_receivedFrame]; rfl)
  | @unanswered key freq seq served hserved hnone =>
    obtain ⟨rfl, hcalls, hanswers, hwritten, frame, hread⟩ := hphase
    have hanswers' : answers (chan.note (dispatchEvents served.called
        (toRequest sess.id sess.apiKeyId freq) seq)).log = [] := by
      rw [Channel.note, answers_append, hanswers, answers_dispatchEvents]
      rfl
    refine ⟨rfl, rfl, ?_⟩
    by_cases hstream : ∃ handler, srv.handlers freq.opcode = some (.stream handler)
    · obtain ⟨handler, hhandler⟩ := hstream
      exact .handed (hread.noted _ _ _) hanswers' hhandler
    · exact .plain (plain_dispatchEvents hcalls (not_exists.mp hstream) _ _ _ _)
        (.silent hwritten hanswers')
  | @answered key freq seq served cause resp nonce hserved hanswer =>
    obtain ⟨rfl, hcalls, hanswers, hwritten, frame, hread⟩ := hphase
    have hstream (handler : StreamHandler σ) :
        srv.handlers freq.opcode ≠ some (.stream handler) := by
      intro hhandler
      rw [hserved] at hanswer
      unfold quicServe at hanswer
      rw [hhandler] at hanswer
      cases hanswer
    have hplain : Plain srv _ :=
      plain_dispatchEvents hcalls hstream served.called sess.id sess.apiKeyId seq
    let noted := chan.note (dispatchEvents served.called
      (toRequest sess.id sess.apiKeyId freq) seq)
    obtain ⟨part, hpart, hout, -⟩ := reply_part noted srv.aead nonce sess.key cause seq resp
    have hanswers' : answers (noted.reply srv.aead nonce sess.key cause seq resp).log =
        [(cause, seq, resp)] := by
      have hlog : noted.log = chan.log ++ dispatchEvents served.called
        (toRequest sess.id sess.apiKeyId freq) seq := rfl
      rw [Channel.log_reply, answers_append, hlog, answers_append, hanswers, answers_dispatchEvents]
      rfl
    have hwritten' : (noted.reply srv.aead nonce sess.key cause seq resp).send.written <+:
        replyBytes srv.aead nonce sess.key seq resp := by
      rw [hout, show noted.send.written = [] from hwritten]
      exact hpart
    exact ⟨rfl, rfl, .plain hplain.replied
      (.served (hread.noted _ _ _).replied (hserved ▸ hanswer) hanswers' hwritten')⟩

/-- A stream that is refused gets nothing written, or what arrived on it is no request. -/
theorem refused {nonce : Nonce} {sh sh' : Shared σ} (h : StreamTalk srv sess task)
    (hrun : streamRun srv nonce sh task = some (sh', task'))
    (hrefused : Refused task') :
    task'.chan.send.written = [] ∨ Untouched task.chan ∧ ¬task.chan.Muted ∧
      ∃ e, readRequestAsync srv.aead task.chan.recv (some sess.key) = .error e ∧
        e ≠ .frame (.io .wouldBlock) := by
  obtain ⟨resp', hrefused⟩ := hrefused
  have hready {key : List UInt8} (hread : task.phase = .read key) :=
    streamRun_ready hread hrun
  have hmoves := streamRun_moves hrun
  obtain ⟨id, keyId, chan, phase⟩ := task
  have hphase := h.phase
  dsimp only at hphase hmoves hready
  cases hmoves with
  | fetched =>
    exact absurd (hphase.answers.symm.trans hrefused) nofun
  | @expired sess' nonce' _ =>
    obtain ⟨-, hanswers, -⟩ := hphase.2.reply [.checked (some sess') sh.now] rfl rfl srv.aead nonce'
      sess'.key .expiry 0 expiredResponse
    exact absurd (hanswers.symm.trans hrefused) nofun
  | alive _ => exact absurd ((hphase.2.note _ _).answers.symm.trans hrefused) nofun
  | keyed => exact absurd (hphase.answers.symm.trans hrefused) nofun
  | touched => exact absurd (hphase.2.answers.symm.trans hrefused) nofun
  | @unread key e nonce' resp herror =>
    obtain ⟨hkey, huntouched⟩ := hphase
    obtain ⟨-, -, hpart, hmuted⟩ := huntouched.reply (receivedFrame key chan.recv)
      (calls_receivedFrame _ _) (answers_receivedFrame _ _) srv.aead nonce' key .badRequest 0 resp
    obtain rfl | rfl := hkey
    · rw [replyBytes_nil] at hpart
      exact .inl (List.prefix_nil.mp hpart)
    by_cases hmute : chan.Muted
    · exact .inl (hmuted hmute)
    · refine .inr ⟨huntouched, hmute, e, herror, ?_⟩
      rintro rfl
      exact hready rfl herror
  | @read key freq seq recv hread =>
    have hanswers : answers (chan.log ++ receivedFrame key chan.recv) = [] := by
      rw [answers_append, hphase.2.answers, answers_receivedFrame]
      rfl
    exact absurd (hanswers.symm.trans hrefused) nofun
  | @unanswered key freq seq served hserved _ =>
    have hanswers : answers (chan.log ++ dispatchEvents served.called
        (toRequest id keyId freq) seq) = [] := by
      rw [answers_append, hphase.2.2.1, answers_dispatchEvents]
      rfl
    exact absurd (hanswers.symm.trans hrefused) nofun
  | @answered key freq seq served cause resp nonce' hserved hanswer =>
    have hanswers : answers ((chan.log ++ dispatchEvents served.called
        (toRequest id keyId freq) seq) ++ [.answered cause seq resp]) = [(cause, seq, resp)] := by
      rw [answers_append, answers_append, hphase.2.2.1, answers_dispatchEvents]
      rfl
    have hsame := hanswers.symm.trans hrefused
    simp only [List.cons.injEq, Prod.mk.injEq, and_true] at hsame
    rw [hserved] at hanswer
    exact absurd hsame.1 (quicServe_cause hanswer)

end StreamTalk

theorem streamTalk_invariant (srv : Server σ) (config : SessionConfig) (sess : Session) :
    StreamInvariant srv config sess (StreamTalk srv sess) where
  fresh := ⟨rfl, rfl, rfl, rfl, rfl, rfl, rfl⟩
  net := fun h hnet => h.net hnet
  moves := fun _ hstored h hmoves => h.moves hstored hmoves

end Hush.Server
