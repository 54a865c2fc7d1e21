import Hush.Server.Greeter

/-! The connection tasks of both transports as parties that greet a client. -/
namespace Hush.Server

open Hush.Foundation Execution
open Hush.Frame hiding Request
open Hush.Session

variable {σ : Type}

/-- Events that neither arrive nor establish a session. -/
def Passive (events : List Event) : Prop :=
  arrivedBytes events = [] ∧ ∀ e ∈ events, ∀ sess, e ≠ .established sess

theorem passive_receivedFrame (key : List UInt8) (recv : Source) :
    Passive (receivedFrame key recv) := by
  refine ⟨?_, not_established_receivedFrame⟩
  unfold receivedFrame
  split <;> rfl

theorem passive_dispatchEvents (called : Bool) (req : Request) (seq : UInt32) :
    Passive (dispatchEvents called req seq) :=
  ⟨(reads_dispatchEvents called req seq).2, not_established_dispatchEvents⟩

theorem writeFrameAsync_grows (w : Sink) (seq : UInt32) (frameData : List UInt8) :
    w.written <+: (writeFrameAsync w seq frameData).2.written := by
  unfold writeFrameAsync writeFrameTo
  split
  · exact List.prefix_rfl
  · rename_i buf _
    match hwrite : w.writeAll buf with
    | (result, w') =>
      obtain ⟨part, -, hwritten, -⟩ := Stream.Sink.writeAll_takes hwrite
      cases result with
      | ok _ => exact ⟨part, hwritten.symm⟩
      | error _ => exact ⟨part, hwritten.symm⟩

theorem reply_grows (chan : Channel) (aead : Aead) (nonce : Nonce) (key : List UInt8)
    (cause : Cause) (seq : UInt32) (resp : Response) :
    chan.send.written <+: (chan.reply aead nonce key cause seq resp).send.written := by
  unfold Channel.reply
  dsimp only
  split
  · exact writeFrameAsync_grows _ _ _
  · exact List.prefix_rfl

namespace Continued

variable {chan chan' : Channel}

theorem trans {chan'' : Channel} (h : Continued chan chan') (h' : Continued chan' chan'') :
    Continued chan chan'' :=
  ⟨h.written.trans h'.written, h'.recv.trans h.recv, h'.arrived.trans h.arrived,
    fun sess => (h'.established sess).trans (h.established sess)⟩

theorem note (chan : Channel) {events : List Event} (h : Passive events) :
    Continued chan (chan.note events) := by
  refine ⟨List.prefix_rfl, List.suffix_rfl, ?_, ?_⟩
  · unfold Channel.note
    rw [arrivedBytes_append, h.1, List.append_nil]
  · intro sess
    unfold Channel.note
    rw [List.mem_append]
    exact or_iff_left fun hin => h.2 _ hin sess rfl

theorem reply (chan : Channel) (aead : Aead) (nonce : Nonce) (key : List UInt8) (cause : Cause)
    (seq : UInt32) (resp : Response) :
    Continued chan (chan.reply aead nonce key cause seq resp) := by
  refine ⟨reply_grows _ _ _ _ _ _ _, List.suffix_rfl, ?_, ?_⟩
  · rw [Channel.log_reply, arrivedBytes_append]
    exact List.append_nil _
  · intro sess
    simp

/-- A request is taken off the channel. -/
theorem readRequest (chan : Channel) {aead : Aead} {key : List UInt8} {freq : Frame.Request}
    {seq : UInt32} {recv : Source}
    (h : readRequestAsync aead chan.recv (some key) = .ok ((freq, seq), recv)) :
    Continued chan { chan with recv } := by
  obtain ⟨frame, hread, -⟩ := readRequestAsync_ok h
  have hbytes := (readFrameFrom_sound hread).2.1
  exact ⟨List.prefix_rfl, ⟨frame.bytes, hbytes.symm⟩, rfl, fun _ => Iff.rfl⟩

end Continued

/-! ### TCP -/

/-- How far the connection has come with the hello. -/
def Tcp.stage (s : Tcp σ) : Stage :=
  match s.task.phase with
  | .handshake => .waiting
  | .insert est => .accepted est
  | .ended (.returned (.error _)) => .refused
  | _ => .opened

/-- Bytes come over the link, and only there. -/
def TcpAction.local : TcpAction σ → Bool
  | .net (.deliver _) => false
  | _ => true

theorem TcpMoves.greets {srv : Server σ} {sid : UInt64} {sh sh' : Shared σ} {chan : Channel}
    {phase : TcpPhase} {task' : TcpTask}
    (hrefused : ∀ send, phase = .handshake →
      tcpHandshake srv.keys sid chan.recv chan.send ≠ (.error (.io .wouldBlock), send))
    (h : TcpMoves srv sid sh chan phase sh' task') :
    GreetMoves .tcp srv.keys sid chan (Tcp.stage ⟨sh, ⟨chan, phase⟩⟩) task'.chan
      (Tcp.stage ⟨sh', task'⟩) := by
  cases h with
  | @refused send e hrun =>
    refine .refused hrun ?_
    rintro rfl
    exact hrefused send rfl hrun
  | accepted hrun => exact .accepted hrun
  | inserted hsess =>
    subst hsess
    exact .inserted
  | fetched => exact .continued (.refl chan)
  | expired _ =>
    refine .continued ((Continued.note chan ⟨rfl, by simp⟩).trans (Continued.reply _ _ _ _ _ _ _))
  | alive _ => exact .continued (Continued.note chan ⟨rfl, by simp⟩)
  | touched => exact .continued (.refl chan)
  | unread _ => exact .continued (Continued.note chan (passive_receivedFrame _ _))
  | read hread =>
    exact .continued ((Continued.readRequest chan hread).trans
      (Continued.note _ (passive_receivedFrame _ _)))
  | panicked _ _ => exact .continued (Continued.note chan (passive_dispatchEvents _ _ _))
  | answered _ _ =>
    exact .continued ((Continued.note chan (passive_dispatchEvents _ _ _)).trans
      (Continued.reply _ _ _ _ _ _ _))
  | closed => exact .continued (.refl chan)

/-- The connection's task, when the client's bytes come over a link. -/
def tcpLinked (srv : Server σ) (sid : UInt64) (s : Tcp σ) (action : TcpAction σ) :
    Option (Tcp σ) :=
  if action.local then tcpStep srv sid s action else none

theorem tcpLinked_greets {srv : Server σ} {sid : UInt64} {s s' : Tcp σ} {action : TcpAction σ}
    (h : tcpLinked srv sid s action = some s') :
    GreetMoves .tcp srv.keys sid s.task.chan s.stage s'.task.chan s'.stage := by
  unfold tcpLinked at h
  split at h
  · rename_i hlocal
    cases action with
    | env action =>
      obtain ⟨sh, -, rfl⟩ := Option.map_eq_some_iff.mp h
      exact .idle
    | net action =>
      obtain ⟨chan, hchan, rfl⟩ := Option.map_eq_some_iff.mp h
      refine .net hchan ?_
      cases action with
      | deliver bytes => cases hlocal
      | hangup kind => rfl
      | limit room kind => rfl
    | run nonce =>
      obtain ⟨next, hnext, rfl⟩ := Option.map_eq_some_iff.mp h
      refine TcpMoves.greets ?_ (tcpRun_moves hnext)
      intro send hphase hwait
      unfold tcpRun at hnext
      rw [hphase] at hnext
      dsimp only at hnext
      rw [hwait] at hnext
      cases hnext
  · cases h

theorem deliver_isSome {chan : Channel} (h : chan.recv.ending = .wouldBlock) (now : Instant)
    (bytes : List UInt8) : (chan.net now (.deliver bytes)).isSome := by
  unfold Channel.net
  dsimp only
  rw [if_pos h]
  rfl

def tcpGreeter (srv : Server σ) (sid : UInt64) : Greeter srv.keys sid (Tcp σ) (TcpAction σ) where
  tr := .tcp
  step := tcpLinked srv sid
  feed := fun s bytes => tcpStep srv sid s (.net (.deliver bytes))
  chan := fun s => s.task.chan
  stage := Tcp.stage
  waits := rfl
  moves := tcpLinked_greets
  feeds := by
    intro s bytes s' h
    obtain ⟨chan, hchan, rfl⟩ := Option.map_eq_some_iff.mp h
    exact ⟨rfl, s.shared.now, hchan⟩
  fed := by
    intro s hopen bytes
    unfold tcpStep
    rw [Option.isSome_map]
    exact deliver_isSome hopen _ _
  reads := by
    intro s est recv send hstage hread
    obtain ⟨sh, chan, phase⟩ := s
    have hrun : tcpHandshake srv.keys sid chan.recv chan.send = (.ok (est, recv), send) := hread
    unfold Tcp.stage at hstage
    dsimp only at hstage
    split at hstage
    · refine ⟨.run exampleNonce, ⟨sh, ⟨{ chan with recv, send }, .insert est⟩⟩, ?_, rfl⟩
      simp only [tcpLinked, TcpAction.local, if_true, tcpStep, tcpRun, hrun, Option.map_some]
    all_goals cases hstage
  inserts := by
    intro s est hstage
    obtain ⟨sh, chan, phase⟩ := s
    unfold Tcp.stage at hstage
    dsimp only at hstage
    split at hstage
    · cases hstage
    · obtain rfl := Stage.accepted.inj hstage
      exact ⟨.run exampleNonce, _, rfl, rfl⟩
    all_goals cases hstage

/-! ### QUIC -/

def Quic.stage (s : Quic σ) : Stage :=
  match s.phase with
  | .handshake => .waiting
  | .insert est => .accepted est
  | .ended (.error _) => .refused
  | _ => .opened

def QuicAction.local : QuicAction σ → Bool
  | .net (.deliver _) => false
  | _ => true

def quicLinked (srv : Server σ) (sid : UInt64) (s : Quic σ) (action : QuicAction σ) :
    Option (Quic σ) :=
  if action.local then quicStep srv sid s action else none

theorem quicRun_greets {srv : Server σ} {sid : UInt64} {s s' : Quic σ}
    (h : quicRun srv sid s = some s') :
    GreetMoves .quic srv.keys sid s.chan s.stage s'.chan s'.stage := by
  obtain ⟨sh, chan, phase, streams⟩ := s
  unfold quicRun at h
  cases phase with
  | handshake =>
    dsimp only at h
    split at h
    · cases h
    · rename_i e send hwait hrun
      obtain rfl := Option.some.inj h
      refine .refused hrun ?_
      rintro rfl
      exact hwait rfl
    · rename_i hrun
      obtain rfl := Option.some.inj h
      exact .accepted hrun
  | insert est =>
    obtain rfl := Option.some.inj h
    exact .inserted
  | accept sess => cases h
  | closing sess =>
    obtain rfl := Option.some.inj h
    exact .continued (.refl chan)
  | ended result => cases h

theorem quicLinked_greets {srv : Server σ} {sid : UInt64} {s s' : Quic σ} {action : QuicAction σ}
    (h : quicLinked srv sid s action = some s') :
    GreetMoves .quic srv.keys sid s.chan s.stage s'.chan s'.stage := by
  unfold quicLinked at h
  split at h
  · rename_i hlocal
    cases action with
    | env action =>
      obtain ⟨sh, -, rfl⟩ := Option.map_eq_some_iff.mp h
      exact .idle
    | net action =>
      obtain ⟨chan, hchan, rfl⟩ := Option.map_eq_some_iff.mp h
      refine .net hchan ?_
      cases action with
      | deliver bytes => cases hlocal
      | hangup kind => rfl
      | limit room kind => rfl
    | run nonce => exact quicRun_greets h
    | openStream =>
      simp only [quicStep] at h
      split at h
      · obtain rfl := Option.some.inj h
        exact .idle
      · cases h
    | lost =>
      obtain ⟨sh, chan, phase, streams⟩ := s
      simp only [quicStep] at h
      split at h
      · obtain rfl := Option.some.inj h
        exact .continued (.refl chan)
      · cases h
    | streamNet index action =>
      simp only [quicStep] at h
      split at h
      · cases h
      · obtain ⟨chan, -, rfl⟩ := Option.map_eq_some_iff.mp h
        exact .idle
    | stream index nonce =>
      simp only [quicStep] at h
      split at h
      · cases h
      · obtain ⟨next, -, rfl⟩ := Option.map_eq_some_iff.mp h
        exact .idle
  · cases h

def quicGreeter (srv : Server σ) (sid : UInt64) : Greeter srv.keys sid (Quic σ) (QuicAction σ) where
  tr := .quic
  step := quicLinked srv sid
  feed := fun s bytes => quicStep srv sid s (.net (.deliver bytes))
  chan := Quic.chan
  stage := Quic.stage
  waits := rfl
  moves := quicLinked_greets
  feeds := by
    intro s bytes s' h
    obtain ⟨chan, hchan, rfl⟩ := Option.map_eq_some_iff.mp h
    exact ⟨rfl, s.shared.now, hchan⟩
  fed := by
    intro s hopen bytes
    unfold quicStep
    rw [Option.isSome_map]
    exact deliver_isSome hopen _ _
  reads := by
    intro s est recv send hstage hread
    obtain ⟨sh, chan, phase, streams⟩ := s
    have hrun : quicHandshake srv.keys sid chan.recv chan.send = (.ok (est, recv), send) := hread
    unfold Quic.stage at hstage
    dsimp only at hstage
    split at hstage
    · refine ⟨.run exampleNonce, ⟨sh, { chan with recv, send }, .insert est, streams⟩, ?_, rfl⟩
      simp only [quicLinked, QuicAction.local, if_true, quicStep, quicRun, hrun]
    all_goals cases hstage
  inserts := by
    intro s est hstage
    obtain ⟨sh, chan, phase, streams⟩ := s
    unfold Quic.stage at hstage
    dsimp only at hstage
    split at hstage
    · cases hstage
    · obtain rfl := Stage.accepted.inj hstage
      exact ⟨.run exampleNonce, _, rfl, rfl⟩
    all_goals cases hstage

end Hush.Server
