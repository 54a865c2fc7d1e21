import Hush.Server.QuicSession
import Hush.Server.Reads
import Hush.Server.SessionKeys
import Hush.Server.TcpSession

/-! Which handler calls a run makes: one for each copy of a request frame that is
read, whatever its sequence number, and none for anything else. -/
namespace Hush.Server

open Hush.Foundation Execution
open Hush.Frame hiding Request
open Hush.Session

variable {σ : Type}

/-! ### TCP -/

/-- Streaming handlers are not called over TCP. -/
def tcpServes (srv : Server σ) (opcode : UInt16) : Bool :=
  match srv.handlers opcode with
  | some (.sync _) => true
  | _ => false

theorem tcpServe_called (srv : Server σ) (sess : Session) (freq : Frame.Request) (seq : UInt32)
    (app : σ) : (tcpServe srv sess freq seq app).called = tcpServes srv freq.opcode := by
  unfold tcpServe tcpServes
  cases srv.handlers freq.opcode with
  | none => rfl
  | some handlerType =>
    cases handlerType with
    | stream handler => rfl
    | sync handler => exact callHandler_called

/-- The call of the request that was read last, until it is made. -/
def TcpPhase.pending (srv : Server σ) : TcpPhase → Option Call
  | .loop sess (.dispatch freq seq) => requestCall (tcpServes srv) sess freq seq
  | _ => none

structure TcpReads (srv : Server σ) (front : List UInt8) (chan : Channel) (phase : TcpPhase)
    (sess : Session) : Prop where
  served : ServesReads srv (tcpServes srv) sess [sess.key] front chan.log (phase.pending srv)
  inStep : ∀ loopPhase, phase = .loop sess loopPhase → InStep front chan

theorem TcpReads.moves {srv : Server σ} {sid : UInt64} {sh sh' : Shared σ} {chan : Channel}
    {phase : TcpPhase} {task' : TcpTask} {sess : Session} {front : List UInt8}
    (hopen : TcpOpened sid ⟨sh, ⟨chan, phase⟩⟩ sess) (hreads : TcpReads srv front chan phase sess)
    (h : TcpMoves srv sid sh chan phase sh' task') :
    TcpReads srv front task'.chan task'.phase sess := by
  have hphase := hopen.phase
  have hserved := hreads.served
  have hinStep := hreads.inStep
  cases h with
  | refused => exact hphase.elim
  | accepted => exact hphase.elim
  | inserted => exact hphase.elim
  | fetched =>
    obtain ⟨rfl, -⟩ := hphase
    exact ⟨hserved, fun _ _ => hinStep _ rfl⟩
  | expired _ =>
    refine ⟨?_, by simp⟩
    rw [Channel.log_reply, Channel.note, List.append_assoc]
    exact hserved.quiet (by simp [Event.IsQuiet])
  | alive _ =>
    obtain ⟨rfl, -⟩ := hphase
    exact ⟨hserved.quiet (by simp [Event.IsQuiet]),
      fun _ _ => (hinStep _ rfl).quiet rfl (by simp [Event.IsQuiet]) rfl⟩
  | touched =>
    obtain ⟨rfl, -⟩ := hphase
    exact ⟨hserved, fun _ _ => hinStep _ rfl⟩
  | unread herror =>
    obtain ⟨rfl, -⟩ := hphase
    exact ⟨hserved.unread (hinStep _ rfl) (by simp) herror, by simp⟩
  | read hok =>
    obtain ⟨rfl, -⟩ := hphase
    obtain ⟨hnext, hstep⟩ := hserved.readRequest (hinStep _ rfl) (by simp) hok
    exact ⟨hnext, fun _ _ => hstep⟩
  | panicked hcall _ =>
    obtain ⟨rfl, -⟩ := hphase
    subst hcall
    refine ⟨?_, by simp⟩
    rw [tcpServe_called]
    exact hserved.called (calls_dispatchEvents _ _ _ _) (reads_dispatchEvents _ _ _).1
  | answered hcall _ =>
    obtain ⟨rfl, -⟩ := hphase
    subst hcall
    rw [tcpServe_called]
    constructor
    · exact (hserved.called (calls_dispatchEvents _ _ _ _) (reads_dispatchEvents _ _ _).1).quiet
        (by simp [Event.IsQuiet])
    · intro _ _
      exact ((hinStep _ rfl).called _ _ _).quiet rfl (by simp [Event.IsQuiet]) rfl
  | closed => exact ⟨hserved, by simp⟩

/-- Until the session is inserted, the task has taken its hello off the channel or
nothing at all. -/
def HelloTaken (chan : Channel) : TcpPhase → Prop
  | .handshake => InStep [] chan
  | .insert _ => ∃ wire hello, HelloWire wire hello ∧ InStep wire chan
  | .loop _ _ => ∃ wire hello, HelloWire wire hello ∧ InStep wire chan
  | _ => True

theorem HelloTaken.net {chan chan' : Channel} {phase : TcpPhase} {now : Instant}
    {action : NetAction} (h : HelloTaken chan phase) (hnet : chan.net now action = some chan') :
    HelloTaken chan' phase := by
  cases phase with
  | handshake => exact InStep.net h hnet
  | insert est =>
    obtain ⟨wire, hello, hwire, hstep⟩ := h
    exact ⟨wire, hello, hwire, hstep.net hnet⟩
  | loop sess phase =>
    obtain ⟨wire, hello, hwire, hstep⟩ := h
    exact ⟨wire, hello, hwire, hstep.net hnet⟩
  | closing sess => trivial
  | ended outcome => trivial

theorem TcpUnopened.helloTaken {srv : Server σ} {sid : UInt64} {s s' : Tcp σ}
    {action : TcpAction σ} (hfresh : TcpUnopened s)
    (htaken : HelloTaken s.task.chan s.task.phase) (h : tcpStep srv sid s action = some s') :
    HelloTaken s'.task.chan s'.task.phase := by
  cases tcpStep_steps h with
  | env hsh => exact htaken
  | net hchan => exact htaken.net hchan
  | run hmoves =>
    have hphase := hfresh.phase
    have hunread : readBytes s.task.chan.log = [] := by
      unfold readBytes
      rw [(unserved_events fun e he => .inl (hfresh.log e he)).2]
      rfl
    generalize s.task.phase = phase at hmoves hphase htaken
    cases hmoves with
    | refused => trivial
    | @accepted est recv send haccepted =>
      have hdone : (handshake .tcp srv.keys sid s.task.chan.recv s.task.chan.send).1 =
          .ok (est, recv) := congrArg Prod.fst haccepted
      obtain ⟨hello, -, hhello, -⟩ := handshake_ok hdone
      obtain ⟨wire, hbytes, hwire⟩ := helloWire_of_readHello hhello
      refine ⟨wire, hello, hwire, ?_⟩
      unfold HelloTaken InStep at htaken
      unfold InStep
      rw [hunread, List.nil_append, List.nil_append] at htaken
      rw [hunread, List.append_nil, ← hbytes]
      exact htaken
    | inserted =>
      obtain ⟨wire, hello, hwire, hstep⟩ := htaken
      exact ⟨wire, hello, hwire, hstep.quiet rfl (by simp [Event.IsQuiet]) rfl⟩
    | _ => exact hphase.elim

def TcpReadsInv (srv : Server σ) (sid : UInt64) (s : Tcp σ) : Prop :=
  TcpUnopened s ∧ HelloTaken s.task.chan s.task.phase ∨
    ∃ sess wire hello, TcpOpened sid s sess ∧ HelloWire wire hello ∧
      TcpReads srv wire s.task.chan s.task.phase sess

theorem tcpReadsInv_step {srv : Server σ} {sid : UInt64} {s s' : Tcp σ} {action : TcpAction σ}
    (hinv : TcpReadsInv srv sid s) (h : tcpStep srv sid s action = some s') :
    TcpReadsInv srv sid s' := by
  obtain ⟨hfresh, htaken⟩ | ⟨sess, wire, hello, hopen, hwire, hreads⟩ := hinv
  · have htaken' := hfresh.helloTaken htaken h
    obtain hfresh' | ⟨sess, hopen, hjust⟩ := hfresh.step h
    · exact .inl ⟨hfresh', htaken'⟩
    · rw [hjust.phase] at htaken'
      obtain ⟨wire, hello, hwire, hstep⟩ := htaken'
      refine .inr ⟨sess, wire, hello, hopen, hwire, ?_, fun _ _ => hstep⟩
      have hlog : calls s'.task.chan.log = [] ∧ reads s'.task.chan.log = [] := by
        apply unserved_events
        intro e he
        obtain harrival | rfl := hjust.log e he
        · exact .inl harrival
        · exact .inr trivial
      rw [hjust.phase]
      refine ServesReads.opened ?_ hlog.1 hlog.2
      unfold InStep at hstep
      rw [← hstep, List.append_assoc]
      exact List.prefix_append _ _
  · refine .inr ⟨sess, wire, hello, hopen.step h, hwire, ?_⟩
    cases tcpStep_steps h with
    | env hsh => exact hreads
    | net hchan =>
      exact ⟨hreads.served.net hchan, fun phase hphase => (hreads.inStep phase hphase).net hchan⟩
    | run hmoves => exact hreads.moves hopen hmoves

theorem tcpReads_run {srv : Server σ} {sid : UInt64} {sh : Shared σ}
    {actions : List (TcpAction σ)} {s : Tcp σ} {sess : Session}
    (hrun : run (tcpStep srv sid) (tcpAccepted sh) actions = some s)
    (hsess : .established sess ∈ s.task.chan.log) :
    ∃ wire hello, HelloWire wire hello ∧ TcpReads srv wire s.task.chan s.task.phase sess := by
  have hstart : TcpReadsInv srv sid (tcpAccepted sh) := by
    refine .inl ⟨⟨trivial, ?_⟩, rfl⟩
    simp [tcpAccepted, Channel.opened]
  obtain ⟨hfresh, -⟩ | ⟨sess', wire, hello, hopen, hwire, hreads⟩ :=
    run_preserves tcpReadsInv_step hrun hstart
  · exact (hfresh.log _ hsess).elim
  · obtain rfl := (hopen.marked sess).mp hsess
    exact ⟨wire, hello, hwire, hreads⟩

/-! ### QUIC -/

def quicServes (srv : Server σ) (opcode : UInt16) : Bool := (srv.handlers opcode).isSome

theorem quicServe_called (srv : Server σ) (task : StreamTask) (key : List UInt8)
    (freq : Frame.Request) (seq : UInt32) (app : σ) :
    (quicServe srv task key freq seq app).called = quicServes srv freq.opcode := by
  unfold quicServe quicServes
  cases srv.handlers freq.opcode with
  | none => rfl
  | some handlerType =>
    cases handlerType with
    | stream handler => rfl
    | sync handler => exact callHandler_called

/-- The call of the stream's request, until it is made. -/
def StreamPhase.pending (srv : Server σ) (sess : Session) : StreamPhase → Option Call
  | .dispatch _ freq seq => requestCall (quicServes srv) sess freq seq
  | _ => none

/-- The task of a stream has not read anything yet. -/
def Unread (chan : Channel) : Prop := reads chan.log = [] ∧ InStep [] chan

/-- A stream reads one frame, under the session's key or, if it finds no session,
under the empty one. -/
structure StreamReads (srv : Server σ) (sess : Session) (task : StreamTask) : Prop where
  id_eq : task.sessionId = sess.id
  keyId_eq : task.apiKeyId = sess.apiKeyId
  served : ServesReads srv (quicServes srv) sess [sess.key, []] [] task.chan.log
    (task.phase.pending srv sess)
  phase : match task.phase with
    | .dispatch _ _ _ => True
    | .ended => True
    | .touch key => Unread task.chan ∧ key ∈ [sess.key, []]
    | .read key => Unread task.chan ∧ key ∈ [sess.key, []]
    | _ => Unread task.chan
  once : (reads task.chan.log).length ≤ 1

theorem Unread.net {chan chan' : Channel} {now : Instant} {action : NetAction} (h : Unread chan)
    (hnet : chan.net now action = some chan') : Unread chan' := by
  obtain ⟨events, hlog, -, hreads, -⟩ := net_reads hnet
  refine ⟨?_, h.2.net hnet⟩
  rw [hlog, reads_append, h.1, hreads]
  rfl

theorem Unread.checked {chan : Channel} (h : Unread chan) (found : Option Session)
    (now : Instant) : Unread (chan.note [.checked found now]) := by
  refine ⟨?_, h.2.quiet rfl (by simp [Event.IsQuiet]) rfl⟩
  rw [Channel.note, reads_append, h.1]
  rfl

theorem Unchanged.key_mem {sh : Shared σ} {sess : Session} (h : Unchanged sh sess) :
    (sh.store.get sess.id).elim [] Session.key ∈ [sess.key, []] := by
  obtain hnone | hsome := h
  · simp [hnone]
  · simp [hsome]

theorem reads_receivedFrame_le (key : List UInt8) (recv : Source) :
    (reads (receivedFrame key recv)).length ≤ 1 := by
  unfold receivedFrame
  split
  · exact Nat.le_refl 1
  · exact Nat.zero_le 1

/-- One case for each way through the task's code. -/
theorem StreamReads.moves {srv : Server σ} {sh sh' : Shared σ} {sess : Session}
    {task task' : StreamTask} (hstored : Unchanged sh sess) (hreads : StreamReads srv sess task)
    (h : StreamMoves srv sh task task.phase sh' task') : StreamReads srv sess task' := by
  have hid := hreads.id_eq
  have hkeyId := hreads.keyId_eq
  have hserved := hreads.served
  have hphase := hreads.phase
  have honce := hreads.once
  generalize task.phase = phase at h hserved hphase
  cases h with
  | fetched => exact ⟨hid, hkeyId, hserved, hphase, honce⟩
  | @expired found _ _ =>
    have hquiet : ∀ e ∈ [Event.checked (some found) sh.now] ++ [.answered .expiry 0 expiredResponse],
        e.IsQuiet := by simp [Event.IsQuiet]
    refine ⟨hid, hkeyId, ?_, trivial, ?_⟩
    · dsimp only [StreamTask.next]
      rw [Channel.log_reply, Channel.note, List.append_assoc]
      exact hserved.quiet hquiet
    · dsimp only [StreamTask.next]
      rw [Channel.log_reply, Channel.note, List.append_assoc, reads_append,
        (quiet_events hquiet).2.1, List.append_nil]
      exact honce
  | @alive found _ =>
    have hchecked := hphase.checked found sh.now
    refine ⟨hid, hkeyId, hserved.quiet (by simp [Event.IsQuiet]), hchecked, ?_⟩
    dsimp only [StreamTask.next]
    rw [hchecked.1]
    exact Nat.zero_le 1
  | keyed =>
    refine ⟨hid, hkeyId, hserved, ⟨hphase, ?_⟩, honce⟩
    rw [hid]
    exact hstored.key_mem
  | touched => exact ⟨hid, hkeyId, hserved, hphase, honce⟩
  | @unread key _ nonce resp herror =>
    obtain ⟨hunread, hkey⟩ := hphase
    refine ⟨hid, hkeyId, ?_, trivial, ?_⟩
    · exact (hserved.unread hunread.2 hkey herror).quiet (by simp [Event.IsQuiet])
    · dsimp only [StreamTask.next]
      rw [Channel.log_reply, Channel.note, reads_append, reads_append, hunread.1, List.nil_append]
      simpa [reads] using reads_receivedFrame_le key task.chan.recv
  | @read key freq seq recv hok =>
    obtain ⟨hunread, hkey⟩ := hphase
    refine ⟨hid, hkeyId, (hserved.readRequest hunread.2 hkey hok).1, trivial, ?_⟩
    dsimp only [StreamTask.next, Channel.note]
    rw [reads_append, hunread.1, List.nil_append]
    exact reads_receivedFrame_le key task.chan.recv
  | unanswered hcall _ =>
    subst hcall
    rw [quicServe_called, hid, hkeyId]
    refine ⟨hid, hkeyId, ?_, trivial, ?_⟩
    · exact hserved.called (calls_dispatchEvents _ _ _ _) (reads_dispatchEvents _ _ _).1
    · dsimp only [StreamTask.next, Channel.note]
      rw [reads_append, (reads_dispatchEvents _ _ _).1, List.append_nil]
      exact honce
  | answered hcall _ =>
    subst hcall
    rw [quicServe_called, hid, hkeyId]
    refine ⟨hid, hkeyId, ?_, trivial, ?_⟩
    · exact (hserved.called (calls_dispatchEvents _ _ _ _) (reads_dispatchEvents _ _ _).1).quiet
        (by simp [Event.IsQuiet])
    · dsimp only [StreamTask.next]
      rw [Channel.log_reply, Channel.note, reads_append, reads_append,
        (reads_dispatchEvents _ _ _).1, List.append_nil]
      simpa [reads] using honce

theorem streamReads_invariant (srv : Server σ) (config : SessionConfig) (sess : Session) :
    StreamInvariant srv config sess (StreamReads srv sess) where
  fresh := by
    refine ⟨rfl, rfl, ?_, ⟨rfl, rfl⟩, Nat.zero_le 1⟩
    exact ServesReads.opened List.nil_prefix rfl rfl
  net := by
    intro task now action chan hreads h
    refine ⟨hreads.id_eq, hreads.keyId_eq, hreads.served.net h, ?_, ?_⟩
    · have hphase := hreads.phase
      dsimp only
      split at hphase
      · trivial
      · trivial
      · exact ⟨hphase.1.net h, hphase.2⟩
      · exact ⟨hphase.1.net h, hphase.2⟩
      · exact hphase.net h
    · obtain ⟨events, hlog, -, hnone, -⟩ := net_reads h
      dsimp only
      rw [hlog, reads_append, hnone, List.append_nil]
      exact hreads.once
  moves := fun _ hstored hreads h => hreads.moves hstored h

/-- Nothing that was read under the empty key asks for a call. -/
theorem frameCall_nil (srv : Server σ) (serves : UInt16 → Bool) (sess : Session) (frame : Frame) :
    frameCall srv serves sess ([], frame) = none := by
  obtain ⟨e, he⟩ := @Session.decrypt_of_length_ne srv.aead [] frame.data (by decide)
  unfold frameCall decodeRequest openBody
  simp [bind, Except.bind, Except.mapError, he]

/-- In every run of a session the handlers are called for exactly the frames read
that open under its key and have a handler, in the order read and once for each
copy, whatever their sequence numbers. Over TCP these are the frames that arrived
on the connection after the hello; over QUIC the first frame of each stream. -/
theorem calls_of_reads (srv : Server σ) (sid : UInt64) (sh : Shared σ) (sess : Session) :
    (∀ actions s, run (tcpStep srv sid) (tcpAccepted sh) actions = some s →
      .established sess ∈ s.task.chan.log →
        ∃ wire hello, HelloWire wire hello ∧ ServesReads srv (tcpServes srv) sess [sess.key] wire
          s.task.chan.log (s.task.phase.pending srv)) ∧
    (∀ actions s, run (quicStep srv sid) (quicAccepted sh) actions = some s →
      .established sess ∈ s.chan.log → ∀ task ∈ s.streams,
        ServesReads srv (quicServes srv) sess [sess.key, []] [] task.chan.log
          (task.phase.pending srv sess) ∧ (reads task.chan.log).length ≤ 1) ∧
    (∀ serves frame, frameCall srv serves sess ([], frame) = none) := by
  refine ⟨?_, ?_, fun serves => frameCall_nil srv serves sess⟩
  · intro actions s hrun hsess
    obtain ⟨wire, hello, hwire, hreads⟩ := tcpReads_run hrun hsess
    exact ⟨wire, hello, hwire, hreads.served⟩
  · intro actions s hrun hsess task htask
    have hopen := quicOpened_run (streamReads_invariant srv sh.store.config) hrun hsess
    have hreads := hopen.streams task htask
    exact ⟨hreads.served, hreads.once⟩

/-- A connection on which a request of seq 9 arrives, and then its copy. -/
def replayActions : List (TcpAction Nat) := openingActions ++ requestActions 5 ++ requestActions 2

def replayedCall : Call := (⟨5, .new, 1, ""⟩, 9)

def replayed : Tcp Nat := tcpAccepted ⟨0, .new ⟨100, 10⟩, 0⟩

theorem replayed_run : ∃ s, run (tcpStep exampleServer 1) replayed replayActions = some s ∧
    .established exampleSession ∈ s.task.chan.log ∧ s.task.phase.pending exampleServer = none ∧
    arrivedBytes s.task.chan.log = anonymousHello 1 ++ exampleFrame ++ exampleFrame ∧
    calls s.task.chan.log = [replayedCall, replayedCall] := by
  have hrun : (run (tcpStep exampleServer 1) replayed replayActions).map (fun s =>
      (s.task.chan.log.take 2, s.task.phase.pending exampleServer, arrivedBytes s.task.chan.log,
        calls s.task.chan.log)) =
      some ([.arrived 0 (anonymousHello 1), .established exampleSession], none,
        anonymousHello 1 ++ exampleFrame ++ exampleFrame, [replayedCall, replayedCall]) := by rfl
  obtain ⟨s, hrun, hs⟩ := Option.map_eq_some_iff.mp hrun
  simp only [Prod.mk.injEq] at hs
  obtain ⟨htake, hs⟩ := hs
  refine ⟨s, hrun, ?_, hs⟩
  apply List.mem_of_mem_take (i := 2)
  rw [htake]
  simp

/-- The handler is called again for the copy. -/
theorem replayed_request_called_again :
    ∃ s, run (tcpStep exampleServer 1) replayed replayActions = some s ∧
      .established exampleSession ∈ s.task.chan.log ∧
      arrivedBytes s.task.chan.log = anonymousHello 1 ++ exampleFrame ++ exampleFrame ∧
      calls s.task.chan.log = [replayedCall, replayedCall] := by
  obtain ⟨s, hrun, hsess, -, harrived, hcalls⟩ := replayed_run
  exact ⟨s, hrun, hsess, harrived, hcalls⟩

/-- The two calls are those of the frames read. -/
theorem calls_of_reads_replayed : ∃ log wire hello, HelloWire wire hello ∧
    ServesReads exampleServer (tcpServes exampleServer) exampleSession [exampleSession.key] wire log
      none ∧ calls log = [replayedCall, replayedCall] := by
  obtain ⟨s, hrun, hsess, hpending, -, hcalls⟩ := replayed_run
  obtain ⟨wire, hello, hwire, hserved⟩ :=
    (calls_of_reads exampleServer 1 _ exampleSession).1 replayActions s hrun hsess
  rw [hpending] at hserved
  exact ⟨s.task.chan.log, wire, hello, hwire, hserved, hcalls⟩

end Hush.Server
