import Hush.Server.QuicSession
import Hush.Server.TcpExpiry

/-! The idle timeout: touching a session changes a clone, so the deadline that the
expiry check uses is never renewed. -/
namespace Hush.Server

open Hush.Foundation Execution
open Hush.Frame hiding Request
open Hush.Session

variable {σ : Type}

/-- What holds of the expiry check of a request stream. -/
structure StreamChecks (config : SessionConfig) (sess : Session) (task : StreamTask) : Prop where
  id_eq : task.sessionId = sess.id
  expiry : ExpiryLog config sess task.chan.log
  judge : ∀ found, task.phase = .judge found → found = none ∨ found = some sess

/-- One case for each way through the task's code. -/
theorem StreamChecks.moves {srv : Server σ} {sh sh' : Shared σ} {sess : Session}
    {task task' : StreamTask} (hstored : Unchanged sh sess)
    (hchecks : StreamChecks sh.store.config sess task)
    (h : StreamMoves srv sh task task.phase sh' task') :
    StreamChecks sh.store.config sess task' := by
  have hexpiry := hchecks.expiry
  have hjudge := hchecks.judge
  generalize task.phase = phase at h hjudge
  cases h with
  | fetched =>
    refine ⟨hchecks.id_eq, hexpiry, ?_⟩
    intro found hfound
    obtain rfl := StreamPhase.judge.inj hfound
    rw [hchecks.id_eq]
    exact hstored
  | @expired found nonce hcheck =>
    obtain hnone | hsome := hjudge _ rfl
    · cases hnone
    · obtain rfl := Option.some.inj hsome
      exact ⟨hchecks.id_eq, hexpiry.expired (expiryCheck_some_iff.mp hcheck),
        by simp [StreamTask.next]⟩
  | @alive found hcheck =>
    refine ⟨hchecks.id_eq, ?_, by simp [StreamTask.next]⟩
    apply hexpiry.alive (hjudge found rfl)
    rintro s rfl hdead
    rw [expiryCheck_some_iff.mpr hdead] at hcheck
    cases hcheck
  | keyed => exact ⟨hchecks.id_eq, hexpiry, by simp [StreamTask.next]⟩
  | touched => exact ⟨hchecks.id_eq, hexpiry, by simp [StreamTask.next]⟩
  | unread _ =>
    refine ⟨hchecks.id_eq, ?_, by simp [StreamTask.next]⟩
    exact (hexpiry.append not_isExpiry_receivedFrame).append (not_isExpiry_answered (by decide))
  | read _ =>
    exact ⟨hchecks.id_eq, hexpiry.append not_isExpiry_receivedFrame, by simp [StreamTask.next]⟩
  | unanswered _ _ =>
    exact ⟨hchecks.id_eq, hexpiry.append not_isExpiry_dispatchEvents, by simp [StreamTask.next]⟩
  | answered hserved hanswer =>
    subst hserved
    refine ⟨hchecks.id_eq, ?_, by simp [StreamTask.next]⟩
    exact (hexpiry.append not_isExpiry_dispatchEvents).append
      (not_isExpiry_answered (quicServe_answer hanswer))

theorem streamChecks_invariant (srv : Server σ) (config : SessionConfig) (sess : Session) :
    StreamInvariant srv config sess (StreamChecks config sess) where
  fresh := by
    constructor
    · rfl
    · apply ExpiryLog.of_none
      simp [Channel.opened]
    · simp
  net := by
    intro task now action chan hchecks h
    obtain ⟨events, hlog, harrival⟩ := net_log h
    refine ⟨hchecks.id_eq, ?_, hchecks.judge⟩
    dsimp only
    rw [hlog]
    exact hchecks.expiry.append fun e he => not_isExpiry_of_isArrival (harrival e he)
  moves := by
    intro sh sh' task task' hconfig hstored hchecks h
    subst hconfig
    exact hchecks.moves hstored h

/-- The log of a channel that carries the requests of a session, in any state
that a run reaches: of the connection over TCP, of any of its streams over QUIC. -/
inductive RequestLog (srv : Server σ) (config : SessionConfig) (sess : Session) :
    List Event → Prop where
  | tcp {sid : UInt64} {sh : Shared σ} {actions : List (TcpAction σ)} {s : Tcp σ} :
      run (tcpStep srv sid) (tcpAccepted sh) actions = some s → s.shared.store.config = config →
        .established sess ∈ s.task.chan.log → RequestLog srv config sess s.task.chan.log
  | quic {sid : UInt64} {sh : Shared σ} {actions : List (QuicAction σ)} {s : Quic σ}
      {task : StreamTask} :
      run (quicStep srv sid) (quicAccepted sh) actions = some s → s.shared.store.config = config →
        .established sess ∈ s.chan.log → task ∈ s.streams →
          RequestLog srv config sess task.chan.log

/-- What both transports' invariants say of the session and its checks. -/
theorem RequestLog.expiryLog {srv : Server σ} {config : SessionConfig} {sess : Session}
    {log : List Event} (h : RequestLog srv config sess log) :
    ExpiryLog config sess log ∧ sess.lastUsed = sess.createdAt := by
  cases h with
  | tcp hrun hconfig hsess =>
    have hopen := tcpOpened_run hrun hsess
    rw [← hconfig]
    exact ⟨hopen.expiry, hopen.untouched⟩
  | quic hrun hconfig hsess htask =>
    have hopen := quicOpened_run (streamChecks_invariant srv _) hrun hsess
    rw [← hconfig, hopen.config_eq]
    exact ⟨(hopen.streams _ htask).expiry, hopen.untouched⟩

/-- In every run of a session that stays within its lifetime, over either
transport, no request is refused exactly if every expiry check that finds the
session comes within the idle timeout of its creation, whenever requests arrive. -/
theorem unrefused_iff_findsWithin (srv : Server σ) (config : SessionConfig) (sess : Session)
    (log : List Event) (hlog : RequestLog srv config sess log)
    (hage : ChecksWithin config.maxLifetime sess log) :
    Unrefused log ↔ FindsWithin config.idleTimeout sess log :=
  hlog.expiryLog.1.unrefused_iff hlog.expiryLog.2 hage

/-- The handshake and the insertion of the session, at time zero. -/
def quicOpeningActions : List (QuicAction Nat) :=
  .net (.deliver (anonymousHello 1)) :: List.replicate 2 (.run exampleNonce)

/-- After 8 more the client sends a request on a new stream, and its task runs. -/
def laterRequest (index steps : Nat) : List (QuicAction Nat) :=
  .env (.advance 8) :: .openStream :: .streamNet index (.deliver exampleFrame) ::
    List.replicate steps (.stream index exampleNonce)

/-- The connection of these examples: idle timeout 10, lifetime 100. -/
def soonIdle : Quic Nat := quicAccepted ⟨0, .new ⟨10, 100⟩, 0⟩

/-- The log of the stream of a request that the handler served at time 8. -/
def servedLog : List Event :=
  [.arrived 8 exampleFrame, .checked (some exampleSession) 8,
    .received exampleSession.key
      ⟨9, List.replicate 12 7 ++ ([0, 5] ++ exampleSession.key.take tagSize)⟩,
    .dispatched ⟨5, .new, 1, ""⟩ 9, .answered .handled 9 (newResponse .new)]

/-- A request at time 8 is not refused. -/
theorem unrefused_iff_findsWithin_served : Unrefused servedLog := by
  have hrun : (run (quicStep exampleServer 1) soonIdle (quicOpeningActions ++ laterRequest 0 6)).map
      (fun s => (s.shared.store.config, s.chan.log, s.streams.map fun task => task.chan.log)) =
        some (⟨10, 100⟩, [.arrived 0 (anonymousHello 1), .established exampleSession],
          [servedLog]) := by rfl
  obtain ⟨s, hrun, hs⟩ := Option.map_eq_some_iff.mp hrun
  simp only [Prod.mk.injEq, List.map_eq_singleton_iff] at hs
  obtain ⟨hconfig, hopened, task, htask, hserved⟩ := hs
  have hlog : RequestLog exampleServer ⟨10, 100⟩ exampleSession task.chan.log :=
    .quic hrun hconfig (by simp [hopened]) (by simp [htask])
  rw [hserved] at hlog
  rw [unrefused_iff_findsWithin exampleServer ⟨10, 100⟩ exampleSession servedLog hlog]
  · simp [FindsWithin, servedLog, elapsed, exampleSession, Session.new]
  · simp [ChecksWithin, servedLog, elapsed, exampleSession, Session.new]

/-- Each instant is at most `span` after the one before it. -/
def Spaced (span : Nat) : Instant → List Instant → Prop
  | _, [] => True
  | since, now :: rest => elapsed now since ≤ span ∧ Spaced span now rest

/-- When bytes arrived. -/
def arrivals (log : List Event) : List Instant :=
  log.filterMap fun e => match e with
    | .arrived now _ => some now
    | _ => none

/-- A client that sends a request every 8 is refused at its second one. -/
theorem active_session_idles_out :
    ∃ s, run (quicStep exampleServer 1) soonIdle
        (quicOpeningActions ++ laterRequest 0 6 ++ laterRequest 1 2) = some s ∧
      s.shared.store.config = ⟨10, 100⟩ ∧ .established exampleSession ∈ s.chan.log ∧
      Spaced 10 exampleSession.createdAt (s.streams.flatMap fun task => arrivals task.chan.log) ∧
      elapsed s.shared.now exampleSession.createdAt ≤ 100 ∧
      ∃ task ∈ s.streams, ¬Unrefused task.chan.log := by
  have hrun : (run (quicStep exampleServer 1) soonIdle
      (quicOpeningActions ++ laterRequest 0 6 ++ laterRequest 1 2)).map (fun s =>
        (s.shared.store.config, s.shared.now, s.chan.log, s.streams.map fun task => task.chan.log)) =
        some (⟨10, 100⟩, 16, [.arrived 0 (anonymousHello 1), .established exampleSession],
          [servedLog, [.arrived 16 exampleFrame, .checked (some exampleSession) 16,
            .answered .expiry 0 expiredResponse]]) := by rfl
  obtain ⟨s, hrun, hs⟩ := Option.map_eq_some_iff.mp hrun
  simp only [Prod.mk.injEq] at hs
  obtain ⟨hconfig, hnow, hopened, hstreams⟩ := hs
  refine ⟨s, hrun, hconfig, by simp [hopened], ?_, ?_, ?_⟩
  · have harrivals : (s.streams.flatMap fun task => arrivals task.chan.log) =
        (s.streams.map fun task => task.chan.log).flatMap arrivals := by
      rw [List.flatMap_map]
    rw [harrivals, hstreams]
    exact ⟨by decide, by decide, trivial⟩
  · rw [hnow]
    decide
  · have hrefused : [.arrived 16 exampleFrame, .checked (some exampleSession) 16,
        .answered .expiry 0 expiredResponse] ∈ s.streams.map fun task => task.chan.log := by
      simp [hstreams]
    obtain ⟨task, htask, hlog⟩ := List.mem_map.mp hrefused
    refine ⟨task, htask, ?_⟩
    rw [hlog]
    intro hunrefused
    exact hunrefused 0 expiredResponse (by simp)

end Hush.Server
