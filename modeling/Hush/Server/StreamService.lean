import Hush.Server.TcpService

/-! A request stream from its opening to its end: `handle_request_stream` serves the one
request that is sent on it. Streams that are served one at a time serve the requests in
their order. -/
namespace Hush.Server

open Hush.Foundation Execution Cursor
open Hush.Frame hiding Request
open Hush.Session

variable {σ : Type}

/-! ### One stream -/

/-- A stream task and the server around it. -/
structure OneStream (σ : Type) where
  shared : Shared σ
  task : StreamTask

/-- One step of `handle_request_stream` with the server and the network around it; the
actions are those of a TCP connection. -/
def streamStep (srv : Server σ) (sid : UInt64) (s : OneStream σ) :
    TcpAction σ → Option (OneStream σ)
  | .env action => (s.shared.env sid action).map fun sh => { s with shared := sh }
  | .net action =>
    (s.task.chan.net s.shared.now action).map fun chan => { s with task := { s.task with chan } }
  | .run nonce => (streamRun srv nonce s.shared s.task).map fun next => ⟨next.1, next.2⟩

/-- The stream of a session has just been opened. -/
def streamOpened (sess : Session) (sh : Shared σ) : OneStream σ :=
  ⟨sh, ⟨sess.id, sess.apiKeyId, .opened, .fetch⟩⟩

/-- Until the task ends its session is alive, and it is not disturbed. -/
def streamUndisturbed (sess : Session) (s : OneStream σ) (action : TcpAction σ) : Bool :=
  action.undisturbing &&
    match s.task.phase with
    | .ended => true
    | _ => sessionAlive sess s.shared

theorem streamUndisturbed_of_alive {sess : Session} {s : OneStream σ} {action : TcpAction σ}
    (hkeeps : action.undisturbing = true) (halive : sessionAlive sess s.shared = true) :
    streamUndisturbed sess s action = true := by
  unfold streamUndisturbed
  rw [hkeeps, Bool.true_and]
  split
  · rfl
  · exact halive

/-- The steps of a stream task before its frame is read. -/
inductive StreamWaiting (sess : Session) : Nat → StreamPhase → Prop where
  | fetch : StreamWaiting sess 0 .fetch
  | judge : StreamWaiting sess 1 (.judge (some sess))
  | key : StreamWaiting sess 2 .key
  | touch : StreamWaiting sess 3 (.touch sess.key)
  | read : StreamWaiting sess 4 (.read sess.key)

/-- The task has taken this many steps since the stream was opened; the bytes `later` of its
request are still to come. -/
inductive StreamAt (srv : Server σ) (sess : Session) (ask : Ask srv.aead sess.key) (app₀ : σ) :
    Nat → List UInt8 → OneStream σ → Prop where
  | waiting {step : Nat} {later : List UInt8} {sh : Shared σ} {chan : Channel}
      {phase : StreamPhase} :
      StreamWaiting sess step phase → Serving srv sess .opened app₀ [] sh.app chan →
      chan.recv.bytes ++ later = ask.frame.bytes →
      StreamAt srv sess ask app₀ step later ⟨sh, ⟨sess.id, sess.apiKeyId, chan, phase⟩⟩
  | dispatch {later : List UInt8} {sh : Shared σ} {chan : Channel} :
      Serving srv sess .opened app₀ [] sh.app chan →
      StreamAt srv sess ask app₀ 5 later
        ⟨sh, ⟨sess.id, sess.apiKeyId, chan, .dispatch sess.key ask.freq ask.seq⟩⟩
  | ended {later : List UInt8} {sh : Shared σ} {chan : Channel} :
      Serving srv sess .opened app₀ [ask] sh.app chan →
      StreamAt srv sess ask app₀ 6 later ⟨sh, ⟨sess.id, sess.apiKeyId, chan, .ended⟩⟩

theorem StreamMoves.ending {srv : Server σ} {sh sh' : Shared σ} {task task' : StreamTask}
    {phase : StreamPhase} (h : StreamMoves srv sh task phase sh' task') :
    task'.chan.recv.ending = task.chan.recv.ending := by
  cases h with
  | read hrun =>
    obtain ⟨frame, hread, -⟩ := readRequestAsync_ok hrun
    exact (readFrameFrom_sound hread).2.2
  | fetched | expired | alive | keyed | touched | unread | unanswered | answered => rfl

namespace StreamAt

variable {srv : Server σ} {sess : Session} {ask : Ask srv.aead sess.key} {app₀ : σ}
  {taken : Nat} {later : List UInt8} {s s' : OneStream σ}

theorem env (h : StreamAt srv sess ask app₀ taken later s) {action : EnvAction σ}
    {sh : Shared σ} (henv : s.shared.env sess.id action = some sh)
    (happ : (TcpAction.env action).undisturbing = true) :
    StreamAt srv sess ask app₀ taken later { s with shared := sh } := by
  have hsame := env_app henv happ
  cases h with
  | waiting hphase hserving hbytes => exact .waiting hphase (hsame ▸ hserving) hbytes
  | dispatch hserving => exact .dispatch (hsame ▸ hserving)
  | ended hserving => exact .ended (hsame ▸ hserving)

theorem net {action : NetAction} {chan : Channel}
    (h : StreamAt srv sess ask app₀ taken (action.arrival ++ later) s)
    (hnet : s.task.chan.net s.shared.now action = some chan)
    (hkeeps : action.keepsWriting = true)
    (hclosed : chan.recv.ending ≠ .wouldBlock → later = []) :
    StreamAt srv sess ask app₀ taken later { s with task := { s.task with chan } } := by
  have hlater := (net_later hnet hclosed).2
  cases h with
  | waiting hphase hserving hbytes =>
    exact .waiting hphase (hserving.net hkeeps hnet) (hlater.trans hbytes)
  | dispatch hserving => exact .dispatch (hserving.net hkeeps hnet)
  | ended hserving => exact .ended (hserving.net hkeeps hnet)

/-- The task's own step: it is enabled unless the task has ended or waits for bytes that are
still to come. -/
theorem next (hsync : SyncOnly srv) (h : StreamAt srv sess ask app₀ taken later s)
    (halive : s.task.phase ≠ .ended → sessionAlive sess s.shared = true)
    (hclosed : s.task.chan.recv.ending ≠ .wouldBlock → later = []) (nonce : Nonce) :
    (∃ s', streamStep srv sess.id s (.run nonce) = some s' ∧
        StreamAt srv sess ask app₀ (taken + 1) later s') ∨
      (streamStep srv sess.id s (.run nonce) = none ∧ (taken = 6 ∨ later ≠ [])) := by
  cases h with
  | @waiting _ _ sh chan phase hphase hserving hbytes =>
    obtain ⟨hstored, hcheck⟩ := sessionAlive_iff.mp (halive (by rintro rfl; cases hphase))
    dsimp only at hstored hcheck hclosed
    have hgoes (chan' : Channel) {phase' : StreamPhase} {step : Nat}
        (hrun : streamRun srv nonce sh ⟨sess.id, sess.apiKeyId, chan, phase⟩ =
          some (sh, ⟨sess.id, sess.apiKeyId, chan', phase'⟩))
        (hat : StreamAt srv sess ask app₀ step later
          ⟨sh, ⟨sess.id, sess.apiKeyId, chan', phase'⟩⟩) :
        ∃ s', streamStep srv sess.id ⟨sh, ⟨sess.id, sess.apiKeyId, chan, phase⟩⟩ (.run nonce) =
          some s' ∧ StreamAt srv sess ask app₀ step later s' := by
      refine ⟨_, ?_, hat⟩
      unfold streamStep
      dsimp only
      rw [hrun, Option.map_some]
    cases hphase with
    | fetch =>
      refine .inl (hgoes chan ?_ (.waiting .judge hserving hbytes))
      simp only [streamRun, StreamTask.next, hstored]
    | judge =>
      refine .inl (hgoes (chan.note [.checked (some sess) sh.now]) ?_
        (.waiting .key (hserving.note rfl) hbytes))
      simp [streamRun, StreamTask.next, hcheck]
    | key =>
      refine .inl (hgoes chan ?_ (.waiting .touch hserving hbytes))
      simp only [streamRun, StreamTask.next, hstored, Option.elim]
    | touch =>
      refine .inl (hgoes chan ?_ (.waiting .read hserving hbytes))
      simp only [streamRun, StreamTask.next, touchSession_eq]
    | read =>
      have hnoted := hserving.note (calls_receivedFrame sess.key chan.recv)
      obtain ⟨more, hrun, -⟩ | ⟨hmissing, hrun⟩ :=
        readRequest_ask (hbytes.trans (List.append_nil _).symm) hclosed
      · refine .inl (hgoes { chan.note (receivedFrame sess.key chan.recv) with
          recv := ⟨more, chan.recv.ending⟩ } ?_ (.dispatch (hnoted.quiet rfl rfl)))
        simp only [streamRun, StreamTask.next, hrun]
      · refine .inr ⟨?_, .inr hmissing⟩
        unfold AwaitsBytes at hrun
        simp only [streamStep, streamRun, hrun, Option.map_none]
  | @dispatch _ sh chan hserving =>
    obtain ⟨cause, resp, hanswer⟩ := serve_answer hsync sh.app ask
    refine .inl ⟨⟨{ sh with app := (serve srv sess sh.app ask).app }, ⟨sess.id, sess.apiKeyId,
      (chan.note (dispatchEvents (serve srv sess sh.app ask).called ask.request ask.seq)).reply
        srv.aead nonce sess.key cause ask.seq resp, .ended⟩⟩, ?_,
      .ended (hserving.answered ask hanswer nonce)⟩
    simp only [streamStep, streamRun, quicServe_eq hsync, hanswer, Option.map_some]
    rfl
  | ended => exact .inr ⟨rfl, .inl rfl⟩

/-- The step lemma, told from what is still to arrive after the step. -/
theorem step (hsync : SyncOnly srv) {action : TcpAction σ}
    (hundisturbed : streamUndisturbed sess s action = true)
    (hstep : streamStep srv sess.id s action = some s')
    (h : (s.task.chan.recv.ending ≠ .wouldBlock → action.arrival ++ later = []) →
      StreamAt srv sess ask app₀ taken (action.arrival ++ later) s)
    (hclosed : s'.task.chan.recv.ending ≠ .wouldBlock → later = []) :
    StreamAt srv sess ask app₀ (taken + if action.isRun then 1 else 0) later s' := by
  obtain ⟨hkeeps, halive⟩ := Bool.and_eq_true_iff.mp hundisturbed
  cases action with
  | env action =>
    obtain ⟨sh, henv, rfl⟩ := Option.map_eq_some_iff.mp hstep
    exact (h hclosed).env henv hkeeps
  | net action =>
    obtain ⟨chan, hnet, rfl⟩ := Option.map_eq_some_iff.mp hstep
    exact (h (net_later hnet hclosed).1).net hnet hkeeps hclosed
  | run nonce =>
    obtain ⟨moved, hmoved, rfl⟩ := Option.map_eq_some_iff.mp hstep
    rw [(streamRun_moves hmoved).ending] at hclosed
    have hsession : s.task.phase ≠ .ended → sessionAlive sess s.shared = true := by
      intro hphase
      revert halive
      split
      · rename_i hended
        exact absurd hended hphase
      · exact id
    obtain ⟨s'', hnext, hat⟩ | ⟨hnone, -⟩ := (h hclosed).next hsync hsession hclosed nonce
    · obtain rfl := Option.some.inj (hnext.symm.trans hstep)
      exact hat
    · cases hnone.symm.trans hstep

/-- The run lemma. -/
theorem run (hsync : SyncOnly srv) {sh : Shared σ} {actions : List (TcpAction σ)}
    (hbytes : fed actions ++ later = ask.frame.bytes)
    (hundisturbed : Along (streamStep srv sess.id)
      (fun s a => streamUndisturbed sess s a = true) (streamOpened sess sh) actions)
    (hrun : Execution.run (streamStep srv sess.id) (streamOpened sess sh) actions = some s)
    (hclosed : s.task.chan.recv.ending ≠ .wouldBlock → later = []) :
    StreamAt srv sess ask sh.app (actions.countP TcpAction.isRun) later s :=
  run_fed (step hsync) hundisturbed hrun hclosed (.waiting .fetch (.start rfl _) hbytes)

end StreamAt

end Hush.Server
