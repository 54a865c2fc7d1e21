import Hush.Foundation.Execution
import Hush.Server.Dispatch

/-! `handle_tcp_connection`: the handshake, then a loop that checks the session,
reads a frame and answers it, then the session's removal. A step runs the task
to its next look at the store, its next read or its next handler call; between
any two steps the network and the rest of the server may act. -/
namespace Hush.Server

open Hush.Foundation Execution
open Hush.Frame hiding Request
open Hush.Session

/-- Where a round of the request loop stands. -/
inductive LoopPhase where
  | fetch
  | judge (found : Option Session)
  | touch
  | read
  | dispatch (freq : Frame.Request) (seq : UInt32)

/-- How a task ends. -/
inductive Outcome where
  | returned (result : Except ServerError Unit)
  | panicked

/-- In the loop the task's own key, key id and session id are those of the
session that it inserted. -/
inductive TcpPhase where
  | handshake
  | insert (est : Established)
  | loop (sess : Session) (phase : LoopPhase)
  | closing (sess : Session)
  | ended (outcome : Outcome)

structure TcpTask where
  chan : Channel
  phase : TcpPhase

/-- A connection and the server around it. -/
structure Tcp (σ : Type) where
  shared : Shared σ
  task : TcpTask

inductive TcpAction (σ : Type) where
  | env (action : EnvAction σ)
  | net (action : NetAction)
  | run (nonce : Nonce)

variable {σ : Type}

/-- Look up the handler and call it. Streaming handlers are refused over TCP. -/
def tcpServe (srv : Server σ) (sess : Session) (freq : Frame.Request) (seq : UInt32) (app : σ) :
    Served σ :=
  match srv.handlers freq.opcode with
  | none => ⟨false, app, some (.notFound, notFoundResponse freq.opcode seq)⟩
  | some (.stream _) =>
    let m := Tlv.MapOf.new.set "error" (.string "streaming not supported over TCP")
    ⟨false, app, some (.streaming, ⟨.badRequest, some m, seq⟩)⟩
  | some (.sync handler) => callHandler handler (toRequest sess.id sess.apiKeyId freq) app

/-- A round of the request loop. -/
def tcpLoop (srv : Server σ) (nonce : Nonce) (sh : Shared σ) (chan : Channel) (sess : Session) :
    LoopPhase → Option (Shared σ × TcpTask)
  | .fetch => some (sh, ⟨chan, .loop sess (.judge (sh.store.get sess.id))⟩)
  | .judge found =>
    let chan := chan.note [.checked found sh.now]
    if expiryCheck sh.store sh.now found then
      some (sh, ⟨chan.reply srv.aead nonce sess.key .expiry 0 expiredResponse, .closing sess⟩)
    else some (sh, ⟨chan, .loop sess .touch⟩)
  | .touch =>
    some ({ sh with store := touchSession sh.store sh.now sess.id }, ⟨chan, .loop sess .read⟩)
  | .read =>
    let noted := chan.note (receivedFrame sess.key chan.recv)
    match readRequestAsync srv.aead chan.recv (some sess.key) with
    | .error (.frame (.io .wouldBlock)) => none
    | .error _ => some (sh, ⟨noted, .closing sess⟩)
    | .ok ((freq, seq), recv) =>
      some (sh, ⟨{ noted with recv }, .loop sess (.dispatch freq seq)⟩)
  | .dispatch freq seq =>
    let served := tcpServe srv sess freq seq sh.app
    let req := toRequest sess.id sess.apiKeyId freq
    let chan := chan.note (dispatchEvents served.called req seq)
    match served.answer with
    | none => some ({ sh with app := served.app }, ⟨chan, .ended .panicked⟩)
    | some (cause, resp) =>
      some ({ sh with app := served.app },
        ⟨chan.reply srv.aead nonce sess.key cause seq resp, .loop sess .fetch⟩)

/-- One step of the task. -/
def tcpRun (srv : Server σ) (sid : UInt64) (nonce : Nonce) (sh : Shared σ) (task : TcpTask) :
    Option (Shared σ × TcpTask) :=
  match task.phase with
  | .handshake =>
    match tcpHandshake srv.keys sid task.chan.recv task.chan.send with
    | (.error (.io .wouldBlock), _) => none
    | (.error e, send) =>
      some (sh, ⟨{ task.chan with send }, .ended (.returned (.error e))⟩)
    | (.ok (est, recv), send) => some (sh, ⟨{ task.chan with recv, send }, .insert est⟩)
  | .insert est =>
    let sess := Session.new sh.now sid est.apiKeyId est.sessionKey
    some ({ sh with store := sh.store.insert sess },
      ⟨task.chan.note [.established sess], .loop sess .fetch⟩)
  | .loop sess phase => tcpLoop srv nonce sh task.chan sess phase
  | .closing sess =>
    some ({ sh with store := sh.store.delete sess.id },
      ⟨task.chan, .ended (.returned (.ok ()))⟩)
  | .ended _ => none

/-- One step of the connection with the server and the network around it. -/
def tcpStep (srv : Server σ) (sid : UInt64) (s : Tcp σ) : TcpAction σ → Option (Tcp σ)
  | .env action => (s.shared.env sid action).map fun sh => { s with shared := sh }
  | .net action =>
    (s.task.chan.net s.shared.now action).map fun chan => { s with task := { s.task with chan } }
  | .run nonce => (tcpRun srv sid nonce s.shared s.task).map fun next => ⟨next.1, next.2⟩

/-- A connection that has just been accepted. -/
def tcpAccepted (sh : Shared σ) : Tcp σ := ⟨sh, ⟨.opened, .handshake⟩⟩

/-- What a step of the task can do, one case for each way through its code. -/
inductive TcpMoves (srv : Server σ) (sid : UInt64) (sh : Shared σ) (chan : Channel) :
    TcpPhase → Shared σ → TcpTask → Prop where
  | refused {send : Sink} {e : ServerError} :
      tcpHandshake srv.keys sid chan.recv chan.send = (.error e, send) →
        TcpMoves srv sid sh chan .handshake sh
          ⟨{ chan with send }, .ended (.returned (.error e))⟩
  | accepted {est : Established} {recv : Source} {send : Sink} :
      tcpHandshake srv.keys sid chan.recv chan.send = (.ok (est, recv), send) →
        TcpMoves srv sid sh chan .handshake sh ⟨{ chan with recv, send }, .insert est⟩
  | inserted {est : Established} {sess : Session} :
      sess = Session.new sh.now sid est.apiKeyId est.sessionKey →
        TcpMoves srv sid sh chan (.insert est) { sh with store := sh.store.insert sess }
          ⟨chan.note [.established sess], .loop sess .fetch⟩
  | fetched {sess : Session} :
      TcpMoves srv sid sh chan (.loop sess .fetch) sh
        ⟨chan, .loop sess (.judge (sh.store.get sess.id))⟩
  | expired {sess : Session} {found : Option Session} {nonce : Nonce} :
      expiryCheck sh.store sh.now found = true →
        TcpMoves srv sid sh chan (.loop sess (.judge found)) sh
          ⟨(chan.note [.checked found sh.now]).reply srv.aead nonce sess.key .expiry 0
            expiredResponse, .closing sess⟩
  | alive {sess : Session} {found : Option Session} :
      expiryCheck sh.store sh.now found = false →
        TcpMoves srv sid sh chan (.loop sess (.judge found)) sh
          ⟨chan.note [.checked found sh.now], .loop sess .touch⟩
  | touched {sess : Session} :
      TcpMoves srv sid sh chan (.loop sess .touch) sh ⟨chan, .loop sess .read⟩
  | unread {sess : Session} {e : RequestError} :
      readRequestAsync srv.aead chan.recv (some sess.key) = .error e →
        TcpMoves srv sid sh chan (.loop sess .read) sh
          ⟨chan.note (receivedFrame sess.key chan.recv), .closing sess⟩
  | read {sess : Session} {freq : Frame.Request} {seq : UInt32} {recv : Source} :
      readRequestAsync srv.aead chan.recv (some sess.key) = .ok ((freq, seq), recv) →
        TcpMoves srv sid sh chan (.loop sess .read) sh
          ⟨{ chan.note (receivedFrame sess.key chan.recv) with recv },
            .loop sess (.dispatch freq seq)⟩
  | panicked {sess : Session} {freq : Frame.Request} {seq : UInt32} {served : Served σ} :
      served = tcpServe srv sess freq seq sh.app → served.answer = none →
        TcpMoves srv sid sh chan (.loop sess (.dispatch freq seq)) { sh with app := served.app }
          ⟨chan.note (dispatchEvents served.called (toRequest sess.id sess.apiKeyId freq) seq),
            .ended .panicked⟩
  | answered {sess : Session} {freq : Frame.Request} {seq : UInt32} {served : Served σ}
      {cause : Cause} {resp : Response} {nonce : Nonce} :
      served = tcpServe srv sess freq seq sh.app → served.answer = some (cause, resp) →
        TcpMoves srv sid sh chan (.loop sess (.dispatch freq seq)) { sh with app := served.app }
          ⟨(chan.note (dispatchEvents served.called (toRequest sess.id sess.apiKeyId freq) seq)).reply
            srv.aead nonce sess.key cause seq resp, .loop sess .fetch⟩
  | closed {sess : Session} :
      TcpMoves srv sid sh chan (.closing sess) { sh with store := sh.store.delete sess.id }
        ⟨chan, .ended (.returned (.ok ()))⟩

theorem tcpLoop_moves {srv : Server σ} {sid : UInt64} {nonce : Nonce} {sh sh' : Shared σ}
    {chan : Channel} {sess : Session} {phase : LoopPhase} {task' : TcpTask}
    (h : tcpLoop srv nonce sh chan sess phase = some (sh', task')) :
    TcpMoves srv sid sh chan (.loop sess phase) sh' task' := by
  unfold tcpLoop at h
  cases phase with
  | fetch =>
    simp only [Option.some.injEq, Prod.mk.injEq] at h
    obtain ⟨rfl, rfl⟩ := h
    exact .fetched
  | judge found =>
    dsimp only at h
    split at h <;> rename_i hcheck <;> simp only [Option.some.injEq, Prod.mk.injEq] at h <;>
      obtain ⟨rfl, rfl⟩ := h
    · exact .expired hcheck
    · exact .alive (Bool.eq_false_iff.mpr hcheck)
  | touch =>
    simp only [touchSession_eq, Option.some.injEq, Prod.mk.injEq] at h
    obtain ⟨rfl, rfl⟩ := h
    exact .touched
  | read =>
    dsimp only at h
    split at h
    · cases h
    · rename_i e _ hread
      simp only [Option.some.injEq, Prod.mk.injEq] at h
      obtain ⟨rfl, rfl⟩ := h
      exact .unread hread
    · rename_i freq seq recv hread
      simp only [Option.some.injEq, Prod.mk.injEq] at h
      obtain ⟨rfl, rfl⟩ := h
      exact .read hread
  | dispatch freq seq =>
    dsimp only at h
    split at h <;> rename_i hanswer <;> simp only [Option.some.injEq, Prod.mk.injEq] at h <;>
      obtain ⟨rfl, rfl⟩ := h
    · exact .panicked rfl hanswer
    · exact .answered rfl hanswer

theorem tcpRun_moves {srv : Server σ} {sid : UInt64} {nonce : Nonce} {sh sh' : Shared σ}
    {task task' : TcpTask} (h : tcpRun srv sid nonce sh task = some (sh', task')) :
    TcpMoves srv sid sh task.chan task.phase sh' task' := by
  unfold tcpRun at h
  match hphase : task.phase with
  | .handshake =>
    rw [hphase] at h
    dsimp only at h
    split at h
    · cases h
    · rename_i e send _ hrefused
      simp only [Option.some.injEq, Prod.mk.injEq] at h
      obtain ⟨rfl, rfl⟩ := h
      exact .refused hrefused
    · rename_i est recv send haccepted
      simp only [Option.some.injEq, Prod.mk.injEq] at h
      obtain ⟨rfl, rfl⟩ := h
      exact .accepted haccepted
  | .insert est =>
    rw [hphase] at h
    simp only [Option.some.injEq, Prod.mk.injEq] at h
    obtain ⟨rfl, rfl⟩ := h
    exact .inserted rfl
  | .loop sess phase =>
    rw [hphase] at h
    exact tcpLoop_moves h
  | .closing sess =>
    rw [hphase] at h
    simp only [Option.some.injEq, Prod.mk.injEq] at h
    obtain ⟨rfl, rfl⟩ := h
    exact .closed
  | .ended outcome =>
    rw [hphase] at h
    cases h

/-- What a step of the connection can do. -/
inductive TcpSteps (srv : Server σ) (sid : UInt64) (s : Tcp σ) : TcpAction σ → Tcp σ → Prop where
  | env {action : EnvAction σ} {sh : Shared σ} : s.shared.env sid action = some sh →
      TcpSteps srv sid s (.env action) { s with shared := sh }
  | net {action : NetAction} {chan : Channel} : s.task.chan.net s.shared.now action = some chan →
      TcpSteps srv sid s (.net action) { s with task := { s.task with chan } }
  | run {nonce : Nonce} {sh : Shared σ} {task : TcpTask} :
      TcpMoves srv sid s.shared s.task.chan s.task.phase sh task →
        TcpSteps srv sid s (.run nonce) ⟨sh, task⟩

theorem tcpStep_steps {srv : Server σ} {sid : UInt64} {s s' : Tcp σ} {action : TcpAction σ}
    (h : tcpStep srv sid s action = some s') : TcpSteps srv sid s action s' := by
  unfold tcpStep at h
  cases action with
  | env action =>
    obtain ⟨sh, hsh, rfl⟩ := Option.map_eq_some_iff.mp h
    exact .env hsh
  | net action =>
    obtain ⟨chan, hchan, rfl⟩ := Option.map_eq_some_iff.mp h
    exact .net hchan
  | run nonce =>
    obtain ⟨next, hnext, rfl⟩ := Option.map_eq_some_iff.mp h
    exact .run (tcpRun_moves hnext)

end Hush.Server
