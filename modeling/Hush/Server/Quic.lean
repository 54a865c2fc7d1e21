import Hush.Foundation.Execution
import Hush.Server.Dispatch

/-! `handle_connection` and `handle_request_stream`: the connection task shakes
hands, spawns a task for each stream that the client opens, and removes the
session when the connection is lost; a stream task serves one request. -/
namespace Hush.Server

open Hush.Foundation Execution
open Hush.Frame hiding Request
open Hush.Session

/-- Where the task of a request stream stands; from the second look at the store
on it carries the key that it found there. -/
inductive StreamPhase where
  | fetch
  | judge (found : Option Session)
  | key
  | touch (key : List UInt8)
  | read (key : List UInt8)
  | dispatch (key : List UInt8) (freq : Frame.Request) (seq : UInt32)
  | ended

/-- A stream task, with the session id and the key id that it was spawned with. -/
structure StreamTask where
  sessionId : UInt64
  apiKeyId : String
  chan : Channel
  phase : StreamPhase

/-- Where the connection task stands. -/
inductive QuicPhase where
  | handshake
  | insert (est : Established)
  | accept (sess : Session)
  | closing (sess : Session)
  | ended (result : Except ServerError Unit)

/-- A connection with its request streams, and the server around it. -/
structure Quic (σ : Type) where
  shared : Shared σ
  chan : Channel
  phase : QuicPhase
  streams : List StreamTask

/-- The client opens a stream or the connection is lost; `stream` and
`streamNet` are steps of one stream's task and on its channel. -/
inductive QuicAction (σ : Type) where
  | env (action : EnvAction σ)
  | net (action : NetAction)
  | run (nonce : Nonce)
  | openStream
  | lost
  | streamNet (index : Nat) (action : NetAction)
  | stream (index : Nat) (nonce : Nonce)

variable {σ : Type}

/-- Look up the handler and call it, or hand the stream over to it. -/
def quicServe (srv : Server σ) (task : StreamTask) (key : List UInt8) (freq : Frame.Request)
    (seq : UInt32) (app : σ) : Served σ :=
  let req := toRequest task.sessionId task.apiKeyId freq
  match srv.handlers freq.opcode with
  | none => ⟨false, app, some (.notFound, notFoundResponse freq.opcode seq)⟩
  | some (.stream handler) => ⟨true, handler req key app, none⟩
  | some (.sync handler) => callHandler handler req app

/-- The task after a step. -/
def StreamTask.next (task : StreamTask) (chan : Channel) (phase : StreamPhase) : StreamTask :=
  { task with chan, phase }

/-- One step of `handle_request_stream`. -/
def streamRun (srv : Server σ) (nonce : Nonce) (sh : Shared σ) (task : StreamTask) :
    Option (Shared σ × StreamTask) :=
  match task.phase with
  | .fetch => some (sh, task.next task.chan (.judge (sh.store.get task.sessionId)))
  | .judge found =>
    let chan := task.chan.note [.checked found sh.now]
    match found with
    | none => some (sh, task.next chan .key)
    | some sess =>
      if expiryCheck sh.store sh.now (some sess) then
        some (sh, task.next (chan.reply srv.aead nonce sess.key .expiry 0 expiredResponse) .ended)
      else some (sh, task.next chan .key)
  | .key =>
    let key := (sh.store.get task.sessionId).elim [] Session.key
    some (sh, task.next task.chan (.touch key))
  | .touch key =>
    some ({ sh with store := touchSession sh.store sh.now task.sessionId },
      task.next task.chan (.read key))
  | .read key =>
    let noted := task.chan.note (receivedFrame key task.chan.recv)
    match readRequestAsync srv.aead task.chan.recv (some key) with
    | .error (.frame (.io .wouldBlock)) => none
    | .error _ =>
      let resp := errorResponse .badRequest "bad request"
      some (sh, task.next (noted.reply srv.aead nonce key .badRequest 0 resp) .ended)
    | .ok ((freq, seq), recv) =>
      some (sh, task.next { noted with recv } (.dispatch key freq seq))
  | .dispatch key freq seq =>
    let served := quicServe srv task key freq seq sh.app
    let req := toRequest task.sessionId task.apiKeyId freq
    let chan := task.chan.note (dispatchEvents served.called req seq)
    match served.answer with
    | none => some ({ sh with app := served.app }, task.next chan .ended)
    | some (cause, resp) =>
      some ({ sh with app := served.app },
        task.next (chan.reply srv.aead nonce key cause seq resp) .ended)
  | .ended => none

/-- One step of `handle_connection`. -/
def quicRun (srv : Server σ) (sid : UInt64) (s : Quic σ) : Option (Quic σ) :=
  match s.phase with
  | .handshake =>
    match quicHandshake srv.keys sid s.chan.recv s.chan.send with
    | (.error (.io .wouldBlock), _) => none
    | (.error e, send) => some { s with chan := { s.chan with send }, phase := .ended (.error e) }
    | (.ok (est, recv), send) =>
      some { s with chan := { s.chan with recv, send }, phase := .insert est }
  | .insert est =>
    let sess := Session.new s.shared.now sid est.apiKeyId est.sessionKey
    some { s with
      shared := { s.shared with store := s.shared.store.insert sess }
      chan := s.chan.note [.established sess]
      phase := .accept sess }
  | .accept _ => none
  | .closing sess =>
    some { s with
      shared := { s.shared with store := s.shared.store.delete sess.id }
      phase := .ended (.ok ()) }
  | .ended _ => none

/-- One step of the connection with the server and the network around it. The
streams outlive the loop that accepted them. -/
def quicStep (srv : Server σ) (sid : UInt64) (s : Quic σ) : QuicAction σ → Option (Quic σ)
  | .env action => (s.shared.env sid action).map fun sh => { s with shared := sh }
  | .net action => (s.chan.net s.shared.now action).map fun chan => { s with chan }
  | .run _ => quicRun srv sid s
  | .openStream =>
    match s.phase with
    | .accept sess =>
      some { s with streams := s.streams ++ [⟨sid, sess.apiKeyId, .opened, .fetch⟩] }
    | _ => none
  | .lost =>
    match s.phase with
    | .accept sess => some { s with phase := .closing sess }
    | _ => none
  | .streamNet index action =>
    match s.streams[index]? with
    | none => none
    | some task =>
      (task.chan.net s.shared.now action).map fun chan =>
        { s with streams := s.streams.set index { task with chan } }
  | .stream index nonce =>
    match s.streams[index]? with
    | none => none
    | some task =>
      (streamRun srv nonce s.shared task).map fun next =>
        { s with shared := next.1, streams := s.streams.set index next.2 }

/-- A connection whose first stream the client has just opened. -/
def quicAccepted (sh : Shared σ) : Quic σ := ⟨sh, .opened, .handshake, []⟩

/-- What a step of a stream task can do, one case for each way through its code. -/
inductive StreamMoves (srv : Server σ) (sh : Shared σ) (task : StreamTask) :
    StreamPhase → Shared σ → StreamTask → Prop where
  | fetched : StreamMoves srv sh task .fetch sh
      (task.next task.chan (.judge (sh.store.get task.sessionId)))
  | expired {sess : Session} {nonce : Nonce} : expiryCheck sh.store sh.now (some sess) = true →
      StreamMoves srv sh task (.judge (some sess)) sh
        (task.next ((task.chan.note [.checked (some sess) sh.now]).reply srv.aead nonce sess.key
          .expiry 0 expiredResponse) .ended)
  | alive {found : Option Session} : expiryCheck sh.store sh.now found = false →
      StreamMoves srv sh task (.judge found) sh
        (task.next (task.chan.note [.checked found sh.now]) .key)
  | keyed : StreamMoves srv sh task .key sh
      (task.next task.chan (.touch ((sh.store.get task.sessionId).elim [] Session.key)))
  | touched {key : List UInt8} : StreamMoves srv sh task (.touch key) sh
      (task.next task.chan (.read key))
  | unread {key : List UInt8} {e : RequestError} {nonce : Nonce} {resp : Response} :
      readRequestAsync srv.aead task.chan.recv (some key) = .error e →
        StreamMoves srv sh task (.read key) sh
          (task.next ((task.chan.note (receivedFrame key task.chan.recv)).reply srv.aead nonce key
            .badRequest 0 resp) .ended)
  | read {key : List UInt8} {freq : Frame.Request} {seq : UInt32} {recv : Source} :
      readRequestAsync srv.aead task.chan.recv (some key) = .ok ((freq, seq), recv) →
        StreamMoves srv sh task (.read key) sh
          (task.next { task.chan.note (receivedFrame key task.chan.recv) with recv }
            (.dispatch key freq seq))
  | unanswered {key : List UInt8} {freq : Frame.Request} {seq : UInt32} {served : Served σ} :
      served = quicServe srv task key freq seq sh.app → served.answer = none →
        StreamMoves srv sh task (.dispatch key freq seq) { sh with app := served.app }
          (task.next (task.chan.note (dispatchEvents served.called
            (toRequest task.sessionId task.apiKeyId freq) seq)) .ended)
  | answered {key : List UInt8} {freq : Frame.Request} {seq : UInt32} {served : Served σ}
      {cause : Cause} {resp : Response} {nonce : Nonce} :
      served = quicServe srv task key freq seq sh.app → served.answer = some (cause, resp) →
        StreamMoves srv sh task (.dispatch key freq seq) { sh with app := served.app }
          (task.next ((task.chan.note (dispatchEvents served.called
            (toRequest task.sessionId task.apiKeyId freq) seq)).reply srv.aead nonce key cause seq
              resp) .ended)

theorem streamRun_moves {srv : Server σ} {nonce : Nonce} {sh sh' : Shared σ}
    {task task' : StreamTask} (h : streamRun srv nonce sh task = some (sh', task')) :
    StreamMoves srv sh task task.phase sh' task' := by
  unfold streamRun at h
  match hphase : task.phase with
  | .fetch =>
    rw [hphase] at h
    simp only [Option.some.injEq, Prod.mk.injEq] at h
    obtain ⟨rfl, rfl⟩ := h
    exact .fetched
  | .judge found =>
    rw [hphase] at h
    dsimp only at h
    cases found with
    | none =>
      simp only [Option.some.injEq, Prod.mk.injEq] at h
      obtain ⟨rfl, rfl⟩ := h
      exact .alive rfl
    | some sess =>
      dsimp only at h
      split at h <;> rename_i hcheck <;> simp only [Option.some.injEq, Prod.mk.injEq] at h <;>
        obtain ⟨rfl, rfl⟩ := h
      · exact .expired hcheck
      · exact .alive (Bool.eq_false_iff.mpr hcheck)
  | .key =>
    rw [hphase] at h
    simp only [Option.some.injEq, Prod.mk.injEq] at h
    obtain ⟨rfl, rfl⟩ := h
    exact .keyed
  | .touch key =>
    rw [hphase] at h
    simp only [touchSession_eq, Option.some.injEq, Prod.mk.injEq] at h
    obtain ⟨rfl, rfl⟩ := h
    exact .touched
  | .read key =>
    rw [hphase] at h
    dsimp only at h
    split at h
    · cases h
    · rename_i e _ hread
      simp only [Option.some.injEq, Prod.mk.injEq] at h
      obtain ⟨rfl, rfl⟩ := h
      exact .unread hread
    · rename_i freq seq recv hread
      simp only [Option.some.injEq, Prod.mk.injEq] at h
      obtain ⟨rfl, rfl⟩ := h
      exact .read hread
  | .dispatch key freq seq =>
    rw [hphase] at h
    dsimp only at h
    split at h <;> rename_i hanswer <;> simp only [Option.some.injEq, Prod.mk.injEq] at h <;>
      obtain ⟨rfl, rfl⟩ := h
    · exact .unanswered rfl hanswer
    · exact .answered rfl hanswer
  | .ended =>
    rw [hphase] at h
    cases h

/-- What a step of the connection can do, one case for each way through its code. -/
inductive QuicSteps (srv : Server σ) (sid : UInt64) (s : Quic σ) : Quic σ → Prop where
  | env {action : EnvAction σ} {sh : Shared σ} : s.shared.env sid action = some sh →
      QuicSteps srv sid s { s with shared := sh }
  | net {action : NetAction} {chan : Channel} : s.chan.net s.shared.now action = some chan →
      QuicSteps srv sid s { s with chan }
  | refused {send : Sink} {e : ServerError} : s.phase = .handshake →
      QuicSteps srv sid s { s with chan := { s.chan with send }, phase := .ended (.error e) }
  | accepted {est : Established} {recv : Source} {send : Sink} : s.phase = .handshake →
      quicHandshake srv.keys sid s.chan.recv s.chan.send = (.ok (est, recv), send) →
        QuicSteps srv sid s { s with chan := { s.chan with recv, send }, phase := .insert est }
  | inserted {est : Established} {sess : Session} : s.phase = .insert est →
      sess = Session.new s.shared.now sid est.apiKeyId est.sessionKey →
        QuicSteps srv sid s { s with
          shared := { s.shared with store := s.shared.store.insert sess }
          chan := s.chan.note [.established sess]
          phase := .accept sess }
  | opened {sess : Session} : s.phase = .accept sess →
      QuicSteps srv sid s
        { s with streams := s.streams ++ [⟨sid, sess.apiKeyId, .opened, .fetch⟩] }
  | lost {sess : Session} : s.phase = .accept sess →
      QuicSteps srv sid s { s with phase := .closing sess }
  | closed {sess : Session} : s.phase = .closing sess →
      QuicSteps srv sid s { s with
        shared := { s.shared with store := s.shared.store.delete sess.id }
        phase := .ended (.ok ()) }
  | streamNet {index : Nat} {task : StreamTask} {action : NetAction} {chan : Channel} :
      s.streams[index]? = some task → task.chan.net s.shared.now action = some chan →
        QuicSteps srv sid s { s with streams := s.streams.set index { task with chan } }
  | stream {index : Nat} {task task' : StreamTask} {sh : Shared σ} :
      s.streams[index]? = some task → StreamMoves srv s.shared task task.phase sh task' →
        QuicSteps srv sid s { s with shared := sh, streams := s.streams.set index task' }

theorem quicRun_steps {srv : Server σ} {sid : UInt64} {s s' : Quic σ}
    (h : quicRun srv sid s = some s') : QuicSteps srv sid s s' := by
  unfold quicRun at h
  split at h
  · rename_i hphase
    split at h
    · cases h
    · obtain rfl := Option.some.inj h
      exact .refused hphase
    · rename_i haccepted
      obtain rfl := Option.some.inj h
      exact .accepted hphase haccepted
  · rename_i hphase
    obtain rfl := Option.some.inj h
    exact .inserted hphase rfl
  · cases h
  · rename_i hphase
    obtain rfl := Option.some.inj h
    exact .closed hphase
  · cases h

theorem quicStep_steps {srv : Server σ} {sid : UInt64} {s s' : Quic σ} {action : QuicAction σ}
    (h : quicStep srv sid s action = some s') : QuicSteps srv sid s s' := by
  unfold quicStep at h
  cases action with
  | env action =>
    obtain ⟨sh, hsh, rfl⟩ := Option.map_eq_some_iff.mp h
    exact .env hsh
  | net action =>
    obtain ⟨chan, hchan, rfl⟩ := Option.map_eq_some_iff.mp h
    exact .net hchan
  | run nonce => exact quicRun_steps h
  | openStream =>
    dsimp only at h
    split at h
    · rename_i hphase
      obtain rfl := Option.some.inj h
      exact .opened hphase
    · cases h
  | lost =>
    dsimp only at h
    split at h
    · rename_i hphase
      obtain rfl := Option.some.inj h
      exact .lost hphase
    · cases h
  | streamNet index action =>
    dsimp only at h
    split at h
    · cases h
    · rename_i htask
      obtain ⟨chan, hchan, rfl⟩ := Option.map_eq_some_iff.mp h
      exact .streamNet htask hchan
  | stream index nonce =>
    dsimp only at h
    split at h
    · cases h
    · rename_i htask
      obtain ⟨next, hnext, rfl⟩ := Option.map_eq_some_iff.mp h
      exact .stream htask (streamRun_moves hnext)

end Hush.Server
