import Hush.Server.Cleanup
import Hush.Server.Derivation

/-! `listen_on` and `listen_tcp`: the accept loops of one server give each
connection the next session id and spawn its task. The tasks share the clock, the
session store and the application state, and any of them may take the next step;
to each of them the others are an environment that leaves its session alone. -/
namespace Hush.Server

open Hush.Foundation Execution
open Hush.Frame hiding Request
open Hush.Session

/-- A connection of either transport, apart from what it shares. -/
inductive Connection where
  | quic (chan : Channel) (phase : QuicPhase) (streams : List StreamTask)
  | tcp (task : TcpTask)

/-- A server with its connections, each with the id that it was given. -/
structure Listening (σ : Type) where
  shared : Shared σ
  nextId : UInt64
  conns : List (UInt64 × Connection)

/-- `quic` and `tcp` are a step of one connection or on its channels. -/
inductive ListenAction (σ : Type) where
  | acceptQuic
  | acceptTcp
  | advance (span : Nat)
  | gc
  | app (app : σ)
  | quic (index : Nat) (action : QuicAction σ)
  | tcp (index : Nat) (action : TcpAction σ)

variable {σ : Type}

/-- `next_id.fetch_add(1)` and the spawn of the connection's task. -/
def Listening.accept (s : Listening σ) (conn : Connection) : Listening σ :=
  { s with nextId := s.nextId + 1, conns := s.conns ++ [(s.nextId, conn)] }

def listenStep (srv : Server σ) (s : Listening σ) : ListenAction σ → Option (Listening σ)
  | .acceptQuic => some (s.accept (.quic .opened .handshake []))
  | .acceptTcp => some (s.accept (.tcp ⟨.opened, .handshake⟩))
  | .advance span => some { s with shared := { s.shared with now := s.shared.now + span } }
  | .gc => some { s with shared := { s.shared with store := s.shared.store.gc s.shared.now } }
  | .app app => some { s with shared := { s.shared with app } }
  | .quic _ (.env _) => none
  | .quic index action =>
    match s.conns[index]? with
    | some (sid, .quic chan phase streams) =>
      (quicStep srv sid ⟨s.shared, chan, phase, streams⟩ action).map fun next =>
        { s with
          shared := next.shared
          conns := s.conns.set index (sid, .quic next.chan next.phase next.streams) }
    | _ => none
  | .tcp _ (.env _) => none
  | .tcp index action =>
    match s.conns[index]? with
    | some (sid, .tcp task) =>
      (tcpStep srv sid ⟨s.shared, task⟩ action).map fun next =>
        { s with shared := next.shared, conns := s.conns.set index (sid, .tcp next.task) }
    | _ => none

/-- `Server::new`: no sessions, and ids from 1 on. -/
def serverStarted (now : Instant) (config : SessionConfig) (app : σ) : Listening σ :=
  ⟨⟨now, .new config, app⟩, 1, []⟩

namespace Connection

/-- The log of the connection's first channel. -/
def log : Connection → List Event
  | .quic chan _ _ => chan.log
  | .tcp task => task.chan.log

/-- The handler calls made for the connection's requests. -/
def calls : Connection → List Call
  | .quic _ _ streams => streams.flatMap fun task => Server.calls task.chan.log
  | .tcp task => Server.calls task.chan.log

/-- The connection and what it shares are the outcome of a run of its own task,
which began when the store had no session under its id. -/
def Viewed (srv : Server σ) (sh : Shared σ) (sid : UInt64) : Connection → Prop
  | .quic chan phase streams => ∃ start actions, Vacant start sid ∧
      run (quicStep srv sid) (quicAccepted start) actions = some ⟨sh, chan, phase, streams⟩
  | .tcp task => ∃ start actions, Vacant start sid ∧
      run (tcpStep srv sid) (tcpAccepted start) actions = some ⟨sh, task⟩

/-- Whatever the environment does is part of the connection's run. -/
theorem Viewed.env {srv : Server σ} {sh sh' : Shared σ} {sid : UInt64} {conn : Connection}
    (h : conn.Viewed srv sh sid) {action : EnvAction σ} (henv : sh.env sid action = some sh') :
    conn.Viewed srv sh' sid := by
  cases conn with
  | quic chan phase streams =>
    obtain ⟨start, actions, hvacant, hrun⟩ := h
    refine ⟨start, actions ++ [.env action], hvacant, ?_⟩
    rw [run_append, hrun]
    simp [run, quicStep, henv]
  | tcp task =>
    obtain ⟨start, actions, hvacant, hrun⟩ := h
    refine ⟨start, actions ++ [.env action], hvacant, ?_⟩
    rw [run_append, hrun]
    simp [run, tcpStep, henv]

end Connection

/-! ### What a step of a connection does to the others -/

/-- A step of a connection's own changes the application state, or inserts its
session, of which its log had not spoken before, or removes it. -/
inductive ConnEffect (sid : UInt64) (log log' : List Event) (sh : Shared σ) : Shared σ → Prop where
  | app (app : σ) : ConnEffect sid log log' sh { sh with app }
  | inserted {sess : Session} : (∀ e ∈ log, e.IsArrival) → sess.id = sid →
      .established sess ∈ log' → ConnEffect sid log log' sh { sh with store := sh.store.insert sess }
  | deleted : ConnEffect sid log log' sh { sh with store := sh.store.delete sid }

namespace ConnEffect

variable {sid : UInt64} {log log' : List Event} {sh sh' : Shared σ}

theorem none (sid : UInt64) (log log' : List Event) (sh : Shared σ) :
    ConnEffect sid log log' sh sh := .app sh.app

/-- Another connection sees its environment act. -/
theorem env (h : ConnEffect sid log log' sh sh') {own : UInt64} (hown : own ≠ sid) :
    ∃ action, sh.env own action = some sh' := by
  cases h with
  | app app => exact ⟨.app app, rfl⟩
  | @inserted sess _ hid _ =>
    refine ⟨.insert sess, if_neg ?_⟩
    rw [hid]
    exact hown.symm
  | deleted => exact ⟨.delete sid, if_neg hown.symm⟩

/-- What the store holds afterwards was there before, or is the new session. -/
theorem get (h : ConnEffect sid log log' sh sh') {id : UInt64} {sess : Session}
    (hget : sh'.store.get id = some sess) :
    sh.store.get id = some sess ∨ id = sid ∧ sess.id = sid ∧ .established sess ∈ log' := by
  cases h with
  | app app => exact .inl hget
  | @inserted new _ hid hmarked =>
    by_cases hsame : id = new.id
    · subst hsame
      dsimp only at hget
      rw [SessionStore.get_insert_self] at hget
      obtain rfl := Option.some.inj hget
      exact .inr ⟨hid, hid, hmarked⟩
    · dsimp only at hget
      rw [SessionStore.get_insert_of_ne _ hsame] at hget
      exact .inl hget
  | deleted =>
    by_cases hsame : id = sid
    · subst hsame
      dsimp only at hget
      rw [SessionStore.get_delete_self] at hget
      cases hget
    · dsimp only at hget
      rw [SessionStore.get_delete_of_ne _ hsame] at hget
      exact .inl hget

end ConnEffect

/-- The session of a connection that is closing has the connection's id. -/
theorem tcpStep_effect {srv : Server σ} {sid : UInt64} {s s' : Tcp σ} {action : TcpAction σ}
    (hinv : TcpInv sid s) (hown : ∀ env, action ≠ .env env)
    (h : tcpStep srv sid s action = some s') :
    ConnEffect sid s.task.chan.log s'.task.chan.log s.shared s'.shared := by
  cases tcpStep_steps h with
  | @env env _ _ => exact absurd rfl (hown env)
  | net _ => exact .none _ _ _ _
  | run hmoves =>
    obtain ⟨sh, chan, phase⟩ := s
    cases hmoves with
    | @inserted est sess hsess =>
      obtain hfresh | ⟨_, hopen⟩ := hinv
      · refine .inserted hfresh.log (by rw [hsess]; rfl) ?_
        simp [Channel.note]
      · exact hopen.phase.elim
    | @closed sess =>
      obtain hfresh | ⟨_, hopen⟩ := hinv
      · exact hfresh.phase.elim
      · have hid := hopen.id_eq
        obtain ⟨rfl, -⟩ := hopen.phase
        rw [hid]
        exact .deleted
    | panicked _ _ => exact .app _
    | answered _ _ => exact .app _
    | _ => exact .none _ _ _ _

theorem quicRun_effect {srv : Server σ} {sid : UInt64} {s s' : Quic σ} {config : SessionConfig}
    {inv : Session → StreamTask → Prop} (hinv : QuicInv inv config sid s)
    (h : quicRun srv sid s = some s') :
    ConnEffect sid s.chan.log s'.chan.log s.shared s'.shared := by
  obtain ⟨sh, chan, phase, streams⟩ := s
  unfold quicRun at h
  cases phase with
  | handshake =>
    dsimp only at h
    split at h
    · cases h
    · obtain rfl := Option.some.inj h
      exact .none _ _ _ _
    · obtain rfl := Option.some.inj h
      exact .none _ _ _ _
  | insert est =>
    obtain rfl := Option.some.inj h
    obtain hfresh | ⟨_, hopen⟩ := hinv
    · exact .inserted hfresh.log rfl (by simp [Channel.note])
    · exact hopen.phase.elim
  | accept sess => cases h
  | closing sess =>
    obtain rfl := Option.some.inj h
    obtain hfresh | ⟨_, hopen⟩ := hinv
    · exact hfresh.phase.elim
    · have hid := hopen.id_eq
      obtain rfl := hopen.phase
      dsimp only
      rw [hid]
      exact .deleted
  | ended result => cases h

theorem StreamMoves.shared_eq {srv : Server σ} {sh sh' : Shared σ} {task task' : StreamTask}
    {phase : StreamPhase} (h : StreamMoves srv sh task phase sh' task') :
    ∃ app, sh' = { sh with app } := by
  cases h <;> exact ⟨_, rfl⟩

/-- Apart from the connection's own task, a step of its own changes at most the
application state. -/
theorem quicStep_own {srv : Server σ} {sid : UInt64} {s s' : Quic σ} {action : QuicAction σ}
    (hown : ∀ env, action ≠ .env env) (h : quicStep srv sid s action = some s') :
    quicRun srv sid s = some s' ∨ ∃ app, s'.shared = { s.shared with app } := by
  unfold quicStep at h
  cases action with
  | env env => exact absurd rfl (hown env)
  | net action =>
    obtain ⟨chan, -, rfl⟩ := Option.map_eq_some_iff.mp h
    exact .inr ⟨_, rfl⟩
  | run nonce => exact .inl h
  | openStream =>
    dsimp only at h
    split at h
    · obtain rfl := Option.some.inj h
      exact .inr ⟨_, rfl⟩
    · cases h
  | lost =>
    dsimp only at h
    split at h
    · obtain rfl := Option.some.inj h
      exact .inr ⟨_, rfl⟩
    · cases h
  | streamNet index action =>
    dsimp only at h
    split at h
    · cases h
    · obtain ⟨chan, -, rfl⟩ := Option.map_eq_some_iff.mp h
      exact .inr ⟨_, rfl⟩
  | stream index nonce =>
    dsimp only at h
    split at h
    · cases h
    · obtain ⟨next, hnext, rfl⟩ := Option.map_eq_some_iff.mp h
      exact .inr (streamRun_moves hnext).shared_eq

theorem quicStep_effect {srv : Server σ} {sid : UInt64} {s s' : Quic σ} {config : SessionConfig}
    {inv : Session → StreamTask → Prop} {action : QuicAction σ} (hinv : QuicInv inv config sid s)
    (hown : ∀ env, action ≠ .env env) (h : quicStep srv sid s action = some s') :
    ConnEffect sid s.chan.log s'.chan.log s.shared s'.shared := by
  obtain hrun | ⟨app, happ⟩ := quicStep_own hown h
  · exact quicRun_effect hinv hrun
  · rw [happ]
    exact .app app

/-! ### The steps of the server -/

/-- A connection and what it shares after a step of its own: still the outcome of
a run of its task, and the others see an effect of one of the three kinds. -/
structure ConnStep (srv : Server σ) (sid : UInt64) (sh : Shared σ) (conn : Connection)
    (sh' : Shared σ) (conn' : Connection) : Prop where
  viewed : conn'.Viewed srv sh' sid
  effect : ConnEffect sid conn.log conn'.log sh sh'
  log : conn.log <+: conn'.log

theorem connStep_quic {srv : Server σ} {sid : UInt64} {sh : Shared σ} {chan : Channel}
    {phase : QuicPhase} {streams : List StreamTask} {action : QuicAction σ} {next : Quic σ}
    (hview : (Connection.quic chan phase streams).Viewed srv sh sid)
    (hown : ∀ env, action ≠ .env env)
    (h : quicStep srv sid ⟨sh, chan, phase, streams⟩ action = some next) :
    ConnStep srv sid sh (.quic chan phase streams) next.shared
      (.quic next.chan next.phase next.streams) := by
  obtain ⟨start, actions, hvacant, hrun⟩ := hview
  have hstart : QuicUnopened start.store.config (quicAccepted start) :=
    ⟨trivial, by simp [quicAccepted, Channel.opened], rfl, rfl⟩
  have hinv : QuicInv (StreamReads srv) start.store.config sid ⟨sh, chan, phase, streams⟩ :=
    run_preserves (quicInv_step (streamReads_invariant srv _)) hrun (.inl hstart)
  refine ⟨⟨start, actions ++ [action], hvacant, ?_⟩, quicStep_effect hinv hown h,
    quicStep_log_grows h⟩
  rw [run_append, hrun, Option.bind_some, run, h]
  rfl

theorem connStep_tcp {srv : Server σ} {sid : UInt64} {sh : Shared σ} {task : TcpTask}
    {action : TcpAction σ} {next : Tcp σ} (hview : (Connection.tcp task).Viewed srv sh sid)
    (hown : ∀ env, action ≠ .env env) (h : tcpStep srv sid ⟨sh, task⟩ action = some next) :
    ConnStep srv sid sh (.tcp task) next.shared (.tcp next.task) := by
  obtain ⟨start, actions, hvacant, hrun⟩ := hview
  have hinv : TcpInv sid ⟨sh, task⟩ := run_preserves tcpInv_step hrun (tcpInv_accepted sid start)
  refine ⟨⟨start, actions ++ [action], hvacant, ?_⟩, tcpStep_effect hinv hown h,
    tcpStep_log_grows h⟩
  rw [run_append, hrun, Option.bind_some, run, h]
  rfl

/-- The connection that an action is a step of. -/
def ListenAction.index : ListenAction σ → Option Nat
  | .quic index _ => some index
  | .tcp index _ => some index
  | _ => none

/-- What an action of the server does: it accepts a connection, or acts around all
of them, or is a step of one of them. -/
inductive ListenSteps (srv : Server σ) (s : Listening σ) (action : ListenAction σ) :
    Listening σ → Prop where
  | accepted {conn : Connection} : (∀ sh sid, Vacant sh sid → conn.Viewed srv sh sid) →
      ListenSteps srv s action (s.accept conn)
  | around {sh : Shared σ} (env : EnvAction σ) : (∀ own, s.shared.env own env = some sh) →
      (sh.store = s.shared.store ∨ action = .gc ∧ sh.store = s.shared.store.gc s.shared.now) →
        ListenSteps srv s action { s with shared := sh }
  | conn {index : Nat} {sid : UInt64} {conn conn' : Connection} {sh : Shared σ} :
      action.index = some index → s.conns[index]? = some (sid, conn) →
      (conn.Viewed srv s.shared sid → ConnStep srv sid s.shared conn sh conn') →
        ListenSteps srv s action
          { s with shared := sh, conns := s.conns.set index (sid, conn') }

theorem listenStep_steps {srv : Server σ} {s s' : Listening σ} {action : ListenAction σ}
    (h : listenStep srv s action = some s') : ListenSteps srv s action s' := by
  unfold listenStep at h
  split at h
  · obtain rfl := Option.some.inj h
    exact .accepted fun sh sid hvacant => ⟨sh, [], hvacant, rfl⟩
  · obtain rfl := Option.some.inj h
    exact .accepted fun sh sid hvacant => ⟨sh, [], hvacant, rfl⟩
  · rename_i span
    obtain rfl := Option.some.inj h
    exact .around (.advance span) (fun _ => rfl) (.inl rfl)
  · obtain rfl := Option.some.inj h
    exact .around .gc (fun _ => rfl) (.inr ⟨rfl, rfl⟩)
  · rename_i app
    obtain rfl := Option.some.inj h
    exact .around (.app app) (fun _ => rfl) (.inl rfl)
  · cases h
  · rename_i hown
    split at h
    · rename_i hconn
      obtain ⟨next, hnext, rfl⟩ := Option.map_eq_some_iff.mp h
      exact .conn rfl hconn fun hview => connStep_quic hview hown hnext
    · cases h
  · cases h
  · rename_i hown
    split at h
    · rename_i hconn
      obtain ⟨next, hnext, rfl⟩ := Option.map_eq_some_iff.mp h
      exact .conn rfl hconn fun hview => connStep_tcp hview hown hnext
    · cases h

end Hush.Server
