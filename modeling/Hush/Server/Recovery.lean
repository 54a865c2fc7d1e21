import Hush.Server.Middleware
import Hush.Server.Occupancy

/-! Recovery from panics: a server that registers every handler behind the recovery middleware
has no task that panics, so that every connection that ends removes its session. -/
namespace Hush.Server

open Hush.Foundation Execution
open Hush.Frame hiding Request
open Hush.Session

variable {σ : Type}

/-- The handler never panics. -/
def Returns (handler : SyncHandler σ) : Prop :=
  ∀ req app, ∃ result app', handler req app = .returned result app'

/-- The middleware does not panic of its own accord. -/
def Calm (mw : Middleware σ) : Prop := ∀ next, Returns next → Returns (mw next)

/-- Outside the recovery there are calm middlewares only. -/
def Recovered (middlewares : List (Middleware σ)) : Prop :=
  ∃ outer inner, middlewares = outer ++ recoveryMiddleware :: inner ∧ ∀ mw ∈ outer, Calm mw

/-- Whatever is inside. -/
theorem returns_recoveryMiddleware (next : SyncHandler σ) : Returns (recoveryMiddleware next) := by
  intro req app
  unfold recoveryMiddleware
  cases next req app with
  | returned result app' => exact ⟨result, app', rfl⟩
  | panicked app' => exact ⟨_, app', rfl⟩

namespace BuiltIn

theorem calm (guard : BuiltIn σ) : Calm guard.middleware := by
  intro next hnext req app
  cases guard with
  | logging clock logger =>
    obtain ⟨result, app', hresult⟩ := hnext req app
    simp only [middleware, loggingMiddleware, hresult]
    cases logger with
    | none => exact ⟨result, app', rfl⟩
    | some log =>
      cases result with
      | ok resp => exact ⟨_, _, rfl⟩
      | error e => exact ⟨_, _, rfl⟩
  | recovery => exact returns_recoveryMiddleware next req app
  | rateLimit limiter max =>
    simp only [middleware, rateLimitMiddleware]
    split
    · exact ⟨_, _, rfl⟩
    · exact hnext req _
  | requireApiKeyId allowed =>
    simp only [middleware, Server.requireApiKeyId]
    split
    · exact ⟨_, _, rfl⟩
    · exact hnext req app

/-- A chain of built-in middlewares recovers if the recovery is one of them, wherever it is. -/
theorem recovered {guards : List (BuiltIn σ)} (h : .recovery ∈ guards) :
    Recovered (guards.map middleware) := by
  obtain ⟨outer, inner, rfl⟩ := List.append_of_mem h
  refine ⟨outer.map middleware, inner.map middleware, by rw [List.map_append]; rfl, ?_⟩
  intro mw hmw
  obtain ⟨guard, -, rfl⟩ := List.mem_map.mp hmw
  exact guard.calm

end BuiltIn

theorem Recovered.returns {middlewares : List (Middleware σ)} (h : Recovered middlewares)
    (handler : SyncHandler σ) : Returns (wrap middlewares handler) := by
  obtain ⟨outer, inner, rfl, hcalm⟩ := h
  induction outer with
  | nil =>
    rw [List.nil_append, wrap_cons]
    exact returns_recoveryMiddleware _
  | cons mw rest ih =>
    obtain ⟨hmw, hrest⟩ := List.forall_mem_cons.mp hcalm
    rw [List.cons_append, wrap_cons]
    exact hmw _ (ih hrest)

/-- Every handler that the registrations leave in the table is behind the recovery. -/
def AllRecovered (calls : List (Registration σ)) : Prop :=
  ∀ before opcode handler, LastRegistered calls before (.handle opcode handler) →
    Recovered (before.filterMap Registration.middleware)

theorem Recovered.append {middlewares : List (Middleware σ)} (h : Recovered middlewares)
    (more : List (Middleware σ)) : Recovered (middlewares ++ more) := by
  obtain ⟨outer, inner, rfl, hcalm⟩ := h
  exact ⟨outer, inner ++ more, by rw [List.append_assoc, List.cons_append], hcalm⟩

/-- It is enough to add the recovery before the first handler. -/
theorem allRecovered_append {setup rest : List (Registration σ)}
    (hsetup : ∀ call ∈ setup, call.opcode = none)
    (h : Recovered (setup.filterMap Registration.middleware)) : AllRecovered (setup ++ rest) := by
  rintro before opcode handler ⟨later, hcalls, -⟩
  obtain ⟨more, rfl, -⟩ | ⟨more, rfl, hmore⟩ := List.append_eq_append_iff.mp hcalls
  · rw [List.filterMap_append]
    exact h.append _
  · cases more with
    | nil =>
      rw [List.append_nil] at h
      exact h
    | cons call more =>
      obtain ⟨rfl, -⟩ := List.cons.inj hmore
      cases hsetup (.handle opcode handler) (by simp)

/-- No handler of the server panics. -/
def AllReturn (srv : Server σ) : Prop :=
  ∀ opcode handler, srv.handlers opcode = some (.sync handler) → Returns handler

theorem AllRecovered.allReturn {calls : List (Registration σ)} (h : AllRecovered calls)
    (aead : Aead) (keys : ServerKeys) :
    AllReturn ((Registry.new aead keys).after calls).server := by
  intro opcode handler hhandler
  by_cases hnamed : ∃ call ∈ calls, call.opcode = some opcode
  · obtain ⟨before, call, rest, hcalls, hcall, hrest⟩ := History.exists_last hnamed
    have hlast : LastRegistered calls before call := ⟨rest, hcalls, hcall.symm ▸ hrest⟩
    rw [Registry.handlers_of_lastRegistered _ hlast hcall] at hhandler
    cases call with
    | useMiddleware mw => cases hcall
    | useStreamMiddleware mw => cases hcall
    | handle other inner =>
      obtain rfl := Option.some.inj hcall
      rw [Registry.perform, Registry.handle, Registry.handlers_insert, if_pos rfl,
        ((Registry.new aead keys).middlewares_after before).1] at hhandler
      obtain rfl := HandlerType.sync.inj (Option.some.inj hhandler)
      exact (h before other inner hlast).returns inner
    | handleStream other inner =>
      obtain rfl := Option.some.inj hcall
      rw [Registry.perform, Registry.handleStream, Registry.handlers_insert, if_pos rfl] at hhandler
      cases Option.some.inj hhandler
  · push Not at hnamed
    rw [Registry.handlers_after_of_ne _ hnamed] at hhandler
    cases hhandler

theorem tcpStep_not_panicked {srv : Server σ} (hreturn : AllReturn srv) {sid : UInt64}
    {s s' : Tcp σ} {action : TcpAction σ} (hinv : s.task.phase ≠ .ended .panicked)
    (h : tcpStep srv sid s action = some s') : s'.task.phase ≠ .ended .panicked := by
  cases tcpStep_steps h with
  | env _ => exact hinv
  | net _ => exact hinv
  | run hmoves =>
    obtain ⟨sh, chan, phase⟩ := s
    cases hmoves with
    | panicked hserved hanswer =>
      subst hserved
      obtain ⟨handler, left, hhandler, hleft⟩ := tcpServe_answer_none hanswer
      obtain ⟨result, app', hreturned⟩ := hreturn _ _ hhandler _ _
      cases hreturned.symm.trans hleft
    | _ => simp

/-- The connection's task is over. -/
def Connection.ended : Connection → Bool
  | .quic _ (.ended _) _ => true
  | .tcp ⟨_, .ended _⟩ => true
  | _ => false

/-- Where no handler panics, a task that holds a session is not over. -/
theorem Connection.Viewed.not_ended_of_holds {srv : Server σ} (hreturn : AllReturn srv)
    {sh : Shared σ} {sid : UInt64} {conn : Connection} (h : conn.Viewed srv sh sid)
    (hholds : conn.holds = true) : conn.ended = false := by
  cases conn with
  | quic chan phase streams =>
    cases phase with
    | ended result => cases hholds
    | _ => rfl
  | tcp task =>
    obtain ⟨start, actions, -, hrun⟩ := h
    let inv (s : Tcp σ) : Prop := s.task.phase ≠ .ended .panicked
    have hstart : inv (tcpAccepted start) := by simp [inv, tcpAccepted]
    have hinv : inv ⟨sh, task⟩ := run_preserves (tcpStep_not_panicked hreturn) hrun hstart
    obtain ⟨chan, phase⟩ := task
    cases phase with
    | ended outcome =>
      cases outcome with
      | returned result => cases hholds
      | panicked => exact absurd rfl hinv
    | _ => rfl

/-- In every run of a server whose handlers are all registered behind the recovery middleware, a
connection whose task is over has no session in the store, and the store has at most one session
for each connection whose task is not over. -/
theorem recovered_sessions_removed (aead : Aead) (keys : ServerKeys)
    (calls : List (Registration σ)) (hrecovered : AllRecovered calls) (now : Instant)
    (config : SessionConfig) (app : σ) (actions : List (ListenAction σ)) (s : Listening σ)
    (hrun : run (listenStep ((Registry.new aead keys).after calls).server)
      (serverStarted now config app) actions = some s)
    (hbound : s.conns.length < 2 ^ 64) :
    (∀ id conn, (id, conn) ∈ s.conns → conn.ended = true → s.shared.store.get id = none) ∧
      s.shared.store.len ≤ s.conns.countP fun conn => !conn.2.ended := by
  have hreturn := hrecovered.allReturn aead keys
  have hinv := listenInv_run hrun hbound
  refine ⟨fun id conn hconn hended => ?_, hinv.len_le.trans (List.countP_mono_left ?_)⟩
  · have hview := hinv.viewed_of_mem hconn
    have hfree : ¬conn.holds = true := by
      intro hholds
      rw [hview.not_ended_of_holds hreturn hholds] at hended
      cases hended
    have hholding := hview.holding
    unfold Holding at hholding
    rwa [if_neg hfree] at hholding
  · rintro ⟨id, conn⟩ hconn hholds
    rw [(hinv.viewed_of_mem hconn).not_ended_of_holds hreturn hholds]
    rfl

/-- Behind a key check and the recovery. -/
def recoveredSetup : List (Registration Nat) :=
  [.useMiddleware (BuiltIn.requireApiKeyId [""]).middleware,
    .useMiddleware BuiltIn.recovery.middleware]

def recoveredCalls : List (Registration Nat) :=
  recoveredSetup ++ [.handle 5 fun _ calls => .panicked (calls + 1)]

theorem allRecovered_recoveredCalls : AllRecovered recoveredCalls := by
  have hbehind : Recovered ([.requireApiKeyId [""], BuiltIn.recovery].map
      (BuiltIn.middleware (σ := Nat))) := BuiltIn.recovered (by simp)
  exact allRecovered_append (by simp [recoveredSetup, Registration.opcode]) hbehind

/-- The handler panics; the client gets its answer and hangs up. -/
theorem recovered_sessions_removed_panicking :
    ∃ s, run (listenStep ((Registry.new keyTagAead exampleKeys).after recoveredCalls).server)
        (serverStarted 0 ⟨100, 100⟩ 0) (.acceptTcp :: closingActions.map (.tcp 0)) = some s ∧
      s.shared.app = 1 ∧ s.shared.store.len = 0 := by
  have hends : (run (listenStep ((Registry.new keyTagAead exampleKeys).after recoveredCalls).server)
      (serverStarted 0 ⟨100, 100⟩ 0) (.acceptTcp :: closingActions.map (.tcp 0))).map (fun s =>
        (s.conns.length, s.shared.app, s.conns.countP fun conn => !conn.2.ended)) =
          some (1, 1, 0) := by decide +kernel
  obtain ⟨s, hrun, hs⟩ := Option.map_eq_some_iff.mp hends
  simp only [Prod.mk.injEq] at hs
  obtain ⟨hlength, happ, hrunning⟩ := hs
  obtain ⟨-, hlen⟩ := recovered_sessions_removed keyTagAead exampleKeys recoveredCalls
    allRecovered_recoveredCalls 0 ⟨100, 100⟩ 0 _ s hrun (by rw [hlength]; decide)
  rw [hrunning] at hlen
  exact ⟨s, hrun, happ, Nat.le_zero.mp hlen⟩

end Hush.Server
