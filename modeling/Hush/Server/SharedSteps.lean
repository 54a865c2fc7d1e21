import Hush.Server.Listen
import Hush.Session.StoreHistory

/-! What the steps of a server do to the clock, the session store and the application
state. On the store they are calls of its own operations. -/
namespace Hush.Server

open Hush.Foundation Execution
open Hush.Frame hiding Request
open Hush.Session

variable {σ : Type}

/-- What is shared after a step of the server: time passes, the collector ticks, the application
acts, or a connection inserts a session that it made just now or removes one. -/
inductive SharedSteps (sh : Shared σ) : Shared σ → Prop where
  | advanced (span : Nat) : SharedSteps sh { sh with now := sh.now + span }
  | collected : SharedSteps sh { sh with store := sh.store.gc sh.now }
  | app (app : σ) : SharedSteps sh { sh with app }
  | inserted (id : UInt64) (apiKeyId : String) (key : List UInt8) :
      SharedSteps sh { sh with store := sh.store.insert (.new sh.now id apiKeyId key) }
  | deleted (id : UInt64) : SharedSteps sh { sh with store := sh.store.delete id }

namespace SharedSteps

theorem none (sh : Shared σ) : SharedSteps sh sh := .app sh.app

theorem now_le {sh sh' : Shared σ} (h : SharedSteps sh sh') : sh.now ≤ sh'.now := by
  cases h with
  | advanced span => exact Nat.le_add_right _ _
  | _ => exact Nat.le_refl _

/-- On the store the step is at most one call, and what it inserts is new. -/
theorem store {sh sh' : Shared σ} (h : SharedSteps sh sh') :
    ∃ calls : List StoreCall, sh'.store = sh.store.after calls ∧
      ∀ call ∈ calls, call.now = sh.now ∧ ∀ sess, call.op = .insert sess →
        ∃ id apiKeyId key, sess = Session.new sh.now id apiKeyId key := by
  cases h with
  | advanced span => exact ⟨[], rfl, by simp⟩
  | collected => exact ⟨[⟨sh.now, .gc⟩], rfl, by simp⟩
  | app app => exact ⟨[], rfl, by simp⟩
  | inserted id apiKeyId key =>
    refine ⟨[⟨sh.now, .insert (.new sh.now id apiKeyId key)⟩], rfl, ?_⟩
    simp only [List.mem_singleton, forall_eq, StoreOperation.insert.injEq, true_and]
    rintro _ rfl
    exact ⟨id, apiKeyId, key, rfl⟩
  | deleted id => exact ⟨[⟨sh.now, .delete id⟩], rfl, by simp⟩

end SharedSteps

theorem quicRun_shared {srv : Server σ} {sid : UInt64} {s s' : Quic σ}
    (h : quicRun srv sid s = some s') : SharedSteps s.shared s'.shared := by
  obtain ⟨sh, chan, phase, streams⟩ := s
  unfold quicRun at h
  cases phase with
  | handshake =>
    dsimp only at h
    split at h
    · cases h
    · obtain rfl := Option.some.inj h
      exact .none _
    · obtain rfl := Option.some.inj h
      exact .none _
  | insert est =>
    obtain rfl := Option.some.inj h
    exact .inserted sid est.apiKeyId est.sessionKey
  | accept sess => cases h
  | closing sess =>
    obtain rfl := Option.some.inj h
    exact .deleted sess.id
  | ended result => cases h

theorem quicStep_shared {srv : Server σ} {sid : UInt64} {s s' : Quic σ} {action : QuicAction σ}
    (hown : ∀ env, action ≠ .env env) (h : quicStep srv sid s action = some s') :
    SharedSteps s.shared s'.shared := by
  obtain hrun | ⟨app, happ⟩ := quicStep_own hown h
  · exact quicRun_shared hrun
  · rw [happ]
    exact .app app

theorem tcpStep_shared {srv : Server σ} {sid : UInt64} {s s' : Tcp σ} {action : TcpAction σ}
    (hown : ∀ env, action ≠ .env env) (h : tcpStep srv sid s action = some s') :
    SharedSteps s.shared s'.shared := by
  cases tcpStep_steps h with
  | @env env _ _ => exact absurd rfl (hown env)
  | net _ => exact .none _
  | run hmoves =>
    obtain ⟨sh, chan, phase⟩ := s
    cases hmoves with
    | @inserted est sess hsess =>
      obtain rfl := hsess
      exact .inserted sid est.apiKeyId est.sessionKey
    | @closed sess => exact .deleted sess.id
    | panicked _ _ => exact .app _
    | answered _ _ => exact .app _
    | _ => exact .none _

theorem listenStep_shared {srv : Server σ} {s s' : Listening σ} {action : ListenAction σ}
    (h : listenStep srv s action = some s') : SharedSteps s.shared s'.shared := by
  unfold listenStep at h
  split at h
  · obtain rfl := Option.some.inj h
    exact .none _
  · obtain rfl := Option.some.inj h
    exact .none _
  · rename_i span
    obtain rfl := Option.some.inj h
    exact .advanced span
  · obtain rfl := Option.some.inj h
    exact .collected
  · rename_i app
    obtain rfl := Option.some.inj h
    exact .app app
  · cases h
  · rename_i hown
    split at h
    · obtain ⟨next, hnext, rfl⟩ := Option.map_eq_some_iff.mp h
      exact quicStep_shared hown hnext
    · cases h
  · cases h
  · rename_i hown
    split at h
    · obtain ⟨next, hnext, rfl⟩ := Option.map_eq_some_iff.mp h
      exact tcpStep_shared hown hnext
    · cases h

/-- The store is what a history of calls made of an empty one, and each session in it was
new when it was inserted. -/
def MadeByCalls (config : SessionConfig) (store : SessionStore) : Prop :=
  ∃ history : List StoreCall, store = (SessionStore.new config).after history ∧
    ∀ call ∈ history, ∀ sess, call.op = .insert sess →
      ∃ id apiKeyId key, sess = Session.new call.now id apiKeyId key

theorem MadeByCalls.step {config : SessionConfig} {sh sh' : Shared σ}
    (h : MadeByCalls config sh.store) (hstep : SharedSteps sh sh') :
    MadeByCalls config sh'.store := by
  obtain ⟨history, hstore, hnew⟩ := h
  obtain ⟨calls, hcalls, hcalled⟩ := hstep.store
  refine ⟨history ++ calls, ?_, List.forall_mem_append.mpr ⟨hnew, fun call hcall sess hop => ?_⟩⟩
  · rw [hcalls, hstore]
    exact List.foldl_append.symm
  · obtain ⟨hnow, hinsert⟩ := hcalled call hcall
    exact hnow ▸ hinsert sess hop

/-- What the server does to its store is calls of the store's operations. -/
theorem madeByCalls_of_run {srv : Server σ} {now : Instant} {config : SessionConfig} {app : σ}
    {actions : List (ListenAction σ)} {s : Listening σ}
    (hrun : run (listenStep srv) (serverStarted now config app) actions = some s) :
    MadeByCalls config s.shared.store := by
  let inv (s : Listening σ) : Prop := MadeByCalls config s.shared.store
  have hstep {s s' : Listening σ} {action : ListenAction σ} (hinv : inv s)
      (h : listenStep srv s action = some s') : inv s' := hinv.step (listenStep_shared h)
  have hstart : inv (serverStarted now config app) := ⟨[], rfl, by simp⟩
  exact run_preserves hstep hrun hstart

/-- A stored session was not touched since it was made, whatever was served under it. -/
theorem MadeByCalls.untouched {config : SessionConfig} {store : SessionStore}
    (h : MadeByCalls config store) {id : UInt64} {sess : Session} (hget : store.get id = some sess) :
    sess.lastUsed = sess.createdAt := by
  obtain ⟨history, rfl, hnew⟩ := h
  rw [SessionStore.get_after_iff] at hget
  obtain ⟨-, rest, ⟨before, now, rfl, -⟩, -⟩ := hget
  obtain ⟨id, apiKeyId, key, hsess⟩ := hnew ⟨now, .insert sess⟩ (by simp) sess rfl
  rw [hsess]
  rfl

end Hush.Server
