import Hush.Foundation.Ticker
import Hush.Server.MediaServer

/-! `gc_loop`, which `listen_on` and `listen_tcp` each spawn. Its ticker bursts: a tick that comes
late does not put off the ticks after it. -/
namespace Hush.Server

open Hush.Foundation Execution Ticker
open Hush.Media hiding Call
open Hush.Session

variable {σ : Type}

/-- A session configuration with the interval of the collector. -/
structure GcConfig extends SessionConfig where
  gcInterval : Nat
  deriving DecidableEq, Repr

def defaultGcInterval : Nat := 60 * 1000000000

namespace GcConfig

def default : GcConfig := ⟨.default, defaultGcInterval⟩

def fill (config : GcConfig) : GcConfig where
  toSessionConfig := config.toSessionConfig.fill
  gcInterval := if config.gcInterval = 0 then defaultGcInterval else config.gcInterval

/-- `tokio::time::interval` panics on a zero interval. -/
theorem fill_interval_pos (config : GcConfig) : 0 < config.fill.gcInterval := by
  unfold fill
  dsimp only
  split
  · decide
  · rename_i hne
    exact Nat.pos_of_ne_zero hne

/-- The longest that a session is stored, apart from the lateness of the collector. -/
def retention (config : GcConfig) : Nat := config.maxLifetime + config.gcInterval

end GcConfig

def Listening.collect (s : Listening σ) : Listening σ :=
  { s with shared := { s.shared with store := s.shared.store.gc s.shared.now } }

/-- The server, with the ticks of its collectors. -/
def listenMachine (srv : Server σ) : Machine (Listening σ) (ListenAction σ) where
  step := listenStep srv
  tick := Listening.collect
  now s := s.shared.now
  now_step h := (listenStep_shared h).now_le
  now_tick _ := rfl

def mediaMachine (srv : Server σ) : Machine (MediaServer σ) (MediaAction σ) where
  step := mediaStep srv
  tick s := { s with listening := s.listening.collect }
  now := MediaServer.now
  now_step h := mediaStep_now_le h
  now_tick _ := rfl

theorem SharedSteps.config_eq {sh sh' : Shared σ} (h : SharedSteps sh sh') :
    sh'.store.config = sh.store.config := by
  cases h <;> rfl

/-- What the store holds after a step it held before, or it was made now. -/
theorem SharedSteps.get {sh sh' : Shared σ} (h : SharedSteps sh sh') {id : UInt64} {sess : Session}
    (hget : sh'.store.get id = some sess) :
    sh.store.get id = some sess ∨ sess.createdAt = sh.now := by
  cases h with
  | advanced _ => exact .inl hget
  | collected => exact .inl (SessionStore.get_gc_eq_some hget)
  | app _ => exact .inl hget
  | inserted own apiKeyId key =>
    by_cases hsame : id = own
    · subst hsame
      have hnew := SessionStore.get_insert_self sh.store (.new sh.now id apiKeyId key)
      obtain rfl := Option.some.inj (hget.symm.trans hnew)
      exact .inr rfl
    · have hother : (sh.store.insert (.new sh.now own apiKeyId key)).get id = sh.store.get id :=
        SessionStore.get_insert_of_ne _ hsame
      exact .inl (hother.symm.trans hget)
  | deleted own =>
    by_cases hsame : id = own
    · subst hsame
      cases hget.symm.trans (SessionStore.get_delete_self sh.store id)
    · exact .inl ((SessionStore.get_delete_of_ne _ hsame).symm.trans hget)

/-- A session is stored. -/
def Listening.Stores (s : Listening σ) (sess : Session) : Prop :=
  ∃ id, s.shared.store.get id = some sess

namespace Listening

theorem stores_step {srv : Server σ} {s s' : Listening σ} {action : ListenAction σ}
    (h : listenStep srv s action = some s') {sess : Session} (hstored : s'.Stores sess) :
    s.Stores sess ∨ s.shared.now ≤ sess.createdAt := by
  obtain ⟨id, hget⟩ := hstored
  obtain hold | hnew := (listenStep_shared h).get hget
  · exact .inl ⟨id, hold⟩
  · exact .inr (Nat.le_of_eq hnew.symm)

theorem stores_collect {s : Listening σ} {sess : Session} (hstored : s.collect.Stores sess) :
    s.Stores sess ∧ s.shared.now ≤ sess.createdAt + s.shared.store.config.maxLifetime := by
  obtain ⟨id, hget⟩ := hstored
  obtain ⟨hold, hyoung⟩ := Option.filter_eq_some_iff.mp hget
  exact ⟨⟨id, hold⟩, Nat.sub_le_iff_le_add'.mp (of_decide_eq_true hyoung)⟩

end Listening

/-- The collector's own part: what it leaves has not outlived the lifetime. -/
theorem listenMachine_collects (srv : Server σ) (config : SessionConfig) :
    Collects (listenMachine srv) (fun s => s.shared.store.config = config) Listening.Stores
      Session.createdAt config.maxLifetime where
  inv_step hinv h := (listenStep_shared h).config_eq.trans hinv
  inv_tick hinv := hinv
  added _ h hstored := Listening.stores_step h hstored
  left := by
    rintro s sess rfl hstored
    exact Listening.stores_collect hstored

theorem mediaMachine_collects (srv : Server σ) (calls : List BuilderCall) (config : SessionConfig)
    (maxTokenTtl captured : Nat) :
    Collects (mediaMachine srv)
      (fun s => MediaInv calls config maxTokenTtl captured s ∧ s.sessionStore.config = config)
      (fun s => s.listening.Stores) Session.createdAt config.maxLifetime where
  inv_step := by
    rintro s action s' ⟨hinv, hconfig⟩ h
    refine ⟨hinv.step h, ?_⟩
    cases action with
    | listen action =>
      obtain ⟨listening, hlisten, rfl⟩ := Option.map_eq_some_iff.mp h
      exact (listenStep_shared hlisten).config_eq.trans hconfig
    | token op =>
      obtain rfl := Option.some.inj h
      exact hconfig
  inv_tick := by
    rintro s ⟨hinv, hconfig⟩
    exact ⟨{ hinv with made := hinv.made.step .collected }, hconfig⟩
  added := by
    rintro s action s' sess - h hstored
    cases action with
    | listen action =>
      obtain ⟨listening, hlisten, rfl⟩ := Option.map_eq_some_iff.mp h
      exact Listening.stores_step hlisten hstored
    | token op =>
      obtain rfl := Option.some.inj h
      exact .inl hstored
  left := by
    rintro s sess ⟨-, rfl⟩ hstored
    exact Listening.stores_collect hstored

/-- In every run of a server whose collector is at most `slack` late no stored session is older
than the lifetime and the collector's interval, however long its connection goes on. -/
theorem sessions_retained (srv : Server σ) (config : GcConfig) (now : Instant) (app : σ)
    (slack : Nat) (actions : List (TimedAction (ListenAction σ))) (s : Timed (Listening σ))
    (hrun : run (timedStep (listenMachine srv) config.fill.gcInterval slack)
      ⟨serverStarted now config.fill.toSessionConfig app, [now]⟩ actions = some s)
    (id : UInt64) (sess : Session) (hget : s.state.shared.store.get id = some sess) :
    elapsed s.state.shared.now sess.createdAt ≤ config.fill.retention + slack := by
  have hnone (sess : Session) :
      ¬(serverStarted now config.fill.toSessionConfig app).Stores sess := by
    rintro ⟨id, hnever⟩
    cases hnever
  have hcollects := listenMachine_collects srv config.fill.toSessionConfig
  have haged := (hcollects.age_le rfl hnone hrun).2 sess ⟨id, hget⟩
  exact haged

/-- A session is established, a minute passes, and a second listener starts its collector. -/
def tickedActions : List (TimedAction (ListenAction Nat)) :=
  .tick 0 :: [ListenAction.acceptTcp, .tcp 0 (.net (.deliver (anonymousHello 1))),
    .tcp 0 (.run exampleNonce), .tcp 0 (.run exampleNonce), .advance defaultGcInterval].map .own ++
      [.start, .tick 0, .tick 1]

theorem sessions_retained_default : ∃ s, run (timedStep (listenMachine exampleServer)
      GcConfig.default.fill.gcInterval 0)
      ⟨serverStarted 0 GcConfig.default.fill.toSessionConfig 0, [0]⟩ tickedActions = some s ∧
      s.state.shared.store.get 1 = some exampleSession ∧
      elapsed s.state.shared.now exampleSession.createdAt ≤
        GcConfig.default.fill.retention + 0 := by
  have hends : (run (timedStep (listenMachine exampleServer) GcConfig.default.fill.gcInterval 0)
      ⟨serverStarted 0 GcConfig.default.fill.toSessionConfig 0, [0]⟩ tickedActions).map
          (fun s => s.state.shared.store.get 1) = some (some exampleSession) := by rfl
  obtain ⟨s, hrun, hget⟩ := Option.map_eq_some_iff.mp hends
  exact ⟨s, hrun, hget, sessions_retained exampleServer .default 0 0 0 _ s hrun 1 _ hget⟩

/-- A token that the server accepts is bound to a stored session that is no older than that
either: the validator's own check of the session is late by one interval at most. -/
theorem accepted_token_session_retained (srv : Server σ) (calls : List BuilderCall)
    (gcInterval : Nat) (now : Instant) (app : σ) (maxTokenTtl slack : Nat) (start : MediaServer σ)
    (hserve : (Builder.new.after calls).serve now app maxTokenTtl = some start)
    (actions : List (TimedAction (MediaAction σ))) (s : Timed (MediaServer σ))
    (hrun : run (timedStep (mediaMachine srv) gcInterval slack) ⟨start, [now]⟩ actions = some s)
    (id : TokenId) (haccepted : s.state.validates id = true) :
    ∃ sid issuedAt sess, s.state.media.held id = some (sid, issuedAt) ∧
      s.state.sessionStore.get sid = some sess ∧
      elapsed s.state.now issuedAt ≤ maxTokenTtl ∧
      elapsed s.state.now sess.createdAt ≤
        (Builder.new.after calls).sessionCfg.maxLifetime + gcInterval + slack := by
  obtain ⟨captured, hstart⟩ := MediaInv.started hserve
  obtain ⟨hnow, hconfig, hnone⟩ : start.now = now ∧
      start.sessionStore.config = (Builder.new.after calls).sessionCfg ∧
      ∀ sess, ¬start.listening.Stores sess := by
    obtain ⟨media, -, rfl⟩ := Option.map_eq_some_iff.mp hserve
    refine ⟨rfl, rfl, ?_⟩
    rintro sess ⟨id, hnever⟩
    cases hnever
  subst hnow
  have hcollects :=
    mediaMachine_collects srv calls (Builder.new.after calls).sessionCfg maxTokenTtl captured
  obtain ⟨⟨hinv, -⟩, haged⟩ := hcollects.age_le ⟨hstart, hconfig⟩ hnone hrun
  obtain ⟨sid, issuedAt, hheld, hfresh, -, hlive⟩ := (hinv.validates_iff id).mp haccepted
  obtain ⟨sess, hget⟩ := Option.isSome_iff_exists.mp hlive
  exact ⟨sid, issuedAt, sess, hheld, hget, hfresh, haged sess ⟨sid, hget⟩⟩

def acceptedActions : List (TimedAction (MediaAction Nat)) :=
  .tick 0 :: (establishingActions ++ [MediaAction.token (.issue exampleTokenId 1 "track"),
    .listen (.advance 30)]).map .own

/-- The token is accepted 30 after its session began, with the collector at work every 60. -/
theorem accepted_token_session_retained_early : ∃ start s,
    (Builder.new.after [.withSessionConfig ⟨100, 100⟩, .withMedia ""]).serve 0 0 50 = some start ∧
      run (timedStep (mediaMachine exampleServer) 60 5) ⟨start, [0]⟩ acceptedActions = some s ∧
      s.state.validates exampleTokenId = true ∧
      ∃ sid issuedAt sess, s.state.media.held exampleTokenId = some (sid, issuedAt) ∧
        s.state.sessionStore.get sid = some sess ∧ elapsed s.state.now issuedAt ≤ 50 ∧
        elapsed s.state.now sess.createdAt ≤ 100 + 60 + 5 := by
  let calls : List BuilderCall := [.withSessionConfig ⟨100, 100⟩, .withMedia ""]
  have hends : ((Builder.new.after calls).serve 0 0 50).map (fun start =>
      (run (timedStep (mediaMachine exampleServer) 60 5) ⟨start, [0]⟩ acceptedActions).map
        fun s => s.state.validates exampleTokenId) = some (some true) := by rfl
  obtain ⟨start, hserve, hstart⟩ := Option.map_eq_some_iff.mp hends
  obtain ⟨s, hrun, haccepted⟩ := Option.map_eq_some_iff.mp hstart
  exact ⟨start, s, hserve, hrun, haccepted, accepted_token_session_retained exampleServer calls 60
    0 0 50 5 start hserve _ s hrun exampleTokenId haccepted⟩

end Hush.Server
