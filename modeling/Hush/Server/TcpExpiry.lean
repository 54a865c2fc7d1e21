import Hush.Server.TcpSession

/-! When a TCP session that has outlived its lifetime is no longer served. -/
namespace Hush.Server

open Hush.Foundation Execution
open Hush.Frame hiding Request
open Hush.Session

variable {σ : Type}

/-- An expiry check that came when the session had outlived its lifetime. -/
def Event.IsLateCheck (config : SessionConfig) (sess : Session) : Event → Prop
  | .checked _ now => config.maxLifetime < elapsed now sess.createdAt
  | _ => False

/-- No request is dispatched after a check that came too late for the session. -/
def ExpiredUnserved (config : SessionConfig) (sess : Session) (log : List Event) : Prop :=
  log.Pairwise fun e e' => e.IsLateCheck config sess → ¬e'.IsDispatch

/-- A task that reaches its expiry check when the session has outlived its
lifetime still finds it in the store: the collector has not ticked since then. -/
def findsExpired (s : Tcp σ) : TcpAction σ → Bool
  | .run _ =>
    match s.task.phase with
    | .loop sess .fetch =>
      elapsed s.shared.now sess.createdAt ≤ s.shared.store.config.maxLifetime ||
        (s.shared.store.get sess.id).isSome
    | _ => true
  | _ => true

/-- What such checks guarantee: in the loop no check came too late yet. -/
structure Guarded (s : Tcp σ) (sess : Session) : Prop where
  unserved : ExpiredUnserved s.shared.store.config sess s.task.chan.log
  found : ∀ found, s.task.phase = .loop sess (.judge found) → found = some sess
  onTime : ∀ phase, s.task.phase = .loop sess phase →
    ∀ e ∈ s.task.chan.log, ¬e.IsLateCheck s.shared.store.config sess

theorem ExpiredUnserved.append {config : SessionConfig} {sess : Session} {log events : List Event}
    (h : ExpiredUnserved config sess log) (hevents : ∀ e ∈ events, ¬e.IsDispatch) :
    ExpiredUnserved config sess (log ++ events) := by
  unfold ExpiredUnserved at h ⊢
  rw [List.pairwise_append]
  refine ⟨h, List.pairwise_of_forall_mem_list ?_, ?_⟩
  · intro e _ e' he' _
    exact hevents e' he'
  · intro e _ e' he' _
    exact hevents e' he'

/-- As long as no check came too late, anything may follow but such a check. -/
theorem ExpiredUnserved.of_onTime {config : SessionConfig} {sess : Session} {log : List Event}
    (h : ∀ e ∈ log, ¬e.IsLateCheck config sess) : ExpiredUnserved config sess log := by
  apply List.pairwise_of_forall_mem_list
  intro e he _ _ hlate
  exact absurd hlate (h e he)

theorem not_isLateCheck_append {config : SessionConfig} {sess : Session} {log events : List Event}
    (h : ∀ e ∈ log, ¬e.IsLateCheck config sess) (hevents : ∀ e ∈ events, ¬e.IsExpiry) :
    ∀ e ∈ log ++ events, ¬e.IsLateCheck config sess := by
  intro e he hlate
  obtain hold | hnew := List.mem_append.mp he
  · exact h e hold hlate
  · apply hevents e hnew
    cases e <;> first | exact hlate.elim | trivial

theorem not_isDispatch_of_isArrival {e : Event} (h : e.IsArrival) : ¬e.IsDispatch := by
  cases e <;> simp_all [Event.IsArrival, Event.IsDispatch]

theorem Guarded.of_onTime {s : Tcp σ} {sess : Session}
    (h : ∀ e ∈ s.task.chan.log, ¬e.IsLateCheck s.shared.store.config sess)
    (hphase : ∀ found, s.task.phase ≠ .loop sess (.judge found)) : Guarded s sess where
  unserved := .of_onTime h
  found := fun found hfound => absurd hfound (hphase found)
  onTime := fun _ _ => h

theorem Guarded.env {s : Tcp σ} {sess : Session} {own : UInt64} {action : EnvAction σ}
    {sh : Shared σ} (hguard : Guarded s sess) (h : s.shared.env own action = some sh) :
    Guarded { s with shared := sh } sess := by
  constructor
  · dsimp only
    rw [env_config h]
    exact hguard.unserved
  · exact hguard.found
  · dsimp only
    rw [env_config h]
    exact hguard.onTime

theorem Guarded.net {s : Tcp σ} {sess : Session} {action : NetAction} {chan : Channel}
    (hguard : Guarded s sess) (h : s.task.chan.net s.shared.now action = some chan) :
    Guarded { s with task := { s.task with chan } } sess := by
  obtain ⟨events, hlog, harrival⟩ := net_log h
  constructor
  · dsimp only
    rw [hlog]
    exact hguard.unserved.append fun e he => not_isDispatch_of_isArrival (harrival e he)
  · exact hguard.found
  · intro phase hphase
    dsimp only
    rw [hlog]
    exact not_isLateCheck_append (hguard.onTime phase hphase) fun e he =>
      not_isExpiry_of_isArrival (harrival e he)

theorem Guarded.moves {srv : Server σ} {sid : UInt64} {sh sh' : Shared σ} {chan : Channel}
    {phase : TcpPhase} {task' : TcpTask} {sess : Session} {nonce : Nonce}
    (hopen : TcpOpened sid ⟨sh, ⟨chan, phase⟩⟩ sess) (hguard : Guarded ⟨sh, ⟨chan, phase⟩⟩ sess)
    (hfinds : findsExpired ⟨sh, ⟨chan, phase⟩⟩ (.run nonce))
    (h : TcpMoves srv sid sh chan phase sh' task') : Guarded ⟨sh', task'⟩ sess := by
  have hphase := hopen.phase
  have hunserved := hguard.unserved
  have honTime := hguard.onTime
  cases h with
  | refused => exact hphase.elim
  | accepted => exact hphase.elim
  | inserted => exact hphase.elim
  | @fetched sess =>
    obtain ⟨rfl, hkept, -⟩ := hphase
    refine ⟨hunserved, ?_, fun _ _ => honTime _ rfl⟩
    intro found hfound
    simp only [TcpPhase.loop.injEq, LoopPhase.judge.injEq, true_and] at hfound
    subst hfound
    -- a session that is due is found by the hypothesis, any other by the invariant
    simp only [findsExpired, Bool.or_eq_true, decide_eq_true_eq] at hfinds
    obtain hage | hsome := hfinds
    · exact hkept.live hage
    · obtain hnone | hsess := hkept.unchanged
      · rw [hnone] at hsome
        cases hsome
      · exact hsess
  | @expired _ found nonce hcheck =>
    obtain ⟨rfl, hkept, -⟩ := hphase
    refine ⟨?_, by simp, by simp⟩
    rw [Channel.log_reply, Channel.note]
    exact (hunserved.append (by simp [Event.IsDispatch])).append (by simp [Event.IsDispatch])
  | @alive sess found hcheck =>
    obtain ⟨rfl, hkept, -⟩ := hphase
    obtain rfl := hguard.found found rfl
    have hnew : ∀ e ∈ (chan.note [.checked (some sess) sh.now]).log,
        ¬e.IsLateCheck sh.store.config sess := by
      intro e he hlate
      obtain hold | hnew := List.mem_append.mp he
      · exact honTime _ rfl e hold hlate
      · obtain rfl := List.mem_singleton.mp hnew
        rw [expiryCheck_some_iff.mpr (.inl hlate)] at hcheck
        cases hcheck
    exact .of_onTime hnew (by simp)
  | touched =>
    obtain ⟨rfl, hkept, -⟩ := hphase
    exact .of_onTime (honTime _ rfl) (by simp)
  | unread _ =>
    obtain ⟨rfl, hkept, -⟩ := hphase
    exact .of_onTime (not_isLateCheck_append (honTime _ rfl) not_isExpiry_receivedFrame) (by simp)
  | read _ =>
    obtain ⟨rfl, hkept, -⟩ := hphase
    exact .of_onTime (not_isLateCheck_append (honTime _ rfl) not_isExpiry_receivedFrame) (by simp)
  | panicked _ _ =>
    obtain ⟨rfl, hkept, -⟩ := hphase
    exact .of_onTime (not_isLateCheck_append (honTime _ rfl) not_isExpiry_dispatchEvents) (by simp)
  | answered hserved hanswer =>
    obtain ⟨rfl, hkept, -⟩ := hphase
    subst hserved
    apply Guarded.of_onTime
    · exact not_isLateCheck_append
        (not_isLateCheck_append (honTime _ rfl) not_isExpiry_dispatchEvents)
        (not_isExpiry_answered (tcpServe_answer hanswer))
    · simp
  | closed => exact ⟨hunserved, by simp, by simp⟩

theorem TcpJustOpened.guarded {s : Tcp σ} {sess : Session} (h : TcpJustOpened s sess) :
    Guarded s sess := by
  have honTime : ∀ e ∈ s.task.chan.log, ¬e.IsLateCheck s.shared.store.config sess := by
    intro e he
    obtain harrival | rfl := h.log e he
    · cases e <;> first | exact harrival.elim | exact id
    · exact id
  apply Guarded.of_onTime honTime
  intro found hfound
  rw [h.phase] at hfound
  simp at hfound

/-- The invariant of a run in which late checks still find the session. -/
def TcpGuarded (sid : UInt64) (s : Tcp σ) : Prop :=
  TcpUnopened s ∨ ∃ sess, TcpOpened sid s sess ∧ Guarded s sess

theorem tcpGuarded_step {srv : Server σ} {sid : UInt64} {s s' : Tcp σ} {action : TcpAction σ}
    (hinv : TcpGuarded sid s) (hfinds : findsExpired s action)
    (h : tcpStep srv sid s action = some s') : TcpGuarded sid s' := by
  obtain hfresh | ⟨sess, hopen, hguard⟩ := hinv
  · obtain hfresh' | ⟨sess, hopen, hjust⟩ := hfresh.step h
    · exact .inl hfresh'
    · exact .inr ⟨sess, hopen, hjust.guarded⟩
  · refine .inr ⟨sess, hopen.step h, ?_⟩
    cases tcpStep_steps h with
    | env hsh => exact hguard.env hsh
    | net hchan => exact hguard.net hchan
    | run hmoves => exact hguard.moves hopen hfinds hmoves

/-- In every run in which each expiry check that comes too late for the session
still finds it in the store, nothing is dispatched after such a check. -/
theorem expired_unserved (srv : Server σ) (sid : UInt64) (sh : Shared σ)
    (actions : List (TcpAction σ)) (s : Tcp σ)
    (hfinds : Along (tcpStep srv sid) (fun s a => findsExpired s a) (tcpAccepted sh) actions)
    (hrun : run (tcpStep srv sid) (tcpAccepted sh) actions = some s) (sess : Session)
    (hsess : .established sess ∈ s.task.chan.log) :
    ExpiredUnserved s.shared.store.config sess s.task.chan.log := by
  have hstart : TcpGuarded sid (tcpAccepted sh) := .inl ⟨trivial, by simp [tcpAccepted, Channel.opened]⟩
  obtain hfresh | ⟨sess', hopen, hguard⟩ := run_preserves_along tcpGuarded_step hfinds hrun hstart
  · exact (hfresh.log _ hsess).elim
  · obtain rfl := (hopen.marked sess).mp hsess
    exact hguard.unserved

/-- The connection of these examples: lifetime 10, idle timeout 100. -/
def shortLived : Tcp Nat := tcpAccepted ⟨0, .new ⟨100, 10⟩, 0⟩

/-- The session is looked up at age 20, before the collector ticks. -/
def uncollectedActions : List (TcpAction Nat) :=
  openingActions ++ .env (.advance 20) :: requestActions 4 ++ [.env .gc]

/-- The collector ticks at age 20, and two requests follow. -/
def collectedActions : List (TcpAction Nat) :=
  openingActions ++ .env (.advance 20) :: .env .gc :: requestActions 5 ++ requestActions 2

/-- What the observer notes of the run with the collector. -/
def collectedLog : List Event :=
  let key := (anonymousSession 1).sessionKey
  let frame : Frame := ⟨9, List.replicate 12 7 ++ ([0, 5] ++ key.take tagSize)⟩
  let req : Request := ⟨5, .new, 1, ""⟩
  [.arrived 0 (anonymousHello 1), .established exampleSession,
    .checked (some exampleSession) 0,
    .arrived 20 exampleFrame, .received key frame, .dispatched req 9,
    .answered .handled 9 (newResponse .new), .checked none 20,
    .arrived 20 exampleFrame, .received key frame, .dispatched req 9,
    .answered .handled 9 (newResponse .new)]

theorem collectedLog_eq : (run (tcpStep exampleServer 1) shortLived collectedActions).map
    (fun s => (s.shared.store.config, s.task.chan.log)) = some (⟨100, 10⟩, collectedLog) := by rfl

/-- Once the collector has removed the session, its client is served again. -/
theorem collected_session_served : ∃ s, run (tcpStep exampleServer 1) shortLived collectedActions =
      some s ∧ .established exampleSession ∈ s.task.chan.log ∧
    ¬ExpiredUnserved s.shared.store.config exampleSession s.task.chan.log := by
  obtain ⟨s, hrun, hs⟩ := Option.map_eq_some_iff.mp collectedLog_eq
  obtain ⟨hconfig, hlog⟩ := Prod.mk.inj hs
  refine ⟨s, hrun, ?_, ?_⟩
  · rw [hlog]
    simp [collectedLog]
  · rw [hconfig, hlog]
    intro hunserved
    have hlate := List.pairwise_iff_getElem.mp hunserved 7 10 (by decide) (by decide) (by decide)
    exact hlate (show 10 < 20 - 0 by decide) trivial

/-- Before the collector ticks it is refused. -/
theorem expired_unserved_uncollected :
    ∃ s, run (tcpStep exampleServer 1) shortLived uncollectedActions = some s ∧
      s.task.chan.log.length = 9 ∧ .established exampleSession ∈ s.task.chan.log ∧
        ExpiredUnserved s.shared.store.config exampleSession s.task.chan.log := by
  have hlog : (run (tcpStep exampleServer 1) shortLived uncollectedActions).map
      (fun s => (s.task.chan.log.length, s.task.chan.log.take 2)) =
        some (9, collectedLog.take 2) := by rfl
  obtain ⟨s, hrun, hs⟩ := Option.map_eq_some_iff.mp hlog
  obtain ⟨hlength, htake⟩ := Prod.mk.inj hs
  have hsess : .established exampleSession ∈ s.task.chan.log := by
    apply List.mem_of_mem_take (i := 2)
    rw [htake]
    simp [collectedLog]
  refine ⟨s, hrun, hlength, hsess, ?_⟩
  exact expired_unserved exampleServer 1 _ uncollectedActions s (by decide +kernel) hrun
    exampleSession hsess

end Hush.Server
