import Hush.Server.Expiry

/-! A session over TCP: what holds of its connection in every run. -/
namespace Hush.Server

open Hush.Foundation Execution
open Hush.Frame hiding Request
open Hush.Session

variable {σ : Type}

/-- Before the session is inserted the channel has seen arrivals only. -/
structure TcpUnopened (s : Tcp σ) : Prop where
  phase : match s.task.phase with
    | .loop _ _ => False
    | .closing _ => False
    | _ => True
  log : ∀ e ∈ s.task.chan.log, e.IsArrival

/-- What holds of a session from its insertion on. -/
structure TcpOpened (sid : UInt64) (s : Tcp σ) (sess : Session) : Prop where
  id_eq : sess.id = sid
  untouched : sess.lastUsed = sess.createdAt
  marked : ∀ sess', .established sess' ∈ s.task.chan.log ↔ sess' = sess
  expiry : ExpiryLog s.shared.store.config sess s.task.chan.log
  phase : match s.task.phase with
    | .loop sess' phase => sess' = sess ∧ Kept s.shared sess ∧
        ∀ found, phase = .judge found → found = none ∨ found = some sess
    | .closing sess' => sess' = sess ∧ Kept s.shared sess
    | .ended _ => True
    | _ => False

def TcpInv (sid : UInt64) (s : Tcp σ) : Prop := TcpUnopened s ∨ ∃ sess, TcpOpened sid s sess

theorem tcpInv_accepted (sid : UInt64) (sh : Shared σ) : TcpInv sid (tcpAccepted sh) := by
  apply Or.inl
  constructor
  · trivial
  · simp [tcpAccepted, Channel.opened]

/-- A step that only adds events of other kinds keeps what the log says. -/
theorem TcpOpened.marked_append {sid : UInt64} {s : Tcp σ} {sess : Session}
    (h : TcpOpened sid s sess) {events : List Event}
    (hevents : ∀ e ∈ events, ∀ sess', e ≠ .established sess') :
    ∀ sess', .established sess' ∈ s.task.chan.log ++ events ↔ sess' = sess := by
  intro sess'
  rw [← h.marked, List.mem_append]
  exact or_iff_left fun hin => hevents _ hin sess' rfl

theorem not_established_of_isArrival {e : Event} (h : e.IsArrival) (sess : Session) :
    e ≠ .established sess := by
  rintro rfl
  exact h

theorem not_established_receivedFrame {key : List UInt8} {recv : Source} :
    ∀ e ∈ receivedFrame key recv, ∀ sess, e ≠ .established sess := by
  unfold receivedFrame
  split <;> simp

theorem not_established_dispatchEvents {called : Bool} {req : Request} {seq : UInt32} :
    ∀ e ∈ dispatchEvents called req seq, ∀ sess, e ≠ .established sess := by
  unfold dispatchEvents
  split <;> simp

theorem TcpOpened.env {sid : UInt64} {s : Tcp σ} {sess : Session} {action : EnvAction σ}
    {sh : Shared σ} (hopen : TcpOpened sid s sess) (h : s.shared.env sid action = some sh) :
    TcpOpened sid { s with shared := sh } sess := by
  refine ⟨hopen.id_eq, hopen.untouched, hopen.marked, ?_, ?_⟩
  · dsimp only
    rw [env_config h]
    exact hopen.expiry
  · have hphase := hopen.phase
    rw [← hopen.id_eq] at h
    dsimp only
    split at hphase
    · exact ⟨hphase.1, hphase.2.1.env h, hphase.2.2⟩
    · exact ⟨hphase.1, hphase.2.env h⟩
    · exact hphase
    · exact hphase.elim

theorem TcpOpened.net {sid : UInt64} {s : Tcp σ} {sess : Session} {action : NetAction}
    {chan : Channel} (hopen : TcpOpened sid s sess)
    (h : s.task.chan.net s.shared.now action = some chan) :
    TcpOpened sid { s with task := { s.task with chan } } sess := by
  obtain ⟨events, hlog, harrival⟩ := net_log h
  refine ⟨hopen.id_eq, hopen.untouched, ?_, ?_, hopen.phase⟩
  · dsimp only
    rw [hlog]
    exact hopen.marked_append fun e he => not_established_of_isArrival (harrival e he)
  · dsimp only
    rw [hlog]
    exact hopen.expiry.append fun e he => not_isExpiry_of_isArrival (harrival e he)

/-- One case for each way through the loop. -/
theorem TcpOpened.moves {srv : Server σ} {sid : UInt64} {sh sh' : Shared σ} {chan : Channel}
    {phase : TcpPhase} {task' : TcpTask} {sess : Session}
    (hopen : TcpOpened sid ⟨sh, ⟨chan, phase⟩⟩ sess)
    (h : TcpMoves srv sid sh chan phase sh' task') : TcpOpened sid ⟨sh', task'⟩ sess := by
  have hphase := hopen.phase
  have hmarked := hopen.marked
  have hexpiry := hopen.expiry
  cases h with
  | refused => exact hphase.elim
  | accepted => exact hphase.elim
  | inserted => exact hphase.elim
  | fetched =>
    obtain ⟨rfl, hkept, -⟩ := hphase
    refine ⟨hopen.id_eq, hopen.untouched, hmarked, hexpiry, rfl, hkept, ?_⟩
    intro found hfound
    obtain rfl := LoopPhase.judge.inj hfound
    exact hkept.unchanged
  | @expired _ found nonce hcheck =>
    obtain ⟨rfl, hkept, hjudge⟩ := hphase
    obtain rfl | rfl := hjudge found rfl
    · cases hcheck
    · refine ⟨hopen.id_eq, hopen.untouched, ?_, ?_, rfl, hkept⟩
      · rw [Channel.log_reply, Channel.note, List.append_assoc]
        exact hopen.marked_append (by simp)
      · exact hexpiry.expired (expiryCheck_some_iff.mp hcheck)
  | @alive _ found hcheck =>
    obtain ⟨rfl, hkept, hjudge⟩ := hphase
    refine ⟨hopen.id_eq, hopen.untouched, ?_, ?_, rfl, hkept, by simp⟩
    · exact hopen.marked_append (by simp)
    · apply hexpiry.alive (hjudge found rfl)
      rintro s rfl hdead
      rw [expiryCheck_some_iff.mpr hdead] at hcheck
      cases hcheck
  | touched =>
    obtain ⟨rfl, hkept, -⟩ := hphase
    exact ⟨hopen.id_eq, hopen.untouched, hmarked, hexpiry, rfl, hkept, by simp⟩
  | unread _ =>
    obtain ⟨rfl, hkept, -⟩ := hphase
    exact ⟨hopen.id_eq, hopen.untouched, hopen.marked_append not_established_receivedFrame,
      hexpiry.append not_isExpiry_receivedFrame, rfl, hkept⟩
  | read _ =>
    obtain ⟨rfl, hkept, -⟩ := hphase
    exact ⟨hopen.id_eq, hopen.untouched, hopen.marked_append not_established_receivedFrame,
      hexpiry.append not_isExpiry_receivedFrame, rfl, hkept, by simp⟩
  | panicked _ _ =>
    obtain ⟨rfl, hkept, -⟩ := hphase
    exact ⟨hopen.id_eq, hopen.untouched, hopen.marked_append not_established_dispatchEvents,
      hexpiry.append not_isExpiry_dispatchEvents, trivial⟩
  | answered hserved hanswer =>
    obtain ⟨rfl, hkept, -⟩ := hphase
    subst hserved
    refine ⟨hopen.id_eq, hopen.untouched, ?_, ?_, rfl, hkept.app _, by simp⟩
    · rw [Channel.log_reply, Channel.note, List.append_assoc]
      apply hopen.marked_append
      intro e he
      obtain hdispatch | hanswered := List.mem_append.mp he
      · exact not_established_dispatchEvents e hdispatch
      · obtain rfl := List.mem_singleton.mp hanswered
        simp
    · exact (hexpiry.append not_isExpiry_dispatchEvents).append
        (not_isExpiry_answered (tcpServe_answer hanswer))
  | closed => exact ⟨hopen.id_eq, hopen.untouched, hmarked, hexpiry, trivial⟩

theorem TcpOpened.step {srv : Server σ} {sid : UInt64} {s s' : Tcp σ} {sess : Session}
    {action : TcpAction σ} (hopen : TcpOpened sid s sess)
    (h : tcpStep srv sid s action = some s') : TcpOpened sid s' sess := by
  cases tcpStep_steps h with
  | env hsh => exact hopen.env hsh
  | net hchan => exact hopen.net hchan
  | run hmoves => exact hopen.moves hmoves

/-- Right after the insertion nothing else has happened yet. -/
structure TcpJustOpened (s : Tcp σ) (sess : Session) : Prop where
  phase : s.task.phase = .loop sess .fetch
  log : ∀ e ∈ s.task.chan.log, e.IsArrival ∨ e = .established sess

theorem TcpUnopened.step {srv : Server σ} {sid : UInt64} {s s' : Tcp σ} {action : TcpAction σ}
    (hfresh : TcpUnopened s) (h : tcpStep srv sid s action = some s') :
    TcpUnopened s' ∨ ∃ sess, TcpOpened sid s' sess ∧ TcpJustOpened s' sess := by
  have hphase := hfresh.phase
  have hlog := hfresh.log
  cases tcpStep_steps h with
  | env hsh => exact .inl ⟨hphase, hlog⟩
  | net hchan => exact .inl ⟨hphase, net_isArrival hlog hchan⟩
  | run hmoves =>
    generalize s.task.phase = phase at hmoves hphase
    cases hmoves with
    | refused => exact .inl ⟨trivial, hlog⟩
    | accepted => exact .inl ⟨trivial, hlog⟩
    | @inserted est sess hsess =>
      have hnew : ∀ e ∈ (s.task.chan.note [.established sess]).log,
          e.IsArrival ∨ e = .established sess := by
        intro e he
        obtain hold | hnew := List.mem_append.mp he
        · exact .inl (hlog e hold)
        · exact .inr (List.mem_singleton.mp hnew)
      refine .inr ⟨sess, ⟨by rw [hsess]; rfl, by rw [hsess]; rfl, ?_, ?_, ?_⟩, rfl, hnew⟩
      · intro sess'
        have hold : .established sess' ∉ s.task.chan.log :=
          fun hin => not_established_of_isArrival (hlog _ hin) sess' rfl
        simp [Channel.note, hold]
      · apply ExpiryLog.of_none
        intro e he
        obtain harrival | rfl := hnew e he
        · exact not_isExpiry_of_isArrival harrival
        · exact id
      · exact ⟨rfl, Kept.inserted s.shared sess, by simp⟩
    | _ => exact hphase.elim

theorem tcpInv_step {srv : Server σ} {sid : UInt64} {s s' : Tcp σ} {action : TcpAction σ}
    (hinv : TcpInv sid s) (h : tcpStep srv sid s action = some s') : TcpInv sid s' := by
  obtain hfresh | ⟨sess, hopen⟩ := hinv
  · obtain hfresh' | ⟨sess, hopen, -⟩ := hfresh.step h
    · exact .inl hfresh'
    · exact .inr ⟨sess, hopen⟩
  · exact .inr ⟨sess, hopen.step h⟩

/-- In every state that a run reaches after the session was inserted. -/
theorem tcpOpened_run {srv : Server σ} {sid : UInt64} {sh : Shared σ}
    {actions : List (TcpAction σ)} {s : Tcp σ} {sess : Session}
    (hrun : run (tcpStep srv sid) (tcpAccepted sh) actions = some s)
    (hsess : .established sess ∈ s.task.chan.log) : TcpOpened sid s sess := by
  obtain hfresh | ⟨sess', hopen⟩ := run_preserves tcpInv_step hrun (tcpInv_accepted sid sh)
  · exact (hfresh.log _ hsess).elim
  · obtain rfl := (hopen.marked sess).mp hsess
    exact hopen

/-- For examples: the handshake, the insertion, and the first round up to its read. -/
def openingActions : List (TcpAction Nat) :=
  .net (.deliver (anonymousHello 1)) :: List.replicate 5 (.run exampleNonce)

/-- A request arrives, and the task takes some steps. -/
def requestActions (steps : Nat) : List (TcpAction Nat) :=
  .net (.deliver exampleFrame) :: List.replicate steps (.run exampleNonce)

end Hush.Server
