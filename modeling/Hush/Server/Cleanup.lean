import Hush.Server.QuicSession
import Hush.Server.TcpSession

/-! What a connection's task leaves in the session store when it ends. Over QUIC
handlers run in tasks of their own; over TCP a handler that panics takes the
connection's task with it, before the removal at its end. -/
namespace Hush.Server

open Hush.Foundation Execution
open Hush.Frame hiding Request
open Hush.Session

variable {σ : Type}

/-- The store holds no session under the id. -/
def Vacant (sh : Shared σ) (sid : UInt64) : Prop := sh.store.get sid = none

theorem Vacant.env {sh sh' : Shared σ} {sid : UInt64} {action : EnvAction σ} (hvacant : Vacant sh sid)
    (h : sh.env sid action = some sh') : Vacant sh' sid := by
  unfold Shared.env at h
  unfold Vacant at hvacant ⊢
  cases action with
  | advance span =>
    obtain rfl := Option.some.inj h
    exact hvacant
  | gc =>
    obtain rfl := Option.some.inj h
    dsimp only
    rw [SessionStore.get_gc, hvacant, Option.filter_none]
  | insert other =>
    dsimp only at h
    split at h
    · cases h
    · rename_i hne
      obtain rfl := Option.some.inj h
      dsimp only
      rwa [SessionStore.get_insert_of_ne _ (Ne.symm hne)]
  | delete id =>
    dsimp only at h
    split at h
    · cases h
    · rename_i hne
      obtain rfl := Option.some.inj h
      dsimp only
      rwa [SessionStore.get_delete_of_ne _ (Ne.symm hne)]
  | app app =>
    obtain rfl := Option.some.inj h
    exact hvacant

theorem Vacant.of_store {sh sh' : Shared σ} {sid : UInt64} (hvacant : Vacant sh sid)
    (hstore : sh'.store = sh.store) : Vacant sh' sid := by
  unfold Vacant at hvacant ⊢
  rwa [hstore]

theorem Vacant.deleted (sh : Shared σ) (sid : UInt64) :
    Vacant { sh with store := sh.store.delete sid } sid := SessionStore.get_delete_self _ _

/-! ### QUIC -/

/-- Outside its loop the task has no session in the store. -/
def QuicCleaned (sid : UInt64) (s : Quic σ) : Prop :=
  match s.phase with
  | .accept sess => sess.id = sid
  | .closing sess => sess.id = sid
  | _ => Vacant s.shared sid

theorem quicCleaned_step {srv : Server σ} {sid : UInt64} {s s' : Quic σ} {action : QuicAction σ}
    (hinv : QuicCleaned sid s) (h : quicStep srv sid s action = some s') : QuicCleaned sid s' := by
  unfold QuicCleaned at hinv
  cases quicStep_steps h with
  | env hsh =>
    obtain ⟨sh, chan, phase, streams⟩ := s
    cases phase with
    | accept _ => exact hinv
    | closing _ => exact hinv
    | _ => exact hinv.env hsh
  | net _ => exact hinv
  | refused heq =>
    rw [heq] at hinv
    exact hinv
  | accepted heq _ =>
    rw [heq] at hinv
    exact hinv
  | inserted _ hsess =>
    subst hsess
    exact rfl
  | opened heq =>
    rw [heq] at hinv
    unfold QuicCleaned
    dsimp only
    rwa [heq]
  | lost heq =>
    rw [heq] at hinv
    exact hinv
  | closed heq =>
    rw [heq] at hinv
    obtain rfl := hinv
    exact Vacant.deleted _ _
  | streamNet _ _ => exact hinv
  | stream _ hmoves =>
    obtain ⟨sh, chan, phase, streams⟩ := s
    cases phase with
    | accept _ => exact hinv
    | closing _ => exact hinv
    | _ => exact hinv.of_store hmoves.store_eq

/-! ### TCP -/

/-- Outside its loop the task has no session in the store. -/
def TcpCleaned (sid : UInt64) (s : Tcp σ) : Prop :=
  match s.task.phase with
  | .loop sess _ => sess.id = sid
  | .closing sess => sess.id = sid
  | _ => Vacant s.shared sid

/-- If the step is to run a handler, the handler does not panic on its request. -/
def handlerReturns (srv : Server σ) (s : Tcp σ) (action : TcpAction σ) : Bool :=
  match action, s.task.phase with
  | .run _, .loop sess (.dispatch freq _) =>
    match srv.handlers freq.opcode with
    | some (.sync handler) =>
      match handler (toRequest sess.id sess.apiKeyId freq) s.shared.app with
      | .returned _ _ => true
      | .panicked _ => false
    | _ => true
  | _, _ => true

/-- A request goes unanswered only if its handler panics. -/
theorem tcpServe_answer_none {srv : Server σ} {sess : Session} {freq : Frame.Request} {seq : UInt32}
    {app : σ} (h : (tcpServe srv sess freq seq app).answer = none) :
    ∃ handler left, srv.handlers freq.opcode = some (.sync handler) ∧
      handler (toRequest sess.id sess.apiKeyId freq) app = .panicked left := by
  unfold tcpServe at h
  split at h
  · cases h
  · cases h
  · rename_i handler hhandler
    unfold callHandler at h
    split at h
    · cases h
    · cases h
    · rename_i left hleft
      exact ⟨handler, left, hhandler, hleft⟩

theorem tcpCleaned_step {srv : Server σ} {sid : UInt64} {s s' : Tcp σ} {action : TcpAction σ}
    (hinv : TcpCleaned sid s) (hcalm : handlerReturns srv s action)
    (h : tcpStep srv sid s action = some s') : TcpCleaned sid s' := by
  unfold TcpCleaned at hinv
  cases tcpStep_steps h with
  | env hsh =>
    obtain ⟨sh, chan, phase⟩ := s
    cases phase with
    | loop _ _ => exact hinv
    | closing _ => exact hinv
    | _ => exact hinv.env hsh
  | net _ => exact hinv
  | run hmoves =>
    obtain ⟨sh, chan, phase⟩ := s
    cases hmoves with
    | refused => exact hinv
    | accepted => exact hinv
    | inserted hsess =>
      subst hsess
      exact rfl
    | panicked hserved hanswer =>
      subst hserved
      obtain ⟨handler, left, hhandler, hleft⟩ := tcpServe_answer_none hanswer
      simp [handlerReturns, hhandler, hleft] at hcalm
    | closed =>
      obtain rfl := hinv
      exact Vacant.deleted _ _
    | _ => exact hinv

/-- A task that panicked has left the session that it inserted. -/
def TcpAbandoned (sid : UInt64) (s : Tcp σ) : Prop :=
  s.task.phase = .ended .panicked → ∃ sess : Session, sess.id = sid ∧ Kept s.shared sess

theorem tcpAbandoned_step {srv : Server σ} {sid : UInt64} {s s' : Tcp σ} {action : TcpAction σ}
    (hinv : TcpInv sid s ∧ TcpAbandoned sid s) (h : tcpStep srv sid s action = some s') :
    TcpInv sid s' ∧ TcpAbandoned sid s' := by
  refine ⟨tcpInv_step hinv.1 h, ?_⟩
  obtain ⟨hinv, habandoned⟩ := hinv
  cases tcpStep_steps h with
  | env hsh =>
    intro hended
    obtain ⟨sess, rfl, hkept⟩ := habandoned hended
    exact ⟨sess, rfl, hkept.env hsh⟩
  | net _ => exact habandoned
  | run hmoves =>
    intro hended
    obtain ⟨sh, chan, phase⟩ := s
    cases hmoves with
    | panicked _ _ =>
      obtain hfresh | ⟨sess, hopen⟩ := hinv
      · exact hfresh.phase.elim
      · obtain ⟨rfl, hkept, -⟩ := hopen.phase
        exact ⟨_, hopen.id_eq, hkept.app _⟩
    | _ => simp at hended

/-- For its lifetime a session whose handler panicked stays in the store, though
its connection's task has ended. -/
theorem panicked_kept {srv : Server σ} {sid : UInt64} {sh : Shared σ} {actions : List (TcpAction σ)}
    {s : Tcp σ} (hrun : run (tcpStep srv sid) (tcpAccepted sh) actions = some s)
    (hended : s.task.phase = .ended .panicked) :
    ∃ sess : Session, sess.id = sid ∧ Kept s.shared sess := by
  have hstart : TcpInv sid (tcpAccepted sh) ∧ TcpAbandoned sid (tcpAccepted sh) := by
    refine ⟨tcpInv_accepted sid sh, ?_⟩
    intro hnever
    cases hnever
  exact (run_preserves tcpAbandoned_step hrun hstart).2 hended

/-- A task of either transport that was given a fresh id leaves no session under
it: over QUIC however it ends, over TCP in every run in which no handler panics. -/
theorem ended_vacant (srv : Server σ) (sid : UInt64) (sh : Shared σ) (hfresh : Vacant sh sid) :
    (∀ actions s, run (quicStep srv sid) (quicAccepted sh) actions = some s →
      ∀ result, s.phase = .ended result → Vacant s.shared sid) ∧
    ∀ actions s, Along (tcpStep srv sid) (fun s a => handlerReturns srv s a) (tcpAccepted sh) actions →
      run (tcpStep srv sid) (tcpAccepted sh) actions = some s →
        ∀ outcome, s.task.phase = .ended outcome → Vacant s.shared sid := by
  constructor
  · intro actions s hrun result hended
    have hstart : QuicCleaned sid (quicAccepted sh) := hfresh
    have hinv : QuicCleaned sid s := run_preserves quicCleaned_step hrun hstart
    unfold QuicCleaned at hinv
    rwa [hended] at hinv
  · intro actions s hcalm hrun outcome hended
    have hstart : TcpCleaned sid (tcpAccepted sh) := hfresh
    have hinv : TcpCleaned sid s := run_preserves_along tcpCleaned_step hcalm hrun hstart
    unfold TcpCleaned at hinv
    rwa [hended] at hinv

/-- A server like the example's whose handler panics on every call after its first. -/
def panickyServer : Server Nat where
  aead := keyTagAead
  keys := exampleKeys
  handlers := fun opcode =>
    if opcode = 5 then
      some (.sync fun _ calls =>
        if calls = 0 then .returned (.ok (newResponse .new)) 1 else .panicked calls)
    else none

/-- A server without sessions. -/
def quietShared : Shared Nat := ⟨0, .new ⟨100, 100⟩, 0⟩

/-- The second request's handler panics. -/
def panickyActions : List (TcpAction Nat) := openingActions ++ requestActions 5 ++ requestActions 2

theorem panicked_session_stays : Vacant quietShared 1 ∧
    ∃ s, run (tcpStep panickyServer 1) (tcpAccepted quietShared) panickyActions = some s ∧
      s.task.phase = .ended .panicked ∧ ¬Vacant s.shared 1 := by
  have hends : (run (tcpStep panickyServer 1) (tcpAccepted quietShared) panickyActions).map
      (fun s => (s.task.phase, s.shared.store.get 1)) =
        some (.ended .panicked, some exampleSession) := by rfl
  obtain ⟨s, hrun, hs⟩ := Option.map_eq_some_iff.mp hends
  obtain ⟨hphase, hstored⟩ := Prod.mk.inj hs
  refine ⟨rfl, s, hrun, hphase, ?_⟩
  intro hvacant
  rw [hvacant] at hstored
  cases hstored

/-- The first request is served, and then the client closes. -/
def closingActions : List (TcpAction Nat) :=
  openingActions ++ requestActions 4 ++
    .net (.hangup .unexpectedEof) :: List.replicate 3 (.run exampleNonce)

/-- Over QUIC the connection is lost with a stream open. -/
def losingActions : List (QuicAction Nat) :=
  .net (.deliver (anonymousHello 1)) :: List.replicate 2 (.run exampleNonce) ++
    [.openStream, .lost, .run exampleNonce]

theorem ended_vacant_panicky :
    (∃ s, run (quicStep panickyServer 1) (quicAccepted quietShared) losingActions = some s ∧
      s.phase = .ended (.ok ()) ∧ Vacant s.shared 1) ∧
    ∃ s, run (tcpStep panickyServer 1) (tcpAccepted quietShared) closingActions = some s ∧
      s.task.phase = .ended (.returned (.ok ())) ∧ Vacant s.shared 1 := by
  obtain ⟨hquic, htcp⟩ := ended_vacant panickyServer 1 quietShared rfl
  constructor
  · have hends : (run (quicStep panickyServer 1) (quicAccepted quietShared) losingActions).map
        Quic.phase = some (.ended (.ok ())) := by rfl
    obtain ⟨s, hrun, hphase⟩ := Option.map_eq_some_iff.mp hends
    exact ⟨s, hrun, hphase, hquic _ s hrun _ hphase⟩
  · have hends : (run (tcpStep panickyServer 1) (tcpAccepted quietShared) closingActions).map
        (fun s => s.task.phase) = some (.ended (.returned (.ok ()))) := by rfl
    obtain ⟨s, hrun, hphase⟩ := Option.map_eq_some_iff.mp hends
    exact ⟨s, hrun, hphase, htcp _ s (by decide +kernel) hrun _ hphase⟩

end Hush.Server
