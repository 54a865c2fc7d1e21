import Hush.Server.Expiry

/-! A session over QUIC: what holds of its connection in every run, and the rule
by which an invariant of a request stream holds of all of them in every run. -/
namespace Hush.Server

open Hush.Foundation Execution
open Hush.Frame hiding Request
open Hush.Session

variable {σ : Type}

/-- Before the session is inserted there are no request streams. -/
structure QuicUnopened (config : SessionConfig) (s : Quic σ) : Prop where
  phase : match s.phase with
    | .accept _ => False
    | .closing _ => False
    | _ => True
  log : ∀ e ∈ s.chan.log, e.IsArrival
  config_eq : s.shared.store.config = config
  streams : s.streams = []

/-- What holds of a session from its insertion on, with an invariant of its streams. -/
structure QuicOpened (inv : Session → StreamTask → Prop) (config : SessionConfig) (sid : UInt64)
    (s : Quic σ) (sess : Session) : Prop where
  id_eq : sess.id = sid
  untouched : sess.lastUsed = sess.createdAt
  marked : ∀ sess', .established sess' ∈ s.chan.log ↔ sess' = sess
  config_eq : s.shared.store.config = config
  stored : Unchanged s.shared sess
  streams : ∀ task ∈ s.streams, inv sess task
  phase : match s.phase with
    | .accept sess' => sess' = sess
    | .closing sess' => sess' = sess
    | .ended _ => True
    | _ => False

/-- An invariant of a session's streams: each is opened with the session's id and
key id, and its task finds the session in the store as it was inserted, or nothing. -/
structure StreamInvariant (srv : Server σ) (config : SessionConfig) (sess : Session)
    (inv : StreamTask → Prop) : Prop where
  fresh : inv ⟨sess.id, sess.apiKeyId, .opened, .fetch⟩
  net : ∀ {task : StreamTask} {now : Instant} {action : NetAction} {chan : Channel}, inv task →
    task.chan.net now action = some chan → inv { task with chan }
  moves : ∀ {sh sh' : Shared σ} {task task' : StreamTask}, sh.store.config = config →
    Unchanged sh sess → inv task → StreamMoves srv sh task task.phase sh' task' → inv task'

/-- A stream task changes nothing but the application state. -/
theorem StreamMoves.store_eq {srv : Server σ} {sh sh' : Shared σ} {task task' : StreamTask}
    {phase : StreamPhase} (h : StreamMoves srv sh task phase sh' task') :
    sh'.store = sh.store := by
  cases h <;> rfl

theorem Unchanged.of_store {sh sh' : Shared σ} {sess : Session} (h : Unchanged sh sess)
    (hstore : sh'.store = sh.store) : Unchanged sh' sess := by
  unfold Unchanged at h ⊢
  rwa [hstore]

namespace QuicOpened

variable {inv : Session → StreamTask → Prop} {config : SessionConfig} {sid : UInt64}
  {s s' : Quic σ} {sess : Session}

theorem env {action : EnvAction σ} {sh : Shared σ} (hopen : QuicOpened inv config sid s sess)
    (h : s.shared.env sid action = some sh) :
    QuicOpened inv config sid { s with shared := sh } sess := by
  refine ⟨hopen.id_eq, hopen.untouched, hopen.marked, ?_, ?_, hopen.streams, hopen.phase⟩
  · dsimp only
    rw [env_config h]
    exact hopen.config_eq
  · rw [← hopen.id_eq] at h
    exact hopen.stored.env h

theorem net {action : NetAction} {chan : Channel} (hopen : QuicOpened inv config sid s sess)
    (h : s.chan.net s.shared.now action = some chan) :
    QuicOpened inv config sid { s with chan } sess := by
  obtain ⟨events, hlog, harrival⟩ := net_log h
  refine ⟨hopen.id_eq, hopen.untouched, ?_, hopen.config_eq, hopen.stored, hopen.streams,
    hopen.phase⟩
  intro sess'
  dsimp only
  rw [hlog, ← hopen.marked, List.mem_append]
  exact or_iff_left fun hin => harrival _ hin

theorem setStream (hopen : QuicOpened inv config sid s sess) {index : Nat} {task : StreamTask}
    {sh : Shared σ} (hstore : sh.store = s.shared.store) (htask : inv sess task) :
    QuicOpened inv config sid
      { s with shared := sh, streams := s.streams.set index task } sess := by
  refine ⟨hopen.id_eq, hopen.untouched, hopen.marked, ?_, hopen.stored.of_store hstore,
    forall_mem_set hopen.streams htask, hopen.phase⟩
  dsimp only
  rw [hstore]
  exact hopen.config_eq

theorem step {srv : Server σ} {action : QuicAction σ}
    (hinv : StreamInvariant srv config sess (inv sess)) (hopen : QuicOpened inv config sid s sess)
    (h : quicStep srv sid s action = some s') : QuicOpened inv config sid s' sess := by
  have hphase := hopen.phase
  cases quicStep_steps h with
  | env hsh => exact hopen.env hsh
  | net hchan => exact hopen.net hchan
  | refused heq =>
    rw [heq] at hphase
    exact hphase.elim
  | accepted heq _ =>
    rw [heq] at hphase
    exact hphase.elim
  | inserted heq _ =>
    rw [heq] at hphase
    exact hphase.elim
  | opened heq =>
    rw [heq] at hphase
    obtain rfl := hphase
    refine ⟨hopen.id_eq, hopen.untouched, hopen.marked, hopen.config_eq, hopen.stored, ?_,
      by simp [heq]⟩
    intro task htask
    obtain hold | hnew := List.mem_append.mp htask
    · exact hopen.streams task hold
    · obtain rfl := List.mem_singleton.mp hnew
      rw [← hopen.id_eq]
      exact hinv.fresh
  | lost heq =>
    rw [heq] at hphase
    exact ⟨hopen.id_eq, hopen.untouched, hopen.marked, hopen.config_eq, hopen.stored,
      hopen.streams, hphase⟩
  | closed heq =>
    rw [heq] at hphase
    obtain rfl := hphase
    exact ⟨hopen.id_eq, hopen.untouched, hopen.marked, hopen.config_eq,
      .inl (SessionStore.get_delete_self _ _), hopen.streams, trivial⟩
  | streamNet htask hchan =>
    exact hopen.setStream rfl (hinv.net (hopen.streams _ (List.mem_of_getElem? htask)) hchan)
  | stream htask hmoves =>
    exact hopen.setStream hmoves.store_eq (hinv.moves hopen.config_eq hopen.stored
      (hopen.streams _ (List.mem_of_getElem? htask)) hmoves)

end QuicOpened

theorem QuicUnopened.step {srv : Server σ} (inv : Session → StreamTask → Prop)
    {config : SessionConfig} {sid : UInt64} {s s' : Quic σ} {action : QuicAction σ}
    (hfresh : QuicUnopened config s) (h : quicStep srv sid s action = some s') :
    QuicUnopened config s' ∨ ∃ sess, QuicOpened inv config sid s' sess := by
  have hphase := hfresh.phase
  have hlog := hfresh.log
  have hconfig := hfresh.config_eq
  have hstreams := hfresh.streams
  cases quicStep_steps h with
  | env hsh => exact .inl ⟨hphase, hlog, (env_config hsh).trans hconfig, hstreams⟩
  | net hchan => exact .inl ⟨hphase, net_isArrival hlog hchan, hconfig, hstreams⟩
  | refused _ => exact .inl ⟨trivial, hlog, hconfig, hstreams⟩
  | accepted _ _ => exact .inl ⟨trivial, hlog, hconfig, hstreams⟩
  | @inserted est sess _ hsess =>
    refine .inr ⟨sess, by rw [hsess]; rfl, by rw [hsess]; rfl, ?_, hconfig,
      .inr (SessionStore.get_insert_self _ _), ?_, rfl⟩
    · intro sess'
      have hold : .established sess' ∉ s.chan.log := fun hin => hlog _ hin
      simp [Channel.note, hold]
    · rw [hstreams]
      simp
  | opened heq =>
    rw [heq] at hphase
    exact hphase.elim
  | lost heq =>
    rw [heq] at hphase
    exact hphase.elim
  | closed heq =>
    rw [heq] at hphase
    exact hphase.elim
  | streamNet htask _ => simp [hstreams] at htask
  | stream htask _ => simp [hstreams] at htask

def QuicInv (inv : Session → StreamTask → Prop) (config : SessionConfig) (sid : UInt64)
    (s : Quic σ) : Prop :=
  QuicUnopened config s ∨ ∃ sess, QuicOpened inv config sid s sess

theorem quicInv_step {srv : Server σ} {inv : Session → StreamTask → Prop}
    {config : SessionConfig} {sid : UInt64}
    (hinv : ∀ sess, StreamInvariant srv config sess (inv sess)) {s s' : Quic σ}
    {action : QuicAction σ} (h : QuicInv inv config sid s)
    (hstep : quicStep srv sid s action = some s') : QuicInv inv config sid s' := by
  obtain hfresh | ⟨sess, hopen⟩ := h
  · exact hfresh.step inv hstep
  · exact .inr ⟨sess, hopen.step (hinv sess) hstep⟩

/-- In every state that a run reaches after the session was inserted. -/
theorem quicOpened_run {srv : Server σ} {sid : UInt64} {sh : Shared σ}
    {inv : Session → StreamTask → Prop} {actions : List (QuicAction σ)} {s : Quic σ}
    {sess : Session} (hinv : ∀ sess, StreamInvariant srv sh.store.config sess (inv sess))
    (hrun : run (quicStep srv sid) (quicAccepted sh) actions = some s)
    (hsess : .established sess ∈ s.chan.log) : QuicOpened inv sh.store.config sid s sess := by
  have hstart : QuicUnopened sh.store.config (quicAccepted sh) :=
    ⟨trivial, by simp [quicAccepted, Channel.opened], rfl, rfl⟩
  have hreached : QuicInv inv sh.store.config sid s :=
    run_preserves (quicInv_step hinv) hrun (.inl hstart)
  obtain hfresh | ⟨sess', hopen⟩ := hreached
  · exact (hfresh.log _ hsess).elim
  · obtain rfl := (hopen.marked sess).mp hsess
    exact hopen

end Hush.Server
