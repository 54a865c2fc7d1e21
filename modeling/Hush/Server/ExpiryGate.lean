import Hush.Server.Cleanup
import Hush.Server.Replay

/-! The expiry gate of a request stream. Its task looks at the store three times;
between any two looks the session may go, but it never comes back, and without a
session the task is left with a key that opens nothing. -/
namespace Hush.Server

open Hush.Foundation Execution
open Hush.Frame hiding Request
open Hush.Session

variable {σ : Type}

/-- After the `past` actions of the run, the task of the stream took its first
look at the store: at `time`, and found the session there. -/
def FirstLook (srv : Server σ) (sid : UInt64) (sh : Shared σ) (index : Nat) (sess : Session)
    (time : Instant) (actions : List (QuicAction σ)) : Prop :=
  ∃ past nonce s task, past ++ [.stream index nonce] <+: actions ∧
    run (quicStep srv sid) (quicAccepted sh) past = some s ∧
    s.streams[index]? = some task ∧ task.phase = .fetch ∧
    s.shared.store.get sid = some sess ∧ s.shared.now = time

theorem FirstLook.later {srv : Server σ} {sid : UInt64} {sh : Shared σ} {index : Nat}
    {sess : Session} {time : Instant} {actions : List (QuicAction σ)}
    (h : FirstLook srv sid sh index sess time actions) (action : QuicAction σ) :
    FirstLook srv sid sh index sess time (actions ++ [action]) := by
  obtain ⟨past, nonce, s, task, hprefix, hrest⟩ := h
  exact ⟨past, nonce, s, task, hprefix.trans (List.prefix_append _ _), hrest⟩

/-- The task found the session, and then within its lifetime and idle timeout. -/
def Passed (config : SessionConfig) (sess : Session) (look : Instant → Prop) : Prop :=
  ∃ time, look time ∧ ¬Dead config time sess

/-- A session that is alive was so at every earlier instant. -/
theorem not_dead_earlier {config : SessionConfig} {sess : Session} {now time : Instant}
    (htime : time ≤ now) (h : ¬Dead config now sess) : ¬Dead config time sess := by
  have hage : elapsed time sess.createdAt ≤ elapsed now sess.createdAt :=
    Nat.sub_le_sub_right htime _
  have hidle : elapsed time sess.lastUsed ≤ elapsed now sess.lastUsed :=
    Nat.sub_le_sub_right htime _
  unfold Dead at h ⊢
  omega

/-- Frames were read under the empty key, or the task passed the gate. -/
def ReadsGated (config : SessionConfig) (sess : Session) (look : Instant → Prop)
    (log : List Event) : Prop :=
  (∀ read ∈ reads log, read.1 = []) ∨ Passed config sess look

namespace ReadsGated

variable {config : SessionConfig} {sess : Session} {look : Instant → Prop} {log : List Event}

/-- Events that are not reads keep it. -/
theorem append (h : ReadsGated config sess look log) {events : List Event}
    (hreads : reads events = []) : ReadsGated config sess look (log ++ events) := by
  unfold ReadsGated
  rw [reads_append, hreads, List.append_nil]
  exact h

/-- So does a read under a key that the gate left the task with. -/
theorem received (h : ReadsGated config sess look log) {key : List UInt8}
    (hkey : key = [] ∨ Passed config sess look) (recv : Source) :
    ReadsGated config sess look (log ++ receivedFrame key recv) := by
  obtain rfl | hpassed := hkey
  · apply h.imp_left
    intro hempty read hread
    rw [reads_append] at hread
    obtain hold | hnew := List.mem_append.mp hread
    · exact hempty read hold
    · unfold receivedFrame at hnew
      split at hnew
      · obtain rfl := List.mem_singleton.mp hnew
        rfl
      · cases hnew
  · exact .inr hpassed

end ReadsGated

/-- How far a stream task has come through the gate; `look` says when its first
look at the store found the session. -/
structure Gated (config : SessionConfig) (sess : Session) (look : Instant → Prop) (sh : Shared σ)
    (task : StreamTask) : Prop where
  id_eq : task.sessionId = sess.id
  phase : match task.phase with
    | .judge found => found = none ∧ Vacant sh sess.id ∨
        found = some sess ∧ ∃ time, look time ∧ time ≤ sh.now
    | .key => Vacant sh sess.id ∨ Passed config sess look
    | .touch key => key = [] ∨ Passed config sess look
    | .read key => key = [] ∨ Passed config sess look
    | _ => True
  served : ReadsGated config sess look task.chan.log

namespace Gated

variable {config : SessionConfig} {sess : Session} {look look' : Instant → Prop}
  {sh sh' : Shared σ} {task task' : StreamTask}

/-- Time passes, and a session that is gone stays so. -/
theorem later (h : Gated config sess look sh task) (hlook : ∀ time, look time → look' time)
    (hnow : sh.now ≤ sh'.now) (hvacant : Vacant sh sess.id → Vacant sh' sess.id) :
    Gated config sess look' sh' task := by
  have hpassed : Passed config sess look → Passed config sess look' := by
    rintro ⟨time, htime, halive⟩
    exact ⟨time, hlook time htime, halive⟩
  refine ⟨h.id_eq, ?_, h.served.imp_right hpassed⟩
  have hphase := h.phase
  split at hphase
  · obtain ⟨hnone, hgone⟩ | ⟨hfound, time, htime, hle⟩ := hphase
    · exact .inl ⟨hnone, hvacant hgone⟩
    · exact .inr ⟨hfound, time, hlook time htime, hle.trans hnow⟩
  · exact hphase.imp hvacant hpassed
  · exact hphase.imp_right hpassed
  · exact hphase.imp_right hpassed
  · trivial

theorem net (h : Gated config sess look sh task) {now : Instant} {action : NetAction}
    {chan : Channel} (hnet : task.chan.net now action = some chan) :
    Gated config sess look sh { task with chan } := by
  obtain ⟨events, hlog, -, hreads, -⟩ := net_reads hnet
  refine ⟨h.id_eq, h.phase, ?_⟩
  dsimp only
  rw [hlog]
  exact h.served.append hreads

/-- One case for each way through the task's code. The look at the store is the
run's next moment. -/
theorem moves {srv : Server σ} (hconfig : sh.store.config = config) (hstored : Unchanged sh sess)
    (hgate : Gated config sess look sh task)
    (hnow : task.phase = .fetch → sh.store.get sess.id = some sess → look sh.now)
    (h : StreamMoves srv sh task task.phase sh' task') : Gated config sess look sh task' := by
  have hid := hgate.id_eq
  have hphase := hgate.phase
  have hserved := hgate.served
  generalize task.phase = phase at h hphase hnow
  cases h with
  | fetched =>
    refine ⟨hid, ?_, hserved⟩
    dsimp only [StreamTask.next]
    rw [hid]
    obtain hnone | hsome := hstored
    · exact .inl ⟨hnone, hnone⟩
    · exact .inr ⟨hsome, sh.now, hnow rfl hsome, Nat.le_refl _⟩
  | expired _ => exact ⟨hid, trivial, (hserved.append rfl).append rfl⟩
  | @alive found hcheck =>
    refine ⟨hid, ?_, hserved.append rfl⟩
    obtain ⟨-, hgone⟩ | ⟨rfl, time, htime, hle⟩ := hphase
    · exact .inl hgone
    · refine .inr ⟨time, htime, not_dead_earlier hle ?_⟩
      intro hdead
      rw [← hconfig] at hdead
      rw [expiryCheck_some_iff.mpr hdead] at hcheck
      cases hcheck
  | keyed =>
    refine ⟨hid, ?_, hserved⟩
    dsimp only [StreamTask.next]
    rw [hid]
    obtain hgone | hpassed := hphase
    · left
      rw [hgone]
      rfl
    · exact .inr hpassed
  | touched => exact ⟨hid, hphase, hserved⟩
  | unread _ => exact ⟨hid, trivial, (hserved.received hphase _).append rfl⟩
  | read _ => exact ⟨hid, trivial, hserved.received hphase _⟩
  | unanswered _ _ => exact ⟨hid, trivial, hserved.append (reads_dispatchEvents _ _ _).1⟩
  | answered _ _ =>
    exact ⟨hid, trivial, (hserved.append (reads_dispatchEvents _ _ _).1).append rfl⟩

end Gated

/-! ### The steps of a connection, seen from one stream -/

/-- Where the task of a stream comes from in a step of the connection. -/
inductive StreamChange (srv : Server σ) (sid : UInt64) (s : Quic σ) (index : Nat) :
    QuicAction σ → StreamTask → Prop where
  | kept {action : QuicAction σ} {task : StreamTask} : s.streams[index]? = some task →
      StreamChange srv sid s index action task
  | net {action : QuicAction σ} {task : StreamTask} {net : NetAction} {chan : Channel} :
      s.streams[index]? = some task → task.chan.net s.shared.now net = some chan →
        StreamChange srv sid s index action { task with chan }
  | opened {action : QuicAction σ} {sess : Session} : s.phase = .accept sess →
      StreamChange srv sid s index action ⟨sid, sess.apiKeyId, .opened, .fetch⟩
  | moved {nonce : Nonce} {task task' : StreamTask} {sh : Shared σ} :
      s.streams[index]? = some task → StreamMoves srv s.shared task task.phase sh task' →
        StreamChange srv sid s index (.stream index nonce) task'

theorem quicRun_streams {srv : Server σ} {sid : UInt64} {s s' : Quic σ}
    (h : quicRun srv sid s = some s') : s'.streams = s.streams := by
  unfold quicRun at h
  split at h
  · split at h
    · cases h
    · obtain rfl := Option.some.inj h
      rfl
    · obtain rfl := Option.some.inj h
      rfl
  · obtain rfl := Option.some.inj h
    rfl
  · cases h
  · obtain rfl := Option.some.inj h
    rfl
  · cases h

/-- A task in a list in which one was replaced. -/
theorem getElem?_set_cases {α : Type} {l : List α} {index other : Nat} {a b : α}
    (h : (l.set other a)[index]? = some b) : (index = other ∧ b = a) ∨ l[index]? = some b := by
  rw [List.getElem?_set] at h
  split at h
  · rename_i heq
    split at h
    · exact .inl ⟨heq.symm, (Option.some.inj h).symm⟩
    · cases h
  · exact .inr h

/-- A task in a list to which one was added. -/
theorem getElem?_concat_cases {α : Type} {l : List α} {index : Nat} {a b : α}
    (h : (l ++ [a])[index]? = some b) : l[index]? = some b ∨ b = a := by
  rw [List.getElem?_append] at h
  split at h
  · exact .inl h
  · exact .inr (List.mem_singleton.mp (List.mem_of_getElem? h))

theorem quicStep_streamChange {srv : Server σ} {sid : UInt64} {s s' : Quic σ}
    {action : QuicAction σ} (h : quicStep srv sid s action = some s') {index : Nat}
    {task' : StreamTask} (htask : s'.streams[index]? = some task') :
    StreamChange srv sid s index action task' := by
  unfold quicStep at h
  cases action with
  | env action =>
    obtain ⟨sh, -, rfl⟩ := Option.map_eq_some_iff.mp h
    exact .kept htask
  | net action =>
    obtain ⟨chan, -, rfl⟩ := Option.map_eq_some_iff.mp h
    exact .kept htask
  | run nonce =>
    rw [quicRun_streams h] at htask
    exact .kept htask
  | openStream =>
    dsimp only at h
    split at h
    · rename_i sess hphase
      obtain rfl := Option.some.inj h
      obtain hkept | rfl := getElem?_concat_cases htask
      · exact .kept hkept
      · exact .opened hphase
    · cases h
  | lost =>
    dsimp only at h
    split at h
    · obtain rfl := Option.some.inj h
      exact .kept htask
    · cases h
  | streamNet other action =>
    dsimp only at h
    split at h
    · cases h
    · rename_i task hold
      obtain ⟨chan, hchan, rfl⟩ := Option.map_eq_some_iff.mp h
      obtain ⟨rfl, rfl⟩ | hkept := getElem?_set_cases htask
      · exact .net hold hchan
      · exact .kept hkept
  | stream other nonce =>
    dsimp only at h
    split at h
    · cases h
    · rename_i task hold
      obtain ⟨next, hnext, rfl⟩ := Option.map_eq_some_iff.mp h
      obtain ⟨rfl, rfl⟩ | hkept := getElem?_set_cases htask
      · exact .moved hold (streamRun_moves hnext)
      · exact .kept hkept

theorem env_now_le {sh sh' : Shared σ} {own : UInt64} {action : EnvAction σ}
    (h : sh.env own action = some sh') : sh.now ≤ sh'.now := by
  unfold Shared.env at h
  cases action <;> dsimp only at h <;> (try split at h) <;> simp_all <;> subst h <;> simp

theorem StreamMoves.now_eq {srv : Server σ} {sh sh' : Shared σ} {task task' : StreamTask}
    {phase : StreamPhase} (h : StreamMoves srv sh task phase sh' task') : sh'.now = sh.now := by
  cases h <;> rfl

theorem quicStep_now_le {srv : Server σ} {sid : UInt64} {s s' : Quic σ} {action : QuicAction σ}
    (h : quicStep srv sid s action = some s') : s.shared.now ≤ s'.shared.now := by
  cases quicStep_steps h with
  | env hsh => exact env_now_le hsh
  | stream _ hmoves => exact hmoves.now_eq.ge
  | _ => exact Nat.le_refl _

/-- A session that is gone does not come back. -/
theorem QuicOpened.vacant_step {srv : Server σ} {inv : Session → StreamTask → Prop}
    {config : SessionConfig} {sid : UInt64} {s s' : Quic σ} {sess : Session} {action : QuicAction σ}
    (hopen : QuicOpened inv config sid s sess) (h : quicStep srv sid s action = some s')
    (hvacant : Vacant s.shared sess.id) : Vacant s'.shared sess.id := by
  have hphase := hopen.phase
  cases quicStep_steps h with
  | env hsh =>
    rw [← hopen.id_eq] at hsh
    exact hvacant.env hsh
  | inserted heq _ =>
    rw [heq] at hphase
    exact hphase.elim
  | closed heq =>
    rw [heq] at hphase
    obtain rfl := hphase
    exact Vacant.deleted _ _
  | stream _ hmoves => exact hvacant.of_store hmoves.store_eq
  | _ => exact hvacant

/-- What holds of the gate in every state of a run, with the actions so far. -/
structure QuicGated (srv : Server σ) (sid : UInt64) (sh : Shared σ) (actions : List (QuicAction σ))
    (s : Quic σ) : Prop where
  reads : QuicInv (StreamReads srv) sh.store.config sid s
  gated : ∀ sess, QuicOpened (StreamReads srv) sh.store.config sid s sess → ∀ index task,
    s.streams[index]? = some task →
      Gated sh.store.config sess (fun time => FirstLook srv sid sh index sess time actions) s.shared
        task

theorem quicGated_step {srv : Server σ} {sid : UInt64} {sh : Shared σ}
    {past : List (QuicAction σ)} {s s' : Quic σ} {action : QuicAction σ}
    (hrun : run (quicStep srv sid) (quicAccepted sh) past = some s)
    (hinv : QuicGated srv sid sh past s) (h : quicStep srv sid s action = some s') :
    QuicGated srv sid sh (past ++ [action]) s' := by
  refine ⟨quicInv_step (streamReads_invariant srv _) hinv.reads h, ?_⟩
  intro sess hopen' index task' htask'
  have hchange := quicStep_streamChange h htask'
  obtain hfresh | ⟨sess', hopen⟩ := hinv.reads
  · -- before the insertion there are no streams, and a step does not open one
    have hstreams := hfresh.streams
    have hphase := hfresh.phase
    cases hchange with
    | kept hold => simp [hstreams] at hold
    | net hold _ => simp [hstreams] at hold
    | opened heq =>
      rw [heq] at hphase
      exact hphase.elim
    | moved hold _ => simp [hstreams] at hold
  · have hnext := hopen.step (streamReads_invariant srv _ _) h
    obtain rfl := (hnext.marked sess).mp ((hopen'.marked sess).mpr rfl)
    have hnow := quicStep_now_le h
    have hvacant := hopen.vacant_step h
    have hlook := fun time (hlook : FirstLook srv sid sh index sess time past) => hlook.later action
    cases hchange with
    | kept hold => exact (hinv.gated sess hopen index _ hold).later hlook hnow hvacant
    | net hold hchan =>
      exact ((hinv.gated sess hopen index _ hold).net hchan).later hlook hnow hvacant
    | opened heq => exact ⟨hopen.id_eq.symm, trivial, .inl (by simp [Channel.opened, Server.reads])⟩
    | @moved nonce task _ sh'' hold hmoves =>
      have hgate := (hinv.gated sess hopen index task hold).later hlook (Nat.le_refl _) id
      have hlooks : task.phase = .fetch → s.shared.store.get sess.id = some sess →
          FirstLook srv sid sh index sess s.shared.now (past ++ [.stream index nonce]) := by
        intro hphase hfound
        rw [hopen.id_eq] at hfound
        exact ⟨past, nonce, s, task, List.prefix_rfl, hrun, hold, hphase, hfound, rfl⟩
      exact (hgate.moves hopen.config_eq hopen.stored hlooks hmoves).later (fun _ => id) hnow hvacant

theorem frameCall_eq_some {srv : Server σ} {serves : UInt16 → Bool} {sess : Session}
    {key : List UInt8} {frame : Frame} {req : Request} {seq : UInt32}
    (h : frameCall srv serves sess (key, frame) = some (req, seq)) :
    ∃ freq, decodeRequest srv.aead (some key) frame.body = .ok (freq, seq) ∧
      req = toRequest sess.id sess.apiKeyId freq := by
  unfold frameCall at h
  split at h
  · rename_i freq seq' hdecode
    unfold requestCall at h
    split at h
    · simp only [Option.some.injEq, Prod.mk.injEq] at h
      obtain ⟨rfl, rfl⟩ := h
      exact ⟨freq, hdecode, rfl⟩
    · cases h
  · cases h

/-- The frame that a call of a handler was made for. -/
theorem StreamReads.read_of_call {srv : Server σ} {sess : Session} {task : StreamTask} {call : Call}
    (h : StreamReads srv sess task) (hcall : call ∈ calls task.chan.log) :
    ∃ frame, reads task.chan.log = [(sess.key, frame)] ∧ sess.key ≠ [] ∧
      frameCall srv (quicServes srv) sess (sess.key, frame) = some call := by
  have hmem : call ∈ (reads task.chan.log).filterMap (frameCall srv (quicServes srv) sess) := by
    rw [← h.served.calls_eq]
    exact List.mem_append_left _ hcall
  obtain ⟨⟨key, frame⟩, hread, hframe⟩ := List.mem_filterMap.mp hmem
  have hne : key ≠ [] := by
    rintro rfl
    rw [frameCall_nil] at hframe
    cases hframe
  have hkey : key = sess.key := by
    have hkeys := h.served.mem_keys _ hread
    simpa [hne] using hkeys
  subst hkey
  refine ⟨frame, ?_, hne, hframe⟩
  obtain ⟨first, hfirst⟩ := List.length_eq_one_iff.mp
    (Nat.le_antisymm h.once (List.length_pos_of_mem hread))
  rw [hfirst] at hread ⊢
  rw [List.mem_singleton.mp hread]

/-- In every run: whenever a handler is called on a request stream, the stream
task's first look at the store found the session there, neither past its lifetime
nor idle for too long at that moment, and the one frame that the task read was
opened under the session's own key. -/
theorem called_past_gate (srv : Server σ) (sid : UInt64) (sh : Shared σ)
    (actions : List (QuicAction σ)) (s : Quic σ)
    (hrun : run (quicStep srv sid) (quicAccepted sh) actions = some s) (index : Nat)
    (task : StreamTask) (htask : s.streams[index]? = some task) (req : Request) (seq : UInt32)
    (hcall : (req, seq) ∈ calls task.chan.log) :
    ∃ sess, .established sess ∈ s.chan.log ∧
      (∃ time, FirstLook srv sid sh index sess time actions ∧ ¬Dead sh.store.config time sess) ∧
      ∃ frame freq, reads task.chan.log = [(sess.key, frame)] ∧ sess.key ≠ [] ∧
        decodeRequest srv.aead (some sess.key) frame.body = .ok (freq, seq) ∧
        req = toRequest sid sess.apiKeyId freq := by
  have hstart : QuicGated srv sid sh [] (quicAccepted sh) := by
    constructor
    · exact .inl ⟨trivial, by simp [quicAccepted, Channel.opened], rfl, rfl⟩
    · intro sess _ index task htask
      simp [quicAccepted] at htask
  have hinv := run_history quicGated_step hrun hstart
  obtain hfresh | ⟨sess, hopen⟩ := hinv.reads
  · simp [hfresh.streams] at htask
  · have hreads := hopen.streams task (List.mem_of_getElem? htask)
    obtain ⟨frame, hread, hne, hframe⟩ := hreads.read_of_call hcall
    obtain ⟨freq, hdecode, hreq⟩ := frameCall_eq_some hframe
    refine ⟨sess, (hopen.marked sess).mpr rfl, ?_, frame, freq, hread, hne, hdecode, ?_⟩
    · obtain hempty | hpassed := (hinv.gated sess hopen index task htask).served
      · have hkey := hempty (sess.key, frame) (by simp [hread])
        exact absurd hkey hne
      · exact hpassed
    · rw [hreq, hopen.id_eq]

/-- The session is looked up at time 8, deleted by no one, and its request served. -/
def gatedActions : List (QuicAction Nat) :=
  .net (.deliver (anonymousHello 1)) :: List.replicate 2 (.run exampleNonce) ++
    .env (.advance 8) :: .openStream :: .streamNet 0 (.deliver exampleFrame) ::
      List.replicate 6 (.stream 0 exampleNonce)

theorem called_past_gate_example :
    ∃ s task, run (quicStep exampleServer 1) (quicAccepted ⟨0, .new ⟨10, 100⟩, 0⟩) gatedActions =
        some s ∧ s.streams[0]? = some task ∧
      (⟨5, .new, 1, ""⟩, 9) ∈ calls task.chan.log ∧
      ∃ sess, .established sess ∈ s.chan.log ∧ ∃ time,
        FirstLook exampleServer 1 ⟨0, .new ⟨10, 100⟩, 0⟩ 0 sess time gatedActions ∧
          ¬Dead ⟨10, 100⟩ time sess := by
  have hends : (run (quicStep exampleServer 1) (quicAccepted ⟨0, .new ⟨10, 100⟩, 0⟩)
      gatedActions).map (fun s => s.streams.map fun task => calls task.chan.log) =
        some [[(⟨5, .new, 1, ""⟩, 9)]] := by rfl
  obtain ⟨s, hrun, hs⟩ := Option.map_eq_some_iff.mp hends
  obtain ⟨task, htasks, hcalls⟩ := List.map_eq_singleton_iff.mp hs
  have htask : s.streams[0]? = some task := by simp [htasks]
  have hcall : (⟨5, .new, 1, ""⟩, 9) ∈ calls task.chan.log := by simp [hcalls]
  obtain ⟨sess, hsess, hlook, -⟩ :=
    called_past_gate exampleServer 1 _ gatedActions s hrun 0 task htask _ _ hcall
  exact ⟨s, task, hrun, htask, hcall, sess, hsess, hlook⟩

end Hush.Server
