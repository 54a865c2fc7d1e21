import Hush.Client.Turns

/-! Every step of a client and of its server keeps the calls in turn, until the
connection is dead for them. -/
namespace Hush.Client

open Hush.Foundation BigEndian Execution Link Stream
open Hush.Frame hiding Response
open Hush.Session
open Hush.Server (NetAction Tcp TcpAction TcpTask Joining Exchange Conversed Answer
  ResponseKept answers arrivedBytes)

variable {σ : Type} {srv : Server.Server σ} {join : Joining}

/-- Both sides have read all that the other wrote, and the server answers nothing. -/
structure Settled (l : Talk σ) : Prop where
  heard : l.left.stream.taken = l.right.task.chan.send.written
  idle : l.right.task.phase.isOver = true ∨
    l.right.task.phase.isDispatching = false ∧ l.right.task.chan.recv.bytes = [] ∧
      arrivedBytes l.right.task.chan.log = l.left.stream.send.written

/-- The client can no longer write a byte, or no longer read one. -/
def TcpClient.Dead (c : TcpClient) : Prop :=
  (∃ kind, c.stream.send.room = some (0, kind)) ∨
    c.stream.recv.bytes = [] ∧ c.stream.recv.ending ≠ .wouldBlock

/-- A call that holds the guard may be dropped before it has written a byte, once
the connection has settled, or once it is dead; any other call may be dropped at
any time. -/
def Droppable (l : Talk σ) (index : Nat) : Prop :=
  ∀ g, l.left.guard = some g → g.index = index →
    g.phase = .writing g.frame.bytes ∨ Settled l ∨ l.left.Dead

/-! ### One step of the client -/

namespace Mode

variable {c c' : TcpClient} {task : TcpTask} {exs : List Exchange} {place : Nat → Nat}

/-- Calls that do not hold the guard move on. -/
theorem kept (h : Mode join c task exs place) (hstream : c'.stream = c.stream)
    (hguard : c'.guard = c.guard) (hbefore : AnsweredBefore c c') : Mode join c' task exs place := by
  cases h with
  | inTurn hturn hplace =>
    refine .inTurn ⟨by rw [hstream]; exact hturn.written, by rw [hstream]; exact hturn.taken,
      hturn.enough, hturn.fits, ?_⟩ fun index hindex => hplace index (hbefore.answered hindex)
    unfold Current
    rw [hguard]
    exact hturn.current
  | mute hroom hwriting =>
    exact .mute (by rw [hstream]; exact hroom) (by rw [hguard]; exact hwriting)
  | deaf hbytes hover =>
    rw [← hstream] at hbytes hover
    exact .deaf hbytes hover

theorem net (h : Mode join c task exs place) {action : NetAction} {stream : Endpoint}
    (hallowed : CallAction.allowed c (.net action) = true)
    (hnet : c.stream.net action = some stream) : Mode join { c with stream } task exs place := by
  unfold Endpoint.net at hnet
  cases action with
  | deliver bytes => cases hallowed
  | hangup kind =>
    dsimp only at hnet
    split at hnet
    · rename_i hkind
      obtain rfl := Option.some.inj hnet
      cases h with
      | inTurn hturn hplace =>
        exact .inTurn ⟨hturn.written, hturn.taken, hturn.enough, hturn.fits, hturn.current⟩ hplace
      | mute hroom hwriting => exact .mute hroom hwriting
      | deaf hbytes _ => exact .deaf hbytes (.inl hkind.2)
    · cases hnet
  | limit room kind =>
    obtain rfl := Option.some.inj hnet
    have hnone : c.stream.send.room = none := by
      simpa [CallAction.allowed] using hallowed
    cases h with
    | inTurn hturn hplace =>
      exact .inTurn ⟨hturn.written, hturn.taken, hturn.enough, hturn.fits, hturn.current⟩ hplace
    | mute hroom _ =>
      rw [hnone] at hroom
      cases hroom
    | deaf hbytes hover => exact .deaf hbytes hover

/-- A call takes the lock. -/
theorem lock (h : Mode join c task exs place) {index : Nat} {kind : CallKind} {frame : Frame}
    (hfree : c.guard = none) (hfits : frame.Fits) :
    Mode join { c.setPhase index .locked with
      guard := some ⟨index, kind, frame, .writing frame.bytes⟩ } task exs place := by
  have hbefore : AnsweredBefore c { c.setPhase index .locked with
      guard := some ⟨index, kind, frame, .writing frame.bytes⟩ } :=
    AnsweredBefore.of_setPhase rfl (by simp)
  cases h with
  | inTurn hturn hplace =>
    have hcurrent := hturn.current
    unfold Current at hcurrent
    rw [hfree] at hcurrent
    obtain ⟨rfl, rfl⟩ := hcurrent
    exact .inTurn ⟨hturn.written, hturn.taken, hturn.enough, hturn.fits, hfits, rfl, rfl⟩
      fun index hindex => hplace index (hbefore.answered hindex)
  | mute hroom _ =>
    refine .mute hroom fun g hg => ?_
    obtain rfl := Option.some.inj hg
    exact ⟨_, rfl⟩
  | deaf hbytes hover => exact .deaf hbytes hover

/-- A write fails: no later write takes a byte. -/
theorem unwritten {index : Nat} {buf : List UInt8} {kind : ErrorKind} {stream : Endpoint}
    {phase : CallPhase} (hwrite : c.stream.writeAll buf = (.error kind, stream)) :
    Mode join (c.release stream index phase) task exs place := by
  have hroom : stream.send.room = some (0, kind) := by
    unfold Endpoint.writeAll Sink.writeAll at hwrite
    obtain ⟨hresult, rfl⟩ := Prod.mk.inj hwrite
    cases hroom : c.stream.send.room with
    | none => simp [hroom] at hresult
    | some room =>
      obtain ⟨room, kind'⟩ := room
      by_cases hlong : buf.length ≤ room
      · simp [hroom, hlong] at hresult
      · simp only [hroom, hlong, if_false, Except.error.injEq] at hresult ⊢
        rw [hresult]
  exact .mute hroom fun g hg => by cases hg

theorem guardAt_wrote {g : Guard} {said left : List UInt8} (h : said ++ left = g.frame.bytes) :
    GuardAt { g with phase := g.kind.wrote left } said [] := by
  cases left with
  | nil =>
    rw [List.append_nil] at h
    cases hkind : g.kind with
    | do_ => exact ⟨h, rfl⟩
    | startStream => exact h
  | cons b rest => cases g.kind <;> exact ⟨h, rfl⟩

/-- Some of a request is written. -/
theorem wrote (h : Mode join c task exs place) {g : Guard} {left : List UInt8} {count : Nat}
    {stream : Endpoint} (hg : c.guard = some g) (hphase : g.phase = .writing left)
    (hleft : left ≠ []) (hwrite : c.stream.writeAll (left.take count) = (.ok (), stream)) :
    Mode join { c with stream, guard := some { g with phase := g.kind.wrote (left.drop count) } }
      task exs place := by
  obtain ⟨hrecv, htaken, part, -, hwritten, hall⟩ := Endpoint.writeAll_takes hwrite
  rw [hall rfl] at hwritten
  cases h with
  | @inTurn closed said heard hturn hplace =>
    have hcurrent := hturn.current
    unfold Current at hcurrent
    rw [hg] at hcurrent
    obtain ⟨hfits, hat⟩ := hcurrent
    unfold GuardAt at hat
    rw [hphase] at hat
    obtain ⟨hbytes, rfl⟩ := hat
    have hnext : InTurn join
        { c with stream, guard := some { g with phase := g.kind.wrote (left.drop count) } } exs closed
        (said ++ left.take count) [] := by
      refine ⟨?_, by rw [htaken]; exact hturn.taken, hturn.enough, hturn.fits, hfits, ?_⟩
      · dsimp only
        rw [hwritten, hturn.written]
        simp only [List.append_assoc]
      · apply guardAt_wrote
        rw [List.append_assoc, List.take_append_drop, hbytes]
    exact .inTurn hnext hplace
  | @mute kind hroom hwriting =>
    -- a write that takes no byte leaves all of them
    unfold Endpoint.writeAll Sink.writeAll at hwrite
    rw [hroom] at hwrite
    dsimp only at hwrite
    split at hwrite
    · rename_i hempty
      obtain ⟨-, rfl⟩ := Prod.mk.inj hwrite
      have hnone : left.take count = [] := List.eq_nil_of_length_eq_zero (Nat.le_zero.mp hempty)
      have hdrop : left.drop count = left := by
        have hsplit := List.take_append_drop count left
        rwa [hnone, List.nil_append] at hsplit
      have hzero : (0 - (left.take count).length, kind) = (0, kind) := by rw [Nat.zero_sub]
      refine .mute (congrArg some hzero) fun g' hg' => ?_
      obtain rfl := Option.some.inj hg'
      refine ⟨left, ?_⟩
      dsimp only
      rw [hdrop]
      unfold CallKind.wrote
      cases left with
      | nil => exact absurd rfl hleft
      | cons b rest => rfl
    · cases (Prod.mk.inj hwrite).1
  | deaf hbytes hover =>
    rw [← hrecv] at hbytes
    refine .deaf hbytes ?_
    unfold Endpoint.received at hover ⊢
    dsimp only
    rw [hrecv, htaken]
    exact hover

/-- A read fails: no later read takes a byte. -/
theorem unread {index need count : Nat} {kind : ErrorKind} {stream : Endpoint} {phase : CallPhase}
    (hread : c.stream.readSome need count = some (.error kind, stream)) :
    Mode join (c.release stream index phase) task exs place := by
  obtain ⟨rfl, hbytes, hending⟩ := Endpoint.readSome_error hread
  exact .deaf hbytes (.inl hending)

/-- Where no byte is left to read, a read takes none. -/
theorem deaf_read {c' : TcpClient} {need count : Nat} {part : List UInt8} {stream : Endpoint}
    (hnone : c.stream.recv.bytes = [])
    (hover : c.stream.recv.ending ≠ .wouldBlock ∨
      task.phase.isOver = true ∧ c.stream.received = task.chan.send.written)
    (hread : c.stream.readSome need count = some (.ok part, stream)) (hstream : c'.stream = stream) :
    part = [] ∧ Mode join c' task exs place := by
  obtain ⟨-, hending, htaken, hbytes, -⟩ := Endpoint.readSome_ok hread
  rw [hnone] at hbytes
  obtain ⟨rfl, hnil⟩ := List.append_eq_nil_iff.mp hbytes.symm
  rw [← hstream] at hending htaken hnil
  refine ⟨rfl, .deaf hnil ?_⟩
  unfold Endpoint.received at hover ⊢
  rw [hending, htaken, hnil, List.append_nil, ← hnone]
  exact hover

/-- The call that holds the guard reads on. -/
theorem read (h : Mode join c task exs place) {g : Guard} {phase : GuardPhase}
    {need count : Nat} {part : List UInt8} {stream : Endpoint} (hg : c.guard = some g)
    (hreading : ∀ left, g.phase ≠ .writing left)
    (hread : c.stream.readSome need count = some (.ok part, stream))
    (hat : ∀ said heard, GuardAt g said heard → GuardAt { g with phase } said (heard ++ part)) :
    Mode join { c with stream, guard := some { g with phase } } task exs place := by
  obtain ⟨hsend, hending, htaken, hbytes, -⟩ := Endpoint.readSome_ok hread
  cases h with
  | @inTurn closed said heard hturn hplace =>
    have hcurrent := hturn.current
    unfold Current at hcurrent
    rw [hg] at hcurrent
    have hnext : InTurn join { c with stream, guard := some { g with phase } } exs closed said
        (heard ++ part) := by
      refine ⟨by rw [hsend]; exact hturn.written, ?_, hturn.enough, hturn.fits, hcurrent.1,
        hat said heard hcurrent.2⟩
      dsimp only
      rw [htaken, hturn.taken]
      simp only [List.append_assoc]
    exact .inTurn hnext hplace
  | mute hroom hwriting =>
    obtain ⟨left, hwriting⟩ := hwriting g hg
    exact absurd hwriting (hreading left)
  | deaf hnone hover => exact (deaf_read hnone hover hread rfl).2

end Mode

namespace Mode

variable {c : TcpClient} {s : Tcp σ} {exs : List Exchange} {waiting : List Frame}
  {last : List (Answer × List UInt8)} {place : Nat → Nat}

/-- A length beyond the limit is not read, except where nothing more is. -/
theorem tooLarge (h : Mode join c s.task exs place) (hlaw : srv.aead.Lawful)
    (hconv : Conversed srv join s.task exs waiting last)
    (hreceived : c.stream.received <+: s.task.chan.send.written)
    (hlengths : ∀ answer ∈ answers s.task.chan.log, ResponseKept answer.2.2)
    {g : Guard} {got part : List UInt8} {count : Nat} {stream : Endpoint} {phase : CallPhase}
    (hg : c.guard = some g) (hphase : g.phase = .sizing got) (hshort : got.length < 4)
    (hread : c.stream.readSome (4 - got.length) count = some (.ok part, stream))
    (hlong : 4 ≤ (got ++ part).length) (hmax : maxFrameSize < u32.fromBeBytes (got ++ part)) :
    Mode join (c.release stream g.index phase) s.task exs place := by
  cases h with
  | @inTurn closed said heard hturn _ =>
    have hcurrent := hturn.current
    unfold Current at hcurrent
    rw [hg] at hcurrent
    obtain ⟨-, hat⟩ := hcurrent
    unfold GuardAt at hat
    rw [hphase] at hat
    obtain ⟨-, rfl⟩ := hat
    obtain ⟨-, -, -, hbytes, hpart⟩ := Endpoint.readSome_ok hread
    have hlen : (heard ++ part).length = 4 := by
      rw [List.length_append] at hlong ⊢
      omega
    have hle := hturn.header_le hlaw hconv hreceived hlengths hbytes hlen
    exact absurd hmax (UInt32.not_lt.mpr hle)
  | mute _ hwriting =>
    obtain ⟨left, hwriting⟩ := hwriting g hg
    rw [hphase] at hwriting
    cases hwriting
  | deaf hnone hover => exact (deaf_read hnone hover hread rfl).2

/-- A call reads its answer to the end. -/
theorem filled (h : Mode join c s.task exs place) (hcorr : Corresponds srv join ⟨c, s⟩ place)
    (hlaw : srv.aead.Lawful) (hcalls : CallsOk srv.aead c)
    (hkey : c.sessionKey = join.est.sessionKey)
    (hconv : Conversed srv join s.task exs waiting last)
    (harrived : arrivedBytes s.task.chan.log <+: c.stream.send.written)
    (hreceived : c.stream.received <+: s.task.chan.send.written)
    (hlengths : ∀ answer ∈ answers s.task.chan.log, ResponseKept answer.2.2)
    {g : Guard} {frameLen : UInt32} {got part : List UInt8} {count : Nat} {stream : Endpoint}
    {phase : CallPhase} (hg : c.guard = some g) (hphase : g.phase = .filling frameLen got)
    (hread : c.stream.readSome (frameLen.toNat - got.length) count = some (.ok part, stream))
    (hlong : frameLen.toNat ≤ (got ++ part).length)
    (hend : phase = (match decodeResponse srv.aead (some c.sessionKey) (got ++ part) with
      | .error e => .failed (.request e)
      | .ok resp => .answered g.frame resp)) :
    ∃ place', Mode join (c.release stream g.index phase) s.task exs place' ∧
      Corresponds srv join ⟨c.release stream g.index phase, s⟩ place' := by
  obtain ⟨hunfinished, -, call, hcall, -, hencodes⟩ := hcalls.guard hg
  rw [hphase] at hunfinished
  rw [hkey] at hend hencodes
  obtain ⟨hsend, hending, htaken, hbytes, hpart⟩ := Endpoint.readSome_ok hread
  cases h with
  | @inTurn closed said heard hturn hplace =>
    have hfull : (got ++ part).length = frameLen.toNat := by
      unfold GuardPhase.Unfinished at hunfinished
      rw [List.length_append] at hlong ⊢
      obtain hlt | rfl := hunfinished
      · omega
      · rw [List.length_nil] at hpart hlong ⊢
        omega
    obtain ⟨resp, hdecode, hresp⟩ := hturn.filled hlaw hconv harrived hreceived hlengths hg hphase
      hbytes hfull
    rw [hdecode] at hend
    dsimp only at hend
    subst hend
    have hcurrent := hturn.current
    unfold Current at hcurrent
    rw [hg] at hcurrent
    obtain ⟨-, hat⟩ := hcurrent
    unfold GuardAt at hat
    rw [hphase] at hat
    obtain ⟨hsaid, -⟩ := hat
    obtain ⟨ex, hex, hframe, hout, rfl⟩ | ⟨out, rfl, hout, rfl⟩ := hresp
    · -- the answer to its own request
      have hgot := got_exchange hlaw hconv hex (hframe ▸ hencodes)
      rw [hframe] at hgot
      refine ⟨Function.update place g.index closed.length, ?_,
        hcorr.answer stream hcall hgot fun i hi => (hplace i hi).ne⟩
      have hall : stream.taken =
          join.reply ++ ((exs.take closed.length).flatMap (·.out) ++ ex.out) := by
        rw [htaken, hturn.taken, ← hout]
        simp only [List.append_assoc]
      refine .inTurn (hturn.close hg hex hsaid (by rw [TcpClient.release, hsend]) hall rfl) ?_
      intro i hi
      rw [List.length_append, List.length_singleton]
      by_cases hsame : i = g.index
      · rw [hsame, Function.update_self]
        exact Nat.lt_succ_self _
      · rw [Function.update_of_ne hsame]
        obtain ⟨other, frame, resp, hother, hanswered⟩ := hi
        obtain ⟨-, hold⟩ | ⟨hsame', -⟩ := TcpClient.call_of_setPhase hother
        · exact Nat.lt_succ_of_lt (hplace i ⟨other, frame, resp, hold, hanswered⟩)
        · exact absurd hsame'.symm hsame
    · -- that the session has expired, the last thing that the server writes
      have hgot : Got srv join s.task.chan.log _ g.frame _ _ := got_expired hconv hencodes
      refine ⟨Function.update place g.index exs.length, ?_, hcorr.answer stream hcall hgot
        fun i hi => (Nat.lt_of_lt_of_le (hplace i hi) hturn.enough).ne⟩
      have hall : stream.taken = s.task.chan.send.written := by
        rw [htaken]
        exact hturn.taken_eq hconv hout
      have hover : s.task.phase.isOver = true := by
        by_contra hopen
        cases (hconv.standing (Bool.eq_false_iff.mpr hopen)).1
      have hsame : stream.received = c.stream.received := by
        unfold Endpoint.received
        rw [htaken, hbytes, List.append_assoc]
      have hnone : stream.recv.bytes = [] := by
        rw [← hsame, ← hall] at hreceived
        unfold Endpoint.received at hreceived
        have hle := hreceived.length_le
        rw [List.length_append] at hle
        apply List.eq_nil_of_length_eq_zero
        omega
      refine .deaf hnone (.inr ⟨hover, ?_⟩)
      unfold TcpClient.release Endpoint.received
      rw [hnone, List.append_nil]
      exact hall
  | mute _ hwriting =>
    obtain ⟨left, hwriting⟩ := hwriting g hg
    rw [hphase] at hwriting
    cases hwriting
  | deaf hnone hover =>
    have hdeaf : part = [] ∧ Mode join (c.release stream g.index phase) s.task exs place :=
      deaf_read hnone hover hread rfl
    obtain ⟨rfl, hdeaf⟩ := hdeaf
    refine ⟨place, hdeaf, hcorr.before (AnsweredBefore.of_setPhase rfl ?_)⟩
    have hnil : got = [] := by
      unfold GuardPhase.Unfinished at hunfinished
      rw [List.append_nil] at hlong
      obtain hlt | hnil := hunfinished
      · omega
      · exact hnil
    rw [hnil] at hend
    obtain ⟨e, he⟩ : ∃ e, decodeResponse srv.aead (some join.est.sessionKey) [] = .error e := ⟨_, rfl⟩
    rw [hend, List.nil_append, he]
    simp

end Mode

/-- The holder of the guard is dropped. -/
theorem Mode.unlocked {c : TcpClient} {s : Tcp σ} {exs : List Exchange} {waiting : List Frame}
    {last : List (Answer × List UInt8)} {place : Nat → Nat} (h : Mode join c s.task exs place)
    (hconv : Conversed srv join s.task exs waiting last)
    (hreceived : c.stream.received <+: s.task.chan.send.written) {g : Guard}
    (hg : c.guard = some g) (hunfinished : g.phase.Unfinished)
    (hdrop : g.phase = .writing g.frame.bytes ∨ Settled ⟨c, s⟩ ∨ c.Dead) :
    Mode join (c.release c.stream g.index .dropped) s.task exs place := by
  have hbefore : AnsweredBefore c (c.release c.stream g.index .dropped) :=
    AnsweredBefore.of_setPhase rfl (by simp)
  cases h with
  | @inTurn closed said heard hturn hplace =>
    obtain hunsaid | ⟨hheard, hidle⟩ | ⟨kind, hroom⟩ | ⟨hnone, hending⟩ := hdrop
    · have hcurrent := hturn.current
      unfold Current at hcurrent
      rw [hg] at hcurrent
      obtain ⟨-, hat⟩ := hcurrent
      unfold GuardAt at hat
      rw [hunsaid] at hat
      obtain ⟨hsaid, rfl⟩ := hat
      obtain rfl : said = [] := List.append_left_eq_self.mp hsaid
      exact .inTurn (hturn.abandon rfl rfl) fun i hi => hplace i (hbefore.answered hi)
    · dsimp only at hheard hidle
      by_cases hopen : s.task.phase.isOver = true
      · -- the server has written its last
        have hnone : c.stream.recv.bytes = [] := by
          rw [← hheard] at hreceived
          have hle := hreceived.length_le
          unfold Endpoint.received at hle
          rw [List.length_append] at hle
          apply List.eq_nil_of_length_eq_zero
          omega
        refine .deaf hnone (.inr ⟨hopen, ?_⟩)
        unfold TcpClient.release Endpoint.received
        dsimp only
        rw [hnone, List.append_nil]
        exact hheard
      · obtain ⟨hidle, hnone, hall⟩ := hidle.resolve_left hopen
        have hstream : (c.release c.stream g.index .dropped).stream = c.stream := rfl
        obtain ⟨closed', hle, hsettled⟩ := hturn.settle hconv hg hunfinished hheard
          (Bool.eq_false_iff.mpr hopen) hidle hnone hall hstream rfl
        exact .inTurn hsettled fun i hi => Nat.lt_of_lt_of_le (hplace i (hbefore.answered hi)) hle
    · exact .mute hroom fun g hg => by cases hg
    · exact .deaf hnone (.inl hending)
  | mute hroom _ => exact .mute hroom fun g hg => by cases hg
  | deaf hbytes hover => exact .deaf hbytes hover

/-- A step of the client keeps the calls in turn, or their connection dead. -/
theorem Mode.steps {c c' : TcpClient} {s : Tcp σ} {exs : List Exchange} {waiting : List Frame}
    {last : List (Answer × List UInt8)} {place : Nat → Nat} {action : CallAction}
    (h : Mode join c s.task exs place) (hcorr : Corresponds srv join ⟨c, s⟩ place)
    (hlaw : srv.aead.Lawful) (hcalls : CallsOk srv.aead c)
    (hkey : c.sessionKey = join.est.sessionKey) (hlengths : LengthsKept ⟨c, s⟩)
    (hconv : Conversed srv join s.task exs waiting last)
    (harrived : arrivedBytes s.task.chan.log <+: c.stream.send.written)
    (hreceived : c.stream.received <+: s.task.chan.send.written)
    (hallowed : action.allowed c = true)
    (hdrop : ∀ index, action = .drop index → Droppable ⟨c, s⟩ index)
    (hstep : CallSteps srv.aead c action c') :
    ∃ place', Mode join c' s.task exs place' ∧ Corresponds srv join ⟨c', s⟩ place' := by
  have hkept {phase : CallPhase} {index : Nat} {c' : TcpClient}
      (hcalls : c'.calls = (c.setPhase index phase).calls) (hstream : c'.stream = c.stream)
      (hguard : c'.guard = c.guard) (hphase : ∀ frame resp, phase ≠ .answered frame resp) :
      ∃ place', Mode join c' s.task exs place' ∧ Corresponds srv join ⟨c', s⟩ place' := by
    have hbefore : AnsweredBefore c c' := AnsweredBefore.of_setPhase hcalls hphase
    exact ⟨place, h.kept hstream hguard hbefore, hcorr.before hbefore⟩
  have hreleased {phase : CallPhase} {index : Nat} {stream : Endpoint}
      (hmode : Mode join (c.release stream index phase) s.task exs place)
      (hphase : ∀ frame resp, phase ≠ .answered frame resp) :
      ∃ place', Mode join (c.release stream index phase) s.task exs place' ∧
        Corresponds srv join ⟨c.release stream index phase, s⟩ place' :=
    ⟨place, hmode, hcorr.before (AnsweredBefore.of_setPhase rfl hphase)⟩
  have hheld {stream : Endpoint} {guard : Option Guard}
      (hmode : Mode join { c with stream, guard } s.task exs place) :
      ∃ place', Mode join { c with stream, guard } s.task exs place' ∧
        Corresponds srv join ⟨{ c with stream, guard }, s⟩ place' :=
    ⟨place, hmode, hcorr.before (AnsweredBefore.of_calls rfl)⟩
  cases hstep with
  | net hnet => exact ⟨place, h.net hallowed hnet, hcorr.before (AnsweredBefore.of_calls rfl)⟩
  | @called kind req =>
    have hbefore : AnsweredBefore c { c with calls := c.calls ++ [⟨kind, req, .called⟩] } := by
      intro i call frame resp hcall hphase
      obtain hlt | hge := Nat.lt_or_ge i c.calls.length
      · rw [List.getElem?_append_left hlt] at hcall
        exact hcall
      · rw [List.getElem?_append_right hge] at hcall
        obtain rfl := List.mem_singleton.mp (List.mem_of_getElem? hcall)
        cases hphase
    exact ⟨place, h.kept rfl rfl hbefore, hcorr.before hbefore⟩
  | numbered _ _ => exact hkept rfl rfl rfl (by simp)
  | unencoded _ _ => exact hkept rfl rfl rfl (by simp)
  | encoded _ _ _ _ => exact hkept rfl rfl rfl (by simp)
  | @locked index nonce call frame frameBytes hcall hphase hfree =>
    obtain ⟨⟨nonce', hbody⟩, hframe⟩ := hcalls.encoded hcall hphase
    have hfits : frame.Fits := by
      have hrequest := hlengths.requests call (List.mem_of_getElem? hcall)
      unfold RequestKept at hrequest
      rw [← length_sealBody hlaw hbody] at hrequest
      exact fits_of_encodeFrame hframe hrequest
    obtain ⟨-, rfl⟩ := encodeFrame_ok_iff.mp hframe
    exact ⟨place, h.lock hfree hfits, hcorr.before (AnsweredBefore.of_setPhase rfl (by simp))⟩
  | unwritten hg hphase hwrite => exact hreleased (.unwritten hwrite) (by simp)
  | wrote hg hphase hwrite =>
    have hleft := (hcalls.guard hg).1
    rw [hphase] at hleft
    exact hheld (h.wrote hg hphase hleft hwrite)
  | unread _ _ hread => exact hreleased (Mode.unread hread) (by simp)
  | sizing hg hphase hread hshort =>
    refine hheld (h.read hg (by simp [hphase]) hread ?_)
    intro said heard hat
    unfold GuardAt at hat
    rw [hphase] at hat
    obtain ⟨hsaid, rfl⟩ := hat
    exact ⟨hsaid, rfl⟩
  | tooLarge hg hphase hread hlong hmax =>
    have hshort := (hcalls.guard hg).1
    rw [hphase] at hshort
    exact hreleased (h.tooLarge hlaw hconv hreceived hlengths.responses hg hphase hshort hread
      hlong hmax) (by simp)
  | @sized count g got part stream hg hphase hread hlong hmax =>
    have hshort := (hcalls.guard hg).1
    rw [hphase] at hshort
    have hpart := (Endpoint.readSome_ok hread).2.2.2.2
    have hlen : (got ++ part).length = 4 := by
      unfold GuardPhase.Unfinished at hshort
      rw [List.length_append] at hlong ⊢
      omega
    refine hheld (h.read hg (by simp [hphase]) hread ?_)
    intro said heard hat
    unfold GuardAt at hat
    rw [hphase] at hat
    obtain ⟨hsaid, rfl⟩ := hat
    exact ⟨hsaid, _, hlen, rfl, (List.append_nil _).symm⟩
  | filling hg hphase hread hshort =>
    refine hheld (h.read hg (by simp [hphase]) hread ?_)
    intro said heard hat
    unfold GuardAt at hat
    rw [hphase] at hat
    obtain ⟨hsaid, lenBuf, hlen, hframeLen, rfl⟩ := hat
    exact ⟨hsaid, lenBuf, hlen, hframeLen, List.append_assoc _ _ _⟩
  | filled hg hphase hread hlong hend =>
    exact h.filled hcorr hlaw hcalls hkey hconv harrived hreceived hlengths.responses hg hphase hread
      hlong hend
  | @streamed count g part stream hg hphase hread =>
    have hsame : { c with stream } = { c with stream, guard := some { g with phase := .streaming } } := by
      rw [← hphase, ← hg]
    rw [hsame]
    refine hheld (h.read hg (by simp [hphase]) hread ?_)
    intro said heard hat
    unfold GuardAt at hat
    rw [hphase] at hat
    exact hat
  | dropped _ _ _ => exact hkept rfl rfl rfl (by simp)
  | unlocked hcall hlocked =>
    obtain ⟨g, hg, rfl⟩ := hcalls.locked hcall hlocked
    exact hreleased (h.unlocked hconv hreceived hg (hcalls.guard hg).1 (hdrop _ rfl g hg rfl)) (by simp)

/-! ### One step of the connection -/

/-- The server goes on, or has ended. -/
theorem Mode.served {c : TcpClient} {task task' : TcpTask} {exs exs' : List Exchange}
    {place : Nat → Nat} (h : Mode join c task exs place) (hexs : exs <+: exs')
    (hover : task.phase.isOver = true → task'.phase.isOver = true ∧
      task'.chan.send.written = task.chan.send.written) : Mode join c task' exs' place := by
  cases h with
  | inTurn hturn hplace =>
    obtain ⟨more, rfl⟩ := hexs
    refine .inTurn ⟨hturn.written, ?_, ?_, hturn.fits, hturn.current⟩ hplace
    · rw [List.take_append_of_le_length hturn.enough]
      exact hturn.taken
    · rw [List.length_append]
      exact Nat.le_add_right_of_le hturn.enough
  | mute hroom hwriting => exact .mute hroom hwriting
  | deaf hbytes hdead =>
    obtain hending | ⟨hend, hsame⟩ := hdead
    · exact .deaf hbytes (.inl hending)
    · exact .deaf hbytes (.inr ⟨(hover hend).1, by rw [(hover hend).2]; exact hsame⟩)

/-- What the server wrote arrives at the client. -/
theorem Mode.delivered {c : TcpClient} {task : TcpTask} {exs : List Exchange} {place : Nat → Nat}
    {count : Nat} {stream : Endpoint} (h : Mode join c task exs place)
    (hnet : c.stream.net (.deliver
      (inFlight task.chan.send.written c.stream.received count)) = some stream) :
    Mode join { c with stream } task exs place := by
  unfold Endpoint.net at hnet
  dsimp only at hnet
  split at hnet
  · rename_i hending
    obtain rfl := Option.some.inj hnet
    cases h with
    | inTurn hturn hplace =>
      exact .inTurn ⟨hturn.written, hturn.taken, hturn.enough, hturn.fits, hturn.current⟩ hplace
    | mute hroom hwriting => exact .mute hroom hwriting
    | deaf hbytes hdead =>
      obtain habsurd | ⟨hover, hsame⟩ := hdead
      · exact absurd hending habsurd
      · have hnone : inFlight task.chan.send.written c.stream.received count = [] := by
          unfold inFlight
          rw [hsame, List.drop_length, List.take_nil]
        refine .deaf ?_ (.inr ⟨hover, ?_⟩)
        · dsimp only
          rw [hnone, hbytes]
          rfl
        · show c.stream.taken ++ (c.stream.recv.bytes ++ inFlight _ _ count) = _
          rw [hnone, List.append_nil]
          exact hsame
  · cases hnet

theorem LengthsKept.before {l l' : Talk σ} (h : LengthsKept l')
    (hrequests : ∀ call ∈ l.left.calls, ∃ call' ∈ l'.left.calls, call'.req = call.req)
    (hlog : l.right.task.chan.log <+: l'.right.task.chan.log) : LengthsKept l := by
  constructor
  · intro call hcall
    obtain ⟨call', hcall', hsame⟩ := hrequests call hcall
    rw [← hsame]
    exact h.requests call' hcall'
  · intro answer hanswer
    obtain ⟨events, hevents⟩ := hlog
    have hall := h.responses
    rw [← hevents, Server.answers_append] at hall
    exact hall answer (List.mem_append_left _ hanswer)

namespace Corresponding

variable {l l' : Talk σ}

/-- The server and the network do something, the client nothing. -/
theorem right (h : Corresponding srv join l) {s' : Tcp σ}
    (hinOrder : InOrder (callParty srv.aead) (servingParty srv join.sid) { l with right := s' })
    (hlog : l.right.task.chan.log <+: s'.task.chan.log)
    (hconv : ∀ {exs waiting last}, Conversed srv join l.right.task exs waiting last →
      ∃ exs' waiting' last', Conversed srv join s'.task exs' waiting' last' ∧ exs <+: exs')
    (hover : l.right.task.phase.isOver = true → s'.task.phase.isOver = true ∧
      s'.task.chan.send.written = l.right.task.chan.send.written) :
    Corresponding srv join { l with right := s' } := by
  obtain ⟨exs, waiting, last, hold, hmode⟩ := h.mode
  obtain ⟨exs', waiting', last', hnew, hexs⟩ := hconv hold
  refine ⟨hinOrder, h.calls, h.key, exs', waiting', last', hnew, fun hlengths => ?_⟩
  obtain ⟨place, hplace, hcorr⟩ :=
    hmode (hlengths.before (fun call hcall => ⟨call, hcall, rfl⟩) hlog)
  exact ⟨place, hplace.served hexs hover, hcorr.log_grows hlog⟩

theorem net (h : Corresponding srv join l) {action : NetAction} {chan : Server.Channel}
    (hkeeps : action.keepsWriting = true)
    (hnet : l.right.task.chan.net l.right.shared.now action = some chan)
    (hinOrder : InOrder (callParty srv.aead) (servingParty srv join.sid)
      { l with right := { l.right with task := { l.right.task with chan } } }) :
    Corresponding srv join
      { l with right := { l.right with task := { l.right.task with chan } } } := by
  refine h.right hinOrder (Server.net_log_grows hnet) ?_
    fun hover => ⟨hover, (Server.net_delivered hnet).2.2⟩
  intro exs waiting last hconv
  exact ⟨exs, waiting, last, hconv.net hkeeps hnet, List.prefix_rfl⟩

end Corresponding

theorem corresponding_step (hlaw : srv.aead.Lawful) {l l' : Talk σ} {action : TalkAction σ}
    (h : Corresponding srv join l)
    (hdrop : ∀ index, action = .left (.drop index) → Droppable l index)
    (hstep : talkStep srv join.sid l action = some l') : Corresponding srv join l' := by
  have hlink : linkStep (callParty srv.aead) (servingParty srv join.sid) l action = some l' := hstep
  have hinOrder := inOrder_step h.inOrder hlink
  cases linkStep_steps hlink with
  | @left action c hleft =>
    dsimp only [callParty] at hleft
    split at hleft
    · rename_i hallowed
      have hsteps := callStep_steps hleft
      obtain ⟨exs, waiting, last, hconv, hmode⟩ := h.mode
      refine ⟨hinOrder, h.calls.steps hsteps, hsteps.sessionKey.trans h.key, exs, waiting, last,
        hconv, fun hlengths => ?_⟩
      have hbefore : LengthsKept l := hlengths.before (fun call hcall => hsteps.requests hcall) List.prefix_rfl
      obtain ⟨place, hplace, hcorr⟩ := hmode hbefore
      exact hplace.steps hcorr hlaw h.calls h.key hbefore hconv h.inOrder.toRight h.inOrder.toLeft
        hallowed (fun index hindex => hdrop index (by rw [hindex])) hsteps
    · cases hleft
  | @right action s hright =>
    dsimp only [servingParty, Party.restrict] at hright
    split at hright
    · rename_i hkeeps
      have hlinked : Server.tcpLinked srv join.sid l.right action = some s := hright
      unfold Server.tcpLinked at hlinked
      split at hlinked
      · cases Server.tcpStep_steps hlinked with
        | env _ =>
          exact h.right hinOrder List.prefix_rfl
            (fun hconv => ⟨_, _, _, hconv, List.prefix_rfl⟩) fun hover => ⟨hover, rfl⟩
        | net hnet => exact h.net hkeeps hnet hinOrder
        | run hmoves =>
          refine h.right hinOrder hmoves.log_grows (fun hconv => hconv.moves hmoves) ?_
          intro hover
          obtain ⟨hend, hsame⟩ := hmoves.over hover
          exact ⟨hend, by rw [hsame]⟩
      · cases hlinked
    · cases hright
  | @toLeft count c hleft =>
    obtain ⟨stream, hnet, rfl⟩ := Option.map_eq_some_iff.mp hleft
    obtain ⟨exs, waiting, last, hconv, hmode⟩ := h.mode
    refine ⟨hinOrder, ⟨h.calls.encoded, h.calls.guard, h.calls.locked⟩, h.key, exs, waiting, last,
      hconv, fun hlengths => ?_⟩
    obtain ⟨place, hplace, hcorr⟩ :=
      hmode (hlengths.before (fun call hcall => ⟨call, hcall, rfl⟩) List.prefix_rfl)
    exact ⟨place, hplace.delivered hnet, hcorr.before (AnsweredBefore.of_calls rfl)⟩
  | @toRight count s hright =>
    obtain ⟨chan, hnet, rfl⟩ := Option.map_eq_some_iff.mp hright
    exact h.net rfl hnet hinOrder

end Hush.Client
