import Hush.Server.Occupancy
import Hush.Server.TcpService

/-! How tasks come to an end. A TCP task whose client has hung up never waits again, and each step
that it takes uses up some of what is left to it, whatever the other connections do meanwhile. -/
namespace Hush.Server

open Hush.Foundation Execution Stream
open Hush.Frame hiding Request
open Hush.Session

variable {σ : Type}

/-- A write that does not fit the room waits for more. -/
def Blocks (send : Frame.Sink) : Prop := ∃ room, send.room = some (room, .wouldBlock)

/-! ### The handshake -/

theorem readHello_ending {tr : Transport} {recv recv' : Frame.Source} {hello : Hello}
    (h : readHello tr recv = .ok (hello, recv')) : recv'.ending = recv.ending := by
  unfold readHello at h
  split at h
  · cases h
  · rename_i header mid hheader
    obtain ⟨-, -, hending⟩ := Source.readExact_ok_iff.mp hheader
    dsimp only at h
    rw [← hending]
    split at h
    · cases h
    split at h
    · split at h
      · cases h
      · rename_i hread
        obtain ⟨-, rfl⟩ := Prod.mk.inj (Except.ok.inj h)
        exact (Source.readExact_ok_iff.mp hread).2.2
    · split at h
      · cases h
      · rename_i hread
        obtain ⟨-, rfl⟩ := Prod.mk.inj (Except.ok.inj h)
        exact (Source.readExact_ok_iff.mp hread).2.2

/-- A completed handshake has taken the hello and left the rest. -/
theorem tcpHandshake_takes {keys : ServerKeys} {sid : UInt64} {recv recv' : Frame.Source}
    {send send' : Frame.Sink} {est : Established}
    (h : tcpHandshake keys sid recv send = (.ok (est, recv'), send')) :
    recv'.ending = recv.ending ∧ recv'.bytes.length ≤ recv.bytes.length := by
  obtain ⟨hello, secret, hhello, -⟩ := handshake_ok (congrArg Prod.fst h)
  obtain ⟨wire, hbytes, -⟩ := helloWire_of_readHello hhello
  rw [hbytes, List.length_append]
  exact ⟨readHello_ending hhello, Nat.le_add_left _ _⟩

/-- A request takes a frame, which has a header and a sequence number at least. -/
theorem readRequestAsync_takes {aead : Aead} {recv recv' : Frame.Source}
    {key : Option (List UInt8)} {freq : Frame.Request} {seq : UInt32}
    (h : readRequestAsync aead recv key = .ok ((freq, seq), recv')) :
    recv'.ending = recv.ending ∧ recv'.bytes.length + 8 ≤ recv.bytes.length := by
  obtain ⟨frame, hframe, -⟩ := readRequestAsync_ok h
  obtain ⟨-, hbytes, hending⟩ := readFrameFrom_sound hframe
  refine ⟨hending, ?_⟩
  rw [hbytes, List.length_append, Frame.bytes, List.length_append, Frame.length_body,
    BigEndian.u32.length_toBeBytes]
  omega

/-! ### TCP -/

/-- The most steps from here to the end of the task, or to its next read. -/
def TcpPhase.work : TcpPhase → Nat
  | handshake => 7
  | insert _ => 6
  | loop _ .fetch => 5
  | loop _ (.judge _) => 4
  | loop _ .touch => 3
  | loop _ .read => 2
  | loop _ (.dispatch _ _) => 6
  | closing _ => 1
  | ended _ => 0

/-- The most steps that the task takes with what there is to read: six for each frame. -/
def TcpTask.work (task : TcpTask) : Nat :=
  6 * (task.chan.recv.bytes.length / 8) + task.phase.work

/-- The client has hung up, and the reply to its hello does not wait for it. -/
structure HungUp (task : TcpTask) : Prop where
  hung : task.chan.recv.ending ≠ .wouldBlock
  flows : task.phase = .handshake → ¬Blocks task.chan.send

theorem TcpMoves.work_lt {srv : Server σ} {sid : UInt64} {sh sh' : Shared σ} {chan : Channel}
    {phase : TcpPhase} {task' : TcpTask} (h : TcpMoves srv sid sh chan phase sh' task')
    (hhung : HungUp ⟨chan, phase⟩) :
    HungUp task' ∧ task'.work + 1 ≤ (TcpTask.mk chan phase).work := by
  cases h with
  | accepted haccepted =>
    obtain ⟨hending, hless⟩ := tcpHandshake_takes haccepted
    refine ⟨⟨fun hopen => hhung.hung (hending.symm.trans hopen), by simp⟩, ?_⟩
    have hframes := Nat.div_le_div_right (c := 8) hless
    dsimp only [TcpTask.work, TcpPhase.work]
    omega
  | read hread =>
    obtain ⟨hending, hless⟩ := readRequestAsync_takes hread
    refine ⟨⟨fun hopen => hhung.hung (hending.symm.trans hopen), by simp⟩, ?_⟩
    dsimp only [TcpTask.work, TcpPhase.work]
    omega
  | _ =>
    refine ⟨⟨hhung.hung, by simp⟩, ?_⟩
    simp only [TcpTask.work, TcpPhase.work, Channel.reply, Channel.note]
    omega

/-- What is written may be cut off, but no write of the connection's waits. -/
def TcpAction.Flows (action : TcpAction σ) : Prop :=
  ∀ room, action ≠ .net (.limit room .wouldBlock)

theorem HungUp.step {srv : Server σ} {sid : UInt64} {s s' : Tcp σ} {action : TcpAction σ}
    (hhung : HungUp s.task) (hflows : action.Flows) (h : tcpStep srv sid s action = some s') :
    HungUp s'.task ∧ s'.task.work + (if action.isRun then 1 else 0) ≤ s.task.work := by
  cases tcpStep_steps h with
  | env _ => exact ⟨hhung, Nat.le_refl _⟩
  | @net net chan hchan =>
    unfold Channel.net at hchan
    cases net with
    | deliver bytes => exact absurd hchan (by simp [hhung.hung])
    | hangup kind => exact absurd hchan (by simp [hhung.hung])
    | limit room kind =>
      obtain rfl := Option.some.inj hchan
      refine ⟨⟨hhung.hung, ?_⟩, Nat.le_refl _⟩
      rintro - ⟨room', hroom⟩
      obtain ⟨rfl, rfl⟩ := Prod.mk.inj (Option.some.inj hroom)
      exact hflows room rfl
  | run hmoves => exact hmoves.work_lt hhung

/-- What is left to the connection's task, and nothing to one that there is not. -/
def Listening.work (s : Listening σ) (index : Nat) : Nat :=
  match s.conns[index]? with
  | some (_, .tcp task) => task.work
  | _ => 0

def returned : UInt64 × Connection → Option UInt64
  | (sid, .tcp ⟨_, .ended (.returned _)⟩) => some sid
  | _ => none

end Hush.Server
