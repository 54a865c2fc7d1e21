import Hush.Client.Multiplexed
import Hush.Server.Turns

/-! Calls over QUIC take effect one at a time: a call that returns the answer to its request has
its handler run in one step of the server, between its beginning and its return, on the state that
the application is in then. -/
namespace Hush.Client

open Hush.Foundation Execution
open Hush.Frame hiding Response
open Hush.Session
open Hush.Server (NetAction Quic QuicAction StreamTask StreamTalk StreamMoves Shared answers reads
  quicStep quicServe quicAccepted exampleServer exampleNonce exampleSession)

variable {σ : Type}

/-- Of two states of the calls the second comes later: nothing that was read or answered on a
stream is taken back, and the calls and their streams stay what they are. -/
structure Mux.Onward (m m' : Mux σ) : Prop where
  bound : m.bound <+: m'.bound
  calls : ∀ {index : Nat} {call : QuinnCall}, m.client.calls[index]? = some call →
    ∃ call', m'.client.calls[index]? = some call' ∧ call'.req = call.req
  tasks : ∀ {stream : Nat} {task : StreamTask}, m.server.streams[stream]? = some task →
    ∃ task', m'.server.streams[stream]? = some task' ∧ task.chan.log <+: task'.chan.log

theorem Mux.Onward.refl (m : Mux σ) : m.Onward m where
  bound := List.prefix_rfl
  calls := fun hcall => ⟨_, hcall, rfl⟩
  tasks := fun htask => ⟨_, htask, List.prefix_rfl⟩

theorem Mux.Onward.trans {m m' m'' : Mux σ} (h : m.Onward m') (h' : m'.Onward m'') :
    m.Onward m'' where
  bound := h.bound.trans h'.bound
  calls := by
    intro index call hcall
    obtain ⟨call', hcall', hreq⟩ := h.calls hcall
    obtain ⟨call'', hcall'', hreq'⟩ := h'.calls hcall'
    exact ⟨call'', hcall'', hreq'.trans hreq⟩
  tasks := by
    intro stream task htask
    obtain ⟨task', htask', hlog⟩ := h.tasks htask
    obtain ⟨task'', htask'', hlog'⟩ := h'.tasks htask'
    exact ⟨task'', htask'', hlog.trans hlog'⟩

/-- The stream has been answered. -/
def Mux.Answered (m : Mux σ) (stream : Nat) : Prop :=
  ∃ task, m.server.streams[stream]? = some task ∧ answers task.chan.log ≠ []

end Hush.Client
