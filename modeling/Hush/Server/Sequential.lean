import Hush.Server.Turns

/-! One order for all requests. However the connections of a server take their steps, the answers
are those of a server that serves one request after the other, and on each connection the requests
are served in the order in which they came. -/
namespace Hush.Server

open Hush.Foundation Execution
open Hush.Frame hiding Request
open Hush.Session

variable {σ : Type}

/-- A step serves one request, or none. -/
inductive Serves (srv : Server σ) (s s' : Listening σ) : Option Turn → Prop where
  | one {turn : Turn} : s'.shared.app = (turn.serve srv s.shared.app).app →
      Took srv.aead turn.freq turn.seq (turn.serve srv s.shared.app) (s.view turn.place)
        (s'.view turn.place) →
      (∀ place, place ≠ turn.place → s'.view place = s.view place) →
        Serves srv s s' (some turn)
  | quiet : s'.shared.app = s.shared.app →
      (∀ place, Quiet srv.aead (s.view place) (s'.view place)) → Serves srv s s' none

/-- The requests served so far account for the application state and for what every place shows. -/
structure ServedInOrder (srv : Server σ) (app : σ) (order : List Turn) (s : Listening σ) :
    Prop where
  state : s.shared.app = appAfterTurns srv app order
  answers : ∀ place, servedAnswers (s.view place).log = answersTo place (inTurn srv app order)
  requests : ∀ place, requestsRead srv.aead (s.view place).log =
    requestsAt place order ++ (s.view place).waiting

theorem ServedInOrder.step {srv : Server σ} {app : σ} {order : List Turn} {s s' : Listening σ}
    {turn : Option Turn} (h : ServedInOrder srv app order s) (hserves : Serves srv s s' turn) :
    ServedInOrder srv app (order ++ turn.toList) s' := by
  cases hserves with
  | @one turn happ htook hothers =>
    refine ⟨?_, fun place => ?_, fun place => ?_⟩
    · rw [Option.toList_some, appAfterTurns_concat, ← h.state]
      exact happ
    · rw [Option.toList_some, inTurn_concat, ← h.state]
      unfold answersTo
      rw [List.flatMap_append, List.flatMap_singleton]
      by_cases hplace : turn.place = place
      · subst hplace
        rw [htook.answers, h.answers, if_pos rfl]
        rfl
      · rw [hothers place (Ne.symm hplace), h.answers, if_neg hplace, List.append_nil]
        rfl
    · unfold requestsAt
      rw [Option.toList_some, List.flatMap_append, List.flatMap_singleton]
      by_cases hplace : turn.place = place
      · subst hplace
        rw [htook.read, h.requests, htook.waiting, htook.done, if_pos rfl, List.append_nil]
        rfl
      · rw [hothers place (Ne.symm hplace), h.requests, if_neg hplace, List.append_nil]
        rfl
  | quiet happ hquiet =>
    rw [Option.toList_none, List.append_nil]
    refine ⟨happ.trans h.state, fun place => ?_, fun place => ?_⟩
    · rw [(hquiet place).answers]
      exact h.answers place
    · obtain ⟨new, hread, hwaiting⟩ := (hquiet place).read
      rw [hread, hwaiting, h.requests, List.append_assoc]

end Hush.Server
