import Hush.Client.Correlated

/-! A call whose task is dropped, or a stream whose reader is dropped, gives the
connection back and nothing else: what it has not read is read by the next call. -/
namespace Hush.Client

open Hush.Foundation Execution Link
open Hush.Frame hiding Response
open Hush.Session
open Hush.Server (Joining Shared exampleServer exampleNonce answers arrivedBytes)

variable {σ : Type}

/-- As long as every call that is dropped with the guard has written nothing, or
leaves a connection that has settled or is dead, every call that returns a response
has the answer to its own request. -/
theorem stays_in_step (srv : Server.Server σ) (hlaw : srv.aead.Lawful) (join : Joining)
    (sh : Shared σ) (actions : List (TalkAction σ)) (l : Talk σ)
    (hdrops : Along (talkStep srv join.sid) droppedWell (joined join sh) actions)
    (hrun : run (talkStep srv join.sid) (joined join sh) actions = some l)
    (hlengths : LengthsKept l) : ∃ place, Corresponds srv join l place :=
  (corresponding_run hlaw hdrops hrun).corresponds hlengths

/-- The reader of a stream takes the whole answer. -/
def streamedActions : List (TalkAction Nat) :=
  .right (.run exampleNonce) :: askActions .startStream 5 0 ++ answerActions ++ [.left (.io 100)]

/-- A call gets its answer. -/
def laterActions : List (TalkAction Nat) :=
  askActions .do_ 5 1 ++ answerActions ++ [.left (.io 4), .left (.io 100)]

theorem settled_streamed {l : Talk Nat}
    (hrun : run (talkStep exampleServer 1) exampleTalk streamedActions = some l) : Settled l := by
  have hends : (run (talkStep exampleServer 1) exampleTalk streamedActions).map (fun l =>
      decide (l.left.stream.taken = l.right.task.chan.send.written ∧
        l.right.task.phase.isDispatching = false ∧ l.right.task.chan.recv.bytes = [] ∧
        arrivedBytes l.right.task.chan.log = l.left.stream.send.written)) = some true := by rfl
  rw [hrun, Option.map_some, Option.some.injEq] at hends
  obtain ⟨hheard, hidle⟩ := of_decide_eq_true hends
  exact ⟨hheard, .inr hidle⟩

theorem stays_in_step_streamed : ∃ l,
    run (talkStep exampleServer 1) exampleTalk (streamedActions ++ .left (.drop 0) :: laterActions) =
      some l ∧ l.left.Answered 1 ∧ ∃ place, Corresponds exampleServer exampleJoining l place := by
  have hends : (run (talkStep exampleServer 1) exampleTalk
      (streamedActions ++ .left (.drop 0) :: laterActions)).map
        (fun l => (l.left.calls, answers l.right.task.chan.log)) =
      some ([⟨.startStream, ⟨5, none⟩, .dropped⟩,
        ⟨.do_, ⟨5, none⟩, .answered (exampleRequest 5 1) ⟨.success, some .new, 1⟩⟩],
        [(.handled, 0, newResponse .new), (.handled, 1, newResponse .new)]) := by rfl
  obtain ⟨l, hrun, hl⟩ := Option.map_eq_some_iff.mp hends
  obtain ⟨hcalls, hanswers⟩ := Prod.mk.inj hl
  have hlengths : LengthsKept l := lengthsKept_example (by simp [hcalls]) (by simp [hanswers])
  have hdrops : Along (talkStep exampleServer 1) droppedWell exampleTalk
      (streamedActions ++ .left (.drop 0) :: laterActions) := by
    have hbefore (index : Nat) : .left (.drop index) ∉ streamedActions := by
      simp [streamedActions, askActions, answerActions]
    have hafter (index : Nat) : .left (.drop index) ∉ laterActions := by
      simp [laterActions, askActions, answerActions]
    refine along_append.mpr ⟨droppedWell_of_forall hbefore, fun mid hmid => ⟨?_, fun _ _ =>
      droppedWell_of_forall hafter⟩⟩
    intro index _ g _ _
    exact .inr (.inl (settled_streamed hmid))
  refine ⟨l, hrun, ⟨_, _, _, by rw [hcalls]; rfl, rfl⟩, ?_⟩
  exact stays_in_step exampleServer keyTagAead_lawful exampleJoining ⟨0, .new ⟨100, 100⟩, 0⟩
    (streamedActions ++ .left (.drop 0) :: laterActions) l hdrops hrun hlengths

/-- A call is dropped while it waits for its answer; the next one reads that. -/
def staleActions : List (TalkAction Nat) :=
  .right (.run exampleNonce) :: askActions .do_ 5 0 ++ .left (.drop 0) :: answerActions ++
    askActions .do_ 5 1 ++ [.left (.io 4), .left (.io 100)]

theorem dropped_answer_read : ∃ l,
    run (talkStep exampleServer 1) exampleTalk staleActions = some l ∧ LengthsKept l ∧ Misread l ∧
      ¬∃ place, Corresponds exampleServer exampleJoining l place := by
  have hends : (run (talkStep exampleServer 1) exampleTalk staleActions).map
      (fun l => (l.left.calls, answers l.right.task.chan.log)) =
        some ([⟨.do_, ⟨5, none⟩, .dropped⟩,
          ⟨.do_, ⟨5, none⟩, .answered (exampleRequest 5 1) ⟨.success, some .new, 0⟩⟩],
          [(.handled, 0, newResponse .new)]) := by rfl
  obtain ⟨l, hrun, hl⟩ := Option.map_eq_some_iff.mp hends
  obtain ⟨hcalls, hanswers⟩ := Prod.mk.inj hl
  have hmisread : Misread l := by
    refine ⟨⟨.do_, ⟨5, none⟩, .answered (exampleRequest 5 1) ⟨.success, some .new, 0⟩⟩, ?_,
      exampleRequest 5 1, ⟨.success, some .new, 0⟩, rfl, by decide, by decide⟩
    rw [hcalls]
    exact List.mem_cons_of_mem _ List.mem_cons_self
  exact ⟨l, hrun, lengthsKept_example (by simp [hcalls]) (by simp [hanswers]), hmisread,
    hmisread.not_corresponds⟩

end Hush.Client
