import Hush.Client.Progress

/-! The response of a call is the answer to its own request, as long as no length
wraps and no call is dropped in the middle of its exchange. -/
namespace Hush.Client

open Hush.Foundation BigEndian Execution Link
open Hush.Frame hiding Response
open Hush.Session
open Hush.Server (Tcp Joining Conversed Shared exampleServer exampleKeys exampleNonce exampleSession
  anonymousHello anonymousSession answers)

variable {σ : Type}

/-- A call is dropped only when it may be. -/
def droppedWell (l : Talk σ) (action : TalkAction σ) : Prop :=
  ∀ index, action = .left (.drop index) → Droppable l index

theorem conversed_joined (srv : Server.Server σ) (join : Joining) (sh : Shared σ) :
    Conversed srv join (joined join sh).right.task [] [] [] := by
  have harrived : Server.arrivedBytes (joined join sh).right.task.chan.log = join.hello :=
    List.append_nil _
  have hread : Server.readBytes (joined join sh).right.task.chan.log = [] := rfl
  refine ⟨rfl, (List.append_nil _).symm, rfl, by simp, ?_, rfl, by simp, .inl rfl,
    fun _ => ⟨rfl, ?_, rfl, rfl⟩⟩
  · rw [harrived, hread, List.append_nil]
  · unfold Server.InStep
    rw [harrived, hread, List.append_nil]
    exact List.append_nil _

theorem corresponding_joined (srv : Server.Server σ) (join : Joining) (sh : Shared σ) :
    Corresponding srv join (joined join sh) := by
  have hnone {index : Nat} {call : Call} : (joined join sh).left.calls[index]? ≠ some call := nofun
  have hanswered (index : Nat) : ¬(joined join sh).left.Answered index := by
    rintro ⟨call, frame, resp, hcall, -⟩
    exact hnone hcall
  have hcalls : CallsOk srv.aead (joined join sh).left := by
    constructor
    · intro index call frame frameBytes hcall
      exact absurd hcall hnone
    · intro g hg
      cases hg
    · intro index call hcall
      exact absurd hcall hnone
  have hturn : InTurn join (joined join sh).left [] [] [] [] :=
    ⟨(List.append_nil _).symm, (List.append_nil _).symm, Nat.le_refl _, by simp, rfl, rfl⟩
  have hcorr : Corresponds srv join (joined join sh) fun _ => 0 := by
    constructor
    · intro index call frame resp hcall
      exact absurd hcall hnone
    · intro i j hi
      exact absurd hi (hanswered i)
  refine ⟨⟨?_, ?_⟩, hcalls, rfl, [], [], [], conversed_joined srv join sh, fun _ =>
    ⟨fun _ => 0, .inTurn hturn fun index hindex => absurd hindex (hanswered index), hcorr⟩⟩
  · show join.hello ++ [] <+: join.hello
    rw [List.append_nil]
  · show join.reply ++ [] <+: join.reply
    rw [List.append_nil]

/-- The invariant holds in every run in which calls are dropped well. -/
theorem corresponding_run {srv : Server.Server σ} (hlaw : srv.aead.Lawful) {join : Joining}
    {sh : Shared σ} {actions : List (TalkAction σ)} {l : Talk σ}
    (hdrops : Along (talkStep srv join.sid) droppedWell (joined join sh) actions)
    (hrun : run (talkStep srv join.sid) (joined join sh) actions = some l) :
    Corresponding srv join l :=
  run_preserves_along (fun h hdrop hstep => corresponding_step hlaw h hdrop hstep) hdrops hrun
    (corresponding_joined srv join sh)

theorem Corresponding.corresponds {srv : Server.Server σ} {join : Joining} {l : Talk σ}
    (h : Corresponding srv join l) (hlengths : LengthsKept l) : ∃ place, Corresponds srv join l place := by
  obtain ⟨exs, waiting, last, -, hmode⟩ := h.mode
  obtain ⟨place, -, hcorr⟩ := hmode hlengths
  exact ⟨place, hcorr⟩

theorem droppedWell_of_forall {step : Talk σ → TalkAction σ → Option (Talk σ)} {l : Talk σ}
    {actions : List (TalkAction σ)} (hkept : ∀ index, .left (.drop index) ∉ actions) :
    Along step droppedWell l actions :=
  along_of_forall fun _ haction _ index hdrop => absurd (hdrop ▸ haction) (hkept index)

/-! ### Calls that run to their end -/

/-- Where no call is dropped, every call that returns a response has the answer to
its own request, and no two have the same. -/
theorem do_correlated (srv : Server.Server σ) (hlaw : srv.aead.Lawful) (join : Joining)
    (sh : Shared σ) (actions : List (TalkAction σ)) (l : Talk σ)
    (hkept : ∀ index, .left (.drop index) ∉ actions)
    (hrun : run (talkStep srv join.sid) (joined join sh) actions = some l) (hlengths : LengthsKept l) :
    ∃ place, Corresponds srv join l place :=
  (corresponding_run hlaw (droppedWell_of_forall hkept) hrun).corresponds hlengths

/-- The connection of an anonymous client, as session 1 of the example server. -/
def exampleJoining : Joining where
  sid := 1
  est := anonymousSession 1
  hello := anonymousHello 1
  reply := List.replicate 32 9 ++ u64.toBeBytes 1

example : Server.tcpHandshake exampleKeys 1 ⟨anonymousHello 1, .wouldBlock⟩ .vec =
    (.ok (anonymousSession 1, ⟨[], .wouldBlock⟩), ⟨exampleJoining.reply, none⟩) := by rfl

/-- Both sides of it, before any call. -/
def exampleTalk : Talk Nat := joined exampleJoining ⟨0, .new ⟨100, 100⟩, 0⟩

/-- The frame of a request without payload on that connection. -/
def exampleRequest (opcode : UInt16) (seq : UInt32) : Frame :=
  ⟨seq, exampleNonce.bytes ++ (u16.toBeBytes opcode ++ exampleSession.key.take tagSize)⟩

/-- A call takes its number, its frame and the lock, and writes the frame. -/
def askActions (kind : CallKind) (opcode : UInt16) (index : Nat) : List (TalkAction Nat) :=
  .left (.call kind ⟨opcode, none⟩) :: List.replicate 3 (.left (.run index exampleNonce)) ++
    [.left (.io 38)]

/-- The server reads a request and answers it, and all of the answer arrives. -/
def answerActions : List (TalkAction Nat) :=
  .toRight 38 :: List.replicate 5 (.right (.run exampleNonce)) ++ [.toLeft 100]

def doneActions : List (TalkAction Nat) :=
  .right (.run exampleNonce) :: askActions .do_ 5 0 ++ answerActions ++
    [.left (.io 4), .left (.io 100)]

theorem lengthsKept_example {l : Talk Nat} (hcalls : ∀ call ∈ l.left.calls, call.req = ⟨5, none⟩)
    (hanswers : ∀ answer ∈ answers l.right.task.chan.log, answer.2.2 = newResponse .new) :
    LengthsKept l := by
  constructor
  · intro call hcall
    rw [hcalls call hcall]
    unfold RequestKept LengthKept
    decide
  · intro answer hanswer
    rw [hanswers answer hanswer]
    unfold Server.ResponseKept LengthKept
    decide

theorem do_correlated_once : ∃ l,
    run (talkStep exampleServer 1) exampleTalk doneActions = some l ∧
      l.left.Answered 0 ∧ ∃ place, Corresponds exampleServer exampleJoining l place := by
  have hends : (run (talkStep exampleServer 1) exampleTalk
      doneActions).map (fun l => (l.left.calls, answers l.right.task.chan.log)) =
        some ([⟨.do_, ⟨5, none⟩, .answered (exampleRequest 5 0) ⟨.success, some .new, 0⟩⟩],
          [(.handled, 0, newResponse .new)]) := by rfl
  obtain ⟨l, hrun, hl⟩ := Option.map_eq_some_iff.mp hends
  obtain ⟨hcalls, hanswers⟩ := Prod.mk.inj hl
  have hlengths : LengthsKept l := lengthsKept_example (by simp [hcalls]) (by simp [hanswers])
  refine ⟨l, hrun, ⟨_, _, _, by rw [hcalls]; rfl, rfl⟩, ?_⟩
  exact do_correlated exampleServer keyTagAead_lawful exampleJoining ⟨0, .new ⟨100, 100⟩, 0⟩ doneActions l
    (by simp [doneActions, askActions, answerActions]) hrun hlengths

/-! ### A length that wraps -/

theorem Corresponds.seq_eq {srv : Server.Server σ} {join : Joining} {l : Talk σ} {place : Nat → Nat}
    (h : Corresponds srv join l place) {index : Nat} {call : Call} {frame : Frame}
    {resp : Frame.Response} (hcall : l.left.calls[index]? = some call)
    (hphase : call.phase = .answered frame resp) (hstatus : resp.status ≠ .sessionExpired) :
    resp.seq = frame.seq := by
  obtain ⟨cause, seq, sent, -, -, -, hown⟩ := (h.got hcall hphase).answer
  exact (hown hstatus).1

/-- A call returned a response that carries another call's number. -/
def Misread (l : Talk σ) : Prop :=
  ∃ call ∈ l.left.calls, ∃ frame resp, call.phase = .answered frame resp ∧
    resp.status ≠ .sessionExpired ∧ resp.seq ≠ frame.seq

theorem Misread.not_corresponds {srv : Server.Server σ} {join : Joining} {l : Talk σ}
    (h : Misread l) : ¬∃ place, Corresponds srv join l place := by
  rintro ⟨place, hcorr⟩
  obtain ⟨call, hcall, frame, resp, hphase, hstatus, hseq⟩ := h
  obtain ⟨index, hindex⟩ := List.mem_iff_getElem?.mp hcall
  exact hseq (hcorr.seq_eq hindex hphase hstatus)

/-- A server with a handler that returns a given response, and one that returns
an empty map. -/
def bulkServer (resp : Frame.Response) : Server.Server Nat where
  aead := keyTagAead
  keys := exampleKeys
  handlers := fun opcode =>
    if opcode = 5 then some (.sync fun _ calls => .returned (.ok resp) (calls + 1))
    else if opcode = 6 then some (.sync fun _ calls => .returned (.ok (newResponse .new)) (calls + 1))
    else none

def bulkShared (calls : Nat) : Shared Nat :=
  ⟨0, (SessionStore.new ⟨100, 100⟩).insert exampleSession, calls⟩

/-- The server has read all that arrived, and answered it. -/
structure Waiting (calls : Nat) (arrived written : List UInt8) (s : Tcp Nat) : Prop where
  shared : s.shared = bulkShared calls
  phase : s.task.phase = .loop exampleSession .fetch
  recv : s.task.chan.recv = ⟨[], .wouldBlock⟩
  send : s.task.chan.send = ⟨written, none⟩
  arrived : Server.arrivedBytes s.task.chan.log = arrived

/-- A request arrives, and then its answer. -/
theorem Waiting.replied {resp : Frame.Response} {c : TcpClient} {s : Tcp Nat} {calls : Nat}
    {arrived written rest : List UInt8} (h : Waiting calls arrived written s) {opcode : UInt16}
    {seq : UInt32} {answer : Frame.Response}
    (hhandler : (bulkServer resp).handlers opcode =
      some (.sync fun _ calls => .returned (.ok answer) (calls + 1)))
    (hread : readRequestAsync keyTagAead ⟨(exampleRequest opcode seq).bytes, .wouldBlock⟩
      (some exampleSession.key) = .ok ((⟨opcode, none⟩, seq), ⟨[], .wouldBlock⟩))
    (hwritten : c.stream.send.written = arrived ++ ((exampleRequest opcode seq).bytes ++ rest))
    (hreceived : c.stream.received = written) (hrecv : c.stream.recv = ⟨[], .wouldBlock⟩) :
    ∃ s', ReachesBy (talkStep (bulkServer resp) 1) onlyDo ⟨c, s⟩ ⟨c.holding
        (Server.replyBytes keyTagAead exampleNonce exampleSession.key seq answer), s'⟩ ∧
      Waiting (calls + 1) (arrived ++ (exampleRequest opcode seq).bytes)
        (written ++ Server.replyBytes keyTagAead exampleNonce exampleSession.key seq answer) s' := by
  obtain ⟨sh, ⟨⟨recv, send, log⟩, phase⟩⟩ := s
  obtain ⟨rfl, rfl, rfl, rfl, rfl⟩ := h
  have harrives : ReachesBy (talkStep (bulkServer resp) 1) onlyDo
      ⟨c, ⟨bulkShared calls, ⟨⟨⟨[], .wouldBlock⟩, ⟨written, none⟩, log⟩,
        .loop exampleSession .fetch⟩⟩⟩
      ⟨c, ⟨bulkShared calls, ⟨⟨⟨(exampleRequest opcode seq).bytes, .wouldBlock⟩, ⟨written, none⟩,
        log ++ [.arrived 0 (exampleRequest opcode seq).bytes]⟩, .loop exampleSession .fetch⟩⟩⟩ :=
    requested_reaches rfl hwritten
  have hget : (bulkShared calls).store.get exampleSession.id = some exampleSession := by rfl
  have hfresh : Server.expiryCheck (bulkShared calls).store (bulkShared calls).now
      (some exampleSession) = false := by rfl
  have hserves : ∃ log', ReachesBy (talkStep (bulkServer resp) 1) onlyDo
      ⟨c, ⟨bulkShared calls, ⟨⟨⟨(exampleRequest opcode seq).bytes, .wouldBlock⟩, ⟨written, none⟩,
        log ++ [.arrived 0 (exampleRequest opcode seq).bytes]⟩, .loop exampleSession .fetch⟩⟩⟩
      ⟨c, ⟨bulkShared (calls + 1), ⟨⟨⟨[], .wouldBlock⟩,
        ⟨written ++ Server.replyBytes keyTagAead exampleNonce exampleSession.key seq answer, none⟩,
        log'⟩, .loop exampleSession .fetch⟩⟩⟩ ∧
      Server.arrivedBytes log' =
        Server.arrivedBytes (log ++ [.arrived 0 (exampleRequest opcode seq).bytes]) :=
    serve_reaches exampleNonce hget hfresh hread hhandler rfl rfl
  obtain ⟨log', hserves, hlog⟩ := hserves
  have hback : ReachesBy (talkStep (bulkServer resp) 1) onlyDo
      ⟨c, ⟨bulkShared (calls + 1), ⟨⟨⟨[], .wouldBlock⟩,
        ⟨written ++ Server.replyBytes keyTagAead exampleNonce exampleSession.key seq answer, none⟩,
        log'⟩, .loop exampleSession .fetch⟩⟩⟩ ⟨c.holding _, _⟩ :=
    arrives_reaches hrecv (congrArg (· ++ _) hreceived.symm)
  refine ⟨_, harrives.trans (hserves.trans hback), rfl, rfl, rfl, rfl, ?_⟩
  dsimp only
  rw [hlog, Server.arrivedBytes_append]
  simp [Server.arrivedBytes]

/-- The answer to the second request. -/
def exampleAnswer : Frame :=
  ⟨1, exampleNonce.bytes ++ ([0, 0x0D, 0] ++ exampleSession.key.take tagSize)⟩

theorem waiting_joined (resp : Frame.Response) : ∃ s,
    ReachesBy (talkStep (bulkServer resp) 1) onlyDo exampleTalk
      ⟨exampleTalk.left, s⟩ ∧
    Waiting 0 (anonymousHello 1) exampleJoining.reply s := by
  have hinsert : talkStep (bulkServer resp) 1 exampleTalk
      (.right (.run exampleNonce)) = some ⟨exampleTalk.left,
        ⟨bulkShared 0, ⟨⟨⟨[], .wouldBlock⟩, ⟨exampleJoining.reply, none⟩,
          [.arrived 0 (anonymousHello 1), .established exampleSession]⟩,
          .loop exampleSession .fetch⟩⟩⟩ := rfl
  have hdo : onlyDo (.right (.run exampleNonce) : TalkAction Nat) := trivial
  exact ⟨_, .single hdo hinsert, rfl, rfl, rfl, rfl, List.append_nil _⟩

/-- A response whose length wraps: the client takes the front for the whole answer,
and then reads lengths beyond the limit, one for each call. -/
structure Wraps (resp : Frame.Response) (front : List UInt8) (words : List UInt32) : Prop where
  body : ∃ body, encodeResponseBody keyTagAead exampleNonce (some exampleSession.key) resp = .ok body ∧
    front.length = (totalLen body).toNat ∧ totalLen body ≤ maxFrameSize ∧
    u32.toBeBytes 0 ++ body = front ++ words.flatMap u32.toBeBytes
  lengths : ∀ frameLen ∈ words, maxFrameSize < frameLen

theorem Wraps.replyBytes {resp : Frame.Response} {front : List UInt8} {words : List UInt32}
    (h : Wraps resp front words) : ∃ frameLen : UInt32, frameLen ≤ maxFrameSize ∧
      front.length = frameLen.toNat ∧
      Server.replyBytes keyTagAead exampleNonce exampleSession.key 0 resp =
        u32.toBeBytes frameLen ++ (front ++ words.flatMap u32.toBeBytes) := by
  obtain ⟨body, hbody, hfront, hmax, hsplit⟩ := h.body
  refine ⟨totalLen body, hmax, hfront, ?_⟩
  have hframe : encodeFrame 0 body = .ok (Frame.bytes ⟨0, body⟩) := encodeFrame_ok_iff.mpr ⟨hmax, rfl⟩
  unfold Server.replyBytes
  rw [hbody]
  dsimp only
  rw [hframe, ← hsplit]
  rfl

theorem fits_exampleRequest (opcode : UInt16) (seq seq' : UInt32) :
    Frame.Fits ⟨seq', (exampleRequest opcode seq).data⟩ := by
  have hlength : (exampleRequest opcode seq).data.length = 30 := rfl
  unfold Frame.Fits
  rw [hlength, toNat_maxFrameSize]
  decide

/-- The first call reads the front. -/
theorem wrapped_read {resp : Frame.Response} {front : List UInt8} {words : List UInt32}
    (h : Wraps resp front words) : ∃ c s,
      ReachesBy (talkStep (bulkServer resp) 1) onlyDo exampleTalk ⟨c, s⟩ ∧
      c.Free ∧ c.sessionKey = exampleSession.key ∧ c.seq = 1 ∧
      c.stream.recv = ⟨words.flatMap u32.toBeBytes, .wouldBlock⟩ ∧
      c.stream.send.written = anonymousHello 1 ++ (exampleRequest 5 0).bytes ∧
      Waiting 1 (anonymousHello 1 ++ (exampleRequest 5 0).bytes) c.stream.received s := by
  obtain ⟨frameLen, hmax, hfront, hreply⟩ := h.replyBytes
  obtain ⟨s, hjoined, hwaiting⟩ := waiting_joined resp
  let asked := exampleTalk.left.asked ⟨5, none⟩ (exampleRequest 5 0)
  have hbody : encodeRequestBody keyTagAead exampleNonce (some exampleTalk.left.sessionKey)
      ⟨5, none⟩ = .ok (exampleRequest 5 0).data := by rfl
  have hasked : ReachesBy (callStep keyTagAead) CallAction.doing exampleTalk.left asked :=
    asked_reaches ⟨rfl, rfl⟩ hbody (fits_exampleRequest 5 0 0)
  have hhandler : (bulkServer resp).handlers 5 =
      some (.sync fun _ calls => .returned (.ok resp) (calls + 1)) := rfl
  have hread : readRequestAsync keyTagAead ⟨(exampleRequest 5 0).bytes, .wouldBlock⟩
      (some exampleSession.key) = .ok ((⟨5, none⟩, 0), ⟨[], .wouldBlock⟩) := by rfl
  have hwritten : asked.stream.send.written =
      anonymousHello 1 ++ ((exampleRequest 5 0).bytes ++ []) := by
    rw [List.append_nil]
    rfl
  have hreceived : asked.stream.received = exampleJoining.reply := List.append_nil _
  obtain ⟨s', hreplied, hwaiting'⟩ := hwaiting.replied hhandler hread hwritten hreceived rfl
  rw [hreply] at hreplied hwaiting'
  let holding := asked.holding (u32.toBeBytes frameLen ++ (front ++ words.flatMap u32.toBeBytes))
  have hguard : holding.guard = some ⟨0, .do_, exampleRequest 5 0, .sizing []⟩ := rfl
  have hwhole : ReachesBy (callStep keyTagAead) CallAction.doing holding _ :=
    whole_reaches hguard rfl hmax hfront rfl
  refine ⟨_, s', hjoined.trans ((left_reaches s hasked).trans (hreplied.trans
    (left_reaches s' hwhole))), ⟨rfl, rfl⟩, rfl, rfl, rfl, rfl, ?_⟩
  have hsame : exampleJoining.reply ++
      (u32.toBeBytes frameLen ++ (front ++ words.flatMap u32.toBeBytes)) =
        exampleJoining.reply ++ u32.toBeBytes frameLen ++ front ++ words.flatMap u32.toBeBytes := by
    simp only [List.append_assoc]
  rw [hsame] at hwaiting'
  exact hwaiting'

/-- The last call reads the answer to the second one's request. -/
theorem wrapped_misread {resp : Frame.Response} {front : List UInt8} {frameLen : UInt32} {words : List UInt32}
    (h : Wraps resp front (frameLen :: words)) (hlength : words.length + 1 < 2 ^ 32) : ∃ l,
      ReachesBy (talkStep (bulkServer resp) 1) onlyDo exampleTalk l ∧
      ∃ call ∈ l.left.calls, ∃ frame, call.phase = .answered frame ⟨.success, some .new, 1⟩ ∧
        frame.seq ≠ 1 := by
  obtain ⟨c, s, hjoined, hfree, hkey, hseq, hrecv, hsent, hwaiting⟩ := wrapped_read h
  obtain ⟨hmax, hrest⟩ := List.forall_mem_cons.mp h.lengths
  have hbody : encodeRequestBody (bulkServer resp).aead exampleNonce (some c.sessionKey) ⟨6, none⟩ =
      .ok (exampleRequest 6 1).data := by
    rw [hkey]
    rfl
  have hwords : c.stream.recv.bytes = u32.toBeBytes frameLen ++ words.flatMap u32.toBeBytes := by
    rw [hrecv]
    rfl
  obtain ⟨c₁, hfirst, hone, hbytes, hwritten⟩ :=
    overlong_round hfree hbody (fits_exampleRequest 6 1 c.seq) hmax hwords
  rw [← hone.key] at hbody
  obtain ⟨c₂, hmore, hothers, hnone⟩ :=
    overlong_run hone.free hrest hbody (fits_exampleRequest 6 1) hbytes
  have hall := hone.trans hothers
  have hrecv₂ : c₂.stream.recv = ⟨[], .wouldBlock⟩ := by
    have hending : c₂.stream.recv.ending = .wouldBlock := by rw [hall.ending, hrecv]
    rw [← hnone, ← hending]
  have hhandler : (bulkServer resp).handlers 6 =
      some (.sync fun _ calls => .returned (.ok (newResponse .new)) (calls + 1)) := rfl
  have hread : readRequestAsync keyTagAead ⟨(exampleRequest 6 1).bytes, .wouldBlock⟩
      (some exampleSession.key) = .ok ((⟨6, none⟩, 1), ⟨[], .wouldBlock⟩) := by rfl
  obtain ⟨more, hmore'⟩ := hothers.written
  rw [hwritten, hseq, hsent, List.append_assoc] at hmore'
  obtain ⟨s', hreplied, -⟩ :=
    hwaiting.replied hhandler hread hmore'.symm hall.received hrecv₂
  rw [← hothers.key] at hbody
  have hreply : Server.replyBytes keyTagAead exampleNonce exampleSession.key 1 (newResponse .new) =
      u32.toBeBytes 35 ++ exampleAnswer.body := by rfl
  have hdecode : decodeResponse (bulkServer resp).aead (some c₂.sessionKey) exampleAnswer.body =
      .ok ⟨.success, some .new, 1⟩ := by
    rw [hall.key, hkey]
    rfl
  rw [hreply] at hreplied
  have hfree₂ : (c₂.holding (u32.toBeBytes 35 ++ exampleAnswer.body)).Free :=
    ⟨hall.free.guard, hall.free.room⟩
  have hmax₂ : (35 : UInt32) ≤ maxFrameSize := by decide
  have hlast := answered_round hfree₂ hbody (fits_exampleRequest 6 1 c₂.seq) hmax₂ rfl rfl hdecode
  obtain ⟨c₃, hlast, hcalls⟩ := hlast
  refine ⟨⟨c₃, s'⟩, hjoined.trans ((left_reaches s (hfirst.trans hmore)).trans
    (hreplied.trans (left_reaches s' hlast))), ⟨.do_, ⟨6, none⟩, _⟩, ?_,
      ⟨c₂.seq, (exampleRequest 6 1).data⟩, rfl, ?_⟩
  · rw [hcalls]
    exact List.mem_append_right _ List.mem_cons_self
  · -- the counter has moved on by the number of calls in between
    intro hsame
    have hcount := congrArg UInt32.toNat (hall.seq.symm.trans hsame)
    have hlt : 1 + words.length < 2 ^ 32 := by omega
    rw [hseq, UInt32.toNat_add, UInt32.toNat_ofNat_of_lt' hlt] at hcount
    simp only [UInt32.reduceToNat] at hcount
    omega

/-- A map with one entry of this many bytes `0xFF`. -/
def flood (size : Nat) : Tlv.Map := ⟨[("data", .bytes (List.replicate size 0xFF))]⟩

/-- What its encoding has before these bytes. -/
def floodHead (size : Nat) : List UInt8 :=
  let entry := Tlv.encode (.string "data") ++ 0x02 :: Tlv.encodeVarint (UInt64.ofNat size)
  0x0D :: (Tlv.encodeVarint (UInt64.ofNat (entry.length + size)) ++ entry)

theorem encodeMap_flood (size : Nat) :
    Tlv.encodeMap (flood size) = floodHead size ++ List.replicate size 0xFF := by
  have hdata : Tlv.encode (.bytes (List.replicate size 0xFF)) =
      0x02 :: Tlv.encodeVarint (UInt64.ofNat size) ++ List.replicate size 0xFF := by
    rw [Tlv.encode, Tlv.frameElement, Tlv.payloadBytes, List.length_replicate]
    rfl
  have hentry : Tlv.payloadBytes (.map (flood size)) = (Tlv.encode (.string "data") ++
      0x02 :: Tlv.encodeVarint (UInt64.ofNat size)) ++ List.replicate size 0xFF := by
    rw [Tlv.payloadBytes_map, flood, List.flatMap_singleton, Tlv.encodeEntry, hdata,
      List.append_assoc]
  rw [Tlv.encodeMap, Tlv.encode, Tlv.frameElement, hentry, List.length_append,
    List.length_replicate, ← List.append_assoc]
  rfl

def floodResponse (size : Nat) : Frame.Response := ⟨.success, some (flood size), 0⟩

theorem sealed_flood (size : Nat) : encodeResponseBody keyTagAead exampleNonce
    (some exampleSession.key) (floodResponse size) = .ok (exampleNonce.bytes ++
      (0 :: (floodHead size ++ List.replicate size 0xFF) ++ exampleSession.key.take tagSize)) := by
  rw [← encodeMap_flood]
  rfl

theorem flatMap_replicate_max (count : Nat) :
    (List.replicate count 0xFFFFFFFF).flatMap u32.toBeBytes = List.replicate (4 * count) 0xFF := by
  induction count with
  | zero => rfl
  | succ count ih =>
    have hword : u32.toBeBytes 0xFFFFFFFF = List.replicate 4 0xFF := by rfl
    rw [List.replicate_succ, List.flatMap_cons, ih, hword, List.replicate_append_replicate,
      Nat.mul_succ, Nat.add_comm]

/-- The lengths that the client reads in the rest of it: all but the last four are
of the bytes of the map, and these are of the tag. -/
def floodWords (count : Nat) : List UInt32 :=
  List.replicate count 0xFFFFFFFF ++ [0x69767469, 0x2E626F70, 0x6F7A6E70, 0x76740101]

theorem wraps_flood {count : Nat} (hhead : (floodHead (16 + 4 * count)).length = 18)
    (hlength : UInt32.ofNat (63 + 4 * count) = 47) :
    ∃ front, Wraps (floodResponse (16 + 4 * count)) front (floodWords count) := by
  have htotal : totalLen (exampleNonce.bytes ++ (0 :: (floodHead (16 + 4 * count) ++
      List.replicate (16 + 4 * count) 0xFF) ++ exampleSession.key.take tagSize)) = 51 := by
    have htag : (exampleSession.key.take tagSize).length = 16 := rfl
    have hsum : 12 + (18 + (16 + 4 * count) + 1 + 16) = 63 + 4 * count := by omega
    unfold totalLen
    rw [List.length_append, exampleNonce.length_bytes, nonceSize, List.length_append, htag,
      List.length_cons, List.length_append, hhead, List.length_replicate, hsum, hlength]
    rfl
  refine ⟨u32.toBeBytes 0 ++ (exampleNonce.bytes ++
    (0 :: (floodHead (16 + 4 * count) ++ List.replicate 16 0xFF))),
    ⟨_, sealed_flood _, ?_, ?_, ?_⟩, ?_⟩
  · rw [htotal, List.length_append, u32.length_toBeBytes, List.length_append,
      exampleNonce.length_bytes, nonceSize, List.length_cons, List.length_append, hhead,
      List.length_replicate]
    rfl
  · rw [htotal]
    decide
  · have htag : [0x69767469, 0x2E626F70, 0x6F7A6E70, 0x76740101].flatMap u32.toBeBytes =
        exampleSession.key.take tagSize := by rfl
    rw [floodWords, List.flatMap_append, flatMap_replicate_max, htag,
      ← List.replicate_append_replicate]
    simp only [List.append_assoc, List.cons_append]
  · intro frameLen hin
    obtain hmax | htag := List.mem_append.mp hin
    · rw [List.eq_of_mem_replicate hmax]
      decide
    · have hall : ([0x69767469, 0x2E626F70, 0x6F7A6E70, 0x76740101] : List UInt32).all
          (fun frameLen => decide (maxFrameSize < frameLen)) = true := by rfl
      exact of_decide_eq_true (List.all_eq_true.mp hall frameLen htag)

theorem flood_misread {count : Nat} (hhead : (floodHead (16 + 4 * (count + 1))).length = 18)
    (hlength : UInt32.ofNat (63 + 4 * (count + 1)) = 47) (hshort : count + 5 < 2 ^ 32) : ∃ l,
      ReachesBy (talkStep (bulkServer (floodResponse (16 + 4 * (count + 1)))) 1) onlyDo
        exampleTalk l ∧ Misread l := by
  obtain ⟨front, hwraps⟩ := wraps_flood hhead hlength
  have hwords : floodWords (count + 1) = 0xFFFFFFFF :: floodWords count := rfl
  rw [hwords] at hwraps
  have hlt : (floodWords count).length + 1 < 2 ^ 32 := by
    rw [floodWords, List.length_append, List.length_replicate]
    exact hshort
  obtain ⟨l, hreaches, call, hcall, frame, hphase, hseq⟩ := wrapped_misread hwraps hlt
  exact ⟨l, hreaches, call, hcall, frame, _, hphase, by decide, hseq.symm⟩

theorem wrapped_response_misread : ∃ l,
    ReachesBy (talkStep (bulkServer (floodResponse (2 ^ 32))) 1) onlyDo
      exampleTalk l ∧ Misread l ∧
    ¬∃ place, Corresponds (bulkServer (floodResponse (2 ^ 32))) exampleJoining l place := by
  have hsize : 16 + 4 * (2 ^ 30 - 5 + 1) = 2 ^ 32 := by norm_num
  have hhead : (floodHead (16 + 4 * (2 ^ 30 - 5 + 1))).length = 18 := by decide
  have hlength : UInt32.ofNat (63 + 4 * (2 ^ 30 - 5 + 1)) = 47 := by decide
  obtain ⟨l, hreaches, hmisread⟩ := flood_misread hhead hlength (by decide)
  rw [hsize] at hreaches
  exact ⟨l, hreaches, hmisread, hmisread.not_corresponds⟩

end Hush.Client
