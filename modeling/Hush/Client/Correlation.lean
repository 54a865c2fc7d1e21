import Hush.Client.Calls
import Hush.Server.Conversation

/-! Which answer a call on a TCP connection gets. The client never compares
sequence numbers: a call reads the next frame that the server wrote. -/
namespace Hush.Client

open Hush.Foundation BigEndian Execution Link Stream
open Hush.Frame hiding Response
open Hush.Session
open Hush.Server (NetAction Tcp TcpAction TcpTask Joining Exchange Event Conversed Carries Answer
  ResponseKept Shared answers reads arrivedBytes tcpServe tcpGreeter)

variable {σ : Type} {srv : Server.Server σ} {join : Joining}

/-! ### The connection -/

/-- The server's writes do not fail: what a failed write loses looks to the client
like bytes that never arrive. -/
def keepsWriting : TcpAction σ → Bool
  | .net action => action.keepsWriting
  | _ => true

def servingParty (srv : Server.Server σ) (sid : UInt64) : Party (Tcp σ) (TcpAction σ) UInt8 :=
  (tcpGreeter srv sid).party.restrict fun _ action => keepsWriting action

/-- A client and the connection's task on the server. -/
abbrev Talk (σ : Type) := Pair TcpClient (Tcp σ)

abbrev TalkAction (σ : Type) := LinkAction CallAction (TcpAction σ)

def talkStep (srv : Server.Server σ) (sid : UInt64) : Talk σ → TalkAction σ → Option (Talk σ) :=
  linkStep (callParty srv.aead) (servingParty srv sid)

/-- Both sides after the handshake: its bytes were written and read, and the server
is about to insert the session. -/
def joined (join : Joining) (sh : Shared σ) : Talk σ :=
  ⟨⟨join.est.sessionKey, 0, ⟨⟨[], .wouldBlock⟩, ⟨join.hello, none⟩, join.reply⟩, [], none⟩,
    ⟨sh, ⟨⟨⟨[], .wouldBlock⟩, ⟨join.reply, none⟩, [.arrived sh.now join.hello]⟩,
      .insert join.est⟩⟩⟩

/-- A request whose sealed body fits a frame, or is refused. -/
def RequestKept (req : Request) : Prop :=
  LengthKept
    ((appendPayload (u16.toBeBytes req.opcode) req.payload).length + (nonceSize + tagSize))

/-- No length of a frame so far has wrapped to one within the limit. -/
structure LengthsKept (l : Talk σ) : Prop where
  requests : ∀ call ∈ l.left.calls, RequestKept call.req
  responses : ∀ answer ∈ answers l.right.task.chan.log, ResponseKept answer.2.2

/-! ### What a call gets -/

/-- The response of a call is an answer of the server, as it arrives; unless its
status is that the session has expired, it is the one to the call's own request. -/
structure Got (srv : Server.Server σ) (join : Joining) (log : List Event) (req : Request)
    (frame : Frame) (resp : Frame.Response) (place : Nat) : Prop where
  request : Encodes srv.aead join.est.sessionKey req frame
  answer : ∃ cause seq sent, (answers log)[place]? = some (cause, seq, sent) ∧
    resp = ⟨sent.status, arrival sent.payload, seq⟩ ∧
    (Sendable sent.payload → Receivable sent.payload → resp.payload = sent.payload) ∧
    (resp.status ≠ .sessionExpired → resp.seq = frame.seq ∧
      (reads log)[place]? = some (join.est.sessionKey, frame) ∧
      ∃ sess app, join.Opens sess ∧
        (tcpServe srv sess ⟨req.opcode, arrival req.payload⟩ seq app).answer =
          some (cause, sent))

def TcpClient.Answered (c : TcpClient) (index : Nat) : Prop :=
  ∃ call frame resp, c.calls[index]? = some call ∧ call.phase = .answered frame resp

/-- Every call that returned a response got the answer at its place, and no two
have the same place. -/
structure Corresponds (srv : Server.Server σ) (join : Joining) (l : Talk σ) (place : Nat → Nat) :
    Prop where
  got : ∀ {index : Nat} {call : Call} {frame : Frame} {resp : Frame.Response},
    l.left.calls[index]? = some call → call.phase = .answered frame resp →
      Got srv join l.right.task.chan.log call.req frame resp (place index)
  apart : ∀ {i j : Nat}, l.left.Answered i → l.left.Answered j → place i = place j → i = j

/-! ### The invariant -/

/-- What the holder of the guard has written and read. -/
def GuardAt (g : Guard) (said heard : List UInt8) : Prop :=
  match g.phase with
  | .writing left => said ++ left = g.frame.bytes ∧ heard = []
  | .sizing got => said = g.frame.bytes ∧ heard = got
  | .filling frameLen got => said = g.frame.bytes ∧
      ∃ lenBuf, lenBuf.length = 4 ∧ frameLen = u32.fromBeBytes lenBuf ∧ heard = lenBuf ++ got
  | .streaming => said = g.frame.bytes

/-- The request is still being written, or was written whole. -/
theorem GuardAt.said_eq {g : Guard} {said heard : List UInt8} (h : GuardAt g said heard) :
    (∃ left, g.phase = .writing left ∧ said ++ left = g.frame.bytes ∧ heard = []) ∨
      said = g.frame.bytes := by
  unfold GuardAt at h
  split at h
  · rename_i left hphase
    exact .inl ⟨left, hphase, h⟩
  · exact .inr h.1
  · exact .inr h.1
  · exact .inr h

def Current (c : TcpClient) (said heard : List UInt8) : Prop :=
  match c.guard with
  | none => said = [] ∧ heard = []
  | some g => g.frame.Fits ∧ GuardAt g said heard

/-- The requests of the calls that have given the guard back were written whole,
and so many answers were read, whole too; the rest is the current call's. -/
structure InTurn (join : Joining) (c : TcpClient) (exs : List Exchange) (closed : List Frame)
    (said heard : List UInt8) : Prop where
  written : c.stream.send.written = join.hello ++ (closed.flatMap (·.bytes) ++ said)
  taken : c.stream.taken = join.reply ++ ((exs.take closed.length).flatMap (·.out) ++ heard)
  enough : closed.length ≤ exs.length
  fits : ∀ frame ∈ closed, frame.Fits
  current : Current c said heard

/-- The client's calls are in turn; or no more of them is written; or no more of
them reads a byte. -/
inductive Mode (join : Joining) (c : TcpClient) (task : TcpTask) (exs : List Exchange)
    (place : Nat → Nat) : Prop where
  | inTurn {closed : List Frame} {said heard : List UInt8} :
      InTurn join c exs closed said heard →
      (∀ index, c.Answered index → place index < closed.length) → Mode join c task exs place
  | mute {kind : ErrorKind} : c.stream.send.room = some (0, kind) →
      (∀ g, c.guard = some g → ∃ left, g.phase = .writing left) → Mode join c task exs place
  | deaf : c.stream.recv.bytes = [] →
      (c.stream.recv.ending ≠ .wouldBlock ∨
        task.phase.isOver = true ∧ c.stream.received = task.chan.send.written) →
      Mode join c task exs place

structure Corresponding (srv : Server.Server σ) (join : Joining) (l : Talk σ) : Prop where
  inOrder : InOrder (callParty srv.aead) (servingParty srv join.sid) l
  calls : CallsOk srv.aead l.left
  key : l.left.sessionKey = join.est.sessionKey
  mode : ∃ exs waiting last, Conversed srv join l.right.task exs waiting last ∧
    (LengthsKept l → ∃ place, Mode join l.left l.right.task exs place ∧ Corresponds srv join l place)

/-! ### Frames at the start of what was written -/

/-- Four bytes at the start of some answers are the length of the first that was
written at all. -/
theorem header_of_answers {aead : Aead} {key lenBuf : List UInt8}
    {parts : List (Answer × List UInt8)} (hparts : ∀ part ∈ parts, Carries aead key part.1 part.2)
    (hlen : lenBuf.length = 4) (hfront : lenBuf <+: parts.flatMap (·.2)) :
    ∃ before part after, parts = before ++ part :: after ∧ before.flatMap (·.2) = [] ∧
      ∃ frame : Frame, frame.Fits ∧ part.2 = frame.bytes ∧
        lenBuf = u32.toBeBytes (totalLen frame.data) ∧
        decodeResponse aead (some key) frame.body =
          .ok ⟨part.1.2.2.status, arrival part.1.2.2.payload, part.1.2.1⟩ := by
  induction parts with
  | nil =>
    rw [List.flatMap_nil, List.prefix_nil] at hfront
    rw [hfront] at hlen
    cases hlen
  | cons part parts ih =>
    obtain ⟨hpart, hparts⟩ := List.forall_mem_cons.mp hparts
    rw [List.flatMap_cons] at hfront
    obtain hnone | ⟨frame, hfits, hbytes, hdecode⟩ := hpart
    · rw [hnone, List.nil_append] at hfront
      obtain ⟨before, next, after, rfl, hbefore, hnext⟩ := ih hparts hfront
      refine ⟨part :: before, next, after, rfl, ?_, hnext⟩
      rw [List.flatMap_cons, hnone, hbefore]
      rfl
    · refine ⟨[], part, parts, rfl, rfl, frame, hfits, hbytes, ?_, hdecode⟩
      have hheader : u32.toBeBytes (totalLen frame.data) <+: part.2 ++ parts.flatMap (·.2) := by
        rw [hbytes]
        unfold Frame.bytes
        rw [List.append_assoc]
        exact List.prefix_append _ _
      have hsame : lenBuf.length = (u32.toBeBytes (totalLen frame.data)).length := by
        rw [hlen, u32.length_toBeBytes]
      exact (List.prefix_of_prefix_length_le hfront hheader hsame.le).eq_of_length hsame

/-- A length and so many bytes are all of that answer. -/
theorem whole_of_answers {aead : Aead} {key lenBuf rest : List UInt8}
    {parts : List (Answer × List UInt8)} (hparts : ∀ part ∈ parts, Carries aead key part.1 part.2)
    (hlen : lenBuf.length = 4) (hrest : rest.length = (u32.fromBeBytes lenBuf).toNat)
    (hfront : lenBuf ++ rest <+: parts.flatMap (·.2)) :
    ∃ before part after, parts = before ++ part :: after ∧ before.flatMap (·.2) = [] ∧
      lenBuf ++ rest = part.2 ∧ decodeResponse aead (some key) rest =
        .ok ⟨part.1.2.2.status, arrival part.1.2.2.payload, part.1.2.1⟩ := by
  obtain ⟨before, part, after, rfl, hbefore, frame, hfits, hbytes, rfl, hdecode⟩ :=
    header_of_answers hparts hlen ((List.prefix_append _ _).trans hfront)
  rw [u32.fromBeBytes_toBeBytes, hfits.toNat_totalLen, ← Frame.length_body] at hrest
  rw [List.flatMap_append, hbefore, List.nil_append, List.flatMap_cons, hbytes] at hfront
  unfold Frame.bytes at hfront
  rw [List.append_assoc, List.prefix_append_right_inj] at hfront
  have hbody : rest = frame.body :=
    (List.prefix_of_prefix_length_le hfront (List.prefix_append _ _) hrest.le).eq_of_length hrest
  rw [hbody]
  exact ⟨before, part, after, rfl, hbefore, hbytes.symm, hdecode⟩

namespace InTurn

variable {c : TcpClient} {task : TcpTask} {exs : List Exchange} {waiting closed : List Frame}
  {last : List (Answer × List UInt8)} {said heard : List UInt8}

/-- The requests that the server has read are the first of those written. -/
theorem heads (h : InTurn join c exs closed said heard)
    (hconv : Conversed srv join task exs waiting last)
    (harrived : arrivedBytes task.chan.log <+: c.stream.send.written) {more : List Frame}
    {tail : List UInt8} (hsaid : said = more.flatMap (·.bytes) ++ tail)
    (hmore : ∀ frame ∈ more, frame.Fits) (htail : NoFrame Frame.bytes Frame.Fits tail) :
    exs.map (·.frame) ++ waiting <+: closed ++ more := by
  have hfront := hconv.arrived.trans harrived
  rw [h.written, List.prefix_append_right_inj, hconv.readBytes_eq, hsaid] at hfront
  obtain ⟨rest, hrest⟩ := hfront
  have hall : ∀ frame ∈ closed ++ more, frame.Fits := by
    intro frame hin
    obtain hold | hnew := List.mem_append.mp hin
    · exact h.fits frame hold
    · exact hmore frame hnew
  have hsame : (exs.map (·.frame) ++ waiting).flatMap Frame.bytes ++ rest =
      (closed ++ more).flatMap Frame.bytes ++ tail := by
    rw [hrest, List.flatMap_append, List.append_assoc]
  exact framing.front_of_flatMap ErrorKind.wouldBlock hconv.fits hall htail hsame

/-- What is still to be read is the rest of the answers. -/
theorem unheard (h : InTurn join c exs closed said heard)
    (hconv : Conversed srv join task exs waiting last)
    (hreceived : c.stream.received <+: task.chan.send.written) :
    heard ++ c.stream.recv.bytes <+:
      ((exs.drop closed.length).map (fun ex => (ex.answer, ex.out)) ++ last).flatMap (·.2) := by
  have hsplit : exs.flatMap (·.out) = (exs.take closed.length).flatMap (·.out) ++
      (exs.drop closed.length).flatMap (·.out) := by
    rw [← List.flatMap_append, List.take_append_drop]
  unfold Endpoint.received at hreceived
  rw [h.taken, hconv.written, hsplit] at hreceived
  simp only [List.append_assoc] at hreceived
  rw [List.flatMap_append, List.flatMap_map]
  exact (List.prefix_append_right_inj _).mp ((List.prefix_append_right_inj _).mp hreceived)

end InTurn

/-! ### The calls that got a response -/

theorem Got.log_grows {log log' : List Event} {req : Request} {frame : Frame} {resp : Frame.Response}
    {place : Nat} (h : Got srv join log req frame resp place) (hlog : log <+: log') :
    Got srv join log' req frame resp place := by
  obtain ⟨cause, seq, sent, hanswer, hresp, hwhole, hown⟩ := h.answer
  obtain ⟨events, rfl⟩ := hlog
  refine ⟨h.request, cause, seq, sent, ?_, hresp, hwhole, ?_⟩
  · rw [Server.answers_append,
      List.getElem?_append_left (List.getElem?_eq_some_iff.mp hanswer).1]
    exact hanswer
  · intro hstatus
    obtain ⟨hseq, hread, hserved⟩ := hown hstatus
    refine ⟨hseq, ?_, hserved⟩
    rw [Server.reads_append, List.getElem?_append_left (List.getElem?_eq_some_iff.mp hread).1]
    exact hread

theorem Corresponds.log_grows {c : TcpClient} {s s' : Tcp σ} {place : Nat → Nat}
    (h : Corresponds srv join ⟨c, s⟩ place) (hlog : s.task.chan.log <+: s'.task.chan.log) :
    Corresponds srv join ⟨c, s'⟩ place :=
  ⟨fun hcall hphase => (h.got hcall hphase).log_grows hlog, h.apart⟩

/-- No other call has a response than before. -/
def AnsweredBefore (c c' : TcpClient) : Prop :=
  ∀ {index : Nat} {call : Call} {frame : Frame} {resp : Frame.Response},
    c'.calls[index]? = some call → call.phase = .answered frame resp → c.calls[index]? = some call

theorem AnsweredBefore.of_calls {c c' : TcpClient} (hcalls : c'.calls = c.calls) :
    AnsweredBefore c c' := by
  intro index call frame resp hcall _
  rw [← hcalls]
  exact hcall

theorem AnsweredBefore.of_setPhase {c c' : TcpClient} {index : Nat} {phase : CallPhase}
    (hcalls : c'.calls = (c.setPhase index phase).calls)
    (hphase : ∀ frame resp, phase ≠ .answered frame resp) : AnsweredBefore c c' := by
  intro i call frame resp hcall hanswered
  rw [hcalls] at hcall
  obtain ⟨-, hsame⟩ | ⟨rfl, old, hold, rfl⟩ := TcpClient.call_of_setPhase hcall
  · exact hsame
  · exact absurd hanswered (hphase frame resp)

theorem AnsweredBefore.answered {c c' : TcpClient} (h : AnsweredBefore c c') {index : Nat}
    (hanswered : c'.Answered index) : c.Answered index := by
  obtain ⟨call, frame, resp, hcall, hphase⟩ := hanswered
  exact ⟨call, frame, resp, h hcall hphase, hphase⟩

theorem Corresponds.before {c c' : TcpClient} {s : Tcp σ} {place : Nat → Nat}
    (h : Corresponds srv join ⟨c, s⟩ place) (hbefore : AnsweredBefore c c') :
    Corresponds srv join ⟨c', s⟩ place :=
  ⟨fun hcall hphase => h.got (hbefore hcall hphase) hphase,
    fun hi hj hsame => h.apart (hbefore.answered hi) (hbefore.answered hj) hsame⟩

/-- The call of the guard gets a response, at a place where no other call got one. -/
theorem Corresponds.answer {c : TcpClient} {s : Tcp σ} {place : Nat → Nat}
    (h : Corresponds srv join ⟨c, s⟩ place) {index p : Nat} {call : Call} {frame : Frame}
    {resp : Frame.Response} (stream : Endpoint) (hcall : c.calls[index]? = some call)
    (hgot : Got srv join s.task.chan.log call.req frame resp p)
    (hfresh : ∀ i, c.Answered i → place i ≠ p) :
    Corresponds srv join ⟨c.release stream index (.answered frame resp), s⟩
      (Function.update place index p) := by
  have hnew {i : Nat} {other : Call}
      (hother : (c.release stream index (.answered frame resp)).calls[i]? = some other) :
      (index ≠ i ∧ c.calls[i]? = some other) ∨
        (index = i ∧ other = { call with phase := .answered frame resp }) := by
    obtain ⟨hne, hsame⟩ | ⟨rfl, old, hold, rfl⟩ := TcpClient.call_of_setPhase hother
    · exact .inl ⟨hne, hsame⟩
    · rw [hcall] at hold
      obtain rfl := Option.some.inj hold
      exact .inr ⟨rfl, rfl⟩
  have hanswered {i : Nat} (hi : (c.release stream index (.answered frame resp)).Answered i) :
      i = index ∨ i ≠ index ∧ c.Answered i := by
    obtain ⟨other, frame', resp', hother, hphase⟩ := hi
    obtain ⟨hne, hsame⟩ | ⟨rfl, -⟩ := hnew hother
    · exact .inr ⟨hne.symm, other, frame', resp', hsame, hphase⟩
    · exact .inl rfl
  constructor
  · intro i other frame' resp' hother hphase
    obtain ⟨hne, hsame⟩ | ⟨rfl, rfl⟩ := hnew hother
    · rw [Function.update_of_ne hne.symm]
      exact h.got hsame hphase
    · obtain ⟨rfl, rfl⟩ := CallPhase.answered.inj hphase
      rw [Function.update_self]
      exact hgot
  · intro i j hi hj hsame
    obtain rfl | ⟨hi, hiold⟩ := hanswered hi <;> obtain rfl | ⟨hj, hjold⟩ := hanswered hj
    · rfl
    · rw [Function.update_self, Function.update_of_ne hj] at hsame
      exact absurd hsame.symm (hfresh j hjold)
    · rw [Function.update_self, Function.update_of_ne hi] at hsame
      exact absurd hsame (hfresh i hiold)
    · rw [Function.update_of_ne hi, Function.update_of_ne hj] at hsame
      exact h.apart hiold hjold hsame

end Hush.Client
