import Hush.Client.Endpoint
import Hush.Foundation.Link

/-! A `Client` over TCP. Any number of tasks call `do_` and `start_stream` on it;
a call takes a sequence number, encodes its request, waits for the lock of the
connection, and then writes and reads under it, part by part. Its task may be
dropped between any two of these steps. -/
namespace Hush.Client

open Hush.Foundation BigEndian Link
open Hush.Frame Hush.Session
open Hush.Server (NetAction)

/-- One poll of a read that still wants `need` bytes: it takes some of those that
are there, and waits or fails if there are none. -/
def Endpoint.readSome (stream : Endpoint) (need count : Nat) :
    Option (Except ErrorKind (List UInt8) × Endpoint) :=
  if need = 0 then some (.ok [], stream)
  else if stream.recv.bytes = [] then
    if stream.recv.ending = .wouldBlock then none else some (.error stream.recv.ending, stream)
  else
    let part := stream.recv.bytes.take (min need count)
    some (.ok part, { stream with
      recv := { stream.recv with bytes := stream.recv.bytes.drop (min need count) }
      taken := stream.taken ++ part })

theorem Endpoint.readSome_ok {stream stream' : Endpoint} {need count : Nat} {part : List UInt8}
    (h : stream.readSome need count = some (.ok part, stream')) :
    stream'.send = stream.send ∧ stream'.recv.ending = stream.recv.ending ∧
      stream'.taken = stream.taken ++ part ∧ stream.recv.bytes = part ++ stream'.recv.bytes ∧
      part.length ≤ need := by
  unfold readSome at h
  split at h
  · obtain ⟨hpart, rfl⟩ := Prod.mk.inj (Option.some.inj h)
    obtain rfl := Except.ok.inj hpart
    exact ⟨rfl, rfl, (List.append_nil _).symm, rfl, Nat.zero_le _⟩
  split at h
  · split at h
    · cases h
    · cases (Prod.mk.inj (Option.some.inj h)).1
  · obtain ⟨hpart, rfl⟩ := Prod.mk.inj (Option.some.inj h)
    obtain rfl := Except.ok.inj hpart
    refine ⟨rfl, rfl, rfl, (List.take_append_drop _ _).symm, ?_⟩
    rw [List.length_take]
    omega

theorem Endpoint.readSome_error {stream stream' : Endpoint} {need count : Nat} {kind : ErrorKind}
    (h : stream.readSome need count = some (.error kind, stream')) :
    stream' = stream ∧ stream.recv.bytes = [] ∧ stream.recv.ending ≠ .wouldBlock := by
  unfold readSome at h
  split at h
  · cases (Prod.mk.inj (Option.some.inj h)).1
  split at h
  · rename_i hempty
    split at h
    · cases h
    · rename_i hending
      obtain ⟨-, rfl⟩ := Prod.mk.inj (Option.some.inj h)
      exact ⟨rfl, hempty, hending⟩
  · cases (Prod.mk.inj (Option.some.inj h)).1

inductive CallKind where
  | do_
  | startStream
  deriving DecidableEq, Repr

/-- How far a call has come: `frame` is its sequence number with the body of its
request. A call that is `locked` holds the guard of the connection. -/
inductive CallPhase where
  | called
  | numbered (seq : UInt32)
  | encoded (frame : Frame) (frameBytes : List UInt8)
  | locked
  | answered (frame : Frame) (resp : Response)
  | failed (e : ClientError)
  | dropped

structure Call where
  kind : CallKind
  req : Request
  phase : CallPhase

/-- What the holder of the guard is about: what is left to write, or what it has
read of the length and of the rest. A reader of a stream reads what it likes. -/
inductive GuardPhase where
  | writing (left : List UInt8)
  | sizing (got : List UInt8)
  | filling (frameLen : UInt32) (got : List UInt8)
  | streaming

/-- The guard of the connection's mutex, and the call that holds it. -/
structure Guard where
  index : Nat
  kind : CallKind
  frame : Frame
  phase : GuardPhase

/-- The client, with the calls made on it so far. -/
structure TcpClient where
  sessionKey : List UInt8
  seq : UInt32
  stream : Endpoint
  calls : List Call
  guard : Option Guard

/-- A `write_all` returns when nothing is left; `do_` then reads its answer, and
`start_stream` hands out the guard. -/
def CallKind.wrote (kind : CallKind) (left : List UInt8) : GuardPhase :=
  match left, kind with
  | [], .do_ => .sizing []
  | [], .startStream => .streaming
  | left, _ => .writing left

namespace TcpClient

def setPhase (c : TcpClient) (index : Nat) (phase : CallPhase) : TcpClient :=
  { c with calls := c.calls.modify index fun call => { call with phase } }

/-- The call of the guard returns, and drops the guard. -/
def release (c : TcpClient) (stream : Endpoint) (index : Nat) (phase : CallPhase) : TcpClient :=
  { c.setPhase index phase with stream, guard := none }

/-- A step of a call that does not hold the guard. -/
def runCall (aead : Aead) (nonce : Nonce) (c : TcpClient) (index : Nat) (call : Call) :
    Option TcpClient :=
  match call.phase with
  | .called => some { c.setPhase index (.numbered c.seq) with seq := c.seq + 1 }
  | .numbered seq =>
    match encodeRequestBody aead nonce (some c.sessionKey) call.req with
    | .error e => some (c.setPhase index (.failed (.request e)))
    | .ok reqBody =>
      match encodeFrame seq reqBody with
      | .error e => some (c.setPhase index (.failed (.frame e)))
      | .ok frameBytes => some (c.setPhase index (.encoded ⟨seq, reqBody⟩ frameBytes))
  | .encoded frame frameBytes =>
    match c.guard with
    | some _ => none
    | none =>
      some { c.setPhase index .locked with
        guard := some ⟨index, call.kind, frame, .writing frameBytes⟩ }
  | _ => none

/-- A step of the call that holds the guard: up to `count` bytes are written or read. -/
def runGuard (aead : Aead) (count : Nat) (c : TcpClient) (g : Guard) : Option TcpClient :=
  match g.phase with
  | .writing left =>
    match c.stream.writeAll (left.take count) with
    | (.error kind, stream) => some (c.release stream g.index (.failed (.io kind)))
    | (.ok (), stream) =>
      some { c with stream, guard := some { g with phase := g.kind.wrote (left.drop count) } }
  | .sizing got =>
    match c.stream.readSome (4 - got.length) count with
    | none => none
    | some (.error _, stream) => some (c.release stream g.index (.failed (.io .unexpectedEof)))
    | some (.ok part, stream) =>
      let lenBuf := got ++ part
      if lenBuf.length < 4 then
        some { c with stream, guard := some { g with phase := .sizing lenBuf } }
      else
        let frameLen := u32.fromBeBytes lenBuf
        if maxFrameSize < frameLen then
          some (c.release stream g.index (.failed (.frame (.tooLarge frameLen maxFrameSize))))
        else some { c with stream, guard := some { g with phase := .filling frameLen [] } }
  | .filling frameLen got =>
    match c.stream.readSome (frameLen.toNat - got.length) count with
    | none => none
    | some (.error _, stream) => some (c.release stream g.index (.failed (.io .unexpectedEof)))
    | some (.ok part, stream) =>
      let rest := got ++ part
      if rest.length < frameLen.toNat then
        some { c with stream, guard := some { g with phase := .filling frameLen rest } }
      else
        match decodeResponse aead (some c.sessionKey) rest with
        | .error e => some (c.release stream g.index (.failed (.request e)))
        | .ok resp => some (c.release stream g.index (.answered g.frame resp))
  | .streaming =>
    match c.stream.readSome count count with
    | some (.ok _, stream) => some { c with stream }
    | _ => none

/-- A call that has not returned is dropped, with the guard if it holds it; so is
the reader of a stream. -/
def dropCall (c : TcpClient) (index : Nat) (call : Call) : Option TcpClient :=
  match call.phase with
  | .called | .numbered _ | .encoded _ _ => some (c.setPhase index .dropped)
  | .locked => some (c.release c.stream index .dropped)
  | _ => none

end TcpClient

inductive CallAction where
  | net (action : NetAction)
  | call (kind : CallKind) (req : Request)
  | run (index : Nat) (nonce : Nonce)
  | io (count : Nat)
  | drop (index : Nat)

def callStep (aead : Aead) (c : TcpClient) : CallAction → Option TcpClient
  | .net action => (c.stream.net action).map fun stream => { c with stream }
  | .call kind req => some { c with calls := c.calls ++ [⟨kind, req, .called⟩] }
  | .run index nonce => c.calls[index]?.bind (c.runCall aead nonce index)
  | .io count => c.guard.bind (c.runGuard aead count)
  | .drop index => c.calls[index]?.bind (c.dropCall index)

/-- What a step of the client can do, one case for each way through its code. -/
inductive CallSteps (aead : Aead) (c : TcpClient) : CallAction → TcpClient → Prop where
  | net {action : NetAction} {stream : Endpoint} : c.stream.net action = some stream →
      CallSteps aead c (.net action) { c with stream }
  | called {kind : CallKind} {req : Request} :
      CallSteps aead c (.call kind req) { c with calls := c.calls ++ [⟨kind, req, .called⟩] }
  | numbered {index : Nat} {nonce : Nonce} {call : Call} : c.calls[index]? = some call →
      call.phase = .called →
        CallSteps aead c (.run index nonce)
          { c.setPhase index (.numbered c.seq) with seq := c.seq + 1 }
  | unencoded {index : Nat} {nonce : Nonce} {call : Call} {seq : UInt32} {e : ClientError} :
      c.calls[index]? = some call → call.phase = .numbered seq →
        CallSteps aead c (.run index nonce) (c.setPhase index (.failed e))
  | encoded {index : Nat} {nonce : Nonce} {call : Call} {seq : UInt32}
      {reqBody frameBytes : List UInt8} : c.calls[index]? = some call →
        call.phase = .numbered seq →
        encodeRequestBody aead nonce (some c.sessionKey) call.req = .ok reqBody →
        encodeFrame seq reqBody = .ok frameBytes →
          CallSteps aead c (.run index nonce) (c.setPhase index (.encoded ⟨seq, reqBody⟩ frameBytes))
  | locked {index : Nat} {nonce : Nonce} {call : Call} {frame : Frame} {frameBytes : List UInt8} :
      c.calls[index]? = some call → call.phase = .encoded frame frameBytes → c.guard = none →
        CallSteps aead c (.run index nonce) { c.setPhase index .locked with
          guard := some ⟨index, call.kind, frame, .writing frameBytes⟩ }
  | unwritten {count : Nat} {g : Guard} {left : List UInt8} {kind : ErrorKind} {stream : Endpoint} :
      c.guard = some g → g.phase = .writing left →
      c.stream.writeAll (left.take count) = (.error kind, stream) →
        CallSteps aead c (.io count) (c.release stream g.index (.failed (.io kind)))
  | wrote {count : Nat} {g : Guard} {left : List UInt8} {stream : Endpoint} :
      c.guard = some g → g.phase = .writing left →
      c.stream.writeAll (left.take count) = (.ok (), stream) →
        CallSteps aead c (.io count)
          { c with stream, guard := some { g with phase := g.kind.wrote (left.drop count) } }
  | unread {count need : Nat} {g : Guard} {kind : ErrorKind} {stream : Endpoint} :
      c.guard = some g → (∀ left, g.phase ≠ .writing left) →
      c.stream.readSome need count = some (.error kind, stream) →
        CallSteps aead c (.io count)
          (c.release stream g.index (.failed (.io .unexpectedEof)))
  | sizing {count : Nat} {g : Guard} {got part : List UInt8} {stream : Endpoint} :
      c.guard = some g → g.phase = .sizing got →
      c.stream.readSome (4 - got.length) count = some (.ok part, stream) →
      (got ++ part).length < 4 →
        CallSteps aead c (.io count)
          { c with stream, guard := some { g with phase := .sizing (got ++ part) } }
  | tooLarge {count : Nat} {g : Guard} {got part : List UInt8} {stream : Endpoint} :
      c.guard = some g → g.phase = .sizing got →
      c.stream.readSome (4 - got.length) count = some (.ok part, stream) →
      4 ≤ (got ++ part).length → maxFrameSize < u32.fromBeBytes (got ++ part) →
        CallSteps aead c (.io count) (c.release stream g.index
          (.failed (.frame (.tooLarge (u32.fromBeBytes (got ++ part)) maxFrameSize))))
  | sized {count : Nat} {g : Guard} {got part : List UInt8} {stream : Endpoint} :
      c.guard = some g → g.phase = .sizing got →
      c.stream.readSome (4 - got.length) count = some (.ok part, stream) →
      4 ≤ (got ++ part).length → u32.fromBeBytes (got ++ part) ≤ maxFrameSize →
        CallSteps aead c (.io count) { c with
          stream, guard := some { g with phase := .filling (u32.fromBeBytes (got ++ part)) [] } }
  | filling {count : Nat} {g : Guard} {frameLen : UInt32} {got part : List UInt8}
      {stream : Endpoint} : c.guard = some g → g.phase = .filling frameLen got →
      c.stream.readSome (frameLen.toNat - got.length) count = some (.ok part, stream) →
      (got ++ part).length < frameLen.toNat →
        CallSteps aead c (.io count)
          { c with stream, guard := some { g with phase := .filling frameLen (got ++ part) } }
  | filled {count : Nat} {g : Guard} {frameLen : UInt32} {got part : List UInt8}
      {stream : Endpoint} {phase : CallPhase} : c.guard = some g →
      g.phase = .filling frameLen got →
      c.stream.readSome (frameLen.toNat - got.length) count = some (.ok part, stream) →
      frameLen.toNat ≤ (got ++ part).length →
      phase = (match decodeResponse aead (some c.sessionKey) (got ++ part) with
        | .error e => .failed (.request e)
        | .ok resp => .answered g.frame resp) →
        CallSteps aead c (.io count) (c.release stream g.index phase)
  | streamed {count : Nat} {g : Guard} {part : List UInt8} {stream : Endpoint} :
      c.guard = some g → g.phase = .streaming →
      c.stream.readSome count count = some (.ok part, stream) →
        CallSteps aead c (.io count) { c with stream }
  | dropped {index : Nat} {call : Call} : c.calls[index]? = some call →
      call.phase ≠ .locked → (∀ frame resp, call.phase ≠ .answered frame resp) →
        CallSteps aead c (.drop index) (c.setPhase index .dropped)
  | unlocked {index : Nat} {call : Call} : c.calls[index]? = some call →
      call.phase = .locked →
        CallSteps aead c (.drop index) (c.release c.stream index .dropped)

theorem runCall_steps {aead : Aead} {c c' : TcpClient} {index : Nat} {call : Call} {nonce : Nonce}
    (hcall : c.calls[index]? = some call) (h : c.runCall aead nonce index call = some c') :
    CallSteps aead c (.run index nonce) c' := by
  unfold TcpClient.runCall at h
  split at h
  · rename_i hphase
    obtain rfl := Option.some.inj h
    exact .numbered hcall hphase
  · rename_i seq hphase
    split at h
    · obtain rfl := Option.some.inj h
      exact .unencoded hcall hphase
    · rename_i reqBody hbody
      split at h
      · obtain rfl := Option.some.inj h
        exact .unencoded hcall hphase
      · rename_i frameBytes hframe
        obtain rfl := Option.some.inj h
        exact .encoded hcall hphase hbody hframe
  · rename_i frame frameBytes hphase
    split at h
    · cases h
    · rename_i hfree
      obtain rfl := Option.some.inj h
      exact .locked hcall hphase hfree
  · cases h

theorem runGuard_steps {aead : Aead} {c c' : TcpClient} {g : Guard} {count : Nat}
    (hg : c.guard = some g) (h : c.runGuard aead count g = some c') :
    CallSteps aead c (.io count) c' := by
  unfold TcpClient.runGuard at h
  split at h
  · rename_i left hphase
    split at h <;> rename_i hwrite <;> obtain rfl := Option.some.inj h
    · exact .unwritten hg hphase hwrite
    · exact .wrote hg hphase hwrite
  · rename_i got hphase
    split at h
    · cases h
    · rename_i hread
      obtain rfl := Option.some.inj h
      exact .unread hg (by simp [hphase]) hread
    · rename_i part stream hread
      dsimp only at h
      split at h
      · rename_i hshort
        obtain rfl := Option.some.inj h
        exact .sizing hg hphase hread hshort
      · rename_i hlong
        split at h <;> rename_i hmax <;> obtain rfl := Option.some.inj h
        · exact .tooLarge hg hphase hread (Nat.le_of_not_lt hlong) hmax
        · exact .sized hg hphase hread (Nat.le_of_not_lt hlong) (UInt32.not_lt.mp hmax)
  · rename_i frameLen got hphase
    split at h
    · cases h
    · rename_i hread
      obtain rfl := Option.some.inj h
      exact .unread hg (by simp [hphase]) hread
    · rename_i part stream hread
      dsimp only at h
      split at h
      · rename_i hshort
        obtain rfl := Option.some.inj h
        exact .filling hg hphase hread hshort
      · rename_i hlong
        split at h <;> rename_i hdecode <;> obtain rfl := Option.some.inj h
        · exact .filled hg hphase hread (Nat.le_of_not_lt hlong) (by rw [hdecode])
        · exact .filled hg hphase hread (Nat.le_of_not_lt hlong) (by rw [hdecode])
  · rename_i hphase
    split at h
    · rename_i hread
      obtain rfl := Option.some.inj h
      exact .streamed hg hphase hread
    · cases h

theorem callStep_steps {aead : Aead} {c c' : TcpClient} {action : CallAction}
    (h : callStep aead c action = some c') : CallSteps aead c action c' := by
  cases action with
  | net action =>
    obtain ⟨stream, hstream, rfl⟩ := Option.map_eq_some_iff.mp h
    exact .net hstream
  | call kind req =>
    obtain rfl := Option.some.inj h
    exact .called
  | run index nonce =>
    obtain ⟨call, hcall, hrun⟩ := Option.bind_eq_some_iff.mp h
    exact runCall_steps hcall hrun
  | io count =>
    obtain ⟨g, hg, hrun⟩ := Option.bind_eq_some_iff.mp h
    exact runGuard_steps hg hrun
  | drop index =>
    obtain ⟨call, hcall, hrun⟩ := Option.bind_eq_some_iff.mp h
    unfold TcpClient.dropCall at hrun
    split at hrun
    · rename_i hphase
      obtain rfl := Option.some.inj hrun
      exact .dropped hcall (by simp [hphase]) (by simp [hphase])
    · rename_i hphase
      obtain rfl := Option.some.inj hrun
      exact .dropped hcall (by simp [hphase]) (by simp [hphase])
    · rename_i hphase
      obtain rfl := Option.some.inj hrun
      exact .dropped hcall (by simp [hphase]) (by simp [hphase])
    · rename_i hphase
      obtain rfl := Option.some.inj hrun
      exact .unlocked hcall hphase
    · cases hrun

/-! ### The client at its end of the link -/

/-- Bytes come over the link only, and a connection that stopped taking bytes
takes no more. -/
def CallAction.allowed (c : TcpClient) : CallAction → Bool
  | .net (.deliver _) => false
  | .net (.limit _ _) => c.stream.send.room.isNone
  | _ => true

theorem CallSteps.grows {aead : Aead} {c c' : TcpClient} {action : CallAction}
    (h : CallSteps aead c action c') (hallowed : action.allowed c = true) :
    c.stream.send.written <+: c'.stream.send.written ∧ c'.stream.received = c.stream.received := by
  have hread {need count : Nat} {part : List UInt8} {stream : Endpoint}
      (hread : c.stream.readSome need count = some (.ok part, stream)) :
      c.stream.send.written <+: stream.send.written ∧ stream.received = c.stream.received := by
    obtain ⟨hsend, -, htaken, hbytes, -⟩ := Endpoint.readSome_ok hread
    refine ⟨by rw [hsend], ?_⟩
    unfold Endpoint.received
    rw [htaken, hbytes, List.append_assoc]
  have hwrite {buf : List UInt8} {result : Except ErrorKind Unit} {stream : Endpoint}
      (hwrite : c.stream.writeAll buf = (result, stream)) :
      c.stream.send.written <+: stream.send.written ∧ stream.received = c.stream.received := by
    obtain ⟨hrecv, htaken, part, -, hwritten, -⟩ := Endpoint.writeAll_takes hwrite
    refine ⟨⟨part, hwritten.symm⟩, ?_⟩
    unfold Endpoint.received
    rw [hrecv, htaken]
  cases h with
  | @net action stream hnet =>
    obtain ⟨hreceived, hwritten⟩ := Endpoint.received_net hnet
    refine ⟨by rw [hwritten], ?_⟩
    dsimp only
    rw [hreceived]
    cases action with
    | deliver bytes => cases hallowed
    | hangup kind => exact List.append_nil _
    | limit room kind => exact List.append_nil _
  | unwritten _ _ hrun => exact hwrite hrun
  | wrote _ _ hrun => exact hwrite hrun
  | unread _ _ hrun =>
    obtain ⟨rfl, -⟩ := Endpoint.readSome_error hrun
    exact ⟨List.prefix_rfl, rfl⟩
  | sizing _ _ hrun => exact hread hrun
  | tooLarge _ _ hrun => exact hread hrun
  | sized _ _ hrun => exact hread hrun
  | filling _ _ hrun => exact hread hrun
  | filled _ _ hrun => exact hread hrun
  | streamed _ _ hrun => exact hread hrun
  | _ => exact ⟨List.prefix_rfl, rfl⟩

def callParty (aead : Aead) : Party TcpClient CallAction UInt8 where
  step := fun c action => if action.allowed c then callStep aead c action else none
  feed := fun c bytes => callStep aead c (.net (.deliver bytes))
  written := fun c => c.stream.send.written
  received := fun c => c.stream.received
  written_step := by
    intro c action c' h
    split at h
    · rename_i hallowed
      exact ((callStep_steps h).grows hallowed).1
    · cases h
  received_step := by
    intro c action c' h
    split at h
    · rename_i hallowed
      exact ((callStep_steps h).grows hallowed).2
    · cases h
  written_feed := by
    intro c bytes c' h
    obtain ⟨stream, hnet, rfl⟩ := Option.map_eq_some_iff.mp h
    exact (Endpoint.received_net hnet).2
  received_feed := by
    intro c bytes c' h
    obtain ⟨stream, hnet, rfl⟩ := Option.map_eq_some_iff.mp h
    exact (Endpoint.received_net hnet).1

/-! ### The calls and the guard -/

/-- The frame carries the request. -/
def Encodes (aead : Aead) (key : List UInt8) (req : Request) (frame : Frame) : Prop :=
  ∃ nonce, encodeRequestBody aead nonce (some key) req = .ok frame.data

/-- The holder of the guard still wants bytes. -/
def GuardPhase.Unfinished : GuardPhase → Prop
  | .writing left => left ≠ []
  | .sizing got => got.length < 4
  | .filling frameLen got => got.length < frameLen.toNat ∨ got = []
  | .streaming => True

/-- The call of the guard, and it alone, holds the lock, and every frame carries
the request of its call. -/
structure CallsOk (aead : Aead) (c : TcpClient) : Prop where
  encoded : ∀ {index : Nat} {call : Call} {frame : Frame} {frameBytes : List UInt8},
    c.calls[index]? = some call → call.phase = .encoded frame frameBytes →
      Encodes aead c.sessionKey call.req frame ∧
        encodeFrame frame.seq frame.data = .ok frameBytes
  guard : ∀ {g : Guard}, c.guard = some g → g.phase.Unfinished ∧
    (∃ frameBytes, encodeFrame g.frame.seq g.frame.data = .ok frameBytes) ∧
    ∃ call, c.calls[g.index]? = some call ∧ call.phase = .locked ∧
      Encodes aead c.sessionKey call.req g.frame
  locked : ∀ {index : Nat} {call : Call}, c.calls[index]? = some call → call.phase = .locked →
    ∃ g, c.guard = some g ∧ g.index = index

@[simp] theorem TcpClient.getElem?_setPhase (c : TcpClient) (index : Nat) (phase : CallPhase)
    (i : Nat) : (c.setPhase index phase).calls[i]? =
      if index = i then c.calls[i]?.map fun call => { call with phase } else c.calls[i]? := by
  unfold setPhase
  rw [List.getElem?_modify]
  split <;> simp

/-- A call after another one, or the same one, has moved to a phase. -/
theorem TcpClient.call_of_setPhase {c : TcpClient} {index i : Nat} {phase : CallPhase} {call : Call}
    (h : (c.setPhase index phase).calls[i]? = some call) :
    (index ≠ i ∧ c.calls[i]? = some call) ∨
      (index = i ∧ ∃ old, c.calls[i]? = some old ∧ call = { old with phase }) := by
  rw [getElem?_setPhase] at h
  split at h
  · rename_i hsame
    obtain ⟨old, hold, rfl⟩ := Option.map_eq_some_iff.mp h
    exact .inr ⟨hsame, old, hold, rfl⟩
  · rename_i hother
    exact .inl ⟨hother, h⟩

theorem CallKind.wrote_unfinished (kind : CallKind) (left : List UInt8) :
    (kind.wrote left).Unfinished := by
  unfold wrote
  split
  · exact Nat.zero_lt_succ 3
  · trivial
  · rename_i hdo hstream
    intro hempty
    cases kind with
    | do_ => exact hdo hempty rfl
    | startStream => exact hstream hempty rfl

theorem CallSteps.sessionKey {aead : Aead} {c c' : TcpClient} {action : CallAction}
    (h : CallSteps aead c action c') : c'.sessionKey = c.sessionKey := by
  cases h <;> rfl

/-- A call keeps its request. -/
theorem CallSteps.requests {aead : Aead} {c c' : TcpClient} {action : CallAction}
    (h : CallSteps aead c action c') {call : Call} (hcall : call ∈ c.calls) :
    ∃ call' ∈ c'.calls, call'.req = call.req := by
  have hset (index : Nat) (phase : CallPhase) :
      ∃ call' ∈ (c.setPhase index phase).calls, call'.req = call.req := by
    obtain ⟨i, hi⟩ := List.mem_iff_getElem?.mp hcall
    have hset := c.getElem?_setPhase index phase i
    rw [hi] at hset
    split at hset
    · exact ⟨_, List.mem_of_getElem? hset, rfl⟩
    · exact ⟨call, List.mem_of_getElem? hset, rfl⟩
  cases h with
  | called => exact ⟨call, List.mem_append_left _ hcall, rfl⟩
  | net _ => exact ⟨call, hcall, rfl⟩
  | wrote _ _ _ => exact ⟨call, hcall, rfl⟩
  | sizing _ _ _ _ => exact ⟨call, hcall, rfl⟩
  | sized _ _ _ _ _ => exact ⟨call, hcall, rfl⟩
  | filling _ _ _ _ => exact ⟨call, hcall, rfl⟩
  | streamed _ _ _ => exact ⟨call, hcall, rfl⟩
  | _ => exact hset _ _

namespace CallsOk

variable {aead : Aead} {c : TcpClient}

/-- A call that does not hold the lock moves on. -/
theorem setPhase (h : CallsOk aead c) {index : Nat} {call : Call} {phase : CallPhase}
    (hcall : c.calls[index]? = some call) (hfree : call.phase ≠ .locked) (hphase : phase ≠ .locked)
    (hencoded : ∀ frame frameBytes, phase = .encoded frame frameBytes →
      Encodes aead c.sessionKey call.req frame ∧
        encodeFrame frame.seq frame.data = .ok frameBytes) :
    CallsOk aead (c.setPhase index phase) := by
  constructor
  · intro i other frame frameBytes hother hframe
    obtain ⟨-, hsame⟩ | ⟨rfl, old, hold, rfl⟩ := TcpClient.call_of_setPhase hother
    · exact h.encoded hsame hframe
    · rw [hcall] at hold
      obtain rfl := Option.some.inj hold
      exact hencoded frame frameBytes hframe
  · intro g hg
    obtain ⟨hunfinished, hframe, other, hother, hlocked, hencodes⟩ := h.guard hg
    refine ⟨hunfinished, hframe, other, ?_, hlocked, hencodes⟩
    rw [TcpClient.getElem?_setPhase, if_neg]
    · exact hother
    · rintro rfl
      rw [hcall] at hother
      obtain rfl := Option.some.inj hother
      exact hfree hlocked
  · intro i other hother hlocked
    obtain ⟨-, hsame⟩ | ⟨rfl, old, hold, rfl⟩ := TcpClient.call_of_setPhase hother
    · exact h.locked hsame hlocked
    · exact absurd hlocked hphase

/-- The call that holds the lock gives it back. -/
theorem release (h : CallsOk aead c) {g : Guard} (hg : c.guard = some g) (stream : Endpoint)
    {phase : CallPhase} (hlocked : phase ≠ .locked)
    (hencoded : ∀ frame frameBytes, phase ≠ .encoded frame frameBytes) :
    CallsOk aead (c.release stream g.index phase) := by
  constructor
  · intro i other frame frameBytes hother hframe
    obtain ⟨-, hsame⟩ | ⟨rfl, old, hold, rfl⟩ := TcpClient.call_of_setPhase hother
    · exact h.encoded hsame hframe
    · exact absurd hframe (hencoded frame frameBytes)
  · intro g' hg'
    cases hg'
  · intro i other hother hphase
    obtain ⟨hne, hsame⟩ | ⟨rfl, old, hold, rfl⟩ := TcpClient.call_of_setPhase hother
    · obtain ⟨g', hg', rfl⟩ := h.locked hsame hphase
      rw [hg] at hg'
      obtain rfl := Option.some.inj hg'
      exact absurd rfl hne
    · exact absurd hphase hlocked

/-- The holder of the guard goes on. -/
theorem hold (h : CallsOk aead c) {g : Guard} (hg : c.guard = some g) (stream : Endpoint)
    {phase : GuardPhase} (hunfinished : phase.Unfinished) :
    CallsOk aead { c with stream, guard := some { g with phase } } := by
  refine ⟨h.encoded, ?_, ?_⟩
  · intro g' hg'
    obtain rfl := Option.some.inj hg'
    exact ⟨hunfinished, (h.guard hg).2⟩
  · intro i call hcall hlocked
    obtain ⟨g', hg', hindex⟩ := h.locked hcall hlocked
    rw [hg] at hg'
    obtain rfl := Option.some.inj hg'
    exact ⟨_, rfl, hindex⟩

theorem steps (h : CallsOk aead c) {action : CallAction} {c' : TcpClient}
    (hstep : CallSteps aead c action c') : CallsOk aead c' := by
  cases hstep with
  | net _ => exact ⟨h.encoded, h.guard, h.locked⟩
  | @called kind req =>
    have hcalls {i : Nat} {call : Call} (hcall : (c.calls ++ [⟨kind, req, .called⟩])[i]? = some call) :
        c.calls[i]? = some call ∨ call.phase = .called := by
      obtain hlt | hge := Nat.lt_or_ge i c.calls.length
      · rw [List.getElem?_append_left hlt] at hcall
        exact .inl hcall
      · rw [List.getElem?_append_right hge] at hcall
        exact .inr (by rw [List.mem_singleton.mp (List.mem_of_getElem? hcall)])
    refine ⟨?_, ?_, ?_⟩
    · intro i call frame frameBytes hcall hphase
      obtain hold | hnew := hcalls hcall
      · exact h.encoded hold hphase
      · rw [hnew] at hphase
        cases hphase
    · intro g hg
      obtain ⟨hunfinished, hframe, call, hcall, hlocked⟩ := h.guard hg
      refine ⟨hunfinished, hframe, call, ?_, hlocked⟩
      rw [List.getElem?_append_left (List.getElem?_eq_some_iff.mp hcall).1]
      exact hcall
    · intro i call hcall hphase
      obtain hold | hnew := hcalls hcall
      · exact h.locked hold hphase
      · rw [hnew] at hphase
        cases hphase
  | @numbered index nonce call hcall hphase =>
    have hnext : CallsOk aead (c.setPhase index (.numbered c.seq)) :=
      h.setPhase hcall (by simp [hphase]) (by simp) (by simp)
    exact ⟨hnext.encoded, hnext.guard, hnext.locked⟩
  | unencoded hcall hphase => exact h.setPhase hcall (by simp [hphase]) (by simp) (by simp)
  | @encoded index nonce call seq reqBody frameBytes hcall hphase hbody hframe =>
    refine h.setPhase hcall (by simp [hphase]) (by simp) ?_
    intro frame buf hsame
    obtain ⟨rfl, rfl⟩ := CallPhase.encoded.inj hsame
    exact ⟨⟨nonce, hbody⟩, hframe⟩
  | @locked index nonce call frame frameBytes hcall hphase hfree =>
    obtain ⟨hencodes, hframe⟩ := h.encoded hcall hphase
    refine ⟨?_, ?_, ?_⟩
    · intro i other frame' frameBytes' hother hphase'
      obtain ⟨-, hsame⟩ | ⟨rfl, old, hold, rfl⟩ := TcpClient.call_of_setPhase hother
      · exact h.encoded hsame hphase'
      · cases hphase'
    · intro g hg
      obtain rfl := Option.some.inj hg
      refine ⟨?_, ⟨frameBytes, hframe⟩, { call with phase := .locked }, ?_, rfl, hencodes⟩
      · obtain ⟨-, rfl⟩ := encodeFrame_ok_iff.mp hframe
        exact Frame.bytes_ne_nil _
      · dsimp only
        rw [TcpClient.getElem?_setPhase, if_pos rfl, hcall]
        rfl
    · intro i other hother hlocked
      obtain ⟨-, hsame⟩ | ⟨rfl, old, hold, rfl⟩ := TcpClient.call_of_setPhase hother
      · obtain ⟨g, hg, -⟩ := h.locked hsame hlocked
        rw [hfree] at hg
        cases hg
      · exact ⟨_, rfl, rfl⟩
  | unwritten hg _ _ => exact h.release hg _ (by simp) (by simp)
  | wrote hg _ _ => exact h.hold hg _ (CallKind.wrote_unfinished _ _)
  | unread hg _ _ => exact h.release hg _ (by simp) (by simp)
  | sizing hg _ _ hshort => exact h.hold hg _ hshort
  | tooLarge hg _ _ _ _ => exact h.release hg _ (by simp) (by simp)
  | sized hg _ _ _ _ => exact h.hold hg _ (.inr rfl)
  | filling hg _ _ hshort => exact h.hold hg _ (.inl hshort)
  | filled hg _ _ _ hphase =>
    refine h.release hg _ ?_ ?_
    · rw [hphase]
      split <;> simp
    · rw [hphase]
      split <;> simp
  | streamed _ _ _ => exact ⟨h.encoded, h.guard, h.locked⟩
  | dropped hcall hfree _ => exact h.setPhase hcall hfree (by simp) (by simp)
  | unlocked hcall hlocked =>
    obtain ⟨g, hg, rfl⟩ := h.locked hcall hlocked
    exact h.release hg _ (by simp) (by simp)

end CallsOk

end Hush.Client
