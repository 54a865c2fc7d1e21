import Hush.Client.Steps

/-! A `Client` over QUIC. Each call of `do_` and `start_stream` opens a stream of its own, so that
no call waits for another; they share the counter of sequence numbers and nothing else. -/
namespace Hush.Client

open Hush.Foundation BigEndian
open Hush.Frame hiding Response
open Hush.Session
open Hush.Server (NetAction)

/-- An error of `client.rs`, or that of the connection on which no stream could be opened. -/
inductive QuinnError where
  | client (e : ClientError)
  | quinn (kind : ErrorKind)
  deriving DecidableEq, Repr

/-- How far a call has come. One of `do_` opens its stream and then encodes its request, one of
`start_stream` the other way round; a call that is `busy` writes and reads as the holder of a guard
does over TCP, for the two have the same text. -/
inductive QuinnPhase where
  | called
  | numbered (seq : UInt32)
  | opened (seq : UInt32)
  | encoded (frame : Frame) (frameBytes : List UInt8)
  | busy (frame : Frame) (phase : GuardPhase)
  | answered (frame : Frame) (resp : Frame.Response)
  | failed (e : QuinnError)
  | dropped

/-- A call with its stream, once it has one. -/
structure QuinnCall where
  kind : CallKind
  req : Request
  stream : Option Endpoint
  phase : QuinnPhase

inductive QuinnMove where
  | net (action : NetAction)
  | run (nonce : Nonce)
  | refuse (kind : ErrorKind)
  | io (count : Nat)
  | drop

/-- The bytes that a step brings. -/
def QuinnMove.delivered : QuinnMove → List UInt8
  | .net action => action.delivered
  | _ => []

namespace QuinnCall

/-- Encode the request and its frame; what follows is done with the two. -/
def encode (aead : Aead) (nonce : Nonce) (sessionKey : List UInt8) (call : QuinnCall) (seq : UInt32)
    (next : Frame → List UInt8 → QuinnPhase) : QuinnCall :=
  match encodeRequestBody aead nonce (some sessionKey) call.req with
  | .error e => { call with phase := .failed (.client (.request e)) }
  | .ok reqBody =>
    match encodeFrame seq reqBody with
    | .error e => { call with phase := .failed (.client (.frame e)) }
    | .ok frameBytes => { call with phase := next ⟨seq, reqBody⟩ frameBytes }

/-- A step that neither writes nor reads; `next` is the number a call gets if it takes one. -/
def runCall (aead : Aead) (nonce : Nonce) (sessionKey : List UInt8) (next : UInt32)
    (call : QuinnCall) : Option QuinnCall :=
  match call.phase, call.kind with
  | .called, _ => some { call with phase := .numbered next }
  | .numbered seq, .do_ => some { call with stream := some .opened, phase := .opened seq }
  | .numbered seq, .startStream => some (call.encode aead nonce sessionKey seq .encoded)
  | .opened seq, _ =>
    some (call.encode aead nonce sessionKey seq fun frame left => .busy frame (.writing left))
  | .encoded frame frameBytes, _ =>
    some { call with stream := some .opened, phase := .busy frame (.writing frameBytes) }
  | _, _ => none

/-- No stream could be opened. -/
def refused (kind : ErrorKind) (call : QuinnCall) : Option QuinnCall :=
  match call.phase, call.kind with
  | .numbered _, .do_ => some { call with phase := .failed (.quinn kind) }
  | .encoded _ _, _ => some { call with phase := .failed (.quinn kind) }
  | _, _ => none

/-- Up to `count` bytes are written to the call's stream, or read from it. -/
def runIo (aead : Aead) (sessionKey : List UInt8) (count : Nat) (call : QuinnCall) :
    Option QuinnCall :=
  match call.stream, call.phase with
  | some stream, .busy frame (.writing left) =>
    match stream.writeAll (left.take count) with
    | (.error kind, stream) => some { call with
        stream := some stream, phase := .failed (.client (.negotiate "write" kind)) }
    | (.ok (), stream) => some { call with
        stream := some stream, phase := .busy frame (call.kind.wrote (left.drop count)) }
  | some stream, .busy frame (.sizing got) =>
    match stream.readSome (4 - got.length) count with
    | none => none
    | some (.error _, stream) => some { call with
        stream := some stream, phase := .failed (.client (.io .unexpectedEof)) }
    | some (.ok part, stream) =>
      let lenBuf := got ++ part
      if lenBuf.length < 4 then
        some { call with stream := some stream, phase := .busy frame (.sizing lenBuf) }
      else
        let frameLen := u32.fromBeBytes lenBuf
        if maxFrameSize < frameLen then some { call with
          stream := some stream
          phase := .failed (.client (.frame (.tooLarge frameLen maxFrameSize))) }
        else some { call with stream := some stream, phase := .busy frame (.filling frameLen []) }
  | some stream, .busy frame (.filling frameLen got) =>
    match stream.readSome (frameLen.toNat - got.length) count with
    | none => none
    | some (.error _, stream) => some { call with
        stream := some stream, phase := .failed (.client (.io .unexpectedEof)) }
    | some (.ok part, stream) =>
      let rest := got ++ part
      if rest.length < frameLen.toNat then
        some { call with stream := some stream, phase := .busy frame (.filling frameLen rest) }
      else
        match decodeResponse aead (some sessionKey) rest with
        | .error e => some { call with
            stream := some stream, phase := .failed (.client (.request e)) }
        | .ok resp => some { call with stream := some stream, phase := .answered frame resp }
  | some stream, .busy _ .streaming =>
    match stream.readSome count count with
    | some (.ok _, stream) => some { call with stream := some stream }
    | _ => none
  | _, _ => none

/-- A call that has not returned is dropped, or the reader that it returned. -/
def runDrop (call : QuinnCall) : Option QuinnCall :=
  match call.phase with
  | .answered _ _ | .failed _ | .dropped => none
  | _ => some { call with phase := .dropped }

def step (aead : Aead) (sessionKey : List UInt8) (next : UInt32) (call : QuinnCall) :
    QuinnMove → Option QuinnCall
  | .net action => call.stream.bind fun stream =>
      (stream.net action).map fun stream => { call with stream := some stream }
  | .run nonce => call.runCall aead nonce sessionKey next
  | .refuse kind => call.refused kind
  | .io count => call.runIo aead sessionKey count
  | .drop => call.runDrop

/-- What the call has written to its stream, and what has arrived for it. -/
def written (call : QuinnCall) : List UInt8 := call.stream.elim [] (·.send.written)

def received (call : QuinnCall) : List UInt8 := call.stream.elim [] (·.received)

/-- The call takes its number. -/
def takesNumber (call : QuinnCall) : QuinnMove → Bool
  | .run _ => match call.phase with
    | .called => true
    | _ => false
  | _ => false

/-- The call is done with its half of the stream, which then ends. -/
def isOver (call : QuinnCall) : Bool :=
  match call.phase with
  | .busy _ .streaming | .answered _ _ | .failed _ | .dropped => true
  | _ => false

end QuinnCall

/-- The client, with the calls made on it so far. -/
structure QuinnClient where
  sessionKey : List UInt8
  seq : UInt32
  calls : List QuinnCall

inductive QuinnAction where
  | call (kind : CallKind) (req : Request)
  | move (index : Nat) (move : QuinnMove)

def quinnStep (aead : Aead) (c : QuinnClient) : QuinnAction → Option QuinnClient
  | .call kind req => some { c with calls := c.calls ++ [⟨kind, req, none, .called⟩] }
  | .move index move => c.calls[index]?.bind fun call =>
      (call.step aead c.sessionKey c.seq move).map fun call' =>
        { c with
          calls := c.calls.set index call'
          seq := if call.takesNumber move then c.seq + 1 else c.seq }

/-! ### What a step of a call can do -/

/-- The call has given its response up, and returns none. -/
def QuinnPhase.Given : QuinnPhase → Prop
  | .busy _ .streaming | .failed _ | .dropped => True
  | _ => False

/-- The call is at its end, without a response. -/
def QuinnPhase.Lost : QuinnPhase → Prop
  | .failed _ | .dropped => True
  | _ => False

/-- What was written stays, and what had arrived is there, read or not. -/
def Grows (stream stream' : Option Endpoint) : Prop :=
  stream.elim [] (·.send.written) <+: stream'.elim [] (·.send.written) ∧
    stream'.elim [] (·.received) = stream.elim [] (·.received)

theorem Grows.rfl {stream : Option Endpoint} : Grows stream stream := ⟨List.prefix_rfl, Eq.refl _⟩

theorem grows_write {stream stream' : Endpoint} {buf : List UInt8} {result : Except ErrorKind Unit}
    (h : stream.writeAll buf = (result, stream')) : Grows (some stream) (some stream') := by
  obtain ⟨hrecv, htaken, part, -, hwritten, -⟩ := Endpoint.writeAll_takes h
  refine ⟨⟨part, hwritten.symm⟩, ?_⟩
  change stream'.received = stream.received
  unfold Endpoint.received
  rw [hrecv, htaken]

theorem grows_read {stream stream' : Endpoint} {need count : Nat} {part : List UInt8}
    (h : stream.readSome need count = some (.ok part, stream')) :
    Grows (some stream) (some stream') := by
  obtain ⟨hsend, -, htaken, hbytes, -⟩ := Endpoint.readSome_ok h
  refine ⟨by rw [Option.elim, Option.elim, hsend], ?_⟩
  change stream'.received = stream.received
  unfold Endpoint.received
  rw [htaken, hbytes, List.append_assoc]

/-- What a step of a call can do, one case for each way through its code that does not end it. -/
inductive QuinnMoves (aead : Aead) (key : List UInt8) (next : UInt32) (call : QuinnCall) :
    QuinnMove → QuinnCall → Prop where
  | net {action : NetAction} {stream stream' : Endpoint} : call.stream = some stream →
      stream.net action = some stream' →
        QuinnMoves aead key next call (.net action) { call with stream := some stream' }
  | numbered {nonce : Nonce} : call.phase = .called →
      QuinnMoves aead key next call (.run nonce) { call with phase := .numbered next }
  | opened {nonce : Nonce} {seq : UInt32} : call.phase = .numbered seq →
      QuinnMoves aead key next call (.run nonce)
        { call with stream := some .opened, phase := .opened seq }
  | encoded {nonce : Nonce} {seq : UInt32} {reqBody frameBytes : List UInt8} :
      call.phase = .numbered seq → encodeRequestBody aead nonce (some key) call.req = .ok reqBody →
      encodeFrame seq reqBody = .ok frameBytes →
        QuinnMoves aead key next call (.run nonce)
          { call with phase := .encoded ⟨seq, reqBody⟩ frameBytes }
  | begun {nonce : Nonce} {seq : UInt32} {reqBody frameBytes : List UInt8} :
      call.phase = .opened seq → encodeRequestBody aead nonce (some key) call.req = .ok reqBody →
      encodeFrame seq reqBody = .ok frameBytes →
        QuinnMoves aead key next call (.run nonce)
          { call with phase := .busy ⟨seq, reqBody⟩ (.writing frameBytes) }
  | started {nonce : Nonce} {frame : Frame} {frameBytes : List UInt8} :
      call.phase = .encoded frame frameBytes →
        QuinnMoves aead key next call (.run nonce)
          { call with stream := some .opened, phase := .busy frame (.writing frameBytes) }
  | wrote {count : Nat} {frame : Frame} {left : List UInt8} {stream stream' : Endpoint} :
      call.stream = some stream → call.phase = .busy frame (.writing left) →
      stream.writeAll (left.take count) = (.ok (), stream') →
        QuinnMoves aead key next call (.io count) { call with
          stream := some stream', phase := .busy frame (call.kind.wrote (left.drop count)) }
  | sizing {count : Nat} {frame : Frame} {got part : List UInt8} {stream stream' : Endpoint} :
      call.stream = some stream → call.phase = .busy frame (.sizing got) →
      stream.readSome (4 - got.length) count = some (.ok part, stream') →
      (got ++ part).length < 4 →
        QuinnMoves aead key next call (.io count)
          { call with stream := some stream', phase := .busy frame (.sizing (got ++ part)) }
  | sized {count : Nat} {frame : Frame} {got part : List UInt8} {stream stream' : Endpoint} :
      call.stream = some stream → call.phase = .busy frame (.sizing got) →
      stream.readSome (4 - got.length) count = some (.ok part, stream') →
      4 ≤ (got ++ part).length →
        QuinnMoves aead key next call (.io count) { call with
          stream := some stream'
          phase := .busy frame (.filling (u32.fromBeBytes (got ++ part)) []) }
  | filling {count : Nat} {frame : Frame} {frameLen : UInt32} {got part : List UInt8}
      {stream stream' : Endpoint} :
      call.stream = some stream → call.phase = .busy frame (.filling frameLen got) →
      stream.readSome (frameLen.toNat - got.length) count = some (.ok part, stream') →
      (got ++ part).length < frameLen.toNat →
        QuinnMoves aead key next call (.io count) { call with
          stream := some stream', phase := .busy frame (.filling frameLen (got ++ part)) }
  | filled {count : Nat} {frame : Frame} {frameLen : UInt32} {got part : List UInt8}
      {stream stream' : Endpoint} {resp : Frame.Response} :
      call.stream = some stream → call.phase = .busy frame (.filling frameLen got) →
      stream.readSome (frameLen.toNat - got.length) count = some (.ok part, stream') →
      frameLen.toNat ≤ (got ++ part).length →
      decodeResponse aead (some key) (got ++ part) = .ok resp →
        QuinnMoves aead key next call (.io count)
          { call with stream := some stream', phase := .answered frame resp }
  | streamed {count : Nat} {frame : Frame} {part : List UInt8} {stream stream' : Endpoint} :
      call.stream = some stream → call.phase = .busy frame .streaming →
      stream.readSome count count = some (.ok part, stream') →
        QuinnMoves aead key next call (.io count) { call with stream := some stream' }
  | lost {move : QuinnMove} {stream : Option Endpoint} {phase : QuinnPhase} :
      (∀ action, move ≠ .net action) → phase.Lost → Grows call.stream stream →
        QuinnMoves aead key next call move { call with stream, phase }

variable {aead : Aead} {key : List UInt8} {next : UInt32}

/-- The step that encodes a request fails, or has its frame. -/
theorem encode_moves {call call' : QuinnCall} {nonce : Nonce} {seq : UInt32}
    {after : Frame → List UInt8 → QuinnPhase} (h : call.encode aead nonce key seq after = call') :
    (∃ e, call' = { call with phase := .failed (.client e) }) ∨
      ∃ reqBody frameBytes, encodeRequestBody aead nonce (some key) call.req = .ok reqBody ∧
        encodeFrame seq reqBody = .ok frameBytes ∧
          call' = { call with phase := after ⟨seq, reqBody⟩ frameBytes } := by
  unfold QuinnCall.encode at h
  split at h
  · exact .inl ⟨_, h.symm⟩
  · rename_i reqBody hbody
    split at h
    · exact .inl ⟨_, h.symm⟩
    · rename_i frameBytes hframe
      exact .inr ⟨reqBody, frameBytes, hbody, hframe, h.symm⟩

theorem runCall_moves {call call' : QuinnCall} {nonce : Nonce}
    (h : call.runCall aead nonce key next = some call') :
    QuinnMoves aead key next call (.run nonce) call' := by
  unfold QuinnCall.runCall at h
  split at h
  · rename_i hphase
    obtain rfl := Option.some.inj h
    exact .numbered hphase
  · rename_i hphase _
    obtain rfl := Option.some.inj h
    exact .opened hphase
  · rename_i hphase _
    obtain ⟨e, rfl⟩ | ⟨reqBody, frameBytes, hbody, hframe, rfl⟩ :=
      encode_moves (Option.some.inj h)
    · exact .lost nofun trivial .rfl
    · exact .encoded hphase hbody hframe
  · rename_i hphase
    obtain ⟨e, rfl⟩ | ⟨reqBody, frameBytes, hbody, hframe, rfl⟩ :=
      encode_moves (Option.some.inj h)
    · exact .lost nofun trivial .rfl
    · exact .begun hphase hbody hframe
  · rename_i hphase
    obtain rfl := Option.some.inj h
    exact .started hphase
  · cases h

theorem refused_moves {call call' : QuinnCall} {kind : ErrorKind}
    (h : call.refused kind = some call') : QuinnMoves aead key next call (.refuse kind) call' := by
  unfold QuinnCall.refused at h
  split at h
  · obtain rfl := Option.some.inj h
    exact .lost nofun trivial .rfl
  · obtain rfl := Option.some.inj h
    exact .lost nofun trivial .rfl
  · cases h

theorem runIo_moves {call call' : QuinnCall} {count : Nat}
    (h : call.runIo aead key count = some call') :
    QuinnMoves aead key next call (.io count) call' := by
  have hnet {action : NetAction} : QuinnMove.io count ≠ .net action := nofun
  unfold QuinnCall.runIo at h
  split at h
  · rename_i stream frame left hstream hphase
    split at h <;> rename_i hwrite <;> obtain rfl := Option.some.inj h
    · refine .lost (fun _ => hnet) trivial ?_
      rw [hstream]
      exact grows_write hwrite
    · exact .wrote hstream hphase hwrite
  · rename_i stream frame got hstream hphase
    split at h
    · cases h
    · rename_i hread
      obtain ⟨rfl, -⟩ := Endpoint.readSome_error hread
      obtain rfl := Option.some.inj h
      rw [← hstream]
      exact .lost (fun _ => hnet) trivial .rfl
    · rename_i part stream' hread
      dsimp only at h
      split at h
      · rename_i hshort
        obtain rfl := Option.some.inj h
        exact .sizing hstream hphase hread hshort
      rename_i hfour
      split at h <;> obtain rfl := Option.some.inj h
      · refine .lost (fun _ => hnet) trivial ?_
        rw [hstream]
        exact grows_read hread
      · exact .sized hstream hphase hread (Nat.not_lt.mp hfour)
  · rename_i stream frame frameLen got hstream hphase
    split at h
    · cases h
    · rename_i hread
      obtain ⟨rfl, -⟩ := Endpoint.readSome_error hread
      obtain rfl := Option.some.inj h
      rw [← hstream]
      exact .lost (fun _ => hnet) trivial .rfl
    · rename_i part stream' hread
      dsimp only at h
      split at h
      · rename_i hshort
        obtain rfl := Option.some.inj h
        exact .filling hstream hphase hread hshort
      rename_i hall
      split at h
      · obtain rfl := Option.some.inj h
        refine .lost (fun _ => hnet) trivial ?_
        rw [hstream]
        exact grows_read hread
      · rename_i resp hdecode
        obtain rfl := Option.some.inj h
        exact .filled hstream hphase hread (Nat.not_lt.mp hall) hdecode
  · rename_i stream frame hstream hphase
    split at h
    · rename_i hread
      obtain rfl := Option.some.inj h
      exact .streamed hstream hphase hread
    · cases h
  · cases h

theorem QuinnCall.step_moves {call call' : QuinnCall} {move : QuinnMove}
    (h : call.step aead key next move = some call') :
    QuinnMoves aead key next call move call' := by
  cases move with
  | net action =>
    obtain ⟨stream, hstream, h⟩ := Option.bind_eq_some_iff.mp h
    obtain ⟨stream', hnet, rfl⟩ := Option.map_eq_some_iff.mp h
    exact .net hstream hnet
  | run nonce => exact runCall_moves h
  | refuse kind => exact refused_moves h
  | io count => exact runIo_moves h
  | drop =>
    change call.runDrop = some call' at h
    unfold QuinnCall.runDrop at h
    split at h
    · cases h
    · cases h
    · cases h
    · obtain rfl := Option.some.inj h
      exact .lost nofun trivial .rfl

/-! ### What a call has written and read -/

/-- The frame carries the request of the call, and the call has written and read as far as its
phase says. -/
inductive QuinnCall.Ok (aead : Aead) (key : List UInt8) (req : Request) :
    QuinnPhase → Option Endpoint → Prop where
  | called : Ok aead key req .called none
  | numbered {seq : UInt32} : Ok aead key req (.numbered seq) none
  | opened {seq : UInt32} {stream : Endpoint} : stream.send.written = [] → stream.taken = [] →
      Ok aead key req (.opened seq) (some stream)
  | encoded {frame : Frame} {frameBytes : List UInt8} : Encodes aead key req frame →
      encodeFrame frame.seq frame.data = .ok frameBytes →
        Ok aead key req (.encoded frame frameBytes) none
  | busy {frame : Frame} {frameBytes : List UInt8} {phase : GuardPhase} {stream : Endpoint} :
      Encodes aead key req frame → encodeFrame frame.seq frame.data = .ok frameBytes →
      phase.Unfinished → GuardAt ⟨0, .do_, frame, phase⟩ stream.send.written stream.taken →
        Ok aead key req (.busy frame phase) (some stream)
  | answered {frame : Frame} {frameBytes lenBuf body : List UInt8} {resp : Frame.Response}
      {stream : Endpoint} : Encodes aead key req frame →
      encodeFrame frame.seq frame.data = .ok frameBytes → stream.send.written = frame.bytes →
      stream.taken = lenBuf ++ body → lenBuf.length = 4 →
      body.length = (u32.fromBeBytes lenBuf).toNat →
      decodeResponse aead (some key) body = .ok resp →
        Ok aead key req (.answered frame resp) (some stream)
  | failed {e : QuinnError} {stream : Option Endpoint} : Ok aead key req (.failed e) stream
  | dropped {stream : Option Endpoint} : Ok aead key req .dropped stream

/-- The call has no stream yet. -/
def QuinnPhase.Unopened : QuinnPhase → Prop
  | .called | .numbered _ | .encoded _ _ => True
  | _ => False

theorem QuinnCall.Ok.unopened {req : Request} {phase : QuinnPhase} {stream : Option Endpoint}
    (h : QuinnCall.Ok aead key req phase stream) (hphase : phase.Unopened) : stream = none := by
  cases h with
  | called | numbered | encoded _ _ => rfl
  | _ => exact hphase.elim

theorem Endpoint.taken_net {stream stream' : Endpoint} {action : NetAction}
    (h : stream.net action = some stream') : stream'.taken = stream.taken := by
  unfold Endpoint.net at h
  cases action with
  | limit room kind =>
    obtain rfl := Option.some.inj h
    rfl
  | _ =>
    dsimp only at h
    split at h
    · obtain rfl := Option.some.inj h
      rfl
    · cases h

namespace QuinnMoves

variable {call call' : QuinnCall} {move : QuinnMove}

theorem req (h : QuinnMoves aead key next call move call') : call'.req = call.req := by
  cases h <;> rfl

/-- Every call's frame carries its request, and what it has written and read follows its phase. -/
theorem ok (h : QuinnMoves aead key next call move call')
    (hok : QuinnCall.Ok aead key call.req call.phase call.stream) :
    QuinnCall.Ok aead key call'.req call'.phase call'.stream := by
  obtain ⟨kind, req, stream, phase⟩ := call
  dsimp only at hok
  cases h with
  | @net action stream stream' hstream hnet =>
    obtain rfl : _ = some stream := hstream
    obtain ⟨-, hwritten⟩ := Endpoint.received_net hnet
    have htaken := Endpoint.taken_net hnet
    cases hok with
    | opened hsaid hheard => exact .opened (hwritten.trans hsaid) (htaken.trans hheard)
    | busy hencodes hframe hunfinished hat =>
      rw [← hwritten, ← htaken] at hat
      exact .busy hencodes hframe hunfinished hat
    | answered hencodes hframe hsaid hheard hlen hbody hdecode =>
      exact .answered hencodes hframe (hwritten.trans hsaid) (htaken.trans hheard) hlen hbody
        hdecode
    | failed => exact .failed
    | dropped => exact .dropped
  | numbered hphase =>
    subst hphase
    cases hok
    exact .numbered
  | opened hphase => exact .opened rfl rfl
  | @encoded nonce _ _ _ hphase hbody hframe =>
    subst hphase
    cases hok
    exact .encoded ⟨nonce, hbody⟩ hframe
  | @begun nonce seq reqBody frameBytes hphase hbody hframe =>
    subst hphase
    cases hok with
    | opened hsaid hheard =>
      obtain ⟨-, rfl⟩ := encodeFrame_ok_iff.mp hframe
      refine .busy ⟨nonce, hbody⟩ hframe (Frame.bytes_ne_nil _) ⟨?_, hheard⟩
      rw [hsaid]
      rfl
  | started hphase =>
    subst hphase
    cases hok with
    | encoded hencodes hframe =>
      have hbytes := (encodeFrame_ok_iff.mp hframe).2
      refine .busy hencodes hframe ?_ ⟨hbytes, rfl⟩
      rw [hbytes]
      exact Frame.bytes_ne_nil _
  | @wrote count frame left stream stream' hstream hphase hwrite =>
    subst hphase
    obtain rfl : _ = some stream := hstream
    cases hok with
    | busy hencodes hframe _ hat =>
      obtain ⟨-, htaken, part, -, hwritten, hall⟩ := Endpoint.writeAll_takes hwrite
      obtain rfl := hall rfl
      obtain ⟨hsaid, hheard⟩ := hat
      have hwhole : stream'.send.written ++ left.drop count = frame.bytes := by
        rw [hwritten, List.append_assoc, List.take_append_drop]
        exact hsaid
      refine .busy hencodes hframe (CallKind.wrote_unfinished kind _) ?_
      rw [htaken, hheard]
      exact Mode.guardAt_wrote (g := ⟨0, kind, frame, .writing left⟩) hwhole
  | @sizing count frame got part stream stream' hstream hphase hread hshort =>
    subst hphase
    obtain rfl : _ = some stream := hstream
    cases hok with
    | busy hencodes hframe _ hat =>
      obtain ⟨hsend, -, htaken, -, -⟩ := Endpoint.readSome_ok hread
      obtain ⟨hsaid, hheard⟩ := hat
      refine .busy hencodes hframe hshort ⟨by rw [hsend]; exact hsaid, ?_⟩
      rw [htaken, hheard]
  | @sized count frame got part stream stream' hstream hphase hread hfour =>
    subst hphase
    obtain rfl : _ = some stream := hstream
    cases hok with
    | busy hencodes hframe hunfinished hat =>
      obtain ⟨hsend, -, htaken, -, hpart⟩ := Endpoint.readSome_ok hread
      obtain ⟨hsaid, hheard⟩ := hat
      refine .busy hencodes hframe (.inr rfl) ⟨by rw [hsend]; exact hsaid, got ++ part, ?_, rfl, ?_⟩
      · rw [List.length_append] at hfour ⊢
        change got.length < 4 at hunfinished
        omega
      · rw [htaken, hheard, List.append_nil]
  | @filling count frame frameLen got part stream stream' hstream hphase hread hshort =>
    subst hphase
    obtain rfl : _ = some stream := hstream
    cases hok with
    | busy hencodes hframe _ hat =>
      obtain ⟨hsend, -, htaken, -, -⟩ := Endpoint.readSome_ok hread
      obtain ⟨hsaid, lenBuf, hlen, hframeLen, hheard⟩ := hat
      refine .busy hencodes hframe (.inl hshort)
        ⟨by rw [hsend]; exact hsaid, lenBuf, hlen, hframeLen, ?_⟩
      rw [htaken, hheard, List.append_assoc]
  | @filled count frame frameLen got part stream stream' resp hstream hphase hread hall hdecode =>
    subst hphase
    obtain rfl : _ = some stream := hstream
    cases hok with
    | busy hencodes hframe hunfinished hat =>
      obtain ⟨hsend, -, htaken, -, hpart⟩ := Endpoint.readSome_ok hread
      obtain ⟨hsaid, lenBuf, hlen, rfl, hheard⟩ := hat
      refine .answered hencodes hframe (by rw [hsend]; exact hsaid) ?_ hlen ?_ hdecode
      · rw [htaken, hheard, List.append_assoc]
      · rw [List.length_append] at hall ⊢
        obtain hshort | rfl := hunfinished
        · omega
        · rw [List.length_nil] at hall hpart ⊢
          omega
  | @streamed count frame part stream stream' hstream hphase hread =>
    subst hphase
    obtain rfl : _ = some stream := hstream
    cases hok with
    | busy hencodes hframe hunfinished hat =>
      obtain ⟨hsend, -, -, -, -⟩ := Endpoint.readSome_ok hread
      refine .busy hencodes hframe hunfinished ?_
      change stream'.send.written = frame.bytes
      rw [hsend]
      exact hat
  | @lost move stream' phase' _ hlost _ =>
    cases phase' with
    | failed e => exact .failed
    | dropped => exact .dropped
    | _ => exact hlost.elim

/-- A stream keeps what was written to it, and only the network brings bytes. -/
theorem grows (h : QuinnMoves aead key next call move call')
    (hok : QuinnCall.Ok aead key call.req call.phase call.stream) :
    call.written <+: call'.written ∧ call'.received = call.received ++ move.delivered := by
  have hkeeps {stream : Option Endpoint} (hgrows : Grows call.stream stream) :
      call.written <+: stream.elim [] (·.send.written) ∧
        stream.elim [] (·.received) = call.received ++ [] := by
    rw [List.append_nil]
    exact hgrows
  have hopens (hnone : call.stream = none) : Grows call.stream (some .opened) := by
    rw [hnone]
    exact ⟨List.prefix_rfl, rfl⟩
  cases h with
  | @net action stream stream' hstream hnet =>
    obtain ⟨hreceived, hwritten⟩ := Endpoint.received_net hnet
    unfold QuinnCall.written QuinnCall.received
    rw [hstream]
    exact ⟨by rw [Option.elim, Option.elim, hwritten], hreceived⟩
  | numbered _ => exact hkeeps .rfl
  | opened hphase => exact hkeeps (hopens (hok.unopened (hphase ▸ trivial)))
  | encoded _ _ _ => exact hkeeps .rfl
  | begun _ _ _ => exact hkeeps .rfl
  | started hphase => exact hkeeps (hopens (hok.unopened (hphase ▸ trivial)))
  | wrote hstream _ hwrite => exact hkeeps (hstream ▸ grows_write hwrite)
  | sizing hstream _ hread _ => exact hkeeps (hstream ▸ grows_read hread)
  | sized hstream _ hread _ => exact hkeeps (hstream ▸ grows_read hread)
  | filling hstream _ hread _ => exact hkeeps (hstream ▸ grows_read hread)
  | filled hstream _ hread _ _ => exact hkeeps (hstream ▸ grows_read hread)
  | streamed hstream _ hread => exact hkeeps (hstream ▸ grows_read hread)
  | lost hmove _ hgrows =>
    cases move with
    | net action => exact absurd rfl (hmove action)
    | _ => exact hkeeps hgrows

theorem lost_given {phase : QuinnPhase} (h : phase.Lost) : phase.Given := by
  cases phase with
  | failed e => trivial
  | dropped => trivial
  | _ => exact h.elim

/-- A call that has given its response up gets none later. -/
theorem given (h : QuinnMoves aead key next call move call') (hgiven : call.phase.Given) :
    call'.phase.Given := by
  cases h with
  | net _ _ => exact hgiven
  | streamed _ _ _ => exact hgiven
  | lost _ hlost _ => exact lost_given hlost
  | _ => simp_all [QuinnPhase.Given]

/-- What is over stays so. -/
theorem isOver (h : QuinnMoves aead key next call move call') (hover : call.isOver = true) :
    call'.isOver = true := by
  cases h with
  | net _ _ => exact hover
  | streamed _ _ _ => exact hover
  | @lost _ _ phase _ hlost _ =>
    cases phase with
    | failed e => rfl
    | dropped => rfl
    | _ => exact hlost.elim
  | _ => simp_all [QuinnCall.isOver]

end QuinnMoves

end Hush.Client
