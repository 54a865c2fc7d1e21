import Hush.Frame.Framing
import Hush.Server.Expiry

/-! What the log of a channel says of frames read and handlers called, and the
relation between the two that the request loops keep. -/
namespace Hush.Server

open Hush.Foundation
open Hush.Frame hiding Request
open Hush.Session

variable {σ : Type}

/-! ### What a log says -/

/-- The call of a handler: its request and the sequence number of its frame. -/
abbrev Call := Request × UInt32

/-- The calls of handlers, in order. -/
def calls (log : List Event) : List Call :=
  log.filterMap fun e => match e with
    | .dispatched req seq => some (req, seq)
    | _ => none

/-- The frames that were read, each with the key to open it. -/
def reads (log : List Event) : List (List UInt8 × Frame) :=
  log.filterMap fun e => match e with
    | .received key frame => some (key, frame)
    | _ => none

def arrivedBytes (log : List Event) : List UInt8 :=
  log.flatMap fun e => match e with
    | .arrived _ bytes => bytes
    | _ => []

def readBytes (log : List Event) : List UInt8 := (reads log).flatMap fun read => read.2.bytes

@[simp] theorem calls_append (log events : List Event) :
    calls (log ++ events) = calls log ++ calls events := List.filterMap_append

@[simp] theorem reads_append (log events : List Event) :
    reads (log ++ events) = reads log ++ reads events := List.filterMap_append

@[simp] theorem arrivedBytes_append (log events : List Event) :
    arrivedBytes (log ++ events) = arrivedBytes log ++ arrivedBytes events := List.flatMap_append

@[simp] theorem readBytes_append (log events : List Event) :
    readBytes (log ++ events) = readBytes log ++ readBytes events := by
  unfold readBytes
  rw [reads_append, List.flatMap_append]

/-- An event that is neither an arrival nor a read nor a call. -/
def Event.IsQuiet : Event → Prop
  | .arrived _ _ => False
  | .received _ _ => False
  | .dispatched _ _ => False
  | _ => True

theorem unserved_events {events : List Event} (h : ∀ e ∈ events, e.IsArrival ∨ e.IsQuiet) :
    calls events = [] ∧ reads events = [] := by
  constructor
  · apply List.filterMap_eq_nil_iff.mpr
    intro e he
    have hother := h e he
    cases e <;> simp_all [Event.IsArrival, Event.IsQuiet]
  · apply List.filterMap_eq_nil_iff.mpr
    intro e he
    have hother := h e he
    cases e <;> simp_all [Event.IsArrival, Event.IsQuiet]

theorem quiet_events {events : List Event} (h : ∀ e ∈ events, e.IsQuiet) :
    calls events = [] ∧ reads events = [] ∧ arrivedBytes events = [] := by
  have hunserved := unserved_events fun e he => .inr (h e he)
  refine ⟨hunserved.1, hunserved.2, ?_⟩
  apply List.flatMap_eq_nil_iff.mpr
  intro e he
  have hquiet := h e he
  cases e <;> simp_all [Event.IsQuiet]

/-! ### Calls and reads -/

/-- The call that a request asks for, if its opcode has a handler. -/
def requestCall (serves : UInt16 → Bool) (sess : Session) (freq : Frame.Request) (seq : UInt32) :
    Option Call :=
  if serves freq.opcode then some (toRequest sess.id sess.apiKeyId freq, seq) else none

/-- The call that a frame asks for, if it opens under the key and its opcode has
a handler. It depends on nothing else: not on what was read before. -/
def frameCall (srv : Server σ) (serves : UInt16 → Bool) (sess : Session)
    (read : List UInt8 × Frame) : Option Call :=
  match decodeRequest srv.aead (some read.1) read.2.body with
  | .ok (freq, seq) => requestCall serves sess freq seq
  | .error _ => none

/-- The calls made and the one that is pending are those that the frames read
ask for, in order; the frames were read under one of the keys, and their bytes
are, after those in front, the first that arrived. -/
structure ServesReads (srv : Server σ) (serves : UInt16 → Bool) (sess : Session)
    (keys : List (List UInt8)) (front : List UInt8) (log : List Event) (pending : Option Call) :
    Prop where
  calls_eq : calls log ++ pending.toList = (reads log).filterMap (frameCall srv serves sess)
  mem_keys : ∀ read ∈ reads log, read.1 ∈ keys
  bytes : front ++ readBytes log <+: arrivedBytes log

/-- What is still to be read is what arrived after the frames read. -/
def InStep (front : List UInt8) (chan : Channel) : Prop :=
  front ++ readBytes chan.log ++ chan.recv.bytes = arrivedBytes chan.log

theorem readRequestAsync_ok {aead : Aead} {r r' : Source} {key : Option (List UInt8)}
    {freq : Frame.Request} {seq : UInt32}
    (h : readRequestAsync aead r key = .ok ((freq, seq), r')) :
    ∃ frame, readFrameAsync r = .ok (frame, r') ∧
      decodeRequest aead key frame.body = .ok (freq, seq) := by
  unfold readRequestAsync at h
  dsimp only [bind, Except.bind] at h
  match hread : readFrameAsync r with
  | .error e =>
    simp [hread, Except.mapError] at h
  | .ok (frame, rest) =>
    simp only [hread, Except.mapError] at h
    split at h
    · cases h
    · rename_i request hdecode
      simp only [pure, Except.pure, Except.ok.injEq, Prod.mk.injEq] at h
      obtain ⟨rfl, rfl⟩ := h
      exact ⟨frame, rfl, hdecode⟩

theorem readRequestAsync_error {aead : Aead} {r r' : Source} {key : Option (List UInt8)}
    {frame : Frame} {e : RequestError} (h : readRequestAsync aead r key = .error e)
    (hread : readFrameAsync r = .ok (frame, r')) :
    ∃ e', decodeRequest aead key frame.body = .error e' := by
  unfold readRequestAsync at h
  simp only [bind, Except.bind, hread, Except.mapError] at h
  split at h
  · rename_i e' hdecode
    exact ⟨e', hdecode⟩
  · cases h

namespace ServesReads

variable {srv : Server σ} {serves : UInt16 → Bool} {sess : Session} {keys : List (List UInt8)}
  {front : List UInt8} {log : List Event} {pending : Option Call}

theorem opened (hfront : front <+: arrivedBytes log) (hcalls : calls log = [])
    (hreads : reads log = []) : ServesReads srv serves sess keys front log none := by
  constructor
  · rw [hcalls, hreads]
    rfl
  · simp [hreads]
  · simpa [readBytes, hreads] using hfront

/-- Events without a read: the calls among them are those that were pending. -/
theorem advance (h : ServesReads srv serves sess keys front log pending) {events : List Event}
    {pending' : Option Call} (hcalls : calls events ++ pending'.toList = pending.toList)
    (hreads : reads events = []) :
    ServesReads srv serves sess keys front (log ++ events) pending' := by
  constructor
  · rw [calls_append, reads_append, hreads, List.append_nil, List.append_assoc, hcalls]
    exact h.calls_eq
  · rw [reads_append, hreads, List.append_nil]
    exact h.mem_keys
  · have hbytes : readBytes (log ++ events) = readBytes log := by
      simp [readBytes, hreads]
    rw [hbytes, arrivedBytes_append]
    exact h.bytes.trans (List.prefix_append _ _)

theorem append (h : ServesReads srv serves sess keys front log pending) {events : List Event}
    (hcalls : calls events = []) (hreads : reads events = []) :
    ServesReads srv serves sess keys front (log ++ events) pending := by
  apply h.advance _ hreads
  rw [hcalls, List.nil_append]

theorem quiet (h : ServesReads srv serves sess keys front log pending) {events : List Event}
    (hevents : ∀ e ∈ events, e.IsQuiet) :
    ServesReads srv serves sess keys front (log ++ events) pending :=
  h.append (quiet_events hevents).1 (quiet_events hevents).2.1

/-- The pending call is made. -/
theorem called (h : ServesReads srv serves sess keys front log pending) {events : List Event}
    (hcalls : calls events = pending.toList) (hreads : reads events = []) :
    ServesReads srv serves sess keys front (log ++ events) none := by
  apply h.advance _ hreads
  rw [hcalls, Option.toList_none, List.append_nil]

/-- The next frame is read, and its call is pending. -/
theorem read {chan : Channel} {recv : Source} {key : List UInt8} {frame : Frame}
    (h : ServesReads srv serves sess keys front chan.log none) (hstep : InStep front chan)
    (hkey : key ∈ keys) (hread : readFrameAsync chan.recv = .ok (frame, recv)) :
    ServesReads srv serves sess keys front (chan.log ++ [.received key frame])
        (frameCall srv serves sess (key, frame)) ∧
      InStep front { chan with recv, log := chan.log ++ [.received key frame] } := by
  have hbytes := (readFrameFrom_sound hread).2.1
  have harrived : front ++ readBytes (chan.log ++ [.received key frame]) ++ recv.bytes =
      arrivedBytes (chan.log ++ [.received key frame]) := by
    unfold InStep at hstep
    rw [hbytes] at hstep
    rw [readBytes_append, arrivedBytes_append, ← hstep]
    simp [readBytes, reads, arrivedBytes]
  refine ⟨⟨?_, ?_, ?_⟩, harrived⟩
  · have hcalls := h.calls_eq
    simp only [Option.toList_none, List.append_nil] at hcalls
    rw [calls_append, reads_append, List.filterMap_append, ← hcalls]
    cases hcall : frameCall srv serves sess (key, frame) <;> simp [calls, reads, hcall]
  · intro read hin
    rw [reads_append] at hin
    obtain hold | hnew := List.mem_append.mp hin
    · exact h.mem_keys read hold
    · obtain rfl := List.mem_singleton.mp hnew
      exact hkey
  · rw [← harrived]
    exact List.prefix_append _ _

end ServesReads

/-! ### One channel's steps -/

theorem net_reads {chan chan' : Channel} {now : Instant} {action : NetAction}
    (h : chan.net now action = some chan') :
    ∃ events, chan'.log = chan.log ++ events ∧ calls events = [] ∧ reads events = [] ∧
      chan'.recv.bytes = chan.recv.bytes ++ arrivedBytes events := by
  unfold Channel.net at h
  cases action with
  | deliver bytes =>
    dsimp only at h
    split at h
    · obtain rfl := Option.some.inj h
      exact ⟨[.arrived now bytes], rfl, rfl, rfl, by simp [arrivedBytes]⟩
    · cases h
  | hangup kind =>
    dsimp only at h
    split at h
    · obtain rfl := Option.some.inj h
      exact ⟨[], (List.append_nil _).symm, rfl, rfl, (List.append_nil _).symm⟩
    · cases h
  | limit room kind =>
    obtain rfl := Option.some.inj h
    exact ⟨[], (List.append_nil _).symm, rfl, rfl, (List.append_nil _).symm⟩

/-- The bytes that an action brings. -/
def NetAction.delivered : NetAction → List UInt8
  | .deliver bytes => bytes
  | _ => []

theorem net_delivered {chan chan' : Channel} {now : Instant} {action : NetAction}
    (h : chan.net now action = some chan') :
    chan'.recv.bytes = chan.recv.bytes ++ action.delivered ∧
      arrivedBytes chan'.log = arrivedBytes chan.log ++ action.delivered ∧
        chan'.send.written = chan.send.written := by
  unfold Channel.net at h
  cases action with
  | deliver bytes =>
    dsimp only at h
    split at h
    · obtain rfl := Option.some.inj h
      exact ⟨rfl, by simp [arrivedBytes, NetAction.delivered], rfl⟩
    · cases h
  | hangup kind =>
    dsimp only at h
    split at h
    · obtain rfl := Option.some.inj h
      exact ⟨(List.append_nil _).symm, (List.append_nil _).symm, rfl⟩
    · cases h
  | limit room kind =>
    obtain rfl := Option.some.inj h
    exact ⟨(List.append_nil _).symm, (List.append_nil _).symm, rfl⟩

theorem ServesReads.net {srv : Server σ} {serves : UInt16 → Bool} {sess : Session}
    {keys : List (List UInt8)} {front : List UInt8} {pending : Option Call}
    {chan chan' : Channel} {now : Instant} {action : NetAction}
    (hserved : ServesReads srv serves sess keys front chan.log pending)
    (h : chan.net now action = some chan') :
    ServesReads srv serves sess keys front chan'.log pending := by
  obtain ⟨events, hlog, hcalls, hreads, -⟩ := net_reads h
  rw [hlog]
  exact hserved.append hcalls hreads

namespace InStep

variable {front : List UInt8} {chan chan' : Channel}

/-- Events that neither arrive nor read keep a channel in step. -/
theorem of_log (h : InStep front chan) {events : List Event}
    (hlog : chan'.log = chan.log ++ events) (hreads : reads events = [])
    (hrecv : chan'.recv.bytes = chan.recv.bytes ++ arrivedBytes events) : InStep front chan' := by
  unfold InStep at h ⊢
  rw [hlog, hrecv, readBytes_append, arrivedBytes_append, ← h]
  simp [readBytes, hreads]

theorem net {now : Instant} {action : NetAction} (hstep : InStep front chan)
    (h : chan.net now action = some chan') : InStep front chan' := by
  obtain ⟨events, hlog, -, hreads, hrecv⟩ := net_reads h
  exact hstep.of_log hlog hreads hrecv

theorem quiet (h : InStep front chan) {events : List Event}
    (hlog : chan'.log = chan.log ++ events) (hevents : ∀ e ∈ events, e.IsQuiet)
    (hrecv : chan'.recv = chan.recv) : InStep front chan' := by
  obtain ⟨-, hreads, harrived⟩ := quiet_events hevents
  apply h.of_log hlog hreads
  rw [hrecv, harrived, List.append_nil]

end InStep

theorem receivedFrame_ok {key : List UInt8} {recv recv' : Source} {frame : Frame}
    (h : readFrameAsync recv = .ok (frame, recv')) :
    receivedFrame key recv = [.received key frame] := by
  unfold receivedFrame
  rw [h]

theorem receivedFrame_error {key : List UInt8} {recv : Source} {e : FrameError}
    (h : readFrameAsync recv = .error e) : receivedFrame key recv = [] := by
  unfold receivedFrame
  rw [h]

/-- A read that fails leaves no call pending, whether it took a frame or not. -/
theorem ServesReads.unread {srv : Server σ} {serves : UInt16 → Bool} {sess : Session}
    {keys : List (List UInt8)} {front : List UInt8} {chan : Channel} {key : List UInt8}
    {e : RequestError} (h : ServesReads srv serves sess keys front chan.log none)
    (hstep : InStep front chan) (hkey : key ∈ keys)
    (herror : readRequestAsync srv.aead chan.recv (some key) = .error e) :
    ServesReads srv serves sess keys front (chan.log ++ receivedFrame key chan.recv) none := by
  match hread : readFrameAsync chan.recv with
  | .error e' =>
    rw [receivedFrame_error hread]
    exact h.append rfl rfl
  | .ok (frame, recv) =>
    obtain ⟨e', hdecode⟩ := readRequestAsync_error herror hread
    have hcall : frameCall srv serves sess (key, frame) = none := by
      unfold frameCall
      rw [hdecode]
    rw [receivedFrame_ok hread, ← hcall]
    exact (h.read hstep hkey hread).1

/-- A read that succeeds leaves the call of its request pending. -/
theorem ServesReads.readRequest {srv : Server σ} {serves : UInt16 → Bool} {sess : Session}
    {keys : List (List UInt8)} {front : List UInt8} {chan : Channel} {recv : Source}
    {key : List UInt8} {freq : Frame.Request} {seq : UInt32}
    (h : ServesReads srv serves sess keys front chan.log none) (hstep : InStep front chan)
    (hkey : key ∈ keys)
    (hok : readRequestAsync srv.aead chan.recv (some key) = .ok ((freq, seq), recv)) :
    ServesReads srv serves sess keys front (chan.log ++ receivedFrame key chan.recv)
        (requestCall serves sess freq seq) ∧
      InStep front { chan.note (receivedFrame key chan.recv) with recv } := by
  obtain ⟨frame, hread, hdecode⟩ := readRequestAsync_ok hok
  have hcall : frameCall srv serves sess (key, frame) = requestCall serves sess freq seq := by
    unfold frameCall
    rw [hdecode]
  have hread' := h.read hstep hkey hread
  rw [hcall] at hread'
  unfold Channel.note
  rw [receivedFrame_ok hread]
  exact hread'

theorem callHandler_called {handler : SyncHandler σ} {req : Request} {app : σ} :
    (callHandler handler req app).called = true := by
  unfold callHandler
  split <;> rfl

theorem calls_dispatchEvents (serves : UInt16 → Bool) (sess : Session) (freq : Frame.Request)
    (seq : UInt32) :
    calls (dispatchEvents (serves freq.opcode) (toRequest sess.id sess.apiKeyId freq) seq) =
      (requestCall serves sess freq seq).toList := by
  unfold dispatchEvents requestCall
  split <;> rfl

theorem reads_dispatchEvents (called : Bool) (req : Request) (seq : UInt32) :
    reads (dispatchEvents called req seq) = [] ∧ arrivedBytes (dispatchEvents called req seq) = [] := by
  unfold dispatchEvents
  split <;> exact ⟨rfl, rfl⟩

/-- Events that neither arrive nor read are noted. -/
theorem InStep.noted {front : List UInt8} {chan : Channel} (h : InStep front chan)
    {events : List Event} (hreads : reads events = []) (harrived : arrivedBytes events = []) :
    InStep front (chan.note events) := by
  apply h.of_log rfl hreads
  rw [harrived, List.append_nil]
  rfl

theorem InStep.called {front : List UInt8} {chan : Channel} (h : InStep front chan)
    (called : Bool) (req : Request) (seq : UInt32) :
    InStep front (chan.note (dispatchEvents called req seq)) := by
  obtain ⟨hreads, harrived⟩ := reads_dispatchEvents called req seq
  exact h.noted hreads harrived

end Hush.Server
