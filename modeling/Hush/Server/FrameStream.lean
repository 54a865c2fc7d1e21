import Hush.Server.Conversation
import Hush.Server.TcpService

/-! The stream that a streaming handler is given. Whatever the handler writes and reads, in an
order that may depend on all that it has seen: the client gets the responses whose writes
succeeded, and the handler the requests that the client sent, both in order. -/
namespace Hush.Server

open Hush.Foundation Execution Stream
open Hush.Frame hiding Request
open Hush.Session

/-- A bidirectional stream for frames. -/
structure FrameStream where
  send : Frame.Sink
  recv : Frame.Source

/-- What a failed read leaves: behind the frame if it was read and not understood, behind the
length prefix if that was refused, and nothing at the end of the stream. -/
def unreadAfterError (recv : Frame.Source) : Frame.Source :=
  match readFrameAsync recv with
  | .ok (_, rest) => rest
  | .error (.tooLarge _ _) => { recv with bytes := recv.bytes.drop 4 }
  | .error (.tooShort _) => { recv with bytes := recv.bytes.drop 4 }
  | .error _ => { recv with bytes := [] }

namespace FrameStream

def new (send : Frame.Sink) (recv : Frame.Source) : FrameStream := ⟨send, recv⟩

/-- Write a response frame. -/
def writeResponse (aead : Aead) (nonce : Nonce) (stream : FrameStream) (key : List UInt8)
    (seq : UInt32) (resp : Response) : Except RequestError Unit × FrameStream :=
  match encodeResponseBody aead nonce (some key) resp with
  | .error e => (.error e, stream)
  | .ok body =>
    match writeFrameAsync stream.send seq body with
    | (.error e, send) => (.error (.frame e), { stream with send })
    | (.ok (), send) => (.ok (), { stream with send })

/-- Read a request frame. -/
def readRequest (aead : Aead) (stream : FrameStream) (key : List UInt8) :
    Except RequestError (Frame.Request × UInt32) × FrameStream :=
  match readRequestAsync aead stream.recv (some key) with
  | .ok (request, recv) => (.ok request, { stream with recv })
  | .error e => (.error e, { stream with recv := unreadAfterError stream.recv })

end FrameStream

/-- A stream with its past: the bytes that came, the responses whose writes succeeded, and the
results of the reads. -/
structure Streamed where
  stream : FrameStream
  arrived : List UInt8
  written : List (UInt32 × Response)
  requests : List (Except RequestError (Frame.Request × UInt32))

/-- The handler writes a response. -/
def Streamed.write (aead : Aead) (nonce : Nonce) (key : List UInt8) (seq : UInt32) (resp : Response)
    (s : Streamed) : Except RequestError Unit × Streamed :=
  match s.stream.writeResponse aead nonce key seq resp with
  | (.ok (), stream) => (.ok (), { s with stream, written := s.written ++ [(seq, resp)] })
  | (.error e, stream) => (.error e, { s with stream })

/-- The handler writes or reads, or the network acts. -/
inductive StreamOp where
  | write (nonce : Nonce) (seq : UInt32) (resp : Response)
  | read
  | deliver (bytes : List UInt8)
  | hangup (kind : ErrorKind)
  | limit (room : Nat) (kind : ErrorKind)

/-- The stream as the server hands it over, with nothing written yet. -/
def streamHanded (room : Option (Nat × ErrorKind)) (recv : Frame.Source) : Streamed :=
  ⟨.new ⟨[], room⟩ recv, recv.bytes, [], []⟩

/-- A read that would have to wait is no step; a sending side that was cut off stays so. -/
def opStep (aead : Aead) (key : List UInt8) (s : Streamed) : StreamOp → Option Streamed
  | .write nonce seq resp => some (s.write aead nonce key seq resp).2
  | .read =>
    match s.stream.readRequest aead key with
    | (.error (.frame (.io .wouldBlock)), _) => none
    | (result, stream) => some { s with stream, requests := s.requests ++ [result] }
  | .deliver bytes =>
    if s.stream.recv.ending = .wouldBlock then
      some { s with
        stream.recv.bytes := s.stream.recv.bytes ++ bytes
        arrived := s.arrived ++ bytes }
    else none
  | .hangup kind =>
    if s.stream.recv.ending = .wouldBlock ∧ kind ≠ .wouldBlock then
      some { s with stream.recv.ending := kind }
    else none
  | .limit room kind =>
    if s.stream.send.room.all fun limit => room ≤ limit.1 then
      some { s with stream.send.room := some (room, kind) }
    else none

/-! ### Responses -/

/-- What the client should make of a response. -/
def expected (answer : UInt32 × Response) : Except RequestError Response :=
  .ok ⟨answer.2.status, arrival answer.2.payload, answer.1⟩

/-- The frames of the responses written, and the part of one at which the stream was cut off. -/
structure Carried (aead : Aead) (key : List UInt8) (s : Streamed) (frames : List Frame)
    (tail : List UInt8) : Prop where
  bytes : s.stream.send.written = frames.flatMap Frame.bytes ++ tail
  fits : ∀ frame ∈ frames, frame.Fits
  decoded : frames.map (fun frame => decodeResponse aead (some key) frame.body) =
    s.written.map expected
  cut : tail = [] ∨ NoFrame Frame.bytes Frame.Fits tail ∧ ∃ e, s.stream.send.room = some (0, e)

/-- A response that was not refused is written as the frame of its body. -/
theorem writeResponse_cases {aead : Aead} (hlaw : aead.Lawful) {nonce : Nonce}
    {stream stream' : FrameStream} {key : List UInt8} {seq : UInt32} {resp : Response}
    (hkept : ResponseKept resp) {result : Except RequestError Unit}
    (h : stream.writeResponse aead nonce key seq resp = (result, stream')) :
    (∃ e, result = .error e) ∧ stream' = stream ∨
    ∃ frame : Frame, frame.Fits ∧
      decodeResponse aead (some key) frame.body = expected (seq, resp) ∧
      stream'.send = (stream.send.writeAll frame.bytes).2 ∧
      (result = .ok () ↔ (stream.send.writeAll frame.bytes).1 = .ok ()) := by
  unfold FrameStream.writeResponse at h
  cases hbody : encodeResponseBody aead nonce (some key) resp with
  | error e =>
    rw [hbody] at h
    obtain ⟨rfl, rfl⟩ := Prod.mk.inj h
    exact .inl ⟨⟨e, rfl⟩, rfl⟩
  | ok body =>
    rw [hbody] at h
    unfold writeFrameAsync writeFrameTo at h
    dsimp only at h
    cases hbuf : encodeFrame seq body with
    | error e =>
      rw [hbuf] at h
      obtain ⟨rfl, rfl⟩ := Prod.mk.inj h
      exact .inl ⟨⟨_, rfl⟩, rfl⟩
    | ok buf =>
      rw [hbuf] at h
      have hlength : LengthKept body.length := by
        rw [length_encodeResponseBody hlaw hbody]
        exact hkept
      have hfits : Frame.Fits ⟨seq, body⟩ := fits_of_encodeFrame hbuf hlength
      have hdecode := decodeResponse_encodeResponseBody hlaw seq hbody
      obtain ⟨-, rfl⟩ := encodeFrame_ok_iff.mp hbuf
      refine .inr ⟨⟨seq, body⟩, hfits, hdecode, ?_⟩
      dsimp only at h
      cases hwrite : stream.send.writeAll (Frame.bytes ⟨seq, body⟩) with
      | mk written send =>
        rw [hwrite] at h
        cases written with
        | error e =>
          obtain ⟨rfl, rfl⟩ := Prod.mk.inj h
          simp
        | ok _ =>
          obtain ⟨rfl, rfl⟩ := Prod.mk.inj h
          simp

/-- A frame is written behind the others, or up to where the stream is cut off. -/
theorem Carried.writeAll {aead : Aead} {key : List UInt8} {s s' : Streamed} {frames : List Frame}
    {tail : List UInt8} (h : Carried aead key s frames tail) {frame : Frame} (hfits : frame.Fits)
    {answer : UInt32 × Response}
    (hdecoded : decodeResponse aead (some key) frame.body = expected answer)
    (hsend : s'.stream.send = (s.stream.send.writeAll frame.bytes).2)
    (hok : (s.stream.send.writeAll frame.bytes).1 = .ok () → s'.written = s.written ++ [answer])
    (herror : (s.stream.send.writeAll frame.bytes).1 ≠ .ok () → s'.written = s.written) :
    ∃ frames' tail', Carried aead key s' frames' tail' := by
  have hpositive := List.length_pos_iff.mpr frame.bytes_ne_nil
  -- What is written whole is written where no frame was cut off.
  have hwhole (room : Option (Nat × ErrorKind)) (hroom : s'.stream.send.room = room)
      (htail : tail = []) (hwritten : s'.stream.send.written = s.stream.send.written ++ frame.bytes)
      (hanswers : s'.written = s.written ++ [answer]) :
      Carried aead key s' (frames ++ [frame]) [] := by
    refine ⟨?_, ?_, ?_, .inl rfl⟩
    · rw [hwritten, h.bytes, htail, List.flatMap_append, List.flatMap_singleton, List.append_nil,
        List.append_nil]
    · rw [List.forall_mem_append]
      exact ⟨h.fits, by simpa using hfits⟩
    · rw [hanswers, List.map_append, List.map_append, h.decoded]
      simp [hdecoded]
  unfold Sink.writeAll at hsend hok herror
  cases hroom : s.stream.send.room with
  | none =>
    rw [hroom] at hsend hok
    refine ⟨_, _, hwhole none (by rw [hsend]) ?_ (by rw [hsend]) (hok rfl)⟩
    obtain hnil | ⟨-, e, hcut⟩ := h.cut
    · exact hnil
    · cases hroom.symm.trans hcut
  | some limit =>
    obtain ⟨room, e⟩ := limit
    rw [hroom] at hsend hok herror
    dsimp only at hsend hok herror
    by_cases hfit : frame.bytes.length ≤ room
    · rw [if_pos hfit] at hsend hok
      refine ⟨_, _, hwhole _ (by rw [hsend]) ?_ (by rw [hsend]) (hok rfl)⟩
      obtain hnil | ⟨-, e', hcut⟩ := h.cut
      · exact hnil
      · obtain ⟨rfl, -⟩ := Prod.mk.inj (Option.some.inj (hroom.symm.trans hcut))
        omega
    · rw [if_neg hfit] at hsend herror
      have hanswers := herror (by simp)
      refine ⟨frames, tail ++ frame.bytes.take room, ?_, h.fits, ?_, ?_⟩
      · rw [hsend, h.bytes, List.append_assoc]
      · rw [hanswers]
        exact h.decoded
      · rw [hsend]
        obtain rfl | ⟨hnone, e', hcut⟩ := h.cut
        · cases room with
          | zero => exact .inl (by simp)
          | succ room =>
            refine .inr ⟨?_, e, rfl⟩
            rw [List.nil_append]
            refine framing.noFrame_part .unexpectedEof hfits (List.take_prefix _ _) ?_
            rw [List.length_take]
            omega
        · obtain ⟨rfl, -⟩ := Prod.mk.inj (Option.some.inj (hroom.symm.trans hcut))
          rw [List.take_zero, List.append_nil]
          exact .inr ⟨hnone, e, rfl⟩

/-- A write that was refused or cut off adds nothing to what was written. -/
theorem Carried.write {aead : Aead} (hlaw : aead.Lawful) {key : List UInt8} {s : Streamed}
    {frames : List Frame} {tail : List UInt8} (h : Carried aead key s frames tail) (nonce : Nonce)
    (seq : UInt32) {resp : Response} (hkept : ResponseKept resp) :
    ∃ frames' tail', Carried aead key (s.write aead nonce key seq resp).2 frames' tail' := by
  unfold Streamed.write
  split
  · rename_i stream hwrite
    obtain ⟨⟨e, he⟩, -⟩ | ⟨frame, hfits, hdecoded, hsend, hiff⟩ :=
      writeResponse_cases hlaw hkept hwrite
    · cases he
    · exact h.writeAll hfits hdecoded hsend (fun _ => rfl)
        (fun hfailed => absurd (hiff.mp rfl) hfailed)
  · rename_i e stream hwrite
    obtain ⟨-, rfl⟩ | ⟨frame, hfits, hdecoded, hsend, hiff⟩ :=
      writeResponse_cases hlaw hkept hwrite
    · exact ⟨frames, tail, h⟩
    · exact h.writeAll hfits hdecoded hsend (fun hok => by cases hiff.mpr hok) (fun _ => rfl)

theorem Carried.step {aead : Aead} (hlaw : aead.Lawful) {key : List UInt8} {s s' : Streamed}
    {frames : List Frame} {tail : List UInt8} (h : Carried aead key s frames tail) {op : StreamOp}
    (hkept : ∀ nonce seq resp, op = .write nonce seq resp → ResponseKept resp)
    (hstep : opStep aead key s op = some s') :
    ∃ frames' tail', Carried aead key s' frames' tail' := by
  unfold opStep at hstep
  cases op with
  | write nonce seq resp =>
    obtain rfl := Option.some.inj hstep
    exact h.write hlaw nonce seq (hkept _ _ _ rfl)
  | read =>
    dsimp only at hstep
    have hsend : (s.stream.readRequest aead key).2.send = s.stream.send := by
      unfold FrameStream.readRequest
      split <;> rfl
    split at hstep
    · cases hstep
    · rename_i result stream _ hread
      rw [hread] at hsend
      obtain rfl := Option.some.inj hstep
      refine ⟨frames, tail, ?_, h.fits, h.decoded, ?_⟩
      · dsimp only
        rw [hsend]
        exact h.bytes
      · dsimp only
        rw [hsend]
        exact h.cut
  | deliver bytes =>
    dsimp only at hstep
    split at hstep
    · obtain rfl := Option.some.inj hstep
      exact ⟨frames, tail, h.bytes, h.fits, h.decoded, h.cut⟩
    · cases hstep
  | hangup kind =>
    dsimp only at hstep
    split at hstep
    · obtain rfl := Option.some.inj hstep
      exact ⟨frames, tail, h.bytes, h.fits, h.decoded, h.cut⟩
    · cases hstep
  | limit room kind =>
    dsimp only at hstep
    split at hstep
    · rename_i hshrinks
      obtain rfl := Option.some.inj hstep
      refine ⟨frames, tail, h.bytes, h.fits, h.decoded, ?_⟩
      obtain hnil | ⟨hnone, e, hcut⟩ := h.cut
      · exact .inl hnil
      · rw [hcut] at hshrinks
        obtain rfl : room = 0 := by simpa using hshrinks
        exact .inr ⟨hnone, kind, rfl⟩
    · cases hstep

/-- What the handler should make of a frame that the client sent. -/
def decodedRequest (aead : Aead) (key : List UInt8) (frame : Frame) :
    Except RequestError (Frame.Request × UInt32) := decodeRequest aead (some key) frame.body

/-- The end of the stream, as a read reports it. -/
def EndOfStream (result : Except RequestError (Frame.Request × UInt32)) : Prop :=
  result = .error (.frame .eof) ∨ ∃ kind, kind ≠ .wouldBlock ∧ result = .error (.frame (.io kind))

/-- The frames that were read are the first of those sent; after a read that came to the end
there is nothing more. -/
structure Fetched (aead : Aead) (key : List UInt8) (s : Streamed) (sent : List Frame) (count : Nat)
    (ends : List (Except RequestError (Frame.Request × UInt32))) : Prop where
  requests : s.requests = (sent.take count).map (decodedRequest aead key) ++ ends
  counted : count ≤ sent.length
  ended : ∀ result ∈ ends, EndOfStream result
  unread : ends = [] → s.arrived = (sent.take count).flatMap Frame.bytes ++ s.stream.recv.bytes
  closed : ends ≠ [] → s.stream.recv.ending ≠ .wouldBlock ∧ s.stream.recv.bytes = []

/-- A read of the frames sent: the next frame, or the end of what has come of it. -/
theorem readFrame_of_sent {frames : List Frame} {recv : Frame.Source}
    (hfits : ∀ frame ∈ frames, frame.Fits) (hbytes : recv.bytes <+: frames.flatMap Frame.bytes) :
    (∃ frame rest recv', frames = frame :: rest ∧ readFrameAsync recv = .ok (frame, recv') ∧
      recv.bytes = frame.bytes ++ recv'.bytes ∧ recv'.ending = recv.ending) ∨
    (readFrameAsync recv = .error .eof ∧ recv.ending = .unexpectedEof ∨
      readFrameAsync recv = .error (.io recv.ending)) := by
  obtain ⟨bytes, ending⟩ := recv
  dsimp only at hbytes ⊢
  cases frames with
  | nil =>
    obtain rfl := List.prefix_nil.mp hbytes
    cases ending with
    | unexpectedEof => exact .inr (.inl ⟨rfl, rfl⟩)
    | _ => exact .inr (.inr rfl)
  | cons frame rest =>
    have hframe := hfits frame List.mem_cons_self
    rw [List.flatMap_cons] at hbytes
    by_cases hwhole : frame.bytes.length ≤ bytes.length
    · obtain ⟨more, rfl⟩ := List.prefix_of_prefix_length_le (List.prefix_append _ _) hbytes hwhole
      have hread := readFrameFrom_bytes hframe more ending
      exact .inl ⟨frame, rest, ⟨more, ending⟩, rfl, hread, rfl, rfl⟩
    · have hpart : bytes <+: frame.bytes :=
        List.prefix_of_prefix_length_le hbytes (List.prefix_append _ _) (by omega)
      refine .inr ?_
      unfold readFrameAsync
      rw [readFrameFrom_cut hframe hpart (by omega)]
      split
      · rename_i hend
        exact .inl ⟨rfl, hend.2⟩
      · exact .inr rfl

theorem readRequestAsync_of_frame {aead : Aead} {key : List UInt8} {recv recv' : Frame.Source}
    {frame : Frame} (h : readFrameAsync recv = .ok (frame, recv')) :
    readRequestAsync aead recv (some key) =
      (decodedRequest aead key frame).map fun request => (request, recv') := by
  unfold readRequestAsync decodedRequest Frame.body
  rw [h]
  dsimp only [Except.mapError, bind, Except.bind]
  cases decodeRequest aead (some key) (BigEndian.u32.toBeBytes frame.seq ++ frame.data) <;> rfl

/-- A frame that was read is behind the reader, whether it was understood or not. -/
theorem readRequest_of_frame {aead : Aead} {key : List UInt8} {stream : FrameStream}
    {recv' : Frame.Source} {frame : Frame} (h : readFrameAsync stream.recv = .ok (frame, recv')) :
    stream.readRequest aead key =
      (decodedRequest aead key frame, { stream with recv := recv' }) := by
  unfold FrameStream.readRequest
  rw [readRequestAsync_of_frame h]
  cases hdecoded : decodedRequest aead key frame with
  | ok request => rfl
  | error e =>
    dsimp only [Except.map]
    unfold unreadAfterError
    rw [h]

theorem readRequest_of_error {aead : Aead} {key : List UInt8} {stream : FrameStream}
    {e : FrameError} (h : readFrameAsync stream.recv = .error e) :
    stream.readRequest aead key =
      (.error (.frame e), { stream with recv := unreadAfterError stream.recv }) := by
  unfold FrameStream.readRequest readRequestAsync
  rw [h]
  rfl

theorem Fetched.read {aead : Aead} {key : List UInt8} {s s' : Streamed} {sent : List Frame}
    {count : Nat} {ends : List (Except RequestError (Frame.Request × UInt32))}
    (h : Fetched aead key s sent count ends) (hfits : ∀ frame ∈ sent, frame.Fits)
    (harrived : s.arrived <+: sent.flatMap Frame.bytes)
    (hstep : opStep aead key s .read = some s') :
    ∃ count' ends', Fetched aead key s' sent count' ends' := by
  unfold opStep at hstep
  dsimp only at hstep
  have hbytes : s.stream.recv.bytes <+: (sent.drop count).flatMap Frame.bytes := by
    by_cases hends : ends = []
    · rw [h.unread hends] at harrived
      rw [← List.take_append_drop count sent, List.flatMap_append] at harrived
      rw [List.take_append_drop] at harrived
      exact (List.prefix_append_right_inj _).mp harrived
    · rw [(h.closed hends).2]
      exact List.nil_prefix
  have hdrop : ∀ frame ∈ sent.drop count, frame.Fits :=
    fun frame hframe => hfits frame (List.mem_of_mem_drop hframe)
  obtain ⟨frame, rest, recv', hnext, hread, hsplit, hending⟩ | herror :=
    readFrame_of_sent hdrop hbytes
  · have hends : ends = [] := by
      by_contra hends
      rw [(h.closed hends).2] at hsplit
      exact frame.bytes_ne_nil (List.append_eq_nil_iff.mp hsplit.symm).1
    subst hends
    have htake : sent.take (count + 1) = sent.take count ++ [frame] := by
      rw [List.take_add, hnext]
      rfl
    have hlength := congrArg List.length hnext
    rw [List.length_drop, List.length_cons] at hlength
    rw [readRequest_of_frame hread] at hstep
    split at hstep
    · cases hstep
    · rename_i result stream _ hresult
      obtain ⟨rfl, rfl⟩ := Prod.mk.inj hresult
      obtain rfl := Option.some.inj hstep
      refine ⟨count + 1, [], ?_, by omega, by simp, fun _ => ?_, by simp⟩
      · dsimp only
        rw [h.requests, htake, List.map_append, List.append_nil, List.append_nil]
        rfl
      · dsimp only
        rw [h.unread rfl, htake, List.flatMap_append, List.flatMap_singleton, List.append_assoc,
          hsplit]
  · have hfailed : ∃ e, readFrameAsync s.stream.recv = .error e ∧
        unreadAfterError s.stream.recv = { s.stream.recv with bytes := [] } ∧
        (s.stream.recv.ending ≠ .wouldBlock → EndOfStream (.error (.frame e))) ∧
        (s.stream.recv.ending = .wouldBlock → e = .io .wouldBlock) := by
      unfold unreadAfterError
      obtain ⟨hread, hend⟩ | hread := herror
      · exact ⟨_, hread, by rw [hread], fun _ => .inl rfl, by simp [hend]⟩
      · exact ⟨_, hread, by rw [hread], fun hclosed => .inr ⟨_, hclosed, rfl⟩, congrArg _⟩
    obtain ⟨e, hread, hunread, hend, hwaits⟩ := hfailed
    rw [readRequest_of_error hread, hunread] at hstep
    split at hstep
    · cases hstep
    · rename_i result stream hnot hresult
      obtain ⟨rfl, rfl⟩ := Prod.mk.inj hresult
      obtain rfl := Option.some.inj hstep
      have hclosed : s.stream.recv.ending ≠ .wouldBlock := by
        intro hopen
        rw [hwaits hopen] at hnot
        exact hnot rfl
      refine ⟨count, ends ++ [.error (.frame e)], ?_, h.counted, ?_, by simp,
        fun _ => ⟨hclosed, rfl⟩⟩
      · dsimp only
        rw [h.requests, List.append_assoc]
      · rw [List.forall_mem_append]
        exact ⟨h.ended, by simpa using hend hclosed⟩

theorem Fetched.step {aead : Aead} {key : List UInt8} {s s' : Streamed} {sent : List Frame}
    {op : StreamOp} (hfits : ∀ frame ∈ sent, frame.Fits)
    (h : s.arrived <+: sent.flatMap Frame.bytes → ∃ count ends, Fetched aead key s sent count ends)
    (hstep : opStep aead key s op = some s') (harrived : s'.arrived <+: sent.flatMap Frame.bytes) :
    ∃ count ends, Fetched aead key s' sent count ends := by
  cases op with
  | read =>
    have hsame : s'.arrived = s.arrived := by
      unfold opStep at hstep
      dsimp only at hstep
      split at hstep
      · cases hstep
      · obtain rfl := Option.some.inj hstep
        rfl
    rw [hsame] at harrived
    obtain ⟨count, ends, hfetched⟩ := h harrived
    exact hfetched.read hfits harrived hstep
  | write nonce seq resp =>
    have hrecv : (s.stream.writeResponse aead nonce key seq resp).2.recv = s.stream.recv := by
      unfold FrameStream.writeResponse
      cases encodeResponseBody aead nonce (some key) resp with
      | error e => rfl
      | ok body =>
        dsimp only
        cases writeFrameAsync s.stream.send seq body with
        | mk written send => cases written <;> rfl
    obtain rfl := Option.some.inj hstep
    have hsame : (s.write aead nonce key seq resp).2.arrived = s.arrived ∧
        (s.write aead nonce key seq resp).2.requests = s.requests ∧
        (s.write aead nonce key seq resp).2.stream.recv = s.stream.recv := by
      unfold Streamed.write
      split
      · rename_i stream hwrite
        exact ⟨rfl, rfl, (congrArg (fun p => p.2.recv) hwrite).symm.trans hrecv⟩
      · rename_i e stream hwrite
        exact ⟨rfl, rfl, (congrArg (fun p => p.2.recv) hwrite).symm.trans hrecv⟩
    rw [hsame.1] at harrived
    obtain ⟨count, ends, hfetched⟩ := h harrived
    refine ⟨count, ends, hsame.2.1.trans hfetched.requests, hfetched.counted, hfetched.ended,
      ?_, ?_⟩
    · rw [hsame.1, hsame.2.2]
      exact hfetched.unread
    · rw [hsame.2.2]
      exact hfetched.closed
  | deliver bytes =>
    obtain ⟨hopen, hsome⟩ := Option.ite_none_right_eq_some.mp hstep
    obtain rfl := Option.some.inj hsome
    obtain ⟨count, ends, hfetched⟩ := h ((List.prefix_append _ _).trans harrived)
    refine ⟨count, ends, hfetched.requests, hfetched.counted, hfetched.ended, fun hends => ?_,
      fun hends => absurd hopen (hfetched.closed hends).1⟩
    dsimp only
    rw [hfetched.unread hends, List.append_assoc]
  | hangup kind =>
    obtain ⟨⟨hopen, -⟩, hsome⟩ := Option.ite_none_right_eq_some.mp hstep
    obtain rfl := Option.some.inj hsome
    obtain ⟨count, ends, hfetched⟩ := h harrived
    exact ⟨count, ends, hfetched.requests, hfetched.counted, hfetched.ended, hfetched.unread,
      fun hends => absurd hopen (hfetched.closed hends).1⟩
  | limit room kind =>
    obtain ⟨-, hsome⟩ := Option.ite_none_right_eq_some.mp hstep
    obtain rfl := Option.some.inj hsome
    obtain ⟨count, ends, hfetched⟩ := h harrived
    exact ⟨count, ends, hfetched.requests, hfetched.counted, hfetched.ended, hfetched.unread,
      hfetched.closed⟩

end Hush.Server
