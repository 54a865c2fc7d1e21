import Hush.Server.Reads

/-! The client's end of a connection, and the errors of `client.rs`. -/
namespace Hush.Client

open Hush.Foundation
open Hush.Frame Hush.Session
open Hush.Server (NetAction)

/-- `Negotiate` carries a text and, here, the kind of the error at its end. -/
inductive ClientError where
  | session (e : SessionError)
  | frame (e : FrameError)
  | request (e : RequestError)
  | negotiate (what : String) (kind : ErrorKind)
  | io (kind : ErrorKind)
  deriving DecidableEq, Repr

/-- What is still unread, what was written, and what was read so far. -/
structure Endpoint where
  recv : Source
  send : Sink
  taken : List UInt8

namespace Endpoint

/-- A connection that has just been opened. -/
def opened : Endpoint := ⟨⟨[], .wouldBlock⟩, .vec, []⟩

/-- All that has arrived, read or not. -/
def received (stream : Endpoint) : List UInt8 := stream.taken ++ stream.recv.bytes

def net (stream : Endpoint) : NetAction → Option Endpoint
  | .deliver bytes =>
    if stream.recv.ending = .wouldBlock then
      some { stream with recv := { stream.recv with bytes := stream.recv.bytes ++ bytes } }
    else none
  | .hangup kind =>
    if stream.recv.ending = .wouldBlock ∧ kind ≠ .wouldBlock then
      some { stream with recv := { stream.recv with ending := kind } }
    else none
  | .limit room kind => some { stream with send := { stream.send with room := some (room, kind) } }

def writeAll (stream : Endpoint) (buf : List UInt8) : Except ErrorKind Unit × Endpoint :=
  match stream.send.writeAll buf with
  | (result, send) => (result, { stream with send })

/-- A read that reaches the end has taken what there was; one that has to wait
takes nothing yet. -/
def readExact (stream : Endpoint) (count : Nat) : Except ErrorKind (List UInt8) × Endpoint :=
  match stream.recv.readExact count with
  | .ok (bytes, recv) => (.ok bytes, { stream with recv, taken := stream.taken ++ bytes })
  | .error .wouldBlock => (.error .wouldBlock, stream)
  | .error kind =>
    (.error kind,
      { stream with recv := { stream.recv with bytes := [] }, taken := stream.received })

theorem received_net {stream stream' : Endpoint} {action : NetAction}
    (h : stream.net action = some stream') :
    stream'.received = stream.received ++ action.delivered ∧
      stream'.send.written = stream.send.written := by
  unfold net at h
  cases action with
  | deliver bytes =>
    dsimp only at h
    split at h
    · obtain rfl := Option.some.inj h
      exact ⟨(List.append_assoc _ _ _).symm, rfl⟩
    · cases h
  | hangup kind =>
    dsimp only at h
    split at h
    · obtain rfl := Option.some.inj h
      exact ⟨(List.append_nil _).symm, rfl⟩
    · cases h
  | limit room kind =>
    obtain rfl := Option.some.inj h
    exact ⟨(List.append_nil _).symm, rfl⟩

theorem writeAll_takes {stream stream' : Endpoint} {buf : List UInt8}
    {result : Except ErrorKind Unit} (h : stream.writeAll buf = (result, stream')) :
    stream'.recv = stream.recv ∧ stream'.taken = stream.taken ∧
      ∃ part, part <+: buf ∧ stream'.send.written = stream.send.written ++ part ∧
        (result = .ok () → part = buf) := by
  unfold writeAll at h
  obtain ⟨hresult, rfl⟩ := Prod.mk.inj h
  exact ⟨rfl, rfl, Stream.Sink.writeAll_takes (Prod.ext hresult rfl)⟩

/-- Reading moves bytes from what is unread to what was read. -/
theorem readExact_takes {stream stream' : Endpoint} {count : Nat}
    {result : Except ErrorKind (List UInt8)} (h : stream.readExact count = (result, stream')) :
    stream'.send = stream.send ∧ stream'.received = stream.received ∧
      ∀ bytes, result = .ok bytes → bytes.length = count ∧ stream'.taken = stream.taken ++ bytes := by
  unfold readExact at h
  split at h
  · rename_i bytes recv hread
    obtain ⟨hlength, hbytes, -⟩ := Stream.Source.readExact_ok_iff.mp hread
    obtain ⟨rfl, rfl⟩ := Prod.mk.inj h
    refine ⟨rfl, ?_, ?_⟩
    · unfold received
      rw [hbytes, List.append_assoc]
    · intro got hgot
      obtain rfl := Except.ok.inj hgot
      exact ⟨hlength, rfl⟩
  · obtain ⟨rfl, rfl⟩ := Prod.mk.inj h
    exact ⟨rfl, rfl, by simp⟩
  · obtain ⟨rfl, rfl⟩ := Prod.mk.inj h
    exact ⟨rfl, List.append_nil _, by simp⟩

end Endpoint

end Hush.Client
