import Hush.Hub.Order
import Hush.Server.FrameStream
import Hush.Tlv.Access

/-! The chat room's subscriber: a streaming handler that forwards what its hub receiver hears.
Publishers, other subscribers and the network act between any two of its steps. What its client
reads are the numbered events of its topic, in order. -/
namespace Hush.Chat

open Hush.Foundation Hush.Foundation.Broadcast Execution Stream
open Hush.Frame hiding Request
open Hush.Session
open Hush.Server hiding Event
open Hush.Hub (Delivery Event)

/-- The topic that a subscriber asks for. -/
def subscribedTopic (req : Request) : String := (req.payload.getString "topic").getD "chat"

def ackResponse (topic : String) : Response :=
  ⟨.success, some ((Tlv.MapOf.new.set "event" (.string "subscribed")).set "topic" (.string topic)),
    0⟩

def messageResponse (evt : Event) (seq : UInt32) : Response :=
  let payload := ((Tlv.MapOf.new.set "event" (.string "message")).set "topic"
    (.string evt.topic)).set "payload" (.map evt.payload)
  ⟨.success, some payload, seq⟩

inductive RecvError where
  | lagged | closed

/-- An event was dropped from the queue before it was taken. -/
def Lagged (r : Receiver Delivery) : Prop := r.received.length + r.queue.length < r.log.length

instance (r : Receiver Delivery) : Decidable (Lagged r) := Nat.decLt _ _

/-- `rx.recv()`, which waits while the queue is empty and the hub keeps the sender. -/
def recvEvent (hub : Hub.State) (topic : String) (r : Receiver Delivery) :
    Option (Except RecvError Event) :=
  if Lagged r then some (.error .lagged)
  else
    match r.queue with
    | d :: _ => some (.ok d.event)
    | [] => if hub.topics topic = some r.channel then none else some (.error .closed)

/-- How far the handler is: its receiver, the next number, and the event that it holds. -/
inductive Phase where
  | subscribe
  | ack (rx : Nat)
  | recv (rx : Nat) (seq : UInt32)
  | write (rx : Nat) (seq : UInt32) (evt : Event)
  | drop (rx : Nat)
  | returned (rx : Nat)

def Phase.rx : Phase → Option Nat
  | .subscribe => none
  | .ack rx => some rx
  | .recv rx _ => some rx
  | .write rx _ _ => some rx
  | .drop rx => some rx
  | .returned rx => some rx

/-- The hub, the stream to the client, and the handler between them. -/
structure Room where
  hub : Hub.State
  out : Streamed
  phase : Phase

/-- The handler takes its next step, anybody uses the hub, or the network acts. -/
inductive Action where
  | run (nonce : Nonce)
  | hub (action : Hub.Action)
  | net (op : StreamOp)

/-- The receiver that an action on the hub is for, which only its owner can take. -/
def receiverOf : Hub.Action → Option Nat
  | .recv receiver => some receiver
  | .dropReceiver receiver => some receiver
  | _ => none

def isNet : StreamOp → Bool
  | .write _ _ _ => false
  | .read => false
  | _ => true

/-- A message that could not be written is passed over. -/
def runHandler (aead : Aead) (key : List UInt8) (topic : String) (nonce : Nonce) (s : Room) :
    Option Room :=
  match s.phase with
  | .subscribe =>
    some { s with
      hub := Hub.subscribe topic s.hub
      phase := .ack s.hub.channels.receivers.length }
  | .ack rx =>
    match s.out.write aead nonce key 0 (ackResponse topic) with
    | (.ok (), out) => some { s with out, phase := .recv rx 1 }
    | (.error _, out) => some { s with out, phase := .drop rx }
  | .recv rx seq => do
    let r ← s.hub.channels.receivers[rx]?
    match ← recvEvent s.hub topic r with
    | .ok evt =>
      let hub ← Hub.step s.hub (.recv rx)
      some { s with hub, phase := .write rx seq evt }
    | .error _ => some { s with phase := .drop rx }
  | .write rx seq evt =>
    let (_, out) := s.out.write aead nonce key seq (messageResponse evt seq)
    some { s with out, phase := .recv rx (seq + 1) }
  | .drop rx => do
    let hub ← Hub.step s.hub (.dropReceiver rx)
    some { s with hub, phase := .returned rx }
  | .returned _ => none

def step (aead : Aead) (key : List UInt8) (topic : String) (s : Room) : Action → Option Room
  | .run nonce => runHandler aead key topic nonce s
  | .hub action =>
    if receiverOf action ≠ none ∧ receiverOf action = s.phase.rx then none
    else (Hub.step s.hub action).map fun hub => { s with hub }
  | .net op => if isNet op then (opStep aead key s.out op).map fun out => { s with out } else none

/-- The handler is called, with a stream on which nothing was written. -/
def started (hub : Hub.State) (room : Option (Nat × ErrorKind)) (recv : Frame.Source) : Room :=
  ⟨hub, streamHanded room recv, .subscribe⟩

/-- What the client should get: the acknowledgement, and the events under their numbers. -/
def feed (topic : String) (events : List Event) : List (UInt32 × Response) :=
  (0, ackResponse topic) :: events.mapIdx fun i evt =>
    (UInt32.ofNat (i + 1), messageResponse evt (UInt32.ofNat (i + 1)))

theorem feed_concat (topic : String) (events : List Event) (evt : Event) :
    feed topic (events ++ [evt]) = feed topic events ++ [(UInt32.ofNat (events.length + 1),
      messageResponse evt (UInt32.ofNat (events.length + 1)))] := by
  unfold feed
  rw [List.mapIdx_append]
  simp

/-! ### What a client can tell from the numbers -/

end Hush.Chat
