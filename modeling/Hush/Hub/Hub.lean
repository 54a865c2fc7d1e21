import Hush.Foundation.Broadcast
import Hush.Foundation.Execution
import Hush.Tlv.Value

/-! The event hub of `hub.rs`, shared by any number of threads. What is done under the lock
is one step; a publisher looks the topic up under the lock and sends outside of it. -/
namespace Hush.Hub

open Hush.Foundation Hush.Foundation.Broadcast

structure Event where
  topic : String
  payload : Tlv.Map
  time : UInt64

/-- An event on its way, with the number of the publish call it is from. -/
structure Delivery where
  publish : Nat
  event : Event

inductive Phase where
  | lookedUp
  | counted (count : Nat)
  | returned (count : Nat)
  deriving DecidableEq, Repr

/-- A publish call: its event, the sender it found, and how far it is. -/
structure Publish where
  event : Event
  maybeTx : Option Channel
  phase : Phase

/-- The map under the lock, the channels, and the publish calls by number. Receivers are
known by their place in the list of all receivers. -/
structure State where
  topics : String → Option Channel
  channels : Channels Delivery
  publishes : List Publish

def new : State := ⟨fun _ => none, .new, []⟩

def subscribe (topic : String) (hub : State) : State :=
  match hub.topics topic with
  | some tx => { hub with channels := hub.channels.subscribe tx }
  | none =>
    let (tx, channels) := hub.channels.channel 64
    { hub with
      topics := fun t => if t = topic then some tx else hub.topics t
      channels := channels.subscribe tx }

def unsubscribe (topic : String) (hub : State) : State :=
  match hub.topics topic with
  | some tx =>
    if hub.channels.receiverCount tx = 0 then
      { hub with topics := fun t => if t = topic then none else hub.topics t }
    else hub
  | none => hub

/-- Build the event and look up the sender: without one the call returns at once. -/
def lookUp (topic : String) (payload : Tlv.Map) (time : UInt64) (hub : State) : State :=
  let phase :=
    match hub.topics topic with
    | some _ => Phase.lookedUp
    | none => .returned 0
  { hub with publishes := hub.publishes ++ [⟨⟨topic, payload, time⟩, hub.topics topic, phase⟩] }

def count (publish : Nat) (hub : State) : Option State :=
  match hub.publishes[publish]? with
  | some ⟨event, some tx, .lookedUp⟩ =>
    let counted := Phase.counted (hub.channels.receiverCount tx)
    some { hub with publishes := hub.publishes.set publish ⟨event, some tx, counted⟩ }
  | _ => none

def send (publish : Nat) (hub : State) : Option State :=
  match hub.publishes[publish]? with
  | some ⟨event, some tx, .counted count⟩ =>
    some { hub with
      channels := hub.channels.send tx ⟨publish, event⟩
      publishes := hub.publishes.set publish ⟨event, some tx, .returned count⟩ }
  | _ => none

def subscriberCount (topic : String) (hub : State) : Nat :=
  match hub.topics topic with
  | some tx => hub.channels.receiverCount tx
  | none => 0

inductive Action where
  | subscribe (topic : String)
  | unsubscribe (topic : String)
  | dropReceiver (receiver : Nat)
  | recv (receiver : Nat)
  | lookUp (topic : String) (payload : Tlv.Map) (time : UInt64)
  | count (publish : Nat)
  | send (publish : Nat)

def step (hub : State) : Action → Option State
  | .subscribe topic => some (subscribe topic hub)
  | .unsubscribe topic => some (unsubscribe topic hub)
  | .dropReceiver receiver =>
    if hub.channels.isLive receiver then
      some { hub with channels := hub.channels.dropReceiver receiver }
    else none
  | .recv receiver =>
    if hub.channels.isLive receiver then
      some { hub with channels := hub.channels.recv receiver }
    else none
  | .lookUp topic payload time => some (lookUp topic payload time hub)
  | .count publish => count publish hub
  | .send publish => send publish hub

/-- The hub after the actions, in the order in which they took effect. -/
def run : List Action → Option State := Execution.run step new

def Action.subscribed : Action → Option String
  | .subscribe topic => some topic
  | _ => none

def Action.event : Action → Option Event
  | .lookUp topic payload time => some ⟨topic, payload, time⟩
  | _ => none

def Action.sent : Action → Option Nat
  | .send publish => some publish
  | _ => none

/-- The topics that receivers were obtained for, by receiver. -/
def subscriptions (history : List Action) : List String := history.filterMap Action.subscribed

/-- The events of the publish calls, by number. -/
def events (history : List Action) : List Event := history.filterMap Action.event

/-- The numbers of the publish calls that sent, in the order of their sends. -/
def sends (history : List Action) : List Nat := history.filterMap Action.sent

/-- A call that sends has found a sender and counted its receivers. -/
theorem send_cases {hub hub' : State} {publish : Nat} (h : send publish hub = some hub') :
    ∃ event tx count, hub.publishes[publish]? = some ⟨event, some tx, .counted count⟩ ∧
      hub' = { hub with
        channels := hub.channels.send tx ⟨publish, event⟩
        publishes := hub.publishes.set publish ⟨event, some tx, .returned count⟩ } := by
  unfold send at h
  split at h
  · rename_i event tx count hpublish
    exact ⟨event, tx, count, hpublish, (Option.some.inj h).symm⟩
  · cases h

theorem count_cases {hub hub' : State} {publish : Nat} (h : count publish hub = some hub') :
    ∃ event tx count, hub.publishes[publish]? = some ⟨event, some tx, .lookedUp⟩ ∧
      hub' = { hub with
        publishes := hub.publishes.set publish ⟨event, some tx, .counted count⟩ } := by
  unfold count at h
  split at h
  · rename_i event tx hpublish
    exact ⟨event, tx, _, hpublish, (Option.some.inj h).symm⟩
  · cases h

end Hush.Hub
