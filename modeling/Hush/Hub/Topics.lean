import Hush.Hub.Hub

/-! What holds of the topic map and the publish calls after any history. -/
namespace Hush.Hub

open Hush.Foundation Hush.Foundation.Broadcast

/-- The map: its channels were opened, no two topics share one, and a channel that a
publish call holds is not that of another topic. -/
structure Mapped (hub : State) : Prop where
  opened : ∀ {topic tx}, hub.topics topic = some tx → tx.id < hub.channels.opened
  sized : ∀ {topic tx}, hub.topics topic = some tx → tx.capacity = 64
  apart : ∀ {topic topic' tx}, hub.topics topic = some tx → hub.topics topic' = some tx →
    topic = topic'
  held : ∀ publish ∈ hub.publishes, ∀ tx ∈ publish.maybeTx,
    tx.id < hub.channels.opened ∧ ∀ {topic}, hub.topics topic = some tx →
      topic = publish.event.topic

theorem mapped_new : Mapped new where
  opened h := by cases h
  sized h := by cases h
  apart h := by cases h
  held _ h := by cases h

namespace Mapped

variable {hub hub' : State}

/-- Nothing that the map depends on has changed. -/
theorem of_eq (h : Mapped hub) (htopics : hub'.topics = hub.topics)
    (hopened : hub'.channels.opened = hub.channels.opened)
    (hpublishes : hub'.publishes = hub.publishes) : Mapped hub' where
  opened htx := hopened ▸ h.opened (htopics ▸ htx)
  sized htx := h.sized (htopics ▸ htx)
  apart htx htx' := h.apart (htopics ▸ htx) (htopics ▸ htx')
  held := by
    rw [htopics, hopened, hpublishes]
    exact h.held

theorem subscribe (h : Mapped hub) (topic : String) : Mapped (subscribe topic hub) := by
  unfold Hub.subscribe
  split
  · exact h.of_eq rfl rfl rfl
  · rename_i hnone
    -- The new channel has a number that nothing in the map or on its way has.
    have hnew {topic' : String} {tx : Channel}
        (htx : (if topic' = topic then some ⟨hub.channels.opened, 64⟩ else hub.topics topic')
          = some tx) :
        (topic' = topic ∧ tx = ⟨hub.channels.opened, 64⟩) ∨ hub.topics topic' = some tx := by
      split at htx
      · rename_i hsame
        exact .inl ⟨hsame, (Option.some.inj htx).symm⟩
      · exact .inr htx
    constructor
    · intro topic' tx htx
      obtain ⟨-, rfl⟩ | hold := hnew htx
      · exact Nat.lt_succ_self _
      · exact Nat.lt_succ_of_lt (h.opened hold)
    · intro topic' tx htx
      obtain ⟨-, rfl⟩ | hold := hnew htx
      · rfl
      · exact h.sized hold
    · intro topic' topic'' tx htx htx'
      obtain ⟨rfl, rfl⟩ | hold := hnew htx
      · obtain ⟨rfl, -⟩ | hold' := hnew htx'
        · rfl
        · exact absurd (h.opened hold') (Nat.lt_irrefl _)
      · obtain ⟨rfl, rfl⟩ | hold' := hnew htx'
        · exact absurd (h.opened hold) (Nat.lt_irrefl _)
        · exact h.apart hold hold'
    · intro publish hmem tx htx
      obtain ⟨hopened, howner⟩ := h.held publish hmem tx htx
      refine ⟨Nat.lt_succ_of_lt hopened, fun {topic'} htx' => ?_⟩
      obtain ⟨-, rfl⟩ | hold := hnew htx'
      · exact absurd hopened (Nat.lt_irrefl _)
      · exact howner hold

theorem unsubscribe (h : Mapped hub) (topic : String) : Mapped (unsubscribe topic hub) := by
  unfold Hub.unsubscribe
  split
  · split
    · have hold {topic' : String} {tx : Channel}
          (htx : (if topic' = topic then none else hub.topics topic') = some tx) :
          hub.topics topic' = some tx := by
        split at htx
        · cases htx
        · exact htx
      constructor
      · exact fun htx => h.opened (hold htx)
      · exact fun htx => h.sized (hold htx)
      · exact fun htx htx' => h.apart (hold htx) (hold htx')
      · intro publish hmem tx htx
        obtain ⟨hopened, howner⟩ := h.held publish hmem tx htx
        exact ⟨hopened, fun htx' => howner (hold htx')⟩
    · exact h
  · exact h

theorem lookUp (h : Mapped hub) (topic : String) (payload : Tlv.Map) (time : UInt64) :
    Mapped (lookUp topic payload time hub) where
  opened := h.opened
  sized := h.sized
  apart := h.apart
  held := by
    intro publish hmem tx htx
    obtain hold | hnew := List.mem_append.mp hmem
    · exact h.held publish hold tx htx
    · obtain rfl := List.mem_singleton.mp hnew
      exact ⟨h.opened htx, fun htx' => h.apart htx' htx⟩

/-- A publish call goes on: it keeps its event and its sender. -/
theorem set (h : Mapped hub) {channels : Channels Delivery} {p : Nat} {publish publish' : Publish}
    (hpublish : hub.publishes[p]? = some publish) (hevent : publish'.event = publish.event)
    (htx : publish'.maybeTx = publish.maybeTx) (hopened : channels.opened = hub.channels.opened) :
    Mapped { hub with channels, publishes := hub.publishes.set p publish' } where
  opened htx := hopened ▸ h.opened htx
  sized := h.sized
  apart := h.apart
  held := by
    have hheld := h.held publish (List.mem_of_getElem? hpublish)
    refine Execution.forall_mem_set (hopened ▸ h.held) ?_
    rw [htx, hevent, hopened]
    exact hheld

theorem step (h : Mapped hub) {a : Action} (hstep : step hub a = some hub') : Mapped hub' := by
  cases a with
  | subscribe topic =>
    obtain rfl := Option.some.inj hstep
    exact h.subscribe topic
  | unsubscribe topic =>
    obtain rfl := Option.some.inj hstep
    exact h.unsubscribe topic
  | dropReceiver receiver =>
    obtain ⟨-, hsome⟩ := Option.ite_none_right_eq_some.mp hstep
    obtain rfl := Option.some.inj hsome
    exact h.of_eq rfl rfl rfl
  | recv receiver =>
    obtain ⟨-, hsome⟩ := Option.ite_none_right_eq_some.mp hstep
    obtain rfl := Option.some.inj hsome
    exact h.of_eq rfl rfl rfl
  | lookUp topic payload time =>
    obtain rfl := Option.some.inj hstep
    exact h.lookUp topic payload time
  | count publish =>
    obtain ⟨event, tx, count, hpublish, rfl⟩ := count_cases hstep
    exact h.set hpublish rfl rfl rfl
  | send publish =>
    obtain ⟨event, tx, count, hpublish, rfl⟩ := send_cases hstep
    exact h.set hpublish rfl rfl rfl

end Mapped

/-- Histories number receivers by their subscribe calls and events by their look-ups. -/
structure Numbered (past : List Action) (hub : State) : Prop where
  receivers : hub.channels.receivers.length = (subscriptions past).length
  events : hub.publishes.map Publish.event = events past
  returned : ∀ p ∈ sends past, ∃ publish count, hub.publishes[p]? = some publish ∧
    publish.phase = .returned count
  distinct : (sends past).Nodup

theorem filterMap_concat {α β : Type} (f : α → Option β) (past : List α) (a : α) :
    (past ++ [a]).filterMap f = past.filterMap f ++ (f a).toList := by
  rw [List.filterMap_append]
  cases h : f a with
  | none => rw [List.filterMap_cons_none h, List.filterMap_nil, Option.toList_none]
  | some b => rw [List.filterMap_cons_some h, List.filterMap_nil, Option.toList_some]

theorem filterMap_concat_none {α β : Type} {f : α → Option β} {a : α} (h : f a = none)
    (past : List α) : (past ++ [a]).filterMap f = past.filterMap f := by
  rw [filterMap_concat, h, Option.toList_none, List.append_nil]

theorem subscriptions_concat {a : Action} (h : a.subscribed = none) (past : List Action) :
    subscriptions (past ++ [a]) = subscriptions past := filterMap_concat_none h past

theorem events_concat {a : Action} (h : a.event = none) (past : List Action) :
    events (past ++ [a]) = events past := filterMap_concat_none h past

theorem sends_concat {a : Action} (h : a.sent = none) (past : List Action) :
    sends (past ++ [a]) = sends past := filterMap_concat_none h past

theorem subscriptions_subscribe (past : List Action) (topic : String) :
    subscriptions (past ++ [.subscribe topic]) = subscriptions past ++ [topic] :=
  filterMap_concat _ past _

theorem events_lookUp (past : List Action) (topic : String) (payload : Tlv.Map) (time : UInt64) :
    events (past ++ [.lookUp topic payload time]) = events past ++ [⟨topic, payload, time⟩] :=
  filterMap_concat _ past _

theorem sends_send (past : List Action) (p : Nat) :
    sends (past ++ [.send p]) = sends past ++ [p] := filterMap_concat _ past _

theorem numbered_new : Numbered [] new where
  receivers := rfl
  events := rfl
  returned _ h := by cases h
  distinct := List.nodup_nil

namespace Numbered

variable {past : List Action} {hub hub' : State}

theorem event_of_get (h : Numbered past hub) {p : Nat} {publish : Publish}
    (hpublish : hub.publishes[p]? = some publish) :
    (Hub.events past)[p]? = some publish.event := by
  rw [← h.events, List.getElem?_map, hpublish]
  rfl

/-- Neither the publish calls nor the number of receivers has changed. -/
theorem of_eq (h : Numbered past hub) {a : Action} (hsubscribed : a.subscribed = none)
    (hevent : a.event = none) (hsent : a.sent = none)
    (hreceivers : hub'.channels.receivers.length = hub.channels.receivers.length)
    (hpublishes : hub'.publishes = hub.publishes) : Numbered (past ++ [a]) hub' := by
  constructor
  · rw [subscriptions_concat hsubscribed, hreceivers]
    exact h.receivers
  · rw [events_concat hevent, hpublishes]
    exact h.events
  · rw [sends_concat hsent, hpublishes]
    exact h.returned
  · rw [sends_concat hsent]
    exact h.distinct

theorem subscribe (h : Numbered past hub) (topic : String) :
    Numbered (past ++ [.subscribe topic]) (Hub.subscribe topic hub) := by
  have hlength : (Hub.subscribe topic hub).channels.receivers.length =
      hub.channels.receivers.length + 1 := by
    unfold Hub.subscribe
    split <;> exact List.length_append
  have hpublishes : (Hub.subscribe topic hub).publishes = hub.publishes := by
    unfold Hub.subscribe
    split <;> rfl
  constructor
  · rw [hlength, h.receivers, subscriptions_subscribe, List.length_append, List.length_singleton]
  · rw [hpublishes, events_concat rfl]
    exact h.events
  · rw [hpublishes, sends_concat rfl]
    exact h.returned
  · rw [sends_concat rfl]
    exact h.distinct

theorem lookUp (h : Numbered past hub) (topic : String) (payload : Tlv.Map) (time : UInt64) :
    Numbered (past ++ [.lookUp topic payload time]) (Hub.lookUp topic payload time hub) := by
  constructor
  · rw [subscriptions_concat rfl]
    exact h.receivers
  · rw [events_lookUp, ← h.events]
    exact List.map_append
  · rw [sends_concat rfl]
    intro p hp
    obtain ⟨publish, count, hpublish, hphase⟩ := h.returned p hp
    refine ⟨publish, count, ?_, hphase⟩
    exact (List.getElem?_append_left (List.getElem?_eq_some_iff.mp hpublish).1).trans hpublish
  · rw [sends_concat rfl]
    exact h.distinct

/-- The call that goes on has not sent, and those that have returned stay as they are. -/
theorem returned_set (h : Numbered past hub) {p : Nat} {publish : Publish} (publish' : Publish)
    (hpublish : hub.publishes[p]? = some publish)
    (hphase : ∀ count, publish.phase ≠ .returned count) :
    p ∉ sends past ∧ ∀ q ∈ sends past, ∃ publish count,
      (hub.publishes.set p publish')[q]? = some publish ∧ publish.phase = .returned count := by
  have hfresh : p ∉ sends past := by
    intro hp
    obtain ⟨_, count, hreturned, hphase'⟩ := h.returned p hp
    obtain rfl := Option.some.inj (hpublish.symm.trans hreturned)
    exact hphase count hphase'
  refine ⟨hfresh, fun q hq => ?_⟩
  obtain ⟨returned, count, hreturned, hphase'⟩ := h.returned q hq
  have hother : p ≠ q := by
    rintro rfl
    exact hfresh hq
  exact ⟨returned, count, (List.getElem?_set_ne hother).trans hreturned, hphase'⟩

theorem events_set (h : Numbered past hub) {p : Nat} {publish publish' : Publish}
    (hpublish : hub.publishes[p]? = some publish) (hevent : publish'.event = publish.event) :
    (hub.publishes.set p publish').map Publish.event = Hub.events past := by
  obtain ⟨hlt, rfl⟩ := List.getElem?_eq_some_iff.mp hpublish
  rw [List.map_set, hevent, ← h.events]
  have hsame := @List.set_getElem_self _ (hub.publishes.map Publish.event) p
    (by rwa [List.length_map])
  rwa [List.getElem_map] at hsame

theorem count (h : Numbered past hub) {p : Nat} (hstep : Hub.count p hub = some hub') :
    Numbered (past ++ [.count p]) hub' := by
  obtain ⟨event, tx, count, hpublish, rfl⟩ := count_cases hstep
  constructor
  · rw [subscriptions_concat rfl]
    exact h.receivers
  · rw [events_concat rfl]
    exact h.events_set hpublish rfl
  · rw [sends_concat rfl]
    exact (h.returned_set _ hpublish (by simp)).2
  · rw [sends_concat rfl]
    exact h.distinct

theorem send (h : Numbered past hub) {p : Nat} (hstep : Hub.send p hub = some hub') :
    Numbered (past ++ [.send p]) hub' := by
  obtain ⟨event, tx, count, hpublish, rfl⟩ := send_cases hstep
  obtain ⟨hfresh, hreturned⟩ := h.returned_set ⟨event, some tx, .returned count⟩ hpublish
    (by simp)
  constructor
  · rw [subscriptions_concat rfl, ← h.receivers]
    exact List.length_map _
  · rw [events_concat rfl]
    exact h.events_set hpublish rfl
  · rw [sends_send]
    intro q hq
    obtain hold | hnew := List.mem_append.mp hq
    · exact hreturned q hold
    · obtain rfl := List.mem_singleton.mp hnew
      exact ⟨_, count, List.getElem?_set_self (List.getElem?_eq_some_iff.mp hpublish).1, rfl⟩
  · rw [sends_send]
    refine List.nodup_append.mpr ⟨h.distinct, List.nodup_singleton p, ?_⟩
    rintro q hq _ hp rfl
    exact hfresh (List.mem_singleton.mp hp ▸ hq)

theorem step (h : Numbered past hub) {a : Action} (hstep : Hub.step hub a = some hub') :
    Numbered (past ++ [a]) hub' := by
  cases a with
  | subscribe topic =>
    obtain rfl := Option.some.inj hstep
    exact h.subscribe topic
  | unsubscribe topic =>
    obtain rfl := Option.some.inj hstep
    have hsame : (Hub.unsubscribe topic hub).channels = hub.channels ∧
        (Hub.unsubscribe topic hub).publishes = hub.publishes := by
      unfold Hub.unsubscribe
      split
      · split <;> exact ⟨rfl, rfl⟩
      · exact ⟨rfl, rfl⟩
    exact h.of_eq rfl rfl rfl (congrArg (fun channels => channels.receivers.length) hsame.1)
      hsame.2
  | dropReceiver receiver =>
    obtain ⟨-, hsome⟩ := Option.ite_none_right_eq_some.mp hstep
    obtain rfl := Option.some.inj hsome
    exact h.of_eq rfl rfl rfl (List.length_modify ..) rfl
  | recv receiver =>
    obtain ⟨-, hsome⟩ := Option.ite_none_right_eq_some.mp hstep
    obtain rfl := Option.some.inj hsome
    exact h.of_eq rfl rfl rfl (List.length_modify ..) rfl
  | lookUp topic payload time =>
    obtain rfl := Option.some.inj hstep
    exact h.lookUp topic payload time
  | count p => exact h.count hstep
  | send p => exact h.send hstep

end Numbered

end Hush.Hub
