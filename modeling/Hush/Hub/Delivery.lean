import Hush.Hub.Topics

/-! No live receiver is on a channel that its topic has lost: a channel is taken out of
the map only when it has no live receiver. So whoever looks a topic up finds the channel
of all its live receivers, whatever happens between the look-up and the send. -/
namespace Hush.Hub

open Hush.Foundation Hush.Foundation.Broadcast

/-- What holds of the receiver of this number, obtained for this topic. -/
structure Served (past : List Action) (topics : String → Option Channel) (i : Nat)
    (topic : String) (r : Receiver Delivery) : Prop where
  attached : r.live = true → topics topic = some r.channel
  sized : r.channel.capacity = 64
  ordered : (r.log.map Delivery.publish).Sublist (sends past)
  own : ∀ d ∈ r.log, d.event.topic = topic ∧ (events past)[d.publish]? = some d.event

/-- All receivers are served. -/
def AllServed (past : List Action) (hub : State) : Prop :=
  ∀ i topic r, (subscriptions past)[i]? = some topic → hub.channels.receivers[i]? = some r →
    Served past hub.topics i topic r

theorem sends_sublist (past : List Action) (a : Action) :
    (sends past).Sublist (sends (past ++ [a])) := by
  unfold sends
  rw [List.filterMap_append]
  exact List.sublist_append_left _ _

theorem events_get_append {past : List Action} {p : Nat} {event : Event} (rest : List Action)
    (h : (events past)[p]? = some event) : (events (past ++ rest))[p]? = some event := by
  unfold events
  rw [List.filterMap_append]
  exact (List.getElem?_append_left (List.getElem?_eq_some_iff.mp h).1).trans h

namespace Served

variable {past : List Action} {topics topics' : String → Option Channel} {i : Nat}
  {topic : String} {r : Receiver Delivery}

/-- An action that leaves the receiver and its topic alone. -/
theorem later (h : Served past topics i topic r) (a : Action)
    (htopics : r.live = true → topics' topic = topics topic) :
    Served (past ++ [a]) topics' i topic r where
  attached hlive := (htopics hlive).trans (h.attached hlive)
  sized := h.sized
  ordered := h.ordered.trans (sends_sublist past a)
  own d hd := ⟨(h.own d hd).1, events_get_append [a] (h.own d hd).2⟩

theorem close (h : Served past topics i topic r) :
    Served (past ++ [.dropReceiver i]) topics i topic r.close :=
  have hlater := h.later (.dropReceiver i) fun _ => rfl
  { attached := fun hlive => absurd hlive Bool.false_ne_true
    sized := hlater.sized
    ordered := hlater.ordered
    own := hlater.own }

theorem recv (h : Served past topics i topic r) : Served past topics i topic r.recv := by
  unfold Receiver.recv
  split
  · exact h
  · exact ⟨h.attached, h.sized, h.ordered, h.own⟩

/-- What is heard is an event of the receiver's topic, because its topic has the channel. -/
theorem hear (h : Served past topics i topic r) {tx : Channel} {p : Nat} {event : Event}
    (hevent : (events past)[p]? = some event)
    (howner : ∀ {topic}, topics topic = some tx → topic = event.topic) :
    Served (past ++ [.send p]) topics i topic (r.hear tx ⟨p, event⟩) := by
  have hlater := h.later (.send p) fun _ => rfl
  unfold Receiver.hear
  split
  · rename_i hheard
    obtain ⟨hlive, rfl⟩ := hheard
    refine ⟨hlater.attached, hlater.sized, ?_, fun d hd => ?_⟩
    · rw [sends_send]
      have hpush : (r.push ⟨p, event⟩).log.map Delivery.publish =
        r.log.map Delivery.publish ++ [p] := List.map_append
      exact hpush ▸ h.ordered.append_right [p]
    · obtain hold | hnew := List.mem_append.mp hd
      · exact hlater.own d hold
      · obtain rfl := List.mem_singleton.mp hnew
        exact ⟨(howner (h.attached hlive)).symm, events_get_append _ hevent⟩
  · exact hlater

end Served

/-- The newest receiver or one of those before, in two lists that are numbered alike. -/
theorem get_concat_cases {α β : Type} {xs : List α} {ys : List β} {x x' : α} {y y' : β} {i : Nat}
    (hlength : ys.length = xs.length) (hx : (xs ++ [x])[i]? = some x')
    (hy : (ys ++ [y])[i]? = some y') :
    (xs[i]? = some x' ∧ ys[i]? = some y') ∨ (x' = x ∧ y' = y) := by
  rw [List.getElem?_append] at hx hy
  rw [hlength] at hy
  split at hx
  · rename_i hlt
    rw [if_pos hlt] at hy
    exact .inl ⟨hx, hy⟩
  · rename_i hlt
    rw [if_neg hlt] at hy
    rw [List.getElem?_singleton] at hx hy
    split at hx
    · rename_i hlast
      rw [if_pos hlast] at hy
      exact .inr ⟨(Option.some.inj hx).symm, (Option.some.inj hy).symm⟩
    · cases hx

namespace AllServed

variable {past : List Action} {hub hub' : State}

theorem subscribe (h : AllServed past hub) (hmapped : Mapped hub) (hnumbered : Numbered past hub)
    (topic : String) : AllServed (past ++ [.subscribe topic]) (Hub.subscribe topic hub) := by
  have hfresh {topics : String → Option Channel} {i : Nat} {tx : Channel}
      (htx : topics topic = some tx) (hsized : tx.capacity = 64) :
      Served (past ++ [.subscribe topic]) topics i topic (.fresh tx) :=
    ⟨fun _ => htx, hsized, List.nil_sublist _, fun _ hd => nomatch hd⟩
  intro i topic' r htopic hr
  rw [subscriptions_subscribe] at htopic
  unfold Hub.subscribe at hr ⊢
  cases htx : hub.topics topic with
  | some tx =>
    rw [htx] at hr
    obtain ⟨hold, hget⟩ | ⟨rfl, rfl⟩ := get_concat_cases hnumbered.receivers htopic hr
    · exact (h i _ r hold hget).later _ fun _ => rfl
    · exact hfresh htx (hmapped.sized htx)
  | none =>
    rw [htx] at hr
    obtain ⟨hold, hget⟩ | ⟨rfl, rfl⟩ := get_concat_cases hnumbered.receivers htopic hr
    · have hserved := h i _ r hold hget
      refine hserved.later _ fun hlive => if_neg ?_
      rintro rfl
      exact Option.some_ne_none _ ((hserved.attached hlive).symm.trans htx)
    · exact hfresh (if_pos rfl) rfl

/-- The topic of a live receiver stays, for then its channel counts a receiver. -/
theorem unsubscribe (h : AllServed past hub) (topic : String) :
    AllServed (past ++ [.unsubscribe topic]) (Hub.unsubscribe topic hub) := by
  intro i topic' r htopic hr
  rw [subscriptions_concat rfl] at htopic
  unfold Hub.unsubscribe at hr ⊢
  cases htx : hub.topics topic with
  | none =>
    rw [htx] at hr
    exact (h i _ r htopic hr).later _ fun _ => rfl
  | some tx =>
    rw [htx] at hr
    dsimp only at hr ⊢
    by_cases hcount : hub.channels.receiverCount tx = 0
    · rw [if_pos hcount] at hr ⊢
      refine (h i _ r htopic hr).later _ fun hlive => if_neg ?_
      rintro rfl
      have hchannel := ((h i _ r htopic hr).attached hlive).symm.trans htx
      exact Channels.receiverCount_eq_zero.mp hcount r (List.mem_of_getElem? hr) hlive
        (Option.some.inj hchannel)
    · rw [if_neg hcount] at hr ⊢
      exact (h i _ r htopic hr).later _ fun _ => rfl

theorem dropReceiver (h : AllServed past hub) (receiver : Nat) :
    AllServed (past ++ [.dropReceiver receiver])
      { hub with channels := hub.channels.dropReceiver receiver } := by
  intro i topic r htopic hr
  rw [subscriptions_concat rfl] at htopic
  obtain ⟨old, hold, rfl⟩ := Option.map_eq_some_iff.mp ((List.getElem?_modify ..).symm.trans hr)
  by_cases hsame : receiver = i
  · rw [if_pos hsame, hsame]
    exact (h i _ old htopic hold).close
  · rw [if_neg hsame]
    exact (h i _ old htopic hold).later _ fun _ => rfl

theorem recv (h : AllServed past hub) (receiver : Nat) :
    AllServed (past ++ [.recv receiver])
      { hub with channels := hub.channels.recv receiver } := by
  intro i topic r htopic hr
  rw [subscriptions_concat rfl] at htopic
  obtain ⟨old, hold, rfl⟩ := Option.map_eq_some_iff.mp ((List.getElem?_modify ..).symm.trans hr)
  have hlater := (h i _ old htopic hold).later (.recv receiver) (fun _ => rfl)
  split
  · exact hlater.recv
  · exact hlater

theorem send (h : AllServed past hub) (hmapped : Mapped hub) (hnumbered : Numbered past hub)
    {p : Nat} (hstep : Hub.send p hub = some hub') : AllServed (past ++ [.send p]) hub' := by
  obtain ⟨event, tx, count, hpublish, rfl⟩ := send_cases hstep
  intro i topic r htopic hr
  rw [subscriptions_concat rfl] at htopic
  obtain ⟨old, hold, rfl⟩ := Option.map_eq_some_iff.mp (List.getElem?_map.symm.trans hr)
  exact (h i _ old htopic hold).hear (hnumbered.event_of_get hpublish)
    (hmapped.held _ (List.mem_of_getElem? hpublish) tx rfl).2

theorem step (h : AllServed past hub) (hmapped : Mapped hub) (hnumbered : Numbered past hub)
    {a : Action} (hstep : Hub.step hub a = some hub') : AllServed (past ++ [a]) hub' := by
  cases a with
  | subscribe topic =>
    obtain rfl := Option.some.inj hstep
    exact h.subscribe hmapped hnumbered topic
  | unsubscribe topic =>
    obtain rfl := Option.some.inj hstep
    exact h.unsubscribe topic
  | dropReceiver receiver =>
    obtain ⟨-, hsome⟩ := Option.ite_none_right_eq_some.mp hstep
    obtain rfl := Option.some.inj hsome
    exact h.dropReceiver receiver
  | recv receiver =>
    obtain ⟨-, hsome⟩ := Option.ite_none_right_eq_some.mp hstep
    obtain rfl := Option.some.inj hsome
    exact h.recv receiver
  | lookUp topic payload time =>
    obtain rfl := Option.some.inj hstep
    intro i topic' r htopic hr
    rw [subscriptions_concat rfl] at htopic
    exact (h i _ r htopic hr).later _ fun _ => rfl
  | count p =>
    obtain ⟨event, tx, count, hpublish, rfl⟩ := count_cases hstep
    intro i topic r htopic hr
    rw [subscriptions_concat rfl] at htopic
    exact (h i _ r htopic hr).later _ fun _ => rfl
  | send p => exact h.send hmapped hnumbered hstep

end AllServed

/-- The invariant of all histories. -/
structure Sound (past : List Action) (hub : State) : Prop where
  mapped : Mapped hub
  numbered : Numbered past hub
  served : AllServed past hub

theorem sound_of_run {history : List Action} {hub : State} (hrun : run history = some hub) :
    Sound history hub :=
  Execution.run_history
    (fun _ h hstep => ⟨h.mapped.step hstep, h.numbered.step hstep,
      h.served.step h.mapped h.numbered hstep⟩)
    hrun ⟨mapped_new, numbered_new, fun _ _ _ htopic => nomatch htopic⟩

/-- What no action undoes: receivers evolve, and publish calls keep event and sender. -/
structure Grows (hub hub' : State) : Prop where
  channels : hub.channels.Evolves hub'.channels
  publishes : ∀ {p : Nat} {publish : Publish}, hub.publishes[p]? = some publish →
    ∃ publish', hub'.publishes[p]? = some publish' ∧ publish'.event = publish.event ∧
      publish'.maybeTx = publish.maybeTx

namespace Grows

theorem of_eq {hub hub' : State} (hchannels : hub.channels.Evolves hub'.channels)
    (hpublishes : hub'.publishes = hub.publishes) : Grows hub hub' :=
  ⟨hchannels, fun {_ publish} hpublish => ⟨publish, hpublishes ▸ hpublish, rfl, rfl⟩⟩

theorem trans {hub hub' hub'' : State} (h : Grows hub hub') (h' : Grows hub' hub'') :
    Grows hub hub'' where
  channels := h.channels.trans h'.channels
  publishes hpublish := by
    obtain ⟨mid, hmid, hevent, htx⟩ := h.publishes hpublish
    obtain ⟨last, hlast, hevent', htx'⟩ := h'.publishes hmid
    exact ⟨last, hlast, hevent'.trans hevent, htx'.trans htx⟩

theorem set {hub : State} {channels : Channels Delivery} {p : Nat} {publish publish' : Publish}
    (hchannels : hub.channels.Evolves channels) (hpublish : hub.publishes[p]? = some publish)
    (hevent : publish'.event = publish.event) (htx : publish'.maybeTx = publish.maybeTx) :
    Grows hub { hub with channels, publishes := hub.publishes.set p publish' } where
  channels := hchannels
  publishes {q old} hold := by
    by_cases hsame : p = q
    · subst hsame
      obtain rfl := Option.some.inj (hpublish.symm.trans hold)
      exact ⟨publish', List.getElem?_set_self (List.getElem?_eq_some_iff.mp hold).1, hevent, htx⟩
    · exact ⟨old, (List.getElem?_set_ne hsame).trans hold, rfl, rfl⟩

theorem step {hub hub' : State} {a : Action} (hstep : step hub a = some hub') :
    Grows hub hub' := by
  cases a with
  | subscribe topic =>
    obtain rfl := Option.some.inj hstep
    unfold subscribe
    split
    · exact of_eq (.subscribe _ _) rfl
    · exact of_eq (.subscribe _ _) rfl
  | unsubscribe topic =>
    obtain rfl := Option.some.inj hstep
    unfold unsubscribe
    split
    · split
      · exact of_eq (.of_eq rfl) rfl
      · exact of_eq (.of_eq rfl) rfl
    · exact of_eq (.of_eq rfl) rfl
  | dropReceiver receiver =>
    obtain ⟨-, hsome⟩ := Option.ite_none_right_eq_some.mp hstep
    obtain rfl := Option.some.inj hsome
    exact of_eq (.modify .close receiver _) rfl
  | recv receiver =>
    obtain ⟨-, hsome⟩ := Option.ite_none_right_eq_some.mp hstep
    obtain rfl := Option.some.inj hsome
    exact of_eq (.modify .recv receiver _) rfl
  | lookUp topic payload time =>
    obtain rfl := Option.some.inj hstep
    refine ⟨.of_eq rfl, fun {p publish} hpublish => ⟨publish, ?_, rfl, rfl⟩⟩
    exact (List.getElem?_append_left (List.getElem?_eq_some_iff.mp hpublish).1).trans hpublish
  | count p =>
    obtain ⟨event, tx, count, hpublish, rfl⟩ := count_cases hstep
    exact set (.of_eq rfl) hpublish rfl rfl
  | send p =>
    obtain ⟨event, tx, count, hpublish, rfl⟩ := send_cases hstep
    exact set (.send tx _ _) hpublish rfl rfl

theorem run {hub hub' : State} {actions : List Action}
    (hrun : Execution.run Hub.step hub actions = some hub') : Grows hub hub' :=
  Execution.run_preserves (fun h hstep => h.trans (step hstep)) hrun
    (of_eq (.of_eq rfl) rfl)

end Grows

/-- A run in two parts. -/
theorem run_split {first rest : List Action} {hub : State} (h : run (first ++ rest) = some hub) :
    ∃ mid, run first = some mid ∧ Execution.run step mid rest = some hub := by
  rw [run, Execution.run_append] at h
  exact Option.bind_eq_some_iff.mp h

theorem subscriptions_get (past rest : List Action) (topic : String) :
    (subscriptions (past ++ .subscribe topic :: rest))[(subscriptions past).length]? =
      some topic := by
  have hsplit : subscriptions (past ++ .subscribe topic :: rest) =
    subscriptions past ++ topic :: subscriptions rest := List.filterMap_append
  rw [hsplit, List.getElem?_append_right le_rfl, Nat.sub_self]
  rfl

end Hush.Hub
