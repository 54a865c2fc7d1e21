import Hush.Chat.Subscriber

/-! What a chat subscriber's client gets, in every run: numbered events of its topic, in the order
of its receiver, until the receiver has lost one. -/
namespace Hush.Chat

open Hush.Foundation Hush.Foundation.Broadcast Execution Stream
open Hush.Frame hiding Request
open Hush.Session
open Hush.Server hiding Event Channel
open Hush.Hub (Delivery Event)

/-- The receiver has taken the first events of its log, of which as many are forwarded. -/
structure Fed (topic : String) (history : List Hub.Action) (s : Room) (rx : Nat)
    (r : Receiver Delivery) (count : Nat) : Prop where
  asked : (Hub.subscriptions history)[rx]? = some topic
  receiver : s.hub.channels.receivers[rx]? = some r
  ordered : r.received <+: r.log
  written : s.out.written.Sublist (feed topic ((r.received.take count).map Delivery.event))

/-- Where the handler stands. It gives up only unacknowledged, or after a loss. -/
def Standing (topic : String) (history : List Hub.Action) (s : Room) : Prop :=
  match s.phase with
  | .subscribe => s.out.written = []
  | .ack rx => ∃ r, Fed topic history s rx r 0 ∧ r.live = true ∧ r.received = [] ∧
      s.out.written = []
  | .recv rx seq => ∃ r, Fed topic history s rx r r.received.length ∧ r.live = true ∧
      seq = UInt32.ofNat (r.received.length + 1)
  | .write rx seq evt => ∃ r taken d, Fed topic history s rx r taken.length ∧ r.live = true ∧
      r.received = taken ++ [d] ∧ evt = d.event ∧ seq = UInt32.ofNat (taken.length + 1)
  | .drop rx => ∃ r, Fed topic history s rx r r.received.length ∧ r.live = true ∧
      (s.out.written = [] ∨ Lagged r)
  | .returned rx => ∃ r, Fed topic history s rx r r.received.length ∧ r.live = false ∧
      (s.out.written = [] ∨ Lagged r)

/-- What others do to a receiver. -/
structure Left (r r' : Receiver Delivery) : Prop where
  received : r'.received = r.received
  live : r'.live = r.live
  log : r.log <+: r'.log
  lagged : Lagged r → Lagged r'

namespace Left

theorem refl (r : Receiver Delivery) : Left r r := ⟨rfl, rfl, List.prefix_rfl, id⟩

theorem hear (tx : Channel) (d : Delivery) (r : Receiver Delivery) : Left r (r.hear tx d) := by
  unfold Receiver.hear
  split
  · refine ⟨rfl, rfl, List.prefix_append _ _, fun hlagged => ?_⟩
    have hlength : (r.push d).queue.length ≤ r.queue.length + 1 := by
      change ((r.queue ++ [d]).drop _).length ≤ _
      rw [List.length_drop, List.length_append, List.length_singleton]
      omega
    have hlog : (r.push d).log.length = r.log.length + 1 := List.length_append
    unfold Lagged at hlagged ⊢
    change r.received.length + _ < _
    omega
  · exact refl r

end Left

theorem left_of_step {hub hub' : Hub.State} {a : Hub.Action} {rx : Nat} {r : Receiver Delivery}
    (hstep : Hub.step hub a = some hub') (hother : receiverOf a ≠ some rx)
    (hr : hub.channels.receivers[rx]? = some r) :
    ∃ r', hub'.channels.receivers[rx]? = some r' ∧ Left r r' := by
  have hmodify {f : Receiver Delivery → Receiver Delivery} {i : Nat} (hne : i ≠ rx) :
      (hub.channels.receivers.modify i f)[rx]? = some r := by
    rw [List.getElem?_modify, hr]
    simp [hne]
  have hjoined (tx : Channel) : (hub.channels.receivers ++ [.fresh tx])[rx]? = some r :=
    (List.getElem?_append_left (List.getElem?_eq_some_iff.mp hr).1).trans hr
  cases a with
  | subscribe topic =>
    obtain rfl := Option.some.inj hstep
    unfold Hub.subscribe
    split
    · exact ⟨r, hjoined _, .refl r⟩
    · exact ⟨r, hjoined _, .refl r⟩
  | unsubscribe topic =>
    obtain rfl := Option.some.inj hstep
    unfold Hub.unsubscribe
    split
    · split
      · exact ⟨r, hr, .refl r⟩
      · exact ⟨r, hr, .refl r⟩
    · exact ⟨r, hr, .refl r⟩
  | dropReceiver i =>
    obtain ⟨-, hsome⟩ := Option.ite_none_right_eq_some.mp hstep
    obtain rfl := Option.some.inj hsome
    exact ⟨r, hmodify fun heq => hother (congrArg some heq), .refl r⟩
  | recv i =>
    obtain ⟨-, hsome⟩ := Option.ite_none_right_eq_some.mp hstep
    obtain rfl := Option.some.inj hsome
    exact ⟨r, hmodify fun heq => hother (congrArg some heq), .refl r⟩
  | lookUp topic payload time =>
    obtain rfl := Option.some.inj hstep
    exact ⟨r, hr, .refl r⟩
  | count p =>
    obtain ⟨event, tx, count, -, rfl⟩ := Hub.count_cases hstep
    exact ⟨r, hr, .refl r⟩
  | send p =>
    obtain ⟨event, tx, count, -, rfl⟩ := Hub.send_cases hstep
    exact ⟨r.hear tx ⟨p, event⟩, by rw [Channels.send, List.getElem?_map, hr]; rfl, .hear tx _ r⟩

/-- The hub is as its history left it. -/
structure InRoom (topic : String) (history : List Hub.Action) (s : Room) : Prop where
  ran : Hub.run history = some s.hub
  standing : Standing topic history s

theorem ran_concat {history : List Hub.Action} {hub hub' : Hub.State} {a : Hub.Action}
    (hran : Hub.run history = some hub) (hstep : Hub.step hub a = some hub') :
    Hub.run (history ++ [a]) = some hub' := by
  rw [Hub.run, run_append]
  exact Option.bind_eq_some_iff.mpr ⟨hub, hran, run_cons.mpr ⟨hub', hstep, rfl⟩⟩

theorem topic_concat {history : List Hub.Action} {rx : Nat} {topic : String} (a : Hub.Action)
    (h : (Hub.subscriptions history)[rx]? = some topic) :
    (Hub.subscriptions (history ++ [a]))[rx]? = some topic := by
  unfold Hub.subscriptions at h ⊢
  rw [List.filterMap_append]
  exact (List.getElem?_append_left (List.getElem?_eq_some_iff.mp h).1).trans h

theorem Fed.left {topic : String} {history : List Hub.Action} {s s' : Room} {rx count : Nat}
    {r r' : Receiver Delivery} (h : Fed topic history s rx r count) (a : Hub.Action)
    (hleft : Left r r') (hr' : s'.hub.channels.receivers[rx]? = some r')
    (hout : s'.out.written = s.out.written) : Fed topic (history ++ [a]) s' rx r' count where
  asked := topic_concat a h.asked
  receiver := hr'
  ordered := by
    rw [hleft.received]
    exact h.ordered.trans hleft.log
  written := by
    rw [hleft.received, hout]
    exact h.written

/-- Somebody else uses the hub. -/
theorem InRoom.hub {topic : String} {history : List Hub.Action} {s : Room} {a : Hub.Action}
    {hub' : Hub.State} (h : InRoom topic history s) (hstep : Hub.step s.hub a = some hub')
    (hother : ¬(receiverOf a ≠ none ∧ receiverOf a = s.phase.rx)) :
    InRoom topic (history ++ [a]) { s with hub := hub' } := by
  refine ⟨ran_concat h.ran hstep, ?_⟩
  obtain ⟨hub, out, phase⟩ := s
  have hstanding := h.standing
  have hleft {rx : Nat} {r : Receiver Delivery} (hrx : Phase.rx phase = some rx)
      (hr : hub.channels.receivers[rx]? = some r) :
      ∃ r', hub'.channels.receivers[rx]? = some r' ∧ Left r r' :=
    left_of_step hstep (fun heq => hother ⟨by simp [heq], heq.trans hrx.symm⟩) hr
  cases phase with
  | subscribe => exact hstanding
  | ack rx =>
    obtain ⟨r, hfed, hlive, hreceived, hwritten⟩ := hstanding
    obtain ⟨r', hr', hleft⟩ := hleft rfl hfed.receiver
    exact ⟨r', hfed.left a hleft hr' rfl, hleft.live.trans hlive, hleft.received.trans hreceived,
      hwritten⟩
  | recv rx seq =>
    obtain ⟨r, hfed, hlive, hseq⟩ := hstanding
    obtain ⟨r', hr', hleft⟩ := hleft rfl hfed.receiver
    refine ⟨r', ?_, hleft.live.trans hlive, ?_⟩
    · rw [hleft.received]
      exact hfed.left a hleft hr' rfl
    · rw [hleft.received]
      exact hseq
  | write rx seq evt =>
    obtain ⟨r, taken, d, hfed, hlive, hreceived, hevt, hseq⟩ := hstanding
    obtain ⟨r', hr', hleft⟩ := hleft rfl hfed.receiver
    exact ⟨r', taken, d, hfed.left a hleft hr' rfl, hleft.live.trans hlive,
      hleft.received.trans hreceived, hevt, hseq⟩
  | drop rx =>
    obtain ⟨r, hfed, hlive, hwhy⟩ := hstanding
    obtain ⟨r', hr', hleft⟩ := hleft rfl hfed.receiver
    refine ⟨r', ?_, hleft.live.trans hlive, hwhy.imp_right hleft.lagged⟩
    rw [hleft.received]
    exact hfed.left a hleft hr' rfl
  | returned rx =>
    obtain ⟨r, hfed, hlive, hwhy⟩ := hstanding
    obtain ⟨r', hr', hleft⟩ := hleft rfl hfed.receiver
    refine ⟨r', ?_, hleft.live.trans hlive, hwhy.imp_right hleft.lagged⟩
    rw [hleft.received]
    exact hfed.left a hleft hr' rfl

/-- The network acts. -/
theorem InRoom.net {topic : String} {history : List Hub.Action} {s : Room} {out : Streamed}
    (h : InRoom topic history s) (hwritten : out.written = s.out.written) :
    InRoom topic history { s with out } := by
  refine ⟨h.ran, ?_⟩
  obtain ⟨hub, out', phase⟩ := s
  have hstanding := h.standing
  have hfed {rx count : Nat} {r : Receiver Delivery}
      (hfed : Fed topic history ⟨hub, out', phase⟩ rx r count) :
      Fed topic history ⟨hub, out, phase⟩ rx r count :=
    ⟨hfed.asked, hfed.receiver, hfed.ordered, by rw [hwritten]; exact hfed.written⟩
  cases phase with
  | subscribe => exact hwritten.trans hstanding
  | ack rx =>
    obtain ⟨r, hr, hlive, hreceived, hempty⟩ := hstanding
    exact ⟨r, hfed hr, hlive, hreceived, hwritten.trans hempty⟩
  | recv rx seq =>
    obtain ⟨r, hr, hrest⟩ := hstanding
    exact ⟨r, hfed hr, hrest⟩
  | write rx seq evt =>
    obtain ⟨r, taken, d, hr, hrest⟩ := hstanding
    exact ⟨r, taken, d, hfed hr, hrest⟩
  | drop rx =>
    obtain ⟨r, hr, hlive, hwhy⟩ := hstanding
    exact ⟨r, hfed hr, hlive, hwhy.imp_left hwritten.trans⟩
  | returned rx =>
    obtain ⟨r, hr, hlive, hwhy⟩ := hstanding
    exact ⟨r, hfed hr, hlive, hwhy.imp_left hwritten.trans⟩

theorem written_write (aead : Aead) (nonce : Nonce) (key : List UInt8) (seq : UInt32)
    (resp : Response) (out : Streamed) :
    (∃ e, (out.write aead nonce key seq resp).1 = .error e) ∧
        (out.write aead nonce key seq resp).2.written = out.written ∨
      (out.write aead nonce key seq resp).1 = .ok () ∧
        (out.write aead nonce key seq resp).2.written = out.written ++ [(seq, resp)] := by
  unfold Streamed.write
  split
  · exact .inr ⟨rfl, rfl⟩
  · exact .inl ⟨⟨_, rfl⟩, rfl⟩

/-- An event that is received without a loss is the next of the log. -/
theorem recvEvent_ok {hub : Hub.State} {topic : String} {r : Receiver Delivery} {evt : Event}
    (h : recvEvent hub topic r = some (.ok evt)) :
    ∃ d rest, evt = d.event ∧ r.queue = d :: rest ∧ r.received ++ r.queue = r.log := by
  unfold recvEvent at h
  by_cases hlagged : Lagged r
  · rw [if_pos hlagged] at h
    cases h
  · rw [if_neg hlagged] at h
    have hall : r.received ++ r.queue = r.log := by
      refine r.ordered.eq_of_length_le ?_
      rw [List.length_append]
      exact Nat.not_lt.mp hlagged
    cases hqueue : r.queue with
    | nil =>
      rw [hqueue] at h
      dsimp only at h
      split at h
      · cases h
      · cases h
    | cons d rest =>
      rw [hqueue] at h
      cases h
      exact ⟨d, rest, rfl, rfl, hqueue ▸ hall⟩

/-- The hub keeps the sender of a live receiver, so that only a loss is an error. -/
theorem recvEvent_error {hub : Hub.State} {topic : String} {r : Receiver Delivery} {e : RecvError}
    (hattached : hub.topics topic = some r.channel) (h : recvEvent hub topic r = some (.error e)) :
    Lagged r := by
  unfold recvEvent at h
  by_cases hlagged : Lagged r
  · exact hlagged
  · rw [if_neg hlagged, if_pos hattached] at h
    split at h <;> cases h

theorem recv_of_queue {r : Receiver Delivery} {d : Delivery} {rest : List Delivery}
    (hqueue : r.queue = d :: rest) : r.recv.received = r.received ++ [d] ∧ r.recv.log = r.log ∧
      r.recv.live = r.live := by
  unfold Receiver.recv
  split
  · rename_i hnil
    cases hqueue.symm.trans hnil
  · rename_i d' rest' hcons
    obtain ⟨rfl, -⟩ := List.cons.inj (hqueue.symm.trans hcons)
    exact ⟨rfl, rfl, rfl⟩

/-- A step of the handler. -/
theorem InRoom.run {aead : Aead} {key : List UInt8} {topic : String} {nonce : Nonce}
    {history : List Hub.Action} {s s' : Room} (h : InRoom topic history s)
    (hstep : runHandler aead key topic nonce s = some s') :
    ∃ more, InRoom topic (history ++ more) s' := by
  obtain ⟨hub, out, phase⟩ := s
  have hsound := Hub.sound_of_run h.ran
  have hstanding := h.standing
  unfold runHandler at hstep
  cases phase with
  | subscribe =>
    obtain rfl := Option.some.inj hstep
    refine ⟨[.subscribe topic], ran_concat h.ran rfl, ?_⟩
    have hlength := hsound.numbered.receivers
    have hreceivers : ∃ tx, (Hub.subscribe topic hub).channels.receivers =
        hub.channels.receivers ++ [.fresh tx] := by
      unfold Hub.subscribe
      split
      · exact ⟨_, rfl⟩
      · exact ⟨_, rfl⟩
    obtain ⟨tx, htx⟩ := hreceivers
    refine ⟨.fresh tx, ⟨?_, ?_, List.nil_prefix, ?_⟩, rfl, rfl, hstanding⟩
    · dsimp only
      rw [hlength]
      exact Hub.subscriptions_get history [] topic
    · dsimp only
      rw [htx]
      exact List.getElem?_concat_length
    · dsimp only
      rw [show out.written = [] from hstanding]
      exact List.nil_sublist _
  | ack rx =>
    obtain ⟨r, hfed, hlive, hreceived, hempty⟩ := hstanding
    obtain ⟨⟨e, he⟩, hsame⟩ | ⟨hok, hmore⟩ :=
      written_write aead nonce key 0 (ackResponse topic) out
    · dsimp only at hstep
      split at hstep
      · rename_i hok
        rw [hok] at he
        cases he
      · rename_i e' out' hwrite
        rw [hwrite] at hsame
        obtain rfl := Option.some.inj hstep
        refine ⟨[], by rw [List.append_nil]; exact h.ran, r, ?_, hlive, .inl (hsame.trans hempty)⟩
        rw [List.append_nil]
        refine ⟨hfed.asked, hfed.receiver, hfed.ordered, ?_⟩
        dsimp only
        rw [hsame.trans hempty]
        exact List.nil_sublist _
    · dsimp only at hstep
      split at hstep
      · rename_i out' hwrite
        rw [hwrite] at hmore
        obtain rfl := Option.some.inj hstep
        refine ⟨[], by rw [List.append_nil]; exact h.ran, r, ?_, hlive, by rw [hreceived]; rfl⟩
        rw [List.append_nil]
        refine ⟨hfed.asked, hfed.receiver, hfed.ordered, ?_⟩
        dsimp only
        rw [hmore, show out.written = [] from hempty, hreceived]
        exact List.Sublist.refl _
      · rename_i hwrite
        rw [hwrite] at hok
        cases hok
  | recv rx seq =>
    obtain ⟨r, hfed, hlive, hseq⟩ := hstanding
    have hreceiver : hub.channels.receivers[rx]? = some r := hfed.receiver
    dsimp only [bind, Option.bind] at hstep
    rw [hreceiver] at hstep
    dsimp only at hstep
    cases hevent : recvEvent hub topic r with
    | none =>
      rw [hevent] at hstep
      cases hstep
    | some result =>
      rw [hevent] at hstep
      cases result with
      | error e =>
        obtain rfl := Option.some.inj hstep
        have hattached := (hsound.served rx topic r hfed.asked hreceiver).attached hlive
        refine ⟨[], by rw [List.append_nil]; exact h.ran, r, ?_, hlive,
          .inr (recvEvent_error hattached hevent)⟩
        rw [List.append_nil]
        exact ⟨hfed.asked, hfed.receiver, hfed.ordered, hfed.written⟩
      | ok evt =>
        obtain ⟨d, rest, rfl, hqueue, hall⟩ := recvEvent_ok hevent
        obtain ⟨hreceived, hlog, hlive'⟩ := recv_of_queue hqueue
        dsimp only at hstep
        cases hrecv : Hub.step hub (.recv rx) with
        | none =>
          rw [hrecv] at hstep
          cases hstep
        | some hub' =>
          rw [hrecv] at hstep
          obtain rfl := Option.some.inj hstep
          obtain ⟨-, hsome⟩ := Option.ite_none_right_eq_some.mp hrecv
          obtain rfl := Option.some.inj hsome
          refine ⟨[.recv rx], ran_concat h.ran hrecv, r.recv, r.received, d, ⟨?_, ?_, ?_, ?_⟩,
            hlive'.trans hlive, hreceived, rfl, hseq⟩
          · exact topic_concat _ hfed.asked
          · dsimp only [Channels.recv]
            rw [List.getElem?_modify, hreceiver]
            exact congrArg some (if_pos rfl)
          · rw [hreceived, hlog, ← hall, hqueue]
            exact ⟨rest, by rw [List.append_assoc]; rfl⟩
          · rw [hreceived, List.take_left]
            have hwritten := hfed.written
            rwa [List.take_length] at hwritten
  | write rx seq evt =>
    obtain ⟨r, taken, d, hfed, hlive, hreceived, rfl, rfl⟩ := hstanding
    have hwritten := hfed.written
    rw [hreceived, List.take_left] at hwritten
    obtain rfl := Option.some.inj hstep
    refine ⟨[], by rw [List.append_nil]; exact h.ran, r, ?_, hlive, ?_⟩
    · rw [List.append_nil]
      refine ⟨hfed.asked, hfed.receiver, hfed.ordered, ?_⟩
      rw [List.take_length, hreceived, List.map_append, List.map_singleton, feed_concat,
        List.length_map]
      obtain ⟨-, hsame⟩ | ⟨-, hmore⟩ := written_write aead nonce key
        (UInt32.ofNat (taken.length + 1))
        (messageResponse d.event (UInt32.ofNat (taken.length + 1))) out
      · change (out.write aead nonce key _ _).2.written.Sublist _
        rw [hsame]
        exact hwritten.trans (List.sublist_append_left _ _)
      · change (out.write aead nonce key _ _).2.written.Sublist _
        rw [hmore]
        exact hwritten.append_right _
    · rw [hreceived, List.length_append, List.length_singleton]
      simp
  | drop rx =>
    obtain ⟨r, hfed, hlive, hwhy⟩ := hstanding
    have hreceiver : hub.channels.receivers[rx]? = some r := hfed.receiver
    dsimp only [bind, Option.bind] at hstep
    cases hdrop : Hub.step hub (.dropReceiver rx) with
    | none =>
      rw [hdrop] at hstep
      cases hstep
    | some hub' =>
      rw [hdrop] at hstep
      obtain rfl := Option.some.inj hstep
      obtain ⟨-, hsome⟩ := Option.ite_none_right_eq_some.mp hdrop
      obtain rfl := Option.some.inj hsome
      refine ⟨[.dropReceiver rx], ran_concat h.ran hdrop, r.close, ⟨?_, ?_, hfed.ordered, ?_⟩,
        rfl, hwhy⟩
      · exact topic_concat _ hfed.asked
      · dsimp only [Channels.dropReceiver]
        rw [List.getElem?_modify, hreceiver]
        exact congrArg some (if_pos rfl)
      · exact hfed.written
  | returned rx => cases hstep

/-- What is written of an event has a length that its prefix can say. -/
def Kept (topic : String) (hub : Hub.State) : Prop :=
  ResponseKept (ackResponse topic) ∧ ∀ r ∈ hub.channels.receivers, ∀ d ∈ r.log,
    ResponseKept (messageResponse d.event 0)

/-- Logs only grow. -/
theorem Kept.before {topic : String} {hub hub' : Hub.State} (h : Kept topic hub')
    (hgrows : Hub.Grows hub hub') : Kept topic hub := by
  refine ⟨h.1, fun r hr d hd => ?_⟩
  obtain ⟨i, hi⟩ := List.mem_iff_getElem?.mp hr
  obtain ⟨r', hr', hevolves⟩ := hgrows.channels i r hi
  exact h.2 r' (List.mem_of_getElem? hr') d (hevolves.log.subset hd)

/-- The network leaves what was written. -/
theorem written_of_net {aead : Aead} {key : List UInt8} {out out' : Streamed} {op : StreamOp}
    (hnet : isNet op = true) (hstep : opStep aead key out op = some out') :
    out'.written = out.written := by
  cases op with
  | write nonce seq resp => cases hnet
  | read => cases hnet
  | deliver bytes =>
    obtain ⟨-, hsome⟩ := Option.ite_none_right_eq_some.mp hstep
    obtain rfl := Option.some.inj hsome
    rfl
  | hangup kind =>
    obtain ⟨-, hsome⟩ := Option.ite_none_right_eq_some.mp hstep
    obtain rfl := Option.some.inj hsome
    rfl
  | limit limit kind =>
    obtain ⟨-, hsome⟩ := Option.ite_none_right_eq_some.mp hstep
    obtain rfl := Option.some.inj hsome
    rfl

theorem InRoom.step {aead : Aead} {key : List UInt8} {topic : String} {history : List Hub.Action}
    {s s' : Room} {a : Action} (h : InRoom topic history s)
    (hstep : Chat.step aead key topic s a = some s') :
    ∃ more, InRoom topic (history ++ more) s' := by
  unfold Chat.step at hstep
  cases a with
  | run nonce => exact h.run hstep
  | hub action =>
    dsimp only at hstep
    split at hstep
    · cases hstep
    · rename_i hother
      obtain ⟨hub', hnext, rfl⟩ := Option.map_eq_some_iff.mp hstep
      exact ⟨[action], h.hub hnext hother⟩
  | net op =>
    dsimp only at hstep
    split at hstep
    · rename_i hnet
      obtain ⟨out', hop, rfl⟩ := Option.map_eq_some_iff.mp hstep
      refine ⟨[], ?_⟩
      rw [List.append_nil]
      exact h.net (written_of_net hnet hop)
    · cases hstep

theorem Standing.fed {topic : String} {history : List Hub.Action} {s : Room} {rx : Nat}
    (h : Standing topic history s) (hrx : s.phase.rx = some rx) :
    ∃ r count, Fed topic history s rx r count ∧
      (s.phase = .returned rx → s.out.written = [] ∨ Lagged r) := by
  obtain ⟨hub, out, phase⟩ := s
  cases phase with
  | subscribe => cases hrx
  | ack rx =>
    obtain rfl := Option.some.inj hrx
    obtain ⟨r, hfed, -⟩ := h
    exact ⟨r, _, hfed, nofun⟩
  | recv rx seq =>
    obtain rfl := Option.some.inj hrx
    obtain ⟨r, hfed, -⟩ := h
    exact ⟨r, _, hfed, nofun⟩
  | write rx seq evt =>
    obtain rfl := Option.some.inj hrx
    obtain ⟨r, taken, d, hfed, -⟩ := h
    exact ⟨r, _, hfed, nofun⟩
  | drop rx =>
    obtain rfl := Option.some.inj hrx
    obtain ⟨r, hfed, -⟩ := h
    exact ⟨r, _, hfed, nofun⟩
  | returned rx =>
    obtain rfl := Option.some.inj hrx
    obtain ⟨r, hfed, -, hwhy⟩ := h
    exact ⟨r, _, hfed, fun _ => hwhy⟩

end Hush.Chat
