import Hush.Foundation.History
import Hush.Hub.Delivery

/-! What `topics` lists. A receiver is dropped without a call into the hub, so a topic stays
listed until someone unsubscribes from it while no receiver of it is left. -/
namespace Hush.Hub

open Hush.Foundation Hush.Foundation.Broadcast

/-- The topic is among the keys that `topics` returns. -/
def topicsContains (topic : String) (hub : State) : Bool := (hub.topics topic).isSome

/-- Every receiver that was obtained for the topic has been dropped. -/
def Deserted (past : List Action) (topic : String) : Prop :=
  ∀ i, (subscriptions past)[i]? = some topic → .dropReceiver i ∈ past

/-- The topic was subscribed to, and since then not unsubscribed from while it was deserted. -/
def Listed (history : List Action) (topic : String) : Prop :=
  History.Lasts (fun _ a topic => a = Action.subscribe topic)
    (fun past a topic => ¬(a = Action.unsubscribe topic ∧ Deserted past topic)) history topic

/-- All receivers of the topic are gone, and no unsubscribe call has come since. -/
def Stale (history : List Action) (topic : String) : Prop :=
  Listed history topic ∧ Deserted history topic

/-! ### Live receivers -/

/-- The live receivers are those that were obtained and not dropped. -/
structure Tracked (past : List Action) (hub : State) : Prop where
  live : ∀ i, hub.channels.isLive i = true ↔
    i < (subscriptions past).length ∧ .dropReceiver i ∉ past
  dropped : ∀ i, .dropReceiver i ∈ past → i < (subscriptions past).length

namespace Tracked

variable {past : List Action} {hub hub' : State}

/-- An action that neither obtains nor drops a receiver. -/
theorem later (h : Tracked past hub) {a : Action} (hsubscribed : a.subscribed = none)
    (hdrop : ∀ i, a ≠ .dropReceiver i)
    (hlive : ∀ i, hub'.channels.isLive i = hub.channels.isLive i) : Tracked (past ++ [a]) hub' := by
  have hmem (i : Nat) : Action.dropReceiver i ∈ past ++ [a] ↔ .dropReceiver i ∈ past := by
    rw [List.mem_append, List.mem_singleton]
    exact ⟨fun h => h.resolve_right fun heq => hdrop i heq.symm, .inl⟩
  constructor
  · intro i
    rw [hlive, subscriptions_concat hsubscribed, hmem]
    exact h.live i
  · intro i hi
    rw [subscriptions_concat hsubscribed]
    exact h.dropped i ((hmem i).mp hi)

theorem subscribe (h : Tracked past hub) (hnumbered : Numbered past hub) (topic : String) :
    Tracked (past ++ [.subscribe topic]) (Hub.subscribe topic hub) := by
  have hmem (i : Nat) : Action.dropReceiver i ∈ past ++ [.subscribe topic] ↔
      .dropReceiver i ∈ past := by simp
  have hlive (i : Nat) : (Hub.subscribe topic hub).channels.isLive i = true ↔
      hub.channels.isLive i = true ∨ i = hub.channels.receivers.length := by
    unfold Hub.subscribe
    cases hub.topics topic with
    | some tx => exact Channels.isLive_subscribe_iff tx hub.channels i
    | none => exact Channels.isLive_subscribe_iff _ (hub.channels.channel 64).2 i
  constructor
  · intro i
    rw [hlive, h.live, hmem, hnumbered.receivers, subscriptions_subscribe, List.length_append,
      List.length_singleton]
    constructor
    · rintro (⟨hlt, hkept⟩ | rfl)
      · exact ⟨Nat.lt_succ_of_lt hlt, hkept⟩
      · exact ⟨Nat.lt_succ_self _, fun hdropped => Nat.lt_irrefl _ (h.dropped _ hdropped)⟩
    · rintro ⟨hlt, hkept⟩
      obtain hlt | heq := Nat.lt_succ_iff_lt_or_eq.mp hlt
      · exact .inl ⟨hlt, hkept⟩
      · exact .inr heq
  · intro i hi
    rw [subscriptions_subscribe, List.length_append]
    exact Nat.lt_add_right _ (h.dropped i ((hmem i).mp hi))

theorem dropReceiver (h : Tracked past hub) {receiver : Nat}
    (hreceiver : hub.channels.isLive receiver = true) :
    Tracked (past ++ [.dropReceiver receiver])
      { hub with channels := hub.channels.dropReceiver receiver } := by
  have hmem (i : Nat) : Action.dropReceiver i ∈ past ++ [.dropReceiver receiver] ↔
      .dropReceiver i ∈ past ∨ i = receiver := by simp
  constructor
  · intro i
    rw [Channels.isLive_dropReceiver_iff, h.live, hmem, subscriptions_concat rfl, not_or, and_assoc,
      eq_comm]
  · intro i hi
    rw [subscriptions_concat rfl]
    obtain hold | rfl := (hmem i).mp hi
    · exact h.dropped i hold
    · exact ((h.live i).mp hreceiver).1

theorem step (h : Tracked past hub) (hnumbered : Numbered past hub) {a : Action}
    (hstep : step hub a = some hub') : Tracked (past ++ [a]) hub' := by
  cases a with
  | subscribe topic =>
    obtain rfl := Option.some.inj hstep
    exact h.subscribe hnumbered topic
  | unsubscribe topic =>
    obtain rfl := Option.some.inj hstep
    refine h.later rfl (by simp) fun i => ?_
    unfold unsubscribe
    split
    · split <;> rfl
    · rfl
  | dropReceiver receiver =>
    obtain ⟨hlive, hsome⟩ := Option.ite_none_right_eq_some.mp hstep
    obtain rfl := Option.some.inj hsome
    exact h.dropReceiver hlive
  | recv receiver =>
    obtain ⟨-, hsome⟩ := Option.ite_none_right_eq_some.mp hstep
    obtain rfl := Option.some.inj hsome
    exact h.later rfl (by simp) (Channels.isLive_recv receiver hub.channels)
  | lookUp topic payload time =>
    obtain rfl := Option.some.inj hstep
    exact h.later rfl (by simp) fun _ => rfl
  | count p =>
    obtain ⟨event, tx, count, -, rfl⟩ := count_cases hstep
    exact h.later rfl (by simp) fun _ => rfl
  | send p =>
    obtain ⟨event, tx, count, -, rfl⟩ := send_cases hstep
    exact h.later rfl (by simp) (Channels.isLive_send tx _ hub.channels)

end Tracked

theorem tracked_of_run {history : List Action} {hub : State} (hrun : run history = some hub) :
    Tracked history hub := by
  have hnew : Tracked [] new := ⟨fun i => by simp [new, Channels.new, Channels.isLive, subscriptions],
    fun i hi => nomatch hi⟩
  exact Execution.run_history
    (fun hpast h hstep => h.step (sound_of_run hpast).numbered hstep) hrun hnew

/-- A topic has no subscribers exactly if all its receivers were dropped. -/
theorem subscriberCount_eq_zero_iff {history : List Action} {hub : State}
    (hrun : run history = some hub) (topic : String) :
    subscriberCount topic hub = 0 ↔ Deserted history topic := by
  have hsound := sound_of_run hrun
  have htracked := tracked_of_run hrun
  constructor
  · intro hcount i htopic
    by_contra hkept
    have hlt := (List.getElem?_eq_some_iff.mp htopic).1
    obtain ⟨r, hr, hlive⟩ := Channels.isLive_iff.mp ((htracked.live i).mpr ⟨hlt, hkept⟩)
    have hattached := (hsound.served i topic r htopic hr).attached hlive
    unfold subscriberCount at hcount
    rw [hattached] at hcount
    exact Channels.receiverCount_eq_zero.mp hcount r (List.mem_of_getElem? hr) hlive rfl
  · intro hdeserted
    unfold subscriberCount
    cases htx : hub.topics topic with
    | none => rfl
    | some tx =>
      refine Channels.receiverCount_eq_zero.mpr fun r hmem hlive hchannel => ?_
      obtain ⟨i, hr⟩ := List.getElem?_of_mem hmem
      obtain ⟨hlt, hkept⟩ := (htracked.live i).mp (Channels.isLive_iff.mpr ⟨r, hr, hlive⟩)
      -- The channel of the receiver is that of the topic it was obtained for, so of this one.
      have htopic := List.getElem?_eq_getElem hlt
      have hattached := (hsound.served i _ r htopic hr).attached hlive
      obtain hsame := hsound.mapped.apart (hchannel ▸ hattached) htx
      exact hkept (hdeserted i (hsame ▸ htopic))

/-! ### Listed topics -/

theorem topicsContains_subscribe (topic other : String) (hub : State) :
    topicsContains topic (subscribe other hub) = true ↔
      other = topic ∨ topicsContains topic hub = true := by
  unfold topicsContains subscribe
  cases htx : hub.topics other with
  | some tx =>
    constructor
    · exact .inr
    · rintro (rfl | h)
      · exact Option.isSome_iff_exists.mpr ⟨tx, htx⟩
      · exact h
  | none =>
    dsimp only
    by_cases hsame : topic = other
    · simp [hsame]
    · rw [if_neg hsame]
      exact ⟨.inr, fun h => h.resolve_left (Ne.symm hsame)⟩

theorem topicsContains_unsubscribe (topic other : String) (hub : State) :
    topicsContains topic (unsubscribe other hub) = true ↔
      topicsContains topic hub = true ∧ ¬(other = topic ∧ subscriberCount topic hub = 0) := by
  by_cases hsame : other = topic
  · subst hsame
    unfold topicsContains unsubscribe subscriberCount
    cases htx : hub.topics other with
    | none => simp [htx]
    | some tx =>
      dsimp only
      by_cases hcount : hub.channels.receiverCount tx = 0
      · simp [hcount]
      · simp [hcount, htx]
  · have hother : (unsubscribe other hub).topics topic = hub.topics topic := by
      unfold unsubscribe
      split
      · split
        · exact if_neg (Ne.symm hsame)
        · rfl
      · rfl
    unfold topicsContains
    rw [hother]
    simp [hsame]

/-- What one action does to the list. -/
theorem topicsContains_step {hub hub' : State} {a : Action} (hstep : step hub a = some hub')
    (topic : String) :
    topicsContains topic hub' = true ↔ a = .subscribe topic ∨ (topicsContains topic hub = true ∧
      ¬(a = .unsubscribe topic ∧ subscriberCount topic hub = 0)) := by
  cases a with
  | subscribe other =>
    obtain rfl := Option.some.inj hstep
    rw [topicsContains_subscribe]
    simp
  | unsubscribe other =>
    obtain rfl := Option.some.inj hstep
    rw [topicsContains_unsubscribe]
    simp
  | dropReceiver receiver =>
    obtain ⟨-, hsome⟩ := Option.ite_none_right_eq_some.mp hstep
    obtain rfl := Option.some.inj hsome
    simp [topicsContains]
  | recv receiver =>
    obtain ⟨-, hsome⟩ := Option.ite_none_right_eq_some.mp hstep
    obtain rfl := Option.some.inj hsome
    simp [topicsContains]
  | lookUp _ payload time =>
    obtain rfl := Option.some.inj hstep
    simp [topicsContains, lookUp]
  | count p =>
    obtain ⟨event, tx, count, -, rfl⟩ := count_cases hstep
    simp [topicsContains]
  | send p =>
    obtain ⟨event, tx, count, -, rfl⟩ := send_cases hstep
    simp [topicsContains]

theorem topicsContains_iff {history : List Action} {hub : State} (hrun : run history = some hub)
    (topic : String) : topicsContains topic hub = true ↔ Listed history topic := by
  let holds (past : List Action) (topic : String) : Prop :=
    ∃ hub, run past = some hub ∧ topicsContains topic hub = true
  have hnone (topic : String) : ¬holds [] topic := by
    rintro ⟨hub, hnew, hcontains⟩
    obtain rfl := Option.some.inj hnew
    cases hcontains
  have hstep (past : List Action) (a : Action) (hfront : past ++ [a] <+: history)
      (topic : String) : holds (past ++ [a]) topic ↔ a = Action.subscribe topic ∨
        (holds past topic ∧ ¬(a = Action.unsubscribe topic ∧ Deserted past topic)) := by
    obtain ⟨rest, rfl⟩ := hfront
    obtain ⟨after, hafter, -⟩ := run_split hrun
    obtain ⟨before, hbefore, hlast⟩ := run_split hafter
    obtain ⟨after', hact, hend⟩ := Execution.run_cons.mp hlast
    obtain rfl := Option.some.inj hend
    have hholds : holds (past ++ [a]) topic ↔ topicsContains topic after' = true := by
      simp [holds, hafter]
    have hheld : holds past topic ↔ topicsContains topic before = true := by
      simp [holds, hbefore]
    rw [hholds, hheld, topicsContains_step hact, subscriberCount_eq_zero_iff hbefore]
  have hholds : holds history topic ↔ topicsContains topic hub = true := by
    simp [holds, hrun]
  exact hholds.symm.trans (History.holds_iff_lasts hnone hstep topic)

/-- A topic is listed if and only if it has subscribers, in every reachable state, but for the
topics whose receivers are all gone and that nobody unsubscribed from since. -/
theorem topics_active_iff {history : List Action} {hub : State} (hrun : run history = some hub)
    (topic : String) :
    (topicsContains topic hub = true ↔ 1 ≤ subscriberCount topic hub) ↔ ¬Stale history topic := by
  have hcount : 1 ≤ subscriberCount topic hub ↔ ¬Deserted history topic := by
    rw [← subscriberCount_eq_zero_iff hrun]
    exact Nat.one_le_iff_ne_zero
  have hactive : ¬Deserted history topic → Listed history topic := by
    rw [← hcount, ← topicsContains_iff hrun]
    unfold topicsContains subscriberCount
    cases hub.topics topic with
    | none => exact fun h => absurd h (Nat.not_succ_le_zero 0)
    | some tx => exact fun _ => rfl
  rw [topicsContains_iff hrun, hcount]
  constructor
  · rintro hiff ⟨hlisted, hdeserted⟩
    exact hiff.mp hlisted hdeserted
  · exact fun hfresh => ⟨fun hlisted hdeserted => hfresh ⟨hlisted, hdeserted⟩, hactive⟩

/-- Once the topic is unsubscribed from it is not listed, and not stale. -/
theorem topics_active_iff_unsubscribed :
    ¬Stale [.subscribe "news", .dropReceiver 0, .unsubscribe "news"] "news" := by
  obtain ⟨hub, hhub⟩ : ∃ hub, run [.subscribe "news", .dropReceiver 0, .unsubscribe "news"] =
      some hub := Option.isSome_iff_exists.mp rfl
  have hgone : (run [.subscribe "news", .dropReceiver 0, .unsubscribe "news"]).any (fun hub =>
      topicsContains "news" hub = false ∧ subscriberCount "news" hub = 0) = true := rfl
  rw [hhub] at hgone
  obtain ⟨hlist, hcount⟩ := of_decide_eq_true hgone
  refine (topics_active_iff hhub "news").mp ?_
  rw [hlist, hcount]
  decide

/-- The only receiver is dropped, and the topic is still listed. -/
theorem dropped_topic_listed :
    ∃ hub, run [.subscribe "news", .dropReceiver 0] = some hub ∧
      topicsContains "news" hub = true ∧ subscriberCount "news" hub = 0 := by
  exact ⟨_, rfl, rfl, rfl⟩

end Hush.Hub
