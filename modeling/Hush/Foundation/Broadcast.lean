import Mathlib.Data.List.Infix

/-! Broadcast channels: what is sent is put in the queue of every live receiver of the
channel, and a full queue drops its oldest entry. -/
namespace Hush.Foundation.Broadcast

structure Channel where
  id : Nat
  capacity : Nat
  deriving DecidableEq, Repr

/-- A receiver and its past. The log has all that was ever enqueued; what was received
and what waits are in the order of the log, and what waits is its latest part. -/
structure Receiver (ε : Type) where
  channel : Channel
  live : Bool
  log : List ε
  received : List ε
  queue : List ε
  bounded : queue.length ≤ channel.capacity
  latest : queue <:+ log
  ordered : (received ++ queue).Sublist log

namespace Receiver

variable {ε : Type}

def fresh (channel : Channel) : Receiver ε where
  channel
  live := true
  log := []
  received := []
  queue := []
  bounded := Nat.zero_le _
  latest := List.suffix_rfl
  ordered := .refl _

/-- Enqueue, and drop the oldest beyond the capacity. -/
def push (e : ε) (r : Receiver ε) : Receiver ε :=
  let queue := (r.queue ++ [e]).drop (r.queue.length + 1 - r.channel.capacity)
  have hqueue : queue <:+ r.queue ++ [e] := List.drop_suffix _ _
  { r with
    log := r.log ++ [e]
    queue
    bounded := by
      simp only [queue, List.length_drop, List.length_append, List.length_singleton]
      omega
    latest := hqueue.trans (List.suffix_append_self_iff.mpr r.latest)
    ordered := by
      refine (hqueue.sublist.append_left r.received).trans ?_
      rw [← List.append_assoc]
      exact r.ordered.append_right [e] }

/-- Take the oldest entry that waits. -/
def recv (r : Receiver ε) : Receiver ε :=
  match hqueue : r.queue with
  | [] => r
  | e :: rest =>
    have hrest : rest <:+ r.queue := hqueue ▸ List.suffix_cons e rest
    { r with
      received := r.received ++ [e]
      queue := rest
      bounded := hrest.length_le.trans r.bounded
      latest := hrest.trans r.latest
      ordered := by
        rw [List.append_assoc, List.singleton_append, ← hqueue]
        exact r.ordered }

def close (r : Receiver ε) : Receiver ε := { r with live := false }

/-- Enqueue what is sent on the receiver's channel, if it is live. -/
def hear (channel : Channel) (e : ε) (r : Receiver ε) : Receiver ε :=
  if r.live = true ∧ r.channel = channel then r.push e else r

/-- What no operation undoes. -/
structure Evolves (r r' : Receiver ε) : Prop where
  channel : r'.channel = r.channel
  live : r'.live = true → r.live = true
  log : r.log <+: r'.log

namespace Evolves

theorem refl (r : Receiver ε) : Evolves r r := ⟨rfl, id, List.prefix_rfl⟩

theorem trans {r r' r'' : Receiver ε} (h : Evolves r r') (h' : Evolves r' r'') : Evolves r r'' :=
  ⟨h'.channel.trans h.channel, fun hlive => h.live (h'.live hlive), h.log.trans h'.log⟩

theorem push (e : ε) (r : Receiver ε) : Evolves r (r.push e) :=
  ⟨rfl, id, List.prefix_append _ _⟩

theorem hear (channel : Channel) (e : ε) (r : Receiver ε) : Evolves r (r.hear channel e) := by
  unfold Receiver.hear
  split
  · exact push e r
  · exact refl r

theorem recv (r : Receiver ε) : Evolves r r.recv := by
  unfold Receiver.recv
  split
  · exact refl r
  · exact ⟨rfl, id, List.prefix_rfl⟩

theorem close (r : Receiver ε) : Evolves r r.close :=
  ⟨rfl, fun hlive => absurd hlive Bool.false_ne_true, List.prefix_rfl⟩

end Evolves

end Receiver

/-- All channels that were opened, and their receivers. -/
structure Channels (ε : Type) where
  opened : Nat
  receivers : List (Receiver ε)

namespace Channels

variable {ε : Type}

def new : Channels ε := ⟨0, []⟩

def channel (capacity : Nat) (s : Channels ε) : Channel × Channels ε :=
  (⟨s.opened, capacity⟩, { s with opened := s.opened + 1 })

def subscribe (tx : Channel) (s : Channels ε) : Channels ε :=
  { s with receivers := s.receivers ++ [.fresh tx] }

def send (tx : Channel) (e : ε) (s : Channels ε) : Channels ε :=
  { s with receivers := s.receivers.map (Receiver.hear tx e) }

def recv (receiver : Nat) (s : Channels ε) : Channels ε :=
  { s with receivers := s.receivers.modify receiver Receiver.recv }

def dropReceiver (receiver : Nat) (s : Channels ε) : Channels ε :=
  { s with receivers := s.receivers.modify receiver Receiver.close }

def isLive (receiver : Nat) (s : Channels ε) : Bool :=
  s.receivers[receiver]?.any Receiver.live

def receiverCount (tx : Channel) (s : Channels ε) : Nat :=
  s.receivers.countP fun r => r.live = true ∧ r.channel = tx

theorem receiverCount_eq_zero {tx : Channel} {s : Channels ε} :
    s.receiverCount tx = 0 ↔ ∀ r ∈ s.receivers, r.live = true → r.channel ≠ tx := by
  simp [receiverCount]

theorem isLive_iff {receiver : Nat} {s : Channels ε} :
    s.isLive receiver = true ↔ ∃ r, s.receivers[receiver]? = some r ∧ r.live = true := by
  simp [isLive, Option.any_eq_true]

theorem isLive_subscribe_iff (tx : Channel) (s : Channels ε) (i : Nat) :
    (s.subscribe tx).isLive i = true ↔ s.isLive i = true ∨ i = s.receivers.length := by
  rw [isLive_iff, isLive_iff, subscribe]
  constructor
  · rintro ⟨r, hr, hlive⟩
    obtain hlt | heq | hgt := Nat.lt_trichotomy i s.receivers.length
    · rw [List.getElem?_append_left hlt] at hr
      exact .inl ⟨r, hr, hlive⟩
    · exact .inr heq
    · rw [List.getElem?_eq_none (by rw [List.length_append, List.length_singleton]; omega)] at hr
      cases hr
  · rintro (⟨r, hr, hlive⟩ | rfl)
    · exact ⟨r, (List.getElem?_append_left (List.getElem?_eq_some_iff.mp hr).1).trans hr, hlive⟩
    · exact ⟨.fresh tx, List.getElem?_concat_length, rfl⟩

theorem isLive_dropReceiver_iff (receiver : Nat) (s : Channels ε) (i : Nat) :
    (s.dropReceiver receiver).isLive i = true ↔ s.isLive i = true ∧ receiver ≠ i := by
  rw [isLive_iff, isLive_iff, dropReceiver]
  simp only [List.getElem?_modify]
  by_cases hsame : receiver = i
  · simp [hsame, Receiver.close]
  · simp [hsame]

theorem isLive_recv (receiver : Nat) (s : Channels ε) (i : Nat) :
    (s.recv receiver).isLive i = s.isLive i := by
  have hlive (r : Receiver ε) : r.recv.live = r.live := by
    unfold Receiver.recv
    split <;> rfl
  unfold isLive recv
  rw [List.getElem?_modify]
  cases s.receivers[i]? with
  | none => rfl
  | some r =>
    by_cases hsame : receiver = i
    · simp [hsame, hlive]
    · simp [hsame]

theorem isLive_send (tx : Channel) (e : ε) (s : Channels ε) (i : Nat) :
    (s.send tx e).isLive i = s.isLive i := by
  have hlive (r : Receiver ε) : (r.hear tx e).live = r.live := by
    unfold Receiver.hear
    split <;> rfl
  unfold isLive send
  rw [List.getElem?_map]
  cases s.receivers[i]? with
  | none => rfl
  | some r => exact hlive r

/-- Every receiver is still there and has evolved. -/
def Evolves (s s' : Channels ε) : Prop :=
  ∀ (i : Nat) (r : Receiver ε), s.receivers[i]? = some r →
    ∃ r', s'.receivers[i]? = some r' ∧ r.Evolves r'

namespace Evolves

theorem of_eq {s s' : Channels ε} (h : s'.receivers = s.receivers) : Evolves s s' :=
  fun _ r hr => ⟨r, h ▸ hr, .refl r⟩

theorem trans {s s' s'' : Channels ε} (h : Evolves s s') (h' : Evolves s' s'') :
    Evolves s s'' := by
  intro i r hr
  obtain ⟨mid, hmid, hevolves⟩ := h i r hr
  obtain ⟨last, hlast, hevolves'⟩ := h' i mid hmid
  exact ⟨last, hlast, hevolves.trans hevolves'⟩

theorem subscribe (tx : Channel) (s : Channels ε) : Evolves s (s.subscribe tx) := by
  intro i r hr
  refine ⟨r, ?_, .refl r⟩
  rw [Channels.subscribe, List.getElem?_append_left (List.getElem?_eq_some_iff.mp hr).1]
  exact hr

theorem send (tx : Channel) (e : ε) (s : Channels ε) : Evolves s (s.send tx e) := by
  intro i r hr
  refine ⟨r.hear tx e, ?_, .hear tx e r⟩
  rw [Channels.send, List.getElem?_map, hr]
  rfl

theorem modify {f : Receiver ε → Receiver ε} (hf : ∀ r, Receiver.Evolves r (f r)) (receiver : Nat)
    (s : Channels ε) : Evolves s { s with receivers := s.receivers.modify receiver f } := by
  intro i r hr
  by_cases hsame : receiver = i
  · refine ⟨f r, ?_, hf r⟩
    rw [List.getElem?_modify, hr]
    exact congrArg some (if_pos hsame)
  · refine ⟨r, ?_, .refl r⟩
    rw [List.getElem?_modify, hr]
    exact congrArg some (if_neg hsame)

end Evolves

end Channels

end Hush.Foundation.Broadcast
