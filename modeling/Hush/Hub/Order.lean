import Hush.Hub.Delivery

/-! What the receivers of a topic have in common, and what a receiver loses: two receivers hear
the same events in the same order from the later subscription on, and an event is lost to a
receiver exactly when it comes to a full queue. -/
namespace Hush.Hub

open Hush.Foundation Hush.Foundation.Broadcast

/-- What an action does to the receivers. -/
inductive Moved (receivers : List (Receiver Delivery)) : List (Receiver Delivery) → Prop where
  | same : Moved receivers receivers
  | joined (tx : Channel) : Moved receivers (receivers ++ [.fresh tx])
  | received (i : Nat) : Moved receivers (receivers.modify i Receiver.recv)
  | closed (i : Nat) : Moved receivers (receivers.modify i Receiver.close)
  | heard (tx : Channel) (d : Delivery) : Moved receivers (receivers.map (Receiver.hear tx d))

/-- The second receiver came to the channel of the first, which had heard the base. As long as
both are live they hear the same; the log of one that was dropped is a part of the other's. -/
structure Follows (base : List Delivery) (first second : Receiver Delivery) : Prop where
  channel : second.channel = first.channel
  front : ∃ front, first.log = base ++ front ∧ (second.live = true → front <+: second.log) ∧
    (first.live = true → second.log <+: front) ∧ (front <+: second.log ∨ second.log <+: front)

namespace Follows

variable {base : List Delivery} {first second first' second' : Receiver Delivery}

/-- Receiving and closing leave the logs alone. -/
theorem evolve (h : Follows base first second) (hfirst : first.Evolves first')
    (hsecond : second.Evolves second') (hlog : first'.log = first.log)
    (hlog' : second'.log = second.log) : Follows base first' second' := by
  obtain ⟨front, hbase, hahead, hbehind, hcompare⟩ := h.front
  refine ⟨hsecond.channel.trans (h.channel.trans hfirst.channel.symm), front, ?_⟩
  rw [hlog, hlog']
  exact ⟨hbase, fun hlive => hahead (hsecond.live hlive), fun hlive => hbehind (hfirst.live hlive),
    hcompare⟩

theorem hear (h : Follows base first second) (tx : Channel) (d : Delivery) :
    Follows base (first.hear tx d) (second.hear tx d) := by
  obtain ⟨front, hbase, hahead, hbehind, hcompare⟩ := h.front
  unfold Receiver.hear
  rw [h.channel]
  by_cases htx : first.channel = tx
  · cases hfirst : first.live with
    | true =>
      have hfront := hbehind hfirst
      rw [if_pos ⟨rfl, htx⟩]
      have hpush : (first.push d).log = base ++ (front ++ [d]) := by
        rw [← List.append_assoc, ← hbase]
        rfl
      have hlonger : second.log <+: front ++ [d] := hfront.trans (List.prefix_append _ _)
      cases hsecond : second.live with
      | true =>
        -- Both are live, and so had heard the same.
        obtain rfl := (hahead hsecond).eq_of_length_le hfront.length_le
        rw [if_pos ⟨rfl, htx⟩]
        exact ⟨h.channel, _, hpush, fun _ => List.prefix_rfl, fun _ => List.prefix_rfl,
          .inl List.prefix_rfl⟩
      | false =>
        rw [if_neg (by simp)]
        exact ⟨h.channel, _, hpush, fun hlive => absurd (hsecond.symm.trans hlive) (by simp),
          fun _ => hlonger, .inr hlonger⟩
    | false =>
      rw [if_neg (by simp)]
      cases hsecond : second.live with
      | true =>
        have hlonger : front <+: (second.push d).log :=
          (hahead hsecond).trans (List.prefix_append _ _)
        rw [if_pos ⟨rfl, htx⟩]
        exact ⟨h.channel, _, hbase, fun _ => hlonger,
          fun hlive => absurd (hfirst.symm.trans hlive) (by simp), .inl hlonger⟩
      | false =>
        rw [if_neg (by simp)]
        exact h
  · rw [if_neg (fun hheard => htx hheard.2), if_neg (fun hheard => htx hheard.2)]
    exact h

theorem moved {receivers receivers' : List (Receiver Delivery)} {i j : Nat}
    (hmoved : Moved receivers receivers') (hfirst : receivers[i]? = some first)
    (hsecond : receivers[j]? = some second) (h : Follows base first second) :
    ∃ first' second', receivers'[i]? = some first' ∧ receivers'[j]? = some second' ∧
      Follows base first' second' := by
  have hmodify {f : Receiver Delivery → Receiver Delivery}
      (hevolves : ∀ r, Receiver.Evolves r (f r)) (hlog : ∀ r, (f r).log = r.log) (k : Nat) :
      ∃ first' second', (receivers.modify k f)[i]? = some first' ∧
        (receivers.modify k f)[j]? = some second' ∧ Follows base first' second' := by
    rw [List.getElem?_modify, List.getElem?_modify, hfirst, hsecond]
    refine ⟨_, _, rfl, rfl, h.evolve ?_ ?_ ?_ ?_⟩
    · split
      · exact hevolves first
      · exact .refl first
    · split
      · exact hevolves second
      · exact .refl second
    · split
      · exact hlog first
      · rfl
    · split
      · exact hlog second
      · rfl
  have hrecv (r : Receiver Delivery) : r.recv.log = r.log := by
    unfold Receiver.recv
    split <;> rfl
  cases hmoved with
  | same => exact ⟨first, second, hfirst, hsecond, h⟩
  | joined tx =>
    refine ⟨first, second, ?_, ?_, h⟩
    · exact (List.getElem?_append_left (List.getElem?_eq_some_iff.mp hfirst).1).trans hfirst
    · exact (List.getElem?_append_left (List.getElem?_eq_some_iff.mp hsecond).1).trans hsecond
  | received k => exact hmodify .recv hrecv k
  | closed k => exact hmodify .close (fun _ => rfl) k
  | heard tx d =>
    rw [List.getElem?_map, List.getElem?_map, hfirst, hsecond]
    exact ⟨_, _, rfl, rfl, h.hear tx d⟩

end Follows

end Hush.Hub
