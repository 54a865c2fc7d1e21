import Hush.Server.Quic
import Hush.Server.Tcp

/-! Session expiry over whole runs: what the check finds in the store, when it
refuses a client, and what becomes of a session that outlived its lifetime. -/
namespace Hush.Server

open Hush.Foundation Execution
open Hush.Frame hiding Request
open Hush.Session

variable {σ : Type}

/-! ### The log of one channel -/

/-- What the expiry check notes: that it looked, and that it refused. -/
def Event.IsExpiry : Event → Prop
  | .checked _ _ => True
  | .answered .expiry _ _ => True
  | _ => False

def Event.IsArrival : Event → Prop
  | .arrived _ _ => True
  | _ => False

def Event.IsDispatch : Event → Prop
  | .dispatched _ _ => True
  | _ => False

/-- The expiry check refuses the session at this instant. -/
def Dead (config : SessionConfig) (now : Instant) (sess : Session) : Prop :=
  config.maxLifetime < elapsed now sess.createdAt ∨ config.idleTimeout < elapsed now sess.lastUsed

theorem expiryCheck_some_iff {store : SessionStore} {now : Instant} {sess : Session} :
    expiryCheck store now (some sess) = true ↔ Dead store.config now sess := by
  simp [expiryCheck, SessionStore.isExpired, SessionStore.isIdleDead, Dead]

/-- The checks of a channel found the session or nothing, and a refusal was sent
exactly if a check found the session dead. -/
structure ExpiryLog (config : SessionConfig) (sess : Session) (log : List Event) : Prop where
  found : ∀ found now, .checked found now ∈ log → found = none ∨ found = some sess
  refused : (∃ seq resp, .answered .expiry seq resp ∈ log) ↔
    ∃ now, .checked (some sess) now ∈ log ∧ Dead config now sess

/-- No request was refused because its session had expired or idled out. -/
def Unrefused (log : List Event) : Prop := ∀ seq resp, .answered .expiry seq resp ∉ log

/-- Every expiry check came at most `span` after the session's creation. -/
def ChecksWithin (span : Nat) (sess : Session) (log : List Event) : Prop :=
  ∀ found now, .checked found now ∈ log → elapsed now sess.createdAt ≤ span

/-- Every expiry check that found the session did so. -/
def FindsWithin (span : Nat) (sess : Session) (log : List Event) : Prop :=
  ∀ found now, .checked found now ∈ log → found.isSome → elapsed now sess.createdAt ≤ span

namespace ExpiryLog

variable {config : SessionConfig} {sess : Session} {log : List Event}

theorem of_none (h : ∀ e ∈ log, ¬e.IsExpiry) : ExpiryLog config sess log := by
  constructor
  · intro found now hmem
    exact absurd trivial (h _ hmem)
  · constructor
    · intro hrefused
      obtain ⟨seq, resp, hmem⟩ := hrefused
      exact absurd trivial (h _ hmem)
    · intro hchecked
      obtain ⟨now, hmem, -⟩ := hchecked
      exact absurd trivial (h _ hmem)

theorem append (h : ExpiryLog config sess log) {events : List Event}
    (hevents : ∀ e ∈ events, ¬e.IsExpiry) : ExpiryLog config sess (log ++ events) := by
  have hmem (e : Event) (he : e.IsExpiry) : e ∈ log ++ events ↔ e ∈ log := by
    rw [List.mem_append]
    exact or_iff_left fun hin => hevents e hin he
  have hchecked (found : Option Session) (now : Instant) :=
    hmem (.checked found now) trivial
  have hanswered (seq : UInt32) (resp : Response) := hmem (.answered .expiry seq resp) trivial
  constructor
  · intro found now hin
    exact h.found found now ((hchecked found now).mp hin)
  · simp only [hchecked, hanswered]
    exact h.refused

/-- A check that passes. -/
theorem alive (h : ExpiryLog config sess log) {found : Option Session} {now : Instant}
    (hfound : found = none ∨ found = some sess)
    (halive : ∀ s, found = some s → ¬Dead config now s) :
    ExpiryLog config sess (log ++ [.checked found now]) := by
  constructor
  · intro found' now' hin
    simp only [List.mem_append, List.mem_singleton, Event.checked.injEq] at hin
    obtain hin | ⟨rfl, rfl⟩ := hin
    · exact h.found found' now' hin
    · exact hfound
  · have hrefused : (∃ seq resp, .answered .expiry seq resp ∈ log ++ [.checked found now]) ↔
        ∃ seq resp, .answered .expiry seq resp ∈ log := by simp
    rw [hrefused, h.refused]
    constructor
    · intro hdead
      obtain ⟨now', hin, hdead⟩ := hdead
      exact ⟨now', List.mem_append_left _ hin, hdead⟩
    · intro hdead
      obtain ⟨now', hin, hdead⟩ := hdead
      simp only [List.mem_append, List.mem_singleton, Event.checked.injEq] at hin
      obtain hin | ⟨rfl, rfl⟩ := hin
      · exact ⟨now', hin, hdead⟩
      · exact absurd hdead (halive sess rfl)

/-- A check that fails, and the refusal it sends. -/
theorem expired (h : ExpiryLog config sess log) {now : Instant} {resp : Response}
    (hdead : Dead config now sess) :
    ExpiryLog config sess (log ++ [.checked (some sess) now] ++ [.answered .expiry 0 resp]) := by
  constructor
  · intro found' now' hin
    simp only [List.mem_append, List.mem_singleton, Event.checked.injEq, reduceCtorEq,
      or_false] at hin
    obtain hin | ⟨rfl, rfl⟩ := hin
    · exact h.found found' now' hin
    · exact .inr rfl
  · constructor
    · intro _
      exact ⟨now, by simp, hdead⟩
    · intro _
      exact ⟨0, resp, by simp⟩

/-- Within its lifetime an untouched session is refused exactly if a check found
it later than the idle timeout after its creation. -/
theorem unrefused_iff (h : ExpiryLog config sess log) (huntouched : sess.lastUsed = sess.createdAt)
    (hage : ChecksWithin config.maxLifetime sess log) :
    Unrefused log ↔ FindsWithin config.idleTimeout sess log := by
  have hnone : Unrefused log ↔ ¬∃ seq resp, .answered .expiry seq resp ∈ log := by simp [Unrefused]
  rw [hnone, h.refused]
  constructor
  · intro halive found now hin hsome
    obtain rfl | rfl := h.found found now hin
    · cases hsome
    · have hdead : ¬Dead config now sess := fun hdead => halive ⟨now, hin, hdead⟩
      unfold Dead at hdead
      rw [huntouched] at hdead
      omega
  · intro hidle hdead
    obtain ⟨now, hin, hdead⟩ := hdead
    have hlife := hage _ now hin
    have hyoung := hidle _ now hin rfl
    unfold Dead at hdead
    rw [huntouched] at hdead
    omega

end ExpiryLog

theorem not_isExpiry_of_isArrival {e : Event} (h : e.IsArrival) : ¬e.IsExpiry := by
  cases e <;> simp_all [Event.IsArrival, Event.IsExpiry]

theorem net_log {chan chan' : Channel} {now : Instant} {action : NetAction}
    (h : chan.net now action = some chan') :
    ∃ events, chan'.log = chan.log ++ events ∧ ∀ e ∈ events, e.IsArrival := by
  unfold Channel.net at h
  cases action with
  | deliver bytes =>
    dsimp only at h
    split at h
    · obtain rfl := Option.some.inj h
      exact ⟨[.arrived now bytes], rfl, by simp [Event.IsArrival]⟩
    · cases h
  | hangup kind =>
    dsimp only at h
    split at h
    · obtain rfl := Option.some.inj h
      exact ⟨[], (List.append_nil _).symm, by simp⟩
    · cases h
  | limit room kind =>
    obtain rfl := Option.some.inj h
    exact ⟨[], (List.append_nil _).symm, by simp⟩

/-- The network leaves a log of arrivals one. -/
theorem net_isArrival {chan chan' : Channel} {now : Instant} {action : NetAction}
    (hlog : ∀ e ∈ chan.log, e.IsArrival) (h : chan.net now action = some chan') :
    ∀ e ∈ chan'.log, e.IsArrival := by
  obtain ⟨events, hevents, harrival⟩ := net_log h
  rw [hevents]
  intro e he
  obtain hold | hnew := List.mem_append.mp he
  · exact hlog e hold
  · exact harrival e hnew

theorem not_isExpiry_receivedFrame {key : List UInt8} {recv : Source} :
    ∀ e ∈ receivedFrame key recv, ¬e.IsExpiry := by
  unfold receivedFrame
  split <;> simp [Event.IsExpiry]

theorem not_isExpiry_dispatchEvents {called : Bool} {req : Request} {seq : UInt32} :
    ∀ e ∈ dispatchEvents called req seq, ¬e.IsExpiry := by
  unfold dispatchEvents
  split <;> simp [Event.IsExpiry]

theorem callHandler_answer {handler : SyncHandler σ} {req : Request} {app : σ} {cause : Cause}
    {resp : Response} (h : (callHandler handler req app).answer = some (cause, resp)) :
    cause = .handled ∨ cause = .failed := by
  unfold callHandler at h
  split at h <;> simp_all

/-- Serving a request never answers as the expiry check does. -/
theorem tcpServe_answer {srv : Server σ} {sess : Session} {freq : Frame.Request} {seq : UInt32}
    {app : σ} {cause : Cause} {resp : Response}
    (h : (tcpServe srv sess freq seq app).answer = some (cause, resp)) : cause ≠ .expiry := by
  unfold tcpServe at h
  split at h
  · simp only [Option.some.injEq, Prod.mk.injEq] at h
    obtain ⟨rfl, -⟩ := h
    decide
  · simp only [Option.some.injEq, Prod.mk.injEq] at h
    obtain ⟨rfl, -⟩ := h
    decide
  · obtain rfl | rfl := callHandler_answer h <;> decide

theorem quicServe_answer {srv : Server σ} {task : StreamTask} {key : List UInt8}
    {freq : Frame.Request} {seq : UInt32} {app : σ} {cause : Cause} {resp : Response}
    (h : (quicServe srv task key freq seq app).answer = some (cause, resp)) : cause ≠ .expiry := by
  unfold quicServe at h
  dsimp only at h
  split at h
  · simp only [Option.some.injEq, Prod.mk.injEq] at h
    obtain ⟨rfl, -⟩ := h
    decide
  · cases h
  · obtain rfl | rfl := callHandler_answer h <;> decide

theorem not_isExpiry_answered {cause : Cause} {seq : UInt32} {resp : Response}
    (h : cause ≠ .expiry) : ∀ e ∈ [Event.answered cause seq resp], ¬e.IsExpiry := by
  intro e he
  obtain rfl := List.mem_singleton.mp he
  cases cause <;> simp_all [Event.IsExpiry]

/-! ### The store around a session -/

/-- The store holds the session as it was inserted, or nothing under its id. -/
def Unchanged (sh : Shared σ) (sess : Session) : Prop :=
  sh.store.get sess.id = none ∨ sh.store.get sess.id = some sess

/-- While its connection is in its loop, a session is in the store at least for
its lifetime. -/
structure Kept (sh : Shared σ) (sess : Session) : Prop where
  unchanged : Unchanged sh sess
  live : elapsed sh.now sess.createdAt ≤ sh.store.config.maxLifetime →
    sh.store.get sess.id = some sess

theorem env_config {sh sh' : Shared σ} {own : UInt64} {action : EnvAction σ}
    (h : sh.env own action = some sh') : sh'.store.config = sh.store.config := by
  unfold Shared.env at h
  cases action <;> dsimp only at h <;> (try split at h) <;> simp_all <;> subst h <;> rfl

theorem Unchanged.env {sh sh' : Shared σ} {sess : Session} {action : EnvAction σ}
    (hstore : Unchanged sh sess) (h : sh.env sess.id action = some sh') : Unchanged sh' sess := by
  unfold Shared.env at h
  unfold Unchanged at hstore ⊢
  cases action with
  | advance span =>
    obtain rfl := Option.some.inj h
    exact hstore
  | gc =>
    obtain rfl := Option.some.inj h
    cases hget : (sh.store.gc sh.now).get sess.id with
    | none => exact .inl rfl
    | some s =>
      have hold := SessionStore.get_gc_eq_some hget
      rwa [hold] at hstore
  | insert other =>
    dsimp only at h
    split at h
    · cases h
    · rename_i hne
      obtain rfl := Option.some.inj h
      dsimp only
      rwa [SessionStore.get_insert_of_ne _ (Ne.symm hne)]
  | delete id =>
    dsimp only at h
    split at h
    · cases h
    · rename_i hne
      obtain rfl := Option.some.inj h
      dsimp only
      rwa [SessionStore.get_delete_of_ne _ (Ne.symm hne)]
  | app app =>
    obtain rfl := Option.some.inj h
    exact hstore

theorem Kept.env {sh sh' : Shared σ} {sess : Session} {action : EnvAction σ}
    (hkept : Kept sh sess) (h : sh.env sess.id action = some sh') : Kept sh' sess := by
  refine ⟨hkept.unchanged.env h, ?_⟩
  have hlive := hkept.live
  unfold Shared.env at h
  cases action with
  | advance span =>
    obtain rfl := Option.some.inj h
    intro hage
    apply hlive
    unfold elapsed at hage ⊢
    dsimp only at hage
    omega
  | gc =>
    obtain rfl := Option.some.inj h
    intro hage
    exact SessionStore.get_gc_of_le (hlive hage) hage
  | insert other =>
    dsimp only at h
    split at h
    · cases h
    · rename_i hne
      obtain rfl := Option.some.inj h
      intro hage
      dsimp only
      rw [SessionStore.get_insert_of_ne _ (Ne.symm hne)]
      exact hlive hage
  | delete id =>
    dsimp only at h
    split at h
    · cases h
    · rename_i hne
      obtain rfl := Option.some.inj h
      intro hage
      dsimp only
      rw [SessionStore.get_delete_of_ne _ (Ne.symm hne)]
      exact hlive hage
  | app app =>
    obtain rfl := Option.some.inj h
    exact hlive

theorem Kept.app {sh : Shared σ} {sess : Session} (hkept : Kept sh sess) (app : σ) :
    Kept { sh with app } sess := ⟨hkept.unchanged, hkept.live⟩

theorem Kept.inserted (sh : Shared σ) (sess : Session) :
    Kept { sh with store := sh.store.insert sess } sess :=
  ⟨.inr (SessionStore.get_insert_self _ _), fun _ => SessionStore.get_insert_self _ _⟩

end Hush.Server
