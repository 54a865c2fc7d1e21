import Hush.Server.MediaServer

/-! Tokens of sessions that have expired. The validator asks only whether the session is
stored, a request also whether it has outlived its lifetime or been idle for too long; and as
no request renews what the store has, idleness counts from the establishment. -/
namespace Hush.Server

open Hush.Foundation Execution
open Hush.Media hiding Call
open Hush.Session

variable {σ : Type}

namespace MediaServer

/-- A request under the session would pass the expiry check now. -/
def serves (s : MediaServer σ) (sid : UInt64) : Bool :=
  (s.sessionStore.get sid).any fun sess => !expiryCheck s.sessionStore s.now (some sess)

/-- If the step is a validation that accepts a token, the server would still serve the
session that the token is bound to. -/
def DiesWithSession (s : MediaServer σ) (action : MediaAction σ) : Prop :=
  ∀ id, action = .token (.validate id) → s.validates id = true →
    ∀ held ∈ s.media.held id, s.serves held.1 = true

/-- If the step is a validation within the lifetime of a token, the session of the token has
left the store, or was established no longer ago than the idle timeout and the lifetime. -/
def AskedInTime (s : MediaServer σ) (action : MediaAction σ) : Prop :=
  ∀ id, action = .token (.validate id) → ∀ held ∈ s.media.held id,
    elapsed s.now held.2 ≤ s.media.maxTokenTtl → ∀ sess ∈ s.sessionStore.get held.1,
      elapsed s.now sess.createdAt ≤ s.sessionStore.config.idleTimeout ∧
        elapsed s.now sess.createdAt ≤ s.sessionStore.config.maxLifetime

end MediaServer

/-- Idleness is counted from when the session was made. -/
theorem MadeByCalls.expiryCheck_eq_false_iff {cfg : SessionConfig} {store : SessionStore}
    (h : MadeByCalls cfg store) {id : UInt64} {sess : Session} (hget : store.get id = some sess)
    (now : Instant) :
    expiryCheck store now (some sess) = false ↔
      elapsed now sess.createdAt ≤ store.config.idleTimeout ∧
        elapsed now sess.createdAt ≤ store.config.maxLifetime := by
  unfold expiryCheck SessionStore.isExpired SessionStore.isIdleDead
  dsimp only
  rw [h.untouched hget, Bool.or_eq_false_iff, decide_eq_false_iff_not, decide_eq_false_iff_not,
    Nat.not_lt, Nat.not_lt, and_comm]

/-- The step: with the validator on the server's own store, a validation goes by the session
if and only if it comes in time. -/
theorem MediaInv.diesWithSession_iff {calls : List BuilderCall} {cfg : SessionConfig}
    {maxTokenTtl captured : Nat} {s : MediaServer σ}
    (h : MediaInv calls cfg maxTokenTtl captured s) (hlast : MediaLast calls)
    (action : MediaAction σ) : s.DiesWithSession action ↔ s.AskedInTime action := by
  unfold MediaServer.DiesWithSession MediaServer.AskedInTime
  refine forall₂_congr fun id _ => ?_
  constructor
  · rintro hdies ⟨sid, issuedAt⟩ hheld hage sess hget
    rw [h.ttl] at hage
    have hlive : s.live sid = true := Option.isSome_of_eq_some hget
    have hserves := hdies ((h.validates_iff id).mpr ⟨sid, issuedAt, hheld, hage, hlast, hlive⟩)
      (sid, issuedAt) hheld
    unfold MediaServer.serves at hserves
    rw [Option.mem_def.mp hget, Option.any_some, Bool.not_eq_true'] at hserves
    exact (h.made.expiryCheck_eq_false_iff hget s.now).mp hserves
  · rintro hasked hvalid ⟨sid, issuedAt⟩ hheld
    obtain ⟨sid', issuedAt', hheld', hage, -, hlive⟩ := (h.validates_iff id).mp hvalid
    obtain ⟨rfl, rfl⟩ := Prod.mk.inj (Option.some.inj (hheld'.symm.trans hheld))
    obtain ⟨sess, hget⟩ := Option.isSome_iff_exists.mp hlive
    have hfresh := (h.made.expiryCheck_eq_false_iff hget s.now).mpr
      (hasked _ hheld (h.ttl ▸ hage) sess hget)
    unfold MediaServer.serves
    rw [hget, Option.any_some, hfresh]
    rfl

/-- In every run of a server whose store was configured before its media support, the accepted
tokens are those of sessions that would still be served, if and only if every validation that
finds a token and its session comes within the idle timeout and the lifetime of the session. -/
theorem tokens_die_with_session_iff (srv : Server σ) (calls : List BuilderCall) (now : Instant)
    (app : σ) (maxTokenTtl : Nat) (start : MediaServer σ) (actions : List (MediaAction σ))
    (hlast : MediaLast calls)
    (hserve : (Builder.new.after calls).serve now app maxTokenTtl = some start) :
    Along (mediaStep srv) MediaServer.DiesWithSession start actions ↔
      Along (mediaStep srv) MediaServer.AskedInTime start actions := by
  obtain ⟨captured, hstart⟩ := MediaInv.started hserve
  exact along_congr MediaInv.step (fun action h => h.diesWithSession_iff hlast action) hstart

/-- The session is fresh when its token is asked for. -/
theorem tokens_die_with_session_iff_fresh :
    ∃ start, (Builder.new.after [.withSessionConfig ⟨10, 100⟩, .withMedia ""]).serve 0 0
        defaultMaxTokenTtl = some start ∧
      Along (mediaStep exampleServer) MediaServer.DiesWithSession start
        (establishingActions ++ [.token (.issue exampleTokenId 1 "track"),
          .token (.validate exampleTokenId)]) := by
  let calls : List BuilderCall := [.withSessionConfig ⟨10, 100⟩, .withMedia ""]
  have hends : ((Builder.new.after calls).serve 0 0 defaultMaxTokenTtl).map (fun start =>
      (run (mediaStep exampleServer) start (establishingActions ++
        [.token (.issue exampleTokenId 1 "track")])).map MediaServer.now) = some (some 0) := by rfl
  obtain ⟨start, hserve, hrun⟩ := Option.map_eq_some_iff.mp hends
  obtain ⟨s, hs, hnow⟩ := Option.map_eq_some_iff.mp hrun
  refine ⟨start, hserve, (tokens_die_with_session_iff exampleServer calls 0 0 defaultMaxTokenTtl
    start _ ⟨[.withSessionConfig ⟨10, 100⟩], "", [], rfl, by simp⟩ hserve).mpr ?_⟩
  rw [← List.singleton_append, ← List.append_assoc, along_append]
  constructor
  · refine along_of_forall fun action haction s id => ?_
    rintro rfl
    simp [establishingActions] at haction
  · rintro mid hmid
    obtain rfl := Option.some.inj (hs.symm.trans hmid)
    refine ⟨fun id _ held _ _ sess _ => ?_, fun _ _ => trivial⟩
    rw [hnow]
    exact ⟨Nat.le_trans (Nat.sub_le _ _) (Nat.zero_le _),
      Nat.le_trans (Nat.sub_le _ _) (Nat.zero_le _)⟩

/-- The session has been idle for longer than the timeout, the collector has been by, and the
token is accepted. -/
theorem idle_session_token_accepted :
    ∃ start s, (Builder.new.after [.withSessionConfig ⟨10, 100⟩, .withMedia ""]).serve 0 0
        defaultMaxTokenTtl = some start ∧
      run (mediaStep exampleServer) start (establishingActions ++
        [.token (.issue exampleTokenId 1 "track"), .listen (.advance 20), .listen .gc]) = some s ∧
      s.media.held exampleTokenId = some (1, 0) ∧ s.validates exampleTokenId = true ∧
      s.serves 1 = false := by
  have hends : ((Builder.new.after [.withSessionConfig ⟨10, 100⟩, .withMedia ""]).serve 0 0
      defaultMaxTokenTtl).map (fun start => (run (mediaStep exampleServer) start
        (establishingActions ++ [.token (.issue exampleTokenId 1 "track"), .listen (.advance 20),
          .listen .gc])).map fun s => (s.media.held exampleTokenId, s.validates exampleTokenId,
            s.serves 1)) = some (some (some (1, 0), true, false)) := by rfl
  obtain ⟨start, hserve, hrun⟩ := Option.map_eq_some_iff.mp hends
  obtain ⟨s, hs, hstate⟩ := Option.map_eq_some_iff.mp hrun
  simp only [Prod.mk.injEq] at hstate
  exact ⟨start, s, hserve, hs, hstate⟩

end Hush.Server
