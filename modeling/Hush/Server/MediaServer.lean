import Hush.Media.TokenLifetime
import Hush.Server.Builder
import Hush.Server.Isolation

/-! A server with media tokens: its connections and its token store take steps in any order,
and the validator looks at the stores as they are when it is asked. -/
namespace Hush.Server

open Hush.Foundation Execution
open Hush.Media hiding Call
open Hush.Session

variable {σ : Type}

/-- A server that was built with a token store. Its own session store is the one that its
connections share; `stores` has it as it was at the start. -/
structure MediaServer (σ : Type) where
  listening : Listening σ
  stores : List SessionStore
  sessions : Nat
  media : TokenStore (List SessionStore)

/-- The built server, with the lifetime that the application has set for its tokens. -/
def Builder.serve (b : Builder) (now : Instant) (app : σ) (maxTokenTtl : Nat) :
    Option (MediaServer σ) :=
  b.mediaStore.map fun media =>
    ⟨serverStarted now b.sessionCfg app, b.stores, b.sessions, { media with maxTokenTtl }⟩

namespace MediaServer

def now (s : MediaServer σ) : Instant := s.listening.shared.now

def sessionStore (s : MediaServer σ) : SessionStore := s.listening.shared.store

/-- All stores as they are now. -/
def world (s : MediaServer σ) : List SessionStore := s.stores.set s.sessions s.sessionStore

/-- What `validate` answers now. -/
def validates (s : MediaServer σ) (id : TokenId) : Bool := (s.media.validate s.now s.world id).1

/-- The server's own store has the session. -/
def live (s : MediaServer σ) (sid : UInt64) : Bool := (s.sessionStore.get sid).isSome

end MediaServer

/-- A step of the server, or a call of its token store. -/
inductive MediaAction (σ : Type) where
  | listen (action : ListenAction σ)
  | token (op : Operation)

def mediaStep (srv : Server σ) (s : MediaServer σ) : MediaAction σ → Option (MediaServer σ)
  | .listen action => (listenStep srv s.listening action).map fun listening => { s with listening }
  | .token op => some { s with media := s.media.perform ⟨s.now, s.world, op⟩ }

theorem serve_isSome_iff (calls : List BuilderCall) (now : Instant) (app : σ) (maxTokenTtl : Nat) :
    ((Builder.new.after calls).serve now app maxTokenTtl).isSome = true ↔
      ∃ baseUrl, .withMedia baseUrl ∈ calls := by
  constructor
  · intro hserve
    by_contra hnone
    push Not at hnone
    have hmedia : (Builder.new.after calls).mediaStore = none := by
      clear hserve
      induction calls using List.reverseRecOn with
      | nil => rfl
      | append_singleton past call ih =>
        unfold Builder.after at ih ⊢
        rw [List.foldl_append]
        cases call with
        | withMedia baseUrl => exact absurd (by simp) (hnone baseUrl)
        | withSessionConfig cfg =>
          exact ih fun baseUrl hmem => hnone baseUrl (List.mem_append_left _ hmem)
    unfold Builder.serve at hserve
    rw [hmedia] at hserve
    cases hserve
  · intro hmedia
    obtain ⟨sessions, hcaptured⟩ := captured_after hmedia
    unfold Builder.serve
    rw [hcaptured.media]
    rfl

/-- What holds of a server after any run: which store the validator asks, what lifetime the
tokens have, and where its own sessions come from. -/
structure MediaInv (calls : List BuilderCall) (cfg : SessionConfig) (maxTokenTtl captured : Nat)
    (s : MediaServer σ) : Prop where
  validator : s.media.validateSession = some (liveIn captured)
  ttl : s.media.maxTokenTtl = maxTokenTtl
  own_iff : captured = s.sessions ↔ MediaLast calls
  inside : s.sessions < s.stores.length
  empty : ∃ cfg, s.stores[captured]? = some (.new cfg)
  made : MadeByCalls cfg s.sessionStore

namespace MediaInv

variable {calls : List BuilderCall} {cfg : SessionConfig} {maxTokenTtl captured : Nat}
  {s s' : MediaServer σ}

theorem started {now : Instant} {app : σ} {start : MediaServer σ}
    (hserve : (Builder.new.after calls).serve now app maxTokenTtl = some start) :
    ∃ captured, MediaInv calls (Builder.new.after calls).sessionCfg maxTokenTtl captured start := by
  have hmedia := (serve_isSome_iff calls now app maxTokenTtl).mp (Option.isSome_of_eq_some hserve)
  obtain ⟨captured, hcaptured⟩ := captured_after hmedia
  have hown := Builder.own_after calls
  unfold Builder.serve at hserve
  rw [hcaptured.media] at hserve
  obtain rfl := Option.some.inj hserve
  exact ⟨captured, rfl, rfl, hcaptured.own_iff, (List.getElem?_eq_some_iff.mp hown).1,
    hcaptured.empty, [], rfl, by simp⟩

theorem step {srv : Server σ} {action : MediaAction σ}
    (h : MediaInv calls cfg maxTokenTtl captured s) (hstep : mediaStep srv s action = some s') :
    MediaInv calls cfg maxTokenTtl captured s' := by
  cases action with
  | listen action =>
    obtain ⟨listening, hlisten, rfl⟩ := Option.map_eq_some_iff.mp hstep
    exact { h with made := h.made.step (listenStep_shared hlisten) }
  | token op =>
    obtain rfl := Option.some.inj hstep
    obtain ⟨httl, hvalidator⟩ := s.media.perform_config ⟨s.now, s.world, op⟩
    exact { h with validator := hvalidator.trans h.validator, ttl := httl.trans h.ttl }

theorem of_run {srv : Server σ} {now : Instant} {app : σ} {start : MediaServer σ}
    {actions : List (MediaAction σ)}
    (hserve : (Builder.new.after calls).serve now app maxTokenTtl = some start)
    (hrun : run (mediaStep srv) start actions = some s) :
    ∃ captured, MediaInv calls (Builder.new.after calls).sessionCfg maxTokenTtl captured s := by
  obtain ⟨captured, hstart⟩ := started hserve
  exact ⟨captured, run_preserves step hrun hstart⟩

/-- The validator takes a session that is live, if it asks the server's own store, and
otherwise none. -/
theorem accepted_iff (h : MediaInv calls cfg maxTokenTtl captured s) (sid : UInt64) :
    Accepted s.media.validateSession s.world sid ↔ MediaLast calls ∧ s.live sid = true := by
  rw [← h.own_iff, h.validator]
  simp only [Accepted, Option.mem_def, Option.some.injEq, forall_eq']
  unfold liveIn MediaServer.world MediaServer.live
  by_cases hown : captured = s.sessions
  · rw [hown, List.getElem?_set_self h.inside]
    simp
  · obtain ⟨other, hempty⟩ := h.empty
    rw [List.getElem?_set_ne (Ne.symm hown), hempty]
    simp [hown, SessionStore.new, SessionStore.get]

/-- The answer of a validation. -/
theorem validates_iff (h : MediaInv calls cfg maxTokenTtl captured s) (id : TokenId) :
    s.validates id = true ↔ ∃ sid issuedAt, s.media.held id = some (sid, issuedAt) ∧
      elapsed s.now issuedAt ≤ maxTokenTtl ∧ MediaLast calls ∧ s.live sid = true := by
  unfold MediaServer.validates
  rw [(s.media.validate_eq s.now s.world id).1, Option.any_eq_true]
  simp only [Prod.exists, TokenStore.good_iff, h.ttl, h.accepted_iff]

end MediaInv

theorem mediaStep_now_le {srv : Server σ} {s s' : MediaServer σ} {action : MediaAction σ}
    (h : mediaStep srv s action = some s') : s.now ≤ s'.now := by
  cases action with
  | listen action =>
    obtain ⟨listening, hlisten, rfl⟩ := Option.map_eq_some_iff.mp h
    exact (listenStep_shared hlisten).now_le
  | token op =>
    obtain rfl := Option.some.inj h
    exact Nat.le_refl _

/-- The session was live each time the token was asked for during these steps. -/
def LiveWhenAsked (srv : Server σ) (issued : MediaServer σ) (between : List (MediaAction σ))
    (id : TokenId) (sid : UInt64) : Prop :=
  ∀ front back asked, between = front ++ .token (.validate id) :: back →
    run (mediaStep srv) issued front = some asked → asked.live sid = true

/-- A step keeps the token within its lifetime, if it does not issue it again and the session
is live when it asks for it. -/
theorem held_mediaStep {srv : Server σ} {calls : List BuilderCall} {cfg : SessionConfig}
    {maxTokenTtl captured : Nat} {s s' : MediaServer σ} {action : MediaAction σ} {id : TokenId}
    {sid : UInt64} {issuedAt : Instant} (hinv : MediaInv calls cfg maxTokenTtl captured s)
    (hlast : MediaLast calls) (hfresh : ∀ op sid', action = .token op → op.issued ≠ some (id, sid'))
    (hlive : action = .token (.validate id) → s.live sid = true)
    (hheld : s.media.held id = some (sid, issuedAt))
    (hage : elapsed s.now issuedAt ≤ maxTokenTtl) (hstep : mediaStep srv s action = some s') :
    s'.media.held id = some (sid, issuedAt) := by
  cases action with
  | listen action =>
    obtain ⟨listening, -, rfl⟩ := Option.map_eq_some_iff.mp hstep
    exact hheld
  | token op =>
    obtain rfl := Option.some.inj hstep
    have hkeeps : Media.Call.keeps s.media id ⟨s.now, s.world, op⟩ (sid, issuedAt) = true := by
      refine (TokenStore.keeps_iff (hinv.ttl ▸ hage)).mpr ?_
      rintro rfl
      exact (hinv.accepted_iff sid).mpr ⟨hlast, hlive rfl⟩
    have hother (sid' : UInt64) : ¬Media.Call.issues id sid' ⟨s.now, s.world, op⟩ :=
      hfresh op sid' rfl
    dsimp only
    rw [TokenStore.held_perform_of_not_issued hother, hheld, Option.filter_some, if_pos hkeeps]

theorem held_of_liveWhenAsked {srv : Server σ} {calls : List BuilderCall} {cfg : SessionConfig}
    {maxTokenTtl captured : Nat} {issued s : MediaServer σ} {between : List (MediaAction σ)}
    {id : TokenId} {sid : UInt64} {issuedAt : Instant}
    (hissued : MediaInv calls cfg maxTokenTtl captured issued) (hlast : MediaLast calls)
    (hheld : issued.media.held id = some (sid, issuedAt))
    (hfresh : ∀ op, .token op ∈ between → ∀ sid', op.issued ≠ some (id, sid'))
    (hasked : LiveWhenAsked srv issued between id sid)
    (hrun : run (mediaStep srv) issued between = some s)
    (hage : elapsed s.now issuedAt ≤ maxTokenTtl) : s.media.held id = some (sid, issuedAt) := by
  let inv (past : List (MediaAction σ)) (s : MediaServer σ) : Prop :=
    past <+: between → s.media.held id = some (sid, issuedAt) ∨ maxTokenTtl < elapsed s.now issuedAt
  have hstep {past : List (MediaAction σ)} {s s' : MediaServer σ} {action : MediaAction σ}
      (hpast : run (mediaStep srv) issued past = some s) (hinv : inv past s)
      (h : mediaStep srv s action = some s') : inv (past ++ [action]) s' := by
    rintro ⟨rest, hbetween⟩
    rw [List.append_assoc, List.singleton_append] at hbetween
    have hle : elapsed s.now issuedAt ≤ elapsed s'.now issuedAt :=
      Nat.sub_le_sub_right (mediaStep_now_le h) _
    obtain hkept | hexpired := hinv ⟨_, hbetween⟩
    · by_cases hwithin : elapsed s.now issuedAt ≤ maxTokenTtl
      · refine .inl (held_mediaStep (run_preserves MediaInv.step hpast hissued) hlast ?_ ?_ hkept
          hwithin h)
        · rintro op sid' rfl
          exact hfresh op (hbetween ▸ by simp) sid'
        · rintro rfl
          exact hasked past rest s hbetween.symm hpast
      · exact .inr (Nat.lt_of_lt_of_le (Nat.not_le.mp hwithin) hle)
    · exact .inr (Nat.lt_of_lt_of_le hexpired hle)
  have hreached : inv between s := run_history hstep hrun fun _ => .inl hheld
  exact (hreached List.prefix_rfl).resolve_right (Nat.not_lt.mpr hage)

/-- The steps of the server itself. -/
def listenActions (actions : List (MediaAction σ)) : List (ListenAction σ) :=
  actions.filterMap fun
    | .listen action => some action
    | .token _ => none

theorem run_listenActions {srv : Server σ} {s s' : MediaServer σ} {actions : List (MediaAction σ)}
    (h : run (mediaStep srv) s actions = some s') :
    run (listenStep srv) s.listening (listenActions actions) = some s'.listening := by
  induction actions generalizing s with
  | nil =>
    obtain rfl := Option.some.inj h
    rfl
  | cons action rest ih =>
    obtain ⟨mid, hmid, hrest⟩ := run_cons.mp h
    cases action with
    | listen action =>
      obtain ⟨listening, hlisten, rfl⟩ := Option.map_eq_some_iff.mp hmid
      exact run_cons.mpr ⟨listening, hlisten, ih hrest⟩
    | token op =>
      obtain rfl := Option.some.inj hmid
      have hlistening := ih hrest
      exact hlistening

/-- With fewer than 2^64 connections, a session that was live at one time and is live at a later
one was live whenever it was asked for in between. -/
theorem liveWhenAsked_of_live {srv : Server σ} {calls : List BuilderCall} {now : Instant} {app : σ}
    {maxTokenTtl : Nat} {start issued s : MediaServer σ} {before between : List (MediaAction σ)}
    {sid : UInt64} (hserve : (Builder.new.after calls).serve now app maxTokenTtl = some start)
    (hbefore : run (mediaStep srv) start before = some issued)
    (hrun : run (mediaStep srv) issued between = some s)
    (hbound : s.listening.conns.length < 2 ^ 64) (hissued : issued.live sid = true)
    (hlive : s.live sid = true) (id : TokenId) : LiveWhenAsked srv issued between id sid := by
  intro front back asked hbetween hasked
  by_contra hgone
  have hvacant : Vacant asked.listening.shared sid := by
    simpa [Vacant, MediaServer.live, MediaServer.sessionStore] using hgone
  have hstart : start.listening = serverStarted now (Builder.new.after calls).sessionCfg app := by
    obtain ⟨media, -, rfl⟩ := Option.map_eq_some_iff.mp hserve
    rfl
  have hrest : run (mediaStep srv) asked (.token (.validate id) :: back) = some s := by
    rw [hbetween, run_append, hasked] at hrun
    exact hrun
  have hbefore' := run_listenActions hbefore
  have hasked' := run_listenActions hasked
  have hrest' := run_listenActions hrest
  rw [hstart] at hbefore'
  have haskedBound : asked.listening.conns.length < 2 ^ 64 :=
    (run_length_le hrest').trans_lt hbound
  have hissuedInv : ListenInv srv issued.listening :=
    listenInv_run hbefore' ((run_length_le hasked').trans_lt haskedBound)
  -- The session was established by the time of the issue, and is not inserted again.
  have hopened : Opened issued.listening sid := by
    obtain ⟨sess, hget⟩ := Option.isSome_iff_exists.mp hissued
    exact hissuedInv.opened_of_get hget
  obtain ⟨haskedInv, haskedOpened⟩ := hopened.run hissuedInv hasked' haskedBound
  have hended := haskedOpened.vacant_run hvacant haskedInv hrest' hbound
  unfold MediaServer.live MediaServer.sessionStore at hlive
  rw [hended] at hlive
  cases hlive

/-- A token that was issued for a session of the server's own, and is asked for within its
lifetime and while the session is live, is accepted if and only if no `with_session_config`
came after the last `with_media`. -/
theorem issued_token_accepted_iff (srv : Server σ) (calls : List BuilderCall) (now : Instant)
    (app : σ) (maxTokenTtl : Nat) (start issuing s : MediaServer σ)
    (before between : List (MediaAction σ)) (op : Operation) (id : TokenId) (sid : UInt64)
    (hserve : (Builder.new.after calls).serve now app maxTokenTtl = some start)
    (hbefore : run (mediaStep srv) start before = some issuing)
    (hissue : op.issued = some (id, sid))
    (hrun : run (mediaStep srv) issuing (.token op :: between) = some s)
    (hfresh : ∀ later, .token later ∈ between → ∀ sid', later.issued ≠ some (id, sid'))
    (hasked : ∀ issued, mediaStep srv issuing (.token op) = some issued →
      LiveWhenAsked srv issued between id sid)
    (hlive : s.live sid = true) (hage : elapsed s.now issuing.now ≤ maxTokenTtl) :
    s.validates id = true ↔ MediaLast calls := by
  obtain ⟨captured, hinv⟩ := MediaInv.of_run hserve hbefore
  obtain ⟨issued, hissued, hbetween⟩ := run_cons.mp hrun
  have hinv' := hinv.step hissued
  rw [(run_preserves MediaInv.step hbetween hinv').validates_iff]
  constructor
  · rintro ⟨_, _, -, -, hlast, -⟩
    exact hlast
  · intro hlast
    have hheld : issued.media.held id = some (sid, issuing.now) := by
      obtain rfl := Option.some.inj hissued
      dsimp only
      rw [TokenStore.held_perform, hissue]
      exact if_pos rfl
    have hkept := held_of_liveWhenAsked hinv' hlast hheld hfresh (hasked issued hissued)
      hbetween hage
    exact ⟨sid, issuing.now, hkept, hage, hlast, hlive⟩

/-- A connection that establishes session 1, for the examples. -/
def establishingActions : List (MediaAction Nat) :=
  [.acceptQuic, .quic 0 (.net (.deliver (anonymousHello 1))), .quic 0 (.run exampleNonce),
    .quic 0 (.run exampleNonce)].map .listen

def exampleTokenId : TokenId := ⟨List.replicate 16 9, rfl⟩

/-- The configuration first, and the token is accepted. -/
theorem issued_token_accepted_iff_configured :
    ∃ start s, (Builder.new.after [.withSessionConfig ⟨100, 100⟩, .withMedia ""]).serve 0 0 10 =
        some start ∧
      run (mediaStep exampleServer) start
        (establishingActions ++ [.token (.issue exampleTokenId 1 "track")]) = some s ∧
      s.validates exampleTokenId = true := by
  let calls : List BuilderCall := [.withSessionConfig ⟨100, 100⟩, .withMedia ""]
  have hends : ((Builder.new.after calls).serve 0 0 10).map (fun start =>
      (run (mediaStep exampleServer) start establishingActions).map fun s => (s.now, s.live 1)) =
        some (some (0, true)) := by rfl
  obtain ⟨start, hserve, hestablish⟩ := Option.map_eq_some_iff.mp hends
  obtain ⟨issuing, hissuing, hstate⟩ := Option.map_eq_some_iff.mp hestablish
  obtain ⟨hnow, hlive⟩ := Prod.mk.inj hstate
  have hrun : run (mediaStep exampleServer) issuing [.token (.issue exampleTokenId 1 "track")] =
      some _ := run_cons.mpr ⟨_, rfl, rfl⟩
  refine ⟨start, _, hserve, by rw [run_append, hissuing]; exact hrun, ?_⟩
  refine (issued_token_accepted_iff exampleServer calls 0 0 10 start issuing _ establishingActions []
    (.issue exampleTokenId 1 "track") exampleTokenId 1 hserve hissuing rfl hrun (by simp) ?_ hlive
    ?_).mpr ⟨[.withSessionConfig ⟨100, 100⟩], "", [], rfl, by simp⟩
  · rintro issued - front back asked hbetween
    cases front <;> cases hbetween
  · exact Nat.le_trans (Nat.sub_le _ _) (hnow ▸ Nat.zero_le _)

/-- The configuration last: the validator asks a store that no connection inserts into, and
the token of a live session is refused. -/
theorem reconfigured_token_refused :
    ∃ start s, (Builder.new.after [.withMedia "", .withSessionConfig ⟨100, 100⟩]).serve 0 0 10 =
        some start ∧
      run (mediaStep exampleServer) start
        (establishingActions ++ [.token (.issue exampleTokenId 1 "track")]) = some s ∧
      s.now = 0 ∧ s.live 1 = true ∧ s.validates exampleTokenId = false := by
  have hends : ((Builder.new.after [.withMedia "", .withSessionConfig ⟨100, 100⟩]).serve 0 0 10).map
      (fun start => (run (mediaStep exampleServer) start
        (establishingActions ++ [.token (.issue exampleTokenId 1 "track")])).map fun s =>
          (s.now, s.live 1, s.validates exampleTokenId)) = some (some (0, true, false)) := by rfl
  obtain ⟨start, hserve, hrun⟩ := Option.map_eq_some_iff.mp hends
  obtain ⟨s, hs, hstate⟩ := Option.map_eq_some_iff.mp hrun
  simp only [Prod.mk.injEq] at hstate
  exact ⟨start, s, hserve, hs, hstate⟩

end Hush.Server
