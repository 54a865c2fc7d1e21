import Hush.Media.TokenStore
import Hush.Server.SharedSteps

/-! The builder steps that media tokens depend on, and the server that is built. Stores are
known by their place in the list of all stores that were made: a closure that has captured
one looks it up there, whatever the builder calls its own by then. -/
namespace Hush.Server

open Hush.Foundation
open Hush.Media hiding Call
open Hush.Session

/-- `move |sid| sessions.get(sid).is_some()`, with `sessions` captured. -/
def liveIn (sessions : Nat) (stores : List SessionStore) (sid : UInt64) : Bool :=
  (stores[sessions]?.bind fun store => store.get sid).isSome

structure Builder where
  stores : List SessionStore
  sessions : Nat
  sessionCfg : SessionConfig
  mediaStore : Option (TokenStore (List SessionStore))

inductive BuilderCall where
  | withMedia (baseUrl : String)
  | withSessionConfig (cfg : SessionConfig)

namespace Builder

def new : Builder :=
  let cfg := SessionConfig.default.fill
  ⟨[.new cfg], 0, cfg, none⟩

def withMedia (b : Builder) (_baseUrl : String) : Builder :=
  { b with mediaStore := some (.withValidator (liveIn b.sessions)) }

def withSessionConfig (b : Builder) (cfg : SessionConfig) : Builder :=
  { b with
    sessionCfg := cfg.fill
    stores := b.stores ++ [.new cfg.fill]
    sessions := b.stores.length }

def perform (b : Builder) : BuilderCall → Builder
  | .withMedia baseUrl => b.withMedia baseUrl
  | .withSessionConfig cfg => b.withSessionConfig cfg

def after (b : Builder) (calls : List BuilderCall) : Builder := calls.foldl perform b

/-- The builder's own store is there, and still empty. -/
theorem own_after (calls : List BuilderCall) :
    (new.after calls).stores[(new.after calls).sessions]? =
      some (.new (new.after calls).sessionCfg) := by
  induction calls using List.reverseRecOn with
  | nil => rfl
  | append_singleton past call ih =>
    unfold after at ih ⊢
    rw [List.foldl_append]
    cases call with
    | withMedia baseUrl => exact ih
    | withSessionConfig cfg => exact List.getElem?_concat_length

end Builder

/-- Since the last call of `with_media` the store was not replaced. -/
def MediaLast (calls : List BuilderCall) : Prop :=
  ∃ before baseUrl rest, calls = before ++ .withMedia baseUrl :: rest ∧
    ∀ call ∈ rest, ∀ cfg, call ≠ .withSessionConfig cfg

theorem mediaLast_iff_lasts (calls : List BuilderCall) :
    MediaLast calls ↔
      History.Lasts (fun _ call (_ : Unit) => ∃ baseUrl, call = BuilderCall.withMedia baseUrl)
        (fun _ call _ => ∀ cfg, call ≠ BuilderCall.withSessionConfig cfg) calls () := by
  rw [History.lasts_iff_forall_mem]
  constructor
  · rintro ⟨before, baseUrl, rest, hcalls, hrest⟩
    exact ⟨before, _, rest, hcalls, ⟨baseUrl, rfl⟩, hrest⟩
  · rintro ⟨before, _, rest, hcalls, ⟨baseUrl, rfl⟩, hrest⟩
    exact ⟨before, baseUrl, rest, hcalls, hrest⟩

theorem mediaLast_withMedia (past : List BuilderCall) (baseUrl : String) :
    MediaLast (past ++ [.withMedia baseUrl]) := ⟨past, baseUrl, [], rfl, by simp⟩

theorem not_mediaLast_withSessionConfig (past : List BuilderCall) (cfg : SessionConfig) :
    ¬MediaLast (past ++ [.withSessionConfig cfg]) := by
  rw [mediaLast_iff_lasts, History.lasts_concat]
  simp

/-- What the validator of the token store looks at: the store of this place, which is empty
when the server starts, and the server's own exactly if `with_media` came last. -/
structure Captured (calls : List BuilderCall) (b : Builder) (sessions : Nat) : Prop where
  media : b.mediaStore = some (.withValidator (liveIn sessions))
  own_iff : sessions = b.sessions ↔ MediaLast calls
  empty : ∃ cfg, b.stores[sessions]? = some (.new cfg)

theorem captured_after {calls : List BuilderCall} (h : ∃ baseUrl, .withMedia baseUrl ∈ calls) :
    ∃ sessions, Captured calls (Builder.new.after calls) sessions := by
  induction calls using List.reverseRecOn with
  | nil =>
    obtain ⟨baseUrl, hmem⟩ := h
    cases hmem
  | append_singleton past call ih =>
    have hown := Builder.own_after past
    unfold Builder.after at ih hown ⊢
    rw [List.foldl_append]
    cases call with
    | withMedia baseUrl =>
      exact ⟨_, rfl, iff_of_true rfl (mediaLast_withMedia past baseUrl), _, hown⟩
    | withSessionConfig cfg =>
      obtain ⟨baseUrl, hmem⟩ := h
      have hpast : .withMedia baseUrl ∈ past := by simpa using hmem
      obtain ⟨sessions, hmedia, -, before, hbefore⟩ := ih ⟨baseUrl, hpast⟩
      have hlt := (List.getElem?_eq_some_iff.mp hbefore).1
      refine ⟨sessions, hmedia, iff_of_false ?_ (not_mediaLast_withSessionConfig past cfg), before,
        ?_⟩
      · exact Nat.ne_of_lt hlt
      · exact (List.getElem?_append_left hlt).trans hbefore

end Hush.Server
