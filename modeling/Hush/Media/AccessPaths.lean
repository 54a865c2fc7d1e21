import Hush.Media.TokenLifetime

/-! What reads a media token once its lifetime is over. Only `validate` compares ages;
`exists` and `lookup_hls` find the token until something has taken it out. -/
namespace Hush.Media

open Hush.Session

variable {ω : Type}

/-- None of the three ways to read the token finds it. -/
def TokenStore.Refuses (store : TokenStore ω) (now : Instant) (world : ω) (id : TokenId) : Prop :=
  (store.validate now world id).1 = false ∧ store.exists_ id = false ∧ store.lookupHls id = none

/-- The call takes out a token of this session and time of issue: it is a collection after
the token's lifetime, or a validation after it or while the session is not taken. -/
def Call.Removes (maxTokenTtl : Nat) (validateSession : Option (ω → UInt64 → Bool)) (id : TokenId)
    (sessionId : UInt64) (issuedAt : Instant) (call : Call ω) : Prop :=
  call.op = .gc ∧ maxTokenTtl < elapsed call.now issuedAt ∨
    call.op = .validate id ∧ (maxTokenTtl < elapsed call.now issuedAt ∨
      ¬Accepted validateSession call.world sessionId)

theorem Call.not_keeps_iff (store : TokenStore ω) (id : TokenId) (sessionId : UInt64)
    (issuedAt : Instant) (call : Call ω) :
    call.keeps store id (sessionId, issuedAt) = false ↔
      call.Removes store.maxTokenTtl store.validateSession id sessionId issuedAt := by
  obtain ⟨now, world, op⟩ := call
  unfold Call.Removes
  cases op with
  | validate tokenId =>
    simp only [Call.keeps, decide_eq_false_iff_not, store.good_iff, Operation.validate.injEq,
      reduceCtorEq, false_and, false_or, not_or, not_not, not_and_or, Nat.not_le]
  | gc => simp [Call.keeps]
  | _ => simp [Call.keeps]

namespace TokenStore

theorem exists_eq (store : TokenStore ω) (id : TokenId) :
    store.exists_ id = (store.held id).isSome := Option.isSome_map.symm

theorem lookupHls_eq_none_iff (store : TokenStore ω) (id : TokenId) :
    store.lookupHls id = none ↔ store.held id = none := by
  unfold lookupHls held
  rw [Option.map_eq_none_iff, Option.map_eq_none_iff]

/-- A validation after the lifetime fails, whatever the store still holds. -/
theorem validate_of_expired {store : TokenStore ω} {now : Instant} {id : TokenId}
    (h : ∀ held ∈ store.held id, store.maxTokenTtl < elapsed now held.2) (world : ω) :
    (store.validate now world id).1 = false := by
  rw [(store.validate_eq now world id).1]
  cases hheld : store.held id with
  | none => rfl
  | some held =>
    have hage := h held hheld
    rw [Option.any_some, ← Bool.not_eq_true, store.good_iff]
    exact fun hgood => Nat.not_le.mpr hage hgood.1

/-- After the lifetime, all ways to read the token are closed exactly when it is gone. -/
theorem refuses_iff_of_expired {store : TokenStore ω} {now : Instant} {id : TokenId}
    (h : ∀ held ∈ store.held id, store.maxTokenTtl < elapsed now held.2) (world : ω) :
    store.Refuses now world id ↔ store.held id = none := by
  unfold Refuses
  rw [exists_eq, lookupHls_eq_none_iff]
  constructor
  · exact fun hrefuses => hrefuses.2.2
  · intro hnone
    exact ⟨validate_of_expired h world, by rw [hnone]; rfl, hnone⟩

/-- A token that outlived its time is refused by every access path exactly if, since it was
issued, a call has taken it out. -/
theorem refuses_expired_iff (maxTokenTtl : Nat) (validateSession : Option (ω → UInt64 → Bool))
    (before rest : List (Call ω)) (issue : Call ω) (id : TokenId) (sessionId : UInt64)
    (now : Instant) (world : ω) (hissue : issue.issues id sessionId)
    (hrest : ∀ call ∈ rest, ∀ sessionId, ¬call.issues id sessionId)
    (hage : maxTokenTtl < elapsed now issue.now) :
    ((empty maxTokenTtl validateSession).after (before ++ issue :: rest)).Refuses now world id ↔
      ∃ call ∈ rest, call.Removes maxTokenTtl validateSession id sessionId issue.now := by
  have hheld : ((empty maxTokenTtl validateSession).after (before ++ issue :: rest)).held id = _ :=
    held_after_issue hissue hrest
  obtain ⟨httl, -⟩ := (empty maxTokenTtl validateSession).after_config (before ++ issue :: rest)
  rw [Option.filter_some] at hheld
  rw [refuses_iff_of_expired, hheld]
  · simp only [ite_eq_right_iff, reduceCtorEq, imp_false, Bool.not_eq_true, List.all_eq_false,
      Call.not_keeps_iff]
    rfl
  · rw [httl, hheld]
    intro held hmem
    obtain ⟨-, hsame⟩ := Option.ite_none_right_eq_some.mp hmem
    obtain rfl := Option.some.inj hsame
    exact hage

/-- The collector ran in time, and all paths are closed. -/
theorem refuses_expired_iff_collected :
    let id : TokenId := ⟨List.replicate 16 9, rfl⟩
    let issue : Call Unit := ⟨0, (), .issue id 7 "track"⟩
    ((empty 10 none).after [issue, ⟨11, (), .gc⟩]).Refuses 12 () id := by
  intro id issue
  have hrest : ∀ call ∈ [(⟨11, (), .gc⟩ : Call Unit)], ∀ sessionId, ¬call.issues id sessionId := by
    simp [Call.issues, Operation.issued]
  exact (refuses_expired_iff 10 none [] [⟨11, (), .gc⟩] issue id 7 12 () rfl hrest (by decide)).mpr
    ⟨⟨11, (), .gc⟩, List.mem_singleton_self _, .inl ⟨rfl, by decide⟩⟩

/-- One nanosecond after its lifetime the token still exists, and its stream is found. -/
theorem expired_token_exists :
    let id : TokenId := ⟨List.replicate 16 9, rfl⟩
    let history : List (Call Unit) := [⟨0, (), .issueWithHls id 7 "track" "https://media/hls"⟩]
    let store := (empty defaultMaxTokenTtl none).after history
    let now := defaultMaxTokenTtl + 1
    Clocked history now ∧ defaultMaxTokenTtl < elapsed now 0 ∧
      (store.validate now () id).1 = false ∧ store.exists_ id = true ∧
      store.lookupHls id = some "https://media/hls" := by
  refine ⟨by unfold Clocked; decide, by decide, rfl, rfl, rfl⟩

end TokenStore

end Hush.Media
