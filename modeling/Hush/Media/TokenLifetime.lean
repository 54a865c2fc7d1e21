import Hush.Media.TokenStore
import Mathlib.Data.List.Nodup

/-! How long a media token lives, told by the history of calls alone: since when
it was issued, and what the validator said each time it was asked. -/
namespace Hush.Media

open Hush.Session

variable {ω : Type}

/-- A store of this lifetime and validator, before the first call. -/
def TokenStore.empty (maxTokenTtl : Nat) (validateSession : Option (ω → UInt64 → Bool)) :
    TokenStore ω := ⟨fun _ => none, validateSession, maxTokenTtl⟩

/-- The call issues the token. -/
def Call.issues (id : TokenId) (sessionId : UInt64) (call : Call ω) : Prop :=
  call.op.issued = some (id, sessionId)

/-- The identifiers issued by a history, in order. -/
def issuedIds (history : List (Call ω)) : List TokenId :=
  history.filterMap fun call => call.op.issued.map Prod.fst

/-- No call after the other one goes back in time. -/
def Clocked (history : List (Call ω)) (now : Instant) : Prop :=
  (history.map Call.now ++ [now]).Pairwise (· ≤ ·)

namespace TokenStore

theorem after_append (store : TokenStore ω) (front back : List (Call ω)) :
    store.after (front ++ back) = (store.after front).after back := List.foldl_append

theorem after_config (store : TokenStore ω) (history : List (Call ω)) :
    (store.after history).maxTokenTtl = store.maxTokenTtl ∧
      (store.after history).validateSession = store.validateSession := by
  induction history generalizing store with
  | nil => exact ⟨rfl, rfl⟩
  | cons call rest ih =>
    obtain ⟨httl, hvalidator⟩ := ih (store.perform call)
    obtain ⟨httl', hvalidator'⟩ := store.perform_config call
    exact ⟨httl.trans httl', hvalidator.trans hvalidator'⟩

/-- Stores with the same lifetime and validator judge alike. -/
theorem good_congr {store store' : TokenStore ω} (httl : store.maxTokenTtl = store'.maxTokenTtl)
    (hvalidator : store.validateSession = store'.validateSession) : store.good = store'.good := by
  funext now world held
  unfold good accepts
  rw [httl, hvalidator]

theorem keeps_congr {store store' : TokenStore ω} (httl : store.maxTokenTtl = store'.maxTokenTtl)
    (hvalidator : store.validateSession = store'.validateSession) (id : TokenId) (call : Call ω) :
    call.keeps store id = call.keeps store' id := by
  funext held
  unfold Call.keeps
  rw [good_congr httl hvalidator, httl]

/-- The step: a call that does not issue the token keeps it or removes it. -/
theorem held_perform_of_not_issued {store : TokenStore ω} {call : Call ω} {id : TokenId}
    (h : ∀ sessionId, ¬call.issues id sessionId) :
    (store.perform call).held id = (store.held id).filter (call.keeps store id) := by
  rw [held_perform]
  cases hissued : call.op.issued with
  | none => rfl
  | some issued =>
    obtain ⟨issued, sessionId⟩ := issued
    have hother : id ≠ issued := by
      rintro rfl
      exact h sessionId hissued
    have hkeeps (held : UInt64 × Instant) : call.keeps store id held = true := by
      obtain ⟨now, world, op⟩ := call
      cases op with
      | issue => rfl
      | issueWithHls => rfl
      | _ => cases hissued
    dsimp only
    rw [if_neg hother]
    cases store.held id with
    | none => rfl
    | some held => rw [Option.filter_some, if_pos (hkeeps held)]

/-- The run: calls that do not issue the token remove it unless all of them keep it. -/
theorem held_after_of_not_issued {store : TokenStore ω} {calls : List (Call ω)} {id : TokenId}
    (h : ∀ call ∈ calls, ∀ sessionId, ¬call.issues id sessionId) :
    (store.after calls).held id =
      (store.held id).filter fun held => calls.all fun call => call.keeps store id held := by
  induction calls generalizing store with
  | nil =>
    cases hheld : store.held id with
    | none => exact hheld
    | some held => exact hheld
  | cons call rest ih =>
    obtain ⟨hcall, hrest⟩ := List.forall_mem_cons.mp h
    obtain ⟨httl, hvalidator⟩ := store.perform_config call
    change ((store.perform call).after rest).held id = _
    rw [ih hrest, held_perform_of_not_issued hcall, Option.filter_filter]
    congr 1
    funext held
    simp only [List.all_cons, keeps_congr httl hvalidator]

/-- Without a call that issues it, a token is never held. -/
theorem held_empty_after {maxTokenTtl : Nat} {validateSession : Option (ω → UInt64 → Bool)}
    {history : List (Call ω)} {id : TokenId}
    (h : ∀ call ∈ history, ∀ sessionId, ¬call.issues id sessionId) :
    ((empty maxTokenTtl validateSession).after history).held id = none :=
  held_after_of_not_issued h

/-- After it is issued, and if it is not issued again, a token is held exactly while
every later call keeps it. -/
theorem held_after_issue {store : TokenStore ω} {before rest : List (Call ω)} {issue : Call ω}
    {id : TokenId} {sessionId : UInt64} (hissue : issue.issues id sessionId)
    (hrest : ∀ call ∈ rest, ∀ sessionId, ¬call.issues id sessionId) :
    (store.after (before ++ issue :: rest)).held id =
      (some (sessionId, issue.now)).filter fun held =>
        rest.all fun call => call.keeps store id held := by
  have hheld : ((store.after before).perform issue).held id = some (sessionId, issue.now) := by
    rw [held_perform, show issue.op.issued = some (id, sessionId) from hissue]
    exact if_pos rfl
  obtain ⟨httl, hvalidator⟩ := (store.after before).perform_config issue
  obtain ⟨httl', hvalidator'⟩ := store.after_config before
  rw [after_append]
  change (((store.after before).perform issue).after rest).held id = _
  rw [held_after_of_not_issued hrest, hheld]
  simp only [keeps_congr (httl.trans httl') (hvalidator.trans hvalidator')]

end TokenStore

/-- A token that is issued once is not issued again. -/
theorem not_issues_of_nodup {before rest : List (Call ω)} {issue : Call ω} {id : TokenId}
    {sessionId : UInt64} (hfresh : (issuedIds (before ++ issue :: rest)).Nodup)
    (hissue : issue.issues id sessionId) :
    ∀ call ∈ rest, ∀ sessionId, ¬call.issues id sessionId := by
  intro call hcall sessionId' hissue'
  have hid : issue.op.issued.map Prod.fst = some id := congrArg (Option.map Prod.fst) hissue
  have hid' : call.op.issued.map Prod.fst = some id := congrArg (Option.map Prod.fst) hissue'
  have hsplit : issuedIds (before ++ issue :: rest) = issuedIds before ++ id :: issuedIds rest := by
    unfold issuedIds
    rw [List.filterMap_append]
    exact congrArg _ (List.filterMap_cons_some hid)
  have htail := (List.nodup_append.mp (hsplit ▸ hfresh)).2.1
  exact (List.nodup_cons.mp htail).1 (List.mem_filterMap.mpr ⟨call, hcall, hid'⟩)

/-- No call of a clocked history is later than its end. -/
theorem Clocked.le {history : List (Call ω)} {now : Instant} (h : Clocked history now)
    {call : Call ω} (hcall : call ∈ history) : call.now ≤ now :=
  (List.pairwise_append.mp h).2.2 _ (List.mem_map_of_mem hcall) _ (List.mem_singleton_self now)

/-- The validator, if there is one, takes the session. -/
def Accepted (validateSession : Option (ω → UInt64 → Bool)) (world : ω) (sessionId : UInt64) :
    Prop :=
  ∀ validate ∈ validateSession, validate world sessionId = true

/-- What a validation should answer: the token was issued within the lifetime, its session
is taken now, and was taken at each validation of the token within the lifetime. -/
def Alive (maxTokenTtl : Nat) (validateSession : Option (ω → UInt64 → Bool))
    (history : List (Call ω)) (now : Instant) (world : ω) (id : TokenId) : Prop :=
  ∃ before issue rest sessionId, history = before ++ issue :: rest ∧
    issue.issues id sessionId ∧ elapsed now issue.now ≤ maxTokenTtl ∧
    Accepted validateSession world sessionId ∧
    ∀ earlier ∈ rest, earlier.op = .validate id →
      elapsed earlier.now issue.now ≤ maxTokenTtl → Accepted validateSession earlier.world sessionId

namespace TokenStore

theorem accepts_iff (store : TokenStore ω) (world : ω) (sessionId : UInt64) :
    store.accepts world sessionId = true ↔ Accepted store.validateSession world sessionId := by
  unfold accepts Accepted
  cases store.validateSession with
  | none => simp
  | some validate => simp

theorem good_iff (store : TokenStore ω) (now : Instant) (world : ω) (sessionId : UInt64)
    (issuedAt : Instant) :
    store.good now world (sessionId, issuedAt) = true ↔
      elapsed now issuedAt ≤ store.maxTokenTtl ∧
        Accepted store.validateSession world sessionId := by
  unfold good
  rw [decide_eq_true_iff, accepts_iff]

/-- Within the lifetime, only a validation that the session fails removes a token. -/
theorem keeps_iff {store : TokenStore ω} {call : Call ω} {id : TokenId} {sessionId : UInt64}
    {issuedAt : Instant} (hage : elapsed call.now issuedAt ≤ store.maxTokenTtl) :
    call.keeps store id (sessionId, issuedAt) = true ↔
      (call.op = .validate id → Accepted store.validateSession call.world sessionId) := by
  obtain ⟨now, world, op⟩ := call
  cases op with
  | validate tokenId =>
    simp only [Call.keeps, decide_eq_true_iff, Operation.validate.injEq, good_iff]
    constructor
    · rintro (hother | ⟨-, haccept⟩) hsame
      · exact absurd hsame hother
      · exact haccept
    · intro haccept
      by_cases hsame : tokenId = id
      · exact .inr ⟨hage, haccept hsame⟩
      · exact .inl hsame
  | gc => simpa [Call.keeps] using hage
  | _ => simp [Call.keeps]

/-- The answer for an issued token. -/
theorem validate_issued (store : TokenStore ω) (before : List (Call ω)) {rest : List (Call ω)}
    {issue : Call ω} {id : TokenId} {sessionId : UInt64} (hissue : issue.issues id sessionId)
    (hrest : ∀ call ∈ rest, ∀ sessionId, ¬call.issues id sessionId) (now : Instant) (world : ω) :
    ((store.after (before ++ issue :: rest)).validate now world id).1 = true ↔
      (∀ call ∈ rest, call.keeps store id (sessionId, issue.now) = true) ∧
        store.good now world (sessionId, issue.now) = true := by
  obtain ⟨httl, hvalidator⟩ := store.after_config (before ++ issue :: rest)
  rw [(validate_eq _ now world id).1, held_after_issue hissue hrest, good_congr httl hvalidator,
    Option.any_filter, Option.any_some, Bool.and_eq_true, List.all_eq_true]

/-- If identifiers are fresh and time does not go back, a validation answers what the
history says, no validation extends the lifetime, and once an issued token has failed it
fails forever. -/
theorem validate_exact (maxTokenTtl : Nat) (validateSession : Option (ω → UInt64 → Bool))
    (history : List (Call ω)) (now : Instant) (world : ω) (id : TokenId)
    (hclock : Clocked history now) (hfresh : (issuedIds history).Nodup) :
    let answer := (((empty maxTokenTtl validateSession).after history).validate now world id).1
    (answer = true ↔ Alive maxTokenTtl validateSession history now world id) ∧
      (answer = true → ∀ issue ∈ history, ∀ sessionId, issue.issues id sessionId →
        elapsed now issue.now ≤ maxTokenTtl) ∧
      ∀ before failed rest, history = before ++ failed :: rest → failed.op = .validate id →
        id ∈ issuedIds before →
        (((empty maxTokenTtl validateSession).after before).validate failed.now failed.world
          id).1 = false →
        answer = false := by
  intro answer
  have hissued {before rest : List (Call ω)} {issue : Call ω} {sessionId : UInt64}
      (hhistory : history = before ++ issue :: rest) (hissue : issue.issues id sessionId) :
      answer = true ↔
        (∀ call ∈ rest,
          call.keeps (empty maxTokenTtl validateSession) id (sessionId, issue.now) = true) ∧
        elapsed now issue.now ≤ maxTokenTtl ∧ Accepted validateSession world sessionId := by
    have hrest := not_issues_of_nodup (hhistory ▸ hfresh) hissue
    have hvalidate := validate_issued (empty maxTokenTtl validateSession) before hissue hrest now
      world
    rw [← hhistory, good_iff] at hvalidate
    exact hvalidate
  refine ⟨⟨fun htrue => ?_, ?_⟩, fun htrue issue hmem sessionId hissue => ?_, ?_⟩
  · by_cases hsome : ∃ issue ∈ history, ∃ sessionId, issue.issues id sessionId
    · obtain ⟨issue, hmem, sessionId, hissue⟩ := hsome
      obtain ⟨before, rest, hhistory⟩ := List.append_of_mem hmem
      obtain ⟨hkeeps, hage, haccept⟩ := (hissued hhistory hissue).mp htrue
      refine ⟨before, issue, rest, sessionId, hhistory, hissue, hage, haccept, ?_⟩
      intro earlier hearlier hop hwithin
      exact (keeps_iff hwithin).mp (hkeeps earlier hearlier) hop
    · have hnone : ∀ call ∈ history, ∀ sessionId, ¬call.issues id sessionId :=
        fun call hcall sessionId hissue => hsome ⟨call, hcall, sessionId, hissue⟩
      have hanswer := (validate_eq ((empty maxTokenTtl validateSession).after history) now world
        id).1
      rw [held_empty_after hnone] at hanswer
      exact absurd htrue (Bool.eq_false_iff.mp hanswer)
  · rintro ⟨before, issue, rest, sessionId, hhistory, hissue, hage, haccept, hearlier⟩
    refine (hissued hhistory hissue).mpr ⟨fun call hcall => ?_, hage, haccept⟩
    have hle : call.now ≤ now := hclock.le (hhistory ▸ by simp [hcall])
    have hwithin : elapsed call.now issue.now ≤ maxTokenTtl :=
      Nat.le_trans (Nat.sub_le_sub_right hle _) hage
    exact (keeps_iff hwithin).mpr fun hop => hearlier call hcall hop hwithin
  · obtain ⟨before, rest, hhistory⟩ := List.append_of_mem hmem
    exact ((hissued hhistory hissue).mp htrue).2.1
  · intro before failed rest hhistory hop hmem hfalse
    obtain ⟨issue, hissue_mem, hid⟩ := List.mem_filterMap.mp hmem
    obtain ⟨⟨issued, sessionId⟩, hissue, rfl⟩ := Option.map_eq_some_iff.mp hid
    obtain ⟨front, between, rfl⟩ := List.append_of_mem hissue_mem
    rw [List.append_assoc, List.cons_append] at hhistory
    rw [← Bool.not_eq_true]
    intro htrue
    -- A token that is still held was kept by the failed validation, which then did not fail.
    obtain ⟨hkeeps, -⟩ := (hissued hhistory hissue).mp htrue
    obtain ⟨hbetween, hfailed⟩ := List.forall_mem_append.mp hkeeps
    have hgood := hfailed failed List.mem_cons_self
    unfold Call.keeps at hgood
    rw [hop] at hgood
    have hrest := not_issues_of_nodup (hhistory ▸ hfresh) hissue
    have hpassed := (validate_issued _ front hissue (List.forall_mem_append.mp hrest).1 failed.now
      failed.world).mpr ⟨hbetween, (of_decide_eq_true hgood).resolve_left (absurd rfl)⟩
    exact Bool.false_ne_true (hfalse.symm.trans hpassed)

/-- Taken, then refused once while its session was gone, and lost for good. -/
theorem validate_exact_refused_once :
    let id : TokenId := ⟨List.replicate 16 9, rfl⟩
    let store : TokenStore Bool := empty defaultMaxTokenTtl (some fun world _ => world)
    let history : List (Call Bool) :=
      [⟨0, true, .issue id 7 "track"⟩, ⟨10, true, .validate id⟩, ⟨20, false, .validate id⟩]
    ((store.after history).validate 30 true id).1 = false ∧
      ¬Alive defaultMaxTokenTtl (some fun world _ => world) history 30 true id := by
  intro id store history
  obtain ⟨hiff, -, hforever⟩ := validate_exact defaultMaxTokenTtl (some fun world _ => world)
    history 30 true id (by unfold Clocked; decide) (by decide)
  have hfalse := hforever [⟨0, true, .issue id 7 "track"⟩, ⟨10, true, .validate id⟩]
    ⟨20, false, .validate id⟩ [] rfl rfl (by decide) (by decide)
  exact ⟨hfalse, fun halive => Bool.false_ne_true (hfalse.symm.trans (hiff.mpr halive))⟩

end TokenStore

end Hush.Media
