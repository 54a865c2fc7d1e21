import Hush.Session.Store

/-! Media tokens of `media.rs`: the store, and its calls in the order in which they
take the lock. The validator may look at a world that changes between calls. -/
namespace Hush.Media

open Hush.Session

/-- Sixteen bytes, fresh from the operating system's generator at each issue. -/
structure TokenId where
  bytes : List UInt8
  length_bytes : bytes.length = 16
  deriving DecidableEq, Repr

/-- `created_at` is moved by every validation, and nothing reads it. -/
structure Token where
  id : TokenId
  trackId : String
  hlsUrl : String
  createdAt : Instant
  issuedAt : Instant
  sessionId : UInt64
  deriving DecidableEq, Repr

def defaultMaxTokenTtl : Nat := 7200 * 1000000000

structure TokenStore (ω : Type) where
  tokens : TokenId → Option Token
  validateSession : Option (ω → UInt64 → Bool)
  maxTokenTtl : Nat

namespace TokenStore

variable {ω : Type}

def new : TokenStore ω := ⟨fun _ => none, none, defaultMaxTokenTtl⟩

def withValidator (validateSession : ω → UInt64 → Bool) : TokenStore ω :=
  ⟨fun _ => none, some validateSession, defaultMaxTokenTtl⟩

def insert (store : TokenStore ω) (tokenId : TokenId) (tok : Token) : TokenStore ω :=
  { store with tokens := fun id => if id = tokenId then some tok else store.tokens id }

def remove (store : TokenStore ω) (tokenId : TokenId) : TokenStore ω :=
  { store with tokens := fun id => if id = tokenId then none else store.tokens id }

def issueWithHls (now : Instant) (id : TokenId) (store : TokenStore ω) (sessionId : UInt64)
    (trackId hlsUrl : String) : Token × TokenStore ω :=
  let tok := ⟨id, trackId, hlsUrl, now, now, sessionId⟩
  (tok, store.insert id tok)

def issue (now : Instant) (id : TokenId) (store : TokenStore ω) (sessionId : UInt64)
    (trackId : String) : Token × TokenStore ω :=
  store.issueWithHls now id sessionId trackId ""

def validate (now : Instant) (world : ω) (store : TokenStore ω) (tokenId : TokenId) :
    Bool × TokenStore ω :=
  match store.tokens tokenId with
  | none => (false, store)
  | some tok =>
    if store.maxTokenTtl < elapsed now tok.issuedAt then (false, store.remove tokenId)
    else
      let extended := store.insert tokenId { tok with createdAt := now }
      match store.validateSession with
      | some validate =>
        if !validate world tok.sessionId then (false, store.remove tokenId) else (true, extended)
      | none => (true, extended)

def exists_ (store : TokenStore ω) (tokenId : TokenId) : Bool := (store.tokens tokenId).isSome

def lookupHls (store : TokenStore ω) (tokenId : TokenId) : Option String :=
  (store.tokens tokenId).map Token.hlsUrl

def gc (now : Instant) (store : TokenStore ω) : TokenStore ω :=
  { store with tokens := fun id =>
      (store.tokens id).filter fun t => elapsed now t.issuedAt ≤ store.maxTokenTtl }

end TokenStore

inductive Operation where
  | issue (id : TokenId) (sessionId : UInt64) (trackId : String)
  | issueWithHls (id : TokenId) (sessionId : UInt64) (trackId hlsUrl : String)
  | validate (tokenId : TokenId)
  | exists_ (tokenId : TokenId)
  | lookupHls (tokenId : TokenId)
  | gc
  deriving DecidableEq, Repr

/-- The token and the session that a call issues it to. -/
def Operation.issued : Operation → Option (TokenId × UInt64)
  | .issue id sessionId _ => some (id, sessionId)
  | .issueWithHls id sessionId _ _ => some (id, sessionId)
  | _ => none

/-- A call, with the clock and the world at its time. -/
structure Call (ω : Type) where
  now : Instant
  world : ω
  op : Operation

namespace TokenStore

variable {ω : Type}

def perform (store : TokenStore ω) (call : Call ω) : TokenStore ω :=
  match call.op with
  | .issue id sessionId trackId => (store.issue call.now id sessionId trackId).2
  | .issueWithHls id sessionId trackId hlsUrl =>
    (store.issueWithHls call.now id sessionId trackId hlsUrl).2
  | .validate tokenId => (store.validate call.now call.world tokenId).2
  | .exists_ _ | .lookupHls _ => store
  | .gc => store.gc call.now

/-- The store after a history of calls. -/
def after (store : TokenStore ω) (history : List (Call ω)) : TokenStore ω :=
  history.foldl perform store

/-- The validator, if there is one, takes the session. -/
def accepts (store : TokenStore ω) (world : ω) (sessionId : UInt64) : Bool :=
  match store.validateSession with
  | some validate => validate world sessionId
  | none => true

/-- What decides about a token: its session and when it was issued. -/
def held (store : TokenStore ω) (id : TokenId) : Option (UInt64 × Instant) :=
  (store.tokens id).map fun tok => (tok.sessionId, tok.issuedAt)

/-- The token is within its lifetime, and its session is taken. -/
def good (store : TokenStore ω) (now : Instant) (world : ω) (held : UInt64 × Instant) : Bool :=
  elapsed now held.2 ≤ store.maxTokenTtl ∧ store.accepts world held.1 = true

theorem held_insert (store : TokenStore ω) (tokenId : TokenId) (tok : Token) (id : TokenId) :
    (store.insert tokenId tok).held id =
      if id = tokenId then some (tok.sessionId, tok.issuedAt) else store.held id := by
  simp only [held, insert]
  split <;> rfl

theorem held_remove (store : TokenStore ω) (tokenId id : TokenId) :
    (store.remove tokenId).held id = if id = tokenId then none else store.held id := by
  simp only [held, remove]
  split <;> rfl

theorem validate_of_none {store : TokenStore ω} {id : TokenId} (h : store.tokens id = none)
    (now : Instant) (world : ω) : store.validate now world id = (false, store) := by
  unfold validate
  rw [h]

theorem validate_of_good {store : TokenStore ω} {id : TokenId} {tok : Token} {now : Instant}
    {world : ω} (h : store.tokens id = some tok)
    (hgood : store.good now world (tok.sessionId, tok.issuedAt) = true) :
    store.validate now world id = (true, store.insert id { tok with createdAt := now }) := by
  obtain ⟨hage, haccept⟩ := of_decide_eq_true hgood
  unfold accepts at haccept
  unfold validate
  rw [h]
  dsimp only at hage ⊢
  rw [if_neg (Nat.not_lt.mpr hage)]
  split
  · rename_i validate hvalidator
    rw [hvalidator] at haccept
    dsimp only at haccept
    rw [haccept]
    rfl
  · rfl

theorem validate_of_not_good {store : TokenStore ω} {id : TokenId} {tok : Token} {now : Instant}
    {world : ω} (h : store.tokens id = some tok)
    (hgood : store.good now world (tok.sessionId, tok.issuedAt) = false) :
    store.validate now world id = (false, store.remove id) := by
  have hbad := of_decide_eq_false hgood
  unfold accepts at hbad
  unfold validate
  rw [h]
  dsimp only at hbad ⊢
  by_cases hage : elapsed now tok.issuedAt ≤ store.maxTokenTtl
  · rw [if_neg (Nat.not_lt.mpr hage)]
    split
    · rename_i validate hvalidator
      rw [hvalidator] at hbad
      dsimp only at hbad
      have hreject : validate world tok.sessionId = false := by
        rw [← Bool.not_eq_true]
        exact fun haccept => hbad ⟨hage, haccept⟩
      rw [hreject]
      rfl
    · rename_i hvalidator
      rw [hvalidator] at hbad
      exact absurd ⟨hage, rfl⟩ hbad
  · rw [if_pos (Nat.not_le.mp hage)]

/-- A validation answers whether a good token is held, keeps it if so, and
otherwise removes it. -/
theorem validate_eq (store : TokenStore ω) (now : Instant) (world : ω) (tokenId : TokenId) :
    (store.validate now world tokenId).1 = (store.held tokenId).any (store.good now world) ∧
      ∀ id, (store.validate now world tokenId).2.held id =
        if id = tokenId then (store.held id).filter (store.good now world) else store.held id := by
  cases htok : store.tokens tokenId with
  | none =>
    have hheld : store.held tokenId = none := congrArg (Option.map _) htok
    rw [validate_of_none htok, hheld]
    refine ⟨rfl, fun id => ?_⟩
    split
    · rename_i hsame
      rw [hsame, hheld, Option.filter_none]
    · rfl
  | some tok =>
    have hheld : store.held tokenId = some (tok.sessionId, tok.issuedAt) :=
      congrArg (Option.map _) htok
    cases hgood : store.good now world (tok.sessionId, tok.issuedAt) with
    | true =>
      rw [validate_of_good htok hgood, hheld]
      refine ⟨hgood.symm, fun id => ?_⟩
      rw [held_insert]
      split
      · rename_i hsame
        rw [hsame, hheld, Option.filter_some, if_pos hgood]
      · rfl
    | false =>
      rw [validate_of_not_good htok hgood, hheld]
      refine ⟨hgood.symm, fun id => ?_⟩
      rw [held_remove]
      split
      · rename_i hsame
        rw [hsame, hheld, Option.filter_some, hgood]
        rfl
      · rfl

end TokenStore

/-- The call leaves the token in the store, if it is there. -/
def Call.keeps {ω : Type} (store : TokenStore ω) (id : TokenId) (call : Call ω)
    (held : UInt64 × Instant) : Bool :=
  match call.op with
  | .validate tokenId => tokenId ≠ id ∨ store.good call.now call.world held = true
  | .gc => elapsed call.now held.2 ≤ store.maxTokenTtl
  | _ => true

namespace TokenStore

variable {ω : Type}

theorem perform_config (store : TokenStore ω) (call : Call ω) :
    (store.perform call).maxTokenTtl = store.maxTokenTtl ∧
      (store.perform call).validateSession = store.validateSession := by
  unfold perform
  cases call.op with
  | validate tokenId =>
    dsimp only
    unfold validate
    split
    · exact ⟨rfl, rfl⟩
    · split
      · exact ⟨rfl, rfl⟩
      · dsimp only
        split
        · split <;> exact ⟨rfl, rfl⟩
        · exact ⟨rfl, rfl⟩
  | _ => exact ⟨rfl, rfl⟩

/-- What one call does to one token: it is issued, or kept, or removed. -/
theorem held_perform (store : TokenStore ω) (call : Call ω) (id : TokenId) :
    (store.perform call).held id =
      match call.op.issued with
      | some (issued, sessionId) =>
        if id = issued then some (sessionId, call.now) else store.held id
      | none => (store.held id).filter (call.keeps store id) := by
  obtain ⟨now, world, op⟩ := call
  cases op with
  | issue issued sessionId trackId =>
    simp only [perform, issue, issueWithHls, insert, held, Operation.issued]
    split <;> rfl
  | issueWithHls issued sessionId trackId hlsUrl =>
    simp only [perform, issueWithHls, insert, held, Operation.issued]
    split <;> rfl
  | validate tokenId =>
    simp only [perform, (store.validate_eq now world tokenId).2, Operation.issued]
    by_cases hsame : id = tokenId
    · rw [if_pos hsame]
      congr 1
      funext held
      simp [Call.keeps, hsame]
    · rw [if_neg hsame]
      cases store.held id with
      | none => rfl
      | some held =>
        have hkept : Call.keeps store id ⟨now, world, .validate tokenId⟩ held = true :=
          decide_eq_true (.inl (Ne.symm hsame))
        rw [Option.filter_some, if_pos hkept]
  | gc =>
    simp only [perform, gc, held, Operation.issued]
    cases store.tokens id with
    | none => rfl
    | some tok =>
      have hkeeps : Call.keeps store id ⟨now, world, .gc⟩ (tok.sessionId, tok.issuedAt) =
        decide (elapsed now tok.issuedAt ≤ store.maxTokenTtl) := rfl
      rw [Option.filter_some, Option.map_some, Option.filter_some, hkeeps]
      split <;> rfl
  | _ =>
    cases hheld : store.held id with
    | none => exact hheld
    | some held => exact hheld

end TokenStore

end Hush.Media
