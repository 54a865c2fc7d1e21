import Hush.Server.Registration

/-! The middlewares of `middleware.rs`, and what a chain of them does to a call. A limiter
and a logger may change the application state, as a handler may. -/
namespace Hush.Server

open Hush.Frame hiding Request
open Hush.Session

/-- A line of the logging middleware, with what it says of the call. -/
inductive LogLine where
  | info (opcode : UInt16) (status : UInt8) (elapsed : Nat)
  | warn (opcode : UInt16) (elapsed : Nat) (err : String)

variable {σ : Type}

def loggingMiddleware (clock : σ → Instant) (logger : Option (LogLine → σ → σ)) : Middleware σ :=
  fun next req app =>
    let start := clock app
    match next req app with
    | .panicked app => .panicked app
    | .returned result app =>
      match logger with
      | none => .returned result app
      | some log =>
        let elapsed := elapsed (clock app) start
        match result with
        | .ok resp => .returned result (log (.info req.opcode resp.status.toU8 elapsed) app)
        | .error e => .returned result (log (.warn req.opcode elapsed e) app)

/-- `catch_unwind` around the next handler. -/
def recoveryMiddleware : Middleware σ :=
  fun next req app =>
    match next req app with
    | .returned result app => .returned result app
    | .panicked app => .returned (.error "internal error (panic)") app

def rateLimitMiddleware (limiter : σ → UInt64 × σ) (max : UInt64) : Middleware σ :=
  fun next req app =>
    let (count, app) := limiter app
    if max < count then .returned (.error "rate limit exceeded") app else next req app

def requireApiKeyId (allowed : List String) : Middleware σ :=
  fun next req app =>
    if !allowed.contains req.apiKeyId then
      .returned (.error ("api key '" ++ req.apiKeyId ++ "' not authorized")) app
    else next req app

/-- One of the middlewares above, with its parameters. -/
inductive BuiltIn (σ : Type) where
  | logging (clock : σ → Instant) (logger : Option (LogLine → σ → σ))
  | recovery
  | rateLimit (limiter : σ → UInt64 × σ) (max : UInt64)
  | requireApiKeyId (allowed : List String)

namespace BuiltIn

def middleware : BuiltIn σ → Middleware σ
  | logging clock logger => loggingMiddleware clock logger
  | recovery => recoveryMiddleware
  | rateLimit limiter max => rateLimitMiddleware limiter max
  | requireApiKeyId allowed => Server.requireApiKeyId allowed

/-- What the middleware demands of a call. -/
def Admits (req : Request) (app : σ) : BuiltIn σ → Prop
  | rateLimit limiter max => (limiter app).1 ≤ max
  | requireApiKeyId allowed => req.apiKeyId ∈ allowed
  | _ => True

/-- The state in which the middleware calls the next handler. -/
def entered (app : σ) : BuiltIn σ → σ
  | rateLimit limiter _ => (limiter app).2
  | _ => app

/-- The same middleware where the state has a record of handler calls beside it. -/
def recording : BuiltIn σ → BuiltIn (σ × List Request)
  | logging clock logger =>
    .logging (fun s => clock s.1) (logger.map fun log line s => (log line s.1, s.2))
  | recovery => .recovery
  | rateLimit limiter max => .rateLimit (fun s => ((limiter s.1).1, (limiter s.1).2, s.2)) max
  | requireApiKeyId allowed => .requireApiKeyId allowed

end BuiltIn

namespace HandlerOutcome

variable {τ : Type}

def map (f : σ → τ) : HandlerOutcome σ → HandlerOutcome τ
  | returned result app => returned result (f app)
  | panicked app => panicked (f app)

def app : HandlerOutcome σ → σ
  | returned _ app => app
  | panicked app => app

/-- The result, unless the handler panicked. -/
def result : HandlerOutcome σ → Option (Except String Response)
  | returned result _ => some result
  | panicked _ => none

@[simp] theorem app_map (f : σ → τ) (outcome : HandlerOutcome σ) :
    (outcome.map f).app = f outcome.app := by
  cases outcome <;> rfl

@[simp] theorem result_map (f : σ → τ) (outcome : HandlerOutcome σ) :
    (outcome.map f).result = outcome.result := by
  cases outcome <;> rfl

end HandlerOutcome

/-- The handler, with each call to it recorded. -/
def recorded (handler : SyncHandler σ) : SyncHandler (σ × List Request) :=
  fun req s => (handler req s.1).map fun app => (app, s.2 ++ [req])

/-- A state that limiters of the list may lead to before the handler is called. -/
inductive Entered (guards : List (BuiltIn σ)) (app : σ) : σ → Prop where
  | start : Entered guards app app
  | next {app' : σ} (guard : BuiltIn σ) :
      guard ∈ guards → Entered guards app app' → Entered guards app (guard.entered app')

/-- Each limiter returns one value during the call. -/
def Steady (guards : List (BuiltIn σ)) (app : σ) : Prop :=
  ∀ limiter max, .rateLimit limiter max ∈ guards → ∀ app', Entered guards app app' →
    (limiter app').1 = (limiter app).1

/-- What becomes of a handler's result inside the middlewares: a result is returned as it is,
and a panic is one outside unless one of them recovers from it. -/
def Relayed (guards : List (BuiltIn σ)) (inner outer : Option (Except String Response)) : Prop :=
  match inner with
  | some result => outer = some result
  | none =>
    (.recovery ∈ guards → ∃ msg, outer = some (.error msg)) ∧ (.recovery ∉ guards → outer = none)

/-- What none of the middlewares recovers from goes out as it came. -/
theorem Relayed.of_not_mem {guards : List (BuiltIn σ)} (h : .recovery ∉ guards)
    (result : Option (Except String Response)) : Relayed guards result result := by
  cases result with
  | some result => rfl
  | none => exact ⟨fun hmem => absurd hmem h, fun _ => rfl⟩

/-- One layer around others. -/
theorem Relayed.cons {guard : BuiltIn σ} {rest : List (BuiltIn σ)}
    {inner middle outer : Option (Except String Response)} (hrest : Relayed rest inner middle)
    (hguard : Relayed [guard] middle outer) : Relayed (guard :: rest) inner outer := by
  cases inner with
  | some result =>
    obtain rfl : middle = some result := hrest
    exact hguard
  | none =>
    obtain ⟨hcaught, huncaught⟩ := hrest
    by_cases hmem : .recovery ∈ rest
    · obtain ⟨msg, rfl⟩ := hcaught hmem
      exact ⟨fun _ => ⟨msg, hguard⟩, fun hnot => absurd (List.mem_cons_of_mem _ hmem) hnot⟩
    · obtain rfl := huncaught hmem
      obtain ⟨hcaught', huncaught'⟩ := hguard
      refine ⟨fun hcons => hcaught' ?_, fun hcons => huncaught' ?_⟩
      · exact List.mem_singleton.mpr ((List.mem_cons.mp hcons).resolve_right hmem)
      · exact fun hguard => hcons (List.mem_cons.mpr (.inl (List.mem_singleton.mp hguard)))

namespace BuiltIn

/-- The state that a logger or a limiter sees has no record. -/
theorem map_recording (guard : BuiltIn σ) {next' : SyncHandler (σ × List Request)}
    {next : SyncHandler σ} (hnext : ∀ req s, (next' req s).map Prod.fst = next req s.1)
    (req : Request) (s : σ × List Request) :
    (guard.recording.middleware next' req s).map Prod.fst = guard.middleware next req s.1 := by
  cases guard with
  | logging clock logger =>
    simp only [recording, middleware, loggingMiddleware, ← hnext]
    cases next' req s with
    | panicked s' => rfl
    | returned result s' =>
      cases logger with
      | none => rfl
      | some log => cases result <;> rfl
  | recovery =>
    simp only [recording, middleware, recoveryMiddleware, ← hnext]
    cases next' req s <;> rfl
  | rateLimit limiter max =>
    simp only [recording, middleware, rateLimitMiddleware]
    split
    · rfl
    · exact hnext req _
  | requireApiKeyId allowed =>
    simp only [recording, middleware, Server.requireApiKeyId]
    split
    · rfl
    · exact hnext req s

/-- The step for an admitted call: it is passed on once, and what comes back goes out. -/
theorem middleware_of_admits {guard : BuiltIn σ} {req : Request} {app : σ}
    (h : guard.Admits req app) (next : SyncHandler (σ × List Request)) (calls : List Request) :
    let inner := next req (guard.entered app, calls)
    let outer := guard.recording.middleware next req (app, calls)
    outer.app.2 = inner.app.2 ∧ Relayed [guard] inner.result outer.result := by
  cases guard with
  | logging clock logger =>
    simp only [recording, middleware, loggingMiddleware, entered]
    cases next req (app, calls) with
    | panicked s => exact ⟨rfl, by simp, fun _ => rfl⟩
    | returned result s =>
      cases logger with
      | none => exact ⟨rfl, rfl⟩
      | some log => cases result <;> exact ⟨rfl, rfl⟩
  | recovery =>
    simp only [recording, middleware, recoveryMiddleware, entered]
    cases next req (app, calls) with
    | panicked s => exact ⟨rfl, fun _ => ⟨_, rfl⟩, by simp⟩
    | returned result s => exact ⟨rfl, rfl⟩
  | rateLimit limiter max =>
    simp only [recording, middleware, rateLimitMiddleware, entered]
    rw [if_neg (UInt64.not_lt.mpr h)]
    exact ⟨rfl, .of_not_mem (by simp) _⟩
  | requireApiKeyId allowed =>
    have hallowed : req.apiKeyId ∈ allowed := h
    simp only [recording, middleware, Server.requireApiKeyId, entered]
    rw [if_neg (by simpa using hallowed)]
    exact ⟨rfl, .of_not_mem (by simp) _⟩

/-- The step for a call that is not admitted: nothing is passed on. -/
theorem middleware_of_not_admits {guard : BuiltIn σ} {req : Request} {app : σ}
    (h : ¬guard.Admits req app) (next : SyncHandler (σ × List Request)) (calls : List Request) :
    let outer := guard.recording.middleware next req (app, calls)
    outer.app.2 = calls ∧ ∃ msg, outer.result = some (.error msg) := by
  cases guard with
  | logging clock logger => exact absurd trivial h
  | recovery => exact absurd trivial h
  | rateLimit limiter max =>
    simp only [recording, middleware, rateLimitMiddleware]
    rw [if_pos (UInt64.not_le.mp h)]
    exact ⟨rfl, _, rfl⟩
  | requireApiKeyId allowed =>
    have hrefused : req.apiKeyId ∉ allowed := h
    simp only [recording, middleware, Server.requireApiKeyId]
    rw [if_pos (by simpa using hrefused)]
    exact ⟨rfl, _, rfl⟩

/-- During the call a middleware demands the same in each state that limiters lead to. -/
theorem admits_iff {guards : List (BuiltIn σ)} {app app' : σ} (hsteady : Steady guards app)
    (hentered : Entered guards app app') {guard : BuiltIn σ} (hmem : guard ∈ guards)
    (req : Request) : guard.Admits req app' ↔ guard.Admits req app := by
  cases guard with
  | rateLimit limiter max =>
    change (limiter app').1 ≤ max ↔ (limiter app).1 ≤ max
    rw [hsteady limiter max hmem app' hentered]
  | _ => exact Iff.rfl

end BuiltIn

/-- The chain of a list of middlewares around a recorded handler. -/
def recordedChain (guards : List (BuiltIn σ)) (handler : SyncHandler σ) :
    SyncHandler (σ × List Request) :=
  wrap (guards.map fun guard => guard.recording.middleware) (recorded handler)

theorem map_recordedChain (guards : List (BuiltIn σ)) (handler : SyncHandler σ) (req : Request)
    (s : σ × List Request) :
    (recordedChain guards handler req s).map Prod.fst =
      wrap (guards.map BuiltIn.middleware) handler req s.1 := by
  induction guards generalizing req s with
  | nil =>
    change ((handler req s.1).map _).map Prod.fst = handler req s.1
    cases handler req s.1 <;> rfl
  | cons guard rest ih =>
    unfold recordedChain
    rw [List.map_cons, List.map_cons, wrap_cons, wrap_cons]
    exact guard.map_recording ih req s

section Chain

variable {all : List (BuiltIn σ)} {start : σ} (hsteady : Steady all start) (handler : SyncHandler σ)
  (req : Request)
include hsteady

/-- A call that every middleware of the chain admits reaches the handler, once. -/
theorem recordedChain_of_admits {guards : List (BuiltIn σ)} (hsub : guards ⊆ all)
    (hadmits : ∀ guard ∈ guards, guard.Admits req start) {app : σ}
    (hentered : Entered all start app) (calls : List Request) :
    let outcome := recordedChain guards handler req (app, calls)
    outcome.app.2 = calls ++ [req] ∧ ∃ entered, Entered all start entered ∧
      Relayed guards (handler req entered).result outcome.result := by
  induction guards generalizing app with
  | nil =>
    refine ⟨HandlerOutcome.app_map _ _ ▸ rfl, app, hentered, ?_⟩
    change Relayed [] _ ((handler req app).map _).result
    rw [HandlerOutcome.result_map]
    exact .of_not_mem List.not_mem_nil _
  | cons guard rest ih =>
    obtain ⟨hguard, hrest⟩ := List.cons_subset.mp hsub
    obtain ⟨hown, hadmits⟩ := List.forall_mem_cons.mp hadmits
    obtain ⟨hcalls, entered, hreach, hrelayed⟩ :=
      ih hrest hadmits (.next guard hguard hentered)
    obtain ⟨hcalls', hrelayed'⟩ := BuiltIn.middleware_of_admits
      ((BuiltIn.admits_iff hsteady hentered hguard req).mpr hown) (recordedChain rest handler) calls
    have hcons : recordedChain (guard :: rest) handler =
        guard.recording.middleware (recordedChain rest handler) := wrap_cons _ _ _
    rw [hcons]
    exact ⟨hcalls'.trans hcalls, entered, hreach, hrelayed.cons hrelayed'⟩

/-- A call that some middleware of the chain does not admit is answered with an error, and
the handler is not called. -/
theorem recordedChain_of_not_admits {guards : List (BuiltIn σ)} (hsub : guards ⊆ all)
    (hrefused : ∃ guard ∈ guards, ¬guard.Admits req start) {app : σ}
    (hentered : Entered all start app) (calls : List Request) :
    let outcome := recordedChain guards handler req (app, calls)
    outcome.app.2 = calls ∧ ∃ msg, outcome.result = some (.error msg) := by
  induction guards generalizing app with
  | nil =>
    obtain ⟨guard, hmem, -⟩ := hrefused
    cases hmem
  | cons guard rest ih =>
    obtain ⟨hguard, hrest⟩ := List.cons_subset.mp hsub
    have hcons : recordedChain (guard :: rest) handler =
        guard.recording.middleware (recordedChain rest handler) := wrap_cons _ _ _
    have hsame := BuiltIn.admits_iff hsteady hentered hguard req
    rw [hcons]
    by_cases hown : guard.Admits req start
    · have hlater : ∃ later ∈ rest, ¬later.Admits req start := by
        obtain ⟨later, hmem, hlater⟩ := hrefused
        refine ⟨later, (List.mem_cons.mp hmem).resolve_left ?_, hlater⟩
        rintro rfl
        exact hlater hown
      obtain ⟨hcalls, msg, hresult⟩ := ih hrest hlater (.next guard hguard hentered)
      obtain ⟨hcalls', hrelayed⟩ := BuiltIn.middleware_of_admits (hsame.mpr hown)
        (recordedChain rest handler) calls
      rw [hresult] at hrelayed
      exact ⟨hcalls'.trans hcalls, msg, hrelayed⟩
    · exact BuiltIn.middleware_of_not_admits (fun h => hown (hsame.mp h)) _ calls

end Chain

/-- Around a handler, in any order and number: the handler is called once, with the request as
it came, if all middlewares admit the call, and what it returns goes out unchanged; otherwise it
is not called and the answer is an error. -/
theorem builtIns_compose (guards : List (BuiltIn σ)) (handler : SyncHandler σ) (req : Request)
    (app : σ) (hsteady : Steady guards app) :
    let chain := wrap (guards.map BuiltIn.middleware) handler req app
    let observed := recordedChain guards handler req (app, [])
    observed.map Prod.fst = chain ∧
    ((∀ guard ∈ guards, guard.Admits req app) → observed.app.2 = [req] ∧
      ∃ entered, Entered guards app entered ∧
        Relayed guards (handler req entered).result chain.result) ∧
    ((∃ guard ∈ guards, ¬guard.Admits req app) → observed.app.2 = [] ∧
      ∃ msg, chain.result = some (.error msg)) := by
  intro chain observed
  have hchain : observed.map Prod.fst = chain := map_recordedChain guards handler req (app, [])
  rw [← hchain, HandlerOutcome.result_map]
  exact ⟨rfl, fun hadmits => recordedChain_of_admits hsteady handler req (List.Subset.refl _) hadmits
      .start [], fun hrefused => recordedChain_of_not_admits hsteady handler req
      (List.Subset.refl _) hrefused .start []⟩

/-- A counting limiter outside, the recovery in the middle, and a handler that panics. -/
theorem builtIns_compose_recovered :
    let guards : List (BuiltIn Nat) :=
      [.rateLimit (fun count => (3, count + 1)) 5, .recovery, .requireApiKeyId ["admin"]]
    let handler : SyncHandler Nat := fun _ count => .panicked count
    let req : Request := ⟨0x0101, ⟨[]⟩, 1, "admin"⟩
    (recordedChain guards handler req (0, [])).app.2 = [req] ∧
      ∃ msg, (wrap (guards.map BuiltIn.middleware) handler req 0).result = some (.error msg) := by
  intro guards handler req
  have hsteady : Steady guards 0 := by
    intro limiter max hmem app' _
    obtain ⟨rfl, rfl⟩ : limiter = (fun count => (3, count + 1)) ∧ max = 5 := by
      simpa [guards] using hmem
    rfl
  have hadmits : ∀ guard ∈ guards, guard.Admits req 0 := by
    simp [guards, BuiltIn.Admits, req]
  obtain ⟨-, hserved, -⟩ := builtIns_compose guards handler req 0 hsteady
  obtain ⟨hcalls, entered, -, hrelayed⟩ := hserved hadmits
  exact ⟨hcalls, hrelayed.1 (by simp [guards])⟩

end Hush.Server
