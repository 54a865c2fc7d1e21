import Hush.Foundation.History
import Hush.Server.Dispatch

/-! Registration of handlers: each is wrapped, when it is registered, by the
middlewares of its kind that the server has by then. -/
namespace Hush.Server

open Hush.Foundation
open Hush.Session

/-- Takes the next handler and returns the one around it. -/
abbrev Middleware (σ : Type) := SyncHandler σ → SyncHandler σ

abbrev StreamMiddleware (σ : Type) := StreamHandler σ → StreamHandler σ

/-- A server that is being set up: the part that connections use, and the
middlewares in the order in which they were added. -/
structure Registry (σ : Type) where
  server : Server σ
  middlewares : List (Middleware σ)
  streamMiddlewares : List (StreamMiddleware σ)

/-- `for mw in middlewares.iter().rev() { h = mw(h); }` -/
def wrap {H : Type} (middlewares : List (H → H)) (handler : H) : H :=
  middlewares.reverse.foldl (fun h mw => mw h) handler

inductive Registration (σ : Type) where
  | useMiddleware (mw : Middleware σ)
  | useStreamMiddleware (mw : StreamMiddleware σ)
  | handle (opcode : UInt16) (handler : SyncHandler σ)
  | handleStream (opcode : UInt16) (handler : StreamHandler σ)

variable {σ : Type}

namespace Registry

def new (aead : Aead) (keys : ServerKeys) : Registry σ := ⟨⟨aead, keys, fun _ => none⟩, [], []⟩

def insert (reg : Registry σ) (opcode : UInt16) (handler : HandlerType σ) : Registry σ :=
  { reg with server.handlers := fun op =>
      if op = opcode then some handler else reg.server.handlers op }

def useMiddleware (reg : Registry σ) (mw : Middleware σ) : Registry σ :=
  { reg with middlewares := reg.middlewares ++ [mw] }

def useStreamMiddleware (reg : Registry σ) (mw : StreamMiddleware σ) : Registry σ :=
  { reg with streamMiddlewares := reg.streamMiddlewares ++ [mw] }

def handle (reg : Registry σ) (opcode : UInt16) (handler : SyncHandler σ) : Registry σ :=
  reg.insert opcode (.sync (wrap reg.middlewares handler))

def handleStream (reg : Registry σ) (opcode : UInt16) (handler : StreamHandler σ) : Registry σ :=
  reg.insert opcode (.stream (wrap reg.streamMiddlewares handler))

def perform (reg : Registry σ) : Registration σ → Registry σ
  | .useMiddleware mw => reg.useMiddleware mw
  | .useStreamMiddleware mw => reg.useStreamMiddleware mw
  | .handle opcode handler => reg.handle opcode handler
  | .handleStream opcode handler => reg.handleStream opcode handler

def after (reg : Registry σ) (calls : List (Registration σ)) : Registry σ := calls.foldl perform reg

end Registry

namespace Registration

/-- The opcode that the call registers a handler for. -/
def opcode : Registration σ → Option UInt16
  | .handle opcode _ => some opcode
  | .handleStream opcode _ => some opcode
  | _ => none

def middleware : Registration σ → Option (Middleware σ)
  | .useMiddleware mw => some mw
  | _ => none

def streamMiddleware : Registration σ → Option (StreamMiddleware σ)
  | .useStreamMiddleware mw => some mw
  | _ => none

end Registration

/-- The loop runs from the inside out: the first middleware ends up outermost. -/
theorem wrap_eq_foldr {H : Type} (middlewares : List (H → H)) (handler : H) :
    wrap middlewares handler = middlewares.foldr (fun mw h => mw h) handler := by
  unfold wrap
  rw [List.foldl_reverse]

@[simp] theorem wrap_nil {H : Type} (handler : H) : wrap [] handler = handler := rfl

@[simp] theorem wrap_cons {H : Type} (mw : H → H) (rest : List (H → H)) (handler : H) :
    wrap (mw :: rest) handler = mw (wrap rest handler) := by
  rw [wrap_eq_foldr, wrap_eq_foldr, List.foldr_cons]

namespace Registry

theorem after_append (reg : Registry σ) (front back : List (Registration σ)) :
    reg.after (front ++ back) = (reg.after front).after back := List.foldl_append

theorem handlers_insert (reg : Registry σ) (opcode : UInt16) (handler : HandlerType σ)
    (op : UInt16) :
    (reg.insert opcode handler).server.handlers op =
      if op = opcode then some handler else reg.server.handlers op := rfl

/-- A call adds its middleware, if it has one, to the list of its kind. -/
theorem middlewares_perform (reg : Registry σ) (call : Registration σ) :
    (reg.perform call).middlewares = reg.middlewares ++ call.middleware.toList ∧
      (reg.perform call).streamMiddlewares =
        reg.streamMiddlewares ++ call.streamMiddleware.toList := by
  cases call with
  | useMiddleware mw => exact ⟨rfl, (List.append_nil _).symm⟩
  | useStreamMiddleware mw => exact ⟨(List.append_nil _).symm, rfl⟩
  | handle opcode handler => exact ⟨(List.append_nil _).symm, (List.append_nil _).symm⟩
  | handleStream opcode handler => exact ⟨(List.append_nil _).symm, (List.append_nil _).symm⟩

theorem middlewares_after (reg : Registry σ) (calls : List (Registration σ)) :
    (reg.after calls).middlewares = reg.middlewares ++ calls.filterMap Registration.middleware ∧
      (reg.after calls).streamMiddlewares =
        reg.streamMiddlewares ++ calls.filterMap Registration.streamMiddleware := by
  induction calls generalizing reg with
  | nil => exact ⟨(List.append_nil _).symm, (List.append_nil _).symm⟩
  | cons call rest ih =>
    obtain ⟨hsync, hstream⟩ := ih (reg.perform call)
    obtain ⟨hsync', hstream'⟩ := reg.middlewares_perform call
    change ((reg.perform call).after rest).middlewares = _ ∧
      ((reg.perform call).after rest).streamMiddlewares = _
    rw [hsync, hstream, hsync', hstream', List.append_assoc, List.append_assoc]
    exact ⟨by cases h : call.middleware <;> simp [h],
      by cases h : call.streamMiddleware <;> simp [h]⟩

/-- The step: only a registration for the opcode changes its entry. -/
theorem handlers_perform_of_ne (reg : Registry σ) {call : Registration σ} {opcode : UInt16}
    (h : call.opcode ≠ some opcode) :
    (reg.perform call).server.handlers opcode = reg.server.handlers opcode := by
  cases call with
  | useMiddleware mw => rfl
  | useStreamMiddleware mw => rfl
  | handle other handler =>
    refine if_neg fun hsame => h ?_
    exact congrArg some hsame.symm
  | handleStream other handler =>
    refine if_neg fun hsame => h ?_
    exact congrArg some hsame.symm

/-- The run: what other opcodes are registered for, and which middlewares are added
later, leaves an entry alone. -/
theorem handlers_after_of_ne (reg : Registry σ) {calls : List (Registration σ)} {opcode : UInt16}
    (h : ∀ call ∈ calls, call.opcode ≠ some opcode) :
    (reg.after calls).server.handlers opcode = reg.server.handlers opcode := by
  induction calls generalizing reg with
  | nil => rfl
  | cons call rest ih =>
    obtain ⟨hcall, hrest⟩ := List.forall_mem_cons.mp h
    exact (ih (reg.perform call) hrest).trans (reg.handlers_perform_of_ne hcall)

/-- What a call registers is what the table has, until the opcode is registered again. -/
theorem handlers_after_cons (reg : Registry σ) (before : List (Registration σ))
    (call : Registration σ) {rest : List (Registration σ)} {opcode : UInt16}
    (hrest : ∀ later ∈ rest, later.opcode ≠ some opcode) :
    (reg.after (before ++ call :: rest)).server.handlers opcode =
      ((reg.after before).perform call).server.handlers opcode := by
  rw [after_append]
  exact handlers_after_of_ne _ hrest

end Registry

/-- The call is the last one of the history that registers a handler for its opcode. -/
def LastRegistered (calls before : List (Registration σ)) (call : Registration σ) : Prop :=
  ∃ rest, calls = before ++ call :: rest ∧ ∀ later ∈ rest, later.opcode ≠ call.opcode

namespace Registry

theorem handlers_of_lastRegistered (reg : Registry σ) {calls before : List (Registration σ)}
    {call : Registration σ} {opcode : UInt16} (h : LastRegistered calls before call)
    (hcall : call.opcode = some opcode) :
    (reg.after calls).server.handlers opcode =
      ((reg.after before).perform call).server.handlers opcode := by
  obtain ⟨rest, rfl, hrest⟩ := h
  exact reg.handlers_after_cons before call (hcall ▸ hrest)

theorem handlers_perform_ne_none (reg : Registry σ) {call : Registration σ} {opcode : UInt16}
    (h : call.opcode = some opcode) : (reg.perform call).server.handlers opcode ≠ none := by
  cases call with
  | useMiddleware mw => cases h
  | useStreamMiddleware mw => cases h
  | handle other handler =>
    obtain rfl := Option.some.inj h
    rw [perform, handle, handlers_insert, if_pos rfl]
    exact Option.some_ne_none _
  | handleStream other handler =>
    obtain rfl := Option.some.inj h
    rw [perform, handleStream, handlers_insert, if_pos rfl]
    exact Option.some_ne_none _

/-- An opcode has an entry if a call named it. The entry is the handler of the last such call,
inside the middlewares of its kind that were added before that call, the first of them outermost;
no call that does not name the opcode changes it. -/
theorem handlers_after (aead : Aead) (keys : ServerKeys) (calls : List (Registration σ))
    (opcode : UInt16) :
    let reg := (new aead keys).after calls
    (reg.server.handlers opcode ≠ none ↔ ∃ call ∈ calls, call.opcode = some opcode) ∧
    (∀ before handler, LastRegistered calls before (.handle opcode handler) →
      reg.server.handlers opcode = some (.sync
        ((before.filterMap Registration.middleware).foldr (fun mw h => mw h) handler))) ∧
    (∀ before handler, LastRegistered calls before (.handleStream opcode handler) →
      reg.server.handlers opcode = some (.stream
        ((before.filterMap Registration.streamMiddleware).foldr (fun mw h => mw h) handler))) ∧
    ∀ call, call.opcode ≠ some opcode →
      (reg.perform call).server.handlers opcode = reg.server.handlers opcode := by
  intro reg
  refine ⟨⟨?_, fun hnamed => ?_⟩, fun before handler hlast => ?_, fun before handler hlast => ?_,
    fun call hcall => reg.handlers_perform_of_ne hcall⟩
  · contrapose!
    intro hunnamed
    exact (new aead keys).handlers_after_of_ne hunnamed
  · obtain ⟨before, call, rest, hcalls, hcall, hrest⟩ := History.exists_last hnamed
    have hlast : LastRegistered calls before call := ⟨rest, hcalls, hcall.symm ▸ hrest⟩
    rw [handlers_of_lastRegistered _ hlast hcall]
    exact handlers_perform_ne_none _ hcall
  · rw [handlers_of_lastRegistered _ hlast rfl, perform, handle, handlers_insert, if_pos rfl,
      wrap_eq_foldr, ((new aead keys).middlewares_after before).1]
    rfl
  · rw [handlers_of_lastRegistered _ hlast rfl, perform, handleStream, handlers_insert, if_pos rfl,
      wrap_eq_foldr, ((new aead keys).middlewares_after before).2]
    rfl

end Registry

end Hush.Server
