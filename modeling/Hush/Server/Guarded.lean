import Hush.Server.Isolation
import Hush.Server.Middleware

/-! A handler behind `require_api_key_id`, seen from a whole server: which sessions reach it, in
whatever order the connections take their steps. -/
namespace Hush.Server

open Hush.Foundation Execution
open Hush.Frame hiding Request
open Hush.Session

variable {σ : Type}

/-! ### The chain -/

/-- Registrations leave the keys as they are. -/
theorem Registry.keys_after (aead : Aead) (keys : ServerKeys) (calls : List (Registration σ)) :
    ((Registry.new aead keys).after calls).server.keys = keys := by
  have hperform (reg : Registry σ) (call : Registration σ) :
      (reg.perform call).server.keys = reg.server.keys := by
    cases call <;> rfl
  have hafter (reg : Registry σ) : (reg.after calls).server.keys = reg.server.keys := by
    induction calls generalizing reg with
    | nil => rfl
    | cons call rest ih => exact (ih (reg.perform call)).trans (hperform reg call)
  exact hafter _

end Hush.Server
