import Hush.Foundation.History
import Hush.Session.Store

/-! The session store after any history of calls, told by the history alone: which session
is found under an id, and what the collector leaves. -/
namespace Hush.Session

open Hush.Foundation

set_option linter.dupNamespace false

inductive StoreOperation where
  | insert (sess : Session)
  | get (id : UInt64)
  | delete (id : UInt64)
  | gc
  deriving DecidableEq, Repr

/-- A call, with the clock at its time. -/
structure StoreCall where
  now : Instant
  op : StoreOperation
  deriving DecidableEq, Repr

namespace SessionStore

def perform (store : SessionStore) (call : StoreCall) : SessionStore :=
  match call.op with
  | .insert sess => store.insert sess
  | .get _ => store
  | .delete id => store.delete id
  | .gc => store.gc call.now

/-- The store after a history of calls. -/
def after (store : SessionStore) (history : List StoreCall) : SessionStore :=
  history.foldl perform store

theorem perform_config (store : SessionStore) (call : StoreCall) :
    (store.perform call).config = store.config := by
  unfold perform
  cases call.op <;> rfl

theorem after_config (store : SessionStore) (history : List StoreCall) :
    (store.after history).config = store.config := by
  induction history generalizing store with
  | nil => rfl
  | cons call rest ih => exact (ih (store.perform call)).trans (store.perform_config call)

end SessionStore

/-- The call leaves the session under the id, if it is there. -/
def StoreCall.spares (maxLifetime : Nat) (id : UInt64) (sess : Session) (call : StoreCall) : Prop :=
  match call.op with
  | .insert other => other.id ≠ id
  | .get _ => True
  | .delete other => other ≠ id
  | .gc => elapsed call.now sess.createdAt ≤ maxLifetime

/-- What one call does to what is found under one id. -/
theorem SessionStore.get_perform_iff (store : SessionStore) (call : StoreCall) (id : UInt64)
    (sess : Session) :
    (store.perform call).get id = some sess ↔
      (call.op = .insert sess ∧ sess.id = id) ∨
        (store.get id = some sess ∧ call.spares store.config.maxLifetime id sess) := by
  obtain ⟨now, op⟩ := call
  cases op with
  | insert other =>
    unfold perform StoreCall.spares
    dsimp only
    by_cases hsame : other.id = id
    · subst hsame
      rw [get_insert_self]
      simp only [Option.some.injEq, StoreOperation.insert.injEq, ne_eq, not_true_eq_false, and_false,
        or_false]
      constructor
      · rintro rfl
        exact ⟨rfl, rfl⟩
      · exact And.left
    · rw [get_insert_of_ne _ (Ne.symm hsame)]
      simp only [StoreOperation.insert.injEq, ne_eq, hsame, not_false_eq_true, and_true]
      constructor
      · exact .inr
      · rintro (⟨rfl, rfl⟩ | hget)
        · exact absurd rfl hsame
        · exact hget
  | get other => simp [perform, StoreCall.spares]
  | delete other =>
    unfold perform StoreCall.spares
    dsimp only
    by_cases hsame : other = id
    · subst hsame
      rw [get_delete_self]
      simp
    · rw [get_delete_of_ne _ (Ne.symm hsame)]
      simp [hsame]
  | gc =>
    unfold perform StoreCall.spares
    dsimp only
    rw [get_gc, Option.filter_eq_some_iff]
    simp

/-- The session was the last to be inserted under its id, and `rest` came after it. -/
def LastInserted (history : List StoreCall) (sess : Session) (rest : List StoreCall) : Prop :=
  ∃ before now, history = before ++ ⟨now, .insert sess⟩ :: rest ∧
    ∀ call ∈ rest, ∀ other, call.op = .insert other → other.id ≠ sess.id

/-- Since it was inserted, the session was not deleted, and no collection came when it had
outlived its lifetime. -/
def Lasts (maxLifetime : Nat) (history : List StoreCall) (sess : Session) : Prop :=
  ∃ rest, LastInserted history sess rest ∧ (∀ call ∈ rest, call.op ≠ .delete sess.id) ∧
    ∀ call ∈ rest, call.op = .gc → elapsed call.now sess.createdAt ≤ maxLifetime

theorem StoreCall.spares_iff {maxLifetime : Nat} {sess : Session} {call : StoreCall} :
    call.spares maxLifetime sess.id sess ↔
      (∀ other, call.op = .insert other → other.id ≠ sess.id) ∧ call.op ≠ .delete sess.id ∧
        (call.op = .gc → elapsed call.now sess.createdAt ≤ maxLifetime) := by
  obtain ⟨now, op⟩ := call
  cases op <;> simp [StoreCall.spares]

theorem lasts_iff {maxLifetime : Nat} {history : List StoreCall} {id : UInt64} {sess : Session} :
    History.Lasts (fun _ call sess => call.op = .insert sess ∧ sess.id = id)
        (fun _ call sess => call.spares maxLifetime id sess) history sess ↔
      sess.id = id ∧ Lasts maxLifetime history sess := by
  rw [History.lasts_iff_forall_mem]
  unfold Lasts LastInserted
  constructor
  · rintro ⟨before, ⟨now, op⟩, rest, hhistory, ⟨rfl, rfl⟩, hspares⟩
    simp only [StoreCall.spares_iff] at hspares
    exact ⟨rfl, rest, ⟨before, now, hhistory, fun call hcall => (hspares call hcall).1⟩,
      fun call hcall => (hspares call hcall).2.1, fun call hcall => (hspares call hcall).2.2⟩
  · rintro ⟨rfl, rest, ⟨before, now, hhistory, hlast⟩, hdelete, hgc⟩
    exact ⟨before, ⟨now, .insert sess⟩, rest, hhistory, ⟨rfl, rfl⟩, fun call hcall =>
      StoreCall.spares_iff.mpr ⟨hlast call hcall, hdelete call hcall, hgc call hcall⟩⟩

namespace SessionStore

theorem get_after_iff (config : SessionConfig) (history : List StoreCall) (id : UInt64)
    (sess : Session) :
    ((new config).after history).get id = some sess ↔
      sess.id = id ∧ Lasts config.maxLifetime history sess := by
  rw [← lasts_iff]
  let holds (past : List StoreCall) (sess : Session) : Prop :=
    ((new config).after past).get id = some sess
  have hnone (sess : Session) : ¬holds [] sess := nofun
  have hstep (past : List StoreCall) (call : StoreCall) (_ : past ++ [call] <+: history)
      (sess : Session) : holds (past ++ [call]) sess ↔ (call.op = .insert sess ∧ sess.id = id) ∨
        (holds past sess ∧ call.spares config.maxLifetime id sess) := by
    have hlast : (new config).after (past ++ [call]) = ((new config).after past).perform call :=
      List.foldl_append
    have hconfig : ((new config).after past).config = config := after_config _ past
    simp only [holds, hlast]
    rw [get_perform_iff, hconfig]
  exact History.holds_iff_lasts hnone hstep sess

/-- The collector keeps the sessions that are not expired, and no others. -/
theorem get_gc_iff (store : SessionStore) (now : Instant) (id : UInt64) (sess : Session) :
    (store.gc now).get id = some sess ↔
      store.get id = some sess ∧ store.isExpired now sess = false := by
  rw [get_gc, Option.filter_eq_some_iff]
  simp [isExpired]

end SessionStore

/-- The id that a call is about; a collection is about all of them. -/
def StoreOperation.id : StoreOperation → Option UInt64
  | .insert sess => some sess.id
  | .get id => some id
  | .delete id => some id
  | .gc => none

theorem SessionStore.get_perform_of_ne (store : SessionStore) {call : StoreCall}
    {id other : UInt64} (hop : call.op.id = some other) (hne : id ≠ other) :
    (store.perform call).get id = store.get id := by
  obtain ⟨now, op⟩ := call
  cases op with
  | insert sess =>
    obtain rfl := Option.some.inj hop
    exact get_insert_of_ne store hne
  | get _ => rfl
  | delete _ =>
    obtain rfl := Option.some.inj hop
    exact get_delete_of_ne store hne
  | gc => cases hop

/-- After any history the store has under an id the session that was last inserted under it,
if it was not deleted since and not collected; the collector takes exactly the expired ones;
and a call about one id changes nothing under another. -/
theorem SessionStore.timed_map (config : SessionConfig) (history : List StoreCall) :
    let store := (new config).after history
    (∀ id sess, store.get id = some sess ↔
      sess.id = id ∧ Lasts config.maxLifetime history sess) ∧
    (∀ now id sess, (store.gc now).get id = some sess ↔
      store.get id = some sess ∧ store.isExpired now sess = false) ∧
    ∀ call id other, call.op.id = some other → id ≠ other →
      (store.perform call).get id = store.get id :=
  ⟨get_after_iff config history, get_gc_iff _,
    fun _ _ _ hop hne => get_perform_of_ne _ hop hne⟩

end Hush.Session
