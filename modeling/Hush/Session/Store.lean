import Mathlib.Data.List.Basic

/-! Sessions and the session store of `session.rs`. An instant is a number of
nanoseconds on the monotonic clock, a hash map the function that looks it up. -/
namespace Hush.Session

set_option linter.dupNamespace false

abbrev Instant := Nat

/-- `Instant::elapsed`, which saturates at zero. -/
def elapsed (now since : Instant) : Nat := now - since

structure Session where
  id : UInt64
  apiKeyId : String
  key : List UInt8
  createdAt : Instant
  lastUsed : Instant
  deriving DecidableEq, Repr

def Session.new (now : Instant) (id : UInt64) (apiKeyId : String) (key : List UInt8) : Session :=
  ⟨id, apiKeyId, key, now, now⟩

def Session.touch (now : Instant) (sess : Session) : Session := { sess with lastUsed := now }

structure SessionConfig where
  idleTimeout : Nat
  maxLifetime : Nat
  deriving DecidableEq, Repr

def defaultIdleTimeout : Nat := 300 * 1000000000

def defaultMaxLifetime : Nat := 86400 * 1000000000

def SessionConfig.default : SessionConfig := ⟨defaultIdleTimeout, defaultMaxLifetime⟩

/-- Zero values are replaced by defaults. -/
def SessionConfig.fill (config : SessionConfig) : SessionConfig where
  idleTimeout := if config.idleTimeout = 0 then defaultIdleTimeout else config.idleTimeout
  maxLifetime := if config.maxLifetime = 0 then defaultMaxLifetime else config.maxLifetime

structure SessionStore where
  config : SessionConfig
  sessions : UInt64 → Option Session

namespace SessionStore

def new (config : SessionConfig) : SessionStore := ⟨config, fun _ => none⟩

def insert (store : SessionStore) (sess : Session) : SessionStore :=
  { store with sessions := fun id => if id = sess.id then some sess else store.sessions id }

/-- A clone of the stored session: changing it changes nothing in the store. -/
def get (store : SessionStore) (id : UInt64) : Option Session := store.sessions id

def delete (store : SessionStore) (id : UInt64) : SessionStore :=
  { store with sessions := fun other => if other = id then none else store.sessions other }

def isExpired (store : SessionStore) (now : Instant) (sess : Session) : Bool :=
  store.config.maxLifetime < elapsed now sess.createdAt

def isIdleDead (store : SessionStore) (now : Instant) (sess : Session) : Bool :=
  store.config.idleTimeout < elapsed now sess.lastUsed

def gc (store : SessionStore) (now : Instant) : SessionStore :=
  { store with sessions := fun id =>
      (store.sessions id).filter fun s => elapsed now s.createdAt ≤ store.config.maxLifetime }

@[simp] theorem get_insert_self (store : SessionStore) (sess : Session) :
    (store.insert sess).get sess.id = some sess := if_pos rfl

theorem get_insert_of_ne (store : SessionStore) {sess : Session} {id : UInt64}
    (h : id ≠ sess.id) : (store.insert sess).get id = store.get id := if_neg h

@[simp] theorem get_delete_self (store : SessionStore) (id : UInt64) :
    (store.delete id).get id = none := if_pos rfl

theorem get_delete_of_ne (store : SessionStore) {id other : UInt64} (h : other ≠ id) :
    (store.delete id).get other = store.get other := if_neg h

theorem get_delete_of_none {store : SessionStore} {id : UInt64} (h : store.get id = none)
    (other : UInt64) : (store.delete other).get id = none := by
  unfold get delete
  dsimp only
  split
  · rfl
  · exact h

theorem get_gc (store : SessionStore) (now : Instant) (id : UInt64) :
    (store.gc now).get id =
      (store.get id).filter fun s => elapsed now s.createdAt ≤ store.config.maxLifetime := rfl

/-- The collector keeps a session that has not outlived its lifetime. -/
theorem get_gc_of_le {store : SessionStore} {now : Instant} {id : UInt64} {sess : Session}
    (hget : store.get id = some sess)
    (hage : elapsed now sess.createdAt ≤ store.config.maxLifetime) :
    (store.gc now).get id = some sess := by
  rw [get_gc, hget, Option.filter_some, if_pos (by simpa using hage)]

theorem get_gc_eq_some {store : SessionStore} {now : Instant} {id : UInt64} {sess : Session}
    (h : (store.gc now).get id = some sess) : store.get id = some sess := by
  rw [get_gc, Option.filter_eq_some_iff] at h
  exact h.1

end SessionStore

end Hush.Session
