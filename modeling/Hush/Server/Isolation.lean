import Hush.Server.ExpiryGate
import Hush.Server.Listen

/-! Session isolation: in every run of a server the store maps an id to the session
of the one connection that was given it, and no connection touches another's. -/
namespace Hush.Server

open Hush.Foundation Execution
open Hush.Frame hiding Request
open Hush.Session

variable {σ : Type}

/-! ### What a connection's own run says of it -/

namespace Connection

variable {srv : Server σ} {sh : Shared σ} {sid : UInt64} {conn : Connection}

/-- A connection establishes one session, under its id and from its hello. -/
theorem Viewed.established (h : conn.Viewed srv sh sid) {sess : Session}
    (hsess : .established sess ∈ conn.log) :
    sess.id = sid ∧ DerivedFrom srv.keys conn.log sess.apiKeyId sess.key := by
  cases conn with
  | quic chan phase streams =>
    obtain ⟨start, actions, -, hrun⟩ := h
    exact ⟨(quicOpened_run (streamReads_invariant srv _) hrun hsess).id_eq,
      quicDerived_run hrun hsess⟩
  | tcp task =>
    obtain ⟨start, actions, -, hrun⟩ := h
    exact ⟨(tcpOpened_run hrun hsess).id_eq, tcpDerived_run hrun hsess⟩

theorem mem_calls_of_served {serves : UInt16 → Bool} {sess : Session} {keys : List (List UInt8)}
    {front : List UInt8} {log : List Event} {pending : Option Call} {req : Request} {seq : UInt32}
    (h : ServesReads srv serves sess keys front log pending)
    (hcall : (req, seq) ∈ Server.calls log) :
    req.sessionId = sess.id ∧ req.apiKeyId = sess.apiKeyId := by
  have hmem : (req, seq) ∈ (reads log).filterMap (frameCall srv serves sess) := by
    rw [← h.calls_eq]
    exact List.mem_append_left _ hcall
  obtain ⟨⟨key, frame⟩, -, hframe⟩ := List.mem_filterMap.mp hmem
  obtain ⟨freq, -, rfl⟩ := frameCall_eq_some hframe
  exact ⟨rfl, rfl⟩

/-- Every call for the connection's requests is made in the name of its session. -/
theorem Viewed.called (h : conn.Viewed srv sh sid) {req : Request} {seq : UInt32}
    (hcall : (req, seq) ∈ conn.calls) :
    ∃ sess, .established sess ∈ conn.log ∧ req.sessionId = sess.id ∧
      req.apiKeyId = sess.apiKeyId := by
  cases conn with
  | quic chan phase streams =>
    obtain ⟨start, actions, -, hrun⟩ := h
    obtain ⟨task, htask, hmem⟩ := List.mem_flatMap.mp hcall
    have hstart : QuicUnopened start.store.config (quicAccepted start) :=
      ⟨trivial, by simp [quicAccepted, Channel.opened], rfl, rfl⟩
    have hinv : QuicInv (StreamReads srv) start.store.config sid ⟨sh, chan, phase, streams⟩ :=
      run_preserves (quicInv_step (streamReads_invariant srv _)) hrun (.inl hstart)
    obtain hfresh | ⟨sess, hopen⟩ := hinv
    · have hnone : streams = [] := hfresh.streams
      simp [hnone] at htask
    · exact ⟨sess, (hopen.marked sess).mpr rfl,
        mem_calls_of_served (hopen.streams task htask).served hmem⟩
  | tcp task =>
    obtain ⟨start, actions, -, hrun⟩ := h
    have hinv : TcpInv sid ⟨sh, task⟩ :=
      run_preserves tcpInv_step hrun (tcpInv_accepted sid start)
    obtain hfresh | ⟨sess, hopen⟩ := hinv
    · have hnone := (unserved_events fun e he => .inl (hfresh.log e he)).1
      simp only [calls] at hcall
      simp [hnone] at hcall
    · have hsess := (hopen.marked sess).mpr rfl
      obtain ⟨wire, hello, -, hreads⟩ := tcpReads_run hrun hsess
      exact ⟨sess, hsess, mem_calls_of_served hreads.served hcall⟩

end Connection

/-! ### Every run of the server -/

/-- The id of the connection that was accepted as number `index`, from zero on. -/
def idOf (index : Nat) : UInt64 := UInt64.ofNat (index + 1)

/-- Below 2^64 connections no two share an id. -/
theorem idOf_inj {i j : Nat} (hi : i < 2 ^ 64) (hj : j < 2 ^ 64) (h : idOf i = idOf j) : i = j := by
  have hsame := congrArg UInt64.toNat h
  simp only [idOf, UInt64.toNat_ofNat'] at hsame
  omega

structure ListenInv (srv : Server σ) (s : Listening σ) : Prop where
  next : s.nextId = idOf s.conns.length
  ids : ∀ (index : Nat) (sid : UInt64) (conn : Connection),
    s.conns[index]? = some (sid, conn) → sid = idOf index
  viewed : ∀ (index : Nat) (sid : UInt64) (conn : Connection),
    s.conns[index]? = some (sid, conn) → conn.Viewed srv s.shared sid
  stored : ∀ id sess, s.shared.store.get id = some sess → ∃ (index : Nat) (conn : Connection),
    s.conns[index]? = some (id, conn) ∧ .established sess ∈ conn.log

/-- A connection with this id has established its session. -/
def Opened (s : Listening σ) (sid : UInt64) : Prop :=
  ∃ (index : Nat) (conn : Connection) (sess : Session),
    s.conns[index]? = some (sid, conn) ∧ .established sess ∈ conn.log

namespace ListenInv

variable {srv : Server σ} {s s' : Listening σ}

theorem opened_of_get (h : ListenInv srv s) {sid : UInt64} {sess : Session}
    (hget : s.shared.store.get sid = some sess) : Opened s sid := by
  obtain ⟨index, conn, hconn, hmarked⟩ := h.stored sid sess hget
  exact ⟨index, conn, sess, hconn, hmarked⟩

theorem index_inj (h : ListenInv srv s) (hbound : s.conns.length < 2 ^ 64) {i j : Nat}
    {id : UInt64} {conn conn' : Connection} (hi : s.conns[i]? = some (id, conn))
    (hj : s.conns[j]? = some (id, conn')) : i = j := by
  have hlt (k : Nat) (other : Connection) (hk : s.conns[k]? = some (id, other)) : k < 2 ^ 64 := by
    have hlength := (List.getElem?_eq_some_iff.mp hk).1
    omega
  exact idOf_inj (hlt i _ hi) (hlt j _ hj) ((h.ids i _ _ hi).symm.trans (h.ids j _ _ hj))

/-- The next id is not in use. -/
theorem vacant_next (h : ListenInv srv s) (hbound : s.conns.length < 2 ^ 64) :
    Vacant s.shared s.nextId := by
  cases hget : s.shared.store.get s.nextId with
  | none => exact hget
  | some sess =>
    obtain ⟨index, conn, hconn, -⟩ := h.stored _ _ hget
    have hlength := (List.getElem?_eq_some_iff.mp hconn).1
    have hindex := idOf_inj hbound (by omega) (h.next.symm.trans (h.ids _ _ _ hconn))
    omega

theorem not_opened (h : ListenInv srv s) (hbound : s.conns.length < 2 ^ 64) {index : Nat}
    {sid : UInt64} {conn : Connection} (hconn : s.conns[index]? = some (sid, conn))
    (hfresh : ∀ e ∈ conn.log, e.IsArrival) : ¬Opened s sid := by
  rintro ⟨other, conn', sess, hconn', hmarked⟩
  obtain rfl := h.index_inj hbound hconn hconn'
  rw [hconn] at hconn'
  obtain ⟨-, rfl⟩ := Prod.mk.inj (Option.some.inj hconn')
  exact hfresh _ hmarked

/-- A connection that has not spoken of a session has none in the store. -/
theorem vacant_unopened (h : ListenInv srv s) (hbound : s.conns.length < 2 ^ 64) {index : Nat}
    {sid : UInt64} {conn : Connection} (hconn : s.conns[index]? = some (sid, conn))
    (hfresh : ∀ e ∈ conn.log, e.IsArrival) : Vacant s.shared sid := by
  cases hget : s.shared.store.get sid with
  | none => exact hget
  | some sess => exact absurd (h.opened_of_get hget) (h.not_opened hbound hconn hfresh)

theorem accepted (h : ListenInv srv s) (hbound : s.conns.length < 2 ^ 64) {conn : Connection}
    (hview : ∀ sh sid, Vacant sh sid → conn.Viewed srv sh sid) : ListenInv srv (s.accept conn) := by
  have hcases (index : Nat) (sid : UInt64) (other : Connection)
      (hother : (s.accept conn).conns[index]? = some (sid, other)) :
      s.conns[index]? = some (sid, other) ∨
        index = s.conns.length ∧ sid = s.nextId ∧ other = conn := by
    unfold Listening.accept at hother
    rw [List.getElem?_append] at hother
    split at hother
    · exact .inl hother
    · rename_i hlength
      obtain ⟨hlt, heq⟩ := List.getElem?_eq_some_iff.mp hother
      rw [List.length_singleton] at hlt
      simp only [List.getElem_singleton, Prod.mk.injEq] at heq
      exact .inr ⟨by omega, heq.1.symm, heq.2.symm⟩
  constructor
  · simp [Listening.accept, h.next, idOf]
  · intro index sid other hother
    obtain hold | ⟨rfl, rfl, -⟩ := hcases _ _ _ hother
    · exact h.ids _ _ _ hold
    · exact h.next
  · intro index sid other hother
    obtain hold | ⟨-, rfl, rfl⟩ := hcases _ _ _ hother
    · exact h.viewed _ _ _ hold
    · exact hview _ _ (h.vacant_next hbound)
  · intro id sess hget
    obtain ⟨index, other, hother, hmarked⟩ := h.stored _ _ hget
    refine ⟨index, other, ?_, hmarked⟩
    unfold Listening.accept
    rw [List.getElem?_append_left (List.getElem?_eq_some_iff.mp hother).1]
    exact hother

theorem around (h : ListenInv srv s) {sh : Shared σ} {env : EnvAction σ}
    (henv : ∀ own, s.shared.env own env = some sh)
    (hget : ∀ id sess, sh.store.get id = some sess → s.shared.store.get id = some sess) :
    ListenInv srv { s with shared := sh } where
  next := h.next
  ids := h.ids
  viewed := fun index sid conn hconn => (h.viewed index sid conn hconn).env (henv sid)
  stored := fun id sess hstored => h.stored id sess (hget id sess hstored)

/-- A step of one connection is part of its own run and of the environment of
every other. -/
theorem conn (h : ListenInv srv s) (hbound : s.conns.length < 2 ^ 64) {index : Nat} {sid : UInt64}
    {conn conn' : Connection} {sh : Shared σ} (hconn : s.conns[index]? = some (sid, conn))
    (hstep : ConnStep srv sid s.shared conn sh conn') :
    ListenInv srv { s with shared := sh, conns := s.conns.set index (sid, conn') } := by
  have hlt := (List.getElem?_eq_some_iff.mp hconn).1
  have hself : (s.conns.set index (sid, conn'))[index]? = some (sid, conn') := by
    rw [List.getElem?_set_self hlt]
  have hcases (other : Nat) (id : UInt64) (conn₁ : Connection)
      (hother : (s.conns.set index (sid, conn'))[other]? = some (id, conn₁)) :
      other = index ∧ id = sid ∧ conn₁ = conn' ∨ other ≠ index ∧ s.conns[other]? = some (id, conn₁) := by
    by_cases hsame : other = index
    · subst hsame
      rw [hself] at hother
      simp only [Option.some.injEq, Prod.mk.injEq] at hother
      exact .inl ⟨rfl, hother.1.symm, hother.2.symm⟩
    · rw [List.getElem?_set_ne (Ne.symm hsame)] at hother
      exact .inr ⟨hsame, hother⟩
  constructor
  · simpa using h.next
  · intro other id conn₁ hother
    obtain ⟨rfl, rfl, -⟩ | ⟨-, hold⟩ := hcases _ _ _ hother
    · exact h.ids _ _ _ hconn
    · exact h.ids _ _ _ hold
  · intro other id conn₁ hother
    obtain ⟨rfl, rfl, rfl⟩ | ⟨hne, hold⟩ := hcases _ _ _ hother
    · exact hstep.viewed
    · have hid : id ≠ sid := by
        rintro rfl
        exact hne (h.index_inj hbound hold hconn)
      obtain ⟨env, henv⟩ := hstep.effect.env hid
      exact (h.viewed _ _ _ hold).env henv
  · intro id sess hget
    obtain hold | ⟨rfl, -, hmarked⟩ := hstep.effect.get hget
    · obtain ⟨other, conn₁, hother, hmarked⟩ := h.stored _ _ hold
      by_cases hsame : other = index
      · subst hsame
        rw [hconn] at hother
        obtain ⟨rfl, rfl⟩ := Prod.mk.inj (Option.some.inj hother)
        exact ⟨other, conn', hself, hstep.log.subset hmarked⟩
      · refine ⟨other, conn₁, ?_, hmarked⟩
        dsimp only
        rwa [List.getElem?_set_ne (Ne.symm hsame)]
    · exact ⟨index, conn', hself, hmarked⟩

theorem step (h : ListenInv srv s) {action : ListenAction σ} (hbound : s.conns.length < 2 ^ 64)
    (hstep : listenStep srv s action = some s') : ListenInv srv s' := by
  cases listenStep_steps hstep with
  | accepted hview => exact h.accepted hbound hview
  | around env henv hstore =>
    apply h.around henv
    intro id sess hget
    obtain heq | ⟨-, heq⟩ := hstore
    · rwa [heq] at hget
    · rw [heq] at hget
      exact SessionStore.get_gc_eq_some hget
  | conn _ hconn hconnStep => exact h.conn hbound hconn (hconnStep (h.viewed _ _ _ hconn))

end ListenInv

theorem listenStep_length_le {srv : Server σ} {s s' : Listening σ} {action : ListenAction σ}
    (h : listenStep srv s action = some s') : s.conns.length ≤ s'.conns.length := by
  cases listenStep_steps h with
  | accepted _ => simp [Listening.accept]
  | around _ _ _ => exact Nat.le_refl _
  | conn _ _ _ => simp

/-- The invariant rule for runs of fewer than 2^64 connections. -/
theorem ListenInv.run_preserves {srv : Server σ} {inv : Listening σ → Prop}
    (hstep : ∀ {s s' : Listening σ} {action : ListenAction σ}, ListenInv srv s →
      s.conns.length < 2 ^ 64 → inv s → listenStep srv s action = some s' → inv s')
    {s s' : Listening σ} {actions : List (ListenAction σ)} (h : ListenInv srv s)
    (hrun : run (listenStep srv) s actions = some s') (hbound : s'.conns.length < 2 ^ 64)
    (hs : inv s) : ListenInv srv s' ∧ inv s' := by
  let both (s : Listening σ) : Prop := s.conns.length < 2 ^ 64 → ListenInv srv s ∧ inv s
  have hboth {s s' : Listening σ} {action : ListenAction σ} (hs : both s)
      (hnext : listenStep srv s action = some s') : both s' := by
    intro hbound
    have hless := listenStep_length_le hnext
    obtain ⟨hlisten, hs⟩ := hs (by omega)
    exact ⟨hlisten.step (by omega) hnext, hstep hlisten (by omega) hs hnext⟩
  have hreached : both s' := Execution.run_preserves hboth hrun fun _ => ⟨h, hs⟩
  exact hreached hbound

theorem run_length_le {srv : Server σ} {s s' : Listening σ} {actions : List (ListenAction σ)}
    (h : run (listenStep srv) s actions = some s') : s.conns.length ≤ s'.conns.length := by
  let inv (mid : Listening σ) : Prop := s.conns.length ≤ mid.conns.length
  have hstep {mid mid' : Listening σ} {action : ListenAction σ} (hmid : inv mid)
      (h : listenStep srv mid action = some mid') : inv mid' := hmid.trans (listenStep_length_le h)
  exact run_preserves hstep h (Nat.le_refl s.conns.length)

theorem listenInv_run {srv : Server σ} {now : Instant} {config : SessionConfig} {app : σ}
    {actions : List (ListenAction σ)} {s : Listening σ}
    (hrun : run (listenStep srv) (serverStarted now config app) actions = some s)
    (hbound : s.conns.length < 2 ^ 64) : ListenInv srv s := by
  have hstart : ListenInv srv (serverStarted now config app) := by
    constructor
    · rfl
    · simp [serverStarted]
    · simp [serverStarted]
    · simp [serverStarted, SessionStore.new, SessionStore.get]
  let any (_ : Listening σ) : Prop := True
  have hany {s s' : Listening σ} {action : ListenAction σ} (_ : ListenInv srv s)
      (_ : s.conns.length < 2 ^ 64) (_ : any s) (_ : listenStep srv s action = some s') : any s' :=
    trivial
  exact (hstart.run_preserves hany hrun hbound trivial).1

/-! ### A session that has ended does not come back -/

namespace Opened

variable {srv : Server σ} {s s' : Listening σ} {sid : UInt64}

theorem step (h : Opened s sid) (hinv : ListenInv srv s) {action : ListenAction σ}
    (hstep : listenStep srv s action = some s') : Opened s' sid := by
  obtain ⟨index, conn, sess, hconn, hmarked⟩ := h
  have hlt := (List.getElem?_eq_some_iff.mp hconn).1
  cases listenStep_steps hstep with
  | accepted _ => exact ⟨index, conn, sess, (List.getElem?_append_left hlt).trans hconn, hmarked⟩
  | around _ _ _ => exact ⟨index, conn, sess, hconn, hmarked⟩
  | @conn other own conn₁ conn₁' _ _ hother hconnStep =>
    by_cases hsame : other = index
    · subst hsame
      rw [hconn] at hother
      obtain ⟨rfl, rfl⟩ := Prod.mk.inj (Option.some.inj hother)
      have hgrows := (hconnStep (hinv.viewed _ _ _ hconn)).log
      exact ⟨other, conn₁', sess, List.getElem?_set_self hlt, hgrows.subset hmarked⟩
    · exact ⟨index, conn, sess, (List.getElem?_set_ne hsame).trans hconn, hmarked⟩

/-- Only a connection that has not established its session inserts one. -/
theorem vacant_step (h : Opened s sid) (hvacant : Vacant s.shared sid) (hinv : ListenInv srv s)
    (hbound : s.conns.length < 2 ^ 64) {action : ListenAction σ}
    (hstep : listenStep srv s action = some s') : Vacant s'.shared sid := by
  unfold Vacant at hvacant ⊢
  cases listenStep_steps hstep with
  | accepted _ => exact hvacant
  | around _ _ hstore =>
    obtain heq | ⟨-, heq⟩ := hstore
    · rwa [heq]
    · rw [heq, SessionStore.get_gc, hvacant, Option.filter_none]
  | @conn other own _ _ _ _ hother hconnStep =>
    cases (hconnStep (hinv.viewed _ _ _ hother)).effect with
    | app _ => exact hvacant
    | @inserted new hfresh hid _ =>
      have hne : sid ≠ new.id := by
        rintro rfl
        exact hinv.not_opened hbound hother hfresh (hid ▸ h)
      exact (SessionStore.get_insert_of_ne _ hne).trans hvacant
    | deleted => exact SessionStore.get_delete_of_none hvacant own

theorem run (h : Opened s sid) (hinv : ListenInv srv s) {actions : List (ListenAction σ)}
    (hrun : Execution.run (listenStep srv) s actions = some s')
    (hbound : s'.conns.length < 2 ^ 64) : ListenInv srv s' ∧ Opened s' sid := by
  let opened (s : Listening σ) : Prop := Opened s sid
  have hstep {s s' : Listening σ} {action : ListenAction σ} (hinv : ListenInv srv s)
      (_ : s.conns.length < 2 ^ 64) (h : opened s) (hstep : listenStep srv s action = some s') :
      opened s' := h.step hinv hstep
  exact hinv.run_preserves hstep hrun hbound h

theorem vacant_run (h : Opened s sid) (hvacant : Vacant s.shared sid) (hinv : ListenInv srv s)
    {actions : List (ListenAction σ)}
    (hrun : Execution.run (listenStep srv) s actions = some s')
    (hbound : s'.conns.length < 2 ^ 64) : Vacant s'.shared sid := by
  let closed (s : Listening σ) : Prop := Opened s sid ∧ Vacant s.shared sid
  have hstep {s s' : Listening σ} {action : ListenAction σ} (hinv : ListenInv srv s)
      (hbound : s.conns.length < 2 ^ 64) (h : closed s)
      (hstep : listenStep srv s action = some s') : closed s' :=
    ⟨h.1.step hinv hstep, h.1.vacant_step h.2 hinv hbound hstep⟩
  exact (hinv.run_preserves hstep hrun hbound ⟨h, hvacant⟩).2.2

end Opened

/-- What isolation means in one state of the server. -/
structure Isolated (srv : Server σ) (s : Listening σ) : Prop where
  /-- A stored session is that of the one connection with its id. -/
  stored : ∀ id sess, s.shared.store.get id = some sess →
    ∃ (index : Nat) (conn : Connection), s.conns[index]? = some (id, conn) ∧
      (∀ (other : Nat) (conn' : Connection), s.conns[other]? = some (id, conn') → other = index) ∧
      .established sess ∈ conn.log ∧ sess.id = id ∧
      DerivedFrom srv.keys conn.log sess.apiKeyId sess.key
  /-- No step replaces it, and only the collector or its own connection removes it. -/
  kept : ∀ action s', listenStep srv s action = some s' →
    ∀ id sess, s.shared.store.get id = some sess → s'.shared.store.get id = some sess ∨
      s'.shared.store.get id = none ∧ (action = .gc ∨ ∃ (index : Nat) (conn : Connection),
        action.index = some index ∧ s.conns[index]? = some (id, conn))
  /-- A request is dispatched under its connection's id and key id. -/
  dispatched : ∀ (index : Nat) (sid : UInt64) (conn : Connection),
    s.conns[index]? = some (sid, conn) → ∀ req seq, (req, seq) ∈ conn.calls →
      ∃ sess, .established sess ∈ conn.log ∧ DerivedFrom srv.keys conn.log sess.apiKeyId sess.key ∧
        req.sessionId = sid ∧ req.apiKeyId = sess.apiKeyId

/-- A step of a connection, seen from a stored session. -/
theorem ListenInv.kept_conn {srv : Server σ} {s : Listening σ} (h : ListenInv srv s)
    (hbound : s.conns.length < 2 ^ 64) {index : Nat} {sid : UInt64} {conn conn' : Connection}
    {sh : Shared σ} (hconn : s.conns[index]? = some (sid, conn))
    (hstep : ConnStep srv sid s.shared conn sh conn') {id : UInt64} {sess : Session}
    (hget : s.shared.store.get id = some sess) :
    sh.store.get id = some sess ∨ sh.store.get id = none ∧ id = sid := by
  cases hstep.effect with
  | app _ => exact .inl hget
  | @inserted new hfresh hid _ =>
    have hvacant := h.vacant_unopened hbound hconn hfresh
    have hne : id ≠ new.id := by
      rintro rfl
      rw [hid, hvacant] at hget
      cases hget
    dsimp only
    rw [SessionStore.get_insert_of_ne _ hne]
    exact .inl hget
  | deleted =>
    by_cases hsame : id = sid
    · subst hsame
      exact .inr ⟨SessionStore.get_delete_self _ _, rfl⟩
    · dsimp only
      rw [SessionStore.get_delete_of_ne _ hsame]
      exact .inl hget

/-- In every state that a server with fewer than 2^64 connections reaches, its
sessions are isolated from one another. -/
theorem sessions_isolated (srv : Server σ) (now : Instant) (config : SessionConfig) (app : σ)
    (actions : List (ListenAction σ)) (s : Listening σ)
    (hrun : run (listenStep srv) (serverStarted now config app) actions = some s)
    (hbound : s.conns.length < 2 ^ 64) : Isolated srv s := by
  have hinv := listenInv_run hrun hbound
  constructor
  · intro id sess hget
    obtain ⟨index, conn, hconn, hmarked⟩ := hinv.stored id sess hget
    obtain ⟨hid, hderived⟩ := (hinv.viewed _ _ _ hconn).established hmarked
    exact ⟨index, conn, hconn, fun other conn' hother => hinv.index_inj hbound hother hconn,
      hmarked, hid, hderived⟩
  · intro action s' hstep id sess hget
    cases listenStep_steps hstep with
    | accepted _ => exact .inl hget
    | around _ _ hstore =>
      obtain heq | ⟨rfl, heq⟩ := hstore
      · dsimp only
        rw [heq]
        exact .inl hget
      · dsimp only
        rw [heq, SessionStore.get_gc, hget, Option.filter_some]
        split
        · exact .inl rfl
        · exact .inr ⟨rfl, .inl rfl⟩
    | @conn index sid conn _ _ hindex hconn hconnStep =>
      obtain hkept | ⟨hgone, rfl⟩ :=
        hinv.kept_conn hbound hconn (hconnStep (hinv.viewed _ _ _ hconn)) hget
      · exact .inl hkept
      · exact .inr ⟨hgone, .inr ⟨index, conn, hindex, hconn⟩⟩
  · intro index sid conn hconn req seq hcall
    have hview := hinv.viewed _ _ _ hconn
    obtain ⟨sess, hmarked, hsession, hkeyId⟩ := hview.called hcall
    obtain ⟨hid, hderived⟩ := hview.established hmarked
    exact ⟨sess, hmarked, hderived, hsession.trans hid, hkeyId⟩

/-- A TCP and a QUIC connection; the one that was accepted last is first to insert
its session. -/
def crossingActions : List (ListenAction Nat) :=
  [.acceptTcp, .acceptQuic, .tcp 0 (.net (.deliver (anonymousHello 1))),
    .quic 1 (.net (.deliver (anonymousHello 2))), .tcp 0 (.run exampleNonce),
    .quic 1 (.run exampleNonce), .quic 1 (.run exampleNonce), .tcp 0 (.run exampleNonce)]

theorem sessions_isolated_crossing :
    ∃ s, run (listenStep exampleServer) (serverStarted 0 ⟨100, 100⟩ 0) crossingActions = some s ∧
      s.shared.store.get 1 = some (.new 0 1 "" (anonymousSession 1).sessionKey) ∧
      s.shared.store.get 2 = some (.new 0 2 "" (anonymousSession 2).sessionKey) ∧
      Isolated exampleServer s := by
  have hends : (run (listenStep exampleServer) (serverStarted 0 ⟨100, 100⟩ 0) crossingActions).map
      (fun s => (s.conns.length, s.shared.store.get 1, s.shared.store.get 2)) =
        some (2, some (.new 0 1 "" (anonymousSession 1).sessionKey),
          some (.new 0 2 "" (anonymousSession 2).sessionKey)) := by rfl
  obtain ⟨s, hrun, hs⟩ := Option.map_eq_some_iff.mp hends
  simp only [Prod.mk.injEq] at hs
  obtain ⟨hlength, hfirst, hsecond⟩ := hs
  refine ⟨s, hrun, hfirst, hsecond, ?_⟩
  exact sessions_isolated exampleServer 0 ⟨100, 100⟩ 0 crossingActions s hrun (by rw [hlength]; decide)

end Hush.Server
