import Mathlib.Data.Finset.Card
import Hush.Server.Isolation

/-! What `SessionStore::len` counts. A connection holds a session from the insertion to the
removal, and a TCP connection whose handler panicked holds its own for good; the store has the
sessions that are held, apart from those that the collector took. -/
namespace Hush.Session.SessionStore

/-- The ids are those of 64 bits. -/
def len (store : SessionStore) : Nat :=
  ((Finset.range (2 ^ 64)).filter fun id => (store.get (.ofNat id)).isSome).card

theorem len_le {store : SessionStore} {ids : List UInt64}
    (h : ∀ id, (store.get id).isSome → id ∈ ids) : store.len ≤ ids.length := by
  have hsub : ((Finset.range (2 ^ 64)).filter fun id => (store.get (.ofNat id)).isSome) ⊆
      (ids.map UInt64.toNat).toFinset := by
    intro id hid
    obtain ⟨hlt, hstored⟩ := Finset.mem_filter.mp hid
    refine List.mem_toFinset.mpr (List.mem_map.mpr ⟨_, h _ hstored, ?_⟩)
    exact UInt64.toNat_ofNat_of_lt' (Finset.mem_range.mp hlt)
  refine (Finset.card_le_card hsub).trans ((List.toFinset_card_le _).trans ?_)
  rw [List.length_map]

theorem le_len {store : SessionStore} {ids : List UInt64} (hnodup : ids.Nodup)
    (h : ∀ id ∈ ids, (store.get id).isSome) : ids.length ≤ store.len := by
  have hsub : (ids.map UInt64.toNat).toFinset ⊆
      ((Finset.range (2 ^ 64)).filter fun id => (store.get (.ofNat id)).isSome) := by
    intro number hnumber
    obtain ⟨id, hid, rfl⟩ := List.mem_map.mp (List.mem_toFinset.mp hnumber)
    refine Finset.mem_filter.mpr ⟨Finset.mem_range.mpr id.toNat_lt, ?_⟩
    rw [UInt64.ofNat_toNat]
    exact h id hid
  have hdistinct : (ids.map UInt64.toNat).Nodup :=
    hnodup.map fun _ _ hsame => UInt64.toNat_inj.mp hsame
  rw [← List.length_map UInt64.toNat, ← List.toFinset_card_of_nodup hdistinct]
  exact Finset.card_le_card hsub

end Hush.Session.SessionStore

namespace Hush.Server

open Hush.Foundation Execution
open Hush.Frame hiding Request
open Hush.Session

variable {σ : Type}

def QuicPhase.holds : QuicPhase → Bool
  | accept _ => true
  | closing _ => true
  | _ => false

def TcpPhase.holds : TcpPhase → Bool
  | loop _ _ => true
  | closing _ => true
  | ended .panicked => true
  | _ => false

namespace Connection

/-- The task has inserted its session and has not removed it. -/
def holds : Connection → Bool
  | .quic _ phase _ => phase.holds
  | .tcp task => task.phase.holds

/-- The session that the connection established has not outlived the lifetime. -/
def young (sh : Shared σ) (conn : Connection) : Bool :=
  conn.log.any fun
    | .established sess => elapsed sh.now sess.createdAt ≤ sh.store.config.maxLifetime
    | _ => false

theorem young_eq_true_iff {sh : Shared σ} {conn : Connection} :
    conn.young sh = true ↔ ∃ sess, .established sess ∈ conn.log ∧
      elapsed sh.now sess.createdAt ≤ sh.store.config.maxLifetime := by
  unfold young
  rw [List.any_eq_true]
  constructor
  · rintro ⟨event, hevent, hyoung⟩
    cases event with
    | established sess => exact ⟨sess, hevent, of_decide_eq_true hyoung⟩
    | _ => cases hyoung
  · rintro ⟨sess, hsess, hyoung⟩
    exact ⟨_, hsess, decide_eq_true hyoung⟩

end Connection

/-- What the store has of a task: its session, if it holds one. -/
def Holding (sid : UInt64) (sh : Shared σ) (conn : Connection) : Prop :=
  if conn.holds then
    ∃ sess : Session, sess.id = sid ∧ .established sess ∈ conn.log ∧ Kept sh sess
  else Vacant sh sid

namespace Holding

variable {srv : Server σ} {sid : UInt64} {sh sh' : Shared σ} {conn conn' : Connection}

theorem env (h : Holding sid sh conn) {action : EnvAction σ} (henv : sh.env sid action = some sh') :
    Holding sid sh' conn := by
  unfold Holding at h ⊢
  split
  · rename_i hholds
    rw [if_pos hholds] at h
    obtain ⟨sess, rfl, hmarked, hkept⟩ := h
    exact ⟨sess, rfl, hmarked, hkept.env henv⟩
  · rename_i hfree
    rw [if_neg hfree] at h
    exact h.env henv

/-- A step that neither takes a session up nor lays one down, and leaves the store as it is. -/
theorem same (h : Holding sid sh conn) (hholds : conn'.holds = conn.holds)
    (hlog : conn.log <+: conn'.log) (hshared : ∃ app, sh' = { sh with app }) :
    Holding sid sh' conn' := by
  obtain ⟨app, rfl⟩ := hshared
  unfold Holding at h ⊢
  rw [hholds]
  split
  · rename_i hheld
    rw [if_pos hheld] at h
    obtain ⟨sess, hid, hmarked, hkept⟩ := h
    exact ⟨sess, hid, hlog.subset hmarked, hkept.app app⟩
  · rename_i hfree
    rw [if_neg hfree] at h
    exact h

theorem quicStep {config : SessionConfig} {inv : Session → StreamTask → Prop} {s s' : Quic σ}
    {action : QuicAction σ} (h : QuicInv inv config sid s ∧ Holding sid s.shared
      (.quic s.chan s.phase s.streams))
    (hstep : Server.quicStep srv sid s action = some s') :
    Holding sid s'.shared (.quic s'.chan s'.phase s'.streams) := by
  obtain ⟨hinv, h⟩ := h
  have hlog := quicStep_log_grows hstep
  cases quicStep_steps hstep with
  | env hsh => exact h.env hsh
  | net hchan => exact h.same rfl hlog ⟨_, rfl⟩
  | refused hphase => exact h.same (congrArg QuicPhase.holds hphase).symm hlog ⟨_, rfl⟩
  | accepted hphase _ => exact h.same (congrArg QuicPhase.holds hphase).symm hlog ⟨_, rfl⟩
  | @inserted est sess _ hsess =>
    obtain rfl := hsess
    refine ⟨_, rfl, ?_, Kept.inserted _ _⟩
    simp [Connection.log, Channel.note]
  | opened hphase => exact h.same rfl hlog ⟨_, rfl⟩
  | lost hphase => exact h.same (congrArg QuicPhase.holds hphase).symm hlog ⟨_, rfl⟩
  | @closed sess hphase =>
    obtain hfresh | ⟨sess', hopen⟩ := hinv
    · have hnone := hfresh.phase
      rw [hphase] at hnone
      exact hnone.elim
    · have hown := hopen.phase
      rw [hphase] at hown
      obtain rfl := hown
      have hid := hopen.id_eq
      dsimp only
      rw [hid]
      exact Vacant.deleted _ _
  | streamNet _ _ => exact h.same rfl hlog ⟨_, rfl⟩
  | stream _ hmoves => exact h.same rfl hlog hmoves.shared_eq

theorem tcpStep {s s' : Tcp σ} {action : TcpAction σ}
    (h : TcpInv sid s ∧ Holding sid s.shared (.tcp s.task))
    (hstep : Server.tcpStep srv sid s action = some s') :
    Holding sid s'.shared (.tcp s'.task) := by
  obtain ⟨hinv, h⟩ := h
  have hlog := tcpStep_log_grows hstep
  cases tcpStep_steps hstep with
  | env hsh => exact h.env hsh
  | net hchan => exact h.same rfl hlog ⟨_, rfl⟩
  | run hmoves =>
    obtain ⟨sh, chan, phase⟩ := s
    cases hmoves with
    | @inserted est sess hsess =>
      obtain rfl := hsess
      refine ⟨_, rfl, ?_, Kept.inserted _ _⟩
      simp [Connection.log, Channel.note]
    | @closed sess =>
      obtain hfresh | ⟨sess', hopen⟩ := hinv
      · exact hfresh.phase.elim
      · obtain ⟨rfl, -⟩ := hopen.phase
        have hid := hopen.id_eq
        dsimp only
        rw [hid]
        exact Vacant.deleted _ _
    | _ => exact h.same rfl hlog ⟨_, rfl⟩

end Holding

/-- A connection establishes no second session. -/
theorem Connection.Viewed.established_eq {srv : Server σ} {sh : Shared σ} {sid : UInt64}
    {conn : Connection} (h : conn.Viewed srv sh sid) {sess sess' : Session}
    (hsess : .established sess ∈ conn.log) (hsess' : .established sess' ∈ conn.log) :
    sess = sess' := by
  cases conn with
  | quic chan phase streams =>
    obtain ⟨start, actions, -, hrun⟩ := h
    exact ((quicOpened_run (streamReads_invariant srv _) hrun hsess').marked sess).mp hsess
  | tcp task =>
    obtain ⟨start, actions, -, hrun⟩ := h
    exact ((tcpOpened_run hrun hsess').marked sess).mp hsess

/-- What a connection's own run says of what it holds. -/
theorem Connection.Viewed.holding {srv : Server σ} {sh : Shared σ} {sid : UInt64}
    {conn : Connection} (h : conn.Viewed srv sh sid) : Holding sid sh conn := by
  cases conn with
  | quic chan phase streams =>
    obtain ⟨start, actions, hvacant, hrun⟩ := h
    let inv (s : Quic σ) : Prop := QuicInv (StreamReads srv) start.store.config sid s ∧
      Holding sid s.shared (.quic s.chan s.phase s.streams)
    have hstep {s s' : Quic σ} {action : QuicAction σ} (h : inv s)
        (hnext : Server.quicStep srv sid s action = some s') : inv s' :=
      ⟨quicInv_step (streamReads_invariant srv _) h.1 hnext, Holding.quicStep h hnext⟩
    have hstart : QuicUnopened start.store.config (quicAccepted start) :=
      ⟨trivial, by simp [quicAccepted, Channel.opened], rfl, rfl⟩
    exact (run_preserves hstep hrun ⟨.inl hstart, hvacant⟩).2
  | tcp task =>
    obtain ⟨start, actions, hvacant, hrun⟩ := h
    let inv (s : Tcp σ) : Prop := TcpInv sid s ∧ Holding sid s.shared (.tcp s.task)
    have hstep {s s' : Tcp σ} {action : TcpAction σ} (h : inv s)
        (hnext : Server.tcpStep srv sid s action = some s') : inv s' :=
      ⟨tcpInv_step h.1 hnext, Holding.tcpStep h hnext⟩
    exact (run_preserves hstep hrun ⟨tcpInv_accepted sid start, hvacant⟩).2

namespace ListenInv

variable {srv : Server σ} {s : Listening σ}

theorem nodup_ids (h : ListenInv srv s) (hbound : s.conns.length < 2 ^ 64) :
    (s.conns.map Prod.fst).Nodup := by
  have hids : s.conns.map Prod.fst = (List.range s.conns.length).map idOf := by
    refine List.ext_getElem (by simp) fun index hindex _ => ?_
    rw [List.length_map] at hindex
    rw [List.getElem_map, List.getElem_map, List.getElem_range]
    exact h.ids index _ _ (List.getElem?_eq_getElem hindex)
  rw [hids]
  refine List.Nodup.map_on ?_ List.nodup_range
  intro i hi j hj
  rw [List.mem_range] at hi hj
  exact idOf_inj (by omega) (by omega)

theorem viewed_of_mem (h : ListenInv srv s) {id : UInt64} {conn : Connection}
    (hconn : (id, conn) ∈ s.conns) : conn.Viewed srv s.shared id := by
  obtain ⟨index, hindex⟩ := List.getElem?_of_mem hconn
  exact h.viewed index id conn hindex

/-- A stored session is held by its connection. -/
theorem holds_of_stored (h : ListenInv srv s) {id : UInt64}
    (hstored : (s.shared.store.get id).isSome) :
    id ∈ (s.conns.filter fun conn => conn.2.holds).map Prod.fst := by
  obtain ⟨sess, hget⟩ := Option.isSome_iff_exists.mp hstored
  obtain ⟨index, conn, hconn, -⟩ := h.stored id sess hget
  have hholding := (h.viewed index id conn hconn).holding
  have hholds : conn.holds = true := by
    by_contra hfree
    unfold Holding at hholding
    rw [if_neg hfree] at hholding
    cases hget.symm.trans hholding
  exact List.mem_map.mpr
    ⟨(id, conn), List.mem_filter.mpr ⟨List.mem_of_getElem? hconn, hholds⟩, rfl⟩

theorem len_le (h : ListenInv srv s) :
    s.shared.store.len ≤ s.conns.countP fun conn => conn.2.holds := by
  rw [List.countP_eq_length_filter, ← List.length_map Prod.fst]
  exact SessionStore.len_le fun id hstored => h.holds_of_stored hstored

/-- A session that is held is stored for its lifetime. -/
theorem stored_of_holds (h : ListenInv srv s) {id : UInt64} {conn : Connection}
    (hconn : (id, conn) ∈ s.conns) (hholds : conn.holds = true)
    (hyoung : conn.young s.shared = true) : (s.shared.store.get id).isSome := by
  have hview := h.viewed_of_mem hconn
  have hholding := hview.holding
  unfold Holding at hholding
  rw [if_pos hholds] at hholding
  obtain ⟨sess, rfl, hmarked, hkept⟩ := hholding
  obtain ⟨sess', hmarked', hage⟩ := Connection.young_eq_true_iff.mp hyoung
  obtain rfl := hview.established_eq hmarked' hmarked
  exact Option.isSome_of_eq_some (hkept.live hage)

end ListenInv

/-- In every state that a server with fewer than 2^64 connections reaches the store has at most
one session for each connection that holds one, and at least one for each of these whose session
has not outlived the lifetime. -/
theorem store_len_bounds (srv : Server σ) (now : Instant) (config : SessionConfig) (app : σ)
    (actions : List (ListenAction σ)) (s : Listening σ)
    (hrun : run (listenStep srv) (serverStarted now config app) actions = some s)
    (hbound : s.conns.length < 2 ^ 64) :
    s.conns.countP (fun conn => conn.2.holds && conn.2.young s.shared) ≤ s.shared.store.len ∧
      s.shared.store.len ≤ s.conns.countP fun conn => conn.2.holds := by
  have hinv := listenInv_run hrun hbound
  refine ⟨?_, hinv.len_le⟩
  rw [List.countP_eq_length_filter, ← List.length_map Prod.fst]
  refine SessionStore.le_len ((hinv.nodup_ids hbound).sublist
    (List.filter_sublist.map Prod.fst)) ?_
  intro id hid
  obtain ⟨⟨id, conn⟩, hconn, rfl⟩ := List.mem_map.mp hid
  obtain ⟨hmem, hboth⟩ := List.mem_filter.mp hconn
  obtain ⟨hholds, hyoung⟩ := Bool.and_eq_true_iff.mp hboth
  exact hinv.stored_of_holds hmem hholds hyoung

/-- Of two connections one has established its session. -/
theorem store_len_bounds_crossing :
    ∃ s, run (listenStep exampleServer) (serverStarted 0 ⟨100, 100⟩ 0)
        (crossingActions.take 7) = some s ∧ s.shared.store.len = 1 := by
  have hends : (run (listenStep exampleServer) (serverStarted 0 ⟨100, 100⟩ 0)
      (crossingActions.take 7)).map (fun s => (s.conns.length,
        s.conns.countP fun conn => conn.2.holds && conn.2.young s.shared,
        s.conns.countP fun conn => conn.2.holds)) = some (2, 1, 1) := by rfl
  obtain ⟨s, hrun, hs⟩ := Option.map_eq_some_iff.mp hends
  simp only [Prod.mk.injEq] at hs
  obtain ⟨hlength, hyoung, hholds⟩ := hs
  obtain ⟨hleast, hmost⟩ := store_len_bounds exampleServer 0 ⟨100, 100⟩ 0 _ s hrun
    (by rw [hlength]; decide)
  rw [hyoung] at hleast
  rw [hholds] at hmost
  exact ⟨s, hrun, Nat.le_antisymm hmost hleast⟩

end Hush.Server
