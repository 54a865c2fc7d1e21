import Hush.Server.Replay

/-! Where a session comes from: the key and the key id of every session that a
connection establishes are derived from the hello that its bytes start with. -/
namespace Hush.Server

open Hush.Foundation Execution
open Hush.Frame hiding Request
open Hush.Session

variable {σ : Type}

/-- The bytes that arrived start with a hello, and the server's keys make this
key id and this session key of it. -/
def DerivedFrom (keys : ServerKeys) (log : List Event) (apiKeyId : String)
    (sessionKey : List UInt8) : Prop :=
  ∃ wire hello secret, HelloWire wire hello ∧ wire <+: arrivedBytes log ∧
    selectSecret keys hello = .ok (apiKeyId, secret) ∧
    deriveSessionKey keys.exchange
      (sharedSecretStatic keys.exchange keys.serverPriv hello.clientPub) secret = .ok sessionKey

theorem DerivedFrom.mono {keys : ServerKeys} {log log' : List Event} {apiKeyId : String}
    {sessionKey : List UInt8} (h : DerivedFrom keys log apiKeyId sessionKey)
    (hlog : log <+: log') : DerivedFrom keys log' apiKeyId sessionKey := by
  obtain ⟨wire, hello, secret, hwire, hprefix, hrest⟩ := h
  obtain ⟨events, rfl⟩ := hlog
  refine ⟨wire, hello, secret, hwire, ?_, hrest⟩
  rw [arrivedBytes_append]
  exact hprefix.trans (List.prefix_append _ _)

/-- The handshake of a channel of which nothing was read before. -/
theorem handshake_derived {tr : Transport} {keys : ServerKeys} {sid : UInt64} {chan : Channel}
    {est : Established} {recv : Source} {send : Sink}
    (hunread : chan.recv.bytes = arrivedBytes chan.log)
    (h : handshake tr keys sid chan.recv chan.send = (.ok (est, recv), send)) :
    DerivedFrom keys chan.log est.apiKeyId est.sessionKey := by
  obtain ⟨hello, secret, hhello, hsecret, hkey⟩ := handshake_ok (congrArg Prod.fst h)
  obtain ⟨wire, hbytes, hwire⟩ := helloWire_of_readHello hhello
  refine ⟨wire, hello, secret, hwire, ?_, hsecret, hkey⟩
  rw [← hunread, hbytes]
  exact List.prefix_append _ _

theorem net_log_grows {chan chan' : Channel} {now : Instant} {action : NetAction}
    (h : chan.net now action = some chan') : chan.log <+: chan'.log := by
  obtain ⟨events, hlog, -⟩ := net_log h
  rw [hlog]
  exact List.prefix_append _ _

/-- The network keeps what is unread in step with what arrived. -/
theorem net_unread {chan chan' : Channel} {now : Instant} {action : NetAction}
    (hunread : chan.recv.bytes = arrivedBytes chan.log) (h : chan.net now action = some chan') :
    chan'.recv.bytes = arrivedBytes chan'.log := by
  obtain ⟨events, hlog, -, -, hrecv⟩ := net_reads h
  rw [hlog, hrecv, arrivedBytes_append, hunread]

/-! ### TCP -/

theorem TcpMoves.log_grows {srv : Server σ} {sid : UInt64} {sh sh' : Shared σ} {chan : Channel}
    {phase : TcpPhase} {task' : TcpTask} (h : TcpMoves srv sid sh chan phase sh' task') :
    chan.log <+: task'.chan.log := by
  cases h with
  | expired _ => exact (List.prefix_append _ _).trans (List.prefix_append _ _)
  | answered _ _ => exact (List.prefix_append _ _).trans (List.prefix_append _ _)
  | refused => exact List.prefix_rfl
  | accepted => exact List.prefix_rfl
  | fetched => exact List.prefix_rfl
  | touched => exact List.prefix_rfl
  | closed => exact List.prefix_rfl
  | _ => exact List.prefix_append _ _

theorem tcpStep_log_grows {srv : Server σ} {sid : UInt64} {s s' : Tcp σ} {action : TcpAction σ}
    (h : tcpStep srv sid s action = some s') : s.task.chan.log <+: s'.task.chan.log := by
  cases tcpStep_steps h with
  | env _ => exact List.prefix_rfl
  | net hchan => exact net_log_grows hchan
  | run hmoves => exact hmoves.log_grows

/-- What the task's phase says of where its session comes from. -/
def TcpPhase.Derived (keys : ServerKeys) (chan : Channel) : TcpPhase → Prop
  | .handshake => chan.recv.bytes = arrivedBytes chan.log
  | .insert est => DerivedFrom keys chan.log est.apiKeyId est.sessionKey
  | .loop sess _ => DerivedFrom keys chan.log sess.apiKeyId sess.key
  | _ => True

theorem TcpUnopened.derived {srv : Server σ} {sid : UInt64} {s s' : Tcp σ} {action : TcpAction σ}
    (hfresh : TcpUnopened s) (hderived : s.task.phase.Derived srv.keys s.task.chan)
    (h : tcpStep srv sid s action = some s') : s'.task.phase.Derived srv.keys s'.task.chan := by
  obtain ⟨sh, chan, phase⟩ := s
  have hphase := hfresh.phase
  cases tcpStep_steps h with
  | env _ => exact hderived
  | net hchan =>
    cases phase with
    | handshake => exact net_unread hderived hchan
    | insert est => exact hderived.mono (net_log_grows hchan)
    | loop _ _ => exact hphase.elim
    | closing _ => exact hphase.elim
    | ended _ => trivial
  | run hmoves =>
    cases hmoves with
    | refused => trivial
    | @accepted est _ _ haccepted =>
      have hest : DerivedFrom srv.keys chan.log est.apiKeyId est.sessionKey :=
        handshake_derived hderived haccepted
      exact hest
    | inserted hsess =>
      subst hsess
      exact hderived.mono (List.prefix_append _ _)
    | _ => exact hphase.elim

def TcpDerivedInv (srv : Server σ) (sid : UInt64) (s : Tcp σ) : Prop :=
  TcpUnopened s ∧ s.task.phase.Derived srv.keys s.task.chan ∨
    ∃ sess, TcpOpened sid s sess ∧ DerivedFrom srv.keys s.task.chan.log sess.apiKeyId sess.key

theorem tcpDerivedInv_step {srv : Server σ} {sid : UInt64} {s s' : Tcp σ} {action : TcpAction σ}
    (hinv : TcpDerivedInv srv sid s) (h : tcpStep srv sid s action = some s') :
    TcpDerivedInv srv sid s' := by
  obtain ⟨hfresh, hderived⟩ | ⟨sess, hopen, hderived⟩ := hinv
  · have hderived' := hfresh.derived hderived h
    obtain hfresh' | ⟨sess, hopen, hjust⟩ := hfresh.step h
    · exact .inl ⟨hfresh', hderived'⟩
    · rw [hjust.phase] at hderived'
      exact .inr ⟨sess, hopen, hderived'⟩
  · exact .inr ⟨sess, hopen.step h, hderived.mono (tcpStep_log_grows h)⟩

/-- In every run the session of a TCP connection comes from its hello. -/
theorem tcpDerived_run {srv : Server σ} {sid : UInt64} {sh : Shared σ}
    {actions : List (TcpAction σ)} {s : Tcp σ} {sess : Session}
    (hrun : run (tcpStep srv sid) (tcpAccepted sh) actions = some s)
    (hsess : .established sess ∈ s.task.chan.log) :
    DerivedFrom srv.keys s.task.chan.log sess.apiKeyId sess.key := by
  have hstart : TcpDerivedInv srv sid (tcpAccepted sh) :=
    .inl ⟨⟨trivial, by simp [tcpAccepted, Channel.opened]⟩, rfl⟩
  obtain ⟨hfresh, -⟩ | ⟨sess', hopen, hderived⟩ := run_preserves tcpDerivedInv_step hrun hstart
  · exact (hfresh.log _ hsess).elim
  · obtain rfl := (hopen.marked sess).mp hsess
    exact hderived

/-! ### QUIC -/

theorem quicStep_log_grows {srv : Server σ} {sid : UInt64} {s s' : Quic σ} {action : QuicAction σ}
    (h : quicStep srv sid s action = some s') : s.chan.log <+: s'.chan.log := by
  cases quicStep_steps h with
  | net hchan => exact net_log_grows hchan
  | inserted _ _ => exact List.prefix_append _ _
  | _ => exact List.prefix_rfl

/-- What the connection's phase says of where its session comes from. -/
def QuicPhase.Derived (keys : ServerKeys) (chan : Channel) : QuicPhase → Prop
  | .handshake => chan.recv.bytes = arrivedBytes chan.log
  | .insert est => DerivedFrom keys chan.log est.apiKeyId est.sessionKey
  | .accept sess => DerivedFrom keys chan.log sess.apiKeyId sess.key
  | _ => True

theorem QuicUnopened.derived {srv : Server σ} {config : SessionConfig} {sid : UInt64}
    {s s' : Quic σ} {action : QuicAction σ} (hfresh : QuicUnopened config s)
    (hderived : s.phase.Derived srv.keys s.chan) (h : quicStep srv sid s action = some s') :
    s'.phase.Derived srv.keys s'.chan := by
  obtain ⟨sh, chan, phase, streams⟩ := s
  have hphase := hfresh.phase
  cases quicStep_steps h with
  | net hchan =>
    cases phase with
    | handshake => exact net_unread hderived hchan
    | insert est => exact hderived.mono (net_log_grows hchan)
    | accept _ => exact hphase.elim
    | closing _ => exact hphase.elim
    | ended _ => trivial
  | refused _ => trivial
  | @accepted est _ _ heq haccepted =>
    obtain rfl := heq
    have hest : DerivedFrom srv.keys chan.log est.apiKeyId est.sessionKey :=
      handshake_derived hderived haccepted
    exact hest
  | inserted heq hsess =>
    obtain rfl := heq
    subst hsess
    exact hderived.mono (List.prefix_append _ _)
  | lost _ => trivial
  | closed _ => trivial
  | _ => exact hderived

def QuicDerivedInv (srv : Server σ) (config : SessionConfig) (sid : UInt64) (s : Quic σ) : Prop :=
  QuicUnopened config s ∧ s.phase.Derived srv.keys s.chan ∨
    ∃ sess, QuicOpened (StreamReads srv) config sid s sess ∧
      DerivedFrom srv.keys s.chan.log sess.apiKeyId sess.key

theorem quicDerivedInv_step {srv : Server σ} {config : SessionConfig} {sid : UInt64}
    {s s' : Quic σ} {action : QuicAction σ} (hinv : QuicDerivedInv srv config sid s)
    (h : quicStep srv sid s action = some s') : QuicDerivedInv srv config sid s' := by
  obtain ⟨hfresh, hderived⟩ | ⟨sess, hopen, hderived⟩ := hinv
  · have hderived' := hfresh.derived hderived h
    obtain hfresh' | ⟨sess, hopen⟩ := hfresh.step (StreamReads srv) h
    · exact .inl ⟨hfresh', hderived'⟩
    · refine .inr ⟨sess, hopen, ?_⟩
      have hmarked := (hopen.marked sess).mpr rfl
      cases quicStep_steps h with
      | net hchan => exact (net_isArrival hfresh.log hchan _ hmarked).elim
      | inserted _ _ =>
        obtain rfl := hopen.phase
        exact hderived'
      | _ => exact (hfresh.log _ hmarked).elim
  · exact .inr ⟨sess, hopen.step (streamReads_invariant srv _ _) h,
      hderived.mono (quicStep_log_grows h)⟩

/-- In every run the session of a QUIC connection comes from its hello. -/
theorem quicDerived_run {srv : Server σ} {sid : UInt64} {sh : Shared σ}
    {actions : List (QuicAction σ)} {s : Quic σ} {sess : Session}
    (hrun : run (quicStep srv sid) (quicAccepted sh) actions = some s)
    (hsess : .established sess ∈ s.chan.log) :
    DerivedFrom srv.keys s.chan.log sess.apiKeyId sess.key := by
  have hstart : QuicDerivedInv srv sh.store.config sid (quicAccepted sh) :=
    .inl ⟨⟨trivial, by simp [quicAccepted, Channel.opened], rfl, rfl⟩, rfl⟩
  obtain ⟨hfresh, -⟩ | ⟨sess', hopen, hderived⟩ := run_preserves quicDerivedInv_step hrun hstart
  · exact (hfresh.log _ hsess).elim
  · obtain rfl := (hopen.marked sess).mp hsess
    exact hderived

end Hush.Server
