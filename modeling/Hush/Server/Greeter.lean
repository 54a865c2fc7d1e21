import Hush.Foundation.Link
import Hush.Server.Derivation

/-! The handshake of a connection's task, whatever the transport: what the task
does to the channel on which the client says hello, and what holds of it in every
run. The task takes part in a link with the client. -/
namespace Hush.Server

open Hush.Foundation Execution Link
open Hush.Frame hiding Request
open Hush.Session

variable {σ : Type}

/-- How far the task has come with the client's hello. -/
inductive Stage where
  | waiting
  | accepted (est : Established)
  | opened
  | refused

/-- What the task does to the channel once its session is open: it reads on,
writes more, and establishes no other session. -/
structure Continued (chan chan' : Channel) : Prop where
  written : chan.send.written <+: chan'.send.written
  recv : chan'.recv.bytes <:+ chan.recv.bytes
  arrived : arrivedBytes chan'.log = arrivedBytes chan.log
  established : ∀ sess, .established sess ∈ chan'.log ↔ .established sess ∈ chan.log

theorem Continued.refl (chan : Channel) : Continued chan chan :=
  ⟨List.prefix_rfl, List.suffix_rfl, rfl, fun _ => Iff.rfl⟩

/-- What a step of the task does to the channel, and what comes of it. -/
inductive GreetMoves (tr : Transport) (keys : ServerKeys) (sid : UInt64) (chan : Channel) :
    Stage → Channel → Stage → Prop where
  | idle {stage : Stage} : GreetMoves tr keys sid chan stage chan stage
  | net {stage : Stage} {now : Instant} {action : NetAction} {chan' : Channel} :
      chan.net now action = some chan' → action.delivered = [] →
        GreetMoves tr keys sid chan stage chan' stage
  | refused {e : ServerError} {send : Sink} :
      handshake tr keys sid chan.recv chan.send = (.error e, send) → e ≠ .io .wouldBlock →
        GreetMoves tr keys sid chan .waiting { chan with send } .refused
  | accepted {est : Established} {recv : Source} {send : Sink} :
      handshake tr keys sid chan.recv chan.send = (.ok (est, recv), send) →
        GreetMoves tr keys sid chan .waiting { chan with recv, send } (.accepted est)
  | inserted {est : Established} {now : Instant} :
      GreetMoves tr keys sid chan (.accepted est)
        (chan.note [.established (.new now sid est.apiKeyId est.sessionKey)]) .opened
  | continued {chan' : Channel} : Continued chan chan' →
      GreetMoves tr keys sid chan .opened chan' .opened

/-- A task that greets the client on one of its channels. -/
structure Greeter (keys : ServerKeys) (sid : UInt64) (T B : Type) where
  tr : Transport
  step : T → B → Option T
  feed : T → List UInt8 → Option T
  chan : T → Channel
  stage : T → Stage
  waits : tr.readError .wouldBlock = .wouldBlock
  moves : ∀ {t b t'}, step t b = some t' →
    GreetMoves tr keys sid (chan t) (stage t) (chan t') (stage t')
  feeds : ∀ {t bytes t'}, feed t bytes = some t' →
    stage t' = stage t ∧ ∃ now, (chan t).net now (.deliver bytes) = some (chan t')
  fed : ∀ {t}, (chan t).recv.ending = .wouldBlock → ∀ bytes, (feed t bytes).isSome
  reads : ∀ {t est recv send}, stage t = .waiting →
    handshake tr keys sid (chan t).recv (chan t).send = (.ok (est, recv), send) →
      ∃ b t', step t b = some t' ∧ stage t' = .accepted est
  inserts : ∀ {t est}, stage t = .accepted est → ∃ b t', step t b = some t' ∧ stage t' = .opened

/-- What the handshake leaves unread, when it reads at all, is the end of what there was. -/
theorem handshake_takes {tr : Transport} {keys : ServerKeys} {sid : UInt64} {recv recv' : Source}
    {send send' : Sink} {est : Established}
    (h : handshake tr keys sid recv send = (.ok (est, recv'), send')) :
    recv'.bytes <:+ recv.bytes ∧ send'.written = send.written ++ helloReply keys sid := by
  obtain ⟨hello, secret, hhello, -⟩ := handshake_ok (congrArg Prod.fst h)
  obtain ⟨wire, hbytes, -⟩ := helloWire_of_readHello hhello
  refine ⟨⟨wire, hbytes.symm⟩, ?_⟩
  unfold handshake at h
  dsimp only at h
  split at h
  · cases h
  · match hwrite : send.writeAll (helloReply keys sid) with
    | (.error e, mid) =>
      rw [hwrite] at h
      cases h
    | (.ok (), mid) =>
      rw [hwrite] at h
      obtain ⟨part, -, hwritten, hall⟩ := Stream.Sink.writeAll_takes hwrite
      obtain ⟨-, rfl⟩ := Prod.mk.inj h
      rw [hwritten, hall rfl]

theorem helloReply_ne_nil (keys : ServerKeys) (sid : UInt64) : helloReply keys sid ≠ [] := by
  apply List.ne_nil_of_length_pos
  simp [helloReply]

theorem GreetMoves.written_grows {tr : Transport} {keys : ServerKeys} {sid : UInt64}
    {chan chan' : Channel} {stage stage' : Stage}
    (h : GreetMoves tr keys sid chan stage chan' stage') :
    chan.send.written <+: chan'.send.written := by
  cases h with
  | idle => exact List.prefix_rfl
  | net hnet _ =>
    rw [(net_delivered hnet).2.2]
  | refused hrefused _ =>
    unfold handshake at hrefused
    dsimp only at hrefused
    split at hrefused
    · obtain ⟨-, rfl⟩ := Prod.mk.inj hrefused
      exact List.prefix_rfl
    · match hwrite : chan.send.writeAll (helloReply keys sid) with
      | (.error e, mid) =>
        rw [hwrite] at hrefused
        obtain ⟨part, -, hwritten, -⟩ := Stream.Sink.writeAll_takes hwrite
        obtain ⟨-, rfl⟩ := Prod.mk.inj hrefused
        exact ⟨part, hwritten.symm⟩
      | (.ok (), mid) =>
        rw [hwrite] at hrefused
        cases hrefused
  | accepted haccepted =>
    dsimp only
    rw [(handshake_takes haccepted).2]
    exact List.prefix_append _ _
  | inserted => exact List.prefix_rfl
  | continued hmore => exact hmore.written

theorem GreetMoves.arrived_eq {tr : Transport} {keys : ServerKeys} {sid : UInt64}
    {chan chan' : Channel} {stage stage' : Stage}
    (h : GreetMoves tr keys sid chan stage chan' stage') :
    arrivedBytes chan'.log = arrivedBytes chan.log := by
  cases h with
  | net hnet hdelivered => rw [(net_delivered hnet).2.1, hdelivered, List.append_nil]
  | inserted =>
    unfold Channel.note
    rw [arrivedBytes_append]
    exact List.append_nil _
  | continued hmore => exact hmore.arrived
  | _ => rfl

/-- The task at its end of the link. -/
def Greeter.party {keys : ServerKeys} {sid : UInt64} {T B : Type} (g : Greeter keys sid T B) :
    Party T B UInt8 where
  step := g.step
  feed := g.feed
  written := fun t => (g.chan t).send.written
  received := fun t => arrivedBytes (g.chan t).log
  written_step := fun h => (g.moves h).written_grows
  received_step := fun h => (g.moves h).arrived_eq
  written_feed := fun h => by
    obtain ⟨-, now, hnet⟩ := g.feeds h
    exact (net_delivered hnet).2.2
  received_feed := fun h => by
    obtain ⟨-, now, hnet⟩ := g.feeds h
    exact (net_delivered hnet).2.1

/-! ### The greeting in every run -/

/-- The bytes that arrived start with a hello that the task has read, and the
server's keys make this key id and this session key of it. -/
def HelloRead (keys : ServerKeys) (chan : Channel) (est : Established) : Prop :=
  ∃ wire hello secret, HelloWire wire hello ∧ wire <+: arrivedBytes chan.log ∧
    wire.length + chan.recv.bytes.length ≤ (arrivedBytes chan.log).length ∧
    selectSecret keys hello = .ok (est.apiKeyId, secret) ∧
    deriveSessionKey keys.exchange
      (sharedSecretStatic keys.exchange keys.serverPriv hello.clientPub) secret =
        .ok est.sessionKey

theorem HelloRead.derived {keys : ServerKeys} {chan : Channel} {est : Established}
    (h : HelloRead keys chan est) : DerivedFrom keys chan.log est.apiKeyId est.sessionKey := by
  obtain ⟨wire, hello, secret, hwire, hprefix, -, hrest⟩ := h
  exact ⟨wire, hello, secret, hwire, hprefix, hrest⟩

/-- A completed handshake on a channel of which nothing was read before. -/
theorem helloRead_of_handshake {tr : Transport} {keys : ServerKeys} {sid : UInt64}
    {chan : Channel} {est : Established} {recv : Source} {send : Sink}
    (hunread : chan.recv.bytes = arrivedBytes chan.log)
    (h : handshake tr keys sid chan.recv chan.send = (.ok (est, recv), send)) :
    HelloRead keys { chan with recv, send } est := by
  obtain ⟨hello, secret, hhello, hsecret, hkey⟩ := handshake_ok (congrArg Prod.fst h)
  obtain ⟨wire, hbytes, hwire⟩ := helloWire_of_readHello hhello
  refine ⟨wire, hello, secret, hwire, ?_, ?_, hsecret, hkey⟩
  · dsimp only
    rw [← hunread, hbytes]
    exact List.prefix_append _ _
  · dsimp only
    rw [← hunread, hbytes, List.length_append]

/-- A handshake fails on what it reads, and then on any sink, or on the write of
its reply. -/
theorem handshake_error {tr : Transport} {keys : ServerKeys} {sid : UInt64} {recv : Source}
    {send send' : Sink} {e : ServerError}
    (h : handshake tr keys sid recv send = (.error e, send')) :
    (send' = send ∧ ∀ sink, (handshake tr keys sid recv sink).1 = .error e) ∨
      (send'.room ≠ none ∧ ∃ result, (handshake tr keys sid recv .vec).1 = .ok result) := by
  unfold handshake at h ⊢
  dsimp only at h ⊢
  split at h
  · obtain ⟨he, rfl⟩ := Prod.mk.inj h
    exact .inl ⟨rfl, fun _ => he⟩
  · rename_i result _
    refine .inr ⟨?_, result, rfl⟩
    unfold Stream.Sink.writeAll at h
    split at h
    · rename_i hwrite
      obtain ⟨-, rfl⟩ := Prod.mk.inj h
      split at hwrite
      · cases hwrite
      · split at hwrite
        · cases hwrite
        · obtain ⟨-, rfl⟩ := Prod.mk.inj hwrite
          simp
    · cases h

theorem HelloRead.mono {keys : ServerKeys} {chan chan' : Channel} {est : Established}
    (h : HelloRead keys chan est) {more : List UInt8}
    (harrived : arrivedBytes chan'.log = arrivedBytes chan.log ++ more)
    (hrecv : chan'.recv.bytes.length ≤ chan.recv.bytes.length + more.length) :
    HelloRead keys chan' est := by
  obtain ⟨wire, hello, secret, hwire, hprefix, hlength, hrest⟩ := h
  refine ⟨wire, hello, secret, hwire, ?_, ?_, hrest⟩
  · rw [harrived]
    exact hprefix.trans (List.prefix_append _ _)
  · rw [harrived, List.length_append]
    omega

/-- Both directions of a channel still work: its end was not reached, and writes
do not fail. Neither comes back once it is lost. -/
def Channel.Sound (chan : Channel) : Prop :=
  chan.recv.ending = .wouldBlock ∧ chan.send.room = none

/-- The task saw bytes that it refused, not that the channel failed. -/
def RefusedBytes (tr : Transport) (keys : ServerKeys) (sid : UInt64) (arrived : List UInt8) : Prop :=
  ∃ seen e, seen <+: arrived ∧ e ≠ .io .wouldBlock ∧
    (handshake tr keys sid ⟨seen, .wouldBlock⟩ .vec).1 = .error e

/-- What holds of the channel on which the client says hello. -/
structure Greeted (tr : Transport) (keys : ServerKeys) (sid : UInt64) (chan : Channel)
    (stage : Stage) : Prop where
  established : ∀ sess, .established sess ∈ chan.log → sess.id = sid ∧
    HelloRead keys chan ⟨sess.apiKeyId, sess.key⟩ ∧ helloReply keys sid <+: chan.send.written
  written : chan.send.written = [] ∨
    ∃ apiKeyId sessionKey, DerivedFrom keys chan.log apiKeyId sessionKey
  stage : match stage with
    | .waiting => chan.recv.bytes = arrivedBytes chan.log ∧ chan.send.written = []
    | .accepted est => HelloRead keys chan est ∧ helloReply keys sid <+: chan.send.written
    | .opened => ∃ sess, .established sess ∈ chan.log
    | .refused => chan.Sound → RefusedBytes tr keys sid (arrivedBytes chan.log)

theorem Channel.Sound.net {chan chan' : Channel} {now : Instant} {action : NetAction}
    (h : chan.net now action = some chan') (hsound : chan'.Sound) : chan.Sound := by
  unfold Channel.net at h
  cases action with
  | deliver bytes =>
    dsimp only at h
    split at h
    · obtain rfl := Option.some.inj h
      exact hsound
    · cases h
  | hangup kind =>
    dsimp only at h
    split at h
    · rename_i hend
      obtain rfl := Option.some.inj h
      exact absurd hsound.1 hend.2
    · cases h
  | limit room kind =>
    obtain rfl := Option.some.inj h
    cases hsound.2

theorem greeted_net {tr : Transport} {keys : ServerKeys} {sid : UInt64} {chan chan' : Channel}
    {stage : Stage} {now : Instant} {action : NetAction} (hgreeted : Greeted tr keys sid chan stage)
    (h : chan.net now action = some chan') : Greeted tr keys sid chan' stage := by
  obtain ⟨hrecv, harrived, hwritten⟩ := net_delivered h
  obtain ⟨events, hlog, harrival⟩ := net_log h
  have hlength : chan'.recv.bytes.length ≤ chan.recv.bytes.length + action.delivered.length := by
    rw [hrecv, List.length_append]
  have hread {est : Established} (hest : HelloRead keys chan est) : HelloRead keys chan' est :=
    hest.mono harrived hlength
  have hestablished (sess : Session) (hin : .established sess ∈ chan'.log) :
      .established sess ∈ chan.log := by
    rw [hlog] at hin
    obtain hold | hnew := List.mem_append.mp hin
    · exact hold
    · exact absurd rfl (not_established_of_isArrival (harrival _ hnew) sess)
  constructor
  · intro sess hin
    obtain ⟨hid, hest, hreply⟩ := hgreeted.established sess (hestablished sess hin)
    exact ⟨hid, hread hest, by rwa [hwritten]⟩
  · rw [hwritten]
    apply hgreeted.written.imp_right
    rintro ⟨apiKeyId, sessionKey, hderived⟩
    exact ⟨apiKeyId, sessionKey, hderived.mono (net_log_grows h)⟩
  · have hstage := hgreeted.stage
    cases stage with
    | waiting => exact ⟨by rw [hrecv, harrived, hstage.1], by rw [hwritten, hstage.2]⟩
    | accepted est => exact ⟨hread hstage.1, by rw [hwritten]; exact hstage.2⟩
    | opened =>
      obtain ⟨sess, hin⟩ := hstage
      refine ⟨sess, ?_⟩
      rw [hlog]
      exact List.mem_append_left _ hin
    | refused =>
      intro hsound
      obtain ⟨seen, e, hseen, hrest⟩ := hstage (Channel.Sound.net h hsound)
      refine ⟨seen, e, ?_, hrest⟩
      rw [harrived]
      exact hseen.trans (List.prefix_append _ _)

/-- One case for each thing that the task can do to the channel. -/
theorem GreetMoves.greeted {tr : Transport} {keys : ServerKeys} {sid : UInt64}
    {chan chan' : Channel} {stage stage' : Stage} (hgreeted : Greeted tr keys sid chan stage)
    (h : GreetMoves tr keys sid chan stage chan' stage') : Greeted tr keys sid chan' stage' := by
  have hstage := hgreeted.stage
  cases h with
  | idle => exact hgreeted
  | net hnet _ => exact greeted_net hgreeted hnet
  | @refused e send hrefused hwait =>
    obtain ⟨hunread, hempty⟩ := hstage
    have hnone (sess : Session) : .established sess ∉ chan.log := by
      intro hin
      obtain ⟨-, -, hreply⟩ := hgreeted.established sess hin
      rw [hempty, List.prefix_nil] at hreply
      exact helloReply_ne_nil keys sid hreply
    refine ⟨fun sess hin => absurd hin (hnone sess), ?_, ?_⟩
    · obtain ⟨rfl, -⟩ | ⟨-, result, hok⟩ := handshake_error hrefused
      · exact .inl hempty
      · right
        obtain ⟨est, recv⟩ := result
        obtain ⟨hello, secret, hhello, hsecret, hkey⟩ := handshake_ok hok
        obtain ⟨wire, hbytes, hwire⟩ := helloWire_of_readHello hhello
        refine ⟨_, _, wire, hello, secret, hwire, ⟨recv.bytes, ?_⟩, hsecret, hkey⟩
        dsimp only
        rw [← hunread, hbytes]
    · intro hsound
      obtain ⟨rfl, hany⟩ | ⟨hroom, -⟩ := handshake_error hrefused
      · refine ⟨arrivedBytes chan.log, e, List.prefix_rfl, hwait, ?_⟩
        have hrecv : chan.recv = ⟨arrivedBytes chan.log, .wouldBlock⟩ := by
          rw [← hunread, ← hsound.1]
        rw [← hrecv]
        exact hany .vec
      · exact absurd hsound.2 hroom
  | @accepted est recv send haccepted =>
    obtain ⟨hunread, hempty⟩ := hstage
    have hread := helloRead_of_handshake hunread haccepted
    have hwritten := (handshake_takes haccepted).2
    rw [hempty, List.nil_append] at hwritten
    refine ⟨?_, .inr ⟨_, _, hread.derived⟩, hread, ?_⟩
    · intro sess hin
      obtain ⟨-, -, hreply⟩ := hgreeted.established sess hin
      rw [hempty, List.prefix_nil] at hreply
      exact absurd hreply (helloReply_ne_nil keys sid)
    · dsimp only
      rw [hwritten]
  | @inserted est now =>
    obtain ⟨hread, hreply⟩ := hstage
    have harrived : arrivedBytes (chan.note
        [.established (.new now sid est.apiKeyId est.sessionKey)]).log =
          arrivedBytes chan.log ++ [] := by
      unfold Channel.note
      rw [arrivedBytes_append]
      rfl
    have hread' := hread.mono harrived (Nat.le_refl _)
    refine ⟨?_, .inr ⟨_, _, hread'.derived⟩, ?_⟩
    · intro sess hin
      obtain hold | hnew := List.mem_append.mp hin
      · obtain ⟨hid, hest, hold⟩ := hgreeted.established sess hold
        exact ⟨hid, hest.mono harrived (Nat.le_refl _), hold⟩
      · obtain rfl := Event.established.inj (List.mem_singleton.mp hnew)
        exact ⟨rfl, hread', hreply⟩
    · exact ⟨_, List.mem_append_right _ (List.mem_singleton_self _)⟩
  | continued hmore =>
    have harrived : arrivedBytes chan'.log = arrivedBytes chan.log ++ [] := by
      rw [hmore.arrived, List.append_nil]
    have hlength : chan'.recv.bytes.length ≤ chan.recv.bytes.length + ([] : List UInt8).length :=
      hmore.recv.length_le
    refine ⟨?_, ?_, ?_⟩
    · intro sess hin
      obtain ⟨hid, hest, hreply⟩ :=
        hgreeted.established sess ((hmore.established sess).mp hin)
      exact ⟨hid, hest.mono harrived hlength, hreply.trans hmore.written⟩
    · obtain ⟨sess, hin⟩ := hstage
      obtain ⟨-, hest, -⟩ := hgreeted.established sess hin
      exact .inr ⟨_, _, (hest.mono harrived hlength).derived⟩
    · obtain ⟨sess, hin⟩ := hstage
      exact ⟨sess, (hmore.established sess).mpr hin⟩

end Hush.Server
