import Hush.Client.Handshake

/-! What the client and the server agree on. The handshake of either transport
ends, on both sides, in the session of the id that the client meant; a client
with no such id gets no reply and no session. -/
namespace Hush.Client

open Hush.Foundation BigEndian Execution Link
open Hush.Frame hiding Request Response
open Hush.Session
open Hush.Server (ServerKeys Greeter Greeted Stage HelloRead helloReply Tcp Quic TcpAction QuicAction
  tcpGreeter quicGreeter tcpAccepted quicAccepted)

variable {σ T B : Type} {keys : ServerKeys} {sid : UInt64}

/-- A part of a hello that is not all of it makes the server wait for the rest. -/
theorem readHello_part {tr : Server.Transport} {wire seen : List UInt8} {hello : Server.Hello}
    (hwaits : tr.readError .wouldBlock = .wouldBlock) (h : Server.HelloWire wire hello)
    (hseen : seen <+: wire) (hlength : seen.length < wire.length) :
    Server.readHello tr ⟨seen, .wouldBlock⟩ = .error (.io .wouldBlock) := by
  unfold Server.readHello
  by_cases hheader : seen.length < 2
  · rw [Stream.Source.readExact_of_lt hheader]
    dsimp only
    rw [hwaits]
  · have hsplit {keyLen : UInt16} {body : List UInt8} (hfront : seen <+: u16.toBeBytes keyLen ++ body) :
        ∃ part, seen = u16.toBeBytes keyLen ++ part := by
      have htwo : (u16.toBeBytes keyLen).length ≤ seen.length := by
        rw [u16.length_toBeBytes]
        omega
      obtain ⟨part, hpart⟩ := List.prefix_of_prefix_length_le (List.prefix_append _ body) hfront htwo
      exact ⟨part, hpart.symm⟩
    cases h with
    | anonymous hpub =>
      obtain ⟨part, rfl⟩ := hsplit hseen
      have hpart : part.length < 32 := by
        simp only [List.length_append, u16.length_toBeBytes, hpub] at hlength
        omega
      rw [Stream.Source.readExact_append (u16.length_toBeBytes 0)]
      dsimp only
      rw [u16.fromBeBytes_toBeBytes, if_neg (by decide), if_pos (show UInt16.toNat 0 = 0 from rfl),
        Stream.Source.readExact_of_lt hpart]
      dsimp only
      rw [hwaits]
    | @named keyLen keyId clientPub hne hmax hkeyId hpub =>
      obtain ⟨part, rfl⟩ := hsplit hseen
      have hpart : part.length < keyLen.toNat + 32 := by
        simp only [List.length_append, u16.length_toBeBytes, hkeyId, hpub] at hlength
        omega
      have hzero : keyLen.toNat ≠ 0 := fun hzero => hne (UInt16.toNat_inj.mp hzero)
      rw [Stream.Source.readExact_append (u16.length_toBeBytes keyLen)]
      dsimp only
      rw [u16.fromBeBytes_toBeBytes, if_neg (Nat.not_lt.mpr hmax), if_neg hzero,
        Stream.Source.readExact_of_lt hpart]
      dsimp only
      rw [hwaits]

/-- A hello that the server lets in completes its side of the handshake. -/
theorem handshake_completes {tr : Server.Transport} {wire rest : List UInt8} {hello : Server.Hello}
    {apiKeyId : String} {secret sessionKey : List UInt8} (h : Server.HelloWire wire hello)
    (hsecret : Server.selectSecret keys hello = .ok (apiKeyId, secret))
    (hkey : deriveSessionKey keys.exchange
      (sharedSecretStatic keys.exchange keys.serverPriv hello.clientPub) secret = .ok sessionKey)
    (kind : ErrorKind) {send : Sink} (hroom : send.room = none) :
    Server.handshake tr keys sid ⟨wire ++ rest, kind⟩ send =
      (.ok (⟨apiKeyId, sessionKey⟩, ⟨rest, kind⟩),
        { send with written := send.written ++ helloReply keys sid }) := by
  unfold Server.handshake
  rw [Server.readHello_helloWire h]
  dsimp only [bind, Except.bind]
  rw [hsecret]
  dsimp only
  rw [hkey]
  dsimp only [Except.mapError, pure, Except.pure]
  unfold Stream.Sink.writeAll
  rw [hroom]

/-- What holds in every state of a handshake. -/
structure Shaking (tr : Transport) (d : Dialer) (g : Greeter keys sid T B) (l : Pair Dial T) :
    Prop where
  inOrder : InOrder (dialParty tr d) g.party l
  dialed : Dialed d l.left
  greeted : Greeted g.tr keys sid (g.chan l.right) (g.stage l.right)

/-- The parties before the handshake. -/
structure Meeting (g : Greeter keys sid T B) (l : Pair Dial T) : Prop where
  left : l.left = dialing
  chan : g.chan l.right = .opened
  stage : g.stage l.right = .waiting

/-- Neither connection has failed. -/
def Working (g : Greeter keys sid T B) (l : Pair Dial T) : Prop :=
  l.left.stream.Sound ∧ (g.chan l.right).Sound

theorem dialed_link {tr : Transport} {d : Dialer} {q : Party T B UInt8} {l l' : Pair Dial T}
    {action : LinkAction DialAction B} (hdialed : Dialed d l.left)
    (h : linkStep (dialParty tr d) q l action = some l') : Dialed d l'.left := by
  cases linkStep_steps h with
  | left hleft =>
    dsimp only [dialParty] at hleft
    split at hleft
    · exact dialed_step hdialed hleft
    · cases hleft
  | right _ => exact hdialed
  | @toLeft count left hleft =>
    have hstep : dialStep tr d l.left (.net (.deliver
        (inFlight (q.written l.right) l.left.stream.received count))) = some left := hleft
    exact dialed_step hdialed hstep
  | toRight _ => exact hdialed

theorem shaking_step {tr : Transport} {d : Dialer} {g : Greeter keys sid T B} {l l' : Pair Dial T}
    {action : LinkAction DialAction B} (hinv : Shaking tr d g l)
    (h : linkStep (dialParty tr d) g.party l action = some l') : Shaking tr d g l' := by
  refine ⟨inOrder_step hinv.inOrder h, dialed_link hinv.dialed h, ?_⟩
  cases linkStep_steps h with
  | left _ => exact hinv.greeted
  | right hright => exact (g.moves hright).greeted hinv.greeted
  | toLeft _ => exact hinv.greeted
  | toRight hright =>
    obtain ⟨hsame, now, hnet⟩ := g.feeds hright
    rw [hsame]
    exact Server.greeted_net hinv.greeted hnet

theorem shaking_run {tr : Transport} {d : Dialer} {g : Greeter keys sid T B} {l l' : Pair Dial T}
    {actions : List (LinkAction DialAction B)} (hmeet : Meeting g l)
    (hrun : run (linkStep (dialParty tr d) g.party) l actions = some l') :
    Shaking tr d g l' := by
  refine run_preserves shaking_step hrun ⟨⟨?_, ?_⟩, ?_, ?_⟩
  · simp only [Greeter.party, hmeet.chan]
    exact List.nil_prefix
  · simp only [dialParty, hmeet.left]
    exact List.nil_prefix
  · rw [hmeet.left]
    exact ⟨List.nil_prefix, rfl, rfl⟩
  · rw [hmeet.chan, hmeet.stage]
    exact ⟨by simp [Server.Channel.opened], .inl rfl, rfl, rfl⟩

/-- Both sides hold the same session, of the id that the server assigned and the
key id that the client meant, and each read what the other said to the byte. -/
structure Agreed (serverKeys : ServerKeys) (sid : UInt64) (d : Dialer) (task : Dial)
    (chan : Server.Channel) (client server : Session) : Prop where
  ids : client.id = sid ∧ server.id = sid
  keyIds : client.apiKeyId = d.apiKey.id ∧ server.apiKeyId = d.apiKey.id
  keys : client.key = server.key
  hello : task.stream.send.written = d.hello ∧ Server.arrivedBytes chan.log = d.hello ∧
    chan.recv.bytes = []
  reply : task.stream.taken = helloReply serverKeys sid ∧ task.stream.taken.length = 40

namespace Shaking

variable {tr : Transport} {d : Dialer} {g : Greeter keys sid T B} {l : Pair Dial T}

/-- The bytes that reached the server are the start of the hello. -/
theorem arrived (h : Shaking tr d g l) :
    Server.arrivedBytes (g.chan l.right).log <+: d.hello :=
  h.inOrder.toRight.trans h.dialed.written

/-- A hello that was read to the end is the one that the client meant. -/
theorem said (h : Shaking tr d g l) (hlaw : keys.exchange.Lawful) (hex : d.exchange = keys.exchange)
    (hwelcome : Welcome keys d.apiKey) {est : Server.Established}
    (hread : HelloRead keys (g.chan l.right) est) :
    est.apiKeyId = d.apiKey.id ∧
      deriveSessionKey keys.exchange
        (sharedSecretStatic keys.exchange keys.serverPriv (d.exchange.publicKey d.secret))
          d.keySecret = .ok est.sessionKey ∧
      Server.arrivedBytes (g.chan l.right).log = d.hello ∧ (g.chan l.right).recv.bytes = [] := by
  obtain ⟨wire, hello, secret, hwire, hfront, hlength, hsecret, hkey⟩ := hread
  have hpub : (d.exchange.publicKey d.secret).length = 32 := by
    rw [hex]
    exact hlaw.length_publicKey d.secret
  obtain ⟨rfl, rfl⟩ := helloWire_unique hwire (d.helloWire hpub hwelcome.short)
    (hfront.trans h.arrived) List.prefix_rfl
  have hall : Server.arrivedBytes (g.chan l.right).log = d.hello :=
    h.arrived.eq_of_length_le hfront.length_le
  rw [hwelcome.selectSecret] at hsecret
  obtain ⟨hid, rfl⟩ := Prod.mk.inj (Except.ok.inj hsecret)
  refine ⟨hid.symm, hkey, hall, ?_⟩
  rw [hall] at hlength
  apply List.eq_nil_of_length_eq_zero
  omega

/-- The server does not refuse what it would let in. -/
theorem not_refused (h : Shaking tr d g l) (hlaw : keys.exchange.Lawful) {apiKeyId : String}
    (hadmitted : Admitted keys d apiKeyId) (hsound : (g.chan l.right).Sound) :
    g.stage l.right ≠ .refused := by
  intro hstage
  have hgreeted := h.greeted.stage
  rw [hstage] at hgreeted
  obtain ⟨seen, e, hseen, hwait, hrun⟩ := hgreeted hsound
  obtain ⟨wire, hello, secret, hwire, hfront, hsecret⟩ := hadmitted
  have hseen' := hseen.trans h.arrived
  obtain hlt | hle := Nat.lt_or_ge seen.length wire.length
  · -- not all of the hello has arrived
    have hpart := List.prefix_of_prefix_length_le hseen' hfront hlt.le
    unfold Server.handshake at hrun
    rw [readHello_part g.waits hwire hpart hlt] at hrun
    exact hwait (Except.error.inj hrun).symm
  · obtain ⟨rest, rfl⟩ := List.prefix_of_prefix_length_le hfront hseen' hle
    obtain ⟨key, hkey⟩ := deriveSessionKey_isOk hlaw
      (sharedSecretStatic keys.exchange keys.serverPriv hello.clientPub) secret
    have hdone : Server.handshake g.tr keys sid ⟨wire ++ rest, .wouldBlock⟩ .vec = _ :=
      handshake_completes hwire hsecret hkey .wouldBlock rfl
    rw [hdone] at hrun
    cases hrun

/-- The session is of the key id under which the server let the client in. -/
theorem admitted_apiKeyId (h : Shaking tr d g l) {apiKeyId : String}
    (hadmitted : Admitted keys d apiKeyId) {server : Session}
    (hserver : .established server ∈ (g.chan l.right).log) : server.apiKeyId = apiKeyId := by
  obtain ⟨-, ⟨wire, hello, secret, hwire, hfront, -, hsecret, -⟩, -⟩ :=
    h.greeted.established server hserver
  obtain ⟨wire', hello', secret', hwire', hfront', hsecret'⟩ := hadmitted
  obtain ⟨rfl, rfl⟩ := helloWire_unique hwire hwire' (hfront.trans h.arrived) hfront'
  rw [hsecret] at hsecret'
  exact (Prod.mk.inj (Except.ok.inj hsecret')).1

/-- A client that read 40 bytes read the reply. -/
theorem taken_eq (h : Shaking tr d g l) (hlaw : keys.exchange.Lawful)
    (hreply : helloReply keys sid <+: (g.chan l.right).send.written)
    (htaken : l.left.stream.taken.length = 40) : l.left.stream.taken = helloReply keys sid := by
  have hfront : l.left.stream.taken <+: (g.chan l.right).send.written :=
    (List.prefix_append _ _).trans h.inOrder.toLeft
  have hlength : (helloReply keys sid).length = 40 := by
    rw [helloReply, List.length_append, hlaw.length_publicKey, u64.length_toBeBytes]
    rfl
  exact (List.prefix_of_prefix_length_le hfront hreply (by omega)).eq_of_length (by omega)

/-- What a client makes of the reply. -/
theorem complete_taken (hlaw : keys.exchange.Lawful) (htaken : l.left.stream.taken = helloReply keys sid)
    (now : Instant) : d.complete now l.left.stream.taken =
      (deriveSessionKey d.exchange
        (sharedSecret d.exchange d.secret (keys.exchange.publicKey keys.serverPriv))
          d.keySecret).map (Session.new now sid d.apiKey.id) := by
  rw [htaken]
  exact complete_helloReply now sid (hlaw.length_publicKey _)

theorem agreed (h : Shaking tr d g l) (hlaw : keys.exchange.Lawful)
    (hex : d.exchange = keys.exchange) (hwelcome : Welcome keys d.apiKey) {client server : Session}
    (hclient : l.left.phase = .done (.ok client))
    (hserver : .established server ∈ (g.chan l.right).log) :
    Agreed keys sid d l.left (g.chan l.right) client server := by
  obtain ⟨hid, hread, hreply⟩ := h.greeted.established server hserver
  obtain ⟨hkeyId, hkey, hhello, hunread⟩ := h.said hlaw hex hwelcome hread
  have hphase := h.dialed.phase
  rw [hclient] at hphase
  obtain ⟨hwritten, hlength, now, hcomplete⟩ := hphase
  have htaken := h.taken_eq hlaw hreply hlength
  rw [complete_taken hlaw htaken] at hcomplete
  -- the two sides derive from the same shared secret
  have hshared : sharedSecret d.exchange d.secret (keys.exchange.publicKey keys.serverPriv) =
      sharedSecretStatic keys.exchange keys.serverPriv (d.exchange.publicKey d.secret) := by
    rw [hex]
    exact hlaw.diffieHellman_comm _ _
  rw [hshared, hex] at hcomplete
  rw [hex] at hkey
  rw [hkey] at hcomplete
  obtain rfl := Except.ok.inj hcomplete
  exact ⟨⟨rfl, hid⟩, ⟨rfl, hkeyId⟩, rfl, ⟨hwritten, hhello, hunread⟩, htaken, hlength⟩

/-- A client whose connection works does not fail. -/
theorem not_failed (h : Shaking tr d g l) (hlaw : keys.exchange.Lawful)
    (hex : d.exchange = keys.exchange) (hsound : l.left.stream.Sound) (e : ClientError) :
    l.left.phase ≠ .done (.error e) := by
  intro hdone
  have hphase := h.dialed.phase
  rw [hdone] at hphase
  obtain ⟨-, now, e', hfailed⟩ := hphase hsound
  unfold Dialer.complete at hfailed
  dsimp only [bind, Except.bind] at hfailed
  split at hfailed
  · obtain ⟨key, hkey⟩ := deriveSessionKey_isOk (hex ▸ hlaw)
      (sharedSecret d.exchange d.secret (l.left.stream.taken.take 32)) Server.anonymousSecret
    rw [hkey] at hfailed
    cases hfailed
  · obtain ⟨key, hkey⟩ := deriveSessionKey_isOk (hex ▸ hlaw)
      (sharedSecret d.exchange d.secret (l.left.stream.taken.take 32)) d.apiKey.secret
    rw [hkey] at hfailed
    cases hfailed

/-- A client that the server refuses gets no byte and no session. -/
theorem refuses (h : Shaking tr d g l) (hrefuses : Refuses keys d.apiKey) :
    (g.chan l.right).send.written = [] ∧
      ∀ sess, .established sess ∉ (g.chan l.right).log := by
  have hno (apiKeyId : String) (sessionKey : List UInt8) :
      ¬Server.DerivedFrom keys (g.chan l.right).log apiKeyId sessionKey := by
    rintro ⟨wire, hello, secret, hwire, hfront, hsecret, -⟩
    exact hrefuses.not_admitted apiKeyId
      ⟨wire, hello, secret, hwire, hfront.trans h.arrived, hsecret⟩
  constructor
  · obtain hempty | ⟨apiKeyId, sessionKey, hderived⟩ := h.greeted.written
    · exact hempty
    · exact absurd hderived (hno apiKeyId sessionKey)
  · intro sess hin
    obtain ⟨-, hread, -⟩ := h.greeted.established sess hin
    exact hno _ _ hread.derived

/-! ### Progress -/

/-- The client says hello. -/
theorem greets (h : Shaking tr d g l) (hlaw : keys.exchange.Lawful) (hex : d.exchange = keys.exchange)
    (hworking : Working g l) :
    ∃ l', Reaches (linkStep (dialParty tr d) g.party) l l' ∧ Working g l' ∧
      l'.left.stream.send.written = d.hello := by
  obtain ⟨⟨⟨recv, send, taken⟩, phase⟩, right⟩ := l
  have hphase := h.dialed.phase
  have hfailed := h.not_failed hlaw hex hworking.1
  obtain ⟨⟨hending, hroom⟩, hright⟩ := hworking
  obtain ⟨written, room⟩ := send
  dsimp only at hphase hending hroom hfailed
  subst hroom
  cases phase with
  | hello =>
    obtain ⟨rfl, rfl⟩ := hphase
    exact ⟨⟨⟨⟨recv, ⟨d.hello, none⟩, []⟩, .reply⟩, right⟩,
      .single (show linkStep _ _ _ (.left (.run 0)) = _ from rfl), ⟨⟨hending, rfl⟩, hright⟩, rfl⟩
  | reply => exact ⟨_, .refl _, ⟨⟨hending, rfl⟩, hright⟩, hphase.1⟩
  | done result =>
    cases result with
    | ok sess => exact ⟨_, .refl _, ⟨⟨hending, rfl⟩, hright⟩, hphase.1⟩
    | error e => exact absurd rfl (hfailed e)

/-- All of the hello arrives, and nothing else changes. -/
theorem arrives (h : Shaking tr d g l) (hworking : Working g l) (hsaid : l.left.stream.send.written = d.hello) :
    ∃ l', Reaches (linkStep (dialParty tr d) g.party) l l' ∧ Working g l' ∧ l'.left = l.left ∧
      g.stage l'.right = g.stage l.right ∧
      Server.arrivedBytes (g.chan l'.right).log = d.hello := by
  obtain ⟨right, hfeed⟩ := Option.isSome_iff_exists.mp (g.fed hworking.2.1
    (inFlight l.left.stream.send.written (Server.arrivedBytes (g.chan l.right).log)
      l.left.stream.send.written.length))
  have hstep : linkStep (dialParty tr d) g.party l (.toRight l.left.stream.send.written.length) =
      some { l with right } := by
    have hright : g.party.feed l.right (inFlight ((dialParty tr d).written l.left)
      (g.party.received l.right) l.left.stream.send.written.length) = some right := hfeed
    simp only [linkStep, hright, Option.map_some]
  obtain ⟨hsame, now, hnet⟩ := g.feeds hfeed
  refine ⟨_, .single hstep, ⟨hworking.1, ?_⟩, rfl, hsame, ?_⟩
  · unfold Server.Channel.net at hnet
    dsimp only at hnet
    rw [if_pos hworking.2.1] at hnet
    dsimp only
    rw [← Option.some.inj hnet]
    exact hworking.2
  · dsimp only
    rw [(Server.net_delivered hnet).2.1]
    exact (received_inFlight_all h.inOrder.toRight).trans hsaid

/-- The server completes its side. -/
theorem opens (h : Shaking tr d g l) (hlaw : keys.exchange.Lawful) {apiKeyId : String}
    (hadmitted : Admitted keys d apiKeyId) (hworking : Working g l)
    (hsaid : l.left.stream.send.written = d.hello) :
    ∃ l', Reaches (linkStep (dialParty tr d) g.party) l l' ∧ Working g l' ∧
      l'.left = l.left ∧ g.stage l'.right = .opened := by
  have hinsert {l : Pair Dial T} {est : Server.Established} (hworking : Working g l)
      (hstage : g.stage l.right = .accepted est) :
      ∃ l', Reaches (linkStep (dialParty tr d) g.party) l l' ∧ Working g l' ∧
        l'.left = l.left ∧ g.stage l'.right = .opened := by
    obtain ⟨b, right, hstep, hopened⟩ := g.inserts hstage
    have hmoves := g.moves hstep
    rw [hstage, hopened] at hmoves
    refine ⟨{ l with right }, .single (a := .right b) ?_, ⟨hworking.1, ?_⟩, rfl, hopened⟩
    · have hright : g.party.step l.right b = some right := hstep
      simp only [linkStep, hright, Option.map_some]
    · generalize g.chan right = chan' at hmoves
      cases hmoves with
      | inserted => exact hworking.2
  cases hstage : g.stage l.right with
  | opened => exact ⟨l, .refl l, hworking, rfl, hstage⟩
  | accepted est => exact hinsert hworking hstage
  | refused => exact absurd hstage (h.not_refused hlaw hadmitted hworking.2)
  | waiting =>
    obtain ⟨mid, ⟨actions, hrun⟩, hworking', hleft, hsame, harrived⟩ := h.arrives hworking hsaid
    have hinv := run_preserves shaking_step hrun h
    have hgreeted := hinv.greeted.stage
    rw [hsame, hstage] at hgreeted
    obtain ⟨wire, hello, secret, hwire, ⟨rest, hrest⟩, hsecret⟩ := hadmitted
    obtain ⟨key, hkey⟩ := deriveSessionKey_isOk hlaw
      (sharedSecretStatic keys.exchange keys.serverPriv hello.clientPub) secret
    have hrecv : (g.chan mid.right).recv = ⟨wire ++ rest, .wouldBlock⟩ := by
      rw [hrest, ← harrived, ← hgreeted.1, ← hworking'.2.1]
    have hdone : Server.handshake g.tr keys sid ⟨wire ++ rest, .wouldBlock⟩
        (g.chan mid.right).send = _ :=
      handshake_completes hwire hsecret hkey .wouldBlock hworking'.2.2
    rw [← hrecv] at hdone
    obtain ⟨b, right, hstep, haccepted⟩ := g.reads (hsame.trans hstage) hdone
    have hmoves := g.moves hstep
    rw [hsame, hstage, haccepted] at hmoves
    have hsound : (g.chan right).Sound := by
      generalize g.chan right = chan' at hmoves
      cases hmoves with
      | accepted hrun =>
        rw [hdone] at hrun
        obtain ⟨hresult, rfl⟩ := Prod.mk.inj hrun
        obtain ⟨-, rfl⟩ := Prod.mk.inj (Except.ok.inj hresult)
        exact ⟨rfl, hworking'.2.2⟩
    have hnext : linkStep (dialParty tr d) g.party mid (.right b) = some { mid with right } := by
      have hright : g.party.step mid.right b = some right := hstep
      simp only [linkStep, hright, Option.map_some]
    obtain ⟨l', hreach, hworking'', hleft', hopened⟩ :=
      hinsert (l := { mid with right }) ⟨hworking'.1, hsound⟩ haccepted
    exact ⟨l', .trans ⟨actions, hrun⟩ (.trans (.single hnext) hreach), hworking'',
      hleft'.trans hleft, hopened⟩

/-- The client completes its side. -/
theorem finishes (h : Shaking tr d g l) (hlaw : keys.exchange.Lawful) (hex : d.exchange = keys.exchange)
    (hworking : Working g l) (hsaid : l.left.stream.send.written = d.hello)
    (hopened : g.stage l.right = .opened) :
    ∃ l' client, Reaches (linkStep (dialParty tr d) g.party) l l' ∧ l'.right = l.right ∧
      l'.left.phase = .done (.ok client) := by
  have hgreeted := h.greeted.stage
  rw [hopened] at hgreeted
  obtain ⟨server, hserver⟩ := hgreeted
  obtain ⟨-, -, hreply⟩ := h.greeted.established server hserver
  obtain ⟨⟨⟨recv, send, taken⟩, phase⟩, right⟩ := l
  have hphase := h.dialed.phase
  have hfailed := h.not_failed hlaw hex hworking.1
  have hinOrder := h.inOrder.toLeft
  obtain ⟨⟨hending, hroom⟩, hright⟩ := hworking
  dsimp only at hphase hfailed hending hroom hsaid hreply
  cases phase with
  | hello =>
    have hlength := congrArg List.length (hphase.1.symm.trans hsaid)
    rw [d.hello_eq, List.length_append, u16.length_toBeBytes, List.length_nil] at hlength
    omega
  | done result =>
    cases result with
    | ok client => exact ⟨_, client, .refl _, rfl, rfl⟩
    | error e => exact absurd rfl (hfailed e)
  | reply =>
    obtain ⟨-, rfl⟩ := hphase
    obtain ⟨bytes, ending⟩ := recv
    dsimp only at hending
    subst hending
    have hreceived : bytes <+: (g.chan right).send.written := hinOrder
    have hlength : 40 ≤ (g.chan right).send.written.length := by
      have hle := hreply.length_le
      rw [helloReply, List.length_append, hlaw.length_publicKey, u64.length_toBeBytes] at hle
      exact hle
    -- everything that the server wrote arrives, and the client reads its 40 bytes
    have harrive : linkStep (dialParty tr d) g.party ⟨⟨⟨⟨bytes, .wouldBlock⟩, send, []⟩, .reply⟩, right⟩
        (.toLeft (g.chan right).send.written.length) =
          some ⟨⟨⟨⟨(g.chan right).send.written, .wouldBlock⟩, send, []⟩, .reply⟩, right⟩ := by
      have hall : bytes ++ inFlight (g.chan right).send.written bytes
          (g.chan right).send.written.length = (g.chan right).send.written :=
        received_inFlight_all hreceived
      have hfeed : (dialParty tr d).feed ⟨⟨⟨bytes, .wouldBlock⟩, send, []⟩, .reply⟩
          (inFlight (g.chan right).send.written bytes (g.chan right).send.written.length) =
            some ⟨⟨⟨bytes ++ inFlight (g.chan right).send.written bytes
              (g.chan right).send.written.length, .wouldBlock⟩, send, []⟩, .reply⟩ := rfl
      rw [hall] at hfeed
      have hstep : (dialParty tr d).feed ⟨⟨⟨bytes, .wouldBlock⟩, send, []⟩, .reply⟩
          (inFlight (g.party.written right) ((dialParty tr d).received
            ⟨⟨⟨bytes, .wouldBlock⟩, send, []⟩, .reply⟩) (g.chan right).send.written.length) =
              some ⟨⟨⟨(g.chan right).send.written, .wouldBlock⟩, send, []⟩, .reply⟩ := hfeed
      simp only [linkStep, hstep, Option.map_some]
    have hread : linkStep (dialParty tr d) g.party
        ⟨⟨⟨⟨(g.chan right).send.written, .wouldBlock⟩, send, []⟩, .reply⟩, right⟩ (.left (.run 0)) =
          some ⟨⟨⟨⟨(g.chan right).send.written.drop 40, .wouldBlock⟩, send,
            [] ++ (g.chan right).send.written.take 40⟩,
              .done ((d.complete 0 ((g.chan right).send.written.take 40)).mapError .session)⟩,
            right⟩ := by
      have hexact : Stream.Source.readExact ⟨(g.chan right).send.written, ErrorKind.wouldBlock⟩ 40 =
          .ok ((g.chan right).send.written.take 40,
            ⟨(g.chan right).send.written.drop 40, .wouldBlock⟩) :=
        if_neg (Nat.not_lt.mpr hlength)
      simp [linkStep, dialParty, DialAction.local, dialStep, dialRun, Endpoint.readExact, hexact]
    have hlast := shaking_step (shaking_step h harrive) hread
    have hok := hlast.not_failed hlaw hex ⟨rfl, hroom⟩
    cases hrun : d.complete 0 ((g.chan right).send.written.take 40) with
    | ok client =>
      rw [hrun] at hread
      exact ⟨_, client, .trans (.single harrive) (.single hread), rfl, rfl⟩
    | error e =>
      rw [hrun] at hok
      exact absurd rfl (hok (.session e))

/-- From any state in which the connections work, both sides can complete. -/
theorem completes (h : Shaking tr d g l) (hlaw : keys.exchange.Lawful)
    (hex : d.exchange = keys.exchange) {apiKeyId : String} (hadmitted : Admitted keys d apiKeyId)
    (hworking : Working g l) :
    ∃ l' client server, Reaches (linkStep (dialParty tr d) g.party) l l' ∧
      l'.left.phase = .done (.ok client) ∧ .established server ∈ (g.chan l'.right).log := by
  obtain ⟨said, ⟨xs, hxs⟩, hsaidWorking, hsaid⟩ := h.greets hlaw hex hworking
  have hsaidInv := run_preserves shaking_step hxs h
  obtain ⟨mid, ⟨ys, hys⟩, hmidWorking, hmidLeft, hopened⟩ :=
    hsaidInv.opens hlaw hadmitted hsaidWorking hsaid
  have hmidInv := run_preserves shaking_step hys hsaidInv
  rw [← hmidLeft] at hsaid
  obtain ⟨l', client, hlast, hright, hdone⟩ :=
    hmidInv.finishes hlaw hex hmidWorking hsaid hopened
  have hgreeted := hmidInv.greeted.stage
  rw [hopened] at hgreeted
  obtain ⟨server, hserver⟩ := hgreeted
  exact ⟨l', client, server, .trans ⟨xs, hxs⟩ (.trans ⟨ys, hys⟩ hlast), hdone,
    by rw [hright]; exact hserver⟩

end Shaking

/-! ### The outcome -/

/-- What a state of the handshake says of both sides. -/
structure HandshakeOutcome (tr : Transport) (d : Dialer) (g : Greeter keys sid T B)
    (l : Pair Dial T) : Prop where
  agreed : Welcome keys d.apiKey → ∀ client server, l.left.phase = .done (.ok client) →
    .established server ∈ (g.chan l.right).log → Agreed keys sid d l.left (g.chan l.right) client server
  working : Welcome keys d.apiKey → Working g l →
    (∀ e, l.left.phase ≠ .done (.error e)) ∧ g.stage l.right ≠ .refused ∧
      ∃ l' client server, Reaches (linkStep (dialParty tr d) g.party) l l' ∧
        l'.left.phase = .done (.ok client) ∧ .established server ∈ (g.chan l'.right).log
  turnedAway : TurnedAway keys d.apiKey → (g.chan l.right).send.written = [] ∧
    ∀ sess, .established sess ∉ (g.chan l.right).log

theorem Shaking.outcome {tr : Transport} {d : Dialer} {g : Greeter keys sid T B} {l : Pair Dial T}
    (h : Shaking tr d g l) (hlaw : keys.exchange.Lawful) (hex : d.exchange = keys.exchange)
    (hlength : (Utf8.asBytes d.apiKey.id).length ≤ 65535) : HandshakeOutcome tr d g l := by
  have hpub : (d.exchange.publicKey d.secret).length = 32 := by
    rw [hex]
    exact hlaw.length_publicKey d.secret
  constructor
  · intro hwelcome client server hclient hserver
    exact h.agreed hlaw hex hwelcome hclient hserver
  · intro hwelcome hworking
    have hadmitted := hwelcome.admitted hpub
    exact ⟨h.not_failed hlaw hex hworking.1, h.not_refused hlaw hadmitted hworking.2,
      h.completes hlaw hex hadmitted hworking⟩
  · intro haway
    exact h.refuses (haway.refuses hlength)

/-- In every run of a handshake, over either transport: a welcome client and the
server agree on the session, neither fails while the connection works, and both
can complete; a client that is turned away gets no byte and no session. -/
theorem handshake_outcome (srv : Server.Server σ) (sid : UInt64) (sh : Server.Shared σ) (d : Dialer)
    (hlaw : srv.keys.exchange.Lawful) (hex : d.exchange = srv.keys.exchange)
    (hlength : (Utf8.asBytes d.apiKey.id).length ≤ 65535) :
    (∀ actions l, run (linkStep (dialParty .tcp d) (tcpGreeter srv sid).party)
        ⟨dialing, tcpAccepted sh⟩ actions = some l →
          HandshakeOutcome .tcp d (tcpGreeter srv sid) l) ∧
    (∀ actions l, run (linkStep (dialParty .quic d) (quicGreeter srv sid).party)
        ⟨dialing, quicAccepted sh⟩ actions = some l →
          HandshakeOutcome .quic d (quicGreeter srv sid) l) := by
  constructor
  · intro actions l hrun
    exact (shaking_run ⟨rfl, rfl, rfl⟩ hrun).outcome hlaw hex hlength
  · intro actions l hrun
    exact (shaking_run ⟨rfl, rfl, rfl⟩ hrun).outcome hlaw hex hlength

/-- A stand-in for examples, in which both sides of an exchange get the same secret. -/
def sumExchange : KeyExchange where
  publicKey := fun secret => (secret ++ List.replicate pubKeySize 0).take pubKeySize
  diffieHellman := fun secret pubKey =>
    List.zipWith (· + ·) ((secret ++ List.replicate pubKeySize 0).take pubKeySize) pubKey
  hkdf := Server.exampleKeys.exchange.hkdf

theorem sumExchange_lawful : sumExchange.Lawful where
  length_publicKey := by
    intro secret
    simp [sumExchange]
  diffieHellman_comm := fun a b => List.zipWith_comm_of_comm UInt8.add_comm
  hkdf_isSome := fun _ _ _ => rfl

/-- A server that knows one key. -/
def knowing (id : String) : Server.Server Nat :=
  { Server.exampleServer with
    keys :=
      { exchange := sumExchange
        serverPriv := List.replicate 32 9
        keyStore := fun keyId => if keyId = id then some [1] else none } }

/-- A client that presents it. -/
def presenting (id : String) : Dialer := ⟨sumExchange, ⟨id, [1]⟩, [5]⟩

theorem handshake_outcome_known : ∃ l client server,
    Reaches (linkStep (dialParty .tcp (presenting "a")) (tcpGreeter (knowing "a") 7).party)
      ⟨dialing, tcpAccepted ⟨0, .new ⟨100, 100⟩, 0⟩⟩ l ∧
    Agreed (knowing "a").keys 7 (presenting "a") l.left l.right.task.chan client server := by
  have hall := (handshake_outcome (knowing "a") 7 ⟨0, .new ⟨100, 100⟩, 0⟩ (presenting "a") sumExchange_lawful rfl
    (by decide)).1
  have hwelcome : Welcome (knowing "a").keys (presenting "a").apiKey := .inr ⟨by decide, by decide⟩
  obtain ⟨-, -, l, client, server, ⟨actions, hrun⟩, hclient, hserver⟩ :=
    (hall [] _ rfl).working hwelcome ⟨⟨rfl, rfl⟩, rfl, rfl⟩
  exact ⟨l, client, server, ⟨actions, hrun⟩, (hall actions l hrun).agreed hwelcome client server
    hclient hserver⟩

end Hush.Client
