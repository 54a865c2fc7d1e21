import Hush.Server.StreamService

/-! The TCP request loop does for a list of requests what request streams do that are served
one at a time. -/
namespace Hush.Server

open Hush.Foundation Execution Cursor
open Hush.Frame hiding Request
open Hush.Session

variable {σ : Type}

/-! ### Streams one at a time -/

/-- A stream for each of the requests: each is opened when the task of the one before it has
ended, its request is sent on it and its task runs to its end. The channels are left so. -/
inductive OneAtATime (srv : Server σ) (sess : Session) :
    Shared σ → List (Ask srv.aead sess.key) → List Channel → Shared σ → Prop where
  | nil {sh : Shared σ} : OneAtATime srv sess sh [] [] sh
  | cons {sh sh' : Shared σ} {ask : Ask srv.aead sess.key} {asks : List (Ask srv.aead sess.key)}
      {actions : List (TcpAction σ)} {s : OneStream σ} {chans : List Channel} :
      fed actions = ask.frame.bytes →
      Along (streamStep srv sess.id) (fun s a => streamUndisturbed sess s a = true)
        (streamOpened sess sh) actions →
      run (streamStep srv sess.id) (streamOpened sess sh) actions = some s →
      s.task.phase = .ended → OneAtATime srv sess s.shared asks chans sh' →
      OneAtATime srv sess sh (ask :: asks) (s.task.chan :: chans) sh'

/-- With its request there and its session alive the task runs to its end, and leaves the
session alive. -/
theorem StreamAt.finishes {srv : Server σ} {sess : Session} {ask : Ask srv.aead sess.key}
    {app₀ : σ} (hsync : SyncOnly srv) (nonce : Nonce) {taken left : Nat} (htaken : taken + left = 6)
    {s : OneStream σ} (h : StreamAt srv sess ask app₀ taken [] s)
    (halive : sessionAlive sess s.shared = true) :
    ∃ s', Execution.run (streamStep srv sess.id) s (List.replicate left (.run nonce)) = some s' ∧
      Along (streamStep srv sess.id) (fun s a => streamUndisturbed sess s a = true) s
        (List.replicate left (.run nonce)) ∧
      s'.task.phase = .ended ∧ sessionAlive sess s'.shared = true := by
  induction left generalizing taken s with
  | zero =>
    obtain rfl : taken = 6 := htaken
    refine ⟨s, rfl, trivial, ?_, halive⟩
    cases h with
    | waiting hphase => cases hphase
    | ended => rfl
  | succ left ih =>
    obtain ⟨mid, hmid, hat⟩ | ⟨-, hended | hmissing⟩ :=
      h.next hsync (fun _ => halive) (fun _ => rfl) nonce
    · obtain ⟨moved, hmoved, rfl⟩ := Option.map_eq_some_iff.mp hmid
      have hstill : sessionAlive sess moved.1 = true := by
        have hmoves := streamRun_moves hmoved
        unfold sessionAlive at halive ⊢
        rwa [hmoves.store_eq, hmoves.now_eq]
      obtain ⟨s', hrun, halong, hphase, halive'⟩ := ih (by omega) hat hstill
      refine ⟨s', run_cons.mpr ⟨_, hmid, hrun⟩, ⟨streamUndisturbed_of_alive rfl halive, ?_⟩,
        hphase, halive'⟩
      intro mid' hmid'
      obtain rfl := Option.some.inj (hmid.symm.trans hmid')
      exact halong
    · omega
    · exact absurd rfl hmissing

namespace OneAtATime

variable {srv : Server σ} {sess : Session} {sh sh' : Shared σ}
  {asks : List (Ask srv.aead sess.key)} {chans : List Channel}

/-- A session that is alive can be served so. -/
theorem of_alive (hsync : SyncOnly srv) (asks : List (Ask srv.aead sess.key))
    (halive : sessionAlive sess sh = true) :
    ∃ chans sh', OneAtATime srv sess sh asks chans sh' := by
  let nonce : Nonce := ⟨List.replicate nonceSize 0, List.length_replicate⟩
  induction asks generalizing sh with
  | nil => exact ⟨[], sh, .nil⟩
  | cons ask rest ih =>
    let start : OneStream σ := ⟨sh, ⟨sess.id, sess.apiKeyId,
      ⟨⟨ask.frame.bytes, .wouldBlock⟩, .vec, [.arrived sh.now ask.frame.bytes]⟩, .fetch⟩⟩
    have hdeliver : streamStep srv sess.id (streamOpened sess sh)
        (.net (.deliver ask.frame.bytes)) = some start := rfl
    have hstart : StreamAt srv sess ask sh.app 0 [] start :=
      .waiting .fetch (.quiet (.start rfl _) rfl rfl) (List.append_nil _)
    obtain ⟨s, hrun, halong, hphase, hstill⟩ := hstart.finishes hsync nonce (Nat.zero_add 6) halive
    obtain ⟨chans, sh', hrest⟩ := ih hstill
    have hbytes : fed (.net (.deliver ask.frame.bytes) ::
        List.replicate 6 (TcpAction.run (σ := σ) nonce)) = ask.frame.bytes := List.append_nil _
    refine ⟨_, sh', .cons hbytes ⟨streamUndisturbed_of_alive rfl halive, ?_⟩
      (run_cons.mpr ⟨_, hdeliver, hrun⟩) hphase hrest⟩
    intro mid hmid
    obtain rfl := Option.some.inj (hdeliver.symm.trans hmid)
    exact halong

/-- The handlers that the streams call, the replies that they write, and the state that they
leave: those of the requests served in their order. -/
theorem serves (hsync : SyncOnly srv) (h : OneAtATime srv sess sh asks chans sh') :
    sh'.app = appAfter srv sess sh.app asks ∧
      chans.flatMap (fun chan => calls chan.log) =
        collect srv sess (callOf srv sess) sh.app asks ∧
      ∃ replies : List (List (UInt32 × Response)),
        replies.flatten = collect srv sess (replyOf srv sess) sh.app asks ∧
        List.Forall₂ (fun chan sent => Concat (IsReply srv.aead sess.key) chan.send.written sent)
          chans replies := by
  induction h with
  | nil => exact ⟨rfl, rfl, [], rfl, .nil⟩
  | @cons sh sh' ask asks actions s chans hbytes halong hrun hphase _ ih =>
    obtain ⟨happ, hcalls, replies, hreplies, hsent⟩ := ih
    have hat := StreamAt.run hsync ((List.append_nil _).trans hbytes) halong hrun fun _ => rfl
    generalize actions.countP TcpAction.isRun = taken at hat
    cases hat with
    | waiting hwaiting =>
      obtain rfl := hphase
      cases hwaiting
    | dispatch => cases hphase
    | @ended _ mid chan hserving =>
      obtain ⟨out, hsend, hout⟩ := hserving.sent
      have hmid : mid.app = (serve srv sess sh.app ask).app := hserving.app_eq
      dsimp only at happ hcalls hreplies ⊢
      rw [hmid] at happ hcalls hreplies
      have hcall : calls chan.log = callOf srv sess sh.app ask :=
        hserving.calls_eq.trans (List.append_nil _)
      refine ⟨happ, ?_, replyOf srv sess sh.app ask :: replies, ?_, .cons ?_ hsent⟩
      · rw [List.flatMap_cons, hcalls, hcall]
        rfl
      · rw [List.flatten_cons, hreplies]
        rfl
      · rw [collect, collect, List.append_nil] at hout
        rwa [hsend]

end OneAtATime

/-! ### The loop and the streams -/

/-- On any bytes that are requests end to end with a tail that begins with none the loop goes
on to its end: it makes the calls that streams make that serve the requests one at a time,
leaves the application state that they leave, writes what decodes to the responses that they
write, calls nothing for the tail and removes the session. -/
theorem tcp_simulates_streams (srv : Server σ) (hlaw : srv.aead.Lawful)
    (hblind : NonceBlind srv.aead) (hsync : SyncOnly srv) (sess : Session)
    (asks : List (Ask srv.aead sess.key)) (tail : List UInt8)
    (htail : Undecodable srv.aead sess.key tail) :
    (∀ sh : Shared σ, sessionAlive sess sh = true →
      ∃ chans sh', OneAtATime srv sess sh asks chans sh') ∧
    ∀ (s s' : Tcp σ) (actions : List (TcpAction σ)),
      s.task.phase = .loop sess .fetch → s.task.chan.send.room = none →
      s.task.chan.recv.bytes ++ fed actions =
        asks.flatMap (fun ask => ask.frame.bytes) ++ tail →
      Along (tcpStep srv sess.id) (fun s a => tcpUndisturbed sess s a = true) s actions →
      run (tcpStep srv sess.id) s actions = some s' →
        actions.countP TcpAction.isRun ≤ 5 * asks.length + 5 ∧
        ((s'.task.chan.recv.ending = .wouldBlock →
            ¬AwaitsBytes srv.aead sess.key ⟨tail, .wouldBlock⟩) →
          ∀ nonce, tcpUndisturbed sess s' (.run nonce) = true →
            (∃ outcome, s'.task.phase = .ended outcome) ∨
              (tcpStep srv sess.id s' (.run nonce)).isSome) ∧
        ∀ outcome, s'.task.phase = .ended outcome →
          outcome = .returned (.ok ()) ∧ s'.shared.store.get sess.id = none ∧
          calls s'.task.chan.log = calls s.task.chan.log ++
            (asks.filter fun ask => (srv.handlers ask.freq.opcode).isSome).map (fun ask =>
              (ask.request, ask.seq)) ∧
          ∃ out, s'.task.chan.send.written = s.task.chan.send.written ++ out ∧
            ∀ sh chans sh', sh.app = s.shared.app → OneAtATime srv sess sh asks chans sh' →
              s'.shared.app = sh'.app ∧
              calls s'.task.chan.log =
                calls s.task.chan.log ++ chans.flatMap (fun chan => calls chan.log) ∧
              ∃ resps : List (List Response),
                Concat (DecodesTo srv.aead sess.key) out resps.flatten ∧
                List.Forall₂ (fun chan sent =>
                  Concat (DecodesTo srv.aead sess.key) chan.send.written sent) chans resps := by
  refine ⟨fun sh halive => OneAtATime.of_alive hsync asks halive, ?_⟩
  intro s s' actions hloop hroom hbytes halong hrun
  have hsend : s.task.chan.send = ⟨s.task.chan.send.written, none⟩ := by rw [← hroom]
  have hat := TcpAt.run hsync htail hloop hsend ((List.append_nil _).trans hbytes) halong hrun
    fun _ => rfl
  refine ⟨hat.taken_le, ?_, ?_⟩
  · intro htold nonce hundisturbed
    obtain ⟨next, hnext, -⟩ | ⟨-, hended | hmissing | hwaits⟩ := hat.next hsync htail
      (fun _ hphase => alive_of_tcpUndisturbed hundisturbed hphase) (fun _ => rfl) nonce
    · exact .inr (Option.isSome_iff_exists.mpr ⟨next, hnext⟩)
    · exact .inl hended
    · exact absurd rfl hmissing
    · have hopen : s'.task.chan.recv.ending = .wouldBlock := hwaits.open
      exact absurd (hopen ▸ hwaits) (htold hopen)
  · intro outcome hended
    generalize actions.countP TcpAction.isRun = taken at hat
    cases hat with
    | waiting | dispatch | closing => cases hended
    | ended _ hserving hvacant =>
      obtain rfl := TcpPhase.ended.inj hended
      obtain ⟨out, hwritten, hout⟩ := hserving.sent
      refine ⟨rfl, hvacant, ?_, out, by rw [hwritten], ?_⟩
      · rw [← collect_callOf hsync s.shared.app]
        exact hserving.calls_eq
      · intro sh₀ chans sh' happ hstreams
        obtain ⟨happ', hcalls, replies, hreplies, hsent⟩ := hstreams.serves hsync
        rw [happ] at happ' hcalls hreplies
        -- A reply decodes to the same on both sides, whatever its nonce.
        choose decoded hdecoded using replyBytes_decodes hlaw hblind sess.key
        refine ⟨hserving.app_eq.trans happ'.symm, hserving.calls_eq.trans (hcalls ▸ rfl),
          replies.map fun sent => sent.flatMap decoded, ?_, ?_⟩
        · have hflat : (replies.map fun sent => sent.flatMap decoded).flatten =
              (collect srv sess (replyOf srv sess) s.shared.app asks).flatMap decoded := by
            rw [← hreplies, List.flatten_eq_flatMap, List.flatten_eq_flatMap, List.flatMap_assoc,
              List.flatMap_map]
            rfl
          rw [hflat]
          exact hout.flatMap fun bytes reply hreply => hdecoded reply bytes hreply
        · rw [List.forall₂_map_right_iff]
          exact hsent.imp fun chan sent h =>
            h.flatMap fun bytes reply hreply => hdecoded reply bytes hreply

/-- A request for the handler of the example server. -/
def countedAsk : Ask exampleServer.aead exampleSession.key where
  frame := ⟨9, List.replicate 12 7 ++ ([0, 5] ++ exampleSession.key.take tagSize)⟩
  freq := ⟨5, none⟩
  seq := 9
  fits := Nat.le_of_ble_eq_true (by rfl)
  decodes := by rfl

/-- A request that the example server has no handler for. -/
def unknownAsk : Ask exampleServer.aead exampleSession.key where
  frame := ⟨10, List.replicate 12 7 ++ ([0, 6] ++ exampleSession.key.take tagSize)⟩
  freq := ⟨6, none⟩
  seq := 10
  fits := Nat.le_of_ble_eq_true (by rfl)
  decodes := by rfl

theorem exampleServer_syncOnly : SyncOnly exampleServer := by
  intro opcode kind h
  obtain ⟨-, hkind⟩ := Option.ite_none_right_eq_some.mp h
  obtain rfl := Option.some.inj hkind
  exact ⟨_, rfl, fun req app => ⟨_, _, rfl⟩⟩

/-- Both requests arrive at once; after them the client closes. -/
def simulatedActions : List (TcpAction Nat) :=
  .net (.deliver (countedAsk.frame.bytes ++ unknownAsk.frame.bytes)) ::
    (List.replicate 10 (.run exampleNonce) ++
      .net (.hangup .unexpectedEof) :: List.replicate 5 (.run exampleNonce))

/-- The one handler is called once, for the first of the requests, over TCP as on streams. -/
theorem tcp_simulates_streams_closed :
    ∃ s' chans sh',
      run (tcpStep exampleServer 1) ⟨waitingShared, ⟨.opened, .loop exampleSession .fetch⟩⟩
        simulatedActions = some s' ∧
      OneAtATime exampleServer exampleSession waitingShared [countedAsk, unknownAsk] chans sh' ∧
      s'.task.phase = .ended (.returned (.ok ())) ∧ s'.shared.store.get 1 = none ∧
      calls s'.task.chan.log = [(countedAsk.request, 9)] ∧
      chans.flatMap (fun chan => calls chan.log) = [(countedAsk.request, 9)] ∧
      s'.shared.app = 1 ∧ sh'.app = 1 ∧
      ∃ resps : List (List Response),
        Concat (DecodesTo keyTagAead exampleSession.key) s'.task.chan.send.written
          resps.flatten ∧
        List.Forall₂ (fun chan sent =>
          Concat (DecodesTo keyTagAead exampleSession.key) chan.send.written sent) chans resps := by
  obtain ⟨hstreams, htcp⟩ := tcp_simulates_streams exampleServer keyTagAead_lawful
    (fun _ _ => rfl) exampleServer_syncOnly exampleSession [countedAsk, unknownAsk] []
    (undecodable_nil _ _)
  obtain ⟨chans, sh', hserved⟩ := hstreams waitingShared (by rfl)
  obtain ⟨s', hrun, hphase, happ⟩ : ∃ s', run (tcpStep exampleServer 1)
      ⟨waitingShared, ⟨.opened, .loop exampleSession .fetch⟩⟩ simulatedActions = some s' ∧
      s'.task.phase = .ended (.returned (.ok ())) ∧ s'.shared.app = 1 := ⟨_, by rfl, by rfl, by rfl⟩
  obtain ⟨-, -, hended⟩ := htcp _ s' simulatedActions rfl rfl (by rfl) (of_decide_eq_true (by rfl))
    hrun
  obtain ⟨-, hvacant, hcalls, out, hwritten, hsame⟩ := hended _ hphase
  obtain ⟨happ', hcalls', resps, htcpSent, hsent⟩ := hsame _ _ _ rfl hserved
  have hone : calls s'.task.chan.log = [(countedAsk.request, 9)] := hcalls
  exact ⟨s', chans, sh', hrun, hserved, hphase, hvacant, hone, hcalls'.symm.trans hone, happ,
    happ'.symm.trans happ, resps, hwritten ▸ htcpSent, hsent⟩

end Hush.Server
