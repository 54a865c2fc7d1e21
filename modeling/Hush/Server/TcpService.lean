import Hush.Server.Cleanup
import Hush.Server.Rounds
import Hush.Server.Service
import Hush.Server.SyncHandshake

/-! The TCP request loop over a stream of requests: it serves them in their order, one in
each round, and ends at the first bytes that are no request. The bytes may arrive in any
pieces and at any time. -/
namespace Hush.Server

open Hush.Foundation Execution Cursor
open Hush.Frame hiding Request
open Hush.Session

variable {σ : Type}

/-! ### The client and the rest of the server -/

def NetAction.arrival : NetAction → List UInt8
  | .deliver bytes => bytes
  | _ => []

def TcpAction.arrival : TcpAction σ → List UInt8
  | .net action => action.arrival
  | _ => []

/-- The bytes that arrive during the actions. -/
def fed (actions : List (TcpAction σ)) : List UInt8 := actions.flatMap TcpAction.arrival

/-- The server can write, and no other connection touches the application state. -/
def TcpAction.undisturbing : TcpAction σ → Bool
  | .env (.app _) => false
  | .net action => action.keepsWriting
  | _ => true

/-- If what arrives later is all that still arrives after the action, then it was all that
arrived later before it, with the bytes of the action in front. -/
theorem net_later {chan chan' : Channel} {now : Instant} {action : NetAction}
    {later : List UInt8} (hnet : chan.net now action = some chan')
    (hclosed : chan'.recv.ending ≠ .wouldBlock → later = []) :
    (chan.recv.ending ≠ .wouldBlock → action.arrival ++ later = []) ∧
      chan'.recv.bytes ++ later = chan.recv.bytes ++ (action.arrival ++ later) := by
  unfold Channel.net at hnet
  cases action with
  | deliver bytes =>
    obtain ⟨hopen, hsome⟩ := Option.ite_none_right_eq_some.mp hnet
    obtain rfl := Option.some.inj hsome
    exact ⟨fun hend => absurd hopen hend, List.append_assoc _ _ _⟩
  | hangup kind =>
    obtain ⟨⟨hopen, -⟩, hsome⟩ := Option.ite_none_right_eq_some.mp hnet
    obtain rfl := Option.some.inj hsome
    exact ⟨fun hend => absurd hopen hend, rfl⟩
  | limit room kind =>
    obtain rfl := Option.some.inj hnet
    exact ⟨hclosed, rfl⟩

theorem env_app {sh sh' : Shared σ} {own : UInt64} {action : EnvAction σ}
    (h : sh.env own action = some sh') (happ : (TcpAction.env action).undisturbing = true) :
    sh'.app = sh.app := by
  unfold Shared.env at h
  cases action with
  | advance span =>
    obtain rfl := Option.some.inj h
    rfl
  | gc =>
    obtain rfl := Option.some.inj h
    rfl
  | insert other =>
    dsimp only at h
    split at h
    · cases h
    · obtain rfl := Option.some.inj h
      rfl
  | delete id =>
    dsimp only at h
    split at h
    · cases h
    · obtain rfl := Option.some.inj h
      rfl
  | app app => cases happ

/-! ### Reading a request -/

/-- No request begins the bytes: there is no whole frame, or it does not decode. -/
def Undecodable (aead : Aead) (key tail : List UInt8) : Prop :=
  ∀ ask : Ask aead key, ¬ask.frame.bytes <+: tail

theorem undecodable_nil (aead : Aead) (key : List UInt8) : Undecodable aead key [] :=
  fun _ hprefix => Frame.bytes_ne_nil _ (List.prefix_nil.mp hprefix)

/-- The reader waits for the rest of a frame, or for the first byte of one. -/
def AwaitsBytes (aead : Aead) (key : List UInt8) (recv : Source) : Prop :=
  readRequestAsync aead recv (some key) = .error (.frame (.io .wouldBlock))

section Reads

variable {aead : Aead} {key : List UInt8} {recv : Source} {later : List UInt8}

theorem readRequest_bytes (ask : Ask aead key) (rest : List UInt8) (ending : ErrorKind) :
    readRequestAsync aead ⟨ask.frame.bytes ++ rest, ending⟩ (some key) =
      .ok ((ask.freq, ask.seq), ⟨rest, ending⟩) := by
  have hdecode := ask.decodes
  unfold Frame.body at hdecode
  unfold readRequestAsync readFrameAsync
  rw [readFrameFrom_bytes ask.fits]
  dsimp only [Except.mapError, bind, Except.bind]
  rw [hdecode]
  rfl

/-- The next request is read as soon as its frame is all there. -/
theorem readRequest_ask {ask : Ask aead key} {rest : List UInt8}
    (hbytes : recv.bytes ++ later = ask.frame.bytes ++ rest)
    (hclosed : recv.ending ≠ .wouldBlock → later = []) :
    (∃ more, readRequestAsync aead recv (some key) =
        .ok ((ask.freq, ask.seq), ⟨more, recv.ending⟩) ∧ more ++ later = rest) ∨
      (later ≠ [] ∧ AwaitsBytes aead key recv) := by
  obtain ⟨bytes, ending⟩ := recv
  dsimp only at hbytes hclosed ⊢
  by_cases hwhole : ask.frame.bytes.length ≤ bytes.length
  · obtain ⟨more, rfl⟩ := List.prefix_of_prefix_length_le (List.prefix_append _ rest)
      ⟨later, hbytes⟩ hwhole
    rw [List.append_assoc] at hbytes
    exact .inl ⟨more, readRequest_bytes ask more ending, List.append_cancel_left hbytes⟩
  · have hpart : bytes <+: ask.frame.bytes :=
      List.prefix_of_prefix_length_le ⟨later, hbytes⟩ (List.prefix_append _ rest) (by omega)
    have hmissing : later ≠ [] := by
      rintro rfl
      have hlength := congrArg List.length hbytes
      rw [List.append_nil, List.length_append] at hlength
      omega
    obtain rfl : ending = .wouldBlock := by
      by_contra hend
      exact hmissing (hclosed hend)
    refine .inr ⟨hmissing, ?_⟩
    unfold AwaitsBytes readRequestAsync readFrameAsync
    rw [readFrameFrom_cut ask.fits hpart (by omega), if_neg (fun h => nomatch h.2)]
    rfl

theorem decodeRequest_ne_io {wire : List UInt8} {kind : ErrorKind} :
    decodeRequest aead (some key) wire ≠ .error (.frame (.io kind)) := by
  intro h
  unfold decodeRequest parseFrameData openBody at h
  dsimp only [bind, Except.bind] at h
  split at h
  · rename_i e hparse
    split at hparse
    · obtain rfl := Except.error.inj hparse
      cases h
    · cases hparse
  · split at h
    · rename_i e hopen
      cases hdecrypt : Session.decrypt aead key _ with
      | error e' =>
        rw [hdecrypt] at hopen
        obtain rfl := Except.error.inj hopen
        cases h
      | ok plaintext =>
        rw [hdecrypt] at hopen
        cases hopen
    · split at h
      · cases h
      · cases h

theorem AwaitsBytes.open (h : AwaitsBytes aead key recv) : recv.ending = .wouldBlock := by
  unfold AwaitsBytes readRequestAsync at h
  cases hread : readFrameAsync recv with
  | error e =>
    rw [hread] at h
    obtain rfl : e = .io .wouldBlock := RequestError.frame.inj (Except.error.inj h)
    exact ending_of_readFrameFrom hread
  | ok result =>
    obtain ⟨frame, recv'⟩ := result
    rw [hread] at h
    dsimp only [Except.mapError, bind, Except.bind] at h
    split at h
    · rename_i e hdecode
      obtain rfl := Except.error.inj h
      exact absurd hdecode decodeRequest_ne_io
    · cases h

/-- Where no request begins none is read, whether more comes or not. -/
theorem readRequest_tail (htail : Undecodable aead key (recv.bytes ++ later)) :
    ∃ e, readRequestAsync aead recv (some key) = .error e := by
  cases hrun : readRequestAsync aead recv (some key) with
  | ok result =>
    obtain ⟨⟨freq, seq⟩, recv'⟩ := result
    obtain ⟨frame, hread, hdecode⟩ := readRequestAsync_ok hrun
    obtain ⟨hfits, hbytes, -⟩ := readFrameFrom_sound hread
    refine absurd ?_ (htail ⟨frame, freq, seq, hfits, hdecode⟩)
    rw [hbytes, List.append_assoc]
    exact List.prefix_append _ _
  | error e => exact ⟨e, rfl⟩

end Reads

/-! ### The request loop -/

/-- The steps of a round before its frame is read. -/
inductive Waiting (sess : Session) : Nat → LoopPhase → Prop where
  | fetch : Waiting sess 0 .fetch
  | judge : Waiting sess 1 (.judge (some sess))
  | touch : Waiting sess 2 .touch
  | read : Waiting sess 3 .read

/-- The task has taken this many steps since it was in its loop with the channel `base`; it
has the requests `asks` and the bytes `tail` to serve, of which `later` are still to come. -/
inductive TcpAt (srv : Server σ) (sess : Session) (asks : List (Ask srv.aead sess.key))
    (tail : List UInt8) (base : Channel) (app₀ : σ) : Nat → List UInt8 → Tcp σ → Prop where
  | waiting {taken step : Nat} {later : List UInt8} {done todo : List (Ask srv.aead sess.key)}
      {sh : Shared σ} {chan : Channel} {phase : LoopPhase} :
      taken = 5 * done.length + step → Waiting sess step phase → asks = done ++ todo →
      Serving srv sess base app₀ done sh.app chan →
      chan.recv.bytes ++ later = todo.flatMap (fun ask => ask.frame.bytes) ++ tail →
      TcpAt srv sess asks tail base app₀ taken later ⟨sh, ⟨chan, .loop sess phase⟩⟩
  | dispatch {taken : Nat} {later : List UInt8} {done todo : List (Ask srv.aead sess.key)}
      {ask : Ask srv.aead sess.key} {sh : Shared σ} {chan : Channel} :
      taken = 5 * done.length + 4 → asks = done ++ ask :: todo →
      Serving srv sess base app₀ done sh.app chan →
      chan.recv.bytes ++ later = todo.flatMap (fun ask => ask.frame.bytes) ++ tail →
      TcpAt srv sess asks tail base app₀ taken later
        ⟨sh, ⟨chan, .loop sess (.dispatch ask.freq ask.seq)⟩⟩
  | closing {taken : Nat} {later : List UInt8} {sh : Shared σ} {chan : Channel} :
      taken = 5 * asks.length + 4 → Serving srv sess base app₀ asks sh.app chan →
      TcpAt srv sess asks tail base app₀ taken later ⟨sh, ⟨chan, .closing sess⟩⟩
  | ended {taken : Nat} {later : List UInt8} {sh : Shared σ} {chan : Channel} :
      taken = 5 * asks.length + 5 → Serving srv sess base app₀ asks sh.app chan →
      Vacant sh sess.id →
      TcpAt srv sess asks tail base app₀ taken later ⟨sh, ⟨chan, .ended (.returned (.ok ()))⟩⟩

theorem calls_receivedFrame (key : List UInt8) (recv : Source) :
    calls (receivedFrame key recv) = [] := by
  unfold receivedFrame
  split <;> rfl

/-- How the bytes of the channel end is up to the network. -/
theorem TcpMoves.ending {srv : Server σ} {sid : UInt64} {sh sh' : Shared σ} {chan : Channel}
    {phase : TcpPhase} {task' : TcpTask} (h : TcpMoves srv sid sh chan phase sh' task') :
    task'.chan.recv.ending = chan.recv.ending := by
  cases h with
  | accepted hdone =>
    obtain ⟨hello, -, hhello, -⟩ := handshake_ok (congrArg Prod.fst hdone)
    obtain ⟨-, -, -, hending⟩ := readHello_ok_iff.mp hhello
    exact hending
  | read hrun =>
    obtain ⟨frame, hread, -⟩ := readRequestAsync_ok hrun
    exact (readFrameFrom_sound hread).2.2
  | refused | inserted | fetched | expired | alive | touched | unread | panicked | answered
  | closed => rfl

/-- What cannot be read ends the loop. -/
theorem tcpLoop_unread {srv : Server σ} (nonce : Nonce) (sh : Shared σ) {chan : Channel}
    {sess : Session} {e : RequestError}
    (hrun : readRequestAsync srv.aead chan.recv (some sess.key) = .error e)
    (he : e ≠ .frame (.io .wouldBlock)) :
    tcpLoop srv nonce sh chan sess .read =
      some (sh, ⟨chan.note (receivedFrame sess.key chan.recv), .closing sess⟩) := by
  unfold tcpLoop
  dsimp only
  rw [hrun]
  split
  · rename_i hwait
    exact absurd (Except.error.inj hwait) he
  · rfl
  · rename_i hok
    cases hok

/-- In its loop the task's session is alive, and it is not disturbed. -/
def tcpUndisturbed (sess : Session) (s : Tcp σ) (action : TcpAction σ) : Bool :=
  action.undisturbing &&
    match s.task.phase with
    | .loop _ _ => sessionAlive sess s.shared
    | _ => true

theorem alive_of_tcpUndisturbed {sess : Session} {s : Tcp σ} {action : TcpAction σ}
    (h : tcpUndisturbed sess s action = true) {sess' : Session} {phase : LoopPhase}
    (hphase : s.task.phase = .loop sess' phase) : sessionAlive sess s.shared = true := by
  have halive := (Bool.and_eq_true_iff.mp h).2
  rwa [hphase] at halive

namespace TcpAt

variable {srv : Server σ} {sess : Session} {asks : List (Ask srv.aead sess.key)}
  {tail : List UInt8} {base : Channel} {app₀ : σ} {taken : Nat} {later : List UInt8}
  {s s' : Tcp σ}

theorem env (h : TcpAt srv sess asks tail base app₀ taken later s) {action : EnvAction σ}
    {sh : Shared σ} (henv : s.shared.env sess.id action = some sh)
    (happ : (TcpAction.env action).undisturbing = true) :
    TcpAt srv sess asks tail base app₀ taken later { s with shared := sh } := by
  have hsame := env_app henv happ
  cases h with
  | waiting htaken hphase hasks hserving hbytes =>
    exact .waiting htaken hphase hasks (hsame ▸ hserving) hbytes
  | dispatch htaken hasks hserving hbytes => exact .dispatch htaken hasks (hsame ▸ hserving) hbytes
  | closing htaken hserving => exact .closing htaken (hsame ▸ hserving)
  | ended htaken hserving hvacant =>
    exact .ended htaken (hsame ▸ hserving) (hvacant.env henv)

theorem net {action : NetAction} {chan : Channel}
    (h : TcpAt srv sess asks tail base app₀ taken (action.arrival ++ later) s)
    (hnet : s.task.chan.net s.shared.now action = some chan)
    (hkeeps : action.keepsWriting = true)
    (hclosed : chan.recv.ending ≠ .wouldBlock → later = []) :
    TcpAt srv sess asks tail base app₀ taken later
      { s with task := { s.task with chan } } := by
  have hlater := (net_later hnet hclosed).2
  cases h with
  | waiting htaken hphase hasks hserving hbytes =>
    exact .waiting htaken hphase hasks (hserving.net hkeeps hnet) (hlater.trans hbytes)
  | dispatch htaken hasks hserving hbytes =>
    exact .dispatch htaken hasks (hserving.net hkeeps hnet) (hlater.trans hbytes)
  | closing htaken hserving => exact .closing htaken (hserving.net hkeeps hnet)
  | ended htaken hserving hvacant => exact .ended htaken (hserving.net hkeeps hnet) hvacant

theorem taken_le (h : TcpAt srv sess asks tail base app₀ taken later s) :
    taken ≤ 5 * asks.length + 5 := by
  cases h with
  | waiting htaken hphase hasks =>
    rw [hasks, List.length_append]
    cases hphase <;> omega
  | dispatch htaken hasks =>
    rw [hasks, List.length_append]
    omega
  | closing htaken => omega
  | ended htaken => omega

/-- The task's own step: it is enabled unless the task has ended or waits for bytes that are
still to come, or for those that the tail lacks. -/
theorem next (hsync : SyncOnly srv) (htail : Undecodable srv.aead sess.key tail)
    (h : TcpAt srv sess asks tail base app₀ taken later s)
    (halive : ∀ phase, s.task.phase = .loop sess phase → sessionAlive sess s.shared = true)
    (hclosed : s.task.chan.recv.ending ≠ .wouldBlock → later = []) (nonce : Nonce) :
    (∃ s', tcpStep srv sess.id s (.run nonce) = some s' ∧
        TcpAt srv sess asks tail base app₀ (taken + 1) later s') ∨
      (tcpStep srv sess.id s (.run nonce) = none ∧
        ((∃ outcome, s.task.phase = .ended outcome) ∨ later ≠ [] ∨
          AwaitsBytes srv.aead sess.key ⟨tail, s.task.chan.recv.ending⟩)) := by
  cases h with
  | @waiting _ _ done todo sh chan _ htaken hphase hasks hserving hbytes =>
    obtain ⟨hstored, hcheck⟩ := sessionAlive_iff.mp (halive _ rfl)
    dsimp only at hstored hcheck hclosed
    cases hphase with
    | fetch =>
      refine .inl ⟨⟨sh, ⟨chan, .loop sess (.judge (some sess))⟩⟩, ?_,
        .waiting (by omega) .judge hasks hserving hbytes⟩
      simp only [tcpStep, tcpRun, tcpLoop, hstored, Option.map_some]
    | judge =>
      refine .inl ⟨⟨sh, ⟨chan.note [.checked (some sess) sh.now], .loop sess .touch⟩⟩, ?_,
        .waiting (by omega) .touch hasks (hserving.note rfl) hbytes⟩
      simp [tcpStep, tcpRun, tcpLoop, hcheck]
    | touch =>
      refine .inl ⟨⟨sh, ⟨chan, .loop sess .read⟩⟩, ?_,
        .waiting (by omega) .read hasks hserving hbytes⟩
      simp only [tcpStep, tcpRun, tcpLoop, touchSession_eq, Option.map_some]
    | read =>
      have hnoted := hserving.note (calls_receivedFrame sess.key chan.recv)
      cases todo with
      | nil =>
        rw [List.append_nil] at hasks
        rw [List.flatMap_nil, List.nil_append] at hbytes
        obtain ⟨e, hrun⟩ := readRequest_tail (hbytes.symm ▸ htail)
        by_cases he : e = .frame (.io .wouldBlock)
        · subst he
          refine .inr ⟨?_, .inr ?_⟩
          · simp only [tcpStep, tcpRun, tcpLoop, hrun, Option.map_none]
          · by_cases hlater : later = []
            · rw [hlater, List.append_nil] at hbytes
              exact .inr (hbytes ▸ hrun)
            · exact .inl hlater
        · refine .inl ⟨⟨sh, ⟨chan.note (receivedFrame sess.key chan.recv), .closing sess⟩⟩, ?_,
            .closing (by rw [hasks]; omega) (hasks ▸ hnoted)⟩
          have hloop := tcpLoop_unread nonce sh hrun he
          simp only [tcpStep, tcpRun, hloop, Option.map_some]
      | cons ask rest =>
        rw [List.flatMap_cons, List.append_assoc] at hbytes
        obtain ⟨more, hrun, hmore⟩ | ⟨hmissing, hrun⟩ := readRequest_ask hbytes hclosed
        · refine .inl ⟨⟨sh, ⟨{ chan.note (receivedFrame sess.key chan.recv) with
            recv := ⟨more, chan.recv.ending⟩ }, .loop sess (.dispatch ask.freq ask.seq)⟩⟩, ?_,
            .dispatch (by omega) hasks (hnoted.quiet rfl rfl) hmore⟩
          simp only [tcpStep, tcpRun, tcpLoop, hrun, Option.map_some]
        · refine .inr ⟨?_, .inr (.inl hmissing)⟩
          unfold AwaitsBytes at hrun
          simp only [tcpStep, tcpRun, tcpLoop, hrun, Option.map_none]
  | @dispatch _ done todo ask sh chan htaken hasks hserving hbytes =>
    obtain ⟨cause, resp, hanswer⟩ := serve_answer hsync sh.app ask
    refine .inl ⟨⟨{ sh with app := (serve srv sess sh.app ask).app },
      ⟨(chan.note (dispatchEvents (serve srv sess sh.app ask).called ask.request ask.seq)).reply
        srv.aead nonce sess.key cause ask.seq resp, .loop sess .fetch⟩⟩, ?_,
      .waiting ?_ .fetch ?_ (hserving.answered ask hanswer nonce) hbytes⟩
    · unfold serve at hanswer
      simp only [tcpStep, tcpRun, tcpLoop, hanswer, Option.map_some]
      rfl
    · rw [List.length_append, List.length_singleton]
      omega
    · rw [hasks, List.append_assoc]
      rfl
  | @closing _ sh chan htaken hserving =>
    exact .inl ⟨_, rfl, .ended (congrArg (· + 1) htaken) hserving (Vacant.deleted sh sess.id)⟩
  | ended => exact .inr ⟨rfl, .inl ⟨_, rfl⟩⟩

/-- The step lemma, told from what is still to arrive after the step. -/
theorem step (hsync : SyncOnly srv) (htail : Undecodable srv.aead sess.key tail)
    {action : TcpAction σ} (hundisturbed : tcpUndisturbed sess s action = true)
    (hstep : tcpStep srv sess.id s action = some s')
    (h : (s.task.chan.recv.ending ≠ .wouldBlock → action.arrival ++ later = []) →
      TcpAt srv sess asks tail base app₀ taken (action.arrival ++ later) s)
    (hclosed : s'.task.chan.recv.ending ≠ .wouldBlock → later = []) :
    TcpAt srv sess asks tail base app₀ (taken + if action.isRun then 1 else 0) later s' := by
  have hkeeps := (Bool.and_eq_true_iff.mp hundisturbed).1
  cases action with
  | env action =>
    obtain ⟨sh, henv, rfl⟩ := Option.map_eq_some_iff.mp hstep
    exact (h hclosed).env henv hkeeps
  | net action =>
    obtain ⟨chan, hnet, rfl⟩ := Option.map_eq_some_iff.mp hstep
    exact (h (net_later hnet hclosed).1).net hnet hkeeps hclosed
  | run nonce =>
    have hending : s'.task.chan.recv.ending = s.task.chan.recv.ending := by
      cases tcpStep_steps hstep with
      | run hmoves => exact hmoves.ending
    rw [hending] at hclosed
    obtain ⟨s'', hnext, hat⟩ | ⟨hnone, -⟩ := (h hclosed).next hsync htail
      (fun _ hphase => alive_of_tcpUndisturbed hundisturbed hphase) hclosed nonce
    · obtain rfl := Option.some.inj (hnext.symm.trans hstep)
      exact hat
    · cases hnone.symm.trans hstep

/-- The run lemma. -/
theorem run (hsync : SyncOnly srv) (htail : Undecodable srv.aead sess.key tail)
    {actions : List (TcpAction σ)} (hloop : s.task.phase = .loop sess .fetch)
    (hsend : s.task.chan.send = ⟨s.task.chan.send.written, none⟩)
    (hbytes : s.task.chan.recv.bytes ++ fed actions ++ later =
      asks.flatMap (fun ask => ask.frame.bytes) ++ tail)
    (hundisturbed : Along (tcpStep srv sess.id) (fun s a => tcpUndisturbed sess s a = true) s
      actions)
    (hrun : Execution.run (tcpStep srv sess.id) s actions = some s')
    (hclosed : s'.task.chan.recv.ending ≠ .wouldBlock → later = []) :
    TcpAt srv sess asks tail s.task.chan s.shared.app (actions.countP TcpAction.isRun) later
      s' := by
  refine run_fed (step hsync htail) hundisturbed hrun hclosed ?_
  obtain ⟨sh, ⟨chan, phase⟩⟩ := s
  dsimp only at hloop
  subst hloop
  rw [List.append_assoc] at hbytes
  exact .waiting rfl .fetch (List.nil_append _).symm (.start hsend _) hbytes

end TcpAt

end Hush.Server
