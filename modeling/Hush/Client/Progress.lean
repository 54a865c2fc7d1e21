import Hush.Client.Steps

/-! What a call on a TCP client does when nothing holds it up: it takes the lock,
writes its request and reads what has arrived. A length beyond the limit ends it
and leaves the rest of the frame to the calls after it. -/
namespace Hush.Client

open Hush.Foundation BigEndian Execution Link
open Hush.Frame hiding Response
open Hush.Session
open Hush.Server (Tcp)

variable {σ : Type} {srv : Server.Server σ} {aead : Aead} {c : TcpClient}

/-- A step of a task that calls `do_` and waits for it. -/
def CallAction.doing : CallAction → Prop
  | .call .do_ _ => True
  | .run _ _ => True
  | .io _ => True
  | _ => False

/-- Of the client's tasks only those that call `do_` and wait for it take a step. -/
def onlyDo : TalkAction σ → Prop
  | .left action => action.doing
  | _ => True

theorem left_reaches {sid : UInt64} {c' : TcpClient} (s : Tcp σ)
    (h : ReachesBy (callStep srv.aead) CallAction.doing c c') :
    ReachesBy (talkStep srv sid) onlyDo ⟨c, s⟩ ⟨c', s⟩ := by
  obtain ⟨actions, hdoing, hrun⟩ := h
  induction actions generalizing c with
  | nil =>
    obtain rfl := Option.some.inj hrun
    exact .refl _
  | cons action rest ih =>
    obtain ⟨hfirst, hrest⟩ := List.forall_mem_cons.mp hdoing
    obtain ⟨mid, hmid, hlast⟩ := run_cons.mp hrun
    have hallowed : action.allowed c = true := by
      cases action with
      | net _ => exact hfirst.elim
      | _ => rfl
    have hstep : talkStep srv sid ⟨c, s⟩ (.left action) = some ⟨mid, s⟩ := by
      unfold talkStep linkStep callParty
      dsimp only
      rw [if_pos hallowed, hmid]
      rfl
    have hdo : onlyDo (.left action : TalkAction σ) := hfirst
    exact .trans (.single hdo hstep) (ih hrest hlast)

/-! ### Bytes on their way -/

/-- The client with these bytes to read, on a connection that is open. -/
def TcpClient.holding (c : TcpClient) (bytes : List UInt8) : TcpClient :=
  { c with stream := { c.stream with recv := ⟨bytes, .wouldBlock⟩ } }

/-- All that the server wrote arrives. -/
theorem arrives_reaches {sid : UInt64} {s : Tcp σ} {bytes rest : List UInt8}
    (hrecv : c.stream.recv = ⟨bytes, .wouldBlock⟩)
    (hrest : s.task.chan.send.written = c.stream.received ++ rest) :
    ReachesBy (talkStep srv sid) onlyDo ⟨c, s⟩ ⟨c.holding (bytes ++ rest), s⟩ := by
  have hdo : onlyDo (.toLeft rest.length : TalkAction σ) := trivial
  refine .single hdo ?_
  have hflight : inFlight s.task.chan.send.written c.stream.received rest.length = rest := by
    unfold inFlight
    rw [hrest, List.drop_left, List.take_length]
  have hfeed : (callParty srv.aead).feed c rest = some (c.holding (bytes ++ rest)) := by
    show (c.stream.net (.deliver rest)).map _ = _
    unfold Endpoint.net
    dsimp only
    rw [hrecv, if_pos rfl]
    rfl
  show ((callParty srv.aead).feed c (inFlight s.task.chan.send.written c.stream.received _)).map _ = _
  rw [hflight, hfeed]
  rfl

/-- The next bytes that the client wrote arrive. -/
theorem requested_reaches {sid : UInt64} {s : Tcp σ} {part rest : List UInt8}
    (hopen : s.task.chan.recv.ending = .wouldBlock)
    (hrest : c.stream.send.written = Server.arrivedBytes s.task.chan.log ++ (part ++ rest)) :
    ReachesBy (talkStep srv sid) onlyDo ⟨c, s⟩ ⟨c, { s with task := { s.task with
      chan := { s.task.chan with
        recv := { s.task.chan.recv with bytes := s.task.chan.recv.bytes ++ part }
        log := s.task.chan.log ++ [.arrived s.shared.now part] } } }⟩ := by
  have hdo : onlyDo (.toRight part.length : TalkAction σ) := trivial
  refine .single hdo ?_
  have hflight : inFlight c.stream.send.written (Server.arrivedBytes s.task.chan.log) part.length =
      part := by
    unfold inFlight
    rw [hrest, List.drop_left, List.take_left]
  show ((servingParty srv sid).feed s
    (inFlight c.stream.send.written (Server.arrivedBytes s.task.chan.log) _)).map _ = _
  rw [hflight]
  show ((s.task.chan.net s.shared.now (.deliver part)).map _).map _ = _
  unfold Server.Channel.net
  dsimp only
  rw [if_pos hopen]
  rfl

/-! ### The server's side -/

theorem right_step {sid : UInt64} {s s' : Tcp σ} {nonce : Nonce} (c : TcpClient)
    (h : Server.tcpStep srv sid s (.run nonce) = some s') :
    talkStep srv sid ⟨c, s⟩ (.right (.run nonce)) = some ⟨c, s'⟩ := by
  have hright : (servingParty srv sid).step s (.run nonce) = some s' := h
  unfold talkStep linkStep
  dsimp only
  rw [hright]
  rfl

/-- A request that has arrived is read and answered, while its session is alive. -/
theorem serve_reaches {sid : UInt64} {sh : Server.Shared σ} {chan : Server.Channel} {sess : Session}
    {freq : Request} {seq : UInt32} {recv : Source} {handler : Server.SyncHandler σ}
    {resp : Frame.Response} {app : σ} {written : List UInt8} (nonce : Nonce)
    (hget : sh.store.get sess.id = some sess)
    (hfresh : Server.expiryCheck sh.store sh.now (some sess) = false)
    (hread : readRequestAsync srv.aead chan.recv (some sess.key) = .ok ((freq, seq), recv))
    (hhandler : srv.handlers freq.opcode = some (.sync handler))
    (hcall : handler (Server.toRequest sess.id sess.apiKeyId freq) sh.app =
      Server.HandlerOutcome.returned (.ok resp) app)
    (hsend : chan.send = ⟨written, none⟩) :
    ∃ log, ReachesBy (talkStep srv sid) onlyDo ⟨c, ⟨sh, ⟨chan, .loop sess .fetch⟩⟩⟩
      ⟨c, ⟨{ sh with app }, ⟨⟨recv,
        ⟨written ++ Server.replyBytes srv.aead nonce sess.key seq resp, none⟩, log⟩,
        .loop sess .fetch⟩⟩⟩ ∧ Server.arrivedBytes log = Server.arrivedBytes chan.log := by
  have hfetch : Server.tcpStep srv sid ⟨sh, ⟨chan, .loop sess .fetch⟩⟩ (.run nonce) =
      some ⟨sh, ⟨chan, .loop sess (.judge (some sess))⟩⟩ := by
    rw [← hget]
    rfl
  let checked := chan.note [.checked (some sess) sh.now]
  have hjudge : Server.tcpStep srv sid ⟨sh, ⟨chan, .loop sess (.judge (some sess))⟩⟩ (.run nonce) =
      some ⟨sh, ⟨checked, .loop sess .touch⟩⟩ := by
    unfold Server.tcpStep Server.tcpRun Server.tcpLoop
    dsimp only
    rw [hfresh]
    rfl
  have htouch : Server.tcpStep srv sid ⟨sh, ⟨checked, .loop sess .touch⟩⟩ (.run nonce) =
      some ⟨sh, ⟨checked, .loop sess .read⟩⟩ := by
    unfold Server.tcpStep Server.tcpRun Server.tcpLoop
    dsimp only
    rw [Server.touchSession_eq]
    rfl
  let noted := { checked.note (Server.receivedFrame sess.key chan.recv) with recv }
  have hreads : Server.tcpStep srv sid ⟨sh, ⟨checked, .loop sess .read⟩⟩ (.run nonce) =
      some ⟨sh, ⟨noted, .loop sess (.dispatch freq seq)⟩⟩ := by
    have hrecv : checked.recv = chan.recv := rfl
    unfold Server.tcpStep Server.tcpRun Server.tcpLoop
    dsimp only
    rw [hrecv, hread]
    rfl
  let called := noted.note [.dispatched (Server.toRequest sess.id sess.apiKeyId freq) seq]
  have hanswers : Server.tcpStep srv sid ⟨sh, ⟨noted, .loop sess (.dispatch freq seq)⟩⟩ (.run nonce) =
      some ⟨{ sh with app }, ⟨called.reply srv.aead nonce sess.key .handled seq resp,
        .loop sess .fetch⟩⟩ := by
    unfold Server.tcpStep Server.tcpRun Server.tcpLoop Server.tcpServe
    dsimp only
    rw [hhandler]
    dsimp only
    unfold Server.callHandler
    rw [hcall]
    rfl
  have hwritten : called.send = ⟨written, none⟩ := hsend
  have hreply : called.reply srv.aead nonce sess.key .handled seq resp = ⟨recv,
      ⟨written ++ Server.replyBytes srv.aead nonce sess.key seq resp, none⟩,
      called.log ++ [.answered .handled seq resp]⟩ := by
    rw [← Server.send_reply hwritten srv.aead nonce sess.key .handled seq resp]
    rfl
  rw [hreply] at hanswers
  have hall : ∀ a ∈ List.replicate 5 (.right (.run nonce) : TalkAction σ), onlyDo a := by
    intro a ha
    obtain rfl := List.eq_of_mem_replicate ha
    trivial
  refine ⟨called.log ++ [.answered .handled seq resp], ⟨_, hall, ?_⟩, ?_⟩
  · exact run_cons.mpr ⟨_, right_step c hfetch, run_cons.mpr ⟨_, right_step c hjudge,
      run_cons.mpr ⟨_, right_step c htouch, run_cons.mpr ⟨_, right_step c hreads,
        run_cons.mpr ⟨_, right_step c hanswers, rfl⟩⟩⟩⟩⟩
  · have hpassive := (Server.passive_receivedFrame sess.key chan.recv).1
    simp only [called, noted, checked, Server.Channel.note, Server.arrivedBytes_append, hpassive]
    simp [Server.arrivedBytes]

/-! ### Writing a request -/

namespace TcpClient

/-- The client with one more call on it. -/
def plus (c : TcpClient) (req : Request) (phase : CallPhase) : TcpClient :=
  { c with calls := c.calls ++ [⟨.do_, req, phase⟩] }

@[simp] theorem call_plus (c : TcpClient) (req : Request) (phase : CallPhase) :
    (c.plus req phase).calls[c.calls.length]? = some ⟨.do_, req, phase⟩ := by
  simp [plus]

@[simp] theorem setPhase_plus (c : TcpClient) (req : Request) (phase phase' : CallPhase) :
    (c.plus req phase).setPhase c.calls.length phase' = c.plus req phase' := by
  unfold plus setPhase
  rw [List.modify_eq_take_cons_drop (by simp)]
  simp

/-- Nobody holds the lock, and the connection takes bytes. -/
structure Free (c : TcpClient) : Prop where
  guard : c.guard = none
  room : c.stream.send.room = none

/-- The next sequence number was taken. -/
def next (c : TcpClient) : TcpClient := { c with seq := c.seq + 1 }

/-- The client after one more call on it has written its request. -/
def asked (c : TcpClient) (req : Request) (frame : Frame) : TcpClient :=
  { c.next.plus req .locked with
    stream := { c.stream with send := ⟨c.stream.send.written ++ frame.bytes, none⟩ }
    guard := some ⟨c.calls.length, .do_, frame, .sizing []⟩ }

end TcpClient

theorem callStep_run {index : Nat} {call : Call} (h : c.calls[index]? = some call) (nonce : Nonce) :
    callStep aead c (.run index nonce) = c.runCall aead nonce index call := by
  unfold callStep
  dsimp only
  rw [h]
  rfl

theorem callStep_io {g : Guard} (h : c.guard = some g) (count : Nat) :
    callStep aead c (.io count) = c.runGuard aead count g := by
  unfold callStep
  dsimp only
  rw [h]
  rfl

/-- A call writes its request. -/
theorem asked_reaches (hfree : c.Free) {req : Request} {nonce : Nonce} {body : List UInt8}
    (hbody : encodeRequestBody aead nonce (some c.sessionKey) req = .ok body)
    (hfits : Frame.Fits ⟨c.seq, body⟩) :
    ReachesBy (callStep aead) CallAction.doing c (c.asked req ⟨c.seq, body⟩) := by
  have hframe : encodeFrame c.seq body = .ok (Frame.bytes ⟨c.seq, body⟩) := hfits.encodeFrame
  have hcalled : callStep aead c (.call .do_ req) = some (c.plus req .called) := rfl
  have hnumbered : callStep aead (c.plus req .called) (.run c.calls.length nonce) =
      some (c.next.plus req (.numbered c.seq)) := by
    rw [callStep_run (c.call_plus req .called)]
    unfold TcpClient.runCall
    dsimp only
    rw [TcpClient.setPhase_plus]
    rfl
  have hencoded : callStep aead (c.next.plus req (.numbered c.seq))
      (.run c.next.calls.length nonce) = some (c.next.plus req (.encoded ⟨c.seq, body⟩ (Frame.bytes ⟨c.seq, body⟩))) := by
    have hkey : (c.next.plus req (.numbered c.seq)).sessionKey = c.sessionKey := rfl
    rw [callStep_run (c.next.call_plus req (.numbered c.seq))]
    unfold TcpClient.runCall
    dsimp only
    rw [hkey, hbody]
    dsimp only
    rw [hframe]
    exact congrArg some (c.next.setPhase_plus req _ _)
  have hlocked : callStep aead
      (c.next.plus req (.encoded ⟨c.seq, body⟩ (Frame.bytes ⟨c.seq, body⟩)))
      (.run c.next.calls.length nonce) = some { c.next.plus req .locked with
        guard := some ⟨c.calls.length, .do_, ⟨c.seq, body⟩,
          .writing (Frame.bytes ⟨c.seq, body⟩)⟩ } := by
    have hguard : (c.next.plus req
        (.encoded ⟨c.seq, body⟩ (Frame.bytes ⟨c.seq, body⟩))).guard = none := hfree.guard
    rw [callStep_run (c.next.call_plus req (.encoded ⟨c.seq, body⟩ (Frame.bytes ⟨c.seq, body⟩)))]
    unfold TcpClient.runCall
    dsimp only
    rw [hguard]
    exact congrArg (fun c' : TcpClient => some { c' with
      guard := some ⟨c.calls.length, .do_, ⟨c.seq, body⟩, .writing (Frame.bytes ⟨c.seq, body⟩)⟩ })
      (c.next.setPhase_plus req _ _)
  have hwrote : callStep aead { c.next.plus req .locked with
        guard := some ⟨c.calls.length, .do_, ⟨c.seq, body⟩,
          .writing (Frame.bytes ⟨c.seq, body⟩)⟩ }
      (.io (Frame.bytes ⟨c.seq, body⟩).length) = some (c.asked req ⟨c.seq, body⟩) := by
    have hroom : (c.next.plus req .locked).stream.send.room = none := hfree.room
    rw [callStep_io rfl]
    unfold TcpClient.runGuard Endpoint.writeAll Stream.Sink.writeAll
    dsimp only
    rw [hroom]
    simp [CallKind.wrote, TcpClient.asked, TcpClient.plus, TcpClient.next]
  refine ⟨[.call .do_ req, .run c.calls.length nonce, .run c.calls.length nonce,
    .run c.calls.length nonce, .io (Frame.bytes ⟨c.seq, body⟩).length],
    by simp [CallAction.doing], ?_⟩
  exact run_cons.mpr ⟨_, hcalled, run_cons.mpr ⟨_, hnumbered, run_cons.mpr ⟨_, hencoded,
    run_cons.mpr ⟨_, hlocked, run_cons.mpr ⟨_, hwrote, rfl⟩⟩⟩⟩⟩

/-! ### Reading an answer -/

/-- The first bytes that have arrived are read. -/
def Endpoint.reads (stream : Endpoint) (part rest : List UInt8) : Endpoint :=
  { stream with recv := { stream.recv with bytes := rest }, taken := stream.taken ++ part }

theorem Endpoint.readSome_all {stream : Endpoint} {part rest : List UInt8}
    (hbytes : stream.recv.bytes = part ++ rest) :
    stream.readSome part.length part.length = some (.ok part, stream.reads part rest) := by
  unfold readSome reads
  split
  · rename_i hzero
    obtain rfl := List.eq_nil_of_length_eq_zero hzero
    rw [List.nil_append] at hbytes
    rw [← hbytes, List.append_nil]
  · rename_i hsome
    rw [hbytes, if_neg]
    · simp
    · intro hnil
      exact hsome (List.length_eq_zero_iff.mpr (List.append_eq_nil_iff.mp hnil).1)

/-- A length beyond the limit ends the call that reads it. -/
theorem overlong_reaches {g : Guard} (hg : c.guard = some g) (hphase : g.phase = .sizing [])
    {frameLen : UInt32} {rest : List UInt8} (hmax : maxFrameSize < frameLen)
    (hbytes : c.stream.recv.bytes = u32.toBeBytes frameLen ++ rest) :
    ReachesBy (callStep aead) CallAction.doing c
      (c.release (c.stream.reads (u32.toBeBytes frameLen) rest) g.index
        (.failed (.frame (.tooLarge frameLen maxFrameSize)))) := by
  have hread := Endpoint.readSome_all hbytes
  have hlen := u32.length_toBeBytes frameLen
  rw [hlen] at hread
  have hstep : callStep aead c (.io 4) =
      some (c.release (c.stream.reads (u32.toBeBytes frameLen) rest) g.index
        (.failed (.frame (.tooLarge frameLen maxFrameSize)))) := by
    rw [callStep_io hg]
    unfold TcpClient.runGuard
    rw [hphase]
    dsimp only [List.length_nil, List.nil_append]
    rw [hread]
    simp only [hlen, Nat.lt_irrefl, if_false, u32.fromBeBytes_toBeBytes, hmax,
      if_true]
  exact ⟨[.io 4], by simp [CallAction.doing], run_cons.mpr ⟨_, hstep, rfl⟩⟩

/-- A length within the limit and so many bytes are read, and decoded. -/
theorem whole_reaches {g : Guard} (hg : c.guard = some g) (hphase : g.phase = .sizing [])
    {frameLen : UInt32} {body rest : List UInt8} (hmax : frameLen ≤ maxFrameSize)
    (hbody : body.length = frameLen.toNat)
    (hbytes : c.stream.recv.bytes = u32.toBeBytes frameLen ++ (body ++ rest)) :
    ReachesBy (callStep aead) CallAction.doing c
      (c.release ((c.stream.reads (u32.toBeBytes frameLen) (body ++ rest)).reads body rest) g.index
        (match decodeResponse aead (some c.sessionKey) body with
        | .error e => .failed (.request e)
        | .ok resp => .answered g.frame resp)) := by
  have hread := Endpoint.readSome_all hbytes
  have hlen := u32.length_toBeBytes frameLen
  rw [hlen] at hread
  have hsized : callStep aead c (.io 4) = some { c with
      stream := c.stream.reads (u32.toBeBytes frameLen) (body ++ rest)
      guard := some { g with phase := .filling frameLen [] } } := by
    rw [callStep_io hg]
    unfold TcpClient.runGuard
    rw [hphase]
    dsimp only [List.length_nil, List.nil_append]
    rw [hread]
    simp only [hlen, Nat.lt_irrefl, if_false, u32.fromBeBytes_toBeBytes,
      UInt32.not_lt.mpr hmax]
  have hfilled : callStep aead { c with
      stream := c.stream.reads (u32.toBeBytes frameLen) (body ++ rest)
      guard := some { g with phase := .filling frameLen [] } } (.io body.length) =
        some (c.release ((c.stream.reads (u32.toBeBytes frameLen) (body ++ rest)).reads body rest)
          g.index (match decodeResponse aead (some c.sessionKey) body with
            | .error e => .failed (.request e)
            | .ok resp => .answered g.frame resp)) := by
    have hrest : (c.stream.reads (u32.toBeBytes frameLen) (body ++ rest)).readSome body.length
        body.length = some (.ok body, (c.stream.reads (u32.toBeBytes frameLen) (body ++ rest)).reads
          body rest) := Endpoint.readSome_all rfl
    rw [callStep_io rfl]
    unfold TcpClient.runGuard
    dsimp only [List.length_nil, List.nil_append]
    rw [Nat.sub_zero, ← hbody, hrest]
    dsimp only
    rw [if_neg (Nat.lt_irrefl _)]
    cases decodeResponse aead (some c.sessionKey) body with
    | error e => rfl
    | ok resp => rfl
  exact ⟨[.io 4, .io body.length], by simp [CallAction.doing],
    run_cons.mpr ⟨_, hsized, run_cons.mpr ⟨_, hfilled, rfl⟩⟩⟩

theorem TcpClient.calls_release_asked (c : TcpClient) (req : Request) (frame : Frame)
    (stream : Endpoint) (phase : CallPhase) :
    ((c.asked req frame).release stream c.calls.length phase).calls =
      c.calls ++ [⟨.do_, req, phase⟩] :=
  congrArg TcpClient.calls (c.setPhase_plus req .locked phase)

/-- A call takes what has already arrived for the answer to its request. -/
theorem answered_round (hfree : c.Free) {req : Request} {nonce : Nonce} {body : List UInt8}
    (hbody : encodeRequestBody aead nonce (some c.sessionKey) req = .ok body)
    (hfits : Frame.Fits ⟨c.seq, body⟩) {frameLen : UInt32} {answer : List UInt8}
    {resp : Frame.Response} (hmax : frameLen ≤ maxFrameSize) (hlength : answer.length = frameLen.toNat)
    (hbytes : c.stream.recv.bytes = u32.toBeBytes frameLen ++ answer)
    (hdecode : decodeResponse aead (some c.sessionKey) answer = .ok resp) :
    ∃ c', ReachesBy (callStep aead) CallAction.doing c c' ∧
      c'.calls = c.calls ++ [⟨.do_, req, .answered ⟨c.seq, body⟩ resp⟩] := by
  have hasked := asked_reaches hfree hbody hfits
  have hsame : (c.asked req ⟨c.seq, body⟩).stream.recv.bytes =
      u32.toBeBytes frameLen ++ (answer ++ []) := by
    rw [List.append_nil]
    exact hbytes
  have hguard : (c.asked req ⟨c.seq, body⟩).guard =
      some ⟨c.calls.length, .do_, ⟨c.seq, body⟩, .sizing []⟩ := rfl
  have hkey : (c.asked req ⟨c.seq, body⟩).sessionKey = c.sessionKey := rfl
  have hwhole : ReachesBy (callStep aead) CallAction.doing (c.asked req ⟨c.seq, body⟩) _ :=
    whole_reaches hguard rfl hmax hlength hsame
  rw [hkey, hdecode] at hwhole
  exact ⟨_, hasked.trans hwhole, c.calls_release_asked _ _ _ _⟩

/-! ### Calls that come to nothing -/

/-- So many calls have written their requests, and got nothing. -/
structure Wasted (c c' : TcpClient) (count : Nat) : Prop where
  free : c'.Free
  key : c'.sessionKey = c.sessionKey
  seq : c'.seq = c.seq + UInt32.ofNat count
  written : c.stream.send.written <+: c'.stream.send.written
  received : c'.stream.received = c.stream.received
  ending : c'.stream.recv.ending = c.stream.recv.ending

theorem Wasted.refl (hfree : c.Free) : Wasted c c 0 :=
  ⟨hfree, rfl, (UInt32.add_zero _).symm, List.prefix_rfl, rfl, rfl⟩

theorem Wasted.trans {c' c'' : TcpClient} {m n : Nat} (h : Wasted c c' m) (h' : Wasted c' c'' n) :
    Wasted c c'' (m + n) := by
  refine ⟨h'.free, h'.key.trans h.key, ?_, h.written.trans h'.written,
    h'.received.trans h.received, h'.ending.trans h.ending⟩
  rw [h'.seq, h.seq, UInt32.ofNat_add, UInt32.add_assoc]

/-- The next four bytes are no length that a call accepts. -/
theorem overlong_round (hfree : c.Free) {req : Request} {nonce : Nonce} {body : List UInt8}
    (hbody : encodeRequestBody aead nonce (some c.sessionKey) req = .ok body)
    (hfits : Frame.Fits ⟨c.seq, body⟩) {frameLen : UInt32} {rest : List UInt8}
    (hmax : maxFrameSize < frameLen)
    (hbytes : c.stream.recv.bytes = u32.toBeBytes frameLen ++ rest) :
    ∃ c', ReachesBy (callStep aead) CallAction.doing c c' ∧ Wasted c c' 1 ∧
      c'.stream.recv.bytes = rest ∧
      c'.stream.send.written = c.stream.send.written ++ Frame.bytes ⟨c.seq, body⟩ := by
  have hasked := asked_reaches hfree hbody hfits
  have hover : ReachesBy (callStep aead) CallAction.doing (c.asked req ⟨c.seq, body⟩) _ :=
    overlong_reaches rfl rfl hmax hbytes
  refine ⟨_, hasked.trans hover, ⟨⟨rfl, rfl⟩, rfl, rfl, List.prefix_append _ _, ?_, rfl⟩, rfl, rfl⟩
  unfold Endpoint.received
  rw [hbytes]
  exact List.append_assoc _ _ _

/-- As long as that is so, one call after the other comes to nothing. -/
theorem overlong_run {words : List UInt32} (hfree : c.Free)
    (hmax : ∀ frameLen ∈ words, maxFrameSize < frameLen) {req : Request} {nonce : Nonce}
    {body : List UInt8}
    (hbody : encodeRequestBody aead nonce (some c.sessionKey) req = .ok body)
    (hfits : ∀ seq, Frame.Fits ⟨seq, body⟩)
    (hbytes : c.stream.recv.bytes = words.flatMap u32.toBeBytes) :
    ∃ c', ReachesBy (callStep aead) CallAction.doing c c' ∧ Wasted c c' words.length ∧
      c'.stream.recv.bytes = [] := by
  induction words generalizing c with
  | nil => exact ⟨c, .refl c, .refl hfree, hbytes⟩
  | cons frameLen words ih =>
    obtain ⟨hfirst, hmax⟩ := List.forall_mem_cons.mp hmax
    obtain ⟨mid, hmid, hone, hrest, -⟩ := overlong_round hfree hbody (hfits c.seq) hfirst hbytes
    rw [← hone.key] at hbody
    obtain ⟨c', hc', hmore, hnone⟩ := ih hone.free hmax hbody hrest
    refine ⟨c', hmid.trans hc', ?_, hnone⟩
    rw [List.length_cons, Nat.add_comm]
    exact hone.trans hmore

end Hush.Client
