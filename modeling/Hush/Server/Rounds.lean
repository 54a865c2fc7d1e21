import Hush.Server.Answers

/-! The rounds in which a request is served, from any moment before its frame is
read to its answer, whatever the network and the rest of the server do between
the task's own steps. -/
namespace Hush.Server

open Hush.Foundation Execution
open Hush.Frame hiding Request
open Hush.Session

variable {σ : Type} {srv : Server σ}

/-! ### TCP -/

/-- How many steps of its round the task has taken for the request. -/
inductive TcpRound (ask : Pending srv) : Nat → TcpTask → Prop where
  | fetch {chan : Channel} : ChannelAt ask.before (ask.frame.bytes ++ ask.rest) chan →
      TcpRound ask 0 ⟨chan, .loop ask.sess .fetch⟩
  | judge {chan : Channel} : ChannelAt ask.before (ask.frame.bytes ++ ask.rest) chan →
      TcpRound ask 1 ⟨chan, .loop ask.sess (.judge (some ask.sess))⟩
  | touch {chan : Channel} : ChannelAt ask.before (ask.frame.bytes ++ ask.rest) chan →
      TcpRound ask 2 ⟨chan, .loop ask.sess .touch⟩
  | read {chan : Channel} : ChannelAt ask.before (ask.frame.bytes ++ ask.rest) chan →
      TcpRound ask 3 ⟨chan, .loop ask.sess .read⟩
  | dispatch {chan : Channel} : ChannelAt ask.before ask.rest chan →
      TcpRound ask 4 ⟨chan, .loop ask.sess (.dispatch ask.freq ask.seq)⟩
  | answered {chan : Channel} : RequestAnswered ask chan →
      TcpRound ask 5 ⟨chan, .loop ask.sess .fetch⟩
  | past {taken : Nat} {task : TcpTask} : 5 < taken → TcpRound ask taken task

def TcpAction.isRun : TcpAction σ → Bool
  | .run _ => true
  | _ => false

/-- The session stays alive, and the server can write. -/
def tcpServing (sess : Session) (s : Tcp σ) (action : TcpAction σ) : Bool :=
  sessionAlive sess s.shared &&
    match action with
    | .net action => action.keepsWriting
    | _ => true

theorem TcpRound.net {ask : Pending srv} {taken : Nat} {chan chan' : Channel} {phase : TcpPhase}
    (h : TcpRound ask taken ⟨chan, phase⟩) {now : Instant} {action : NetAction}
    (hkeeps : action.keepsWriting = true) (hnet : chan.net now action = some chan') :
    TcpRound ask taken ⟨chan', phase⟩ := by
  cases h with
  | fetch hat => exact .fetch (hat.net hkeeps hnet)
  | judge hat => exact .judge (hat.net hkeeps hnet)
  | touch hat => exact .touch (hat.net hkeeps hnet)
  | read hat => exact .read (hat.net hkeeps hnet)
  | dispatch hat => exact .dispatch (hat.net hkeeps hnet)
  | answered hdone => exact .answered (hdone.net hkeeps hnet)
  | past hpast => exact .past hpast

/-- The task's next step in the round is enabled, and takes the round on. -/
theorem TcpRound.next (hlaw : srv.aead.Lawful) (sid : UInt64) {ask : Pending srv} {sh : Shared σ}
    {taken : Nat} {task : TcpTask} (h : TcpRound ask taken task) (htaken : taken < 5)
    (halive : sessionAlive ask.sess sh = true) (nonce : Nonce) :
    ∃ sh' task', tcpRun srv sid nonce sh task = some (sh', task') ∧
      TcpRound ask (taken + 1) task' := by
  obtain ⟨hstored, hcheck⟩ := sessionAlive_iff.mp halive
  cases h with
  | @fetch chan hat =>
    refine ⟨sh, ⟨chan, .loop ask.sess (.judge (some ask.sess))⟩, ?_, .judge hat⟩
    simp only [tcpRun, tcpLoop, hstored]
  | @judge chan hat =>
    refine ⟨sh, ⟨chan.note [.checked (some ask.sess) sh.now], .loop ask.sess .touch⟩, ?_,
      .touch (hat.note _)⟩
    simp [tcpRun, tcpLoop, hcheck]
  | @touch chan hat =>
    refine ⟨sh, ⟨chan, .loop ask.sess .read⟩, ?_, .read hat⟩
    simp only [tcpRun, tcpLoop, touchSession_eq]
  | @read chan hat =>
    obtain ⟨recv, hread, hrest⟩ := hat.readRequest
    refine ⟨sh, ⟨{ chan.note (receivedFrame ask.sess.key chan.recv) with recv },
      .loop ask.sess (.dispatch ask.freq ask.seq)⟩, ?_, .dispatch (hrest _)⟩
    simp only [tcpRun, tcpLoop, hread]
  | @dispatch chan hat =>
    obtain ⟨cause, resp, hanswer, howed⟩ := tcpServe_owed ask.answerable ask.seq sh.app
    have hnoted := hat.note (dispatchEvents
      (tcpServe srv ask.sess ask.freq ask.seq sh.app).called
      (toRequest ask.sess.id ask.sess.apiKeyId ask.freq) ask.seq)
    refine ⟨{ sh with app := (tcpServe srv ask.sess ask.freq ask.seq sh.app).app }, _, ?_,
      .answered (hnoted.reply hlaw nonce cause howed)⟩
    simp only [tcpRun, tcpLoop, hanswer]
  | answered _ => omega
  | past _ => omega

theorem tcpRound_own (hlaw : srv.aead.Lawful) {ask : Pending srv} {sid : UInt64} {taken : Nat}
    {s s' : Tcp σ} {action : TcpAction σ} (hround : TcpRound ask taken s.task)
    (hserving : tcpServing ask.sess s action = true) (hown : action.isRun = true)
    (h : tcpStep srv sid s action = some s') : TcpRound ask (taken + 1) s'.task := by
  unfold tcpServing at hserving
  rw [Bool.and_eq_true] at hserving
  cases action with
  | env action => cases hown
  | net action => cases hown
  | run nonce =>
    by_cases htaken : taken < 5
    · obtain ⟨sh', task', hnext, hround'⟩ := hround.next hlaw sid htaken hserving.1 nonce
      simp only [tcpStep] at h
      rw [hnext] at h
      obtain rfl := Option.some.inj h
      exact hround'
    · exact .past (by omega)

theorem tcpRound_other {ask : Pending srv} {sid : UInt64} {taken : Nat} {s s' : Tcp σ}
    {action : TcpAction σ} (hround : TcpRound ask taken s.task)
    (hserving : tcpServing ask.sess s action = true) (hother : action.isRun = false)
    (h : tcpStep srv sid s action = some s') : TcpRound ask taken s'.task := by
  unfold tcpServing at hserving
  rw [Bool.and_eq_true] at hserving
  cases action with
  | env action =>
    obtain ⟨sh, -, rfl⟩ := Option.map_eq_some_iff.mp h
    exact hround
  | net action =>
    obtain ⟨chan, hchan, rfl⟩ := Option.map_eq_some_iff.mp h
    exact hround.net hserving.2 hchan
  | run nonce => cases hother

/-- The round goes on by as many steps as the task takes in the run. -/
theorem tcpRound_run (hlaw : srv.aead.Lawful) {ask : Pending srv} {sid : UInt64} {taken : Nat}
    {s s' : Tcp σ} {actions : List (TcpAction σ)} (hround : TcpRound ask taken s.task)
    (hserving : Along (tcpStep srv sid) (fun s a => tcpServing ask.sess s a = true) s actions)
    (hrun : run (tcpStep srv sid) s actions = some s') :
    TcpRound ask (taken + actions.countP TcpAction.isRun) s'.task :=
  @run_counts _ _ _ _ (fun taken s => TcpRound ask taken s.task) _ (tcpRound_own hlaw)
    tcpRound_other _ _ _ _ hserving hrun hround

/-! ### QUIC -/

/-- How many of its steps the stream's task has taken. -/
inductive StreamRound (ask : Pending srv) : Nat → StreamTask → Prop where
  | fetch {chan : Channel} : ChannelAt ask.before (ask.frame.bytes ++ ask.rest) chan →
      StreamRound ask 0 ⟨ask.sess.id, ask.sess.apiKeyId, chan, .fetch⟩
  | judge {chan : Channel} : ChannelAt ask.before (ask.frame.bytes ++ ask.rest) chan →
      StreamRound ask 1 ⟨ask.sess.id, ask.sess.apiKeyId, chan, .judge (some ask.sess)⟩
  | key {chan : Channel} : ChannelAt ask.before (ask.frame.bytes ++ ask.rest) chan →
      StreamRound ask 2 ⟨ask.sess.id, ask.sess.apiKeyId, chan, .key⟩
  | touch {chan : Channel} : ChannelAt ask.before (ask.frame.bytes ++ ask.rest) chan →
      StreamRound ask 3 ⟨ask.sess.id, ask.sess.apiKeyId, chan, .touch ask.sess.key⟩
  | read {chan : Channel} : ChannelAt ask.before (ask.frame.bytes ++ ask.rest) chan →
      StreamRound ask 4 ⟨ask.sess.id, ask.sess.apiKeyId, chan, .read ask.sess.key⟩
  | dispatch {chan : Channel} : ChannelAt ask.before ask.rest chan →
      StreamRound ask 5
        ⟨ask.sess.id, ask.sess.apiKeyId, chan, .dispatch ask.sess.key ask.freq ask.seq⟩
  | answered {chan : Channel} : RequestAnswered ask chan →
      StreamRound ask 6 ⟨ask.sess.id, ask.sess.apiKeyId, chan, .ended⟩

def QuicAction.isStream (index : Nat) : QuicAction σ → Bool
  | .stream other _ => other == index
  | _ => false

/-- The session stays alive, and the server can write on the stream. -/
def quicServing (index : Nat) (sess : Session) (s : Quic σ) (action : QuicAction σ) : Bool :=
  sessionAlive sess s.shared &&
    match action with
    | .streamNet other action => other != index || action.keepsWriting
    | _ => true

/-- The round of the stream at the index. -/
def QuicRound (ask : Pending srv) (index taken : Nat) (s : Quic σ) : Prop :=
  ∃ task, s.streams[index]? = some task ∧ StreamRound ask taken task

theorem StreamRound.net {ask : Pending srv} {taken : Nat} {task : StreamTask} {chan' : Channel}
    (h : StreamRound ask taken task) {now : Instant} {action : NetAction}
    (hkeeps : action.keepsWriting = true) (hnet : task.chan.net now action = some chan') :
    StreamRound ask taken { task with chan := chan' } := by
  cases h with
  | fetch hat => exact .fetch (hat.net hkeeps hnet)
  | judge hat => exact .judge (hat.net hkeeps hnet)
  | key hat => exact .key (hat.net hkeeps hnet)
  | touch hat => exact .touch (hat.net hkeeps hnet)
  | read hat => exact .read (hat.net hkeeps hnet)
  | dispatch hat => exact .dispatch (hat.net hkeeps hnet)
  | answered hdone => exact .answered (hdone.net hkeeps hnet)

theorem StreamRound.next (hlaw : srv.aead.Lawful) {ask : Pending srv} {sh : Shared σ}
    {taken : Nat} {task : StreamTask} (h : StreamRound ask taken task) (htaken : taken < 6)
    (halive : sessionAlive ask.sess sh = true) (nonce : Nonce) :
    ∃ sh' task', streamRun srv nonce sh task = some (sh', task') ∧
      StreamRound ask (taken + 1) task' := by
  obtain ⟨hstored, hcheck⟩ := sessionAlive_iff.mp halive
  cases h with
  | @fetch chan hat =>
    refine ⟨sh, _, ?_, .judge hat⟩
    simp only [streamRun, StreamTask.next, hstored]
  | @judge chan hat =>
    refine ⟨sh, _, ?_, .key (hat.note [.checked (some ask.sess) sh.now])⟩
    simp [streamRun, StreamTask.next, hcheck]
  | @key chan hat =>
    refine ⟨sh, _, ?_, .touch hat⟩
    simp only [streamRun, StreamTask.next, hstored, Option.elim_some]
  | @touch chan hat =>
    refine ⟨sh, _, ?_, .read hat⟩
    simp only [streamRun, StreamTask.next, touchSession_eq]
  | @read chan hat =>
    obtain ⟨recv, hread, hrest⟩ := hat.readRequest
    refine ⟨sh, _, ?_, .dispatch (hrest (chan.note (receivedFrame ask.sess.key chan.recv)).log)⟩
    simp only [streamRun, StreamTask.next, hread, Channel.note]
  | @dispatch chan hat =>
    let task : StreamTask :=
      ⟨ask.sess.id, ask.sess.apiKeyId, chan, .dispatch ask.sess.key ask.freq ask.seq⟩
    have hanswerable : Answerable srv (toRequest task.sessionId task.apiKeyId ask.freq) :=
      ask.answerable
    obtain ⟨cause, resp, hanswer, howed⟩ :=
      quicServe_owed hanswerable ask.sess.key ask.seq sh.app
    have hnoted := hat.note (dispatchEvents
      (quicServe srv task ask.sess.key ask.freq ask.seq sh.app).called
      (toRequest ask.sess.id ask.sess.apiKeyId ask.freq) ask.seq)
    refine ⟨{ sh with app := (quicServe srv task ask.sess.key ask.freq ask.seq sh.app).app }, _,
      ?_, .answered (hnoted.reply hlaw nonce cause howed)⟩
    simp only [task] at hanswer
    simp only [streamRun, StreamTask.next, hanswer, task]
  | answered _ => omega

theorem quicRound_own (hlaw : srv.aead.Lawful) {ask : Pending srv} {sid : UInt64}
    {index taken : Nat} {s s' : Quic σ} {action : QuicAction σ}
    (hround : QuicRound ask index taken s) (hserving : quicServing index ask.sess s action = true)
    (hown : action.isStream index = true) (h : quicStep srv sid s action = some s') :
    QuicRound ask index (taken + 1) s' := by
  unfold quicServing at hserving
  rw [Bool.and_eq_true] at hserving
  obtain ⟨task, htask, hstream⟩ := hround
  cases action with
  | stream other nonce =>
    obtain rfl := beq_iff_eq.mp hown
    simp only [quicStep, htask] at h
    by_cases htaken : taken < 6
    · obtain ⟨sh', task', hnext, hstream'⟩ := hstream.next hlaw htaken hserving.1 nonce
      rw [hnext] at h
      obtain rfl := Option.some.inj h
      have hlt := (List.getElem?_eq_some_iff.mp htask).1
      exact ⟨task', List.getElem?_set_self hlt, hstream'⟩
    · -- the task has ended, and has no more steps
      cases hstream with
      | answered _ => cases h
      | _ => omega
  | _ => cases hown

/-- Steps that are not the stream's own leave it, but for what the network does. -/
theorem quicStep_otherStream {sid : UInt64} {s s' : Quic σ} {action : QuicAction σ}
    (h : quicStep srv sid s action = some s') {index : Nat} {task : StreamTask}
    (htask : s.streams[index]? = some task) (hother : action.isStream index = false) :
    s'.streams[index]? = some task ∨
      ∃ net chan, action = .streamNet index net ∧ task.chan.net s.shared.now net = some chan ∧
        s'.streams[index]? = some { task with chan } := by
  have hlt := (List.getElem?_eq_some_iff.mp htask).1
  unfold quicStep at h
  cases action with
  | env action =>
    obtain ⟨sh, -, rfl⟩ := Option.map_eq_some_iff.mp h
    exact .inl htask
  | net action =>
    obtain ⟨chan, -, rfl⟩ := Option.map_eq_some_iff.mp h
    exact .inl htask
  | run nonce =>
    left
    rw [quicRun_streams h]
    exact htask
  | openStream =>
    dsimp only at h
    split at h
    · obtain rfl := Option.some.inj h
      left
      dsimp only
      rw [List.getElem?_append_left hlt]
      exact htask
    · cases h
  | lost =>
    dsimp only at h
    split at h
    · obtain rfl := Option.some.inj h
      exact .inl htask
    · cases h
  | streamNet other action =>
    dsimp only at h
    split at h
    · cases h
    · rename_i found hfound
      obtain ⟨chan, hchan, rfl⟩ := Option.map_eq_some_iff.mp h
      by_cases heq : other = index
      · subst heq
        rw [htask] at hfound
        obtain rfl := Option.some.inj hfound
        exact .inr ⟨action, chan, rfl, hchan, List.getElem?_set_self hlt⟩
      · left
        dsimp only
        rw [List.getElem?_set_ne heq]
        exact htask
  | stream other nonce =>
    have hne : other ≠ index := by simpa [QuicAction.isStream] using hother
    dsimp only at h
    split at h
    · cases h
    · obtain ⟨next, -, rfl⟩ := Option.map_eq_some_iff.mp h
      left
      dsimp only
      rw [List.getElem?_set_ne hne]
      exact htask

theorem quicRound_other {ask : Pending srv} {sid : UInt64} {index taken : Nat} {s s' : Quic σ}
    {action : QuicAction σ} (hround : QuicRound ask index taken s)
    (hserving : quicServing index ask.sess s action = true)
    (hother : action.isStream index = false) (h : quicStep srv sid s action = some s') :
    QuicRound ask index taken s' := by
  obtain ⟨task, htask, hstream⟩ := hround
  obtain hkept | ⟨net, chan, rfl, hnet, hmoved⟩ := quicStep_otherStream h htask hother
  · exact ⟨task, hkept, hstream⟩
  · have hkeeps : net.keepsWriting = true := by
      simpa [quicServing] using (Bool.and_eq_true_iff.mp hserving).2
    exact ⟨_, hmoved, hstream.net hkeeps hnet⟩

theorem quicRound_run (hlaw : srv.aead.Lawful) {ask : Pending srv} {sid : UInt64}
    {index taken : Nat} {s s' : Quic σ} {actions : List (QuicAction σ)}
    (hround : QuicRound ask index taken s)
    (hserving : Along (quicStep srv sid) (fun s a => quicServing index ask.sess s a = true) s
      actions)
    (hrun : run (quicStep srv sid) s actions = some s') :
    QuicRound ask index (taken + actions.countP (QuicAction.isStream index)) s' :=
  run_counts (quicRound_own hlaw) quicRound_other hserving hrun hround

/-! ### The answer -/

/-- Over both transports, from any moment of a round: while the session is alive the
task's next step is enabled, and with the last step of the round one answer was
written, which reaches the client exactly if it fits a frame. -/
theorem request_answered_iff (srv : Server σ) (hlaw : srv.aead.Lawful) (sid : UInt64)
    (ask : Pending srv) (taken : Nat) :
    (∀ s actions s', TcpRound ask taken s.task →
      Along (tcpStep srv sid) (fun s a => tcpServing ask.sess s a = true) s actions →
      run (tcpStep srv sid) s actions = some s' →
        (taken + actions.countP TcpAction.isRun < 5 → sessionAlive ask.sess s'.shared = true →
          ∀ nonce, (tcpStep srv sid s' (.run nonce)).isSome) ∧
        (taken + actions.countP TcpAction.isRun = 5 →
          s'.task.phase = .loop ask.sess .fetch ∧ RequestAnswered ask s'.task.chan)) ∧
    ∀ index s actions s', QuicRound ask index taken s →
      Along (quicStep srv sid) (fun s a => quicServing index ask.sess s a = true) s actions →
      run (quicStep srv sid) s actions = some s' →
        (taken + actions.countP (QuicAction.isStream index) < 6 →
          sessionAlive ask.sess s'.shared = true →
            ∀ nonce, (quicStep srv sid s' (.stream index nonce)).isSome) ∧
        (taken + actions.countP (QuicAction.isStream index) = 6 →
          ∃ task, s'.streams[index]? = some task ∧ task.phase = .ended ∧
            RequestAnswered ask task.chan) := by
  constructor
  · intro s actions s' hround hserving hrun
    have hreached := tcpRound_run hlaw hround hserving hrun
    constructor
    · intro htaken halive nonce
      obtain ⟨sh', task', hnext, -⟩ := hreached.next hlaw sid htaken halive nonce
      simp only [tcpStep, hnext, Option.map_some, Option.isSome_some]
    · intro htaken
      rw [htaken] at hreached
      generalize s'.task = task at hreached
      cases hreached with
      | answered hdone => exact ⟨rfl, hdone⟩
      | past hpast => omega
  · intro index s actions s' hround hserving hrun
    obtain ⟨task, htask, hreached⟩ := quicRound_run hlaw hround hserving hrun
    constructor
    · intro htaken halive nonce
      obtain ⟨sh', task', hnext, -⟩ := hreached.next hlaw htaken halive nonce
      simp only [quicStep, htask, hnext, Option.map_some, Option.isSome_some]
    · intro htaken
      rw [htaken] at hreached
      cases hreached with
      | answered hdone => exact ⟨_, htask, rfl, hdone⟩

/-- A map with one entry of this many bytes. -/
def bulk (size : Nat) : Tlv.Map := ⟨[("data", .bytes (List.replicate size 0))]⟩

theorem length_encodeMap_bulk (size : Nat) :
    size ≤ (Tlv.encodeMap (bulk size)).length ∧
      (Tlv.encodeMap (bulk size)).length ≤ size + 40 := by
  have hvarint := Tlv.length_encodeVarint_le_ten
  have hkey : (Tlv.payloadBytes (.string "data")).length = 4 := by rfl
  have hdata : (Tlv.payloadBytes (.bytes (List.replicate size 0))).length = size := by
    rw [Tlv.payloadBytes, List.length_replicate]
  have houter := hvarint (UInt64.ofNat (Tlv.payloadBytes (.map (bulk size))).length)
  have hinner := hvarint
    (UInt64.ofNat (Tlv.payloadBytes (.bytes (List.replicate size 0))).length)
  have hname := hvarint (UInt64.ofNat (Tlv.payloadBytes (.string "data")).length)
  have hentry : (Tlv.payloadBytes (.map (bulk size))).length =
      (Tlv.encode (.string "data")).length +
        (Tlv.encode (.bytes (List.replicate size 0))).length := by
    rw [Tlv.payloadBytes_map, bulk, List.flatMap_singleton, Tlv.encodeEntry, List.length_append]
  unfold Tlv.encodeMap
  rw [Tlv.encode, Tlv.length_frameElement]
  simp only [Tlv.encode, Tlv.length_frameElement] at hentry
  omega

/-- A server whose one handler gives the same response to every request. -/
def constantServer (resp : Response) : Server Nat where
  aead := keyTagAead
  keys := exampleKeys
  handlers := fun opcode =>
    if opcode = 5 then some (.sync fun _ calls => .returned (.ok resp) (calls + 1)) else none

/-- The example request at the head of the channel, nothing written, nothing behind it. -/
def examplePending (resp : Response) : Pending (constantServer resp) where
  sess := exampleSession
  frame := ⟨9, List.replicate 12 7 ++ ([0, 5] ++ (anonymousSession 1).sessionKey.take tagSize)⟩
  freq := ⟨5, none⟩
  seq := 9
  before := []
  rest := []
  fits := Nat.le_of_ble_eq_true (by rfl)
  decodes := by rfl
  answerable := .inr ⟨_, rfl, fun app => ⟨_, app + 1, rfl⟩⟩

/-- The session is in the store, and the request's frame has arrived. -/
def waitingShared : Shared Nat := ⟨0, (SessionStore.new ⟨100, 100⟩).insert exampleSession, 0⟩

def waitingTcp : Tcp Nat :=
  ⟨waitingShared, ⟨⟨⟨exampleFrame, .wouldBlock⟩, .vec, []⟩, .loop exampleSession .fetch⟩⟩

def waitingQuic : Quic Nat :=
  ⟨waitingShared, .opened, .accept exampleSession,
    [⟨1, "", ⟨⟨exampleFrame, .wouldBlock⟩, .vec, []⟩, .fetch⟩]⟩

def tcpRoundActions : List (TcpAction Nat) := List.replicate 5 (.run exampleNonce)

def quicRoundActions : List (QuicAction Nat) := List.replicate 6 (.stream 0 exampleNonce)

/-- The round runs to its end, whatever the response. -/
theorem constantServer_tcp (resp : Response) :
    TcpRound (examplePending resp) 0 waitingTcp.task ∧
    Along (tcpStep (constantServer resp) 1)
      (fun s a => tcpServing (examplePending resp).sess s a = true) waitingTcp tcpRoundActions ∧
    ∃ s', run (tcpStep (constantServer resp) 1) waitingTcp tcpRoundActions = some s' := by
  refine ⟨.fetch ⟨rfl, ?_⟩, of_decide_eq_true (by rfl), Option.isSome_iff_exists.mp (by rfl)⟩
  exact ⟨[], by rfl⟩

theorem constantServer_quic (resp : Response) :
    QuicRound (examplePending resp) 0 0 waitingQuic ∧
    Along (quicStep (constantServer resp) 1)
      (fun s a => quicServing 0 (examplePending resp).sess s a = true) waitingQuic
      quicRoundActions ∧
    ∃ s', run (quicStep (constantServer resp) 1) waitingQuic quicRoundActions = some s' := by
  refine ⟨⟨_, rfl, .fetch ⟨rfl, ?_⟩⟩, of_decide_eq_true (by rfl),
    Option.isSome_iff_exists.mp (by rfl)⟩
  exact ⟨[], by rfl⟩

theorem request_answered_newResponse :
    (∃ s', run (tcpStep (constantServer (newResponse .new)) 1) waitingTcp tcpRoundActions =
        some s' ∧ RequestAnswered (examplePending (newResponse .new)) s'.task.chan) ∧
    ∃ s' task, run (quicStep (constantServer (newResponse .new)) 1) waitingQuic
        quicRoundActions = some s' ∧ s'.streams[0]? = some task ∧
      RequestAnswered (examplePending (newResponse .new)) task.chan := by
  obtain ⟨htcp, hquic⟩ := request_answered_iff (constantServer (newResponse .new))
    keyTagAead_lawful 1 (examplePending (newResponse .new)) 0
  constructor
  · obtain ⟨hround, hserving, s', hrun⟩ := constantServer_tcp (newResponse .new)
    exact ⟨s', hrun, ((htcp _ _ s' hround hserving hrun).2 rfl).2⟩
  · obtain ⟨hround, hserving, s', hrun⟩ := constantServer_quic (newResponse .new)
    obtain ⟨task, htask, -, hdone⟩ := (hquic 0 _ _ s' hround hserving hrun).2 rfl
    exact ⟨s', task, hrun, htask, hdone⟩

/-- A response of this many bytes. -/
def bulkResponse (size : Nat) : Response := ⟨.success, some (bulk size), 0⟩

/-- From the frame limit on no such response fits. -/
theorem not_fits_bulkResponse {size : Nat} (h : 1048576 ≤ size) :
    ¬ReplyFits (bulkResponse size) := by
  have hlength := (length_encodeMap_bulk size).1
  unfold ReplyFits bulkResponse
  simp only [appendPayload, List.length_append, toNat_maxFrameSize, nonceSize, tagSize]
  omega

/-- An answer that does not fit answers nothing. -/
theorem RequestAnswered.unanswered {resp : Response} {chan : Channel}
    (h : RequestAnswered (examplePending resp) chan) (hlong : ¬ReplyFits resp) :
    ¬∃ out, chan.send.written = [] ++ out ∧
      AnsweredOnce keyTagAead exampleSession.key 9 resp.status out := by
  obtain ⟨app, got, out, howed, hat, hiff⟩ := h
  rintro ⟨out', hwritten, hanswered⟩
  rw [hat.send] at hwritten
  obtain rfl : out = out' := hwritten
  cases howed with
  | unregistered hnone => cases hnone
  | failed hhandler hresult =>
    cases hhandler
    cases hresult
  | handled hhandler hresult =>
    cases hhandler
    cases hresult
    exact hlong (hiff.mp hanswered)

/-- The handler returned, the session is alive and the server can write, but what
is written is no answer. -/
theorem long_response_unanswered {resp : Response} (hlong : ¬ReplyFits resp) :
    (∃ s', run (tcpStep (constantServer resp) 1) waitingTcp tcpRoundActions = some s' ∧
      Along (tcpStep (constantServer resp) 1)
        (fun s a => tcpServing exampleSession s a = true) waitingTcp tcpRoundActions ∧
      ¬∃ out, s'.task.chan.send.written = [] ++ out ∧
        AnsweredOnce keyTagAead exampleSession.key 9 resp.status out) ∧
    ∃ s' task, run (quicStep (constantServer resp) 1) waitingQuic quicRoundActions = some s' ∧
      Along (quicStep (constantServer resp) 1)
        (fun s a => quicServing 0 exampleSession s a = true) waitingQuic quicRoundActions ∧
      s'.streams[0]? = some task ∧ task.phase = .ended ∧
      ¬∃ out, task.chan.send.written = [] ++ out ∧
        AnsweredOnce keyTagAead exampleSession.key 9 resp.status out := by
  constructor
  · obtain ⟨hround, hserving, s', hrun⟩ := constantServer_tcp resp
    have hreached := tcpRound_run keyTagAead_lawful hround hserving hrun
    refine ⟨s', hrun, hserving, ?_⟩
    generalize s'.task = task at hreached
    cases hreached with
    | answered hdone => exact hdone.unanswered hlong
    | past hpast => exact absurd hpast (by decide)
  · obtain ⟨hround, hserving, s', hrun⟩ := constantServer_quic resp
    obtain ⟨task, htask, hreached⟩ := quicRound_run keyTagAead_lawful hround hserving hrun
    cases hreached with
    | answered hdone => exact ⟨s', _, hrun, hserving, htask, rfl, hdone.unanswered hlong⟩

/-- A handler that returns a megabyte of data: the session is alive, the server
can write and the round runs to its end, but no answer is written. -/
theorem megabyte_unanswered :
    (∃ s', run (tcpStep (constantServer (bulkResponse 1048576)) 1) waitingTcp tcpRoundActions =
        some s' ∧
      Along (tcpStep (constantServer (bulkResponse 1048576)) 1)
        (fun s a => tcpServing exampleSession s a = true) waitingTcp tcpRoundActions ∧
      ¬∃ out, s'.task.chan.send.written = [] ++ out ∧
        AnsweredOnce keyTagAead exampleSession.key 9 .success out) ∧
    ∃ s' task, run (quicStep (constantServer (bulkResponse 1048576)) 1) waitingQuic
        quicRoundActions = some s' ∧
      Along (quicStep (constantServer (bulkResponse 1048576)) 1)
        (fun s a => quicServing 0 exampleSession s a = true) waitingQuic quicRoundActions ∧
      s'.streams[0]? = some task ∧ task.phase = .ended ∧
      ¬∃ out, task.chan.send.written = [] ++ out ∧
        AnsweredOnce keyTagAead exampleSession.key 9 .success out :=
  long_response_unanswered (not_fits_bulkResponse (Nat.le_refl 1048576))

end Hush.Server
