import Hush.Client.Correlated
import Hush.Client.QuinnCalls
import Hush.Server.StreamService
import Hush.Server.StreamTalk

/-! Calls over QUIC. Every call has a stream of its own, so that its response is the answer to its
own request in every run: with calls and readers dropped anywhere, streams cut, and the session
expiring. -/
namespace Hush.Client

open Hush.Foundation BigEndian Execution Link
open Hush.Frame hiding Response
open Hush.Session
open Hush.Server (NetAction Quic QuicAction StreamTask StreamTalk Shared QuicOpened arrivedBytes
  answers reads calls quicStep quicServe quicAccepted ResponseKept Refused exampleServer
  exampleNonce exampleSession anonymousHello)

variable {σ : Type}

/-! ### The two sides -/

/-- A client and the connection's tasks on the server; for each stream there, the call that it was
opened by. -/
structure Mux (σ : Type) where
  client : QuinnClient
  server : Quic σ
  bound : List Nat

/-- The two ends of a stream: the call, by its index, and the task. -/
def Mux.ends (m : Mux σ) (stream : Nat) : Option (Nat × QuinnCall × StreamTask) :=
  m.bound[stream]?.bind fun index => m.client.calls[index]?.bind fun call =>
    m.server.streams[stream]?.map fun task => (index, call, task)

inductive MuxAction (σ : Type) where
  | client (action : QuinnAction)
  | server (action : QuicAction σ)
  | accept (index : Nat)
  | toServer (stream count : Nat)
  | toClient (stream count : Nat)
  | handler (stream : Nat) (bytes : List UInt8)

/-- Bytes come over the streams only. -/
def QuinnAction.allowed : QuinnAction → Bool
  | .move _ (.net (.deliver _)) => false
  | _ => true

/-- Nothing more is written to the stream. -/
def muted (task : StreamTask) : Bool :=
  match task.chan.send.room with
  | some (0, _) => true
  | _ => false

/-- A stream ends for the server once its call is done with it, or with the whole connection; one
that stopped taking bytes takes no more. -/
def Mux.allows (m : Mux σ) : QuicAction σ → Bool
  | .openStream => false
  | .streamNet stream action =>
    match m.ends stream, action with
    | some (_, call, task), .hangup _ => call.isOver || muted task
    | some (_, _, task), .limit _ _ => task.chan.send.room.isNone
    | _, _ => false
  | _ => true

/-- A streaming handler has the stream, and may write to it. -/
def handedOver (srv : Server.Server σ) (task : StreamTask) : Bool :=
  match task.phase with
  | .ended => (calls task.chan.log).any fun call =>
      match srv.handlers call.1.opcode with
      | some (.stream _) => true
      | _ => false
  | _ => false

/-- The task after its handler has written to the stream. -/
def handlerWrote (task : StreamTask) (bytes : List UInt8) : StreamTask :=
  { task with chan := { task.chan with send := { task.chan.send with
      written := task.chan.send.written ++ bytes } } }

def muxStep (srv : Server.Server σ) (sid : UInt64) (m : Mux σ) : MuxAction σ → Option (Mux σ)
  | .client action =>
    if action.allowed then
      (quinnStep srv.aead m.client action).map fun client => { m with client }
    else none
  | .server action =>
    if m.allows action then (quicStep srv sid m.server action).map fun server => { m with server }
    else none
  | .accept index => m.client.calls[index]?.bind fun call =>
      if call.stream.isSome ∧ index ∉ m.bound then
        (quicStep srv sid m.server .openStream).map fun server =>
          { m with server, bound := m.bound ++ [index] }
      else none
  | .toServer stream count => (m.ends stream).bind fun (_, call, task) =>
      let bytes := inFlight call.written (arrivedBytes task.chan.log) count
      (quicStep srv sid m.server (.streamNet stream (.deliver bytes))).map fun server =>
        { m with server }
  | .toClient stream count => (m.ends stream).bind fun (index, call, task) =>
      let bytes := inFlight task.chan.send.written call.received count
      (quinnStep srv.aead m.client (.move index (.net (.deliver bytes)))).map fun client =>
        { m with client }
  | .handler stream bytes => m.server.streams[stream]?.bind fun task =>
      if handedOver srv task then
        some { m with server := { m.server with
          streams := m.server.streams.set stream (handlerWrote task bytes) } }
      else none

/-- What a step of the two sides can do, one case for each kind of action. -/
inductive MuxSteps (srv : Server.Server σ) (sid : UInt64) (m : Mux σ) :
    MuxAction σ → Mux σ → Prop where
  | client {action : QuinnAction} {client : QuinnClient} : action.allowed = true →
      quinnStep srv.aead m.client action = some client →
        MuxSteps srv sid m (.client action) { m with client }
  | server {action : QuicAction σ} {server : Quic σ} : m.allows action = true →
      quicStep srv sid m.server action = some server →
        MuxSteps srv sid m (.server action) { m with server }
  | accept {index : Nat} {call : QuinnCall} {server : Quic σ} :
      m.client.calls[index]? = some call → index ∉ m.bound →
      quicStep srv sid m.server .openStream = some server →
        MuxSteps srv sid m (.accept index) { m with server, bound := m.bound ++ [index] }
  | toServer {stream count index : Nat} {call : QuinnCall} {task : StreamTask}
      {server : Quic σ} : m.ends stream = some (index, call, task) →
      quicStep srv sid m.server (.streamNet stream (.deliver
        (inFlight call.written (arrivedBytes task.chan.log) count))) = some server →
        MuxSteps srv sid m (.toServer stream count) { m with server }
  | toClient {stream count index : Nat} {call : QuinnCall} {task : StreamTask}
      {client : QuinnClient} : m.ends stream = some (index, call, task) →
      quinnStep srv.aead m.client (.move index (.net (.deliver
        (inFlight task.chan.send.written call.received count)))) = some client →
        MuxSteps srv sid m (.toClient stream count) { m with client }
  | handler {stream : Nat} {bytes : List UInt8} {task : StreamTask} :
      m.server.streams[stream]? = some task → handedOver srv task = true →
        MuxSteps srv sid m (.handler stream bytes) { m with server := { m.server with
          streams := m.server.streams.set stream (handlerWrote task bytes) } }

theorem muxStep_steps {srv : Server.Server σ} {sid : UInt64} {m m' : Mux σ}
    {action : MuxAction σ} (h : muxStep srv sid m action = some m') :
    MuxSteps srv sid m action m' := by
  cases action with
  | client action =>
    unfold muxStep at h
    dsimp only at h
    split at h
    · rename_i hallowed
      obtain ⟨client, hmoved, rfl⟩ := Option.map_eq_some_iff.mp h
      exact .client hallowed hmoved
    · cases h
  | server action =>
    unfold muxStep at h
    dsimp only at h
    split at h
    · rename_i hallowed
      obtain ⟨server, hmoved, rfl⟩ := Option.map_eq_some_iff.mp h
      exact .server hallowed hmoved
    · cases h
  | accept index =>
    obtain ⟨call, hcall, h⟩ := Option.bind_eq_some_iff.mp h
    split at h
    · rename_i hopen
      obtain ⟨server, hmoved, rfl⟩ := Option.map_eq_some_iff.mp h
      exact .accept hcall hopen.2 hmoved
    · cases h
  | toServer stream count =>
    obtain ⟨⟨index, call, task⟩, hends, h⟩ := Option.bind_eq_some_iff.mp h
    obtain ⟨server, hmoved, rfl⟩ := Option.map_eq_some_iff.mp h
    exact .toServer hends hmoved
  | toClient stream count =>
    obtain ⟨⟨index, call, task⟩, hends, h⟩ := Option.bind_eq_some_iff.mp h
    obtain ⟨client, hmoved, rfl⟩ := Option.map_eq_some_iff.mp h
    exact .toClient hends hmoved
  | handler stream bytes =>
    obtain ⟨task, htask, h⟩ := Option.bind_eq_some_iff.mp h
    split at h
    · rename_i hhanded
      obtain rfl := Option.some.inj h
      exact .handler htask hhanded
    · cases h

/-- Both sides once the session is established: no call yet, and no stream. -/
def connected (key : List UInt8) (server : Quic σ) : Mux σ := ⟨⟨key, 0, []⟩, server, []⟩

/-- No length of a frame so far has wrapped to one within the limit. -/
structure MuxKept (m : Mux σ) : Prop where
  requests : ∀ call ∈ m.client.calls, RequestKept call.req
  responses : ∀ task ∈ m.server.streams, ∀ answer ∈ answers task.chan.log, ResponseKept answer.2.2

/-! ### What a call gets -/

/-- The response of a call is the answer of its stream's task, as it arrives: that the session has
expired, or the one to the call's own request, which was read on that stream alone. -/
structure Replies (srv : Server.Server σ) (sess : Session) (req : Request) (frame : Frame)
    (resp : Frame.Response) (task : StreamTask) : Prop where
  request : Encodes srv.aead sess.key req frame
  answer : ∃ cause seq sent, answers task.chan.log = [(cause, seq, sent)] ∧
    resp = ⟨sent.status, arrival sent.payload, seq⟩ ∧
    (Sendable sent.payload → Receivable sent.payload → resp.payload = sent.payload) ∧
    ((cause, seq, sent) = (.expiry, 0, Server.expiredResponse) ∨
      seq = frame.seq ∧ reads task.chan.log = [(sess.key, frame)] ∧
        ∃ app, (quicServe srv task sess.key ⟨req.opcode, arrival req.payload⟩ seq app).answer =
          some (cause, sent))

/-! ### The invariant -/

/-- The two ends of a stream. -/
structure Paired (call : QuinnCall) (task : StreamTask) : Prop where
  arrived : arrivedBytes task.chan.log <+: call.written
  received : call.received <+: task.chan.send.written
  cut : task.chan.recv.ending ≠ .wouldBlock → call.isOver = true ∨ task.chan.Muted
  refused : RequestKept call.req → Refused task → call.phase.Given ∨ task.chan.send.written = []

structure MuxOk (srv : Server.Server σ) (config : SessionConfig) (sid : UInt64) (sess : Session)
    (m : Mux σ) : Prop where
  key : m.client.sessionKey = sess.key
  calls : ∀ call ∈ m.client.calls, QuinnCall.Ok srv.aead sess.key call.req call.phase call.stream
  opened : QuicOpened (StreamTalk srv) config sid m.server sess
  nodup : m.bound.Nodup
  length : m.bound.length = m.server.streams.length
  bound : ∀ index ∈ m.bound, index < m.client.calls.length
  fresh : ∀ {index : Nat} {call : QuinnCall}, m.client.calls[index]? = some call →
    index ∉ m.bound → call.received = []
  paired : ∀ {stream index : Nat} {call : QuinnCall} {task : StreamTask},
    m.ends stream = some (index, call, task) → Paired call task

theorem Mux.ends_eq_some {m : Mux σ} {stream index : Nat} {call : QuinnCall} {task : StreamTask} :
    m.ends stream = some (index, call, task) ↔ m.bound[stream]? = some index ∧
      m.client.calls[index]? = some call ∧ m.server.streams[stream]? = some task := by
  unfold Mux.ends
  simp only [Option.bind_eq_some_iff, Option.map_eq_some_iff, Prod.mk.injEq]
  constructor
  · rintro ⟨i, hbound, c, hcall, t, htask, rfl, rfl, rfl⟩
    exact ⟨hbound, hcall, htask⟩
  · rintro ⟨hbound, hcall, htask⟩
    exact ⟨index, hbound, call, hcall, task, htask, rfl, rfl, rfl⟩

theorem muted_iff {task : StreamTask} : muted task = true ↔ task.chan.Muted := by
  unfold muted Server.Channel.Muted
  split
  · rename_i kind hroom
    exact iff_of_true rfl ⟨kind, hroom⟩
  · rename_i hroom
    refine iff_of_false (by simp) ?_
    rintro ⟨kind, hzero⟩
    exact hroom kind hzero

theorem quicRun_streams {srv : Server.Server σ} {sid : UInt64} {s s' : Quic σ} {nonce : Nonce}
    (h : quicStep srv sid s (.run nonce) = some s') : s'.streams = s.streams := by
  change Server.quicRun srv sid s = some s' at h
  unfold Server.quicRun at h
  split at h
  · split at h
    · cases h
    · obtain rfl := Option.some.inj h
      rfl
    · obtain rfl := Option.some.inj h
      rfl
  · obtain rfl := Option.some.inj h
    rfl
  · cases h
  · obtain rfl := Option.some.inj h
    rfl
  · cases h

/-- A request that was written whole, or is being written, is one to the server. -/
theorem ask_of_encodes {aead : Aead} (hlaw : aead.Lawful) {key frameBytes : List UInt8}
    {req : Request} {frame : Frame} (hencodes : Encodes aead key req frame)
    (hframe : encodeFrame frame.seq frame.data = .ok frameBytes) (hkept : RequestKept req) :
    ∃ ask : Server.Ask aead key, ask.frame = frame ∧
      ask.freq = ⟨req.opcode, arrival req.payload⟩ ∧ ask.seq = frame.seq := by
  obtain ⟨nonce, hbody⟩ := hencodes
  unfold RequestKept at hkept
  rw [← length_sealBody hlaw hbody] at hkept
  exact ⟨⟨frame, _, _, fits_of_encodeFrame hframe hkept,
    decodeRequest_encodeRequestBody hlaw frame.seq hbody⟩, rfl, rfl, rfl⟩

/-- The server waits for the rest of a request, and for its first byte. -/
theorem awaits_part {aead : Aead} {key bytes : List UInt8} {ask : Server.Ask aead key}
    (hpart : bytes <+: ask.frame.bytes) {e : RequestError}
    (herror : readRequestAsync aead ⟨bytes, .wouldBlock⟩ (some key) = .error e) :
    e = .frame (.io .wouldBlock) := by
  obtain ⟨later, hlater⟩ := hpart
  have hbytes : bytes ++ later = ask.frame.bytes ++ [] := by rw [hlater, List.append_nil]
  have hread : (∃ more, readRequestAsync aead ⟨bytes, .wouldBlock⟩ (some key) =
      .ok ((ask.freq, ask.seq), ⟨more, .wouldBlock⟩) ∧ more ++ later = []) ∨
        (later ≠ [] ∧ Server.AwaitsBytes aead key ⟨bytes, .wouldBlock⟩) :=
    Server.readRequest_ask hbytes fun hclosed => absurd rfl hclosed
  obtain ⟨more, hread, -⟩ | ⟨-, hread⟩ := hread
  · cases herror.symm.trans hread
  · exact Except.error.inj (herror.symm.trans hread)

theorem awaits_nothing {aead : Aead} {key : List UInt8} {e : RequestError}
    (herror : readRequestAsync aead ⟨[], .wouldBlock⟩ (some key) = .error e) :
    e = .frame (.io .wouldBlock) := (Except.error.inj herror).symm

/-- A call whose request cannot be read on its stream has given its response up. -/
theorem given_of_unreadable {srv : Server.Server σ} {sess : Session} {call : QuinnCall}
    {task : StreamTask} {e : RequestError} (hlaw : srv.aead.Lawful)
    (hok : QuinnCall.Ok srv.aead sess.key call.req call.phase call.stream)
    (hpair : Paired call task) (hkept : RequestKept call.req)
    (huntouched : Server.Untouched task.chan) (hmute : ¬task.chan.Muted)
    (herror : readRequestAsync srv.aead task.chan.recv (some sess.key) = .error e)
    (hready : e ≠ .frame (.io .wouldBlock)) : call.phase.Given := by
  have hbytes : task.chan.recv.bytes <+: call.written := by
    have hinStep := huntouched.inStep
    unfold Server.InStep Server.readBytes at hinStep
    rw [huntouched.reads] at hinStep
    exact (show task.chan.recv.bytes = _ from hinStep) ▸ hpair.arrived
  have hcut := hpair.cut
  have hreceived := hpair.received
  rw [huntouched.written, List.prefix_nil] at hreceived
  generalize task.chan.recv = recv at hbytes hcut herror
  obtain ⟨bytes, ending⟩ := recv
  obtain ⟨kind, req, stream, phase⟩ := call
  dsimp only at hok hkept hbytes hcut
  by_cases hending : ending = .wouldBlock
  · -- the server would go on waiting for the rest of what the call writes
    subst hending
    have hnothing (hwritten : QuinnCall.written ⟨kind, req, stream, phase⟩ = []) : False := by
      rw [hwritten, List.prefix_nil] at hbytes
      subst hbytes
      exact hready (awaits_nothing herror)
    have hsaid {frame : Frame} {frameBytes : List UInt8}
        (hencodes : Encodes srv.aead sess.key req frame)
        (hframe : encodeFrame frame.seq frame.data = .ok frameBytes)
        (hpart : QuinnCall.written ⟨kind, req, stream, phase⟩ <+: frame.bytes) : False := by
      obtain ⟨ask, rfl, -⟩ := ask_of_encodes hlaw hencodes hframe hkept
      exact hready (awaits_part (hbytes.trans hpart) herror)
    cases hok with
    | called | numbered | encoded _ _ => exact (hnothing rfl).elim
    | opened hwritten _ => exact (hnothing hwritten).elim
    | @busy frame _ phase stream hencodes hframe _ hat =>
      refine (hsaid hencodes hframe ?_).elim
      obtain ⟨left, -, hwhole, -⟩ | hwhole := hat.said_eq
      · exact ⟨left, hwhole⟩
      · exact hwhole ▸ List.prefix_rfl
    | answered hencodes hframe hwritten _ _ _ _ =>
      exact (hsaid hencodes hframe (hwritten ▸ List.prefix_rfl)).elim
    | failed | dropped => trivial
  · obtain hover | hmuted := hcut hending
    · cases hok with
      | @busy _ _ phase _ _ _ _ _ =>
        cases phase with
        | streaming => trivial
        | _ => cases hover
      | @answered _ _ lenBuf body _ stream _ _ _ htaken hlen _ _ =>
        -- nothing has arrived that could have been the answer
        have hnone : stream.taken ++ stream.recv.bytes = [] := hreceived
        rw [htaken] at hnone
        have hlength := congrArg List.length hnone
        simp [hlen] at hlength
      | failed | dropped => trivial
      | _ => cases hover
    · exact absurd hmuted hmute

namespace MuxOk

variable {srv : Server.Server σ} {config : SessionConfig} {sid : UInt64} {sess : Session}
  {m : Mux σ}

/-- A call moves on; what has arrived for it is what its stream's task wrote. -/
theorem setCall (h : MuxOk srv config sid sess m) {index : Nat} {call call' : QuinnCall}
    {next seq : UInt32} {move : QuinnMove} (hcall : m.client.calls[index]? = some call)
    (hmoves : QuinnMoves srv.aead sess.key next call move call')
    (harrives : ∀ stream task, m.ends stream = some (index, call, task) →
      call'.received <+: task.chan.send.written)
    (hfresh : index ∉ m.bound → call'.received = []) :
    MuxOk srv config sid sess { m with client :=
      { m.client with calls := m.client.calls.set index call', seq } } := by
  have hok := h.calls call (List.mem_of_getElem? hcall)
  refine ⟨h.key, ?_, h.opened, h.nodup, h.length, ?_, ?_, ?_⟩
  · exact forall_mem_set h.calls (hmoves.ok hok)
  · intro i hi
    rw [List.length_set]
    exact h.bound i hi
  · intro i other hother hunbound
    dsimp only at hother
    rw [List.getElem?_set] at hother
    split at hother
    · rename_i hsame
      subst hsame
      split at hother
      · obtain rfl := Option.some.inj hother
        exact hfresh hunbound
      · cases hother
    · exact h.fresh hother hunbound
  · intro stream i other task hends
    obtain ⟨hbound, hother, htask⟩ := Mux.ends_eq_some.mp hends
    dsimp only at hbound hother htask
    rw [List.getElem?_set] at hother
    split at hother
    · rename_i hsame
      subst hsame
      split at hother
      · obtain rfl := Option.some.inj hother
        have hbefore : m.ends stream = some (index, call, task) :=
          Mux.ends_eq_some.mpr ⟨hbound, hcall, htask⟩
        have hpair := h.paired hbefore
        refine ⟨hpair.arrived.trans (hmoves.grows hok).1, harrives stream task hbefore, ?_, ?_⟩
        · intro hcut
          exact (hpair.cut hcut).imp_left hmoves.isOver
        · intro hkept hrefused
          rw [hmoves.req] at hkept
          exact (hpair.refused hkept hrefused).imp_left hmoves.given
      · cases hother
    · exact h.paired (Mux.ends_eq_some.mpr ⟨hbound, hother, htask⟩)

/-- A stream's task moves on. -/
theorem setTask (h : MuxOk srv config sid sess m) {server : Quic σ} {stream : Nat}
    {task task' : StreamTask} (htask : m.server.streams[stream]? = some task)
    (hopened : QuicOpened (StreamTalk srv) config sid server sess)
    (hstreams : server.streams = m.server.streams.set stream task')
    (hpair : ∀ {index call}, m.ends stream = some (index, call, task) → Paired call task') :
    MuxOk srv config sid sess { m with server } := by
  refine ⟨h.key, h.calls, hopened, h.nodup, ?_, h.bound, h.fresh, ?_⟩
  · dsimp only
    rw [hstreams, List.length_set]
    exact h.length
  · intro other index call found hends
    obtain ⟨hbound, hcall, hfound⟩ := Mux.ends_eq_some.mp hends
    dsimp only at hbound hcall hfound
    rw [hstreams, List.getElem?_set] at hfound
    split at hfound
    · rename_i hsame
      subst hsame
      split at hfound
      · obtain rfl := Option.some.inj hfound
        exact hpair (Mux.ends_eq_some.mpr ⟨hbound, hcall, htask⟩)
      · cases hfound
    · exact h.paired (Mux.ends_eq_some.mpr ⟨hbound, hcall, hfound⟩)

/-- The server moves on, and its streams stay. -/
theorem keepStreams (h : MuxOk srv config sid sess m) {server : Quic σ}
    (hopened : QuicOpened (StreamTalk srv) config sid server sess)
    (hstreams : server.streams = m.server.streams) :
    MuxOk srv config sid sess { m with server } := by
  refine ⟨h.key, h.calls, hopened, h.nodup, ?_, h.bound, h.fresh, ?_⟩
  · dsimp only
    rw [hstreams]
    exact h.length
  · intro stream index call task hends
    obtain ⟨hbound, hcall, htask⟩ := Mux.ends_eq_some.mp hends
    dsimp only at hbound hcall htask
    rw [hstreams] at htask
    exact h.paired (Mux.ends_eq_some.mpr ⟨hbound, hcall, htask⟩)

/-- No other stream was opened by the call. -/
theorem ends_unique (h : MuxOk srv config sid sess m) {stream stream' index : Nat}
    {call call' : QuinnCall} {task task' : StreamTask}
    (hends : m.ends stream = some (index, call, task))
    (hends' : m.ends stream' = some (index, call', task')) : task = task' := by
  obtain ⟨hbound, -, htask⟩ := Mux.ends_eq_some.mp hends
  obtain ⟨hbound', -, htask'⟩ := Mux.ends_eq_some.mp hends'
  obtain ⟨hlt, heq⟩ := List.getElem?_eq_some_iff.mp hbound
  obtain ⟨hlt', heq'⟩ := List.getElem?_eq_some_iff.mp hbound'
  obtain rfl := (h.nodup.getElem_inj_iff).mp (heq.trans heq'.symm)
  exact Option.some.inj (htask.symm.trans htask')

/-- A call moves on that the client or the network moves, no bytes arriving. -/
theorem client (h : MuxOk srv config sid sess m) {action : QuinnAction} {client : QuinnClient}
    (hallowed : action.allowed = true) (hstep : quinnStep srv.aead m.client action = some client) :
    MuxOk srv config sid sess { m with client } := by
  cases action with
  | call kind req =>
    obtain rfl := Option.some.inj hstep
    refine ⟨h.key, ?_, h.opened, h.nodup, h.length, ?_, ?_, ?_⟩
    · intro call hcall
      obtain hold | hnew := List.mem_append.mp hcall
      · exact h.calls call hold
      · obtain rfl := List.mem_singleton.mp hnew
        exact .called
    · intro index hindex
      rw [List.length_append]
      exact Nat.lt_add_right _ (h.bound index hindex)
    · intro index call hcall hunbound
      obtain hlt | hge := Nat.lt_or_ge index m.client.calls.length
      · dsimp only at hcall
        rw [List.getElem?_append_left hlt] at hcall
        exact h.fresh hcall hunbound
      · dsimp only at hcall
        rw [List.getElem?_append_right hge] at hcall
        obtain rfl := List.mem_singleton.mp (List.mem_of_getElem? hcall)
        rfl
    · intro stream index call task hends
      obtain ⟨hbound, hcall, htask⟩ := Mux.ends_eq_some.mp hends
      dsimp only at hbound hcall htask
      rw [List.getElem?_append_left (h.bound index (List.mem_of_getElem? hbound))] at hcall
      exact h.paired (Mux.ends_eq_some.mpr ⟨hbound, hcall, htask⟩)
  | move index move =>
    obtain ⟨call, hcall, hstep⟩ := Option.bind_eq_some_iff.mp hstep
    obtain ⟨call', hmoved, rfl⟩ := Option.map_eq_some_iff.mp hstep
    rw [h.key] at hmoved
    have hmoves := QuinnCall.step_moves hmoved
    have hreceived : call'.received = call.received := by
      obtain ⟨-, hreceived⟩ := hmoves.grows (h.calls call (List.mem_of_getElem? hcall))
      rw [hreceived]
      cases move with
      | net action =>
        cases action with
        | deliver bytes => cases hallowed
        | _ => exact List.append_nil _
      | _ => exact List.append_nil _
    refine h.setCall hcall hmoves ?_ ?_
    · intro stream task hends
      rw [hreceived]
      exact (h.paired hends).received
    · intro hunbound
      rw [hreceived]
      exact h.fresh hcall hunbound

/-- Bytes of an answer arrive for a call. -/
theorem toClient (h : MuxOk srv config sid sess m) {stream count index : Nat} {call : QuinnCall}
    {task : StreamTask} {client : QuinnClient} (hends : m.ends stream = some (index, call, task))
    (hstep : quinnStep srv.aead m.client (.move index (.net (.deliver
      (inFlight task.chan.send.written call.received count)))) = some client) :
    MuxOk srv config sid sess { m with client } := by
  obtain ⟨hbound, hcall, -⟩ := Mux.ends_eq_some.mp hends
  obtain ⟨call₀, hcall₀, hstep⟩ := Option.bind_eq_some_iff.mp hstep
  obtain rfl := Option.some.inj (hcall.symm.trans hcall₀)
  obtain ⟨call', hmoved, rfl⟩ := Option.map_eq_some_iff.mp hstep
  rw [h.key] at hmoved
  have hmoves := QuinnCall.step_moves hmoved
  obtain ⟨-, hreceived⟩ := hmoves.grows (h.calls call (List.mem_of_getElem? hcall))
  refine h.setCall hcall hmoves ?_ ?_
  · intro stream' task' hends'
    obtain rfl := h.ends_unique hends hends'
    rw [hreceived]
    exact received_inFlight (h.paired hends).received count
  · exact fun hunbound => absurd (List.mem_of_getElem? hbound) hunbound

/-- A stream's task goes on serving its call. -/
theorem stream (hlaw : srv.aead.Lawful) (h : MuxOk srv config sid sess m) {stream : Nat}
    {nonce : Nonce} {server : Quic σ}
    (hstep : quicStep srv sid m.server (.stream stream nonce) = some server) :
    MuxOk srv config sid sess { m with server } := by
  have hopened := h.opened.step (Server.streamTalk_invariant srv config sess) hstep
  unfold quicStep at hstep
  dsimp only at hstep
  split at hstep
  · cases hstep
  rename_i task htask
  obtain ⟨⟨sh, task'⟩, hrun, rfl⟩ := Option.map_eq_some_iff.mp hstep
  have hmoves := Server.streamRun_moves hrun
  have htalk := h.opened.streams task (List.mem_of_getElem? htask)
  obtain ⟨harrived, hwritten, hmuted⟩ := hmoves.keeps
  refine h.setTask htask hopened rfl ?_
  intro index call hends
  have hpair := h.paired hends
  obtain ⟨-, hcall, -⟩ := Mux.ends_eq_some.mp hends
  have hok := h.calls call (List.mem_of_getElem? hcall)
  refine ⟨harrived ▸ hpair.arrived, hpair.received.trans hwritten, ?_, ?_⟩
  · intro hcut
    rw [hmoves.ending] at hcut
    exact (hpair.cut hcut).imp_right hmuted
  · intro hkept hrefused
    obtain hnone | ⟨huntouched, hmute, e, herror, hready⟩ := htalk.refused hrun hrefused
    · exact .inr hnone
    · exact .inl (given_of_unreadable hlaw hok hpair hkept huntouched hmute herror hready)

/-- The network does something to a stream. -/
theorem streamNet (h : MuxOk srv config sid sess m) {stream : Nat} {action : NetAction}
    {server : Quic σ} (hstep : quicStep srv sid m.server (.streamNet stream action) = some server)
    (hpair : ∀ {index call task chan}, m.ends stream = some (index, call, task) →
      task.chan.net m.server.shared.now action = some chan → Paired call { task with chan }) :
    MuxOk srv config sid sess { m with server } := by
  have hopened := h.opened.step (Server.streamTalk_invariant srv config sess) hstep
  unfold quicStep at hstep
  dsimp only at hstep
  split at hstep
  · cases hstep
  · rename_i task htask
    obtain ⟨chan, hnet, rfl⟩ := Option.map_eq_some_iff.mp hstep
    exact h.setTask htask hopened rfl fun hends => hpair hends hnet

/-- The server or the network moves, no bytes arriving on a stream. -/
theorem server (hlaw : srv.aead.Lawful) (h : MuxOk srv config sid sess m) {action : QuicAction σ}
    {server : Quic σ} (hallowed : m.allows action = true)
    (hstep : quicStep srv sid m.server action = some server) :
    MuxOk srv config sid sess { m with server } := by
  have hopened := h.opened.step (Server.streamTalk_invariant srv config sess) hstep
  cases action with
  | env action =>
    obtain ⟨sh, -, rfl⟩ := Option.map_eq_some_iff.mp hstep
    exact h.keepStreams hopened rfl
  | net action =>
    obtain ⟨chan, -, rfl⟩ := Option.map_eq_some_iff.mp hstep
    exact h.keepStreams hopened rfl
  | run nonce => exact h.keepStreams hopened (quicRun_streams hstep)
  | openStream => cases hallowed
  | lost =>
    unfold quicStep at hstep
    dsimp only at hstep
    split at hstep
    · obtain rfl := Option.some.inj hstep
      exact h.keepStreams hopened rfl
    · cases hstep
  | stream index nonce => exact h.stream hlaw hstep
  | streamNet stream action =>
    refine h.streamNet hstep ?_
    intro index call task chan hends hnet
    have hpair := h.paired hends
    obtain ⟨-, -, hanswers, -, hwritten⟩ := Server.net_talk hnet
    obtain ⟨-, harrived, -⟩ := Server.net_delivered hnet
    unfold Mux.allows at hallowed
    simp only [hends] at hallowed
    refine ⟨?_, by rw [hwritten]; exact hpair.received, ?_, ?_⟩
    · dsimp only
      rw [harrived]
      cases action with
      | deliver bytes => cases hallowed
      | _ => exact (List.append_nil _).symm ▸ hpair.arrived
    · intro hcut
      unfold Server.Channel.net at hnet
      cases action with
      | deliver bytes => cases hallowed
      | hangup kind =>
        dsimp only at hnet
        split at hnet
        · obtain rfl := Option.some.inj hnet
          exact (Bool.or_eq_true_iff.mp hallowed).imp_right muted_iff.mp
        · cases hnet
      | limit room kind =>
        obtain rfl := Option.some.inj hnet
        refine (hpair.cut hcut).imp_right ?_
        rintro ⟨kind', hroom⟩
        dsimp only at hallowed
        rw [hroom] at hallowed
        cases hallowed
    · rintro hkept ⟨resp, hrefused⟩
      rw [hwritten]
      exact hpair.refused hkept ⟨resp, hanswers.symm.trans hrefused⟩

/-- Bytes of a request arrive on its stream. -/
theorem toServer (h : MuxOk srv config sid sess m) {stream count index : Nat} {call : QuinnCall}
    {task : StreamTask} {server : Quic σ} (hends : m.ends stream = some (index, call, task))
    (hstep : quicStep srv sid m.server (.streamNet stream (.deliver
      (inFlight call.written (arrivedBytes task.chan.log) count))) = some server) :
    MuxOk srv config sid sess { m with server } := by
  refine h.streamNet hstep ?_
  intro index' call' task' chan hends' hnet
  obtain ⟨rfl, rfl, rfl⟩ : index = index' ∧ call = call' ∧ task = task' := by
    simpa using hends.symm.trans hends'
  have hpair := h.paired hends
  obtain ⟨-, -, hanswers, -, hwritten⟩ := Server.net_talk hnet
  obtain ⟨-, harrived, -⟩ := Server.net_delivered hnet
  refine ⟨?_, by rw [hwritten]; exact hpair.received, ?_, ?_⟩
  · dsimp only
    rw [harrived]
    exact received_inFlight hpair.arrived count
  · intro hcut
    unfold Server.Channel.net at hnet
    dsimp only at hnet
    split at hnet
    · rename_i hopen
      obtain rfl := Option.some.inj hnet
      exact absurd hopen hcut
    · cases hnet
  · rintro hkept ⟨resp, hrefused⟩
    rw [hwritten]
    exact hpair.refused hkept ⟨resp, hanswers.symm.trans hrefused⟩

/-- The server accepts the stream of a call. -/
theorem accept (h : MuxOk srv config sid sess m) {index : Nat} {call : QuinnCall} {server : Quic σ}
    (hcall : m.client.calls[index]? = some call) (hunbound : index ∉ m.bound)
    (hstep : quicStep srv sid m.server .openStream = some server) :
    MuxOk srv config sid sess { m with server, bound := m.bound ++ [index] } := by
  have hopened := h.opened.step (Server.streamTalk_invariant srv config sess) hstep
  unfold quicStep at hstep
  dsimp only at hstep
  split at hstep
  · rename_i sess' _
    obtain rfl := Option.some.inj hstep
    refine ⟨h.key, h.calls, hopened, ?_, ?_, ?_, ?_, ?_⟩
    · refine List.nodup_append.mpr ⟨h.nodup, List.nodup_singleton index, ?_⟩
      rintro a ha b hb rfl
      exact hunbound (List.mem_singleton.mp hb ▸ ha)
    · simp only [List.length_append, List.length_singleton, h.length]
    · intro i hi
      obtain hold | hnew := List.mem_append.mp hi
      · exact h.bound i hold
      · obtain rfl := List.mem_singleton.mp hnew
        exact (List.getElem?_eq_some_iff.mp hcall).1
    · intro i other hother hnone
      exact h.fresh hother fun hin => hnone (List.mem_append_left _ hin)
    · intro stream i other task hends
      obtain ⟨hbound, hother, htask⟩ := Mux.ends_eq_some.mp hends
      dsimp only at hbound hother htask
      obtain hlt | hge := Nat.lt_or_ge stream m.bound.length
      · rw [List.getElem?_append_left hlt] at hbound
        rw [List.getElem?_append_left (h.length ▸ hlt)] at htask
        exact h.paired (Mux.ends_eq_some.mpr ⟨hbound, hother, htask⟩)
      · rw [List.getElem?_append_right hge] at hbound
        rw [List.getElem?_append_right (h.length ▸ hge)] at htask
        obtain rfl := List.mem_singleton.mp (List.mem_of_getElem? hbound)
        obtain rfl := List.mem_singleton.mp (List.mem_of_getElem? htask)
        refine ⟨List.nil_prefix, ?_, fun hcut => absurd rfl hcut, ?_⟩
        · rw [h.fresh hother hunbound]
          exact List.nil_prefix
        · rintro - ⟨resp, hrefused⟩
          cases hrefused
  · cases hstep

/-- A streaming handler writes to its stream. -/
theorem handler (h : MuxOk srv config sid sess m) {stream : Nat} {task : StreamTask}
    {bytes : List UInt8} (htask : m.server.streams[stream]? = some task)
    (hhanded : handedOver srv task = true) :
    MuxOk srv config sid sess { m with server := { m.server with
      streams := m.server.streams.set stream (handlerWrote task bytes) } } := by
  have htalk := h.opened.streams task (List.mem_of_getElem? htask)
  obtain ⟨id, keyId, chan, phase⟩ := task
  have hphase := htalk.phase
  unfold handedOver at hhanded
  dsimp only at hphase hhanded
  split at hhanded
  · cases hphase with
    | @handed frame freq seq handler hread hanswers hhandler =>
      have htalk' : StreamTalk srv sess (handlerWrote ⟨id, keyId, chan, .ended⟩ bytes) :=
        ⟨htalk.id_eq, htalk.keyId_eq, .handed hread hanswers hhandler⟩
      refine h.setTask htask (h.opened.setStream rfl htalk') rfl ?_
      intro index call hends
      have hpair := h.paired hends
      refine ⟨hpair.arrived, hpair.received.trans (List.prefix_append _ _), hpair.cut, ?_⟩
      rintro - ⟨resp, hrefused⟩
      cases hanswers.symm.trans hrefused
    | plain hplain _ =>
      obtain ⟨call, hcall, hstream⟩ := List.any_eq_true.mp hhanded
      split at hstream
      · rename_i handler hhandler
        exact absurd hhandler (hplain call hcall handler)
      · cases hstream
  · cases hhanded

/-- Every step of the two sides keeps the invariant. -/
theorem step (hlaw : srv.aead.Lawful) (h : MuxOk srv config sid sess m) {action : MuxAction σ}
    {m' : Mux σ} (hstep : muxStep srv sid m action = some m') : MuxOk srv config sid sess m' := by
  cases muxStep_steps hstep with
  | client hallowed hmoved => exact h.client hallowed hmoved
  | server hallowed hmoved => exact h.server hlaw hallowed hmoved
  | accept hcall hunbound hmoved => exact h.accept hcall hunbound hmoved
  | toServer hends hmoved => exact h.toServer hends hmoved
  | toClient hends hmoved => exact h.toClient hends hmoved
  | handler htask hhanded => exact h.handler htask hhanded

end MuxOk

/-! ### The calls that got a response -/

theorem muxOk_connected {srv : Server.Server σ} {sid : UInt64} {sh : Shared σ}
    {before : List (QuicAction σ)} {s : Quic σ} {sess : Session}
    (hrun : run (quicStep srv sid) (quicAccepted sh) before = some s)
    (hsess : .established sess ∈ s.chan.log) (hnone : s.streams = []) :
    MuxOk srv sh.store.config sid sess (connected sess.key s) := by
  have hinv (sess : Session) :
      Server.StreamInvariant srv sh.store.config sess (StreamTalk srv sess) :=
    Server.streamTalk_invariant srv sh.store.config sess
  have hopened : QuicOpened (StreamTalk srv) sh.store.config sid s sess :=
    Server.quicOpened_run hinv hrun hsess
  refine ⟨rfl, ?_, hopened, List.nodup_nil, ?_, ?_, ?_, ?_⟩
  · intro call hcall
    cases hcall
  · unfold connected
    rw [hnone]
    rfl
  · intro index hindex
    cases hindex
  · intro index call hcall
    cases hcall
  · intro stream index call task hends
    cases (Mux.ends_eq_some.mp hends).1

/-- A length and so many bytes at the start of a reply are all of it. -/
theorem decode_of_reply {aead : Aead} (hlaw : aead.Lawful) {nonce : Nonce} {key : List UInt8}
    {seq : UInt32} {sent resp : Frame.Response} {lenBuf body : List UInt8} (cause : Server.Cause)
    (hkept : ResponseKept sent) (hlen : lenBuf.length = 4)
    (hbody : body.length = (u32.fromBeBytes lenBuf).toNat)
    (hfront : lenBuf ++ body <+: Server.replyBytes aead nonce key seq sent)
    (hdecode : decodeResponse aead (some key) body = .ok resp) :
    resp = ⟨sent.status, arrival sent.payload, seq⟩ := by
  have hcarries := Server.carries_replyBytes hlaw nonce key cause seq hkept
  have hparts : ∀ part ∈ [((cause, seq, sent), Server.replyBytes aead nonce key seq sent)],
      Server.Carries aead key part.1 part.2 := by
    intro part hpart
    obtain rfl := List.mem_singleton.mp hpart
    exact hcarries
  obtain ⟨before, part, after, hsplit, -, -, hwhole⟩ := whole_of_answers hparts hlen hbody
    (by simpa using hfront)
  have hpart : part ∈ [((cause, seq, sent), Server.replyBytes aead nonce key seq sent)] := by
    rw [hsplit]
    exact List.mem_append_right _ List.mem_cons_self
  obtain rfl := List.mem_singleton.mp hpart
  exact Except.ok.inj (hdecode.symm.trans hwhole)

/-- The frame that the task read is the one that the call wrote. -/
theorem frame_of_front {frame frame' : Frame} (hfits : frame.Fits) (hfits' : frame'.Fits)
    (hfront : frame'.bytes <+: frame.bytes) : frame' = frame := by
  obtain ⟨rest, hrest⟩ := hfront
  have hread := readFrameFrom_bytes hfits' rest .wouldBlock
  have hread' := readFrameFrom_bytes hfits [] .wouldBlock
  rw [hrest] at hread
  rw [List.append_nil, hread] at hread'
  exact congrArg Prod.fst (Except.ok.inj hread')

/-- A response is not made of nothing. -/
theorem QuinnCall.Ok.received_ne_nil {aead : Aead} {key : List UInt8} {call : QuinnCall}
    {frame : Frame} {resp : Frame.Response}
    (h : QuinnCall.Ok aead key call.req (.answered frame resp) call.stream) :
    call.received ≠ [] := by
  obtain ⟨kind, req, stream, phase⟩ := call
  cases h with
  | @answered _ _ lenBuf body _ stream _ _ _ htaken hlen _ _ =>
    intro hnone
    change stream.taken ++ stream.recv.bytes = [] at hnone
    rw [htaken] at hnone
    have hlength := congrArg List.length hnone
    simp [hlen] at hlength

/-- The two ends of a stream whose call returned a response. -/
theorem replies_of_answered {srv : Server.Server σ} (hlaw : srv.aead.Lawful) {sess : Session}
    {call : QuinnCall} {task : StreamTask} {frame : Frame} {resp : Frame.Response}
    (hok : QuinnCall.Ok srv.aead sess.key call.req (.answered frame resp) call.stream)
    (hphase : call.phase = .answered frame resp) (hpair : Paired call task)
    (htalk : StreamTalk srv sess task)
    (hplain : ∀ handler, srv.handlers call.req.opcode ≠ some (.stream handler))
    (hrequest : RequestKept call.req)
    (hresponses : ∀ answer ∈ answers task.chan.log, ResponseKept answer.2.2) :
    Replies srv sess call.req frame resp task := by
  obtain ⟨kind, req, stream, phase⟩ := call
  dsimp only at hok hphase hplain hrequest
  subst hphase
  cases hok with
  | @answered _ _ lenBuf body _ stream hencodes hframe hwritten htaken hlen hbody hdecode =>
  obtain ⟨ask, rfl, hfreq, hseq⟩ := ask_of_encodes hlaw hencodes hframe hrequest
  -- what the call took is the front of what the task wrote
  have hheard : lenBuf ++ body <+: task.chan.send.written := by
    have hreceived : stream.taken ++ stream.recv.bytes <+: task.chan.send.written :=
      hpair.received
    rw [htaken] at hreceived
    exact (List.prefix_append _ _).trans hreceived
  have hanswered : task.chan.send.written ≠ [] := by
    intro hnone
    rw [hnone, List.prefix_nil] at hheard
    have hlength := congrArg List.length hheard
    simp [hlen] at hlength
  have hown {log : List Server.Event} {frame' : Frame} {freq : Request} {seq : UInt32}
      (hlog : log = task.chan.log) (hread : Server.ReadBy srv sess log frame' freq seq) :
      frame' = ask.frame ∧ freq = ask.freq ∧ seq = ask.seq := by
    subst hlog
    have hfront : frame'.bytes <+: ask.frame.bytes := by
      have harrived : arrivedBytes task.chan.log <+: stream.send.written := hpair.arrived
      rw [hwritten] at harrived
      exact hread.arrived.trans harrived
    obtain rfl := frame_of_front ask.fits hread.fits hfront
    have hsame := hread.decodes.symm.trans ask.decodes
    simp only [Except.ok.injEq, Prod.mk.injEq] at hsame
    exact ⟨rfl, hsame⟩
  have hpayload {sent : Frame.Response} {seq : UInt32}
      (hresp : resp = ⟨sent.status, arrival sent.payload, seq⟩) :
      Sendable sent.payload → Receivable sent.payload → resp.payload = sent.payload := by
    intro hsend hreceive
    rw [hresp]
    exact (arrival_eq_iff hsend hreceive.addressable).mpr hreceive
  have hfinished : Server.Finished srv sess task := by
    have htask := htalk.phase
    split at htask
    · exact absurd htask.2.2.2.1 hanswered
    · exact htask
    · exact absurd htask.2.written hanswered
    · exact absurd htask.2.written hanswered
    · exact absurd htask.2.written hanswered
    · exact absurd htask.written hanswered
  cases hfinished with
  | handed hread _ hhandler =>
    obtain ⟨-, rfl, -⟩ := hown rfl hread
    rw [hfreq] at hhandler
    exact absurd hhandler (hplain _)
  | plain _ hreplied =>
    cases hreplied with
    | silent hnone _ => exact absurd hnone hanswered
    | @expired nonce hanswer hpart =>
      have hkept : ResponseKept Server.expiredResponse :=
        hresponses (.expiry, 0, Server.expiredResponse) (by rw [hanswer]; exact List.mem_cons_self)
      have hresp := decode_of_reply hlaw .expiry hkept hlen hbody (hheard.trans hpart) hdecode
      exact ⟨hencodes, .expiry, 0, _, hanswer, hresp, hpayload hresp, .inl rfl⟩
    | refused hanswer =>
      obtain hgiven | hnone := hpair.refused hrequest ⟨_, hanswer⟩
      · exact hgiven.elim
      · exact absurd hnone hanswered
    | @served nonce frame' freq seq app cause sent hread hserve hanswer hpart =>
      obtain ⟨rfl, rfl, rfl⟩ := hown rfl hread
      have hkept : ResponseKept sent :=
        hresponses (cause, ask.seq, sent) (by rw [hanswer]; exact List.mem_cons_self)
      have hresp := decode_of_reply hlaw cause hkept hlen hbody (hheard.trans hpart) hdecode
      refine ⟨hencodes, cause, ask.seq, sent, hanswer, hresp, hpayload hresp,
        .inr ⟨hseq, hread.reads, app, ?_⟩⟩
      rw [← hfreq]
      exact hserve

/-- The stream of a call that returned a response. -/
theorem MuxOk.replies {srv : Server.Server σ} {config : SessionConfig} {sid : UInt64}
    {sess : Session} {m : Mux σ} (hlaw : srv.aead.Lawful) (h : MuxOk srv config sid sess m)
    (hkept : MuxKept m) {index : Nat} {call : QuinnCall} {frame : Frame} {resp : Frame.Response}
    (hcall : m.client.calls[index]? = some call) (hphase : call.phase = .answered frame resp)
    (hplain : ∀ handler, srv.handlers call.req.opcode ≠ some (.stream handler)) :
    ∃ stream task, m.ends stream = some (index, call, task) ∧
      Replies srv sess call.req frame resp task := by
  have hcallOk := h.calls call (List.mem_of_getElem? hcall)
  rw [hphase] at hcallOk
  have hbound : index ∈ m.bound := by
    by_contra hunbound
    exact hcallOk.received_ne_nil (h.fresh hcall hunbound)
  obtain ⟨stream, hstream⟩ := List.mem_iff_getElem?.mp hbound
  have hlt : stream < m.server.streams.length := by
    rw [← h.length]
    exact (List.getElem?_eq_some_iff.mp hstream).1
  have htask : m.server.streams[stream]? = some m.server.streams[stream] :=
    List.getElem?_eq_getElem hlt
  have hends : m.ends stream = some (index, call, m.server.streams[stream]) :=
    Mux.ends_eq_some.mpr ⟨hstream, hcall, htask⟩
  have hmem : m.server.streams[stream] ∈ m.server.streams := List.getElem_mem hlt
  exact ⟨stream, _, hends, replies_of_answered hlaw hcallOk hphase (h.paired hends)
    (h.opened.streams _ hmem) hplain (hkept.requests call (List.mem_of_getElem? hcall))
    (hkept.responses _ hmem)⟩

/-- The session of the example server's first client. -/
def establishing : List (QuicAction Nat) :=
  [.net (.deliver (anonymousHello 1)), .run exampleNonce, .run exampleNonce]

/-- A call takes its number and its stream, and encodes its request. -/
def beginActions (index : Nat) : List (MuxAction Nat) :=
  .client (.call .do_ ⟨5, none⟩) ::
    List.replicate 3 (.client (.move index (.run exampleNonce)))

/-- The stream of a call is accepted and served, and all of the answer arrives. -/
def replyActions (index stream : Nat) : List (MuxAction Nat) :=
  .accept index :: .toServer stream 38 ::
    List.replicate 6 (.server (.stream stream exampleNonce)) ++
    [.toClient stream 100, .client (.move index (.io 4)), .client (.move index (.io 100))]

/-- The first call is dropped with its request half written, while the second is under way. -/
def droppedActions : List (MuxAction Nat) :=
  beginActions 0 ++ [.client (.move 0 (.io 10)), .accept 0, .toServer 0 10] ++ beginActions 1 ++
    [.client (.move 1 (.io 38)), .client (.move 0 .drop)] ++ replyActions 1 1

/-- What has become of a call: the numbers of its request and of its response. -/
def outcome (call : QuinnCall) : Option (UInt32 × StatusCode × UInt32) :=
  match call.phase with
  | .answered frame resp => some (frame.seq, resp.status, resp.seq)
  | _ => none

/-- The first call has no response and the second has one; no message is long. -/
def secondAnswered (m : Mux Nat) : Bool :=
  m.client.calls.map outcome = [none, some (1, .success, 1)] ∧
    (m.client.calls.all fun call => call.req.opcode = 5 ∧ call.req.payload.isNone) ∧
    m.server.streams.all fun task => (answers task.chan.log).all fun answer =>
      (appendPayload [answer.2.2.status.toU8] answer.2.2.payload).length ≤ 100

theorem dropped_run : ∃ s m call frame resp,
    run (quicStep exampleServer 1) (quicAccepted ⟨0, .new ⟨100, 100⟩, 0⟩) establishing = some s ∧
    .established exampleSession ∈ s.chan.log ∧ s.streams = [] ∧
    run (muxStep exampleServer 1) (connected exampleSession.key s) droppedActions = some m ∧
    MuxKept m ∧ m.client.calls[1]? = some call ∧ call.phase = .answered frame resp ∧
    (∀ handler, exampleServer.handlers call.req.opcode ≠ some (.stream handler)) ∧
      (frame.seq, resp.status, resp.seq) = (1, .success, 1) := by
  have hstart : (run (quicStep exampleServer 1) (quicAccepted ⟨0, .new ⟨100, 100⟩, 0⟩)
      establishing).map (fun s => (s.chan.log, s.streams)) =
        some ([.arrived 0 (anonymousHello 1), .established exampleSession], []) := by rfl
  obtain ⟨s, hbefore, hs⟩ := Option.map_eq_some_iff.mp hstart
  obtain ⟨hlog, hnone⟩ := Prod.mk.inj hs
  have hends : ((run (quicStep exampleServer 1) (quicAccepted ⟨0, .new ⟨100, 100⟩, 0⟩)
      establishing).bind fun s => run (muxStep exampleServer 1) (connected exampleSession.key s)
        droppedActions).any secondAnswered = true := by decide +kernel
  rw [hbefore, Option.bind_some] at hends
  obtain ⟨m, hrun, hm⟩ := (Option.any_eq_true _ _).mp hends
  obtain ⟨houtcomes, hrequests, hresponses⟩ := of_decide_eq_true hm
  have hkept : MuxKept m := by
    constructor
    · intro call hcall
      obtain ⟨hfive, hempty⟩ := of_decide_eq_true (List.all_eq_true.mp hrequests call hcall)
      unfold RequestKept
      rw [Option.isNone_iff_eq_none.mp hempty, hfive]
      exact .inl (by rw [toNat_maxFrameSize]; decide)
    · intro task htask answer hanswer
      have hshort := of_decide_eq_true
        (List.all_eq_true.mp (List.all_eq_true.mp hresponses task htask) answer hanswer)
      refine .inl ?_
      rw [toNat_maxFrameSize, nonceSize, tagSize]
      omega
  have hsecond : m.client.calls[1]?.map outcome = some (some (1, .success, 1)) := by
    rw [← List.getElem?_map, houtcomes]
    rfl
  obtain ⟨call, hcall, houtcome⟩ := Option.map_eq_some_iff.mp hsecond
  have hopcode : call.req.opcode = 5 :=
    (of_decide_eq_true (List.all_eq_true.mp hrequests call (List.mem_of_getElem? hcall))).1
  have hplain (handler : Server.StreamHandler Nat) :
      exampleServer.handlers call.req.opcode ≠ some (.stream handler) := by
    rw [hopcode]
    intro hstream
    cases hstream
  have hsess : .established exampleSession ∈ s.chan.log := by
    rw [hlog]
    exact List.mem_cons_of_mem _ List.mem_cons_self
  unfold outcome at houtcome
  split at houtcome
  · rename_i frame resp hphase
    exact ⟨s, m, call, frame, resp, hbefore, hsess, hnone, hrun, hkept, hcall, hphase, hplain,
      Option.some.inj houtcome⟩
  · cases houtcome

end Hush.Client
