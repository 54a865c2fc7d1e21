import Hush.Client.Multiplexed

/-! Calls over QUIC are performed at most once: whatever becomes of a call, its handler is run for
it once or not at all, and with the call's own request. -/
namespace Hush.Client

open Hush.Foundation Execution
open Hush.Frame hiding Response
open Hush.Session
open Hush.Server (NetAction Quic QuicAction StreamTask StreamTalk StreamMoves Shared QuicOpened
  StreamInvariant Unchanged ReadBy calls arrivedBytes toRequest quicStep quicAccepted exampleServer
  exampleNonce exampleSession)

variable {σ : Type}

/-! ### What a call writes -/

/-- Nothing was written for the call, or the front of a frame that carries its request. -/
def Spoken (aead : Aead) (key : List UInt8) (call : QuinnCall) : Prop :=
  call.written = [] ∨ ∃ frame frameBytes, Encodes aead key call.req frame ∧
    encodeFrame frame.seq frame.data = .ok frameBytes ∧ call.written <+: frame.bytes

theorem written_encode (aead : Aead) (nonce : Nonce) (key : List UInt8) (call : QuinnCall)
    (seq : UInt32) (next : Frame → List UInt8 → QuinnPhase) :
    (call.encode aead nonce key seq next).written = call.written := by
  unfold QuinnCall.encode
  split
  · rfl
  · split <;> rfl

/-- A step writes some of what the call had left to write, and nothing else. -/
theorem QuinnCall.step_written {aead : Aead} {key : List UInt8} {next : UInt32}
    {call call' : QuinnCall} {move : QuinnMove} (h : call.step aead key next move = some call') :
    call'.written = call.written ∨ call'.written = [] ∨
      ∃ frame left part, call.phase = .busy frame (.writing left) ∧ part <+: left ∧
        call'.written = call.written ++ part := by
  have hread {stream stream' : Endpoint} {need count : Nat} {part : List UInt8} {phase : QuinnPhase}
      (hstream : call.stream = some stream)
      (hread : stream.readSome need count = some (.ok part, stream')) :
      QuinnCall.written { call with stream := some stream', phase } = call.written := by
    unfold QuinnCall.written
    rw [hstream, Option.elim, Option.elim, (Endpoint.readSome_ok hread).1]
  have hfailed {stream stream' : Endpoint} {need count : Nat} {kind : ErrorKind}
      {phase : QuinnPhase} (hstream : call.stream = some stream)
      (hread : stream.readSome need count = some (.error kind, stream')) :
      QuinnCall.written { call with stream := some stream', phase } = call.written := by
    unfold QuinnCall.written
    rw [hstream, (Endpoint.readSome_error hread).1]
  cases move with
  | net action =>
    obtain ⟨stream, hstream, h⟩ := Option.bind_eq_some_iff.mp h
    obtain ⟨stream', hnet, rfl⟩ := Option.map_eq_some_iff.mp h
    unfold QuinnCall.written
    rw [hstream, Option.elim, Option.elim, (Endpoint.received_net hnet).2]
    exact .inl rfl
  | run nonce =>
    change call.runCall aead nonce key next = some call' at h
    unfold QuinnCall.runCall at h
    split at h
    · obtain rfl := Option.some.inj h
      exact .inl rfl
    · obtain rfl := Option.some.inj h
      exact .inr (.inl rfl)
    · obtain rfl := Option.some.inj h
      exact .inl (written_encode _ _ _ _ _ _)
    · obtain rfl := Option.some.inj h
      exact .inl (written_encode _ _ _ _ _ _)
    · obtain rfl := Option.some.inj h
      exact .inr (.inl rfl)
    · cases h
  | refuse kind =>
    change call.refused kind = some call' at h
    unfold QuinnCall.refused at h
    split at h
    · obtain rfl := Option.some.inj h
      exact .inl rfl
    · obtain rfl := Option.some.inj h
      exact .inl rfl
    · cases h
  | io count =>
    change call.runIo aead key count = some call' at h
    unfold QuinnCall.runIo at h
    split at h
    · rename_i stream frame left hstream hphase
      have hwrote {result : Except ErrorKind Unit} {stream' : Endpoint} {phase : QuinnPhase}
          (hwrite : stream.writeAll (left.take count) = (result, stream')) :
          ∃ part, part <+: left ∧
            QuinnCall.written { call with stream := some stream', phase } =
              call.written ++ part := by
        obtain ⟨-, -, part, hpart, hwritten, -⟩ := Endpoint.writeAll_takes hwrite
        refine ⟨part, hpart.trans (List.take_prefix _ _), ?_⟩
        unfold QuinnCall.written
        rw [hstream, Option.elim, Option.elim, hwritten]
      split at h <;> rename_i hwrite <;> obtain rfl := Option.some.inj h <;>
        obtain ⟨part, hpart, hwritten⟩ := hwrote hwrite
      · exact .inr (.inr ⟨frame, left, part, hphase, hpart, hwritten⟩)
      · exact .inr (.inr ⟨frame, left, part, hphase, hpart, hwritten⟩)
    · rename_i stream frame got hstream hphase
      split at h
      · cases h
      · rename_i hnone
        obtain rfl := Option.some.inj h
        exact .inl (hfailed hstream hnone)
      · rename_i part stream' hsome
        dsimp only at h
        split at h
        · obtain rfl := Option.some.inj h
          exact .inl (hread hstream hsome)
        · split at h <;> obtain rfl := Option.some.inj h <;> exact .inl (hread hstream hsome)
    · rename_i stream frame frameLen got hstream hphase
      split at h
      · cases h
      · rename_i hnone
        obtain rfl := Option.some.inj h
        exact .inl (hfailed hstream hnone)
      · rename_i part stream' hsome
        dsimp only at h
        split at h
        · obtain rfl := Option.some.inj h
          exact .inl (hread hstream hsome)
        · split at h <;> obtain rfl := Option.some.inj h <;> exact .inl (hread hstream hsome)
    · rename_i stream frame hstream hphase
      split at h
      · rename_i part stream' hsome
        obtain rfl := Option.some.inj h
        exact .inl (hread hstream hsome)
      · cases h
    · cases h
  | drop =>
    change call.runDrop = some call' at h
    unfold QuinnCall.runDrop at h
    split at h
    · cases h
    · cases h
    · cases h
    · obtain rfl := Option.some.inj h
      exact .inl rfl

theorem Spoken.step {aead : Aead} {key : List UInt8} {next : UInt32} {call call' : QuinnCall}
    {move : QuinnMove} (h : Spoken aead key call)
    (hok : QuinnCall.Ok aead key call.req call.phase call.stream)
    (hstep : call.step aead key next move = some call') : Spoken aead key call' := by
  have hreq := (QuinnCall.step_moves hstep).req
  obtain hsame | hnone | ⟨frame, left, part, hphase, hpart, hwritten⟩ :=
    QuinnCall.step_written hstep
  · unfold Spoken
    rw [hsame, hreq]
    exact h
  · exact .inl hnone
  · refine .inr ?_
    rw [hwritten, hreq]
    obtain ⟨kind, req, stream, phase⟩ := call
    dsimp only at hok hphase
    subst hphase
    cases hok with
    | @busy _ frameBytes _ stream hencodes hframe _ hat =>
      have hsaid : stream.send.written ++ left = frame.bytes := hat.1
      refine ⟨frame, frameBytes, hencodes, hframe, ?_⟩
      rw [← hsaid]
      exact (List.prefix_append_right_inj _).mpr hpart

/-! ### What a stream performs -/

/-- No handler was called on the stream, or one with the request that was read there. -/
def Performs (srv : Server.Server σ) (sess : Session) (task : StreamTask) : Prop :=
  calls task.chan.log = [] ∨ ∃ frame freq seq, ReadBy srv sess task.chan.log frame freq seq ∧
    calls task.chan.log = [(toRequest sess.id sess.apiKeyId freq, seq)]

theorem Performs.moves {srv : Server.Server σ} {sess : Session} {sh sh' : Shared σ}
    {task task' : StreamTask} (htalk : StreamTalk srv sess task)
    (hmoves : StreamMoves srv sh task task.phase sh' task') : Performs srv sess task' := by
  obtain ⟨id, keyId, chan, phase⟩ := task
  have hphase := htalk.phase
  obtain ⟨rfl, rfl, -⟩ := htalk
  dsimp only at hphase hmoves
  have hdispatched {freq : Request} {seq : UInt32} (called : Bool)
      (h : calls chan.log = [] ∧ ∃ frame, ReadBy srv sess chan.log frame freq seq) :
      let log := chan.log ++ Server.dispatchEvents called
        (toRequest sess.id sess.apiKeyId freq) seq
      calls log = [] ∨ ∃ frame freq seq, ReadBy srv sess log frame freq seq ∧
        calls log = [(toRequest sess.id sess.apiKeyId freq, seq)] := by
    intro log
    obtain ⟨hcalls, frame, hread⟩ := h
    have hlog : calls log =
        calls (Server.dispatchEvents called (toRequest sess.id sess.apiKeyId freq) seq) := by
      rw [Server.calls_append, hcalls, List.nil_append]
    cases called with
    | false => exact .inl hlog
    | true => exact .inr ⟨frame, freq, seq, hread.noted true _ _, hlog⟩
  cases hmoves with
  | fetched => exact .inl hphase.calls
  | @expired sess' nonce _ =>
    exact .inl (hphase.2.reply [.checked (some sess') sh.now] rfl rfl srv.aead nonce sess'.key
      .expiry 0 Server.expiredResponse).1
  | alive _ => exact .inl (hphase.2.note _ _).calls
  | keyed => exact .inl hphase.calls
  | touched => exact .inl hphase.2.calls
  | @unread key e nonce resp _ =>
    exact .inl (hphase.2.reply (Server.receivedFrame key chan.recv)
      (Server.calls_receivedFrame _ _) (Server.answers_receivedFrame _ _) srv.aead nonce key
      .badRequest 0 resp).1
  | @read key freq seq recv _ =>
    refine .inl ((Server.calls_append _ _).trans ?_)
    rw [hphase.2.calls, Server.calls_receivedFrame]
    rfl
  | @unanswered key freq seq served _ _ =>
    exact hdispatched served.called ⟨hphase.2.1, hphase.2.2.2.2⟩
  | @answered key freq seq served cause resp nonce _ _ =>
    -- the answer is noted after the call
    have hcalls (log : List Server.Event) :
        calls (log ++ [.answered cause seq resp]) = calls log := by
      rw [Server.calls_append]
      exact List.append_nil _
    unfold Performs
    dsimp only [StreamTask.next]
    rw [Server.Channel.log_reply, hcalls]
    refine (hdispatched served.called ⟨hphase.2.1, hphase.2.2.2.2⟩).imp_right ?_
    rintro ⟨frame, freq, seq, hread, hcalled⟩
    exact ⟨frame, freq, seq, hread.replied, hcalled⟩

theorem Performs.net {srv : Server.Server σ} {sess : Session} {task : StreamTask}
    {chan : Server.Channel} {now : Session.Instant} {action : NetAction}
    (h : Performs srv sess task) (hnet : task.chan.net now action = some chan) :
    Performs srv sess { task with chan } := by
  obtain ⟨-, hcalls, -⟩ := Server.net_talk hnet
  unfold Performs
  dsimp only
  rw [hcalls]
  refine h.imp_right ?_
  rintro ⟨frame, freq, seq, hread, hcalled⟩
  exact ⟨frame, freq, seq, hread.net hnet, hcalled⟩

theorem performs_invariant (srv : Server.Server σ) (config : SessionConfig) (sess : Session) :
    StreamInvariant srv config sess fun task =>
      StreamTalk srv sess task ∧ Performs srv sess task where
  fresh := ⟨(Server.streamTalk_invariant srv config sess).fresh, .inl rfl⟩
  net := fun h hnet => ⟨h.1.net hnet, h.2.net hnet⟩
  moves := fun _ hstored h hmoves => ⟨h.1.moves hstored hmoves, .moves h.1 hmoves⟩

/-! ### Both sides -/

/-- What the calls write and what their streams perform. -/
structure Performing (srv : Server.Server σ) (config : SessionConfig) (sid : UInt64)
    (sess : Session) (m : Mux σ) : Prop where
  ok : MuxOk srv config sid sess m
  spoken : ∀ call ∈ m.client.calls, Spoken srv.aead sess.key call
  opened : QuicOpened (fun sess task => StreamTalk srv sess task ∧ Performs srv sess task) config
    sid m.server sess

theorem spoken_quinnStep {aead : Aead} {key : List UInt8} {c c' : QuinnClient}
    {action : QuinnAction} (hkey : c.sessionKey = key)
    (hok : ∀ call ∈ c.calls, QuinnCall.Ok aead key call.req call.phase call.stream)
    (h : ∀ call ∈ c.calls, Spoken aead key call) (hstep : quinnStep aead c action = some c') :
    ∀ call ∈ c'.calls, Spoken aead key call := by
  subst hkey
  cases action with
  | call kind req =>
    obtain rfl := Option.some.inj hstep
    intro call hcall
    obtain hold | hnew := List.mem_append.mp hcall
    · exact h call hold
    · obtain rfl := List.mem_singleton.mp hnew
      exact .inl rfl
  | move index move =>
    obtain ⟨call, hcall, hstep⟩ := Option.bind_eq_some_iff.mp hstep
    obtain ⟨call', hmoved, rfl⟩ := Option.map_eq_some_iff.mp hstep
    have hmem := List.mem_of_getElem? hcall
    exact forall_mem_set h ((h call hmem).step (hok call hmem) hmoved)

theorem Performing.step {srv : Server.Server σ} (hlaw : srv.aead.Lawful) {config : SessionConfig}
    {sid : UInt64} {sess : Session} {m m' : Mux σ} {a : MuxAction σ}
    (h : Performing srv config sid sess m) (hstep : muxStep srv sid m a = some m') :
    Performing srv config sid sess m' := by
  have hok := h.ok.step hlaw hstep
  have hinv := performs_invariant srv config sess
  cases muxStep_steps hstep with
  | client _ hmoved | toClient _ hmoved =>
    exact ⟨hok, spoken_quinnStep h.ok.key h.ok.calls h.spoken hmoved, h.opened⟩
  | server _ hmoved | accept _ _ hmoved | toServer _ hmoved =>
    exact ⟨hok, h.spoken, h.opened.step hinv hmoved⟩
  | @handler stream bytes task htask _ =>
    refine ⟨hok, h.spoken, h.opened.setStream rfl ⟨?_, ?_⟩⟩
    · exact hok.opened.streams _ (List.mem_of_getElem? (List.getElem?_set_self
        (List.getElem?_eq_some_iff.mp htask).1))
    · exact (h.opened.streams task (List.mem_of_getElem? htask)).2

theorem performing_of_run {srv : Server.Server σ} (hlaw : srv.aead.Lawful) {sid : UInt64}
    {sh : Shared σ} {before : List (QuicAction σ)} {s : Quic σ} {sess : Session} {m : Mux σ}
    {actions : List (MuxAction σ)}
    (hbefore : run (quicStep srv sid) (quicAccepted sh) before = some s)
    (hsess : .established sess ∈ s.chan.log) (hnone : s.streams = [])
    (hrun : run (muxStep srv sid) (connected sess.key s) actions = some m) :
    Performing srv sh.store.config sid sess m := by
  have hopened : QuicOpened (fun sess task => StreamTalk srv sess task ∧ Performs srv sess task)
      sh.store.config sid s sess :=
    Server.quicOpened_run (performs_invariant srv sh.store.config) hbefore hsess
  refine run_preserves (fun h hstep => Performing.step hlaw h hstep) hrun
    ⟨muxOk_connected hbefore hsess hnone, ?_, hopened⟩
  intro call hcall
  cases hcall

/-! ### The calls that are performed -/

/-- Of lists side by side, the elements of the second of which each give one result at most: those
of the first that have one, in order. -/
theorem exists_sublist_of_flatMap {α β γ : Type} {R : α → γ → Prop} {f : β → List γ}
    {as : List α} {bs : List β}
    (h : List.Forall₂ (fun a b => f b = [] ∨ ∃ c, f b = [c] ∧ R a c) as bs) :
    ∃ part, part.Sublist as ∧ List.Forall₂ R part (bs.flatMap f) := by
  induction h with
  | nil => exact ⟨[], .slnil, .nil⟩
  | @cons a b as bs hhead _ ih =>
    obtain ⟨part, hpart, hresults⟩ := ih
    rw [List.flatMap_cons]
    obtain hnone | ⟨c, hone, hc⟩ := hhead
    · rw [hnone]
      exact ⟨part, hpart.cons a, hresults⟩
    · rw [hone]
      exact ⟨a :: part, hpart.cons_cons a, .cons hc hresults⟩

/-- The handler calls on the streams of the connection. -/
def Mux.performed (m : Mux σ) : List Server.Call :=
  m.server.streams.flatMap fun task => calls task.chan.log

/-- The handler call is for the client's call: with its request, as it arrives, and under the
number of the frame that was written for it. -/
def PerformedFor (srv : Server.Server σ) (sess : Session) (m : Mux σ) (index : Nat)
    (performed : Server.Call) : Prop :=
  ∃ call frame, m.client.calls[index]? = some call ∧ Encodes srv.aead sess.key call.req frame ∧
    call.written = frame.bytes ∧
    performed = (toRequest sess.id sess.apiKeyId ⟨call.req.opcode, arrival call.req.payload⟩,
      frame.seq)

/-- The request that a stream reads is the one of its call. -/
theorem performedFor_of_read {srv : Server.Server σ} (hlaw : srv.aead.Lawful) {sess : Session}
    {m : Mux σ} {index : Nat} {call : QuinnCall} {task : StreamTask} {frame : Frame}
    {freq : Request} {seq : UInt32} (hcall : m.client.calls[index]? = some call)
    (hspoken : Spoken srv.aead sess.key call) (hpair : Paired call task)
    (hkept : RequestKept call.req) (hread : ReadBy srv sess task.chan.log frame freq seq) :
    PerformedFor srv sess m index (toRequest sess.id sess.apiKeyId freq, seq) := by
  have hfront : frame.bytes <+: call.written := hread.arrived.trans hpair.arrived
  obtain hnone | ⟨said, frameBytes, hencodes, hframe, hwritten⟩ := hspoken
  · rw [hnone, List.prefix_nil] at hfront
    exact absurd hfront (Frame.bytes_ne_nil _)
  · obtain ⟨ask, rfl, hfreq, hseq⟩ := ask_of_encodes hlaw hencodes hframe hkept
    obtain rfl := frame_of_front ask.fits hread.fits (hfront.trans hwritten)
    have hsame := hread.decodes.symm.trans ask.decodes
    simp only [Except.ok.injEq, Prod.mk.injEq] at hsame
    obtain ⟨rfl, rfl⟩ := hsame
    have hwhole := hwritten.eq_of_length_le hfront.length_le
    exact ⟨call, _, hcall, hencodes, hwhole, by rw [hfreq, hseq]⟩

/-- In every run of calls over an established QUIC session the handlers are run for every call once
or not at all, whether the call has returned, failed, been dropped or goes on: each run of a handler
is for a call of its own, all of whose frame was written, and with that call's request. -/
theorem quinn_calls_at_most_once (srv : Server.Server σ) (hlaw : srv.aead.Lawful) (sid : UInt64)
    (sh : Shared σ) (before : List (QuicAction σ)) (s : Quic σ) (sess : Session)
    (hbefore : run (quicStep srv sid) (quicAccepted sh) before = some s)
    (hsess : .established sess ∈ s.chan.log) (hnone : s.streams = [])
    (actions : List (MuxAction σ)) (m : Mux σ)
    (hrun : run (muxStep srv sid) (connected sess.key s) actions = some m)
    (hkept : ∀ call ∈ m.client.calls, RequestKept call.req) :
    ∃ indices : List Nat, indices.Nodup ∧
      List.Forall₂ (PerformedFor srv sess m) indices m.performed := by
  have hall := performing_of_run hlaw hbefore hsess hnone hrun
  have hsides : List.Forall₂ (fun index (task : StreamTask) => calls task.chan.log = [] ∨
      ∃ performed, calls task.chan.log = [performed] ∧ PerformedFor srv sess m index performed)
      m.bound m.server.streams := by
    refine List.forall₂_iff_get.mpr ⟨hall.ok.length, ?_⟩
    intro stream hbound htask
    have hlt := hall.ok.bound _ (List.get_mem m.bound ⟨stream, hbound⟩)
    have hmem : m.client.calls[m.bound[stream]] ∈ m.client.calls := List.getElem_mem hlt
    have hpair := hall.ok.paired (Mux.ends_eq_some.mpr ⟨List.getElem?_eq_getElem hbound,
      List.getElem?_eq_getElem hlt, List.getElem?_eq_getElem htask⟩)
    refine (hall.opened.streams _ (List.getElem_mem htask)).2.imp_right ?_
    rintro ⟨frame, freq, seq, hread, hcalled⟩
    exact ⟨_, hcalled, performedFor_of_read hlaw (List.getElem?_eq_getElem hlt)
      (hall.spoken _ hmem) hpair (hkept _ hmem) hread⟩
  obtain ⟨indices, hpart, hperformed⟩ := exists_sublist_of_flatMap hsides
  exact ⟨indices, hpart.nodup hall.ok.nodup, hperformed⟩

/-- One of the two calls is performed, and the other one is dropped before it is sent. -/
theorem quinn_calls_at_most_once_dropped : ∃ (m : Mux Nat) (indices : List Nat),
    m.performed.length = 1 ∧ indices.Nodup ∧
      List.Forall₂ (PerformedFor exampleServer exampleSession m) indices m.performed := by
  obtain ⟨s, m, -, -, -, hbefore, hsess, hnone, hrun, hkept, -⟩ := dropped_run
  have hends : ((run (quicStep exampleServer 1) (quicAccepted ⟨0, .new ⟨100, 100⟩, 0⟩)
      establishing).bind fun s => run (muxStep exampleServer 1) (connected exampleSession.key s)
        droppedActions).map (fun m => m.performed.length) = some 1 := by decide +kernel
  rw [hbefore, Option.bind_some, hrun] at hends
  obtain ⟨indices, hnodup, hperformed⟩ := quinn_calls_at_most_once exampleServer keyTagAead_lawful 1
    _ establishing s exampleSession hbefore hsess hnone droppedActions m hrun hkept.requests
  exact ⟨m, indices, Option.some.inj hends, hnodup, hperformed⟩

end Hush.Client
