import Hush.Client.Correlation

/-! While the calls are in turn, the one that holds the guard reads the answer to
its own request, or that the session has expired. -/
namespace Hush.Client

open Hush.Foundation BigEndian Execution Link Stream
open Hush.Frame hiding Response
open Hush.Session
open Hush.Server (TcpTask Joining Exchange Conversed Carries Answer ResponseKept answers reads
  arrivedBytes)

variable {σ : Type} {srv : Server.Server σ} {join : Joining}

/-- The answers in the log are those of the conversation. -/
theorem answer_of_exchange {task : TcpTask} {exs : List Exchange} {waiting : List Frame}
    {last : List (Answer × List UInt8)} (hconv : Conversed srv join task exs waiting last)
    {place : Nat} {ex : Exchange} (hex : exs[place]? = some ex) :
    (answers task.chan.log)[place]? = some ex.answer ∧
      (reads task.chan.log)[place]? = some (join.est.sessionKey, ex.frame) := by
  have hlt : place < exs.length := (List.getElem?_eq_some_iff.mp hex).1
  constructor
  · rw [hconv.answers, List.getElem?_append_left (by simpa using hlt), List.getElem?_map, hex]
    rfl
  · rw [hconv.reads, List.map_append, List.getElem?_append_left (by simpa using hlt), List.map_map,
      List.getElem?_map, hex]
    rfl

/-- Every answer after the first so many was written as one frame, or not at all. -/
theorem unread_carries {task : TcpTask} {exs : List Exchange} {waiting : List Frame}
    {last : List (Answer × List UInt8)} (hlaw : srv.aead.Lawful)
    (hconv : Conversed srv join task exs waiting last)
    (hlengths : ∀ answer ∈ answers task.chan.log, ResponseKept answer.2.2) (count : Nat) :
    ∀ part ∈ (exs.drop count).map (fun ex => (ex.answer, ex.out)) ++ last,
      Carries srv.aead join.est.sessionKey part.1 part.2 := by
  obtain ⟨hexs, hlast⟩ := hconv.carries hlaw hlengths
  intro part hpart
  obtain hold | hnew := List.mem_append.mp hpart
  · obtain ⟨ex, hex, rfl⟩ := List.mem_map.mp hold
    exact hexs ex (List.mem_of_mem_drop hex)
  · exact hlast part hnew

/-- A call that reads the answer to its own request gets it. -/
theorem got_exchange {task : TcpTask} {exs : List Exchange} {waiting : List Frame}
    {last : List (Answer × List UInt8)} (hlaw : srv.aead.Lawful)
    (hconv : Conversed srv join task exs waiting last) {place : Nat} {ex : Exchange}
    (hex : exs[place]? = some ex) {req : Request}
    (hencodes : Encodes srv.aead join.est.sessionKey req ex.frame) :
    Got srv join task.chan.log req ex.frame
      ⟨ex.resp.status, arrival ex.resp.payload, ex.seq⟩ place := by
  obtain ⟨hanswer, hread⟩ := answer_of_exchange hconv hex
  obtain ⟨sess, freq, app, nonce, hopens, hdecode, hserved, -⟩ :=
    hconv.served ex (List.mem_of_getElem? hex)
  obtain ⟨nonce', hbody⟩ := hencodes
  have hown := decodeRequest_encodeRequestBody hlaw ex.frame.seq hbody
  rw [show (⟨ex.frame.seq, ex.frame.data⟩ : Frame) = ex.frame from rfl, hdecode] at hown
  obtain ⟨rfl, hseq⟩ := Prod.mk.inj (Except.ok.inj hown)
  refine ⟨⟨nonce', hbody⟩, ex.cause, ex.seq, ex.resp, hanswer, rfl, ?_, ?_⟩
  · intro hsend hreceive
    exact (arrival_eq_iff hsend hreceive.addressable).mpr hreceive
  · exact fun _ => ⟨hseq, hread, sess, app, hopens, hserved⟩

/-- A call that reads that the session has expired gets the last answer. -/
theorem got_expired {task : TcpTask} {exs : List Exchange} {waiting : List Frame} {out : List UInt8}
    (hconv : Conversed srv join task exs waiting [((.expiry, 0, Server.expiredResponse), out)])
    {req : Request} {frame : Frame} (hencodes : Encodes srv.aead join.est.sessionKey req frame) :
    Got srv join task.chan.log req frame ⟨.sessionExpired, arrival none, 0⟩ exs.length := by
  refine ⟨hencodes, .expiry, 0, Server.expiredResponse, ?_, rfl, ?_, fun hstatus => absurd rfl hstatus⟩
  · rw [hconv.answers, List.getElem?_append_right (by simp)]
    simp
  · exact fun _ _ => rfl

namespace InTurn

variable {c : TcpClient} {task : TcpTask} {exs : List Exchange} {waiting closed : List Frame}
  {last : List (Answer × List UInt8)} {said heard : List UInt8}

/-- The guard is given back, once the request was written and its answer read. -/
theorem close (h : InTurn join c exs closed said heard) {g : Guard} (hg : c.guard = some g)
    {ex : Exchange} (hlast : exs[closed.length]? = some ex) (hsaid : said = g.frame.bytes)
    {c' : TcpClient} (hsend : c'.stream.send.written = c.stream.send.written)
    (htaken : c'.stream.taken = join.reply ++ ((exs.take closed.length).flatMap (·.out) ++ ex.out))
    (hguard : c'.guard = none) : InTurn join c' exs (closed ++ [g.frame]) [] [] := by
  have hlt := (List.getElem?_eq_some_iff.mp hlast).1
  have hcurrent := h.current
  unfold Current at hcurrent
  rw [hg] at hcurrent
  refine ⟨?_, ?_, ?_, ?_, ?_⟩
  · rw [hsend, h.written, hsaid]
    simp
  · have htake : exs.take (closed.length + 1) = exs.take closed.length ++ [ex] := by
      rw [List.take_add_one, hlast]
      rfl
    rw [htaken, List.length_append, List.length_singleton, htake]
    simp
  · rw [List.length_append]
    exact hlt
  · intro frame hin
    obtain hold | hnew := List.mem_append.mp hin
    · exact h.fits frame hold
    · obtain rfl := List.mem_singleton.mp hnew
      exact hcurrent.1
  · unfold Current
    rw [hguard]
    exact ⟨rfl, rfl⟩

/-- The guard is given back before a byte of the request is written. -/
theorem abandon (h : InTurn join c exs closed [] []) {c' : TcpClient}
    (hstream : c'.stream = c.stream) (hguard : c'.guard = none) :
    InTurn join c' exs closed [] [] := by
  refine ⟨by rw [hstream]; exact h.written, by rw [hstream]; exact h.taken, h.enough, h.fits, ?_⟩
  unfold Current
  rw [hguard]
  exact ⟨rfl, rfl⟩

/-- No more requests were read than there are frames written whole. -/
theorem exchange_of_said (h : InTurn join c exs closed said heard)
    (hconv : Conversed srv join task exs waiting last)
    (harrived : arrivedBytes task.chan.log <+: c.stream.send.written) {frame : Frame}
    (hfits : frame.Fits) (hsaid : said = frame.bytes) :
    exs.drop closed.length = [] ∨ ∃ ex, exs.drop closed.length = [ex] ∧ ex.frame = frame := by
  have hsplit : said = [frame].flatMap (·.bytes) ++ [] := by simp [hsaid]
  have hheads := h.heads hconv harrived hsplit (by simpa using hfits) framing.noFrame_nil
  have hframes : (exs.map (·.frame)) <+: closed ++ [frame] := (List.prefix_append _ _).trans hheads
  have hdrop := hframes.drop closed.length
  rw [List.drop_left, ← List.map_drop] at hdrop
  cases hrest : exs.drop closed.length with
  | nil => exact .inl rfl
  | cons ex rest =>
    rw [hrest, List.map_cons, List.cons_prefix_cons] at hdrop
    have hnil : rest = [] := List.map_eq_nil_iff.mp (List.prefix_nil.mp hdrop.2)
    rw [hnil]
    exact .inr ⟨ex, rfl, hdrop.1⟩

/-- Once the rest of the answers is read, all that was written is. -/
theorem taken_eq (h : InTurn join c exs closed said heard)
    (hconv : Conversed srv join task exs waiting last) {part : List UInt8}
    (hpart : heard ++ part =
      ((exs.drop closed.length).map (fun ex => (ex.answer, ex.out)) ++ last).flatMap (·.2)) :
    c.stream.taken ++ part = task.chan.send.written := by
  have hsplit : exs.flatMap (·.out) = (exs.take closed.length).flatMap (·.out) ++
      (exs.drop closed.length).flatMap (·.out) := by
    rw [← List.flatMap_append, List.take_append_drop]
  rw [h.taken, List.append_assoc, List.append_assoc, hpart, hconv.written, hsplit,
    List.flatMap_append, List.flatMap_map, List.append_assoc]

/-- A call that has read a frame to its end has read the answer to its request, or
that the session has expired. -/
theorem filled (h : InTurn join c exs closed said heard) (hlaw : srv.aead.Lawful)
    (hconv : Conversed srv join task exs waiting last)
    (harrived : arrivedBytes task.chan.log <+: c.stream.send.written)
    (hreceived : c.stream.received <+: task.chan.send.written)
    (hlengths : ∀ answer ∈ answers task.chan.log, ResponseKept answer.2.2)
    {g : Guard} (hg : c.guard = some g) {frameLen : UInt32} {got part unread : List UInt8}
    (hphase : g.phase = .filling frameLen got) (hbytes : c.stream.recv.bytes = part ++ unread)
    (hfull : (got ++ part).length = frameLen.toNat) :
    ∃ resp, decodeResponse srv.aead (some join.est.sessionKey) (got ++ part) = .ok resp ∧
      ((∃ ex, exs[closed.length]? = some ex ∧ ex.frame = g.frame ∧ heard ++ part = ex.out ∧
          resp = ⟨ex.resp.status, arrival ex.resp.payload, ex.seq⟩) ∨
        ∃ out, last = [((.expiry, 0, Server.expiredResponse), out)] ∧
          heard ++ part = ((exs.drop closed.length).map (fun ex => (ex.answer, ex.out)) ++
            last).flatMap (·.2) ∧ resp = ⟨.sessionExpired, arrival none, 0⟩) := by
  have hcurrent := h.current
  unfold Current at hcurrent
  rw [hg] at hcurrent
  obtain ⟨hfits, hat⟩ := hcurrent
  unfold GuardAt at hat
  rw [hphase] at hat
  obtain ⟨hsaid, lenBuf, hlen, rfl, rfl⟩ := hat
  have hunheard := h.unheard hconv hreceived
  rw [hbytes, ← List.append_assoc] at hunheard
  have hfront := (List.prefix_append _ _).trans hunheard
  rw [List.append_assoc] at hfront ⊢
  have hparts := unread_carries hlaw hconv hlengths closed.length
  obtain ⟨before, p, after, hsplit, hbefore, hall, hdecode⟩ :=
    whole_of_answers hparts hlen hfull hfront
  have hexpired (hp : p ∈ last) (hnone : ((exs.drop closed.length).map fun ex => (ex.answer, ex.out)).flatMap (·.2) = []) :
      ∃ out, last = [((.expiry, 0, Server.expiredResponse), out)] ∧
          lenBuf ++ (got ++ part) = ((exs.drop closed.length).map (fun ex => (ex.answer, ex.out)) ++
            last).flatMap (·.2) ∧
          (⟨p.1.2.2.status, arrival p.1.2.2.payload, p.1.2.1⟩ : Frame.Response) =
            ⟨.sessionExpired, arrival none, 0⟩ := by
    obtain hnil | ⟨nonce, hone⟩ := hconv.parting
    · rw [hnil] at hp
      cases hp
    · rw [hone] at hp
      have hp := List.mem_singleton.mp hp
      refine ⟨_, hone, ?_, by rw [hp]; rfl⟩
      rw [List.flatMap_append, hnone, hone, hall, hp]
      simp
  obtain hdrop | ⟨ex, hdrop, hframe⟩ := h.exchange_of_said hconv harrived hfits hsaid
  · rw [hdrop, List.map_nil, List.nil_append] at hsplit
    have hp : p ∈ last := by
      rw [hsplit]
      exact List.mem_append_right _ List.mem_cons_self
    refine ⟨_, hdecode, .inr ?_⟩
    rw [hdrop] at hexpired ⊢
    exact hexpired hp rfl
  · rw [hdrop, List.map_cons, List.map_nil, List.cons_append, List.nil_append] at hsplit
    have hplace : exs[closed.length]? = some ex := by
      rw [← List.head?_drop, hdrop]
      rfl
    cases before with
    | nil =>
      obtain ⟨rfl, -⟩ := List.cons.inj hsplit
      exact ⟨_, hdecode, .inl ⟨ex, hplace, hframe, hall, rfl⟩⟩
    | cons b before =>
      obtain ⟨rfl, hrest⟩ := List.cons.inj hsplit
      rw [List.flatMap_cons] at hbefore
      have hp : p ∈ last := by
        rw [hrest]
        exact List.mem_append_right _ List.mem_cons_self
      refine ⟨_, hdecode, .inr ?_⟩
      rw [hdrop] at hexpired ⊢
      refine hexpired hp ?_
      simpa using (List.append_eq_nil_iff.mp hbefore).1

/-- The length of a frame that the server wrote is within the limit. -/
theorem header_le (h : InTurn join c exs closed said heard) (hlaw : srv.aead.Lawful)
    (hconv : Conversed srv join task exs waiting last)
    (hreceived : c.stream.received <+: task.chan.send.written)
    (hlengths : ∀ answer ∈ answers task.chan.log, ResponseKept answer.2.2)
    {part unread : List UInt8} (hbytes : c.stream.recv.bytes = part ++ unread)
    (hlen : (heard ++ part).length = 4) : u32.fromBeBytes (heard ++ part) ≤ maxFrameSize := by
  have hunheard := h.unheard hconv hreceived
  rw [hbytes, ← List.append_assoc] at hunheard
  have hparts := unread_carries hlaw hconv hlengths closed.length
  obtain ⟨-, -, -, -, -, frame, hfits, -, hheader, -⟩ :=
    header_of_answers hparts hlen ((List.prefix_append _ _).trans hunheard)
  rw [hheader, u32.fromBeBytes_toBeBytes]
  exact hfits.totalLen_le

/-- Once the connection has settled, the guard can be given back. -/
theorem settle {c' : TcpClient} (h : InTurn join c exs closed said heard)
    (hconv : Conversed srv join task exs waiting last) {g : Guard} (hg : c.guard = some g)
    (hunfinished : g.phase.Unfinished)
    (hheard : c.stream.taken = task.chan.send.written) (hopen : task.phase.isOver = false)
    (hidle : task.phase.isDispatching = false) (hnone : task.chan.recv.bytes = [])
    (hall : arrivedBytes task.chan.log = c.stream.send.written) (hstream : c'.stream = c.stream)
    (hguard : c'.guard = none) :
    ∃ closed', closed.length ≤ closed'.length ∧ InTurn join c' exs closed' [] [] := by
  obtain ⟨rfl, hstep, hstanding⟩ := hconv.standing hopen
  obtain rfl := hstanding.waiting_nil hidle
  have hread : (exs.map (·.frame)).flatMap Frame.bytes ++ [] = closed.flatMap Frame.bytes ++ said := by
    unfold Server.InStep at hstep
    rw [hnone, hall, h.written, hconv.readBytes_eq, List.append_nil, List.append_nil,
      List.append_cancel_left_eq] at hstep
    rw [List.append_nil]
    exact hstep
  have hframes : ∀ frame ∈ exs.map (·.frame), frame.Fits := by
    intro frame hin
    exact hconv.fits frame (List.mem_append_left _ hin)
  have hclosed (hheads : exs.map (·.frame) <+: closed) : said = [] := by
    have hsame := hheads.eq_of_length_le (by rw [List.length_map]; exact h.enough)
    rw [hsame, List.append_nil] at hread
    exact List.self_eq_append_right.mp hread
  have hcurrent := h.current
  unfold Current at hcurrent
  rw [hg] at hcurrent
  obtain ⟨hfits, hat⟩ := hcurrent
  obtain ⟨left, hphase, hsaid, rfl⟩ | hsaid := hat.said_eq
  · -- a request that was not written whole cannot have been read
    rw [hphase] at hunfinished
    have hpositive := List.length_pos_iff.mpr hunfinished
    have hlength : said.length < g.frame.bytes.length := by
      rw [← hsaid, List.length_append]
      omega
    have hno := framing.noFrame_part ErrorKind.wouldBlock hfits ⟨left, hsaid⟩ hlength
    obtain rfl := hclosed (framing.front_of_flatMap ErrorKind.wouldBlock hframes h.fits hno hread)
    exact ⟨closed, Nat.le_refl _, h.abandon hstream hguard⟩
  · have harrived : arrivedBytes task.chan.log <+: c.stream.send.written := by rw [hall]
    obtain hdrop | ⟨ex, hdrop, -⟩ := h.exchange_of_said hconv harrived hfits hsaid
    · have hsplit : said = [g.frame].flatMap (·.bytes) ++ [] := by simp [hsaid]
      have hheads := h.heads hconv harrived hsplit (by simpa using hfits) framing.noFrame_nil
      rw [List.append_nil] at hheads
      have hle : (exs.map (·.frame)).length ≤ closed.length := by
        rw [List.length_map]
        exact List.drop_eq_nil_iff.mp hdrop
      rw [hclosed (List.prefix_of_prefix_length_le hheads (List.prefix_append _ _) hle)] at hsaid
      exact absurd hsaid.symm g.frame.bytes_ne_nil
    · have hplace : exs[closed.length]? = some ex := by
        rw [← List.head?_drop, hdrop]
        rfl
      have htaken : c'.stream.taken =
          join.reply ++ ((exs.take closed.length).flatMap (·.out) ++ ex.out) := by
        have hexs : exs = exs.take closed.length ++ [ex] := by
          rw [← hdrop, List.take_append_drop]
        rw [hstream, hheard, hconv.written, List.flatMap_nil, List.append_nil]
        conv_lhs => rw [hexs]
        simp
      refine ⟨closed ++ [g.frame], by simp, h.close hg hplace hsaid (by rw [hstream]) htaken hguard⟩

end InTurn

end Hush.Client
