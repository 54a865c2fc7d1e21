import Hush.Client.Progress

/-! The reading half of `do_tcp` and of `do_quinn`, which take a response frame
apart by hand, against the frame module. The two have the same text. -/
namespace Hush.Client

open Hush.Foundation BigEndian Stream
open Hush.Frame Hush.Session

/-- Every error of a read becomes an unexpected end; one that waits is no error. -/
def readError (kind : ErrorKind) : ClientError :=
  .io (if kind = .wouldBlock then .wouldBlock else .unexpectedEof)

/-- The length, so many bytes, and what they decode to. No least length is asked for. -/
def readResponse (aead : Aead) (sessionKey : List UInt8) (stream : Source) :
    Except ClientError (Response × Source) :=
  match stream.readExact 4 with
  | .error e => .error (readError e)
  | .ok (lenBuf, stream) =>
    let frameLen := u32.fromBeBytes lenBuf
    if maxFrameSize < frameLen then .error (.frame (.tooLarge frameLen maxFrameSize))
    else
      match stream.readExact frameLen.toNat with
      | .error e => .error (readError e)
      | .ok (rest, stream) =>
        match decodeResponse aead (some sessionKey) rest with
        | .error e => .error (.request e)
        | .ok resp => .ok (resp, stream)

def doTcpRead := readResponse

def doQuinnRead := readResponse

theorem readResponse_ok_iff {aead : Aead} {key : List UInt8} {stream rest : Source}
    {resp : Response} :
    readResponse aead key stream = .ok (resp, rest) ↔
      ∃ frameLen body, frameLen ≤ maxFrameSize ∧ body.length = frameLen.toNat ∧
        stream.bytes = u32.toBeBytes frameLen ++ (body ++ rest.bytes) ∧
        rest.ending = stream.ending ∧ decodeResponse aead (some key) body = .ok resp := by
  unfold readResponse
  constructor
  · intro h
    split at h
    · cases h
    · rename_i lenBuf mid hheader
      obtain ⟨hlenBuf, hmid, hending⟩ := Source.readExact_ok_iff.mp hheader
      dsimp only at h
      split at h
      · cases h
      rename_i hmax
      split at h
      · cases h
      rename_i body rest' hbody
      obtain ⟨hlength, hrest, hending'⟩ := Source.readExact_ok_iff.mp hbody
      split at h
      · cases h
      rename_i resp' hdecode
      simp only [Except.ok.injEq, Prod.mk.injEq] at h
      obtain ⟨rfl, rfl⟩ := h
      refine ⟨u32.fromBeBytes lenBuf, body, UInt32.not_lt.mp hmax, hlength, ?_,
        hending'.trans hending, hdecode⟩
      rw [u32.toBeBytes_fromBeBytes hlenBuf, ← hrest, ← hmid]
  · rintro ⟨frameLen, body, hmax, hlength, hbytes, hending, hdecode⟩
    obtain ⟨bytes, ending⟩ := stream
    obtain ⟨restBytes, restEnding⟩ := rest
    dsimp only at hbytes hending
    obtain rfl := hbytes
    obtain rfl := hending
    rw [Source.readExact_append (u32.length_toBeBytes frameLen)]
    dsimp only
    rw [u32.fromBeBytes_toBeBytes, if_neg (UInt32.not_lt.mpr hmax), Source.readExact_append hlength]
    dsimp only
    rw [hdecode]

/-- The function against the steps of a call that holds the connection: what it
returns is what the call comes to, once the bytes are there. -/
theorem readResponse_reaches {aead : Aead} {c : TcpClient} {g : Guard} (hg : c.guard = some g)
    (hphase : g.phase = .sizing []) {resp : Response} {rest : Source}
    (h : doTcpRead aead c.sessionKey c.stream.recv = .ok (resp, rest)) :
    ∃ stream, stream.recv = rest ∧ Execution.ReachesBy (callStep aead) CallAction.doing c
      (c.release stream g.index (.answered g.frame resp)) := by
  obtain ⟨frameLen, body, hmax, hlength, hbytes, hending, hdecode⟩ := readResponse_ok_iff.mp h
  have hreach : Execution.ReachesBy (callStep aead) CallAction.doing c _ :=
    whole_reaches hg hphase hmax hlength hbytes
  rw [hdecode] at hreach
  refine ⟨_, ?_, hreach⟩
  cases rest
  cases hending
  rfl

/-- Fewer than four bytes decode to no response: the minimum length that the
reader does not check is checked here. -/
theorem length_of_decodeResponse {aead : Aead} {key : Option (List UInt8)} {wire : List UInt8}
    {resp : Response} (h : decodeResponse aead key wire = .ok resp) : 4 ≤ wire.length := by
  by_contra hshort
  unfold decodeResponse parseFrameData at h
  rw [if_pos (Nat.not_le.mp hshort)] at h
  cases h

theorem readFrameAsync_ok_iff {stream rest : Source} {f : Frame} :
    readFrameAsync stream = .ok (f, rest) ↔
      f.Fits ∧ stream.bytes = f.bytes ++ rest.bytes ∧ rest.ending = stream.ending := by
  constructor
  · exact readFrameFrom_sound
  · rintro ⟨hfits, hbytes, hending⟩
    obtain ⟨bytes, ending⟩ := stream
    obtain ⟨restBytes, restEnding⟩ := rest
    dsimp only at hbytes hending
    obtain rfl := hbytes
    obtain rfl := hending
    exact readFrameFrom_bytes hfits restBytes restEnding

/-- A response is read exactly when a frame is, and it decodes. -/
theorem readResponse_ok_iff_frame {aead : Aead} {key : List UInt8} {stream rest : Source}
    {resp : Response} :
    readResponse aead key stream = .ok (resp, rest) ↔
      ∃ f, readFrameAsync stream = .ok (f, rest) ∧
        decodeResponse aead (some key) (u32.toBeBytes f.seq ++ f.data) = .ok resp := by
  rw [readResponse_ok_iff]
  constructor
  · rintro ⟨frameLen, body, hmax, hlength, hbytes, hending, hdecode⟩
    have hfour := length_of_decodeResponse hdecode
    have hbody := Frame.ofBody hfour
    have hfits : Frame.Fits ⟨u32.fromBeBytes (body.take 4), body.drop 4⟩ := by
      rw [UInt32.le_iff_toNat_le, ← hlength, toNat_maxFrameSize] at hmax
      unfold Frame.Fits
      rw [List.length_drop, toNat_maxFrameSize]
      omega
    have htotal : totalLen (body.drop 4) = frameLen := by
      apply UInt32.toNat_inj.mp
      rw [hfits.toNat_totalLen, ← hlength, List.length_drop]
      omega
    refine ⟨⟨u32.fromBeBytes (body.take 4), body.drop 4⟩, ?_, ?_⟩
    · refine readFrameAsync_ok_iff.mpr ⟨hfits, ?_, hending⟩
      rw [Frame.bytes, htotal, hbody, hbytes, List.append_assoc]
    · change decodeResponse aead (some key)
        (Frame.body ⟨u32.fromBeBytes (body.take 4), body.drop 4⟩) = .ok resp
      rw [hbody]
      exact hdecode
  · rintro ⟨f, hread, hdecode⟩
    obtain ⟨hfits, hbytes, hending⟩ := readFrameAsync_ok_iff.mp hread
    refine ⟨totalLen f.data, f.body, hfits.totalLen_le, ?_, ?_, hending, hdecode⟩
    · rw [hfits.toNat_totalLen, Frame.length_body]
    · rw [hbytes, Frame.bytes, List.append_assoc]

/-- The read halves of both transports return a response exactly when the frame
module reads a frame that decodes to it, with the same bytes left unread; where
the frame module fails, so do they. -/
theorem read_half_agrees (aead : Aead) (key : List UInt8) (stream : Source) :
    (∀ resp rest, (doTcpRead aead key stream = .ok (resp, rest) ↔
      ∃ f, readFrameAsync stream = .ok (f, rest) ∧
        decodeResponse aead (some key) (u32.toBeBytes f.seq ++ f.data) = .ok resp)) ∧
    (∀ resp rest, (doQuinnRead aead key stream = .ok (resp, rest) ↔
      ∃ f, readFrameAsync stream = .ok (f, rest) ∧
        decodeResponse aead (some key) (u32.toBeBytes f.seq ++ f.data) = .ok resp)) ∧
    (∀ e, readFrameAsync stream = .error e → (∃ e', doTcpRead aead key stream = .error e') ∧
      ∃ e', doQuinnRead aead key stream = .error e') := by
  have hiff (resp : Response) (rest : Source) :
      readResponse aead key stream = .ok (resp, rest) ↔
        ∃ f, readFrameAsync stream = .ok (f, rest) ∧
          decodeResponse aead (some key) (u32.toBeBytes f.seq ++ f.data) = .ok resp :=
    readResponse_ok_iff_frame
  have hfails (e : FrameError) (he : readFrameAsync stream = .error e) :
      ∃ e', readResponse aead key stream = .error e' := by
    match hrun : readResponse aead key stream with
    | .error e' => exact ⟨e', rfl⟩
    | .ok (resp, rest) =>
      obtain ⟨f, hread, -⟩ := (hiff resp rest).mp hrun
      rw [he] at hread
      cases hread
  exact ⟨hiff, hiff, fun e he => ⟨hfails e he, hfails e he⟩⟩

/-- A length of two, with its two bytes there. -/
theorem read_half_agrees_tooShort :
    (∃ e, doTcpRead keyTagAead (List.replicate 32 1) ⟨[0, 0, 0, 2, 9, 9], .unexpectedEof⟩ =
      .error e) ∧
    ∃ e, doQuinnRead keyTagAead (List.replicate 32 1) ⟨[0, 0, 0, 2, 9, 9], .unexpectedEof⟩ =
      .error e :=
  (read_half_agrees keyTagAead (List.replicate 32 1) _).2.2 (.tooShort 2) rfl

end Hush.Client
