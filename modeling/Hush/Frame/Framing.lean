import Hush.Frame.Codec

/-! Streams of frames: reading undoes writing, a cut stream yields its whole
frames, and nothing is read that was not a frame of the stream. -/
namespace Hush.Frame

open Hush.Foundation BigEndian Stream

theorem readFrameFrom_bytes {f : Frame} (h : f.Fits) (rest : List UInt8) (k : ErrorKind) :
    readFrameFrom ⟨f.bytes ++ rest, k⟩ = .ok (f, ⟨rest, k⟩) := by
  have hheader : (u32.toBeBytes (totalLen f.data)).length = 4 := u32.length_toBeBytes _
  have hlen : f.body.length = (totalLen f.data).toNat := by
    rw [h.toNat_totalLen, Frame.length_body]
  have hmax : ¬maxFrameSize < totalLen f.data := UInt32.not_lt.mpr h.totalLen_le
  have hmin : ¬totalLen f.data < frameMinData := by
    rw [UInt32.not_lt, UInt32.le_iff_toNat_le, h.toNat_totalLen]
    exact Nat.le_add_right 4 _
  unfold readFrameFrom
  rw [Frame.bytes, List.append_assoc, Source.readExact_append hheader]
  dsimp only
  rw [u32.fromBeBytes_toBeBytes, if_neg hmax, if_neg hmin, Source.readExact_append hlen]
  dsimp only
  have hparse := parseFrameData_body f
  unfold parseFrameData at hparse
  rw [if_neg (by simp)] at hparse
  rw [Except.ok.inj hparse]

theorem readFrameFrom_sound {src src' : Source} {f : Frame}
    (h : readFrameFrom src = .ok (f, src')) :
    f.Fits ∧ src.bytes = f.bytes ++ src'.bytes ∧ src'.ending = src.ending := by
  unfold readFrameFrom at h
  split at h
  · cases h
  · cases h
  · rename_i lenBuf mid hheader
    obtain ⟨hlenBuf, hmid, hending⟩ := Source.readExact_ok_iff.mp hheader
    dsimp only at h
    split at h
    · cases h
    rename_i hmax
    split at h
    · cases h
    rename_i hmin
    split at h
    · cases h
    · rename_i data rest hdata
      obtain ⟨hlength, hrest, hending'⟩ := Source.readExact_ok_iff.mp hdata
      simp only [Except.ok.injEq, Prod.mk.injEq] at h
      obtain ⟨rfl, rfl⟩ := h
      rw [UInt32.not_lt, UInt32.le_iff_toNat_le] at hmax hmin
      rw [toNat_maxFrameSize] at hmax
      have hfour : 4 ≤ data.length := hlength ▸ hmin
      have hfits : Frame.Fits ⟨u32.fromBeBytes (data.take 4), data.drop 4⟩ := by
        unfold Frame.Fits
        rw [toNat_maxFrameSize, List.length_drop]
        omega
      refine ⟨hfits, ?_, hending'.trans hending⟩
      -- the header is the length that the frame's own header would have
      have htotal : totalLen (data.drop 4) = u32.fromBeBytes lenBuf := by
        apply UInt32.toNat_inj.mp
        rw [hfits.toNat_totalLen, ← hlength, List.length_drop]
        omega
      rw [Frame.bytes, htotal, u32.toBeBytes_fromBeBytes hlenBuf, Frame.ofBody hfour,
        List.append_assoc, ← hrest, ← hmid]

theorem framing : Framing readFrameFrom Frame.bytes Frame.Fits where
  read_encode := fun h => readFrameFrom_bytes h _ _
  encode_read := readFrameFrom_sound
  encode_ne_nil := Frame.bytes_ne_nil

/-- At the end of input and inside a header a reader reports the end, inside a
body an I/O error. -/
def truncation (tail : List UInt8) : FrameError :=
  if tail.length < 4 then .eof else .io .unexpectedEof

/-- A frame that is not all there ends in the error of the stream. -/
theorem readFrameFrom_cut {f : Frame} {tail : List UInt8} (hfits : f.Fits)
    (hpre : tail <+: f.bytes) (hlength : tail.length < f.bytes.length) (k : ErrorKind) :
    readFrameFrom ⟨tail, k⟩ =
      .error (if tail.length < 4 ∧ k = .unexpectedEof then .eof else .io k) := by
  unfold readFrameFrom
  by_cases hheader : tail.length < 4
  · rw [Source.readExact_of_lt hheader]
    cases k <;> simp [hheader]
  · have hfour : (u32.toBeBytes (totalLen f.data)).length ≤ tail.length := by
      rw [u32.length_toBeBytes]
      omega
    obtain ⟨part, rfl⟩ := List.prefix_of_prefix_length_le (List.prefix_append _ f.body) hpre hfour
    have hmax : ¬maxFrameSize < totalLen f.data := UInt32.not_lt.mpr hfits.totalLen_le
    have hmin : ¬totalLen f.data < frameMinData := by
      rw [UInt32.not_lt, UInt32.le_iff_toNat_le, hfits.toNat_totalLen]
      exact Nat.le_add_right 4 _
    have hpart : part.length < (totalLen f.data).toNat := by
      rw [hfits.toNat_totalLen, ← Frame.length_body]
      simp only [Frame.bytes, List.length_append] at hlength
      omega
    have hread := Source.readExact_append (u32.length_toBeBytes (totalLen f.data)) part k
    rw [hread, if_neg (fun h => hheader h.1)]
    dsimp only
    rw [u32.fromBeBytes_toBeBytes, if_neg hmax, if_neg hmin, Source.readExact_of_lt hpart]

theorem readFrameFrom_truncated {f : Frame} {tail : List UInt8} (hfits : f.Fits)
    (hpre : tail <+: f.bytes) (hlength : tail.length < f.bytes.length) :
    readFrameFrom ⟨tail, .unexpectedEof⟩ = .error (truncation tail) := by
  rw [readFrameFrom_cut hfits hpre hlength, truncation]
  simp only [and_true]

/-- A read that would wait has come to the end of what there is. -/
theorem ending_of_readFrameFrom {src : Source} {k : ErrorKind}
    (h : readFrameFrom src = .error (.io k)) : src.ending = k := by
  unfold readFrameFrom at h
  split at h
  · cases h
  · rename_i e _ hread
    obtain rfl : e = k := FrameError.io.inj (Except.error.inj h)
    unfold Source.readExact at hread
    split at hread
    · exact Except.error.inj hread
    · cases hread
  · rename_i lenBuf mid hheader
    obtain ⟨-, -, hending⟩ := Source.readExact_ok_iff.mp hheader
    dsimp only at h
    split at h
    · cases h
    split at h
    · cases h
    split at h
    · rename_i e hread
      obtain rfl : e = k := FrameError.io.inj (Except.error.inj h)
      unfold Source.readExact at hread
      split at hread
      · rw [← hending]
        exact Except.error.inj hread
      · cases hread
    · cases h

theorem writeFrameTo_vec {f : Frame} (h : f.Fits) (written : List UInt8) :
    writeFrameTo ⟨written, none⟩ f.seq f.data = (.ok (), ⟨written ++ f.bytes, none⟩) := by
  unfold writeFrameTo
  rw [h.encodeFrame]
  rfl

/-- Frames written one after the other. -/
def writeFrames (write : Sink → UInt32 → List UInt8 → Except FrameError Unit × Sink) (w : Sink) :
    List Frame → Except FrameError Unit × Sink
  | [] => (.ok (), w)
  | f :: rest =>
    match write w f.seq f.data with
    | (.ok (), w) => writeFrames write w rest
    | (.error e, w) => (.error e, w)

theorem writeFrames_vec {frames : List Frame} (h : ∀ f ∈ frames, f.Fits)
    (written : List UInt8) :
    writeFrames writeFrameTo ⟨written, none⟩ frames =
      (.ok (), ⟨written ++ frames.flatMap Frame.bytes, none⟩) := by
  induction frames generalizing written with
  | nil => simp [writeFrames]
  | cons f rest ih =>
    rw [List.forall_mem_cons] at h
    rw [writeFrames, writeFrameTo_vec h.1]
    dsimp only
    rw [ih h.2, List.flatMap_cons, List.append_assoc]

theorem mapM_encodeFrame {frames : List Frame} (h : ∀ f ∈ frames, f.Fits) :
    frames.mapM (fun f => encodeFrame f.seq f.data) = .ok (frames.map Frame.bytes) := by
  induction frames with
  | nil => rfl
  | cons f rest ih =>
    rw [List.forall_mem_cons] at h
    rw [List.mapM_cons, h.1.encodeFrame, ih h.2]
    rfl

/-- All frames of a stream, read until an error. -/
def readFrames (read : Source → Except FrameError (Frame × Source)) (src : Source) :
    List Frame × Option FrameError :=
  readAll read (src.bytes.length + 1) src

theorem length_le_flatMap_bytes (frames : List Frame) :
    frames.length ≤ (frames.flatMap Frame.bytes).length := by
  induction frames with
  | nil => exact Nat.le_refl 0
  | cons f rest ih =>
    have hpositive := List.length_pos_iff.mpr f.bytes_ne_nil
    rw [List.flatMap_cons, List.length_append, List.length_cons]
    omega

theorem readFrames_tail {frames : List Frame} {tail : List UInt8} {e : FrameError}
    (h : ∀ f ∈ frames, f.Fits) (htail : readFrameFrom ⟨tail, .unexpectedEof⟩ = .error e) :
    readFrames readFrameFrom ⟨frames.flatMap Frame.bytes ++ tail, .unexpectedEof⟩ =
      (frames, some e) := by
  apply framing.readAll_flatMap h htail
  have := length_le_flatMap_bytes frames
  rw [List.length_append]
  omega

/-- What a reader, a writer and the encoder owe each other over whole streams. -/
structure StreamLaw (read : Source → Except FrameError (Frame × Source))
    (write : Sink → UInt32 → List UInt8 → Except FrameError Unit × Sink) : Prop where
  /-- The frames written and encoded are read back, and then the stream is over. -/
  whole : ∀ frames : List Frame, (∀ f ∈ frames, f.data.length ≤ maxFrameSize.toNat - 4) →
    ∃ chunks, frames.mapM (fun f => encodeFrame f.seq f.data) = .ok chunks ∧
      writeFrames write Sink.vec frames = (.ok (), ⟨chunks.flatten, none⟩) ∧
        readFrames read ⟨chunks.flatten, .unexpectedEof⟩ = (frames, some .eof)
  /-- A cut stream yields its whole frames and an error for the part of the next. -/
  cut : ∀ frames : List Frame, (∀ f ∈ frames, f.data.length ≤ maxFrameSize.toNat - 4) →
    ∀ chunks, frames.mapM (fun f => encodeFrame f.seq f.data) = .ok chunks →
      ∀ cut ≤ chunks.flatten.length, ∃ count tail,
        chunks.flatten.take cut = (chunks.take count).flatten ++ tail ∧
        (tail = [] ∧ chunks.take count = chunks ∨
          ∃ chunk, chunks[count]? = some chunk ∧ tail <+: chunk ∧ tail.length < chunk.length) ∧
        readFrames read ⟨chunks.flatten.take cut, .unexpectedEof⟩ =
          (frames.take count, some (if tail.length < 4 then .eof else .io .unexpectedEof))
  /-- Whatever is read from any stream was in it: the bytes consumed are the
  encodings of the frames read, and each frame is what its own bytes parse to. -/
  only : ∀ src : Source, ∃ chunks rest e,
    (readFrames read src).2 = some e ∧ read ⟨rest, src.ending⟩ = .error e ∧
    (readFrames read src).1.mapM (fun f => encodeFrame f.seq f.data) = .ok chunks ∧
    src.bytes = chunks.flatten ++ rest ∧
    chunks.mapM (fun chunk => parseFrameData (chunk.drop 4)) = .ok (readFrames read src).1

theorem mapM_parseFrameData (frames : List Frame) :
    (frames.map Frame.bytes).mapM (fun chunk => parseFrameData (chunk.drop 4)) = .ok frames := by
  induction frames with
  | nil => rfl
  | cons f rest ih =>
    rw [List.map_cons, List.mapM_cons, Frame.drop_bytes, parseFrameData_body, ih]
    rfl

theorem streamLaw : StreamLaw readFrameFrom writeFrameTo := by
  constructor
  · intro frames hfits
    refine ⟨frames.map Frame.bytes, mapM_encodeFrame hfits, ?_, ?_⟩
    · rw [← List.flatMap_def]
      exact writeFrames_vec hfits []
    · have hend : readFrameFrom ⟨[], .unexpectedEof⟩ = .error .eof := rfl
      have hread := readFrames_tail hfits hend
      rwa [List.append_nil, List.flatMap_def] at hread
  · intro frames hfits chunks hchunks cut hcut
    rw [mapM_encodeFrame hfits] at hchunks
    obtain rfl := Except.ok.inj hchunks
    rw [← List.flatMap_def] at hcut ⊢
    obtain ⟨count, tail, htake, htail⟩ := take_flatMap_encode frames hcut
    have hread : readFrameFrom ⟨tail, .unexpectedEof⟩ = .error (truncation tail) := by
      obtain ⟨rfl, -⟩ | ⟨f, hf, hpre, hlength⟩ := htail
      · rfl
      · exact readFrameFrom_truncated (hfits f (List.mem_of_getElem? hf)) hpre hlength
    refine ⟨count, tail, ?_, ?_, ?_⟩
    · rw [← List.map_take, ← List.flatMap_def]
      exact htake
    · obtain ⟨hnil, hall⟩ | ⟨f, hf, hnext⟩ := htail
      · exact .inl ⟨hnil, by rw [← List.map_take, hall]⟩
      · exact .inr ⟨f.bytes, by rw [List.getElem?_map, hf, Option.map_some], hnext⟩
    · rw [htake]
      exact readFrames_tail (fun f hf => hfits f (List.mem_of_mem_take hf)) hread
  · intro src
    obtain ⟨rest, e, herror, hrest, hsplit, hfits⟩ :=
      framing.readAll_sound (Nat.lt_succ_self src.bytes.length)
    refine ⟨(readFrames readFrameFrom src).1.map Frame.bytes, rest, e, herror, hrest,
      mapM_encodeFrame hfits, ?_, mapM_parseFrameData _⟩
    rw [← List.flatMap_def]
    exact hsplit

/-- Both pairs of a reader and a writer obey the law of streams. -/
theorem frame_streams :
    StreamLaw readFrame writeFrame ∧ StreamLaw readFrameAsync writeFrameAsync :=
  ⟨streamLaw, streamLaw⟩

end Hush.Frame
