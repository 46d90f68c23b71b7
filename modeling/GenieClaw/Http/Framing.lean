import GenieClaw.Http.Boundary

/-!
# The three ways to frame a body

A response may declare the length of its body, send it in chunks, or send it to the end of the
stream. The first two readers put replacement characters for bytes that are no text; the third
refuses them.

* `framings_agree_iff` (the body is within the limit): when the three ways agree.
-/

namespace GenieClaw.Http

open Library Library.Buffered Library.Program Library.Text List

/-! ## Chunks -/

/-- A chunk with the line that states its size, which may have extensions. -/
structure Chunk where
  sizeLine : String
  data : List UInt8
  oneLine : OneLine sizeLine
  fits : (lineBytes sizeLine).length ≤ maxChunkSizeLineBytes
  size : chunkSize (lineBytes sizeLine) = some data.length
  nonempty : data ≠ []

/-- The chunk of size zero at the end. -/
structure LastChunk where
  sizeLine : String
  oneLine : OneLine sizeLine
  fits : (lineBytes sizeLine).length ≤ maxChunkSizeLineBytes
  size : chunkSize (lineBytes sizeLine) = some 0

def Chunk.bytes (chunk : Chunk) : List UInt8 :=
  lineBytes chunk.sizeLine ++ (chunk.data ++ blankLine)

/-- Without trailers the last chunk is followed by a blank line. -/
def LastChunk.bytes (last : LastChunk) : List UInt8 := lineBytes last.sizeLine ++ blankLine

/-- A body in chunks, as it is sent. -/
def chunkedBytes (chunks : List Chunk) (last : LastChunk) : List UInt8 :=
  chunks.flatMap Chunk.bytes ++ last.bytes

/-- The body that the chunks make up. -/
def chunkedBody (chunks : List Chunk) : List UInt8 := chunks.flatMap Chunk.data

section

variable {limits : HttpResponseLimits} {body left : List UInt8}

theorem readChunk_runs (chunk : Chunk)
    (hroom : body.length + chunk.data.length ≤ limits.maxBodyBytes) :
    Runs (readChunk limits body) (chunk.bytes ++ left) (.ok (some (body ++ chunk.data), left)) := by
  have hsize : ¬ chunk.data.length = 0 := fun h => chunk.nonempty (List.length_eq_zero_iff.mp h)
  have hsmall : ¬ limits.maxBodyBytes < saturatingAdd usizeMax body.length chunk.data.length :=
    Nat.not_lt_of_le ((Nat.min_le_left _ _).trans hroom)
  rw [Chunk.bytes, append_assoc, append_assoc]
  refine Runs.bind (readLineBounded_runs chunk.oneLine chunk.fits _) ?_
  rw [chunk.size]
  dsimp only
  rw [if_neg hsize, if_neg hsmall]
  refine Runs.bind (runs_readExact _ chunk.data _) ?_
  exact Runs.bind (runs_readExact _ blankLine left) (Runs.pure _ left)

theorem readChunk_large (chunk : Chunk)
    (hlarge : limits.maxBodyBytes < saturatingAdd usizeMax body.length chunk.data.length) :
    Runs (readChunk limits body) (chunk.bytes ++ left) (.error .bodyTooLarge) := by
  have hsize : ¬ chunk.data.length = 0 := fun h => chunk.nonempty (List.length_eq_zero_iff.mp h)
  rw [Chunk.bytes, append_assoc]
  refine Runs.bind (readLineBounded_runs chunk.oneLine chunk.fits _) ?_
  rw [chunk.size]
  dsimp only
  rw [if_neg hsize, if_pos hlarge]
  exact Runs.fail _ _

theorem readChunk_last (last : LastChunk) :
    Runs (readChunk limits body) (last.bytes ++ left) (.ok (none, left)) := by
  rw [LastChunk.bytes, append_assoc]
  refine Runs.bind (readLineBounded_runs last.oneLine last.fits _) ?_
  rw [last.size]
  dsimp only
  rw [if_pos rfl]
  exact Runs.bind (readLineBounded_runs (by decide) (by decide) left) (Runs.pure none left)

theorem chunkedBytes_cons (chunk : Chunk) (rest : List Chunk) (last : LastChunk) :
    chunkedBytes (chunk :: rest) last ++ left =
      chunk.bytes ++ (chunkedBytes rest last ++ left) := by
  rw [chunkedBytes, chunkedBytes, flatMap_cons, append_assoc, append_assoc,
    append_assoc]

theorem chunkedBody_cons (chunk : Chunk) (rest : List Chunk) :
    chunkedBody (chunk :: rest) = chunk.data ++ chunkedBody rest := flatMap_cons

variable {chunks : List Chunk}

theorem readChunks_runs (last : LastChunk)
    (hroom : body.length + (chunkedBody chunks).length ≤ limits.maxBodyBytes) {fuel : Nat}
    (hfuel : chunks.length < fuel) :
    Runs (readChunks limits fuel body) (chunkedBytes chunks last ++ left)
      (.ok (body ++ chunkedBody chunks, left)) := by
  induction chunks generalizing body fuel with
  | nil =>
    obtain ⟨fuel, rfl⟩ : ∃ n, fuel = n + 1 := ⟨fuel - 1, by omega⟩
    rw [chunkedBody, flatMap_nil, append_nil]
    exact Runs.bind (readChunk_last last) (Runs.pure body left)
  | cons chunk rest ih =>
    obtain ⟨fuel, rfl⟩ : ∃ n, fuel = n + 1 := ⟨fuel - 1, by omega⟩
    rw [length_cons] at hfuel
    rw [chunkedBody_cons, length_append] at hroom
    rw [chunkedBytes_cons, chunkedBody_cons, ← append_assoc body]
    have hnext : body.length + chunk.data.length ≤ limits.maxBodyBytes := by omega
    have hrest : (body ++ chunk.data).length + (chunkedBody rest).length ≤ limits.maxBodyBytes := by
      rw [length_append]
      omega
    have hfuel' : rest.length < fuel := Nat.lt_of_succ_lt_succ hfuel
    exact Runs.bind (readChunk_runs chunk hnext) (ih hrest hfuel')

theorem readChunks_large (last : LastChunk) (hroom : body.length ≤ limits.maxBodyBytes)
    (hlarge : limits.maxBodyBytes < body.length + (chunkedBody chunks).length)
    (hmemory : body.length + (chunkedBody chunks).length < 2 ^ 64) {fuel : Nat}
    (hfuel : chunks.length < fuel) :
    Runs (readChunks limits fuel body) (chunkedBytes chunks last ++ left)
      (.error .bodyTooLarge) := by
  induction chunks generalizing body fuel with
  | nil =>
    have hnil : (chunkedBody []).length = 0 := rfl
    omega
  | cons chunk rest ih =>
    obtain ⟨fuel, rfl⟩ : ∃ n, fuel = n + 1 := ⟨fuel - 1, by omega⟩
    rw [length_cons] at hfuel
    rw [chunkedBody_cons, length_append] at hlarge hmemory
    rw [chunkedBytes_cons]
    by_cases hnext : body.length + chunk.data.length ≤ limits.maxBodyBytes
    · have hlength := @length_append _ body chunk.data
      exact Runs.bind (readChunk_runs chunk hnext)
        (ih (by omega) (by omega) (by omega) (by omega))
    · refine Runs.bind_error (readChunk_large chunk ?_)
      rw [saturatingAdd, usizeMax, Nat.min_eq_left (by omega)]
      omega

theorem length_le_chunkedBytes (chunks : List Chunk) (last : LastChunk) :
    chunks.length < (chunkedBytes chunks last ++ left).length + 1 := by
  have hchunks : chunks.length ≤ (chunks.flatMap Chunk.bytes).length :=
    length_le_flatMap fun chunk _ => by simp [Chunk.bytes, lineBytes_ne_nil]
  rw [chunkedBytes, length_append, length_append]
  omega

theorem readChunkedResponseBody_runs (last : LastChunk)
    (hroom : (chunkedBody chunks).length ≤ limits.maxBodyBytes) :
    Runs (readChunkedResponseBody limits) (chunkedBytes chunks last ++ left)
      (.ok (fromUtf8Lossy (chunkedBody chunks), left)) := by
  have hrun := @readChunks_runs limits [] left chunks last (by simpa using hroom) _
    (@length_le_chunkedBytes left chunks last)
  refine Runs.bind (Runs.congr hrun fun bs h => ?_) (Runs.pure _ left)
  rw [h]

theorem readChunkedResponseBody_large (last : LastChunk)
    (hlarge : limits.maxBodyBytes < (chunkedBody chunks).length)
    (hmemory : (chunkedBody chunks).length < 2 ^ 64) :
    Runs (readChunkedResponseBody limits) (chunkedBytes chunks last ++ left)
      (.error .bodyTooLarge) := by
  have hrun := @readChunks_large limits [] left chunks last (Nat.zero_le _) (by simpa using hlarge)
    (by simpa using hmemory) _ (@length_le_chunkedBytes left chunks last)
  refine Runs.bind_error (Runs.congr hrun fun bs h => ?_)
  rw [h]

/-! ## The body while it grows -/

/-- The values that the body takes while chunks are read from a stream, whatever that holds. -/
def accumulated (limits : HttpResponseLimits) :
    Nat → List UInt8 → Buffers UInt8 → List (List UInt8)
  | 0, body, _ => [body]
  | fuel + 1, body, bs =>
    body :: match readChunk limits body bs with
      | (.ok (some next), rest) => accumulated limits fuel next rest
      | _ => []

theorem readChunk_within {bs rest : Buffers UInt8} {next : List UInt8}
    (hmemory : body.length + bs.flatten.length < 2 ^ 64)
    (h : readChunk limits body bs = (.ok (some next), rest)) :
    next.length ≤ limits.maxBodyBytes ∧
      next.length + rest.flatten.length ≤ body.length + bs.flatten.length := by
  obtain ⟨line, bs₁, hline, h⟩ := bind_eq_ok h
  have hshrinks := readLine_shrinks hline
  cases hsize : chunkSize line with
  | none =>
    rw [hsize] at h
    cases h
  | some size =>
    rw [hsize] at h
    dsimp only at h
    split at h
    · obtain ⟨_, _, -, h⟩ := bind_eq_ok h
      cases h
    · split at h
      · cases h
      · rename_i hfits
        obtain ⟨chunk, bs₂, hchunk, h⟩ := bind_eq_ok h
        obtain ⟨ending, bs₃, hending, h⟩ := bind_eq_ok h
        cases h
        obtain ⟨hlength, hsplit⟩ := readExact_eq_ok hchunk
        obtain ⟨-, hsplit'⟩ := readExact_eq_ok hending
        rw [hsplit, hsplit', length_append, length_append] at hshrinks
        rw [length_append, hlength]
        rw [hlength] at hshrinks
        unfold saturatingAdd usizeMax at hfits
        omega

theorem accumulated_within {fuel : Nat} {bs : Buffers UInt8}
    (hbody : body.length ≤ limits.maxBodyBytes)
    (hmemory : body.length + bs.flatten.length < 2 ^ 64) :
    ∀ b ∈ accumulated limits fuel body bs, b.length ≤ limits.maxBodyBytes := by
  induction fuel generalizing body bs with
  | zero =>
    intro b hb
    rw [List.mem_singleton.mp hb]
    exact hbody
  | succ fuel ih =>
    intro b hb
    rw [accumulated, mem_cons] at hb
    rcases hb with rfl | hb
    · exact hbody
    · split at hb
      · rename_i next rest hrun
        obtain ⟨hnext, hrest⟩ := readChunk_within hmemory hrun
        exact ih hnext (hrest.trans_lt hmemory) b hb
      · cases hb

end

/-! ## Framings -/

/-- The ways to send a body. -/
inductive Framing (body : List UInt8) where
  | contentLength
  | chunked (chunks : List Chunk) (last : LastChunk) (h : chunkedBody chunks = body)
  | endOfStream

namespace Framing

variable {body : List UInt8}

def bytes : Framing body → List UInt8
  | .contentLength => body
  | .chunked chunks last _ => chunkedBytes chunks last
  | .endOfStream => body

/-- The headers of the response say that its body is sent in this way. -/
def Declared (st : ResponseHeaders) : Framing body → Prop
  | .contentLength => st.chunked = false ∧ st.contentLength = some body.length
  | .chunked _ _ _ => st.chunked = true
  | .endOfStream => st.chunked = false ∧ st.contentLength = none

/-- What may be in the stream behind the body. -/
def Allows (left : List UInt8) : Framing body → Prop
  | .endOfStream => left = []
  | _ => True

/-- The body is read as this text, by itself and as the body of any response whose head is
read. -/
def Yields (limits : HttpResponseLimits) (text : String) (f : Framing body) : Prop :=
  ∀ st left, f.Declared st → f.Allows left →
    Runs (readResponseBody limits st) (f.bytes ++ left) (.ok (text, left)) ∧
    ∀ head : ResponseHead, head.Fits limits → ClearOfLimit limits.header head.lines →
      head.lines.length ≤ limits.maxHeaderCount → head.declared = st →
      Runs (readResponse limits) (head.bytes ++ (f.bytes ++ left))
        (.ok (⟨head.status, text⟩, left))

theorem yields_of_body {limits : HttpResponseLimits} {text : String} {f : Framing body}
    (h : ∀ st left, f.Declared st → f.Allows left →
      Runs (readResponseBody limits st) (f.bytes ++ left) (.ok (text, left))) :
    f.Yields limits text := by
  intro st left hdeclared hleft
  have hbody := h st left hdeclared hleft
  refine ⟨hbody, fun head hfits hclear hfew hst => ?_⟩
  subst hst
  have hrun := readResponse_runs hfits fun _ => hbody
  rwa [← (afterHead_of_clear hclear _).1 hfew] at hrun

end Framing

/-- What is claimed of the limit and the ways to send a body. -/
structure BodyRead (limits : HttpResponseLimits) (body : List UInt8) : Prop where
  agree : ∃ text, ∀ f : Framing body, f.Yields limits text
  decoded : ∀ chunks last left, (chunkedBody chunks).length ≤ limits.maxBodyBytes →
    Runs (readChunkedResponseBody limits) (chunkedBytes chunks last ++ left)
      (.ok (fromUtf8Lossy (chunkedBody chunks), left))
  bounded : ∀ fuel (bs : Buffers UInt8), bs.flatten.length < 2 ^ 64 →
    ∀ b ∈ accumulated limits fuel [] bs, b.length ≤ limits.maxBodyBytes
  refused : ∀ chunks last left, limits.maxBodyBytes < (chunkedBody chunks).length →
    (chunkedBody chunks).length < 2 ^ 64 →
    Runs (readChunkedResponseBody limits) (chunkedBytes chunks last ++ left)
      (.error .bodyTooLarge)

section

variable {limits : HttpResponseLimits} {body : List UInt8}

theorem readSizedBody_runs (hfits : body.length ≤ limits.maxBodyBytes) (left : List UInt8) :
    Runs (readSizedBody limits body.length) (body ++ left)
      (.ok (fromUtf8Lossy body, left)) := by
  rw [readSizedBody, if_neg (Nat.not_lt_of_le hfits)]
  exact Runs.bind (runs_readExact _ body left) (Runs.pure _ left)

theorem length_asBytes (s : String) : (asBytes s).length = s.utf8ByteSize := rfl

theorem readRemainingBody_outcome (limits : HttpResponseLimits) (input : List UInt8) :
    let n := (limits.maxBodyBytes + 1) % 2 ^ 64
    Runs (readRemainingBody limits) input
      (match fromUtf8 (input.take n) with
        | none => .error .io
        | some text =>
          if limits.maxBodyBytes < text.utf8ByteSize then .error .bodyTooLarge
          else .ok (text, input.drop n)) := by
  intro n
  refine Runs.bind (runs_readUpTo n input) ?_
  cases fromUtf8 (input.take n) with
  | none => exact Runs.fail _ _
  | some text =>
    dsimp only
    split
    · exact Runs.fail _ _
    · exact Runs.pure text _

theorem readRemainingBody_iff (hfits : body.length ≤ limits.maxBodyBytes) {text : String} :
    Runs (readRemainingBody limits) body (.ok (text, [])) ↔
      body = asBytes text ∧ body.length ≤ (limits.maxBodyBytes + 1) % 2 ^ 64 := by
  have hrun := readRemainingBody_outcome limits body
  dsimp only at hrun
  rw [hrun.iff_eq]
  generalize (limits.maxBodyBytes + 1) % 2 ^ 64 = n
  constructor
  · intro h
    cases hread : fromUtf8 (body.take n) with
    | none =>
      rw [hread] at h
      cases h
    | some read =>
      rw [hread] at h
      dsimp only at h
      split at h
      · cases h
      · obtain ⟨rfl, hdrop⟩ := Prod.mk.inj (Except.ok.inj h)
        have hlength : body.length ≤ n := List.drop_eq_nil_iff.mp hdrop.symm
        rw [take_of_length_le hlength] at hread
        exact ⟨fromUtf8_eq_some.mp hread, hlength⟩
  · rintro ⟨hbytes, hlength⟩
    have hsize : ¬ limits.maxBodyBytes < text.utf8ByteSize := by
      rw [← length_asBytes, ← hbytes]
      exact Nat.not_lt_of_le hfits
    rw [take_of_length_le hlength, drop_of_length_le hlength,
      fromUtf8_eq_some.mpr hbytes]
    dsimp only
    rw [if_neg hsize]

/-- The ways to send a body agree exactly if it is a text and the limit is not so large that
the number of bytes to read to the end wraps around. -/
theorem framings_agree_iff (limits : HttpResponseLimits) (body : List UInt8)
    (hbody : body.length ≤ limits.maxBodyBytes) :
    BodyRead limits body ↔
      (fromUtf8 body).isSome = true ∧ body.length ≤ (limits.maxBodyBytes + 1) % 2 ^ 64 := by
  constructor
  · rintro ⟨⟨text, hagree⟩, -, -, -⟩
    have hrun := (hagree .endOfStream {} [] ⟨rfl, rfl⟩ rfl).1
    rw [append_nil] at hrun
    obtain ⟨hbytes, hlength⟩ := (readRemainingBody_iff hbody).mp hrun
    rw [fromUtf8_eq_some.mpr hbytes]
    exact ⟨rfl, hlength⟩
  · rintro ⟨hvalid, hlength⟩
    obtain ⟨text, htext⟩ := Option.isSome_iff_exists.mp hvalid
    have hbytes := fromUtf8_eq_some.mp htext
    refine ⟨⟨text, fun f => Framing.yields_of_body fun st left hdeclared hleft => ?_⟩,
      fun chunks last left hroom => readChunkedResponseBody_runs last hroom,
      fun fuel bs hmemory => accumulated_within (Nat.zero_le _) (by simpa using hmemory),
      fun chunks last left hlarge hmemory => readChunkedResponseBody_large last hlarge hmemory⟩
    unfold readResponseBody
    cases f with
    | contentLength =>
      obtain ⟨hchunked, hdeclared⟩ := hdeclared
      have hrun := readSizedBody_runs hbody left
      rw [hbytes, fromUtf8Lossy_asBytes] at hrun
      rw [hchunked, hdeclared, if_neg (by decide), hbytes]
      exact hrun
    | chunked chunks last h =>
      have hchunked : st.chunked = true := hdeclared
      have hrun := @readChunkedResponseBody_runs limits left chunks last (h ▸ hbody)
      rw [h, hbytes, fromUtf8Lossy_asBytes] at hrun
      rw [if_pos hchunked]
      exact hrun
    | endOfStream =>
      obtain ⟨hchunked, hdeclared⟩ := hdeclared
      obtain rfl : left = [] := hleft
      rw [hchunked, hdeclared, if_neg (by decide), append_nil]
      exact (readRemainingBody_iff hbody).mpr ⟨hbytes, hlength⟩

end

def greeting : List UInt8 := asBytes "hi"

theorem framings_agree_greeting : BodyRead (HttpResponseLimits.withBodyCap 1024) greeting :=
  (framings_agree_iff _ _ (by decide)).mpr ⟨by decide +kernel, by decide⟩

/-- A byte that is no text is replaced when the length is declared and refused at the end of
the stream. -/
theorem framings_disagree :
    let limits := HttpResponseLimits.withBodyCap 1024
    Runs (readSizedBody limits 1) [0xFF] (.ok ("\uFFFD", [])) ∧
      Runs (readRemainingBody limits) [0xFF] (.error .io) ∧ ¬ BodyRead limits [0xFF] := by
  intro limits
  have hnone : fromUtf8 [0xFF] = none := fromUtf8_eq_none (by simp) (by decide +kernel)
  have hlossy : fromUtf8Lossy [0xFF] = "\uFFFD" := by decide +kernel
  have hread : Runs (readRemainingBody limits) [0xFF] (.error .io) := by
    have hrun := readRemainingBody_outcome limits [0xFF]
    have htake : ([0xFF] : List UInt8).take ((limits.maxBodyBytes + 1) % 2 ^ 64) = [0xFF] := rfl
    dsimp only at hrun
    rw [htake, hnone] at hrun
    exact hrun
  refine ⟨?_, hread, ?_⟩
  · have hrun := @readSizedBody_runs limits [0xFF] (by decide) []
    rw [hlossy] at hrun
    exact hrun
  · rintro ⟨⟨text, hagree⟩, -, -, -⟩
    have hrun := (hagree .endOfStream {} [] ⟨rfl, rfl⟩ rfl).1
    rw [append_nil] at hrun
    exact absurd (hread.unique hrun) (by simp)

end GenieClaw.Http
