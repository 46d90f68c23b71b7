import GenieClaw.Http.ProbeChunks

/-!
# A whole response

A response has a head and a body, which ends after the declared length, after the last chunk or
with the stream. The client gives up where too much of the head, of a size line or of a chunk has
arrived at a cut between two reads; nothing else about the cuts matters.

* `probe_reads_iff` (the reads are the response): the client does what it should on the inputs that
  are `ReadWell`, and on no others.
-/

namespace GenieClaw.Http.Probe

open Library Library.Program Library.Refill Library.Text List Bool

/-! ## Responses -/

inductive Framing where
  | length (body : List UInt8)
  | chunked (chunks : List ProbeChunk) (last : EndOfChunks)
  | toEnd (body : List UInt8)

def Framing.bytes : Framing → List UInt8
  | .length body => body
  | .chunked chunks last => chunkedStream chunks last
  | .toEnd body => body

/-- The body that is meant. -/
def Framing.body : Framing → List UInt8
  | .length body => body
  | .chunked chunks _ => decodedData chunks
  | .toEnd body => body

/-- No field of the head has the name. -/
def Head.Lacks (head : Head) (name : String) : Prop := ∀ field ∈ head.fields, ¬ field.Named name

/-- The head declares the framing. -/
def Framing.DeclaredBy (head : Head) : Framing → Prop
  | .length body => head.Lacks "transfer-encoding" ∧
      (∃ field ∈ head.fields, field.Named "content-length") ∧
      ∀ field ∈ head.fields, field.Named "content-length" → field.SaysLength body.length
  | .chunked _ _ => head.Lacks "content-length" ∧
      (∃ field ∈ head.fields, field.Named "transfer-encoding") ∧
      ∀ field ∈ head.fields, field.Named "transfer-encoding" → field.SaysChunked
  | .toEnd _ => head.Lacks "transfer-encoding" ∧ head.Lacks "content-length"

structure Response where
  head : Head
  framing : Framing
  declared : framing.DeclaredBy head
  /-- No vector of bytes is longer. -/
  holdable : framing.body.length < 2 ^ 63

def Response.bytes (response : Response) : List UInt8 :=
  response.head.bytes ++ response.framing.bytes

/-- The response as it arrives, read by read. -/
structure Arrives (response : Response) (reads : Buffers UInt8) : Prop where
  whole : reads.flatten = response.bytes
  nonempty : ∀ r ∈ reads, r ≠ []

/-- The chunked coding is declared with one space in front of it. -/
def Head.Tight (head : Head) : Prop :=
  ∃ field ∈ head.fields, field.Named "transfer-encoding" ∧ field.Tight

/-- More than `cap` bytes of the head are there at a cut inside of it. -/
def HeadRefused (cap : Nat) (reads : Buffers UInt8) (response : Response) : Prop :=
  Overrun cap 0 reads 0 response.head.bytes.length

/-- The status and the body within `cap` are returned, and a larger body is refused. -/
def Meets (cap : Nat) (reads : Buffers UInt8) (response : Response) : Prop :=
  if response.framing.body.length ≤ cap then
    (readHttpResponse cap reads).1 = .ok (response.head.status.code, textOf response.framing.body)
  else ∃ e, e ≠ .panicked ∧ (readHttpResponse cap reads).1 = .error e

/-- The inputs on which that is so: within `cap` nothing is given up at a cut and the chunked
coding is seen, and beyond it the chunks, if the coding is seen, are given up at some cut. -/
def ReadWell (cap : Nat) (reads : Buffers UInt8) (response : Response) : Prop :=
  match response.framing with
  | .chunked chunks last =>
    let given := ChunksRefused cap reads last response.head.bytes.length 0 chunks
    if (decodedData chunks).length ≤ cap then
      response.head.Tight ∧ ¬ HeadRefused cap reads response ∧ ¬ given
    else response.head.Tight → HeadRefused cap reads response ∨ given
  | .length body => body.length ≤ cap → ¬ HeadRefused cap reads response
  | .toEnd body => body.length ≤ cap → ¬ HeadRefused cap reads response

/-! ## The head -/

section

variable {cap : Nat} {reads : Buffers UInt8} {response : Response}

theorem Head.lines_ne_nil (head : Head) : head.lines ≠ [] := cons_ne_nil _ _

theorem Head.bytes_pos (head : Head) : 0 < head.bytes.length := by
  obtain ⟨i, -, hlength⟩ := position_head head.lines_ne_nil head.line_of_mem []
  have hbytes : head.bytes = headOf head.lines := rfl
  rw [hbytes]
  omega

theorem fill_head (h : Arrives response reads) :
    let waiting := fill (fun buf => (position terminator buf).isSome)
      (fun buf => decide (cap < buf.length)) ProbeError.responseTooLarge .invalidHttpResponse []
    (HeadRefused cap reads response → ∃ rest, waiting reads = (.error .responseTooLarge, rest)) ∧
      (¬ HeadRefused cap reads response → ∃ left rest k,
        waiting reads = (.ok (response.head.bytes ++ left), rest) ∧
          Received reads response.head.bytes.length left rest k) := by
  intro waiting
  have hstream : reads.flatten.drop 0 = headOf response.head.lines ++ response.framing.bytes :=
    h.whole
  have hwaits : Waits (fun buf => (position terminator buf).isSome)
      (fun buf => decide (cap < buf.length)) cap 0 reads 0 response.head.bytes.length := {
    done_iff := by
      intro xs hxs
      rw [hstream] at hxs
      exact position_isSome_iff response.head.lines_ne_nil response.head.line_of_mem hxs
    beyond_iff := fun xs => by rw [decide_eq_true_iff, Nat.zero_add]
    within := by
      rw [h.whole, Response.bytes, length_append]
      exact Nat.le_add_right _ _ }
  exact fill_spec h.nonempty (Received.start reads) response.head.bytes_pos hwaits h.whole
    (Nat.sub_zero _).symm

theorem readAfterHead_eq (head : Head) (left : List UInt8) :
    readAfterHead cap (head.bytes ++ left) = do
      let body ← readHttpBody cap (fromUtf8Lossy head.bytes) left
      return (head.status.code, body) := by
  obtain ⟨i, hi, hlength⟩ := position_head head.lines_ne_nil head.line_of_mem left
  have hbytes : head.bytes = headOf head.lines := rfl
  have htake : (head.bytes ++ left).take (i + 4) = head.bytes := by
    rw [hlength, ← hbytes, take_left]
  have hdrop : (head.bytes ++ left).drop (i + 4) = left := by
    rw [hlength, ← hbytes, drop_left]
  have hfound : position terminator (head.bytes ++ left) = some i := hi
  have hstatus : parseHttpStatus head.bytes = some head.status.code :=
    parseHttpStatus_head head.status _
  rw [readAfterHead, hfound]
  dsimp only
  rw [htake, hdrop, hstatus]

end

/-! ## The body -/

variable {chunks : List ProbeChunk} {last : EndOfChunks}

section

variable {cap k : Nat} {head : Head} {reads rest : Buffers UInt8} {left : List UInt8}

theorem not_chunked_of_lacks (h : head.Lacks "transfer-encoding") :
    (Probe.lines (fromUtf8Lossy head.bytes).toList).any isChunkedLine = false := by
  rw [← not_eq_true, any_isChunkedLine fun field hfield hnamed =>
    absurd hnamed (h field hfield)]
  rintro ⟨field, hfield, hnamed, -⟩
  exact h field hfield hnamed

theorem readHttpBody_toEnd (hreads : ∀ r ∈ reads, r ≠ [])
    (h : Received reads head.bytes.length left rest k)
    (hchunked : (Probe.lines (fromUtf8Lossy head.bytes).toList).any isChunkedLine = false)
    (hlength : head.Lacks "content-length") :
    let body := reads.flatten.drop head.bytes.length
    ∃ rest', readHttpBody cap (fromUtf8Lossy head.bytes) left rest =
      (if cap < body.length then .error .responseTooLarge else .ok (textOf body), rest') := by
  intro body
  have hrest : ∀ r ∈ rest, r ≠ [] := by
    rw [h.rest]
    exact fun r hr => hreads r (mem_of_mem_drop hr)
  obtain ⟨rest', hrun⟩ := @drain_eq UInt8 ProbeError cap left rest
    (fun body => decide (cap < body.length)) .responseTooLarge hrest fun x => decide_eq_true_iff
  rw [h.flatten] at hrun
  refine ⟨rest', ?_⟩
  unfold readHttpBody
  rw [hchunked, if_neg Bool.false_ne_true, parseContentLength_none hlength]
  dsimp only
  by_cases hlarge : cap < body.length
  · rw [if_pos hlarge]
    rw [if_pos hlarge] at hrun
    exact bind_apply_error hrun
  · rw [if_neg hlarge]
    rw [if_neg hlarge] at hrun
    exact bind_apply_ok hrun

theorem readFixedBody_spec (hreads : ∀ r ∈ reads, r ≠ []) {start : Nat}
    (h : Received reads start left rest k) {body : List UInt8}
    (hbody : reads.flatten.drop start = body) (hcap : body.length ≤ cap) :
    ∃ rest', readFixedBody cap body.length left rest = (.ok body, rest') := by
  by_cases hempty : body.length = 0
  · refine ⟨rest, ?_⟩
    have hdone : fill (fun body' => decide (body.length ≤ body'.length))
        (fun body' => decide (cap < body'.length)) ProbeError.responseTooLarge
        .invalidHttpResponse left rest = (.ok left, rest) :=
      fillFrom_done rest (decide_eq_true (by omega))
    rw [readFixedBody, bind_apply_ok hdone, hempty, take_zero,
      List.length_eq_zero_iff.mp hempty]
    rfl
  · have hstop : start < start + body.length := by omega
    have hlength : body.length = reads.flatten.length - start := by
      rw [← hbody, length_drop]
    have hwaits : Waits (fun body' => decide (body.length ≤ body'.length))
        (fun body' => decide (cap < body'.length)) cap 0 reads start (start + body.length) := {
      done_iff := fun xs _ => by rw [decide_eq_true_iff, Nat.add_sub_cancel_left]
      beyond_iff := fun xs => by rw [decide_eq_true_iff, Nat.zero_add]
      within := by omega }
    have hnone : ¬ Overrun cap 0 reads start (start + body.length) := by
      rintro ⟨j, -, hreached, hinside, hover⟩
      omega
    have hwhole : reads.flatten.drop start = body ++ [] := by rw [hbody, append_nil]
    obtain ⟨more, rest', k', hrun, -⟩ :=
      (@fill_spec _ ProbeError _ _ _ _ _ _ _ _ _ _ .responseTooLarge .invalidHttpResponse
        hreads h hstop hwaits _ _ hwhole (by omega)).2 hnone
    refine ⟨rest', ?_⟩
    rw [readFixedBody, bind_apply_ok hrun, take_left]
    rfl

theorem readHttpBody_length (hreads : ∀ r ∈ reads, r ≠ [])
    (h : Received reads head.bytes.length left rest k) {body : List UInt8}
    (hbody : reads.flatten.drop head.bytes.length = body) (hsmall : body.length < 2 ^ 63)
    (hdeclared : (Framing.length body).DeclaredBy head) :
    ∃ rest', readHttpBody cap (fromUtf8Lossy head.bytes) left rest =
      (if cap < body.length then .error .responseTooLarge else .ok (textOf body), rest') := by
  obtain ⟨hcoding, hsome, hall⟩ := hdeclared
  unfold readHttpBody
  rw [not_chunked_of_lacks hcoding, if_neg Bool.false_ne_true,
    parseContentLength_head (by omega) hsome hall]
  dsimp only
  by_cases hlarge : cap < body.length
  · rw [if_pos hlarge, if_pos hlarge]
    exact ⟨rest, rfl⟩
  · rw [if_neg hlarge, if_neg hlarge]
    obtain ⟨rest', hrun⟩ := readFixedBody_spec hreads h hbody (Nat.not_lt.mp hlarge)
    exact ⟨rest', bind_apply_ok hrun⟩

theorem length_le_chunkedStream (chunks : List ProbeChunk) (last : EndOfChunks) :
    chunks.length ≤ (chunkedStream chunks last).length := by
  induction chunks with
  | nil => exact Nat.zero_le _
  | cons chunk chunks ih =>
    unfold chunkedStream at ih ⊢
    rw [flatMap_cons, append_assoc, length_append, ProbeChunk.bytes,
      length_append, length_cons, length_cons]
    omega

theorem length_le_decodedData {chunk : ProbeChunk} (h : chunk ∈ chunks) :
    chunk.data.length ≤ (decodedData chunks).length := by
  obtain ⟨front, back, rfl⟩ := append_of_mem h
  rw [decodedData, flatMap_append, flatMap_cons, length_append, length_append]
  omega

theorem readHttpBody_chunked (hreads : ∀ r ∈ reads, r ≠ [])
    (h : Received reads head.bytes.length left rest k)
    (hbody : reads.flatten.drop head.bytes.length = chunkedStream chunks last)
    (hsmall : (decodedData chunks).length < 2 ^ 63)
    (hdeclared : (Framing.chunked chunks last).DeclaredBy head) (htight : head.Tight) :
    (ChunksRefused cap reads last head.bytes.length 0 chunks → ∃ rest',
        readHttpBody cap (fromUtf8Lossy head.bytes) left rest = (.error .responseTooLarge, rest')) ∧
      (¬ ChunksRefused cap reads last head.bytes.length 0 chunks → ∃ rest',
        readHttpBody cap (fromUtf8Lossy head.bytes) left rest =
          (.ok (textOf (decodedData chunks)), rest')) := by
  obtain ⟨-, -, hall⟩ := hdeclared
  have hseen : (Probe.lines (fromUtf8Lossy head.bytes).toList).any isChunkedLine = true :=
    (any_isChunkedLine hall).mpr htight
  have hfuel : chunks.length < left.length + rest.flatten.length + 1 := by
    have hlength := congrArg List.length h.flatten
    have hle := length_le_chunkedStream chunks last
    rw [length_append, hbody] at hlength
    omega
  have hfits : ∀ chunk ∈ chunks, chunk.data.length + 2 < 2 ^ 64 := by
    intro chunk hchunk
    have := length_le_decodedData hchunk
    omega
  have hspec := @readChunks_spec cap reads last hreads chunks _ k _ left [] rest h hbody hfuel hfits
  unfold readHttpBody
  rw [hseen, if_pos rfl]
  refine ⟨fun hrefused => ?_, fun hnone => ?_⟩
  · obtain ⟨rest', hrun⟩ := hspec.1 hrefused
    exact ⟨rest', bind_apply_error hrun⟩
  · obtain ⟨rest', hrun⟩ := hspec.2 hnone
    exact ⟨rest', bind_apply_ok hrun⟩

end

/-! ## Chunks that are not seen -/

theorem count_dropWhile {α : Type} [BEq α] [LawfulBEq α] {p : α → Bool} {c : α} (hc : p c = false)
    (cs : List α) : (cs.dropWhile p).count c = cs.count c := by
  have hnone : (cs.takeWhile p).count c = 0 := by
    rw [count_eq_zero]
    intro hmem
    have := mem_takeWhile_imp hmem
    rw [hc] at this
    cases this
  have hsplit := congrArg (List.count c) (@takeWhile_append_dropWhile _ p cs)
  rw [count_append, hnone, Nat.zero_add] at hsplit
  exact hsplit

theorem count_trimChars {c : Char} (hc : isWhitespace c = false) (cs : List Char) :
    (trimChars cs).count c = cs.count c := by
  rw [trimChars, List.rdropWhile, count_reverse, count_dropWhile hc, count_reverse,
    count_dropWhile hc]

theorem count_textOf (body : List UInt8) : (textOf body).toList.count '0' = body.count 48 := by
  rw [textOf, trim, String.toList_ofList, count_trimChars (by decide), fromUtf8Lossy_eq,
    String.toList_ofList, count_lossy (by decide)]
  rfl

theorem parseDigits_zero {cs : List Char} {n : Nat} (h : parseDigits 16 n cs = some 0) :
    n = 0 ∧ ∀ c ∈ cs, digitOf 16 c = some 0 := by
  induction cs generalizing n with
  | nil => exact ⟨Option.some.inj h, fun c hc => nomatch hc⟩
  | cons d ds ih =>
    obtain ⟨v, hv, hrest⟩ := Option.bind_eq_some_iff.mp h
    obtain ⟨hzero, hall⟩ := ih hrest
    have hv0 : v = 0 := by omega
    refine ⟨by omega, fun c hc => ?_⟩
    rcases List.mem_cons.mp hc with rfl | hc
    · rw [hv, hv0]
    · exact hall c hc

theorem eq_zero_of_digitOf {c : Char} (h : digitOf 16 c = some 0) : c = '0' := by
  have hrange := toNat_of_digitOf (by rw [h]; rfl)
  have hnat : c.toNat = 48 := by
    unfold digitOf at h
    by_cases hdecimal : '0' ≤ c ∧ c ≤ '9'
    · rw [if_pos hdecimal] at h
      have hlow := Char.le_def.mp hdecimal.1
      simp at h
      omega
    · rw [if_neg hdecimal] at h
      by_cases hlower : 'a' ≤ c ∧ c ≤ 'z'
      · rw [if_pos hlower] at h
        have hlow : 97 ≤ c.toNat := Char.le_def.mp hlower.1
        simp at h
        omega
      · rw [if_neg hlower] at h
        by_cases hupper : 'A' ≤ c ∧ c ≤ 'Z'
        · rw [if_pos hupper] at h
          have hlow : 65 ≤ c.toNat := Char.le_def.mp hupper.1
          simp at h
          omega
        · rw [if_neg hupper] at h
          simp at h
  exact Char.toNat_inj.mp hnat

theorem zero_mem_last (last : EndOfChunks) : (48 : UInt8) ∈ last.bytes := by
  obtain ⟨c, cs, hdigits⟩ := exists_cons_of_ne_nil last.sizeLine.nonempty
  have hzero : c = '0' :=
    eq_zero_of_digitOf ((parseDigits_zero last.sizeLine.value).2 c (hdigits ▸ mem_cons_self))
  refine mem_append_left _ (mem_append_left _ ?_)
  refine (mem_asBytes_ascii (c := '0') (by decide)).mpr ?_
  rw [String.toList_ofList, hdigits, hzero]
  exact mem_cons_self

theorem chunkedStream_cons (chunk : ProbeChunk) (chunks : List ProbeChunk) (last : EndOfChunks) :
    chunkedStream (chunk :: chunks) last = chunk.sizeLine.bytes ++
      ([13, 10] ++ (chunk.data ++ crlf)) ++ chunkedStream chunks last := by
  rw [chunkedStream, flatMap_cons, append_assoc]
  rfl

theorem count_chunkedStream (chunks : List ProbeChunk) (last : EndOfChunks) :
    (decodedData chunks).count 48 < (chunkedStream chunks last).count 48 := by
  induction chunks with
  | nil => exact List.count_pos_iff.mpr (zero_mem_last last)
  | cons chunk chunks ih =>
    have hdata : decodedData (chunk :: chunks) = chunk.data ++ decodedData chunks := rfl
    rw [hdata, chunkedStream_cons]
    simp only [count_append]
    omega

theorem textOf_chunkedStream_ne (chunks : List ProbeChunk) (last : EndOfChunks) :
    textOf (chunkedStream chunks last) ≠ textOf (decodedData chunks) := by
  intro h
  have hcount := congrArg (fun s => s.toList.count '0') h
  rw [count_textOf, count_textOf] at hcount
  have := count_chunkedStream chunks last
  omega

theorem length_decodedData_le (chunks : List ProbeChunk) (last : EndOfChunks) :
    (decodedData chunks).length ≤ (chunkedStream chunks last).length := by
  induction chunks with
  | nil => exact Nat.zero_le _
  | cons chunk chunks ih =>
    have hdata : decodedData (chunk :: chunks) = chunk.data ++ decodedData chunks := rfl
    rw [hdata, chunkedStream_cons]
    simp only [length_append]
    omega

/-! ## The whole response -/

section

variable {cap : Nat} {reads : Buffers UInt8} {response : Response}

theorem readHttpResponse_refused (h : Arrives response reads)
    (hrefused : HeadRefused cap reads response) :
    (readHttpResponse cap reads).1 = .error .responseTooLarge := by
  obtain ⟨rest, hrun⟩ := (fill_head h).1 hrefused
  rw [readHttpResponse, bind_apply_error hrun]

theorem readHttpResponse_body (h : Arrives response reads)
    (hnone : ¬ HeadRefused cap reads response) :
    ∃ left rest k, Received reads response.head.bytes.length left rest k ∧
      reads.flatten.drop response.head.bytes.length = response.framing.bytes ∧
      ∀ result rest', readHttpBody cap (fromUtf8Lossy response.head.bytes) left rest =
          (result, rest') →
        (readHttpResponse cap reads).1 =
          result.map fun body => (response.head.status.code, body) := by
  obtain ⟨left, rest, k, hrun, hreceived⟩ := (fill_head h).2 hnone
  refine ⟨left, rest, k, hreceived, ?_, fun result rest' hbody => ?_⟩
  · rw [h.whole, Response.bytes, drop_left]
  · rw [readHttpResponse, bind_apply_ok hrun, readAfterHead_eq]
    cases result with
    | error e => rw [bind_apply_error hbody]; rfl
    | ok body => rw [bind_apply_ok hbody]; rfl

theorem refusal : ∃ e, e ≠ ProbeError.panicked ∧
    (.error .responseTooLarge : Except ProbeError (Nat × String)) = .error e :=
  ⟨.responseTooLarge, by decide, rfl⟩

theorem meets_of_refused (h : Arrives response reads) (hrefused : HeadRefused cap reads response) :
    Meets cap reads response ↔ cap < response.framing.body.length := by
  unfold Meets
  rw [readHttpResponse_refused h hrefused]
  by_cases hsmall : response.framing.body.length ≤ cap
  · rw [if_pos hsmall]
    exact iff_of_false nofun (Nat.not_lt.mpr hsmall)
  · rw [if_neg hsmall]
    exact iff_of_true refusal (Nat.not_le.mp hsmall)

theorem meets_of_body (h : Arrives response reads)
    (hbody : ∀ left rest k, Received reads response.head.bytes.length left rest k →
      ∃ rest', readHttpBody cap (fromUtf8Lossy response.head.bytes) left rest =
        (if cap < response.framing.body.length then .error .responseTooLarge
          else .ok (textOf response.framing.body), rest')) :
    Meets cap reads response ↔
      (response.framing.body.length ≤ cap → ¬ HeadRefused cap reads response) := by
  by_cases hrefused : HeadRefused cap reads response
  · rw [meets_of_refused h hrefused]
    exact ⟨fun hlarge hsmall => absurd hlarge (Nat.not_lt.mpr hsmall),
      fun hnone => Nat.not_le.mp fun hsmall => hnone hsmall hrefused⟩
  · refine iff_of_true ?_ fun _ => hrefused
    obtain ⟨left, rest, k, hreceived, -, hrun⟩ := readHttpResponse_body h hrefused
    obtain ⟨rest', hread⟩ := hbody left rest k hreceived
    unfold Meets
    rw [hrun _ _ hread]
    by_cases hsmall : response.framing.body.length ≤ cap
    · rw [if_pos hsmall, if_neg (Nat.not_lt.mpr hsmall)]
      rfl
    · rw [if_neg hsmall, if_pos (Nat.not_le.mp hsmall)]
      exact refusal

theorem meets_of_tight (h : Arrives response reads)
    (hframing : response.framing = .chunked chunks last) (htight : response.head.Tight)
    (hnone : ¬ HeadRefused cap reads response) :
    Meets cap reads response ↔
      (ChunksRefused cap reads last response.head.bytes.length 0 chunks ↔
        cap < (decodedData chunks).length) := by
  obtain ⟨left, rest, k, hreceived, hstream, hrun⟩ := readHttpResponse_body h hnone
  have hdeclared := response.declared
  have hsmall := response.holdable
  unfold Meets
  rw [hframing] at hstream hdeclared hsmall ⊢
  have hspec := @readHttpBody_chunked chunks last cap k _ _ _ _ h.nonempty hreceived hstream hsmall
    hdeclared htight
  have hbody : (Framing.chunked chunks last).body = decodedData chunks := rfl
  rw [hbody]
  by_cases hrefused : ChunksRefused cap reads last response.head.bytes.length 0 chunks
  · obtain ⟨rest', hread⟩ := hspec.1 hrefused
    rw [hrun _ _ hread]
    by_cases hle : (decodedData chunks).length ≤ cap
    · rw [if_pos hle]
      exact iff_of_false nofun fun hiff => absurd (hiff.mp hrefused) (Nat.not_lt.mpr hle)
    · rw [if_neg hle]
      exact iff_of_true refusal (iff_of_true hrefused (Nat.not_le.mp hle))
  · obtain ⟨rest', hread⟩ := hspec.2 hrefused
    rw [hrun _ _ hread]
    by_cases hle : (decodedData chunks).length ≤ cap
    · rw [if_pos hle]
      exact iff_of_true rfl (iff_of_false hrefused (Nat.not_lt.mpr hle))
    · rw [if_neg hle]
      refine iff_of_false ?_ fun hiff => hrefused (hiff.mpr (Nat.not_le.mp hle))
      rintro ⟨e, -, he⟩
      cases he

theorem meets_of_unseen (h : Arrives response reads)
    (hframing : response.framing = .chunked chunks last) (hloose : ¬ response.head.Tight)
    (hnone : ¬ HeadRefused cap reads response) :
    Meets cap reads response ↔ cap < (decodedData chunks).length := by
  obtain ⟨left, rest, k, hreceived, hstream, hrun⟩ := readHttpResponse_body h hnone
  have hdeclared := response.declared
  unfold Meets
  rw [hframing] at hstream hdeclared ⊢
  obtain ⟨hlacks, -, hall⟩ := hdeclared
  have hunseen : (Probe.lines (fromUtf8Lossy response.head.bytes).toList).any isChunkedLine =
      false := by
    rw [← not_eq_true, any_isChunkedLine hall]
    exact hloose
  obtain ⟨rest', hread⟩ := @readHttpBody_toEnd cap k _ _ _ _ h.nonempty hreceived hunseen hlacks
  rw [hstream] at hread
  rw [hrun _ _ hread]
  have hle := length_decodedData_le chunks last
  have hbody : (Framing.chunked chunks last).body = decodedData chunks := rfl
  have hbytes : (Framing.chunked chunks last).bytes = chunkedStream chunks last := rfl
  rw [hbody, hbytes]
  by_cases hsmall : (decodedData chunks).length ≤ cap
  · rw [if_pos hsmall]
    refine iff_of_false ?_ (Nat.not_lt.mpr hsmall)
    by_cases hlarge : cap < (chunkedStream chunks last).length
    · rw [if_pos hlarge]
      exact nofun
    · rw [if_neg hlarge]
      intro heq
      have htext := congrArg Prod.snd (Except.ok.inj heq)
      exact textOf_chunkedStream_ne chunks last htext
  · rw [if_neg hsmall, if_pos (by omega)]
    exact iff_of_true refusal (Nat.not_le.mp hsmall)

/-- The client returns the status and the body within the limit, and refuses a larger body, exactly
on the inputs that are `ReadWell`. -/
theorem probe_reads_iff (h : Arrives response reads) :
    Meets cap reads response ↔ ReadWell cap reads response := by
  have hsmall := response.holdable
  have hdeclared := response.declared
  unfold ReadWell
  cases hframing : response.framing with
  | length body =>
    dsimp only
    rw [hframing] at hsmall hdeclared
    have hbody : response.framing.body = body := by rw [hframing]; rfl
    rw [← hbody]
    refine meets_of_body h fun left rest k hreceived => ?_
    rw [hbody]
    refine readHttpBody_length h.nonempty hreceived ?_ hsmall hdeclared
    rw [h.whole, Response.bytes, drop_left, hframing]
    rfl
  | toEnd body =>
    dsimp only
    rw [hframing] at hdeclared
    have hbody : response.framing.body = body := by rw [hframing]; rfl
    have hstream : reads.flatten.drop response.head.bytes.length = body := by
      rw [h.whole, Response.bytes, drop_left, hframing]
      rfl
    rw [← hbody]
    refine meets_of_body h fun left rest k hreceived => ?_
    obtain ⟨rest', hread⟩ := @readHttpBody_toEnd cap k _ _ _ _ h.nonempty hreceived
      (not_chunked_of_lacks hdeclared.1) hdeclared.2
    rw [hbody]
    rw [hstream] at hread
    exact ⟨rest', hread⟩
  | chunked chunks last =>
    dsimp only
    have hbody : response.framing.body = decodedData chunks := by rw [hframing]; rfl
    by_cases hrefused : HeadRefused cap reads response
    · rw [meets_of_refused h hrefused, hbody]
      by_cases hle : (decodedData chunks).length ≤ cap
      · rw [if_pos hle]
        exact iff_of_false (Nat.not_lt.mpr hle) fun hwell => hwell.2.1 hrefused
      · rw [if_neg hle]
        exact iff_of_true (Nat.not_le.mp hle) fun _ => .inl hrefused
    · by_cases htight : response.head.Tight
      · rw [meets_of_tight h hframing htight hrefused]
        by_cases hle : (decodedData chunks).length ≤ cap
        · rw [if_pos hle]
          exact ⟨fun hiff => ⟨htight, hrefused, fun hgiven =>
              absurd (hiff.mp hgiven) (Nat.not_lt.mpr hle)⟩,
            fun hwell => iff_of_false hwell.2.2 (Nat.not_lt.mpr hle)⟩
        · rw [if_neg hle]
          exact ⟨fun hiff _ => .inr (hiff.mpr (Nat.not_le.mp hle)),
            fun hwell => iff_of_true ((hwell htight).resolve_left hrefused) (Nat.not_le.mp hle)⟩
      · rw [meets_of_unseen h hframing htight hrefused]
        by_cases hle : (decodedData chunks).length ≤ cap
        · rw [if_pos hle]
          exact iff_of_false (Nat.not_lt.mpr hle) fun hwell => htight hwell.1
        · rw [if_neg hle]
          exact iff_of_true (Nat.not_le.mp hle) fun hseen => absurd hseen htight

theorem not_overrun_of_le {start stop : Nat} (hcap : reads.flatten.length ≤ cap) :
    ¬ Overrun cap 0 reads start stop := by
  rintro ⟨k, hk, -, -, hover⟩
  have hle := cut_mono reads (Nat.lt_succ_iff.mp hk)
  rw [cut_length] at hle
  omega

end

/-! ## Two responses -/

def statusOk : StatusLine :=
  ⟨2, 0, 0, [32, 79, 75], forall_mem_of_all (by decide), .inr rfl⟩

/-- `Transfer-Encoding:chunked`, without a space. -/
def codingField : FieldLine where
  name := "Transfer-Encoding"
  value := asBytes (String.ofList "chunked".toList)
  nonempty := by decide
  token := forall_mem_of_all (by decide)
  plain := forall_mem_of_all (by decide)

/-- `Transfer-Encoding: chunked`. -/
def tightField : FieldLine where
  name := "Transfer-Encoding"
  value := asBytes (String.ofList (' ' :: "chunked".toList))
  nonempty := by decide
  token := forall_mem_of_all (by decide)
  plain := forall_mem_of_all (by decide)

/-- `OK!` in two chunks. -/
def okResponse : Response where
  head := ⟨statusOk, [tightField]⟩
  framing := .chunked
    [⟨[79, 75], ⟨['2'], [], by decide, rfl, by simp, [], [], by simp [Blank], rfl, .inl rfl⟩,
        by decide⟩,
      ⟨[33], ⟨['1'], [], by decide, rfl, by simp, [], [], by simp [Blank], rfl, .inl rfl⟩,
        by decide⟩]
    ⟨⟨['0'], [], by decide, rfl, by simp, [], [], by simp [Blank], rfl, .inl rfl⟩, []⟩
  declared := by
    refine ⟨?_, ⟨tightField, mem_cons_self, by decide⟩, ?_⟩
    · intro field hfield
      rw [List.mem_singleton.mp hfield]
      decide
    · intro field hfield _
      rw [List.mem_singleton.mp hfield]
      exact ⟨"chunked".toList, by decide, [' '], [], by simp [Blank], by simp [Blank], rfl⟩
  holdable := by decide

/-- The response byte by byte, under a cap that its head just meets and that all of it does
not. -/
theorem okResponse_read :
    46 < okResponse.bytes.length ∧
      Meets 46 (okResponse.bytes.map fun b => [b]) okResponse := by
  have harrives : Arrives okResponse (okResponse.bytes.map fun b => [b]) := {
    whole := by rw [← flatMap_def, flatMap_singleton']
    nonempty := by
      intro r hr
      obtain ⟨b, -, rfl⟩ := List.mem_map.mp hr
      exact cons_ne_nil _ _ }
  have htight : okResponse.head.Tight :=
    ⟨tightField, mem_cons_self, by decide, "chunked".toList, by decide, rfl⟩
  have hhead : ¬ HeadRefused 46 (okResponse.bytes.map fun b => [b]) okResponse := by
    unfold HeadRefused
    decide +kernel
  have hwell : ReadWell 46 (okResponse.bytes.map fun b => [b]) okResponse :=
    ⟨htight, hhead, by decide +kernel⟩
  exact ⟨by decide +kernel, (probe_reads_iff harrives).mpr hwell⟩

def chunkedResponse : Response where
  head := ⟨statusOk, [codingField]⟩
  framing := .chunked []
    ⟨⟨['0'], [], by decide, rfl, by simp, [], [], by simp [Blank], rfl, .inl rfl⟩, []⟩
  declared := by
    refine ⟨?_, ⟨codingField, mem_cons_self, by decide⟩, ?_⟩
    · intro field hfield
      rw [List.mem_singleton.mp hfield]
      decide
    · intro field hfield _
      rw [List.mem_singleton.mp hfield]
      exact ⟨"chunked".toList, by decide, [], [], by simp [Blank], by simp [Blank], rfl⟩
  holdable := by decide

/-- Without the space in front of the coding its empty body reads as `0`. -/
theorem chunkedResponse_misread :
    ¬ ∀ cap reads response, Arrives response reads → Meets cap reads response := by
  intro hall
  have harrives : Arrives chunkedResponse [chunkedResponse.bytes] := {
    whole := append_nil _
    nonempty := by
      intro r hr
      rw [List.mem_singleton.mp hr]
      exact append_ne_nil_of_left_ne_nil (ne_nil_of_length_pos (Head.bytes_pos _)) _ }
  have hloose : ¬ chunkedResponse.head.Tight := by
    rintro ⟨field, hfield, -, coding, -, hvalue⟩
    rw [List.mem_singleton.mp hfield] at hvalue
    have htext := congrArg lossy hvalue
    have hspace : "chunked".toList = ' ' :: coding := by
      rw [← @String.toList_ofList "chunked".toList, ← lossy_asBytes]
      refine htext.trans ?_
      rw [lossy_asBytes, String.toList_ofList]
    exact absurd (List.cons.inj hspace).1 (by decide)
  have hnone : ¬ HeadRefused chunkedResponse.bytes.length [chunkedResponse.bytes]
      chunkedResponse := not_overrun_of_le (by rw [harrives.whole])
  have hmeets := (meets_of_unseen harrives rfl hloose hnone).mp (hall _ _ _ harrives)
  exact absurd hmeets (Nat.not_lt_zero _)

end GenieClaw.Http.Probe
