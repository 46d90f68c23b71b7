import GenieClaw.Http.Requests

/-!
# The limit on the number of headers

Both readers compare the number of headers with the limit before they read the blank line, so a
head with exactly as many headers as the limit is refused like one with more.

* `header_count_boundary` (lines and body within their limits): when the number of headers decides
  as it should.
-/

namespace GenieClaw.Http

open Library Library.Buffered Library.Program Library.Text

/-! ## Heads of responses -/

structure ResponseHead where
  statusLine : String
  oneLine : OneLine statusLine
  lines : List HeaderLine

namespace ResponseHead

def bytes (head : ResponseHead) : List UInt8 := lineBytes head.statusLine ++ headBytes head.lines

def status (head : ResponseHead) : Nat := statusOf (lineBytes head.statusLine)

/-- What the header lines declare of the body. -/
def declared (head : ResponseHead) : ResponseHeaders :=
  head.lines.foldl (fun st line => st.note line.text) {}

structure Fits (limits : HttpResponseLimits) (head : ResponseHead) : Prop where
  statusLine : (lineBytes head.statusLine).length ≤ limits.maxStatusLineBytes
  lines : ∀ line ∈ head.lines, line.bytes.length ≤ limits.maxHeaderLineBytes
  blank : blankLine.length ≤ limits.maxHeaderLineBytes

/-- The response, once its body is read. -/
def withBody (head : ResponseHead) (o : Except HttpReadError (String × List UInt8)) :
    Except HttpReadError (HttpResponse × List UInt8) :=
  o.map fun result => (⟨head.status, result.1⟩, result.2)

end ResponseHead

theorem note_count (st : ResponseHeaders) (line : String) :
    (st.note line).headerCount = st.headerCount + 1 := by
  unfold ResponseHeaders.note ResponseHeaders.noteEncoding ResponseHeaders.noteLength
  dsimp only
  split
  · split
    · split <;> rfl
    · split <;> rfl
  · split <;> rfl

theorem foldlM_note (lines : List HeaderLine) (st : ResponseHeaders) :
    lines.foldlM (fun st line => (.ok (ResponseHeaders.note st line.text) :
        Except HttpReadError ResponseHeaders)) st =
      .ok (lines.foldl (fun st line => st.note line.text) st) := by
  induction lines generalizing st with
  | nil => rfl
  | cons line rest ih => exact ih _

variable {head : ResponseHead}

theorem readResponse_runs {limits : HttpResponseLimits} (h : head.Fits limits)
    {input : List UInt8} {o : Except HttpReadError (String × List UInt8)}
    (hbody : head.lines.length < limits.maxHeaderCount →
      Runs (readResponseBody limits head.declared) input o) :
    Runs (readResponse limits) (head.bytes ++ input)
      (afterHead limits.header head.lines (head.withBody o)) := by
  rw [ResponseHead.bytes, List.append_assoc]
  refine Runs.bind (readLineBounded_runs head.oneLine h.statusLine _) ?_
  rw [if_neg (lineBytes_ne_nil _)]
  refine @readHeaderLines_then _ limits.header ResponseHeaders.headerCount
    (fun st line => .ok (st.note line)) {} _ head.lines head.declared rfl (foldlM_note _ _) ?_
    h.lines h.blank _ _ _ fun hfew => (hbody hfew).map _
  intro line _ st next hnext
  cases hnext
  exact note_count st line.text

theorem readResponseBody_outcome (limits : HttpResponseLimits) (st : ResponseHeaders) :
    ∃ input o, Runs (readResponseBody limits st) input o ∧ o ≠ .error .tooManyHeaders ∧
      o ≠ .error .headersTooLarge := by
  unfold readResponseBody
  cases st.chunked with
  | true =>
    refine ⟨[], .error .malformed, ?_, by simp, by simp⟩
    rw [if_pos rfl]
    have hchunk : Runs (readChunk limits []) [] (.error .malformed) := by
      refine Runs.bind runs_readLine_nil ?_
      have hsize : chunkSize [] = none := by decide
      rw [hsize]
      exact Runs.fail _ _
    refine Runs.bind_error ?_
    intro bs h
    have hfuel : bs.flatten.length + 1 = 1 := by rw [h]; rfl
    show ∃ rest, readChunks limits (bs.flatten.length + 1) [] bs = _
    rw [hfuel]
    exact Runs.bind_error hchunk bs h
  | false =>
    rw [if_neg (by decide)]
    cases st.contentLength with
    | none =>
      refine ⟨[], .ok ("", []), ?_, by simp, by simp⟩
      refine Runs.bind (runs_readUpTo _ _) ?_
      have hempty : fromUtf8 [] = some "" := fromUtf8_eq_some.mpr (by decide)
      rw [List.take_nil, List.drop_nil, hempty]
      have hshort : ¬ limits.maxBodyBytes < "".utf8ByteSize := Nat.not_lt_zero _
      dsimp only
      rw [if_neg hshort]
      exact Runs.pure _ _
    | some n =>
      dsimp only
      unfold readSizedBody
      by_cases hlarge : limits.maxBodyBytes < n
      · rw [if_pos hlarge]
        exact ⟨[], _, Runs.fail _ _, by simp, by simp⟩
      · have hread := runs_readExact HttpReadError.io (List.replicate n (0 : UInt8)) []
        rw [List.length_replicate] at hread
        rw [if_neg hlarge]
        exact ⟨_, _, Runs.bind hread (Runs.pure _ _), by simp, by simp⟩

/-! ## The boundary -/

/-- Up to the limit on the number of headers a request is read back, and the stream stands behind
its body. Beyond the limit it is refused. -/
def ReadBack (limits : HttpLimits) (r : SentRequest) : Prop :=
  ∀ left, (r.headers.length ≤ limits.maxHeaderCount →
      Runs (readRequest limits) (r.bytes ++ left) (.ok (r.received, left))) ∧
    (limits.maxHeaderCount < r.headers.length →
      Runs (readRequest limits) (r.bytes ++ left) (.error .tooManyHeaders))

/-- Up to the limit a response is read on into its body, whatever that comes to. Beyond it the
response is refused. -/
def HeadBoundary (limits : HttpResponseLimits) (head : ResponseHead) : Prop :=
  ∀ input o, Runs (readResponseBody limits head.declared) input o →
    (head.lines.length ≤ limits.maxHeaderCount →
      Runs (readResponse limits) (head.bytes ++ input) (head.withBody o)) ∧
    (limits.maxHeaderCount < head.lines.length →
      Runs (readResponse limits) (head.bytes ++ input) (.error .tooManyHeaders))

theorem readBack_iff {limits : HttpLimits} {r : SentRequest} (h : r.Fits limits) :
    ReadBack limits r ↔ ClearOfLimit limits.header r.lines := by
  have hlength : r.lines.length = r.headers.length := List.length_map _
  constructor
  · intro hback
    obtain ⟨hfew, hmany⟩ := hback []
    rw [(readRequest_runs h []).iff_eq, ← hlength] at hfew hmany
    exact clear_of_afterHead (by simp) (by simp) hfew hmany
  · intro hclear left
    rw [(readRequest_runs h left).iff_eq, (readRequest_runs h left).iff_eq, ← hlength]
    exact afterHead_of_clear hclear _

theorem withBody_ne_error {o : Except HttpReadError (String × List UInt8)} {e : HttpReadError}
    (h : o ≠ .error e) : head.withBody o ≠ .error e := by
  intro heq
  cases o with
  | error e' =>
    cases heq
    exact h rfl
  | ok result => cases heq

theorem headBoundary_iff {limits : HttpResponseLimits} (h : head.Fits limits) :
    HeadBoundary limits head ↔ ClearOfLimit limits.header head.lines := by
  constructor
  · intro hboundary
    obtain ⟨input, o, hbody, hcount, hsize⟩ := readResponseBody_outcome limits head.declared
    obtain ⟨hfew, hmany⟩ := hboundary input o hbody
    rw [(readResponse_runs h fun _ => hbody).iff_eq] at hfew hmany
    exact clear_of_afterHead (withBody_ne_error hcount) (withBody_ne_error hsize) hfew hmany
  · intro hclear input o hbody
    rw [(readResponse_runs h fun _ => hbody).iff_eq, (readResponse_runs h fun _ => hbody).iff_eq]
    exact afterHead_of_clear hclear _

/-- Requests and responses whose lines and bodies are within their limits: the number of headers
decides as it should exactly if it is not at the limit and the head is not too large. -/
theorem header_count_boundary {limits : HttpLimits} {r : SentRequest} (hrequest : r.Fits limits)
    {responseLimits : HttpResponseLimits} {head : ResponseHead}
    (hresponse : head.Fits responseLimits) :
    (ReadBack limits r ↔ ClearOfLimit limits.header r.lines) ∧
      (HeadBoundary responseLimits head ↔ ClearOfLimit responseLimits.header head.lines) :=
  ⟨readBack_iff hrequest, headBoundary_iff hresponse⟩

/-- A request for a page, with the host as its one header. -/
def pageRequest : SentRequest where
  method := "GET"
  path := "/"
  headers := [⟨"Host", "genie", by decide, by decide, by decide, by decide, by decide⟩]
  body := none
  method_word := by decide
  path_word := by decide
  body_nonempty := by decide
  encoding := by decide
  declared := by decide

/-- A response without headers. -/
def plainHead : ResponseHead where
  statusLine := "HTTP/1.1 200 OK"
  oneLine := by decide
  lines := []

def pageLimits (maxHeaderCount : Nat) : HttpLimits where
  maxRequestLineBytes := 8 * 1024
  maxHeaderLineBytes := 8 * 1024
  maxHeaderCount
  maxHeaderBytes := 64 * 1024
  maxBodyBytes := 64 * 1024

theorem pageRequest_fits (maxHeaderCount : Nat) : pageRequest.Fits (pageLimits maxHeaderCount) where
  requestLine := by
    show _ ≤ 8 * 1024
    decide
  headers := by
    intro h hh
    rw [List.mem_singleton.mp hh]
    show (lineBytes (SentHeader.text _)).length ≤ 8 * 1024
    decide
  blank := by
    show _ ≤ 8 * 1024
    decide
  body := Nat.zero_le _

theorem plainHead_fits (maxBodyBytes : Nat) :
    plainHead.Fits (HttpResponseLimits.withBodyCap maxBodyBytes) where
  statusLine := by
    show _ ≤ 8 * 1024
    decide
  lines _ hline := by cases hline
  blank := by
    show _ ≤ 8 * 1024
    decide

theorem header_count_boundary_page :
    ReadBack (pageLimits 2) pageRequest ∧
      HeadBoundary (HttpResponseLimits.withBodyCap 1024) plainHead := by
  obtain ⟨hrequest, hhead⟩ := header_count_boundary (pageRequest_fits 2) (plainHead_fits 1024)
  exact ⟨hrequest.mpr ⟨by decide, by decide⟩, hhead.mpr ⟨by decide, by decide⟩⟩

/-- With one header allowed, the request with one header is refused. -/
theorem header_at_limit_refused :
    pageRequest.Fits (pageLimits 1) ∧
      pageRequest.headers.length ≤ (pageLimits 1).maxHeaderCount ∧
      Runs (readRequest (pageLimits 1)) (pageRequest.bytes ++ []) (.error .tooManyHeaders) ∧
      ¬ ReadBack (pageLimits 1) pageRequest := by
  have hsmall : ¬ (pageLimits 1).header.maxBytes <
      totalBytes 0 (countedLines (pageLimits 1).header 0 pageRequest.lines) := by
    decide
  have hrun := readRequest_runs (pageRequest_fits 1) []
  rw [afterHead, if_neg hsmall, if_neg (by decide)] at hrun
  refine ⟨pageRequest_fits 1, by decide, hrun, fun hback => ?_⟩
  exact absurd (hrun.unique ((hback []).1 (by decide))) (by simp)

end GenieClaw.Http
