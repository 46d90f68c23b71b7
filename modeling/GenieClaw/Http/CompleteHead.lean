import GenieClaw.Http.HeadEnd

/-!
# Requests with a complete header section

A stream may end anywhere. The reader of a request tells that it ended inside of the head by a line
that is empty, so what it takes for the blank line need not have its line feed: `CutOff`.

* `blank_cases`: what the loop takes for a blank line.
* `head_complete_iff` (no assumption): a request has a complete head unless its stream is `CutOff`.
-/

namespace GenieClaw.Http

open Library Library.Buffered Library.Program Library.Text List

/-- A line without text: nothing before its line feed but carriage returns. -/
def EmptyLine (line : List UInt8) : Prop :=
  ∃ n, line = List.replicate n carriageReturn ++ [newline]

/-- A request line and header lines, each ended by a line feed, and then an empty line. -/
def CompleteHead (input : List UInt8) : Prop :=
  ∃ (requestLine : List UInt8) (headers : List (List UInt8)) (last rest : List UInt8),
    input = requestLine ++ (headers.flatten ++ (last ++ rest)) ∧
    Terminated requestLine ∧ (∀ line ∈ headers, Terminated line) ∧ EmptyLine last

/-- The stream is a head that the limits admit, up to carriage returns where its blank line should
be, and declares no body. -/
structure CutOffAt (limits : HttpLimits) (input requestLine : List UInt8)
    (lines : List (List UInt8)) (last : List UInt8) (st : RequestHeaders) (total : Nat) :
    Prop where
  split : input = requestLine ++ (lines.flatten ++ last)
  request : Terminated requestLine
  requestFits : requestLine.length ≤ limits.maxRequestLineBytes
  requestRead : methodAndPath requestLine ≠ none
  terminated : ∀ line ∈ lines, Terminated line
  solid : ∀ line ∈ lines, ¬ EmptyLine line
  taken : takeLines limits.header (fun st => st.headers.length) RequestHeaders.accept {} 0 lines =
    some (st, total)
  room : Room limits.header (fun st => st.headers.length) st total last
  returns : ∀ b ∈ last, b = carriageReturn
  nonempty : last ≠ []
  bodiless : st.contentLength = 0

def CutOff (limits : HttpLimits) (input : List UInt8) : Prop :=
  ∃ requestLine lines last st total, CutOffAt limits input requestLine lines last st total

/-- A request comes only of a complete header section. -/
def ReturnsComplete (limits : HttpLimits) (input : List UInt8) : Prop :=
  ∀ pieces : Buffers UInt8, pieces.flatten = input → ∀ request rest,
    readRequest limits pieces = (.ok request, rest) → CompleteHead input

variable {limits : HttpLimits} {input requestLine line last left : List UInt8}
  {lines : List (List UInt8)} {st : RequestHeaders} {total : Nat}

/-! ## Empty lines -/

theorem newline_notMem_of_returns (h : ∀ b ∈ last, b = carriageReturn) : newline ∉ last := by
  intro hmem
  exact absurd (h newline hmem) (by decide)

theorem emptyLine_iff : EmptyLine line ↔ Terminated line ∧ Blank line := by
  rw [blank_iff]
  constructor
  · rintro ⟨n, rfl⟩
    refine ⟨⟨List.replicate n carriageReturn, ?_, rfl⟩, ?_⟩
    · exact newline_notMem_of_returns fun b hb => eq_of_mem_replicate hb
    · intro b hb
      rcases List.mem_append.mp hb with hb | hb
      · exact .inl (eq_of_mem_replicate hb)
      · exact .inr (List.mem_singleton.mp hb)
  · rintro ⟨⟨text, htext, rfl⟩, h⟩
    refine ⟨text.length, congrArg (· ++ [newline]) (eq_replicate_of_mem ?_)⟩
    intro b hb
    rcases h b (mem_append_left _ hb) with hreturn | hnewline
    · exact hreturn
    · exact absurd (hnewline ▸ hb) htext

/-- A blank line that the loop reads is an empty line, or the stream ends behind its carriage
returns. -/
theorem blank_cases (hblank : Blank last) (hfirst : firstLine (last ++ left) = last) :
    EmptyLine last ∨ (left = [] ∧ ∀ b ∈ last, b = carriageReturn) := by
  rcases firstLine_cases (last ++ left) with ⟨hterminated, -⟩ | ⟨hnone, hall⟩
  · rw [hfirst] at hterminated
    exact .inl (emptyLine_iff.mpr ⟨hterminated, hblank⟩)
  · rw [hfirst] at hall
    have hleft : left = [] := List.self_eq_append_right.mp hall
    refine .inr ⟨hleft, fun b hb => ?_⟩
    rcases blank_iff.mp hblank b hb with hreturn | hnewline
    · exact hreturn
    · exact absurd (hnewline ▸ mem_append_left left hb) hnone

/-! ## A stream that is cut off -/

theorem no_emptyLine (hterminated : ∀ line ∈ lines, Terminated line)
    (hsolid : ∀ line ∈ lines, ¬ EmptyLine line) (hlast : newline ∉ last)
    {headers : List (List UInt8)} (hheaders : ∀ line ∈ headers, Terminated line)
    {empty rest : List UInt8} (hempty : EmptyLine empty) :
    lines.flatten ++ last ≠ headers.flatten ++ (empty ++ rest) := by
  intro heq
  induction headers generalizing lines with
  | nil =>
    have hline := (emptyLine_iff.mp hempty).1
    rw [flatten_nil, nil_append] at heq
    cases lines with
    | nil =>
      rw [flatten_nil, nil_append] at heq
      exact hlast (heq ▸ mem_append_left rest hline.newline_mem)
    | cons line lines =>
      obtain ⟨hfirst, -⟩ := List.forall_mem_cons.mp hterminated
      have hsame := congrArg firstLine heq
      rw [flatten_cons, append_assoc, hfirst.firstLine_append,
        hline.firstLine_append] at hsame
      exact hsolid line mem_cons_self (hsame ▸ hempty)
  | cons header headers ih =>
    obtain ⟨hheader, hrest⟩ := List.forall_mem_cons.mp hheaders
    rw [flatten_cons, append_assoc] at heq
    cases lines with
    | nil =>
      rw [flatten_nil, nil_append] at heq
      exact hlast (heq ▸ mem_append_left _ hheader.newline_mem)
    | cons line lines =>
      obtain ⟨hfirst, hlines⟩ := List.forall_mem_cons.mp hterminated
      rw [flatten_cons, append_assoc] at heq
      have hsame := congrArg firstLine heq
      rw [hfirst.firstLine_append, hheader.firstLine_append] at hsame
      subst hsame
      exact ih hlines (fun l hl => hsolid l (mem_cons_of_mem _ hl)) hrest
        (append_cancel_left heq)

namespace CutOffAt

theorem not_complete (h : CutOffAt limits input requestLine lines last st total) :
    ¬ CompleteHead input := by
  rintro ⟨requestLine', headers, empty, rest, hinput, hrequest, hheaders, hempty⟩
  rw [h.split] at hinput
  have hsame := congrArg firstLine hinput
  rw [h.request.firstLine_append, hrequest.firstLine_append] at hsame
  subst hsame
  exact no_emptyLine h.terminated h.solid (newline_notMem_of_returns h.returns) hheaders hempty
    (append_cancel_left hinput)

theorem headRead (h : CutOffAt limits input requestLine lines last st total) :
    HeadRead limits.header (fun st => st.headers.length) RequestHeaders.accept {} 0
      (lines.flatten ++ last) lines last st [] where
  split := by rw [append_nil]
  terminated := h.terminated
  solid line hline hblank :=
    h.solid line hline (emptyLine_iff.mpr ⟨h.terminated line hline, hblank⟩)
  blank := blank_iff.mpr fun b hb => .inl (h.returns b hb)
  first := by
    have hnone := newline_notMem_of_returns h.returns
    rw [append_nil, firstLine, idxOf_eq_length hnone,
      take_of_length_le (Nat.le_succ _)]
  nonempty := h.nonempty
  taken := ⟨total, h.taken, h.room⟩

theorem returns_request (h : CutOffAt limits input requestLine lines last st total) :
    ∃ request, Runs (readRequest limits) input (.ok (request, [])) := by
  obtain ⟨⟨method, path⟩, hread⟩ := Option.ne_none_iff_exists'.mp h.requestRead
  have hline := @runs_readLineBounded input limits.maxRequestLineBytes .requestLineTooLong
  rw [h.split, h.request.firstLine_append, drop_left] at hline
  refine ⟨⟨method, path, st.headers, st.contentLength, none⟩, ?_⟩
  rw [readRequest, h.split]
  refine Runs.bind (hline h.requestFits) ?_
  rw [if_neg h.request.ne_nil, hread]
  refine Runs.bind h.headRead.runs ?_
  rw [readRequestBody, if_neg (by rw [h.bodiless]; exact Nat.lt_irrefl 0)]
  exact Runs.pure _ []

end CutOffAt

/-! ## Requests -/

theorem contentLength_eq_zero {contentLength : Nat} {pieces rest : Buffers UInt8}
    {body : Option String} (h : readRequestBody limits contentLength pieces = (.ok body, rest))
    (hempty : pieces.flatten = []) : contentLength = 0 := by
  rw [readRequestBody] at h
  by_cases hpos : 0 < contentLength
  · rw [if_pos hpos] at h
    by_cases hlarge : limits.maxBodyBytes < contentLength
    · rw [if_pos hlarge] at h
      cases h
    · rw [if_neg hlarge] at h
      obtain ⟨buf, rest', hread, -⟩ := bind_eq_ok h
      obtain ⟨hlength, hsplit⟩ := readExact_eq_ok hread
      rw [hempty] at hsplit
      rw [(List.append_eq_nil_iff.mp hsplit.symm).1] at hlength
      exact hlength.symm
  · omega

theorem readRequest_cases {pieces rest : Buffers UInt8} {request : HttpRequest}
    (h : readRequest limits pieces = (.ok request, rest)) :
    CompleteHead pieces.flatten ∨ CutOff limits pieces.flatten := by
  obtain ⟨requestLine, pieces₁, hline, h⟩ := bind_eq_ok h
  obtain ⟨hfirst, hfits, hleft⟩ := readLineBounded_ok hline
  by_cases hnil : requestLine = []
  · rw [if_pos hnil] at h
    cases h
  · rw [if_neg hnil] at h
    cases hread : methodAndPath requestLine with
    | none =>
      rw [hread] at h
      cases h
    | some parts =>
      rw [hread] at h
      obtain ⟨st, pieces₂, hhead, h⟩ := bind_eq_ok h
      obtain ⟨body, pieces₃, hbody, -⟩ := bind_eq_ok h
      obtain ⟨lines, last, hhead⟩ := readHeaderLines_ok hhead
      -- behind a request line without a line feed there is no head
      have hrequest : Terminated requestLine ∧ pieces.flatten = requestLine ++ pieces₁.flatten := by
        rw [hleft, hfirst]
        rcases firstLine_cases pieces.flatten with hterminated | ⟨-, hall⟩
        · exact hterminated
        · have hsplit := hhead.split
          rw [hleft, hfirst, hall, drop_length] at hsplit
          have hnone := (List.append_eq_nil_iff.mp hsplit.symm).2
          exact absurd (List.append_eq_nil_iff.mp hnone).1 hhead.nonempty
      obtain ⟨hterminated, hinput⟩ := hrequest
      rcases blank_cases hhead.blank hhead.first with hempty | ⟨hnone, hreturns⟩
      · left
        exact ⟨requestLine, lines, last, pieces₂.flatten, by rw [hinput, hhead.split], hterminated,
          hhead.terminated, hempty⟩
      · right
        obtain ⟨total, htaken, hroom⟩ := hhead.taken
        refine ⟨requestLine, lines, last, st, total, ?_⟩
        exact {
          split := by rw [hinput, hhead.split, hnone, append_nil]
          request := hterminated
          requestFits := hfits
          requestRead := by rw [hread]; exact Option.some_ne_none parts
          terminated := hhead.terminated
          solid := fun line hline hempty => hhead.solid line hline (emptyLine_iff.mp hempty).2
          taken := htaken
          room := hroom
          returns := hreturns
          nonempty := hhead.nonempty
          bodiless := contentLength_eq_zero hbody hnone }

/-- A stream gives a request without a complete header section exactly if it is cut off behind the
carriage returns of its blank line. -/
theorem head_complete_iff (limits : HttpLimits) (input : List UInt8) :
    ReturnsComplete limits input ↔ ¬ CutOff limits input := by
  constructor
  · rintro h ⟨requestLine, lines, last, st, total, hcut⟩
    obtain ⟨request, hruns⟩ := hcut.returns_request
    obtain ⟨rest, hrun, -⟩ := hruns [input] (append_nil input)
    exact hcut.not_complete (h [input] (append_nil input) request rest hrun)
  · rintro hcut pieces rfl request rest hrun
    exact (readRequest_cases hrun).resolve_right hcut

/-! ## A request whose blank line lost its line feed -/

def servedLimits : HttpLimits where
  maxRequestLineBytes := 8 * 1024
  maxHeaderLineBytes := 8 * 1024
  maxHeaderCount := 100
  maxHeaderBytes := 64 * 1024
  maxBodyBytes := 64 * 1024

def cutRequest : List UInt8 := asBytes "GET / HTTP/1.1\r\n\r"

theorem cutRequest_cutOff : CutOffAt servedLimits cutRequest (asBytes "GET / HTTP/1.1\r\n") []
    [carriageReturn] {} 0 where
  split := by decide
  request := ⟨asBytes "GET / HTTP/1.1\r", by decide, by decide⟩
  requestFits := by decide
  requestRead := by decide
  terminated := by simp
  solid := by simp
  taken := rfl
  room := by decide
  returns := by simp
  nonempty := by simp
  bodiless := rfl

/-- The reader returns a request for a stream that ends behind a bare carriage return. -/
theorem cut_request_returned : ¬ ∀ limits input, ReturnsComplete limits input := by
  intro h
  obtain ⟨request, hruns⟩ := cutRequest_cutOff.returns_request
  obtain ⟨rest, hrun, -⟩ := hruns [cutRequest] (append_nil cutRequest)
  exact cutRequest_cutOff.not_complete
    (h servedLimits cutRequest [cutRequest] (append_nil cutRequest) request rest hrun)

end GenieClaw.Http
