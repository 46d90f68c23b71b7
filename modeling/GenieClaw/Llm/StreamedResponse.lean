import GenieClaw.Library.Words
import GenieClaw.Llm.EventStream

/-!
# A streamed response

A successful response carries the event stream behind its head. The client returns the text of
the events that reach it, unless it fails at a line that is too long, that is not UTF-8, or that
never comes. An event does not reach it without a blank behind the colon or in pieces.

* `heardOn_framing`: of every framing, what is taken of its events is heard.
* `readHead_head`: a head that can be read is skipped.
* `chatStream_iff`: when the whole text is returned.
-/

namespace GenieClaw.Llm

open Library Library.Text List
open Http.Probe (Head StatusLine FieldLine ProbeChunk Framing)

/-! ## The response -/

/-- A successful response with an event stream. A body without a length and without chunks goes
up to the end of the connection. -/
structure SentStream where
  response : Http.Probe.Response
  ending : Ending
  events : List Event
  status : response.head.status.code = 200
  body : response.framing.body = eventBytes events
  /-- A slash is no character of a field name. -/
  names : ∀ field ∈ response.head.fields, '/' ∉ field.name.toList
  closes : ∀ body, response.framing = .toEnd body → ending = .closed

/-- What the client takes of the events. -/
def SentStream.taken (parse : String → Option ChatResponse) (s : SentStream) :
    List (Option String × Bool) :=
  match s.response.framing with
  | .chunked chunks last =>
    takenFrom parse s.events (chunks.map ProbeChunk.data) ++ trailerReads parse last
  | .length _ | .toEnd _ => s.events.map (Event.received parse)

section

variable {parse : String → Option ChatResponse} {ending : Ending}

theorem heardOn_framing (s : SentStream) :
    heardOn parse s.ending s.response.framing.bytes = heard (s.taken parse) := by
  have hbody := s.body
  unfold SentStream.taken
  cases hframing : s.response.framing with
  | length body =>
    have hbytes : body = eventBytes s.events := by rwa [hframing] at hbody
    dsimp only [Framing.bytes]
    rw [hbytes]
    exact heardOn_events s.events
  | chunked chunks last =>
    rw [hframing] at hbody
    have hflat : (chunks.map ProbeChunk.data).flatten = eventBytes s.events := by
      rw [← hbody, ← flatMap_def]
      rfl
    exact ((alike_chunkedStream chunks last).trans
      ((alike_takenFrom hflat).append (.refl (trailerReads parse last)))).heard_eq
  | toEnd body =>
    have hbytes : body = eventBytes s.events := by rwa [hframing] at hbody
    dsimp only [Framing.bytes]
    rw [hbytes]
    exact heardOn_events s.events

/-! ## The head -/

theorem toList_lineText {line : List UInt8} {text : String}
    (h : lineText (line ++ [13]) = .ok text) : text.toList = lossy line := by
  have hascii : (13 : UInt8).toNat < 128 := by decide
  rw [lineText_eq_ok h, lossy_append_ascii line hascii]
  exact Http.Probe.withoutReturn_append (lossy line)

theorem field_text {field : FieldLine} (hname : '/' ∉ field.name.toList) {text : String}
    (h : lineText (field.bytes ++ [13]) = .ok text) :
    startsWith "HTTP/" text = false ∧ text ≠ "" := by
  have htext := toList_lineText h
  rw [Http.Probe.lossy_field] at htext
  constructor
  · refine eq_false_of_ne_true fun hstarts => ?_
    have hversion : "HTTP/".toList <+: field.name.toList ++ ':' :: lossy field.value := by
      rw [← htext]
      exact List.isPrefixOf_iff_prefix.mp hstarts
    have hfield : field.name.toList ++ [':'] <+:
        field.name.toList ++ ':' :: lossy field.value := ⟨lossy field.value, by simp⟩
    rcases prefix_or_prefix_of_prefix hversion hfield with hin | hin
    · rcases List.prefix_concat_iff.mp hin with heq | hin
      · have hmem : '/' ∈ field.name.toList ++ [':'] := heq ▸ (by decide)
        rcases List.mem_append.mp hmem with hmem | hmem
        · exact hname hmem
        · exact absurd hmem (by decide)
      · exact hname (hin.subset (by decide))
    · have hmem : ':' ∈ "HTTP/".toList := hin.subset (by simp)
      exact absurd hmem (by decide)
  · rintro rfl
    simp at htext

theorem readHead_field {read : Except StreamError String} {status : Nat}
    {rest : List (Except StreamError String)}
    (htext : ∀ text, read = .ok text → startsWith "HTTP/" text = false ∧ text ≠ "") :
    (Fine read → readHead parse status (read :: rest) = readHead parse status rest) ∧
      (¬ Fine read → ∃ e, (readHead parse status (read :: rest)).result = .error e) := by
  cases read with
  | error e =>
    refine ⟨fun hfine => ?_, fun _ => ⟨e, rfl⟩⟩
    obtain ⟨_, h, _⟩ := hfine
    cases h
  | ok text =>
    obtain ⟨hversion, hempty⟩ := htext text rfl
    rw [readHead]
    constructor
    · rintro ⟨_, hline, hlong⟩
      cases hline
      rw [if_neg (Nat.not_lt.mpr hlong), hversion, if_neg Bool.false_ne_true, if_neg hempty]
    · intro hfine
      have hlong : maxSseLineBytes < text.utf8ByteSize :=
        Nat.not_le.mp fun hle => hfine ⟨text, rfl, hle⟩
      rw [if_pos hlong]
      exact ⟨_, rfl⟩

theorem readHead_fields {reads rest : List (Except StreamError String)} {status : Nat}
    (htext : ∀ read ∈ reads, ∀ text, read = .ok text →
      startsWith "HTTP/" text = false ∧ text ≠ "") :
    ((∀ read ∈ reads, Fine read) →
        readHead parse status (reads ++ rest) = readHead parse status rest) ∧
      (¬ (∀ read ∈ reads, Fine read) →
        ∃ e, (readHead parse status (reads ++ rest)).result = .error e) := by
  induction reads with
  | nil => exact ⟨fun _ => rfl, fun h => absurd (fun _ hr => absurd hr not_mem_nil) h⟩
  | cons read reads ih =>
    obtain ⟨hfirst, hlater⟩ := List.forall_mem_cons.mp htext
    obtain ⟨hfine, hnot⟩ := @readHead_field parse read status (reads ++ rest) hfirst
    obtain ⟨ihfine, ihnot⟩ := ih hlater
    rw [forall_mem_cons, cons_append]
    constructor
    · intro h
      rw [hfine h.1, ihfine h.2]
    · intro h
      by_cases hread : Fine read
      · rw [hfine hread]
        exact ihnot fun hall => h ⟨hread, hall⟩
      · exact hnot hread

theorem status_text {status : StatusLine} {text : String}
    (h : lineText (status.bytes ++ [13]) = .ok text) :
    startsWith "HTTP/" text = true ∧ parseStatusLine text = status.code := by
  have hversion : wordsBy isWhitespace "HTTP/1.1".toList = ["HTTP/1.1".toList] := by decide
  have hdigits : ∀ d ∈ status.digits, isWhitespace d = false := by
    intro d hd
    simp only [StatusLine.digits, mem_cons, not_mem_nil, or_false] at hd
    rcases hd with rfl | rfl | rfl
    · exact (Http.Probe.digitText_facts _).2.1
    · exact (Http.Probe.digitText_facts _).2.1
    · exact (Http.Probe.digitText_facts _).2.1
  have htext : text.toList =
      "HTTP/1.1".toList ++ ' ' :: (status.digits ++ lossy status.reason) := by
    rw [toList_lineText h, StatusLine.bytes, lossy_asBytes_append,
      Http.Probe.toList_statusText, append_assoc]
    rfl
  have hreason : ∀ c ∈ (lossy status.reason).head?, isWhitespace c = true := by
    rcases status.spaced with hnil | hspace
    · rw [hnil]
      exact fun c hc => absurd hc (by simp [lossy_nil])
    · obtain ⟨reason, hreason⟩ := List.head?_eq_some_iff.mp hspace
      have hascii : (32 : UInt8).toNat < 128 := by decide
      intro c hc
      rw [hreason, ← nil_append (32 :: reason), lossy_append_ascii [] hascii] at hc
      rw [← Option.some.inj hc]
      decide
  have hwords : wordsBy isWhitespace text.toList =
      "HTTP/1.1".toList :: status.digits :: wordsBy isWhitespace (lossy status.reason) := by
    rw [htext, wordsBy_append_break (by decide), hversion, wordsBy_append_of_head hreason,
      wordsBy_of_forall (by simp [StatusLine.digits]) hdigits]
    rfl
  constructor
  · refine List.isPrefixOf_iff_prefix.mpr ?_
    rw [htext]
    exact ⟨"1.1".toList ++ ' ' :: (status.digits ++ lossy status.reason), rfl⟩
  · have hsplit : splitWhitespace text =
        (wordsBy isWhitespace text.toList).map String.ofList := rfl
    unfold parseStatusLine
    rw [hsplit, hwords]
    exact congrArg (Option.getD · 0) (Http.Probe.parseUnsigned_digits status)

/-- The lines of the head can be read. -/
def HeadFine (head : Head) : Prop := ∀ line ∈ head.lines, Fine (lineText (line ++ [13]))

theorem readHead_head {head : Head} (hstatus : head.status.code = 200)
    (hnames : ∀ field ∈ head.fields, '/' ∉ field.name.toList) (body : List UInt8) :
    (HeadFine head → chatStream parse ending (head.bytes ++ body) =
        readEvents parse "" (nextLines ending body)) ∧
      (¬ HeadFine head →
        ∃ e, (chatStream parse ending (head.bytes ++ body)).result = .error e) := by
  have hreads : chatStream parse ending (head.bytes ++ body) =
      readHead parse 0 (lineText (head.status.bytes ++ [13]) ::
        (head.fields.map (fun field => lineText (field.bytes ++ [13])) ++
          .ok "" :: nextLines ending body)) := by
    unfold chatStream Head.bytes
    rw [nextLines_headOf head.line_of_mem, Head.lines, map_cons, map_map]
    rfl
  have hbody : readHead parse 200 (.ok "" :: nextLines ending body) =
      readEvents parse "" (nextLines ending body) := rfl
  obtain ⟨hfine, hnot⟩ := @readHead_fields parse
    (head.fields.map fun field => lineText (field.bytes ++ [13]))
    (.ok "" :: nextLines ending body) 200 (by
      intro read hread text htext
      obtain ⟨field, hfield, rfl⟩ := List.mem_map.mp hread
      exact field_text (hnames field hfield) htext)
  have hhead : HeadFine head ↔ Fine (lineText (head.status.bytes ++ [13])) ∧
      ∀ read ∈ head.fields.map (fun field => lineText (field.bytes ++ [13])), Fine read := by
    unfold HeadFine Head.lines
    rw [forall_mem_cons, forall_mem_map, forall_mem_map]
  rw [hreads, hhead]
  cases hline : lineText (head.status.bytes ++ [13]) with
  | error e =>
    refine ⟨fun h => ?_, fun _ => ⟨e, rfl⟩⟩
    obtain ⟨_, hread, -⟩ := h.1
    cases hread
  | ok text =>
    obtain ⟨hversion, hcode⟩ := status_text hline
    rw [hstatus] at hcode
    rw [readHead]
    by_cases hlong : maxSseLineBytes < text.utf8ByteSize
    · rw [if_pos hlong]
      refine ⟨fun h => ?_, fun _ => ⟨_, rfl⟩⟩
      obtain ⟨_, hread, hshort⟩ := h.1
      cases hread
      exact absurd hlong (Nat.not_lt.mpr hshort)
    · have hfirst : Fine (.ok text) := ⟨text, rfl, Nat.not_lt.mp hlong⟩
      rw [if_neg hlong, hversion, if_pos rfl, hcode, ← hbody]
      exact ⟨fun h => hfine h.2, fun h => hnot fun hall => h ⟨hfirst, hall⟩⟩

/-! ## The text -/

/-- The text of all events up to the last one. -/
def SentStream.text (parse : String → Option ChatResponse) (s : SentStream) : String :=
  String.join (heard (s.events.map (Event.sent parse)))

/-- The whole text is returned, and it is what was passed on. -/
def StreamsAll (parse : String → Option ChatResponse) (s : SentStream) : Prop :=
  let outcome := chatStream parse s.ending s.response.bytes
  outcome.result = .ok (s.text parse) ∧ String.join outcome.tokens = s.text parse

/-- Every line up to the last event can be read, and what is taken of the events is all of the
text. -/
structure Readable (parse : String → Option ChatResponse) (s : SentStream) : Prop where
  head : HeadFine s.response.head
  body : FineThrough parse (nextLines s.ending s.response.framing.bytes)
  text : String.join (heard (s.taken parse)) = s.text parse

/-- The size of all deltas. -/
def deltaSize (parse : String → Option ChatResponse) (events : List Event) : Nat :=
  textSize (events.filterMap fun e => (e.sent parse).1)

theorem textSize_append (xs ys : List String) :
    textSize (xs ++ ys) = textSize xs + textSize ys := by
  simp [textSize]

theorem utf8ByteSize_join (texts : List String) :
    (String.join texts).utf8ByteSize = textSize texts := by
  induction texts with
  | nil => rfl
  | cons text texts ih =>
    rw [String.join_cons, String.utf8ByteSize_append, ih]
    rfl

theorem textSize_heard_le (events : List Event) :
    textSize (heard (events.map (Event.sent parse))) ≤ deltaSize parse events := by
  induction events with
  | nil => exact Nat.le_refl _
  | cons e events ih =>
    have hcons : deltaSize parse (e :: events) =
        textSize (e.sent parse).1.toList + deltaSize parse events := by
      unfold deltaSize textSize
      cases hsent : (e.sent parse).1 with
      | none => simp [hsent]
      | some content => simp [hsent]
    have hlater : textSize (if (e.sent parse).2 = true then []
        else heard (events.map (Event.sent parse))) ≤ deltaSize parse events := by
      split
      · exact Nat.zero_le _
      · exact ih
    rw [map_cons, heard, hcons, textSize_append]
    omega

/-- With all deltas within the cap: the whole text is returned if and only if every line can be
read and nothing of the text is missing in what is taken. -/
theorem chatStream_iff (s : SentStream)
    (hcap : deltaSize parse s.events ≤ defaultMaxResponseBytes) :
    StreamsAll parse s ↔ Readable parse s := by
  obtain ⟨hfine, hnot⟩ := @readHead_head parse s.ending _ s.status s.names s.response.framing.bytes
  have hheard : heard ((nextLines s.ending s.response.framing.bytes).map (effect parse)) =
      heard (s.taken parse) := heardOn_framing s
  unfold StreamsAll
  dsimp only
  rw [Http.Probe.Response.bytes]
  constructor
  · rintro ⟨hok, -⟩
    have hhead : HeadFine s.response.head := by
      by_contra hbad
      obtain ⟨e, he⟩ := hnot hbad
      rw [he] at hok
      cases hok
    rw [hfine hhead] at hok
    have hbody : FineThrough parse (nextLines s.ending s.response.framing.bytes) := by
      by_contra hbad
      obtain ⟨e, he⟩ := @readEvents_not_fine parse "" _ hbad
      rw [he] at hok
      cases hok
    have htext := readEvents_ok hok
    rw [hheard, String.empty_append] at htext
    exact ⟨hhead, hbody, htext.symm⟩
  · rintro ⟨hhead, hbody, htext⟩
    have hsize : textSize (heard (s.taken parse)) ≤ defaultMaxResponseBytes := by
      rw [← utf8ByteSize_join, htext, SentStream.text, utf8ByteSize_join]
      exact (textSize_heard_le s.events).trans hcap
    rw [← hheard] at hsize
    rw [hfine hhead, readEvents_fine hbody (by rwa [String.utf8ByteSize_empty, Nat.zero_add]),
      hheard, htext, String.empty_append]
    exact ⟨rfl, rfl⟩

end

/-! ## Two streams -/

/-! A size line without an extension. -/

theorem noExtension_plain : ∀ b ∈ ([] : List UInt8), b ≠ 13 ∧ b ≠ 10 :=
  fun _ h => absurd h not_mem_nil

theorem noExtension_separated : ∃ blank more, Http.Probe.Blank blank ∧
    ([] : List UInt8) = asBytes (String.ofList blank) ++ more ∧
      (more = [] ∨ more.head? = some 59) :=
  ⟨[], [], fun _ h => absurd h not_mem_nil, rfl, .inl rfl⟩

theorem zeroDigit_nonempty : ['0'] ≠ [] := by decide

theorem zeroDigit_value : parseDigits 16 0 ['0'] = some 0 := by decide

def noTrailers : Http.Probe.EndOfChunks :=
  ⟨⟨['0'], [], zeroDigit_nonempty, zeroDigit_value, noExtension_plain, noExtension_separated⟩, []⟩

theorem codingField_name : ∀ field ∈ [Http.Probe.codingField], '/' ∉ field.name.toList := by
  intro field hfield
  rw [List.mem_singleton.mp hfield]
  decide

def hiPayload : String :=
  "\x7b\"choices\":[\x7b\"delta\":\x7b\"content\":\"Hi\"\x7d\x7d]\x7d"

def allPayload : String :=
  "\x7b\"choices\":[\x7b\"delta\":\x7b\"content\":\" all\"\x7d\x7d]\x7d"

/-- What the JSON reader makes of the payloads. White space behind one is no part of it. -/
def hiReader (text : String) : Option ChatResponse :=
  if text = hiPayload ∨ text = hiPayload ++ "\r" then some ⟨[⟨some ⟨some "Hi"⟩, none⟩]⟩
  else if text = allPayload then some ⟨[⟨some ⟨some " all"⟩, none⟩]⟩
  else none

def hiEvent : Event where
  spaced := true
  payload := hiPayload
  crlf := true
  oneLine := forall_mem_of_all (by decide)
  unspaced := by decide

def allEvent : Event where
  spaced := true
  payload := allPayload
  crlf := false
  oneLine := forall_mem_of_all (by decide)
  unspaced := by decide

def doneEvent : Event where
  spaced := true
  payload := "[DONE]"
  crlf := false
  oneLine := forall_mem_of_all (by decide)
  unspaced := by decide

def hiChunk : ProbeChunk where
  data := asBytes ("data: " ++ hiPayload ++ "\r")
  sizeLine := ⟨['2', 'f'], [], by decide, by decide, noExtension_plain, noExtension_separated⟩
  nonempty := by decide

def allChunk : ProbeChunk where
  data := asBytes ("\n\r\ndata: " ++ allPayload ++ "\n")
  sizeLine := ⟨['3', '4'], [], by decide, by decide, noExtension_plain, noExtension_separated⟩
  nonempty := by decide

def doneChunk : ProbeChunk where
  data := asBytes "\ndata: [DONE]\n\n"
  sizeLine := ⟨['f'], [], by decide, by decide, noExtension_plain, noExtension_separated⟩
  nonempty := by decide

/-- Three events in three chunks. The boundaries are between a carriage return and its line feed,
and in front of a blank line. -/
def wholeStream : SentStream where
  response := {
    head := ⟨Http.Probe.statusOk, [Http.Probe.codingField]⟩
    framing := .chunked [hiChunk, allChunk, doneChunk] noTrailers
    declared := Http.Probe.chunkedResponse.declared
    holdable := by decide }
  ending := .idle
  events := [hiEvent, allEvent, doneEvent]
  status := rfl
  body := by decide
  names := codingField_name
  closes _ h := by cases h

theorem chatStream_iff_wholeStream : StreamsAll hiReader wholeStream ∧
    wholeStream.text hiReader = "Hi all" := by
  refine ⟨(chatStream_iff wholeStream (by decide)).mpr ⟨?_, ?_, ?_⟩, by decide⟩
  · intro line hline
    revert hline line
    exact forall_mem_of_all (p := fun line => Fine (lineText (line ++ [13]))) (by decide +kernel)
  · decide +kernel
  · decide +kernel

def firstChunk : ProbeChunk where
  data := asBytes "data: "
  sizeLine := ⟨['6'], [], by decide, rfl, noExtension_plain, noExtension_separated⟩
  nonempty := by decide

def secondChunk : ProbeChunk where
  data := asBytes (allPayload ++ "\n\n")
  sizeLine := ⟨['2', 'c'], [], by decide, by decide, noExtension_plain, noExtension_separated⟩
  nonempty := by decide

/-- A chunk boundary behind `data: `. -/
def cutStream : SentStream where
  response := {
    head := ⟨Http.Probe.statusOk, [Http.Probe.codingField]⟩
    framing := .chunked [firstChunk, secondChunk] noTrailers
    declared := Http.Probe.chunkedResponse.declared
    holdable := by decide }
  ending := .closed
  events := [allEvent]
  status := rfl
  body := by decide
  names := codingField_name
  closes _ h := by cases h

theorem cutStream_silent :
    ¬ ∀ parse s, deltaSize parse s.events ≤ defaultMaxResponseBytes → StreamsAll parse s := by
  intro hall
  obtain ⟨hok, -⟩ := hall hiReader cutStream (by decide)
  have hnothing : (chatStream hiReader cutStream.ending cutStream.response.bytes).result =
      .ok "" := by decide +kernel
  have hsaid : cutStream.text hiReader = " all" := by decide
  rw [hnothing, hsaid] at hok
  exact absurd (Except.ok.inj hok) (by decide)

end GenieClaw.Llm
