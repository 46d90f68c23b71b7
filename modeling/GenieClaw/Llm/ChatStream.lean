import GenieClaw.Http.Probe
import GenieClaw.Http.Reader

/-!
# A streamed chat response

`chat_stream_with_prepared_body` of `llm/openai_compat.rs` reads the response line by line, the
head and the body alike: up to the blank line the status line and the header fields, and behind
it the data lines of the event stream. `serde_json` is a parameter.
-/

namespace GenieClaw.Llm

open Library Library.Text
open Http (newline usizeMax)
open Http.Probe (withoutReturn)

def defaultMaxResponseBytes : Nat := 8 * 1024 * 1024

def maxSseLineBytes : Nat := 64 * 1024

structure Delta where
  content : Option String

structure Choice where
  delta : Option Delta
  finishReason : Option String

structure ChatResponse where
  choices : List Choice

/-- The ways to fail, without the texts of the errors. -/
inductive StreamError where
  | invalidData
  | timedOut
  | lineTooLong
  | errorLineTooLong
  | errorBodyTooLong
  | backend (status : Nat) (errorBody : String)
  | responseTooLong
  | closedEarly
deriving DecidableEq

/-- What is passed to `on_token`, and what is returned. -/
structure StreamOutcome where
  tokens : List String
  result : Except StreamError String

/-! ## Lines -/

/-- The server closes the connection, or it keeps it open and sends nothing more. -/
inductive Ending where
  | closed
  | idle

/-- `next_line` for a line that has its line feed. -/
def lineText (raw : List UInt8) : Except StreamError String :=
  match fromUtf8 raw with
  | some text => .ok (String.ofList (withoutReturn text.toList))
  | none => .error .invalidData

/-- `next_line` behind the last line feed. Without one the carriage return stays. -/
def lastLine (raw : List UInt8) : Ending → List (Except StreamError String)
  | .idle => [.error .timedOut]
  | .closed =>
    if raw = [] then []
    else match fromUtf8 raw with
      | some text => [.ok text]
      | none => [.error .invalidData]

/-- What `next_line` gives, call by call. -/
def nextLines (ending : Ending) (bytes : List UInt8) : List (Except StreamError String) :=
  let pieces := bytes.splitOn newline
  pieces.dropLast.map lineText ++ lastLine (pieces.getLast?.getD []) ending

/-! ## The loops over the lines -/

def parseStatusLine (line : String) : Nat :=
  ((splitWhitespace line)[1]?.bind (parseUnsigned 10 16)).getD 0

section

variable (parse : String → Option ChatResponse)

/-- The text that is in an event, and whether it is the last one. -/
def readPayload (data : String) : Option String × Bool :=
  if data = "[DONE]" then (none, true)
  else match (parse data).bind fun chunk => chunk.choices.head? with
    | some choice => (choice.delta.bind Delta.content, choice.finishReason.isSome)
    | none => (none, false)

def readLine (line : String) : Option String × Bool :=
  match stripPrefix "data: " line with
  | some data => readPayload parse data
  | none => (none, false)

/-- The lines behind the head, with `full` as the response so far. -/
def readEvents : String → List (Except StreamError String) → StreamOutcome
  | full, [] => ⟨[], .ok full⟩
  | _, .error e :: _ => ⟨[], .error e⟩
  | full, .ok line :: rest =>
    if maxSseLineBytes < line.utf8ByteSize then ⟨[], .error .lineTooLong⟩
    else match readLine parse line with
      | (none, last) => if last then ⟨[], .ok full⟩ else readEvents full rest
      | (some content, last) =>
        if defaultMaxResponseBytes <
            saturatingAdd usizeMax full.utf8ByteSize content.utf8ByteSize then
          ⟨[content], .error .responseTooLong⟩
        else if last then ⟨[content], .ok (full ++ content)⟩
        else
          let later := readEvents (full ++ content) rest
          ⟨content :: later.tokens, later.result⟩

def readErrorBody (status : Nat) : String → List (Except StreamError String) → StreamError
  | errorBody, [] => .backend status errorBody
  | _, .error e :: _ => e
  | errorBody, .ok line :: rest =>
    if maxSseLineBytes < line.utf8ByteSize then .errorLineTooLong
    else if defaultMaxResponseBytes <
        saturatingAdd usizeMax errorBody.utf8ByteSize line.utf8ByteSize then
      .errorBodyTooLong
    else readErrorBody status (errorBody ++ line) rest

/-- The lines of the head, with the status so far. -/
def readHead : Nat → List (Except StreamError String) → StreamOutcome
  | _, [] => ⟨[], .error .closedEarly⟩
  | _, .error e :: _ => ⟨[], .error e⟩
  | status, .ok line :: rest =>
    if maxSseLineBytes < line.utf8ByteSize then ⟨[], .error .lineTooLong⟩
    else if startsWith "HTTP/" line then readHead (parseStatusLine line) rest
    else if line = "" then
      if status ≠ 200 then ⟨[], .error (readErrorBody status "" rest)⟩
      else readEvents parse "" rest
    else readHead status rest

def chatStream (ending : Ending) (bytes : List UInt8) : StreamOutcome :=
  readHead parse 0 (nextLines ending bytes)

/-! ## What is read -/

/-- A line that is read at all. -/
def Fine (read : Except StreamError String) : Prop :=
  ∃ line, read = .ok line ∧ line.utf8ByteSize ≤ maxSseLineBytes

instance decidableFine : (read : Except StreamError String) → Decidable (Fine read)
  | .ok line => decidable_of_iff (line.utf8ByteSize ≤ maxSseLineBytes)
      ⟨fun h => ⟨line, rfl, h⟩, fun ⟨_, hline, h⟩ => Except.ok.inj hline ▸ h⟩
  | .error _ => isFalse fun ⟨_, hline, _⟩ => nomatch hline

/-- What is taken from what was read. -/
def effect (read : Except StreamError String) : Option String × Bool :=
  match read with
  | .ok line => readLine parse line
  | .error _ => (none, false)

/-- No line fails up to the last event. -/
def FineThrough : List (Except StreamError String) → Prop
  | [] => True
  | read :: rest => Fine read ∧ ((effect parse read).2 = true ∨ FineThrough rest)

instance decidableFineThrough :
    (reads : List (Except StreamError String)) → Decidable (FineThrough parse reads)
  | [] => isTrue trivial
  | read :: rest =>
    have := decidableFineThrough rest
    inferInstanceAs (Decidable
      (Fine read ∧ ((effect parse read).2 = true ∨ FineThrough parse rest)))

/-- The texts up to the last event. -/
def heard : List (Option String × Bool) → List String
  | [] => []
  | (content, last) :: rest => content.toList ++ if last then [] else heard rest

variable {parse}

theorem heard_silent (rest : List (Option String × Bool)) :
    heard ((none, false) :: rest) = heard rest := rfl

def textSize (texts : List String) : Nat := (texts.map String.utf8ByteSize).sum

theorem not_lt_saturatingAdd {a b : Nat} (h : a + b ≤ defaultMaxResponseBytes) :
    ¬ defaultMaxResponseBytes < saturatingAdd usizeMax a b := by
  unfold saturatingAdd usizeMax
  omega

theorem readEvents_fine {full : String} {reads : List (Except StreamError String)}
    (h : FineThrough parse reads)
    (hcap : full.utf8ByteSize + textSize (heard (reads.map (effect parse))) ≤
      defaultMaxResponseBytes) :
    readEvents parse full reads = ⟨heard (reads.map (effect parse)),
      .ok (full ++ String.join (heard (reads.map (effect parse))))⟩ := by
  induction reads generalizing full with
  | nil => simp [readEvents, heard]
  | cons read rest ih =>
    obtain ⟨⟨line, rfl, hlong⟩, hrest⟩ := h
    have heffect : effect parse (.ok line) = readLine parse line := rfl
    rw [heffect] at hrest
    rw [List.map_cons, heffect] at hcap ⊢
    rw [readEvents, if_neg (Nat.not_lt.mpr hlong)]
    rcases hline : readLine parse line with ⟨_ | content, last⟩
    · rw [hline] at hrest hcap
      cases last with
      | true => simp [heard]
      | false =>
        rw [heard_silent] at hcap ⊢
        exact ih (hrest.resolve_left Bool.false_ne_true) hcap
    · rw [hline] at hrest hcap
      simp only [heard, Option.toList_some, List.singleton_append, textSize, List.map_cons,
        List.sum_cons] at hcap
      dsimp only
      rw [if_neg (not_lt_saturatingAdd (by omega))]
      cases last with
      | true => simp [heard]
      | false =>
        have hlater := @ih (full ++ content) (hrest.resolve_left Bool.false_ne_true)
          (by
            rw [String.utf8ByteSize_append]
            simp only [textSize]
            simpa [Nat.add_assoc] using hcap)
        rw [if_neg Bool.false_ne_true, hlater]
        simp [heard, String.append_assoc]

theorem readEvents_ok {full text : String} {reads : List (Except StreamError String)}
    (h : (readEvents parse full reads).result = .ok text) :
    text = full ++ String.join (heard (reads.map (effect parse))) := by
  induction reads generalizing full with
  | nil =>
    cases h
    simp [heard]
  | cons read rest ih =>
    cases read with
    | error e => cases h
    | ok line =>
      have heffect : effect parse (.ok line) = readLine parse line := rfl
      rw [List.map_cons, heffect]
      rw [readEvents] at h
      split at h
      · cases h
      rcases hline : readLine parse line with ⟨_ | content, last⟩
      · rw [hline] at h
        cases last with
        | true =>
          cases h
          simp [heard]
        | false =>
          rw [heard_silent]
          exact ih h
      · rw [hline] at h
        dsimp only at h
        split at h
        · cases h
        cases last with
        | true =>
          cases h
          simp [heard]
        | false =>
          have hlater := ih h
          simpa [heard, String.append_assoc] using hlater

theorem readEvents_not_fine {full : String} {reads : List (Except StreamError String)}
    (h : ¬ FineThrough parse reads) : ∃ e, (readEvents parse full reads).result = .error e := by
  induction reads generalizing full with
  | nil => exact absurd trivial h
  | cons read rest ih =>
    cases read with
    | error e => exact ⟨e, rfl⟩
    | ok line =>
      rw [readEvents]
      split
      · exact ⟨_, rfl⟩
      · rename_i hlong
        have hfine : Fine (.ok line) := ⟨line, rfl, Nat.not_lt.mp hlong⟩
        have heffect : effect parse (.ok line) = readLine parse line := rfl
        have hrest : ¬ ((readLine parse line).2 = true ∨ FineThrough parse rest) :=
          fun hrest => h ⟨hfine, hrest⟩
        rw [not_or] at hrest
        rcases hline : readLine parse line with ⟨_ | content, last⟩
        · rw [hline] at hrest
          dsimp only
          rw [if_neg hrest.1]
          exact ih hrest.2
        · rw [hline] at hrest
          dsimp only
          split
          · exact ⟨_, rfl⟩
          · rw [if_neg hrest.1]
            exact ih hrest.2

end

end GenieClaw.Llm
