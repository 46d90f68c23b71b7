import GenieClaw.Conversation.Store
import GenieClaw.Dispatch.Dispatcher
import GenieClaw.Library.Text
import GenieClaw.Parser.ToolCalls

/-!
# A turn of the voice loop

`process_transcript` of `voice_loop.rs` and the follow-up turn that `run_with_wakeword` has of
its own. What a turn does is written to the state: the tool calls it dispatches, the rows it
appends, the memories it captures and the replies it takes from the model. The text a turn
asks the model with, and what is spoken, change none of these and are left out, as are the
deletion of the recording and the lines that are printed.
-/

namespace GenieClaw.Voice

open Library Library.Text Memory Dispatch Actuation GenieClaw.Parser
open Conversation (MessageRow)

/-!
## Which transcripts are meant for the assistant

`voice/intent.rs`: fillers and long narration that opens like a story are rejected, unless
they read like a request.
-/

inductive VoiceIntentDecision where
  | accept
  | reject (reason : String)
deriving DecidableEq

/-- `normalize_transcript`: runs of white space become one space, none at either end, and
ASCII letters become small. -/
def normalizeTranscript (text : String) : String :=
  toAsciiLowercase (joinWith " " (splitWhitespace text))

def startsWithAny (text : String) (prefixes : List String) : Bool :=
  prefixes.any fun opening => startsWith opening text

def requestOpenings : List String :=
  ["what ", "what's ", "whats ", "who ", "when ", "where ", "why ", "how ", "can you ",
    "could you ", "would you ", "will you ", "please ", "turn ", "set ", "play ", "search ",
    "look up ", "remember ", "forget ", "open ", "close ", "lock ", "unlock ", "dim ",
    "brighten ", "check ", "tell me ", "show me ", "is ", "are ", "do ", "did ", "weather ",
    "timer ", "remind ", "calculate ", "call ", "text "]

def requestMarks : List String :=
  [" genie", " jarvis", " assistant", " lights", " light ", " thermostat", " temperature",
    " home assistant", " music", " tv", " volume", " alarm", " reminder", " kitchen",
    " bedroom", " living room", " garage", " front door", " weather", " time is it", " status",
    " search the web"]

def looksLikeDirectRequest (text : String) : Bool :=
  endsWith "?" text || startsWithAny text requestOpenings || containsAny text requestMarks

def narrationOpenings : List String :=
  ["the ", "a ", "an ", "he ", "she ", "they ", "it ", "we ", "this ", "that "]

def commandWords : List String :=
  ["please", "can you", "could you", "would you", " turn", " set", " play", " search",
    "remember", "forget", "weather", "timer", "remind", "assistant", "genie", "jarvis"]

def looksLikeAmbientNarration (text : String) (words : Nat) : Bool :=
  decide (9 ≤ words) && startsWithAny text narrationOpenings && !endsWith "?" text &&
    !containsAny text commandWords

def fillers : List String :=
  ["okay", "ok", "hmm", "uh", "um", "mm", "huh", "right", "yeah", "yep", "nope", "thanks",
    "thank you", "good night", "goodbye"]

def isLowSignalFiller (text : String) : Bool := decide (text ∈ fillers)

def assessTranscript (text : String) : VoiceIntentDecision :=
  let lower := normalizeTranscript text
  if lower = "" then .reject "empty transcript"
  else
    let words := (splitWhitespace lower).length
    if isLowSignalFiller lower then .reject "low-signal filler"
    else if looksLikeDirectRequest lower then .accept
    else if looksLikeAmbientNarration lower words then .reject "ambient narration"
    else .accept

/-! ## What a turn does -/

structure SpeakerIdentity where
  name : Option String := none
  confidence : IdentityConfidence := .unknown
deriving DecidableEq

/-- What stands behind a turn. `T` is the state of the tools and `M` the memory. -/
structure VoiceRuntime (T M : Type) where
  hasHomeAutomation : Bool
  hasWebSearch : Bool
  fromStr : JsonReader
  isKnownTool : String → Bool
  floatText : F64 → String
  /-- `quick::route_for_available_tools`. -/
  routeForAvailableTools : String → Bool → Bool → Option ToolCall
  memoryReadContextFromText : String → IdentityConfidence → MemoryReadContext
  gateToolCall : ToolCall → ToolExecutionContext → T → Option ToolResult × T
  executeWithContext : ToolCall → ToolExecutionContext → T → M → ToolResult × T × M
  parseWebSearchArgs : Json → Except String (String × Nat × Bool)
  webSearchResponse : String → Nat → Bool → T → Except String String × T
  auditGatedTool : ToolCall → ToolExecutionContext → Bool → String → T → T
  sanitizeOutput : String → String
  extractAndStore : String → M → Nat × M
  /-- The n-th reply of the model, or the error of the backend. -/
  reply : Nat → Except String String

structure VoiceState (T M : Type) where
  tools : T
  memory : M
  rows : List MessageRow := []
  /-- The tool calls that were dispatched. -/
  calls : List ToolCall := []
  /-- The replies the model has given so far. -/
  asked : Nat := 0

def voiceSessionKey (speakerName : Option String) : String :=
  let name := ((speakerName.map trim).filter fun name => name ≠ "").getD "unknown"
  "voice:" ++ toAsciiLowercase name

/-- `resolve_voice_conv_id`. The session registry files a conversation under its own key. -/
def resolveVoiceConvId (speakerName : Option String) : String := voiceSessionKey speakerName

namespace VoiceState

variable {T M : Type}

def append (row : MessageRow) (s : VoiceState T M) : VoiceState T M :=
  { s with rows := s.rows ++ [row] }

def asking (s : VoiceState T M) : VoiceState T M := { s with asked := s.asked + 1 }

/-- What a turn has done to the world. -/
structure SameEffects (s s' : VoiceState T M) : Prop where
  calls : s.calls = s'.calls
  rows : s.rows = s'.rows
  memory : s.memory = s'.memory

end VoiceState

/-- How the body of the wake loop goes on after the follow-up turn. -/
inductive Flow where
  /-- To the end of the body, where the listener is told to resume. -/
  | onward
  /-- A `continue`: to the next line of the listener. -/
  | next
deriving DecidableEq

namespace VoiceRuntime

variable {T M : Type} (v : VoiceRuntime T M)

def voiceContext (readContext : MemoryReadContext) : ToolExecutionContext where
  memoryReadContext := some readContext
  requestOrigin := .voice
  confirmed := false

def buildMemoryReadContext (text : String) (speaker : SpeakerIdentity) : MemoryReadContext :=
  v.memoryReadContextFromText text speaker.confidence

def ask (s : VoiceState T M) : Except String String × VoiceState T M :=
  (v.reply s.asked, s.asking)

def execute (call : ToolCall) (ctx : ToolExecutionContext) (s : VoiceState T M) :
    ToolResult × VoiceState T M :=
  let (result, tools, memory) := v.executeWithContext call ctx s.tools s.memory
  (result, { s with tools, memory, calls := s.calls ++ [call] })

/-- `extract_and_store` over the shared memory. -/
def capture (text : String) (s : VoiceState T M) : VoiceState T M :=
  { s with memory := (v.extractAndStore text s.memory).2 }

/-! ## Quick tools -/

/-- The three rows of a tool that was run without the model. -/
def appendQuickRows (convId : String) (call : ToolCall) (tool output response : String)
    (s : VoiceState T M) : VoiceState T M :=
  let s := s.append
    { convId, role := "assistant", content := toolJson v.floatText call, toolName := some tool }
  let s := s.append { convId, role := "system", content := "Tool: " ++ output }
  s.append { convId, role := "assistant", content := response }

/-- The web search of the quick path goes through the gate and renders its own answer. -/
def quickWebSearch (convId : String) (call : ToolCall) (ctx : ToolExecutionContext)
    (s : VoiceState T M) : String × VoiceState T M :=
  match v.gateToolCall call ctx s.tools with
  | (some rejected, tools) =>
    let response := v.sanitizeOutput rejected.output
    (response, { s with tools }.append { convId, role := "assistant", content := response })
  | (none, tools) =>
    match v.parseWebSearchArgs call.arguments with
    | .error error =>
      let response := v.sanitizeOutput ("Tool error: " ++ error)
      let tools := v.auditGatedTool call ctx false response tools
      (response, { s with tools }.append { convId, role := "assistant", content := response })
    | .ok (query, limit, fresh) =>
      let (result, tools) := v.webSearchResponse query limit fresh tools
      let (response, success) : String × Bool := match result with
        | .ok response => (response, true)
        | .error e => ("web_search failed: " ++ e, false)
      let tools := v.auditGatedTool call ctx success response tools
      let response := v.sanitizeOutput response
      let s := { s with tools, calls := s.calls ++ [call] }
      (response, v.appendQuickRows convId call "web_search" response response s)

def quickTool (convId : String) (call : ToolCall) (ctx : ToolExecutionContext)
    (s : VoiceState T M) : String × VoiceState T M :=
  if call.name = "web_search" then v.quickWebSearch convId call ctx s
  else
    let (result, s) := v.execute call ctx s
    let response := if result.success then result.output
      else result.tool ++ " failed: " ++ result.output
    let response := v.sanitizeOutput response
    (response, v.appendQuickRows convId call result.tool result.output response s)

def quickRoute (text : String) : Option ToolCall :=
  v.routeForAvailableTools text v.hasHomeAutomation v.hasWebSearch

def handleQuickToolForVoice (convId text : String) (readContext : MemoryReadContext)
    (s : VoiceState T M) : Option String × VoiceState T M :=
  match v.quickRoute text with
  | none => (none, s)
  | some call =>
    let (response, s) := v.quickTool convId call (voiceContext readContext) s
    (some response, s)

/-! ## The main turn -/

/-- The summary of a tool's answer: streamed, else in one piece, else the answer itself. -/
def summarize (output : String) (s : VoiceState T M) : String × VoiceState T M :=
  match v.ask s with
  | (.ok summary, s) => (summary, s)
  | (.error _, s) =>
    match v.ask s with
    | (.ok summary, s) => (summary, s)
    | (.error _, s) => (output, s)

/-- The reply is a tool call, which is executed, or the answer. -/
def answer (convId response : String) (readContext : MemoryReadContext) (s : VoiceState T M) :
    VoiceState T M :=
  match tryToolCall v.fromStr v.isKnownTool response with
  | some call =>
    let (result, s) := v.execute call (voiceContext readContext) s
    let s := s.append
      { convId, role := "assistant", content := response, toolName := some result.tool }
    let s := s.append { convId, role := "system", content := "Tool: " ++ result.output }
    let (summary, s) := v.summarize result.output s
    s.append { convId, role := "assistant", content := summary }
  | none => s.append { convId, role := "assistant", content := response }

/-- The reply of the model, streamed or, where that fails, in one piece. -/
def askOrFallBack (s : VoiceState T M) : Except String String × VoiceState T M :=
  match v.ask s with
  | (.ok response, s) => (.ok response, s)
  | (.error _, s) => v.ask s

/-- `process_transcript`. It returns whether the loop goes on. -/
def processTranscript (transcript : String) (speaker : SpeakerIdentity) (s : VoiceState T M) :
    Bool × VoiceState T M :=
  let text := trim transcript
  if text = "" then (true, s)
  else match assessTranscript text with
    | .reject _ => (true, s)
    | .accept =>
      let readContext := v.buildMemoryReadContext text speaker
      let convId := resolveVoiceConvId speaker.name
      let s := s.append { convId, role := "user", content := text, speaker := speaker.name }
      match v.handleQuickToolForVoice convId text readContext s with
      | (some _, s) => (true, v.capture text s)
      | (none, s) =>
        match v.askOrFallBack s with
        | (.error _, s) => (true, s)
        | (.ok response, s) => (true, v.capture text (v.answer convId response readContext s))

/-! ## The follow-up turn -/

/-- The follow-up branch of `run_with_wakeword` for a transcript. -/
def followUp (transcript : String) (speaker : SpeakerIdentity) (s : VoiceState T M) :
    Flow × VoiceState T M :=
  let text := trim transcript
  if text = "" then (.onward, s)
  else
    let readContext := v.buildMemoryReadContext text speaker
    let convId := resolveVoiceConvId speaker.name
    match assessTranscript text with
    | .reject _ => (.next, s)
    | .accept =>
      let s := s.append { convId, role := "user", content := text, speaker := speaker.name }
      match v.handleQuickToolForVoice convId text readContext s with
      | (some _, s) => (.next, s)
      | (none, s) =>
        match v.ask s with
        | (.ok response, s) =>
          (.onward, v.capture text (s.append { convId, role := "assistant", content := response }))
        | (.error _, s) => (.onward, v.capture text s)

end VoiceRuntime

end GenieClaw.Voice
