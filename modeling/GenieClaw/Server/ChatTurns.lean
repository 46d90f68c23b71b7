import GenieClaw.Conversation.Store
import GenieClaw.Dispatch.Dispatcher
import GenieClaw.Library.Statements
import GenieClaw.Server.Stream
import Mathlib.Algebra.GroupWithZero.Nat

/-!
# The two handlers of a chat turn

`process_chat_turn` and `handle_chat_stream` of `server.rs`, from the turn on that both are
given. They work on the same world; the streaming handler also writes events to its client,
and a write that fails ends it.
-/

namespace GenieClaw.Server

open Library Library.Text Dispatch GenieClaw.Parser
open Conversation (MessageRow)

structure IncomingTurn where
  text : String
  speakerName : Option String := none
  /-- What `tool_execution_context` makes of the turn and the origin of the request. -/
  toolContext : ToolExecutionContext := {}

structure Message where
  role : String
  content : String
deriving DecidableEq

inductive InteractionKind where
  | chat
  | voice
  | repl
  | openAiBridge
  | toolSummary

inductive EscalationReason where
  | contextOverflow
  | localDecline

/-- A reply of the model: the tokens it streams, and the error it ends with if any. -/
structure Reply where
  tokens : List String
  error : Option String := none

def Reply.text (reply : Reply) : String := String.join reply.tokens

def Reply.completion (reply : Reply) : Except String String :=
  match reply.error with
  | none => .ok reply.text
  | some e => .error e

/-- What stands behind a turn. `T` is the state of the tools and `M` the memory. -/
structure ChatRuntime (T M : Type) where
  hasHomeAutomation : Bool
  hasWebSearch : Bool
  fromStr : JsonReader
  isKnownTool : String → Bool
  floatText : F64 → String
  systemPrompt : String
  maxHistory : Nat
  /-- Why the optional provider is not ready, when it is enabled. -/
  gateBlocked : Option String
  mayEscalate : EscalationReason → Bool
  /-- `quick::route_for_available_tools`. -/
  routeForAvailableTools : String → Bool → Bool → Option ToolCall
  executeWithContext : ToolCall → ToolExecutionContext → T → M → ToolResult × T × M
  sanitizeOutput : String → String
  extractAndStore : String → M → Nat × M
  buildMemoryContext : M → IncomingTurn → String
  getRecent : List MessageRow → String → Nat → List Message
  applyReasoningMode : List Message → String → InteractionKind → List Message
  /-- The n-th reply of the model. -/
  reply : Nat → List Message → Reply
  privacyProxy : EscalationReason → List Message → M → Except String String

structure ChatWorld (T M : Type) where
  tools : T
  memory : M
  rows : List MessageRow := []
  /-- The tool calls that were executed. -/
  calls : List ToolCall := []
  /-- The replies the model has given. -/
  asked : Nat := 0
  /-- The requests that went to the privacy proxy. -/
  escalated : Nat := 0

structure ChatTurnResult where
  response : String
  tool : Option String
  conversationId : String
deriving DecidableEq

/-- What a turn has done to the world. -/
structure ChatWorld.SameEffects {T M : Type} (w w' : ChatWorld T M) : Prop where
  calls : w.calls = w'.calls
  rows : w.rows = w'.rows
  memory : w.memory = w'.memory

def unparsedToolCallFallback : String :=
  "Sorry, I didn't quite catch that — could you say it another way?"

def responseReserveTokens : Nat := 512

def jetsonBaselineContextTokens : Nat := 4096

/-- A rough estimate: four bytes a token. -/
def contextOverflowed (messages : List Message) : Bool :=
  decide (jetsonBaselineContextTokens <
    (messages.map fun m => m.content.utf8ByteSize / 4).sum + responseReserveTokens)

def shouldSummarizeToolResult (toolName : String) : Bool :=
  toolName ∉ ["system_info", "web_search", "memory_recall", "memory_status", "memory_store",
    "memory_forget"]

namespace ChatRuntime

variable {T M : Type} (v : ChatRuntime T M)

/-! ## What both handlers do to the world -/

def append (row : MessageRow) : Program (ChatWorld T M) String Unit := fun w =>
  (.ok (), { w with rows := w.rows ++ [row] })

def execute (call : ToolCall) (ctx : ToolExecutionContext) :
    Program (ChatWorld T M) String ToolResult := fun w =>
  let (result, tools, memory) := v.executeWithContext call ctx w.tools w.memory
  (.ok result, { w with tools, memory, calls := w.calls ++ [call] })

/-- `extract_and_store` over the shared memory. -/
def capture (text : String) : Program (ChatWorld T M) String Unit := fun w =>
  (.ok (), { w with memory := (v.extractAndStore text w.memory).2 })

/-- A completion of the gated provider. -/
def complete (messages : List Message) : Program (ChatWorld T M) String String := fun w =>
  match v.gateBlocked with
  | some reasons => (.error reasons, w)
  | none => ((v.reply w.asked messages).completion, { w with asked := w.asked + 1 })

def escalate (reason : EscalationReason) (messages : List Message) :
    Program (ChatWorld T M) String String := fun w =>
  (v.privacyProxy reason messages w.memory, { w with escalated := w.escalated + 1 })

def appendUser (convId : String) (turn : IncomingTurn) : Program (ChatWorld T M) String Unit :=
  append { convId, role := "user", content := turn.text, speaker := turn.speakerName }

def quickRoute (turn : IncomingTurn) : Option ToolCall :=
  v.routeForAvailableTools turn.text v.hasHomeAutomation v.hasWebSearch

def finalizeDirectToolTurn (convId : String) (call : ToolCall) (result : ToolResult) :
    Program (ChatWorld T M) String String := do
  let response := if result.success then result.output
    else result.tool ++ " failed: " ++ result.output
  let sanitized := v.sanitizeOutput response
  append { convId, role := "assistant", content := toolJson v.floatText call,
           toolName := some result.tool }
  append { convId, role := "system", content := "Tool result: " ++ result.output }
  append { convId, role := "assistant", content := sanitized }
  return sanitized

/-- The messages of the request that opens a turn. -/
def turnMessages (convId : String) (turn : IncomingTurn) (w : ChatWorld T M) : List Message :=
  let fullPrompt := v.systemPrompt ++ "\n\nRelevant household context:\n" ++
    v.buildMemoryContext w.memory turn
  v.applyReasoningMode (⟨"system", fullPrompt⟩ :: v.getRecent w.rows convId v.maxHistory)
    turn.text .chat

def buildMessages (convId : String) (turn : IncomingTurn) :
    Program (ChatWorld T M) String (List Message) := fun w =>
  (.ok (v.turnMessages convId turn w), w)

def summaryMessages (convId : String) (w : ChatWorld T M) : List Message :=
  let instruction := "Summarize the tool result in one natural sentence without changing " ++
    "numbers, measurements, or facts."
  v.applyReasoningMode (⟨"system", instruction⟩ :: v.getRecent w.rows convId 6) "" .toolSummary

/-- The summary of the model, or the output itself. -/
def summarize (convId : String) (result : ToolResult) : Program (ChatWorld T M) String String :=
  fun w =>
    if shouldSummarizeToolResult result.tool then
      match v.complete (v.summaryMessages convId w) w with
      | (.ok summary, w) => (.ok summary, w)
      | (.error _, w) => (.ok result.output, w)
    else (.ok result.output, w)

def finalizeToolTurn (convId llmResponse : String) (result : ToolResult) :
    Program (ChatWorld T M) String String := do
  append { convId, role := "assistant", content := llmResponse, toolName := some result.tool }
  append { convId, role := "system", content := "Tool result: " ++ result.output }
  let summary ← v.summarize convId result
  let sanitized := v.sanitizeOutput summary
  append { convId, role := "assistant", content := sanitized }
  return sanitized

/-- A broken tool call is not shown. -/
def sanitizeAnswer (llmResponse : String) : String :=
  if isUnparsedToolCall v.fromStr llmResponse then unparsedToolCallFallback
  else v.sanitizeOutput llmResponse

/-! ## The handler that answers in one piece -/

/-- The local model, or the proxy where the request does not fit or the model declines. -/
def completeOrEscalate (messages : List Message) : Program (ChatWorld T M) String String := fun w =>
  if contextOverflowed messages ∧ v.mayEscalate .contextOverflow then
    match v.escalate .contextOverflow messages w with
    | (.ok response, w) => (.ok response, w)
    | (.error _, w) => v.complete messages w
  else
    match v.complete messages w with
    | (.ok response, w) => (.ok response, w)
    | (.error declined, w) =>
      if v.mayEscalate .localDecline then
        match v.escalate .localDecline messages w with
        | (.ok response, w) => (.ok response, w)
        | (.error _, w) => (.error declined, w)
      else (.error declined, w)

def quickTurn (convId : String) (turn : IncomingTurn) (call : ToolCall) :
    Program (ChatWorld T M) String ChatTurnResult := do
  let result ← v.execute call turn.toolContext
  let response ← v.finalizeDirectToolTurn convId call result
  v.capture turn.text
  return ⟨response, some result.tool, convId⟩

/-- What is made of the reply: a tool call is executed and summarized. -/
def answer (convId llmResponse : String) (ctx : ToolExecutionContext) :
    Program (ChatWorld T M) String (String × Option String) :=
  match tryToolCall v.fromStr v.isKnownTool llmResponse with
  | some call => do
    let result ← v.execute call ctx
    let summary ← v.finalizeToolTurn convId llmResponse result
    return (summary, some result.tool)
  | none => do
    append { convId, role := "assistant", content := v.sanitizeAnswer llmResponse }
    return (v.sanitizeAnswer llmResponse, none)

def modelTurn (convId : String) (turn : IncomingTurn) :
    Program (ChatWorld T M) String ChatTurnResult := do
  let messages ← v.buildMessages convId turn
  let llmResponse ← v.completeOrEscalate messages
  let (response, tool) ← v.answer convId llmResponse turn.toolContext
  v.capture turn.text
  return ⟨response, tool, convId⟩

def processChatTurn (convId : String) (turn : IncomingTurn) :
    Program (ChatWorld T M) String ChatTurnResult := do
  appendUser convId turn
  match v.quickRoute turn with
  | some call => v.quickTurn convId turn call
  | none => v.modelTurn convId turn

end ChatRuntime

/-! ## The handler that streams -/

inductive StreamEvent where
  | headers (status : Nat)
  | start (convId : String)
  | token (content : String)
  | replace (content tool : String)
  | done (response : String) (tool : Option String) (convId : String)
  | error (message : String)
deriving DecidableEq

/-- A client and what was written to it. -/
structure ChatConnection (T M : Type) where
  world : ChatWorld T M
  events : List StreamEvent := []
  writes : Nat := 0

namespace ChatRuntime

variable {T M : Type} (v : ChatRuntime T M) (client : Nat → Bool)

def onWorld {α : Type} (p : Program (ChatWorld T M) String α) :
    Program (ChatConnection T M) String α := fun c =>
  let (result, world) := p c.world
  (result, { c with world })

/-- The n-th write reaches the client if it is still there. -/
def writeStreamEvent (event : StreamEvent) : Program (ChatConnection T M) String Unit := fun c =>
  if client c.writes then
    (.ok (), { c with events := c.events ++ [event], writes := c.writes + 1 })
  else (.error "client disconnected", { c with writes := c.writes + 1 })

/-- The consumer of the tokens. -/
def forwardTokens : List String → StreamState → Program (ChatConnection T M) String StreamState
  | [], state => pure state
  | token :: rest, state =>
    match consumeToken state token with
    | (some content, state) => do
      writeStreamEvent client (.token content)
      forwardTokens rest state
    | (none, state) => forwardTokens rest state

/-- Without a client the request to the model is cancelled. -/
def streamReply (messages : List Message) :
    Program (ChatConnection T M) String (String × StreamState) := fun c =>
  let reply := v.reply c.world.asked messages
  let c := { c with world := { c.world with asked := c.world.asked + 1 } }
  match forwardTokens client reply.tokens {} c with
  | (.ok state, c) => (reply.completion.map fun text => (text, state), c)
  | (.error e, c) => (.error e, c)

def streamQuickTurn (convId : String) (turn : IncomingTurn) (call : ToolCall) :
    Program (ChatConnection T M) String Unit := do
  writeStreamEvent client (.headers 200)
  writeStreamEvent client (.start convId)
  let result ← onWorld (v.execute call turn.toolContext)
  let response ← onWorld (v.finalizeDirectToolTurn convId call result)
  writeStreamEvent client (.replace response result.tool)
  onWorld (v.capture turn.text)
  writeStreamEvent client (.done response (some result.tool) convId)

/-- The summary replaces what was held back, unless text was already shown. -/
def streamToolAnswer (convId llmResponse : String) (call : ToolCall) (ctx : ToolExecutionContext)
    (state : StreamState) : Program (ChatConnection T M) String (String × Option String) := do
  let result ← onWorld (v.execute call ctx)
  let summary ← onWorld (v.finalizeToolTurn convId llmResponse result)
  if state.emittedText then pure () else writeStreamEvent client (.replace summary result.tool)
  return (summary, some result.tool)

def streamAnswer (convId llmResponse : String) (ctx : ToolExecutionContext) (state : StreamState) :
    Program (ChatConnection T M) String (String × Option String) :=
  match tryToolCall v.fromStr v.isKnownTool llmResponse with
  | some call => v.streamToolAnswer client convId llmResponse call ctx state
  | none => do
    (match flushPending false state with
      | some pending => writeStreamEvent client (.token pending)
      | none => pure ())
    onWorld (append { convId, role := "assistant", content := v.sanitizeAnswer llmResponse })
    return (v.sanitizeAnswer llmResponse, none)

def streamModelTurn (convId : String) (turn : IncomingTurn) :
    Program (ChatConnection T M) String Unit := do
  let messages ← onWorld (v.buildMessages convId turn)
  writeStreamEvent client (.headers 200)
  writeStreamEvent client (.start convId)
  let (llmResponse, state) ← v.streamReply client messages
  let (response, tool) ← v.streamAnswer client convId llmResponse turn.toolContext state
  onWorld (v.capture turn.text)
  writeStreamEvent client (.done response tool convId)

def streamBlocked (reasons : String) : Program (ChatConnection T M) String Unit := do
  writeStreamEvent client (.headers 503)
  writeStreamEvent client (.error ("optional_ai_provider misconfigured: " ++ reasons))

/-- `handle_chat_stream`, once the body of the request has given the turn. -/
def handleChatStream (convId : String) (turn : IncomingTurn) :
    Program (ChatConnection T M) String Unit := do
  onWorld (appendUser convId turn)
  match v.quickRoute turn with
  | some call => v.streamQuickTurn client convId turn call
  | none =>
    match v.gateBlocked with
    | some reasons => streamBlocked client reasons
    | none => v.streamModelTurn client convId turn

end ChatRuntime

end GenieClaw.Server
