import GenieClaw.Dispatch.Dispatcher
import GenieClaw.Parser.Extract

/-!
# Tool calls in the output of the model

The parser of `tools/parser.rs`. A value is a call when it is a `ToolCall` of its own, an
object whose single key is a known tool, or what the evaluation parser makes of it: an
array of calls, an OpenAI wrapper, or an object with a single key of any name.
-/

namespace GenieClaw.Parser

open Library Library.Text Dispatch

/-- `serde_json::from_value::<ToolCall>`: the name goes by `name` or `tool`, arguments may
be missing, and a sequence is read field by field. -/
def toolCallOf : Json → Option ToolCall
  | .object fields =>
    match fields.lookup "name", fields.lookup "tool" with
    | some (.string name), none => some ⟨name, (fields.lookup "arguments").getD .null⟩
    | none, some (.string name) => some ⟨name, (fields.lookup "arguments").getD .null⟩
    | _, _ => none
  | .array [.string name] => some ⟨name, .null⟩
  | .array [.string name, arguments] => some ⟨name, arguments⟩
  | _ => none

def scalarPrimaryArg (toolName : String) : Option String :=
  match toolName with
  | "get_weather" => some "location"
  | "web_search" => some "query"
  | "calculate" => some "expression"
  | "play_media" => some "query"
  | "memory_recall" => some "query"
  | "memory_store" => some "content"
  | "memory_forget" => some "query"
  | "home_status" => some "entity"
  | "set_timer" => some "seconds"
  | _ => none

def isScalar : Json → Bool
  | .string _ | .number _ | .bool _ => true
  | .null | .array _ | .object _ => false

def normalizeSingleKeyArguments (toolName : String) (nested : Json) : Json :=
  match nested with
  | .object fields => .object fields
  | nested =>
    match isScalar nested, scalarPrimaryArg toolName with
    | true, some primary => .object [(primary, nested)]
    | _, _ => .object []

/-- A single-key object whose key is a known tool. -/
def normalizeSingleKeyToolCall (isKnownTool : String → Bool) : Json → Option ToolCall
  | .object [(toolName, nested)] =>
    if isKnownTool toolName then some ⟨toolName, normalizeSingleKeyArguments toolName nested⟩
    else none
  | _ => none

/-- The keys of a plain answer. -/
def answerKeys : List String := ["answer", "response", "message", "content", "text"]

def normalizeSingleKeyToolCallForEval : Json → Option ToolCall
  | .object [(toolName, nested)] =>
    if toolName ∈ answerKeys then none
    else some ⟨toolName, normalizeSingleKeyArguments toolName nested⟩
  | _ => none

section

variable (fromStr : JsonReader)

def normalizeEvalArguments : Json → Json
  | .string text => (fromStr text).getD (.string text)
  | .null => .object []
  | other => other

def parseOpenaiFunctionCallForEval (value : Json) : Option ToolCall :=
  match (value.get "name").bind Json.asStr with
  | none => none
  | some text =>
    let name := trim text
    if name = "" then none
    else
      some ⟨name, ((value.get "arguments").map (normalizeEvalArguments fromStr)).getD (.object [])⟩

def parseOpenaiToolCallForEval (value : Json) : Option ToolCall :=
  match value.get "function" with
  | some function => parseOpenaiFunctionCallForEval fromStr function
  | none => parseOpenaiFunctionCallForEval fromStr value

def parseSingleToolCallForEval (value : Json) : Option ToolCall :=
  match toolCallOf value with
  | some call =>
    if trim call.name ≠ "" then
      some { call with arguments := normalizeEvalArguments fromStr call.arguments }
    else none
  | none => normalizeSingleKeyToolCallForEval value

def parseToolCallValueForEval : Json → List ToolCall
  | .array items => items.filterMap (parseSingleToolCallForEval fromStr)
  | .object fields =>
    match fields.lookup "tool_calls" with
    | some (.array toolCalls) => toolCalls.filterMap (parseOpenaiToolCallForEval fromStr)
    | _ =>
      match fields.lookup "function_call" with
      | some functionCall => (parseOpenaiFunctionCallForEval fromStr functionCall).toList
      | none => (parseSingleToolCallForEval fromStr (.object fields)).toList
  | _ => []

def parseToolCallValue (isKnownTool : String → Bool) (value : Json) : Option ToolCall :=
  let named := (toolCallOf value).filter (fun call => call.name ≠ "")
  (named.or (normalizeSingleKeyToolCall isKnownTool value)).or
    (parseToolCallValueForEval fromStr value).head?

def parseToolCallsForEval (response : String) : List ToolCall :=
  match extractedValue fromStr response with
  | none => []
  | some value => parseToolCallValueForEval fromStr value

/-- The call `try_tool_call_with_context` executes. -/
def tryToolCall (isKnownTool : String → Bool) (response : String) : Option ToolCall :=
  match extractedValue fromStr response with
  | none => none
  | some value => (parseToolCallValue fromStr isKnownTool value).filter (fun call => call.name ≠ "")

/-- The text begins like a tool call and has a key of one. -/
def looksToolish (response : String) : Bool :=
  let trimmed := trim response
  (startsWith "\x7b" trimmed || startsWith "[" trimmed || startsWith "```" trimmed) &&
    (containsText trimmed "\"tool\"" || containsText trimmed "\"arguments\"" ||
      containsText trimmed "\"name\"" || containsText trimmed "\"tool_calls\"" ||
      containsText trimmed "\"function_call\"")

/-- The text has the mark of a wrapper or begins like an array. -/
def wrapperMark (response : String) : Bool :=
  let trimmed := trim response
  containsText trimmed "\"tool_calls\"" || containsText trimmed "\"function_call\"" ||
    startsWith "[" trimmed

def isUnparsedToolCall (response : String) : Bool :=
  match extractJson fromStr response with
  | none => looksToolish response
  | some jsonStr =>
    if (fromStr jsonStr).isNone then looksToolish response
    else wrapperMark response && (parseToolCallsForEval fromStr response).isEmpty

end

end GenieClaw.Parser
