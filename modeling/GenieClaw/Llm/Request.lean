import GenieClaw.Json
import Mathlib.Algebra.Order.BigOperators.Group.List
import Mathlib.Algebra.Order.Ring.Nat

/-!
# The body of a chat request

What `serialize_body` of `llm/openai_compat.rs` writes. The fields of a record are written in the
order of its declaration, and those that are absent are left out. SHA-256 and the decimal text of
a double are parameters.
-/

namespace GenieClaw.Llm

open Library Library.Text List

structure Message where
  role : String
  content : String
deriving DecidableEq

structure LlmRequestHints where
  sessionId : Option String := none
  priority : Option Int := none
  outputSequenceLength : Option Nat := none
  speculativePrefill : Bool := false
  cacheTtlSecs : Option Nat := none

structure ResponseFormat where
  formatType : String
  schema : Option Json

inductive RequestProfile where
  | generic (model : String)
  | genieAiRuntime

/-! ## JSON texts -/

def jsonString (s : String) : String := String.ofList (Json.writeString s)

def jsonArray (items : List String) : String := "[" ++ joinWith "," items ++ "]"

def jsonField (field : String × String) : String := jsonString field.1 ++ ":" ++ field.2

def jsonObject (fields : List (String × String)) : String :=
  "\x7b" ++ joinWith "," (fields.map jsonField) ++ "\x7d"

/-- A field that is left out if it is `None`. -/
def optional (key : String) (value : Option String) : List (String × String) :=
  (value.map fun text => (key, text)).toList

def Message.write (m : Message) : String :=
  jsonObject [("role", jsonString m.role), ("content", jsonString m.content)]

def ResponseFormat.write (floatText : F64 → String) (format : ResponseFormat) : String :=
  jsonObject (("type", jsonString format.formatType) ::
    optional "schema" (format.schema.map (Json.render floatText)))

/-! ## Extensions of the local runtime -/

structure AgentHints where
  sessionId : Option String
  priority : Option Int
  osl : Option Nat
  speculativePrefill : Option Bool

structure CacheControl where
  cacheType : String
  ttl : String
  scope : Option String
  cacheKey : Option String
  prefixBytes : Option Nat

structure NvExt where
  agentHints : Option AgentHints
  cacheControl : Option CacheControl

def jsonBool (b : Bool) : String := if b then "true" else "false"

def AgentHints.write (hints : AgentHints) : String :=
  jsonObject (optional "session_id" (hints.sessionId.map jsonString) ++
    optional "priority" (hints.priority.map toString) ++ optional "osl" (hints.osl.map toString) ++
    optional "speculative_prefill" (hints.speculativePrefill.map jsonBool))

def CacheControl.write (control : CacheControl) : String :=
  jsonObject ([("type", jsonString control.cacheType), ("ttl", jsonString control.ttl)] ++
    optional "scope" (control.scope.map jsonString) ++
    optional "cache_key" (control.cacheKey.map jsonString) ++
    optional "prefix_bytes" (control.prefixBytes.map toString))

def NvExt.write (ext : NvExt) : String :=
  jsonObject (optional "agent_hints" (ext.agentHints.map AgentHints.write) ++
    optional "cache_control" (ext.cacheControl.map CacheControl.write))

/-- The loop over the characters, with what is there of the session id. -/
def sessionIdFrom : List Char → List Char → List Char
  | out, [] => out
  | out, ch :: rest =>
    let out := if ch.isAlphanum ∨ ch = '_' ∨ ch = '-' then out ++ [ch]
      else if out.getLast? ≠ some '_' then out ++ ['_'] else out
    if out.length = 64 then out else sessionIdFrom out rest

def normalizeRuntimeSessionId (raw : String) : Option String :=
  let out := trimMatches (· = '_') (String.ofList (sessionIdFrom [] raw.toList))
  if out = "" then none else some out

def formatTtl (secs : Nat) : String :=
  if 3600 ≤ secs ∧ secs % 3600 = 0 then toString (secs / 3600) ++ "h"
  else if 60 ≤ secs ∧ secs % 60 = 0 then toString (secs / 60) ++ "m"
  else toString secs ++ "s"

def systemPromptPrefixCacheScope : String := "system_prompt_prefix"

def systemPromptPrefixCacheKeyPrefix : String := "system-prompt-prefix:"

def systemPromptPrefixCacheMarkers : List String :=
  ["\n\nRelevant household context:\n", "\n\nHousehold context:\n"]

structure SystemPromptPrefixCache where
  cacheKey : String
  prefixBytes : Nat

section

variable (sha256Hex : String → String) (floatText : F64 → String)

/-- The prompt up to the end of the first marker. -/
def systemPromptPrefixCache (messages : List Message) : Option SystemPromptPrefixCache := do
  let system ← messages.find? fun message => message.role = "system"
  let prefixEnd ← (systemPromptPrefixCacheMarkers.filterMap fun marker =>
    (splitOnce marker.toList system.content.toList).map fun parts =>
      parts.1.length + marker.toList.length).min?
  let front := String.ofList (system.content.toList.take prefixEnd)
  if trim front = "" then none
  else some ⟨systemPromptPrefixCacheKeyPrefix ++ sha256Hex front, front.utf8ByteSize⟩

def cacheControl (ttlSecs : Nat) (prefixCache : Option SystemPromptPrefixCache) :
    CacheControl where
  cacheType := "ephemeral"
  ttl := formatTtl ttlSecs
  scope := prefixCache.map fun _ => systemPromptPrefixCacheScope
  cacheKey := prefixCache.map SystemPromptPrefixCache.cacheKey
  prefixBytes := prefixCache.map SystemPromptPrefixCache.prefixBytes

def agentHints (sessionId : Option String) (hints : LlmRequestHints) : Option AgentHints :=
  if sessionId.isSome ∨ hints.priority.isSome ∨ hints.outputSequenceLength.isSome ∨
      hints.speculativePrefill then
    some {
      sessionId
      priority := hints.priority
      osl := hints.outputSequenceLength
      speculativePrefill := if hints.speculativePrefill then some true else none }
  else none

def buildNvext (messages : List Message) (hints : Option LlmRequestHints) : Option NvExt :=
  let sessionId := (hints.bind LlmRequestHints.sessionId).bind normalizeRuntimeSessionId
  let agent := hints.bind (agentHints sessionId)
  let cache := (hints.bind LlmRequestHints.cacheTtlSecs).map fun ttl =>
    cacheControl ttl (systemPromptPrefixCache sha256Hex messages)
  if agent.isSome ∨ cache.isSome then some ⟨agent, cache⟩ else none

/-! ## The request -/

namespace RequestProfile

def model : RequestProfile → String
  | generic model => model
  | genieAiRuntime => "jetson-llm"

def thinkOverride : RequestProfile → Option Bool
  | generic _ => none
  | genieAiRuntime => some false

def runtimeSessionId (hints : Option LlmRequestHints) : RequestProfile → Option String
  | generic _ => none
  | genieAiRuntime => (hints.bind LlmRequestHints.sessionId).bind normalizeRuntimeSessionId

def nvext (messages : List Message) (hints : Option LlmRequestHints) :
    RequestProfile → Option NvExt
  | generic _ => none
  | genieAiRuntime => buildNvext sha256Hex messages hints

end RequestProfile

/-- What the request is beside its messages. -/
structure RequestOptions where
  maxTokens : Option Nat
  stream : Bool
  responseFormat : Option ResponseFormat
  hints : Option LlmRequestHints

variable (profile : RequestProfile) (options : RequestOptions)

/-- The fields behind the messages. The temperature is the `f32` 0.7. -/
def fieldsBehind (messages : List Message) : List (String × String) :=
  optional "max_tokens" (options.maxTokens.map toString) ++
    [("temperature", "0.7"), ("stream", jsonBool options.stream)] ++
    optional "conversation_id" ((profile.runtimeSessionId options.hints).map jsonString) ++
    optional "think" (profile.thinkOverride.map jsonBool) ++
    optional "response_format" (options.responseFormat.map (ResponseFormat.write floatText)) ++
    optional "nvext" ((profile.nvext sha256Hex messages options.hints).map NvExt.write)

def serializeBody (messages : List Message) : String :=
  jsonObject (("model", jsonString profile.model) ::
    ("messages", jsonArray (messages.map Message.write)) ::
      fieldsBehind sha256Hex floatText profile options messages)

end

/-! ## Sizes -/

theorem joinWith_cons_cons (sep a b : String) (rest : List String) :
    joinWith sep (a :: b :: rest) = a ++ sep ++ joinWith sep (b :: rest) := by
  refine String.toList_inj.mp ?_
  simp only [joinWith, String.toList_append, String.toList_ofList, map_cons]
  rw [intercalate_cons_cons, append_assoc]

theorem size_joinWith_comma {items : List String} (h : items ≠ []) :
    (joinWith "," items).utf8ByteSize + 1 = (items.map (·.utf8ByteSize + 1)).sum := by
  have hcomma : (",".utf8ByteSize) = 1 := by decide
  induction items with
  | nil => exact absurd rfl h
  | cons a rest ih =>
    cases rest with
    | nil =>
      have hone : joinWith "," [a] = a := by
        refine String.toList_inj.mp ?_
        simp [joinWith]
      rw [hone]
      rfl
    | cons b rest =>
      have hrest := ih (cons_ne_nil b rest)
      rw [joinWith_cons_cons, String.utf8ByteSize_append, String.utf8ByteSize_append, hcomma,
        map_cons, sum_cons, ← hrest]
      omega

/-- With other messages behind which the same fields stand, a body differs by what the messages
take. -/
theorem size_serializeBody (sha256Hex : String → String) (floatText : F64 → String)
    (profile : RequestProfile) (options : RequestOptions) {messages others : List Message}
    (hne : messages ≠ []) (hothers : others ≠ [])
    (h : fieldsBehind sha256Hex floatText profile options messages =
      fieldsBehind sha256Hex floatText profile options others) :
    (serializeBody sha256Hex floatText profile options messages).utf8ByteSize +
        (others.map fun m => m.write.utf8ByteSize + 1).sum =
      (serializeBody sha256Hex floatText profile options others).utf8ByteSize +
        (messages.map fun m => m.write.utf8ByteSize + 1).sum := by
  have harray : ∀ ms : List Message, ms ≠ [] → (jsonArray (ms.map Message.write)).utf8ByteSize =
      (ms.map fun m => m.write.utf8ByteSize + 1).sum + 1 := by
    intro ms hms
    have hsize := @size_joinWith_comma (ms.map Message.write) (by simpa using hms)
    rw [map_map] at hsize
    have hbracket : "[".utf8ByteSize = 1 ∧ "]".utf8ByteSize = 1 := by decide
    have hsum : (List.map ((fun x : String => x.utf8ByteSize + 1) ∘ Message.write) ms).sum =
        (ms.map fun m => m.write.utf8ByteSize + 1).sum := rfl
    rw [hsum] at hsize
    rw [jsonArray, String.utf8ByteSize_append, String.utf8ByteSize_append, hbracket.1,
      hbracket.2]
    omega
  unfold serializeBody jsonObject
  rw [h]
  simp only [String.utf8ByteSize_append, map_cons]
  have hsize : ∀ a b : String, ∀ rest : List String,
      (joinWith "," (a :: b :: rest)).utf8ByteSize + 1 =
        a.utf8ByteSize + 1 + (b.utf8ByteSize + 1 + (rest.map (·.utf8ByteSize + 1)).sum) :=
    fun a b rest => size_joinWith_comma (cons_ne_nil a (b :: rest))
  have hleft := hsize (jsonField ("model", jsonString profile.model))
    (jsonField ("messages", jsonArray (messages.map Message.write)))
    ((fieldsBehind sha256Hex floatText profile options others).map jsonField)
  have hright := hsize (jsonField ("model", jsonString profile.model))
    (jsonField ("messages", jsonArray (others.map Message.write)))
    ((fieldsBehind sha256Hex floatText profile options others).map jsonField)
  have hfield : ∀ ms : List Message,
      (jsonField ("messages", jsonArray (ms.map Message.write))).utf8ByteSize =
      (jsonString "messages").utf8ByteSize + ":".utf8ByteSize +
        (jsonArray (ms.map Message.write)).utf8ByteSize := by
    intro ms
    rw [jsonField, String.utf8ByteSize_append, String.utf8ByteSize_append]
  rw [hfield, harray _ hne] at hleft
  rw [hfield, harray _ hothers] at hright
  omega

/-- A message of which nothing is escaped. -/
def Message.Unescaped (m : Message) : Prop :=
  ∀ c ∈ m.role.toList ++ m.content.toList, Json.escapeChar c = [c]

theorem jsonString_unescaped {s : String} (h : ∀ c ∈ s.toList, Json.escapeChar c = [c]) :
    jsonString s = "\"" ++ s ++ "\"" := by
  have hsame : s.toList.flatMap Json.escapeChar = s.toList := by
    rw [flatMap_congr h]
    exact flatMap_singleton' s.toList
  refine String.toList_inj.mp ?_
  rw [jsonString, Json.writeString, hsame, String.toList_ofList, String.toList_append,
    String.toList_append]
  rfl

theorem Message.size_write (m : Message) :
    m.write.utf8ByteSize =
      (jsonString m.role).utf8ByteSize + (jsonString m.content).utf8ByteSize + 20 := by
  have hkeys : (jsonString "role").utf8ByteSize = 6 ∧ (jsonString "content").utf8ByteSize = 9 := by
    decide
  have hmarks : "\x7b".utf8ByteSize = 1 ∧ "\x7d".utf8ByteSize = 1 ∧ ":".utf8ByteSize = 1 := by
    decide
  have hfields := size_joinWith_comma (cons_ne_nil (jsonField ("role", jsonString m.role))
    [jsonField ("content", jsonString m.content)])
  simp only [map_cons, map_nil, sum_cons, sum_nil, jsonField,
    String.utf8ByteSize_append] at hfields
  simp only [Message.write, jsonObject, String.utf8ByteSize_append, map_cons, map_nil,
    jsonField]
  omega

theorem Message.Unescaped.size_write {m : Message} (h : m.Unescaped) :
    m.write.utf8ByteSize = m.role.utf8ByteSize + m.content.utf8ByteSize + 24 := by
  obtain ⟨hrole, hcontent⟩ := List.forall_mem_append.mp h
  have hquote : "\"".utf8ByteSize = 1 := by decide
  rw [m.size_write, jsonString_unescaped hrole, jsonString_unescaped hcontent]
  simp only [String.utf8ByteSize_append, hquote]
  omega

end GenieClaw.Llm
