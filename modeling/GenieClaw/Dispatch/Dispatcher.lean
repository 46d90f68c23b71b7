import GenieClaw.Actuation.Confirmation
import GenieClaw.Actuation.Ledger
import GenieClaw.Actuation.Origin
import GenieClaw.Config
import GenieClaw.Dispatch.ConfirmationGate
import GenieClaw.Home.Control
import GenieClaw.Library.KeyedWindow
import GenieClaw.Library.Text
import GenieClaw.Memory.DeviceAlias
import GenieClaw.Memory.Policy

/-!
# The tool dispatcher

`ToolDispatcher` of `tools/dispatch/mod.rs`. What never changes while the program runs is
the structure `ToolDispatcher`: the configuration, and the world outside as functions of
the readings taken so far (the clock, the random bytes, the order in which a hash table is
walked) and of the state of the home. What sits behind a lock is `DispatcherState`.

The bodies of the tools that have nothing to do with home actuation are one parameter:
they see the memory and the home, and may change both, but neither the ledger, the
confirmations nor the limiters, which only the code below holds.
-/

namespace GenieClaw.Dispatch

open Library Library.Text Actuation Home Memory

/-!
## Rate limits of the dispatcher

The two limiters of `tools/dispatch/mod.rs`: physical home actions by origin and calls by
tool. Both keep one sliding window a key; a limit of zero is refused before the clock is
read.
-/

def actuationRateWindowMs : Nat := 60000

def countNoun (count : Nat) (singular plural : String) : String :=
  if count = 1 then "1 " ++ singular else count.repr ++ " " ++ plural

variable {K : Type} [DecidableEq K]

/-- The times a key was admitted at that are still kept. -/
def bucket (attempts : HashTable K (List Nat)) (key : K) : List Nat :=
  (attempts.lookup key).getD []

/-- One attempt of a key: whether it is admitted, and the table it leaves. -/
def attempt (key : K) (limit nowMs : Nat) (attempts : HashTable K (List Nat)) :
    Bool × HashTable K (List Nat) :=
  let (admitted, queue) := SlidingWindow.slide actuationRateWindowMs limit nowMs
    (bucket attempts key)
  (admitted, attempts.insert key queue)

def actuationRateLimit (config : ActuationSafetyConfig) (origin : RequestOrigin) : Nat :=
  ((config.maxActionsPerMinuteByOrigin.entries.find? fun entry =>
      eqIgnoreAsciiCase (trim entry.1) origin.asPolicyKey).map Sigma.snd).getD
    config.maxActionsPerMinute

def toolRateLimit (policy : ToolPolicyConfig) (tool : String) : Option Nat :=
  if policy.enabled = false then none
  else (policy.maxActionsPerMinuteByTool.lookup tool).or
    (policy.maxActionsPerMinuteByTool.lookup "*")

theorem bucket_attempt (key other : K) (limit nowMs : Nat) (attempts : HashTable K (List Nat)) :
    bucket (attempt key limit nowMs attempts).2 other =
      if other = key then
        (SlidingWindow.slide actuationRateWindowMs limit nowMs (bucket attempts key)).2
      else bucket attempts other := by
  unfold attempt bucket
  dsimp only
  by_cases h : other = key
  · subst h
    rw [if_pos rfl, AList.lookup_insert]
    rfl
  · rw [if_neg h, AList.lookup_insert_ne h]

/-! ## The dispatcher -/

structure ToolExecutionContext where
  memoryReadContext : Option MemoryReadContext := none
  requestOrigin : RequestOrigin := .unknown
  confirmed : Bool := false
deriving DecidableEq

structure ToolCall where
  name : String
  arguments : Json

/-- A call as it is filed when it came from no reply of the model. -/
def toolJson (floatText : F64 → String) (call : ToolCall) : String :=
  (Json.object [("arguments", call.arguments), ("tool", .string call.name)]).render floatText

inductive ToolActionClass where
  | readOnly
  | diagnostic
  | memoryRead
  | memoryWrite
  | homeActuation
  | media
  | network
  | timer
  | skill
deriving DecidableEq

def toolActionClass (name : String) : ToolActionClass :=
  match name with
  | "home_control" => .homeActuation
  | "home_undo" => .homeActuation
  | "play_media" => .media
  | "memory_recall" => .memoryRead
  | "memory_forget" => .memoryWrite
  | "memory_store" => .memoryWrite
  | "memory_status" => .diagnostic
  | "system_info" => .diagnostic
  | "action_history" => .diagnostic
  | "web_search" => .network
  | "get_weather" => .network
  | "set_timer" => .timer
  | "home_status" => .readOnly
  | "get_time" => .readOnly
  | "calculate" => .readOnly
  | _ => .skill

structure ToolResult where
  tool : String
  actionClass : ToolActionClass
  success : Bool
  output : String
deriving DecidableEq

inductive GateDecision where
  | executed
  | error
  | deniedPolicy
  | rateLimited
  | pendingConfirmation
  | confirmationExpired
deriving DecidableEq

def GateDecision.asStr : GateDecision → String
  | .executed => "executed"
  | .error => "error"
  | .deniedPolicy => "denied_policy"
  | .rateLimited => "rate_limited"
  | .pendingConfirmation => "pending_confirmation"
  | .confirmationExpired => "confirmation_expired"

/-- A line of the tool audit. The measured duration of the call is left out. -/
structure ToolAuditEvent where
  tsMs : Nat
  tool : String
  actionClass : ToolActionClass
  origin : RequestOrigin
  success : Bool
  decision : String
  argumentKeys : List String
  outputChars : Nat

structure ToolDispatcher (W : Type) where
  ha : Option (HomeProvider W)
  toolPolicy : ToolPolicyConfig
  actuationSafety : ActuationSafetyConfig
  /-- The n-th reading of the clock. -/
  clock : Nat → Nat
  /-- The random bytes of the n-th token. -/
  entropy : Nat → Vector UInt8 16
  confirmationOrder : Nat → HashOrder PendingConfirmation
  gateOrder : Nat → HashOrder Nat
  floatText : F64 → String
  displayF64 : F64 → String
  hasher : String → BitVec 64
  otherTool : String → Json → ToolExecutionContext → Option MemoryStore → W →
    Except String String × Option MemoryStore × W

structure DispatcherState (W : Type) where
  world : W
  memory : Option MemoryStore := none
  confirmations : ConfirmationState := {}
  actionLedger : ActionLedgerState := {}
  actuationAttempts : HashTable RequestOrigin (List Nat) := ∅
  toolAttempts : HashTable String (List Nat) := ∅
  toolConfirmations : HashTable String Nat := ∅
  auditLog : Option (List AuditEvent) := none
  toolAuditLog : Option (List ToolAuditEvent) := none
  /-- Clock readings taken so far. -/
  reads : Nat := 0
  /-- Tokens drawn so far. -/
  drawn : Nat := 0

/-! ## Access control -/

def actuationOriginAllowed (config : ActuationSafetyConfig) (origin : RequestOrigin) : Bool :=
  config.allowedOrigins.any fun allowed => eqIgnoreAsciiCase (trim allowed) origin.asPolicyKey

def originToolList (rules : HashTable String (List String)) (originKey : String) :
    Option (List String) :=
  (rules.lookup originKey).or (rules.lookup "*")

def toolMatches (tools : List String) (toolName : String) : Bool :=
  tools.any fun tool => tool == "*" || tool == toolName

def toolListContains (rules : HashTable String (List String)) (originKey toolName : String) :
    Bool :=
  ((originToolList rules originKey).map fun tools => toolMatches tools toolName).getD false

def toolOriginAllowed (policy : ToolPolicyConfig) (origin : RequestOrigin) (toolName : String) :
    Except String Unit :=
  if policy.enabled = false then .ok ()
  else
    let originKey := origin.asPolicyKey
    if toolListContains policy.deniedToolsByOrigin originKey toolName then
      .error ("tool '" ++ toolName ++ "' is denied for origin '" ++ originKey ++ "'")
    else match originToolList policy.allowedToolsByOrigin originKey with
      | some allowed =>
        if toolMatches allowed toolName then .ok ()
        else .error ("tool '" ++ toolName ++ "' is not in the allowlist for origin '" ++
          originKey ++ "'")
      | none => .ok ()

def toolArgumentKeys (args : Json) : List String :=
  args.keys.insertionSort fun a b => a ≤ b

namespace ToolDispatcher

variable {W : Type} (d : ToolDispatcher W)

/-! ## The clock and the logs -/

def nowMs (s : DispatcherState W) : Nat × DispatcherState W :=
  (d.clock s.reads, { s with reads := s.reads + 1 })

def appendAudit (event : AuditEvent) (s : DispatcherState W) : DispatcherState W :=
  { s with auditLog := s.auditLog.map fun log => log ++ [event] }

def auditGateDecision (call : ToolCall) (execCtx : ToolExecutionContext) (result : ToolResult)
    (decision : GateDecision) (s : DispatcherState W) : DispatcherState W :=
  let (tsMs, s) := d.nowMs s
  let event : ToolAuditEvent :=
    { tsMs, tool := call.name, actionClass := result.actionClass,
      origin := execCtx.requestOrigin, success := result.success, decision := decision.asStr,
      argumentKeys := toolArgumentKeys call.arguments, outputChars := result.output.length }
  { s with toolAuditLog := s.toolAuditLog.map fun log => log ++ [event] }

/-! ## The limiters -/

/-- `ActuationRateLimiter::check_and_record`; a success returns the reading it was admitted
at. -/
def chargeActuation (origin : RequestOrigin) (s : DispatcherState W) :
    Except String Nat × DispatcherState W :=
  let limit := actuationRateLimit d.actuationSafety origin
  if limit = 0 then
    (.error ("actuation from '" ++ origin.asPolicyKey ++
      "' is rate-limited to zero actions per minute"), s)
  else
    let (now, s) := d.nowMs s
    let (admitted, attempts) := attempt origin limit now s.actuationAttempts
    let s := { s with actuationAttempts := attempts }
    if admitted then (.ok now, s)
    else (.error ("actuation from '" ++ origin.asPolicyKey ++ "' exceeded " ++
      countNoun limit "action" "actions" ++ " per minute"), s)

/-- `ToolRateLimiter::check_and_record`. -/
def chargeTool (tool : String) (s : DispatcherState W) : Except String Unit × DispatcherState W :=
  match toolRateLimit d.toolPolicy tool with
  | none => (.ok (), s)
  | some limit =>
    if limit = 0 then
      (.error ("tool '" ++ tool ++ "' is rate-limited to zero calls per minute"), s)
    else
      let (now, s) := d.nowMs s
      let (admitted, attempts) := attempt tool limit now s.toolAttempts
      let s := { s with toolAttempts := attempts }
      if admitted then (.ok (), s)
      else (.error ("tool '" ++ tool ++ "' exceeded " ++ countNoun limit "call" "calls" ++
        " per minute"), s)

/-! ## The gate -/

/-- The refusal of a call, written to the tool audit. -/
def refuse (call : ToolCall) (execCtx : ToolExecutionContext) (success : Bool) (output : String)
    (decision : GateDecision) (s : DispatcherState W) : Option ToolResult × DispatcherState W :=
  let result : ToolResult :=
    { tool := call.name, actionClass := toolActionClass call.name, success, output }
  (some result, d.auditGateDecision call execCtx result decision s)

/-- The confirmation step of the gate. -/
def confirmGate (call : ToolCall) (execCtx : ToolExecutionContext) (s : DispatcherState W) :
    Option ToolResult × DispatcherState W :=
  if toolRequiresConfirmation d.toolPolicy call.name then
    let order := d.gateOrder s.reads
    let (now, s) := d.nowMs s
    let (decision, pending) := evaluate d.floatText d.hasher order execCtx.requestOrigin call.name
      call.arguments (confirmationTtlMs d.toolPolicy) execCtx.confirmed now s.toolConfirmations
    let s := { s with toolConfirmations := pending }
    match decision with
    | .pending token =>
      d.refuse call execCtx true ("Confirmation required before I run '" ++ call.name ++
        "'. Re-issue the same request within " ++ d.toolPolicy.confirmationTtlSecs.repr ++
        "s to proceed (confirmation token " ++ token ++ ").") .pendingConfirmation s
    | .expired =>
      d.refuse call execCtx false ("Confirmation for '" ++ call.name ++
        "' expired or was never requested; the " ++ d.toolPolicy.confirmationTtlSecs.repr ++
        "s window elapsed. Request it again to restart confirmation.") .confirmationExpired s
    | .confirmed => (none, s)
  else (none, s)

/-- The rate limit of the gate; confirmed calls are not charged. -/
def rateGate (call : ToolCall) (execCtx : ToolExecutionContext) (s : DispatcherState W) :
    Option ToolResult × DispatcherState W :=
  if execCtx.confirmed then (none, s)
  else match d.chargeTool call.name s with
    | (.ok (), s) => (none, s)
    | (.error err, s) =>
      d.refuse call execCtx false ("Tool blocked by rate limit: " ++ err) .rateLimited s

/-- The refusal of the gate, or `none` when the call may proceed. -/
def runGate (call : ToolCall) (execCtx : ToolExecutionContext) (s : DispatcherState W) :
    Option ToolResult × DispatcherState W :=
  match toolOriginAllowed d.toolPolicy execCtx.requestOrigin call.name with
  | .error err =>
    d.refuse call execCtx false ("Tool blocked by origin policy: " ++ err) .deniedPolicy s
  | .ok () =>
    match d.confirmGate call execCtx s with
    | (some refusal, s) => (some refusal, s)
    | (none, s) => d.rateGate call execCtx s

end ToolDispatcher

end GenieClaw.Dispatch
