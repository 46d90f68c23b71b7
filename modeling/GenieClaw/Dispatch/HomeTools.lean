import GenieClaw.Dispatch.Dispatcher

/-!
# The home tools

`tools/dispatch/home.rs`. `execHomeControlInner` runs in four phases, each under the
words of its part of the source: the request is admitted, the state to restore is
captured, the home is controlled and the outcome is settled in ledger, confirmations and
audit log. Besides its answer a call reports its `Effects`: what an observer of the
limiter, the provider, the ledger and the confirmation table sees of it.
-/

namespace GenieClaw.Dispatch

open Library Library.Text Actuation Home Memory

def tooManyPendingConfirmations : String :=
  "Too many pending home confirmations; confirm or wait for existing ones to expire before " ++
    "requesting another."

def formatUndoOutput (output : String) : String :=
  if output.startsWith "Confirmation required" || output == tooManyPendingConfirmations then output
  else "Undid the last home action. " ++ output

/-- The string argument `entity`, trimmed, unless it is empty. -/
def entityArgument (args : Json) : Option String :=
  (((args.get "entity").bind Json.asStr).map trim).filter fun value => !value.toList.isEmpty

def parseHomeControlArgs (args : Json) : Except String (String × String × Option F64) :=
  match entityArgument args with
  | none => .error "home_control requires non-empty string argument 'entity'"
  | some entity =>
    match (args.get "action").bind Json.asStr with
    | none => .error "home_control requires string argument 'action'"
    | some rawAction =>
      match canonHomeControlAction rawAction with
      | none =>
        .error ("home_control action '" ++ rawAction ++ "' is invalid; expected one of: " ++
          joinWith ", " homeControlActions)
      | some action =>
        let value : Except String (Option F64) := match args.get "value" with
          | none => .ok none
          | some .null => .ok none
          | some provided =>
            match provided.asF64 with
            | some value => .ok (some value)
            | none => .error "home_control 'value' must be a number when provided"
        match value with
        | .error e => .error e
        | .ok value =>
          if value.isNone && actionRequiresValue action then
            .error ("home_control '" ++ action ++ "' requires a numeric argument 'value'")
          else .ok (entity, action, value)

def parseHomeStatusArgs (args : Json) : Except String String :=
  match entityArgument args with
  | none => .error "home_status requires non-empty string argument 'entity'"
  | some entity => .ok entity

/-- A request that passed the channel policy and the rate limit. -/
structure HomeRequest where
  entity : String
  action : String
  value : Option F64
deriving DecidableEq

/-- One call of the provider's `execute`. -/
structure Performance where
  entity : String
  action : HomeAction
  origin : RequestOrigin
  confirmed : Bool
  undoOf : Option Nat

structure Effects where
  /-- The reading at which the actuation limiter admitted the request. -/
  charged : Option Nat := none
  performed : Option Performance := none
  recorded : Option RecordedAction := none
  issued : Option PendingConfirmation := none

/-- What a dispatch reports besides its result: also whether the gate let the call through,
with the reading of its audit line. -/
structure DispatchEffects extends Effects where
  entered : Option Nat := none

namespace ToolDispatcher

variable {W : Type} (d : ToolDispatcher W)

/-- An audit line about a request that was not executed. -/
def auditRequest (status : AuditStatus) (origin : RequestOrigin) (request : HomeRequest)
    (reason : String) (token : Option String) (s : DispatcherState W) : DispatcherState W :=
  let (tsMs, s) := d.nowMs s
  appendAudit
    { tsMs, status, origin, entity := request.entity, action := request.action,
      value := request.value, reason, token, confidence := none, actionId := none, undoOf := none,
      undoRestore := none } s

/-! ## The phases of `exec_home_control_inner` -/

/-- Arguments, alias, channel policy and rate limit; with the reading a charge was made
at. -/
def admitRequest (args : Json) (execCtx : ToolExecutionContext) (s : DispatcherState W) :
    Except String HomeRequest × Option Nat × DispatcherState W :=
  match parseHomeControlArgs args with
  | .error e => (.error e, none, s)
  | .ok (entityName, action, value) =>
    let request : HomeRequest := { entity := resolveDeviceAlias s.memory entityName, action, value }
    let origin := execCtx.requestOrigin
    if actuationOriginAllowed d.actuationSafety origin = false then
      let reason := "actuation from '" ++ origin.asPolicyKey ++
        "' is not allowed by channel policy"
      (.error ("Home action blocked by channel policy: " ++ reason), none,
        d.auditRequest .blockedPolicy origin request reason none s)
    else if execCtx.confirmed then (.ok request, none, s)
    else match d.chargeActuation origin s with
      | (.ok now, s) => (.ok request, some now, s)
      | (.error reason, s) =>
        (.error ("Home action blocked by rate limit: " ++ reason), none,
          d.auditRequest .blockedRuntime origin request reason none s)

/-- The state to restore, for the actions whose inverse depends on it. -/
def captureUndoRestore (home : HomeProvider W) (request : HomeRequest) (undoOf : Option Nat)
    (s : DispatcherState W) : Option UndoRestore × DispatcherState W :=
  if undoOf.isSome then (none, s)
  else if request.action = "set_brightness" ∨ request.action = "set_temperature" ∨
      request.action = "toggle" then
    match homeActionKind request.action with
    | .error _ => (none, s)
    | .ok kind =>
      match home.resolveTarget request.entity (some kind) s.world with
      | (.error _, w) => (none, { s with world := w })
      | (.ok target, w) =>
        match home.getState target w with
        | (.error _, w) => (none, { s with world := w })
        | (.ok prior, w) => (undoRestoreFromPrior request.action prior, { s with world := w })
  else (none, s)

/-- `home::control` at the present state of the home. -/
def controlHome (home : HomeProvider W) (request : HomeRequest) (execCtx : ToolExecutionContext)
    (s : DispatcherState W) :
    Except String ControlOutcome × Option HomeAction × DispatcherState W :=
  let (outcome, performed, w) := control home request.entity request.action request.value
    d.actuationSafety execCtx.requestOrigin execCtx.confirmed s.world
  (outcome, performed, { s with world := w })

/-- The record of an executed action and its audit line. -/
def settleExecuted (request : HomeRequest) (execCtx : ToolExecutionContext) (undoOf : Option Nat)
    (undoRestore : Option UndoRestore) (output : String) (confidence : Option F32)
    (s : DispatcherState W) : RecordedAction × DispatcherState W :=
  let (executedMs, s) := d.nowMs s
  let (recorded, ledger) := match undoOf with
    | some originalId =>
      s.actionLedger.recordUndo originalId request.entity request.action request.value
        execCtx.requestOrigin output confidence none executedMs
    | none =>
      s.actionLedger.record request.entity request.action request.value execCtx.requestOrigin
        output confidence undoRestore executedMs
  let s := { s with actionLedger := ledger }
  let (tsMs, s) := d.nowMs s
  (recorded, appendAudit
    { tsMs, status := .executed, origin := execCtx.requestOrigin, entity := request.entity,
      action := request.action, value := request.value, reason := "home action executed",
      token := none, confidence, actionId := some recorded.id, undoOf := recorded.undoOf,
      undoRestore := recorded.undoRestore } s)

/-- `ConfirmationManager::issue`: one reading for the sweep, and for a new entry another
one and 16 random bytes. -/
def issueConfirmation (request : HomeRequest) (reason : String) (origin : RequestOrigin)
    (s : DispatcherState W) : Option PendingConfirmation × DispatcherState W :=
  let (sweptMs, s) := d.nowMs s
  match s.confirmations.issue sweptMs (d.clock s.reads) (d.entropy s.drawn) request.entity
      request.action request.value reason origin with
  | (none, confirmations) => (none, { s with confirmations })
  | (some pending, confirmations) =>
    (some pending, { s with confirmations, reads := s.reads + 1, drawn := s.drawn + 1 })

/-- A pending confirmation for the request, or the text that says there are too many. -/
def settleConfirmation (request : HomeRequest) (execCtx : ToolExecutionContext) (reason : String)
    (s : DispatcherState W) : String × Option PendingConfirmation × DispatcherState W :=
  match d.issueConfirmation request reason execCtx.requestOrigin s with
  | (none, s) => (tooManyPendingConfirmations, none, s)
  | (some pending, s) =>
    ("Confirmation required before I can do that: " ++ reason ++ ". Confirm this pending " ++
        "action from the local dashboard (or POST /api/actuation/confirm with its token from " ++
        "/api/actuation/pending).", some pending,
      d.auditRequest .confirmationIssued execCtx.requestOrigin request reason (some pending.token)
        s)

def failureStatus (error : String) : AuditStatus :=
  if containsText error "local policy" then .blockedPolicy
  else if containsText error "runtime safety" then .blockedRuntime
  else .failed

def settle (request : HomeRequest) (execCtx : ToolExecutionContext) (undoOf : Option Nat)
    (undoRestore : Option UndoRestore) (outcome : Except String ControlOutcome)
    (s : DispatcherState W) :
    Except String String × Option RecordedAction × Option PendingConfirmation ×
      DispatcherState W :=
  match outcome with
  | .ok (.executed output confidence) =>
    let (recorded, s) := d.settleExecuted request execCtx undoOf undoRestore output confidence s
    (.ok output, some recorded, none, s)
  | .ok (.confirmationRequired reason _) =>
    let (answer, pending, s) := d.settleConfirmation request execCtx reason s
    (.ok answer, none, pending, s)
  | .error error =>
    (.error error, none, none,
      d.auditRequest (failureStatus error) execCtx.requestOrigin request error none s)

/-! ## The tools -/

def execHomeControlInner (args : Json) (execCtx : ToolExecutionContext) (undoOf : Option Nat)
    (s : DispatcherState W) : Except String String × Effects × DispatcherState W :=
  match d.ha with
  | none => (.error "Home Assistant not connected", {}, s)
  | some home =>
    match d.admitRequest args execCtx s with
    | (.error e, charged, s) => (.error e, { charged }, s)
    | (.ok request, charged, s) =>
      let (undoRestore, s) := captureUndoRestore home request undoOf s
      let (outcome, action, s) := d.controlHome home request execCtx s
      let performed := action.map fun action =>
        { entity := request.entity, action, origin := execCtx.requestOrigin,
          confirmed := execCtx.confirmed, undoOf }
      let (answer, recorded, issued, s) := d.settle request execCtx undoOf undoRestore outcome s
      (answer, { charged, performed, recorded, issued }, s)

def execHomeControl (args : Json) (execCtx : ToolExecutionContext) (s : DispatcherState W) :
    Except String String × Effects × DispatcherState W :=
  d.execHomeControlInner args execCtx none s

/-- The action `home_undo` would undo, with the arguments that undo it. -/
def undoTarget (ledger : ActionLedgerState) : Option (RecordedAction × Json) :=
  ledger.lastUndoable.bind fun action => (undoHomeControlArgs action).map fun args => (action, args)

def execHomeUndo (execCtx : ToolExecutionContext) (s : DispatcherState W) :
    Except String String × Effects × DispatcherState W :=
  match undoTarget s.actionLedger with
  | none => (.error "No recent reversible home action to undo.", {}, s)
  | some (action, args) =>
    let (answer, effects, s) := d.execHomeControlInner args execCtx (some action.id) s
    (answer.map formatUndoOutput, effects, s)

def pendingConfirmations (s : DispatcherState W) : List PendingConfirmation × DispatcherState W :=
  let order := d.confirmationOrder s.reads
  let (now, s) := d.nowMs s
  let (items, confirmations) := s.confirmations.list order now
  (items, { s with confirmations })

def execActionHistory (s : DispatcherState W) : String × DispatcherState W :=
  let (pending, s) := d.pendingConfirmations s
  let actions := s.actionLedger.list
  if actions.isEmpty && pending.isEmpty then
    ("No recent home actions or pending confirmations.", s)
  else
    let actionLines := if actions.isEmpty then [] else
      "Recent home actions:" :: (actions.take 5).map fun action =>
        "- " ++ action.action ++ " " ++ action.entity ++ " via " ++ action.origin.debugName ++
          ";" ++ action.actionHistoryUndoHint d.displayF64
    let pendingLines := if pending.isEmpty then [] else
      "Pending confirmations:" :: (pending.take 5).map fun item =>
        "- " ++ item.action ++ " " ++ item.entity ++ " requested by " ++
          item.requestedBy.debugName ++ ": " ++ item.reason
    (joinWith "\n" (actionLines ++ pendingLines), s)

def execHomeStatus (args : Json) (s : DispatcherState W) :
    Except String String × DispatcherState W :=
  match d.ha with
  | none => (.error "Home Assistant not connected", s)
  | some home =>
    match parseHomeStatusArgs args with
    | .error e => (.error e, s)
    | .ok entityName =>
      let (answer, w) := status home (resolveDeviceAlias s.memory entityName) s.world
      (answer, { s with world := w })

/-- The body of a tool that passed the gate. -/
def execTool (call : ToolCall) (execCtx : ToolExecutionContext) (s : DispatcherState W) :
    Except String String × Effects × DispatcherState W :=
  match call.name with
  | "home_control" => d.execHomeControl call.arguments execCtx s
  | "home_status" =>
    let (answer, s) := d.execHomeStatus call.arguments s
    (answer, {}, s)
  | "home_undo" => d.execHomeUndo execCtx s
  | "action_history" =>
    let (answer, s) := d.execActionHistory s
    (.ok answer, {}, s)
  | other =>
    let (answer, memory, w) := d.otherTool other call.arguments execCtx s.memory s.world
    (answer, {}, { s with memory, world := w })

def executeWithContext (call : ToolCall) (execCtx : ToolExecutionContext)
    (s : DispatcherState W) : ToolResult × DispatchEffects × DispatcherState W :=
  match d.runGate call execCtx s with
  | (some rejected, s) => (rejected, {}, s)
  | (none, s) =>
    let (answer, effects, s) := d.execTool call execCtx s
    let actionClass := toolActionClass call.name
    let (result, decision) : ToolResult × GateDecision := match answer with
      | .ok output => (⟨call.name, actionClass, true, output⟩, .executed)
      | .error e => (⟨call.name, actionClass, false, e⟩, .error)
    (result, { effects with entered := some (d.clock s.reads) },
      d.auditGateDecision call execCtx result decision s)

/-- The `home_control` call a pending action is rebuilt to. -/
def pendingCall (pending : PendingConfirmation) : ToolCall where
  name := "home_control"
  arguments := .object
    [("action", .string pending.action), ("entity", .string pending.entity),
      ("value", Json.ofOptionF64 pending.value)]

/-- `confirm_pending_home_action`; the pending action that was taken is part of the
answer. -/
def confirmPendingHomeAction (token : String) (s : DispatcherState W) :
    Except String String × Option PendingConfirmation × DispatchEffects × DispatcherState W :=
  let (now, s) := d.nowMs s
  match s.confirmations.confirm now token with
  | (none, confirmations) =>
    (.error "unknown or expired confirmation token", none, {}, { s with confirmations })
  | (some pending, confirmations) =>
    let (result, effects, s) := d.executeWithContext (pendingCall pending)
      { requestOrigin := pending.requestedBy, confirmed := true } { s with confirmations }
    (if result.success then .ok result.output else .error result.output, some pending, effects, s)

end ToolDispatcher

end GenieClaw.Dispatch
