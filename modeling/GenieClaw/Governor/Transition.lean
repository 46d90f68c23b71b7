import GenieClaw.Governor.ServiceCtl
import GenieClaw.Library.Machine

/-!
# Mode transitions

`transition`, `apply_llm_swaps` and `rollback_transition` of `genie-governor/src/governor.rs`,
over any mode table. A transition that fails says which of its steps failed; the source
hands on the text alone.
-/

namespace GenieClaw.Governor

open Library

variable {systemd : Systemd}

structure StoppedService where
  serviceAlias : String
  unit : String
deriving DecidableEq

namespace ModeTable

variable (table : ModeTable)

def changesLlmWeights (source target : Mode) : Bool :=
  match table.llmModel source, table.llmModel target with
  | some sourceModel, some targetModel => sourceModel != targetModel
  | some _, none | none, some _ => true
  | none, none => false

def llmModelForTransition (source target : Mode) : Option String :=
  if target = .media then none
  else if table.changesLlmWeights source target then table.llmModel target
  else none

def serviceAliasesToRestore (source : Mode) (stopped : List StoppedService) : List String :=
  (stopped.map StoppedService.serviceAlias).filter (· ∈ table.requiredServices source)

end ModeTable

inductive MediaMarkerRollback where
  | restore
  | remove
  | unchanged
deriving DecidableEq

def mediaMarkerRollbackAction (source target : Mode) : MediaMarkerRollback :=
  match decide (source = .media), decide (target = .media) with
  | true, false => .restore
  | false, true => .remove
  | _, _ => .unchanged

inductive LlmRollback where
  | restoreModel (model : String)
  | stopService
  | unchanged
deriving DecidableEq

def llmRollbackAction (table : ModeTable) (source target : Mode) : LlmRollback :=
  if table.changesLlmWeights source target then
    match table.llmModel source with
    | some model => .restoreModel model
    | none => .stopService
  else .unchanged

def modelPath (model : String) : String := "/opt/geniepod/models/" ++ model

section Steps

variable (table : ModeTable) (config : Config)

/-- The first loop of a transition. -/
def stopServices : List String → List StoppedService → Host systemd →
    Except String (List StoppedService) × Host systemd
  | [], stopped, h => (.ok stopped, h)
  | serviceAlias :: rest, stopped, h =>
    match config.serviceUnitForAlias serviceAlias with
    | none => stopServices rest stopped h
    | some unit =>
      match ServiceCtl.isActive unit h with
      | (false, h) => stopServices rest stopped h
      | (true, h) =>
        match ServiceCtl.stop unit h with
        | (.error e, h) => (.error e, h)
        | (.ok (), h) => stopServices rest (stopped ++ [⟨serviceAlias, unit⟩]) h

def applyLlmSwaps (source target : Mode) (stopped : List StoppedService) (h : Host systemd) :
    Except String Unit × List StoppedService × Host systemd :=
  let unit := config.llmServiceUnit
  if target = .media then
    match ServiceCtl.isActive unit h with
    | (false, h) => (.ok (), stopped, h)
    | (true, h) =>
      match ServiceCtl.stop unit h with
      | (.error e, h) => (.error e, stopped, h)
      | (.ok (), h) => (.ok (), stopped ++ [⟨"llm", unit⟩], h)
  else
    match table.llmModelForTransition source target with
    | none => (.ok (), stopped, h)
    | some model =>
      let (result, h) := ServiceCtl.swapLlmModel unit (modelPath model) h
      (result, stopped, h)

/-- The second loop; a failure comes with the unit that did not start. -/
def startServices : List String → List String → Host systemd →
    Except (String × String) Unit × List String × Host systemd
  | [], started, h => (.ok (), started, h)
  | serviceAlias :: rest, started, h =>
    match config.serviceUnitForAlias serviceAlias with
    | none => startServices rest started h
    | some unit =>
      match ServiceCtl.isActive unit h with
      | (true, h) => startServices rest started h
      | (false, h) =>
        match ServiceCtl.start unit h with
        | (.error e, h) => (.error (unit, e), started, h)
        | (.ok (), h) => startServices rest (started ++ [unit]) h

/-! ## Rollback -/

/-- A step of the rollback that fails is logged, and the rollback goes on. -/
def logged : Except String Unit × Host systemd → Host systemd
  | (.ok (), h) => h
  | (.error e, h) => h.logRollbackError e

def rollbackStops (started : List String) (h : Host systemd) : Host systemd :=
  started.reverse.foldl (fun h unit => logged (ServiceCtl.stop unit h)) h

def rollbackStarts (aliases : List String) (h : Host systemd) : Host systemd :=
  aliases.foldl (fun h serviceAlias =>
    match config.serviceUnitForAlias serviceAlias with
    | none => h
    | some unit => logged (ServiceCtl.start unit h)) h

def rollbackMarker (source target : Mode) (h : Host systemd) : Host systemd :=
  match mediaMarkerRollbackAction source target with
  | .restore =>
    match h.createRunDir with
    | (.error e, h) => h.logRollbackError e
    | (.ok (), h) => logged h.writeMarker
  | .remove =>
    match h.removeMarker with
    | (.error (.other e), h) => h.logRollbackError e
    | (_, h) => h
  | .unchanged => h

def rollbackLlm (source target : Mode) (h : Host systemd) : Host systemd :=
  let unit := config.llmServiceUnit
  match llmRollbackAction table source target with
  | .restoreModel model => logged (ServiceCtl.swapLlmModel unit (modelPath model) h)
  | .stopService =>
    match ServiceCtl.isActive unit h with
    | (true, h) => logged (ServiceCtl.stop unit h)
    | (false, h) => h
  | .unchanged => h

def rollbackTransition (source target : Mode) (stopped : List StoppedService)
    (started : List String) (h : Host systemd) : Host systemd :=
  rollbackLlm table config source target
    (rollbackMarker source target
      (rollbackStarts config (table.serviceAliasesToRestore source stopped)
        (rollbackStops started h)))

end Steps

/-! ## The transition -/

structure GovernorState where
  currentMode : Mode := .day
  zramEnabled : Bool := false
  pruneCounter : Nat := 0
  lastMemAvailMb : Option Nat := none
deriving DecidableEq

inductive TransitionError where
  | stop (error : String)
  | swap (error : String)
  | start (unit : String) (error : String)
  | record (error : String)
deriving DecidableEq

def TransitionError.text : TransitionError → String
  | stop error | swap error | start _ error | record error => error

def transitionRow (tsMs : Nat) (source target : Mode) : TransitionRow :=
  ⟨tsMs, source.display, target.display, source.display ++ " -> " ++ target.display⟩

def transition (table : ModeTable) (config : Config) (tsMs : Nat) (target : Mode)
    (gov : GovernorState) (h : Host systemd) :
    Except TransitionError Unit × GovernorState × Host systemd :=
  let source := gov.currentMode
  if target = source then (.ok (), gov, h)
  else
    match stopServices config (table.stoppedServices target) [] h with
    | (.error e, h) => (.error (.stop e), gov, h)
    | (.ok stopped, h) =>
      match applyLlmSwaps table config source target stopped h with
      | (.error e, stopped, h) =>
        (.error (.swap e), gov, rollbackTransition table config source target stopped [] h)
      | (.ok (), stopped, h) =>
        let h := if source = .media then h.removeMarker.2 else h
        match startServices config (table.requiredServices target) [] h with
        | (.error (unit, e), started, h) =>
          (.error (.start unit e), gov,
            rollbackTransition table config source target stopped started h)
        | (.ok (), _, h) =>
          match h.insertTransition (transitionRow tsMs source target) with
          | (.error e, h) => (.error (.record e), gov, h)
          | (.ok (), h) => (.ok (), { gov with currentMode := target }, h)

/-!
## The governor's loop

`tick` and `handle_command` of `genie-governor/src/governor.rs`. The loop takes one of them at
a time. Each step reads the memory and the clock at most once, so a step comes with what it
would read. A step reports whether it tried to change the mode and what came of that; the
uptime in the answer to `status` is left out.
-/

inductive Command where
  | setMode (mode : Mode)
  | mediaStart
  | mediaStop
  | status
deriving DecidableEq

inductive Request where
  | tick
  | command (command : Command)
deriving DecidableEq

structure Input where
  request : Request
  tsMs : Nat := 0
  /-- What `/proc/meminfo` says, when it can be read. -/
  memAvailMb : Option Nat := none
  hour : Nat := 0

inductive Response where
  | ok (mode : Mode)
  | error (text : String)
  | status (mode : Mode) (memAvailableMb : Option Nat)
  /-- A tick answers nobody; its error is logged. -/
  | ticked (result : Except String Unit)
deriving DecidableEq

structure Report where
  response : Response
  /-- The outcome of the transition, unless the target was the current mode. -/
  change : Option (Except TransitionError Unit) := none
deriving DecidableEq

section

variable (config : Config)

def readMemAvailMb (reading : Option Nat) (gov : GovernorState) : Option Nat × GovernorState :=
  match reading with
  | some mb => (some mb, { gov with lastMemAvailMb := some mb })
  | none => (gov.lastMemAvailMb, gov)

def isNight (config : GovernorConfig) (hour : Nat) : Bool :=
  if config.nightStartHour > config.dayStartHour then
    decide (config.nightStartHour ≤ hour) || decide (hour < config.dayStartHour)
  else decide (config.nightStartHour ≤ hour) && decide (hour < config.dayStartHour)

def timeBasedMode (hour : Nat) : Mode :=
  if isNight config.governor hour then
    if config.governor.nightModelSwap then .nightB else .nightA
  else .day

/-- Pressure comes before media, and media before the time of day. A level that is not known
holds the current mode. -/
def determineMode (gov : GovernorState) (memAvailMb : Option Nat) (mediaActive : Bool)
    (hour : Nat) : Mode :=
  match memAvailMb with
  | none => gov.currentMode
  | some mb =>
    if mb < config.governor.pressure.stopOptinsMb then .pressure
    else if mediaActive then .media
    else timeBasedMode config hour

def determineModeAfterMedia (gov : GovernorState) (memAvailMb : Option Nat) (hour : Nat) : Mode :=
  match memAvailMb with
  | some mb =>
    if mb < config.governor.pressure.stopOptinsMb then .pressure else timeBasedMode config hour
  | none => if gov.currentMode = .pressure then .pressure else timeBasedMode config hour

/-- The change that a call of `transition` makes or fails to make. -/
def changeOf (gov : GovernorState) (target : Mode) (result : Except TransitionError Unit) :
    Option (Except TransitionError Unit) :=
  if target = gov.currentMode then none else some result

def stopOptIn (container : String) (h : Host systemd) : Host systemd :=
  if config.managesServiceAlias container then (ServiceCtl.dockerStop container h).2 else h

def stopOptIns (memAvailMb : Nat) (h : Host systemd) : Host systemd :=
  if memAvailMb < config.governor.pressure.stopOptinsMb then
    stopOptIn config "jellyfin" (stopOptIn config "nextcloud" h)
  else h

def handlePressure (memAvailMb : Nat) (gov : GovernorState) (h : Host systemd) :
    Except String Unit × GovernorState × Host systemd :=
  if memAvailMb < config.governor.pressure.zramMb ∧ ¬ gov.zramEnabled then
    match ServiceCtl.enableZram h with
    | (.error e, h) => (.error e, gov, h)
    | (.ok (), h) => (.ok (), { gov with zramEnabled := true }, stopOptIns config memAvailMb h)
  else (.ok (), gov, stopOptIns config memAvailMb h)

/-- Once an hour the history is pruned, and the outcome of that is not looked at. -/
def countPrune (gov : GovernorState) : GovernorState :=
  if 720 ≤ gov.pruneCounter + 1 then { gov with pruneCounter := 0 }
  else { gov with pruneCounter := gov.pruneCounter + 1 }

/-- The part of a tick that follows the transition. -/
def tickRest (memAvailMb : Option Nat) (gov : GovernorState) (h : Host systemd) :
    Except String Unit × GovernorState × Host systemd :=
  match memAvailMb with
  | none => (.ok (), countPrune gov, h)
  | some mb =>
    match handlePressure config mb gov h with
    | (.error e, gov, h) => (.error e, gov, h)
    | (.ok (), gov, h) => (.ok (), countPrune gov, h)

def tick (input : Input) (gov : GovernorState) (h : Host systemd) :
    Report × GovernorState × Host systemd :=
  let (memAvail, gov) := readMemAvailMb input.memAvailMb gov
  let target := determineMode config gov memAvail h.mediaMarker input.hour
  if target ≠ gov.currentMode then
    match transition modeTable config input.tsMs target gov h with
    | (.error e, gov, h) => (⟨.ticked (.error e.text), some (.error e)⟩, gov, h)
    | (.ok (), gov, h) =>
      let (result, gov, h) := tickRest config memAvail gov h
      (⟨.ticked result, some (.ok ())⟩, gov, h)
  else
    let (result, gov, h) := tickRest config memAvail gov h
    (⟨.ticked result, none⟩, gov, h)

/-- A transition on command, with its answer. -/
def changeMode (tsMs : Nat) (target : Mode) (gov : GovernorState) (h : Host systemd) :
    Report × GovernorState × Host systemd :=
  let (result, gov', h') := transition modeTable config tsMs target gov h
  let response := match result with
    | .ok () => .ok target
    | .error e => .error e.text
  (⟨response, changeOf gov target result⟩, gov', h')

def handleCommand (input : Input) (gov : GovernorState) (h : Host systemd) :
    Command → Report × GovernorState × Host systemd
  | .setMode mode => changeMode config input.tsMs mode gov h
  | .mediaStart =>
    match h.createRunDir with
    | (.error e, h) => (⟨.error e, none⟩, gov, h)
    | (.ok (), h) =>
      match h.writeMarker with
      | (.error e, h) => (⟨.error e, none⟩, gov, h)
      | (.ok (), h) => changeMode config input.tsMs .media gov h
  | .mediaStop =>
    let (memAvail, gov) := readMemAvailMb input.memAvailMb gov
    match h.removeMarker with
    | (.error (.other e), h) => (⟨.error e, none⟩, gov, h)
    | (_, h) =>
      changeMode config input.tsMs (determineModeAfterMedia config gov memAvail input.hour) gov h
  | .status =>
    let (memAvail, gov) := readMemAvailMb input.memAvailMb gov
    (⟨.status gov.currentMode memAvail, none⟩, gov, h)

/-- The loop as a machine over the governor and its host. -/
def machine : Machine (GovernorState × Host systemd) Input Report where
  step s input :=
    match input.request with
    | .tick => tick config input s.1 s.2
    | .command command => handleCommand config input s.1 s.2 command

end

end GenieClaw.Governor
