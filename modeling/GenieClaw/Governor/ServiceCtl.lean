import GenieClaw.Library.Text
import Mathlib.Logic.Function.Basic

/-!
# Control of services

`genie-governor/src/service_ctl.rs` and the other calls by which the governor acts on its
host: the media marker and the history of transitions. The host carries what its next calls
will meet. A call may fail, and then its effect may be there, be half there or not be there
at all; a probe may go unanswered. A list that has run out means that all is well.

* `Systemd.Independent`: the assumption on systemd, that a start or a stop of one unit moves no
  other. Dependencies and conflicts between the units of the host are left out by it.
* `start_spec`, `stop_spec`, `swapLlmModel_spec`: what a start, a stop and a swap of the model
  leave.
-/

namespace GenieClaw.Governor

open Library

/-!
## Operating modes

`genie-common/src/mode.rs` with the part of the configuration that the governor reads. The
three tables of a mode are gathered in a `ModeTable`, so that what holds of the governor
for whatever its tables say can be told from what hangs on the entries of `modeTable`.
-/

inductive Mode where
  | day
  | nightA
  | nightB
  | media
  | pressure
deriving DecidableEq, Repr

namespace Mode

/-- The `Display` text, which the history of transitions keeps. -/
def display : Mode → String
  | day => "day"
  | nightA => "night_a"
  | nightB => "night_b"
  | media => "media"
  | pressure => "pressure"

def requiredServices : Mode → List String
  | day | nightA => ["genie-wakeword", "genie-core", "llm", "genie-mqtt", "homeassistant"]
  | nightB => ["genie-wakeword", "genie-core", "llm", "genie-mqtt"]
  | media => ["genie-wakeword", "genie-core", "genie-mqtt"]
  | pressure => ["genie-wakeword", "genie-core", "llm", "genie-mqtt"]

def stoppedServices : Mode → List String
  | day | nightA => []
  | nightB => ["homeassistant", "nextcloud", "jellyfin"]
  | media => ["llm", "nextcloud", "jellyfin"]
  | pressure => ["nextcloud", "jellyfin"]

def llmModel : Mode → Option String
  | day | nightA | pressure => some "nemotron-4b-q4_k_m.gguf"
  | nightB => some "nemotron-9b-q4.gguf"
  | media => none

end Mode

structure ModeTable where
  requiredServices : Mode → List String
  stoppedServices : Mode → List String
  llmModel : Mode → Option String

def modeTable : ModeTable where
  requiredServices := Mode.requiredServices
  stoppedServices := Mode.stoppedServices
  llmModel := Mode.llmModel

/-! ## Configuration -/

structure PressureConfig where
  stopOptinsMb : Nat
  zramMb : Nat

structure GovernorConfig where
  nightStartHour : Nat
  dayStartHour : Nat
  nightModelSwap : Bool
  pressure : PressureConfig

/-- The systemd unit of each service; an optional service has one when it is configured. -/
structure ServicesConfig where
  core : String := "genie-core.service"
  llm : String := "genie-ai-runtime.service"
  api : String := "genie-api.service"
  homeassistant : Option String := none
  nextcloud : Option String := none
  jellyfin : Option String := none

structure Config where
  governor : GovernorConfig
  services : ServicesConfig

namespace Config

def managesServiceAlias (config : Config) (serviceAlias : String) : Bool :=
  if serviceAlias ∈ ["core", "genie-core", "llm", "genie-llm", "api", "genie-api"] then true
  else if serviceAlias = "homeassistant" then config.services.homeassistant.isSome
  else if serviceAlias = "nextcloud" then config.services.nextcloud.isSome
  else if serviceAlias = "jellyfin" then config.services.jellyfin.isSome
  else true

def serviceUnitForAlias (config : Config) (serviceAlias : String) : Option String :=
  if serviceAlias = "core" ∨ serviceAlias = "genie-core" then some config.services.core
  else if serviceAlias = "llm" ∨ serviceAlias = "genie-llm" then some config.services.llm
  else if serviceAlias = "api" ∨ serviceAlias = "genie-api" then some config.services.api
  else if serviceAlias = "homeassistant" then config.services.homeassistant
  else if serviceAlias = "nextcloud" then config.services.nextcloud
  else if serviceAlias = "jellyfin" then config.services.jellyfin
  else if config.managesServiceAlias serviceAlias then some serviceAlias
  else none

def llmServiceUnit (config : Config) : String :=
  (config.serviceUnitForAlias "llm").getD "genie-ai-runtime.service"

theorem serviceUnitForAlias_llm (config : Config) :
    config.serviceUnitForAlias "llm" = some config.llmServiceUnit := rfl

end Config

/-! ## The host -/

/-- The process of a unit, with the model that was in its environment when it started. -/
structure Process where
  model : Option String
deriving DecidableEq

structure SystemUnit where
  process : Option Process := none
  /-- The model that the unit's own file names. -/
  ownModel : Option String := none
  /-- The model in `model-override.conf`. -/
  overrideModel : Option String := none
  /-- The model that systemd last read; the next start gets it. -/
  loadedModel : Option String := none
deriving DecidableEq

namespace SystemUnit

def start (s : SystemUnit) : SystemUnit :=
  { s with process := some (s.process.getD ⟨s.loadedModel⟩) }

def stop (s : SystemUnit) : SystemUnit := { s with process := none }

def restart (s : SystemUnit) : SystemUnit := { s with process := some ⟨s.loadedModel⟩ }

def reload (s : SystemUnit) : SystemUnit :=
  { s with loadedModel := s.overrideModel.or s.ownModel }

def writeOverride (model : Option String) (s : SystemUnit) : SystemUnit :=
  { s with overrideModel := model }

end SystemUnit

/-- Why a call failed: it could not be made, it took more than ten seconds, or the command
ended with an error. -/
inductive Failure where
  | os (error : String)
  | timeout
  | status (stderr : String)
deriving DecidableEq

namespace Failure

def systemctl (command : String) : Failure → String
  | os error => error
  | timeout => "systemctl " ++ command ++ " timed out after 10s"
  | status stderr => "systemctl " ++ command ++ " failed: " ++ stderr

/-- The error of a file or of the database. -/
def io : Failure → String
  | os error => error
  | timeout => "timed out"
  | status stderr => stderr

end Failure

/-- What a failed call left behind. -/
inductive Left where
  | untouched
  | done
  | broken
deriving DecidableEq

inductive Outcome where
  | ok
  | failed (how : Failure) (left : Left)
deriving DecidableEq

structure TransitionRow where
  tsMs : Nat
  fromMode : String
  toMode : String
  reason : String
deriving DecidableEq

/-- What follows when systemd has started, stopped or restarted a unit: which others it
pulls in or stops, by their unit files, and whether the unit stays up. -/
structure Systemd where
  settle : String → (String → SystemUnit) → String → SystemUnit

/-- The units are independent: a call touches no unit but its own, and one that was started
runs. -/
class Systemd.Independent (systemd : Systemd) : Prop where
  settle_eq : ∀ unit units, systemd.settle unit units = units

def Systemd.independent : Systemd := ⟨fun _ units => units⟩

instance : Systemd.independent.Independent := ⟨fun _ _ => rfl⟩

variable {systemd : Systemd}

structure Host (systemd : Systemd) where
  units : String → SystemUnit
  /-- The Docker containers that run. -/
  containers : String → Bool := fun _ => false
  mediaMarker : Bool := false
  transitions : List TransitionRow := []
  /-- The errors that rollbacks have logged. -/
  rollbackErrors : List String := []
  /-- Whether the next probes are answered. -/
  probes : List Bool := []
  calls : List Outcome := []
  /-- The next calls on the media marker. -/
  files : List Outcome := []

def normalizeSystemdUnit (unit : String) : String :=
  if '.' ∈ unit.toList then unit else unit ++ ".service"

namespace Host

def running (h : Host systemd) (unit : String) : Bool := (h.units unit).process.isSome

/-- Every probe to come is answered. -/
def Answers (h : Host systemd) : Prop := ∀ answered ∈ h.probes, answered = true

/-- No call on the media marker will fail. -/
def FilesOk (h : Host systemd) : Prop := ∀ outcome ∈ h.files, outcome = .ok

/-- `systemctl` completes a name without a suffix, as `normalizeSystemdUnit` does. -/
def mapUnit (unit : String) (f : SystemUnit → SystemUnit) (h : Host systemd) : Host systemd :=
  let key := normalizeSystemdUnit unit
  { h with units := Function.update h.units key (f (h.units key)) }

/-- The same by a call of `systemctl`. -/
def control (unit : String) (f : SystemUnit → SystemUnit) (h : Host systemd) : Host systemd :=
  { h with units := systemd.settle (normalizeSystemdUnit unit) (h.mapUnit unit f).units }

theorem control_eq [systemd.Independent] (unit : String) (f : SystemUnit → SystemUnit)
    (h : Host systemd) : h.control unit f = h.mapUnit unit f := by
  unfold control
  rw [Systemd.Independent.settle_eq]
  rfl

def nextCall (h : Host systemd) : Outcome := h.calls.headD .ok

def spendCall (h : Host systemd) : Host systemd := { h with calls := h.calls.tail }

def nextFile (h : Host systemd) : Outcome := h.files.headD .ok

def spendFile (h : Host systemd) : Host systemd := { h with files := h.files.tail }

end Host

namespace ServiceCtl

def start (unit : String) (h : Host systemd) : Except String Unit × Host systemd :=
  match h.nextCall with
  | .ok => (.ok (), h.spendCall.control unit .start)
  | .failed how left =>
    (.error (how.systemctl ("start " ++ unit)),
      if left = .done then h.spendCall.control unit .start else h.spendCall)

/-- A unit that systemd has not loaded does not run, and stopping it is no error. -/
def stop (unit : String) (h : Host systemd) : Except String Unit × Host systemd :=
  match h.nextCall with
  | .ok => (.ok (), h.spendCall.control unit .stop)
  | .failed how left =>
    let failed := (.error (how.systemctl ("stop " ++ unit)),
      if left = .untouched then h.spendCall else h.spendCall.control unit .stop)
    match how with
    | .status stderr =>
      if Text.containsText stderr "not loaded" then (.ok (), h.spendCall.control unit .stop)
      else failed
    | _ => failed

def isActive (unit : String) (h : Host systemd) : Bool × Host systemd :=
  (h.probes.headD true && h.running (normalizeSystemdUnit unit), { h with probes := h.probes.tail })

/-- Only a container command that cannot be run at all is an error. -/
def dockerStop (container : String) (h : Host systemd) : Except String Unit × Host systemd :=
  let stopped := { h.spendCall with containers := Function.update h.containers container false }
  match h.nextCall with
  | .ok => (.ok (), stopped)
  | .failed how left =>
    (match how with | .os error => .error error | _ => .ok (),
      if left = .untouched then h.spendCall else stopped)

def createOverrideDir (h : Host systemd) : Except String Unit × Host systemd :=
  match h.nextCall with
  | .ok => (.ok (), h.spendCall)
  | .failed how _ => (.error how.io, h.spendCall)

/-- A write that breaks off leaves an empty file. -/
def writeOverride (unit path : String) (h : Host systemd) : Except String Unit × Host systemd :=
  match h.nextCall with
  | .ok => (.ok (), h.spendCall.mapUnit unit (.writeOverride (some path)))
  | .failed how left =>
    (.error how.io,
      match left with
      | .untouched => h.spendCall
      | .done => h.spendCall.mapUnit unit (.writeOverride (some path))
      | .broken => h.spendCall.mapUnit unit (.writeOverride none))

def daemonReload (h : Host systemd) : Except String Unit × Host systemd :=
  let reloaded := { h.spendCall with units := fun unit => (h.units unit).reload }
  match h.nextCall with
  | .ok => (.ok (), reloaded)
  | .failed how left =>
    (.error (how.systemctl "daemon-reload"), if left = .done then reloaded else h.spendCall)

/-- A restart that breaks off has stopped the unit. -/
def restart (unit : String) (h : Host systemd) : Except String Unit × Host systemd :=
  match h.nextCall with
  | .ok => (.ok (), h.spendCall.control unit .restart)
  | .failed how left =>
    (.error (how.systemctl ("restart " ++ unit)),
      match left with
      | .untouched => h.spendCall
      | .done => h.spendCall.control unit .restart
      | .broken => h.spendCall.control unit .stop)

def swapLlmModel (llmUnit modelPath : String) (h : Host systemd) :
    Except String Unit × Host systemd :=
  let unit := normalizeSystemdUnit llmUnit
  match createOverrideDir h with
  | (.error e, h) => (.error e, h)
  | (.ok (), h) =>
    match writeOverride unit modelPath h with
    | (.error e, h) => (.error e, h)
    | (.ok (), h) =>
      match daemonReload h with
      | (.error e, h) => (.error e, h)
      | (.ok (), h) => restart unit h

/-- The script's own errors are only logged. -/
def enableZram (h : Host systemd) : Except String Unit × Host systemd :=
  match h.nextCall with
  | .failed (.os error) _ => (.error error, h.spendCall)
  | _ => (.ok (), h.spendCall)

end ServiceCtl

namespace Host

inductive IoError where
  | notFound
  | other (error : String)
deriving DecidableEq

/-- `create_dir_all("/run/geniepod")` -/
def createRunDir (h : Host systemd) : Except String Unit × Host systemd :=
  match h.nextFile with
  | .ok => (.ok (), h.spendFile)
  | .failed how _ => (.error how.io, h.spendFile)

/-- The marker is there as soon as its file is created. -/
def writeMarker (h : Host systemd) : Except String Unit × Host systemd :=
  match h.nextFile with
  | .ok => (.ok (), { h.spendFile with mediaMarker := true })
  | .failed how left =>
    (.error how.io,
      if left = .untouched then h.spendFile else { h.spendFile with mediaMarker := true })

def removeMarker (h : Host systemd) : Except IoError Unit × Host systemd :=
  match h.nextFile with
  | .ok =>
    if h.mediaMarker then (.ok (), { h.spendFile with mediaMarker := false })
    else (.error .notFound, h.spendFile)
  | .failed how left =>
    (.error (.other how.io),
      if left = .done then { h.spendFile with mediaMarker := false } else h.spendFile)

def insertTransition (row : TransitionRow) (h : Host systemd) :
    Except String Unit × Host systemd :=
  let inserted := { h.spendCall with transitions := h.transitions ++ [row] }
  match h.nextCall with
  | .ok => (.ok (), inserted)
  | .failed how left => (.error how.io, if left = .done then inserted else h.spendCall)

def logRollbackError (error : String) (h : Host systemd) : Host systemd :=
  { h with rollbackErrors := h.rollbackErrors ++ [error] }

end Host

/-! ## What a call changes -/

namespace Host

/-- The calls between the two hosts were all on units. -/
structure UnitsOnly (h h' : Host systemd) : Prop where
  mediaMarker : h'.mediaMarker = h.mediaMarker
  transitions : h'.transitions = h.transitions
  rollbackErrors : h'.rollbackErrors = h.rollbackErrors
  files : h'.files = h.files
  answers : h.Answers → h'.Answers

namespace UnitsOnly

theorem refl (h : Host systemd) : UnitsOnly h h := ⟨rfl, rfl, rfl, rfl, id⟩

theorem trans {a b c : Host systemd} (hab : UnitsOnly a b) (hbc : UnitsOnly b c) :
    UnitsOnly a c where
  mediaMarker := hbc.mediaMarker.trans hab.mediaMarker
  transitions := hbc.transitions.trans hab.transitions
  rollbackErrors := hbc.rollbackErrors.trans hab.rollbackErrors
  files := hbc.files.trans hab.files
  answers := hbc.answers ∘ hab.answers

end UnitsOnly

theorem UnitsOnly.filesOk {h h' : Host systemd} (honly : UnitsOnly h h') (hok : h.FilesOk) :
    h'.FilesOk := by
  rwa [FilesOk, honly.files]

theorem spendCall_unitsOnly (h : Host systemd) : UnitsOnly h h.spendCall := ⟨rfl, rfl, rfl, rfl, id⟩

theorem mapUnit_unitsOnly (unit : String) (f : SystemUnit → SystemUnit) (h : Host systemd) :
    UnitsOnly h (h.mapUnit unit f) := ⟨rfl, rfl, rfl, rfl, id⟩

theorem spendCall_mapUnit_unitsOnly (unit : String) (f : SystemUnit → SystemUnit)
    (h : Host systemd) :
    UnitsOnly h (h.spendCall.mapUnit unit f) :=
  h.spendCall_unitsOnly.trans (mapUnit_unitsOnly unit f _)

theorem mapUnit_units (unit : String) (f : SystemUnit → SystemUnit) (h : Host systemd)
    (key : String) :
    (h.mapUnit unit f).units key =
      if key = normalizeSystemdUnit unit then f (h.units key) else h.units key := by
  unfold mapUnit
  by_cases hkey : key = normalizeSystemdUnit unit
  · subst hkey
    simp
  · simp [hkey]

end Host

theorem normalizeSystemdUnit_idem (unit : String) :
    normalizeSystemdUnit (normalizeSystemdUnit unit) = normalizeSystemdUnit unit := by
  by_cases hdot : '.' ∈ unit.toList
  · simp [normalizeSystemdUnit, hdot]
  · have hdot' : '.' ∈ (unit ++ ".service").toList := by simp
    simp only [normalizeSystemdUnit, if_neg hdot, if_pos hdot']

namespace ServiceCtl

variable {unit path e : String} {h h' : Host systemd} {result : Except String Unit}

theorem isActive_unitsOnly (unit : String) (h : Host systemd) : h.UnitsOnly (isActive unit h).2 :=
  ⟨rfl, rfl, rfl, rfl, fun hanswers b hb => hanswers b (List.mem_of_mem_tail hb)⟩

theorem isActive_fst (hanswers : h.Answers) (unit : String) :
    (isActive unit h).1 = h.running (normalizeSystemdUnit unit) := by
  have hfirst : h.probes.headD true = true := by
    cases hprobes : h.probes with
    | nil => rfl
    | cons b _ => exact hanswers b (hprobes ▸ List.mem_cons_self)
  rw [isActive, hfirst, Bool.true_and]

theorem running_of_isActive (hactive : (isActive unit h).1 = true) :
    h.running (normalizeSystemdUnit unit) = true :=
  (Bool.and_eq_true_iff.mp hactive).2

theorem start_spec [systemd.Independent] (hstart : start unit h = (result, h')) :
    h.UnitsOnly h' ∧ (h'.units = (h.mapUnit unit .start).units ∨
      (∃ e, result = .error e) ∧ h'.units = h.units) := by
  simp only [start, Host.control_eq] at hstart
  split at hstart
  · cases hstart
    exact ⟨h.spendCall_mapUnit_unitsOnly unit _, .inl rfl⟩
  · cases hstart
    split
    · exact ⟨h.spendCall_mapUnit_unitsOnly unit _, .inl rfl⟩
    · exact ⟨h.spendCall_unitsOnly, .inr ⟨⟨_, rfl⟩, rfl⟩⟩

theorem stop_spec [systemd.Independent] (hstop : stop unit h = (result, h')) :
    h.UnitsOnly h' ∧ (h'.units = (h.mapUnit unit .stop).units ∨
      (∃ e, result = .error e) ∧ h'.units = h.units) := by
  have hstopped : h.UnitsOnly (h.spendCall.mapUnit unit .stop) :=
    h.spendCall_mapUnit_unitsOnly unit _
  have hfailed : ∀ (left : Left) (e : String),
      h.UnitsOnly (if left = .untouched then h.spendCall else h.spendCall.mapUnit unit .stop) ∧
      ((if left = .untouched then h.spendCall else h.spendCall.mapUnit unit .stop).units =
          (h.mapUnit unit .stop).units ∨
        (∃ e', (.error e : Except String Unit) = .error e') ∧
          (if left = .untouched then h.spendCall else h.spendCall.mapUnit unit .stop).units =
            h.units) := by
    intro left e
    split
    · exact ⟨h.spendCall_unitsOnly, .inr ⟨⟨_, rfl⟩, rfl⟩⟩
    · exact ⟨hstopped, .inl rfl⟩
  simp only [stop, Host.control_eq] at hstop
  split at hstop
  · cases hstop
    exact ⟨hstopped, .inl rfl⟩
  · rename_i how left _
    cases how with
    | status stderr =>
      simp only at hstop
      split at hstop
      · cases hstop
        exact ⟨hstopped, .inl rfl⟩
      · cases hstop
        exact hfailed left _
    | os error =>
      cases hstop
      exact hfailed left _
    | timeout =>
      cases hstop
      exact hfailed left _

theorem createOverrideDir_spec (hdir : createOverrideDir h = (result, h')) :
    h.UnitsOnly h' ∧ h'.units = h.units := by
  unfold createOverrideDir at hdir
  split at hdir
  · cases hdir
    exact ⟨h.spendCall_unitsOnly, rfl⟩
  · cases hdir
    exact ⟨h.spendCall_unitsOnly, rfl⟩

theorem writeOverride_spec (hwrite : writeOverride unit path h = (result, h')) :
    h.UnitsOnly h' ∧ (∀ key, (h'.units key).process = (h.units key).process) ∧
      (result = .ok () → (h'.units (normalizeSystemdUnit unit)).overrideModel = some path) := by
  have hmap : ∀ (model : Option String) (key : String),
      ((h.spendCall.mapUnit unit (.writeOverride model)).units key).process =
        (h.units key).process := by
    intro model key
    rw [Host.mapUnit_units]
    split
    · rfl
    · rfl
  unfold writeOverride at hwrite
  split at hwrite
  · cases hwrite
    refine ⟨h.spendCall_mapUnit_unitsOnly unit _, hmap _, fun _ => ?_⟩
    rw [Host.mapUnit_units, if_pos rfl]
    rfl
  · cases hwrite
    split
    · exact ⟨h.spendCall_unitsOnly, fun _ => rfl, fun hok => by cases hok⟩
    · exact ⟨h.spendCall_mapUnit_unitsOnly unit _, hmap _, fun hok => by cases hok⟩
    · exact ⟨h.spendCall_mapUnit_unitsOnly unit _, hmap _, fun hok => by cases hok⟩

theorem daemonReload_spec (hreload : daemonReload h = (result, h')) :
    h.UnitsOnly h' ∧ (∀ key, (h'.units key).process = (h.units key).process) ∧
      (result = .ok () → ∀ key, h'.units key = (h.units key).reload) := by
  unfold daemonReload at hreload
  split at hreload
  · cases hreload
    exact ⟨⟨rfl, rfl, rfl, rfl, id⟩, fun _ => rfl, fun _ _ => rfl⟩
  · cases hreload
    split
    · exact ⟨⟨rfl, rfl, rfl, rfl, id⟩, fun _ => rfl, fun hok => by cases hok⟩
    · exact ⟨h.spendCall_unitsOnly, fun _ => rfl, fun hok => by cases hok⟩

theorem restart_spec [systemd.Independent] (hrestart : restart unit h = (result, h')) :
    h.UnitsOnly h' ∧
      (∀ key, key ≠ normalizeSystemdUnit unit → h'.units key = h.units key) ∧
      (result = .ok () → h'.units = (h.mapUnit unit .restart).units) := by
  have hother : ∀ (f : SystemUnit → SystemUnit) (key : String),
      key ≠ normalizeSystemdUnit unit → (h.spendCall.mapUnit unit f).units key = h.units key := by
    intro f key hkey
    rw [Host.mapUnit_units, if_neg hkey]
    rfl
  simp only [restart, Host.control_eq] at hrestart
  split at hrestart
  · cases hrestart
    exact ⟨h.spendCall_mapUnit_unitsOnly unit _, hother _, fun _ => rfl⟩
  · cases hrestart
    split
    · exact ⟨h.spendCall_unitsOnly, fun _ _ => rfl, fun hok => by cases hok⟩
    · exact ⟨h.spendCall_mapUnit_unitsOnly unit _, hother _, fun hok => by cases hok⟩
    · exact ⟨h.spendCall_mapUnit_unitsOnly unit _, hother _, fun hok => by cases hok⟩

/-- A swap touches the process of its own unit only, and when it succeeds that unit runs with
the new model, which it also keeps over a later start. -/
theorem swapLlmModel_spec [systemd.Independent]
    (hswap : swapLlmModel unit path h = (result, h')) :
    h.UnitsOnly h' ∧
      (∀ key, key ≠ normalizeSystemdUnit unit → (h'.units key).process = (h.units key).process) ∧
      (result = .ok () →
        (h'.units (normalizeSystemdUnit unit)).process = some ⟨some path⟩ ∧
        (h'.units (normalizeSystemdUnit unit)).loadedModel = some path) := by
  unfold swapLlmModel at hswap
  dsimp only at hswap
  split at hswap
  next e h₁ hdir =>
    cases hswap
    obtain ⟨honly, hunits⟩ := createOverrideDir_spec hdir
    exact ⟨honly, fun key _ => by rw [hunits], fun hok => by cases hok⟩
  next h₁ hdir =>
    obtain ⟨honly₁, hunits₁⟩ := createOverrideDir_spec hdir
    split at hswap
    next e h₂ hwrite =>
      cases hswap
      obtain ⟨honly₂, hprocess₂, -⟩ := writeOverride_spec hwrite
      exact ⟨honly₁.trans honly₂, fun key _ => by rw [hprocess₂, hunits₁],
        fun hok => by cases hok⟩
    next h₂ hwrite =>
      obtain ⟨honly₂, hprocess₂, hoverride⟩ := writeOverride_spec hwrite
      have honly := honly₁.trans honly₂
      split at hswap
      next e h₃ hreload =>
        cases hswap
        obtain ⟨honly₃, hprocess₃, -⟩ := daemonReload_spec hreload
        exact ⟨honly.trans honly₃, fun key _ => by rw [hprocess₃, hprocess₂, hunits₁],
          fun hok => by cases hok⟩
      next h₃ hreload =>
        obtain ⟨honly₃, hprocess₃, hreloaded⟩ := daemonReload_spec hreload
        obtain ⟨honly₄, hother, hrestarted⟩ := restart_spec hswap
        rw [normalizeSystemdUnit_idem] at hother
        refine ⟨(honly.trans honly₃).trans honly₄, fun key hkey => ?_, fun hok => ?_⟩
        · rw [hother key hkey, hprocess₃, hprocess₂, hunits₁]
        · have hloaded : (h₃.units (normalizeSystemdUnit unit)).loadedModel = some path := by
            have hnew := hoverride rfl
            rw [normalizeSystemdUnit_idem] at hnew
            rw [hreloaded rfl, SystemUnit.reload, hnew]
            rfl
          rw [hrestarted hok, Host.mapUnit_units, normalizeSystemdUnit_idem, if_pos rfl]
          exact ⟨by rw [SystemUnit.restart, hloaded], hloaded⟩

end ServiceCtl

end GenieClaw.Governor
