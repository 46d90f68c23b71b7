import GenieClaw.Json
import GenieClaw.Library.Binary

/-!
# The home automation provider

The data of `ha/provider.rs` that the actuation path reads, and the provider as an
interface: its answers may depend on the state `W` of the home and may change it. The
calls that only the discovery tools use are left out.
-/

namespace GenieClaw.Home

open Library Library.Text

inductive HomeTargetKind where
  | entity
  | group
  | scene
  | script
deriving DecidableEq

inductive HomeActionKind where
  | turnOn
  | turnOff
  | toggle
  | setBrightness
  | setTemperature
  | open
  | close
  | lock
  | unlock
  | activate
deriving DecidableEq

structure HomeTarget where
  kind : HomeTargetKind
  query : String
  displayName : String
  entityIds : List String
  domain : Option String
  confidence : F32
  voiceSafe : Bool
deriving DecidableEq

structure HomeAction where
  kind : HomeActionKind
  target : HomeTarget
  value : Option F64
deriving DecidableEq

structure Entity where
  entityId : String
  state : String
  attributes : Json

structure HomeState where
  entities : List Entity
  available : Bool
  spokenSummary : String

structure IntegrationHealth where
  connected : Bool
  message : String

structure ActionResult where
  spokenSummary : String
  confidence : Option F32

structure HomeProvider (W : Type) where
  health : W → IntegrationHealth × W
  resolveTarget : String → Option HomeActionKind → W → Except String HomeTarget × W
  getState : HomeTarget → W → Except String HomeState × W
  execute : HomeAction → W → Except String ActionResult × W

/-!
## Home actions by name

`tools/home_action.rs`: the verbs of `home_control`, the kinds they stand for and the
canonical form of a verb as a model writes it.

* `canonHomeControlAction_mem`: what is accepted is one of the listed verbs.
-/

def homeControlActions : List String :=
  ["turn_on", "turn_off", "toggle", "set_brightness", "set_temperature", "open", "close", "lock",
    "unlock", "activate"]

def actionRequiresValue (action : String) : Bool :=
  action == "set_brightness" || action == "set_temperature"

def homeActionKind (action : String) : Except String HomeActionKind :=
  match action with
  | "turn_on" => .ok .turnOn
  | "turn_off" => .ok .turnOff
  | "toggle" => .ok .toggle
  | "set_brightness" => .ok .setBrightness
  | "set_temperature" => .ok .setTemperature
  | "open" => .ok .open
  | "close" => .ok .close
  | "lock" => .ok .lock
  | "unlock" => .ok .unlock
  | "activate" => .ok .activate
  | "activate_scene" => .ok .activate
  | other => .error ("unknown home action: " ++ other)

def isCanonicalShape (raw : String) : Bool :=
  !raw.toList.isEmpty && raw.toList.all (fun c => c == '_' || isAsciiLowercase c)

def mapSynonym (action : String) : Option String :=
  let mapped := match action with
    | "deactivate" => "turn_off"
    | "disable" => "turn_off"
    | "switch_off" => "turn_off"
    | "power_off" => "turn_off"
    | "shut_off" => "turn_off"
    | "enable" => "turn_on"
    | "switch_on" => "turn_on"
    | "power_on" => "turn_on"
    | "activate_scene" => "activate"
    | other => other
  homeControlActions.find? (fun a => a == mapped)

/-- `replace([' ', '-'], "_")`. -/
def underscored (s : String) : String :=
  String.ofList (s.toList.map fun c => if c = ' ' ∨ c = '-' then '_' else c)

def canonHomeControlAction (raw : String) : Option String :=
  if isCanonicalShape raw then mapSynonym raw
  else mapSynonym (underscored (toLowercase (trim raw)))

theorem mapSynonym_mem {raw action : String} (h : mapSynonym raw = some action) :
    action ∈ homeControlActions := by
  unfold mapSynonym at h
  exact List.mem_of_find?_eq_some h

theorem canonHomeControlAction_mem {raw action : String}
    (h : canonHomeControlAction raw = some action) : action ∈ homeControlActions := by
  unfold canonHomeControlAction at h
  split at h
  · exact mapSynonym_mem h
  · exact mapSynonym_mem h

theorem homeActionKind_of_mem {action : String} (h : action ∈ homeControlActions) :
    ∃ kind, homeActionKind action = .ok kind := by
  have hall : ∀ action ∈ homeControlActions, (homeActionKind action).toOption.isSome = true := by
    decide +kernel
  have hsome := hall action h
  cases hkind : homeActionKind action with
  | ok kind => exact ⟨kind, rfl⟩
  | error e =>
    rw [hkind] at hsome
    cases hsome

end GenieClaw.Home
