import GenieClaw.Quick.NumberWords

/-!
# Home control requests

`home_control_request` of `tools/quick.rs` and what it calls: the fixed phrases, `turn on` and
`turn off` with a device that the router can name, and `set` and `preheat` with a setpoint.
-/

namespace GenieClaw.Quick

open Library Library.Text

/-- The entity, the action and the value of a `home_control` call. -/
structure HomeRequest where
  entity : String
  action : String
  value : Option ℚ := none
deriving DecidableEq

/-! ## Times -/

def isTimeUnit (token : String) : Bool :=
  ["second", "seconds", "sec", "secs", "minute", "minutes", "min", "mins", "hour", "hours", "hr",
    "hrs"].contains token

def timePhrases : List String :=
  ["morning", "afternoon", "evening", "night", "midday", "noon", "midnight", "a while", "a bit",
    "a moment"]

def timesOfDay : List String :=
  ["morning", "afternoon", "evening", "night", "tonight", "midday", "noon", "midnight", "day",
    "days", "week", "weeks", "month", "months", "year", "years", "weekend", "weekends"]

/-- A phrase for a time, or anything that ends in a unit of time or a time of the day. -/
def isTimeExpression (location : String) : Bool :=
  timePhrases.contains location ||
    (splitWhitespace location).getLast?.any fun last => isTimeUnit last || timesOfDay.contains last

/-- The guard of both paths: what follows the last `in` is a time. -/
def endsInTime (rest : String) : Bool :=
  (rsplitOnceAt " in " rest).any fun parts =>
    isTimeExpression (trim (trimStartMatches "the " (trim parts.2)))

/-! ## Turning on and off -/

def cleanControlEntity (text : String) : String :=
  let text := trimEndMatches " please"
    (trimStartMatches "an " (trimStartMatches "a " (trimStartMatches "the " (trim text))))
  match splitOnceAt " in the " text with
  | some (device, room) => trim room ++ " " ++ trim device
  | none =>
    match splitOnceAt " in " text with
    | some (device, room) => trim room ++ " " ++ trim device
    | none => text

/-- Conditions, exceptions, several devices or the whole house. -/
def isMultiClause (rest : String) : Bool :=
  containsAny (" " ++ rest ++ " ")
    [" everything ", " except ", " only ", " when ", " unless ", " if ", " and "]

def namesFanOrFireplace (entity : String) : Bool :=
  (splitWhitespace entity).any fun word => ["fan", "fans", "fireplace", "fireplaces"].contains word

def knownDevice (entity : String) : Bool :=
  namesFanOrFireplace entity || ["light", "lights", "lamp", "lamps"].contains entity ||
    endsWith " light" entity || endsWith " lights" entity || endsWith " lamp" entity ||
    endsWith " lamps" entity

/-- What follows the verb, and the action of the verb. -/
def turnVerb (text : String) : Option (String × String) :=
  ((stripPrefix "turn on " text).map fun rest => (rest, "turn_on")).or
    ((stripPrefix "turn off " text).map fun rest => (rest, "turn_off"))

def simpleTurnRequest (text : String) : Option (String × String) :=
  (turnVerb text).bind fun verb =>
    if endsInTime verb.1 then none
    else
      let entity := cleanControlEntity verb.1
      if entity = "" then none
      else if isMultiClause verb.1 then none
      else if knownDevice entity then some (entity, verb.2) else none

/-! ## Setpoints -/

def isLightEntity (entity : String) : Bool :=
  containsAny entity ["light", "lights", "lamp", "lamps"]

def temperatureWords : List String :=
  ["thermostat", "thermostats", "temperature", "temperatures", "temp", "temps", "climate", "oven",
    "ovens", "heat", "heater", "heaters", "heating", "furnace", "furnaces", "kettle", "kettles",
    "boiler", "boilers", "radiator", "radiators", "grill", "grills", "smoker", "smokers", "ac",
    "acs", "conditioner", "conditioners", "conditioning"]

def isTemperatureEntity (entity : String) : Bool :=
  let words := splitWhitespace entity
  words.any temperatureWords.contains || decide (["sous", "vide"] <:+: words)

/-- An adverb of the change, not a part of the device. -/
def withoutDirection (entity : String) : String :=
  (((stripSuffix " down" entity).or (stripSuffix " up" entity)).or
    (stripSuffix " back" entity)).elim entity trim

variable (doubles : Doubles)

def parseTemperatureTarget (rest : String) : Option (String × ℚ) :=
  ((splitOnceAt " to " rest).or (splitOnceAt " at " rest)).bind fun parts =>
    let entity := withoutDirection
      (trimStartMatches "an " (trimStartMatches "a " (trimStartMatches "the " (trim parts.1))))
    if entity = "" then none
    else (parseAmount doubles parts.2).map fun value => (entity, value)

/-- What follows `set` or `preheat`. -/
def setVerb (text : String) : Option String :=
  (stripPrefix "set " text).or (stripPrefix "preheat " text)

def setRequest (text : String) : Option HomeRequest :=
  (setVerb text).bind fun rest =>
    if endsInTime rest then none
    else
      (parseTemperatureTarget doubles rest).bind fun target =>
        if isLightEntity target.1 then some ⟨target.1, "set_brightness", some target.2⟩
        else if startsWith "preheat " text || isTemperatureEntity target.1 then
          some ⟨target.1, "set_temperature", some target.2⟩
        else none

/-! ## The detector -/

/-- The phrases that are compared as a whole. -/
def fixedRequests : List (List String × HomeRequest) :=
  [(["turn off the tv", "turn off tv"], ⟨"tv", "turn_off", none⟩),
    (["turn on the pool cleaner", "turn on pool cleaner", "start the pool cleaner"],
      ⟨"pool cleaner", "start", none⟩),
    (["set the thermostat to eco mode", "set thermostat to eco mode"],
      ⟨"thermostat", "set_preset", none⟩),
    (["turn on the alarm", "turn on alarm", "arm the alarm"], ⟨"security alarm", "arm", none⟩),
    (["start the robot mower", "start robot mower"], ⟨"robot mower", "start", none⟩),
    (["test the smoke detectors", "test smoke detectors"], ⟨"smoke detectors", "test", none⟩),
    (["turn off upstairs lights", "turn off the upstairs lights"],
      ⟨"upstairs lights", "turn_off", none⟩),
    (["turn off holiday lights", "turn off the holiday lights"],
      ⟨"outdoor holiday lights", "turn_off", none⟩),
    (["call my phone", "ring my phone", "find my phone"], ⟨"phone finder", "activate", none⟩)]

/-- The phrases that are compared after `set up the slow cooker` and `stop the sprinklers`. -/
def laterFixedRequests : List (List String × HomeRequest) :=
  [(["turn on the porch light when i arrive", "turn on porch light when i arrive"],
      ⟨"porch light", "schedule_on_arrival", none⟩),
    (["start the dishwasher", "start dishwasher"], ⟨"dishwasher normal cycle", "activate", none⟩)]

def fixedRequest (table : List (List String × HomeRequest)) (text : String) : Option HomeRequest :=
  (table.find? fun entry => entry.1.contains text).map Prod.snd

def isSlowCooker (text : String) : Bool :=
  startsWith "set up the slow cooker" text || startsWith "set up slow cooker" text

def homeControlRequest (text : String) : Option HomeRequest :=
  match fixedRequest fixedRequests text with
  | some request => some request
  | none =>
    if isSlowCooker text then some ⟨"slow cooker chili", "activate", none⟩
    else if startsWith "stop the sprinklers" text || startsWith "pause the sprinklers" text then
      some ⟨"sprinklers", "pause", none⟩
    else
      match fixedRequest laterFixedRequests text with
      | some request => some request
      | none =>
        match simpleTurnRequest text with
        | some (entity, action) => some ⟨entity, action, none⟩
        | none => setRequest doubles text

end GenieClaw.Quick
