import GenieClaw.Library.PhraseTests
import GenieClaw.Quick.HomeControl

/-!
# Questions about the state of the home

`priority_home_status_target` and `home_status_target` of `tools/quick.rs`: fixed phrases first,
then the device that a status question is about.
-/

namespace GenieClaw.Quick

open Library.Text

def priorityHomeStatusTarget (text : String) : Option String :=
  if containsText text "garage freezer" && containsText text "too warm" then some "garage freezer"
  else none

/-! ## Fixed phrases -/

def statusRules : List (List (List PhraseTest) × String) :=
  [([[.has "lights are still on upstairs"], [.has "which lights", .has "upstairs"]],
      "upstairs lights on"),
    (having ["needs charging tonight", "need charging tonight"], "family device charging tonight"),
    (having ["basement flood check"], "basement flood check"),
    (having ["next filter change"], "next filter change"),
    ([[.has "front door locked after", .has "leo"]], "front door lock after leo arrival"),
    (having ["noisy appliance"], "noisy appliance"),
    (having ["tooth fairy box"], "leo tooth fairy box"),
    (having ["changed in the garage today"], "garage changes today"),
    (having ["security alarm chirp"], "security alarm chirp"),
    (having ["who s in the backyard", "who's in the backyard"], "backyard recognized presence"),
    (having ["bedtime chart"], "leo bedtime chart remaining"),
    (having ["upstairs window before the rain"], "upstairs window before rain"),
    ([[.has "devices", .has "guest wi fi"], [.has "devices", .has "guest wi-fi"],
      [.has "devices", .has "guest wifi"]],
      "guest wifi devices"),
    (having ["side path icy"], "side path ice risk"),
    (having ["office internet slow"], "office internet slow reason"),
    (having ["chores did leo skip"], "leo skipped chores this week"),
    (having ["mia s purifier on high", "mia's purifier on high"], "mia purifier high reason"),
    (having ["outdoor cameras need cleaning"], "outdoor camera cleaning report"),
    (having ["garage close after jared left"], "garage close after jared left"),
    (having ["feed the cat too much"], "cat feeding amount check"),
    (having ["oldest thing in the fridge"], "oldest fridge food"),
    (having ["lamp flickering"], "mia lamp flicker reason"),
    ([[.has "sensor", .has "bypass"]], "security sensor bypass report"),
    (having ["room smells weird"], "mia room air-quality check"),
    (having ["dad see my message"], "leo dad message read status"),
    (having ["backpacks are by the door"], "entryway backpacks"),
    ([[.has "privacy report", .has "cameras"]], "camera privacy report"),
    (having ["automation fired the most"], "top automation today"),
    ([[.has "fridge door", .has "close"]], "fridge door"),
    (having ["sensors need batteries", "need batteries soon"], "sensor battery report"),
    (having ["plants need attention"], "plant attention report"),
    (having ["bathroom free"], "upstairs bathroom availability"),
    (having ["end of day house summary", "end-of-day house summary"], "end-of-day house summary"),
    ([[.has "compare this week", .has "electricity"]], "weekly electricity comparison"),
    ([[.has "back burner", .has "off"]], "back burner"),
    (having ["which room seems drafty", "drafty room"], "drafty room report"),
    (having ["devices are offline", "which devices are offline"], "offline devices"),
    (having ["using the most electricity", "most electricity"], "top electricity usage"),
    ([[.has "freezer door", .has "left open"]], "freezer door"),
    (having ["all the windows closed", "windows closed"], "open windows"),
    ([[.has "sprinkler", .has "run this morning"]], "sprinkler run history"),
    (having ["morning readiness report"], "morning readiness report"),
    (having ["self cleaning oven", "self clean oven"], "self-cleaning oven")]

def laterStatusRules : List (List (List PhraseTest) × String) :=
  [(having ["doors are unlocked", "what doors are unlocked"], "unlocked doors"),
    ([[.has "cameras with motion"], [.has "camera", .has "motion"]], "cameras with recent motion"),
    ([[.has "freezer", .has "too warm", .has "garage"]], "garage freezer"),
    ([[.has "freezer", .has "too warm"]], "freezer"),
    (having ["speed limit"], "speed limit"),
    (having ["water pressure"], "water pressure"),
    (having ["sump pump"], "sump pump"),
    (having ["sous vide"], "sous vide"),
    ([[.has "air quality", .has "nursery"]], "nursery air quality"),
    ([[.starts "did ", .has "lock", .has "car"]], "car locks"),
    ([[.starts "did ", .has "package arrive"], [.starts "did ", .has "package arrived"]],
      "package"),
    ([[.has "printer", .has "ink"]], "printer ink"),
    (having ["baby monitor"], "baby monitor"),
    ([[.has "baby", .has "breathing"]], "baby breathing monitor")]

def lastStatusRules : List (List (List PhraseTest) × String) :=
  [([[.has "water", .has "hot"]], "water heater"),
    ([[.has "solar", .has "generate"], [.has "solar", .has "generated"]], "solar power today")]

def hasWord (text : String) (words : List String) : Bool :=
  (splitWhitespace text).any words.contains

/-- The oven is the subject of the question, or may have been left on. -/
def asksOven (text : String) : Bool :=
  let words := splitWhitespace text
  let state := words.head?.any ["is", "are"].contains &&
    (words.drop 1).take 2 == ["the", "oven"] && (words.drop 3).contains "on"
  let leftOn := words.head? == some "did" && decide (["leave", "the", "oven"] <:+: words)
  (state || leftOn) && !containsAny text ["self cleaning", "self clean"]

def mailWords : List String := ["mail", "mailbox", "mailboxes", "mailman", "mailmen"]

def looksLikeStatusQuery (text : String) : Bool :=
  containsText text " status" || endsWith " status" text ||
    ["what ", "which ", "is ", "are ", "any ", "check ", "tell me "].any fun opening =>
      startsWith opening text

/-- The iron as an appliance, behind `the` or `my`. -/
def asksIron (text : String) : Bool :=
  let words := splitWhitespace text
  (words.zip words.tail).any (fun pair => ["the", "my"].contains pair.1 && pair.2 == "iron") &&
    (looksLikeStatusQuery text || startsWith "did " text)

def fixedStatusTarget (text : String) : Option String :=
  match firstAnswer statusRules text with
  | some target => some target
  | none =>
    if asksOven text then some "oven"
    else
      match firstAnswer laterStatusRules text with
      | some target => some target
      | none =>
        if startsWith "did " text && hasWord text mailWords then some "mailbox"
        else if containsText text "stove" && startsWith "did i leave " text then some "stove"
        else if asksIron text then some "iron"
        else firstAnswer lastStatusRules text

/-! ## The device of a question -/

def statusOpenings : List String :=
  ["what is the ", "what are the ", "what s the ", "what is ", "what are ", "what s ", "what ",
    "which ", "is the ", "are the ", "is ", "are ", "any ", "check the ", "check ", "tell me the ",
    "tell me "]

def statusSuffixes : List String :=
  [" are on", " are off", " are open", " are closed", " are unlocked", " are locked", " is on",
    " is off", " is open", " is closed", " is unlocked", " is locked", " status", " on", " off",
    " open", " closed", " unlocked", " locked", " active", " right now", " now"]

/-- State words and times come off the end one after another; every round shortens the text. -/
def dropStatusSuffixes : Nat → String → String
  | 0, target => target
  | rounds + 1, target =>
    match statusSuffixes.findSome? fun ending => stripSuffix ending target with
    | some rest => dropStatusSuffixes rounds (trimEnd rest)
    | none => target

def cleanStatusTarget (text : String) : String :=
  let target := (statusOpenings.findSome? fun opening => stripPrefix opening text).getD text
  let target := trimEnd (trimEndMatches " please" target)
  trim (dropStatusSuffixes target.toList.length target)

/-- The whole class of devices, if nothing but its word is left. -/
def classOr (name target : String) : Option String :=
  some (if (splitWhitespace target).length = 1 then name else target)

def thermostatTarget (target : String) : Option String :=
  if containsAny target ["outside", "outdoor"] then none
  else if containsText target "attic" then some "attic temperature"
  else if (splitWhitespace target).length = 1 ∨ target = "temperature" then some "thermostat"
  else some target

def dryerTarget (target : String) : String :=
  let words := splitWhitespace target
  if 1 < words.length ∧ words.getLast?.any ["dryer", "dryers"].contains then target else "dryer"

def namesIceMaker (target : String) : Bool :=
  let words := splitWhitespace target
  decide (["ice", "maker"] <:+: words) || words.contains "icemaker"

/-- The last of the devices. -/
def vehicleOrKitchenTarget (target : String) : Option String :=
  let namesCar := hasWord target ["car", "cars"]
  if containsText target "tire pressure" && namesCar then some "car tire pressure"
  else if namesCar then some "car"
  else if hasWord target ["stove", "burner", "oven"] then some "stove"
  else if containsAny target ["package", "delivery"] then some "package"
  else if containsAny target ["freezer", "garage freezer"] then
    some (if containsText target "garage" then "garage freezer" else "freezer")
  else none

def deviceTarget (target : String) : Option String :=
  if hasWord target ["light", "lights", "lamp", "lamps"] then classOr "lights" target
  else if hasWord target ["switch", "switches", "plug", "plugs", "outlet", "outlets"] then
    classOr "switches" target
  else if containsAny target ["thermostat", "thermostats", "temperature", "climate"] then
    thermostatTarget target
  else if hasWord target ["cover", "covers", "blind", "blinds", "shade", "shades", "curtain",
      "curtains", "garage", "gate"] then classOr "covers" target
  else if hasWord target ["lock", "locks", "door", "doors"] then classOr "locks" target
  else if namesIceMaker target then some "ice maker"
  else if containsText target "driveway" || hasWord target ["ice", "icy", "iced"] then
    some "driveway ice"
  else if containsAny target ["sprinkler", "irrigation"] then
    some (if containsText target "front" then "front sprinklers" else "sprinklers")
  else if containsAny target ["dryer", "drying machine"] then some (dryerTarget target)
  else if containsText target "humidity" then
    some (if containsText target "basement" then "basement humidity" else "humidity")
  else vehicleOrKitchenTarget target

def homeStatusTarget (text : String) : Option String :=
  match fixedStatusTarget text with
  | some target => some target
  | none =>
    if containsText text "home assistant" || !looksLikeStatusQuery text then none
    else
      let target := cleanStatusTarget text
      if target = "" then none else deviceTarget target

end GenieClaw.Quick
