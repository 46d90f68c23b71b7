import GenieClaw.Library.PhraseTests
import GenieClaw.Library.Phrases

/-!
# Statements that are stored

The detectors of `tools/quick.rs` whose answer is a `memory_store`, with category and content.
-/

namespace GenieClaw.Quick

open Library.Text

/-! ## The shopping list -/

def stripPlease (text : String) : String := (stripPrefix "please " text).getD text

/-- The text before the first of the endings that it has. -/
def beforeEnding (endings : List String) (text : String) : Option String :=
  endings.findSome? fun ending => stripSuffix ending text

def listedItems (items : String) : Option String :=
  let items := trim items
  if items = "" then none else some (replaceText " and " ", " items)

def addEndings : List String :=
  [" to the shopping list", " to my shopping list", " to shopping list",
    " on the shopping list", " on my shopping list", " on shopping list"]

def shoppingListAddRequest (text : String) : Option String :=
  let text := stripPlease (trimEnd (trimEndMatches " please" text))
  ((stripPrefix "add " text).or (stripPrefix "put " text)).bind fun rest =>
    (beforeEnding addEndings rest).bind listedItems

def takeEndings : List String :=
  [" off the shopping list", " off my shopping list", " off shopping list"]

def removeEndings : List String :=
  [" from the shopping list", " from my shopping list", " from shopping list"]

def shoppingListRemoveRequest (text : String) : Option String :=
  let text := stripPlease (trimEnd (trimEndMatches " please" text))
  (((stripPrefix "take " text).bind (beforeEnding takeEndings)).or
    ((stripPrefix "remove " text).bind (beforeEnding removeEndings))).bind listedItems

/-! ## Rules, logs and reminders -/

def ruleTests : List (List PhraseTest) :=
  [[.has "kids", .has "video game", .has "homework", .starts "don t let "],
    [.has "kids", .has "video game", .has "homework", .starts "do not let "]]

def householdRuleStoreRequest (text : String) : Option String :=
  if passesAny ruleTests text then some "Kids must finish homework before screen time" else none

def healthLogStoreRequest (text : String) : Option (String × String) :=
  if startsWith "log that i drank " text && containsText text "water" then
    some ("health_tracker",
      "hydration log: drank " ++ trim (trimStartMatches "log that i drank " text))
  else if text = "log my weight" ∨ text = "log my weight today" ∨
      startsWith "log my weight " text then
    some ("health_tracker", "weight log: requested weight entry")
  else none

def reminderRules : List (List (List PhraseTest) × (String × String)) :=
  [([[.has "emma", .has "come over", .has "after school"]],
      ("permission_requests", "Permission request for Mia: Emma can come over after school; " ++
        "parent approval requested")),
    ([[.has "remember that", .has "red hoodie", .has "dad s car"]],
      ("item_location_events", "Mia red hoodie location: red hoodie is in Dad's car")),
    ([[.has "save this", .has "rainy day playlist"]],
      ("user_media_aliases", "Mia rainy-day playlist: save current media session as rainy-day " ++
        "playlist")),
    ([[.has "remember", .has "fan on low", .has "sleep"]],
      ("preference", "Mia sleep comfort preference: fan on low for sleep")),
    ([[.has "tell dad", .has "puzzle is done"]],
      ("reminders", "Leo puzzle completion reminder: tell Dad when Leo says the puzzle is done")),
    ([[.has "remind me", .has "water my plant", .has "after school"]],
      ("reminder", "Reminder for Mia after school: water her plant")),
    ([[.has "save this temperature", .has "rehearsal comfort"]],
      ("activity_preference_embeddings",
        "Mia rehearsal comfort preference: save current temperature, fan speed, and humidity")),
    ([[.has "add batteries and poster board", .has "project list"]],
      ("project_list_items", "Mia project list supplies: batteries and poster board")),
    (having ["make my alarm skip holidays"],
      ("alarms", "Mia recurring alarm update: skip school holidays when school is closed")),
    ([[.has "save this lighting", .has "art time"]],
      ("scene_embeddings", "Art time lighting scene: save current room lights, desk lamp, and " ++
        "blinds for Mia's art time")),
    ([[.has "make tomorrow into a checklist"]],
      ("daily_checklists", "Tomorrow checklist for Mia: build ordered checklist from calendar, " ++
        "school tasks, and reminders")),
    ([[.has "remember that", .has "green night", .has "light"]],
      ("preference", "Leo likes the green night-light better.")),
    ([[.has "remind leo", .has "soccer cleats", .has "tomorrow morning"]],
      ("reminder", "Reminder for Leo tomorrow morning: bring soccer cleats"))]

def laterReminderRules : List (List (List PhraseTest) × (String × String)) :=
  [(having ["tell me when dad gets home"],
      ("presence_alert", "Presence alert for Leo: tell him when Dad gets home")),
    ([[.has "save the bathroom", .has " at 7", .has "hair wash"]],
      ("reservation", "Bathroom reservation for Mia at 7:00 PM for hair wash"))]

def cleanQuickValue (value : String) : String :=
  trim (trimMatches (fun ch => ['.', ',', '?', '!', ';'].contains ch) (trim value))

/-- The alarm for a rehearsal, if it has a time. -/
def rehearsalAlarm (text : String) : Option (String × String) :=
  (stripPrefix "set an alarm for rehearsal at " text).bind fun time =>
    let time := cleanQuickValue time
    if time = "" then none else some ("alarm", "Alarm for rehearsal at " ++ time)

def reminderOrAlarmStoreRequest (text : String) : Option (String × String) :=
  ((firstAnswer reminderRules text).or (rehearsalAlarm text)).or
    (firstAnswer laterReminderRules text)

/-! ## Personal facts -/

def allergyFact (text : String) : Option (String × String) :=
  ["i m allergic to ", "i am allergic to "].findSome? fun opening =>
    (stripPrefix opening text).bind fun rest =>
      let allergen := trim rest
      if allergen = "" then none
      else some ("health_tracker", "dietary allergy: allergic to " ++ allergen)

def calendarFact (text : String) : Option (String × String) :=
  ((stripPrefix "i have a " text).or (stripPrefix "i have an " text)).bind fun rest =>
    if containsText rest "appointment" || containsText rest "meeting" then
      some ("reminders", "calendar event: " ++ trim rest)
    else none

def rememberedFact (text : String) : Option (String × String) :=
  if (startsWith "remember my " text || startsWith "remember that " text) &&
      containsText text " is " then
    let rest := (stripPrefix "remember " text).map fun rest =>
      (stripPrefix "that " rest).getD rest
    let fact := trim (rest.getD text)
    if containsText text "appointment" || containsText text "meeting" then
      some ("reminders", "calendar event: " ++ fact)
    else some ("fact", "note: " ++ fact)
  else none

def personalFactStoreRequest (text : String) : Option (String × String) :=
  ((allergyFact text).or (calendarFact text)).or (rememberedFact text)

end GenieClaw.Quick
