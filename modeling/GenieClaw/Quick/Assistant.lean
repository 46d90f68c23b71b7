import GenieClaw.Library.PhraseTests
import GenieClaw.Library.Phrases

/-!
# Undoing, scenes and media

Detectors of `tools/quick.rs` for the last action, for scenes and routines, and for what to play.
-/

namespace GenieClaw.Quick

open Library.Text

/-! ## The last action -/

def undoTexts : List String :=
  ["undo", "undo that", "undo it", "revert that", "revert it", "put it back", "put that back",
    "reverse that", "reverse it"]

def asksHomeUndo (text : String) : Bool :=
  undoTexts.contains text ||
    (["undo ", "revert ", "reverse "].any (fun verb => startsWith verb text) &&
      containsText text "last" && (containsText text "change" || containsText text "action"))

def actionHistoryTests : List (List PhraseTest) :=
  having ["what did you do", "what have you done", "what changed", "recent actions",
    "recent home actions", "action history", "pending confirmations", "pending confirmation"]

def asksActionHistory (text : String) : Bool :=
  if containsText text "changed in the garage" then false else passesAny actionHistoryTests text

/-! ## The assistant itself -/

def homeAssistantStatusTests : List (List PhraseTest) :=
  having ["home assistant status", "home assistant connected", "home assistant connection",
    "is home assistant connected", "ha status", "ha connected"]

def asksHomeAssistantStatus (text : String) : Bool := passesAny homeAssistantStatusTests text

def systemStatusTests : List (List PhraseTest) :=
  having ["memory pressure"] ++
  exactly ["system status", "geniepod status", "genie status", "status of geniepod",
    "status of genie", "uptime", "load average", "governor status"]

def asksSystemStatus (text : String) : Bool := passesAny systemStatusTests text

def timeQuestions : List String :=
  ["what time is it", "what is the time", "whats the time", "what s the time", "current time",
    "tell me the time", "what date is it", "what is the date", "whats the date", "what s the date",
    "current date", "tell me the date", "today s date", "what s today s date", "whats today s date",
    "what is today", "what day is it", "date and time"]

def asksCurrentTime (text : String) : Bool :=
  let text := trimEnd (trimEndMatches " please" text)
  let text := (((stripSuffix " right now" text).or (stripSuffix " now" text)).map trimEnd).getD text
  timeQuestions.contains text

/-! ## Scenes and routines -/

def sceneTexts : List (List String × String) :=
  [(["goodnight genieclaw", "good night genieclaw", "goodnight genie claw",
      "good night genie claw", "goodnight", "good night"], "goodnight"),
    (["i m home", "i am home", "we re home", "we are home", "i m back", "i am back"], "arrival"),
    (["lock up the house", "lock up house"], "lock up house"),
    (["turn off everything", "turn everything off"], "all off")]

/-- The name of a scene or routine without articles, `please` and the word itself. -/
def sceneName (rest : String) : String :=
  let name := trimStartMatches "an " (trimStartMatches "a " (trimStartMatches "the " rest))
  let name := trimEnd (trimEndMatches " please" name)
  trim (trimEndMatches " routine" (trimEndMatches " scene" name))

def sceneOrRoutineActivationRequest (text : String) : Option String :=
  let text := (stripPrefix "please " text).getD text
  match (sceneTexts.find? fun entry => entry.1.contains text).map Prod.snd with
  | some scene => some scene
  | none =>
    ["activate ", "start ", "run "].findSome? fun verb =>
      (stripPrefix verb text).bind fun rest =>
        let rest := trim rest
        if containsText rest " scene" || containsText rest " routine" then
          let entity := sceneName rest
          if entity = "" then none else some entity
        else none

/-! ## Media -/

def mediaTexts : List (List String × String) :=
  [(["play focus music", "start focus music", "focus music"], "focus music playlist"),
    (["put on the morning news", "put on morning news", "play the morning news",
      "play morning news"], "morning news"),
    (["play the weather report", "play weather report", "put on the weather report",
      "put on weather report"], "local weather report")]

def playMediaRequest (text : String) : Option String :=
  let text := (stripPrefix "please " text).getD text
  match (mediaTexts.find? fun entry => entry.1.contains text).map Prod.snd with
  | some query => some query
  | none =>
    ["play ", "start ", "put on "].findSome? fun verb =>
      (stripPrefix verb text).bind fun rest =>
        let rest := trim rest
        if containsText rest "playlist" then
          let name := trimEnd (trimEndMatches " please" rest)
          some (trimStartMatches "an " (trimStartMatches "a " (trimStartMatches "the " name)))
        else none

/-! ## Speakers -/

def householdSpeakers : List (String × String) :=
  [("jared", "Jared"), ("sarah", "Sarah"), ("leo", "Leo"), ("mia", "Mia")]

/-- What follows the name of a speaker, if anything does. -/
def behindSpeaker (name text : String) : Option String :=
  (stripPrefix (name ++ " ") text).bind fun rest =>
    let rest := trim rest
    if rest = "" then none else some rest

def stripHouseholdSpeakerPrefix (text : String) : String :=
  (householdSpeakers.findSome? fun speaker => behindSpeaker speaker.1 text).getD text

def householdSpeaker (text : String) : Option String :=
  (householdSpeakers.find? fun speaker => (behindSpeaker speaker.1 text).isSome).map Prod.snd

def resolveSpeakerPossessive (query : String) (speaker : Option String) : String :=
  match speaker, stripPrefix "my " query with
  | some name, some rest => name ++ " " ++ rest
  | _, _ => query

end GenieClaw.Quick
