import GenieClaw.Quick.HomeControl

/-!
# Weather and web searches

`weather_request` and `web_search_request` of `tools/quick.rs`.
-/

namespace GenieClaw.Quick

open Library.Text

def timeQualifiers : List String :=
  [" right now", " this weekend", " next weekend", " this week", " next week", " this month",
    " next month", " this morning", " this afternoon", " this evening", " tonight", " today",
    " tomorrow", " now", " later", " currently"]

/-- Each of the qualifiers comes off the end, in this order. -/
def stripTrailingTimeQualifier (subject : String) : String :=
  trim (timeQualifiers.foldl (fun text qualifier => trimEndMatches qualifier text) subject)

/-! ## Weather -/

def extractLocationAfterMarker (text marker : String) : Option String :=
  (rsplitOnceAt marker text).bind fun parts =>
    let location := trimStartMatches "the " (trimEnd (trimEndMatches " please" (trim parts.2)))
    let location := stripTrailingTimeQualifier location
    if location = "" then none else some location

def namedLocation (text : String) : Option String :=
  (extractLocationAfterMarker text " in ").or (extractLocationAfterMarker text " for ")

def isPlace (location : String) : Bool :=
  !(location = "" || location = "today" || location = "tomorrow" || isTimeExpression location)

def weatherRequest (text : String) : Option (String × Bool) :=
  if startsWith "is it rain" text || startsWith "will it rain" text then
    if containsText text "school pickup" then some ("home", false)
    else
      match (namedLocation text).filter isPlace with
      | some location =>
        if containsText location "school pickup" then some ("home", false)
        else some (location, false)
      | none => some ("home", false)
  else if !(containsText text "weather" || containsText text "forecast") then none
  else
    ((namedLocation text).filter isPlace).map fun location =>
      (location, containsAny text ["forecast", "tomorrow", "week", "7 day", "seven day"])

/-! ## Web searches -/

def companyTickers : List (List String × String) :=
  [(["apple"], "AAPL"), (["microsoft"], "MSFT"), (["google", "alphabet"], "GOOGL"),
    (["amazon"], "AMZN"), (["tesla"], "TSLA"), (["meta", "facebook"], "META"),
    (["nvidia"], "NVDA"), (["netflix"], "NFLX")]

def companyTicker (subject : String) : Option String :=
  (companyTickers.find? fun entry => entry.1.contains (trim subject)).map Prod.snd

def stockFillers : List String :=
  ["what", "whats", "is", "are", "the", "a", "an", "current", "s", "tell", "me", "show", "get",
    "give", "check", "hey", "please", "of", "for"]

/-- The words behind the last filler. -/
def stockSubjectBefore (before : String) : String :=
  let words := splitWhitespace before
  let words := if words.getLast? = some "s" then words.dropLast else words
  stripTrailingTimeQualifier
    (joinWith " " (words.rtakeWhile fun word => !stockFillers.contains word))

def stockSubject (text : String) : String :=
  match splitOnceAt "stock price of " text with
  | some parts => stripTrailingTimeQualifier (trim parts.2)
  | none =>
    match splitOnceAt "stock price for " text with
    | some parts => stripTrailingTimeQualifier (trim parts.2)
    | none => ((splitOnceAt "stock price" text).map fun parts => stockSubjectBefore parts.1).getD ""

def newsTexts : List String :=
  ["read the news", "read news", "what s the news", "what is the news", "whats the news",
    "the latest news", "latest news", "what s the latest news", "what is the latest news",
    "give me the news", "show me the news", "tell me the news", "catch me up on the news",
    "what s in the news", "what s happening in the news"]

def asksForNews (text : String) : Bool :=
  newsTexts.contains (stripTrailingTimeQualifier (trimEnd (trimEndMatches " please" text)))

def webSearchIsFreshRequest (text : String) : Bool :=
  containsAny text
    [" current ", " now ", " today ", " latest ", " stock price of ", " stock price for ",
      " stock price ", " the current", " current "] ||
    [" now", " today", " currently", " latest"].any fun ending => endsWith ending text

def searchOpenings : List String :=
  ["search the web for ", "search web for ", "search online for ", "internet search for ",
    "web search ", "look up ", "lookup "]

def webSearchRequest (text : String) : Option (String × Bool) :=
  if startsWith "search memory " text || startsWith "search memories " text then none
  else if startsWith "remind me " text || startsWith "remind us " text then none
  else if containsText text "stock price" then
    let subject := stockSubject text
    if subject = "" then some ("stock price", true)
    else some ((companyTicker subject).getD subject ++ " stock price", true)
  else if asksForNews text then some ("top news headlines", true)
  else
    searchOpenings.findSome? fun opening =>
      (stripPrefix opening text).bind fun rest =>
        let query := trimEnd (trimEndMatches " please" (trim rest))
        if query = "" then none else some (query, webSearchIsFreshRequest text)

end GenieClaw.Quick
