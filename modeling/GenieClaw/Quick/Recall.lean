import GenieClaw.Library.PhraseTests
import GenieClaw.Library.Phrases

/-!
# Questions to the memory

The detectors of `tools/quick.rs` that recall or forget memories, with their tables of phrases.
-/

namespace GenieClaw.Quick

open Library.Text Library.Text.PhraseTest

/-! ## Recalling -/

def memoryStatusTests : List (List PhraseTest) :=
  having ["memory status", "memory health", "memory database", "memory diagnostics", "memory index"]

def asksMemoryStatus (text : String) : Bool := passesAny memoryStatusTests text

def nameTests : List (List PhraseTest) :=
  having ["what is my name", "whats my name", "what s my name", "do you know my name",
    "do you remember my name", "remember my name"] ++
  exactly ["who am i"] ++
  ending [" who am i"]

def roleTests : List (List PhraseTest) :=
  starting ["who is ", "who are ", "whos ", "who s "] ++
  having [" in this house", " in our house", " household"]

def roleNames : List (List String × String) :=
  [(["dad", "father"], "dad"), (["mom", "mother", "mum"], "mom"), (["son", "sons"], "son"),
    (["daughter", "daughters"], "daughter"), (["child", "children", "kid", "kids"], "child"),
    (["wife"], "wife"), (["husband"], "husband"), (["partner"], "partner"),
    (["dog", "dogs"], "dog"), (["cat", "cats"], "cat"), (["pet", "pets"], "pet")]

def normalizeHouseholdRoleQueryToken (token : String) : Option String :=
  let token := trimMatches (fun ch => ['.', ',', '?', '!', ':', ';'].contains ch) token
  (roleNames.find? fun role => role.1.contains token).map Prod.snd

def householdRoleQuery (text : String) : Option String :=
  if passesAny roleTests text then
    (splitWhitespace text).findSome? normalizeHouseholdRoleQueryToken
  else none

def structuredHouseholdTests : List (List PhraseTest) :=
  starting ["how old is ", "what age is "] ++
  having ["credit score"] ++
  exactly ["what is my weight", "what s my weight", "what's my weight"] ++
  having ["vo2 max", "tv tonight", "on tv tonight", "city council meeting", "what time is my bus",
    "bus tomorrow", "bus pickup tomorrow", "who s coming to dinner", "who's coming to dinner",
    "coming to dinner tonight", "can i have a snack", "did i finish my chores",
    "did mom approve my sleepover", "which leftovers should we eat first",
    "who changed the thermostat", "did mia take her allergy medicine", "can i play outside",
    "allowed to play outside", "what do we still need to do before trash day",
    "did anyone take the garbage bins out", "which homework needs internet", "can i use the stove",
    "can i use stove", "which sensors need batteries soon", "did i pack my library book",
    "why did my alarm not go off", "what plants need attention", "why did away mode fail",
    "make an end of day house summary", "make an end-of-day house summary",
    "can i open the front door", "why is the basement humid", "what needs charging tonight",
    "when is the next filter change", "was the front door locked after", "can i print my homework",
    "did my tooth fairy box stay closed", "what changed in the garage today",
    "why did the security alarm chirp", "who s in the backyard", "who's in the backyard",
    "what s left on my bedtime chart", "what's left on my bedtime chart",
    "did i close the upstairs window before the rain", "what devices are on guest wi fi",
    "what devices are on guest wifi", "what devices are on guest wi-fi", "side path icy",
    "why is the office internet slow", "what chores did leo skip this week",
    "can the cat sleep in my room", "why is mia s purifier on high",
    "why is mia's purifier on high", "did the garage close after jared left",
    "did i feed the cat too much", "what s the oldest thing in the fridge",
    "what's the oldest thing in the fridge", "why is my lamp flickering",
    "can i open the garage door", "did anyone bypass a sensor", "did dad see my message",
    "can i practice drums now", "which automation fired the most today",
    "when did the laundry finish", "did my laundry get moved"] ++
  [[starts "can i ", has "watch cartoons"]] ++
  having ["who opened the garage door"] ++
  exactly ["is mia home", "is leo home", "is sarah home", "is jared home"] ++
  having ["what groceries are low", "saturday morning routine", "what s next before school",
    "what's next before school"] ++
  starting ["what channel is ", "what channel s "] ++
  [[has "subscription", has "due"], [has "subscription", has "renew"],
    [starts "what does ", has " like"], [starts "what size shoe does ", has " wear"],
    [starts "what shoe size does ", has " wear"], [has "dishwasher", has "clean"],
    [has "dishwasher", has "dirty"], [starts "did ", has "trash truck"],
    [has "temperature", has "attic"], [starts "is ", has "home from school"],
    [starts "is ", has " allowed"], [starts "do we have ", has " left"],
    [starts "do we have ", has "eggs"], [starts "are there ", has " left"],
    [starts "does ", has " have "], [starts "when is ", has "dentist appointment"],
    [starts "when is ", has "vet appointment"], [starts "when is ", has "checkup"]] ++
  having ["sun set", "sunset"] ++
  [[starts "did ", has " feed "], [starts "did ", has " fed "],
    [starts "did ", has " brush "], [starts "did ", has " brushed "],
    [starts "did everyone", has "brush", has "teeth"], [starts "did ", has "allowance"],
    [starts "did ", has "pay", has "bill"], [starts "can ", has " unlock "]] ++
  having ["school bus", "bill due", "electricity bill", "trash pickup", "trash day",
    "community pool"] ++
  [[has "pool", has "open"], [has "library", has "close"], [has "library", has "hours"]] ++
  having ["recycling week", "recycling day", "parent teacher conference",
    "parent-teacher conference", "dentist appointment", "vet appointment",
    "turned off the security system", "disarmed the security system", "picking up the kids"] ++
  [[has "school pickup", lacks "raining", startsNot "is it rain"]] ++
  having ["shopping list", "allergic", "allergy", "homework rule", "homework rules"]

def isStructuredHouseholdQuestion (text : String) : Bool :=
  passesAny structuredHouseholdTests text

def householdNoteTests : List (List PhraseTest) :=
  starting ["what did i say about ", "what did we say about ", "find my note about ",
    "find note about ", "find the note about ", "show my note about ", "show the note about ",
    "what did i write about ", "what did we write about ", "what did the vet say about ",
    "what did the mechanic say about ", "what color is ", "what colour is ",
    "what color did we paint ", "what colour did we paint ", "what s the model number ",
    "what is the model number ", "who took the photos ", "find the warranty for "] ++
  [[starts "find the ", has " warranty"]] ++
  starting ["what is the warranty for ", "what s the warranty for ", "what's the warranty for ",
    "find the receipt for ", "find manual for ", "find the manual for ",
    "find the user manual for "] ++
  [[starts "find the ", has " manual"]] ++
  starting ["find anything about ", "find my essay draft", "find my debate research",
    "find the essay draft", "find the ladder safety note", "tell me the dinosaur fact",
    "read me the next step"] ++
  having ["which breaker controls the dishwasher", "what did we do last time ants",
    "camping flashlight", "rain boots", "slow cooker manual", "timer chart"] ++
  [[has "garage camera", has "bike"]] ++
  having ["water heater receipt", "white extension cord"] ++
  [[has "chicken recipe", has "peanuts"]] ++
  having ["vaccination form", "field trip form", "photo backdrop instructions", "red marker"] ++
  [[has "furnace", has "code 31"], [has "plumber", has "shutoff valve"]] ++
  having ["winter poem", "poem about winter", "toddler gate instructions"] ++
  [[has "recipe", has "green bowl"], [has "flashlight", has "lights go out"],
    [has "tournament", has "snacks"]] ++
  having ["why didn t the sprinklers run", "why didn't the sprinklers run",
    "cold medicine instructions", "library book", "recital outfit", "blue cup"] ++
  [[has "side gate", has "while we were gone"]] ++
  having ["guest speaker"] ++
  starting ["find the instructions for ", "find the sewing kit", "how do i remove ",
    "how do we remove ", "how long do i boil ", "how long should i boil ", "what bin does "] ++
  having ["science fair checklist", "tablet charger", "backpack", "allergy action plan",
    "pajama day", "dishwasher error", "which filter"] ++
  starting ["what is the doctor", "what s the doctor", "what's the doctor",
    "find the manual for the car", "where are the tax documents", "what is the license plate",
    "what s the license plate", "what's the license plate", "who do we call for ",
    "what is the school", "what s the school", "what's the school", "what is the vet",
    "what s the vet", "what's the vet", "what is the phone number for ",
    "what s the phone number for ", "what's the phone number for ", "what is the ip address of ",
    "what s the ip address of ", "what's the ip address of ", "how do i reset ",
    "how do we reset "] ++
  having ["printer wi fi", "printer wifi"] ++
  [[has "grandma", has "wi fi note"], [has "grandma", has "wifi note"]] ++
  having ["wet soccer shoes", "blue paint", "safest way out"] ++
  starting ["how do i clean ", "how do we clean ", "what did we have for dinner ",
    "find the recipe for ", "what s on the hardware store list",
    "what is on the hardware store list", "what's on the hardware store list", "we have a leak ",
    "there is a leak ", "where are ", "where is ", "where s ", "where did i put ",
    "where did we put ", "what did we watch about ", "what did i watch about ", "what movie ",
    "what was that movie "]

def isHouseholdNoteQuestion (text : String) : Bool := passesAny householdNoteTests text

def semanticHouseholdTests : List (List PhraseTest) :=
  having ["want to paint", "stomach ache", "teach me magic", "magic trick", "need a manicure",
    "good charity", "learn french", "suggest a podcast", "motivating speech",
    "what shoes go with"] ++
  exactly ["i m thirsty", "i am thirsty", "i'm thirsty"] ++
  having ["going to yoga", "yoga class", "sunbathing", "guys night", "order thai food",
    "have a fever", "it s snowing", "it's snowing", "mia doing her homework", "i m back",
    "i'm back", "bedtime story", "romantic poem", "hiking trail", "extra basil", "craving spicy",
    "picture of a sunset", "photo of a sunset", "good name for a goldfish", "feel anxious",
    "roman empire", "music fits this mood", "going camping", "make me a cocktail",
    "plan a date night", "washing machine is leaking", "lock the bike",
    "order groceries for a taco bar", "taco bar", "cold in the living room", "i m cold"] ++
  [[has "reading", has "too bright"]] ++
  having ["make my room cozy", "did my package arrive", "water the garden"] ++
  [[has "recipe", has "chickpea"], [has "hallway light", has "turn on"]] ++
  having ["can t sleep", "safe at night"] ++
  [[has "spilled water", has "outlet"]] ++
  having ["waking the kids", "room so hot", "scared of the dark", "laptop battery"] ++
  [[has "robot vacuum", has "under my bed"]] ++
  having ["piano practice quiet", "practicing violin", "spaceship", "toddler safe", "toddler-safe",
    "smell gas"] ++
  [[has "bake cookies", has "waking leo"]] ++
  having ["robot vacuum stuck", "package still on the porch", "beeping sound",
    "porch light still on", "heard glass break", "safest way out"] ++
  [[has "bake cookies", has "waking leo"]] ++
  having ["house better for pollen", "pollen", "room good for a video call", "reading with dad",
    "work call"] ++
  [[has "garage ventilated", has "paint"]] ++
  having ["calm morning for leo", "after dinner cleanup", "after-dinner cleanup", "board games",
    "basement humid", "rain boots", "fan on low for sleep", "cold after bath", "desk feels glarey",
    "quiet drawing", "workshop dust control", "side path icy", "dripping", "room smells weird",
    "too scared to go downstairs", "laundry room not scary", "need a haircut", "haircut",
    "what should i wear", "wear to the wedding", "want to meditate", "teach me spanish"] ++
  [[has "hungry", has "spicy"]] ++
  having ["book a hotel", "hotel in chicago", "change the ac filter", "change ac filter",
    "what should we do with the kids", "kids today", "toilet is clogged", "toilet clogged",
    "sew a button", "need a laugh", "listen to jazz", "listen to some jazz"] ++
  [[has "suggest", has "book"]] ++
  having ["bored of cooking", "ripe banana", "beach trip", "freeze tonight", "pack a lunch",
    "patio cushion", "bike ride", "order dog food", "what s for breakfast", "what's for breakfast",
    "father s day"] ++
  [[has "dad", has "gift"]] ++
  having ["need a break"] ++
  [[has "wine", has "steak"]] ++
  having ["order more ink", "safe to run"] ++
  [[has "sarah", has "birthday last year"]] ++
  having ["game night", "baby is crying again", "chicken but no ideas",
    "who do we know that fixes sinks", "learn about the solar system", "keep oversleeping",
    "when should i leave for the airport", "buy food for the dinner party", "i m really hot",
    "i'm really hot", "guests coming over", "baby is awake", "olive oil", "build a bookshelf",
    "toilet keeps running"] ++
  [[has "knee", has "run"]] ++
  having ["side dish for pasta", "pack my gym bag", "over budget", "text mom happy birthday",
    "driving home in the rain", "safe to eat", "dark parking lot", "movie we haven t seen",
    "defrost the turkey", "what s for dinner", "what's for dinner", "going for a run",
    "feeling cold", "feel cold", "i am cold"] ++
  [[has "snack", has "lunchbox"], [has "snack", has "lunch box"],
    [has "detergent", has "like"], [has "detergent", has "order"],
    [has "detergent", has "more"], [has "movie", has "robot"]] ++
  exactly ["i m bored"] ++
  having ["weird noise coming from the car", "printer", "what can i cook with", "comfort movie",
    "warm enough to go to the park", "date night idea", "too late to call grandma",
    "baby is crying"] ++
  exactly ["i m stressed"] ++
  having ["science fair idea", "what can i bake", "headache", "read me a story",
    "movie for tonight", "find a movie for tonight", "order more dog food", "trip to the zoo"] ++
  [[has "hungry", has "diet"]] ++
  having ["washing machine is shaking"] ++
  exactly ["watch tv"] ++
  having ["someone is at the door", "scary movie", "need a drink", "too bright", "lonely",
    "sink smells", "leaving for work", "make tacos", "muggy", "cut my finger", "where are my keys",
    "noise outside", "order pizza", "start the car", "math homework", "tired of this song",
    "tell me a joke", "ephemeral", "build a fort", "running late for the train"] ++
  [[has "air quality", lacks "nursery"]] ++
  having ["birthday party", "spider", "can t find the remote", "can't find the remote"] ++
  [[has "garage freezer", lacks "too warm"]]

def isSemanticHouseholdMemoryQuestion (text : String) : Bool :=
  if containsText text "printer" && containsText text "out of ink" then false
  else passesAny semanticHouseholdTests text

def secretTests : List (List PhraseTest) :=
  having ["password", "passcode", "gate code", "door code", "lock code", "alarm code",
    "security code", "spare keys", "house keys"] ++
  [[has "code", has "account"], [has "code", has "netflix"], [has "code", has "subscription"],
    [has "code", has "shed"]] ++
  having ["combination", "combo", "confirmation number", "account number", "bank login",
    "password manager", "secure vault", "credentials vault"]

def secretQuestionTests : List (List PhraseTest) :=
  having ["what", "show", "find", "where", "number", "key", "login", "credential", "wifi", "wi fi"]

def isAppOnlySecretQuestion (text : String) : Bool :=
  passesAny secretTests text && !containsText text "guest speaker" &&
    passesAny secretQuestionTests text

def withoutPlease (text : String) : String := trimEnd (trimEndMatches " please" text)

def pronouns : List String := ["that", "it", "this"]

def recallOpenings : List String :=
  ["what do you remember about ", "what do you know about ", "do you remember ",
    "search memory for ", "search memories for ", "recall memory for ", "recall memories for "]

def meQuestions : List String :=
  ["what do you remember", "what do you know about me", "what do you remember about me",
    "what do you know about us", "what do you remember about us"]

/-- The first opening behind which there is something to search for. -/
def openedRecall (text : String) : Option String :=
  recallOpenings.findSome? fun opening =>
    (stripPrefix opening text).bind fun rest =>
      let query := withoutPlease (trim rest)
      if query = "" ∨ pronouns.contains query then none else some query

def memoryRecallQuery (text : String) : Option String :=
  if passesAny nameTests text then some "name"
  else
    match householdRoleQuery text with
    | some role => some role
    | none =>
      if isStructuredHouseholdQuestion text || isAppOnlySecretQuestion text ||
          isHouseholdNoteQuestion text || isSemanticHouseholdMemoryQuestion text then
        some text
      else
        match openedRecall text with
        | some query => some query
        | none => if meQuestions.contains text then some "me" else none

def noteVerbs : List String :=
  ["Find ", "find ", "Show me ", "show me ", "Show ", "show ", "Look up ", "look up "]

def isSentenceEnd (ch : Char) : Bool := ['.', '?', '!'].contains ch

/-- `trim_end_matches` with the characters at the end of a sentence. -/
def withoutSentenceEnd (text : String) : String :=
  String.ofList (text.toList.rdropWhile isSentenceEnd)

/-- The query for a note, in the case of the original text. -/
def noteRecallQueryFromOriginal (original : String) : Option String :=
  let body := trim (((splitOnceAt ": " original).map Prod.snd).getD original)
  if endsWith " note" (withoutSentenceEnd (toAsciiLowercase body)) then
    let query := (noteVerbs.findSome? fun verb => stripPrefix verb body).getD body
    let query := replaceText "'s " " " (trim (withoutSentenceEnd query))
    if query = "" then none else some query
  else none

/-! ## Forgetting -/

/-- The longest ones come first. -/
def forgetOpenings : List String :=
  ["forget about my ", "forget about the ", "forget about ", "forget my ", "forget the ",
    "forget ", "delete what you know about ", "delete everything you know about ",
    "delete my note about ", "delete the note about ", "delete my note on ",
    "delete the note on "]

def memoryForgetQuery (text : String) : Option String :=
  (forgetOpenings.findSome? fun opening => stripPrefix opening text).bind fun rest =>
    let query := withoutPlease (trim rest)
    if query = "" ∨ pronouns.contains query then none else some query

end GenieClaw.Quick
