import GenieClaw.Memory.Household

/-!
# Facts in an utterance

`memory/extract.rs`: the patterns that `extract_facts` looks for in what the user says. Most of
them are looked for in the lower-cased text, which is made only where a scan of the bytes finds
one of a few shorter fragments.
-/

namespace GenieClaw.Memory

open Library Library.Text

structure ExtractedFact where
  category : String
  content : String
deriving DecidableEq

/-- `toUppercase` is the upper case of a character, which may be more than one. -/
structure FactTools extends TextTools where
  toUppercase : Char → List Char

/-! ## Pattern helpers -/

/-- `text.find(pattern)`, and what follows the pattern there. -/
def restAfter (text pattern : String) : Option String :=
  (splitOnce pattern.toList text.toList).map fun parts => String.ofList parts.2

/-- The first piece of a split at the marks. -/
def firstPiece (marks : List Char) (text : String) : String :=
  String.ofList (text.toList.takeWhile fun c => c ∉ marks)

def startsWithAsciiCi (haystack needle : String) : Bool :=
  (asBytes needle).length ≤ (asBytes haystack).length &&
    ((asBytes haystack).zip (asBytes needle)).all fun pair =>
      byteEqIgnoreAsciiCase pair.1 pair.2

def valueBoundaryMarkers : List String :=
  [" and ", " but ", " or ", " nor ", " so ", " yet ", " because ", " since ", " while ",
    " when ", " where ", " who ", " whom ", " whose ", " which ", " that ", " with ", " then ",
    " though ", " although ", " however ", " also ", " plus ", " too "]

/-- The characters before the earliest marker. -/
def clauseEnd (value : String) : Nat :=
  valueBoundaryMarkers.foldl (fun clause marker =>
    match splitOnce marker.toList value.toList with
    | some (before, _) => min clause before.length
    | none => clause) value.toList.length

def firstClause (value : String) : String :=
  String.ofList ((value.toList.take (clauseEnd value)).rdropWhile isWhitespace)

/-- The value after a pattern: up to the first mark, and in it the first clause. -/
def capturedValue (marks : List Char) (rest : String) : String :=
  trim (firstClause (trim (firstPiece marks rest)))

def sentenceMarks : List Char := ['.', ',', '!', '?']

def extractPattern (text : String) (patterns : List String) : Option String :=
  patterns.findSome? fun pattern =>
    (restAfter text pattern).bind fun rest =>
      let value := capturedValue sentenceMarks rest
      if value ≠ "" ∧ (splitWhitespace value).length ≤ 10 then some value else none

/-- `str::parse::<u32>` of a run of digits. -/
def parseU32 (digits : List Char) : Option Nat :=
  let n := digits.foldl (fun n c => n * 10 + (c.toNat - 48)) 0
  if digits ≠ [] ∧ n < 2 ^ 32 then some n else none

def endsAge (after : String) : Bool :=
  after = "" || startsWith "years" after || startsWith "year" after || startsWith "," after ||
    startsWith "." after

def extractAge (text : String) : Option Nat :=
  ["i'm ", "i am "].findSome? fun pattern =>
    (restAfter text pattern).bind fun rest =>
      let digits := rest.toList.takeWhile fun c => '0' ≤ c && c ≤ '9'
      (parseU32 digits).bind fun age =>
        let after := trimStart (String.ofList (rest.toList.drop digits.length))
        if 1 ≤ age ∧ age ≤ 120 ∧ endsAge after then some age else none

/-! ## Gates -/

def identityFragments : List String :=
  ["my name", "call me", "called", "i work", "working at", "work as", "i live", "i'm from",
    "i am from", "based in", "i'm a", "i am a", "i'm ", "i am "]

def preferenceFragments : List String :=
  ["i like", "i love", "i enjoy", "i prefer", "i hate", "i dislike", "i don't like",
    "i can't stand", "favo"]

def needsIdentityScanCi (text : String) : Bool := identityFragments.any (containsAsciiCi text)

def needsIdentityScan (lower : String) : Bool := needsIdentityScanCi lower

def needsPreferenceScanCi (text : String) : Bool :=
  preferenceFragments.any (containsAsciiCi text)

def needsPreferenceScan (lower : String) : Bool := needsPreferenceScanCi lower

def needsRelationshipScanCi (text : String) : Bool := containsAsciiCi text "my "

def needsExtractFactsLower (text : String) : Bool :=
  needsIdentityScanCi text || needsPreferenceScanCi text || needsRelationshipScanCi text

/-! ## Favorites, relationships and requests -/

def extractFavorite (text : String) : Option String := do
  let (start, _) ← splitOnce "my favo".toList text.toList
  let rest := text.toList.drop start.length
  let (beforeIs, afterIs) ← splitOnce " is ".toList rest
  let before := String.ofList beforeIs
  let thing ← (stripPrefix "my favorite " before).or (stripPrefix "my favourite " before)
  let value := capturedValue ['.', ',', '!'] (trim (String.ofList afterIs))
  if value = "" then none else some ("User's favorite " ++ trim thing ++ " is " ++ value)

def relations : List String :=
  ["wife", "husband", "partner", "son", "daughter", "mom", "dad", "mother", "father", "brother",
    "sister", "friend", "dog", "cat", "pet", "child", "baby", "boyfriend", "girlfriend"]

/-- A row of `RELATIONSHIP_PATTERNS`. -/
def relationshipPatterns (relation : String) : List String :=
  ["my " ++ relation ++ " is named ", "my " ++ relation ++ "'s name is ",
    "my " ++ relation ++ " is called "]

section

variable (tools : FactTools)

def capitalize (s : String) : String :=
  match s.toList with
  | [] => ""
  | c :: cs => String.ofList (tools.toUppercase c ++ cs)

def relationshipName (text pattern : String) : Option String :=
  (restAfter text pattern).bind fun rest =>
    let name := String.ofList (rest.toList.takeWhile fun c => tools.isAlphanumeric c || c == '\'')
    if name = "" then none else some name

def extractRelationships (text : String) : List (String × String) :=
  if containsText text "my " then
    relations.flatMap fun relation =>
      (relationshipPatterns relation).filterMap fun pattern =>
        (relationshipName tools text pattern).map fun name => (relation, name)
  else []

def extractRemember (text : String) : Option String :=
  if startsWithAsciiCi text "remember" then
    let rest := trim (String.ofList (text.toList.drop "remember".toList.length))
    let rest := trim ((stripPrefix "that" rest).getD rest)
    if rest = "" then none else some rest
  else none

/-! ## Facts -/

def identityFact (content : String) : ExtractedFact := ⟨"identity", content⟩

def preferenceFact (content : String) : ExtractedFact := ⟨"preference", content⟩

def identityFacts (lower : String) : List ExtractedFact :=
  ((extractPattern lower ["my name is ", "call me ", "i'm called "]).map fun name =>
    identityFact ("User's name is " ++ capitalize tools name)).toList ++
  ((extractAge lower).map fun age =>
    identityFact ("User is " ++ toString age ++ " years old")).toList ++
  ((extractPattern lower ["i work at ", "i work for ", "i'm working at ",
    "i am working at "]).map fun job => identityFact ("User works at " ++ job)).toList ++
  (((extractPattern lower ["i'm a ", "i am a ", "i work as a ", "i work as an "]).filter
    fun job => !startsWith "bit " job && !startsWith "lot " job && !startsWith "fan " job).map
      fun job => identityFact ("User is a " ++ job)).toList ++
  ((extractPattern lower ["i live in ", "i'm from ", "i am from ", "i'm based in "]).map
    fun loc => identityFact ("User lives in " ++ loc)).toList

/-- What the user likes or dislikes, in at most eight words. -/
def tasteFact (lower verb : String) (patterns : List String) : List ExtractedFact :=
  (((extractPattern lower patterns).filter fun pref => (splitWhitespace pref).length ≤ 8).map
    fun pref => preferenceFact ("User " ++ verb ++ " " ++ pref)).toList

def preferenceFacts (lower : String) : List ExtractedFact :=
  tasteFact lower "likes" ["i like ", "i love ", "i enjoy ", "i prefer "] ++
  tasteFact lower "dislikes" ["i hate ", "i dislike ", "i don't like ", "i can't stand "] ++
  (if containsText lower "favo" then ((extractFavorite lower).map preferenceFact).toList else [])

def relationshipFacts (lower : String) : List ExtractedFact :=
  (extractRelationships tools lower).map fun found =>
    ⟨"relationship", "User's " ++ found.1 ++ " is named " ++ capitalize tools found.2⟩

def rememberFact (text : String) : List ExtractedFact :=
  ((extractRemember (trim text)).map fun content => (⟨"fact", content⟩ : ExtractedFact)).toList

/-- The facts for which the lower-cased text is needed. -/
def patternFacts (lower : String) : List ExtractedFact :=
  (if needsIdentityScan lower then identityFacts tools lower else []) ++
  (if needsPreferenceScan lower then preferenceFacts lower else []) ++
  relationshipFacts tools lower

/-- A request to remember counts where nothing else was found. -/
def extractFacts (text : String) : List ExtractedFact :=
  if needsExtractFactsLower text then
    let facts := patternFacts tools (tools.toLowercase text)
    if facts = [] then rememberFact text else facts
  else rememberFact text

end

end GenieClaw.Memory
