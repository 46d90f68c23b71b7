import GenieClaw.Library.Substitute
import GenieClaw.Library.Text
import GenieClaw.Library.Words

/-!
# Sentences out of a stream of tokens

`SentenceStreamer` of `voice/streaming.rs` and the cleaning of a sentence for speech. A sentence
is handed on as soon as it is complete, and what is left is flushed at the end of the stream.
-/

namespace GenieClaw.Voice

open Library.Text Library

def maxSpokenSentences : Nat := 3

def minSentenceChars : Nat := 8

def backtick : Char := Char.ofNat 96

def isAsciiBoundary (ch : Char) : Bool := ch == '.' || ch == '!' || ch == '?'

def isCjkBoundary (ch : Char) : Bool := ch == '。' || ch == '！' || ch == '？'

/-! ## Cleaning a sentence -/

/-- A link gives way to its text. With `n` at least the length of the text. -/
def stripInlineLinks : Nat → List Char → List Char
  | 0, cs => cs
  | _, [] => []
  | n + 1, c :: cs =>
    if c = '[' then
      let linkText := cs.takeWhile (· ≠ ']')
      match cs.drop linkText.length with
      | ']' :: '(' :: rest =>
        linkText ++ stripInlineLinks n ((rest.dropWhile (· ≠ ')')).drop 1)
      | ']' :: rest => '[' :: linkText ++ ']' :: stripInlineLinks n rest
      | _ => '[' :: linkText
    else c :: stripInlineLinks n cs

def isUrlBracket (c : Char) : Bool :=
  c ∈ ['(', ')', '[', ']', '{', '}', ',', ';', ':', '"', '\'']

def isRawUrl (token : String) : Bool :=
  let trimmed := trimMatches isUrlBracket token
  startsWith "http://" trimmed || startsWith "https://" trimmed || startsWith "www." trimmed

def stripRawUrls (text : String) : String :=
  joinWith " " ((splitWhitespace text).filter fun token => !isRawUrl token)

def stripNumberedPrefix (line : String) : String :=
  let digits := line.toList.takeWhile fun c => '0' ≤ c && c ≤ '9'
  match line.toList.drop digits.length with
  | '.' :: ' ' :: rest => if digits ≠ [] then String.ofList rest else line
  | _ => line

def stripListOrHeaderPrefix (line : String) : String :=
  let trimmed := trimStart (String.ofList (line.toList.dropWhile (· = '#')))
  stripNumberedPrefix ((((stripPrefix "- " trimmed).or (stripPrefix "* " trimmed)).or
    (stripPrefix "• " trimmed)).getD trimmed)

/-- One character after the other, with the result so far. -/
def collapseStep (collapsed : List Char × Bool) (ch : Char) : List Char × Bool :=
  if isWhitespace ch then
    if !collapsed.2 ∧ collapsed.1 ≠ [] then (collapsed.1 ++ [' '], true) else collapsed
  else (collapsed.1 ++ [ch], false)

def collapseWhitespace (text : String) : String :=
  String.ofList (text.toList.foldl collapseStep ([], false)).1

def removeChars (chars : List Char) (text : String) : String :=
  String.ofList (text.toList.filter fun c => c ∉ chars)

/-- Markdown emphasis. -/
def stripInline (text : String) : String :=
  removeChars [backtick] (removeChars ['*'] (replaceText "__" "" (replaceText "**" "" text)))

/-- Punctuation that is not read well. -/
def cleanPunctuation (text : String) : String :=
  let text := replaceText " – " ", " (replaceText " — " ", " (replaceText " - " ", "
    (replaceText "..." ", " text)))
  let text := String.ofList (text.toList.flatMap fun c =>
    if c = '(' ∨ c = ')' then [',', ' '] else [c])
  replaceText "'s" "s" (removeChars ['[', ']', '{', '}', '"'] text)

def cleanSentence (text : String) : String :=
  let strippedLinks := String.ofList (stripInlineLinks text.toList.length text.toList)
  let strippedPrefix := stripListOrHeaderPrefix (trim (stripRawUrls strippedLinks))
  collapseWhitespace (trim (cleanPunctuation (stripInline strippedPrefix)))

/-! ## Abbreviations -/

def abbreviations : List String :=
  ["mr", "mrs", "ms", "dr", "prof", "sr", "jr", "st", "rev", "gen", "sen", "rep", "gov", "pres",
    "vs", "etc", "inc", "ltd", "co", "corp", "llc", "dept", "est", "approx", "vol", "no", "fig",
    "e.g", "i.e", "a.m", "p.m", "u.s", "u.k", "u.s.a"]

/-- `format::ends_with_abbreviation`. -/
def endsWithAbbreviation (current : String) : Bool :=
  let lastToken := String.ofList
    (((splitWhitespace current).getLast?.getD "").toList.rdropWhile (· = '.'))
  lastToken ≠ "" && decide (toAsciiLowercase lastToken ∈ abbreviations)

/-! ## The streamer -/

structure SentenceStreamer where
  pendingSentence : List Char := []
  inCodeFence : Bool := false
  /-- The backticks in the marker buffer. -/
  fenceMarkers : Nat := 0
  awaitingAsciiBoundary : Bool := false
  emitted : Nat := 0
  maxSentences : Nat

namespace SentenceStreamer

variable (s : SentenceStreamer)

def push (ch : Char) : SentenceStreamer := { s with pendingSentence := s.pendingSentence ++ [ch] }

def full : Bool := decide (s.maxSentences ≤ s.emitted)

def tryEmit : Option String × SentenceStreamer :=
  let cleaned := cleanSentence (String.ofList s.pendingSentence)
  if minSentenceChars ≤ cleaned.toList.length then
    (some cleaned, { s with pendingSentence := [], emitted := s.emitted + 1 })
  else (none, s)

/-- Whether the character went into the marker buffer. -/
def consumeFenceMarker (ch : Char) : Bool × SentenceStreamer :=
  if ch = backtick then
    if s.fenceMarkers + 1 = 3 then
      (true, { s with inCodeFence := !s.inCodeFence, fenceMarkers := 0 })
    else (true, { s with fenceMarkers := s.fenceMarkers + 1 })
  else (false, { s with fenceMarkers := 0 })

/-- White space after a sentence end. It is kept unless the last sentence was just emitted. -/
def confirmBoundary (ch : Char) : Option String × SentenceStreamer :=
  if endsWithAbbreviation (String.ofList s.pendingSentence) then (none, s.push ch)
  else
    match s.tryEmit with
    | (some sentence, s) => (some sentence, if s.full then s else s.push ch)
    | (none, s) => (none, s.push ch)

/-- A character outside the fences. -/
def readChar (ch : Char) : Option String × SentenceStreamer :=
  if s.awaitingAsciiBoundary ∧ isWhitespace ch then
    { s with awaitingAsciiBoundary := false }.confirmBoundary ch
  else
    let s := { s with awaitingAsciiBoundary := false }.push ch
    if isCjkBoundary ch then s.tryEmit
    else (none, { s with awaitingAsciiBoundary := isAsciiBoundary ch })

def step (ch : Char) : Option String × SentenceStreamer :=
  match s.consumeFenceMarker ch with
  | (true, s) => (none, s)
  | (false, s) => if s.inCodeFence then (none, s) else s.readChar ch

/-- The loop over the characters of a chunk, which ends with the last sentence. -/
def feedChars (s : SentenceStreamer) : List Char → List String × SentenceStreamer
  | [] => ([], s)
  | ch :: rest =>
    match s.step ch with
    | (some sentence, s) =>
      if s.full then ([sentence], s)
      else
        let (sentences, s) := s.feedChars rest
        (sentence :: sentences, s)
    | (none, s) => s.feedChars rest

def feed (chunk : String) : List String × SentenceStreamer :=
  if s.full then ([], s) else s.feedChars chunk.toList

/-- A marker that is not complete goes back to the sentence. -/
def finish : Option String :=
  if s.full then none
  else
    let pending := if s.inCodeFence then s.pendingSentence
      else s.pendingSentence ++ List.replicate s.fenceMarkers backtick
    let trimmed := trim (String.ofList pending)
    if trimmed = "" then none
    else
      let cleaned := cleanSentence trimmed
      if cleaned = "" then none else some cleaned

def feedAll (s : SentenceStreamer) : List String → List String × SentenceStreamer
  | [] => ([], s)
  | token :: rest =>
    let (sentences, s) := s.feed token
    let (later, s) := s.feedAll rest
    (sentences ++ later, s)

end SentenceStreamer

/-- The sentences that `stream_and_speak_with_hints` hands to the synthesiser. -/
def streamAndSpeak (tokens : List String) : List String :=
  let (sentences, s) := SentenceStreamer.feedAll { maxSentences := maxSpokenSentences } tokens
  sentences ++ s.finish.toList

example : streamAndSpeak ["It is Dr. No", "on. Bye", "!"] = ["It is Dr. Noon.", "Bye!"] := by
  decide +kernel

/-!
## A whole reply for the voice

`for_voice` of `voice/format.rs`: the reply without its markup, cut after three sentences and
cleaned for the synthesiser. Where a helper is the same in `voice/streaming.rs`, it is taken from
there.
-/

namespace Format

def minSentenceChars : Nat := 5

/-! ## Markup -/

/-- A line between two code fences is skipped, and its markers are cut off. A carriage return at
its end goes with the white space. -/
def stripLine (line : String) : String :=
  let trimmed := trim line
  let line := if startsWith "#" trimmed then
    trim (String.ofList (trimmed.toList.dropWhile (· = '#'))) else trimmed
  stripNumberedPrefix ((((stripPrefix "- " line).or (stripPrefix "* " line)).or
    (stripPrefix "• " line)).getD line)

def isFence (line : String) : Bool :=
  startsWith (String.ofList [backtick, backtick, backtick]) (trim line)

/-- The loop over the lines; an empty line adds nothing. -/
def stripLines : Bool → List String → List String
  | _, [] => []
  | inCodeBlock, line :: rest =>
    if isFence line then stripLines (!inCodeBlock) rest
    else if inCodeBlock ∨ stripLine line = "" then stripLines inCodeBlock rest
    else stripLine line :: stripLines inCodeBlock rest

/-- A link gives way to its text, which may also be the rest of the reply. With `n` at least the
length of the text. -/
def stripLinks : Nat → List Char → List Char
  | 0, cs => cs
  | _, [] => []
  | n + 1, c :: cs =>
    if c = '[' then
      let linkText := cs.takeWhile (· ≠ ']')
      match cs.drop (linkText.length + 1) with
      | '(' :: rest => linkText ++ stripLinks n ((rest.dropWhile (· ≠ ')')).drop 1)
      | rest => linkText ++ stripLinks n rest
    else c :: stripLinks n cs

def stripMarkdown (text : String) : String :=
  let result := stripInline (joinWith " " (stripLines false (splitLines text)))
  String.ofList (stripLinks result.toList.length result.toList)

def hasRawUrlMarker (text : String) : Bool :=
  containsText text "http://" || containsText text "https://" || containsText text "www."

def normalizeFrom : Bool → List Char → List Char
  | _, [] => []
  | lastWasSpace, ch :: rest =>
    if isWhitespace ch then
      if lastWasSpace then normalizeFrom true rest else ' ' :: normalizeFrom true rest
    else ch :: normalizeFrom false rest

def normalizeWhitespace (text : String) : String := String.ofList (normalizeFrom false text.toList)

/-! ## Sentences -/

def isAsciiDigit (c : Char) : Bool := '0' ≤ c && c ≤ '9'

/-- Whether the character `ch` behind `prev` and before `next` ends the sentence `current`, which
it is part of. -/
def endsSentence (prev : Option Char) (ch : Char) (next : Option Char) (current : List Char) :
    Bool :=
  if isCjkBoundary ch then true
  else if isAsciiBoundary ch then
    let isDecimal := ch == '.' && prev.any isAsciiDigit && next.any isAsciiDigit
    !isDecimal && next.all isWhitespace &&
      decide (minSentenceChars ≤ (trimChars current).length) &&
      !endsWithAbbreviation (String.ofList current)
  else false

/-- The sentences that `truncate_for_voice` puts together, with `room` for as many. -/
def sentencesFrom : Nat → Option Char → List Char → List Char → List (List Char)
  | room, _, current, [] => if room = 0 ∨ trimChars current = [] then [] else [trimChars current]
  | room, prev, current, ch :: rest =>
    if room = 0 then []
    else if endsSentence prev ch rest.head? (current ++ [ch]) then
      trimChars (current ++ [ch]) :: sentencesFrom (room - 1) (some ch) [] rest
    else sentencesFrom room (some ch) (current ++ [ch]) rest

def truncateForVoice (text : String) (maxSentences : Nat) : String :=
  String.ofList ([' '].intercalate (sentencesFrom maxSentences none [] text.toList))

def cleanForTts (text : String) : String :=
  let pre := replaceText " – " ", " (replaceText " — " ", " (replaceText " - " ", "
    (replaceText "..." ", " text)))
  let result := pre.toList.flatMap fun ch =>
    if ch = '(' ∨ ch = ')' then [',', ' ']
    else if ch ∈ ['[', ']', '{', '}', '"'] then [] else [ch]
  replaceText "'s" "s" (String.ofList result)

/-- The reply without its markup, on one line. -/
def plainReply (text : String) : String :=
  let result := stripMarkdown text
  if hasRawUrlMarker result then stripRawUrls result else normalizeWhitespace result

def forVoice (text : String) : String :=
  trim (cleanForTts (truncateForVoice (plainReply text) 3))

end Format

end GenieClaw.Voice
