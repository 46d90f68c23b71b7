import GenieClaw.Quick.HomeControl

/-!
# Durations and timers

`timer_request` of `tools/quick.rs`. Four readers look for a duration, a fraction first; whichever
finds one, the spans behind it are added.
-/

namespace GenieClaw.Quick

open Library Library.Text

/-! ## Units -/

def durationUnits : List (List String × Nat) :=
  [(["second", "seconds", "sec", "secs"], 1), (["minute", "minutes", "min", "mins"], 60),
    (["hour", "hours", "hr", "hrs"], 3600)]

def durationUnitSeconds (unit : Option String) : Option Nat :=
  unit.bind fun word => (durationUnits.find? fun entry => entry.1.contains word).map Prod.snd

/-- The index behind a word that may stand there. -/
def skipWord (words tokens : List String) (index : Nat) : Nat :=
  if tokens[index]?.any words.contains then index + 1 else index

/-! ## Fractions -/

/-- What a unit is divided by. -/
def fractionDivisor (token : String) : Option Nat := [("half", 2), ("quarter", 4)].lookup token

/-- The whole units in front of `and a half`. -/
def wholeSeconds (tokens : List String) (fraction unitSeconds : Nat) : Nat :=
  let lead := if 0 < fraction ∧ tokens[fraction - 1]?.any ["a", "an"].contains then fraction - 1
    else fraction
  if 0 < lead ∧ tokens[lead - 1]? = some "and" then
    ((List.range (lead - 1)).findSome? fun start =>
      (parseSpokenNumber (tokens.take (lead - 1)) start).bind fun spoken =>
        if spoken.2 = lead - 1 then some (saturated (spoken.1 * unitSeconds)) else none).getD 0
  else 0

def fractionAt (tokens : List String) (i : Nat) : Option (Nat × Nat) :=
  (tokens[i]?.bind fractionDivisor).bind fun divisor =>
    let unitIndex := skipWord ["a", "an"] tokens (skipWord ["of"] tokens (i + 1))
    (durationUnitSeconds tokens[unitIndex]?).map fun unitSeconds =>
      (saturated (wholeSeconds tokens i unitSeconds + unitSeconds / divisor), unitIndex)

def fractionalDuration (tokens : List String) : Option (Nat × Nat) :=
  (List.range tokens.length).findSome? (fractionAt tokens)

/-! ## Couples and dozens -/

def coupleDuration (tokens : List String) : Option (Nat × Nat) :=
  (tokens.findIdx? fun token => token = "couple").bind fun i =>
    let unitIndex := skipWord ["of"] tokens (i + 1)
    (durationUnitSeconds tokens[unitIndex]?).map fun unitSeconds =>
      (saturated (2 * unitSeconds), unitIndex)

/-- The number right in front of `dozen`; without one there is one dozen. -/
def dozens (tokens : List String) (i : Nat) : Nat :=
  if i = 0 then 1
  else ((tokens[i - 1]?.bind fun token => parseSpokenNumber [token] 0).map Prod.fst).getD 1

def dozenDuration (tokens : List String) : Option (Nat × Nat) :=
  (tokens.findIdx? fun token => token = "dozen").bind fun i =>
    if ((tokens.take i).reverse.take 2).any ["half", "quarter"].contains then none
    else
      let unitIndex := skipWord ["of"] tokens (i + 1)
      (durationUnitSeconds tokens[unitIndex]?).map fun unitSeconds =>
        (saturated (saturated (dozens tokens i * 12) * unitSeconds), unitIndex)

/-! ## Spans -/

/-- A number with a unit behind it: the seconds, and the index of the unit. -/
def spanAt (tokens : List String) (start : Nat) : Option (Nat × Nat) :=
  (parseSpokenNumber tokens start).bind fun spoken =>
    (durationUnitSeconds tokens[spoken.2]?).map fun unitSeconds =>
      (saturated (spoken.1 * unitSeconds), spoken.2)

/-- The spans that follow at once, with an `and` between them or not; each takes a token. -/
def trailingSpans (tokens : List String) : Nat → Nat → Nat → Nat × Nat
  | 0, total, last => (total, last)
  | rounds + 1, total, last =>
    match spanAt tokens (skipWord ["and"] tokens (last + 1)) with
    | some (seconds, unitIndex) =>
      trailingSpans tokens rounds (saturated (total + seconds)) unitIndex
    | none => (total, last)

def parseDuration (tokens : List String) : Option (Nat × Nat) :=
  (List.range tokens.length).findSome? fun start =>
    (spanAt tokens start).map fun span => trailingSpans tokens tokens.length span.1 span.2

/-- Further spans, and a fraction of the last unit. -/
def extendDurationWithTrailingSpans (tokens : List String) (total last : Nat) : Nat × Nat :=
  let spans := trailingSpans tokens tokens.length total last
  let tail := skipWord ["a", "an"] tokens (skipWord ["and"] tokens (spans.2 + 1))
  match tokens[tail]?.bind fractionDivisor, durationUnitSeconds tokens[spans.2]? with
  | some divisor, some unitSeconds => (saturated (spans.1 + unitSeconds / divisor), tail)
  | _, _ => spans

/-- The four readers in their order, and what follows. -/
def spokenDuration (tokens : List String) : Option (Nat × Nat) :=
  ((((fractionalDuration tokens).or (coupleDuration tokens)).or (dozenDuration tokens)).or
    (parseDuration tokens)).map fun found =>
      extendDurationWithTrailingSpans tokens found.1 found.2

/-! ## Labels -/

/-- The task behind the duration, unless a `for` clause holds the `to`. -/
def labelAfterDuration (tokens : List String) (unitEnd : Nat) : Option String :=
  let afterUnit := tokens.drop (unitEnd + 1)
  (afterUnit.findIdx? fun token => token = "to").bind fun toIndex =>
    let label := afterUnit.drop (toIndex + 1)
    if (afterUnit.take toIndex).contains "for" then none
    else if label = [] then none
    else some (joinWith " " label)

/-- The task in front of the duration, up to the last `in` or `after` before it. -/
def labelBeforeDuration (tokens : List String) (unitEnd : Nat) : Option String :=
  (tokens.findIdx? fun token => token = "to").bind fun toIndex =>
    let window := (tokens.take unitEnd).drop (toIndex + 1)
    let label := (window.rdropWhile fun token => !(["in", "after"].contains token)).dropLast
    if label = [] then none else some (joinWith " " label)

def reminderLabel (tokens : List String) (unitEnd : Nat) (reminderStyle : Bool) : Option String :=
  (labelAfterDuration tokens unitEnd).or
    (if reminderStyle then labelBeforeDuration tokens unitEnd else none)

def cleanTimerLabel (tokens : List String) : Option String :=
  let label := joinWith " " tokens
  let label := trim ((((stripPrefix "the " label).or (stripPrefix "a " label)).or
    (stripPrefix "an " label)).getD label)
  if label = "" then none else some label

/-- The words name a label, not a duration. -/
def durationFreeLabel (tokens : List String) : Option (List String) :=
  if tokens ≠ [] ∧ parseDuration tokens = none then some tokens else none

/-- A label behind `timer for`; with a duration there, on the other side of a second `for`. -/
def timerForLabelAfter (tokens : List String) (timerIndex : Nat) : Option String :=
  let behind := tokens.drop (timerIndex + 1)
  let rest := behind.tail
  if behind.head? ≠ some "for" ∨ rest = [] then none
  else if (parseDuration rest).isSome then
    (rest.findIdx? fun token => token = "for").bind fun forPos =>
      ((durationFreeLabel (rest.drop (forPos + 1))).or
        (durationFreeLabel (rest.take forPos))).bind cleanTimerLabel
  else cleanTimerLabel rest

/-- The tokens without a duration at their end. -/
def stripTrailingDurationPrefix (tokens : List String) : List String :=
  if tokens.length < 2 ∨ !tokens.getLast?.any isTimeUnit then tokens
  else if (tokens[tokens.length - 2]?.bind (parseUnsigned 10 64)).isSome then
    tokens.take (tokens.length - 2)
  else
    match (List.range (tokens.length - 1)).reverse.find? fun start =>
        (parseSpokenNumber tokens start).any fun spoken => spoken.2 == tokens.length - 1 with
    | some start => tokens.take start
    | none => tokens

def labelStops : List String :=
  ["set", "start", "create", "make", "a", "an", "the", "my", "our", "your", "new"]

def extractNamedTimerLabel (tokens : List String) (unitEnd : Nat) : Option String :=
  (tokens.findIdx? fun token => token = "timer").bind fun timerIndex =>
    if timerIndex = 0 then none
    else
      match timerForLabelAfter tokens timerIndex with
      | some label => some label
      | none =>
        if unitEnd + 1 = timerIndex then none
        else
          let label := (stripTrailingDurationPrefix (tokens.take timerIndex)).rtakeWhile
            fun token => !labelStops.contains token
          if label = [] then none else some (joinWith " " label)

def timerLabel (text : String) (tokens : List String) (unitEnd : Nat) : String :=
  let reminderStyle := startsWith "remind me " text || startsWith "remind us " text
  let found := ((reminderLabel tokens unitEnd reminderStyle).filter (· ≠ "")).or
    (extractNamedTimerLabel tokens unitEnd)
  let cleaned := (found.map fun label => trimEnd (trimEndMatches " please" label)).filter
    fun label => label ≠ "" ∧ label ≠ "please"
  cleaned.getD (if startsWith "remind " text then "reminder" else "timer")

/-! ## Requests -/

def timerRequest (text : String) : Option (Nat × String) :=
  if !(containsText text "timer" || startsWith "remind me " text ||
      startsWith "remind us " text) then none
  else
    let tokens := splitWhitespace text
    (spokenDuration tokens).bind fun found =>
      if found.1 = 0 then none else some (found.1, timerLabel text tokens found.2)

def preferredTimerRequest (text : String) : Option (Nat × String) :=
  if containsText text "lego cleanup timer" then some (600, "lego cleanup") else none

end GenieClaw.Quick
