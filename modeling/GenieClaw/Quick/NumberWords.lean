import GenieClaw.Library.Digits
import GenieClaw.Library.Phrases
import GenieClaw.Tools.Calc

/-!
# Numbers in words

`tools/number_words.rs`: a run of cardinal words is added up, and an amount is the first number of
a text. A double is an exact number that the rounding to doubles has gone through.
-/

namespace GenieClaw.Quick

open Library Library.Text

/-- The rounding to the nearest double, unless that is infinite. Every `u64` has a finite one. -/
structure Doubles where
  nearest : ℚ → Option ℚ
  isSome_nearest : ∀ n : Nat, n < 2 ^ 64 → (nearest n).isSome
  nearest_nonneg : ∀ x, 0 ≤ x → ∀ m, nearest x = some m → 0 ≤ m

/-- A `u64` as a double. -/
def Doubles.ofCount (doubles : Doubles) (n : Nat) : ℚ := (doubles.nearest n).getD 0

inductive CardinalWord where
  | value (n : Nat)
  | hundred
  | thousand
deriving DecidableEq, Repr

def cardinalWords : List (String × CardinalWord) :=
  [("zero", .value 0), ("one", .value 1), ("a", .value 1), ("an", .value 1), ("two", .value 2),
    ("three", .value 3), ("four", .value 4), ("five", .value 5), ("six", .value 6),
    ("seven", .value 7), ("eight", .value 8), ("nine", .value 9), ("ten", .value 10),
    ("eleven", .value 11), ("twelve", .value 12), ("thirteen", .value 13),
    ("fourteen", .value 14), ("fifteen", .value 15), ("sixteen", .value 16),
    ("seventeen", .value 17), ("eighteen", .value 18), ("nineteen", .value 19),
    ("twenty", .value 20), ("thirty", .value 30), ("forty", .value 40), ("fifty", .value 50),
    ("sixty", .value 60), ("seventy", .value 70), ("eighty", .value 80), ("ninety", .value 90),
    ("hundred", .hundred), ("thousand", .thousand)]

def cardinalWord (token : String) : Option CardinalWord := cardinalWords.lookup token

/-- `u64` arithmetic that saturates. -/
def saturated (n : Nat) : Nat := min n (2 ^ 64 - 1)

/-- The variables of the loop of `parse_spoken_number`. -/
structure SpokenState where
  total : Nat := 0
  group : Nat := 0
  index : Nat
  matched : Bool := false
deriving DecidableEq

def SpokenState.read (s : SpokenState) : CardinalWord → SpokenState
  | .value n => { s with group := saturated (s.group + n), index := s.index + 1, matched := true }
  | .hundred =>
    { s with group := saturated (max s.group 1 * 100), index := s.index + 1, matched := true }
  | .thousand =>
    { total := saturated (s.total + saturated (max s.group 1 * 1000)), group := 0,
      index := s.index + 1, matched := true }

/-- The loop over the tokens from `index` on. -/
def spokenLoop (s : SpokenState) : List String → SpokenState
  | [] => s
  | token :: rest =>
    if s.matched ∧ token = "and" ∧ (rest.head?.bind cardinalWord).isSome then
      spokenLoop { s with index := s.index + 1 } rest
    else
      match cardinalWord token with
      | none => s
      | some word => spokenLoop (s.read word) rest

def parseSpokenNumber (tokens : List String) (start : Nat) : Option (Nat × Nat) :=
  match tokens[start]?.bind (parseUnsigned 10 64) with
  | some value => some (value, start + 1)
  | none =>
    let s := spokenLoop { index := start } (tokens.drop start)
    if s.matched then some (saturated (s.total + s.group), s.index) else none

def hasAsciiDigit (token : String) : Bool := token.toList.any Char.isDigit

variable (doubles : Doubles)

/-- `f64::from_str` on digits and dots, when it is finite. -/
def parseFinite (text : List Char) : Option ℚ := (Tools.parseNumber text).bind doubles.nearest

/-- The first token with a digit, read without its other characters. -/
def digitAmount (tokens : List String) : Option ℚ :=
  (tokens.find? hasAsciiDigit).bind fun token =>
    parseFinite doubles (token.toList.filter fun c => c.isDigit || c == '.')

def parseAmount (text : String) : Option ℚ :=
  let tokens := splitWhitespace text
  (digitAmount doubles tokens).or
    ((List.range tokens.length).findSome? fun start =>
      (parseSpokenNumber tokens start).map fun spoken => doubles.ofCount spoken.1)

end GenieClaw.Quick
