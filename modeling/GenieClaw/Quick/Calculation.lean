import GenieClaw.Home.Resolve
import GenieClaw.Quick.HomeControl
import GenieClaw.Quick.NumberWords
import GenieClaw.Tools.CalcGrammar

/-!
# Calculation requests

`calculation_request` of `tools/quick.rs`: a conversion of temperatures, a percentage, or an
arithmetic expression, written out for the calculator. The text comes from `prepare`.
-/

namespace GenieClaw.Quick

open Library Library.Text Home

/-!
## The text that the calculator reads

`prepare` of `tools/calc_input.rs` and `normalize` of `tools/quick.rs`. Of what is neither a letter
nor a digit, `prepare` keeps a dot between digits, drops a comma between digits and sets a
percent sign apart; all else becomes blanks, in `normalize` every one of them.
-/

/-! ## Decimals with the word `point` -/

def singleDigitWords : List (String × Nat) :=
  [("zero", 0), ("one", 1), ("two", 2), ("three", 3), ("four", 4), ("five", 5), ("six", 6),
    ("seven", 7), ("eight", 8), ("nine", 9)]

def parseSingleDigitWord (token : String) : Option Nat := singleDigitWords.lookup token

def isDigits (token : String) : Bool := !token.toList.isEmpty && token.toList.all Char.isDigit

/-- The digits behind the point, as they are written. -/
def fractionText (token : String) : Option String :=
  match parseSingleDigitWord token with
  | some digit => some (toString digit)
  | none => if isDigits token then some token else none

/-- The number that ends at the point. -/
def wholePart (tokens : List String) (point : Nat) : Option Nat :=
  if point = 1 ∧ (tokens.head?.any isDigits) then tokens.head?.bind (parseUnsigned 10 64)
  else
    (parseSpokenNumber tokens 0).bind fun spoken =>
      if spoken.2 = point then some spoken.1 else none

/-- The fold at the first of the tokens: how many it takes, and the decimal. -/
def matchDecimalFold (tokens : List String) : Option (Nat × String) :=
  (tokens.findIdx? fun token => token = "point").bind fun point =>
    if point = 0 then none
    else
      (tokens[point + 1]?.bind fractionText).bind fun fraction =>
        (wholePart tokens point).map fun whole => (point + 2, toString whole ++ "." ++ fraction)

/-- The loop over the tokens, for at most `rounds` of them. -/
def foldDecimals : Nat → List String → List String
  | 0, tokens => tokens
  | _, [] => []
  | rounds + 1, token :: rest =>
    match matchDecimalFold (token :: rest) with
    | some (consumed, decimal) => decimal :: foldDecimals rounds ((token :: rest).drop consumed)
    | none => token :: foldDecimals rounds rest

def foldSpokenDecimals (text : String) : String :=
  let tokens := splitWhitespace text
  joinWith " " (foldDecimals tokens.length tokens)

/-! ## Symbols -/

variable (tables : CharTables)

/-- What a character becomes, from the one before it and the ones after it. -/
def cleanChar (before : Option Char) (current : Char) (after : List Char) : List Char :=
  let flanked := before.any Char.isDigit && after.head?.any Char.isDigit
  if tables.isAlphanumeric current || isWhitespace current then [current]
  else if current == '.' && flanked then ['.']
  else if current == ',' && flanked then []
  else if current == '%' then [' ', '%', ' ']
  else [' ']

def cleanChars (before : Option Char) : List Char → List Char
  | [] => []
  | current :: after => cleanChar tables before current after ++ cleanChars (some current) after

def prepare (text : String) : String :=
  foldSpokenDecimals (String.ofList (cleanChars tables none (tables.toLowercase text).toList))

/-- The runs of letters and digits, with single blanks. -/
def normalize (text : String) : String :=
  joinWith " " ((wordsBy (fun c => !tables.isAlphanumeric c)
    (tables.toLowercase text).toList).map String.ofList)

/-! ## The requests -/

/-- `Display` of a double that is not negative: the digits of a decimal number. -/
structure Display where
  text : ℚ → String
  printed : ℚ → ℚ
  numeral : ∀ x, 0 ≤ x → Tools.Numeral (text x).toList (printed x)

/-! ## Numbers -/

/-- The exponent of a decimal number: nothing, or a letter, a sign and digits. -/
def decimalExponent : List Char → Option ℤ
  | [] => some 0
  | e :: rest =>
    if e = 'e' ∨ e = 'E' then
      match rest with
      | '-' :: digits => (exponentDigits digits).map fun n => -(n : ℤ)
      | '+' :: digits => (exponentDigits digits).map fun n => (n : ℤ)
      | digits => (exponentDigits digits).map fun n => (n : ℤ)
    else none
where
  exponentDigits (digits : List Char) : Option Nat :=
    if digits ≠ [] ∧ digits.all Char.isDigit then some (Tools.digitsValue digits) else none

/-- A decimal number without its sign. -/
def unsignedDecimal (text : List Char) : Option ℚ :=
  let whole := text.takeWhile Char.isDigit
  let rest := text.dropWhile Char.isDigit
  let fraction := if rest.head? = some '.' then rest.tail.takeWhile Char.isDigit else []
  let behind := if rest.head? = some '.' then rest.tail.dropWhile Char.isDigit else rest
  if whole ++ fraction = [] then none
  else (decimalExponent behind).map fun exponent =>
    (Tools.digitsValue (whole ++ fraction) : ℚ) * 10 ^ (exponent - (fraction.length : ℤ))

/-- `f64::from_str`, as an exact number; the words for infinity and for no number have none. -/
def decimalValue : List Char → Option ℚ
  | '-' :: rest => (unsignedDecimal rest).map fun value => -value
  | '+' :: rest => unsignedDecimal rest
  | text => unsignedDecimal text

section

variable (doubles : Doubles)

def parseDecimalToken (token : String) : Option ℚ :=
  let trimmed := (token.toList.rdropWhile fun c => c == '%').rdropWhile fun c => c == 'f'
  ((decimalValue trimmed).bind doubles.nearest).or (parseAmount doubles (String.ofList trimmed))

/-- The longest span of number words that ends there comes first. -/
def calcNumberEndingAt (tokens : List String) (stop : Nat) : Option ℚ :=
  if stop = 0 then none
  else
    ((List.range stop).findSome? fun start =>
      (parseSpokenNumber tokens start).bind fun spoken =>
        if spoken.2 = stop then some (doubles.ofCount spoken.1) else none).or
      (tokens[stop - 1]?.bind (parseDecimalToken doubles))

/-- A spoken number, or else the token as a decimal. -/
def calcNumberAt (tokens : List String) (start : Nat) : Option ℚ :=
  ((parseSpokenNumber tokens start).map fun spoken => doubles.ofCount spoken.1).or
    (tokens[start]?.bind (parseDecimalToken doubles))

/-- An article is skipped if a number follows it. -/
def calcNumberStartingAt (tokens : List String) (start : Nat) : Option ℚ :=
  if tokens.length ≤ start then none
  else if tokens[start]?.any ["a", "an", "the"].contains ∧ start + 1 < tokens.length then
    (calcNumberAt doubles tokens (start + 1)).or (calcNumberAt doubles tokens start)
  else calcNumberAt doubles tokens start

def unitsBeforeTo : List String :=
  ["degrees", "degree", "fahrenheit", "f", "celsius", "celcius", "c"]

/-- The end of the tokens without the units there. -/
def withoutUnits (tokens : List String) (stop : Nat) : Nat :=
  ((tokens.take stop).rdropWhile unitsBeforeTo.contains).length

/-- An `f` is taken off first, which is one of the units as well. -/
def calcNumberBeforeTo (tokens : List String) (marker : Nat) : Option ℚ :=
  if marker = 0 then none
  else
    let stop := if tokens[marker - 1]? = some "f" then marker - 1 else marker
    calcNumberEndingAt doubles tokens (withoutUnits tokens stop)

/-! ## Expressions -/

variable (display : Display)

/-- The place before the first target unit that `to` or `in` stands in front of. -/
def conversionMarker (targets tokens : List String) : Option Nat :=
  (List.range tokens.length).findSome? fun i =>
    if 0 < i ∧ tokens[i]?.any targets.contains ∧
        (tokens[i - 1]? = some "to" ∨ tokens[i - 1]? = some "in") then
      some (i - 1)
    else none

def temperatureConversionExpression (text : String) : Option String :=
  let toCelsius := containsAny text ["to celsius", "to celcius", "in celsius", "in celcius"]
  let toFahrenheit :=
    containsAny text ["to fahrenheit", "to farenheit", "in fahrenheit", "in farenheit"]
  if !toCelsius && !toFahrenheit then none
  else
    let tokens := splitWhitespace text
    let targets := if toCelsius then ["celsius", "celcius"] else ["fahrenheit", "farenheit"]
    (conversionMarker targets tokens).bind fun marker =>
      (calcNumberBeforeTo doubles tokens marker).map fun value =>
        if toCelsius then "(" ++ display.text value ++ " - 32) * 5 / 9"
        else display.text value ++ " * 9 / 5 + 32"

def isPercentWord (token : String) : Bool := ["percent", "percentage", "%"].contains token

def percentageExpression (text : String) : Option String :=
  let tokens := splitWhitespace text
  (tokens.findIdx? isPercentWord).bind fun percentIdx =>
    (calcNumberEndingAt doubles tokens percentIdx).bind fun percent =>
      (tokens.findIdx? fun token => token = "of").bind fun ofIdx =>
        (calcNumberStartingAt doubles tokens (ofIdx + 1)).map fun base =>
          display.text base ++ " * " ++ display.text percent ++ " / 100"

/-- The loop over the tokens, for at most `rounds` of them. -/
def composeNumbers : Nat → List String → List String
  | 0, tokens => tokens
  | _, [] => []
  | rounds + 1, token :: rest =>
    match parseSpokenNumber (token :: rest) 0 with
    | some (value, next) => toString value :: composeNumbers rounds ((token :: rest).drop next)
    | none => token :: composeNumbers rounds rest

def wordsToDigits (expression : String) : String :=
  let tokens := (expression.toList.splitOn ' ').map String.ofList
  joinWith " " (composeNumbers tokens.length tokens)

def leadIns : List String :=
  ["calculate ", "what is ", "how much is ", "whats ", "what s ", "what's "]

def withoutLeadIn (text : String) : String :=
  (leadIns.findSome? fun lead => stripPrefix lead text).getD text

def operatorWords : List (String × String) :=
  [(" plus ", " + "), (" minus ", " - "), (" times ", " * "), (" multiplied by ", " * "),
    (" divided by ", " / "), (" over ", " / ")]

def isOperatorChar (c : Char) : Bool := ['+', '-', '*', '/', '(', ')'].contains c

def isExpressionChar (c : Char) : Bool := c.isDigit || c == ' ' || c == '.' || isOperatorChar c

def arithmeticExpression (text : String) : Option String :=
  let expression := wordsToDigits
    (operatorWords.foldl (fun s words => replaceText words.1 words.2 s) (withoutLeadIn text))
  if !expression.toList.any Char.isDigit || !expression.toList.any isOperatorChar then none
  else if !expression.toList.all isExpressionChar then none
  else some (trim expression)

def calculationRequest (text : String) : Option String :=
  ((temperatureConversionExpression doubles display text).or
    (percentageExpression doubles display text)).or (arithmeticExpression text)

end

end GenieClaw.Quick
