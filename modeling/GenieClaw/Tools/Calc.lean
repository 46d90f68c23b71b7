import GenieClaw.Library.OperatorChain
import Mathlib.Algebra.Order.Field.Rat

/-!
# The calculator

A tokenizer and a recursive descent parser that computes as it reads, over exact numbers. The
stack is explicit: every call of one parsing function from another takes a frame, and the parser
fails with `stackOverflow` when there is none left.
-/

namespace GenieClaw.Tools

open Library

/-- `MAX_PAREN_DEPTH`. -/
def maxParenDepth : Nat := 64

inductive Token where
  | number (value : ℚ)
  | plus
  | minus
  | star
  | slash
  | lParen
  | rParen
deriving DecidableEq, Repr

inductive CalcError where
  | invalidNumber (text : List Char)
  | unexpectedCharacter (ch : Char)
  | unexpectedToken (token : Token)
  | unexpectedEnd
  | divisionByZero
  | tooDeep
  | missingParenthesis
deriving DecidableEq, Repr

/-- The derived `Debug` text of a token, over the text of a number. -/
def Token.debug (debugNumber : ℚ → String) : Token → String
  | .number value => "Number(" ++ debugNumber value ++ ")"
  | .plus => "Plus"
  | .minus => "Minus"
  | .star => "Star"
  | .slash => "Slash"
  | .lParen => "LParen"
  | .rParen => "RParen"

/-- The text returned to the caller. -/
def CalcError.text (debugNumber : ℚ → String) : CalcError → String
  | .invalidNumber text => "invalid number: " ++ String.ofList text
  | .unexpectedCharacter ch => "unexpected character: '" ++ ch.toString ++ "'"
  | .unexpectedToken token => "unexpected token: " ++ token.debug debugNumber
  | .unexpectedEnd => "unexpected end of expression"
  | .divisionByZero => "division by zero"
  | .tooDeep => "nested parentheses too deep (max " ++ toString maxParenDepth ++ ")"
  | .missingParenthesis => "missing closing parenthesis"

/-- How a run ends without a value. The source returns the first kind only; the other two are the
crash and the endless loop. -/
inductive Failure where
  | refused (reason : CalcError)
  | stackOverflow
  | spinning
deriving DecidableEq, Repr

/-! ## The tokenizer -/

def isNumeric (c : Char) : Bool := c.isDigit || c == '.'

def digitsValue (digits : List Char) : Nat :=
  digits.foldl (fun n c => 10 * n + (c.toNat - '0'.toNat)) 0

/-- `str::parse::<f64>` on a run of digits and dots: at most one dot, at least one digit. -/
def parseNumber (run : List Char) : Option ℚ :=
  let whole := run.takeWhile Char.isDigit
  match run.dropWhile Char.isDigit with
  | [] => if whole = [] then none else some (digitsValue whole)
  | dot :: fraction =>
    if dot = '.' ∧ fraction.all Char.isDigit ∧ whole ++ fraction ≠ [] then
      some (digitsValue (whole ++ fraction) / 10 ^ fraction.length)
    else none

def isBlank (c : Char) : Bool := c == ' ' || c == '\t'

/-- The tokens of one character. -/
def symbolOf : Char → Option Token
  | '+' => some .plus
  | '-' => some .minus
  | '*' => some .star
  | '/' => some .slash
  | '(' => some .lParen
  | ')' => some .rParen
  | _ => none

def tokenize : List Char → Except CalcError (List Token)
  | [] => .ok []
  | ch :: rest =>
    if isBlank ch then tokenize rest
    else if isNumeric ch then
      let run := ch :: rest.takeWhile isNumeric
      match parseNumber run with
      | none => .error (.invalidNumber run)
      | some value => (tokenize (rest.dropWhile isNumeric)).map (Token.number value :: ·)
    else
      match symbolOf ch with
      | some token => (tokenize rest).map (token :: ·)
      | none => .error (.unexpectedCharacter ch)
termination_by input => input.length
decreasing_by
  · simp
  · have := (List.dropWhile_sublist (l := rest) isNumeric).length_le
    simp only [List.length_cons]
    omega
  · simp

/-! ## The parser -/

inductive AddOp where
  | plus
  | minus
deriving DecidableEq

inductive MulOp where
  | times
  | divide
deriving DecidableEq

/-- The operators of `parse_expr`. -/
def exprOperators : Operators Token Failure AddOp ℚ where
  symbol
    | .plus => .plus
    | .minus => .minus
  ofToken
    | .plus => some .plus
    | .minus => some .minus
    | _ => none
  apply
    | .plus, result, term => .ok (result + term)
    | .minus, result, term => .ok (result - term)
  ofToken_eq_some := by
    intro t op
    cases t <;> cases op <;> simp

/-- The operators of `parse_term`. -/
def termOperators : Operators Token Failure MulOp ℚ where
  symbol
    | .times => .star
    | .divide => .slash
  ofToken
    | .star => some .times
    | .slash => some .divide
    | _ => none
  apply
    | .times, result, unary => .ok (result * unary)
    | .divide, result, divisor =>
      if divisor = 0 then .error (.refused .divisionByZero) else .ok (result / divisor)
  ofToken_eq_some := by
    intro t op
    cases t <;> cases op <;> simp

/-- The loop of `parse_unary` over the signs. -/
def readSigns : Bool → List Token → Bool × List Token
  | negate, .minus :: rest => readSigns (!negate) rest
  | negate, .plus :: rest => readSigns negate rest
  | negate, tokens => (negate, tokens)

/-- `parse_unary` with the sign read so far, over the reader of a factor. -/
def readUnary (factor : List Token → Except Failure (ℚ × List Token)) (negate : Bool)
    (tokens : List Token) : Except Failure (ℚ × List Token) :=
  let (negate, rest) := readSigns negate tokens
  match factor rest with
  | .error e => .error e
  | .ok (value, rest) => .ok (if negate then -value else value, rest)

/- The position in the token slice is the list of the tokens still to be read. -/
mutual

def parseExpr : Nat → Nat → List Token → Except Failure (ℚ × List Token)
  | 0, _, _ => .error .stackOverflow
  | frames + 1, depth, tokens =>
    exprOperators.readChain .spinning (parseTerm frames depth) tokens
termination_by structural frames => frames

def parseTerm : Nat → Nat → List Token → Except Failure (ℚ × List Token)
  | 0, _, _ => .error .stackOverflow
  | frames + 1, depth, tokens =>
    termOperators.readChain .spinning (parseUnary frames depth) tokens
termination_by structural frames => frames

def parseUnary : Nat → Nat → List Token → Except Failure (ℚ × List Token)
  | 0, _, _ => .error .stackOverflow
  | frames + 1, depth, tokens => readUnary (parseFactor frames depth) false tokens
termination_by structural frames => frames

def parseFactor : Nat → Nat → List Token → Except Failure (ℚ × List Token)
  | 0, _, _ => .error .stackOverflow
  | frames + 1, depth, tokens =>
    match tokens with
    | [] => .error (.refused .unexpectedEnd)
    | .number value :: rest => .ok (value, rest)
    | .lParen :: rest =>
      if depth ≥ maxParenDepth then .error (.refused .tooDeep)
      else
        match parseExpr frames (depth + 1) rest with
        | .error e => .error e
        | .ok (result, .rParen :: rest) => .ok (result, rest)
        | .ok _ => .error (.refused .missingParenthesis)
    | other :: _ => .error (.refused (.unexpectedToken other))
termination_by structural frames => frames

end

/-- Four calls for each of the nested expressions, the outermost among them. -/
def stackFrames : Nat := 4 * (maxParenDepth + 1)

def evaluate (expr : String) : Except Failure ℚ :=
  match tokenize expr.toList with
  | .error e => .error (.refused e)
  | .ok tokens =>
    match parseExpr stackFrames 0 tokens with
    | .error e => .error e
    | .ok (result, []) => .ok result
    | .ok (_, token :: _) => .error (.refused (.unexpectedToken token))

end GenieClaw.Tools
