import GenieClaw.Server.ChatTurns

/-!
# Reasoning directives

`apply_reasoning_mode` of `genie-core/src/reasoning.rs`: for a model that has the toggle, the
last message of the user is rewritten to the text of the turn with a directive at its end. All
other messages are left as they are (`applyReasoningMode_cons`).
-/

namespace GenieClaw.Server

open Library Library.Text List Option

inductive ModelFamily where
  | nemotron
  | llama
  | qwen
  | phi
  | gemma
  | small
  | generic
deriving DecidableEq

inductive ReasoningMode where
  | normal
  | deep
deriving DecidableEq

structure ReasoningDecision where
  mode : ReasoningMode
  explicit : Bool
  applied : Bool
deriving DecidableEq

def supportsReasoningToggle (modelFamily : ModelFamily) : Bool := modelFamily = .qwen

def explicitReasoningMode (lower : String) : Option ReasoningMode :=
  if containsText lower "/no_think" then some .normal
  else if ["/think", "think deeply", "reason carefully", "step by step"].any
    (containsText lower) then some .deep
  else none

def isSimpleRequest (lower : String) : Bool :=
  (splitWhitespace lower).length ≤ 10 &&
    (containsText lower "what time" || containsText lower "weather" || startsWith "hi" lower ||
      startsWith "hello" lower || startsWith "hey" lower || containsText lower "turn on" ||
      containsText lower "turn off" || startsWith "set " lower || containsText lower "remember" ||
      containsText lower "my name" || containsText lower "what's up" ||
      containsText lower "whats up")

def complexMarkers : List String :=
  ["analy", "compare", "tradeoff", "trade-off", "architecture", "design", "plan", "debug",
    "review", "refactor", "prove", "derive", "why does", "what is wrong", "what's wrong",
    "optimiz", "algorithm", "complexity", "step by step", "pros and cons", "should we",
    "write code", "rust", "explain in detail"]

def looksLikeDeepReasoningRequest (lower : String) : Bool :=
  decide (140 < lower.utf8ByteSize) || containsText lower "\n" || containsText lower "1." ||
    containsText lower "2." || containsText lower "```" ||
    complexMarkers.any (containsText lower)

def autoReasoningMode (lower : String) (interaction : InteractionKind) : ReasoningMode :=
  match interaction with
  | .toolSummary => .normal
  | _ =>
    if isSimpleRequest lower then .normal
    else if looksLikeDeepReasoningRequest lower then .deep
    else .normal

def stripReasoningDirectives (userText : String) : String :=
  replaceText "/think" "" (replaceText "/no_think" "" userText)

def ReasoningMode.directive : ReasoningMode → String
  | .normal => "/no_think"
  | .deep => "/think"

/-- The index of the last message of the user. -/
def lastUserIdx (messages : List Message) : Option Nat :=
  (messages.reverse.findIdx? fun m => m.role == "user").map fun i => messages.length - 1 - i

/-- The message of the user as it is sent: its own text where the turn has none. -/
def directedContent (mode : ReasoningMode) (cleanedUserText : String) (message : Message) :
    Message :=
  let base := if trim cleanedUserText = "" then trim message.content else trim cleanedUserText
  { message with
    content := if base = "" then mode.directive else base ++ "\n" ++ mode.directive }

/-- `toLowercase` is the lower-casing of the whole text. -/
def applyReasoningMode (toLowercase : String → String) (modelFamily : ModelFamily)
    (messages : List Message) (userText : String) (interaction : InteractionKind) :
    List Message × ReasoningDecision :=
  if !supportsReasoningToggle modelFamily then (messages, ⟨.normal, false, false⟩)
  else
    let lower := toLowercase userText
    let explicitMode := explicitReasoningMode lower
    let mode := explicitMode.getD (autoReasoningMode lower interaction)
    match lastUserIdx messages with
    | none => (messages, ⟨mode, explicitMode.isSome, false⟩)
    | some idx =>
      (messages.modify idx (directedContent mode (stripReasoningDirectives userText)),
        ⟨mode, explicitMode.isSome, true⟩)

/-! ## The message of the system -/

theorem lastUserIdx_cons {message : Message} (messages : List Message)
    (hrole : message.role ≠ "user") :
    lastUserIdx (message :: messages) = (lastUserIdx messages).map (· + 1) := by
  unfold lastUserIdx
  have hlast : (message.role == "user") = false := beq_eq_false_iff_ne.mpr hrole
  rw [reverse_cons, findIdx?_append, findIdx?_singleton, hlast]
  cases hfound : messages.reverse.findIdx? fun m => m.role == "user" with
  | none => rfl
  | some i =>
    have hi := (List.findIdx?_eq_some_iff_findIdx_eq.mp hfound).1
    rw [length_reverse] at hi
    simp only [some_or, map_some, length_cons, Option.some.injEq]
    omega

theorem applyReasoningMode_cons (toLowercase : String → String) (modelFamily : ModelFamily)
    {message : Message} (messages : List Message) (userText : String)
    (interaction : InteractionKind) (hrole : message.role ≠ "user") :
    (applyReasoningMode toLowercase modelFamily (message :: messages) userText interaction).1 =
      message :: (applyReasoningMode toLowercase modelFamily messages userText interaction).1 := by
  unfold applyReasoningMode
  dsimp only
  split_ifs with hfamily
  · rfl
  · rw [lastUserIdx_cons messages hrole]
    cases lastUserIdx messages with
    | none => rfl
    | some idx => rfl

end GenieClaw.Server
