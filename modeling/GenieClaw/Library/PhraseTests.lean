import GenieClaw.Library.Text

/-!
# Texts tested by their phrases

A test asks for a phrase somewhere in a text, at one of its ends, or as the whole of it. A detector
is a table of rows of tests, one of which has to hold as a whole.
-/

namespace GenieClaw.Library.Text

inductive PhraseTest where
  | has (phrase : String)
  | lacks (phrase : String)
  | starts (phrase : String)
  | startsNot (phrase : String)
  | ends (phrase : String)
  | is (text : String)
deriving DecidableEq

def PhraseTest.holds (text : String) : PhraseTest → Bool
  | has phrase => containsText text phrase
  | lacks phrase => !containsText text phrase
  | starts phrase => startsWith phrase text
  | startsNot phrase => !startsWith phrase text
  | ends phrase => endsWith phrase text
  | is other => text == other

/-- One of the rows holds as a whole. -/
def passesAny (rows : List (List PhraseTest)) (text : String) : Bool :=
  rows.any fun row => row.all fun test => test.holds text

/-! ## Rows of one test -/

def having (phrases : List String) : List (List PhraseTest) :=
  phrases.map fun phrase => [.has phrase]

def starting (phrases : List String) : List (List PhraseTest) :=
  phrases.map fun phrase => [.starts phrase]

def ending (phrases : List String) : List (List PhraseTest) :=
  phrases.map fun phrase => [.ends phrase]

def exactly (texts : List String) : List (List PhraseTest) := texts.map fun text => [.is text]

/-- The answer of the first rule with a row that holds. -/
def firstAnswer {α : Type} (rules : List (List (List PhraseTest) × α)) (text : String) : Option α :=
  (rules.find? fun rule => passesAny rule.1 text).map Prod.snd

end GenieClaw.Library.Text
