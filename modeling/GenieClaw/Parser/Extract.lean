import GenieClaw.Json

/-!
# JSON in the output of the model

`extract_json` of `tools/parser.rs`: the whole response, a fenced block, or the first
balanced object or array in the text, with trailing commas repaired. The scan looks at
ASCII characters alone, so it runs over characters where the source runs over bytes. The
JSON reader `serde_json::from_str` is a parameter.
-/

namespace GenieClaw.Parser

open Library Library.Text

/-- `serde_json::from_str::<Value>`, with `none` for a syntax error. -/
abbrev JsonReader := String → Option Json

/-- A reader that knows one text. -/
def readerOf (text : String) (v : Json) : JsonReader := fun s => if s = text then some v else none

def isJsonContainer (text : String) : Bool :=
  (startsWith "\x7b" text && endsWith "\x7d" text) || (startsWith "[" text && endsWith "]" text)

/-- The opening fences, in the order they are tried. -/
def fences : List String := ["```json\n", "```json\r\n", "```\n", "```\r\n"]

def fencedBlock (fromStr : JsonReader) (text fence : String) : Option String :=
  match splitOnce fence.toList text.toList with
  | none => none
  | some (_, content) =>
    match splitOnce "```".toList content with
    | none => none
    | some (block, _) =>
      let jsonStr := String.ofList (trimChars block)
      if isJsonContainer jsonStr && (fromStr jsonStr).isSome then some jsonStr else none

def extractFromCodeBlock (fromStr : JsonReader) (text : String) : Option String :=
  fences.findSome? (fencedBlock fromStr text)

/-- Whether the next character that is no white space closes an object or array. -/
def closesNext (rest : List Char) : Bool :=
  match rest.dropWhile isWhitespace with
  | [] => false
  | c :: _ => c = '}' || c = ']'

/-- `strip_trailing_commas`, with its two flags `in_string` and `escape`. -/
def stripTrailingCommas : Bool → Bool → List Char → List Char
  | _, _, [] => []
  | inString, true, c :: rest => c :: stripTrailingCommas inString false rest
  | inString, false, c :: rest =>
    if c = '\\' ∧ inString then c :: stripTrailingCommas inString true rest
    else if c = '"' then c :: stripTrailingCommas (!inString) false rest
    else if c = ',' ∧ !inString then
      if closesNext rest then stripTrailingCommas inString false rest
      else c :: stripTrailingCommas inString false rest
    else c :: stripTrailingCommas inString false rest

/-- The text up to the character that closes the first bracket. -/
def balancedPrefix (opening closing : Char) : Nat → Bool → Bool → List Char → Option (List Char)
  | _, _, _, [] => none
  | depth, inString, true, c :: rest =>
    (balancedPrefix opening closing depth inString false rest).map (c :: ·)
  | depth, inString, false, c :: rest =>
    if c = '\\' ∧ inString then
      (balancedPrefix opening closing depth inString true rest).map (c :: ·)
    else if c = '"' then
      (balancedPrefix opening closing depth (!inString) false rest).map (c :: ·)
    else if c = opening ∧ !inString then
      (balancedPrefix opening closing (depth + 1) inString false rest).map (c :: ·)
    else if c = closing ∧ !inString then
      if depth = 1 then some [c]
      else (balancedPrefix opening closing (depth - 1) inString false rest).map (c :: ·)
    else (balancedPrefix opening closing depth inString false rest).map (c :: ·)

def extractBalancedJsonCandidate (fromStr : JsonReader) (opening closing : Char)
    (text : List Char) : Option String :=
  match balancedPrefix opening closing 0 false false text with
  | none => none
  | some chars =>
    let candidate := String.ofList chars
    if (fromStr candidate).isSome then some candidate
    else
      let repaired := String.ofList (stripTrailingCommas false false chars)
      if repaired ≠ candidate ∧ (fromStr repaired).isSome then some repaired else none

/-- The candidate that starts at the first character. -/
def candidateHere (fromStr : JsonReader) : List Char → Option String
  | [] => none
  | c :: rest =>
    if c = '{' then extractBalancedJsonCandidate fromStr '{' '}' (c :: rest)
    else if c = '[' then extractBalancedJsonCandidate fromStr '[' ']' (c :: rest)
    else none

def extractEmbeddedJson (fromStr : JsonReader) : List Char → Option String
  | [] => none
  | c :: rest => (candidateHere fromStr (c :: rest)).or (extractEmbeddedJson fromStr rest)

def extractJson (fromStr : JsonReader) (text : String) : Option String :=
  let trimmed := trim text
  if isJsonContainer trimmed && (fromStr trimmed).isSome then some trimmed
  else (extractFromCodeBlock fromStr trimmed).or (extractEmbeddedJson fromStr trimmed.toList)

/-! ## What is extracted can be read -/

variable {fromStr : JsonReader}

theorem fencedBlock_reads {text fence json : String}
    (h : fencedBlock fromStr text fence = some json) : (fromStr json).isSome = true := by
  unfold fencedBlock at h
  split at h
  · cases h
  · split at h
    · cases h
    · dsimp only at h
      split at h
      · rename_i hread
        cases h
        exact (Bool.and_eq_true _ _ ▸ hread).2
      · cases h

theorem balancedCandidate_reads {opening closing : Char} {text : List Char} {json : String}
    (h : extractBalancedJsonCandidate fromStr opening closing text = some json) :
    (fromStr json).isSome = true := by
  unfold extractBalancedJsonCandidate at h
  split at h
  · cases h
  · dsimp only at h
    split at h
    · rename_i hread
      cases h
      exact hread
    · split at h
      · rename_i hread
        cases h
        exact hread.2
      · cases h

theorem embeddedJson_reads {text : List Char} {json : String}
    (h : extractEmbeddedJson fromStr text = some json) : (fromStr json).isSome = true := by
  induction text with
  | nil => cases h
  | cons c rest ih =>
    rw [extractEmbeddedJson, Option.or_eq_some_iff] at h
    rcases h with hhere | ⟨-, hlater⟩
    · rw [candidateHere] at hhere
      split_ifs at hhere
      · exact balancedCandidate_reads hhere
      · exact balancedCandidate_reads hhere
    · exact ih hlater

theorem extractJson_reads {text json : String} (h : extractJson fromStr text = some json) :
    (fromStr json).isSome = true := by
  unfold extractJson at h
  dsimp only at h
  split at h
  · rename_i hread
    cases h
    exact (Bool.and_eq_true _ _ ▸ hread).2
  · rw [Option.or_eq_some_iff] at h
    rcases h with hblock | ⟨-, hembedded⟩
    · obtain ⟨fence, -, hfence⟩ := List.exists_of_findSome?_eq_some hblock
      exact fencedBlock_reads hfence
    · exact embeddedJson_reads hembedded

/-- The value a response carries. -/
def extractedValue (fromStr : JsonReader) (response : String) : Option Json :=
  (extractJson fromStr response).bind fromStr

theorem extractedValue_eq_none {response : String} :
    extractedValue fromStr response = none ↔ extractJson fromStr response = none := by
  unfold extractedValue
  cases h : extractJson fromStr response with
  | none => simp
  | some json =>
    have hread := extractJson_reads h
    constructor
    · intro hnone
      rw [Option.bind_some] at hnone
      rw [hnone] at hread
      cases hread
    · intro hnone
      cases hnone

end GenieClaw.Parser
