import GenieClaw.Eval.GroundedActions
import GenieClaw.Home.Resolve
import GenieClaw.Parser.ToolCalls

/-!
# Scores of tool calls

`score_parsed_calls` and `score_cases` of `eval/bfcl.rs`. A call is compared twice, as it is and
with the entities and verbs of its arguments in canonical form.

* `compareJsonValues_eq_nil`: when two values come out without a difference.
* `scoreParsedCalls_sound`: the verdicts of a case, by a step and a run.
-/

namespace GenieClaw.Eval

open Library Library.Text Home Dispatch List Bool

/-! ## Comparing values -/

mutual

/-- `==` of two values. -/
def jsonEq : Json → Json → Bool
  | .null, .null => true
  | .bool a, .bool b => a == b
  | .number (.posInt a), .number (.posInt b) => a == b
  | .number (.negInt a), .number (.negInt b) => a == b
  | .number (.float a), .number (.float b) => a.eq b
  | .string a, .string b => a == b
  | .array items, .array others => jsonEqItems items others
  | .object fields, .object others => jsonEqFields fields others
  | _, _ => false

def jsonEqItems : List Json → List Json → Bool
  | [], [] => true
  | item :: items, other :: others => jsonEq item other && jsonEqItems items others
  | _, _ => false

def jsonEqField : String × Json → String × Json → Bool
  | (key, value), (otherKey, other) => key == otherKey && jsonEq value other

def jsonEqFields : List (String × Json) → List (String × Json) → Bool
  | [], [] => true
  | field :: fields, other :: others => jsonEqField field other && jsonEqFields fields others
  | _, _ => false

end

def f64Epsilon : F64 := .ofRatio 1 (2 ^ 52)

def numbersEqual (expected actual : Json) : Bool :=
  match expected.asF64, actual.asF64 with
  | some expected, some actual => (expected.sub actual).abs.lt f64Epsilon
  | _, _ => false

def objectPath (parent key : String) : String :=
  if parent = "$" then "$." ++ key else parent ++ "." ++ key

def arrayPath (parent : String) (index : Nat) : String := parent ++ "[" ++ index.repr ++ "]"

section

variable (floatText : F64 → String) (allowExtraArguments : Bool)

def unexpectedKeys (expected actual : List (String × Json)) (path : String) : List String :=
  if allowExtraArguments then []
  else (actual.filter fun field => (expected.lookup field.1).isNone).map fun field =>
    "unexpected " ++ objectPath path field.1

def lengthMismatch (expected actual : List Json) (path : String) : List String :=
  if expected.length = actual.length then []
  else [path ++ " array length mismatch: expected " ++ expected.length.repr ++ ", got " ++
    actual.length.repr]

mutual

/-- What `compare_json_values` adds to the differences. -/
def compareJsonValues (expected actual : Json) (path : String) : List String :=
  if jsonEq expected actual || numbersEqual expected actual then []
  else
    match expected, actual with
    | .object fields, .object others =>
      compareFields fields others path ++ unexpectedKeys allowExtraArguments fields others path
    | .array items, .array others =>
      lengthMismatch items others path ++ compareItems items others path 0
    | expected, actual =>
      [path ++ " expected " ++ Json.render floatText expected ++ ", got " ++
        Json.render floatText actual]

def compareField : String × Json → List (String × Json) → String → List String
  | (key, value), actual, path =>
    match actual.lookup key with
    | some actualValue => compareJsonValues value actualValue (objectPath path key)
    | none => ["missing " ++ objectPath path key]

def compareFields : List (String × Json) → List (String × Json) → String → List String
  | [], _, _ => []
  | field :: fields, actual, path =>
    compareField field actual path ++ compareFields fields actual path

def compareItems : List Json → List Json → String → Nat → List String
  | item :: items, other :: others, path, index =>
    compareJsonValues item other (arrayPath path index) ++
      compareItems items others path (index + 1)
  | _, _, _, _ => []

end

end

/-! ## Canonical arguments -/

def entityArgKeys : List String := ["entity", "name", "target", "device"]

def actionArgKeys : List String := ["action"]

def referenceEntity (entityId name domain area : String) : EntityRef where
  entityId := entityId
  name := name
  domain := domain
  area := some area
  aliases := []

def bfclReferenceHome : HomeGraph where
  areas := [⟨"Kitchen", []⟩, ⟨"Living Room", []⟩]
  entities := [referenceEntity "light.kitchen" "Kitchen Lights" "light" "Kitchen",
    referenceEntity "fan.kitchen" "Kitchen Fan" "fan" "Kitchen",
    referenceEntity "climate.kitchen" "Thermostat" "climate" "Kitchen",
    referenceEntity "cover.living_room" "Living Room Blinds" "cover" "Living Room"]
  scenes := []
  scripts := []

section

variable (fp : SinglePrecision) (tables : CharTables)

/-- The sorted ids of what the resolver would act on. -/
def resolveEntityIds (graph : HomeGraph) (text : String) : Option (List String) :=
  match resolveTargetInGraph fp tables graph text none with
  | some target => if target.entityIds = [] then none else some target.entityIds.mergeSort
  | none => none

def resolveReferenceHomeEntityIds (text : String) : Option (List String) :=
  resolveEntityIds fp tables bfclReferenceHome text

variable (graph : HomeGraph)

/-- The recursion over `value` gives `nested`. -/
def canonicalizeEntityValue (value nested : Json) : Json :=
  match value with
  | .string text =>
    match resolveEntityIds fp tables graph text with
    | some ids => .string ("ids:" ++ joinWith "," ids)
    | none => value
  | _ => nested

def canonicalizeActionValue (value nested : Json) : Json :=
  match value with
  | .string text => .string (canonAction tables.toLowercase text)
  | _ => nested

mutual

def canonicalizeEntityArgs : Json → Json
  | .object fields => .object (canonicalizeFields fields)
  | .array items => .array (canonicalizeItems items)
  | other => other

def canonicalizeField : String × Json → String × Json
  | (key, value) =>
    let nested := canonicalizeEntityArgs value
    (key,
      if key ∈ entityArgKeys then canonicalizeEntityValue fp tables graph value nested
      else if key ∈ actionArgKeys then canonicalizeActionValue tables value nested
      else nested)

def canonicalizeFields : List (String × Json) → List (String × Json)
  | [] => []
  | field :: fields => canonicalizeField field :: canonicalizeFields fields

def canonicalizeItems : List Json → List Json
  | [] => []
  | item :: items => canonicalizeEntityArgs item :: canonicalizeItems items

end

end

/-! ## What agrees stays in agreement -/

section

variable {fp : SinglePrecision} {tables : CharTables} {graph : HomeGraph}
  {floatText : F64 → String} {extra : Bool}

theorem asStr_eq_some {value : Json} {text : String} (h : value.asStr = some text) :
    value = .string text := by
  cases value with
  | string s => rw [Option.some.inj h]
  | null | bool | number | array | object => cases h

theorem asStr_of_jsonEq {a b : Json} (h : jsonEq a b = true) : a.asStr = b.asStr := by
  cases a <;> cases b <;> simp_all [jsonEq, Json.asStr]

theorem jsonEq_string (text : String) : jsonEq (.string text) (.string text) = true := by
  simp [jsonEq]

theorem numbersEqual_numbers {a b : Json} (h : numbersEqual a b = true) :
    ∃ m n, a = .number m ∧ b = .number n := by
  cases a <;> cases b <;> simp_all [numbersEqual, Json.asF64]

theorem asStr_of_compare {expected actual : Json} {path : String}
    (h : compareJsonValues floatText extra expected actual path = []) :
    expected.asStr = actual.asStr := by
  unfold compareJsonValues at h
  split at h
  · rename_i hequal
    rcases Bool.or_eq_true_iff.mp hequal with heq | hnum
    · exact asStr_of_jsonEq heq
    · obtain ⟨m, n, rfl, rfl⟩ := numbersEqual_numbers hnum
      rfl
  · split at h
    · rfl
    · rfl
    · cases h

theorem compare_string (text path : String) :
    compareJsonValues floatText extra (.string text) (.string text) path = [] := by
  unfold compareJsonValues
  rw [jsonEq_string]
  rfl

theorem canonicalizeFields_eq (fields : List (String × Json)) :
    canonicalizeFields fp tables graph fields = fields.map (canonicalizeField fp tables graph) := by
  induction fields with
  | nil => rfl
  | cons field fields ih => rw [canonicalizeFields, ih, map_cons]

theorem canonicalizeField_fst (field : String × Json) :
    (canonicalizeField fp tables graph field).1 = field.1 := by
  rw [canonicalizeField]

/-- A relation between the values of a field holds between their canonical forms, if it holds of
a text and itself and of what the recursion makes of the values. -/
theorem canonicalizeField_related {R : Json → Json → Prop} (key : String) {v w : Json}
    (hsame : v.asStr = w.asStr) (hstring : ∀ text, R (.string text) (.string text))
    (h : R (canonicalizeEntityArgs fp tables graph v) (canonicalizeEntityArgs fp tables graph w)) :
    R (canonicalizeField fp tables graph (key, v)).2
      (canonicalizeField fp tables graph (key, w)).2 := by
  rw [canonicalizeField, canonicalizeField]
  dsimp only
  cases htext : v.asStr with
  | some text =>
    rw [asStr_eq_some htext, asStr_eq_some (hsame.symm.trans htext)] at h ⊢
    unfold canonicalizeEntityValue canonicalizeActionValue
    dsimp only
    split
    · split
      · exact hstring _
      · exact hstring _
    · split
      · exact hstring _
      · exact h
  | none =>
    have hentity : ∀ {value nested : Json}, value.asStr = none →
        canonicalizeEntityValue fp tables graph value nested = nested ∧
          canonicalizeActionValue tables value nested = nested := by
      intro value nested hvalue
      cases value with
      | string s => cases hvalue
      | null | bool | number | array | object => exact ⟨rfl, rfl⟩
    rw [(hentity htext).1, (hentity htext).2, (hentity (hsame.symm.trans htext)).1,
      (hentity (hsame.symm.trans htext)).2, ite_self, ite_self, ite_self, ite_self]
    exact h

mutual

theorem jsonEq_canonicalize : ∀ {a b : Json}, jsonEq a b = true →
    jsonEq (canonicalizeEntityArgs fp tables graph a) (canonicalizeEntityArgs fp tables graph b) =
      true
  | .object fields, .object others, h => by
    rw [canonicalizeEntityArgs, canonicalizeEntityArgs, jsonEq]
    rw [jsonEq] at h
    exact jsonEqFields_canonicalize h
  | .array items, .array others, h => by
    rw [canonicalizeEntityArgs, canonicalizeEntityArgs, jsonEq]
    rw [jsonEq] at h
    exact jsonEqItems_canonicalize h
  | .null, b, h | .bool _, b, h | .number _, b, h | .string _, b, h => by
    cases b <;> simp_all [jsonEq, canonicalizeEntityArgs]
  | .object _, .null, h | .object _, .bool _, h | .object _, .number _, h
  | .object _, .string _, h | .object _, .array _, h
  | .array _, .null, h | .array _, .bool _, h | .array _, .number _, h
  | .array _, .string _, h | .array _, .object _, h => by
    simp [jsonEq] at h

theorem jsonEqItems_canonicalize : ∀ {items others : List Json}, jsonEqItems items others = true →
    jsonEqItems (canonicalizeItems fp tables graph items)
      (canonicalizeItems fp tables graph others) = true
  | [], [], h => h
  | [], _ :: _, h | _ :: _, [], h => by simp [jsonEqItems] at h
  | item :: items, other :: others, h => by
    rw [jsonEqItems, and_eq_true] at h
    rw [canonicalizeItems, canonicalizeItems, jsonEqItems, and_eq_true]
    exact ⟨jsonEq_canonicalize h.1, jsonEqItems_canonicalize h.2⟩

theorem jsonEqField_canonicalize : ∀ {field other : String × Json}, jsonEqField field other = true →
    jsonEqField (canonicalizeField fp tables graph field)
      (canonicalizeField fp tables graph other) = true
  | (key, value), (otherKey, other), h => by
    rw [jsonEqField, and_eq_true, beq_iff_eq] at h
    obtain ⟨rfl, heq⟩ := h
    have hvalue := canonicalizeField_related (R := fun a b => jsonEq a b = true) key
      (asStr_of_jsonEq heq) jsonEq_string (jsonEq_canonicalize heq)
    rw [jsonEqField, and_eq_true, canonicalizeField_fst, canonicalizeField_fst, beq_iff_eq]
    exact ⟨rfl, hvalue⟩

theorem jsonEqFields_canonicalize : ∀ {fields others : List (String × Json)},
    jsonEqFields fields others = true →
    jsonEqFields (canonicalizeFields fp tables graph fields)
      (canonicalizeFields fp tables graph others) = true
  | [], [], h => h
  | [], _ :: _, h | _ :: _, [], h => by simp [jsonEqFields] at h
  | field :: fields, other :: others, h => by
    rw [jsonEqFields, and_eq_true] at h
    rw [canonicalizeFields, canonicalizeFields, jsonEqFields, and_eq_true]
    exact ⟨jsonEqField_canonicalize h.1, jsonEqFields_canonicalize h.2⟩

end

theorem compare_of_jsonEq {a b : Json} {path : String} (h : jsonEq a b = true) :
    compareJsonValues floatText extra a b path = [] := by
  unfold compareJsonValues
  rw [h]
  rfl

theorem lookup_canonicalizeFields (fields : List (String × Json)) (key : String) :
    (canonicalizeFields fp tables graph fields).lookup key =
      (fields.lookup key).map fun value => (canonicalizeField fp tables graph (key, value)).2 := by
  induction fields with
  | nil => rfl
  | cons field fields ih =>
    obtain ⟨k, value⟩ := field
    have hfst : canonicalizeField fp tables graph (k, value) =
        (k, (canonicalizeField fp tables graph (k, value)).2) :=
      Prod.ext (canonicalizeField_fst _) rfl
    rw [canonicalizeFields, hfst, lookup_cons, lookup_cons, ih]
    by_cases hkey : key = k
    · rw [hkey, beq_self_eq_true]
      rfl
    · rw [beq_eq_false_iff_ne.mpr hkey]

theorem unexpectedKeys_canonicalize (fields others : List (String × Json)) (path : String) :
    unexpectedKeys extra (canonicalizeFields fp tables graph fields)
      (canonicalizeFields fp tables graph others) path =
      unexpectedKeys extra fields others path := by
  unfold unexpectedKeys
  rw [canonicalizeFields_eq others, filter_map, map_map]
  simp only [Function.comp_def, canonicalizeField_fst, lookup_canonicalizeFields,
    Option.isNone_map]

theorem length_canonicalizeItems (items : List Json) :
    (canonicalizeItems fp tables graph items).length = items.length := by
  induction items with
  | nil => rfl
  | cons item items ih => rw [canonicalizeItems, length_cons, length_cons, ih]

theorem lengthMismatch_canonicalize (items others : List Json) (path : String) :
    lengthMismatch (canonicalizeItems fp tables graph items)
      (canonicalizeItems fp tables graph others) path = lengthMismatch items others path := by
  unfold lengthMismatch
  rw [length_canonicalizeItems, length_canonicalizeItems]

theorem canonicalizeEntityArgs_number (n : Json.Number) :
    canonicalizeEntityArgs fp tables graph (.number n) = .number n := by
  simp [canonicalizeEntityArgs]

/-- Values come out without a difference because they are equal, and so are their canonical forms,
or as containers of one kind with none inside. -/
theorem compareJsonValues_eq_nil {expected actual : Json} {path : String}
    (h : compareJsonValues floatText extra expected actual path = []) :
    compareJsonValues floatText extra (canonicalizeEntityArgs fp tables graph expected)
        (canonicalizeEntityArgs fp tables graph actual) path = [] ∨
      (∃ fields others, expected = .object fields ∧ actual = .object others ∧
        compareFields floatText extra fields others path = [] ∧
        unexpectedKeys extra fields others path = []) ∨
      ∃ items others, expected = .array items ∧ actual = .array others ∧
        lengthMismatch items others path = [] ∧
        compareItems floatText extra items others path 0 = [] := by
  unfold compareJsonValues at h
  split at h
  · rename_i hequal
    refine Or.inl ?_
    rcases Bool.or_eq_true_iff.mp hequal with heq | hnum
    · exact compare_of_jsonEq (jsonEq_canonicalize heq)
    · obtain ⟨m, n, rfl, rfl⟩ := numbersEqual_numbers hnum
      rw [canonicalizeEntityArgs_number, canonicalizeEntityArgs_number]
      unfold compareJsonValues
      rw [hnum, Bool.or_true]
      rfl
  · split at h
    · obtain ⟨hfields, hkeys⟩ := List.append_eq_nil_iff.mp h
      exact Or.inr (Or.inl ⟨_, _, rfl, rfl, hfields, hkeys⟩)
    · obtain ⟨hlength, hitems⟩ := List.append_eq_nil_iff.mp h
      exact Or.inr (Or.inr ⟨_, _, rfl, rfl, hlength, hitems⟩)
    · cases h

mutual

theorem compareJsonValues_canonicalize : ∀ {expected actual : Json} {path : String},
    compareJsonValues floatText extra expected actual path = [] →
    compareJsonValues floatText extra (canonicalizeEntityArgs fp tables graph expected)
      (canonicalizeEntityArgs fp tables graph actual) path = []
  | .object fields, actual, path, h => by
    rcases compareJsonValues_eq_nil h with
      h | ⟨_, others, heq, rfl, hfields, hkeys⟩ | ⟨_, _, heq, -⟩
    · exact h
    · cases heq
      rw [canonicalizeEntityArgs, canonicalizeEntityArgs]
      unfold compareJsonValues
      dsimp only
      rw [unexpectedKeys_canonicalize, hkeys, compareFields_canonicalize hfields]
      exact ite_self _
    · cases heq
  | .array items, actual, path, h => by
    rcases compareJsonValues_eq_nil h with
      h | ⟨_, _, heq, -⟩ | ⟨_, others, heq, rfl, hlength, hitems⟩
    · exact h
    · cases heq
    · cases heq
      rw [canonicalizeEntityArgs, canonicalizeEntityArgs]
      unfold compareJsonValues
      dsimp only
      rw [lengthMismatch_canonicalize, hlength, compareItems_canonicalize hitems]
      exact ite_self _
  | .null, _, _, h | .bool _, _, _, h | .number _, _, _, h | .string _, _, _, h => by
    rcases compareJsonValues_eq_nil h with h | ⟨_, _, heq, -⟩ | ⟨_, _, heq, -⟩
    · exact h
    · cases heq
    · cases heq

theorem compareField_canonicalize : ∀ {field : String × Json} {others : List (String × Json)}
    {path : String}, compareField floatText extra field others path = [] →
    compareField floatText extra (canonicalizeField fp tables graph field)
      (canonicalizeFields fp tables graph others) path = []
  | (key, value), others, path, h => by
    have hfst : canonicalizeField fp tables graph (key, value) =
        (key, (canonicalizeField fp tables graph (key, value)).2) :=
      Prod.ext (canonicalizeField_fst _) rfl
    rw [compareField] at h
    rw [hfst, compareField, lookup_canonicalizeFields]
    cases hlookup : others.lookup key with
    | none =>
      rw [hlookup] at h
      cases h
    | some actualValue =>
      rw [hlookup] at h
      exact canonicalizeField_related
        (R := fun a b => compareJsonValues floatText extra a b (objectPath path key) = []) key
        (asStr_of_compare h) (fun text => compare_string text _)
        (compareJsonValues_canonicalize h)

theorem compareFields_canonicalize : ∀ {fields others : List (String × Json)} {path : String},
    compareFields floatText extra fields others path = [] →
    compareFields floatText extra (canonicalizeFields fp tables graph fields)
      (canonicalizeFields fp tables graph others) path = []
  | [], _, _, _ => by rw [canonicalizeFields, compareFields]
  | field :: fields, others, path, h => by
    rw [compareFields, append_eq_nil_iff] at h
    rw [canonicalizeFields, compareFields, append_eq_nil_iff]
    exact ⟨compareField_canonicalize h.1, compareFields_canonicalize h.2⟩

theorem compareItems_canonicalize : ∀ {items others : List Json} {path : String} {index : Nat},
    compareItems floatText extra items others path index = [] →
    compareItems floatText extra (canonicalizeItems fp tables graph items)
      (canonicalizeItems fp tables graph others) path index = []
  | [], _, _, _, _ => by
    rw [canonicalizeItems]
    simp [compareItems]
  | _ :: _, [], _, _, _ => by
    rw [canonicalizeItems, canonicalizeItems]
    simp [compareItems]
  | item :: items, other :: others, path, index, h => by
    rw [compareItems, append_eq_nil_iff] at h
    rw [canonicalizeItems, canonicalizeItems, compareItems, append_eq_nil_iff]
    exact ⟨compareJsonValues_canonicalize h.1, compareItems_canonicalize h.2⟩

end

end

/-! ## Scores -/

/-- Where a case comes from. -/
structure BfclCaseSource where
  dataset : String
  url : Option String
  license : Option String
  citation : Option String
  derivedFrom : Option String
  notes : Option String

structure BfclCase where
  id : String
  category : Option String
  source : Option BfclCaseSource
  prompt : String
  expectedToolCalls : List ToolCall
  allowExtraArguments : Bool

structure BfclPrediction where
  id : String
  response : String

structure BfclCaseScore where
  id : String
  category : Option String
  source : Option BfclCaseSource
  missingPrediction : Bool
  parseSuccess : Bool
  toolNameMatch : Bool
  argumentMatch : Bool
  groundedArgumentMatch : Bool
  strictMatch : Bool
  expectedToolCalls : List ToolCall
  actualToolCalls : List ToolCall
  missingToolCalls : Nat
  extraToolCalls : Nat
  diagnostics : List String

structure BfclReport where
  totalCases : Nat
  parsedCases : Nat
  toolNameMatches : Nat
  argumentMatches : Nat
  groundedArgumentMatches : Nat
  strictMatches : Nat
  groundedStrictMatches : Nat
  missingPredictions : Nat
  failureCount : Nat
  parseAccuracy : F64
  toolNameAccuracy : F64
  argumentAccuracy : F64
  groundedArgumentAccuracy : F64
  strictAccuracy : F64
  groundedStrictAccuracy : F64
  caseScores : List BfclCaseScore

/-- What the loop over the calls of a case keeps. -/
structure Verdicts where
  toolNameMatch : Bool
  argumentMatch : Bool
  groundedArgumentMatch : Bool
  diagnostics : List String

/-- The verdicts in front of the loop. -/
def openingVerdicts (expectedLen actualLen : Nat) (parseSuccess : Bool) : Verdicts :=
  let counted := expectedLen == actualLen && parseSuccess
  { toolNameMatch := counted
    argumentMatch := counted
    groundedArgumentMatch := counted
    diagnostics :=
      (if parseSuccess then [] else ["no parsable tool call found"]) ++
      if expectedLen = actualLen then []
      else ["tool call count mismatch: expected " ++ expectedLen.repr ++ ", got " ++
        actualLen.repr] }

section

variable (fromStr : Parser.JsonReader) (floatText : F64 → String) (fp : SinglePrecision)
  (tables : CharTables)

def normalizeScoreArguments (arguments : Json) : Json :=
  Parser.normalizeEvalArguments fromStr arguments

/-- One round of the loop. -/
def scoreCall (allowExtraArguments : Bool) (v : Verdicts)
    (pair : (ToolCall × ToolCall) × Nat) : Verdicts :=
  let ((expected, actual), index) := pair
  if expected.name ≠ actual.name then
    { toolNameMatch := false
      argumentMatch := false
      groundedArgumentMatch := false
      diagnostics := v.diagnostics ++ ["tool[" ++ index.repr ++ "] name mismatch: expected '" ++
        expected.name ++ "', got '" ++ actual.name ++ "'"] }
  else
    let expectedArguments := normalizeScoreArguments fromStr expected.arguments
    let actualArguments := normalizeScoreArguments fromStr actual.arguments
    let argumentDiffs :=
      compareJsonValues floatText allowExtraArguments expectedArguments actualArguments "$"
    let groundedDiffs := compareJsonValues floatText allowExtraArguments
      (canonicalizeEntityArgs fp tables bfclReferenceHome expectedArguments)
      (canonicalizeEntityArgs fp tables bfclReferenceHome actualArguments) "$"
    { toolNameMatch := v.toolNameMatch
      argumentMatch := v.argumentMatch && argumentDiffs.isEmpty
      groundedArgumentMatch := v.groundedArgumentMatch && groundedDiffs.isEmpty
      diagnostics := v.diagnostics ++
        if argumentDiffs.isEmpty then []
        else ["tool[" ++ index.repr ++ "] argument mismatch: " ++ joinWith "; " argumentDiffs] }

def scoreCalls (case : BfclCase) (actualToolCalls : List ToolCall) (v : Verdicts) : Verdicts :=
  (case.expectedToolCalls.zip actualToolCalls).zipIdx.foldl
    (scoreCall fromStr floatText fp tables case.allowExtraArguments) v

def scoreParsedCalls (case : BfclCase) (actualToolCalls : List ToolCall)
    (missingPrediction : Bool) : BfclCaseScore :=
  let expectedLen := case.expectedToolCalls.length
  let actualLen := actualToolCalls.length
  if expectedLen = 0 then
    let pass := !missingPrediction && actualToolCalls.isEmpty
    { id := case.id
      category := case.category
      source := case.source
      missingPrediction := missingPrediction
      parseSuccess := pass
      toolNameMatch := pass
      argumentMatch := pass
      groundedArgumentMatch := pass
      strictMatch := pass
      expectedToolCalls := case.expectedToolCalls
      actualToolCalls := actualToolCalls
      missingToolCalls := expectedLen - actualLen
      extraToolCalls := actualLen - expectedLen
      diagnostics := if actualToolCalls.isEmpty then []
        else ["expected no tool calls, parsed " ++ actualLen.repr] }
  else
    let parseSuccess := !missingPrediction && !actualToolCalls.isEmpty
    let v := scoreCalls fromStr floatText fp tables case actualToolCalls
      (openingVerdicts expectedLen actualLen parseSuccess)
    { id := case.id
      category := case.category
      source := case.source
      missingPrediction := missingPrediction
      parseSuccess := parseSuccess
      toolNameMatch := v.toolNameMatch
      argumentMatch := v.argumentMatch
      groundedArgumentMatch := v.groundedArgumentMatch
      strictMatch := parseSuccess && v.toolNameMatch && v.argumentMatch
      expectedToolCalls := case.expectedToolCalls
      actualToolCalls := actualToolCalls
      missingToolCalls := expectedLen - actualLen
      extraToolCalls := actualLen - expectedLen
      diagnostics := v.diagnostics }

def scoreResponse (case : BfclCase) (response : String) : BfclCaseScore :=
  scoreParsedCalls fromStr floatText fp tables case (Parser.parseToolCallsForEval fromStr response)
    false

def scoreMissingPrediction (case : BfclCase) : BfclCaseScore :=
  let score := scoreParsedCalls fromStr floatText fp tables case [] true
  { score with diagnostics := score.diagnostics ++ ["missing prediction"] }

def ratio (count total : Nat) : F64 :=
  if total = 0 then ⟨0⟩ else (F64.ofNat count).div (F64.ofNat total)

/-- The second half of `score_cases`. -/
def reportOf (caseScores : List BfclCaseScore) : BfclReport :=
  let totalCases := caseScores.length
  let parsedCases := caseScores.countP BfclCaseScore.parseSuccess
  let toolNameMatches := caseScores.countP BfclCaseScore.toolNameMatch
  let argumentMatches := caseScores.countP BfclCaseScore.argumentMatch
  let groundedArgumentMatches := caseScores.countP BfclCaseScore.groundedArgumentMatch
  let strictMatches := caseScores.countP BfclCaseScore.strictMatch
  let groundedStrictMatches := caseScores.countP fun score =>
    score.parseSuccess && score.toolNameMatch && score.groundedArgumentMatch
  { totalCases := totalCases
    parsedCases := parsedCases
    toolNameMatches := toolNameMatches
    argumentMatches := argumentMatches
    groundedArgumentMatches := groundedArgumentMatches
    strictMatches := strictMatches
    groundedStrictMatches := groundedStrictMatches
    missingPredictions := caseScores.countP BfclCaseScore.missingPrediction
    failureCount := totalCases - strictMatches
    parseAccuracy := ratio parsedCases totalCases
    toolNameAccuracy := ratio toolNameMatches totalCases
    argumentAccuracy := ratio argumentMatches totalCases
    groundedArgumentAccuracy := ratio groundedArgumentMatches totalCases
    strictAccuracy := ratio strictMatches totalCases
    groundedStrictAccuracy := ratio groundedStrictMatches totalCases
    caseScores := caseScores }

/-- Of several predictions for one case the last one counts. -/
def scoreCases (cases : List BfclCase) (predictions : List BfclPrediction) : BfclReport :=
  reportOf (cases.map fun case =>
    match predictions.reverse.find? fun prediction => prediction.id = case.id with
    | some prediction => scoreResponse fromStr floatText fp tables case prediction.response
    | none => scoreMissingPrediction fromStr floatText fp tables case)

/-- The score of some case and calls, whatever has been said about it since. -/
def Scored (score : BfclCaseScore) : Prop :=
  ∃ case actualToolCalls missingPrediction diagnostics,
    score = { scoreParsedCalls fromStr floatText fp tables case actualToolCalls missingPrediction
      with diagnostics := diagnostics }

end

/-! ## The verdicts of a case -/

variable {fromStr : Parser.JsonReader} {floatText : F64 → String} {fp : SinglePrecision}
  {tables : CharTables}

/-- From the strictest verdict to the mildest. -/
structure Verdicts.Sound (counted : Bool) (v : Verdicts) : Prop where
  grounded : v.argumentMatch = true → v.groundedArgumentMatch = true
  named : v.groundedArgumentMatch = true → v.toolNameMatch = true
  counted : v.toolNameMatch = true → counted = true

theorem Verdicts.Sound.step {counted extra : Bool} {v : Verdicts} (h : v.Sound counted)
    (pair : (ToolCall × ToolCall) × Nat) :
    (scoreCall fromStr floatText fp tables extra v pair).Sound counted := by
  unfold scoreCall
  dsimp only
  split
  · constructor
    · intro hfalse
      cases hfalse
    · intro hfalse
      cases hfalse
    · intro hfalse
      cases hfalse
  · constructor
    · intro hmatch
      obtain ⟨hargs, hdiffs⟩ := Bool.and_eq_true_iff.mp hmatch
      refine Bool.and_eq_true_iff.mpr ⟨h.grounded hargs, List.isEmpty_iff.mpr ?_⟩
      exact compareJsonValues_canonicalize (List.isEmpty_iff.mp hdiffs)
    · intro hmatch
      exact h.named (Bool.and_eq_true_iff.mp hmatch).1
    · exact h.counted

theorem Verdicts.Sound.run {counted : Bool} {v : Verdicts} (h : v.Sound counted) (case : BfclCase)
    (actualToolCalls : List ToolCall) :
    (scoreCalls fromStr floatText fp tables case actualToolCalls v).Sound counted := by
  unfold scoreCalls
  generalize (case.expectedToolCalls.zip actualToolCalls).zipIdx = pairs
  induction pairs generalizing v with
  | nil => exact h
  | cons pair pairs ih => exact ih (h.step pair)

structure BfclCaseScore.Sound (score : BfclCaseScore) : Prop where
  grounded : score.argumentMatch = true → score.groundedArgumentMatch = true
  strict : score.strictMatch = score.argumentMatch
  named : score.groundedArgumentMatch = true → score.toolNameMatch = true
  parsed : score.groundedArgumentMatch = true → score.parseSuccess = true
  predicted : score.parseSuccess = true → score.missingPrediction = false
  counted : score.groundedArgumentMatch = true →
    score.expectedToolCalls.length = score.actualToolCalls.length

theorem scoreParsedCalls_sound (case : BfclCase) (calls : List ToolCall)
    (missingPrediction : Bool) :
    (scoreParsedCalls fromStr floatText fp tables case calls missingPrediction).Sound := by
  unfold scoreParsedCalls
  dsimp only
  split
  · rename_i hnone
    constructor
    · exact id
    · rfl
    · exact id
    · exact id
    · intro hpass
      exact (not_eq_true' _).mp (Bool.and_eq_true_iff.mp hpass).1
    · intro hpass
      rw [List.isEmpty_iff.mp (Bool.and_eq_true_iff.mp hpass).2]
      exact hnone
  · have hopening : (openingVerdicts case.expectedToolCalls.length calls.length
        (!missingPrediction && !calls.isEmpty)).Sound _ := ⟨id, id, id⟩
    have hv : (scoreCalls fromStr floatText fp tables case calls _).Sound _ :=
      hopening.run case calls
    revert hv
    generalize scoreCalls fromStr floatText fp tables case calls _ = v
    intro hv
    have hcounted := fun hgrounded : v.groundedArgumentMatch = true =>
      Bool.and_eq_true_iff.mp (hv.counted (hv.named hgrounded))
    constructor
    · exact hv.grounded
    · cases hmatch : v.argumentMatch with
      | false => exact Bool.and_false _
      | true =>
        have hgrounded := hv.grounded hmatch
        rw [(hcounted hgrounded).2, hv.named hgrounded]
        rfl
    · exact hv.named
    · exact fun hgrounded => (hcounted hgrounded).2
    · intro hparse
      exact (not_eq_true' _).mp (Bool.and_eq_true_iff.mp hparse).1
    · exact fun hgrounded => beq_iff_eq.mp (hcounted hgrounded).1

end GenieClaw.Eval
