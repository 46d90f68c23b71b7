import GenieClaw.Eval.Scoring
import GenieClaw.Library.SortedTable
import Mathlib.Data.String.Basic

/-!
# Classes of failures

`analyze_report` of `eval/analyze.rs`, which sorts the scored cases of a report into classes.

* `analyzeReport_adds_up` (no assumption): the sums of a report are those of its cases.
-/

namespace GenieClaw.Eval

open Library Library.Text Home Dispatch List

inductive FailureClass where
  | strictPass
  | recoveredEntityIdForm
  | recoveredSnakeCase
  | recoveredRoomQualifier
  | recoveredPlural
  | recoveredActionSynonym
  | recoveredOther
  | unresolvedEntity
  | wrongDevice
  | actionMismatch
  | scalarArgMismatch
  | missingArgument
  | unexpectedArgument
  | toolNameMismatch
  | callCountMismatch
  | parseFailure
  | missingPrediction
deriving DecidableEq

namespace FailureClass

def label : FailureClass → String
  | strictPass => "strict_pass"
  | recoveredEntityIdForm => "recovered_entity_id_form"
  | recoveredSnakeCase => "recovered_snake_case"
  | recoveredRoomQualifier => "recovered_room_qualifier"
  | recoveredPlural => "recovered_plural"
  | recoveredActionSynonym => "recovered_action_synonym"
  | recoveredOther => "recovered_other"
  | unresolvedEntity => "unresolved_entity"
  | wrongDevice => "wrong_device"
  | actionMismatch => "action_mismatch"
  | scalarArgMismatch => "scalar_arg_mismatch"
  | missingArgument => "missing_argument"
  | unexpectedArgument => "unexpected_argument"
  | toolNameMismatch => "tool_name_mismatch"
  | callCountMismatch => "call_count_mismatch"
  | parseFailure => "parse_failure"
  | missingPrediction => "missing_prediction"

def isRecovery : FailureClass → Bool
  | recoveredEntityIdForm | recoveredSnakeCase | recoveredRoomQualifier | recoveredPlural
  | recoveredActionSynonym | recoveredOther => true
  | _ => false

def isResidualFailure (c : FailureClass) : Bool := c ≠ strictPass && !c.isRecovery

end FailureClass

/-! ## Leaf differences -/

structure ArgDelta where
  path : String
  key : String
  expected : Option Json
  actual : Option Json

namespace ArgDelta

def isEntity (d : ArgDelta) : Bool := entityArgKeys.contains d.key

def isAction (d : ArgDelta) : Bool := actionArgKeys.contains d.key

def expectedStr (d : ArgDelta) : Option String := d.expected.bind Json.asStr

def actualStr (d : ArgDelta) : Option String := d.actual.bind Json.asStr

def describe (floatText : F64 → String) (d : ArgDelta) : String :=
  let compact := Json.render floatText
  match d.expected, d.actual with
  | some expected, some actual =>
    d.path ++ ": expected " ++ compact expected ++ ", got " ++ compact actual
  | some expected, none => d.path ++ ": missing, expected " ++ compact expected
  | none, some actual => d.path ++ ": unexpected " ++ compact actual
  | none, none => d.path

end ArgDelta

def unexpectedDeltas (expected actual : List (String × Json)) (path : String) : List ArgDelta :=
  (actual.filter fun field => (expected.lookup field.1).isNone).map fun field =>
    ⟨objectPath path field.1, field.1, none, some field.2⟩

mutual

def diffValues (expected actual : Json) (path key : String) : List ArgDelta :=
  if jsonEq expected actual || numbersEqual expected actual then []
  else
    match expected, actual with
    | .object fields, .object others =>
      diffFields fields others path ++ unexpectedDeltas fields others path
    | .array items, .array others =>
      if items.length = others.length then diffItems items others path key 0
      else [⟨path, key, some (.array items), some (.array others)⟩]
    | expected, actual => [⟨path, key, some expected, some actual⟩]

def diffField : String × Json → List (String × Json) → String → List ArgDelta
  | (key, value), actual, path =>
    match actual.lookup key with
    | some actualValue => diffValues value actualValue (objectPath path key) key
    | none => [⟨objectPath path key, key, some value, none⟩]

def diffFields : List (String × Json) → List (String × Json) → String → List ArgDelta
  | [], _, _ => []
  | field :: fields, actual, path => diffField field actual path ++ diffFields fields actual path

def diffItems : List Json → List Json → String → String → Nat → List ArgDelta
  | item :: items, other :: others, path, key, index =>
    diffValues item other (arrayPath path index) key ++ diffItems items others path key (index + 1)
  | _, _, _, _, _ => []

end

def collectDeltas (fromStr : Parser.JsonReader) (score : BfclCaseScore) : List ArgDelta :=
  (score.expectedToolCalls.zip score.actualToolCalls).flatMap fun (expected, actual) =>
    diffValues (normalizeScoreArguments fromStr expected.arguments)
      (normalizeScoreArguments fromStr actual.arguments) "$" ""

/-! ## The classifier -/

def stripPluralS (word : String) : Option String :=
  if endsWith "s" word then some (String.ofList word.toList.dropLast) else none

def isPluralVariant (left right : String) : Bool :=
  let (shorter, longer) :=
    if left.utf8ByteSize ≤ right.utf8ByteSize then (left, right) else (right, left)
  stripPluralS longer == some shorter

def sameStem (left right : String) : Bool :=
  left == right || stripPluralS left == some right || stripPluralS right == some left

def isQualifierSubset (left right : String) : Bool :=
  let leftWords := splitWhitespace left
  let rightWords := splitWhitespace right
  if leftWords = [] ∨ rightWords = [] ∨ leftWords = rightWords then false
  else
    let (shorter, longer) :=
      if leftWords.length ≤ rightWords.length then (leftWords, rightWords)
      else (rightWords, leftWords)
    shorter.all fun word => longer.any (sameStem word)

section

variable (fromStr : Parser.JsonReader) (floatText : F64 → String) (fp : SinglePrecision)
  (tables : CharTables)

def classifyEntitySurfaceDelta (expected actual : String) : FailureClass :=
  let expectedLower := tables.toLowercase (trim expected)
  let actualLower := tables.toLowercase (trim actual)
  if actualLower.toList.contains '.' ≠ expectedLower.toList.contains '.' then
    .recoveredEntityIdForm
  else if actualLower.toList.contains '_' ≠ expectedLower.toList.contains '_' then
    .recoveredSnakeCase
  else if isPluralVariant expectedLower actualLower then .recoveredPlural
  else if isQualifierSubset expectedLower actualLower then .recoveredRoomQualifier
  else .recoveredOther

def classifyRecovery (deltas : List ArgDelta) : FailureClass :=
  match deltas.find? ArgDelta.isEntity with
  | some delta =>
    match delta.expectedStr, delta.actualStr with
    | some expected, some actual => classifyEntitySurfaceDelta tables expected actual
    | _, _ => .recoveredOther
  | none => if deltas.any ArgDelta.isAction then .recoveredActionSynonym else .recoveredOther

/-- What a difference at a known key makes of the case, with a test of two texts. -/
def textVerdict (verdict : String → String → Option FailureClass) (delta : ArgDelta) :
    Option FailureClass :=
  match delta.expectedStr, delta.actualStr with
  | some expected, some actual => verdict expected actual
  | some _, none => some .missingArgument
  | none, some _ => some .unexpectedArgument
  | none, none => none

def entityVerdict (expected actual : String) : Option FailureClass :=
  let actualIds := resolveReferenceHomeEntityIds fp tables actual
  if actualIds = none then some .unresolvedEntity
  else if resolveReferenceHomeEntityIds fp tables expected ≠ actualIds then some .wrongDevice
  else none

def actionVerdict (expected actual : String) : Option FailureClass :=
  if canonAction tables.toLowercase expected ≠ canonAction tables.toLowercase actual then
    some .actionMismatch
  else none

def classifyResidualFailure (deltas : List ArgDelta) : FailureClass :=
  let entity := (deltas.find? ArgDelta.isEntity).bind (textVerdict (entityVerdict fp tables))
  let action := (deltas.find? ArgDelta.isAction).bind (textVerdict (actionVerdict tables))
  match entity.or action with
  | some c => c
  | none =>
    if deltas.any fun delta => delta.expected.isNone then .unexpectedArgument
    else if deltas.any fun delta => delta.actual.isNone then .missingArgument
    else .scalarArgMismatch

def nameMismatch (score : BfclCaseScore) : String :=
  match (score.expectedToolCalls.zip score.actualToolCalls).find? fun pair =>
    decide (pair.1.name ≠ pair.2.name) with
  | some (expected, actual) =>
    "expected tool '" ++ expected.name ++ "', got '" ++ actual.name ++ "'"
  | none => "tool name mismatch"

def classify (score : BfclCaseScore) : FailureClass × String :=
  if score.missingPrediction then (.missingPrediction, "no prediction row for this case id")
  else if !score.parseSuccess then (.parseFailure, "no parsable tool call in the response")
  else if score.expectedToolCalls.length ≠ score.actualToolCalls.length then
    (.callCountMismatch, "expected " ++ score.expectedToolCalls.length.repr ++
      " tool call(s), got " ++ score.actualToolCalls.length.repr)
  else if !score.toolNameMatch then (.toolNameMismatch, nameMismatch score)
  else if score.argumentMatch then (.strictPass, "")
  else
    let deltas := collectDeltas fromStr score
    if deltas.isEmpty then
      (if score.groundedArgumentMatch then .recoveredOther else .scalarArgMismatch,
        "argument mismatch with no leaf delta")
    else
      (if score.groundedArgumentMatch then classifyRecovery tables deltas
        else classifyResidualFailure fp tables deltas,
        joinWith "; " (deltas.map (ArgDelta.describe floatText)))

structure CaseAnalysis where
  id : String
  category : Option String
  cls : FailureClass
  detail : String

structure AnalysisReport where
  totalCases : Nat
  strictPasses : Nat
  groundedRecoveries : Nat
  residualFailures : Nat
  argumentAccuracy : F64
  groundedArgumentAccuracy : F64
  groundingGap : F64
  classCounts : SortedTable String Nat
  cases : List CaseAnalysis

def analyzeCase (score : BfclCaseScore) : CaseAnalysis :=
  let (cls, detail) := classify fromStr floatText fp tables score
  ⟨score.id, score.category, cls, detail⟩

def analyzeReport (report : BfclReport) : AnalysisReport :=
  let cases := report.caseScores.map (analyzeCase fromStr floatText fp tables)
  { totalCases := cases.length
    strictPasses := cases.countP fun case => case.cls = .strictPass
    groundedRecoveries := cases.countP fun case => case.cls.isRecovery
    residualFailures := cases.countP fun case => case.cls.isResidualFailure
    argumentAccuracy := report.argumentAccuracy
    groundedArgumentAccuracy := report.groundedArgumentAccuracy
    groundingGap := report.groundedArgumentAccuracy.sub report.argumentAccuracy
    classCounts := (cases.map fun case => case.cls.label).foldl SortedTable.count .empty
    cases := cases }

end

/-! ## The class of a score -/

variable {fromStr : Parser.JsonReader} {floatText : F64 → String} {fp : SinglePrecision}
  {tables : CharTables}

theorem classifyEntitySurfaceDelta_isRecovery (expected actual : String) :
    (classifyEntitySurfaceDelta tables expected actual).isRecovery = true := by
  unfold classifyEntitySurfaceDelta
  dsimp only
  split_ifs <;> rfl

theorem classifyRecovery_isRecovery (deltas : List ArgDelta) :
    (classifyRecovery tables deltas).isRecovery = true := by
  unfold classifyRecovery
  split
  · split
    · exact classifyEntitySurfaceDelta_isRecovery _ _
    · rfl
  · split_ifs <;> rfl

variable {c : FailureClass}

theorem textVerdict_residual {verdict : String → String → Option FailureClass}
    (hverdict : ∀ expected actual c, verdict expected actual = some c → c.isResidualFailure = true)
    {delta : ArgDelta} (h : textVerdict verdict delta = some c) : c.isResidualFailure = true := by
  unfold textVerdict at h
  split at h
  · exact hverdict _ _ _ h
  · cases h
    rfl
  · cases h
    rfl
  · cases h

theorem entityVerdict_residual (expected actual : String) (c : FailureClass)
    (h : entityVerdict fp tables expected actual = some c) : c.isResidualFailure = true := by
  unfold entityVerdict at h
  dsimp only at h
  split_ifs at h <;> cases h <;> rfl

theorem actionVerdict_residual (expected actual : String) (c : FailureClass)
    (h : actionVerdict tables expected actual = some c) : c.isResidualFailure = true := by
  unfold actionVerdict at h
  split_ifs at h
  cases h
  rfl

theorem classifyResidualFailure_residual (deltas : List ArgDelta) :
    (classifyResidualFailure fp tables deltas).isResidualFailure = true := by
  unfold classifyResidualFailure
  dsimp only
  split
  · rename_i c hc
    rcases Option.or_eq_some_iff.mp hc with hentity | ⟨-, haction⟩
    · obtain ⟨delta, -, hdelta⟩ := Option.bind_eq_some_iff.mp hentity
      exact textVerdict_residual entityVerdict_residual hdelta
    · obtain ⟨delta, -, hdelta⟩ := Option.bind_eq_some_iff.mp haction
      exact textVerdict_residual actionVerdict_residual hdelta
  · split_ifs <;> rfl

/-- The verdicts of the score, as its class has them. -/
structure FailureClass.Tells (score : BfclCaseScore) (c : FailureClass) : Prop where
  strict : (c = .strictPass) = (score.argumentMatch = true)
  recovery : c.isRecovery = (score.groundedArgumentMatch && !score.argumentMatch)
  residual : c.isResidualFailure = !score.groundedArgumentMatch

variable {score : BfclCaseScore}

theorem FailureClass.Tells.of_residual (hscore : score.Sound) (hc : c.isResidualFailure = true)
    (h : ¬ score.groundedArgumentMatch = true) : c.Tells score := by
  have hgrounded : score.groundedArgumentMatch = false := Bool.eq_false_iff.mpr h
  have hargument : score.argumentMatch = false :=
    Bool.eq_false_iff.mpr fun hmatch => h (hscore.grounded hmatch)
  have hparts := Bool.and_eq_true_iff.mp hc
  constructor
  · rw [hargument]
    exact propext ⟨fun heq => absurd heq (by simpa using hparts.1), fun hfalse => by cases hfalse⟩
  · rw [hgrounded]
    exact (Bool.not_eq_true' _).mp hparts.2
  · rw [hgrounded]
    exact hc

theorem FailureClass.Tells.of_recovery (hc : c.isRecovery = true)
    (hargument : ¬ score.argumentMatch = true) (hgrounded : score.groundedArgumentMatch = true) :
    c.Tells score := by
  have hargument : score.argumentMatch = false := Bool.eq_false_iff.mpr hargument
  constructor
  · rw [hargument]
    refine propext ⟨?_, fun hfalse => by cases hfalse⟩
    rintro rfl
    cases hc
  · rw [hgrounded, hargument]
    exact hc
  · rw [hgrounded, FailureClass.isResidualFailure, hc, Bool.not_true, Bool.and_false]

theorem classify_tells (h : score.Sound) :
    (classify fromStr floatText fp tables score).1.Tells score := by
  have hfails : ∀ {c : FailureClass}, c.isResidualFailure = true →
      ¬ score.groundedArgumentMatch = true → c.Tells score := fun hc => .of_residual h hc
  unfold classify
  split
  · rename_i hmissing
    refine hfails rfl fun hgrounded => ?_
    rw [h.predicted (h.parsed hgrounded)] at hmissing
    cases hmissing
  split
  · rename_i hparse
    refine hfails rfl fun hgrounded => ?_
    rw [h.parsed hgrounded] at hparse
    cases hparse
  split
  · rename_i hcount
    exact hfails rfl fun hgrounded => hcount (h.counted hgrounded)
  split
  · rename_i hname
    refine hfails rfl fun hgrounded => ?_
    rw [h.named hgrounded] at hname
    cases hname
  split
  · rename_i hargument
    have hgrounded := h.grounded hargument
    constructor
    · exact propext ⟨fun _ => hargument, fun _ => rfl⟩
    · rw [hargument, hgrounded]
      rfl
    · rw [hgrounded]
      rfl
  · rename_i hargument
    dsimp only
    by_cases hgrounded : score.groundedArgumentMatch = true
    · rw [if_pos hgrounded, if_pos hgrounded]
      split
      · exact .of_recovery rfl hargument hgrounded
      · exact .of_recovery (classifyRecovery_isRecovery _) hargument hgrounded
    · rw [if_neg hgrounded, if_neg hgrounded]
      split
      · exact hfails rfl hgrounded
      · exact hfails (classifyResidualFailure_residual _) hgrounded

/-! ## The counts -/

theorem Scored.sound (h : Scored fromStr floatText fp tables score) : score.Sound := by
  obtain ⟨case, actualToolCalls, missingPrediction, diagnostics, rfl⟩ := h
  have hsound : (scoreParsedCalls fromStr floatText fp tables case actualToolCalls
    missingPrediction).Sound := scoreParsedCalls_sound _ _ _
  exact ⟨hsound.grounded, hsound.strict, hsound.named, hsound.parsed, hsound.predicted,
    hsound.counted⟩

theorem scored_of_mem_scoreCases {cases : List BfclCase} {predictions : List BfclPrediction}
    (h : score ∈ (scoreCases fromStr floatText fp tables cases predictions).caseScores) :
    Scored fromStr floatText fp tables score := by
  obtain ⟨case, -, rfl⟩ := List.mem_map.mp h
  split
  · exact ⟨case, _, false, _, rfl⟩
  · exact ⟨case, [], true, _, rfl⟩

theorem countP_split {α : Type} {p q : α → Bool} {l : List α}
    (h : ∀ a ∈ l, p a = true → q a = true) :
    l.countP (fun a => q a && !p a) = l.countP q - l.countP p := by
  induction l with
  | nil => rfl
  | cons a l ih =>
    obtain ⟨hhead, htail⟩ := List.forall_mem_cons.mp h
    have hle : l.countP p ≤ l.countP q := countP_mono_left htail
    simp only [countP_cons, ih htail]
    cases hp : p a with
    | false =>
      cases q a with
      | false => simp
      | true =>
        simp
        omega
    | true => simp [hhead hp]

theorem analyzeReport_adds_up (fromStr : Parser.JsonReader) (floatText : F64 → String)
    (fp : SinglePrecision) (tables : CharTables) :
    (∀ case actualToolCalls missingPrediction,
      let score := scoreParsedCalls fromStr floatText fp tables case actualToolCalls
        missingPrediction
      (score.argumentMatch = true → score.groundedArgumentMatch = true) ∧
        (score.strictMatch = true ↔ score.argumentMatch = true)) ∧
    (∀ cases predictions, ∀ score ∈
      (scoreCases fromStr floatText fp tables cases predictions).caseScores,
      Scored fromStr floatText fp tables score) ∧
    ∀ caseScores : List BfclCaseScore,
      (∀ score ∈ caseScores, Scored fromStr floatText fp tables score) →
      let report := reportOf caseScores
      let analysis := analyzeReport fromStr floatText fp tables report
      analysis.totalCases = report.totalCases ∧
        analysis.strictPasses = report.argumentMatches ∧
        report.argumentMatches ≤ report.groundedArgumentMatches ∧
        analysis.groundedRecoveries = report.groundedArgumentMatches - report.argumentMatches ∧
        analysis.residualFailures = report.totalCases - report.groundedArgumentMatches ∧
        analysis.classCounts.total = report.totalCases ∧
        ∀ label, (analysis.classCounts.lookup label).getD 0 =
          (analysis.cases.map fun case => case.cls.label).count label := by
  refine ⟨fun case calls missing => ?_, fun _ _ _ => scored_of_mem_scoreCases,
    fun caseScores hscored => ?_⟩
  · have hsound : (scoreParsedCalls fromStr floatText fp tables case calls missing).Sound :=
      scoreParsedCalls_sound _ _ _
    exact ⟨hsound.grounded, by rw [hsound.strict]⟩
  have hsound : ∀ score ∈ caseScores, score.Sound := fun score hmem => (hscored score hmem).sound
  have hmono : ∀ score ∈ caseScores, score.argumentMatch = true →
      score.groundedArgumentMatch = true := fun score hmem => (hsound score hmem).grounded
  have htells : ∀ score ∈ caseScores,
      (analyzeCase fromStr floatText fp tables score).cls.Tells score :=
    fun score hmem => classify_tells (hsound score hmem)
  refine ⟨length_map _, ?_, countP_mono_left hmono, ?_, ?_, ?_, fun label => ?_⟩
  · show (caseScores.map _).countP _ = caseScores.countP _
    rw [countP_map]
    refine countP_congr fun score hmem => ?_
    rw [Function.comp_apply, decide_eq_true_iff, (htells score hmem).strict]
  · show (caseScores.map _).countP _ = caseScores.countP _ - caseScores.countP _
    rw [countP_map, ← countP_split hmono]
    refine countP_congr fun score hmem => ?_
    rw [Function.comp_apply, (htells score hmem).recovery]
  · show (caseScores.map _).countP _ = caseScores.length - caseScores.countP _
    rw [countP_map, length_eq_countP_add_countP BfclCaseScore.groundedArgumentMatch,
      Nat.add_sub_cancel_left]
    refine countP_congr fun score hmem => ?_
    rw [Function.comp_apply, (htells score hmem).residual]
    simp
  · show (((caseScores.map _).map _).foldl SortedTable.count .empty).total = caseScores.length
    rw [SortedTable.total_foldl_count, length_map, length_map]
    exact Nat.zero_add _
  · show ((((caseScores.map _).map _).foldl SortedTable.count .empty).lookup label).getD 0 = _
    rw [SortedTable.lookup_foldl_count]
    exact Nat.zero_add _

def lightsCall (entity : String) : ToolCall :=
  ⟨"home_control", .object [("action", .string "turn_on"), ("entity", .string entity)]⟩

def lightsCase : BfclCase where
  id := "lights"
  category := none
  source := none
  prompt := "turn on the lights"
  expectedToolCalls := [lightsCall "kitchen lights"]
  allowExtraArguments := false

def lightsScore : BfclCaseScore :=
  scoreParsedCalls (fun _ => none) (fun _ => "") .exact .ascii lightsCase [lightsCall "lights"]
    false

theorem analyzeReport_adds_up_lights :
    (analyzeReport (fun _ => none) (fun _ => "") .exact .ascii
      (reportOf [lightsScore])).groundedRecoveries = 1 := by
  have hscored : ∀ score ∈ [lightsScore],
      Scored (fun _ => none) (fun _ => "") .exact .ascii score := by
    intro score hmem
    rw [List.mem_singleton.mp hmem]
    exact ⟨lightsCase, [lightsCall "lights"], false, _, rfl⟩
  have h := (analyzeReport_adds_up (fun _ => none) (fun _ => "") .exact .ascii).2.2
    [lightsScore] hscored
  rw [h.2.2.2.1]
  decide +kernel

end GenieClaw.Eval
