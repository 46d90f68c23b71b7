import GenieClaw.Parser.Prose

/-!
# Which output is taken for a tool call

The parser accepts a value as a call and the detector flags the output it cannot parse.
Together they should cover whatever looks like a tool call, and a plain answer with a
single key should be neither. Both depend on the JSON text a response carries and on the
names in its value, which are described here by their shapes.

* `extractJson_eq_some_iff`: the JSON text that is extracted is the one `Carries` describes.
* `callName_iff`: the first call of the evaluation has the name that the value gives it.
* `toolish_handled_iff`: toolish output is handled unless its value is `Overlooked`.
* `single_key_refused_iff`: which objects with a single key are no call.
-/

namespace GenieClaw.Parser

open Library Library.Text Dispatch List Option

variable {fromStr : JsonReader} {isKnownTool : String → Bool} {response : String}

/-! ## The JSON text of a response -/

/-- The JSON text that a response carries: itself, or else the block behind a fence, or else what
the first bracket encloses that encloses a JSON text. -/
inductive Carries (fromStr : JsonReader) (response : String) : String → Prop
  | whole (h : IsContainer fromStr (trim response)) : Carries fromStr response (trim response)
  | fenced {json : String} (hnot : ¬ IsContainer fromStr (trim response))
      (h : FirstFenced fromStr (trim response) json) : Carries fromStr response json
  | embedded {json : String} {k : Nat} (hnot : ¬ IsContainer fromStr (trim response))
      (hnone : ∀ block, ¬ FirstFenced fromStr (trim response) block)
      (h : OpensAt fromStr (trim response).toList k json)
      (hfirst : ∀ j < k, ∀ other, ¬ OpensAt fromStr (trim response).toList j other) :
      Carries fromStr response json

theorem extractEmbeddedJson_eq_some {text : List Char} {json : String} :
    extractEmbeddedJson fromStr text = some json ↔
      ∃ k, OpensAt fromStr text k json ∧ ∀ j < k, ∀ other, ¬ OpensAt fromStr text j other := by
  induction text with
  | nil =>
    refine ⟨nofun, ?_⟩
    rintro ⟨k, hopens, -⟩
    rw [OpensAt, drop_nil, ← candidateHere_eq_some] at hopens
    cases hopens
  | cons c rest ih =>
    rw [extractEmbeddedJson, or_eq_some_iff, ih]
    have hhere : ∀ other, OpensAt fromStr (c :: rest) 0 other ↔
        candidateHere fromStr (c :: rest) = some other := fun _ => candidateHere_eq_some.symm
    constructor
    · rintro (hfound | ⟨hnone, k, hopens, hfirst⟩)
      · exact ⟨0, (hhere json).mpr hfound, fun j hj => absurd hj (Nat.not_lt_zero j)⟩
      · refine ⟨k + 1, hopens, fun j hj other hother => ?_⟩
        cases j with
        | zero =>
          rw [hhere, hnone] at hother
          cases hother
        | succ j => exact hfirst j (Nat.lt_of_succ_lt_succ hj) other hother
    · rintro ⟨k, hopens, hfirst⟩
      cases k with
      | zero => exact .inl ((hhere json).mp hopens)
      | succ k =>
        refine .inr ⟨?_, k, hopens, fun j hj => hfirst (j + 1) (Nat.succ_lt_succ hj)⟩
        rw [eq_none_iff_forall_not_mem]
        exact fun other hother => hfirst 0 (Nat.succ_pos k) other ((hhere other).mpr hother)

theorem extractJson_eq_some_iff {json : String} :
    extractJson fromStr response = some json ↔ Carries fromStr response json := by
  have hcontainer : (isJsonContainer (trim response) && (fromStr (trim response)).isSome) = true ↔
      IsContainer fromStr (trim response) := by
    rw [Bool.and_eq_true]
    exact Iff.rfl
  have hblock : extractFromCodeBlock fromStr (trim response) = none ↔
      ∀ block, ¬ FirstFenced fromStr (trim response) block := by
    rw [eq_none_iff_forall_not_mem]
    exact forall_congr' fun block => not_congr extractFromCodeBlock_eq_some
  unfold extractJson
  dsimp only
  split_ifs with hwhole
  · rw [hcontainer] at hwhole
    rw [some_inj]
    constructor
    · rintro rfl
      exact .whole hwhole
    · intro h
      cases h with
      | whole => rfl
      | fenced hnot => exact absurd hwhole hnot
      | embedded hnot => exact absurd hwhole hnot
  · rw [hcontainer] at hwhole
    rw [or_eq_some_iff, extractFromCodeBlock_eq_some, hblock, extractEmbeddedJson_eq_some]
    constructor
    · rintro (hfenced | ⟨hnone, k, hopens, hfirst⟩)
      · exact .fenced hwhole hfenced
      · exact .embedded hwhole hnone hopens hfirst
    · intro h
      cases h with
      | whole h => exact absurd h hwhole
      | fenced _ h => exact .inl h
      | embedded _ hnone hopens hfirst => exact .inr ⟨hnone, _, hopens, hfirst⟩

theorem extractedValue_eq_some {v : Json} :
    extractedValue fromStr response = some v ↔
      ∃ json, Carries fromStr response json ∧ fromStr json = some v := by
  rw [extractedValue, bind_eq_some_iff]
  exact exists_congr fun json => and_congr_left' extractJson_eq_some_iff

/-! ## Names of calls -/

/-- The name a value gives itself as a call: the text under `name` or `tool`, if only one of them
is there, or the first of one or two items. -/
inductive OwnName : Json → String → Prop
  | name {fields : List (String × Json)} {n : String} (h : fields.lookup "name" = some (.string n))
      (hno : fields.lookup "tool" = none) : OwnName (.object fields) n
  | tool {fields : List (String × Json)} {n : String} (h : fields.lookup "tool" = some (.string n))
      (hno : fields.lookup "name" = none) : OwnName (.object fields) n
  | only (n : String) : OwnName (.array [.string n]) n
  | first (n : String) (arguments : Json) : OwnName (.array [.string n, arguments]) n

/-- The name of a value that stands for a call among others: its own one, if it is not blank, or
else its single key, if that is none of an answer. -/
inductive EntryName : Json → String → Prop
  | own {v : Json} {n : String} (h : OwnName v n) (hblank : trim n ≠ "") : EntryName v n
  | key {key : String} {nested : Json} (hown : ∀ n, ¬ OwnName (.object [(key, nested)]) n)
      (hanswer : key ∉ answerKeys) : EntryName (.object [(key, nested)]) key

/-- The text under `name`, trimmed, if it is not blank. -/
inductive FunctionName : Json → String → Prop
  | name {v : Json} {text : String} (h : v.get "name" = some (.string text))
      (hblank : trim text ≠ "") : FunctionName v (trim text)

/-- The first value of the list that has a name. -/
def FirstName (Name : Json → String → Prop) (items : List Json) (n : String) : Prop :=
  ∃ before item after, items = before ++ item :: after ∧ Name item n ∧
    ∀ other ∈ before, ∀ m, ¬ Name other m

/-- The name of the first call in a value: of an array, of a wrapper, or of a single call. -/
inductive CallName : Json → String → Prop
  | array {items : List Json} {n : String} (h : FirstName EntryName items n) :
      CallName (.array items) n
  | toolCalls {fields : List (String × Json)} {calls : List Json} {n : String}
      (hcalls : fields.lookup "tool_calls" = some (.array calls))
      (h : FirstName (fun call => FunctionName ((call.get "function").getD call)) calls n) :
      CallName (.object fields) n
  | functionCall {fields : List (String × Json)} {function : Json} {n : String}
      (hno : ∀ calls, fields.lookup "tool_calls" ≠ some (.array calls))
      (hcall : fields.lookup "function_call" = some function) (h : FunctionName function n) :
      CallName (.object fields) n
  | single {fields : List (String × Json)} {n : String}
      (hno : ∀ calls, fields.lookup "tool_calls" ≠ some (.array calls))
      (hnone : fields.lookup "function_call" = none) (h : EntryName (.object fields) n) :
      CallName (.object fields) n

/-- The value is a call by its own name, or by its key, which is a known tool. -/
def Introduced (isKnownTool : String → Bool) (v : Json) : Prop :=
  (∃ n, OwnName v n ∧ n ≠ "") ∨
    ∃ key nested, v = .object [(key, nested)] ∧ isKnownTool key = true ∧ key ≠ ""

theorem ownName_iff {v : Json} {n : String} :
    OwnName v n ↔ ∃ call, toolCallOf v = some call ∧ call.name = n := by
  constructor
  · intro h
    cases h with
    | name h hno => exact ⟨_, by rw [toolCallOf, h, hno], rfl⟩
    | tool h hno => exact ⟨_, by rw [toolCallOf, h, hno], rfl⟩
    | only => exact ⟨_, rfl, rfl⟩
    | first => exact ⟨_, rfl, rfl⟩
  · rintro ⟨call, hcall, rfl⟩
    unfold toolCallOf at hcall
    split at hcall
    · split at hcall
      · rename_i hname htool
        cases hcall
        exact .name hname htool
      · rename_i hname htool
        cases hcall
        exact .tool htool hname
      · cases hcall
    · cases hcall
      exact .only _
    · cases hcall
      exact .first _ _
    · cases hcall

theorem entryName_iff {v : Json} {n : String} :
    EntryName v n ↔ ∃ call, parseSingleToolCallForEval fromStr v = some call ∧ call.name = n := by
  unfold parseSingleToolCallForEval
  cases hown : toolCallOf v with
  | some call =>
    dsimp only
    constructor
    · intro h
      cases h with
      | own h hblank =>
        obtain ⟨call', hcall', rfl⟩ := ownName_iff.mp h
        rw [hown] at hcall'
        cases hcall'
        exact ⟨_, if_pos hblank, rfl⟩
      | key hno => exact absurd (ownName_iff.mpr ⟨call, hown, rfl⟩) (hno _)
    · rintro ⟨call', hcall', rfl⟩
      rw [ite_none_right_eq_some] at hcall'
      obtain ⟨hblank, heq⟩ := hcall'
      cases heq
      exact .own (ownName_iff.mpr ⟨call, hown, rfl⟩) hblank
  | none =>
    have hno : ∀ n, ¬ OwnName v n := by
      intro n h
      obtain ⟨call, hcall, -⟩ := ownName_iff.mp h
      rw [hown] at hcall
      cases hcall
    dsimp only
    constructor
    · intro h
      cases h with
      | own h => exact absurd h (hno _)
      | key _ hanswer => exact ⟨_, if_neg hanswer, rfl⟩
    · rintro ⟨call, hcall, rfl⟩
      unfold normalizeSingleKeyToolCallForEval at hcall
      split at hcall
      · rw [ite_none_left_eq_some] at hcall
        obtain ⟨hanswer, heq⟩ := hcall
        cases heq
        exact .key hno hanswer
      · cases hcall

theorem functionName_iff {v : Json} {n : String} :
    FunctionName v n ↔
      ∃ call, parseOpenaiFunctionCallForEval fromStr v = some call ∧ call.name = n := by
  unfold parseOpenaiFunctionCallForEval
  constructor
  · intro h
    cases h with
    | name h hblank => exact ⟨_, by rw [h]; exact if_neg hblank, rfl⟩
  · rintro ⟨call, hcall, rfl⟩
    split at hcall
    · cases hcall
    · rename_i text htext
      rw [ite_none_left_eq_some] at hcall
      obtain ⟨hblank, heq⟩ := hcall
      cases heq
      obtain ⟨found, hfound, hstr⟩ := Option.bind_eq_some_iff.mp htext
      unfold Json.asStr at hstr
      split at hstr
      · cases hstr
        exact .name hfound hblank
      · cases hstr

theorem parseOpenaiToolCallForEval_eq (v : Json) :
    parseOpenaiToolCallForEval fromStr v =
      parseOpenaiFunctionCallForEval fromStr ((v.get "function").getD v) := by
  unfold parseOpenaiToolCallForEval
  cases v.get "function" <;> rfl

theorem firstName_iff {Name : Json → String → Prop} {parse : Json → Option ToolCall}
    (h : ∀ v n, Name v n ↔ ∃ call, parse v = some call ∧ call.name = n) {items : List Json}
    {n : String} :
    FirstName Name items n ↔ ∃ call, (items.filterMap parse).head? = some call ∧ call.name = n := by
  have hnone : ∀ v, parse v = none ↔ ∀ m, ¬ Name v m := by
    intro v
    simp only [h, not_exists, not_and, eq_none_iff_forall_not_mem, mem_def]
    exact ⟨fun hno m call hcall _ => hno call hcall, fun hno call hcall => hno _ call hcall rfl⟩
  simp only [head?_filterMap, findSome?_eq_some_iff, FirstName, h, hnone]
  constructor
  · rintro ⟨before, item, after, hitems, ⟨call, hcall, hname⟩, hbefore⟩
    exact ⟨call, ⟨before, item, after, hitems, hcall, hbefore⟩, hname⟩
  · rintro ⟨call, ⟨before, item, after, hitems, hcall, hbefore⟩, hname⟩
    exact ⟨before, item, after, hitems, ⟨call, hcall, hname⟩, hbefore⟩

/-- The evaluation's first call is the one the value names. -/
theorem callName_iff {v : Json} {n : String} :
    CallName v n ↔
      ∃ call, (parseToolCallValueForEval fromStr v).head? = some call ∧ call.name = n := by
  have hlist : ∀ (found : Option ToolCall), found.toList.head? = found := fun found => by
    cases found <;> rfl
  cases v with
  | array items =>
    rw [parseToolCallValueForEval, ← firstName_iff fun v n => @entryName_iff fromStr v n]
    exact ⟨fun h => by cases h with | array h => exact h, .array⟩
  | object fields =>
    rw [parseToolCallValueForEval]
    split
    · rename_i calls hcalls
      have hfunction : ∀ call n, FunctionName ((call.get "function").getD call) n ↔
          ∃ found, parseOpenaiToolCallForEval fromStr call = some found ∧ found.name = n := by
        intro call n
        rw [parseOpenaiToolCallForEval_eq]
        exact functionName_iff
      rw [← firstName_iff hfunction]
      constructor
      · intro h
        cases h with
        | toolCalls hcalls' h =>
          rw [hcalls] at hcalls'
          cases hcalls'
          exact h
        | functionCall hno => exact absurd hcalls (hno _)
        | single hno => exact absurd hcalls (hno _)
      · exact .toolCalls hcalls
    · rename_i hno
      split
      · rename_i function hfunction
        rw [hlist, ← functionName_iff]
        constructor
        · intro h
          cases h with
          | toolCalls hcalls => exact absurd hcalls (hno _)
          | functionCall _ hfunction' h =>
            rw [hfunction] at hfunction'
            cases hfunction'
            exact h
          | single _ hnone =>
            rw [hfunction] at hnone
            cases hnone
        · exact .functionCall hno hfunction
      · rename_i hnone
        rw [hlist, ← entryName_iff]
        constructor
        · intro h
          cases h with
          | toolCalls hcalls => exact absurd hcalls (hno _)
          | functionCall _ hfunction =>
            rw [hnone] at hfunction
            cases hfunction
          | single _ _ h => exact h
        · exact .single hno hnone
  | _ =>
    constructor
    · intro h
      cases h
    · rintro ⟨call, hcall, -⟩
      cases hcall

/-! ## What is accepted -/

theorem normalizeSingleKeyToolCall_eq_some {v : Json} {call : ToolCall}
    (h : normalizeSingleKeyToolCall isKnownTool v = some call) :
    ∃ key nested, v = .object [(key, nested)] ∧ isKnownTool key = true ∧ call.name = key := by
  unfold normalizeSingleKeyToolCall at h
  split at h
  · rename_i key nested
    split at h
    · rename_i hknown
      cases h
      exact ⟨key, nested, rfl, hknown, rfl⟩
    · cases h
  · cases h

/-- An object whose single key is empty is taken for a call without a name. -/
theorem entryName_emptyKey (nested : Json) : EntryName (.object [("", nested)]) "" := by
  refine .key (fun n h => ?_) (by decide)
  cases h with
  | name h => cases h
  | tool h => cases h

theorem callName_emptyKey (nested : Json) : CallName (.object [("", nested)]) "" := by
  refine .single (fun calls h => ?_) rfl (entryName_emptyKey nested)
  cases h

theorem introduced_or_of_parse {v : Json} {call : ToolCall}
    (hcall : parseToolCallValue fromStr isKnownTool v = some call) (hname : call.name ≠ "") :
    Introduced isKnownTool v ∨ ∃ n, CallName v n ∧ n ≠ "" := by
  unfold parseToolCallValue at hcall
  dsimp only at hcall
  rcases Option.or_eq_some_iff.mp hcall with hfirst | ⟨-, heval⟩
  · rcases Option.or_eq_some_iff.mp hfirst with hnamed | ⟨-, hkey⟩
    · have hown := (Option.filter_eq_some_iff.mp hnamed).1
      exact .inl (.inl ⟨_, ownName_iff.mpr ⟨call, hown, rfl⟩, hname⟩)
    · obtain ⟨key, nested, rfl, hknown, rfl⟩ := normalizeSingleKeyToolCall_eq_some hkey
      exact .inl (.inr ⟨_, nested, rfl, hknown, hname⟩)
  · exact .inr ⟨_, callName_iff.mpr ⟨call, heval, rfl⟩, hname⟩

theorem parse_of_introduced_or {v : Json}
    (h : Introduced isKnownTool v ∨ ∃ n, CallName v n ∧ n ≠ "") :
    ∃ call, parseToolCallValue fromStr isKnownTool v = some call ∧ call.name ≠ "" := by
  unfold parseToolCallValue
  dsimp only
  cases hnamed : (toolCallOf v).filter (fun call => call.name ≠ "") with
  | some call =>
    have hname := (Option.filter_eq_some_iff.mp hnamed).2
    exact ⟨call, rfl, by simpa using hname⟩
  | none =>
    have hunnamed : ∀ n, OwnName v n → n = "" := by
      intro n hown
      obtain ⟨call, hcall, rfl⟩ := ownName_iff.mp hown
      by_contra hne
      rw [hcall, filter_some, if_pos (by simpa using hne)] at hnamed
      cases hnamed
    rw [none_or]
    cases hkey : normalizeSingleKeyToolCall isKnownTool v with
    | some call =>
      obtain ⟨key, nested, rfl, hknown, rfl⟩ := normalizeSingleKeyToolCall_eq_some hkey
      refine ⟨call, rfl, fun hempty => ?_⟩
      rw [hempty] at h
      rcases h with (⟨n, hown, hne⟩ | ⟨other, nested', heq, -, hne⟩) | ⟨n, hcall, hne⟩
      · rw [hempty] at hunnamed
        exact hne (hunnamed n hown)
      · cases heq
        exact hne rfl
      · obtain ⟨first, hfirst, rfl⟩ := (@callName_iff fromStr _ _).mp hcall
        obtain ⟨other, hother, hnone⟩ := (@callName_iff fromStr _ _).mp (callName_emptyKey nested)
        rw [hfirst] at hother
        cases hother
        exact hne hnone
    | none =>
      rw [none_or]
      rcases h with (⟨n, hown, hne⟩ | ⟨key, nested, rfl, hknown, -⟩) | ⟨n, hcall, hne⟩
      · exact absurd (hunnamed n hown) hne
      · rw [normalizeSingleKeyToolCall, if_pos hknown] at hkey
        cases hkey
      · obtain ⟨first, hfirst, rfl⟩ := callName_iff.mp hcall
        exact ⟨first, hfirst, hne⟩

theorem tryToolCall_isSome_iff :
    (tryToolCall fromStr isKnownTool response).isSome = true ↔
      ∃ v, extractedValue fromStr response = some v ∧
        (Introduced isKnownTool v ∨ ∃ n, CallName v n ∧ n ≠ "") := by
  unfold tryToolCall
  cases hvalue : extractedValue fromStr response with
  | none => simp
  | some v =>
    simp only [some_inj, exists_eq_left']
    constructor
    · intro h
      obtain ⟨call, hcall⟩ := Option.isSome_iff_exists.mp h
      obtain ⟨hparse, hname⟩ := Option.filter_eq_some_iff.mp hcall
      exact introduced_or_of_parse hparse (by simpa using hname)
    · intro h
      obtain ⟨call, hparse, hname⟩ := parse_of_introduced_or h
      rw [hparse, filter_some, if_pos (by simpa using hname)]
      rfl

theorem isUnparsedToolCall_iff :
    isUnparsedToolCall fromStr response = true ↔
      match extractedValue fromStr response with
      | none => looksToolish response = true
      | some v => wrapperMark response = true ∧ ∀ n, ¬ CallName v n := by
  unfold isUnparsedToolCall parseToolCallsForEval
  cases hextract : extractJson fromStr response with
  | none => rw [extractedValue_eq_none.mpr hextract]
  | some json =>
    obtain ⟨v, hv⟩ := Option.isSome_iff_exists.mp (extractJson_reads hextract)
    have hvalue : extractedValue fromStr response = some v := by
      rw [extractedValue, hextract, bind_some, hv]
    have hempty : parseToolCallValueForEval fromStr v = [] ↔ ∀ n, ¬ CallName v n := by
      simp only [@callName_iff fromStr]
      cases parseToolCallValueForEval fromStr v with
      | nil => simp
      | cons call calls => simp
    simp [hvalue, hv, hempty]

/-! ## What slips through -/

/-- The values that are neither accepted nor flagged: one that names no call, in a text without
the mark of a wrapper, and one whose first call is named by an empty key. -/
inductive Overlooked (isKnownTool : String → Bool) (response : String) (v : Json) : Prop
  | unnamed (hown : ¬ Introduced isKnownTool v) (hnone : ∀ n, ¬ CallName v n)
      (hmark : wrapperMark response = false)
  | emptyKey (hown : ¬ Introduced isKnownTool v) (hempty : CallName v "")

/-- The first call of a value has an empty name only as the single key of the value, or of the
first call of an array. -/
theorem callName_empty_iff {v : Json} :
    CallName v "" ↔ (∃ nested, v = .object [("", nested)]) ∨
      ∃ before nested after, v = .array (before ++ .object [("", nested)] :: after) ∧
        ∀ other ∈ before, ∀ n, ¬ EntryName other n := by
  have hentry : ∀ v, EntryName v "" ↔ ∃ nested, v = .object [("", nested)] := by
    intro v
    constructor
    · intro h
      cases h with
      | own _ hblank => exact absurd (by decide) hblank
      | key => exact ⟨_, rfl⟩
    · rintro ⟨nested, rfl⟩
      exact entryName_emptyKey nested
  have hfunction : ∀ v, ¬ FunctionName v "" := by
    intro v h
    generalize hn : "" = n at h
    cases h with
    | name _ hblank => exact hblank hn.symm
  constructor
  · intro h
    cases h with
    | array h =>
      obtain ⟨before, item, after, rfl, hitem, hbefore⟩ := h
      obtain ⟨nested, rfl⟩ := (hentry item).mp hitem
      exact .inr ⟨before, nested, after, rfl, hbefore⟩
    | toolCalls _ h =>
      obtain ⟨_, call, _, -, hcall, -⟩ := h
      exact absurd hcall (hfunction _)
    | functionCall _ _ h => exact absurd h (hfunction _)
    | single _ _ h =>
      obtain ⟨nested, hv⟩ := (hentry _).mp h
      exact .inl ⟨nested, hv⟩
  · rintro (⟨nested, rfl⟩ | ⟨before, nested, after, rfl, hbefore⟩)
    · exact callName_emptyKey nested
    · exact .array ⟨before, _, after, rfl, entryName_emptyKey nested, hbefore⟩

/-- Output that looks like a tool call is accepted or flagged, unless it carries a JSON text whose
value is overlooked. -/
theorem toolish_handled_iff (fromStr : JsonReader) (isKnownTool : String → Bool)
    (response : String) (hlooks : looksToolish response = true) :
    ((tryToolCall fromStr isKnownTool response).isSome = true ∨
      isUnparsedToolCall fromStr response = true) ↔
    ∀ json v, Carries fromStr response json → fromStr json = some v →
      ¬ Overlooked isKnownTool response v := by
  have hcarries : (∀ json v, Carries fromStr response json → fromStr json = some v →
      ¬ Overlooked isKnownTool response v) ↔
      ∀ v, extractedValue fromStr response = some v → ¬ Overlooked isKnownTool response v := by
    simp only [extractedValue_eq_some]
    exact ⟨fun h v ⟨json, hjson, hv⟩ => h json v hjson hv,
      fun h json v hjson hv => h v ⟨json, hjson, hv⟩⟩
  rw [hcarries, tryToolCall_isSome_iff, isUnparsedToolCall_iff]
  cases hvalue : extractedValue fromStr response with
  | none => simp [hlooks]
  | some v =>
    simp only [some_inj, exists_eq_left', forall_eq']
    constructor
    · rintro hhandled hover
      cases hover with
      | unnamed hown hnone hmark =>
        rcases hhandled with (hintro | ⟨n, hcall, -⟩) | ⟨hmarked, -⟩
        · exact hown hintro
        · exact hnone n hcall
        · rw [hmark] at hmarked
          cases hmarked
      | emptyKey hown hempty =>
        rcases hhandled with (hintro | ⟨n, hcall, hne⟩) | ⟨-, hnone⟩
        · exact hown hintro
        · obtain ⟨first, hfirst, rfl⟩ := (@callName_iff fromStr _ _).mp hcall
          obtain ⟨other, hother, hnone⟩ := (@callName_iff fromStr _ _).mp hempty
          rw [hfirst] at hother
          cases hother
          exact hne hnone
        · exact hnone "" hempty
    · intro hseen
      by_cases hown : Introduced isKnownTool v
      · exact .inl (.inl hown)
      by_cases hnone : ∀ n, ¬ CallName v n
      · refine .inr ⟨?_, hnone⟩
        by_contra hmark
        exact hseen (.unnamed hown hnone (eq_false_of_ne_true hmark))
      · obtain ⟨n, hcall⟩ := not_forall_not.mp hnone
        refine .inl (.inr ⟨n, hcall, ?_⟩)
        rintro rfl
        exact hseen (.emptyKey hown hcall)

/-- The time in a fenced wrapper. -/
def fencedTime : String :=
  "```json\n\x7b\"tool_calls\":[\x7b\"function\":\x7b\"name\":\"get_time\"\x7d\x7d]\x7d\n```"

def fencedTimeJson : String :=
  "\x7b\"tool_calls\":[\x7b\"function\":\x7b\"name\":\"get_time\"\x7d\x7d]\x7d"

def fencedTimeValue : Json :=
  .object [("tool_calls", .array [.object [("function", .object [("name", .string "get_time")])]])]

theorem toolish_handled_fenced :
    (tryToolCall (readerOf fencedTimeJson fencedTimeValue) (fun _ => false) fencedTime).isSome =
        true ∨
      isUnparsedToolCall (readerOf fencedTimeJson fencedTimeValue) fencedTime = true := by
  refine (toolish_handled_iff (readerOf fencedTimeJson fencedTimeValue) (fun _ => false) fencedTime
    (by decide +kernel)).mpr fun json v _ hv => ?_
  have hvalue : v = fencedTimeValue := by
    unfold readerOf at hv
    split at hv
    · exact (Option.some.inj hv).symm
    · cases hv
  have hname : CallName fencedTimeValue "get_time" := by
    refine .toolCalls rfl ⟨[], _, [], rfl, ?_, fun _ h => absurd h not_mem_nil⟩
    have hget : (Json.object [("name", .string "get_time")]).get "name" =
        some (.string "get_time") := rfl
    exact .name hget (by decide)
  rintro (⟨-, hnone, -⟩ | ⟨-, hempty⟩)
  · exact hnone "get_time" (hvalue ▸ hname)
  · rw [hvalue] at hempty
    rcases callName_empty_iff.mp hempty with ⟨nested, heq⟩ | ⟨_, _, _, heq, -⟩
    · have hkeys : ["tool_calls"] = [""] := congrArg Json.keys heq
      exact absurd hkeys (by decide)
    · cases heq

/-- An object whose tool has an empty name is neither a call nor flagged. -/
theorem toolish_unnamed_leaks :
    ¬ ∀ (fromStr : JsonReader) (isKnownTool : String → Bool) (response : String),
      looksToolish response = true →
      (tryToolCall fromStr isKnownTool response).isSome = true ∨
        isUnparsedToolCall fromStr response = true := by
  intro h
  have := h (readerOf "\x7b\"tool\":\"\",\"arguments\":\x7b\x7d\x7d"
    (.object [("arguments", .object []), ("tool", .string "")])) (fun _ => false)
    "\x7b\"tool\":\"\",\"arguments\":\x7b\x7d\x7d" (by decide)
  revert this
  decide

/-! ## Objects with a single key -/

/-- The keys that give an object with a single key a meaning of its own. -/
def wrapperKeys : List String := ["name", "tool", "tool_calls", "function_call"]

/-- Whatever the route it was extracted by, an object whose single key is no known tool
and no wrapper is refused only when the key is one of an answer or empty. -/
theorem single_key_refused_iff (fromStr : JsonReader) (isKnownTool : String → Bool)
    (response key : String) (nested : Json)
    (hvalue : extractedValue fromStr response = some (.object [(key, nested)]))
    (hunknown : isKnownTool key = false) (hwrapper : key ∉ wrapperKeys) :
    tryToolCall fromStr isKnownTool response = none ↔ key ∈ answerKeys ∨ key = "" := by
  have hlookup : ∀ other ∈ wrapperKeys, List.lookup other [(key, nested)] = none := by
    intro other hother
    have hne : (other == key) = false := by
      rw [beq_eq_false_iff_ne]
      rintro rfl
      exact hwrapper hother
    rw [lookup_cons, hne]
    rfl
  have hown : toolCallOf (.object [(key, nested)]) = none := by
    rw [toolCallOf, hlookup "name" (by decide), hlookup "tool" (by decide)]
  have hsingle : parseSingleToolCallForEval fromStr (.object [(key, nested)]) =
      if key ∈ answerKeys then none
      else some ⟨key, normalizeSingleKeyArguments key nested⟩ := by
    rw [parseSingleToolCallForEval, hown]
    rfl
  have hparse : parseToolCallValue fromStr isKnownTool (.object [(key, nested)]) =
      if key ∈ answerKeys then none
      else some ⟨key, normalizeSingleKeyArguments key nested⟩ := by
    rw [parseToolCallValue, hown, normalizeSingleKeyToolCall, hunknown,
      parseToolCallValueForEval, hlookup "tool_calls" (by decide),
      hlookup "function_call" (by decide), hsingle]
    by_cases hanswer : key ∈ answerKeys
    · simp [hanswer]
    · simp [hanswer]
  rw [tryToolCall, hvalue]
  dsimp only
  rw [hparse]
  by_cases hanswer : key ∈ answerKeys
  · simp [hanswer]
  · simp [hanswer]

theorem single_key_refused_answer :
    tryToolCall (readerOf "\x7b\"answer\":\"hello\"\x7d" (.object [("answer", .string "hello")]))
        (fun _ => false) "\x7b\"answer\":\"hello\"\x7d" = none :=
  (single_key_refused_iff
    (readerOf "\x7b\"answer\":\"hello\"\x7d" (.object [("answer", .string "hello")]))
    (fun _ => false) "\x7b\"answer\":\"hello\"\x7d" "answer" (.string "hello") rfl rfl
    (by decide)).mpr (.inl (by decide))

/-- A plain answer under any other key is dispatched as a tool. -/
theorem single_key_dispatched :
    ¬ ∀ (fromStr : JsonReader) (isKnownTool : String → Bool) (response key : String)
      (nested : Json), extractedValue fromStr response = some (.object [(key, nested)]) →
      isKnownTool key = false → key ∉ wrapperKeys →
      (tryToolCall fromStr isKnownTool response).isSome = false := by
  intro h
  have := h (readerOf "\x7b\"result\":\"42\"\x7d" (.object [("result", .string "42")]))
    (fun _ => false) "\x7b\"result\":\"42\"\x7d" "result" (.string "42") rfl rfl (by decide)
  revert this
  decide

end GenieClaw.Parser
