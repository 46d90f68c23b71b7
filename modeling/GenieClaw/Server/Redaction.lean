import GenieClaw.Server.Stream

/-!
# Secrets in a streamed answer

`find_secret_matches` and `sanitize_output` of `security/sandbox.rs`, and what of a streamed
turn that is no tool call reaches the client as `token` events.

* `join_forwardedText`: the events of an answer are all of it or nothing.
* `secrets_hidden_iff` (the response is no tool call): when they show no secret.
-/

namespace GenieClaw.Server

open Library Library.Text GenieClaw.Parser

/-! ## Secret-like texts -/

structure SecretPattern where
  name : String
  pre : String
  /-- In bytes. -/
  minLen : Nat

def secretPatterns : List SecretPattern :=
  [⟨"api_key", "sk-", 20⟩, ⟨"api_key", "pk-", 20⟩, ⟨"bearer_token", "eyJ", 30⟩,
    ⟨"aws_key", "AKIA", 16⟩, ⟨"github_token", "ghp_", 20⟩, ⟨"github_token", "gho_", 20⟩,
    ⟨"github_token", "ghs_", 20⟩, ⟨"slack_token", "xoxb-", 20⟩, ⟨"slack_token", "xoxp-", 20⟩]

def endsSecret (c : Char) : Bool :=
  isWhitespace c || c == '"' || c == '\'' || c == ',' || c == '}'

/-- The loop of `find_secret_matches` over the text that is left, for `n` rounds. No prefix
holds a character that ends a token. -/
def findSecretsIn (pattern : SecretPattern) : Nat → List Char → List String
  | 0, _ => []
  | n + 1, cs =>
    match splitOnce pattern.pre.toList cs with
    | none => []
    | some (_, after) =>
      let token := String.ofList (pattern.pre.toList ++ after.takeWhile fun c => !endsSecret c)
      let later := findSecretsIn pattern n (after.dropWhile fun c => !endsSecret c)
      if pattern.minLen ≤ token.utf8ByteSize then token :: later else later

/-- A round takes at least the prefix off the text, so there are no more of them than
characters. -/
def findSecretMatches (text : String) (pattern : SecretPattern) : List String :=
  findSecretsIn pattern text.toList.length text.toList

/-- One turn of the loop of `sanitize_output`: the text so far, and what was taken out. -/
def redactPattern (state : String × List String) (pattern : SecretPattern) : String × List String :=
  let found := findSecretMatches state.1 pattern
  (found.foldl (fun result text => replaceText text ("[REDACTED:" ++ pattern.name ++ "]") result)
    state.1, state.2 ++ found)

def sanitizeOutput (text : String) : String := (secretPatterns.foldl redactPattern (text, [])).1

/-- The texts that `sanitizeOutput` replaces. -/
def redactedTexts (text : String) : List String :=
  (secretPatterns.foldl redactPattern (text, [])).2

/-- Some pattern has a match in the text. -/
def HasSecret (text : String) : Prop :=
  ∃ pattern ∈ secretPatterns, ∃ found, found ∈ findSecretMatches text pattern

variable {pattern : SecretPattern} {found : String}

theorem findSecretsIn_mem {n : Nat} {cs : List Char} (h : found ∈ findSecretsIn pattern n cs) :
    found.toList <:+: cs ∧ pattern.minLen ≤ found.utf8ByteSize := by
  induction n generalizing cs with
  | zero => cases h
  | succ n ih =>
    rw [findSecretsIn] at h
    split at h
    · cases h
    · rename_i before after hsplit
      have hcs := (splitOnce_eq_some hsplit).1
      have hafter : after.dropWhile (fun c => !endsSecret c) <:+: cs := by
        rw [hcs]
        exact (List.dropWhile_suffix _).isInfix.trans (List.suffix_append _ _).isInfix
      have hlater := fun hmem => (ih hmem).imp (fun hin => hin.trans hafter) id
      dsimp only at h
      split_ifs at h with hlen
      · rcases List.mem_cons.mp h with rfl | h
        · refine ⟨⟨before, after.dropWhile fun c => !endsSecret c, ?_⟩, hlen⟩
          rw [String.toList_ofList, hcs]
          simp [List.takeWhile_append_dropWhile]
        · exact hlater h
      · exact hlater h

theorem minLen_pos (h : pattern ∈ secretPatterns) : 0 < pattern.minLen :=
  (by decide : ∀ pattern ∈ secretPatterns, 0 < pattern.minLen) pattern h

theorem not_contains_empty (h : pattern ∈ secretPatterns)
    (hlen : pattern.minLen ≤ found.utf8ByteSize) : containsText "" found = false := by
  rw [containsText, decide_eq_false_iff_not]
  intro hin
  have hnil : found = "" := String.toList_eq_nil_iff.mp (List.infix_nil.mp hin)
  rw [hnil] at hlen
  have hpos := minLen_pos h
  have hzero : ("" : String).utf8ByteSize = 0 := rfl
  omega

theorem mem_redacted_fold {patterns : List SecretPattern} {state : String × List String}
    (h : found ∈ (patterns.foldl redactPattern state).2) :
    found ∈ state.2 ∨ ∃ pattern ∈ patterns, pattern.minLen ≤ found.utf8ByteSize := by
  induction patterns generalizing state with
  | nil => exact .inl h
  | cons pattern patterns ih =>
    rcases ih h with hmem | ⟨later, hlater, hlen⟩
    · rcases List.mem_append.mp hmem with hmem | hmem
      · exact .inl hmem
      · exact .inr ⟨pattern, List.mem_cons_self, (findSecretsIn_mem hmem).2⟩
    · exact .inr ⟨later, List.mem_cons_of_mem _ hlater, hlen⟩

theorem redact_fold_of_none {patterns : List SecretPattern} {text : String}
    (h : ∀ pattern ∈ patterns, findSecretMatches text pattern = []) (taken : List String) :
    patterns.foldl redactPattern (text, taken) = (text, taken) := by
  induction patterns with
  | nil => rfl
  | cons pattern patterns ih =>
    have hnone := h pattern List.mem_cons_self
    rw [List.foldl_cons, redactPattern, hnone]
    simpa using ih fun later hlater => h later (List.mem_cons_of_mem _ hlater)

/-! ## What the client sees -/

/-- What the detector says first that is not undecided, at the ends of the tokens. -/
def firstDecision (pending : String) : List String → StreamMode
  | [] => .undecided
  | token :: rest =>
    match detectStreamMode (pending ++ token) with
    | .undecided => firstDecision (pending ++ token) rest
    | mode => mode

/-- The text forwarded during a run. -/
def forwarded (state : StreamState) (tokens : List String) : String :=
  String.join ((consumer.trace state tokens).filterMap fun e => e.output)

theorem forwarded_cons (state : StreamState) (token : String) (rest : List String) :
    forwarded state (token :: rest) =
      ((consumeToken state token).1).getD "" ++ forwarded (consumeToken state token).2 rest := by
  unfold forwarded
  rw [Machine.trace_cons, List.filterMap_cons]
  have hout : (consumer.eventAt state token).output = (consumeToken state token).1 := rfl
  rw [hout]
  cases (consumeToken state token).1 with
  | none => rw [Option.getD_none, String.empty_append]; rfl
  | some text => rw [Option.getD_some, String.join_cons]; rfl

variable {state : StreamState}

theorem forwarded_text (hmode : state.mode = .text) (tokens : List String) :
    forwarded state tokens = String.join tokens ∧ (consumer.run state tokens).mode = .text := by
  induction tokens generalizing state with
  | nil => exact ⟨rfl, hmode⟩
  | cons token rest ih =>
    have hstep : consumeToken state token = (some token, { state with emittedText := true }) := by
      unfold consumeToken
      rw [hmode]
    obtain ⟨htext, hrun⟩ := @ih { state with emittedText := true } hmode
    rw [forwarded_cons, hstep, String.join_cons, htext, Machine.run_cons]
    refine ⟨rfl, ?_⟩
    show (consumer.run (consumeToken state token).2 rest).mode = .text
    rwa [hstep]

theorem forwarded_tool (hmode : state.mode = .tool) (tokens : List String) :
    forwarded state tokens = "" ∧ (consumer.run state tokens).mode = .tool := by
  induction tokens generalizing state with
  | nil => exact ⟨rfl, hmode⟩
  | cons token rest ih =>
    have hstep : consumeToken state token =
        (none, { state with pending := state.pending ++ token }) := by
      unfold consumeToken
      rw [hmode]
    obtain ⟨htext, hrun⟩ := @ih { state with pending := state.pending ++ token } hmode
    rw [forwarded_cons, hstep, htext, Machine.run_cons]
    refine ⟨rfl, ?_⟩
    show (consumer.run (consumeToken state token).2 rest).mode = .tool
    rwa [hstep]

theorem forwarded_undecided (hmode : state.mode = .undecided) (tokens : List String) :
    (consumer.run state tokens).mode = firstDecision state.pending tokens ∧
      match firstDecision state.pending tokens with
      | .text => forwarded state tokens = state.pending ++ String.join tokens
      | .tool => forwarded state tokens = ""
      | .undecided => forwarded state tokens = "" ∧
          (consumer.run state tokens).pending = state.pending ++ String.join tokens := by
  induction tokens generalizing state with
  | nil => exact ⟨hmode, rfl, (String.append_empty).symm⟩
  | cons token rest ih =>
    rw [forwarded_cons, String.join_cons, ← String.append_assoc, firstDecision, Machine.run_cons]
    have hrun : consumer.step state token = consumeToken state token := rfl
    rw [hrun]
    cases hdetect : detectStreamMode (state.pending ++ token) with
    | text =>
      have hstep :
          consumeToken state token = (some (state.pending ++ token), ⟨.text, "", true⟩) := by
        unfold consumeToken
        rw [hmode]
        simp only [hdetect]
      rw [hstep]
      obtain ⟨htext, hmode'⟩ := @forwarded_text ⟨.text, "", true⟩ rfl rest
      exact ⟨hmode', by rw [htext]; rfl⟩
    | tool =>
      have hstep : consumeToken state token =
          (none, { state with pending := state.pending ++ token, mode := .tool }) := by
        unfold consumeToken
        rw [hmode]
        simp only [hdetect]
      rw [hstep]
      obtain ⟨htext, hmode'⟩ :=
        @forwarded_tool { state with pending := state.pending ++ token, mode := .tool } rfl rest
      exact ⟨hmode', by rw [htext]; rfl⟩
    | undecided =>
      have hstep : consumeToken state token =
          (none, { state with pending := state.pending ++ token }) := by
        unfold consumeToken
        rw [hmode]
        simp only [hdetect]
      rw [hstep]
      simpa using @ih { state with pending := state.pending ++ token } hmode

/-- The token events of a response that is no tool call carry all of it, or nothing where the
stream was taken for a tool call. -/
theorem join_forwardedText {fromStr : JsonReader} {isKnownTool : String → Bool}
    {tokens : List String} (hcall : tryToolCall fromStr isKnownTool (String.join tokens) = none) :
    String.join (forwardedText fromStr isKnownTool tokens) =
      if firstDecision "" tokens = .tool then "" else String.join tokens := by
  obtain ⟨hmode, htext⟩ := @forwarded_undecided {} rfl tokens
  have hsplit : String.join (forwardedText fromStr isKnownTool tokens) =
      forwarded {} tokens ++ ((flushPending false (consumer.run {} tokens)).getD "") := by
    unfold forwardedText forwarded
    rw [hcall, String.join_append]
    show _ ++ String.join (flushPending false (consumer.run {} tokens)).toList = _
    cases flushPending false (consumer.run {} tokens) with
    | none => rfl
    | some text => simp
  rw [hsplit, flushPending, hmode]
  cases hdecision : firstDecision "" tokens with
  | text =>
    rw [hdecision] at htext
    simp only [reduceCtorEq, and_false, if_false, Option.getD_none, String.append_empty]
    exact htext.trans String.empty_append
  | tool =>
    rw [hdecision] at htext
    simp only [reduceCtorEq, and_false, if_false, Option.getD_none, String.append_empty, if_true]
    exact htext
  | undecided =>
    rw [hdecision] at htext
    obtain ⟨hnone, hpending⟩ := htext
    rw [hnone, hpending, String.empty_append, String.empty_append,
      if_neg (show ¬ StreamMode.undecided = .tool by decide)]
    by_cases hempty : String.join tokens = ""
    · rw [hempty]
      rfl
    · rw [if_pos ⟨rfl, hempty, rfl⟩]
      rfl

/-! ## When no secret is in it -/

/-- The text that a client renders holds no secret of the response, and nothing that the
sanitized response leaves out. -/
def SecretsHidden (response shown : String) : Prop :=
  (∀ pattern ∈ secretPatterns, ∀ found ∈ findSecretMatches response pattern,
    containsText shown found = false) ∧
      ∀ found ∈ redactedTexts response, containsText shown found = false

theorem secretsHidden_empty (response : String) : SecretsHidden response "" := by
  constructor
  · intro pattern hpattern found hfound
    exact not_contains_empty hpattern (findSecretsIn_mem hfound).2
  · intro found hfound
    rcases mem_redacted_fold hfound with hmem | ⟨pattern, hpattern, hlen⟩
    · cases hmem
    · exact not_contains_empty hpattern hlen

theorem findSecretMatches_eq_nil {response : String} (hnone : ¬ HasSecret response)
    (hpattern : pattern ∈ secretPatterns) : findSecretMatches response pattern = [] := by
  apply List.eq_nil_iff_forall_not_mem.mpr
  exact fun found hfound => hnone ⟨pattern, hpattern, found, hfound⟩

theorem sanitizeOutput_eq_self {response : String} (hnone : ¬ HasSecret response) :
    sanitizeOutput response = response ∧ redactedTexts response = [] := by
  have hfold := redact_fold_of_none (fun _ h => findSecretMatches_eq_nil hnone h) []
  exact ⟨congrArg Prod.fst hfold, congrArg Prod.snd hfold⟩

theorem secretsHidden_self_iff (response : String) :
    SecretsHidden response response ↔ ¬ HasSecret response := by
  constructor
  · rintro ⟨hhidden, -⟩ ⟨pattern, hpattern, found, hfound⟩
    have hshown : containsText response found = true := decide_eq_true (findSecretsIn_mem hfound).1
    rw [hhidden pattern hpattern found hfound] at hshown
    cases hshown
  · intro hnone
    constructor
    · intro pattern hpattern found hfound
      rw [findSecretMatches_eq_nil hnone hpattern] at hfound
      cases hfound
    · intro found hfound
      rw [(sanitizeOutput_eq_self hnone).2] at hfound
      cases hfound

/-- The token events of a response that is no tool call show no secret exactly where there is
none in it, or the stream was taken for a tool call. -/
theorem secrets_hidden_iff (fromStr : JsonReader) (isKnownTool : String → Bool)
    (tokens : List String) (hcall : tryToolCall fromStr isKnownTool (String.join tokens) = none) :
    SecretsHidden (String.join tokens) (String.join (forwardedText fromStr isKnownTool tokens)) ↔
      firstDecision "" tokens = .tool ∨ ¬ HasSecret (String.join tokens) := by
  rw [join_forwardedText hcall]
  by_cases htool : firstDecision "" tokens = .tool
  · rw [if_pos htool]
    exact iff_of_true (secretsHidden_empty _) (.inl htool)
  · rw [if_neg htool, secretsHidden_self_iff]
    exact (or_iff_right htool).symm

theorem secrets_hidden_hello :
    tryToolCall (fun _ => none) (fun _ => true) (String.join ["Hello", " there."]) = none ∧
      SecretsHidden "Hello there."
        (String.join (forwardedText (fun _ => none) (fun _ => true) ["Hello", " there."])) := by
  have hcall : tryToolCall (fun _ => none) (fun _ => true) (String.join ["Hello", " there."]) =
      none := by decide
  have hjoin : String.join ["Hello", " there."] = "Hello there." := by decide
  have hnone : ∀ pattern ∈ secretPatterns, findSecretMatches "Hello there." pattern = [] := by
    decide
  refine ⟨hcall, ?_⟩
  have hiff := secrets_hidden_iff (fun _ => none) (fun _ => true) ["Hello", " there."] hcall
  rw [hjoin] at hiff
  refine hiff.mpr (.inr ?_)
  rintro ⟨pattern, hpattern, found, hfound⟩
  rw [hnone pattern hpattern] at hfound
  cases hfound

/-- A key in a plain answer goes to the client token by token. -/
theorem streamed_key_shown :
    ¬ ∀ (fromStr : JsonReader) (isKnownTool : String → Bool) (tokens : List String),
      tryToolCall fromStr isKnownTool (String.join tokens) = none →
      SecretsHidden (String.join tokens)
        (String.join (forwardedText fromStr isKnownTool tokens)) := by
  intro h
  have hhidden := (h (fun _ => none) (fun _ => true) ["The key is sk-abcdefgh", "ijklmnopqrst."]
    (by decide)).1 ⟨"api_key", "sk-", 20⟩ (by simp [secretPatterns])
      "sk-abcdefghijklmnopqrst." (by decide)
  revert hhidden
  decide

end GenieClaw.Server
