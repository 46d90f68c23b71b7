import GenieClaw.Voice.Turn

/-!
# Follow-up turns and main turns

A follow-up turn should do to the world what the same transcript does on the main path. It
takes the reply of the model as the answer, whatever it is, and it captures memories where
the main path does not and the other way round.

* `follow_up_agrees_iff` (no assumption): a follow-up does what the main path does exactly where
  `FollowUpAgrees` says so.
-/

namespace GenieClaw.Voice

open Library Library.Text Memory Dispatch Actuation GenieClaw.Parser
open Conversation (MessageRow)

variable {T M : Type}

namespace VoiceState

variable (row : MessageRow) (s : VoiceState T M)

@[simp] theorem append_rows : (s.append row).rows = s.rows ++ [row] := rfl

@[simp] theorem append_asked : (s.append row).asked = s.asked := rfl

@[simp] theorem asking_rows : s.asking.rows = s.rows := rfl

@[simp] theorem asking_asked : s.asking.asked = s.asked + 1 := rfl

theorem SameEffects.refl : SameEffects s s := ⟨rfl, rfl, rfl⟩

theorem not_sameEffects_of_rows {s s' : VoiceState T M} (h : s.rows ≠ s'.rows) :
    ¬ SameEffects s s' :=
  fun hsame => h hsame.rows

end VoiceState

namespace VoiceRuntime

variable (v : VoiceRuntime T M) (text convId response : String) (s : VoiceState T M)

@[simp] theorem capture_rows : (v.capture text s).rows = s.rows := rfl

theorem execute_rows (call : ToolCall) (ctx : ToolExecutionContext) :
    (v.execute call ctx s).2.rows = s.rows := rfl

theorem sameEffects_capture_iff :
    VoiceState.SameEffects s (v.capture text s) ↔
      (v.extractAndStore text s.memory).2 = s.memory := by
  constructor
  · intro h
    exact h.memory.symm
  · intro h
    exact ⟨rfl, rfl, h.symm⟩

theorem ask_eq : v.ask s = (v.reply s.asked, s.asking) := rfl

/-- The memory is as the tool of a quick call leaves it. A web search leaves it as it is. -/
def memoryAfterQuick (call : ToolCall) (ctx : ToolExecutionContext) (s : VoiceState T M) : M :=
  if call.name = "web_search" then s.memory
  else (v.executeWithContext call ctx s.tools s.memory).2.2

theorem quickTool_memory (call : ToolCall) (ctx : ToolExecutionContext) :
    (v.quickTool convId call ctx s).2.memory = v.memoryAfterQuick call ctx s := by
  unfold quickTool memoryAfterQuick
  split
  · unfold quickWebSearch
    split
    · rfl
    · split
      · rfl
      · rfl
  · rfl

theorem summarize_rows (output : String) : (v.summarize output s).2.rows = s.rows := by
  unfold summarize
  rw [ask_eq]
  cases v.reply s.asked with
  | ok summary => rfl
  | error e =>
    dsimp only
    rw [ask_eq]
    cases v.reply s.asking.asked with
    | ok summary => rfl
    | error e => rfl

theorem answer_tool_rows {call : ToolCall} (readContext : MemoryReadContext)
    (h : tryToolCall v.fromStr v.isKnownTool response = some call) :
    ∃ tool rest, (v.answer convId response readContext s).rows =
      s.rows ++ { convId, role := "assistant", content := response, toolName := some tool } ::
        rest := by
  unfold answer
  rw [h]
  dsimp only
  rw [VoiceState.append_rows, summarize_rows, VoiceState.append_rows, VoiceState.append_rows,
    execute_rows, List.append_assoc, List.append_assoc]
  exact ⟨_, _, rfl⟩

theorem answer_plain (readContext : MemoryReadContext)
    (h : tryToolCall v.fromStr v.isKnownTool response = none) :
    v.answer convId response readContext s =
      s.append { convId, role := "assistant", content := response } := by
  unfold answer
  rw [h]

theorem answer_rows_ne (readContext : MemoryReadContext) :
    (v.answer convId response readContext s).rows ≠ s.rows := by
  intro hsame
  cases hcall : tryToolCall v.fromStr v.isKnownTool response with
  | none =>
    rw [answer_plain v convId response s readContext hcall] at hsame
    simp at hsame
  | some call =>
    obtain ⟨tool, rest, hrows⟩ := v.answer_tool_rows convId response s readContext hcall
    rw [hrows] at hsame
    simp at hsame

/-! ## When the two agree -/

/-- The follow-up turn does to the world what the main turn does. -/
def FollowUpAgrees (transcript : String) (speaker : SpeakerIdentity) (s : VoiceState T M) : Prop :=
  let text := trim transcript
  text = "" ∨ assessTranscript text ≠ .accept ∨
    match v.quickRoute text with
    | some call =>
      -- The text of a quick request is captured on the main path only.
      let memory := v.memoryAfterQuick call (voiceContext (v.buildMemoryReadContext text speaker)) s
      (v.extractAndStore text memory).2 = memory
    | none =>
      match v.reply s.asked with
      | .ok response => tryToolCall v.fromStr v.isKnownTool response = none
      | .error _ =>
        -- Without a reply in one piece either the main path captures nothing.
        (∃ e, v.reply (s.asked + 1) = .error e) ∧ (v.extractAndStore text s.memory).2 = s.memory

theorem follow_up_agrees_iff (transcript : String) (speaker : SpeakerIdentity) :
    VoiceState.SameEffects (v.followUp transcript speaker s).2
      (v.processTranscript transcript speaker s).2 ↔ v.FollowUpAgrees transcript speaker s := by
  unfold followUp processTranscript FollowUpAgrees
  dsimp only
  by_cases hempty : trim transcript = ""
  · simp [hempty, VoiceState.SameEffects.refl]
  · rw [if_neg hempty, if_neg hempty]
    cases hintent : assessTranscript (trim transcript) with
    | reject reason => simp [VoiceState.SameEffects.refl]
    | accept =>
      unfold handleQuickToolForVoice
      cases hroute : v.quickRoute (trim transcript) with
      | some call =>
        dsimp only
        rw [sameEffects_capture_iff, quickTool_memory]
        simp only [hempty, ne_eq, not_true_eq_false, false_or]
        rfl
      | none =>
        simp only [hempty, ne_eq, not_true_eq_false, false_or]
        rw [askOrFallBack, ask_eq, VoiceState.append_asked]
        cases hreply : v.reply s.asked with
        | ok response =>
          dsimp only
          cases hcall : tryToolCall v.fromStr v.isKnownTool response with
          | none =>
            rw [answer_plain v _ response _ _ hcall]
            exact iff_of_true (VoiceState.SameEffects.refl _) rfl
          | some call =>
            refine iff_of_false (VoiceState.not_sameEffects_of_rows ?_) (by simp)
            obtain ⟨tool, rest, hrows⟩ := v.answer_tool_rows
              (resolveVoiceConvId speaker.name) response _ _ hcall
            rw [capture_rows, capture_rows, hrows]
            simp
        | error e =>
          dsimp only
          rw [ask_eq, VoiceState.asking_asked, VoiceState.append_asked]
          cases hsecond : v.reply (s.asked + 1) with
          | ok response =>
            dsimp only
            refine iff_of_false ?_ (by simp)
            apply VoiceState.not_sameEffects_of_rows
            rw [capture_rows, capture_rows]
            intro hsame
            refine v.answer_rows_ne _ response _ _ (hsame.symm.trans ?_)
            rw [VoiceState.asking_rows, VoiceState.asking_rows]
            rfl
          | error e' =>
            dsimp only
            simp only [Except.error.injEq, exists_eq', true_and]
            constructor
            · intro h
              exact h.memory
            · intro h
              exact ⟨rfl, rfl, h⟩

/-- A runtime whose model answers every request with one reply, which is read as JSON. -/
def replying (response : String) (value : Json) : VoiceRuntime Unit Unit where
  hasHomeAutomation := false
  hasWebSearch := false
  fromStr := readerOf response value
  isKnownTool name := name == "get_time"
  floatText _ := "0.0"
  routeForAvailableTools _ _ _ := none
  memoryReadContextFromText _ _ := .sharedRoomVoice
  gateToolCall _ _ tools := (none, tools)
  executeWithContext call _ tools memory :=
    (⟨call.name, toolActionClass call.name, true, "It is noon."⟩, tools, memory)
  parseWebSearchArgs _ := .error "missing query"
  webSearchResponse _ _ _ tools := (.error "offline", tools)
  auditGatedTool _ _ _ _ tools := tools
  sanitizeOutput output := output
  extractAndStore _ memory := (0, memory)
  reply _ := .ok response

/-- A reply that is a tool call is stored as the answer of the follow-up turn. -/
theorem follow_up_stores_call :
    ¬ ∀ (v : VoiceRuntime Unit Unit) (transcript : String) (speaker : SpeakerIdentity)
      (s : VoiceState Unit Unit),
      VoiceState.SameEffects (v.followUp transcript speaker s).2
        (v.processTranscript transcript speaker s).2 := by
  intro h
  have hsame := h
    (replying "\x7b\"tool\":\"get_time\"\x7d" (.object [("tool", .string "get_time")]))
    "how long until the bread is done" {} { tools := (), memory := () }
  have hcount := congrArg List.length hsame.calls
  revert hcount
  decide +kernel

end VoiceRuntime

end GenieClaw.Voice
