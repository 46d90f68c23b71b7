import GenieClaw.Parser.Coverage
import GenieClaw.Server.Stream

/-!
# Broken tool calls in a stream

A response that looks like a tool call and cannot be parsed is answered with a fallback
text. At the end of the stream the text held back is forwarded all the same while the
detector is undecided.

* `forwards_nothing_iff`: what a consumer that is undecided forwards in the end.
* `broken_call_quiet_iff` (the response is a broken call): when nothing of it is forwarded, in one
  split and in all of them.
-/

namespace GenieClaw.Server

open Library Library.Text GenieClaw.Parser List

/-- After some token the detector says tool, and it has said text after no earlier one. -/
def DecidesTool (pending : String) (tokens : List String) : Prop :=
  ∃ received, received <+: tokens ∧
    detectStreamMode (pending ++ String.join received) = .tool ∧
    ∀ earlier, earlier <+: received → detectStreamMode (pending ++ String.join earlier) ≠ .text

theorem not_decidesTool_nil {pending : String} (h : detectStreamMode pending = .undecided) :
    ¬ DecidesTool pending [] := by
  rintro ⟨received, hreceived, htool, -⟩
  rw [List.prefix_nil.mp hreceived, String.join_nil, String.append_empty, h] at htool
  cases htool

theorem decidesTool_cons {pending token : String} {rest : List String}
    (h : detectStreamMode pending = .undecided) :
    DecidesTool pending (token :: rest) ↔
      detectStreamMode (pending ++ token) = .tool ∨
        detectStreamMode (pending ++ token) ≠ .text ∧ DecidesTool (pending ++ token) rest := by
  have hjoin : ∀ later : List String,
      pending ++ String.join (token :: later) = pending ++ token ++ String.join later := by
    intro later
    rw [String.join_cons, String.append_assoc]
  have hempty : pending ++ String.join [] = pending := by
    rw [String.join_nil, String.append_empty]
  constructor
  · rintro ⟨received, hreceived, htool, hearlier⟩
    cases received with
    | nil =>
      rw [hempty, h] at htool
      cases htool
    | cons first later =>
      obtain ⟨rfl, hlater⟩ := List.cons_prefix_cons.mp hreceived
      have hfirst := hearlier [first] (by simp)
      rw [hjoin, String.join_nil, String.append_empty] at hfirst
      refine .inr ⟨hfirst, later, hlater, by rwa [hjoin] at htool, fun earlier hpre => ?_⟩
      have := hearlier (first :: earlier) ((prefix_cons_inj first).mpr hpre)
      rwa [hjoin] at this
  · rintro (htool | ⟨hfirst, received, hreceived, htool, hearlier⟩)
    · refine ⟨[token], by simp, by rwa [hjoin, String.join_nil, String.append_empty], ?_⟩
      intro earlier hpre htext
      cases earlier with
      | nil =>
        rw [hempty, h] at htext
        cases htext
      | cons first later =>
        obtain ⟨rfl, hlater⟩ := List.cons_prefix_cons.mp hpre
        rw [List.prefix_nil.mp hlater, hjoin, String.join_nil, String.append_empty, htool] at htext
        cases htext
    · refine ⟨token :: received, (prefix_cons_inj token).mpr hreceived, by rwa [hjoin], ?_⟩
      intro earlier hpre htext
      cases earlier with
      | nil =>
        rw [hempty, h] at htext
        cases htext
      | cons first later =>
        obtain ⟨rfl, hlater⟩ := List.cons_prefix_cons.mp hpre
        exact hearlier later hlater (by rwa [hjoin] at htext)

theorem trace_tool {state : StreamState} (tokens : List String) (hmode : state.mode = .tool) :
    (consumer.trace state tokens).filterMap (fun e => e.output) = [] ∧
      (consumer.run state tokens).mode = .tool := by
  induction tokens generalizing state with
  | nil => exact ⟨rfl, hmode⟩
  | cons token rest ih =>
    obtain ⟨mode, pending, emittedText⟩ := state
    cases hmode
    rw [Machine.trace_cons, filterMap_cons]
    exact ih rfl

/-- What an undecided consumer forwards, the final flush included, when the response is no
tool call. -/
theorem forwards_nothing_iff (pending : String) (emitted : Bool) (tokens : List String)
    (hdetect : detectStreamMode pending = .undecided) (hne : pending ++ String.join tokens ≠ "") :
    (consumer.trace ⟨.undecided, pending, emitted⟩ tokens).filterMap (fun e => e.output) = [] ∧
        flushPending false (consumer.run ⟨.undecided, pending, emitted⟩ tokens) = none ↔
      DecidesTool pending tokens := by
  induction tokens generalizing pending with
  | nil =>
    rw [String.join_nil, String.append_empty] at hne
    have hflush : flushPending false (consumer.run ⟨.undecided, pending, emitted⟩ []) =
        some pending := by
      simp [flushPending, hne]
    rw [hflush]
    exact ⟨fun h => absurd h.2 (by simp), fun h => absurd h (not_decidesTool_nil hdetect)⟩
  | cons token rest ih =>
    have hstep : consumer.step ⟨.undecided, pending, emitted⟩ token =
        consumeToken ⟨.undecided, pending, emitted⟩ token := rfl
    rw [decidesTool_cons hdetect, Machine.trace_cons, Machine.run_cons, filterMap_cons,
      Machine.eventAt, hstep]
    cases h : detectStreamMode (pending ++ token) with
    | text => simp [consumeToken, h]
    | tool =>
      have htool : StreamState.mode ⟨.tool, pending ++ token, emitted⟩ = .tool := rfl
      obtain ⟨hquiet, hmode⟩ := trace_tool rest htool
      simp [consumeToken, h, hquiet, flushPending, hmode]
    | undecided =>
      have hrest := ih (pending ++ token) h
        (by rwa [String.join_cons, ← String.append_assoc] at hne)
      simpa [consumeToken, h] using hrest

variable {fromStr : JsonReader} {isKnownTool : String → Bool} {response : String}

theorem forwardedText_eq_nil_iff {tokens : List String} (hne : String.join tokens ≠ "")
    (hcall : tryToolCall fromStr isKnownTool (String.join tokens) = none) :
    forwardedText fromStr isKnownTool tokens = [] ↔ DecidesTool "" tokens := by
  rw [← forwards_nothing_iff "" false tokens (by decide)
    (by rwa [String.empty_append]), forwardedText, hcall]
  simp

theorem trimStart_ne_of_unparsed (h : isUnparsedToolCall fromStr response = true) :
    trimStart response ≠ "" := by
  intro hblank
  have htrim : trim response = "" := by
    have hdrop : response.toList.dropWhile isWhitespace = [] := by
      have := congrArg String.toList hblank
      rwa [trimStart, String.toList_ofList] at this
    rw [trim, trimChars, hdrop]
    rfl
  rw [isUnparsedToolCall_iff, extractedValue_eq_none.mpr (extractJson_blank hblank)] at h
  dsimp only at h
  rw [looksToolish, htrim] at h
  revert h
  decide

theorem detectStreamMode_object (hbrace : startsWith "\x7b" (trimStart response) = true) :
    detectStreamMode response = .tool ↔ looksLikeToolJson (trimStart response) = true := by
  obtain ⟨cs, hcs⟩ : ∃ cs, trimStart response = String.ofList ('{' :: cs) := by
    cases hchars : (trimStart response).toList with
    | nil =>
      have hempty : startsWith "\x7b" "" = false := by decide
      rw [String.toList_eq_nil_iff.mp hchars, hempty] at hbrace
      cases hbrace
    | cons c cs =>
      have htext : trimStart response = String.ofList (c :: cs) := by
        rw [← hchars, String.ofList_toList]
      rw [htext, startsWith_brace] at hbrace
      exact ⟨cs, by rw [htext, hbrace]⟩
  rw [detectStreamMode, hcs, detectTrimmed_unfenced cs (by decide), if_pos rfl, detectObject]
  generalize String.ofList ('{' :: cs) = text
  by_cases hmarker : looksLikeToolJson text = true
  · simp [hmarker]
  · rw [if_neg hmarker]
    split
    · simp [hmarker]
    · simp [hmarker]

/-- Of a broken call nothing is forwarded in a split exactly when the detector says tool
after one of its tokens and text after none before. It does so in every split exactly when
the response begins with an object that has a marker, and has it in its first 96 bytes, if
it is that long. -/
theorem broken_call_quiet_iff (fromStr : JsonReader) (isKnownTool : String → Bool)
    (response : String) (hbroken : isUnparsedToolCall fromStr response = true)
    (hcall : tryToolCall fromStr isKnownTool response = none) :
    (∀ tokens, String.join tokens = response →
      (forwardedText fromStr isKnownTool tokens = [] ↔ DecidesTool "" tokens)) ∧
    ((∀ tokens, String.join tokens = response → forwardedText fromStr isKnownTool tokens = []) ↔
      startsWith "\x7b" (trimStart response) = true ∧
        looksLikeToolJson (trimStart response) = true ∧
        ∀ pre, pre <+: (trimStart response).toList → 96 ≤ (String.ofList pre).utf8ByteSize →
          looksLikeToolJson (String.ofList pre) = true) := by
  have htrim : trimStart response ≠ "" := trimStart_ne_of_unparsed hbroken
  have hne : response ≠ "" := by
    rintro rfl
    exact htrim (by decide)
  have hsplit : ∀ tokens, String.join tokens = response →
      (forwardedText fromStr isKnownTool tokens = [] ↔ DecidesTool "" tokens) := by
    rintro tokens rfl
    exact forwardedText_eq_nil_iff hne hcall
  refine ⟨hsplit, ?_⟩
  have hquiet := detect_quiet_iff htrim
  constructor
  · intro h
    have hprefixes : ∀ pre, pre <+: response.toList →
        detectStreamMode (String.ofList pre) ≠ .text := by
      rintro pre ⟨rest, hrest⟩ htext
      have hjoin : String.join [String.ofList pre, String.ofList rest] = response := by
        apply String.toList_inj.mp
        simp [String.join_cons, hrest]
      have hdecides := (hsplit _ hjoin).mp (h _ hjoin)
      rw [decidesTool_cons (by decide), String.empty_append, htext] at hdecides
      simp at hdecides
    have hwhole : detectStreamMode response = .tool := by
      have hjoin : String.join [response] = response := by simp [String.join_cons]
      have hdecides := (hsplit _ hjoin).mp (h _ hjoin)
      rw [decidesTool_cons (by decide), String.empty_append] at hdecides
      rcases hdecides with htool | ⟨-, received, hreceived, htool, -⟩
      · exact htool
      · rwa [List.prefix_nil.mp hreceived, String.join_nil, String.append_empty] at htool
    obtain ⟨hbrace, hmarked⟩ := hquiet.mp hprefixes
    exact ⟨hbrace, (detectStreamMode_object hbrace).mp hwhole, hmarked⟩
  · rintro ⟨hbrace, hmarker, hmarked⟩ tokens hjoin
    have hprefixes := hquiet.mpr ⟨hbrace, hmarked⟩
    refine (hsplit tokens hjoin).mpr ⟨tokens, prefix_refl _, ?_, ?_⟩
    · rw [String.empty_append, hjoin]
      exact (detectStreamMode_object hbrace).mpr hmarker
    · rintro earlier ⟨later, rfl⟩
      have hpre : (String.join earlier).toList <+: response.toList := by
        rw [← hjoin, String.join_append, String.toList_append]
        exact prefix_append _ _
      have := hprefixes _ hpre
      rwa [String.ofList_toList, ← String.empty_append (s := String.join earlier)] at this

theorem broken_call_quiet_timer :
    forwardedText (fun _ => none) (fun _ => true)
      ["\x7b\"tool\":", " \"set_timer\", \"arguments\": \x7b\"seconds\": 60*60\x7d\x7d"] = [] :=
  (broken_call_quiet_iff (fun _ => none) (fun _ => true)
    "\x7b\"tool\": \"set_timer\", \"arguments\": \x7b\"seconds\": 60*60\x7d\x7d"
    (by decide +kernel) (by decide +kernel)).2.mpr
    ⟨by decide, by decide, fun _ hpre hlong =>
      absurd (hlong.trans (utf8ByteSize_le_of_append hpre)) (by decide)⟩ _
    (by decide)

/-- A broken call without a marker of the detector is flushed at the end of the stream. -/
theorem broken_call_flushed :
    ¬ ∀ (fromStr : JsonReader) (isKnownTool : String → Bool) (tokens : List String),
      isUnparsedToolCall fromStr (String.join tokens) = true →
      tryToolCall fromStr isKnownTool (String.join tokens) = none →
      forwardedText fromStr isKnownTool tokens = [] := by
  intro h
  have := h (fun _ => none) (fun _ => true) ["\x7b\"name\": ", "set_timer 60*60\x7d"]
    (by decide) (by decide)
  revert this
  decide

end GenieClaw.Server
