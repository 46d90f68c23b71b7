import GenieClaw.Library.Machine
import GenieClaw.Parser.ToolCalls

/-!
# Streaming a chat turn

The consumer of a streamed chat turn in `server.rs` holds the text back until
`detect_stream_mode` has decided whether it is an answer or a tool call. The detector sees
the text received so far, the parser the whole response once the stream has ended.

* `detect_quiet_iff`: the texts on which the detector never says text.
* `call_never_forwarded_iff` (the response is a tool call): when nothing of it is forwarded, however
  it is split.
-/

namespace GenieClaw.Server

open Library Library.Text GenieClaw.Parser List

inductive StreamMode where
  | undecided
  | text
  | tool
deriving DecidableEq

/-- The keys and tool names that mark a tool call. -/
def toolMarkers : List String :=
  ["\"tool\"", "\"arguments\"", "\"get_time\"", "\"get_weather\"", "\"web_search\"",
    "\"system_info\"", "\"home_control\"", "\"home_status\"", "\"home_undo\"",
    "\"action_history\"", "\"set_timer\"", "\"calculate\"", "\"play_media\"",
    "\"memory_recall\"", "\"memory_status\"", "\"memory_store\"", "\"memory_forget\""]

def looksLikeToolJson (text : String) : Bool := toolMarkers.any (containsText text)

/-- The branch for a text that begins with an object. -/
def detectObject (text : String) : Option StreamMode :=
  if looksLikeToolJson text then some .tool
  else if text.utf8ByteSize < 96 then some .undecided
  else none

/-- `detect_stream_mode` once the white space before the text is gone. -/
def detectTrimmed (trimmed : String) : StreamMode :=
  if trimmed = "" then .undecided
  else
    match (stripPrefix "```json" trimmed).or (stripPrefix "```" trimmed) with
    | some rest =>
      let inner := trimStart rest
      if inner = "" then .undecided
      else if startsWith "\x7b" inner then (detectObject inner).getD .text
      else .text
    | none => if startsWith "\x7b" trimmed then (detectObject trimmed).getD .text else .text

def detectStreamMode (buffer : String) : StreamMode := detectTrimmed (trimStart buffer)

structure StreamState where
  mode : StreamMode := .undecided
  pending : String := ""
  emittedText : Bool := false

/-- What the consumer does with a token, and the text it forwards. -/
def consumeToken (state : StreamState) (token : String) : Option String × StreamState :=
  match state.mode with
  | .text => (some token, { state with emittedText := true })
  | .tool => (none, { state with pending := state.pending ++ token })
  | .undecided =>
    let pending := state.pending ++ token
    match detectStreamMode pending with
    | .text => (some pending, ⟨.text, "", true⟩)
    | .tool => (none, { state with pending, mode := .tool })
    | .undecided => (none, { state with pending })

def consumer : Machine StreamState String (Option String) := ⟨consumeToken⟩

/-- The text forwarded once the stream has ended. A response that is a tool call is
replaced by the result of the tool. -/
def flushPending (isToolCall : Bool) (state : StreamState) : Option String :=
  if !isToolCall ∧ state.pending ≠ "" ∧ state.mode = .undecided then some state.pending else none

/-- Everything a turn forwards to the client as text. -/
def forwardedText (fromStr : JsonReader) (isKnownTool : String → Bool) (tokens : List String) :
    List String :=
  let isToolCall := (tryToolCall fromStr isKnownTool (String.join tokens)).isSome
  (consumer.trace {} tokens).filterMap (fun e => e.output) ++
    (flushPending isToolCall (consumer.run {} tokens)).toList

/-! ## The consumer and the detector -/

/-- Before the mode is text, a token on which the detector does not say text is held
back. -/
theorem consumeToken_quiet {state : StreamState} {token : String} (hmode : state.mode ≠ .text)
    (hdetect : detectStreamMode (state.pending ++ token) ≠ .text) :
    (consumeToken state token).1 = none ∧ (consumeToken state token).2.mode ≠ .text ∧
      (consumeToken state token).2.pending = state.pending ++ token := by
  obtain ⟨mode, pending, emittedText⟩ := state
  cases mode with
  | text => exact absurd rfl hmode
  | tool => simp [consumeToken]
  | undecided =>
    cases h : detectStreamMode (pending ++ token) with
    | text => exact absurd h hdetect
    | tool => simp [consumeToken, h]
    | undecided => simp [consumeToken, h]

theorem trace_quiet {tokens : List String} {state : StreamState} (hmode : state.mode ≠ .text)
    (hdetect : ∀ pre, pre <+: (String.join tokens).toList →
      detectStreamMode (state.pending ++ String.ofList pre) ≠ .text) :
    (consumer.trace state tokens).filterMap (fun e => e.output) = [] := by
  induction tokens generalizing state with
  | nil => rfl
  | cons token rest ih =>
    have hjoin : (String.join (token :: rest)).toList =
        token.toList ++ (String.join rest).toList := by
      rw [String.join_cons, String.toList_append]
    have hhere := hdetect token.toList (by rw [hjoin]; exact prefix_append _ _)
    rw [String.ofList_toList] at hhere
    obtain ⟨hnone, hmode', hpending⟩ := consumeToken_quiet hmode hhere
    rw [Machine.trace_cons, filterMap_cons]
    have hout : (consumer.eventAt state token).output = none := hnone
    rw [hout]
    refine ih hmode' ?_
    intro pre hpre
    have hlater := hdetect (token.toList ++ pre) (by
      rw [hjoin]
      exact (prefix_append_right_inj _).mpr hpre)
    have hstate : (consumer.step state token).2.pending = state.pending ++ token := hpending
    rw [hstate, String.append_assoc]
    rwa [String.ofList_append, String.ofList_toList] at hlater

section

variable {fromStr : JsonReader} {isKnownTool : String → Bool} {response : String}

theorem no_text_forwarded_iff_prefixes
    (hcall : (tryToolCall fromStr isKnownTool response).isSome = true) :
    (∀ tokens, String.join tokens = response → forwardedText fromStr isKnownTool tokens = []) ↔
      ∀ pre, pre <+: response.toList → detectStreamMode (String.ofList pre) ≠ .text := by
  constructor
  · rintro hquiet pre ⟨rest, hrest⟩ htext
    have hjoin : String.join [String.ofList pre, String.ofList rest] = response := by
      apply String.toList_inj.mp
      simp [String.join_cons, hrest]
    have hnone := hquiet _ hjoin
    have hfirst : (consumer.eventAt {} (String.ofList pre)).output = some (String.ofList pre) := by
      show (consumeToken {} (String.ofList pre)).1 = some (String.ofList pre)
      unfold consumeToken
      dsimp only
      rw [String.empty_append, htext]
    rw [forwardedText, Machine.trace_cons, filterMap_cons, hfirst] at hnone
    cases hnone
  · rintro hdetect tokens rfl
    unfold forwardedText
    rw [trace_quiet (by decide) (by simpa using hdetect), hcall]
    rfl

end

/-! ## The detector on the prefixes of a response -/

theorem dropWhile_mono {p : Char → Bool} {xs ys : List Char} (h : xs <+: ys) :
    xs.dropWhile p <+: ys.dropWhile p := by
  induction xs generalizing ys with
  | nil => exact nil_prefix
  | cons x xs ih =>
    obtain ⟨rest, rfl⟩ := h
    rw [cons_append, dropWhile_cons, dropWhile_cons]
    split
    · exact ih (prefix_append _ _)
    · exact prefix_append _ _

theorem exists_prefix_dropWhile {p : Char → Bool} {xs ys : List Char}
    (h : xs <+: ys.dropWhile p) : ∃ pre, pre <+: ys ∧ pre.dropWhile p = xs := by
  induction ys with
  | nil => exact ⟨[], nil_prefix, (List.prefix_nil.mp h).symm⟩
  | cons y ys ih =>
    rw [dropWhile_cons] at h
    split at h
    · rename_i hy
      obtain ⟨pre, hpre, rfl⟩ := ih h
      exact ⟨y :: pre, (prefix_cons_inj y).mpr hpre, by rw [dropWhile_cons, if_pos hy]⟩
    · rename_i hy
      refine ⟨xs, h, ?_⟩
      cases xs with
      | nil => rfl
      | cons x xs =>
        obtain ⟨rfl, -⟩ := List.cons_prefix_cons.mp h
        rw [dropWhile_cons, if_neg hy]

theorem detect_prefixes_iff (response : String) :
    (∀ pre, pre <+: response.toList → detectStreamMode (String.ofList pre) ≠ .text) ↔
      ∀ pre, pre <+: (trimStart response).toList → detectTrimmed (String.ofList pre) ≠ .text := by
  have htrim : ∀ cs : List Char, trimStart (String.ofList cs) =
      String.ofList (cs.dropWhile isWhitespace) := by
    intro cs
    rw [trimStart, String.toList_ofList]
  rw [trimStart, String.toList_ofList]
  constructor
  · intro h pre hpre
    obtain ⟨whole, hwhole, rfl⟩ := exists_prefix_dropWhile hpre
    have := h whole hwhole
    rwa [detectStreamMode, htrim] at this
  · intro h pre hpre
    rw [detectStreamMode, htrim]
    exact h _ (dropWhile_mono hpre)

theorem stripPrefix_eq_none {pre : String} {a c : Char} {cs : List Char}
    (hpre : pre.toList.head? = some a) (hne : a ≠ c) :
    stripPrefix pre (String.ofList (c :: cs)) = none := by
  obtain ⟨rest, hrest⟩ := List.head?_eq_some_iff.mp hpre
  unfold stripPrefix startsWith
  rw [hrest, String.toList_ofList, isPrefixOf_cons_cons, beq_false_of_ne hne, Bool.false_and]
  rfl

theorem startsWith_brace (c : Char) (cs : List Char) :
    startsWith "\x7b" (String.ofList (c :: cs)) = true ↔ c = '{' := by
  show List.isPrefixOf ['{'] (String.ofList (c :: cs)).toList = true ↔ c = '{'
  rw [String.toList_ofList, isPrefixOf_cons_cons, isPrefixOf_nil_left, Bool.and_true,
    beq_iff_eq]
  exact eq_comm

theorem detectTrimmed_unfenced {c : Char} (cs : List Char) (hc : c ≠ Char.ofNat 0x60) :
    detectTrimmed (String.ofList (c :: cs)) =
      if c = '{' then (detectObject (String.ofList (c :: cs))).getD .text else .text := by
  have hjson : stripPrefix "```json" (String.ofList (c :: cs)) = none :=
    stripPrefix_eq_none rfl (Ne.symm hc)
  have hfence : stripPrefix "```" (String.ofList (c :: cs)) = none :=
    stripPrefix_eq_none rfl (Ne.symm hc)
  have hne : String.ofList (c :: cs) ≠ "" := by
    intro h
    have := congrArg String.toList h
    simp at this
  unfold detectTrimmed
  rw [if_neg hne, hjson, hfence, Option.none_or]
  simp only [startsWith_brace]

/-- On a text that begins with an object the detector waits for a marker for less than 96
bytes. -/
theorem detectTrimmed_object (cs : List Char) :
    detectTrimmed (String.ofList ('{' :: cs)) ≠ .text ↔
      (96 ≤ (String.ofList ('{' :: cs)).utf8ByteSize →
        looksLikeToolJson (String.ofList ('{' :: cs)) = true) := by
  rw [detectTrimmed_unfenced cs (by decide), if_pos rfl, detectObject]
  by_cases hmarker : looksLikeToolJson (String.ofList ('{' :: cs)) = true
  · rw [if_pos hmarker]
    exact ⟨fun _ _ => hmarker, fun _ h => by cases h⟩
  · rw [if_neg hmarker]
    split
    · rename_i hshort
      constructor
      · intro _ hlong
        omega
      · intro _ h
        cases h
    · rename_i hlong
      constructor
      · intro h
        exact absurd rfl h
      · intro h
        exact absurd (h (by omega)) hmarker

theorem detectTrimmed_other {c : Char} (hc : c ≠ '{') :
    detectTrimmed (String.ofList [c]) = .text := by
  by_cases hfence : c = Char.ofNat 0x60
  · subst hfence
    decide
  · rw [detectTrimmed_unfenced [] hfence, if_neg hc]

/-- The detector says text on no prefix of a text that begins with an object and has a
marker in its first 96 bytes, if it is that long. -/
theorem detect_quiet_iff {response : String} (hne : trimStart response ≠ "") :
    (∀ pre, pre <+: response.toList → detectStreamMode (String.ofList pre) ≠ .text) ↔
      startsWith "\x7b" (trimStart response) = true ∧
        ∀ pre, pre <+: (trimStart response).toList → 96 ≤ (String.ofList pre).utf8ByteSize →
          looksLikeToolJson (String.ofList pre) = true := by
  rw [detect_prefixes_iff]
  obtain ⟨c, cs, hcs⟩ : ∃ c cs, (trimStart response).toList = c :: cs :=
    exists_cons_of_ne_nil (fun hnil => hne (String.toList_eq_nil_iff.mp hnil))
  have htext : trimStart response = String.ofList (c :: cs) := by
    rw [← hcs, String.ofList_toList]
  rw [hcs, htext, startsWith_brace]
  constructor
  · intro h
    have hc : c = '{' := by
      by_contra hne
      exact h [c] (by simp) (detectTrimmed_other hne)
    subst hc
    refine ⟨rfl, ?_⟩
    intro pre hpre hlong
    cases pre with
    | nil => exact absurd hlong (by decide)
    | cons b pre =>
      obtain ⟨rfl, -⟩ := List.cons_prefix_cons.mp hpre
      exact (detectTrimmed_object pre).mp (h _ hpre) hlong
  · rintro ⟨rfl, h⟩ pre hpre
    cases pre with
    | nil => exact fun htext => by cases htext
    | cons b pre =>
      obtain ⟨rfl, -⟩ := List.cons_prefix_cons.mp hpre
      exact (detectTrimmed_object pre).mpr (h _ hpre)

/-! ## Tool calls in a stream -/

theorem utf8ByteSize_le_of_append {pre : List Char} {text : String} (h : pre <+: text.toList) :
    (String.ofList pre).utf8ByteSize ≤ text.utf8ByteSize := by
  obtain ⟨rest, hrest⟩ := h
  have htext : text = String.ofList pre ++ String.ofList rest := by
    rw [← String.ofList_append, hrest, String.ofList_toList]
  rw [htext, String.utf8ByteSize_append]
  exact Nat.le_add_right _ _

theorem extractJson_blank {fromStr : JsonReader} {response : String}
    (h : trimStart response = "") : extractJson fromStr response = none := by
  have htrim : trim response = "" := by
    have hdrop : response.toList.dropWhile isWhitespace = [] := by
      have := congrArg String.toList h
      rwa [trimStart, String.toList_ofList] at this
    rw [trim, trimChars, hdrop]
    rfl
  rw [extractJson, htrim]
  rfl

/-- Of a response that is a tool call nothing is forwarded as text, however it is split
into tokens, exactly when it begins with an object that has a marker in its first 96
bytes, if it is that long. -/
theorem call_never_forwarded_iff (fromStr : JsonReader) (isKnownTool : String → Bool)
    (response : String) (hcall : (tryToolCall fromStr isKnownTool response).isSome = true) :
    ((∀ tokens, String.join tokens = response → forwardedText fromStr isKnownTool tokens = []) ↔
      (startsWith "\x7b" (trimStart response) = true ∧
        ∀ pre, pre <+: (trimStart response).toList → 96 ≤ (String.ofList pre).utf8ByteSize →
          looksLikeToolJson (String.ofList pre) = true)) ∧
    ((∀ pre, pre <+: response.toList → detectStreamMode (String.ofList pre) ≠ .text) ↔
      (startsWith "\x7b" (trimStart response) = true ∧
        ∀ pre, pre <+: (trimStart response).toList → 96 ≤ (String.ofList pre).utf8ByteSize →
          looksLikeToolJson (String.ofList pre) = true)) := by
  have hne : trimStart response ≠ "" := by
    intro hblank
    rw [tryToolCall, extractedValue_eq_none.mpr (extractJson_blank hblank)] at hcall
    cases hcall
  exact ⟨(no_text_forwarded_iff_prefixes hcall).trans (detect_quiet_iff hne),
    detect_quiet_iff hne⟩

theorem call_never_forwarded_clock :
    forwardedText
      (readerOf "\x7b\"tool\":\"get_time\"\x7d" (.object [("tool", .string "get_time")]))
      (fun _ => true) ["\x7b\"tool\":", "\"get_time\"\x7d"] = [] :=
  (call_never_forwarded_iff
    (readerOf "\x7b\"tool\":\"get_time\"\x7d" (.object [("tool", .string "get_time")]))
    (fun _ => true) "\x7b\"tool\":\"get_time\"\x7d" (by decide)).1.mpr
    ⟨by decide +kernel, fun _ hpre hlong =>
      absurd (hlong.trans (utf8ByteSize_le_of_append hpre)) (by decide)⟩ _
    (by decide)

/-- A call in an array goes to the client with its first token. -/
theorem array_call_forwarded :
    ¬ ∀ (fromStr : JsonReader) (isKnownTool : String → Bool) (tokens : List String),
      (tryToolCall fromStr isKnownTool (String.join tokens)).isSome = true →
      forwardedText fromStr isKnownTool tokens = [] := by
  intro h
  have := h (readerOf "[\x7b\"tool\":\"get_time\"\x7d]"
    (.array [.object [("tool", .string "get_time")]])) (fun _ => true)
    ["[", "\x7b\"tool\":\"get_time\"\x7d]"] (by decide)
  revert this
  decide

end GenieClaw.Server
