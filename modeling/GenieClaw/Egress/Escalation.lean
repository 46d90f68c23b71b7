import GenieClaw.Egress.PrivacyProxy
import GenieClaw.Memory.Inject
import GenieClaw.Memory.PolicyRead
import GenieClaw.Server.Reasoning
import Mathlib.Data.Finset.Dedup

/-!
# What goes to the privacy proxy

`escalate_via_privacy_proxy` of `genie-core/src/server.rs` and the escalation policy of
`genie-core/src/memory/policy.rs`. The vocabulary is made of memories that the policy admits.
The messages are those of the local request: their memory section was built under the policy
for speaking, which is another one.

* `sentMemories_eligible_iff`, `escalation_keeps_local_iff` (no assumption): which memories go out.
* `processChatTurn_congr`: nothing else of the proxy matters than its answer to the request.
-/

namespace GenieClaw.Egress

open Library Library.Text Memory List
open Server (Message Reply IncomingTurn ChatRuntime ChatWorld)

/-! ## The policy -/

inductive EscalationPolicy where
  | localOnly
  | anonymized
deriving DecidableEq

def escalationPolicy (metadata : MemoryPolicyMetadata) : EscalationPolicy :=
  match metadata.scope, metadata.sensitivity with
  | .«private», _ => .localOnly
  | _, .restricted => .localOnly
  | _, .cautious => .localOnly
  | _, _ => .anonymized

def eligibleForEscalation (kind content : String) : Bool :=
  if eqIgnoreAsciiCase kind "identity" then false
  else escalationPolicy (inferMetadata kind content) = .anonymized

/-- The letters beyond ASCII. -/
structure CharClasses where
  isAlphabetic : Char → Bool
  isUppercase : Char → Bool

def vocabStopWords : List String :=
  ["User", "Users", "The", "A", "An", "My", "Our", "Your", "His", "Her", "Their", "Its",
    "This", "That", "These", "Those", "There", "Here", "We", "You", "He", "She", "They", "It",
    "I"]

/-- A title-cased word, without the characters that are not letters. -/
def CharClasses.isProper (classes : CharClasses) (alpha : String) : Bool :=
  decide (1 < alpha.utf8ByteSize) && alpha.toList.head?.any classes.isUppercase &&
    alpha ∉ vocabStopWords

/-- A run of title-cased words, and its first word where it has several. -/
def addTerms (terms run : List String) : List String :=
  let full := joinWith " " run
  let terms := if full ∈ terms then terms else terms ++ [full]
  match run with
  | first :: _ :: _ => if first ∈ terms then terms else terms ++ [first]
  | _ => terms

def extractVocabTerms (classes : CharClasses) (content : String) : List String :=
  let alphas := (splitWhitespace content).map fun word =>
    String.ofList (word.toList.filter classes.isAlphabetic)
  let runs := (alphas.splitOnP fun alpha => !classes.isProper alpha).filter (· ≠ [])
  runs.foldl addTerms []

/-! ## The request -/

/-- What `escalate_via_privacy_proxy` hands to the backend. -/
structure ProxyRequest where
  messages : List Message
  terms : Finset String

/-- The memories whose terms are seeded. -/
def seededEntries (reads : MemoryReads) : List MemoryEntry :=
  ((reads.recent 500).getD []).filter fun entry =>
    eligibleForEscalation entry.kind entry.content

def seededTerms (classes : CharClasses) (reads : MemoryReads) : Finset String :=
  (((seededEntries reads).flatMap fun entry => extractVocabTerms classes entry.content).filter
    (· ≠ "")).toFinset

def escalateViaPrivacyProxy (classes : CharClasses) (messages : List Message)
    (reads : MemoryReads) : ProxyRequest :=
  ⟨messages, seededTerms classes reads⟩

/-- The read context of a turn: that of a shared room where no speaker was resolved. -/
def turnReadContext (speaker : SpeakerInfo) (text : String) (sharedSpaceVoice : Bool) :
    MemoryReadContext :=
  if speaker.isResolved then speaker.memoryReadContext text sharedSpaceVoice
  else .sharedRoomVoice

def buildMemoryContextForTurn (reads : MemoryReads) (speaker : SpeakerInfo) (text : String)
    (sharedSpaceVoice : Bool) : String :=
  if speaker.isResolved then
    buildMemoryContextWithReadContext reads text (speaker.memoryReadContext text sharedSpaceVoice)
  else buildMemoryContext reads text

/-- What a deployment brings to a turn besides its tools and its model. -/
structure Escalating where
  classes : CharClasses
  toLowercase : String → String
  modelFamily : Server.ModelFamily
  speaker : SpeakerInfo
  proxy : Option PrivacyProxyConfig
  /-- What comes back from the proxy. -/
  respond : ProxyRequest → Except String String

def reasonOf : Server.EscalationReason → EscalationReason
  | .contextOverflow => .contextOverflow
  | .localDecline => .localDecline

variable {T : Type} (s : Escalating) (v : ChatRuntime T MemoryReads)

/-- The handler of a chat turn over the memory, the reasoning directives and the proxy. -/
def Escalating.runtime : ChatRuntime T MemoryReads :=
  { v with
    buildMemoryContext := fun reads turn =>
      buildMemoryContextForTurn reads s.speaker turn.text false
    applyReasoningMode := fun messages text interaction =>
      (Server.applyReasoningMode s.toLowercase s.modelFamily messages text interaction).1
    mayEscalate := fun reason => (mayEscalate s.proxy (reasonOf reason)).isSome
    privacyProxy := fun _ messages reads =>
      s.respond (escalateViaPrivacyProxy s.classes messages reads) }

/-- The world in which the request of a turn is put together. -/
def openingWorld (convId : String) (turn : IncomingTurn) (w : ChatWorld T MemoryReads) :
    ChatWorld T MemoryReads :=
  { w with rows := w.rows ++
      [{ convId, role := "user", content := turn.text, speaker := turn.speakerName }] }

def Escalating.messages (convId : String) (turn : IncomingTurn) (w : ChatWorld T MemoryReads) :
    List Message :=
  (s.runtime v).turnMessages convId turn (openingWorld convId turn w)

/-- The local model declines the request. -/
def declines (messages : List Message) (w : ChatWorld T MemoryReads) : Prop :=
  v.gateBlocked.isSome ∨ (v.reply w.asked messages).error.isSome

instance (messages : List Message) (w : ChatWorld T MemoryReads) :
    Decidable (declines v messages w) := by
  unfold declines
  infer_instance

/-- The proxy is asked for these messages: they do not fit, or the local model declines them,
and the proxy is there for that. -/
def Asks (messages : List Message) (w : ChatWorld T MemoryReads) : Prop :=
  (Server.contextOverflowed messages = true ∧ (mayEscalate s.proxy .contextOverflow).isSome) ∨
    (declines v messages w ∧ (mayEscalate s.proxy .localDecline).isSome)

instance (messages : List Message) (w : ChatWorld T MemoryReads) :
    Decidable (Asks s v messages w) := by
  unfold Asks
  infer_instance

/-- The turn goes to the proxy: it is for the model, and its messages go there. -/
def Escalating.escalates (convId : String) (turn : IncomingTurn)
    (w : ChatWorld T MemoryReads) : Prop :=
  (v.quickRoute turn).isNone = true ∧ Asks s v (s.messages v convId turn w) w

instance (convId : String) (turn : IncomingTurn) (w : ChatWorld T MemoryReads) :
    Decidable (s.escalates v convId turn w) := by
  unfold Escalating.escalates
  infer_instance

/-- The request a turn sends to the proxy, if it does. -/
def Escalating.requestOf (convId : String) (turn : IncomingTurn) (w : ChatWorld T MemoryReads) :
    Option ProxyRequest :=
  if s.escalates v convId turn w then
    some (escalateViaPrivacyProxy s.classes (s.messages v convId turn w) w.memory)
  else none

/-! ## Nothing else is asked -/

section

variable {s v}

variable {messages : List Message} {w : ChatWorld T MemoryReads}

theorem declines_iff : declines v messages w ↔ ∃ e w', v.complete messages w = (.error e, w') := by
  unfold declines ChatRuntime.complete
  cases v.gateBlocked with
  | some reasons => simp
  | none =>
    unfold Reply.completion
    cases (v.reply w.asked messages).error with
    | none => simp
    | some e => simp

theorem complete_memory : (v.complete messages w).2.memory = w.memory := by
  unfold ChatRuntime.complete
  cases v.gateBlocked <;> rfl

/-- One request to the proxy. -/
def afterProxy (s : Escalating) (messages : List Message) (w : ChatWorld T MemoryReads)
    (fallback : Program (ChatWorld T MemoryReads) String String) :
    Except String String × ChatWorld T MemoryReads :=
  match s.respond (escalateViaPrivacyProxy s.classes messages w.memory) with
  | .ok response => (.ok response, { w with escalated := w.escalated + 1 })
  | .error _ => fallback { w with escalated := w.escalated + 1 }

theorem completeOrEscalate_overflow (h : Server.contextOverflowed messages = true ∧
      (mayEscalate s.proxy .contextOverflow).isSome = true) :
    (s.runtime v).completeOrEscalate messages w =
      afterProxy s messages w (v.complete messages) := by
  have hopen : Server.contextOverflowed messages = true ∧
      (s.runtime v).mayEscalate .contextOverflow = true := h
  have hasked : (s.runtime v).escalate .contextOverflow messages w =
      (s.respond (escalateViaPrivacyProxy s.classes messages w.memory),
        { w with escalated := w.escalated + 1 }) := rfl
  unfold ChatRuntime.completeOrEscalate afterProxy
  rw [if_pos hopen, hasked]
  cases s.respond (escalateViaPrivacyProxy s.classes messages w.memory) <;> rfl

variable {t : ChatWorld T MemoryReads}
  (hfits : ¬ (Server.contextOverflowed messages = true ∧
    (mayEscalate s.proxy .contextOverflow).isSome = true))

include hfits

theorem completeOrEscalate_declined {declined : String}
    (hcomplete : v.complete messages w = (.error declined, t)) :
    (s.runtime v).completeOrEscalate messages w =
      if (mayEscalate s.proxy .localDecline).isSome = true then
        afterProxy s messages t (Program.fail declined)
      else (.error declined, t) := by
  have hshut : ¬ (Server.contextOverflowed messages = true ∧
      (s.runtime v).mayEscalate .contextOverflow = true) := hfits
  have hlocal : (s.runtime v).complete messages w = (.error declined, t) := hcomplete
  have hasked : (s.runtime v).escalate .localDecline messages t =
      (s.respond (escalateViaPrivacyProxy s.classes messages t.memory),
        { t with escalated := t.escalated + 1 }) := rfl
  unfold ChatRuntime.completeOrEscalate afterProxy
  rw [if_neg hshut, hlocal]
  dsimp only
  rw [hasked]
  cases s.respond (escalateViaPrivacyProxy s.classes messages t.memory) <;> rfl

theorem completeOrEscalate_local {response : String}
    (hcomplete : v.complete messages w = (.ok response, t)) :
    (s.runtime v).completeOrEscalate messages w = (.ok response, t) := by
  have hshut : ¬ (Server.contextOverflowed messages = true ∧
      (s.runtime v).mayEscalate .contextOverflow = true) := hfits
  have hlocal : (s.runtime v).complete messages w = (.ok response, t) := hcomplete
  unfold ChatRuntime.completeOrEscalate
  rw [if_neg hshut, hlocal]

omit hfits in
theorem completeOrEscalate_congr {respond : ProxyRequest → Except String String}
    (h : Asks s v messages w →
      let request := escalateViaPrivacyProxy s.classes messages w.memory
      s.respond request = respond request) :
    (s.runtime v).completeOrEscalate messages w =
      ({ s with respond }.runtime v).completeOrEscalate messages w := by
  by_cases hoverflow : Server.contextOverflowed messages = true ∧
      (mayEscalate s.proxy .contextOverflow).isSome = true
  · rw [completeOrEscalate_overflow hoverflow,
      completeOrEscalate_overflow (s := { s with respond }) hoverflow]
    unfold afterProxy
    rw [h (.inl hoverflow)]
  · have hmemory := @complete_memory _ v messages w
    cases hcomplete : v.complete messages w with
    | mk result t =>
      rw [hcomplete] at hmemory
      have hmemory : t.memory = w.memory := hmemory
      cases result with
      | ok response =>
        rw [completeOrEscalate_local hoverflow hcomplete,
          completeOrEscalate_local (s := { s with respond }) hoverflow hcomplete]
      | error declined =>
        rw [completeOrEscalate_declined hoverflow hcomplete,
          completeOrEscalate_declined (s := { s with respond }) hoverflow hcomplete]
        split_ifs with hdecline
        · unfold afterProxy
          rw [hmemory, h (.inr ⟨declines_iff.mpr ⟨declined, t, hcomplete⟩, hdecline⟩)]
        · rfl

omit hfits in
/-- A turn asks the proxy nothing but its request: another proxy that answers it alike makes no
difference. -/
theorem processChatTurn_congr {convId : String} {turn : IncomingTurn}
    {respond : ProxyRequest → Except String String}
    (h : ∀ request ∈ s.requestOf v convId turn w, s.respond request = respond request) :
    (s.runtime v).processChatTurn convId turn w =
      ({ s with respond }.runtime v).processChatTurn convId turn w := by
  have happend : (ChatRuntime.appendUser convId turn : Program (ChatWorld T MemoryReads) _ _) w =
      (.ok (), openingWorld convId turn w) := rfl
  have hroute : ∀ s : Escalating, (s.runtime v).quickRoute turn = v.quickRoute turn := fun _ => rfl
  have hbuild : (s.runtime v).buildMessages convId turn (openingWorld convId turn w) =
      (.ok (s.messages v convId turn w), openingWorld convId turn w) := rfl
  have hbuild' : ({ s with respond }.runtime v).buildMessages convId turn
      (openingWorld convId turn w) =
      (.ok (s.messages v convId turn w), openingWorld convId turn w) := rfl
  unfold ChatRuntime.processChatTurn
  rw [Program.bind_apply_ok happend, Program.bind_apply_ok happend, hroute, hroute]
  cases hquick : v.quickRoute turn with
  | some call => rfl
  | none =>
    dsimp only
    unfold ChatRuntime.modelTurn
    rw [Program.bind_apply_ok hbuild, Program.bind_apply_ok hbuild']
    apply Program.bind_congr
    · refine completeOrEscalate_congr fun hasks => h _ ?_
      unfold Escalating.requestOf
      rw [if_pos (show s.escalates v convId turn w from ⟨by rw [hquick]; rfl, hasks⟩)]
      rfl
    · intro response t
      have hproxy : { s with respond }.runtime v =
          { s.runtime v with privacyProxy := ({ s with respond }.runtime v).privacyProxy } := rfl
      rw [hproxy]
      generalize ({ s with respond }.runtime v).privacyProxy = privacyProxy
      generalize s.runtime v = v
      unfold ChatRuntime.answer
      dsimp only
      cases Parser.tryToolCall v.fromStr v.isKnownTool response <;> rfl

end

/-! ## The memories in the request -/

/-- The memories that the memory section of the turn is made from. -/
def Escalating.turnEntries (turn : IncomingTurn) (reads : MemoryReads) : List MemoryEntry :=
  contextEntries reads turn.text (turnReadContext s.speaker turn.text false)

/-- The system prompt of the turn, with the memories in it. -/
def Escalating.tracedPrompt (turn : IncomingTurn) (reads : MemoryReads) : Traced MemoryEntry :=
  Traced.fixed v.systemPrompt ++ Traced.fixed "\n\nRelevant household context:\n" ++
    tracedContext (s.turnEntries turn reads)

/-- The memories whose text goes to the proxy, in the messages or in the terms. -/
def Escalating.sentMemories (convId : String) (turn : IncomingTurn)
    (w : ChatWorld T MemoryReads) : List MemoryEntry :=
  match s.requestOf v convId turn w with
  | none => []
  | some _ => (s.tracedPrompt v turn w.memory).sources ++ seededEntries w.memory

/-- The memories offered to the section that may be spoken in the turn, in their order. -/
def Escalating.offered (turn : IncomingTurn) (reads : MemoryReads) : List MemoryEntry :=
  let readContext := turnReadContext s.speaker turn.text false
  let first := readable readContext (offeredFirst reads turn.text)
  first ++ (readable readContext (offeredPreferences reads turn.text)).take (8 - first.length)

section

variable {s v}

theorem buildMemoryContextForTurn_eq (reads : MemoryReads) (speaker : SpeakerInfo)
    (text : String) (sharedSpaceVoice : Bool) :
    buildMemoryContextForTurn reads speaker text sharedSpaceVoice =
      (tracedContext (contextEntries reads text
        (turnReadContext speaker text sharedSpaceVoice))).text := by
  rw [text_tracedContext]
  unfold buildMemoryContextForTurn turnReadContext
  split_ifs with hresolved
  · rfl
  · rfl

theorem head_of_request (s : Escalating) (v : ChatRuntime T MemoryReads) (convId : String)
    (turn : IncomingTurn) (w : ChatWorld T MemoryReads) :
    s.messages v convId turn w = ⟨"system", (s.tracedPrompt v turn w.memory).text⟩ ::
      (Server.applyReasoningMode s.toLowercase s.modelFamily
        (v.getRecent (openingWorld convId turn w).rows convId v.maxHistory) turn.text .chat).1 := by
  have hprompt : (s.tracedPrompt v turn w.memory).text =
      v.systemPrompt ++ "\n\nRelevant household context:\n" ++
        buildMemoryContextForTurn w.memory s.speaker turn.text false := by
    rw [buildMemoryContextForTurn_eq, Escalating.tracedPrompt, Traced.text_append,
      Traced.text_append, Traced.text_fixed, Traced.text_fixed]
    rfl
  have hrole : ("system" : String) ≠ "user" := by decide
  rw [hprompt]
  exact Server.applyReasoningMode_cons s.toLowercase s.modelFamily _ turn.text .chat hrole

theorem turnEntries_eq (turn : IncomingTurn) (reads : MemoryReads) :
    s.turnEntries turn reads = s.offered turn reads :=
  contextEntries_eq reads turn.text (turnReadContext s.speaker turn.text false)

theorem sources_tracedPrompt (turn : IncomingTurn) (reads : MemoryReads) :
    (s.tracedPrompt v turn reads).sources = shownEntries (s.offered turn reads) := by
  rw [Escalating.tracedPrompt, Traced.sources_append, Traced.sources_append, Traced.sources_fixed,
    Traced.sources_fixed, sources_tracedContext, turnEntries_eq]
  rfl

theorem eligible_of_seeded {reads : MemoryReads} {entry : MemoryEntry}
    (h : entry ∈ seededEntries reads) : eligibleForEscalation entry.kind entry.content = true :=
  (List.mem_filter.mp h).2

/-- A turn sends memories the policy admits and no others exactly if it does not go to the proxy,
or none of the memories in its section that is first or within the budget is for the household
alone. -/
theorem sentMemories_eligible_iff (s : Escalating) (v : ChatRuntime T MemoryReads)
    (convId : String) (turn : IncomingTurn) (w : ChatWorld T MemoryReads) :
    (∀ entry ∈ s.sentMemories v convId turn w,
        eligibleForEscalation entry.kind entry.content = true) ↔
      (s.escalates v convId turn w → ∀ before entry after,
        s.offered turn w.memory = before ++ entry :: after →
        (before = [] ∨ estimateHydrationTokens (formatMemoryLines
          ((before ++ [entry]).map contextLine)) ≤ memoryHydrationBudgetTokens) →
        eligibleForEscalation entry.kind entry.content = true) := by
  unfold Escalating.sentMemories Escalating.requestOf
  by_cases hescalates : s.escalates v convId turn w
  · rw [if_pos hescalates]
    dsimp only
    rw [sources_tracedPrompt]
    constructor
    · intro h _ before entry after hsplit hfits
      have hshown := (mem_shownEntries _ entry).mpr ⟨before, after, hsplit, hfits⟩
      exact h entry (mem_append_left _ hshown)
    · intro h entry hentry
      rcases List.mem_append.mp hentry with hshown | hseeded
      · obtain ⟨before, after, hsplit, hfits⟩ := (mem_shownEntries _ entry).mp hshown
        exact h hescalates before entry after hsplit hfits
      · exact eligible_of_seeded hseeded
  · rw [if_neg hescalates]
    constructor
    · exact fun _ h => absurd h hescalates
    · intro _ entry hentry
      cases hentry

/-- A text stands in one of the messages or terms. -/
def ProxyRequest.Quotes (request : ProxyRequest) (content : String) : Prop :=
  (∃ message ∈ request.messages, containsText message.content content = true) ∨
    ∃ term ∈ request.terms, containsText term content = true

theorem content_quoted (s : Escalating) (v : ChatRuntime T MemoryReads) {turn : IncomingTurn}
    {reads : MemoryReads} {before after : List MemoryEntry} {entry : MemoryEntry}
    (hsplit : s.offered turn reads = before ++ entry :: after)
    (hfits : estimateHydrationTokens (formatMemoryLines ((before ++ [entry]).map contextLine)) ≤
      memoryHydrationBudgetTokens) :
    containsText (s.tracedPrompt v turn reads).text entry.content = true := by
  have hpiece : (some entry, contextLine entry) ∈ s.tracedPrompt v turn reads := by
    rw [Escalating.tracedPrompt, turnEntries_eq, hsplit]
    exact mem_append_right _ (line_mem_tracedContext hfits)
  obtain ⟨front, back, htext⟩ := Traced.exists_text_of_mem hpiece
  rw [containsText, decide_eq_true_eq, htext, contextLine]
  simp only [String.toList_append]
  exact ⟨front.toList ++ (("[".toList ++ entry.kind.toList) ++ "] ".toList), back.toList, by
    simp only [append_assoc]⟩

/-- The memory section decides what goes out: a turn that escalates sends memories the policy
admits and no others exactly if none that is first in its section or within the budget has to
stay on the device; and one within the budget is sent word for word. -/
theorem escalation_keeps_local_iff (s : Escalating) (v : ChatRuntime T MemoryReads)
    (convId : String) (turn : IncomingTurn) (w : ChatWorld T MemoryReads) :
    ((∀ entry ∈ s.sentMemories v convId turn w,
        eligibleForEscalation entry.kind entry.content = true) ↔
      (s.escalates v convId turn w → ∀ before entry after,
        s.offered turn w.memory = before ++ entry :: after →
        (before = [] ∨ estimateHydrationTokens (formatMemoryLines
          ((before ++ [entry]).map contextLine)) ≤ memoryHydrationBudgetTokens) →
        eligibleForEscalation entry.kind entry.content = true)) ∧
      ∀ request ∈ s.requestOf v convId turn w, ∀ before entry after,
        s.offered turn w.memory = before ++ entry :: after →
        estimateHydrationTokens (formatMemoryLines ((before ++ [entry]).map contextLine)) ≤
          memoryHydrationBudgetTokens →
        request.Quotes entry.content := by
  refine ⟨sentMemories_eligible_iff s v convId turn w, ?_⟩
  intro request hrequest before entry after hsplit hfits
  unfold Escalating.requestOf at hrequest
  split_ifs at hrequest with hescalates
  · obtain rfl := Option.some.inj hrequest
    refine .inl ⟨⟨"system", (s.tracedPrompt v turn w.memory).text⟩, ?_,
      content_quoted s v hsplit hfits⟩
    rw [escalateViaPrivacyProxy, head_of_request]
    exact mem_cons_self
  · cases hrequest

end

/-! ## The name of the household goes out -/

/-- A memory that the store answers with. -/
def Held (reads : MemoryReads) (entry : MemoryEntry) : Prop :=
  (∃ kind limit, entry ∈ (reads.getByKind kind limit).getD []) ∨
    (∃ query limit, entry ∈ (reads.search query limit).getD []) ∨
      ∃ limit, entry ∈ (reads.recent limit).getD []

def nameEntry : MemoryEntry where
  id := 1
  kind := "identity"
  content := "Household member name is Jared"
  accessedMs := 0
  metadata := ⟨.household, .normal, .allow⟩

def nameReads : MemoryReads where
  getByKind kind _ := some (if kind = "identity" then [nameEntry] else [])
  search _ _ := some []
  recent _ := some [nameEntry]
  kind_of_getByKind kind limit entries h := by
    rintro entry hentry
    obtain rfl := Option.some.inj h
    split_ifs at hentry with hkind
    · rw [List.mem_singleton.mp hentry, hkind]
      rfl
    · cases hentry

/-- A model that declines every request. -/
def declining : ChatRuntime Unit MemoryReads where
  hasHomeAutomation := false
  hasWebSearch := false
  fromStr _ := none
  isKnownTool _ := false
  floatText _ := "0.0"
  systemPrompt := "You are the assistant of this house."
  maxHistory := 10
  gateBlocked := none
  mayEscalate _ := false
  routeForAvailableTools _ _ _ := none
  executeWithContext call _ tools memory :=
    (⟨call.name, .readOnly, false, "unknown tool"⟩, tools, memory)
  sanitizeOutput output := output
  extractAndStore _ memory := (0, memory)
  buildMemoryContext _ _ := ""
  getRecent rows _ count := (rows.rtake count).map fun row => ⟨row.role, row.content⟩
  applyReasoningMode messages _ _ := messages
  reply _ _ := { tokens := [], error := some "model is loading" }
  privacyProxy _ _ _ := .error "disabled"

def proxied : Escalating where
  classes := ⟨fun c => c.isAlpha, fun c => c.isUpper⟩
  toLowercase := toAsciiLowercase
  modelFamily := .qwen
  speaker := {}
  proxy := some { enabled := true }
  respond _ := .ok "It will be sunny."

theorem proxied_escalates : proxied.escalates declining "c1"
    { text := "will it be sunny tomorrow" } { tools := (), memory := nameReads } :=
  ⟨rfl, .inr ⟨.inr rfl, by decide⟩⟩

/-- A proxy that answers one question only. -/
def answersWeather (request : ProxyRequest) : Except String String :=
  if request.messages.tail.map Message.content = ["will it be sunny tomorrow\n/no_think"] then
    .ok "It will be sunny."
  else .error "down"

/-- The turn goes to the proxy, and one that knows no other answer does as well. -/
theorem processChatTurn_congr_weather :
    (proxied.requestOf declining "c1" { text := "will it be sunny tomorrow" }
        { tools := (), memory := nameReads }).isSome = true ∧
      (proxied.runtime declining).processChatTurn "c1" { text := "will it be sunny tomorrow" }
          { tools := (), memory := nameReads } =
        ({ proxied with respond := answersWeather }.runtime declining).processChatTurn "c1"
          { text := "will it be sunny tomorrow" } { tools := (), memory := nameReads } := by
  have hrequest : proxied.requestOf declining "c1" { text := "will it be sunny tomorrow" }
      { tools := (), memory := nameReads } = some _ := if_pos proxied_escalates
  refine ⟨by rw [hrequest]; rfl, processChatTurn_congr fun request hmem => ?_⟩
  rw [hrequest] at hmem
  obtain rfl := Option.some.inj hmem
  have hasked : (escalateViaPrivacyProxy proxied.classes (proxied.messages declining "c1"
      { text := "will it be sunny tomorrow" } { tools := (), memory := nameReads })
        nameReads).messages.tail.map Message.content =
      ["will it be sunny tomorrow\n/no_think"] := by
    rw [escalateViaPrivacyProxy, head_of_request]
    decide +kernel
  exact (if_pos hasked).symm

/-- A question about the weather takes the name of a member of the household to the proxy. -/
theorem name_forwarded :
    ¬ ∀ (s : Escalating) (v : ChatRuntime Unit MemoryReads) (convId : String)
      (turn : IncomingTurn) (w : ChatWorld Unit MemoryReads),
      (∀ message ∈ v.getRecent (openingWorld convId turn w).rows convId v.maxHistory,
        ∀ entry, Held w.memory entry → eligibleForEscalation entry.kind entry.content = false →
          containsText message.content entry.content = false) →
      ∀ request ∈ s.requestOf v convId turn w, ∀ entry, Held w.memory entry →
        eligibleForEscalation entry.kind entry.content = false →
          ¬ request.Quotes entry.content := by
  intro h
  have hheld : ∀ entry, Held nameReads entry → entry = nameEntry := by
    rintro entry (⟨kind, limit, hentry⟩ | ⟨query, limit, hentry⟩ | ⟨limit, hentry⟩)
    · rw [nameReads, Option.getD_some] at hentry
      split_ifs at hentry with hkind
      · exact List.mem_singleton.mp hentry
      · cases hentry
    · cases hentry
    · exact List.mem_singleton.mp hentry
  refine h proxied declining "c1" { text := "will it be sunny tomorrow" }
    { tools := (), memory := nameReads } ?_ _ (if_pos proxied_escalates) nameEntry
    (.inl ⟨"identity", 5, mem_singleton_self nameEntry⟩) (by decide) ?_
  · intro message hmessage entry hentry _
    obtain rfl := hheld entry hentry
    obtain rfl : message = ⟨"user", "will it be sunny tomorrow"⟩ := List.mem_singleton.mp hmessage
    decide +kernel
  · have hquoted := @content_quoted Unit proxied declining { text := "will it be sunny tomorrow" }
      nameReads [] [] nameEntry (by decide) (by decide +kernel)
    refine .inl ⟨⟨"system", (proxied.tracedPrompt declining { text := "will it be sunny tomorrow" }
      nameReads).text⟩, ?_, hquoted⟩
    rw [escalateViaPrivacyProxy, head_of_request]
    exact mem_cons_self

end GenieClaw.Egress
