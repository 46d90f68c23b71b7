import GenieClaw.Conversation.Store
import GenieClaw.Http.Probe
import GenieClaw.Llm.Request

/-!
# Compacting a chat request

The local runtime takes bodies of 4 KiB. A longer request is compacted: the system messages give
way to a short prompt, the latest message of the user is kept, and the messages before it that
fit, newest first. How much fits is estimated from the lengths of the texts, with a share of the
limit set aside for the rest of the body.

* `size_requestWith_le`: the size of a request without escapes, against the estimate.
* `compactGenieRuntimeMessages_keeps` (no assumption): what is kept of a conversation, and when it
  is within the limit.
-/

namespace GenieClaw.Llm

open Library Library.Text List Option
open Conversation (takeBytes)

def genieRuntimeBodyOverheadBytes : Nat := 512

def genieRuntimeContextMaxBytes : Nat := 900

/-! ## The short prompt -/

def genieRuntimeCompactSystem : String :=
  "You are GenieClaw, a local home AI native to NVIDIA Jetson Orin 8GB. Answer the user's " ++
    "latest request directly and concisely."

def genieRuntimeCompactSystemPrefix : String :=
  "You are GenieClaw, a local home AI native to NVIDIA Jetson Orin 8GB. Reply briefly for " ++
    "voice. Use a tool only when required. Tool calls must be ONLY JSON: " ++
    "\x7b\"tool\":\"tool_name\",\"arguments\":\x7b\x7d\x7d. No markdown."

/-- The names of the tools and the lines about them. -/
def toolSpecs : List (String × String) :=
  [("home_control", "home_control \x7bentity, action, value?\x7d - control safe home " ++
      "devices/scenes"),
   ("home_status", "home_status \x7bentity\x7d - query Home Assistant state"),
   ("home_undo", "home_undo \x7b\x7d - undo last reversible home action"),
   ("action_history", "action_history \x7b\x7d - recent actions/pending confirmations"),
   ("set_timer", "set_timer \x7bseconds, label?\x7d"),
   ("get_time", "get_time \x7b\x7d"),
   ("get_weather", "get_weather \x7blocation, forecast?\x7d"),
   ("web_search", "web_search \x7bquery, limit?, fresh?\x7d"),
   ("system_info", "system_info \x7b\x7d"),
   ("calculate", "calculate \x7bexpression\x7d"),
   ("play_media", "play_media \x7bquery\x7d"),
   ("memory_recall", "memory_recall \x7bquery\x7d"),
   ("memory_status", "memory_status \x7b\x7d"),
   ("memory_forget", "memory_forget \x7bquery\x7d"),
   ("memory_store", "memory_store \x7bcontent, category?\x7d"),
   ("hello_world", "hello_world \x7bname?\x7d - demo greeting only")]

def baseRules : List String :=
  ["If no tool is needed, answer naturally in 1-3 short sentences.",
   "Use calculate for math, get_weather for weather, get_time for time, and system_info for " ++
      "system/Home Assistant/memory diagnostics.",
   "Use memory_recall when the user asks what you remember, what you know about them, or " ++
      "asks for their name.",
   "Use memory_store only when explicitly asked; never store secrets, access codes, lock " ++
      "combinations, or sensitive locations."]

def truncateUtf8 (text : String) (maxBytes : Nat) : String :=
  if text.utf8ByteSize ≤ maxBytes then text
  else String.ofList ((takeBytes maxBytes text.toList).rdropWhile isWhitespace)

def compactGenieRuntimeToolLines (systemText : String) : List String :=
  (toolSpecs.filter fun spec => containsText systemText spec.1).map fun spec => "- " ++ spec.2

def compactGenieRuntimeRules (systemText : String) : String :=
  let rules := baseRules ++
    (if containsText systemText "web_search" then
      ["Use web_search only for current/recent public facts or explicit web lookup; never send " ++
        "private secrets."] else []) ++
    (if containsText systemText "home_control" then
      ["Use home_control/home_status for smart-home requests; risky actions may require local " ++
        "confirmation."]
    else if containsText systemText "Home control is currently unavailable" then
      ["Home control is unavailable; say Home Assistant is not connected if asked to control a " ++
        "device."] else []) ++
    (if containsText systemText "hello_world" then
      ["Use hello_world only for explicit hello_world demo requests."] else [])
  "Rules:\n- " ++ joinWith "\n- " rules

/-- `str::rfind`, in characters. -/
def rfindText (needle : List Char) : List Char → Option Nat
  | [] => if needle = [] then some 0 else none
  | c :: cs =>
    match rfindText needle cs with
    | some i => some (i + 1)
    | none => if needle.isPrefixOf (c :: cs) then some 0 else none

def contextMarkers : List String :=
  ["Relevant household context:\n", "## Household Context\n"]

/-- The marker whose last occurrence comes last, and behind it the later one of the list. -/
def lastMarker (systemText : String) : Option (Nat × Nat) :=
  (contextMarkers.filterMap fun marker =>
      (rfindText marker.toList systemText.toList).map fun pos => (pos, marker.toList.length)).foldl
    (fun best found =>
      match best with
      | some kept => if kept.1 ≤ found.1 then some found else some kept
      | none => some found) none

def compactHouseholdContext (systemText : String) : Option String := do
  let (markerPos, markerLen) ← lastMarker systemText
  let tail := systemText.toList.drop (markerPos + markerLen)
  let passage := ((splitOnce "\n## ".toList tail).map Prod.fst).getD tail
  let context := joinWith "\n" (((Http.Probe.lines passage).map fun line =>
    trim (String.ofList line)).filter fun line =>
      line ≠ "" ∧ line ≠ "(no household context yet)" ∧ line ≠ "Relevant household context:")
  if context = "" then none else some (truncateUtf8 context genieRuntimeContextMaxBytes)

def compactGenieRuntimeSystem (systemText : String) : String :=
  let toolLines := compactGenieRuntimeToolLines systemText
  joinWith "\n\n" ([genieRuntimeCompactSystemPrefix] ++
    (if toolLines = [] then [] else ["Tools:\n" ++ joinWith "\n" toolLines]) ++
    [compactGenieRuntimeRules systemText] ++
    ((compactHouseholdContext systemText).map ("Household context:\n" ++ ·)).toList)

/-! ## The messages -/

def estimateMessageBytes (message : Message) : Nat :=
  message.role.utf8ByteSize + message.content.utf8ByteSize + 32

def estimateMessagesBytes (messages : List Message) : Nat :=
  (messages.map estimateMessageBytes).sum

def systemText (messages : List Message) : String :=
  joinWith "\n\n" (((messages.filter fun m => m.role = "system").map fun m =>
    trim m.content).filter fun text => text ≠ "")

/-- The system message of the compacted request, if there is any system text. -/
def compactedSystem (messages : List Message) : List Message :=
  if systemText messages = "" then []
  else [⟨"system", compactGenieRuntimeSystem (systemText messages)⟩]

def rposition (p : Message → Bool) : List Message → Option Nat
  | [] => none
  | m :: rest =>
    match rposition p rest with
    | some i => some (i + 1)
    | none => if p m then some 0 else none

def latestIdx (messages : List Message) : Option Nat :=
  (rposition (fun m => m.role = "user") messages).or
    (rposition (fun m => m.role ≠ "system") messages)

/-- The latest message goes to the runtime as one of the user. -/
def latestMessage (messages : List Message) (source : Message) : Message where
  role := "user"
  content := if compactedSystem messages ≠ [] then source.content
    else genieRuntimeCompactSystem ++ "\n\n" ++ source.content

/-- The loop over the messages before the latest one, newest first. -/
def retained (bodyBudget : Nat) : Nat → List Message → List Message
  | _, [] => []
  | estimatedBytes, message :: rest =>
    if bodyBudget < estimatedBytes + estimateMessageBytes message then []
    else message :: retained bodyBudget (estimatedBytes + estimateMessageBytes message) rest

def compactGenieRuntimeMessages (messages : List Message) (maxBodyBytes : Nat) : List Message :=
  let compacted := compactedSystem messages
  match (latestIdx messages).bind fun i => (messages[i]?).map fun source => (i, source) with
  | none => compacted
  | some (i, source) =>
    let latest := latestMessage messages source
    let history := (messages.take i).reverse.filter fun m => m.role ≠ "system"
    compacted ++
      (retained (maxBodyBytes - genieRuntimeBodyOverheadBytes)
        (estimateMessagesBytes compacted + estimateMessageBytes latest) history).reverse ++ [latest]

/-! ## What is kept -/

/-- The messages that are not part of the system text. -/
def nonSystem (messages : List Message) : List Message :=
  messages.filter fun m => m.role ≠ "system"

variable {messages : List Message}

theorem rposition_eq_none {p : Message → Bool} :
    rposition p messages = none ↔ ∀ m ∈ messages, p m = false := by
  induction messages with
  | nil => simp [rposition]
  | cons m rest ih =>
    rw [rposition, forall_mem_cons, ← ih]
    cases hrest : rposition p rest with
    | some i => simp
    | none => cases hm : p m <;> simp

theorem rposition_eq_some {p : Message → Bool} {i : Nat} (h : rposition p messages = some i) :
    ∃ front source back,
      messages = front ++ source :: back ∧ front.length = i ∧ p source = true ∧
        ∀ m ∈ back, p m = false := by
  induction messages generalizing i with
  | nil => cases h
  | cons m rest ih =>
    rw [rposition] at h
    cases hrest : rposition p rest with
    | some j =>
      rw [hrest] at h
      cases h
      obtain ⟨front, source, back, rfl, rfl, hsource, hback⟩ := ih hrest
      exact ⟨m :: front, source, back, rfl, rfl, hsource, hback⟩
    | none =>
      rw [hrest] at h
      dsimp only at h
      split at h
      · rename_i hm
        cases h
        exact ⟨[], m, rest, rfl, rfl, hm, rposition_eq_none.mp hrest⟩
      · cases h

/-- The latest message is the last one of the user, or the last one that is no system text if the
user said nothing. -/
structure Latest (messages front : List Message) (source : Message) (back : List Message) :
    Prop where
  split : messages = front ++ source :: back
  last : (source.role = "user" ∧ ∀ m ∈ back, m.role ≠ "user") ∨
    ((∀ m ∈ messages, m.role ≠ "user") ∧ source.role ≠ "system" ∧ ∀ m ∈ back, m.role = "system")

theorem latestIdx_eq_none : latestIdx messages = none ↔ nonSystem messages = [] := by
  unfold latestIdx nonSystem
  rw [or_eq_none_iff, rposition_eq_none, rposition_eq_none, filter_eq_nil_iff]
  constructor
  · rintro ⟨-, hsystem⟩ m hm
    rw [hsystem m hm]
    exact Bool.false_ne_true
  · intro h
    have hsystem : ∀ m ∈ messages, m.role = "system" := by simpa using h
    refine ⟨fun m hm => ?_, fun m hm => eq_false_of_ne_true (h m hm)⟩
    rw [hsystem m hm]
    decide

theorem latestIdx_eq_some {i : Nat} (h : latestIdx messages = some i) :
    ∃ front source back, Latest messages front source back ∧ front.length = i := by
  unfold latestIdx at h
  rcases Option.or_eq_some_iff.mp h with huser | ⟨hnone, hother⟩
  · obtain ⟨front, source, back, hsplit, hlength, hsource, hback⟩ := rposition_eq_some huser
    exact ⟨front, source, back, ⟨hsplit, .inl ⟨of_decide_eq_true hsource,
      fun m hm => of_decide_eq_false (hback m hm)⟩⟩, hlength⟩
  · obtain ⟨front, source, back, hsplit, hlength, hsource, hback⟩ := rposition_eq_some hother
    refine ⟨front, source, back, ⟨hsplit, .inr ⟨fun m hm => ?_, of_decide_eq_true hsource,
      fun m hm => ?_⟩⟩, hlength⟩
    · exact of_decide_eq_false (rposition_eq_none.mp hnone m hm)
    · exact not_not.mp (of_decide_eq_false (hback m hm))

theorem retained_spec (bodyBudget estimatedBytes : Nat) (history : List Message) :
    ∃ dropped, history = retained bodyBudget estimatedBytes history ++ dropped ∧
      (retained bodyBudget estimatedBytes history = [] ∨
        estimatedBytes + estimateMessagesBytes (retained bodyBudget estimatedBytes history) ≤
          bodyBudget) ∧
      ∀ m rest, dropped = m :: rest →
        bodyBudget < estimatedBytes +
          estimateMessagesBytes (retained bodyBudget estimatedBytes history) +
            estimateMessageBytes m := by
  induction history generalizing estimatedBytes with
  | nil => exact ⟨[], rfl, .inl rfl, fun _ _ h => by cases h⟩
  | cons message history ih =>
    rw [retained]
    split
    · rename_i hlarge
      refine ⟨message :: history, rfl, .inl rfl, ?_⟩
      intro m rest hdropped
      cases hdropped
      simpa [estimateMessagesBytes] using hlarge
    · rename_i hfits
      obtain ⟨dropped, hsplit, hwithin, hnext⟩ := ih (estimatedBytes + estimateMessageBytes message)
      refine ⟨dropped, ?_, .inr ?_, ?_⟩
      · rw [cons_append, ← hsplit]
      · have hcons : estimateMessagesBytes (message :: retained bodyBudget
            (estimatedBytes + estimateMessageBytes message) history) =
            estimateMessageBytes message + estimateMessagesBytes (retained bodyBudget
              (estimatedBytes + estimateMessageBytes message) history) := by
          simp [estimateMessagesBytes]
        rw [hcons]
        rcases hwithin with hnil | hwithin
        · rw [hnil]
          simp only [estimateMessagesBytes, map_nil, sum_nil]
          omega
        · omega
      · intro m rest hdropped
        have hlarge := hnext m rest hdropped
        simp only [estimateMessagesBytes, map_cons, sum_cons] at hlarge ⊢
        omega

/-! ## The compacted request -/

theorem estimateMessagesBytes_append (messages others : List Message) :
    estimateMessagesBytes (messages ++ others) =
      estimateMessagesBytes messages + estimateMessagesBytes others := by
  simp [estimateMessagesBytes]

theorem estimateMessagesBytes_reverse (messages : List Message) :
    estimateMessagesBytes messages.reverse = estimateMessagesBytes messages := by
  unfold estimateMessagesBytes
  rw [map_reverse, sum_reverse]

/-- The request with the latest message alone. -/
def minimalRequest (messages : List Message) (source : Message) : List Message :=
  compactedSystem messages ++ [latestMessage messages source]

/-- The request with what is kept of the messages before the latest one. -/
def requestWith (run messages : List Message) (source : Message) : List Message :=
  compactedSystem messages ++ run ++ [latestMessage messages source]

theorem estimate_requestWith (run messages : List Message) (source : Message) :
    estimateMessagesBytes (requestWith run messages source) =
      estimateMessagesBytes (minimalRequest messages source) + estimateMessagesBytes run := by
  unfold requestWith minimalRequest
  simp only [estimateMessagesBytes_append]
  omega

/-- What is kept of the messages before the latest one: as many as the budget takes, without a
gap. -/
structure KeptRun (messages front : List Message) (source : Message) (maxBodyBytes : Nat)
    (run : List Message) : Prop where
  history : run <:+ nonSystem front
  within : run = [] ∨
    estimateMessagesBytes (requestWith run messages source) + genieRuntimeBodyOverheadBytes ≤
      maxBodyBytes
  longest : ∀ older, older :: run <:+ nonSystem front →
    maxBodyBytes < estimateMessagesBytes (requestWith (older :: run) messages source) +
      genieRuntimeBodyOverheadBytes

theorem keptRun_retained (messages front : List Message) (source : Message) (maxBodyBytes : Nat) :
    KeptRun messages front source maxBodyBytes
      (retained (maxBodyBytes - genieRuntimeBodyOverheadBytes)
        (estimateMessagesBytes (compactedSystem messages) +
          estimateMessageBytes (latestMessage messages source))
        (nonSystem front).reverse).reverse := by
  obtain ⟨dropped, hsplit, hwithin, hnext⟩ :=
    retained_spec (maxBodyBytes - genieRuntimeBodyOverheadBytes)
      (estimateMessagesBytes (compactedSystem messages) +
        estimateMessageBytes (latestMessage messages source)) (nonSystem front).reverse
  have hminimal : estimateMessagesBytes (compactedSystem messages) +
      estimateMessageBytes (latestMessage messages source) =
        estimateMessagesBytes (minimalRequest messages source) := by
    rw [minimalRequest, estimateMessagesBytes_append]
    rfl
  have hpositive : 0 < estimateMessagesBytes (minimalRequest messages source) := by
    rw [← hminimal]
    unfold estimateMessageBytes
    omega
  rw [hminimal] at hsplit hwithin hnext ⊢
  generalize hkept : retained (maxBodyBytes - genieRuntimeBodyOverheadBytes)
    (estimateMessagesBytes (minimalRequest messages source)) (nonSystem front).reverse = kept
    at hsplit hwithin hnext ⊢
  have hfront : nonSystem front = dropped.reverse ++ kept.reverse := by
    rw [← reverse_append, ← hsplit, reverse_reverse]
  refine ⟨⟨dropped.reverse, hfront.symm⟩, ?_, ?_⟩
  · rw [estimate_requestWith, estimateMessagesBytes_reverse, reverse_eq_nil_iff]
    rcases hwithin with hnil | hwithin
    · exact .inl hnil
    · right
      omega
  · intro older holder
    -- The older message is the newest of those that are dropped.
    obtain ⟨oldest, holdest⟩ := holder
    have hdropped : dropped = older :: oldest.reverse := by
      have hsame : oldest ++ [older] = dropped.reverse := by
        have hends : oldest ++ [older] ++ kept.reverse = dropped.reverse ++ kept.reverse := by
          rw [append_assoc, singleton_append, holdest, hfront]
        exact append_cancel_right hends
      rw [← reverse_reverse dropped, ← hsame]
      simp
    have hlarge := hnext older oldest.reverse hdropped
    rw [estimate_requestWith, ← singleton_append, estimateMessagesBytes_append,
      estimateMessagesBytes_reverse]
    have hone : estimateMessagesBytes [older] = estimateMessageBytes older := rfl
    omega

theorem fieldsBehind_congr (sha256Hex : String → String) (floatText : F64 → String)
    (profile : RequestProfile) (options : RequestOptions) {messages others : List Message}
    (h : (messages.find? fun m => m.role = "system") = others.find? fun m => m.role = "system") :
    fieldsBehind sha256Hex floatText profile options messages =
      fieldsBehind sha256Hex floatText profile options others := by
  have hcache : systemPromptPrefixCache sha256Hex messages =
      systemPromptPrefixCache sha256Hex others := by
    unfold systemPromptPrefixCache
    rw [h]
  have hnvext : profile.nvext sha256Hex messages options.hints =
      profile.nvext sha256Hex others options.hints := by
    cases profile with
    | generic _ => rfl
    | genieAiRuntime =>
      show buildNvext sha256Hex messages options.hints = buildNvext sha256Hex others options.hints
      unfold buildNvext
      rw [hcache]
  unfold fieldsBehind
  rw [hnvext]

theorem find?_system_requestWith {run : List Message} (hrun : ∀ m ∈ run, m.role ≠ "system")
    (messages : List Message) (source : Message) :
    ((requestWith run messages source).find? fun m => m.role = "system") =
      (minimalRequest messages source).find? fun m => m.role = "system" := by
  unfold requestWith minimalRequest
  have hnone : (run.find? fun m => m.role = "system") = none :=
    List.find?_eq_none.mpr fun m hm => by simpa using hrun m hm
  simp only [find?_append, hnone, or_none]

/-- With messages of which nothing is escaped, a request takes no more than their estimate beyond
the one without them. -/
theorem size_requestWith_le (sha256Hex : String → String) (floatText : F64 → String)
    (profile : RequestProfile) (options : RequestOptions) (messages : List Message)
    (source : Message) {run : List Message} (hsystem : ∀ m ∈ run, m.role ≠ "system")
    (hplain : ∀ m ∈ run, m.Unescaped) :
    (serializeBody sha256Hex floatText profile options
        (requestWith run messages source)).utf8ByteSize ≤
      (serializeBody sha256Hex floatText profile options
        (minimalRequest messages source)).utf8ByteSize + estimateMessagesBytes run := by
  have hsize := size_serializeBody sha256Hex floatText profile options
    (show requestWith run messages source ≠ [] by simp [requestWith])
    (show minimalRequest messages source ≠ [] by simp [minimalRequest])
    (fieldsBehind_congr sha256Hex floatText profile options
      (find?_system_requestWith hsystem messages source))
  have hwritten : (run.map fun m => m.write.utf8ByteSize + 1).sum ≤ estimateMessagesBytes run := by
    refine sum_le_sum fun m hm => ?_
    rw [(hplain m hm).size_write, estimateMessageBytes]
    omega
  unfold requestWith minimalRequest at hsize ⊢
  simp only [map_append, sum_append] at hsize
  omega

theorem compactGenieRuntimeMessages_eq {messages front back : List Message} {source : Message}
    (h : latestIdx messages = some front.length) (hsplit : messages = front ++ source :: back)
    (maxBodyBytes : Nat) :
    ∃ run, KeptRun messages front source maxBodyBytes run ∧
      compactGenieRuntimeMessages messages maxBodyBytes = requestWith run messages source := by
  have hget : messages[front.length]? = some source := by
    rw [hsplit]
    simp
  have htake : messages.take front.length = front := by
    rw [hsplit]
    simp
  refine ⟨_, keptRun_retained messages front source maxBodyBytes, ?_⟩
  unfold compactGenieRuntimeMessages requestWith
  rw [h, bind_some, hget, map_some]
  dsimp only
  rw [htake, filter_reverse]
  rfl

/-- What becomes of a conversation. Without a message but those of the system nothing is left but
the short prompt. Otherwise the latest message of the user stands last, behind it nothing is kept,
and before it the longest run of messages that the estimate allows. The body is within the limit
if that of the latest message alone is, the rest of it takes no more than its share, and nothing
in the run is escaped. -/
theorem compactGenieRuntimeMessages_keeps (messages : List Message) (maxBodyBytes : Nat) :
    (nonSystem messages = [] ∧
      compactGenieRuntimeMessages messages maxBodyBytes = compactedSystem messages) ∨
    ∃ front source back run, Latest messages front source back ∧
      KeptRun messages front source maxBodyBytes run ∧
      compactGenieRuntimeMessages messages maxBodyBytes = requestWith run messages source ∧
      ∀ sha256Hex floatText profile options,
        (serializeBody sha256Hex floatText profile options
          (minimalRequest messages source)).utf8ByteSize ≤ maxBodyBytes →
        (serializeBody sha256Hex floatText profile options
          (minimalRequest messages source)).utf8ByteSize ≤
            estimateMessagesBytes (minimalRequest messages source) +
              genieRuntimeBodyOverheadBytes →
        (∀ m ∈ run, m.Unescaped) →
        (serializeBody sha256Hex floatText profile options
          (compactGenieRuntimeMessages messages maxBodyBytes)).utf8ByteSize ≤ maxBodyBytes := by
  cases hlatest : latestIdx messages with
  | none =>
    refine .inl ⟨latestIdx_eq_none.mp hlatest, ?_⟩
    unfold compactGenieRuntimeMessages
    rw [hlatest]
    rfl
  | some i =>
    obtain ⟨front, source, back, hsource, rfl⟩ := latestIdx_eq_some hlatest
    obtain ⟨run, hrun, houtput⟩ := compactGenieRuntimeMessages_eq hlatest hsource.split maxBodyBytes
    refine .inr ⟨front, source, back, run, hsource, hrun, houtput, ?_⟩
    intro sha256Hex floatText profile options hminimal hshare hplain
    have hsystem : ∀ m ∈ run, m.role ≠ "system" := by
      intro m hm
      have hfront := List.mem_filter.mp (hrun.history.subset hm)
      exact of_decide_eq_true hfront.2
    have hsize := size_requestWith_le sha256Hex floatText profile options messages source hsystem
      hplain
    rw [houtput]
    rcases hrun.within with rfl | hwithin
    · have hnone : estimateMessagesBytes [] = 0 := rfl
      omega
    · rw [estimate_requestWith] at hwithin
      omega

theorem size_flatMap_replicate (f : Char → List Char) (c : Char) (n : Nat) :
    (String.ofList ((List.replicate n c).flatMap f)).utf8ByteSize =
      n * (String.ofList (f c)).utf8ByteSize := by
  induction n with
  | zero => simp
  | succ n ih =>
    rw [replicate_succ, flatMap_cons, String.ofList_append, String.utf8ByteSize_append,
      ih, Nat.succ_mul, Nat.add_comm]

/-- A text of control characters. -/
def controlText (n : Nat) : String := String.ofList (List.replicate n '\x01')

theorem size_controlText (n : Nat) :
    (controlText n).utf8ByteSize = n ∧ (jsonString (controlText n)).utf8ByteSize = 6 * n + 2 := by
  have hone : (String.ofList (List.singleton '\x01')).utf8ByteSize = 1 ∧
      (String.ofList (Json.escapeChar '\x01')).utf8ByteSize = 6 ∧ "\"".utf8ByteSize = 1 := by decide
  constructor
  · have hsize := size_flatMap_replicate List.singleton '\x01' n
    rw [hone.1, Nat.mul_one] at hsize
    rw [controlText, ← flatMap_singleton' (List.replicate n '\x01')]
    exact hsize
  · have hsize := size_flatMap_replicate Json.escapeChar '\x01' n
    rw [hone.2.1] at hsize
    have hwritten : jsonString (controlText n) =
        "\"" ++ String.ofList ((List.replicate n '\x01').flatMap Json.escapeChar) ++ "\"" := by
      refine String.toList_inj.mp ?_
      rw [jsonString, Json.writeString, controlText, String.toList_ofList, String.toList_ofList,
        String.toList_append, String.toList_append, String.toList_ofList]
      simp
    rw [hwritten, String.utf8ByteSize_append, String.utf8ByteSize_append, hsize, hone.2.2]
    omega

/-- The answer to the only message of the user is dropped, and a history of control characters
outgrows its estimate. -/
theorem compactGenieRuntimeMessages_unfaithful :
    (¬ ∀ messages maxBodyBytes, ∃ run, run <:+ nonSystem messages ∧
      compactGenieRuntimeMessages messages maxBodyBytes = compactedSystem messages ++ run) ∧
    ¬ ∀ sha256Hex floatText profile options messages front source back maxBodyBytes,
      Latest messages front source back →
      (serializeBody sha256Hex floatText profile options
        (minimalRequest messages source)).utf8ByteSize ≤ maxBodyBytes →
      (serializeBody sha256Hex floatText profile options
        (compactGenieRuntimeMessages messages maxBodyBytes)).utf8ByteSize ≤ maxBodyBytes := by
  constructor
  · intro h
    let messages : List Message := [⟨"system", "s"⟩, ⟨"user", "a"⟩, ⟨"assistant", "b"⟩]
    obtain ⟨run, ⟨older, hrun⟩, houtput⟩ := h messages 4096
    have hlatest : latestIdx messages = some ([⟨"system", "s"⟩] : List Message).length := rfl
    have hsplit : messages = [⟨"system", "s"⟩] ++ ⟨"user", "a"⟩ :: [⟨"assistant", "b"⟩] := rfl
    obtain ⟨kept, -, hkept⟩ := compactGenieRuntimeMessages_eq hlatest hsplit 4096
    rw [hkept, requestWith] at houtput
    cases hlast : run.getLast? with
    | none =>
      -- The output has the latest message at least.
      have hlength := congrArg List.length houtput
      rw [List.getLast?_eq_none_iff.mp hlast] at hlength
      simp only [length_append, length_singleton, length_nil] at hlength
      omega
    | some newest =>
      have hnewest := congrArg List.getLast? hrun
      rw [getLast?_append, hlast] at hnewest
      have hanswer : newest = ⟨"assistant", "b"⟩ := Option.some.inj hnewest
      have hsame := congrArg List.getLast? houtput
      simp only [getLast?_append, hlast, hanswer] at hsame
      have hrole := congrArg Message.role (Option.some.inj hsame)
      revert hrole
      decide
  · intro h
    let history : Message := ⟨"user", controlText 200⟩
    let source : Message := ⟨"user", "a"⟩
    let size := fun messages => (serializeBody (fun _ => "") (fun _ => "") .genieAiRuntime
      ⟨none, false, none, none⟩ messages).utf8ByteSize
    have hlarge := h (fun _ => "") (fun _ => "") .genieAiRuntime ⟨none, false, none, none⟩
      [history, source] [history] source [] (size (minimalRequest [history, source] source) + 1228)
      ⟨rfl, .inl ⟨rfl, fun _ hm => by cases hm⟩⟩ (Nat.le_add_right _ _)
    have hlatest : latestIdx [history, source] = some [history].length := rfl
    have hsplit : [history, source] = [history] ++ source :: [] := rfl
    obtain ⟨run, hrun, houtput⟩ := compactGenieRuntimeMessages_eq hlatest hsplit
      (size (minimalRequest [history, source] source) + 1228)
    have hsystem : compactedSystem [history, source] = [] := rfl
    have hminimal : estimateMessagesBytes (minimalRequest [history, source] source) ≤ 170 := by
      have hprompt : genieRuntimeCompactSystem.utf8ByteSize ≤ 130 := by decide +kernel
      have hrest : "user".utf8ByteSize = 4 ∧ "\n\n".utf8ByteSize = 2 ∧ "a".utf8ByteSize = 1 := by
        decide
      simp only [minimalRequest, hsystem, latestMessage, nil_append, estimateMessagesBytes,
        map_cons, map_nil, sum_cons, sum_nil, estimateMessageBytes, ne_eq,
        not_true_eq_false, if_false, String.utf8ByteSize_append, hrest, source]
      omega
    have hwritten : history.write.utf8ByteSize = 1228 := by
      have hrole : (jsonString "user").utf8ByteSize = 6 := by decide
      rw [history.size_write, (size_controlText 200).2, hrole]
    have hhistory : estimateMessagesBytes [history] = 236 := by
      have hrole : "user".utf8ByteSize = 4 := by decide
      simp [estimateMessagesBytes, estimateMessageBytes, history, (size_controlText 200).1, hrole]
    have hsize := size_serializeBody (fun _ => "") (fun _ => "") .genieAiRuntime
      ⟨none, false, none, none⟩
      (show requestWith [history] [history, source] source ≠ [] by simp [requestWith])
      (show minimalRequest [history, source] source ≠ [] by simp [minimalRequest])
      (fieldsBehind_congr _ _ _ _ (find?_system_requestWith (by simp [history]) _ _))
    have hkept : run = [history] := by
      rcases List.suffix_cons_iff.mp hrun.history with h | h
      · exact h
      · -- Room for the control characters is left.
        have hnone : run = [] := List.suffix_nil.mp h
        have hroom := hrun.longest history (by rw [hnone]; exact suffix_refl _)
        rw [hnone, estimate_requestWith, hhistory, genieRuntimeBodyOverheadBytes] at hroom
        omega
    rw [houtput, hkept] at hlarge
    simp only [requestWith, minimalRequest, hsystem, nil_append, map_append,
      map_cons, map_nil, sum_append, sum_cons, sum_nil, hwritten, size]
      at hsize hlarge
    omega

end GenieClaw.Llm
