import GenieClaw.Server.ChatTurns

/-!
# A streamed turn is the turn

With a client that stays and a model that answers, the streaming handler does to the world
what the other handler does, and its last event is the other's response. The two run side by
side: the events in between end no turn, and every statement on the world is the same on both
sides.

* `chat_turn_agrees` (the client stays, the model answers, nothing goes to the proxy): the two turns
  agree.
-/

namespace GenieClaw.Server

open Library Library.Text Dispatch GenieClaw.Parser List
open Conversation (MessageRow)

/-- The response a client is given when the turn is done. -/
def StreamEvent.result : StreamEvent → Option ChatTurnResult
  | .done response tool convId => some ⟨response, tool, convId⟩
  | _ => none

/-- The same effects, and a `done` event exactly where there is a response. -/
structure Agrees {T M : Type} (answered : Except String ChatTurnResult × ChatWorld T M)
    (streamed : ChatConnection T M) : Prop where
  effects : ChatWorld.SameEffects streamed.world answered.2
  done : streamed.events.filterMap StreamEvent.result = answered.1.toOption.toList

namespace ChatRuntime

variable {T M : Type} (v : ChatRuntime T M) {client : Nat → Bool} {convId response : String}
  {turn : IncomingTurn} {call : ToolCall} {ctx : ToolExecutionContext}

/-! ## Side by side -/

/-- The same world, and no `done` event yet. -/
structure Mirrors (c : ChatConnection T M) (w : ChatWorld T M) : Prop where
  world : c.world = w
  open_ : c.events.filterMap StreamEvent.result = []

/-- The same world, and the one `done` event. -/
structure Finished (result : ChatTurnResult) (c : ChatConnection T M) (w : ChatWorld T M) :
    Prop where
  world : c.world = w
  done : c.events.filterMap StreamEvent.result = [result]

variable {w : ChatWorld T M}

theorem Finished.agrees {result : ChatTurnResult} {c : ChatConnection T M}
    (h : Finished result c w) : Agrees (.ok result, w) c := by
  obtain ⟨rfl, hdone⟩ := h
  exact ⟨⟨rfl, rfl, rfl⟩, hdone⟩

theorem writeStreamEvent_ok (hclient : ∀ n, client n = true) (event : StreamEvent)
    (c : ChatConnection T M) :
    writeStreamEvent client event c =
      (.ok (), { c with events := c.events ++ [event], writes := c.writes + 1 }) := by
  rw [writeStreamEvent, if_pos (hclient _)]

theorem Mirrors.write (hclient : ∀ n, client n = true) {event : StreamEvent}
    (hevent : event.result = none) :
    Program.Related (Mirrors (T := T) (M := M)) (writeStreamEvent client event) (pure ())
      (fun _ _ => Mirrors) := by
  intro c w h
  refine ⟨(), (), _, w, writeStreamEvent_ok hclient event c, rfl, h.world, ?_⟩
  rw [filterMap_append, filterMap_cons_none hevent, filterMap_nil, append_nil]
  exact h.open_

theorem Mirrors.finish (hclient : ∀ n, client n = true) (response : String) (tool : Option String)
    (convId : String) :
    Program.Related (Mirrors (T := T) (M := M))
      (writeStreamEvent client (.done response tool convId))
      (pure (⟨response, tool, convId⟩ : ChatTurnResult)) (fun _ => Finished) := by
  intro c w h
  refine ⟨(), _, _, w, writeStreamEvent_ok hclient _ c, rfl, h.world, ?_⟩
  rw [filterMap_append, h.open_]
  rfl

theorem Mirrors.onWorld {α : Type} {p : Program (ChatWorld T M) String α} (hp : p.Returns) :
    Program.Related Mirrors (onWorld p) p (fun a b c w => a = b ∧ Mirrors c w) := by
  intro c w h
  obtain ⟨a, w', hrun⟩ := hp w
  refine ⟨a, a, { c with world := w' }, w', ?_, hrun, rfl, rfl, h.open_⟩
  rw [ChatRuntime.onWorld, h.world, hrun]

theorem Mirrors.forwardTokens (hclient : ∀ n, client n = true) (tokens : List String)
    (state : StreamState) :
    Program.Related (Mirrors (T := T) (M := M)) (forwardTokens client tokens state) (pure ())
      (fun _ _ => Mirrors) := by
  induction tokens generalizing state with
  | nil => exact .pure fun _ _ h => h
  | cons token rest ih =>
    rw [ChatRuntime.forwardTokens]
    rcases consumeToken state token with ⟨_ | content, state₁⟩
    · exact ih state₁
    · exact .bind_left (Mirrors.write hclient rfl) fun _ => ih state₁

/-! ## What cannot fail -/

theorem append_returns (row : MessageRow) : (append row : Program (ChatWorld T M) _ _).Returns :=
  fun _ => ⟨_, _, rfl⟩

theorem execute_returns (call : ToolCall) (ctx : ToolExecutionContext) :
    (v.execute call ctx).Returns :=
  fun _ => ⟨_, _, rfl⟩

theorem capture_returns (text : String) : (v.capture text).Returns := fun _ => ⟨_, _, rfl⟩

theorem finalizeDirectToolTurn_returns (convId : String) (call : ToolCall) (result : ToolResult) :
    (v.finalizeDirectToolTurn convId call result).Returns :=
  fun _ => ⟨_, _, rfl⟩

theorem summarize_returns (convId : String) (result : ToolResult) :
    (v.summarize convId result).Returns := by
  intro w
  unfold summarize
  split
  · split
    · exact ⟨_, _, rfl⟩
    · exact ⟨_, _, rfl⟩
  · exact ⟨_, _, rfl⟩

theorem finalizeToolTurn_returns (convId response : String) (result : ToolResult) :
    (v.finalizeToolTurn convId response result).Returns := by
  unfold finalizeToolTurn
  refine .bind (append_returns _) fun _ => .bind (append_returns _) fun _ => ?_
  refine .bind (v.summarize_returns convId result) fun _ => ?_
  exact .bind (append_returns _) fun _ => .pure _

/-! ## The quick turn -/

theorem quickTurn_related (hclient : ∀ n, client n = true) (convId : String)
    (turn : IncomingTurn) (call : ToolCall) :
    Program.Related Mirrors (v.streamQuickTurn client convId turn call)
      (v.quickTurn convId turn call) (fun _ => Finished) := by
  unfold streamQuickTurn quickTurn
  refine .bind_left (Mirrors.write hclient rfl) fun _ => ?_
  refine .bind_left (Mirrors.write hclient rfl) fun _ => ?_
  refine .bind_same (Mirrors.onWorld (v.execute_returns call turn.toolContext)) fun result => ?_
  refine .bind_same (Mirrors.onWorld (v.finalizeDirectToolTurn_returns convId call result)) ?_
  intro response
  refine .bind_left (Mirrors.write hclient rfl) fun _ => ?_
  refine .bind_same (Mirrors.onWorld (v.capture_returns turn.text)) fun _ => ?_
  exact Mirrors.finish hclient response (some result.tool) convId

/-! ## The model's turn -/

theorem toolAnswer_related (hclient : ∀ n, client n = true) (llmResponse : String)
    (call : ToolCall) (state : StreamState) :
    Program.Related Mirrors (v.streamToolAnswer client convId llmResponse call ctx state)
      (do
        let result ← v.execute call ctx
        let summary ← v.finalizeToolTurn convId llmResponse result
        return (summary, some result.tool))
      (fun a b c w => a = b ∧ Mirrors c w) := by
  unfold streamToolAnswer
  refine .bind_same (Mirrors.onWorld (v.execute_returns call ctx)) fun result => ?_
  refine .bind_same (Mirrors.onWorld (v.finalizeToolTurn_returns convId llmResponse result)) ?_
  intro summary
  by_cases hemitted : state.emittedText = true
  · rw [if_pos hemitted]
    exact .pure fun _ _ h => ⟨rfl, h⟩
  · rw [if_neg hemitted]
    refine .bind_left (Mirrors.write hclient rfl) fun _ => ?_
    exact .pure fun _ _ h => ⟨rfl, h⟩

theorem answer_related (hclient : ∀ n, client n = true) (llmResponse : String)
    (state : StreamState) :
    Program.Related Mirrors (v.streamAnswer client convId llmResponse ctx state)
      (v.answer convId llmResponse ctx) (fun a b c w => a = b ∧ Mirrors c w) := by
  unfold streamAnswer answer
  rcases tryToolCall v.fromStr v.isKnownTool llmResponse with _ | call
  · refine .bind_left (R := fun _ => Mirrors) ?_ fun _ => ?_
    · rcases flushPending false state with _ | pending
      · exact .pure fun _ _ h => h
      · exact Mirrors.write hclient rfl
    · refine .bind_same (Mirrors.onWorld (append_returns _)) fun _ => ?_
      exact .pure fun _ _ h => ⟨rfl, h⟩
  · exact v.toolAnswer_related hclient llmResponse call state

theorem reply_related (hclient : ∀ n, client n = true) (hready : v.gateBlocked = none)
    (hreply : ∀ n messages, (v.reply n messages).error = none) (messages : List Message) :
    Program.Related Mirrors (v.streamReply client messages) (v.complete messages)
      (fun a b c w => a.1 = b ∧ Mirrors c w) := by
  rintro c w ⟨rfl, hopen⟩
  have hcompletion : (v.reply c.world.asked messages).completion =
      .ok (v.reply c.world.asked messages).text := by
    rw [Reply.completion, hreply]
  have hstart : Mirrors { c with world := { c.world with asked := c.world.asked + 1 } }
      { c.world with asked := c.world.asked + 1 } := ⟨rfl, hopen⟩
  obtain ⟨state, _, c', w', hforward, hstay, hafter⟩ :=
    Mirrors.forwardTokens hclient (v.reply c.world.asked messages).tokens {} _ _ hstart
  obtain ⟨-, rfl⟩ := Prod.mk.inj hstay
  refine ⟨((v.reply c.world.asked messages).text, state), _, c', _, ?_, ?_, rfl, hafter⟩
  · unfold streamReply
    dsimp only
    rw [hforward]
    dsimp only
    rw [hcompletion]
    rfl
  · unfold complete
    rw [hready, hcompletion]

/-! ## Without an escalation -/

theorem complete_escalated (messages : List Message) (w : ChatWorld T M) :
    (v.complete messages w).2.escalated = w.escalated := by
  unfold complete
  split
  · rfl
  · rfl

theorem escalate_escalated (reason : EscalationReason) (messages : List Message)
    (w : ChatWorld T M) :
    (v.escalate reason messages w).2.escalated = w.escalated + 1 := rfl

theorem completeOrEscalate_local {messages : List Message}
    (h : (v.completeOrEscalate messages w).2.escalated ≤ w.escalated) :
    v.completeOrEscalate messages w = v.complete messages w := by
  unfold completeOrEscalate at h ⊢
  have hcomplete := v.complete_escalated messages w
  by_cases hoverflow : contextOverflowed messages ∧ v.mayEscalate .contextOverflow
  · have hsent := v.escalate_escalated .contextOverflow messages w
    rw [if_pos hoverflow] at h
    rcases hproxy : v.escalate .contextOverflow messages w with ⟨_ | response, w₁⟩
    · have hlater := v.complete_escalated messages w₁
      rw [hproxy] at h hsent
      dsimp only at h hsent
      omega
    · rw [hproxy] at h hsent
      dsimp only at h hsent
      omega
  · rw [if_neg hoverflow] at h ⊢
    rcases hrun : v.complete messages w with ⟨declined | response, w₁⟩
    · rw [hrun] at h hcomplete
      have hsent := v.escalate_escalated .localDecline messages w₁
      by_cases hmay : v.mayEscalate .localDecline = true
      · simp only [hmay, if_true] at h
        rcases hproxy : v.escalate .localDecline messages w₁ with ⟨_ | response, w₂⟩
        · rw [hproxy] at h hsent
          dsimp only at h hsent hcomplete
          omega
        · rw [hproxy] at h hsent
          dsimp only at h hsent hcomplete
          omega
      · simp only [hmay, Bool.false_eq_true, if_false]
    · rfl

/-- The requests to the proxy are only ever counted up. -/
def CountsUp {α : Type} (p : Program (ChatWorld T M) String α) : Prop :=
  ∀ w, w.escalated ≤ (p w).2.escalated

theorem CountsUp.pure {α : Type} (a : α) : CountsUp (pure a : Program (ChatWorld T M) String α) :=
  fun _ => le_rfl

theorem CountsUp.bind {α β : Type} {p : Program (ChatWorld T M) String α}
    {f : α → Program (ChatWorld T M) String β} (hp : CountsUp p) (hf : ∀ a, CountsUp (f a)) :
    CountsUp (p >>= f) := by
  intro w
  have hfirst := hp w
  rcases hrun : p w with ⟨e | a, w₁⟩
  · rw [hrun] at hfirst
    rw [Program.bind_apply_error hrun]
    exact hfirst
  · rw [hrun] at hfirst
    rw [Program.bind_apply_ok hrun]
    exact le_trans hfirst (hf a w₁)

theorem append_countsUp (row : MessageRow) :
    CountsUp (append row : Program (ChatWorld T M) String Unit) :=
  fun _ => le_rfl

theorem execute_countsUp (call : ToolCall) (ctx : ToolExecutionContext) :
    CountsUp (v.execute call ctx) :=
  fun _ => le_rfl

theorem capture_countsUp (text : String) : CountsUp (v.capture text) := fun _ => le_rfl

theorem summarize_countsUp (convId : String) (result : ToolResult) :
    CountsUp (v.summarize convId result) := by
  intro w
  have hcomplete := v.complete_escalated (v.summaryMessages convId w) w
  unfold summarize
  split
  · split
    · rename_i hrun
      rw [hrun] at hcomplete
      exact hcomplete.ge
    · rename_i hrun
      rw [hrun] at hcomplete
      exact hcomplete.ge
  · exact le_rfl

theorem finalizeToolTurn_countsUp (convId response : String) (result : ToolResult) :
    CountsUp (v.finalizeToolTurn convId response result) := by
  unfold finalizeToolTurn
  refine .bind (append_countsUp _) fun _ => .bind (append_countsUp _) fun _ => ?_
  refine .bind (v.summarize_countsUp convId result) fun _ => ?_
  exact .bind (append_countsUp _) fun _ => .pure _

theorem answer_countsUp (llmResponse : String) : CountsUp (v.answer convId llmResponse ctx) := by
  unfold answer
  split
  · refine .bind (v.execute_countsUp _ _) fun result => ?_
    exact .bind (v.finalizeToolTurn_countsUp convId llmResponse result) fun _ => .pure _
  · exact .bind (append_countsUp _) fun _ => .pure _

theorem modelTurn_local (h : (v.modelTurn convId turn w).2.escalated ≤ w.escalated) :
    v.completeOrEscalate (v.turnMessages convId turn w) w =
      v.complete (v.turnMessages convId turn w) w := by
  refine v.completeOrEscalate_local (le_trans ?_ h)
  have hmessages : v.buildMessages convId turn w = (.ok (v.turnMessages convId turn w), w) := rfl
  unfold modelTurn
  rw [Program.bind_apply_ok hmessages]
  rcases hrun : v.completeOrEscalate (v.turnMessages convId turn w) w with ⟨_ | llmResponse, w₁⟩
  · rw [Program.bind_apply_error hrun]
  · rw [Program.bind_apply_ok hrun]
    refine CountsUp.bind (v.answer_countsUp llmResponse) (fun answered => ?_) w₁
    exact .bind (v.capture_countsUp turn.text) fun _ => .pure _

/-! ## A whole turn -/

theorem buildMessages_related (w : ChatWorld T M) :
    Program.Related (fun c w' => Mirrors c w' ∧ w' = w)
      (onWorld (v.buildMessages convId turn)) (v.buildMessages convId turn)
      (fun a b c w' => a = b ∧ Mirrors c w' ∧ w' = w ∧ a = v.turnMessages convId turn w) := by
  rintro c _ ⟨⟨rfl, hopen⟩, rfl⟩
  exact ⟨_, _, c, _, rfl, rfl, rfl, ⟨rfl, hopen⟩, rfl, rfl⟩

theorem modelTurn_related (hclient : ∀ n, client n = true) (hready : v.gateBlocked = none)
    (hreply : ∀ n messages, (v.reply n messages).error = none) (w : ChatWorld T M)
    (hlocal : v.completeOrEscalate (v.turnMessages convId turn w) w =
      v.complete (v.turnMessages convId turn w) w) :
    Program.Related (fun c w' => Mirrors c w' ∧ w' = w) (v.streamModelTurn client convId turn)
      (v.modelTurn convId turn) (fun _ => Finished) := by
  unfold streamModelTurn modelTurn
  refine .bind_same (v.buildMessages_related w) fun messages => ?_
  refine .bind_left (Mirrors.write hclient rfl).frame fun _ => ?_
  refine .bind_left (Mirrors.write hclient rfl).frame fun _ => ?_
  refine .bind (R := fun a b c w' => a.1 = b ∧ Mirrors c w') ?_ fun replied llmResponse => ?_
  · rintro c w' ⟨h, rfl, rfl⟩
    obtain ⟨a, b, c', w'', hstream, hcomplete, hafter⟩ :=
      v.reply_related hclient hready hreply _ c w' h
    exact ⟨a, b, c', w'', hstream, hlocal.trans hcomplete, hafter⟩
  · rintro c w' ⟨rfl, h⟩
    refine Program.Related.bind_same (v.answer_related hclient replied.1 replied.2) ?_ c w' h
    rintro ⟨response, tool⟩
    refine .bind_same (Mirrors.onWorld (v.capture_returns turn.text)) fun _ => ?_
    exact Mirrors.finish hclient response tool convId

theorem modelTurn_blocked {reasons : String} (hblocked : v.gateBlocked = some reasons)
    (h : (v.modelTurn convId turn w).2.escalated ≤ w.escalated) :
    v.modelTurn convId turn w = (.error reasons, w) := by
  have hmessages : v.buildMessages convId turn w = (.ok (v.turnMessages convId turn w), w) := rfl
  have hfails : v.complete (v.turnMessages convId turn w) w = (.error reasons, w) := by
    rw [complete, hblocked]
  have hlocal := (v.modelTurn_local h).trans hfails
  unfold modelTurn
  rw [Program.bind_apply_ok hmessages, Program.bind_apply_error hlocal]

theorem streamBlocked_apply (hclient : ∀ n, client n = true) (reasons : String)
    (c : ChatConnection T M) :
    ∃ c', streamBlocked client reasons c = (.ok (), c') ∧ c'.world = c.world ∧
      c'.events.filterMap StreamEvent.result = c.events.filterMap StreamEvent.result := by
  unfold streamBlocked
  rw [Program.bind_apply_ok (writeStreamEvent_ok hclient _ c), writeStreamEvent_ok hclient]
  refine ⟨_, rfl, rfl, ?_⟩
  rw [filterMap_append, filterMap_append, append_assoc]
  exact append_nil _

/-- The client is there to the end, the model answers every request, and no request goes to
the proxy. -/
theorem chat_turn_agrees (client : Nat → Bool) (convId : String) (turn : IncomingTurn)
    (w : ChatWorld T M) (hclient : ∀ n, client n = true)
    (hreply : ∀ n messages, (v.reply n messages).error = none)
    (hlocal : (v.processChatTurn convId turn w).2.escalated = w.escalated) :
    Agrees (v.processChatTurn convId turn w)
      (v.handleChatStream client convId turn { world := w }).2 := by
  obtain ⟨w₁, hrow, hsame⟩ : ∃ w₁, appendUser convId turn w = (.ok (), w₁) ∧
      w₁.escalated = w.escalated := ⟨_, rfl, rfl⟩
  have hstream : onWorld (appendUser convId turn) ({ world := w } : ChatConnection T M) =
      (.ok (), { world := w₁ }) := by
    rw [onWorld, hrow]
  have hmirrors : Mirrors ({ world := w₁ } : ChatConnection T M) w₁ := ⟨rfl, rfl⟩
  unfold processChatTurn at hlocal ⊢
  unfold handleChatStream
  rw [Program.bind_apply_ok hrow] at hlocal ⊢
  rw [Program.bind_apply_ok hstream]
  rcases hroute : v.quickRoute turn with _ | call
  · rw [hroute] at hlocal
    dsimp only at hlocal
    have hturn : (v.modelTurn convId turn w₁).2.escalated ≤ w₁.escalated :=
      (hlocal.trans hsame.symm).le
    rcases hgate : v.gateBlocked with _ | reasons
    · obtain ⟨_, result, c, w₂, hleft, hright, hfinished⟩ :=
        v.modelTurn_related hclient hgate hreply w₁ (v.modelTurn_local hturn) _ w₁
          ⟨hmirrors, rfl⟩
      dsimp only
      rw [hright, hleft]
      exact hfinished.agrees
    · obtain ⟨c, hleft, hworld, hdone⟩ :=
        streamBlocked_apply hclient reasons ({ world := w₁ } : ChatConnection T M)
      dsimp only
      rw [v.modelTurn_blocked hgate hturn, hleft]
      exact ⟨by rw [hworld]; exact ⟨rfl, rfl, rfl⟩, hdone⟩
  · obtain ⟨_, result, c, w₂, hleft, hright, hfinished⟩ :=
      v.quickTurn_related hclient convId turn call _ w₁ hmirrors
    dsimp only
    rw [hright, hleft]
    exact hfinished.agrees

/-- A model that answers every request with the same tokens, and a memory that keeps what was
said. -/
def chatting (tokens : List String) : ChatRuntime Unit (List String) where
  hasHomeAutomation := false
  hasWebSearch := false
  fromStr := readerOf "\x7b\"tool\":\"get_time\"\x7d" (.object [("tool", .string "get_time")])
  isKnownTool name := name == "get_time"
  floatText _ := "0.0"
  systemPrompt := "You are the assistant of this house."
  maxHistory := 10
  gateBlocked := none
  mayEscalate _ := false
  routeForAvailableTools _ _ _ := none
  executeWithContext call _ tools memory :=
    (⟨call.name, toolActionClass call.name, true, "It is noon."⟩, tools, memory)
  sanitizeOutput output := output
  extractAndStore text memory := (1, memory ++ [text])
  buildMemoryContext memory _ := "\n".intercalate memory
  getRecent rows _ count := (rows.rtake count).map fun row => ⟨row.role, row.content⟩
  applyReasoningMode messages _ _ := messages
  reply _ _ := { tokens }
  privacyProxy _ _ _ := .error "disabled"

theorem chat_turn_agrees_time :
    Agrees
      ((chatting ["\x7b\"tool\":", "\"get_time\"\x7d"]).processChatTurn "c1"
        { text := "what time is it" } { tools := (), memory := [] })
      ((chatting ["\x7b\"tool\":", "\"get_time\"\x7d"]).handleChatStream (fun _ => true) "c1"
        { text := "what time is it" } { world := { tools := (), memory := [] } }).2 :=
  chat_turn_agrees _ _ _ _ _ (fun _ => rfl) (fun _ _ => rfl) (by decide +kernel)

/-- A client that leaves ends the streamed turn: neither the answer nor what was said is
kept. -/
theorem chat_turn_left :
    ¬ ∀ (v : ChatRuntime Unit (List String)) (client : Nat → Bool) (convId : String)
      (turn : IncomingTurn) (w : ChatWorld Unit (List String)),
      (∀ n messages, (v.reply n messages).error = none) →
      (v.processChatTurn convId turn w).2.escalated = w.escalated →
      Agrees (v.processChatTurn convId turn w)
        (v.handleChatStream client convId turn { world := w }).2 := by
  intro h
  have hleft := h (chatting ["Half", " past nine."]) (fun n => decide (n < 3)) "c1"
    { text := "when does the bus leave" } { tools := (), memory := [] } (fun _ _ => rfl)
    (by decide +kernel)
  have hmemory := congrArg List.length hleft.effects.memory
  revert hmemory
  decide +kernel

end ChatRuntime

end GenieClaw.Server
