import GenieClaw.Dispatch.Coverage

/-!
# The rate limit of a tool that needs confirmation

The gate runs its confirmation step before its rate limit. A first leg ends in the
confirmation step, a confirming leg skips the rate limit: neither is ever charged. So the
limit of such a tool bounds nothing, except for a channel that may not call the tool at
all.

* `two_step_limit_iff_refused` (the tool needs confirmation and has a limit): the limit bounds the
  executions exactly when the policy refuses the tool to all of the channels.
-/

namespace GenieClaw.Dispatch

open Library Library.SlidingWindow Actuation Home Memory List

variable {W : Type}

/-- The time at which the event executed the tool for one of these channels. -/
def execution (tool : String) (who : RequestOrigin → Bool) (e : DispatcherEvent W) : Option Nat :=
  match e.input with
  | .dispatch call execCtx =>
    if call.name = tool ∧ who execCtx.requestOrigin = true then e.output.effects.entered else none
  | .confirm _ =>
    if tool = "home_control" ∧
        (DispatcherEvent.taken e).any (fun p => who p.requestedBy) = true then
      e.output.effects.entered
    else none
  | .pending => none
  | .elsewhere _ _ => none

def executions (tool : String) (who : RequestOrigin → Bool) (events : List (DispatcherEvent W)) :
    List Nat :=
  events.filterMap (execution tool who)

/-- The first leg of a call and the leg that confirms it. -/
def twoLegs (call : ToolCall) (origin : RequestOrigin) : List (DispatcherOp W) :=
  [.dispatch call { requestOrigin := origin },
    .dispatch call { requestOrigin := origin, confirmed := true }]

namespace ToolDispatcher

variable (d : ToolDispatcher W)

/-! ## Two legs make one execution -/

theorem firstLeg_entry {call : ToolCall} {origin : RequestOrigin}
    (hlisted : toolOriginAllowed d.toolPolicy origin call.name = .ok ())
    (hrequires : toolRequiresConfirmation d.toolPolicy call.name = true) (s : DispatcherState W) :
    ∃ rejected s', d.runGate call { requestOrigin := origin } s = (some rejected, s') ∧
      s'.toolConfirmations.lookup
        (toolConfirmationKey d.floatText origin call.name call.arguments) =
        some (d.clock s.reads) := by
  unfold runGate confirmGate
  dsimp only
  rw [hlisted, if_pos hrequires]
  dsimp only [nowMs, evaluate, evaluateKey]
  rw [if_neg (by simp)]
  exact ⟨_, _, rfl, AList.lookup_insert _⟩

theorem executions_twoLegs {call : ToolCall} {origin : RequestOrigin} {who : RequestOrigin → Bool}
    (hlisted : toolOriginAllowed d.toolPolicy origin call.name = .ok ())
    (hrequires : toolRequiresConfirmation d.toolPolicy call.name = true)
    (hwho : who origin = true) (hstill : ∀ n, d.clock n = 0) (s : DispatcherState W) :
    executions call.name who (d.program.trace s (twoLegs call origin)) = [0] := by
  obtain ⟨rejected, s₁, hgate, hentry⟩ := d.firstLeg_entry hlisted hrequires s
  have hfirst : d.executeWithContext call { requestOrigin := origin } s = (rejected, {}, s₁) := by
    unfold executeWithContext
    rw [hgate]
  have hadmits : d.GateAdmits call { requestOrigin := origin, confirmed := true } s₁ := by
    rw [hstill] at hentry
    refine ⟨hlisted, fun _ => ⟨rfl, 0, ?_, ?_⟩, nofun⟩
    · rw [lookup_sweep]
      exact ⟨hentry, by rw [hstill]; decide⟩
    · rw [hstill]
      exact Nat.zero_le _
  have hsecond : (d.executeWithContext call { requestOrigin := origin, confirmed := true }
      s₁).2.1.entered = some 0 := by
    have hnone := (d.runGate_none_iff call _ s₁).mpr hadmits
    rcases d.executeWithContext_cases call { requestOrigin := origin, confirmed := true } s₁ with
      ⟨rejected', s₂, hrun, -⟩ | ⟨s₂, result, decision, -, hcall⟩
    · rw [hrun] at hnone
      cases hnone
    · rw [hcall]
      exact congrArg some (hstill _)
  have hstep : (d.program.step s (.dispatch call { requestOrigin := origin })).2 = s₁ :=
    congrArg (fun out => out.2.2) hfirst
  have hone : execution call.name who (d.program.eventAt s
      (.dispatch call { requestOrigin := origin })) = none := by
    have hentered : (d.program.step s (.dispatch call
        { requestOrigin := origin })).1.effects.entered = none :=
      congrArg (fun out => out.2.1.entered) hfirst
    exact (if_pos ⟨rfl, hwho⟩).trans hentered
  have htwo : execution call.name who (d.program.eventAt s₁
      (.dispatch call { requestOrigin := origin, confirmed := true })) = some 0 :=
    (if_pos ⟨rfl, hwho⟩).trans hsecond
  unfold executions twoLegs
  rw [d.program.trace_cons, d.program.trace_cons, d.program.trace_nil, hstep]
  rw [filterMap_cons, hone]
  dsimp only
  rw [filterMap_cons, htwo]
  rfl

theorem executions_repeated {call : ToolCall} {origin : RequestOrigin} {who : RequestOrigin → Bool}
    (hlisted : toolOriginAllowed d.toolPolicy origin call.name = .ok ())
    (hrequires : toolRequiresConfirmation d.toolPolicy call.name = true)
    (hwho : who origin = true) (hstill : ∀ n, d.clock n = 0) (s : DispatcherState W) (n : Nat) :
    executions call.name who
        (d.program.trace s (List.replicate n (twoLegs call origin)).flatten) =
      List.replicate n 0 := by
  induction n generalizing s with
  | zero => rfl
  | succ n ih =>
    have hpair := d.executions_twoLegs hlisted hrequires hwho hstill s
    have hrest := ih (d.program.run s (twoLegs call origin))
    unfold executions at hpair hrest ⊢
    rw [replicate_succ, flatten_cons, d.program.trace_append, filterMap_append,
      hpair, hrest]
    rfl

/-! ## The limit -/

theorem execution_eq_none {tool : String} {who : RequestOrigin → Bool}
    (hrefused : ∀ origin, who origin = true → toolOriginAllowed d.toolPolicy origin tool ≠ .ok ())
    (s : DispatcherState W) (op : DispatcherOp W) :
    execution tool who (d.program.eventAt s op) = none := by
  cases op with
  | dispatch call execCtx =>
    show (if call.name = tool ∧ who execCtx.requestOrigin = true then
      (d.executeWithContext call execCtx s).2.1.entered else none) = none
    split
    · rename_i hcall
      by_contra hentered
      have hgate := d.executeWithContext_entered (Option.isSome_iff_ne_none.mpr hentered)
      have hlisted := ((d.runGate_none_iff call execCtx s).mp hgate).listed
      rw [hcall.1] at hlisted
      exact hrefused _ hcall.2 hlisted
    · rfl
  | confirm token =>
    rcases d.confirm_cases token s with ⟨-, hstep⟩ | ⟨pending, -, hstep⟩
    · unfold execution Machine.eventAt
      dsimp only
      rw [hstep]
      split
      · rfl
      · rfl
    · unfold execution Machine.eventAt DispatcherEvent.taken
      dsimp only
      rw [hstep]
      dsimp only
      split
      · rename_i hcall
        by_contra hentered
        have hgate := d.executeWithContext_entered (Option.isSome_iff_ne_none.mpr hentered)
        have hlisted := ((d.runGate_none_iff _ _ _).mp hgate).listed
        exact hrefused pending.requestedBy hcall.2 (hcall.1 ▸ hlisted)
      · rfl
  | pending => rfl
  | elsewhere memory world => rfl

/-- For a tool that needs confirmation and has a limit: whatever the clock and the run,
no minute holds more executions of the tool by these channels than the limit, exactly
when the policy refuses the tool to all of them. -/
theorem two_step_limit_iff_refused {tool : String} {limit : Nat}
    (hrequires : toolRequiresConfirmation d.toolPolicy tool = true)
    (_hlimit : toolRateLimit d.toolPolicy tool = some limit) (who : RequestOrigin → Bool)
    (s : DispatcherState W) :
    (∀ clock : Nat → Nat, Monotone clock → ∀ ops,
        Bounded actuationRateWindowMs limit
          (executions tool who (({ d with clock } : ToolDispatcher W).program.trace s ops))) ↔
      ∀ origin, who origin = true → toolOriginAllowed d.toolPolicy origin tool ≠ .ok () := by
  constructor
  · intro hbounded origin hwho hlisted
    -- one pair of legs more than the limit, all at the same time
    have hcount := hbounded (fun _ => 0) (fun _ _ _ => Nat.le_refl _)
      (List.replicate (limit + 1) (twoLegs ⟨tool, .null⟩ origin)).flatten 0
    have hall := @executions_repeated W { d with clock := fun _ => 0 } ⟨tool, .null⟩ origin who
      hlisted hrequires hwho (fun _ => rfl) s (limit + 1)
    have hin : decide (0 ≤ 0 ∧ 0 ≤ 0 + actuationRateWindowMs) = true := by decide
    rw [hall, countIn, countP_replicate, if_pos hin] at hcount
    exact Nat.not_succ_le_self limit hcount
  · intro hrefused clock _ ops
    have hnone : executions tool who
        (({ d with clock } : ToolDispatcher W).program.trace s ops) = [] := by
      rw [executions, filterMap_eq_nil_iff]
      intro e he
      obtain ⟨as, op, bs, -, rfl⟩ := Machine.mem_trace _ he
      exact ({ d with clock } : ToolDispatcher W).execution_eq_none hrefused _ op
    rw [hnone]
    exact fun t => Nat.zero_le _

end ToolDispatcher

/-! ## One song a minute -/

/-- Music needs confirmation, is limited to one call a minute and closed to Telegram. -/
def oneSong : ToolPolicyConfig where
  requiresConfirmationTools := ["play_media"]
  maxActionsPerMinuteByTool := (∅ : HashTable String Nat).insert "play_media" 1
  deniedToolsByOrigin := (∅ : HashTable String (List String)).insert "telegram" ["play_media"]

def jukebox : ToolDispatcher Unit := obligingDispatcher (fun _ => porchLight) oneSong {} id

def playJazz : ToolCall := ⟨"play_media", .object [("query", .string "jazz")]⟩

theorem oneSong_requires : toolRequiresConfirmation oneSong "play_media" = true := by
  decide

theorem oneSong_limit : toolRateLimit oneSong "play_media" = some 1 := by
  decide

theorem oneSong_telegram : toolOriginAllowed oneSong .telegram "play_media" ≠ .ok () := by
  decide

theorem two_step_limit_iff_refused_telegram :
    Bounded actuationRateWindowMs 1 (executions "play_media" (fun o => o = .telegram)
      (jukebox.program.trace { world := () } (twoLegs playJazz .telegram))) := by
  have hiff := jukebox.two_step_limit_iff_refused oneSong_requires oneSong_limit
    (fun o => o = .telegram) { world := () }
  refine hiff.mpr ?_ id monotone_id _
  intro origin htelegram
  rw [of_decide_eq_true htelegram]
  exact oneSong_telegram

/-- Voice asks for two songs and confirms each: both are played within a second. -/
theorem two_step_exceeds_limit :
    toolRequiresConfirmation jukebox.toolPolicy "play_media" = true ∧
      toolRateLimit jukebox.toolPolicy "play_media" = some 1 ∧
      ¬ Bounded actuationRateWindowMs 1 (executions "play_media" (fun o => o = .voice)
        (jukebox.program.trace { world := () }
          (twoLegs playJazz .voice ++ twoLegs playJazz .voice))) := by
  refine ⟨oneSong_requires, oneSong_limit, fun h => ?_⟩
  have htimes : executions "play_media" (fun o => o = .voice)
      (jukebox.program.trace { world := () }
        (twoLegs playJazz .voice ++ twoLegs playJazz .voice)) = [3, 7] := by
    decide
  rw [htimes] at h
  have hcount := h 0
  revert hcount
  decide

end GenieClaw.Dispatch
