import GenieClaw.Dispatch.Runs

/-!
# The actuation budget over whole runs

The limiter charges a request when it is made, confirmed calls are not charged. So the
budget bounds what is admitted, and every execution is paid for by an admission of its
own: a direct one in the same step, a confirmed one in the step that issued the pending
action. The executions themselves may come together.

* `admission_of_issued`: what issued a pending action was charged and executed nothing.
* `actuations_are_paid` (a clock that does not run backwards, distinct tokens): admissions are
  bounded, and every execution is paid for by one of its own.
-/

namespace GenieClaw.Dispatch

open Library Library.SlidingWindow Actuation Home Memory List Option Bool

variable {W : Type}

/-- The time at which the limiter admitted the event for this channel. -/
def admission (origin : RequestOrigin) (e : DispatcherEvent W) : Option Nat :=
  match e.input with
  | .dispatch _ execCtx =>
    if execCtx.requestOrigin = origin then DispatcherEvent.charged e else none
  | .confirm _ => none
  | .pending => none
  | .elsewhere _ _ => none

def admissions (origin : RequestOrigin) (events : List (DispatcherEvent W)) : List Nat :=
  events.filterMap (admission origin)

/-- An action of the channel was executed. -/
def actuates (origin : RequestOrigin) (e : DispatcherEvent W) : Bool :=
  (DispatcherEvent.performed e).any fun p => p.origin = origin

/-- A dispatch that its caller already flags as confirmed. -/
def callerConfirmed (e : DispatcherEvent W) : Bool :=
  match e.input with
  | .dispatch _ execCtx => execCtx.confirmed
  | .confirm _ => false
  | .pending => false
  | .elsewhere _ _ => false

namespace ToolDispatcher

variable (d : ToolDispatcher W)

/-! ## Admissions -/

variable {e : DispatcherEvent W}

theorem admission_eq_none {origin : RequestOrigin} (h : DispatcherEvent.charged e = none) :
    admission origin e = none := by
  unfold admission
  split
  · split
    · exact h
    · rfl
  · rfl
  · rfl
  · rfl

/-- The queue of every channel against the admissions of the run. -/
def Metered (past : List (DispatcherEvent W)) (s : DispatcherState W) : Prop :=
  ∀ origin, Remembers actuationRateWindowMs (d.clock s.reads) (bucket s.actuationAttempts origin)
      (admissions origin past) ∧
    Bounded actuationRateWindowMs (actuationRateLimit d.actuationSafety origin)
      (admissions origin past)

variable {s : DispatcherState W}

theorem Metered.step {past : List (DispatcherEvent W)} (hclock : Monotone d.clock)
    (h : d.Metered past s) (op : DispatcherOp W) :
    d.Metered (past ++ [d.program.eventAt s op]) (d.program.step s op).2 := by
  intro origin
  obtain ⟨hremembers, hbounded⟩ := h origin
  have hlater := hclock (d.step_reads s op)
  -- an event that is not charged to this channel leaves its queue and its admissions alone
  have hidle : admission origin (d.program.eventAt s op) = none →
      bucket (d.program.step s op).2.actuationAttempts origin = bucket s.actuationAttempts origin →
      Remembers actuationRateWindowMs (d.clock (d.program.step s op).2.reads)
          (bucket (d.program.step s op).2.actuationAttempts origin)
          (admissions origin (past ++ [d.program.eventAt s op])) ∧
        Bounded actuationRateWindowMs (actuationRateLimit d.actuationSafety origin)
          (admissions origin (past ++ [d.program.eventAt s op])) := by
    intro hnone hbucket
    unfold admissions at hremembers hbounded ⊢
    rw [filterMap_concat, hnone, toList_none, append_nil, hbucket]
    exact ⟨hremembers.later hlater, hbounded⟩
  rcases d.step_charges s op with ⟨hnone, hsame⟩ | ⟨other, hdispatch, hcharges⟩
  · exact hidle (admission_eq_none hnone) (by rw [hsame])
  rcases hcharges with ⟨hnone, hsame⟩ | ⟨read, admitted, hfrom, hto, hattempt, hcharged⟩
  · exact hidle (admission_eq_none hnone) (by rw [hsame])
  have hbucket := bucket_attempt other origin (actuationRateLimit d.actuationSafety other)
    (d.clock read) s.actuationAttempts
  rw [hattempt] at hbucket
  by_cases horigin : origin = other
  · subst horigin
    rw [if_pos rfl] at hbucket
    have hadmitted : (slide actuationRateWindowMs (actuationRateLimit d.actuationSafety origin)
        (d.clock read) (bucket s.actuationAttempts origin)).1 = admitted :=
      congrArg Prod.fst hattempt
    have hlast := hclock (Nat.le_of_lt hto)
    rw [hbucket]
    cases admitted with
    | true =>
      have hadmission : admission origin (d.program.eventAt s op) = some (d.clock read) := by
        obtain ⟨call, execCtx, rfl, hctx⟩ := hdispatch (d.clock read) hcharged
        exact (if_pos hctx).trans hcharged
      obtain ⟨hremembers', hbounded'⟩ := slide_admitted hremembers (hclock hfrom) hbounded hadmitted
      unfold admissions at hremembers' hbounded' ⊢
      rw [filterMap_concat, hadmission]
      exact ⟨hremembers'.later hlast, hbounded'⟩
    | false =>
      have hremembers' := slide_refused hremembers (hclock hfrom) hadmitted
      have hnone : DispatcherEvent.charged (d.program.eventAt s op) = none := hcharged
      unfold admissions at hremembers' hbounded ⊢
      rw [filterMap_concat, admission_eq_none hnone, toList_none, append_nil]
      exact ⟨hremembers'.later hlast, hbounded⟩
  · rw [if_neg horigin] at hbucket
    refine hidle ?_ hbucket
    cases hnow : (d.program.step s op).1.effects.charged with
    | none => exact admission_eq_none hnow
    | some now =>
      obtain ⟨call, execCtx, rfl, hctx⟩ := hdispatch now hnow
      exact if_neg fun heq => horigin (heq.symm.trans hctx)

theorem admissions_bounded (hclock : Monotone d.clock) (hs : s.actuationAttempts = ∅)
    (ops : List (DispatcherOp W)) (origin : RequestOrigin) :
    Bounded actuationRateWindowMs (actuationRateLimit d.actuationSafety origin)
      (admissions origin (d.program.trace s ops)) := by
  have hmetered := @Machine.run_history _ _ _ d.program (fun _ => True) (d.Metered) s
    (fun _ _ _ => trivial) ?_ (fun ops op _ h => h.step d hclock op) ops trivial
  · exact (hmetered origin).2
  · intro origin
    rw [hs]
    exact ⟨remembers_nil, fun t => Nat.zero_le _⟩

/-! ## Payments -/

/-- The event `r` was charged to the channel for a request that it turned into the pending
action which `e` takes, before it expires. -/
def PaysFor (origin : RequestOrigin) (r e : DispatcherEvent W) : Prop :=
  ∃ pending, DispatcherEvent.issued r = some pending ∧ e.input = .confirm pending.token ∧
    DispatcherEvent.taken e = some pending ∧ d.clock e.before.reads < pending.expiresMs ∧
    (admission origin r).isSome = true ∧ actuates origin r = false

/-- An execution was vouched for by the caller, charged in its own step, or paid for by an
earlier event. -/
def Paid (past : List (DispatcherEvent W)) (e : DispatcherEvent W) : Prop :=
  ∀ origin, actuates origin e = true → callerConfirmed e = true ∨
    (admission origin e).isSome = true ∨ ∃ r ∈ past, d.PaysFor origin r e

theorem actuates_iff {origin : RequestOrigin} :
    actuates origin e = true ↔ ∃ p, DispatcherEvent.performed e = some p ∧ p.origin = origin := by
  unfold actuates
  cases DispatcherEvent.performed e with
  | none => simp
  | some p => simp

/-- An event that issued a pending action was charged to its channel and executed
nothing. -/
theorem admission_of_issued {op : DispatcherOp W} (he : e = d.program.eventAt s op)
    {pending : PendingConfirmation} (h : DispatcherEvent.issued e = some pending) :
    (admission pending.requestedBy e).isSome = true ∧ actuates pending.requestedBy e = false := by
  subst he
  obtain ⟨call, execCtx, rfl, horigin, hcharged, hnone⟩ := d.step_issued h
  constructor
  · have hadmission : admission pending.requestedBy (d.program.eventAt s (.dispatch call execCtx)) =
        DispatcherEvent.charged (d.program.eventAt s (.dispatch call execCtx)) :=
      if_pos horigin.symm
    rw [hadmission]
    exact hcharged
  · have hperformed : DispatcherEvent.performed (d.program.eventAt s (.dispatch call execCtx)) =
        none := hnone
    unfold actuates
    rw [hperformed]
    rfl

theorem paid_step {s₀ : DispatcherState W} {ops : List (DispatcherOp W)}
    (h : TokensKept (d.program.trace s₀ ops) (d.program.run s₀ ops).confirmations)
    (op : DispatcherOp W) :
    d.Paid (d.program.trace s₀ ops) (d.program.eventAt (d.program.run s₀ ops) op) := by
  intro origin hactuates
  obtain ⟨p, hp, rfl⟩ := actuates_iff.mp hactuates
  obtain ⟨-, hcase⟩ := d.step_effects hp
  rcases hcase with ⟨call, execCtx, rfl, horigin, -⟩ | ⟨token, pending, rfl, hconfirm, htaken,
    horigin, -⟩
  · rcases d.step_paid (.inl (congrArg Option.isSome hp)) with hconfirmed | hcharged
    · exact .inl hconfirmed
    · refine .inr (.inl ?_)
      have hadmission : admission p.origin (d.program.eventAt (d.program.run s₀ ops)
          (.dispatch call execCtx)) = DispatcherEvent.charged (d.program.eventAt
          (d.program.run s₀ ops) (.dispatch call execCtx)) := if_pos horigin.symm
      rw [hadmission]
      exact hcharged
  · obtain ⟨hlook, hlive, -⟩ := ConfirmationState.confirm_some hconfirm
    obtain ⟨rfl, ⟨r, hr, hissued⟩, -⟩ := h.pending token pending hlook
    obtain ⟨as, op', bs, -, hevent⟩ := d.program.mem_trace hr
    obtain ⟨hadmission, hquiet⟩ := d.admission_of_issued hevent hissued
    rw [← horigin] at hadmission hquiet
    exact .inr (.inr ⟨r, hr, pending, hissued, rfl, htaken, hlive, hadmission, hquiet⟩)

theorem paid_run (hs : s.confirmations = {}) (ops : List (DispatcherOp W))
    (htokens : (tokensIssued (d.program.trace s ops)).Nodup) :
    EachPast d.Paid (d.program.trace s ops) := by
  refine @Machine.run_history _ _ _ d.program
    (fun ops => (tokensIssued (d.program.trace s ops)).Nodup) (fun past _ => EachPast d.Paid past) s
    ?_ (eachPast_nil _) ?_ ops htokens
  · intro ops op hnodup
    exact d.tokensIssued_prefix s ops op hnodup
  · intro ops op hnodup h
    have htokens := d.run_tokens hs ops (d.tokensIssued_prefix s ops op hnodup)
    exact eachPast_concat.mpr ⟨h, d.paid_step htokens op⟩

/-- Executions that were not charged in their own step are no more than the admissions of
requests that executed nothing. -/
theorem uncharged_le (origin : RequestOrigin) {events : List (DispatcherEvent W)}
    (hpaid : EachPast d.Paid events) (honce : (tokensTaken events).Nodup) :
    events.countP (fun e => (actuates origin e && !callerConfirmed e) &&
        !(admission origin e).isSome) ≤
      events.countP fun e => (admission origin e).isSome && !actuates origin e := by
  have hkeys : (events.filterMap fun e => (DispatcherEvent.taken e).map
      PendingConfirmation.token).Nodup := by
    have heq : tokensTaken events = events.filterMap fun e => (DispatcherEvent.taken e).map
        PendingConfirmation.token := map_filterMap
    rwa [heq] at honce
  refine @countP_le_of_keys _ _ _ _ _ _
    (fun e => (DispatcherEvent.issued e).map PendingConfirmation.token) hkeys ?_
  intro e he hcounted
  obtain ⟨as, bs, hsplit⟩ := append_of_mem he
  simp only [and_eq_true, not_eq_true'] at hcounted
  obtain ⟨⟨hactuates, hunconfirmed⟩, huncharged⟩ := hcounted
  rcases hpaid as e bs hsplit origin hactuates with hconfirmed | hcharged | ⟨r, hr, hpays⟩
  · rw [hconfirmed] at hunconfirmed
    cases hunconfirmed
  · rw [hcharged] at huncharged
    cases huncharged
  · obtain ⟨pending, hissued, -, htaken, -, hadmission, hquiet⟩ := hpays
    refine ⟨pending.token, by rw [htaken]; rfl, r, ?_, ?_, by rw [hissued]; rfl⟩
    · rw [hsplit]
      exact mem_append_left _ hr
    · rw [hadmission, hquiet]
      rfl

theorem actuations_le_admissions (origin : RequestOrigin) {events : List (DispatcherEvent W)}
    (hpaid : EachPast d.Paid events) (honce : (tokensTaken events).Nodup) :
    events.countP (fun e => actuates origin e && !callerConfirmed e) ≤
      (admissions origin events).length := by
  have huncharged := d.uncharged_le origin hpaid honce
  have hsplit := countP_eq_countP_filter_add events
    (fun e => actuates origin e && !callerConfirmed e) (fun e => (admission origin e).isSome)
  have hadmitted := countP_eq_countP_filter_add events
    (fun e => (admission origin e).isSome) (fun e => actuates origin e)
  rw [countP_filter, countP_filter] at hsplit hadmitted
  have hdirect : events.countP (fun e => (actuates origin e && !callerConfirmed e) &&
        (admission origin e).isSome) ≤
      events.countP fun e => (admission origin e).isSome && actuates origin e := by
    apply countP_mono_left
    intro e _ h
    simp only [and_eq_true] at h ⊢
    exact ⟨h.2, h.1.1⟩
  have hlength : (admissions origin events).length =
      events.countP fun e => (admission origin e).isSome := length_filterMap_eq_countP
  omega

/-- In every run with a monotone clock and distinct tokens: no minute holds more
admissions of a channel than its limit; every execution, unless its caller vouches for it
as confirmed, is charged in its own step or was charged when the pending action it
executes was requested; no token is taken twice; and so a channel never executes more than
it was admitted. -/
theorem actuations_are_paid (hclock : Monotone d.clock) {s : DispatcherState W}
    (hconfirmations : s.confirmations = {}) (hattempts : s.actuationAttempts = ∅)
    (ops : List (DispatcherOp W)) (htokens : (tokensIssued (d.program.trace s ops)).Nodup) :
    EachPast d.Paid (d.program.trace s ops) ∧ (tokensTaken (d.program.trace s ops)).Nodup ∧
      ∀ origin,
        Bounded actuationRateWindowMs (actuationRateLimit d.actuationSafety origin)
          (admissions origin (d.program.trace s ops)) ∧
        (d.program.trace s ops).countP (fun e => actuates origin e && !callerConfirmed e) ≤
          (admissions origin (d.program.trace s ops)).length := by
  have hpaid := d.paid_run hconfirmations ops htokens
  have honce := (d.run_tokens hconfirmations ops htokens).once
  exact ⟨hpaid, honce, fun origin => ⟨d.admissions_bounded hclock hattempts ops origin,
    d.actuations_le_admissions origin hpaid honce⟩⟩

end ToolDispatcher

/-! ## A minute with two executions -/

/-- The times at which actions of the channel were executed, by the first reading of each
step. -/
def actuationTimes (d : ToolDispatcher W) (origin : RequestOrigin)
    (events : List (DispatcherEvent W)) : List Nat :=
  events.filterMap fun e => if actuates origin e then some (d.clock e.before.reads) else none

/-- One action a minute. The first five readings are taken at once, the others 70 seconds
later. -/
def oneAMinute : ToolDispatcher Unit :=
  obligingDispatcher (fun _ => frontDoor) {} { maxActionsPerMinute := 1 }
    fun n => if n < 5 then 0 else 70000

def unlockByVoice : DispatcherOp Unit :=
  .dispatch
    ⟨"home_control", .object [("action", .string "unlock"), ("entity", .string "front door")]⟩
    { requestOrigin := .voice }

/-- Two requests of different minutes, confirmed one after the other. -/
def confirmBoth : List (DispatcherOp Unit) :=
  [unlockByVoice, unlockByVoice, .confirm "act-00000000000000000000000000000000",
    .confirm "act-01000000000000000000000000000000"]

theorem oneAMinute_clock : Monotone oneAMinute.clock := by
  intro a b hab
  show (if a < 5 then 0 else 70000) ≤ if b < 5 then 0 else 70000
  split_ifs
  · exact Nat.le_refl _
  · exact Nat.zero_le _
  · omega
  · exact Nat.le_refl _

theorem confirmBoth_tokens :
    tokensIssued (oneAMinute.program.trace { world := () } confirmBoth) =
      ["act-00000000000000000000000000000000", "act-01000000000000000000000000000000"] := by
  decide +kernel

theorem actuations_are_paid_both :
    Monotone oneAMinute.clock ∧
      (tokensTaken (oneAMinute.program.trace { world := () } confirmBoth)).Nodup ∧
      Bounded actuationRateWindowMs 1
        (admissions .voice (oneAMinute.program.trace { world := () } confirmBoth)) := by
  have htokens : (tokensIssued (oneAMinute.program.trace { world := () } confirmBoth)).Nodup := by
    rw [confirmBoth_tokens]
    decide
  have h := oneAMinute.actuations_are_paid oneAMinute_clock rfl rfl confirmBoth htokens
  exact ⟨oneAMinute_clock, h.2.1, (h.2.2 .voice).1⟩

/-- Both actions are executed in the same minute. -/
theorem confirmations_exceed_the_limit :
    Monotone oneAMinute.clock ∧
      ¬ Bounded actuationRateWindowMs (actuationRateLimit oneAMinute.actuationSafety .voice)
        (actuationTimes oneAMinute .voice
          (oneAMinute.program.trace { world := () } confirmBoth)) := by
  refine ⟨oneAMinute_clock, fun h => ?_⟩
  have htimes : actuationTimes oneAMinute .voice
      (oneAMinute.program.trace { world := () } confirmBoth) = [70000, 70000] := by
    decide +kernel
  rw [htimes] at h
  have hcount := h 70000
  revert hcount
  decide +kernel

end GenieClaw.Dispatch
