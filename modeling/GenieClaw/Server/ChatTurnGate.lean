import GenieClaw.Library.Binary
import GenieClaw.Library.Machine

/-!
# The gate of the chat turns

One chat turn runs at a time. A request counts itself as a waiter, waits for the lock for a
bounded time, and once it has the lock it turns from a waiter into the holder. Both counts
are given back by guards when they are dropped, so a request can be cancelled wherever it
waits.

A run takes the steps of the requests in any order. The lock is a fair mutex outside the
server; here a free lock goes to any request that waits for it.

* `gate_accounts` (no assumption): one guard at a time, and counts that
  are given back.
-/

namespace GenieClaw.Server

open Library List Option Bool

def u32Max : Nat := 4294967295

def u64Max : Nat := 18446744073709551615

structure GateState where
  waiters : Nat := 0
  inFlight : Bool := false
  holderSince : Option Nat := none
  lastCompleted : Option Nat := none
  completedTurns : Nat := 0

/-- `WaiterGuard::new`. -/
def GateState.addWaiter (s : GateState) : GateState :=
  { s with waiters := saturatingAdd u32Max s.waiters 1 }

/-- The drop of a `WaiterGuard` that is still armed. -/
def GateState.dropWaiter (s : GateState) : GateState := { s with waiters := s.waiters - 1 }

/-- The end of `try_acquire`, under one lock of the state. -/
def GateState.waiterToHolder (s : GateState) (now : Nat) : GateState :=
  { s with waiters := s.waiters - 1, inFlight := true, holderSince := some now }

def GateState.onTurnComplete (s : GateState) (now : Nat) : GateState :=
  { s with
    inFlight := false
    holderSince := none
    lastCompleted := some now
    completedTurns := saturatingAdd u64Max s.completedTurns 1 }

/-- Where a request is in its turn. -/
inductive Phase where
  /-- In the queue of the lock, counted as a waiter. -/
  | waiting
  /-- The lock is its own, and it has not run since. -/
  | granted
  /-- Out of the queue by a timeout or a cancellation, with its count still to give back. -/
  | leaving
  /-- Its `ChatTurnGuard` is alive. -/
  | holding
  /-- The guard has recorded the end of the turn and not yet released the lock. -/
  | releasing
  /-- It never had a turn. -/
  | left
  /-- Its turn is over. -/
  | completed
deriving DecidableEq

/-- Inside `try_acquire`. -/
def Phase.waits : Phase → Bool
  | .waiting | .granted | .leaving => true
  | _ => false

def Phase.ownsLock : Phase → Bool
  | .granted | .holding | .releasing => true
  | _ => false

def Phase.holds (phase : Phase) : Bool := phase = .holding

/-- Its `ChatTurnGuard` has been dropped. -/
def Phase.dropped : Phase → Bool
  | .releasing | .completed => true
  | _ => false

/-- Finished or cancelled. -/
def Phase.over : Phase → Bool
  | .left | .completed => true
  | _ => false

theorem Phase.quiet_of_over {phase : Phase} (h : phase.over = true) :
    phase.waits = false ∧ phase.holds = false ∧ phase.ownsLock = false := by
  cases phase with
  | left => exact ⟨rfl, rfl, rfl⟩
  | completed => exact ⟨rfl, rfl, rfl⟩
  | waiting | granted | leaving | holding | releasing => cases h

structure ChatTurnGate where
  state : GateState := {}
  locked : Bool := false
  requests : List Phase := []

namespace ChatTurnGate

def waiting (gate : ChatTurnGate) : Nat := gate.requests.countP Phase.waits

def guardsAlive (gate : ChatTurnGate) : Nat := gate.requests.countP Phase.holds

def guardsDropped (gate : ChatTurnGate) : Nat := gate.requests.countP Phase.dropped

end ChatTurnGate

/-- A step of one request. -/
inductive TurnStep where
  /-- The free lock goes to the request. -/
  | grant
  /-- The wait for the lock ends by its timeout, or its future is dropped. A lock that was
  granted to it goes back. -/
  | giveUp
  | dropWaiter
  | acquire (now : Nat)
  /-- The turn ends or is cancelled, and its guard is dropped. -/
  | complete (now : Nat)
  | release

/-- What the step makes of the request, the state and the lock, where it can be taken. -/
def TurnStep.next (state : GateState) (locked : Bool) :
    TurnStep → Phase → Option (Phase × GateState × Bool)
  | .grant, .waiting => if locked then none else some (.granted, state, true)
  | .giveUp, .waiting => some (.leaving, state, locked)
  | .giveUp, .granted => some (.leaving, state, false)
  | .dropWaiter, .leaving => some (.left, state.dropWaiter, locked)
  | .acquire now, .granted => some (.holding, state.waiterToHolder now, locked)
  | .complete now, .holding => some (.releasing, state.onTurnComplete now, locked)
  | .release, .releasing => some (.completed, state, false)
  | _, _ => none

inductive GateAction where
  | arrive
  | advance (i : Nat) (step : TurnStep)

def takeAction (gate : ChatTurnGate) : GateAction → ChatTurnGate
  | .arrive =>
    { gate with state := gate.state.addWaiter, requests := gate.requests ++ [.waiting] }
  | .advance i step =>
    match gate.requests[i]? with
    | none => gate
    | some phase =>
      match step.next gate.state gate.locked phase with
      | none => gate
      | some (after, state, locked) => ⟨state, locked, gate.requests.set i after⟩

def gateMachine : Machine ChatTurnGate GateAction Unit := ⟨fun gate a => ((), takeAction gate a)⟩

/-! ## Counts of phases -/

theorem saturatingAdd_min (bound n : Nat) :
    saturatingAdd bound (min n bound) 1 = min (n + 1) bound := by
  unfold saturatingAdd
  omega

theorem toNat_pos_iff {b : Bool} : 0 < b.toNat ↔ b = true := by
  cases b <;> simp

theorem countP_set_add {requests : List Phase} {i : Nat} {before : Phase} (p : Phase → Bool)
    (after : Phase) (h : requests[i]? = some before) :
    (requests.set i after).countP p + (p before).toNat = requests.countP p + (p after).toNat := by
  induction requests generalizing i with
  | nil => simp at h
  | cons first rest ih =>
    cases i with
    | zero =>
      obtain rfl : first = before := by simpa using h
      rw [set_cons_zero, countP_cons, countP_cons]
      cases p first <;> cases p after <;> simp
    | succ i =>
      have hrest := ih (by simpa using h)
      rw [set_cons_succ, countP_cons, countP_cons]
      omega

theorem countP_pos_of_phase {requests : List Phase} {i : Nat} {phase : Phase} {p : Phase → Bool}
    (h : requests[i]? = some phase) (hp : p phase = true) : 0 < requests.countP p :=
  List.countP_pos_iff.mpr ⟨phase, mem_of_getElem? h, hp⟩

/-! ## The invariant of a run -/

namespace ChatTurnGate

/-- What the lock, the flag and the counter of completed turns say of the requests. -/
structure Sound (gate : ChatTurnGate) : Prop where
  owners : gate.requests.countP Phase.ownsLock = gate.locked.toNat
  inFlight : gate.guardsAlive = gate.state.inFlight.toNat
  holderSince : gate.state.holderSince.isSome = gate.state.inFlight
  completed : gate.state.completedTurns = min gate.guardsDropped u64Max

variable {gate : ChatTurnGate} {i : Nat} {before after : Phase} {state : GateState}
  {locked : Bool}

theorem Sound.locked_of_owns (h : gate.Sound) (hi : gate.requests[i]? = some before)
    (howns : before.ownsLock = true) : gate.locked = true := by
  have howned := countP_pos_of_phase hi howns
  rw [h.owners] at howned
  exact toNat_pos_iff.mp howned

theorem Sound.inFlight_of_holds (h : gate.Sound) (hi : gate.requests[i]? = some before)
    (hholds : before.holds = true) : gate.state.inFlight = true := by
  have hheld := countP_pos_of_phase hi hholds
  rw [← guardsAlive, h.inFlight] at hheld
  exact toNat_pos_iff.mp hheld

theorem Sound.idle_of_owns (h : gate.Sound) (hi : gate.requests[i]? = some before)
    (howns : before.ownsLock = true) (hholds : before.holds = false) :
    gate.state.inFlight = false := by
  have hownersCount := countP_set_add Phase.ownsLock .left hi
  have hholdsCount := countP_set_add Phase.holds .left hi
  have hle : (gate.requests.set i .left).countP Phase.holds ≤
      (gate.requests.set i .left).countP Phase.ownsLock :=
    countP_mono_left fun phase _ hphase => by
      cases phase <;> first | rfl | cases hphase
  rw [h.owners, h.locked_of_owns hi howns, howns] at hownersCount
  rw [hholds] at hholdsCount
  have hinFlight : gate.requests.countP Phase.holds = gate.state.inFlight.toNat := h.inFlight
  have hnone : gate.state.inFlight.toNat = 0 := by
    have howner : Phase.left.ownsLock = false := rfl
    have hholder : Phase.left.holds = false := rfl
    rw [howner, toNat_false, toNat_true] at hownersCount
    rw [hholder, toNat_false] at hholdsCount
    omega
  simpa using hnone

theorem Sound.set (h : gate.Sound) (hi : gate.requests[i]? = some before)
    (howners : locked.toNat + before.ownsLock.toNat = gate.locked.toNat + after.ownsLock.toNat)
    (hflag : state.inFlight.toNat + before.holds.toNat =
      gate.state.inFlight.toNat + after.holds.toNat)
    (hsince : state.holderSince.isSome = state.inFlight)
    (hcompleted : state.completedTurns = gate.state.completedTurns ∧
        before.dropped = after.dropped ∨
      state.completedTurns = saturatingAdd u64Max gate.state.completedTurns 1 ∧
        before.dropped = false ∧ after.dropped = true) :
    Sound ⟨state, locked, gate.requests.set i after⟩ := by
  have hownersCount := countP_set_add Phase.ownsLock after hi
  have hholdsCount := countP_set_add Phase.holds after hi
  have hdroppedCount := countP_set_add Phase.dropped after hi
  have hinFlight := h.inFlight
  refine ⟨?_, ?_, hsince, ?_⟩
  · have := h.owners
    dsimp only
    omega
  · unfold guardsAlive at hinFlight ⊢
    dsimp only
    omega
  · rw [guardsDropped]
    rcases hcompleted with ⟨hstate, hsame⟩ | ⟨hstate, hbefore, hafter⟩
    · rw [hsame, Nat.add_right_cancel_iff] at hdroppedCount
      rw [hstate, hdroppedCount]
      exact h.completed
    · rw [hbefore, hafter] at hdroppedCount
      have hone : (gate.requests.set i after).countP Phase.dropped = gate.guardsDropped + 1 :=
        hdroppedCount
      rw [hstate, hone, h.completed, saturatingAdd_min]

theorem Sound.arrive (h : gate.Sound) : (takeAction gate .arrive).Sound := by
  obtain ⟨howners, hinFlight, hsince, hcompleted⟩ := h
  refine ⟨?_, ?_, hsince, ?_⟩
  · simpa [takeAction, Phase.ownsLock] using howners
  · simpa [takeAction, guardsAlive, Phase.holds, GateState.addWaiter] using hinFlight
  · simpa [takeAction, guardsDropped, Phase.dropped, GateState.addWaiter] using hcompleted

theorem Sound.advance (h : gate.Sound) (hi : gate.requests[i]? = some before) {step : TurnStep}
    (hnext : step.next gate.state gate.locked before = some (after, state, locked)) :
    Sound ⟨state, locked, gate.requests.set i after⟩ := by
  unfold TurnStep.next at hnext
  split at hnext
  · split at hnext
    · cases hnext
    · rename_i hfree
      cases hnext
      exact h.set hi (by simp [hfree, Phase.ownsLock]) rfl h.holderSince (.inl ⟨rfl, rfl⟩)
  · cases hnext
    exact h.set hi rfl rfl h.holderSince (.inl ⟨rfl, rfl⟩)
  · cases hnext
    exact h.set hi (by rw [h.locked_of_owns hi rfl]; rfl) rfl h.holderSince (.inl ⟨rfl, rfl⟩)
  · cases hnext
    exact h.set hi rfl rfl h.holderSince (.inl ⟨rfl, rfl⟩)
  · cases hnext
    have hidle := h.idle_of_owns hi rfl rfl
    exact h.set hi rfl (by rw [hidle]; rfl) rfl (.inl ⟨rfl, rfl⟩)
  · cases hnext
    exact h.set hi rfl (by rw [h.inFlight_of_holds hi rfl]; rfl) rfl (.inr ⟨rfl, rfl, rfl⟩)
  · cases hnext
    exact h.set hi (by rw [h.locked_of_owns hi rfl]; rfl) rfl h.holderSince (.inl ⟨rfl, rfl⟩)
  · cases hnext

theorem Sound.step (h : gate.Sound) (action : GateAction) : (takeAction gate action).Sound := by
  cases action with
  | arrive => exact h.arrive
  | advance i step =>
    rw [takeAction]
    split
    · exact h
    · rename_i before hi
      split
      · exact h
      · rename_i hnext
        exact h.advance hi hnext

theorem sound_run (actions : List GateAction) : (gateMachine.run {} actions).Sound := by
  have hstart : Sound {} := ⟨rfl, rfl, rfl, rfl⟩
  exact gateMachine.run_invariant hstart (fun _ action h => h.step action) actions

/-! ## The waiter count -/

theorem waiters_advance (hwaiters : gate.state.waiters = gate.waiting)
    (hi : gate.requests[i]? = some before) {step : TurnStep}
    (hnext : step.next gate.state gate.locked before = some (after, state, locked)) :
    state.waiters = (gate.requests.set i after).countP Phase.waits := by
  have hcount := countP_set_add Phase.waits after hi
  have hpos : before.waits = true → 0 < gate.waiting := countP_pos_of_phase hi
  unfold waiting at hwaiters hpos
  unfold TurnStep.next at hnext
  split at hnext
  · split at hnext
    · cases hnext
    · cases hnext
      simp only [Phase.waits] at hcount
      omega
  · cases hnext
    simp only [Phase.waits] at hcount
    omega
  · cases hnext
    simp only [Phase.waits] at hcount
    omega
  · cases hnext
    have := hpos rfl
    simp only [Phase.waits, toNat_true, toNat_false] at hcount
    simp only [GateState.dropWaiter]
    omega
  · cases hnext
    have := hpos rfl
    simp only [Phase.waits, toNat_true, toNat_false] at hcount
    simp only [GateState.waiterToHolder]
    omega
  · cases hnext
    simp only [Phase.waits] at hcount
    simp only [GateState.onTurnComplete]
    omega
  · cases hnext
    simp only [Phase.waits] at hcount
    omega
  · cases hnext

theorem waiters_step (hwaiters : gate.state.waiters = gate.waiting) (action : GateAction)
    (hroom : (takeAction gate action).waiting ≤ u32Max) :
    (takeAction gate action).state.waiters = (takeAction gate action).waiting := by
  cases action with
  | arrive =>
    have hmore : (takeAction gate .arrive).waiting = gate.waiting + 1 := by
      simp [takeAction, waiting, Phase.waits]
    rw [hmore] at hroom ⊢
    show saturatingAdd u32Max gate.state.waiters 1 = gate.waiting + 1
    rw [hwaiters, saturatingAdd]
    exact Nat.min_eq_left hroom
  | advance i step =>
    rw [takeAction]
    split
    · exact hwaiters
    · rename_i before hi
      split
      · exact hwaiters
      · rename_i hnext
        exact waiters_advance hwaiters hi hnext

theorem waiters_run (actions : List GateAction)
    (hroom : ∀ earlier, earlier <+: actions → (gateMachine.run {} earlier).waiting ≤ u32Max) :
    (gateMachine.run {} actions).state.waiters = (gateMachine.run {} actions).waiting := by
  induction actions using List.reverseRecOn with
  | nil => rfl
  | append_singleton earlier action ih =>
    have hbefore := ih fun start hstart => hroom start (hstart.trans (prefix_append _ _))
    have hafter := hroom _ (prefix_refl _)
    rw [Machine.run_concat] at hafter ⊢
    exact waiters_step hbefore action hafter

theorem waiting_le_requests (gate : ChatTurnGate) : gate.waiting ≤ gate.requests.length :=
  countP_le_length

theorem length_requests_run (actions : List GateAction) :
    (gateMachine.run {} actions).requests.length ≤ actions.length := by
  induction actions using List.reverseRecOn with
  | nil => exact Nat.le_refl _
  | append_singleton earlier action ih =>
    rw [Machine.run_concat, length_append]
    show (takeAction _ action).requests.length ≤ earlier.length + 1
    cases action with
    | arrive => simpa [takeAction] using ih
    | advance i step =>
      rw [takeAction]
      split
      · omega
      · split
        · omega
        · rw [length_set]
          omega

theorem room_of_length {actions : List GateAction} (h : actions.length ≤ u32Max) :
    ∀ earlier, earlier <+: actions → (gateMachine.run {} earlier).waiting ≤ u32Max := by
  intro earlier hearlier
  calc (gateMachine.run {} earlier).waiting
      ≤ (gateMachine.run {} earlier).requests.length := waiting_le_requests _
    _ ≤ earlier.length := length_requests_run earlier
    _ ≤ actions.length := hearlier.length_le
    _ ≤ u32Max := h

end ChatTurnGate

open ChatTurnGate

/-- After any run at most one guard is alive, the flag says so, and the counter of completed
turns is the number of guards dropped, up to the largest `u64`. While no more requests wait
at once than the waiter count can hold, it is their number, no request that still has its
count to give back finds it at zero, and once every request is over the gate is idle. -/
theorem gate_accounts (actions : List GateAction) :
    let gate := gateMachine.run {} actions
    gate.guardsAlive ≤ 1 ∧
    (gate.state.inFlight = true ↔ 0 < gate.guardsAlive) ∧
    gate.state.completedTurns = min gate.guardsDropped u64Max ∧
    ((∀ earlier, earlier <+: actions → (gateMachine.run {} earlier).waiting ≤ u32Max) →
      gate.state.waiters = gate.waiting ∧
      (∀ phase ∈ gate.requests, phase.waits = true → 0 < gate.state.waiters) ∧
      ((∀ phase ∈ gate.requests, phase.over = true) →
        gate.state.waiters = 0 ∧ gate.state.inFlight = false ∧
          gate.state.holderSince = none ∧ gate.locked = false)) := by
  intro gate
  have hsound : gate.Sound := sound_run actions
  have hnone : (∀ phase ∈ gate.requests, phase.over = true) → ∀ p : Phase → Bool,
      (∀ phase, phase.over = true → p phase = false) → gate.requests.countP p = 0 := by
    intro hover p hp
    rw [countP_eq_zero]
    intro phase hmem
    rw [hp phase (hover phase hmem)]
    decide
  refine ⟨?_, ?_, hsound.completed, fun hroom => ?_⟩
  · rw [hsound.inFlight]
    exact toNat_le _
  · rw [hsound.inFlight]
    exact toNat_pos_iff.symm
  · have hwaiters : gate.state.waiters = gate.waiting := waiters_run actions hroom
    refine ⟨hwaiters, fun phase hmem hwaits => ?_, fun hover => ?_⟩
    · rw [hwaiters]
      exact List.countP_pos_iff.mpr ⟨phase, hmem, hwaits⟩
    · have hwait : gate.waiting = 0 := hnone hover _ fun _ h => (Phase.quiet_of_over h).1
      have hguards : gate.guardsAlive = 0 := hnone hover _ fun _ h => (Phase.quiet_of_over h).2.1
      have howners := hnone hover _ fun _ h => (Phase.quiet_of_over h).2.2
      rw [hsound.inFlight, toNat_eq_zero] at hguards
      rw [hsound.owners, toNat_eq_zero] at howners
      refine ⟨hwaiters.trans hwait, hguards, ?_, howners⟩
      have hsince := hsound.holderSince
      rwa [hguards, isSome_eq_false_iff, isNone_iff_eq_none] at hsince

/-- One request has its turn while a second one gives up. -/
def turnAndTimeout : List GateAction :=
  [.arrive, .advance 0 .grant, .arrive, .advance 0 (.acquire 10), .advance 1 .giveUp,
    .advance 0 (.complete 20), .advance 1 .dropWaiter, .advance 0 .release]

theorem gate_accounts_timeout :
    (gateMachine.run {} turnAndTimeout).state.waiters = 0 ∧
      (gateMachine.run {} turnAndTimeout).locked = false := by
  have hidle := ((gate_accounts turnAndTimeout).2.2.2 (room_of_length (by decide))).2.2
    (by decide)
  exact ⟨hidle.1, hidle.2.2.2⟩

theorem run_arrivals (n : Nat) :
    gateMachine.run {} (List.replicate n .arrive) =
      ⟨{ waiters := min n u32Max }, false, List.replicate n .waiting⟩ := by
  induction n with
  | zero => rfl
  | succ n ih =>
    rw [replicate_succ', Machine.run_concat, ih, replicate_succ']
    show takeAction _ .arrive = _
    rw [takeAction, GateState.addWaiter, saturatingAdd_min]

/-- With one request more than the largest `u32` waiting at once the count is short. -/
theorem waiters_saturate :
    ¬ ∀ actions : List GateAction,
      (gateMachine.run {} actions).state.waiters = (gateMachine.run {} actions).waiting := by
  intro h
  have hshort := h (List.replicate (u32Max + 1) .arrive)
  have hwaits : Phase.waiting.waits = true := rfl
  rw [run_arrivals, waiting, countP_replicate, if_pos hwaits] at hshort
  have hmin : min (u32Max + 1) u32Max = u32Max := Nat.min_eq_right (Nat.le_succ _)
  exact Nat.succ_ne_self u32Max (hshort.symm.trans hmin)

end GenieClaw.Server
