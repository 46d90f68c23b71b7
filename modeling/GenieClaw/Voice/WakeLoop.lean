import GenieClaw.Library.Machine
import GenieClaw.Voice.FollowUp

/-!
# The wake loop and its listener

`run_with_wakeword` and the process `genie-wake-listen.py`. The listener prints a line when
it hears the wake word, gives up the microphone and waits for a line before it listens again.
The loop reads the lines, runs a voice cycle and a follow-up turn, and writes `READY`.

The two run side by side and share two pipes. A step is one read, write or print of either, or
the body of the loop between two reads.

* `wake_answered_iff` (no assumption): the loop answers every wake word unless a follow-up turn ends
  early.
-/

namespace GenieClaw.Voice

open Library Library.Text List

/-- What is recorded and how it is transcribed. -/
structure Utterance where
  recording : Except String String
  transcript : Except String String
  speaker : SpeakerIdentity := {}

/-! ## The body of the loop -/

namespace VoiceRuntime

variable {T M : Type} (v : VoiceRuntime T M)

/-- `voice_cycle`. It returns whether the loop goes on. -/
def voiceCycle (u : Utterance) (s : VoiceState T M) : Bool × VoiceState T M :=
  match u.recording with
  | .error _ => (true, s)
  | .ok _ =>
    match u.transcript with
    | .error _ => (true, s)
    | .ok transcript => v.processTranscript transcript u.speaker s

/-- The follow-up turn from its recording on. -/
def recordFollowUp (u : Utterance) (s : VoiceState T M) : Flow × VoiceState T M :=
  let followupPath := match u.recording with
    | .ok path => path
    | .error _ => ""
  if followupPath ≠ "" then
    match u.transcript with
    | .ok transcript => v.followUp transcript u.speaker s
    | .error _ => (.onward, s)
  else (.onward, s)

/-- The body up to where the listener is told to resume. `none` ends the loop. -/
def handleWake (voiceContinuous : Bool) (cycle next : Utterance) (s : VoiceState T M) :
    Option Flow × VoiceState T M :=
  let (shouldContinue, s) := v.voiceCycle cycle s
  if shouldContinue = false then (none, s)
  else if voiceContinuous then
    let (flow, s) := v.recordFollowUp next s
    (some flow, s)
  else (some .onward, s)

end VoiceRuntime

/-! ## The two processes -/

def wakeLine (score : String) : String := "WAKE " ++ score

def isWakeLine (line : String) : Bool := startsWith "WAKE" (trim line)

def isListeningLine (line : String) : Bool := startsWith "LISTENING" (trim line)

inductive Listener where
  | starting
  | listening
  /-- It has printed `WAKE` and reads a line. -/
  | waiting
  | exited
deriving DecidableEq

inductive LoopPhase where
  /-- The old listener is gone. -/
  | restarting
  /-- It waits for the first line of a new listener. -/
  | starting
  | reading
  | handling
  | returned
deriving DecidableEq

structure WakeState (T M : Type) where
  voice : VoiceState T M
  phase : LoopPhase := .restarting
  listener : Listener := .exited
  /-- Lines the listener has printed and the loop has not read. -/
  output : List String := []
  /-- Lines the loop has written and the listener has not read. -/
  input : List String := []

inductive WakeAction where
  /-- The loop starts a listener, if it can. -/
  | spawn (started : Bool)
  | openMic (found : Bool)
  | hear (score : String)
  | resume
  /-- The listener ends, whatever it was doing. -/
  | crash
  | readLine (failed : Bool)
  /-- The body of the loop, and whether its line can be written. -/
  | handle (cycle next : Utterance) (written : Bool)

/-- What the loop did to the listener. -/
structure Reaction where
  wrote : List String := []
  killed : Bool := false
deriving DecidableEq

namespace WakeState

variable {T M : Type}

/-- The listener is killed, and its pipes with it. -/
def kill (phase : LoopPhase) (s : WakeState T M) : Reaction × WakeState T M :=
  ({ killed := true }, { s with phase, listener := .exited, output := [], input := [] })

/-- `reader.read_line`: nothing is read at the end of the output or where reading fails, and
the loop waits for a listener that has printed nothing. -/
def readLine (failed : Bool) (s : WakeState T M) : Option (Option String × WakeState T M) :=
  if failed then some (none, s)
  else match s.output with
    | line :: rest => some (some line, { s with output := rest })
    | [] => if s.listener = .exited then some (none, s) else none

/-- The first line must say that the listener listens. An error of the read is returned at
once. -/
def readFirst (failed : Bool) (s : WakeState T M) : Reaction × WakeState T M :=
  if failed then ({}, { s with phase := .returned })
  else match s.readLine failed with
    | none => ({}, s)
    | some (line, s) =>
      if isListeningLine (line.getD "") then ({}, { s with phase := .reading })
      else s.kill .returned

def readNext (failed : Bool) (s : WakeState T M) : Reaction × WakeState T M :=
  match s.readLine failed with
  | none => ({}, s)
  | some (none, s) => s.kill .restarting
  | some (some line, s) =>
    if isWakeLine line then ({}, { s with phase := .handling }) else ({}, s)

/-- Where the body of the loop ends. -/
def finish (flow : Option Flow) (written : Bool) (s : WakeState T M) : Reaction × WakeState T M :=
  match flow with
  | none => s.kill .returned
  | some .next => ({}, { s with phase := .reading })
  | some .onward =>
    if written = true ∧ s.listener ≠ .exited then
      ({ wrote := ["READY"] }, { s with phase := .reading, input := s.input ++ ["READY"] })
    else s.kill .restarting

end WakeState

section

variable {T M : Type} (v : VoiceRuntime T M) (voiceContinuous : Bool)

def wakeStep (s : WakeState T M) : WakeAction → Reaction × WakeState T M
  | .spawn started =>
    if s.phase = .restarting then
      if started then
        ({}, { s with phase := .starting, listener := .starting, output := [], input := [] })
      else ({}, { s with phase := .returned })
    else ({}, s)
  | .openMic found =>
    if s.listener = .starting then
      if found then
        ({}, { s with listener := .listening, output := s.output ++ ["LISTENING"] })
      else
        ({}, { s with
          listener := .exited, output := s.output ++ ["ERROR: no USB microphone found"] })
    else ({}, s)
  | .hear score =>
    if s.listener = .listening then
      ({}, { s with listener := .waiting, output := s.output ++ [wakeLine score] })
    else ({}, s)
  | .resume =>
    match s.listener, s.input with
    | .waiting, line :: rest =>
      if trim line = "" ∨ trim line = "QUIT" then
        ({}, { s with listener := .exited, input := rest })
      else ({}, { s with listener := .listening, input := rest })
    | _, _ => ({}, s)
  | .crash => ({}, { s with listener := .exited })
  | .readLine failed =>
    match s.phase with
    | .starting => s.readFirst failed
    | .reading => s.readNext failed
    | _ => ({}, s)
  | .handle cycle next written =>
    if s.phase = .handling then
      let (flow, voice) := v.handleWake voiceContinuous cycle next s.voice
      { s with voice }.finish flow written
    else ({}, s)

def wakeMachine : Machine (WakeState T M) WakeAction Reaction := ⟨wakeStep v voiceContinuous⟩

end

/-! ## The handshake -/

variable {T M : Type} {v : VoiceRuntime T M} {voiceContinuous : Bool}

/-- The loop waits for a line of the listener, which waits for one of the loop. -/
def WakeState.Deaf (s : WakeState T M) : Prop :=
  s.phase = .reading ∧ s.output = [] ∧ s.listener = .waiting ∧ s.input = []

/-- One `READY` was written, or the listener was killed. -/
def Reaction.Acknowledged (r : Reaction) : Prop := r.wrote = ["READY"] ∨ r.killed = true

/-- The follow-up turn meets a transcript that it rejects or answers without the model. -/
def EndsEarly (v : VoiceRuntime T M) (u : Utterance) : Prop :=
  ∃ path transcript, u.recording = .ok path ∧ path ≠ "" ∧ u.transcript = .ok transcript ∧
    trim transcript ≠ "" ∧
    (assessTranscript (trim transcript) ≠ .accept ∨ v.quickRoute (trim transcript) ≠ none)

/-- The action is the body of a loop whose follow-up turn ends early. -/
def SkipsReady (v : VoiceRuntime T M) (voiceContinuous : Bool) : WakeAction → Prop
  | .handle _ next _ => voiceContinuous = true ∧ EndsEarly v next
  | _ => False

/-! ### Which bodies end early -/

theorem processTranscript_continues (transcript : String) (speaker : SpeakerIdentity)
    (s : VoiceState T M) : (v.processTranscript transcript speaker s).1 = true := by
  unfold VoiceRuntime.processTranscript
  dsimp only
  split
  · rfl
  · split
    · rfl
    · split
      · rfl
      · split
        · rfl
        · rfl

theorem voiceCycle_continues (u : Utterance) (s : VoiceState T M) :
    (v.voiceCycle u s).1 = true := by
  unfold VoiceRuntime.voiceCycle
  split
  · rfl
  · split
    · rfl
    · exact processTranscript_continues _ _ _

theorem followUp_next_iff (transcript : String) (speaker : SpeakerIdentity) (s : VoiceState T M) :
    (v.followUp transcript speaker s).1 = .next ↔
      trim transcript ≠ "" ∧
        (assessTranscript (trim transcript) ≠ .accept ∨
          v.quickRoute (trim transcript) ≠ none) := by
  unfold VoiceRuntime.followUp
  dsimp only
  by_cases hempty : trim transcript = ""
  · simp [hempty]
  · rw [if_neg hempty]
    cases hintent : assessTranscript (trim transcript) with
    | reject reason => simp [hempty]
    | accept =>
      unfold VoiceRuntime.handleQuickToolForVoice
      cases hroute : v.quickRoute (trim transcript) with
      | some call => simp [hempty]
      | none =>
        refine iff_of_false ?_ (by simp)
        dsimp only
        split
        · simp
        · simp

theorem recordFollowUp_next_iff (u : Utterance) (s : VoiceState T M) :
    (v.recordFollowUp u s).1 = .next ↔ EndsEarly v u := by
  obtain ⟨recording, transcript, speaker⟩ := u
  unfold VoiceRuntime.recordFollowUp EndsEarly
  cases recording with
  | error e => simp
  | ok path =>
    dsimp only
    by_cases hpath : path = ""
    · simp [hpath]
    · rw [if_pos hpath]
      cases transcript with
      | error e => simp
      | ok transcript =>
        dsimp only
        rw [followUp_next_iff]
        simp [hpath]

theorem handleWake_flow (v : VoiceRuntime T M) (voiceContinuous : Bool) (cycle next : Utterance)
    (s : VoiceState T M) :
    ∃ flow, (v.handleWake voiceContinuous cycle next s).1 = some flow ∧
      (flow = .next ↔ voiceContinuous = true ∧ EndsEarly v next) := by
  unfold VoiceRuntime.handleWake
  rcases hcycle : v.voiceCycle cycle s with ⟨shouldContinue, s₁⟩
  have hcontinue : shouldContinue = true := by
    have h : (v.voiceCycle cycle s).1 = true := voiceCycle_continues cycle s
    rwa [hcycle] at h
  dsimp only
  rw [hcontinue, if_neg (by decide)]
  cases voiceContinuous with
  | false => exact ⟨.onward, rfl, by simp⟩
  | true =>
    rw [if_pos rfl]
    refine ⟨_, rfl, ?_⟩
    rw [recordFollowUp_next_iff]
    simp

/-! ### The lines -/

theorem trimChars_keeps {first last : Char} (front rest : List Char)
    (hfirst : isWhitespace first = false) (hlast : isWhitespace last = false) :
    first :: front ++ [last] <+: trimChars (first :: front ++ last :: rest) := by
  have hhead : (first :: front ++ last :: rest).dropWhile isWhitespace =
      first :: front ++ [last] ++ rest := by
    rw [cons_append, dropWhile_cons, hfirst]
    simp
  have hback : (first :: front ++ [last]).reverse.dropWhile isWhitespace =
      (first :: front ++ [last]).reverse := by
    rw [reverse_append, reverse_singleton, singleton_append, dropWhile_cons,
      hlast]
    rfl
  rw [trimChars, hhead, List.rdropWhile, reverse_append, dropWhile_append]
  split
  · rw [hback, reverse_reverse]
  · rw [reverse_append, reverse_reverse]
    exact prefix_append _ _

theorem isWakeLine_wakeLine (score : String) : isWakeLine (wakeLine score) = true := by
  have hkeeps := trimChars_keeps ['A', 'K'] (' ' :: score.toList)
    (by decide : isWhitespace 'W' = false) (by decide : isWhitespace 'E' = false)
  have hchars : (wakeLine score).toList = ['W', 'A', 'K', 'E', ' '] ++ score.toList := by
    rw [wakeLine, String.toList_append]
    rfl
  have htrim : (trim (wakeLine score)).toList = trimChars (wakeLine score).toList :=
    String.toList_ofList
  rw [isWakeLine, startsWith, List.isPrefixOf_iff_prefix, htrim, hchars]
  exact hkeeps

theorem isWakeLine_of_listening {line : String} (h : isListeningLine line = true) :
    isWakeLine line = false := by
  rw [isListeningLine, startsWith, List.isPrefixOf_iff_prefix] at h
  rw [isWakeLine, startsWith, Bool.eq_false_iff, ne_eq, List.isPrefixOf_iff_prefix]
  obtain ⟨after, hafter⟩ := h
  rintro ⟨after', hafter'⟩
  rw [← hafter] at hafter'
  exact absurd (head_eq_of_cons_eq hafter') (by decide)

/-! ### Every wake word is answered -/

variable {s : WakeState T M}

namespace WakeState

/-- The wake words without an answer: the lines that were not read, the one that is handled,
and the answers that were not read. -/
def pending (s : WakeState T M) : Nat :=
  s.output.countP isWakeLine + (if s.phase = .handling then 1 else 0) + s.input.length

/-- A listener that waits waits for one answer, and one that listens for none. -/
def InStep (s : WakeState T M) : Prop :=
  s.phase = .returned ∨ s.listener = .exited ∨
    s.pending = if s.listener = .waiting then 1 else 0

theorem InStep.not_deaf (h : s.InStep) : ¬ s.Deaf := by
  rintro ⟨hphase, houtput, hlistener, hinput⟩
  rcases h with hreturned | hexited | hpending
  · rw [hphase] at hreturned
    cases hreturned
  · rw [hlistener] at hexited
    cases hexited
  · simp [pending, hphase, houtput, hlistener, hinput] at hpending

theorem inStep_kill (phase : LoopPhase) (s : WakeState T M) : (s.kill phase).2.InStep :=
  .inr (.inl rfl)

theorem readLine_cases (failed : Bool) (s : WakeState T M) :
    s.readLine failed = none ∨ s.readLine failed = some (none, s) ∨
      ∃ line rest, s.output = line :: rest ∧
        s.readLine failed = some (some line, { s with output := rest }) := by
  unfold WakeState.readLine
  split
  · exact .inr (.inl rfl)
  · split
    · rename_i line rest houtput
      exact .inr (.inr ⟨line, rest, houtput, rfl⟩)
    · split
      · exact .inr (.inl rfl)
      · exact .inl rfl

theorem InStep.drop (h : s.InStep) {line : String} {rest : List String}
    (houtput : s.output = line :: rest) (hline : isWakeLine line = false) (phase : LoopPhase)
    (hphase : s.phase ≠ .handling ∧ phase ≠ .handling) (hgoing : s.phase ≠ .returned) :
    { s with output := rest, phase }.InStep := by
  rcases h with hreturned | hexited | hpending
  · exact absurd hreturned hgoing
  · exact .inr (.inl hexited)
  · right
    right
    simp [pending, hphase.1, houtput, hline] at hpending
    simp [pending, hphase.2]
    exact hpending

theorem InStep.readFirst (h : s.InStep) (hphase : s.phase = .starting) (failed : Bool) :
    (s.readFirst failed).2.InStep := by
  unfold WakeState.readFirst
  split
  · exact .inl rfl
  · rcases readLine_cases failed s with hread | hread | ⟨line, rest, houtput, hread⟩
    · rw [hread]
      exact h
    · rw [hread]
      have hblank : isListeningLine ((none : Option String).getD "") = false := by decide
      dsimp only
      rw [hblank, if_neg Bool.false_ne_true]
      exact inStep_kill _ _
    · rw [hread]
      dsimp only
      rw [Option.getD_some]
      by_cases hline : isListeningLine line = true
      · rw [if_pos hline]
        exact h.drop houtput (isWakeLine_of_listening hline) .reading (by simp [hphase])
          (by simp [hphase])
      · rw [if_neg hline]
        exact inStep_kill _ _

theorem InStep.readNext (h : s.InStep) (hphase : s.phase = .reading) (failed : Bool) :
    (s.readNext failed).2.InStep := by
  unfold WakeState.readNext
  rcases readLine_cases failed s with hread | hread | ⟨line, rest, houtput, hread⟩
  · rw [hread]
    exact h
  · rw [hread]
    exact inStep_kill _ _
  · rw [hread]
    dsimp only
    split
    · rename_i hline
      rcases h with hreturned | hexited | hpending
      · rw [hphase] at hreturned
        cases hreturned
      · exact .inr (.inl hexited)
      · -- The wake word that was on its way is handled.
        right
        right
        simp [pending, hphase, houtput, hline] at hpending
        simp [pending]
        omega
    · rename_i hline
      have hsame := h.drop houtput (Bool.eq_false_iff.mpr hline) .reading
        (by simp [hphase]) (by simp [hphase])
      rwa [← hphase] at hsame

theorem InStep.finish (h : s.InStep) (hphase : s.phase = .handling) {flow : Option Flow}
    (hflow : flow ≠ some .next) (written : Bool) : (s.finish flow written).2.InStep := by
  unfold WakeState.finish
  split
  · exact inStep_kill _ _
  · exact absurd rfl hflow
  · split
    · rename_i hwritten
      rcases h with hreturned | hexited | hpending
      · rw [hphase] at hreturned
        cases hreturned
      · exact absurd hexited hwritten.2
      · right
        right
        simp [pending, hphase] at hpending ⊢
        omega
    · exact inStep_kill _ _

theorem InStep.step (h : s.InStep) (action : WakeAction)
    (hready : ¬ SkipsReady v voiceContinuous action) :
    (wakeStep v voiceContinuous s action).2.InStep := by
  cases action with
  | spawn started =>
    rw [wakeStep]
    split
    · split
      · exact .inr (.inr rfl)
      · exact .inl rfl
    · exact h
  | openMic found =>
    rw [wakeStep]
    split
    · rename_i hstarting
      split
      · rcases h with hreturned | hexited | hpending
        · exact .inl hreturned
        · rw [hstarting] at hexited
          cases hexited
        · right
          right
          have hline : isWakeLine "LISTENING" = false := by decide
          simp [pending, hstarting, hline] at hpending ⊢
          exact hpending
      · exact .inr (.inl rfl)
    · exact h
  | hear score =>
    rw [wakeStep]
    split
    · rename_i hlistening
      rcases h with hreturned | hexited | hpending
      · exact .inl hreturned
      · rw [hlistening] at hexited
        cases hexited
      · right
        right
        have hone : [wakeLine score].countP isWakeLine = 1 := by simp [isWakeLine_wakeLine]
        rw [if_neg (by simp [hlistening]), pending] at hpending
        rw [if_pos rfl, pending, countP_append, hone]
        dsimp only
        omega
    · exact h
  | resume =>
    rw [wakeStep]
    split
    · rename_i line rest hwaiting hinput
      split
      · exact .inr (.inl rfl)
      · rcases h with hreturned | hexited | hpending
        · exact .inl hreturned
        · rw [hwaiting] at hexited
          cases hexited
        · right
          right
          rw [if_pos hwaiting, pending, hinput, length_cons] at hpending
          rw [if_neg (by simp), pending]
          dsimp only
          omega
    · exact h
  | crash => exact .inr (.inl rfl)
  | readLine failed =>
    rw [wakeStep]
    split
    · rename_i hphase
      exact h.readFirst hphase failed
    · rename_i hphase
      exact h.readNext hphase failed
    · exact h
  | handle cycle next written =>
    rw [wakeStep]
    split
    · rename_i hphase
      obtain ⟨flow, hflow, hnext⟩ := handleWake_flow v voiceContinuous cycle next s.voice
      dsimp only
      rw [hflow]
      have hvoice : { s with
          voice := (v.handleWake voiceContinuous cycle next s.voice).2 }.InStep := h
      apply hvoice.finish hphase
      intro hsome
      exact hready (hnext.mp (Option.some_inj.mp hsome))
    · exact h

end WakeState

theorem inStep_trace {actions : List WakeAction} (h : s.InStep)
    (hready : ∀ e ∈ (wakeMachine v voiceContinuous).trace s actions,
      ¬ SkipsReady v voiceContinuous e.input) :
    ∀ e ∈ (wakeMachine v voiceContinuous).trace s actions, e.after.InStep := by
  induction actions generalizing s with
  | nil => simp
  | cons action rest ih =>
    rw [Machine.trace_cons, forall_mem_cons] at hready ⊢
    have hafter := h.step action hready.1
    exact ⟨hafter, ih hafter hready.2⟩

theorem acknowledged_finish_iff (s : WakeState T M) (flow : Option Flow) (written : Bool) :
    (s.finish flow written).1.Acknowledged ↔ flow ≠ some .next := by
  unfold WakeState.finish Reaction.Acknowledged
  split
  · simp [WakeState.kill]
  · simp
  · split
    · simp
    · simp [WakeState.kill]

/-- In a run whose follow-up turns do not end early the loop answers every wake word with one
line or kills the listener, and the two never wait for each other. A body that ends early
answers nothing. -/
theorem wake_answered_iff (v : VoiceRuntime T M) (voiceContinuous : Bool) (voice : VoiceState T M)
    (actions : List WakeAction) :
    let trace := (wakeMachine v voiceContinuous).trace { voice } actions
    (∀ e ∈ trace, e.before.phase = .handling → ∀ cycle next written,
      e.input = .handle cycle next written →
        (e.output.Acknowledged ↔ ¬ SkipsReady v voiceContinuous e.input)) ∧
    ((∀ e ∈ trace, ¬ SkipsReady v voiceContinuous e.input) → ∀ e ∈ trace, ¬ e.after.Deaf) := by
  intro trace
  constructor
  · intro e he hphase cycle next written hinput
    obtain ⟨earlier, action, later, -, rfl⟩ := Machine.mem_trace _ he
    obtain rfl : action = .handle cycle next written := hinput
    generalize (wakeMachine v voiceContinuous).run { voice } earlier = s at hphase ⊢
    have hphase : s.phase = .handling := hphase
    obtain ⟨flow, hflow, hnext⟩ := handleWake_flow v voiceContinuous cycle next s.voice
    show (wakeStep v voiceContinuous s (.handle cycle next written)).1.Acknowledged ↔
      ¬ (voiceContinuous = true ∧ EndsEarly v next)
    rw [wakeStep, if_pos hphase, acknowledged_finish_iff, hflow, ← hnext]
    simp
  · intro hready e he
    have hstart : ({ voice } : WakeState T M).InStep := .inr (.inl rfl)
    exact (inStep_trace hstart hready e he).not_deaf

/-- A model that answers every request with a sentence. -/
def talking : VoiceRuntime Unit Unit := .replying "It is ready at six." .null

def heard (transcript : String) : Utterance := ⟨.ok "/tmp/voice.wav", .ok transcript, {}⟩

/-- A wake word up to the turn that follows it. -/
def awakened (next : Utterance) : List WakeAction :=
  [.spawn true, .openMic true, .readLine false, .hear "0.512", .readLine false,
    .handle (heard "how long until the bread is done") next true]

/-- A follow-up turn that the model answers is acknowledged. -/
theorem wake_answered_question :
    let trace := (wakeMachine talking true).trace { voice := { tools := (), memory := () } }
      (awakened (heard "how long until the rolls are done") ++ [.resume, .hear "0.487"])
    ∀ e ∈ trace, ¬ e.after.Deaf := by
  apply (wake_answered_iff talking true _ _).2
  intro e he hskips
  have hinput := mem_map_of_mem (f := Machine.Event.input) he
  rw [Machine.map_input_trace] at hinput
  cases haction : e.input with
  | handle cycle next written =>
    rw [haction] at hskips hinput
    obtain ⟨-, path, transcript, -, -, htranscript, -, hends⟩ := hskips
    simp [awakened] at hinput
    obtain ⟨-, rfl, -⟩ := hinput
    cases htranscript
    revert hends
    decide
  | _ =>
    rw [haction] at hskips
    exact hskips

instance (s : WakeState T M) : Decidable s.Deaf :=
  inferInstanceAs
    (Decidable (s.phase = .reading ∧ s.output = [] ∧ s.listener = .waiting ∧ s.input = []))

/-- A follow-up turn that is only a filler leaves the two waiting for each other. -/
theorem wake_unanswered :
    ¬ ∀ (v : VoiceRuntime Unit Unit) (voiceContinuous : Bool) (voice : VoiceState Unit Unit)
      (actions : List WakeAction),
      let trace := (wakeMachine v voiceContinuous).trace { voice } actions
      (∀ e ∈ trace, e.before.phase = .handling → ∀ cycle next written,
        e.input = .handle cycle next written → e.output.Acknowledged) ∧
      ∀ e ∈ trace, ¬ e.after.Deaf := by
  intro h
  obtain ⟨-, hnever⟩ := h talking true { tools := (), memory := () } (awakened (heard "okay"))
  revert hnever
  decide +kernel

end GenieClaw.Voice
