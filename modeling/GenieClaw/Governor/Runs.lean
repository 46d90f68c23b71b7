import GenieClaw.Governor.Transition
import GenieClaw.Governor.Rollback

/-!
# Runs of the governor

What a transition that succeeds leaves behind, what a step of the loop does around its
transition, and from these what holds in a run whenever the last change of the mode succeeded.

* `step_spec`: a step of the loop is calls on the marker and at most one transition.
* `services_step`: what it leaves of the services.
* `run_settled` (`Systemd.Independent`): what holds in a run whenever the last change of the mode
  succeeded.
-/

namespace GenieClaw.Governor

open Library List Bool

variable {systemd : Systemd} {table : ModeTable} {config : Config} {source target : Mode}
  {h h' : Host systemd}

/-- What the rest of the run will meet is no worse than before. -/
structure Onward (h h' : Host systemd) : Prop where
  answers : h.Answers → h'.Answers
  filesOk : h.FilesOk → h'.FilesOk

namespace Onward

theorem refl (h : Host systemd) : Onward h h := ⟨id, id⟩

theorem trans {a b c : Host systemd} (hab : Onward a b) (hbc : Onward b c) : Onward a c :=
  ⟨hbc.answers ∘ hab.answers, hbc.filesOk ∘ hab.filesOk⟩

theorem of_unitsOnly (honly : h.UnitsOnly h') : Onward h h' := ⟨honly.answers, honly.filesOk⟩

theorem of_stage (hstage : RollbackStage h h') : Onward h h' := ⟨hstage.answers, hstage.filesOk⟩

end Onward

theorem applyLlmSwaps_unitsOnly [systemd.Independent] {stopped stopped' : List StoppedService}
    {result : Except String Unit}
    (happly : applyLlmSwaps table config source target stopped h = (result, stopped', h')) :
    h.UnitsOnly h' := by
  by_cases htarget : target = .media
  · subst htarget
    exact (applyLlmSwaps_media happly).1
  · exact (applyLlmSwaps_other htarget happly).1

theorem insertTransition_spec (row : TransitionRow) (h : Host systemd) :
    Onward h (h.insertTransition row).2 ∧ (h.insertTransition row).2.units = h.units ∧
      (h.insertTransition row).2.mediaMarker = h.mediaMarker := by
  unfold Host.insertTransition
  dsimp only
  split
  · exact ⟨⟨id, id⟩, rfl, rfl⟩
  · split
    · exact ⟨⟨id, id⟩, rfl, rfl⟩
    · exact ⟨⟨id, id⟩, rfl, rfl⟩

variable {tsMs : Nat}

theorem transition_onward [systemd.Independent] {gov gov' : GovernorState}
    {result : Except TransitionError Unit}
    (htransition : transition table config tsMs target gov h = (result, gov', h')) :
    Onward h h' := by
  unfold transition at htransition
  dsimp only at htransition
  split at htransition
  · cases htransition
    exact .refl _
  · split at htransition
    next e h₁ hstop =>
      cases htransition
      exact .of_unitsOnly (stopServices_spec hstop).1
    next stopped h₁ hstop =>
      have hstopped := Onward.of_unitsOnly (stopServices_spec hstop).1
      split at htransition
      next e stopped h₂ happly =>
        cases htransition
        exact (hstopped.trans (.of_unitsOnly (applyLlmSwaps_unitsOnly happly))).trans
          (.of_stage (rollbackTransition_spec rfl).1)
      next stopped h₂ happly =>
        have happlied := hstopped.trans (.of_unitsOnly (applyLlmSwaps_unitsOnly happly))
        have hleft := happlied.trans
          (.of_stage (leaveMedia_spec gov.currentMode h₂).1.stage)
        split at htransition
        next unit e started h₃ hstart =>
          cases htransition
          exact (hleft.trans (.of_unitsOnly (startServices_spec hstart).1)).trans
            (.of_stage (rollbackTransition_spec rfl).1)
        next started h₃ hstart =>
          have hstarted := hleft.trans (.of_unitsOnly (startServices_spec hstart).1)
          have hinserted := (insertTransition_spec
            (transitionRow tsMs gov.currentMode target) h₃).1
          split at htransition
          next e h₄ hinsert =>
            cases htransition
            rw [hinsert] at hinserted
            exact hstarted.trans hinserted
          next h₄ hinsert =>
            cases htransition
            rw [hinsert] at hinserted
            exact hstarted.trans hinserted

/-! ## After a success -/

/-- The services that a mode requires run. -/
def RequiredRun (table : ModeTable) (config : Config) (mode : Mode) (h : Host systemd) : Prop :=
  ∀ serviceAlias ∈ table.requiredServices mode, ∀ key,
    config.keyForAlias serviceAlias = some key → h.running key = true

/-- A unit of a service that a mode stops runs only if the mode requires a service of the
same unit. -/
def StoppedDown (table : ModeTable) (config : Config) (mode : Mode) (h : Host systemd) : Prop :=
  ∀ serviceAlias ∈ table.stoppedServices mode, ∀ key,
    config.keyForAlias serviceAlias = some key → h.running key = true →
    ∃ other ∈ table.requiredServices mode, config.keyForAlias other = some key

/-- A mode that has a model requires the llm. -/
def ModeTable.RequiresLlm (table : ModeTable) : Prop :=
  ∀ mode model, table.llmModel mode = some model → "llm" ∈ table.requiredServices mode

theorem modeTable_requiresLlm : modeTable.RequiresLlm := by
  intro mode model hmodel
  cases mode with
  | media => cases hmodel
  | day | nightA | nightB | pressure => simp [modeTable, Mode.requiredServices]

theorem ModeTable.llmModel_of_transition {model : String}
    (hmodel : table.llmModelForTransition source target = some model) :
    target ≠ .media ∧ table.changesLlmWeights source target = true ∧
      table.llmModel target = some model := by
  unfold llmModelForTransition at hmodel
  split at hmodel
  · cases hmodel
  next hmedia =>
    split at hmodel
    next hchanges => exact ⟨hmedia, hchanges, hmodel⟩
    next => cases hmodel

theorem transition_ok_steps {gov gov' : GovernorState} (hne : target ≠ gov.currentMode)
    (htransition : transition table config tsMs target gov h = (.ok (), gov', h')) :
    gov' = { gov with currentMode := target } ∧ ∃ stopped stopped' started h₁ h₂ h₃,
      stopServices config (table.stoppedServices target) [] h = (.ok stopped, h₁) ∧
      applyLlmSwaps table config gov.currentMode target stopped h₁ = (.ok (), stopped', h₂) ∧
      startServices config (table.requiredServices target) []
        (if gov.currentMode = .media then h₂.removeMarker.2 else h₂) = (.ok (), started, h₃) ∧
      h' = (h₃.insertTransition (transitionRow tsMs gov.currentMode target)).2 := by
  unfold transition at htransition
  dsimp only at htransition
  rw [if_neg hne] at htransition
  split at htransition
  · cases htransition
  next stopped h₁ hstop =>
    split at htransition
    · cases htransition
    next stopped' h₂ happly =>
      split at htransition
      · cases htransition
      next started h₃ hstart =>
        split at htransition
        · cases htransition
        next h₄ hinsert =>
          cases htransition
          exact ⟨rfl, stopped, stopped', started, h₁, h₂, h₃, hstop, happly, hstart, by
            rw [hinsert]⟩

/-- What a transition into another mode leaves when it succeeds. -/
structure Entered (table : ModeTable) (config : Config) (source target : Mode)
    (h h' : Host systemd) :
    Prop where
  required : RequiredRun table config target h'
  stopped : h.Answers → StoppedDown table config target h'
  swapped : ∀ model, table.llmModelForTransition source target = some model →
    (h'.units config.llmKey).SetTo (modelPath model)
  setTo : target ≠ .media → table.llmModelForTransition source target = none → ∀ path,
    (h.units config.llmKey).SetTo path → (h'.units config.llmKey).SetTo path
  marker : source ≠ .media → h'.mediaMarker = h.mediaMarker
  markerLeft : source = .media → h.FilesOk → h'.mediaMarker = false

theorem SystemUnit.setTo_start_or {path : String} {s s' : SystemUnit}
    (hunit : s' = s ∨ s' = s.start) (hset : s.SetTo path) : s'.SetTo path := by
  rcases hunit with rfl | rfl
  · exact hset
  · exact hset.start

theorem transition_ok_spec [systemd.Independent] {gov gov' : GovernorState}
    (hllm : table.RequiresLlm)
    (hne : target ≠ gov.currentMode)
    (htransition : transition table config tsMs target gov h = (.ok (), gov', h')) :
    gov' = { gov with currentMode := target } ∧
      Entered table config gov.currentMode target h h' := by
  obtain ⟨hgov, stopped, stopped', started, h₁, h₂, h₃, hstop, happly, hstart, rfl⟩ :=
    transition_ok_steps hne htransition
  obtain ⟨honly₁, hok₁⟩ := stopServices_spec hstop
  obtain ⟨first, -, -, hstopped₁, hdown⟩ := hok₁ stopped rfl
  have honly₂ := applyLlmSwaps_unitsOnly happly
  obtain ⟨hfiles, hkeptMarker, hleftMarker⟩ := leaveMedia_spec gov.currentMode h₂
  obtain ⟨honly₃, new, -, haliases, -, hunits₃, hup⟩ := startServices_spec hstart
  obtain ⟨-, hunits, hmarker⟩ := insertTransition_spec
    (transitionRow tsMs gov.currentMode target) h₃
  -- The last loop starts units of required services and touches no other.
  have hlast : ∀ key, h₃.units key = h₂.units key ∨
      h₃.units key = (h₂.units key).start ∧
        ∃ a ∈ table.requiredServices target, config.keyForAlias a = some key := by
    intro key
    rw [← hfiles.units]
    refine (hunits₃ key).imp id fun hstarted => ⟨hstarted.1, ?_⟩
    rcases hstarted.2 with hmem | ⟨unit, e, herror, -⟩
    · obtain ⟨unit, hunit, rfl⟩ := List.mem_map.mp hmem
      obtain ⟨a, ha, hunitA⟩ := haliases unit hunit
      exact ⟨a, ha, Config.keyForAlias_of_unit hunitA⟩
    · cases herror
  have hllmUnit : h₃.units config.llmKey = h₂.units config.llmKey ∨
      h₃.units config.llmKey = (h₂.units config.llmKey).start :=
    (hlast config.llmKey).imp id And.left
  refine ⟨hgov, ?_, ?_, ?_, ?_, ?_, ?_⟩
  · intro a ha key hkey
    rw [Host.running, hunits]
    exact hup rfl a ha key hkey
  · intro hanswers a ha key hkey hrunning
    rw [Host.running, hunits] at hrunning
    rcases hlast key with hsame | ⟨-, hrequired⟩
    · rw [hsame] at hrunning
      have hdown₁ : h₁.running key = false := hdown hanswers a ha key hkey
      by_cases htarget : target = .media
      · subst htarget
        obtain ⟨-, hunits₂, -⟩ := applyLlmSwaps_media happly
        rcases hunits₂ with hunits₂ | hunits₂
        · rw [hunits₂] at hrunning
          exact absurd hrunning (Bool.eq_false_iff.mp hdown₁)
        · rw [hunits₂, mapLlmUnit_units] at hrunning
          split at hrunning
          · cases hrunning
          · exact absurd hrunning (Bool.eq_false_iff.mp hdown₁)
      · obtain ⟨-, -, hother, hnone, -⟩ := applyLlmSwaps_other htarget happly
        by_cases hkeyLlm : key = config.llmKey
        · cases hmodel : table.llmModelForTransition gov.currentMode target with
          | none =>
            obtain ⟨-, rfl⟩ := hnone hmodel
            exact absurd hrunning (Bool.eq_false_iff.mp hdown₁)
          | some model =>
            obtain ⟨-, -, hmodel⟩ := ModeTable.llmModel_of_transition hmodel
            exact ⟨"llm", hllm target model hmodel, hkeyLlm ▸
              Config.keyForAlias_of_unit config.serviceUnitForAlias_llm⟩
        · rw [hother key hkeyLlm] at hrunning
          exact absurd hrunning (Bool.eq_false_iff.mp hdown₁)
    · exact hrequired
  · intro model hmodel
    rw [hunits]
    obtain ⟨htarget, -, -⟩ := ModeTable.llmModel_of_transition hmodel
    obtain ⟨-, -, -, -, hswapped⟩ := applyLlmSwaps_other htarget happly
    obtain ⟨hprocess, hloaded⟩ := hswapped model hmodel rfl
    refine SystemUnit.setTo_start_or hllmUnit ⟨hloaded, fun p hp => ?_⟩
    rw [hprocess] at hp
    cases hp
    rfl
  · intro htarget hnoModel path hset
    rw [hunits]
    obtain ⟨-, -, -, hnone, -⟩ := applyLlmSwaps_other htarget happly
    obtain ⟨-, rfl⟩ := hnone hnoModel
    exact SystemUnit.setTo_start_or hllmUnit (hstopped₁.setTo hset)
  · intro hsource
    rw [hmarker, honly₃.mediaMarker, hkeptMarker hsource, honly₂.mediaMarker, honly₁.mediaMarker]
  · intro hsource hok
    rw [hmarker, honly₃.mediaMarker]
    exact hleftMarker hsource (honly₂.filesOk (honly₁.filesOk hok))

/-! ## A step of the loop -/

/-- Between the two hosts nothing touched a unit. -/
structure Calm (h h' : Host systemd) : Prop where
  units : h'.units = h.units
  rollbackErrors : h'.rollbackErrors = h.rollbackErrors
  onward : Onward h h'

namespace Calm

theorem refl (h : Host systemd) : Calm h h := ⟨rfl, rfl, .refl h⟩

theorem trans {a b c : Host systemd} (hab : Calm a b) (hbc : Calm b c) : Calm a c :=
  ⟨hbc.units.trans hab.units, hbc.rollbackErrors.trans hab.rollbackErrors,
    hab.onward.trans hbc.onward⟩

theorem of_filesOnly (hfiles : FilesOnly h h') : Calm h h' :=
  ⟨hfiles.units, hfiles.rollbackErrors, .of_stage hfiles.stage⟩

end Calm

theorem dockerStop_spec (container : String) (h : Host systemd) :
    Calm h (ServiceCtl.dockerStop container h).2 ∧
      (ServiceCtl.dockerStop container h).2.mediaMarker = h.mediaMarker := by
  unfold ServiceCtl.dockerStop
  dsimp only
  split
  · exact ⟨⟨rfl, rfl, id, id⟩, rfl⟩
  · dsimp only
    split
    · exact ⟨⟨rfl, rfl, id, id⟩, rfl⟩
    · exact ⟨⟨rfl, rfl, id, id⟩, rfl⟩

theorem stopOptIn_spec (config : Config) (container : String) (h : Host systemd) :
    Calm h (stopOptIn config container h) ∧
      (stopOptIn config container h).mediaMarker = h.mediaMarker := by
  unfold stopOptIn
  split
  · exact dockerStop_spec container h
  · exact ⟨.refl h, rfl⟩

theorem stopOptIns_spec (config : Config) (memAvailMb : Nat) (h : Host systemd) :
    Calm h (stopOptIns config memAvailMb h) ∧
      (stopOptIns config memAvailMb h).mediaMarker = h.mediaMarker := by
  unfold stopOptIns
  split
  · obtain ⟨hfirst, hmarker⟩ := stopOptIn_spec config "nextcloud" h
    obtain ⟨hsecond, hmarker₂⟩ := stopOptIn_spec config "jellyfin"
      (stopOptIn config "nextcloud" h)
    exact ⟨hfirst.trans hsecond, hmarker₂.trans hmarker⟩
  · exact ⟨.refl h, rfl⟩

theorem enableZram_spec (h : Host systemd) :
    Calm h (ServiceCtl.enableZram h).2 ∧
      (ServiceCtl.enableZram h).2.mediaMarker = h.mediaMarker := by
  unfold ServiceCtl.enableZram
  split
  · exact ⟨⟨rfl, rfl, id, id⟩, rfl⟩
  · exact ⟨⟨rfl, rfl, id, id⟩, rfl⟩

theorem handlePressure_spec (config : Config) (memAvailMb : Nat) (gov : GovernorState)
    (h : Host systemd) :
    (handlePressure config memAvailMb gov h).2.1.currentMode = gov.currentMode ∧
      Calm h (handlePressure config memAvailMb gov h).2.2 ∧
      (handlePressure config memAvailMb gov h).2.2.mediaMarker = h.mediaMarker := by
  unfold handlePressure
  split
  · obtain ⟨hcalm, hmarker⟩ := enableZram_spec h
    split
    next e h₁ hzram =>
      rw [hzram] at hcalm hmarker
      exact ⟨rfl, hcalm, hmarker⟩
    next h₁ hzram =>
      rw [hzram] at hcalm hmarker
      obtain ⟨hstop, hstopMarker⟩ := stopOptIns_spec config memAvailMb h₁
      exact ⟨rfl, hcalm.trans hstop, hstopMarker.trans hmarker⟩
  · exact ⟨rfl, stopOptIns_spec config memAvailMb h⟩

theorem countPrune_currentMode (gov : GovernorState) :
    (countPrune gov).currentMode = gov.currentMode := by
  unfold countPrune
  split
  · rfl
  · rfl

theorem tickRest_spec (config : Config) (memAvailMb : Option Nat) (gov : GovernorState)
    (h : Host systemd) :
    (tickRest config memAvailMb gov h).2.1.currentMode = gov.currentMode ∧
      Calm h (tickRest config memAvailMb gov h).2.2 ∧
      (tickRest config memAvailMb gov h).2.2.mediaMarker = h.mediaMarker := by
  unfold tickRest
  split
  · exact ⟨countPrune_currentMode gov, .refl h, rfl⟩
  next mb =>
    obtain ⟨hmode, hcalm, hmarker⟩ := handlePressure_spec config mb gov h
    split
    next e gov₁ h₁ hpressure =>
      rw [hpressure] at hmode hcalm hmarker
      exact ⟨hmode, hcalm, hmarker⟩
    next gov₁ h₁ hpressure =>
      rw [hpressure] at hmode hcalm hmarker
      exact ⟨(countPrune_currentMode gov₁).trans hmode, hcalm, hmarker⟩

theorem readMemAvailMb_currentMode (reading : Option Nat) (gov : GovernorState) :
    (readMemAvailMb reading gov).2.currentMode = gov.currentMode := by
  cases reading with
  | none => rfl
  | some mb => rfl

/-- The transition of a step, if its target is another mode, and what follows it. -/
def Moves (config : Config) (tsMs : Nat) (gov : GovernorState) (h : Host systemd) (target : Mode)
    (report : Report) (gov' : GovernorState) (h' : Host systemd) : Prop :=
  (target = gov.currentMode ∧ report.change = none ∧ gov'.currentMode = gov.currentMode ∧
    Calm h h' ∧ h'.mediaMarker = h.mediaMarker) ∨
  (target ≠ gov.currentMode ∧ ∃ result gov₁ h₁,
    transition modeTable config tsMs target gov h = (result, gov₁, h₁) ∧
    report.change = some result ∧ gov'.currentMode = gov₁.currentMode ∧
    Calm h₁ h' ∧ h'.mediaMarker = h₁.mediaMarker)

theorem tick_moves {input : Input} {gov gov' : GovernorState} {report : Report}
    (htick : tick config input gov h = (report, gov', h')) :
    let (memAvail, gov₁) := readMemAvailMb input.memAvailMb gov
    Moves config input.tsMs gov₁ h
      (determineMode config gov₁ memAvail h.mediaMarker input.hour) report gov' h' := by
  unfold tick at htick
  rcases hread : readMemAvailMb input.memAvailMb gov with ⟨memAvail, gov₁⟩
  rw [hread] at htick
  dsimp only at htick ⊢
  split at htick
  next hne =>
    refine .inr ⟨hne, ?_⟩
    split at htick
    next e gov₂ h₂ htransition =>
      cases htick
      exact ⟨_, _, _, htransition, rfl, rfl, .refl _, rfl⟩
    next gov₂ h₂ htransition =>
      cases htick
      obtain ⟨hmode, hcalm, hmarker⟩ := tickRest_spec config memAvail gov₂ h₂
      exact ⟨_, _, _, htransition, rfl, hmode, hcalm, hmarker⟩
  next heq =>
    cases htick
    obtain ⟨hmode, hcalm, hmarker⟩ := tickRest_spec config memAvail gov₁ h
    exact .inl ⟨not_not.mp heq, rfl, hmode, hcalm, hmarker⟩

theorem changeMode_moves {gov gov' : GovernorState} {report : Report}
    (hchange : changeMode config tsMs target gov h = (report, gov', h')) :
    Moves config tsMs gov h target report gov' h' ∧
      (report.response = .ok target ↔ ∀ e, report.change ≠ some (.error e)) := by
  unfold changeMode at hchange
  rcases htransition : transition modeTable config tsMs target gov h with ⟨result, gov₁, h₁⟩
  rw [htransition] at hchange
  cases hchange
  by_cases htarget : target = gov.currentMode
  · unfold transition at htransition
    rw [if_pos htarget] at htransition
    cases htransition
    simp [Moves, changeOf, htarget, Calm.refl]
  · refine ⟨.inr ⟨htarget, _, _, _, htransition, if_neg htarget, rfl, .refl _, rfl⟩, ?_⟩
    cases result with
    | ok => simp [changeOf, htarget]
    | error e => simp [changeOf, htarget]

/-- What a command does to the marker before its transition. -/
def markerBefore : Request → Bool → Bool
  | .command .mediaStart, _ => true
  | .command .mediaStop, _ => false
  | _, marker => marker

theorem markerBefore_iff {request : Request} {marker : Bool} :
    markerBefore request marker = true ↔
      request = .command .mediaStart ∨ request ≠ .command .mediaStop ∧ marker = true := by
  match request with
  | .tick | .command (.setMode _) | .command .status => simp [markerBefore]
  | .command .mediaStart => simp [markerBefore]
  | .command .mediaStop => simp [markerBefore]

/-- The media commands aim at media and away from it. -/
structure Aims (request : Request) (target : Mode) : Prop where
  mediaStart : request = .command .mediaStart → target = .media
  mediaStop : request = .command .mediaStop → target ≠ .media

theorem timeBasedMode_ne_media (config : Config) (hour : Nat) :
    timeBasedMode config hour ≠ .media := by
  unfold timeBasedMode
  split
  · split
    · exact fun h => by cases h
    · exact fun h => by cases h
  · exact fun h => by cases h

theorem determineModeAfterMedia_ne (config : Config) (gov : GovernorState)
    (memAvailMb : Option Nat) (hour : Nat) :
    determineModeAfterMedia config gov memAvailMb hour ≠ .media := by
  unfold determineModeAfterMedia
  split
  · split
    · exact fun h => by cases h
    · exact timeBasedMode_ne_media config hour
  · split
    · exact fun h => by cases h
    · exact timeBasedMode_ne_media config hour

/-- One step of the loop: calls on the marker, and then at most one transition. -/
theorem step_spec {input : Input} {gov gov' : GovernorState} {report : Report}
    (hstep : (machine config).step (gov, h) input = (report, gov', h')) :
    ∃ gov₁ h₁ target, gov₁.currentMode = gov.currentMode ∧ Calm h h₁ ∧
      (h.FilesOk → h₁.mediaMarker = markerBefore input.request h.mediaMarker ∧
        Aims input.request target ∧
        (input.request = .command .mediaStart →
          (report.response = .ok .media ↔ ∀ e, report.change ≠ some (.error e)))) ∧
      Moves config input.tsMs gov₁ h₁ target report gov' h' := by
  obtain ⟨request, tsMs, memAvailMb, hour⟩ := input
  cases request with
  | tick =>
    have hmoves := tick_moves hstep
    dsimp only at hmoves
    exact ⟨_, h, _, readMemAvailMb_currentMode _ _, .refl h, fun _ => ⟨rfl,
      ⟨nofun, nofun⟩,
      nofun⟩, hmoves⟩
  | command command =>
    cases command with
    | setMode mode =>
      obtain ⟨hmoves, -⟩ := changeMode_moves hstep
      exact ⟨gov, h, mode, rfl, .refl h, fun _ => ⟨rfl,
        ⟨nofun, nofun⟩,
        nofun⟩, hmoves⟩
    | mediaStart =>
      change handleCommand config _ gov h .mediaStart = _ at hstep
      rw [handleCommand] at hstep
      have hdir := (createRunDir_spec h).1
      split at hstep
      next e h₁ hcreate =>
        cases hstep
        rw [hcreate] at hdir
        refine ⟨gov, _, gov.currentMode, rfl, .of_filesOnly hdir, fun hok => ?_,
          .inl ⟨rfl, rfl, rfl, .refl _, rfl⟩⟩
        have hcreated := createRunDir_of_filesOk hok
        rw [hcreate] at hcreated
        cases hcreated
      next h₁ hcreate =>
        rw [hcreate] at hdir
        have hwrite := writeMarker_spec h₁
        split at hstep
        next e h₂ hwritten =>
          cases hstep
          rw [hwritten] at hwrite
          refine ⟨gov, _, gov.currentMode, rfl,
            (Calm.of_filesOnly hdir).trans (.of_filesOnly hwrite.1), fun hok => ?_,
            .inl ⟨rfl, rfl, rfl, .refl _, rfl⟩⟩
          have hwrote := writeMarker_of_filesOk (hdir.stage.filesOk hok)
          rw [hwritten] at hwrote
          cases hwrote
        next h₂ hwritten =>
          rw [hwritten] at hwrite
          obtain ⟨hmoves, hresponse⟩ := changeMode_moves hstep
          exact ⟨gov, h₂, .media, rfl, (Calm.of_filesOnly hdir).trans (.of_filesOnly hwrite.1),
            fun _ => ⟨hwrite.2 rfl, ⟨fun _ => rfl, nofun⟩,
              fun _ => hresponse⟩, hmoves⟩
    | mediaStop =>
      change handleCommand config _ gov h .mediaStop = _ at hstep
      rw [handleCommand] at hstep
      dsimp only at hstep
      have hmode := readMemAvailMb_currentMode memAvailMb gov
      have hfiles := (removeMarker_spec h).1
      split at hstep
      next e h₁ hremove =>
        cases hstep
        rw [hremove] at hfiles
        refine ⟨gov, _, gov.currentMode, rfl, .of_filesOnly hfiles, fun hok => ?_,
          .inl ⟨rfl, rfl, hmode, .refl _, rfl⟩⟩
        have hremoved := (removeMarker_of_filesOk hok).1
        rw [hremove] at hremoved
        rcases hremoved with hremoved | hremoved
        · cases hremoved
        · cases hremoved
      next result h₁ hnot hremove =>
        have hgone : h.FilesOk → h₁.mediaMarker = false := fun hok => by
          have hremoved := (removeMarker_of_filesOk hok).2
          rwa [hremove] at hremoved
        rw [hremove] at hfiles
        obtain ⟨hmoves, -⟩ := changeMode_moves hstep
        exact ⟨_, h₁, _, hmode, .of_filesOnly hfiles, fun hok => ⟨hgone hok,
          ⟨nofun, fun _ => determineModeAfterMedia_ne _ _ _ _⟩,
          nofun⟩, hmoves⟩
    | status =>
      cases hstep
      exact ⟨gov, _, gov.currentMode, rfl, .refl _, fun _ => ⟨rfl,
          ⟨nofun, nofun⟩,
          nofun⟩,
        .inl ⟨rfl, rfl, readMemAvailMb_currentMode _ _, .refl _, rfl⟩⟩

/-! ## Runs -/

abbrev GovernorEvent (systemd : Systemd) :=
  Machine.Event (GovernorState × Host systemd) Input Report

/-- The last change of the mode that the run tried succeeded. -/
def Settled (trace : List (GovernorEvent systemd)) : Prop :=
  (trace.filterMap fun e => e.output.change).getLast? = some (.ok ())

/-- Every change that failed did so where it is rolled back, and the rollback logged nothing. -/
def FailuresUndone (trace : List (GovernorEvent systemd)) : Prop :=
  ∀ e ∈ trace, ∀ error, e.output.change = some (.error error) →
    error.RolledBack ∧ e.after.2.rollbackErrors = e.before.2.rollbackErrors

def startsMedia (e : GovernorEvent systemd) : Bool :=
  decide (e.input.request = .command .mediaStart) && decide (e.output.response = .ok .media)

/-- A `media_start` has been accepted since the mode last became media. -/
def mediaSession (trace : List (GovernorEvent systemd)) : Bool :=
  trace.foldl (fun session e =>
    decide (e.after.1.currentMode = .media) && (session || startsMedia e)) false

/-- The unit of the llm is set to the model of the mode, if that has one. -/
def SetForMode (config : Config) (mode : Mode) (h : Host systemd) : Prop :=
  ∀ model, modeTable.llmModel mode = some model → (h.units config.llmKey).SetTo (modelPath model)

/-- The unit of the llm was set up for the mode at the start, or the run has swapped its
model. -/
def WeightsSet (config : Config) (h : Host systemd) (trace : List (GovernorEvent systemd)) : Prop :=
  SetForMode config .day h ∨ ∃ e ∈ trace, e.output.change = some (.ok ()) ∧
    modeTable.changesLlmWeights e.before.1.currentMode e.after.1.currentMode = true

variable {e : GovernorEvent systemd}

theorem settled_concat {trace : List (GovernorEvent systemd)} :
    Settled (trace ++ [e]) ↔
      e.output.change = some (.ok ()) ∨ e.output.change = none ∧ Settled trace := by
  unfold Settled
  rw [filterMap_concat]
  cases hchange : e.output.change with
  | none => simp
  | some result => simp

theorem mediaSession_concat (trace : List (GovernorEvent systemd)) (e : GovernorEvent systemd) :
    mediaSession (trace ++ [e]) =
      (decide (e.after.1.currentMode = .media) && (mediaSession trace || startsMedia e)) := by
  rw [mediaSession, foldl_append]
  rfl

theorem FailuresUndone.of_concat {trace : List (GovernorEvent systemd)}
    (hundone : FailuresUndone (trace ++ [e])) :
    FailuresUndone trace ∧ ∀ error, e.output.change = some (.error error) →
      error.RolledBack ∧ e.after.2.rollbackErrors = e.before.2.rollbackErrors :=
  ⟨fun e he => hundone e (mem_append_left _ he),
    hundone e (mem_append_right _ (mem_singleton_self e))⟩

theorem FailuresUndone.of_changes {trace : List (GovernorEvent systemd)}
    (hok : ∀ change ∈ trace.filterMap fun e => e.output.change, change = .ok ()) :
    FailuresUndone trace := by
  intro e he error herror
  cases hok _ (List.mem_filterMap.mpr ⟨e, he, herror⟩)

theorem WeightsSet.of_concat {trace : List (GovernorEvent systemd)} {h₀ : Host systemd}
    (hset : WeightsSet config h₀ (trace ++ [e]))
    (hno : e.output.change = some (.ok ()) →
      modeTable.changesLlmWeights e.before.1.currentMode e.after.1.currentMode = false) :
    WeightsSet config h₀ trace := by
  refine hset.imp id ?_
  rintro ⟨e', hmem, hchange, hswaps⟩
  rcases List.mem_append.mp hmem with hmem | hmem
  · exact ⟨e', hmem, hchange, hswaps⟩
  · obtain rfl := List.mem_singleton.mp hmem
    rw [hno hchange] at hswaps
    cases hswaps

/-- What the marker says, in a run without failures on its file that are not undone. -/
structure MediaInvariant (trace : List (GovernorEvent systemd))
    (s : GovernorState × Host systemd) : Prop where
  marker_mode : s.2.mediaMarker = true → s.1.currentMode = .media
  session_mode : mediaSession trace = true → s.1.currentMode = .media
  session_marker : mediaSession trace = true → s.2.mediaMarker = true
  marker_session : Settled trace → s.2.mediaMarker = true → mediaSession trace = true

/-- The invariant of a run from the host `h₀`. -/
structure RunInvariant (config : Config) (h₀ : Host systemd) (trace : List (GovernorEvent systemd))
    (s : GovernorState × Host systemd) : Prop where
  onward : Onward h₀ s.2
  required : Settled trace → RequiredRun modeTable config s.1.currentMode s.2
  stopped : h₀.Answers → Settled trace → StoppedDown modeTable config s.1.currentMode s.2
  llm : h₀.Answers → FailuresUndone trace → WeightsSet config h₀ trace →
    SetForMode config s.1.currentMode s.2
  media : h₀.Answers → FailuresUndone trace → h₀.FilesOk → h₀.mediaMarker = false →
    MediaInvariant trace s

theorem runInvariant_nil (config : Config) (h : Host systemd) : RunInvariant config h []
    ({}, h) where
  onward := .refl h
  required := nofun
  stopped := fun _ hsettled => by cases hsettled
  llm := fun _ _ hset => hset.elim id fun ⟨e, he, _⟩ => absurd he not_mem_nil
  media := fun _ _ _ hmarker =>
    { marker_mode := fun hpresent => absurd hpresent (Bool.eq_false_iff.mp hmarker)
      session_mode := nofun
      session_marker := nofun
      marker_session := nofun }

section Step

variable {h₀ h₁ : Host systemd} {trace : List (GovernorEvent systemd)}
  {gov gov₁ gov' : GovernorState}
  {input : Input} {report : Report}

theorem Moves.onward [systemd.Independent]
    (hmoves : Moves config tsMs gov h target report gov' h') : Onward h h' := by
  rcases hmoves with ⟨-, -, -, hcalm, -⟩ | ⟨-, result, gov₁, h₁, htransition, -, -, hcalm, -⟩
  · exact hcalm.onward
  · exact (transition_onward htransition).trans hcalm.onward

/-- A step that changes nothing keeps the services of the mode as they are; one that changes
the mode leaves the services of the new mode. -/
theorem services_step [systemd.Independent] (hcalm : Calm h h₁)
    (hmode : gov₁.currentMode = gov.currentMode)
    (hmoves : Moves config tsMs gov₁ h₁ target report gov' h') (he : e.output = report)
    (hsettled : Settled (trace ++ [e])) :
    ((Settled trace → RequiredRun modeTable config gov.currentMode h) →
        RequiredRun modeTable config gov'.currentMode h') ∧
      (h.Answers → (Settled trace → StoppedDown modeTable config gov.currentMode h) →
        StoppedDown modeTable config gov'.currentMode h') := by
  rw [settled_concat, he] at hsettled
  rcases hmoves with
    ⟨-, hchange, hmode', hcalm', -⟩ |
      ⟨hne, result, gov₂, h₂, htransition, hchange, hmode', hcalm', -⟩
  · rw [hchange] at hsettled
    have hold : Settled trace := (hsettled.resolve_left fun hok => by cases hok).2
    have hunits : h'.units = h.units := hcalm'.units.trans hcalm.units
    have hsame : gov'.currentMode = gov.currentMode := hmode'.trans hmode
    refine ⟨fun hrequired a ha key hkey => ?_, fun _ hstopped a ha key hkey hrunning => ?_⟩
    · rw [hsame] at ha
      rw [Host.running, hunits]
      exact hrequired hold a ha key hkey
    · rw [hsame] at ha ⊢
      rw [Host.running, hunits] at hrunning
      exact hstopped hold a ha key hkey hrunning
  · rw [hchange] at hsettled
    have hok : result = .ok () := by
      rcases hsettled with hok | ⟨hnone, -⟩
      · exact Option.some.inj hok
      · cases hnone
    subst hok
    obtain ⟨hgov, hentered⟩ := transition_ok_spec modeTable_requiresLlm hne htransition
    have hsame : gov'.currentMode = target := by rw [hmode', hgov]
    refine ⟨fun _ a ha key hkey => ?_, fun hanswers _ a ha key hkey hrunning => ?_⟩
    · rw [hsame] at ha
      rw [Host.running, hcalm'.units]
      exact hentered.required a ha key hkey
    · rw [hsame] at ha ⊢
      rw [Host.running, hcalm'.units] at hrunning
      exact hentered.stopped (hcalm.onward.answers hanswers) a ha key hkey hrunning

theorem llmModel_eq_of_same (hsame : modeTable.changesLlmWeights source target = false) :
    modeTable.llmModel source = modeTable.llmModel target := by
  revert hsame
  cases source <;> cases target <;> decide

theorem llmModelForTransition_of_changes {model : String}
    (hchanges : modeTable.changesLlmWeights source target = true)
    (hmodel : modeTable.llmModel target = some model) :
    modeTable.llmModelForTransition source target = some model := by
  have htarget : target ≠ .media := by
    rintro rfl
    cases hmodel
  rw [ModeTable.llmModelForTransition, if_neg htarget, if_pos hchanges, hmodel]

theorem setForMode_step [systemd.Independent] (hanswers : h.Answers) (hcalm : Calm h h₁)
    (hmode : gov₁.currentMode = gov.currentMode)
    (hmoves : Moves config tsMs gov₁ h₁ target report gov' h')
    (hundone : ∀ error, report.change = some (.error error) →
      error.RolledBack ∧ h'.rollbackErrors = h.rollbackErrors)
    (hset : (report.change = some (.ok ()) →
      modeTable.changesLlmWeights gov.currentMode gov'.currentMode = false) →
      SetForMode config gov.currentMode h) :
    SetForMode config gov'.currentMode h' := by
  intro model hmodel
  rcases hmoves with
    ⟨-, hchange, hmode', hcalm', -⟩ |
      ⟨hne, result, gov₂, h₂, htransition, hchange, hmode', hcalm', -⟩
  · rw [hmode', hmode] at hmodel
    rw [hcalm'.units, hcalm.units]
    exact hset (fun hok => by rw [hchange] at hok; cases hok) model hmodel
  · rw [hcalm'.units]
    cases result with
    | ok =>
      obtain ⟨hgov, hentered⟩ := transition_ok_spec modeTable_requiresLlm hne htransition
      rw [hmode] at hentered
      have hmodeTarget : gov'.currentMode = target := by rw [hmode', hgov]
      rw [hmodeTarget] at hmodel
      cases hchanges : modeTable.changesLlmWeights gov.currentMode target with
      | true => exact hentered.swapped model (llmModelForTransition_of_changes hchanges hmodel)
      | false =>
        have htarget : target ≠ .media := by
          rintro rfl
          cases hmodel
        refine hentered.setTo htarget (ModeTable.llmModelForTransition_of_same hchanges) _ ?_
        rw [hcalm.units]
        refine hset (fun _ => by rw [hmodeTarget, hchanges]) model ?_
        rw [llmModel_eq_of_same hchanges, hmodel]
    | error error =>
      obtain ⟨hstep, hquiet⟩ := hundone error hchange
      rw [hcalm'.rollbackErrors, ← hcalm.rollbackErrors] at hquiet
      obtain ⟨-, hgov, stopped, started, h₃, hattempted, hrollback⟩ :=
        transition_failed htransition hstep (hcalm.onward.answers hanswers)
      obtain ⟨hsame, hrestored⟩ := hattempted.setTo_undone hrollback hquiet
      rw [hmode', hgov] at hmodel
      cases hchanges : modeTable.changesLlmWeights gov₁.currentMode target with
      | true => exact hrestored hchanges model hmodel
      | false =>
        refine hsame hchanges _ ?_
        rw [hcalm.units]
        rw [hmode] at hmodel
        exact hset (fun hok => by rw [hchange] at hok; cases hok) model hmodel

theorem undone_marker [systemd.Independent] {error : TransitionError} (hanswers : h.Answers)
    (htransition : transition modeTable config tsMs target gov h = (.error error, gov', h'))
    (hstep : error.RolledBack) (hquiet : h'.rollbackErrors = h.rollbackErrors) :
    h'.mediaMarker = if gov.currentMode = .media then true
      else if target = .media then false else h.mediaMarker :=
  ((failed_transition_undone modeTable config tsMs target gov h htransition).2
    hstep hanswers hquiet).marker

theorem startsMedia_iff
    (hresponse : e.input.request = .command .mediaStart →
      (e.output.response = .ok .media ↔ ∀ error, e.output.change ≠ some (.error error))) :
    startsMedia e = true ↔ e.input.request = .command .mediaStart ∧
      ∀ error, e.output.change ≠ some (.error error) := by
  rw [startsMedia, and_eq_true, decide_eq_true_eq, decide_eq_true_eq]
  exact and_congr_right hresponse

theorem MediaInvariant.absent (hmedia : MediaInvariant trace (gov, h))
    (hmode : gov.currentMode ≠ .media) : h.mediaMarker = false ∧ mediaSession trace = false :=
  ⟨Bool.eq_false_iff.mpr fun hmarker => hmode (hmedia.marker_mode hmarker),
    Bool.eq_false_iff.mpr fun hsession => hmode (hmedia.session_mode hsession)⟩

theorem media_step [systemd.Independent] (hmedia : MediaInvariant trace (gov, h))
    (hanswers : h.Answers)
    (hok : h.FilesOk) (hcalm : Calm h h₁) (hmode : gov₁.currentMode = gov.currentMode)
    (hmarker : h₁.mediaMarker = markerBefore input.request h.mediaMarker)
    (haims : Aims input.request target)
    (hresponse : input.request = .command .mediaStart →
      (report.response = .ok .media ↔ ∀ error, report.change ≠ some (.error error)))
    (hmoves : Moves config input.tsMs gov₁ h₁ target report gov' h')
    (hundone : ∀ error, report.change = some (.error error) →
      error.RolledBack ∧ h'.rollbackErrors = h.rollbackErrors) :
    MediaInvariant (trace ++ [⟨(gov, h), input, report, (gov', h')⟩]) (gov', h') := by
  set e : GovernorEvent systemd := ⟨(gov, h), input, report, (gov', h')⟩
  have hstarts : startsMedia e = true ↔ input.request = .command .mediaStart ∧
      ∀ error, report.change ≠ some (.error error) := startsMedia_iff hresponse
  have hsession : mediaSession (trace ++ [e]) = true ↔
      gov'.currentMode = .media ∧ (mediaSession trace = true ∨ startsMedia e = true) := by
    rw [mediaSession_concat, and_eq_true, decide_eq_true_eq, or_eq_true]
  have hpresent : h₁.mediaMarker = true ↔ input.request = .command .mediaStart ∨
      input.request ≠ .command .mediaStop ∧ h.mediaMarker = true := by
    rw [hmarker, markerBefore_iff]
  rcases hmoves with
    ⟨htarget, hchange, hmode', -, hmarker'⟩ | ⟨hne, result, gov₂, h₂, htransition, hchange, hmode',
      hcalm', hmarker'⟩
  · -- The mode stays: the marker is set in media only, and a session goes on there.
    rw [hmode] at hmode' htarget
    have hstarted : startsMedia e = true ↔ input.request = .command .mediaStart := by
      rw [hstarts]
      exact and_iff_left fun error herror => by rw [hchange] at herror; cases herror
    have hmarkerMode : h₁.mediaMarker = true → gov.currentMode = .media := by
      intro hset
      rcases hpresent.mp hset with hstart | ⟨-, hold⟩
      · exact htarget.symm.trans (haims.mediaStart hstart)
      · exact hmedia.marker_mode hold
    refine ⟨fun hset => ?_, fun hopen => (hsession.mp hopen).1, fun hopen => ?_,
      fun hsettled hset => ?_⟩
    · rw [hmarker'] at hset
      exact hmode'.trans (hmarkerMode hset)
    · obtain ⟨hin, hopen⟩ := hsession.mp hopen
      rw [hmarker']
      refine hpresent.mpr ?_
      rcases hopen with hold | hstart
      · refine .inr ⟨fun hstop => haims.mediaStop hstop ?_, hmedia.session_marker hold⟩
        exact htarget.trans (hmode'.symm.trans hin)
      · exact .inl (hstarted.mp hstart)
    · rw [hmarker'] at hset
      refine hsession.mpr ⟨hmode'.trans (hmarkerMode hset), ?_⟩
      rcases hpresent.mp hset with hstart | ⟨-, hold⟩
      · exact .inr (hstarted.mpr hstart)
      · have hbefore : Settled trace :=
          ((settled_concat.mp hsettled).resolve_left fun hchanged => by
            rw [show e.output.change = none from hchange] at hchanged
            cases hchanged).2
        exact .inl (hmedia.marker_session hbefore hold)
  · rw [hmode] at hne
    cases result with
    | ok =>
      obtain ⟨hgov, hentered⟩ := transition_ok_spec modeTable_requiresLlm
        (by rwa [hmode]) htransition
      rw [hmode] at hentered
      have hin : gov'.currentMode = target := by rw [hmode', hgov]
      have hstarted : startsMedia e = true ↔ input.request = .command .mediaStart := by
        rw [hstarts]
        exact and_iff_left fun error herror => by rw [hchange] at herror; cases herror
      by_cases hleft : gov.currentMode = .media
      · -- Media is left: the marker is removed and the session is over.
        have hgone : h'.mediaMarker = false := by
          rw [hmarker', hentered.markerLeft hleft (hcalm.onward.filesOk hok)]
        have hnot : gov'.currentMode ≠ .media := fun hmedia' => hne (hin ▸ hmedia'.trans hleft.symm)
        exact ⟨fun hset => absurd hset (Bool.eq_false_iff.mp hgone),
          fun hopen => (hsession.mp hopen).1, fun hopen => absurd (hsession.mp hopen).1 hnot,
          fun _ hset => absurd hset (Bool.eq_false_iff.mp hgone)⟩
      · -- Another mode is left: a marker and a session can only be those of `media_start`.
        obtain ⟨hnoMarker, hnoSession⟩ := hmedia.absent hleft
        have hsame : h'.mediaMarker = true ↔ input.request = .command .mediaStart := by
          rw [hmarker', hentered.marker hleft, hpresent, hnoMarker]
          simp
        have hopen : mediaSession (trace ++ [e]) = true ↔
            gov'.currentMode = .media ∧ input.request = .command .mediaStart := by
          rw [hsession, hnoSession, hstarted]
          simp
        exact ⟨fun hset => hin.trans (haims.mediaStart (hsame.mp hset)),
          fun h => (hopen.mp h).1, fun h => hsame.mpr (hopen.mp h).2,
          fun _ hset => hopen.mpr ⟨hin.trans (haims.mediaStart (hsame.mp hset)),
            hsame.mp hset⟩⟩
    | error error =>
      obtain ⟨hstep, hquiet⟩ := hundone error hchange
      rw [hcalm'.rollbackErrors, ← hcalm.rollbackErrors] at hquiet
      have hgov := transition_error_governor htransition
      have hafter := undone_marker (hcalm.onward.answers hanswers) htransition hstep hquiet
      rw [← hmarker', hmode] at hafter
      have hin : gov'.currentMode = gov.currentMode := by rw [hmode', hgov, hmode]
      have hunsettled : ¬ Settled (trace ++ [e]) := by
        rw [settled_concat]
        rintro (hchanged | ⟨hchanged, -⟩)
        · rw [show e.output.change = _ from hchange] at hchanged
          cases hchanged
        · rw [show e.output.change = _ from hchange] at hchanged
          cases hchanged
      refine ⟨fun hset => ?_, fun hopen => (hsession.mp hopen).1, fun hopen => ?_,
        fun hsettled => absurd hsettled hunsettled⟩
      · rw [hin]
        by_contra hnot
        rw [hafter, if_neg hnot] at hset
        split at hset
        · cases hset
        next htarget =>
          rcases hpresent.mp hset with hstart | ⟨-, hold⟩
          · exact htarget (haims.mediaStart hstart)
          · exact hnot (hmedia.marker_mode hold)
      · rw [hafter, if_pos (hin.symm.trans (hsession.mp hopen).1)]

end Step

theorem runInvariant_step [systemd.Independent] {h₀ : Host systemd}
    {trace : List (GovernorEvent systemd)} {s : GovernorState × Host systemd}
    (hinv : RunInvariant config h₀ trace s) (input : Input) :
    RunInvariant config h₀ (trace ++ [(machine config).eventAt s input])
      ((machine config).step s input).2 := by
  obtain ⟨gov, h⟩ := s
  rcases hstep : (machine config).step (gov, h) input with ⟨report, gov', h'⟩
  obtain ⟨gov₁, h₁, target, hmode, hcalm, hmarker, hmoves⟩ := step_spec hstep
  have hevent : (machine config).eventAt (gov, h) input =
      ⟨(gov, h), input, report, (gov', h')⟩ := by rw [Machine.eventAt, hstep]
  rw [hevent]
  refine ⟨hinv.onward.trans (hcalm.onward.trans hmoves.onward), fun hsettled => ?_,
    fun hanswers hsettled => ?_, fun hanswers hundone hset => ?_,
    fun hanswers hundone hok hnoMarker => ?_⟩
  · exact (services_step hcalm hmode hmoves rfl hsettled).1 hinv.required
  · exact (services_step hcalm hmode hmoves rfl hsettled).2 (hinv.onward.answers hanswers)
      (hinv.stopped hanswers)
  · obtain ⟨hpast, hnow⟩ := hundone.of_concat
    refine setForMode_step (hinv.onward.answers hanswers) hcalm hmode hmoves hnow fun hno => ?_
    exact hinv.llm hanswers hpast (hset.of_concat hno)
  · obtain ⟨hpast, hnow⟩ := hundone.of_concat
    obtain ⟨hbefore, haims, hresponse⟩ := hmarker (hinv.onward.filesOk hok)
    exact media_step (hinv.media hanswers hpast hok hnoMarker) (hinv.onward.answers hanswers)
      (hinv.onward.filesOk hok) hcalm hmode hbefore haims hresponse hmoves hnow

theorem runInvariant [systemd.Independent] (config : Config) (h : Host systemd)
    (inputs : List Input) :
    RunInvariant config h ((machine config).trace ({}, h) inputs)
      ((machine config).run ({}, h) inputs) :=
  (machine config).run_history (fun _ => True) (fun _ _ _ => trivial) (runInvariant_nil config h)
    (fun _ i _ hinv => runInvariant_step hinv i) inputs trivial

/-- The level that a step acts on is not known, or it is not low. -/
def NotLow (config : Config) (input : Input) (gov : GovernorState) : Prop :=
  ∀ mb, (readMemAvailMb input.memAvailMb gov).1 = some mb →
    config.governor.pressure.stopOptinsMb ≤ mb

theorem tick_stays {input : Input} {gov gov' : GovernorState} {report : Report}
    (htick : tick config input gov h = (report, gov', h')) (hmode : gov.currentMode = .media)
    (hmarker : h.mediaMarker = true) (hlow : NotLow config input gov) :
    gov'.currentMode = .media := by
  have hmoves := tick_moves htick
  have hread := readMemAvailMb_currentMode input.memAvailMb gov
  rcases hmem : readMemAvailMb input.memAvailMb gov with ⟨memAvail, gov₁⟩
  rw [hmem] at hmoves hread
  have htarget : determineMode config gov₁ memAvail h.mediaMarker input.hour = .media := by
    cases memAvail with
    | none => exact hread.trans hmode
    | some mb =>
      have henough : config.governor.pressure.stopOptinsMb ≤ mb := hlow mb (by rw [hmem])
      rw [determineMode, if_neg (Nat.not_lt.mpr henough), if_pos hmarker]
  rcases hmoves with ⟨-, -, hstays, -⟩ | ⟨hne, -⟩
  · exact hstays.trans (hread.trans hmode)
  · exact absurd (htarget.trans (hread.trans hmode).symm) hne

/-- Whenever the last change of the mode in a run succeeded: the services that the mode
requires run and those that it stops do not; outside media the llm runs with the mode's model,
once its unit has been set to a model of the table; the marker is there exactly during a
session, and a session goes on over every tick that does not see low memory. -/
theorem run_settled [systemd.Independent] (config : Config) (h : Host systemd) (inputs : List Input)
    (hsettled : Settled ((machine config).trace ({}, h) inputs)) :
    let trace := (machine config).trace ({}, h) inputs
    let s := (machine config).run ({}, h) inputs
    RequiredRun modeTable config s.1.currentMode s.2 ∧
    (h.Answers → StoppedDown modeTable config s.1.currentMode s.2) ∧
    (h.Answers → FailuresUndone trace → WeightsSet config h trace →
      ∀ model, modeTable.llmModel s.1.currentMode = some model →
        (s.2.units config.llmKey).process = some ⟨some (modelPath model)⟩) ∧
    (h.Answers → FailuresUndone trace → h.FilesOk → h.mediaMarker = false →
      s.2.mediaMarker = mediaSession trace ∧
      (mediaSession trace = true → s.1.currentMode = .media ∧
        ∀ input, input.request = .tick → NotLow config input s.1 →
          ((machine config).step s input).2.1.currentMode = .media)) := by
  intro trace s
  have hinv : RunInvariant config h trace s := runInvariant config h inputs
  refine ⟨hinv.required hsettled, fun hanswers => hinv.stopped hanswers hsettled,
    fun hanswers hundone hset model hmodel => ?_, fun hanswers hundone hok hnoMarker => ?_⟩
  · obtain ⟨-, hprocess⟩ := hinv.llm hanswers hundone hset model hmodel
    have hrunning : s.2.running config.llmKey = true :=
      hinv.required hsettled "llm" (modeTable_requiresLlm _ model hmodel) _
        (Config.keyForAlias_of_unit config.serviceUnitForAlias_llm)
    obtain ⟨⟨p⟩, hp⟩ := Option.isSome_iff_exists.mp hrunning
    have hloaded : p = some (modelPath model) := hprocess _ hp
    rw [hp, hloaded]
  · have hmedia := hinv.media hanswers hundone hok hnoMarker
    refine ⟨Bool.eq_iff_iff.mpr ⟨hmedia.marker_session hsettled, hmedia.session_marker⟩,
      fun hsession => ⟨hmedia.session_mode hsession, fun input htick hlow => ?_⟩⟩
    rcases hstep : (machine config).step s input with ⟨report, gov', h'⟩
    have htick' : tick config input s.1 s.2 = (report, gov', h') := by
      simpa only [machine, htick] using hstep
    exact tick_stays htick' (hmedia.session_mode hsession) (hmedia.session_marker hsession) hlow

section Example

/-- A day on which all is well, with the model of the day and the cloud service up. -/
def calmDay : Host .independent :=
  hostRunning "nemotron-4b-q4_k_m.gguf" ("nextcloud.service" :: dayUnits) []

/-- A film, with a tick while it runs. -/
def film : List Input := [⟨.command .mediaStart, 0, none, 20⟩, ⟨.tick, 1, some 3000, 21⟩]

/-- The film ends, and the night begins. -/
def evening : List Input :=
  film ++ [⟨.command .mediaStop, 2, some 3000, 22⟩, ⟨.tick, 3, some 3000, 23⟩]

theorem calmDay_answers : calmDay.Answers := fun _ hb => absurd hb not_mem_nil

theorem calmDay_filesOk : calmDay.FilesOk := fun _ ho => absurd ho not_mem_nil

theorem calmDay_setForMode : SetForMode fullConfig .day calmDay := by
  intro model hmodel
  obtain rfl : "nemotron-4b-q4_k_m.gguf" = model := Option.some.inj hmodel
  refine ⟨by decide, fun p hp => ?_⟩
  obtain rfl : (⟨some (modelPath "nemotron-4b-q4_k_m.gguf")⟩ : Process) = p := by
    have hprocess : (calmDay.units fullConfig.llmKey).process =
        some ⟨some (modelPath "nemotron-4b-q4_k_m.gguf")⟩ := by decide
    exact Option.some.inj (hprocess.symm.trans hp)
  rfl

/-- During the film the llm is down and the marker is there, and the next tick leaves it so.
In the night the llm runs with the model of the night, Home Assistant is down and the marker
is gone. -/
theorem run_settled_evening :
    (let s := (machine fullConfig).run ({}, calmDay) film
     s.1.currentMode = .media ∧ RequiredRun modeTable fullConfig .media s.2 ∧
     StoppedDown modeTable fullConfig .media s.2 ∧ s.2.mediaMarker = true ∧
     ((machine fullConfig).step s ⟨.tick, 2, some 3000, 21⟩).2.1.currentMode = .media) ∧
    (let s := (machine fullConfig).run ({}, calmDay) evening
     s.1.currentMode = .nightB ∧ RequiredRun modeTable fullConfig .nightB s.2 ∧
     StoppedDown modeTable fullConfig .nightB s.2 ∧ s.2.mediaMarker = false ∧
     (s.2.units "genie-ai-runtime.service").process =
       some ⟨some "/opt/geniepod/models/nemotron-9b-q4.gguf"⟩) := by
  constructor
  · intro s
    have hsettled : Settled ((machine fullConfig).trace ({}, calmDay) film) := by
      unfold Settled
      decide +kernel
    have hundone : FailuresUndone ((machine fullConfig).trace ({}, calmDay) film) :=
      .of_changes (by decide +kernel)
    have hmode : s.1.currentMode = .media := by decide +kernel
    have hsession : mediaSession ((machine fullConfig).trace ({}, calmDay) film) = true := by
      decide +kernel
    obtain ⟨hrequired, hstopped, -, hmedia⟩ := run_settled fullConfig calmDay film hsettled
    obtain ⟨hmarker, hstays⟩ := hmedia calmDay_answers hundone calmDay_filesOk rfl
    refine ⟨hmode, hmode ▸ hrequired, hmode ▸ hstopped calmDay_answers, hmarker.trans hsession,
      (hstays hsession).2 _ rfl fun mb hmb => ?_⟩
    obtain rfl : 3000 = mb := Option.some.inj hmb
    decide
  · intro s
    have hsettled : Settled ((machine fullConfig).trace ({}, calmDay) evening) := by
      unfold Settled
      decide +kernel
    have hundone : FailuresUndone ((machine fullConfig).trace ({}, calmDay) evening) :=
      .of_changes (by decide +kernel)
    have hmode : s.1.currentMode = .nightB := by decide +kernel
    have hsession : mediaSession ((machine fullConfig).trace ({}, calmDay) evening) = false := by
      decide +kernel
    obtain ⟨hrequired, hstopped, hllm, hmedia⟩ :=
      run_settled fullConfig calmDay evening hsettled
    obtain ⟨hmarker, -⟩ := hmedia calmDay_answers hundone calmDay_filesOk rfl
    exact ⟨hmode, hmode ▸ hrequired, hmode ▸ hstopped calmDay_answers, hmarker.trans hsession,
      hllm calmDay_answers hundone (.inl calmDay_setForMode) _ (congrArg modeTable.llmModel hmode)⟩

/-- Settled runs that are not as one might think. In the night the cloud service runs, which
the mode does not require; a unit that came with a model of its own keeps it from day to night.
Media by `set_mode` has no marker. A film that pressure interrupts is not taken up again, and
the marker is gone meanwhile. -/
theorem run_settled_surprises :
    (let inputs : List Input := [⟨.command (.setMode .nightA), 0, none, 23⟩]
      let trace := (machine fullConfig).trace ({}, calmDay) inputs
      let s := (machine fullConfig).run ({}, calmDay) inputs
      (trace.filterMap fun e => e.output.change) = [.ok ()] ∧ s.1.currentMode = .nightA ∧
        s.2.running "nextcloud.service" = true) ∧
    (let host := hostRunning "Qwen3-4B-Q4_K_M.gguf" dayUnits []
      let inputs : List Input := [⟨.command (.setMode .nightA), 0, none, 23⟩]
      let trace := (machine fullConfig).trace ({}, host) inputs
      let s := (machine fullConfig).run ({}, host) inputs
      (trace.filterMap fun e => e.output.change) = [.ok ()] ∧
        (s.2.units "genie-ai-runtime.service").process =
          some ⟨some "/opt/geniepod/models/Qwen3-4B-Q4_K_M.gguf"⟩) ∧
    (let inputs : List Input := [⟨.command (.setMode .media), 0, none, 20⟩]
      let trace := (machine fullConfig).trace ({}, calmDay) inputs
      let s := (machine fullConfig).run ({}, calmDay) inputs
      (trace.filterMap fun e => e.output.change) = [.ok ()] ∧ s.1.currentMode = .media ∧
        s.2.mediaMarker = false) ∧
    (let film : List Input := [⟨.command .mediaStart, 0, none, 20⟩, ⟨.tick, 1, some 400, 20⟩]
      let inputs : List Input := film ++ [⟨.tick, 2, some 3000, 20⟩]
      let trace := (machine fullConfig).trace ({}, calmDay) inputs
      let s := (machine fullConfig).run ({}, calmDay) inputs
      (trace.filterMap fun e => e.output.change) = [.ok (), .ok (), .ok ()] ∧
        ((machine fullConfig).run ({}, calmDay) film).2.mediaMarker = false ∧
        s.1.currentMode = .day) := by
  decide

end Example

end GenieClaw.Governor
