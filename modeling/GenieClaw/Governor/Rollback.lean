import GenieClaw.Governor.Steps

/-!
# A failed transition is undone

What is known of a transition when it breaks off, and what its rollback makes of that. The
rollback restarts the services that the mode it returns to requires, brings the model of that
mode back, and sets the marker by that mode; opt-in services that were stopped on the way
stay down.

* `attempted_swaps`, `Attempted.setTo_undone`: the attempt up to the llm, and what the rollback
  makes of it.
* `failed_transition_undone` (`Systemd.Independent`: a start or a stop moves its own unit and no
  other): a transition that fails leaves the governor as it was, and the host too where its rollback
  went through.
-/

namespace GenieClaw.Governor

open List
variable {systemd : Systemd} {table : ModeTable} {config : Config} {source target : Mode}
  {h₀ h h' : Host systemd}

/-- The host at a point of an attempt. The units of `Failed` are those whose own call failed,
so that nothing is known of them. -/
structure Attempted (table : ModeTable) (config : Config) (source target : Mode)
    (Failed : String → Prop) (h₀ h : Host systemd) (stopped : List StoppedService)
    (started : List String) : Prop where
  transitions : h.transitions = h₀.transitions
  rollbackErrors : h.rollbackErrors = h₀.rollbackErrors
  answers : h.Answers
  marker : source ≠ .media → h.mediaMarker = h₀.mediaMarker
  stopped_spec : ∀ s ∈ stopped, table.Stops target s.serviceAlias ∧
    config.serviceUnitForAlias s.serviceAlias = some s.unit ∧ h₀.running s.key = true
  started_spec : ∀ unit ∈ started, h₀.running (normalizeSystemdUnit unit) = true →
    (normalizeSystemdUnit unit = config.llmKey → table.changesLlmWeights source target = false) →
    normalizeSystemdUnit unit ∈ stopped.map StoppedService.key
  kept : ∀ key, ¬ Failed key →
    (key = config.llmKey → table.changesLlmWeights source target = false) →
    key ∉ stopped.map StoppedService.key → key ∉ started.map normalizeSystemdUnit →
    (h.units key).process = (h₀.units key).process
  setTo : table.changesLlmWeights source target = false → ∀ path,
    (h₀.units config.llmKey).SetTo path → (h.units config.llmKey).SetTo path

theorem ModeTable.llmModelForTransition_of_same
    (hsame : table.changesLlmWeights source target = false) :
    table.llmModelForTransition source target = none := by
  rw [llmModelForTransition, hsame]
  simp

theorem ProcessesStopped.setTo {keys : List String} {key path : String}
    (hstopped : ProcessesStopped keys h₀ h) (hset : (h₀.units key).SetTo path) :
    (h.units key).SetTo path := by
  rw [hstopped key]
  split
  · exact hset.stop
  · exact hset

theorem StoppedSince.mono {aliases : List String} {h₁ : Host systemd} {new : List StoppedService}
    (hsince : StoppedSince config aliases h₁ new)
    (hrunning : ∀ key, h₁.running key = true → h₀.running key = true)
    (haliases : ∀ a ∈ aliases, table.Stops target a) :
    ∀ s ∈ new, table.Stops target s.serviceAlias ∧
      config.serviceUnitForAlias s.serviceAlias = some s.unit ∧ h₀.running s.key = true := by
  intro s hs
  obtain ⟨hmem, hunit, hup⟩ := hsince s hs
  exact ⟨haliases _ hmem, hunit, hrunning _ hup⟩

/-- The attempt up to and with the llm's part. -/
theorem attempted_swaps [systemd.Independent] {stopped stopped' : List StoppedService}
    {h₁ : Host systemd}
    {result : Except String Unit} (hanswers : h₀.Answers)
    (hstop : stopServices config (table.stoppedServices target) [] h₀ = (.ok stopped, h₁))
    (happly : applyLlmSwaps table config source target stopped h₁ = (result, stopped', h)) :
    Attempted table config source target (fun key => result ≠ .ok () ∧ key = config.llmKey)
      h₀ h stopped' [] := by
  obtain ⟨honly₁, hok⟩ := stopServices_spec hstop
  obtain ⟨first, hfirst, hsince₁, hstopped₁, -⟩ := hok stopped rfl
  rw [nil_append] at hfirst
  subst hfirst
  have hstopped_spec := hsince₁.mono (fun _ => id)
    (fun a ha => (.inl ha : table.Stops target a))
  by_cases htarget : target = .media
  · subst htarget
    obtain ⟨honly₂, hunits, new, happend, hsince₂, hsuccess⟩ := applyLlmSwaps_media happly
    have honly := honly₁.trans honly₂
    have hnew := hsince₂.mono
      (fun key hup => by
        rw [hstopped₁.running] at hup
        exact (Bool.and_eq_true_iff.mp hup).2)
      (fun a ha => (.inr ⟨rfl, List.mem_singleton.mp ha⟩ : table.Stops .media a))
    refine ⟨honly.transitions, honly.rollbackErrors, honly.answers hanswers,
      fun _ => honly.mediaMarker, ?_, fun unit hunit => absurd hunit not_mem_nil, ?_, ?_⟩
    · intro s hs
      rw [happend] at hs
      rcases List.mem_append.mp hs with hs | hs
      · exact hstopped_spec s hs
      · exact hnew s hs
    · intro key hfailed hsame hkey _
      rw [happend, map_append, mem_append, not_or] at hkey
      have hfirst : h₁.units key = h₀.units key := by rw [hstopped₁ key, if_neg hkey.1]
      by_cases hllm : key = config.llmKey
      · have hresult : result = .ok () := by
          by_contra hne
          exact hfailed ⟨hne, hllm⟩
        rw [(hsuccess hresult).1 key, if_neg hkey.2, hfirst]
      · rcases hunits with hunits | hunits
        · rw [hunits, hfirst]
        · rw [hunits, mapLlmUnit_units, if_neg hllm, hfirst]
    · intro _ path hset
      have hset₁ := hstopped₁.setTo hset
      rcases hunits with hunits | hunits
      · rwa [hunits]
      · rw [hunits, mapLlmUnit_units, if_pos rfl]
        exact hset₁.stop
  · obtain ⟨honly₂, rfl, hother, hnone, -⟩ := applyLlmSwaps_other htarget happly
    have honly := honly₁.trans honly₂
    refine ⟨honly.transitions, honly.rollbackErrors, honly.answers hanswers,
      fun _ => honly.mediaMarker, hstopped_spec, fun unit hunit => absurd hunit not_mem_nil,
      ?_, ?_⟩
    · intro key _ hsame hkey _
      have hfirst : (h₁.units key).process = (h₀.units key).process := by
        rw [hstopped₁ key, if_neg hkey]
      by_cases hllm : key = config.llmKey
      · obtain ⟨-, rfl⟩ := hnone (ModeTable.llmModelForTransition_of_same (hsame hllm))
        exact hfirst
      · rw [hother key hllm, hfirst]
    · intro hsame path hset
      obtain ⟨-, rfl⟩ := hnone (ModeTable.llmModelForTransition_of_same hsame)
      exact hstopped₁.setTo hset

variable {stopped : List StoppedService} {started : List String}

theorem attempted_starts [systemd.Independent] {h₁ h₂ : Host systemd}
    {result : Except (String × String) Unit}
    (hattempted : Attempted table config source target (fun _ => False) h₀ h₁ stopped [])
    (hfiles : FilesOnly h₁ h₂) (hmarker : source ≠ .media → h₂.mediaMarker = h₁.mediaMarker)
    (hstart : startServices config (table.requiredServices target) [] h₂ = (result, started, h)) :
    Attempted table config source target (FailedUnit result) h₀ h stopped started := by
  obtain ⟨honly, new, happend, -, hfresh, hunits, -⟩ := startServices_spec hstart
  rw [nil_append] at happend
  subst happend
  have hanswers₂ : h₂.Answers := hfiles.stage.answers hattempted.answers
  have hkept : ∀ key, (key = config.llmKey → table.changesLlmWeights source target = false) →
      key ∉ stopped.map StoppedService.key →
      (h₂.units key).process = (h₀.units key).process := by
    intro key hsame hkey
    rw [hfiles.units]
    exact hattempted.kept key not_false hsame hkey not_mem_nil
  refine ⟨?_, ?_, honly.answers hanswers₂, ?_, hattempted.stopped_spec, ?_, ?_, ?_⟩
  · rw [honly.transitions, hfiles.transitions, hattempted.transitions]
  · rw [honly.rollbackErrors, hfiles.rollbackErrors, hattempted.rollbackErrors]
  · intro hsource
    rw [honly.mediaMarker, hmarker hsource, hattempted.marker hsource]
  · intro unit hunit hup hsame
    -- A unit that ran before and was started on the way had been stopped in between.
    by_contra hkey
    have hdown := hfresh hanswers₂ unit hunit
    rw [Host.running, hkept _ hsame hkey] at hdown
    exact Bool.eq_false_iff.mp hdown hup
  · intro key hfailed hsame hkey hstarted
    rcases hunits key with hunit | ⟨-, hmem | hmem⟩
    · rw [hunit, hkept key hsame hkey]
    · exact absurd hmem hstarted
    · exact absurd hmem hfailed
  · intro hsame path hset
    have hset₂ : (h₂.units config.llmKey).SetTo path := by
      rw [hfiles.units]
      exact hattempted.setTo hsame path hset
    rcases hunits config.llmKey with hunit | ⟨hunit, -⟩
    · rwa [hunit]
    · rw [hunit]
      exact hset₂.start

/-! ## After the rollback -/

/-- The unit of a service that the target mode stops and the source mode does not require. -/
def OptIn (table : ModeTable) (config : Config) (source target : Mode) (key : String) : Prop :=
  ∃ serviceAlias, table.Stops target serviceAlias ∧
    config.keyForAlias serviceAlias = some key ∧ serviceAlias ∉ table.requiredServices source

/-- The host after a failed transition, against the host before it. -/
structure Undone (table : ModeTable) (config : Config) (source target : Mode)
    (Failed : String → Prop) (h₀ h' : Host systemd) : Prop where
  /-- Every unit runs if and only if it did, but for opt-in services, for a unit whose own call
  failed, and for the llm's unit when the modes differ in their models. -/
  running : ∀ key, ¬ Failed key → ¬ OptIn table config source target key →
    (key = config.llmKey → table.changesLlmWeights source target = false) →
    h'.running key = h₀.running key
  /-- A unit that the target mode does not stop has its old process. -/
  process : ∀ key, ¬ Failed key →
    (∀ serviceAlias, table.Stops target serviceAlias → config.keyForAlias serviceAlias ≠ some key) →
    (key = config.llmKey → table.changesLlmWeights source target = false) →
    (h'.units key).process = (h₀.units key).process
  /-- When the modes differ in their models, the llm runs with the model of the source mode,
  and does not run when that has none. -/
  llm : table.changesLlmWeights source target = true →
    (h'.units config.llmKey).process =
      (table.llmModel source).map fun model => ⟨some (modelPath model)⟩
  marker : h'.mediaMarker =
    if source = .media then true else if target = .media then false else h₀.mediaMarker
  transitions : h'.transitions = h₀.transitions

theorem markerAfterRollback_eq (hne : target ≠ source) (before : Bool) :
    markerAfterRollback source target before =
      if source = .media then true else if target = .media then false else before := by
  unfold markerAfterRollback mediaMarkerRollbackAction
  by_cases hsource : source = .media
  · have htarget : target ≠ .media := fun htarget => hne (htarget.trans hsource.symm)
    simp [hsource, htarget]
  · by_cases htarget : target = .media
    · simp [hsource, htarget]
    · simp [hsource, htarget]

theorem restoredUnit_running (h : Host systemd) (key : String) :
    (restoredUnit table config source stopped started h key).process.isSome =
      (decide (key ∈ (table.serviceAliasesToRestore source stopped).filterMap
          config.keyForAlias) ||
        !decide (key ∈ started.map normalizeSystemdUnit) && h.running key) := by
  unfold restoredUnit
  by_cases hrestore : key ∈ (table.serviceAliasesToRestore source stopped).filterMap
      config.keyForAlias
  · simp [hrestore, SystemUnit.start]
  · by_cases hstarted : key ∈ started.map normalizeSystemdUnit
    · simp only [hrestore, hstarted, if_true, if_false]
      rfl
    · simp only [hrestore, hstarted, if_false]
      rfl

theorem mem_restore_iff {key : String}
    (hunits : ∀ s ∈ stopped, config.serviceUnitForAlias s.serviceAlias = some s.unit) :
    key ∈ (table.serviceAliasesToRestore source stopped).filterMap config.keyForAlias ↔
      ∃ s ∈ stopped, s.key = key ∧ s.serviceAlias ∈ table.requiredServices source := by
  simp only [mem_filterMap, ModeTable.serviceAliasesToRestore, List.mem_filter, mem_map,
    decide_eq_true_eq]
  constructor
  · rintro ⟨a, ⟨⟨s, hs, rfl⟩, hrequired⟩, hkey⟩
    rw [Config.keyForAlias_of_unit (hunits s hs)] at hkey
    exact ⟨s, hs, Option.some.inj hkey, hrequired⟩
  · rintro ⟨s, hs, rfl, hrequired⟩
    exact ⟨s.serviceAlias, ⟨⟨s, hs, rfl⟩, hrequired⟩, Config.keyForAlias_of_unit (hunits s hs)⟩

theorem Attempted.undone [systemd.Independent] {Failed : String → Prop}
    (hattempted : Attempted table config source target Failed h₀ h stopped started)
    (hne : target ≠ source)
    (hrollback : rollbackTransition table config source target stopped started h = h')
    (hquiet : h'.rollbackErrors = h₀.rollbackErrors) :
    Undone table config source target Failed h₀ h' := by
  obtain ⟨hstage, hrolled⟩ := rollbackTransition_spec hrollback
  obtain ⟨hmarker, hother, hllm⟩ :=
    hrolled (hquiet.trans hattempted.rollbackErrors.symm) hattempted.answers
  have hunitOf := fun s hs => (hattempted.stopped_spec s hs).2.1
  -- Where the models agree the llm's unit is as after the first stages, like any other.
  have hprocess : ∀ key,
      (key = config.llmKey → table.changesLlmWeights source target = false) →
      (h'.units key).process =
        (restoredUnit table config source stopped started h key).process := by
    intro key hsame
    by_cases hkey : key = config.llmKey
    · subst hkey
      rw [LlmRolledBack, llmRollbackAction, hsame rfl] at hllm
      exact congrArg SystemUnit.process hllm
    · exact hother key hkey
  have hrunning : ∀ key,
      (key = config.llmKey → table.changesLlmWeights source target = false) →
      h'.running key = (decide (key ∈ (table.serviceAliasesToRestore source stopped).filterMap
          config.keyForAlias) ||
        !decide (key ∈ started.map normalizeSystemdUnit) && h.running key) := by
    intro key hsame
    rw [Host.running, hprocess key hsame, restoredUnit_running]
  -- A unit that was not stopped was either started and put down again, or never touched.
  have hkept : ∀ key, ¬ Failed key →
      (key = config.llmKey → table.changesLlmWeights source target = false) →
      key ∉ stopped.map StoppedService.key →
      (h'.units key).process = (h₀.units key).process := by
    intro key hfailed hsame hkey
    have hrestore : key ∉ (table.serviceAliasesToRestore source stopped).filterMap
        config.keyForAlias := by
      rw [mem_restore_iff hunitOf]
      rintro ⟨s, hs, rfl, -⟩
      exact hkey (mem_map_of_mem hs)
    rw [hprocess key hsame, restoredUnit, if_neg hrestore]
    by_cases hstarted : key ∈ started.map normalizeSystemdUnit
    · rw [if_pos hstarted]
      obtain ⟨unit, hunit, rfl⟩ := List.mem_map.mp hstarted
      have hdown : h₀.running (normalizeSystemdUnit unit) ≠ true :=
        fun hup => hkey (hattempted.started_spec unit hunit hup hsame)
      exact (Option.not_isSome_iff_eq_none.mp hdown).symm
    · rw [if_neg hstarted]
      exact hattempted.kept key hfailed hsame hkey hstarted
  refine ⟨fun key hfailed hoptIn hsame => ?_, fun key hfailed hstops hsame => ?_,
    fun hchanges => ?_, ?_, ?_⟩
  · by_cases hkey : key ∈ stopped.map StoppedService.key
    · obtain ⟨s, hs, rfl⟩ := List.mem_map.mp hkey
      obtain ⟨hstops, hunit, hup⟩ := hattempted.stopped_spec s hs
      have hrequired : s.serviceAlias ∈ table.requiredServices source := by
        by_contra hnot
        exact hoptIn ⟨s.serviceAlias, hstops, Config.keyForAlias_of_unit hunit, hnot⟩
      have hrestore : s.key ∈ (table.serviceAliasesToRestore source stopped).filterMap
          config.keyForAlias := (mem_restore_iff hunitOf).mpr ⟨s, hs, rfl, hrequired⟩
      rw [hrunning _ hsame, hup, decide_eq_true hrestore, Bool.true_or]
    · exact congrArg Option.isSome (hkept key hfailed hsame hkey)
  · refine hkept key hfailed hsame fun hkey => ?_
    obtain ⟨s, hs, rfl⟩ := List.mem_map.mp hkey
    obtain ⟨hstop, hunit, -⟩ := hattempted.stopped_spec s hs
    exact hstops s.serviceAlias hstop (Config.keyForAlias_of_unit hunit)
  · rw [LlmRolledBack, llmRollbackAction, if_pos hchanges] at hllm
    cases hmodel : table.llmModel source with
    | none =>
      rw [hmodel] at hllm
      exact hllm
    | some model =>
      rw [hmodel] at hllm
      exact hllm.1
  · rw [hmarker, markerAfterRollback_eq hne]
    by_cases hsource : source = .media
    · rw [if_pos hsource, if_pos hsource]
    · rw [if_neg hsource, if_neg hsource, hattempted.marker hsource]
  · exact hstage.transitions.trans hattempted.transitions

theorem restoredUnit_setTo {key path : String} (hset : (h.units key).SetTo path) :
    (restoredUnit table config source stopped started h key).SetTo path := by
  have hdowned : (if key ∈ started.map normalizeSystemdUnit then (h.units key).stop
      else h.units key).SetTo path := by
    split
    · exact hset.stop
    · exact hset
  unfold restoredUnit
  dsimp only
  split
  · exact hdowned.start
  · exact hdowned

/-- After the rollback the llm's unit is set to the model it was set to, and to the model of the
source mode when the modes differ in their models. -/
theorem Attempted.setTo_undone [systemd.Independent] {Failed : String → Prop}
    (hattempted : Attempted table config source target Failed h₀ h stopped started)
    (hrollback : rollbackTransition table config source target stopped started h = h')
    (hquiet : h'.rollbackErrors = h₀.rollbackErrors) :
    (table.changesLlmWeights source target = false → ∀ path,
      (h₀.units config.llmKey).SetTo path → (h'.units config.llmKey).SetTo path) ∧
    (table.changesLlmWeights source target = true → ∀ model, table.llmModel source = some model →
      (h'.units config.llmKey).SetTo (modelPath model)) := by
  obtain ⟨-, hrolled⟩ := rollbackTransition_spec hrollback
  obtain ⟨-, -, hllm⟩ := hrolled (hquiet.trans hattempted.rollbackErrors.symm) hattempted.answers
  constructor
  · intro hsame path hset
    rw [LlmRolledBack, llmRollbackAction, hsame] at hllm
    have heq : h'.units config.llmKey =
        restoredUnit table config source stopped started h config.llmKey := hllm
    rw [heq]
    exact restoredUnit_setTo (hattempted.setTo hsame path hset)
  · intro hchanges model hmodel
    rw [LlmRolledBack, llmRollbackAction, if_pos hchanges, hmodel] at hllm
    exact ⟨hllm.2, fun p hp => by rw [hllm.1] at hp; cases hp; rfl⟩

/-- The transition broke off at the llm's part or at the start of a service. -/
def TransitionError.RolledBack : TransitionError → Prop
  | .swap _ | .start _ _ => True
  | .stop _ | .record _ => False

/-- The unit whose own call was the failure. -/
def TransitionError.FailedUnit (config : Config) : TransitionError → String → Prop
  | .swap _, key => key = config.llmKey
  | .start unit _, key => key = normalizeSystemdUnit unit
  | .stop _, _ | .record _, _ => False

theorem transition_failed [systemd.Independent] {tsMs : Nat} {gov gov' : GovernorState}
    {e : TransitionError}
    (hfail : transition table config tsMs target gov h₀ = (.error e, gov', h'))
    (hstep : e.RolledBack) (hanswers : h₀.Answers) :
    target ≠ gov.currentMode ∧ gov' = gov ∧ ∃ stopped started h,
      Attempted table config gov.currentMode target (e.FailedUnit config) h₀ h stopped started ∧
      rollbackTransition table config gov.currentMode target stopped started h = h' := by
  unfold transition at hfail
  dsimp only at hfail
  split at hfail
  · cases hfail
  next hne =>
    refine ⟨hne, ?_⟩
    split at hfail
    · cases hfail
      exact hstep.elim
    next stopped h₁ hstop =>
      split at hfail
      next error stopped h₂ happly =>
        cases hfail
        refine ⟨rfl, stopped, [], h₂, ?_, rfl⟩
        have hattempted := attempted_swaps hanswers hstop happly
        exact { hattempted with
          kept := fun key hfailed => hattempted.kept key fun hkey => hfailed hkey.2 }
      next stopped h₂ happly =>
        have hattempted := attempted_swaps hanswers hstop happly
        obtain ⟨hfiles, hmarker, -⟩ := leaveMedia_spec gov.currentMode h₂
        split at hfail
        next unit error started h₃ hstart =>
          cases hfail
          refine ⟨rfl, stopped, started, h₃, ?_, rfl⟩
          have hattempted₂ := attempted_starts
            { hattempted with kept := fun key _ => hattempted.kept key fun hkey => hkey.1 rfl }
            hfiles hmarker hstart
          refine { hattempted₂ with kept := fun key hfailed => hattempted₂.kept key ?_ }
          rintro ⟨unit', error', heq, rfl⟩
          cases heq
          exact hfailed rfl
        next h₃ hstart =>
          split at hfail
          · cases hfail
            exact hstep.elim
          · cases hfail

theorem transition_error_governor {tsMs : Nat} {gov gov' : GovernorState} {e : TransitionError}
    (hfail : transition table config tsMs target gov h₀ = (.error e, gov', h')) : gov' = gov := by
  unfold transition at hfail
  dsimp only at hfail
  split at hfail
  · cases hfail
  · split at hfail
    · cases hfail
      rfl
    · split at hfail
      · cases hfail
        rfl
      · split at hfail
        · cases hfail
          rfl
        · split at hfail
          · cases hfail
            rfl
          · cases hfail

/-- A transition that fails leaves the governor as it was. When it broke off at the llm or at
the start of a service, the probes were answered and the rollback logged no error, the host is
put back as well. -/
theorem failed_transition_undone [systemd.Independent] (table : ModeTable) (config : Config)
    (tsMs : Nat) (target : Mode) (gov : GovernorState) (h : Host systemd)
    {e : TransitionError} {gov' : GovernorState} {h' : Host systemd}
    (hfail : transition table config tsMs target gov h = (.error e, gov', h')) :
    gov' = gov ∧ (e.RolledBack → h.Answers → h'.rollbackErrors = h.rollbackErrors →
      Undone table config gov.currentMode target (e.FailedUnit config) h h') := by
  refine ⟨transition_error_governor hfail, fun hstep hanswers hquiet => ?_⟩
  obtain ⟨hne, -, stopped, started, h₁, hattempted, hrollback⟩ :=
    transition_failed hfail hstep hanswers
  exact hattempted.undone hne hrollback hquiet

section Example

/-- A deployment with all the optional services. -/
def fullConfig : Config where
  governor := ⟨23, 6, true, ⟨500, 100⟩⟩
  services := {
    homeassistant := some "home-assistant.service"
    nextcloud := some "nextcloud.service"
    jellyfin := some "jellyfin.service" }

/-- A host on which the given units run, each with the model loaded. -/
def hostRunning (model : String) (units : List String) (calls : List Outcome) :
    Host .independent where
  units := fun unit =>
    { process := if unit ∈ units then some ⟨some (modelPath model)⟩ else none
      ownModel := some (modelPath model)
      loadedModel := some (modelPath model) }
  calls := calls

def dayUnits : List String :=
  ["genie-wakeword.service", "genie-core.service", "genie-ai-runtime.service",
    "genie-mqtt.service", "home-assistant.service"]

/-- A day whose night cannot load its model: Home Assistant had been stopped. -/
def failedSwapHost : Host .independent :=
  hostRunning "nemotron-4b-q4_k_m.gguf" dayUnits
    [.ok, .ok, .ok, .failed (.status "denied") .untouched]

theorem failed_transition_undone_swap :
    (transition modeTable fullConfig 0 .nightB {} failedSwapHost).1 =
        .error (.swap "systemctl daemon-reload failed: denied") ∧
      (transition modeTable fullConfig 0 .nightB {} failedSwapHost).2.1 = {} ∧
      Undone modeTable fullConfig .day .nightB (· = fullConfig.llmKey) failedSwapHost
        (transition modeTable fullConfig 0 .nightB {} failedSwapHost).2.2 := by
  have herror : (transition modeTable fullConfig 0 .nightB {} failedSwapHost).1 =
      .error (.swap "systemctl daemon-reload failed: denied") := by decide +kernel
  obtain ⟨hgov, hundone⟩ := failed_transition_undone modeTable fullConfig 0 .nightB {}
    failedSwapHost (Prod.ext herror rfl)
  exact ⟨herror, hgov, hundone trivial (fun _ hb => absurd hb not_mem_nil)
    (by decide +kernel)⟩

/-- Where the host is not as before. Pressure finds the broker down and cannot start it: the
day is restored without the cloud service, which it does not require. A night that cannot load
its model leaves the model of the day, not the one that the unit had. Media that cannot be left
gets its marker back, which the command had removed. The night meets a cloud service that does
not stop: Home Assistant stays down. The night is not recorded: the day goes on with the model
of the night. -/
theorem failed_transition_not_undone :
    (let host := hostRunning "nemotron-4b-q4_k_m.gguf" ["genie-core.service",
        "genie-wakeword.service", "genie-ai-runtime.service", "nextcloud.service"]
        [.ok, .failed (.status "masked") .untouched]
      let out := transition modeTable fullConfig 0 .pressure {} host
      out.1 = .error (.start "genie-mqtt" "systemctl start genie-mqtt failed: masked") ∧
        out.2.2.rollbackErrors = [] ∧ host.running "nextcloud.service" = true ∧
        out.2.2.running "nextcloud.service" = false) ∧
    (let host := hostRunning "Qwen3-4B-Q4_K_M.gguf" dayUnits
        [.ok, .ok, .ok, .failed (.status "denied") .untouched]
      let out := transition modeTable fullConfig 0 .nightB {} host
      out.1 = .error (.swap "systemctl daemon-reload failed: denied") ∧
        out.2.2.rollbackErrors = [] ∧
        (host.units "genie-ai-runtime.service").process =
          some ⟨some "/opt/geniepod/models/Qwen3-4B-Q4_K_M.gguf"⟩ ∧
        (out.2.2.units "genie-ai-runtime.service").process =
          some ⟨some "/opt/geniepod/models/nemotron-4b-q4_k_m.gguf"⟩) ∧
    (let host := hostRunning "nemotron-4b-q4_k_m.gguf" []
        [.failed (.os "read-only file system") .untouched]
      let out := transition modeTable fullConfig 0 .day { currentMode := .media } host
      out.1 = .error (.swap "read-only file system") ∧ out.2.2.rollbackErrors = [] ∧
        host.mediaMarker = false ∧ out.2.2.mediaMarker = true) ∧
    (let host := hostRunning "nemotron-4b-q4_k_m.gguf" ("nextcloud.service" :: dayUnits)
        [.ok, .failed .timeout .untouched]
      let out := transition modeTable fullConfig 0 .nightB {} host
      out.1 = .error (.stop "systemctl stop nextcloud.service timed out after 10s") ∧
        out.2.2.rollbackErrors = [] ∧ host.running "home-assistant.service" = true ∧
        out.2.2.running "home-assistant.service" = false) ∧
    (let host := hostRunning "nemotron-4b-q4_k_m.gguf" dayUnits
        [.ok, .ok, .ok, .ok, .ok, .failed (.os "database is locked") .untouched]
      let out := transition modeTable fullConfig 0 .nightB {} host
      out.1 = .error (.record "database is locked") ∧ out.2.1.currentMode = .day ∧
        out.2.2.rollbackErrors = [] ∧
        (out.2.2.units "genie-ai-runtime.service").process =
          some ⟨some "/opt/geniepod/models/nemotron-9b-q4.gguf"⟩) := by
  decide +kernel

end Example

end GenieClaw.Governor
