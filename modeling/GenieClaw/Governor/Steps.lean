import GenieClaw.Governor.Transition

/-!
# What the steps of a transition do to the units

One lemma for each loop of a transition and for each stage of its rollback, in terms of the
processes of the units. Units are told apart by the names that systemd completes.

* `startServices_spec`, `leaveMedia_spec`: what the loops of a transition leave.
* `rollbackTransition_spec`: what the rollback leaves.
-/

namespace GenieClaw.Governor

open List
/-- The unit of an alias, by its full name. -/
def Config.keyForAlias (config : Config) (serviceAlias : String) : Option String :=
  (config.serviceUnitForAlias serviceAlias).map normalizeSystemdUnit

def Config.llmKey (config : Config) : String := normalizeSystemdUnit config.llmServiceUnit

def StoppedService.key (s : StoppedService) : String := normalizeSystemdUnit s.unit

theorem Config.keyForAlias_of_unit {config : Config} {serviceAlias unit : String}
    (hunit : config.serviceUnitForAlias serviceAlias = some unit) :
    config.keyForAlias serviceAlias = some (normalizeSystemdUnit unit) := by
  rw [keyForAlias, hunit]
  rfl

variable {systemd : Systemd} {table : ModeTable} {config : Config} {h h' : Host systemd}

theorem mapLlmUnit_units (f : SystemUnit → SystemUnit) (key : String) :
    (h.mapUnit config.llmServiceUnit f).units key =
      if key = config.llmKey then f (h.units key) else h.units key :=
  Host.mapUnit_units _ _ _ _

/-! ## Forward -/

/-- What is known of the services a loop has stopped since the host was `h`. -/
def StoppedSince (config : Config) (aliases : List String) (h : Host systemd)
    (new : List StoppedService) : Prop :=
  ∀ s ∈ new, s.serviceAlias ∈ aliases ∧ config.serviceUnitForAlias s.serviceAlias = some s.unit ∧
    h.running s.key = true

/-- Exactly the given units have been stopped between the two hosts. -/
def ProcessesStopped (keys : List String) (h h' : Host systemd) : Prop :=
  ∀ key, h'.units key = if key ∈ keys then (h.units key).stop else h.units key

theorem processesStopped_nil (h : Host systemd) : ProcessesStopped [] h h := fun _ => by simp

theorem ProcessesStopped.cons {keys : List String} {unit : String} {h₁ h₂ h₃ : Host systemd}
    (hfirst : h₂.units = (h₁.mapUnit unit .stop).units) (hrest : ProcessesStopped keys h₂ h₃) :
    ProcessesStopped (normalizeSystemdUnit unit :: keys) h₁ h₃ := by
  intro key
  rw [hrest key, hfirst, Host.mapUnit_units]
  by_cases hkey : key = normalizeSystemdUnit unit
  · by_cases hmem : key ∈ keys
    · simp [hkey, SystemUnit.stop]
    · simp [hkey, SystemUnit.stop]
  · simp [hkey]

theorem ProcessesStopped.running {keys : List String} (hstopped : ProcessesStopped keys h h')
    (key : String) : h'.running key = (!decide (key ∈ keys) && h.running key) := by
  rw [Host.running, hstopped key]
  by_cases hmem : key ∈ keys
  · simp [hmem, SystemUnit.stop]
  · simp [hmem, Host.running]

theorem probe_spec {unit : String} {active : Bool} {h₁ : Host systemd}
    (hprobe : ServiceCtl.isActive unit h = (active, h₁)) :
    h.UnitsOnly h₁ ∧ h₁.units = h.units ∧
      (active = true → h.running (normalizeSystemdUnit unit) = true) ∧
      (h.Answers → active = h.running (normalizeSystemdUnit unit)) := by
  obtain rfl : active = (ServiceCtl.isActive unit h).1 := by rw [hprobe]
  obtain rfl : h₁ = (ServiceCtl.isActive unit h).2 := by rw [hprobe]
  exact ⟨ServiceCtl.isActive_unitsOnly unit h, rfl, ServiceCtl.running_of_isActive,
    fun hanswers => ServiceCtl.isActive_fst hanswers unit⟩

variable {stopped : List StoppedService}

theorem stopServices_cons [systemd.Independent] {a : String} {rest : List String}
    {result : Except String (List StoppedService)}
    (hstop : stopServices config (a :: rest) stopped h = (result, h')) :
    (∃ h₁, h.UnitsOnly h₁ ∧ h₁.units = h.units ∧
      (h.Answers → ∀ key, config.keyForAlias a = some key → h.running key = false) ∧
      stopServices config rest stopped h₁ = (result, h')) ∨
    ∃ unit h₁, config.serviceUnitForAlias a = some unit ∧ h.UnitsOnly h₁ ∧
      h.running (normalizeSystemdUnit unit) = true ∧
      ((∃ e, result = .error e ∧ h' = h₁) ∨
        h₁.units = (h.mapUnit unit .stop).units ∧
          stopServices config rest (stopped ++ [⟨a, unit⟩]) h₁ = (result, h')) := by
  rw [stopServices] at hstop
  split at hstop
  next hnone =>
    refine .inl ⟨h, .refl h, rfl, fun _ key hkey => ?_, hstop⟩
    rw [Config.keyForAlias, hnone] at hkey
    cases hkey
  next unit hunit =>
    split at hstop
    next h₁ hprobe =>
      obtain ⟨honly, hsame, -, hactive⟩ := probe_spec hprobe
      refine .inl ⟨h₁, honly, hsame, fun hanswers key hkey => ?_, hstop⟩
      rw [Config.keyForAlias_of_unit hunit] at hkey
      cases hkey
      exact (hactive hanswers).symm
    next h₁ hprobe =>
      obtain ⟨honly, hsame, hrunning, -⟩ := probe_spec hprobe
      split at hstop
      next e h₂ hstopUnit =>
        cases hstop
        exact .inr ⟨unit, _, hunit, honly.trans (ServiceCtl.stop_spec hstopUnit).1,
          hrunning rfl, .inl ⟨e, rfl, rfl⟩⟩
      next h₂ hstopUnit =>
        obtain ⟨honly₂, hunits | ⟨⟨e, he⟩, -⟩⟩ := ServiceCtl.stop_spec hstopUnit
        · refine .inr ⟨unit, h₂, hunit, honly.trans honly₂, hrunning rfl, .inr ⟨?_, hstop⟩⟩
          funext key
          rw [hunits, Host.mapUnit_units, Host.mapUnit_units, hsame]
        · cases he

theorem stopServices_spec [systemd.Independent] {aliases : List String}
    {result : Except String (List StoppedService)}
    (hstop : stopServices config aliases stopped h = (result, h')) :
    h.UnitsOnly h' ∧ ∀ all, result = .ok all → ∃ new, all = stopped ++ new ∧
      StoppedSince config aliases h new ∧
      ProcessesStopped (new.map StoppedService.key) h h' ∧
      (h.Answers → ∀ serviceAlias ∈ aliases, ∀ key,
        config.keyForAlias serviceAlias = some key → h'.running key = false) := by
  induction aliases generalizing stopped h with
  | nil =>
    cases hstop
    refine ⟨.refl _, fun all hall => ⟨[], ?_, ?_, processesStopped_nil _, ?_⟩⟩
    · cases hall
      exact (append_nil _).symm
    · exact fun s hs => absurd hs not_mem_nil
    · exact fun _ a ha => absurd ha not_mem_nil
  | cons a rest ih =>
    rcases stopServices_cons hstop with
      ⟨h₁, honly₁, hsame, hdownA, hrest⟩ | ⟨unit, h₁, hunit, honly₁, hrunning, hcase⟩
    · obtain ⟨honly, hok⟩ := ih hrest
      refine ⟨honly₁.trans honly, fun all hall => ?_⟩
      obtain ⟨new, happend, hsince, hstopped, hdown⟩ := hok all hall
      have hstopped' : ProcessesStopped (new.map StoppedService.key) h h' :=
        fun key => by rw [hstopped key, hsame]
      refine ⟨new, happend, fun s hs => ?_, hstopped', fun hanswers b hb key hkey => ?_⟩
      · obtain ⟨hmem, hs', hrun⟩ := hsince s hs
        exact ⟨mem_cons_of_mem _ hmem, hs', by rwa [Host.running, ← hsame]⟩
      · rcases List.mem_cons.mp hb with rfl | hb
        · rw [hstopped'.running, hdownA hanswers key hkey, Bool.and_false]
        · exact hdown (honly₁.answers hanswers) b hb key hkey
    · rcases hcase with ⟨e, rfl, rfl⟩ | ⟨hunits, hrest⟩
      · exact ⟨honly₁, fun all hall => by cases hall⟩
      obtain ⟨honly, hok⟩ := ih hrest
      refine ⟨honly₁.trans honly, fun all hall => ?_⟩
      obtain ⟨new, happend, hsince, hstopped, hdown⟩ := hok all hall
      have hstopped' :
          ProcessesStopped (((⟨a, unit⟩ : StoppedService) :: new).map StoppedService.key) h h' :=
        ProcessesStopped.cons hunits hstopped
      refine ⟨⟨a, unit⟩ :: new, by rw [happend, append_assoc]; rfl, fun s hs => ?_,
        hstopped', fun hanswers b hb key hkey => ?_⟩
      · rcases List.mem_cons.mp hs with rfl | hs
        · exact ⟨mem_cons_self, hunit, hrunning⟩
        · obtain ⟨hmem, hs', hrun⟩ := hsince s hs
          refine ⟨mem_cons_of_mem _ hmem, hs', ?_⟩
          rw [Host.running, hunits, Host.mapUnit_units] at hrun
          split at hrun
          · cases hrun
          · exact hrun
      · rcases List.mem_cons.mp hb with rfl | hb
        · rw [Config.keyForAlias_of_unit hunit] at hkey
          cases hkey
          rw [hstopped'.running]
          simp [StoppedService.key]
        · exact hdown (honly₁.answers hanswers) b hb key hkey

theorem startServices_cons [systemd.Independent] {a : String} {rest started started' : List String}
    {result : Except (String × String) Unit}
    (hstart : startServices config (a :: rest) started h = (result, started', h')) :
    (∃ h₁, h.UnitsOnly h₁ ∧ h₁.units = h.units ∧
      (∀ key, config.keyForAlias a = some key → h.running key = true) ∧
      startServices config rest started h₁ = (result, started', h')) ∨
    ∃ unit h₁, config.serviceUnitForAlias a = some unit ∧ h.UnitsOnly h₁ ∧
      (h.Answers → h.running (normalizeSystemdUnit unit) = false) ∧
      ((∃ e, result = .error (unit, e) ∧ started' = started ∧ h' = h₁ ∧
          (h₁.units = (h.mapUnit unit .start).units ∨ h₁.units = h.units)) ∨
        h₁.units = (h.mapUnit unit .start).units ∧
          startServices config rest (started ++ [unit]) h₁ = (result, started', h')) := by
  rw [startServices] at hstart
  split at hstart
  next hnone =>
    refine .inl ⟨h, .refl h, rfl, fun key hkey => ?_, hstart⟩
    rw [Config.keyForAlias, hnone] at hkey
    cases hkey
  next unit hunit =>
    split at hstart
    next h₁ hprobe =>
      obtain ⟨honly, hsame, hrunning, -⟩ := probe_spec hprobe
      refine .inl ⟨h₁, honly, hsame, fun key hkey => ?_, hstart⟩
      rw [Config.keyForAlias_of_unit hunit] at hkey
      cases hkey
      exact hrunning rfl
    next h₁ hprobe =>
      obtain ⟨honly, hsame, -, hactive⟩ := probe_spec hprobe
      have hstarted : (h₁.mapUnit unit .start).units = (h.mapUnit unit .start).units := by
        funext key
        rw [Host.mapUnit_units, Host.mapUnit_units, hsame]
      refine .inr ⟨unit, ?_⟩
      split at hstart
      next e h₂ hstartUnit =>
        cases hstart
        obtain ⟨honly₂, hunits⟩ := ServiceCtl.start_spec hstartUnit
        refine ⟨_, hunit, honly.trans honly₂, fun hanswers => (hactive hanswers).symm,
          .inl ⟨e, rfl, rfl, rfl, ?_⟩⟩
        exact hunits.imp (·.trans hstarted) fun hsame₂ => hsame₂.2.trans hsame
      next h₂ hstartUnit =>
        obtain ⟨honly₂, hunits | ⟨⟨e, he⟩, -⟩⟩ := ServiceCtl.start_spec hstartUnit
        · exact ⟨h₂, hunit, honly.trans honly₂, fun hanswers => (hactive hanswers).symm,
            .inr ⟨hunits.trans hstarted, hstart⟩⟩
        · cases he

theorem SystemUnit.start_start (s : SystemUnit) : s.start.start = s.start := rfl

/-- The unit whose start is the failure of the loop. -/
def FailedUnit (result : Except (String × String) Unit) (key : String) : Prop :=
  ∃ unit e, result = .error (unit, e) ∧ normalizeSystemdUnit unit = key

/-- The second loop starts units that did not run and touches no other; when it succeeds
every service of its list runs. -/
theorem startServices_spec [systemd.Independent] {aliases started started' : List String}
    {result : Except (String × String) Unit}
    (hstart : startServices config aliases started h = (result, started', h')) :
    h.UnitsOnly h' ∧ ∃ new, started' = started ++ new ∧
      (∀ unit ∈ new, ∃ serviceAlias ∈ aliases,
        config.serviceUnitForAlias serviceAlias = some unit) ∧
      (h.Answers → ∀ unit ∈ new, h.running (normalizeSystemdUnit unit) = false) ∧
      (∀ key, h'.units key = h.units key ∨
        h'.units key = (h.units key).start ∧
          (key ∈ new.map normalizeSystemdUnit ∨ FailedUnit result key)) ∧
      (result = .ok () → ∀ serviceAlias ∈ aliases, ∀ key,
        config.keyForAlias serviceAlias = some key → h'.running key = true) := by
  induction aliases generalizing started h with
  | nil =>
    cases hstart
    exact ⟨.refl _, [], (append_nil _).symm, fun unit hunit => absurd hunit not_mem_nil,
      fun _ unit hunit => absurd hunit not_mem_nil, fun _ => .inl rfl,
      fun _ a ha => absurd ha not_mem_nil⟩
  | cons a rest ih =>
    rcases startServices_cons hstart with
      ⟨h₁, honly₁, hsame, hupA, hrest⟩ | ⟨unit, h₁, hunit, honly₁, hdownA, hcase⟩
    · obtain ⟨honly, new, happend, haliases, hfresh, hunits, hup⟩ := ih hrest
      have hunits' : ∀ key, h'.units key = h.units key ∨
          h'.units key = (h.units key).start ∧
            (key ∈ new.map normalizeSystemdUnit ∨ FailedUnit result key) := by
        intro key
        rw [← hsame]
        exact hunits key
      refine ⟨honly₁.trans honly, new, happend, fun unit hmem => ?_, fun hanswers unit hmem => ?_,
        hunits', fun hok b hb key hkey => ?_⟩
      · obtain ⟨b, hb, hunit⟩ := haliases unit hmem
        exact ⟨b, mem_cons_of_mem _ hb, hunit⟩
      · rw [Host.running, ← hsame]
        exact hfresh (honly₁.answers hanswers) unit hmem
      · rcases List.mem_cons.mp hb with rfl | hb
        · have hrunning := hupA key hkey
          rcases hunits' key with hkept | ⟨hstarted, -⟩
          · rwa [Host.running, hkept]
          · rw [Host.running, hstarted]
            rfl
        · exact hup hok b hb key hkey
    · rcases hcase with ⟨e, rfl, rfl, rfl, hunits⟩ | ⟨hunits₁, hrest⟩
      · refine ⟨honly₁, [], (append_nil _).symm,
          fun unit hunit => absurd hunit not_mem_nil,
          fun _ unit hunit => absurd hunit not_mem_nil, fun key => ?_,
          fun hok => by cases hok⟩
        rcases hunits with hunits | hunits
        · rw [hunits, Host.mapUnit_units]
          split
          next hkey => exact .inr ⟨rfl, .inr ⟨unit, e, rfl, hkey.symm⟩⟩
          next => exact .inl rfl
        · exact .inl (congrFun hunits key)
      · obtain ⟨honly, new, happend, haliases, hfresh, hunits, hup⟩ := ih hrest
        have hfirst : ∀ key, h₁.units key =
            if key = normalizeSystemdUnit unit then (h.units key).start else h.units key := by
          intro key
          rw [hunits₁, Host.mapUnit_units]
        have hrunning₁ : h₁.running (normalizeSystemdUnit unit) = true := by
          rw [Host.running, hfirst, if_pos rfl]
          rfl
        refine ⟨honly₁.trans honly, unit :: new, by rw [happend, append_assoc]; rfl,
          fun other hother => ?_, fun hanswers other hother => ?_, fun key => ?_,
          fun hok b hb key hkey => ?_⟩
        · rcases List.mem_cons.mp hother with rfl | hother
          · exact ⟨a, mem_cons_self, hunit⟩
          · obtain ⟨b, hb, hunitB⟩ := haliases other hother
            exact ⟨b, mem_cons_of_mem _ hb, hunitB⟩
        · rcases List.mem_cons.mp hother with rfl | hother
          · exact hdownA hanswers
          · have hdown := hfresh (honly₁.answers hanswers) other hother
            rw [Host.running, hfirst] at hdown
            split at hdown
            · cases hdown
            · exact hdown
        · by_cases hkey : key = normalizeSystemdUnit unit
          · have hstart₁ : h₁.units key = (h.units key).start := by rw [hfirst, if_pos hkey]
            have hmem : key ∈ (unit :: new).map normalizeSystemdUnit := hkey ▸ mem_cons_self
            rcases hunits key with hkept | ⟨hstarted, -⟩
            · exact .inr ⟨hkept.trans hstart₁, .inl hmem⟩
            · exact .inr ⟨by rw [hstarted, hstart₁, SystemUnit.start_start], .inl hmem⟩
          · have hsame₁ : h₁.units key = h.units key := by rw [hfirst, if_neg hkey]
            rw [← hsame₁]
            exact (hunits key).imp id fun hstarted =>
              ⟨hstarted.1, hstarted.2.imp (mem_cons_of_mem _) id⟩
        · rcases List.mem_cons.mp hb with rfl | hb
          · rw [Config.keyForAlias_of_unit hunit] at hkey
            cases hkey
            rcases hunits (normalizeSystemdUnit unit) with hkept | ⟨hstarted, -⟩
            · rwa [Host.running, hkept]
            · rw [Host.running, hstarted]
              rfl
          · exact hup hok b hb key hkey

/-- The unit will load the model, and has it loaded if it runs. -/
def SystemUnit.SetTo (path : String) (s : SystemUnit) : Prop :=
  s.loadedModel = some path ∧ ∀ p, s.process = some p → p.model = some path

theorem SystemUnit.SetTo.stop {path : String} {s : SystemUnit} (hset : s.SetTo path) :
    s.stop.SetTo path :=
  ⟨hset.1, fun _ hp => by cases hp⟩

theorem SystemUnit.SetTo.start {path : String} {s : SystemUnit} (hset : s.SetTo path) :
    s.start.SetTo path := by
  refine ⟨hset.1, fun p hp => ?_⟩
  simp only [SystemUnit.start, Option.some.injEq] at hp
  subst hp
  cases hprocess : s.process with
  | none => exact hset.1
  | some q => exact hset.2 q hprocess

/-- The services that a transition into a mode may stop. -/
def ModeTable.Stops (table : ModeTable) (target : Mode) (serviceAlias : String) : Prop :=
  serviceAlias ∈ table.stoppedServices target ∨ target = .media ∧ serviceAlias = "llm"

variable {result : Except String Unit}

theorem applyLlmSwaps_media [systemd.Independent] {source : Mode}
    {stopped stopped' : List StoppedService}
    (happly : applyLlmSwaps table config source .media stopped h = (result, stopped', h')) :
    h.UnitsOnly h' ∧
      (h'.units = h.units ∨ h'.units = (h.mapUnit config.llmServiceUnit .stop).units) ∧
      ∃ new, stopped' = stopped ++ new ∧ StoppedSince config ["llm"] h new ∧
        (result = .ok () → ProcessesStopped (new.map StoppedService.key) h h' ∧
          (h.Answers → h'.running config.llmKey = false)) := by
  rw [applyLlmSwaps, if_pos rfl] at happly
  split at happly
  next h₁ hprobe =>
    cases happly
    obtain ⟨honly, hsame, -, hactive⟩ := probe_spec hprobe
    refine ⟨honly, .inl hsame, [], (append_nil _).symm,
      fun s hs => absurd hs not_mem_nil, fun _ => ⟨fun key => ?_, fun hanswers => ?_⟩⟩
    · rw [hsame]
      exact (if_neg not_mem_nil).symm
    · rw [Host.running, hsame]
      exact (hactive hanswers).symm
  next h₁ hprobe =>
    obtain ⟨honly, hsame, hrunning, -⟩ := probe_spec hprobe
    have hmap : (h₁.mapUnit config.llmServiceUnit .stop).units =
        (h.mapUnit config.llmServiceUnit .stop).units := by
      funext key
      rw [Host.mapUnit_units, Host.mapUnit_units, hsame]
    split at happly
    next e h₂ hstop =>
      cases happly
      obtain ⟨honly₂, hunits⟩ := ServiceCtl.stop_spec hstop
      refine ⟨honly.trans honly₂, ?_, [], (append_nil _).symm,
        fun s hs => absurd hs not_mem_nil, fun hok => by cases hok⟩
      rcases hunits with hunits | ⟨-, hunits⟩
      · exact .inr (hunits.trans hmap)
      · exact .inl (hunits.trans hsame)
    next h₂ hstop =>
      cases happly
      obtain ⟨honly₂, hunits | ⟨⟨e, he⟩, -⟩⟩ := ServiceCtl.stop_spec hstop
      · have hstopped : ProcessesStopped [config.llmKey] h h' :=
          (processesStopped_nil h').cons (hunits.trans hmap)
        refine ⟨honly.trans honly₂, .inr (hunits.trans hmap), [⟨"llm", config.llmServiceUnit⟩], rfl,
          fun s hs => ?_, fun _ => ⟨hstopped, fun _ => ?_⟩⟩
        · obtain rfl := List.mem_singleton.mp hs
          exact ⟨mem_singleton_self _, config.serviceUnitForAlias_llm, hrunning rfl⟩
        · rw [hstopped.running]
          simp
      · cases he

theorem applyLlmSwaps_other [systemd.Independent] {source target : Mode}
    {stopped stopped' : List StoppedService}
    (htarget : target ≠ .media)
    (happly : applyLlmSwaps table config source target stopped h = (result, stopped', h')) :
    h.UnitsOnly h' ∧ stopped' = stopped ∧
      (∀ key, key ≠ config.llmKey → (h'.units key).process = (h.units key).process) ∧
      (table.llmModelForTransition source target = none → result = .ok () ∧ h' = h) ∧
      ∀ model, table.llmModelForTransition source target = some model → result = .ok () →
        (h'.units config.llmKey).process = some ⟨some (modelPath model)⟩ ∧
        (h'.units config.llmKey).loadedModel = some (modelPath model) := by
  rw [applyLlmSwaps, if_neg htarget] at happly
  cases hmodel : table.llmModelForTransition source target with
  | none =>
    rw [hmodel] at happly
    cases happly
    exact ⟨.refl _, rfl, fun _ _ => rfl, fun _ => ⟨rfl, rfl⟩, fun model hsome => by cases hsome⟩
  | some model =>
    rw [hmodel] at happly
    dsimp only at happly
    rcases hswap : ServiceCtl.swapLlmModel config.llmServiceUnit (modelPath model) h with ⟨r, h₁⟩
    rw [hswap] at happly
    cases happly
    obtain ⟨honly, hother, hllm⟩ := ServiceCtl.swapLlmModel_spec hswap
    refine ⟨honly, rfl, hother, fun hnone => (by cases hnone), fun m hm => ?_⟩
    cases hm
    exact hllm

/-! ## Rollback -/

/-- A stage of the rollback: it may log errors, and it writes no history. -/
structure RollbackStage (h h' : Host systemd) : Prop where
  transitions : h'.transitions = h.transitions
  answers : h.Answers → h'.Answers
  filesOk : h.FilesOk → h'.FilesOk
  errors : h.rollbackErrors <+: h'.rollbackErrors

namespace RollbackStage

theorem of_unitsOnly (honly : h.UnitsOnly h') : RollbackStage h h' :=
  ⟨honly.transitions, honly.answers, honly.filesOk, honly.rollbackErrors ▸ prefix_rfl⟩

theorem refl (h : Host systemd) : RollbackStage h h := of_unitsOnly (.refl h)

theorem trans {a b c : Host systemd} (hab : RollbackStage a b) (hbc : RollbackStage b c) :
    RollbackStage a c :=
  ⟨hbc.transitions.trans hab.transitions, hbc.answers ∘ hab.answers, hbc.filesOk ∘ hab.filesOk,
    hab.errors.trans hbc.errors⟩

theorem quiet {a b c : Host systemd} (hab : RollbackStage a b) (hbc : RollbackStage b c)
    (hquiet : c.rollbackErrors = a.rollbackErrors) :
    b.rollbackErrors = a.rollbackErrors ∧ c.rollbackErrors = b.rollbackErrors := by
  have hlength := hbc.errors.length_le
  rw [hquiet] at hlength
  have heq := (hab.errors.eq_of_length_le hlength).symm
  exact ⟨heq, hquiet.trans heq.symm⟩

end RollbackStage

theorem logged_spec (result : Except String Unit) (honly : h.UnitsOnly h') :
    RollbackStage h (logged (result, h')) ∧
      (logged (result, h')).mediaMarker = h.mediaMarker ∧
      (logged (result, h')).units = h'.units ∧
      ((logged (result, h')).rollbackErrors = h.rollbackErrors → result = .ok ()) := by
  cases result with
  | ok => exact ⟨.of_unitsOnly honly, honly.mediaMarker, rfl, fun _ => rfl⟩
  | error e =>
    refine ⟨⟨honly.transitions, honly.answers, honly.filesOk, ?_⟩, honly.mediaMarker, rfl,
      fun hquiet => ?_⟩
    · exact ⟨[e], by rw [← honly.rollbackErrors]; rfl⟩
    · have hlength := congrArg List.length hquiet
      rw [← honly.rollbackErrors] at hlength
      simp [logged, Host.logRollbackError] at hlength

theorem logged_call {units : String → SystemUnit}
    (hspec : h.UnitsOnly h' ∧ (h'.units = units ∨ (∃ e, result = .error e) ∧ h'.units = h.units)) :
    RollbackStage h (logged (result, h')) ∧
      (logged (result, h')).mediaMarker = h.mediaMarker ∧
      ((logged (result, h')).rollbackErrors = h.rollbackErrors →
        (logged (result, h')).units = units) := by
  obtain ⟨honly, hunits⟩ := hspec
  obtain ⟨hstage, hmarker, hsame, hok⟩ := logged_spec result honly
  refine ⟨hstage, hmarker, fun hquiet => hsame.trans ?_⟩
  rcases hunits with hunits | ⟨⟨e, he⟩, -⟩
  · exact hunits
  · rw [hok hquiet] at he
    cases he

theorem rollbackStops_spec [systemd.Independent] (started : List String) (h : Host systemd) :
    RollbackStage h (rollbackStops started h) ∧
      (rollbackStops started h).mediaMarker = h.mediaMarker ∧
      ((rollbackStops started h).rollbackErrors = h.rollbackErrors →
        ProcessesStopped (started.map normalizeSystemdUnit) h (rollbackStops started h)) := by
  have hloop : ∀ (units : List String) (h : Host systemd),
      let after := units.foldl (fun h unit => logged (ServiceCtl.stop unit h)) h
      RollbackStage h after ∧ after.mediaMarker = h.mediaMarker ∧
        (after.rollbackErrors = h.rollbackErrors →
          ProcessesStopped (units.map normalizeSystemdUnit) h after) := by
    intro units
    induction units with
    | nil => exact fun h => ⟨.refl h, rfl, fun _ => processesStopped_nil h⟩
    | cons unit rest ih =>
      intro h
      rw [foldl_cons]
      rcases hstop : ServiceCtl.stop unit h with ⟨result, h₁⟩
      obtain ⟨hfirst, hmarker₁, hunits⟩ := logged_call (ServiceCtl.stop_spec hstop)
      obtain ⟨hrest, hmarker, hstopped⟩ := ih (logged (result, h₁))
      refine ⟨hfirst.trans hrest, hmarker.trans hmarker₁, fun hquiet => ?_⟩
      obtain ⟨hquiet₁, hquiet₂⟩ := hfirst.quiet hrest hquiet
      exact ProcessesStopped.cons (hunits hquiet₁) (hstopped hquiet₂)
  obtain ⟨hstage, hmarker, hstopped⟩ := hloop started.reverse h
  refine ⟨hstage, hmarker, fun hquiet key => ?_⟩
  rw [rollbackStops, hstopped hquiet key]
  simp only [map_reverse, mem_reverse]

theorem rollbackStarts_spec [systemd.Independent] (config : Config) (aliases : List String)
    (h : Host systemd) :
    RollbackStage h (rollbackStarts config aliases h) ∧
      (rollbackStarts config aliases h).mediaMarker = h.mediaMarker ∧
      ((rollbackStarts config aliases h).rollbackErrors = h.rollbackErrors →
        ∀ key, (rollbackStarts config aliases h).units key =
          if key ∈ aliases.filterMap config.keyForAlias then (h.units key).start
          else h.units key) := by
  induction aliases generalizing h with
  | nil => exact ⟨.refl h, rfl, fun _ key => rfl⟩
  | cons a rest ih =>
    rw [rollbackStarts, foldl_cons]
    split
    next hnone =>
      have hkeyA : config.keyForAlias a = none := by rw [Config.keyForAlias, hnone]; rfl
      rw [filterMap_cons_none hkeyA]
      exact ih h
    next unit hunit =>
      rw [filterMap_cons_some (Config.keyForAlias_of_unit hunit)]
      rcases hstart : ServiceCtl.start unit h with ⟨result, h₁⟩
      obtain ⟨hfirst, hmarker₁, hunits⟩ := logged_call (ServiceCtl.start_spec hstart)
      obtain ⟨hrest, hmarker, hstarted⟩ := ih (logged (result, h₁))
      refine ⟨hfirst.trans hrest, hmarker.trans hmarker₁, fun hquiet key => ?_⟩
      obtain ⟨hquiet₁, hquiet₂⟩ := hfirst.quiet hrest hquiet
      refine (hstarted hquiet₂ key).trans ?_
      rw [hunits hquiet₁, Host.mapUnit_units]
      by_cases hkey : key = normalizeSystemdUnit unit
      · by_cases hmem : key ∈ rest.filterMap config.keyForAlias
        · simp [hkey, SystemUnit.start_start]
        · simp [hkey, SystemUnit.start_start]
      · simp [hkey]

theorem logRollbackError_stage (e : String) (h : Host systemd) :
    RollbackStage h (h.logRollbackError e) :=
  ⟨rfl, id, id, prefix_append _ _⟩

theorem logRollbackError_ne (e : String) (h : Host systemd) :
    (h.logRollbackError e).rollbackErrors ≠ h.rollbackErrors := by
  intro heq
  have hlength := congrArg List.length heq
  simp [Host.logRollbackError] at hlength

/-- A call on the marker leaves the units, the history and the log alone. -/
structure FilesOnly (h h' : Host systemd) : Prop where
  units : h'.units = h.units
  transitions : h'.transitions = h.transitions
  rollbackErrors : h'.rollbackErrors = h.rollbackErrors
  probes : h'.probes = h.probes
  files : h'.files <:+ h.files

theorem FilesOnly.refl (h : Host systemd) : FilesOnly h h := ⟨rfl, rfl, rfl, rfl, suffix_rfl⟩

theorem FilesOnly.stage (hfiles : FilesOnly h h') : RollbackStage h h' where
  transitions := hfiles.transitions
  answers := fun hanswers => by rwa [Host.Answers, hfiles.probes]
  filesOk := fun hok outcome hmem =>
    hok outcome (hfiles.files.mem hmem)
  errors := hfiles.rollbackErrors ▸ prefix_rfl

theorem createRunDir_spec (h : Host systemd) :
    FilesOnly h h.createRunDir.2 ∧ h.createRunDir.2.mediaMarker = h.mediaMarker := by
  unfold Host.createRunDir
  split
  · exact ⟨⟨rfl, rfl, rfl, rfl, tail_suffix _⟩, rfl⟩
  · exact ⟨⟨rfl, rfl, rfl, rfl, tail_suffix _⟩, rfl⟩

theorem writeMarker_spec (h : Host systemd) :
    FilesOnly h h.writeMarker.2 ∧
      (h.writeMarker.1 = .ok () → h.writeMarker.2.mediaMarker = true) := by
  unfold Host.writeMarker
  split
  · exact ⟨⟨rfl, rfl, rfl, rfl, tail_suffix _⟩, fun _ => rfl⟩
  · split
    · exact ⟨⟨rfl, rfl, rfl, rfl, tail_suffix _⟩, fun hok => by cases hok⟩
    · exact ⟨⟨rfl, rfl, rfl, rfl, tail_suffix _⟩, fun hok => by cases hok⟩

theorem removeMarker_spec (h : Host systemd) :
    FilesOnly h h.removeMarker.2 ∧
      ((∃ e, h.removeMarker.1 = .error (.other e)) ∨ h.removeMarker.2.mediaMarker = false) := by
  unfold Host.removeMarker
  split
  · split
    · exact ⟨⟨rfl, rfl, rfl, rfl, tail_suffix _⟩, .inr rfl⟩
    next hmarker =>
      exact ⟨⟨rfl, rfl, rfl, rfl, tail_suffix _⟩, .inr (Bool.eq_false_iff.mpr hmarker)⟩
  · split
    · exact ⟨⟨rfl, rfl, rfl, rfl, tail_suffix _⟩, .inl ⟨_, rfl⟩⟩
    · exact ⟨⟨rfl, rfl, rfl, rfl, tail_suffix _⟩, .inl ⟨_, rfl⟩⟩

theorem nextFile_of_filesOk (hok : h.FilesOk) : h.nextFile = .ok := by
  unfold Host.nextFile
  cases hfiles : h.files with
  | nil => rfl
  | cons outcome _ => exact hok outcome (hfiles ▸ mem_cons_self)

theorem createRunDir_of_filesOk (hok : h.FilesOk) : h.createRunDir.1 = .ok () := by
  rw [Host.createRunDir, nextFile_of_filesOk hok]

theorem writeMarker_of_filesOk (hok : h.FilesOk) : h.writeMarker.1 = .ok () := by
  rw [Host.writeMarker, nextFile_of_filesOk hok]

theorem removeMarker_of_filesOk (hok : h.FilesOk) :
    (h.removeMarker.1 = .ok () ∨ h.removeMarker.1 = .error .notFound) ∧
      h.removeMarker.2.mediaMarker = false := by
  rw [Host.removeMarker, nextFile_of_filesOk hok]
  dsimp only
  split
  · exact ⟨.inl rfl, rfl⟩
  next hmarker => exact ⟨.inr rfl, Bool.eq_false_iff.mpr hmarker⟩

theorem leaveMedia_spec (source : Mode) (h : Host systemd) :
    FilesOnly h (if source = .media then h.removeMarker.2 else h) ∧
      (source ≠ .media →
        (if source = .media then h.removeMarker.2 else h).mediaMarker = h.mediaMarker) ∧
      (source = .media → h.FilesOk →
        (if source = .media then h.removeMarker.2 else h).mediaMarker = false) := by
  split
  next hmedia =>
    exact ⟨(removeMarker_spec h).1, fun hnot => absurd hmedia hnot,
      fun _ hok => (removeMarker_of_filesOk hok).2⟩
  next hnot => exact ⟨.refl h, fun _ => rfl, fun hmedia => absurd hmedia hnot⟩

/-- The marker after a rollback that logs nothing. -/
def markerAfterRollback (source target : Mode) (before : Bool) : Bool :=
  match mediaMarkerRollbackAction source target with
  | .restore => true
  | .remove => false
  | .unchanged => before

theorem rollbackMarker_spec (source target : Mode) (h : Host systemd) :
    RollbackStage h (rollbackMarker source target h) ∧
      (rollbackMarker source target h).units = h.units ∧
      ((rollbackMarker source target h).rollbackErrors = h.rollbackErrors →
        (rollbackMarker source target h).mediaMarker =
          markerAfterRollback source target h.mediaMarker) := by
  unfold rollbackMarker markerAfterRollback
  cases mediaMarkerRollbackAction source target with
  | restore =>
    obtain ⟨hdir, -⟩ := createRunDir_spec h
    rcases hcreate : h.createRunDir with ⟨result, h₁⟩
    rw [hcreate] at hdir
    cases result with
    | error e =>
      refine ⟨hdir.stage.trans (logRollbackError_stage e h₁), hdir.units, fun hquiet => ?_⟩
      exact absurd (hquiet.trans hdir.rollbackErrors.symm) (logRollbackError_ne e h₁)
    | ok =>
      dsimp only
      obtain ⟨hwrite, hmarker⟩ := writeMarker_spec h₁
      rcases hwritten : h₁.writeMarker with ⟨result, h₂⟩
      rw [hwritten] at hwrite hmarker
      have hboth : RollbackStage h h₂ := hdir.stage.trans hwrite.stage
      have hunits : h₂.units = h.units := hwrite.units.trans hdir.units
      cases result with
      | ok => exact ⟨hboth, hunits, fun _ => hmarker rfl⟩
      | error e =>
        refine ⟨hboth.trans (logRollbackError_stage e h₂), hunits, fun hquiet => ?_⟩
        exact absurd (hquiet.trans (hwrite.rollbackErrors.trans hdir.rollbackErrors).symm)
          (logRollbackError_ne e h₂)
  | remove =>
    obtain ⟨hfiles, hgone⟩ := removeMarker_spec h
    rcases hremove : h.removeMarker with ⟨result, h₁⟩
    rw [hremove] at hfiles hgone
    match result with
    | .ok () =>
      refine ⟨hfiles.stage, hfiles.units, fun _ => ?_⟩
      exact hgone.resolve_left fun ⟨e, he⟩ => by cases he
    | .error .notFound =>
      refine ⟨hfiles.stage, hfiles.units, fun _ => ?_⟩
      exact hgone.resolve_left fun ⟨e, he⟩ => by cases he
    | .error (.other e) =>
      refine ⟨hfiles.stage.trans (logRollbackError_stage e h₁), hfiles.units, fun hquiet => ?_⟩
      exact absurd (hquiet.trans hfiles.rollbackErrors.symm) (logRollbackError_ne e h₁)
  | unchanged => exact ⟨.refl h, rfl, fun _ => rfl⟩

/-- What the last stage of a rollback that logs nothing makes of the llm's unit. -/
def LlmRolledBack (table : ModeTable) (source target : Mode) (before after : SystemUnit) : Prop :=
  match llmRollbackAction table source target with
  | .restoreModel model =>
    after.process = some ⟨some (modelPath model)⟩ ∧ after.loadedModel = some (modelPath model)
  | .stopService => after.process = none
  | .unchanged => after = before

theorem rollbackLlm_spec [systemd.Independent] (table : ModeTable) (config : Config)
    (source target : Mode) (h : Host systemd) :
    RollbackStage h (rollbackLlm table config source target h) ∧
      (rollbackLlm table config source target h).mediaMarker = h.mediaMarker ∧
      (∀ key, key ≠ config.llmKey →
        ((rollbackLlm table config source target h).units key).process = (h.units key).process) ∧
      ((rollbackLlm table config source target h).rollbackErrors = h.rollbackErrors →
        h.Answers → LlmRolledBack table source target (h.units config.llmKey)
          ((rollbackLlm table config source target h).units config.llmKey)) := by
  unfold rollbackLlm LlmRolledBack
  dsimp only
  cases llmRollbackAction table source target with
  | restoreModel model =>
    dsimp only
    rcases hswap : ServiceCtl.swapLlmModel config.llmServiceUnit (modelPath model) h with
      ⟨result, h₁⟩
    obtain ⟨honly, hother, hllm⟩ := ServiceCtl.swapLlmModel_spec hswap
    obtain ⟨hstage, hmarker, hsame, hok⟩ := logged_spec result honly
    refine ⟨hstage, hmarker, fun key hkey => ?_, fun hquiet _ => ?_⟩
    · rw [hsame, hother key hkey]
    · rw [hsame]
      exact hllm (hok hquiet)
  | stopService =>
    dsimp only
    rcases hprobe : ServiceCtl.isActive config.llmServiceUnit h with ⟨active, h₁⟩
    obtain ⟨honly, hunits, -, hactive⟩ := probe_spec hprobe
    cases active with
    | false =>
      refine ⟨.of_unitsOnly honly, honly.mediaMarker, fun key _ => by rw [hunits],
        fun _ hanswers => ?_⟩
      have hdown : h.running config.llmKey = false := (hactive hanswers).symm
      rw [hunits]
      exact Option.not_isSome_iff_eq_none.mp (Bool.eq_false_iff.mp hdown)
    | true =>
      dsimp only
      rcases hstop : ServiceCtl.stop config.llmServiceUnit h₁ with ⟨result, h₂⟩
      obtain ⟨hstage, hmarker, hstopped⟩ := logged_call (ServiceCtl.stop_spec hstop)
      obtain ⟨honly₂, hunits₂⟩ := ServiceCtl.stop_spec hstop
      have hsame : (logged (result, h₂)).units = h₂.units := (logged_spec result honly₂).2.2.1
      refine ⟨(RollbackStage.of_unitsOnly honly).trans hstage,
        hmarker.trans honly.mediaMarker, fun key hkey => ?_, fun hquiet _ => ?_⟩
      · rw [hsame]
        rcases hunits₂ with hunits₂ | ⟨-, hunits₂⟩
        · rw [hunits₂, mapLlmUnit_units, if_neg hkey, hunits]
        · rw [hunits₂, hunits]
      · rw [hstopped (hquiet.trans honly.rollbackErrors.symm), mapLlmUnit_units, if_pos rfl]
        rfl
  | unchanged => exact ⟨.refl h, rfl, fun _ _ => rfl, fun _ _ => rfl⟩

/-! ## A whole rollback -/

/-- A unit after the first two stages of a rollback that log nothing: the started units are
down again, and the services to restore are up. -/
def restoredUnit (table : ModeTable) (config : Config) (source : Mode)
    (stopped : List StoppedService) (started : List String) (h : Host systemd) (key : String) :
    SystemUnit :=
  let downed := if key ∈ started.map normalizeSystemdUnit then (h.units key).stop else h.units key
  if key ∈ (table.serviceAliasesToRestore source stopped).filterMap config.keyForAlias then
    downed.start
  else downed

theorem rollbackTransition_spec [systemd.Independent] {source target : Mode} {started : List String}
    (hrollback : rollbackTransition table config source target stopped started h = h') :
    RollbackStage h h' ∧ (h'.rollbackErrors = h.rollbackErrors → h.Answers →
      h'.mediaMarker = markerAfterRollback source target h.mediaMarker ∧
      (∀ key, key ≠ config.llmKey → (h'.units key).process =
        (restoredUnit table config source stopped started h key).process) ∧
      LlmRolledBack table source target
        (restoredUnit table config source stopped started h config.llmKey)
        (h'.units config.llmKey)) := by
  subst hrollback
  unfold rollbackTransition
  obtain ⟨hstops, hmarker₁, hstopped⟩ := rollbackStops_spec started h
  set h₁ := rollbackStops started h
  obtain ⟨hstarts, hmarker₂, hstarted⟩ := rollbackStarts_spec config
    (table.serviceAliasesToRestore source stopped) h₁
  set h₂ := rollbackStarts config (table.serviceAliasesToRestore source stopped) h₁
  obtain ⟨hmark, hunits₃, hmarker₃⟩ := rollbackMarker_spec source target h₂
  set h₃ := rollbackMarker source target h₂
  obtain ⟨hllm, hmarker₄, hother, hrolled⟩ := rollbackLlm_spec table config source target h₃
  refine ⟨((hstops.trans hstarts).trans hmark).trans hllm, fun hquiet hanswers => ?_⟩
  obtain ⟨hquiet₃, hquiet₄⟩ := ((hstops.trans hstarts).trans hmark).quiet hllm hquiet
  obtain ⟨hquiet₂, hquiet₃⟩ := (hstops.trans hstarts).quiet hmark hquiet₃
  obtain ⟨hquiet₁, hquiet₂⟩ := hstops.quiet hstarts hquiet₂
  have hrestored : ∀ key, h₃.units key = restoredUnit table config source stopped started h key :=
    fun key => by rw [hunits₃, hstarted hquiet₂, hstopped hquiet₁, restoredUnit]
  refine ⟨?_, fun key hkey => ?_, ?_⟩
  · rw [hmarker₄, hmarker₃ hquiet₃, hmarker₂, hmarker₁]
  · rw [hother key hkey, hrestored]
  · rw [← hrestored]
    exact hrolled hquiet₄ (hmark.answers (hstarts.answers (hstops.answers hanswers)))

end GenieClaw.Governor
