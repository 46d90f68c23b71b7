import GenieClaw.Dispatch.Coverage

/-!
# The entity of a confirmed action

A pending action records the entity its alias was resolved to. The confirmation path
rebuilds a `home_control` for that entity, and `home_control` resolves the alias of its
argument: the recorded entity is looked up again, in the memory of that moment.

* `confirm_entity`: a confirmed action goes to what its entity resolves to, as an alias.
* `confirmed_entity_iff` (the pending action has its usual lifetime): when that is the entity
  itself.
-/

namespace GenieClaw.Dispatch

open Library Library.Text Actuation Home Memory

/-- The recorded action makes a call that `home_control` accepts. -/
def Rebuilds (pending : PendingConfirmation) : Prop :=
  ∃ action value, parseHomeControlArgs (ToolDispatcher.pendingCall pending).arguments =
    .ok (trim pending.entity, action, value)

/-- The memory has an alias for the recorded entity that leads back to it, or none and the
entity has no blanks around it. -/
def KeepsEntity (memory : Option MemoryStore) (pending : PendingConfirmation) : Prop :=
  match aliasOf memory (trim pending.entity) with
  | some found => found.targetId = pending.entity
  | none => trim pending.entity = pending.entity

/-- Whatever the home, the configuration and the rest of the state: a confirmation that
takes the pending action with this memory executes on the entity it records. -/
def ExecutesOnItsEntity (memory : Option MemoryStore) (pending : PendingConfirmation) : Prop :=
  ∀ (W : Type) (d : ToolDispatcher W) (s : DispatcherState W) (token : String),
    s.memory = memory → (s.confirmations.confirm (d.clock s.reads) token).1 = some pending →
    ∀ p, (d.program.step s (.confirm token)).1.effects.performed = some p →
      p.entity = pending.entity

/-! ## The rebuilt call -/

variable {pending : PendingConfirmation}

theorem parse_pendingCall {entity action : String} {value : Option F64}
    (h : parseHomeControlArgs (ToolDispatcher.pendingCall pending).arguments =
      .ok (entity, action, value)) :
    entity = trim pending.entity := by
  have hentity := (parseHomeControlArgs_ok h).1
  unfold entityArgument at hentity
  obtain ⟨htrim, -⟩ := Option.filter_eq_some_iff.mp hentity
  exact (Option.some.inj htrim).symm

namespace ToolDispatcher

variable {W : Type} (d : ToolDispatcher W)

variable {s : DispatcherState W}

theorem execHomeControlInner_entity {args : Json} {execCtx : ToolExecutionContext}
    {undoOf : Option Nat} {p : Performance}
    (h : (d.execHomeControlInner args execCtx undoOf s).2.1.performed = some p) :
    ∃ entityName action value, parseHomeControlArgs args = .ok (entityName, action, value) ∧
      p.entity = resolveDeviceAlias s.memory entityName := by
  rcases d.execHomeControlInner_cases args execCtx undoOf s with ⟨heffects, -⟩ |
    ⟨home, request, charged, s₁, hha, hadmission⟩
  · rw [heffects] at h
    cases h
  · obtain ⟨w, undoRestore, -, hcall⟩ := d.execHomeControlInner_ok hha undoOf hadmission
    rw [hcall] at h
    obtain ⟨action, -, rfl⟩ := Option.map_eq_some_iff.mp h
    obtain ⟨⟨entityName, hparse, hentity⟩, -⟩ := d.admitRequest_ok hadmission
    exact ⟨entityName, request.action, request.value, hparse, hentity⟩

theorem execTool_pendingCall (pending : PendingConfirmation) (execCtx : ToolExecutionContext)
    (s : DispatcherState W) :
    d.execTool (pendingCall pending) execCtx s =
      d.execHomeControlInner (pendingCall pending).arguments execCtx none s := rfl

variable {token : String}

theorem confirm_admitted
    (htaken : (s.confirmations.confirm (d.clock s.reads) token).1 = some pending)
    (hadmits : d.GateAdmits (pendingCall pending) (confirmedContext pending)
      (d.afterTaking token s)) :
    ∃ s₁, (d.program.step s (.confirm token)).1.effects.performed =
      (d.execHomeControlInner (pendingCall pending).arguments (confirmedContext pending) none
        s₁).2.1.performed := by
  have hgate := (d.runGate_none_iff _ _ _).mpr hadmits
  rcases d.confirm_cases token s with ⟨hnone, -⟩ | ⟨pending', htaken', hstep⟩
  · cases hnone.symm.trans htaken
  · cases htaken'.symm.trans htaken
    rw [hstep]
    rcases d.executeWithContext_cases (pendingCall pending) (confirmedContext pending)
      (d.afterTaking token s) with ⟨rejected, s₁, hrun, -⟩ | ⟨s₁, result, decision, -, hcall⟩
    · rw [hrun] at hgate
      cases hgate
    · rw [hcall]
      exact ⟨s₁, rfl⟩

/-- An obliging home of voice-safe targets executes a rebuilt action of an allowed channel
that the gate lets through. -/
theorem confirm_executes {targetOf : String → HomeTarget} (hha : d.ha = some (obliging targetOf))
    (hoff : d.actuationSafety.enabled = false) (hsafe : ∀ query, (targetOf query).voiceSafe = true)
    (htaken : (s.confirmations.confirm (d.clock s.reads) token).1 = some pending)
    (hadmits : d.GateAdmits (pendingCall pending) (confirmedContext pending)
      (d.afterTaking token s))
    (hallowed : actuationOriginAllowed d.actuationSafety pending.requestedBy = true)
    (hrebuilds : Rebuilds pending) :
    (d.program.step s (.confirm token)).1.effects.performed.isSome = true := by
  obtain ⟨action, value, hparse⟩ := hrebuilds
  obtain ⟨kind, hkind⟩ := homeActionKind_of_mem (parseHomeControlArgs_ok hparse).2.1
  obtain ⟨s₁, hstep⟩ := d.confirm_admitted htaken hadmits
  have hadmission :=
    @admitRequest_confirmed _ W d (confirmedContext pending) s₁ _ _ _ hparse hallowed rfl
  have hperformed := execHomeControlInner_obliging hha hoff none hadmission hkind
    (policyVerdict_confirmed (hsafe _))
  rw [hstep, hperformed]
  rfl

/-- A confirmed action is executed on what the recorded entity resolves to, as an alias, in
the memory of that moment. -/
theorem confirm_entity {p : Performance}
    (htaken : (s.confirmations.confirm (d.clock s.reads) token).1 = some pending)
    (h : (d.program.step s (.confirm token)).1.effects.performed = some p) :
    Rebuilds pending ∧ p.entity = resolveDeviceAlias s.memory (trim pending.entity) := by
  rcases d.confirm_cases token s with ⟨hnone, -⟩ | ⟨pending', htaken', hstep⟩
  · rw [hnone] at htaken
    cases htaken
  · rw [htaken'] at htaken
    cases htaken
    rw [hstep] at h
    have hgate := d.runGate_gateOnly (pendingCall pending) (confirmedContext pending)
      (d.afterTaking token s)
    rcases d.executeWithContext_cases (pendingCall pending) (confirmedContext pending)
      (d.afterTaking token s) with ⟨rejected, s₁, -, hcall⟩ | ⟨s₁, result, decision, hrun, hcall⟩
    · rw [hcall] at h
      cases h
    · rw [hcall] at h
      rw [hrun] at hgate
      have hinner : (d.execTool (pendingCall pending) (confirmedContext pending) s₁).2.1.performed =
        some p := h
      rw [execTool_pendingCall] at hinner
      obtain ⟨entityName, action, value, hparse, hentity⟩ := d.execHomeControlInner_entity hinner
      obtain rfl := parse_pendingCall hparse
      rw [hgate.memory] at hentity
      exact ⟨⟨action, value, hparse⟩, hentity⟩

end ToolDispatcher

/-! ## When the entity is kept -/

theorem resolve_of_keepsEntity {memory : Option MemoryStore} :
    resolveDeviceAlias memory (trim pending.entity) = pending.entity ↔
      KeepsEntity memory pending := by
  rw [resolveDeviceAlias_eq]
  unfold KeepsEntity
  cases aliasOf memory (trim pending.entity) with
  | none => exact Iff.rfl
  | some found => exact Iff.rfl

/-- The state that holds one pending action and this memory. -/
def waiting (memory : Option MemoryStore) (pending : PendingConfirmation) :
    DispatcherState Unit where
  world := ()
  memory := memory
  confirmations := ⟨1, (∅ : HashTable String PendingConfirmation).insert pending.token pending⟩

/-- An obliging home with one voice-safe light, open to the channel of the pending action. -/
def openHouse (origin : RequestOrigin) : ToolDispatcher Unit :=
  obligingDispatcher (fun _ => porchLight) {}
    { enabled := false, allowedOrigins := [origin.asPolicyKey] } fun _ => 0

theorem confirm_waiting (memory : Option MemoryStore) (hlive : 0 < pending.expiresMs) :
    ((waiting memory pending).confirmations.confirm ((openHouse pending.requestedBy).clock
      (waiting memory pending).reads) pending.token).1 = some pending := by
  rw [ConfirmationState.confirm_eq]
  exact lookup_pruneExpired.mpr ⟨AList.lookup_insert _, hlive⟩

theorem openHouse_admits (pending : PendingConfirmation) (s : DispatcherState Unit) :
    (openHouse pending.requestedBy).GateAdmits (ToolDispatcher.pendingCall pending)
      (ToolDispatcher.confirmedContext pending) s := by
  refine ⟨?_, ?_, ?_⟩
  · show toolOriginAllowed {} pending.requestedBy "home_control" = .ok ()
    cases pending.requestedBy <;> decide
  · intro hrequires
    have hnone : toolRequiresConfirmation {} "home_control" = false := by decide
    cases hrequires.symm.trans hnone
  · intro hunconfirmed
    cases hunconfirmed

theorem openHouse_allows (origin : RequestOrigin) :
    actuationOriginAllowed (openHouse origin).actuationSafety origin = true := by
  show actuationOriginAllowed { enabled := false, allowedOrigins := [origin.asPolicyKey] } origin =
    true
  cases origin <;> decide

theorem openHouse_executes (memory : Option MemoryStore) (hlive : 0 < pending.expiresMs)
    (hrebuilds : Rebuilds pending) :
    ∃ p, ((openHouse pending.requestedBy).program.step (waiting memory pending)
        (.confirm pending.token)).1.effects.performed = some p ∧
      p.entity = resolveDeviceAlias memory (trim pending.entity) := by
  have htaken := confirm_waiting memory hlive
  have hadmits := openHouse_admits pending ((openHouse pending.requestedBy).afterTaking
    pending.token (waiting memory pending))
  have hallowed := openHouse_allows pending.requestedBy
  have hha : (openHouse pending.requestedBy).ha = some (obliging fun _ => porchLight) := rfl
  have hoff : (openHouse pending.requestedBy).actuationSafety.enabled = false := rfl
  have hmemory : (waiting memory pending).memory = memory := rfl
  generalize openHouse pending.requestedBy = d at htaken hadmits hallowed hha hoff ⊢
  generalize waiting memory pending = s at htaken hadmits hmemory ⊢
  have hsome := d.confirm_executes hha hoff (fun _ => rfl) htaken hadmits hallowed hrebuilds
  obtain ⟨p, hp⟩ := Option.isSome_iff_exists.mp hsome
  exact ⟨p, hp, hmemory ▸ (d.confirm_entity htaken hp).2⟩

/-- A confirmed action is executed on the entity it records, in every home and under every
configuration, exactly when the recorded entity makes no accepted call at all or leads
back to itself in the memory at the time of the confirmation. -/
theorem confirmed_entity_iff (memory : Option MemoryStore) (pending : PendingConfirmation)
    (hlifetime : pending.expiresMs = pending.createdMs + confirmationLifetimeMs) :
    ExecutesOnItsEntity memory pending ↔ (Rebuilds pending → KeepsEntity memory pending) := by
  constructor
  · intro hexecutes hrebuilds
    have hlive : 0 < pending.expiresMs := by
      rw [hlifetime, confirmationLifetimeMs]
      omega
    obtain ⟨p, hp, hresolved⟩ := openHouse_executes memory hlive hrebuilds
    have hrecorded := hexecutes Unit (openHouse pending.requestedBy) (waiting memory pending)
      pending.token rfl (confirm_waiting memory hlive) p hp
    exact resolve_of_keepsEntity.mp (hresolved.symm.trans hrecorded)
  · intro hkeeps W d s token hmemory htaken p hp
    obtain ⟨hrebuilds, hresolved⟩ := d.confirm_entity htaken hp
    rw [hmemory] at hresolved
    exact hresolved.trans (resolve_of_keepsEntity.mpr (hkeeps hrebuilds))

/-! ## An alias stored in between -/

/-- The front door, waiting for voice to be confirmed. -/
def frontDoorPending : PendingConfirmation :=
  ⟨"act-00000000000000000000000000000000", "front door", "unlock", none,
    "Front door controls a sensitive lock device", .voice, 0, confirmationLifetimeMs⟩

theorem confirmed_entity_iff_frontDoor :
    frontDoorPending.expiresMs = frontDoorPending.createdMs + confirmationLifetimeMs ∧
      ExecutesOnItsEntity none frontDoorPending := by
  have hlifetime : frontDoorPending.expiresMs =
      frontDoorPending.createdMs + confirmationLifetimeMs := by
    decide
  refine ⟨hlifetime, (confirmed_entity_iff none frontDoorPending hlifetime).mpr fun _ => ?_⟩
  show trim "front door" = "front door"
  decide

/-- A memory in which `front door` is an alias of the cellar lock. -/
def renamed : MemoryStore where
  memories := [⟨1, 0, 0⟩]
  deviceAliases := [⟨1, "front door", "front door", "lock.cellar", "entity"⟩]

/-- Voice asks for the front door, the alias is stored, the dashboard confirms. -/
def renameBeforeConfirm : List (DispatcherOp Unit) :=
  [.dispatch
      ⟨"home_control", .object [("action", .string "unlock"), ("entity", .string "front door")]⟩
      { requestOrigin := .voice },
    .elsewhere (some renamed) (),
    .confirm "act-00000000000000000000000000000000"]

theorem alias_redirects_confirmation :
    ((doorHouse.program.trace { world := () } renameBeforeConfirm).filterMap fun e =>
        (DispatcherEvent.taken e).map PendingConfirmation.entity) = ["front door"] ∧
      ((doorHouse.program.trace { world := () } renameBeforeConfirm).filterMap fun e =>
        (DispatcherEvent.performed e).map Performance.entity) = ["lock.cellar"] := by
  constructor
  · decide
  · decide

end GenieClaw.Dispatch
