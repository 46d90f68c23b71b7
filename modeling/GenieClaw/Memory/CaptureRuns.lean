import GenieClaw.Memory.Capture
import GenieClaw.Memory.PolicyRead
import GenieClaw.Memory.Rows
import GenieClaw.Memory.Runs

/-!
# What is written of what is said

The policy is asked about the text as it was given, and the store keeps it with single spaces.
A phrase that is written with two spaces in it is found in the row and not by the policy.

* `captured_rows_allowed` (no memory hides a phrase behind its white space): every row that is
  written is one the policy allows.
-/

namespace GenieClaw.Memory

open Library Library.Program Library.Text List

/-! ## The verdict of the policy on a text -/

/-- A phrase in the text for which a memory is refused. -/
def policyHit (content : String) : Bool :=
  needsPolicyContentLower content &&
    ((needsRestrictedSecretScan (toLowercase content) &&
        (restrictedSecretReason (toLowercase content)).isSome) ||
      (needsPrivateIntentScan (toLowercase content) && hasPrivateIntent (toLowercase content)))

section

variable {kind content : String}

theorem scope_private_iff {«private» person : Bool} :
    scopeFor «private» person = .«private» ↔ «private» = true := by
  cases «private» <;> cases person <;> decide

theorem scope_person_iff {«private» person : Bool} :
    scopeFor «private» person = .person ↔ «private» = false ∧ person = true := by
  cases «private» <;> cases person <;> decide

theorem writeDecision_allowed {metadata : MemoryPolicyMetadata} :
    (writeDecision metadata).allowed = true ↔ metadata.scope ≠ .«private» := by
  unfold writeDecision
  split
  · rename_i h
    simp [decisionForMetadata, h]
  · rename_i h
    simp [decisionForMetadata, h]

theorem assess_allowed_iff :
    (assessMemoryWrite kind content).allowed = true ↔
      privateKind (toLowercase (trim kind)) = false ∧ policyHit content = false := by
  unfold policyHit
  cases hneeds : needsPolicyContentLower content with
  | false =>
    rw [assessMemoryWrite_of_skipped kind hneeds, writeDecision_allowed, inferMetadataKindOnly]
    simp [scope_private_iff]
  | true =>
    by_cases hreason : needsRestrictedSecretScan (toLowercase content) = true ∧
        (restrictedSecretReason (toLowercase content)).isSome = true
    · obtain ⟨hscan, hsome⟩ := hreason
      obtain ⟨reason, hreason⟩ := Option.isSome_iff_exists.mp hsome
      rw [assessMemoryWrite_of_restricted kind hneeds hscan hreason]
      simp [restrictedDecision, hscan, hsome]
    · rw [assessMemoryWrite_of_unrestricted kind hneeds fun hscan => by
        rw [← Option.not_isSome_iff_eq_none]
        exact fun hsome => hreason ⟨hscan, hsome⟩]
      have hquiet : (needsRestrictedSecretScan (toLowercase content) &&
          (restrictedSecretReason (toLowercase content)).isSome) = false := by
        rw [Bool.eq_false_iff, Ne, Bool.and_eq_true]
        exact hreason
      rw [writeDecision_allowed, inferMetadataLower, hquiet]
      simp [scope_private_iff]

theorem personLinked_of_scope (h : (inferMetadata kind content).scope = .person) :
    personLinked (toLowercase (trim kind)) = true := by
  cases hneeds : needsPolicyContentLower content with
  | false =>
    rw [inferMetadata_of_skipped kind hneeds, inferMetadataKindOnly] at h
    dsimp only at h
    exact (scope_person_iff.mp h).2
  | true =>
    rw [inferMetadata_of_needed kind hneeds, inferMetadataLower] at h
    dsimp only at h
    exact (scope_person_iff.mp h).2

theorem scope_of_allowed (hallowed : (assessMemoryWrite kind content).allowed = true)
    (hlinked : personLinked (toLowercase (trim kind)) = true) :
    (inferMetadata kind content).scope = .person := by
  obtain ⟨hkind, hhit⟩ := assess_allowed_iff.mp hallowed
  cases hneeds : needsPolicyContentLower content with
  | false =>
    rw [inferMetadata_of_skipped kind hneeds, inferMetadataKindOnly]
    dsimp only
    exact scope_person_iff.mpr ⟨hkind, hlinked⟩
  | true =>
    rw [policyHit, hneeds, Bool.true_and, Bool.or_eq_false_iff] at hhit
    rw [inferMetadata_of_needed kind hneeds, inferMetadataLower]
    dsimp only
    exact scope_person_iff.mpr ⟨by rw [hkind, hhit.2]; rfl, hlinked⟩

end

/-! ## Rows -/

/-- A law of every row. -/
def Rows (P : MemoryEntry → Prop) (db : Database) : Prop := ∀ row ∈ db.memories, P row

section

variable {tools : TextTools} {P : MemoryEntry → Prop} {kind content : String}

theorem Rows.hereditary : Hereditary fun memories => ∀ row ∈ memories, P row :=
  fun _ h _ row hrow => h row (mem_of_mem_filter hrow)

/-- A row that a write of this memory inserts. -/
def WrittenRow (kind content : String) (row : MemoryEntry) : Prop :=
  row.kind = kind ∧ row.content = content ∧ row.metadata = inferMetadata kind content

theorem Rows.admits {evergreen : Bool} (hP : ∀ row, WrittenRow kind content row → P row) :
    Admits (fun memories => ∀ row ∈ memories, P row) kind content evergreen := by
  intro db now h row hrow
  rcases List.mem_append.mp hrow with hrow | hrow
  · exact h row hrow
  · rw [List.mem_singleton.mp hrow]
    exact hP _ ⟨rfl, rfl, rfl⟩

theorem storeResolved_rows
    (hP : ∀ row, WrittenRow kind (normalizeMemoryContent content) row → P row) :
    Keeps (fun c => Rows P c.db) (storeResolved tools kind content) :=
  storeResolved_memories (P := fun memories => ∀ row ∈ memories, P row) Rows.hereditary
    (Rows.admits hP)

end

/-! ## The two writers -/

/-- A phrase that the policy does not find in the memory as it is given, and that is there once
the white space is single spaces. -/
def HidesPhrase (memory : ExtractedFact) : Prop :=
  (assessMemoryWrite memory.category memory.content).allowed = true ∧
    policyHit (normalizeMemoryContent memory.content) = true

instance (memory : ExtractedFact) : Decidable (HidesPhrase memory) :=
  inferInstanceAs (Decidable (_ ∧ _))

/-- The context names a person or knows who is speaking. -/
def PersonKnown (context : MemoryReadContext) : Prop :=
  context.explicitNamedPerson = true ∨ .medium ≤ context.identityConfidence

/-- A row that this command may write. -/
def LawfulRow (command : CaptureCommand) (row : MemoryEntry) : Prop :=
  (assessMemoryWrite row.kind row.content).allowed = true ∧
    (row.metadata.scope = .person → ∀ args context, command = .memoryStore args context →
      PersonKnown (context.getD .sharedRoomVoice))

section

variable {tools : FactTools} {P : MemoryEntry → Prop} {memory : ExtractedFact}

theorem allowed_of_written {row : MemoryEntry}
    (hallowed : (assessMemoryWrite memory.category memory.content).allowed = true)
    (hplain : ¬ HidesPhrase memory)
    (hrow : WrittenRow memory.category (normalizeMemoryContent memory.content) row) :
    (assessMemoryWrite row.kind row.content).allowed = true := by
  obtain ⟨hkind, hcontent, -⟩ := hrow
  rw [hkind, hcontent, assess_allowed_iff]
  refine ⟨(assess_allowed_iff.mp hallowed).1, ?_⟩
  by_contra hhit
  exact hplain ⟨hallowed, by simpa using hhit⟩

theorem known_of_written {row : MemoryEntry} {context : MemoryReadContext}
    (hallowed : (assessMemoryWrite memory.category memory.content).allowed = true)
    (hgate : ¬ ((inferMetadata memory.category memory.content).scope = .person ∧
      personVerified context = false))
    (hrow : WrittenRow memory.category (normalizeMemoryContent memory.content) row)
    (hperson : row.metadata.scope = .person) : PersonKnown context := by
  rw [hrow.2.2] at hperson
  have hscope := scope_of_allowed hallowed (personLinked_of_scope hperson)
  by_contra hunknown
  refine hgate ⟨hscope, ?_⟩
  unfold PersonKnown at hunknown
  rw [not_or] at hunknown
  simpa [personVerified] using hunknown

theorem storeMemories_rows (context : MemoryReadContext) {memories : List ExtractedFact}
    (hplain : ∀ memory ∈ memories, ¬ HidesPhrase memory)
    (hP : ∀ row, (assessMemoryWrite row.kind row.content).allowed = true →
      (row.metadata.scope = .person → PersonKnown context) → P row) :
    Keeps (fun c => Rows P c.db) (storeMemories tools context memories) := by
  induction memories with
  | nil => exact Keeps.pure _
  | cons memory rest ih =>
    have hrest := ih fun m hm => hplain m (mem_cons_of_mem memory hm)
    unfold storeMemories
    dsimp only
    split
    · exact Keeps.bind hrest fun _ => Keeps.pure _
    · rename_i hallowed
      rw [Bool.not_eq_false] at hallowed
      split
      · exact Keeps.fail _
      · rename_i hgate
        refine Keeps.bind (storeResolved_rows fun row hrow => ?_) fun _ =>
          Keeps.bind hrest fun _ => Keeps.pure _
        exact hP row (allowed_of_written hallowed (hplain memory mem_cons_self) hrow)
          (known_of_written hallowed hgate hrow)

theorem execMemoryStore_rows (args : Json) (context : Option MemoryReadContext)
    (hplain : ∀ memory ∈ normalizeMemoriesToStore tools args, ¬ HidesPhrase memory)
    (hP : ∀ row, (assessMemoryWrite row.kind row.content).allowed = true →
      (row.metadata.scope = .person → PersonKnown (context.getD .sharedRoomVoice)) → P row) :
    Keeps (fun c => Rows P c.db) (execMemoryStore tools args context) := by
  unfold execMemoryStore
  split
  · exact Keeps.fail _
  · refine Keeps.bind (storeMemories_rows _ hplain hP) fun tally => ?_
    refine Keeps.ite (Keeps.bind (Keeps.bind (query_keeps (Rows P) _).attempt fun _ => ?_)
      fun _ => Keeps.ite (Keeps.pure _) (Keeps.pure _)) (Keeps.pure _)
    exact Keeps.pure _

theorem alreadyKnown_rows (fact : ExtractedFact) :
    Keeps (fun c => Rows P c.db) (alreadyKnown tools fact) := by
  refine Keeps.ite (Keeps.pure _) (Keeps.bind (Keeps.attempt ?_) fun similar => ?_)
  · exact Keeps.ite (Keeps.pure _) (query_keeps (Rows P) _)
  · cases similar with
    | ok similar => exact Keeps.pure _
    | error _ => exact Keeps.pure _

theorem captureFact_rows {fact : ExtractedFact} (hplain : ¬ HidesPhrase fact)
    (hP : ∀ row, (assessMemoryWrite row.kind row.content).allowed = true → P row) :
    Keeps (fun c => Rows P c.db) (captureFact tools fact) := by
  refine Keeps.bind (alreadyKnown_rows fact) fun known => Keeps.ite (Keeps.pure _) ?_
  split
  · exact Keeps.pure _
  · rename_i hallowed
    rw [Bool.not_eq_false] at hallowed
    refine Keeps.bind (storeResolved_rows fun row hrow => ?_).attempt fun outcome => ?_
    · exact hP row (allowed_of_written hallowed hplain hrow)
    · cases outcome with
      | ok outcome => exact Keeps.pure _
      | error _ => exact Keeps.pure _

theorem captureFacts_rows {facts : List ExtractedFact} (hplain : ∀ fact ∈ facts, ¬ HidesPhrase fact)
    (hP : ∀ row, (assessMemoryWrite row.kind row.content).allowed = true → P row) :
    Keeps (fun c => Rows P c.db) (captureFacts tools facts) := by
  induction facts with
  | nil => exact Keeps.pure _
  | cons fact rest ih =>
    have hrest := ih fun m hm => hplain m (mem_cons_of_mem fact hm)
    exact Keeps.bind (captureFact_rows (hplain fact mem_cons_self) hP) fun _ =>
      Keeps.bind hrest fun _ => Keeps.pure _

theorem capture_rows {command : CaptureCommand}
    (hplain : ∀ memory ∈ command.memories tools, ¬ HidesPhrase memory)
    (hP : ∀ row, LawfulRow command row → P row) :
    Keeps (fun c => Rows P c.db) (capture tools command) := by
  cases command with
  | memoryStore args context =>
    refine Keeps.bind (execMemoryStore_rows args context hplain ?_) fun _ => Keeps.pure _
    intro row hallowed hknown
    refine hP row ⟨hallowed, fun hperson args' context' heq => ?_⟩
    obtain ⟨-, rfl⟩ := CaptureCommand.memoryStore.inj heq
    exact hknown hperson
  | autoCapture text =>
    refine Keeps.bind (captureFacts_rows hplain ?_) fun _ => Keeps.pure _
    exact fun row hallowed => hP row ⟨hallowed, fun _ _ _ heq => by cases heq⟩

end

/-! ## Runs -/

theorem captureMachine_step {tools : FactTools} {db : Database} {call : CaptureCall}
    (hplain : ∀ memory ∈ call.command.memories tools, ¬ HidesPhrase memory) :
    ∀ row ∈ ((captureMachine tools).step db call).2.memories,
      row ∈ db.memories ∨ LawfulRow call.command row := by
  have hrows : Keeps (fun c => Rows (fun row => row ∈ db.memories ∨ LawfulRow call.command row)
      c.db) (capture tools call.command) :=
    capture_rows hplain fun _ hlawful => .inr hlawful
  exact hrows.after fun _ hrow => .inl hrow

/-- In a run in which no memory hides a phrase behind its white space, every row that a call
writes is one that the policy allows as it is stored, and the tool writes a person-linked row
only for a known person. -/
theorem captured_rows_allowed (tools : FactTools) (db : Database) (calls : List CaptureCall)
    (hplain : ∀ call ∈ calls, ∀ memory ∈ call.command.memories tools, ¬ HidesPhrase memory) :
    ∀ e ∈ (captureMachine tools).trace db calls, ∀ row ∈ e.after.memories,
      row ∈ e.before.memories ∨ LawfulRow e.input.command row := by
  induction calls generalizing db with
  | nil => intro e he; cases he
  | cons call rest ih =>
    intro e he
    rw [Machine.trace_cons, mem_cons] at he
    rcases he with rfl | he
    · exact captureMachine_step (hplain call mem_cons_self)
    · exact ih _ (fun c hc => hplain c (mem_cons_of_mem call hc)) e he

/-- Text handling for ASCII. -/
def asciiFactTools : FactTools := { asciiTools with toUppercase := fun c => [c.toUpper] }

theorem captured_rows_allowed_tea :
    (∀ call ∈ ([⟨.memoryStore (.object [("content", .string "tea  time")]) none, [], [], [0]⟩,
        ⟨.autoCapture "good day", [], [], [1]⟩] : List CaptureCall),
      ∀ memory ∈ call.command.memories asciiFactTools, ¬ HidesPhrase memory) ∧
    ∀ e ∈ (captureMachine asciiFactTools).trace {}
        [⟨.memoryStore (.object [("content", .string "tea  time")]) none, [], [], [0]⟩,
          ⟨.autoCapture "good day", [], [], [1]⟩],
      ∀ row ∈ e.after.memories, row ∈ e.before.memories ∨ LawfulRow e.input.command row := by
  have hplain : ∀ call ∈ ([⟨.memoryStore (.object [("content", .string "tea  time")]) none, [], [],
      [0]⟩, ⟨.autoCapture "good day", [], [], [1]⟩] : List CaptureCall),
      ∀ memory ∈ call.command.memories asciiFactTools, ¬ HidesPhrase memory := by
    decide +kernel
  exact ⟨hplain, captured_rows_allowed asciiFactTools {} _ hplain⟩

/-- With two spaces in it a gate code passes the policy, and it is stored with one. -/
theorem gate_code_captured :
    ¬ ∀ (tools : FactTools) (db : Database) (calls : List CaptureCall),
      ∀ e ∈ (captureMachine tools).trace db calls, ∀ row ∈ e.after.memories,
        row ∈ e.before.memories ∨ LawfulRow e.input.command row := by
  intro h
  have hstep : ∀ call : CaptureCall,
      ∀ row ∈ ((captureMachine asciiFactTools).step {} call).2.memories,
      (assessMemoryWrite row.kind row.content).allowed = true := by
    intro call row hrow
    have hevent : (captureMachine asciiFactTools).eventAt {} call ∈
        (captureMachine asciiFactTools).trace {} [call] := by
      rw [Machine.trace_cons]
      exact mem_cons_self
    rcases h asciiFactTools {} [call] _ hevent row hrow with hold | hlawful
    · exact absurd hold not_mem_nil
    · exact hlawful.1
  have hrows := hstep ⟨.memoryStore (.object [("content", .string "gate  code 12")]) none,
    [], [], [0]⟩
  revert hrows
  decide +kernel

end GenieClaw.Memory
