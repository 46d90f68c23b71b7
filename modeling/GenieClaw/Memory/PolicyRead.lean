import GenieClaw.Library.Phrases
import GenieClaw.Memory.PolicyScan

/-!
# Reading cautious memories

A cautious memory is written with a spoken policy that asks for confirmation. Reading
honours it for household memories, while private and restricted ones are refused whatever
the policy. The branch for person-linked memories looks at the identity of the speaker
alone.

* `cautious_read_refused_iff` (the memory is cautious): who may not read it.
-/

namespace GenieClaw.Memory

open Library Library.Text

theorem privateKind_of_personLinked {kindLower : String} (h : personLinked kindLower = true) :
    privateKind kindLower = false := by
  unfold personLinked at h
  simp only [Bool.or_eq_true, decide_eq_true_eq] at h
  rcases h with ((rfl | h) | rfl) | rfl
  · decide
  · rw [startsWith_iff] at h
    by_contra hprivate
    have hpriv : startsWith "pr" kindLower = true := by
      unfold privateKind at hprivate
      simp only [Bool.not_eq_false, Bool.or_eq_true, decide_eq_true_eq] at hprivate
      rcases hprivate with rfl | hpre
      · decide
      · rw [startsWith_iff] at hpre ⊢
        exact List.IsPrefix.trans (by decide) hpre
    rw [startsWith_iff] at hpriv
    have hshort := List.prefix_of_prefix_length_le hpriv h (by decide)
    exact absurd hshort (by decide)
  · decide
  · decide

/-! ## The metadata of a cautious memory -/

theorem needsPolicy_or_private_of_cautious {kind content : String}
    (h : isCautiousMemory kind (toLowercase content) = true) :
    needsPolicyContentLower content = true ∨ privateKind (toLowercase (trim kind)) = true := by
  unfold isCautiousMemory at h
  rw [Bool.or_eq_true, Bool.and_eq_true] at h
  rcases h with hkind | ⟨-, hpattern⟩
  · exact .inr (privateKind_of_eqIgnoreAsciiCase hkind)
  · exact .inl (needsPolicy_of_cautious hpattern)

theorem inferMetadataLower_of_cautious {kind kindLower lower : String}
    (h : isCautiousMemory kind lower = true) :
    inferMetadataLower kind kindLower lower =
      let scope := scopeFor (privateKind kindLower ||
        (needsPrivateIntentScan lower && hasPrivateIntent lower)) (personLinked kindLower)
      let sensitivity := if needsRestrictedSecretScan lower &&
        (restrictedSecretReason lower).isSome then .restricted else .cautious
      ⟨scope, sensitivity, spokenPolicyFor scope sensitivity⟩ := by
  unfold inferMetadataLower
  simp only [h, Bool.true_or, if_true]

theorem scope_of_privateKind {kind : String} (content : String)
    (h : privateKind (toLowercase (trim kind)) = true) :
    (inferMetadata kind content).scope = .«private» := by
  cases hneeds : needsPolicyContentLower content with
  | false =>
    rw [inferMetadata_of_skipped kind hneeds, inferMetadataKindOnly, h]
    rfl
  | true =>
    rw [inferMetadata_of_needed kind hneeds, inferMetadataLower, h]
    rfl

theorem private_read_refused {metadata : MemoryPolicyMetadata} (context : MemoryReadContext)
    (h : metadata.scope = .«private») : (assessMemoryRead metadata context).allowed = false := by
  obtain ⟨scope, sensitivity, spokenPolicy⟩ := metadata
  cases h
  unfold assessMemoryRead
  split
  · rfl
  · dsimp only
    split
    · rfl
    · rfl

theorem restricted_read_refused {metadata : MemoryPolicyMetadata} (context : MemoryReadContext)
    (h : metadata.sensitivity = .restricted) :
    (assessMemoryRead metadata context).allowed = false := by
  unfold assessMemoryRead
  rw [if_pos (.inr h)]
  rfl

theorem confirm_household_refused (context : MemoryReadContext) :
    (assessMemoryRead ⟨.household, .cautious, .confirm⟩ context).allowed = false := rfl

theorem confirm_person_refused_iff (context : MemoryReadContext) :
    (assessMemoryRead ⟨.person, .cautious, .confirm⟩ context).allowed = false ↔
      ¬ (context.explicitNamedPerson = true ∨ .medium ≤ context.identityConfidence) := by
  unfold assessMemoryRead
  rw [if_neg (by simp)]
  dsimp only
  split_ifs with heligible
  · exact ⟨fun h => absurd h (by decide), fun h => absurd heligible h⟩
  · exact ⟨fun _ => heligible, fun _ => rfl⟩

/-! ## When a cautious memory is refused -/

theorem cautious_metadata_refused_iff («private» person restricted : Bool)
    (context : MemoryReadContext) :
    (assessMemoryRead
      ⟨scopeFor «private» person, if restricted then .restricted else .cautious,
        spokenPolicyFor (scopeFor «private» person)
          (if restricted then .restricted else .cautious)⟩ context).allowed = false ↔
      ¬ (person = true ∧ «private» = false ∧ restricted = false ∧
        (context.explicitNamedPerson = true ∨ .medium ≤ context.identityConfidence)) := by
  cases restricted with
  | true =>
    constructor
    · rintro - ⟨-, -, h, -⟩
      cases h
    · intro _
      exact restricted_read_refused context rfl
  | false =>
    cases «private» with
    | true =>
      constructor
      · rintro - ⟨-, h, -⟩
        cases h
      · intro _
        exact private_read_refused context rfl
    | false =>
      cases person with
      | true => simpa [scopeFor, spokenPolicyFor] using confirm_person_refused_iff context
      | false => simpa [scopeFor, spokenPolicyFor] using confirm_household_refused context

/-- A cautious memory is refused unless its kind is person-linked, its content neither
private nor restricted, and the speaker named a person or is recognised. -/
theorem cautious_read_refused_iff (kind content : String) (context : MemoryReadContext)
    (hcautious : isCautiousMemory kind (toLowercase content) = true) :
    (assessMemoryRead (inferMetadata kind content) context).allowed = false ↔
      ¬ (personLinked (toLowercase (trim kind)) = true ∧
        hasPrivateIntent (toLowercase content) = false ∧
        (needsRestrictedSecretScan (toLowercase content) &&
          (restrictedSecretReason (toLowercase content)).isSome) = false ∧
        (context.explicitNamedPerson = true ∨ .medium ≤ context.identityConfidence)) := by
  cases hprivate : privateKind (toLowercase (trim kind)) with
  | true =>
    constructor
    · rintro - ⟨hperson, -⟩
      rw [privateKind_of_personLinked hperson] at hprivate
      cases hprivate
    · intro _
      exact private_read_refused context (scope_of_privateKind content hprivate)
  | false =>
    have hneeds := (needsPolicy_or_private_of_cautious hcautious).resolve_right
      (by rw [hprivate]; exact Bool.false_ne_true)
    rw [inferMetadata_of_needed kind hneeds, inferMetadataLower_of_cautious hcautious,
      needsPrivateIntentScan_and, hprivate, Bool.false_or]
    exact cautious_metadata_refused_iff _ _ _ context

theorem cautious_read_refused_household :
    (assessMemoryRead (inferMetadata "fact" "User has a recent medical diagnosis")
      .sharedRoomVoice).allowed = false :=
  (cautious_read_refused_iff "fact" "User has a recent medical diagnosis" .sharedRoomVoice
    (by decide +kernel)).mpr (by decide +kernel)

/-- A health fact about a family member is spoken to anyone who names a person. -/
theorem cautious_read_allowed_person :
    ¬ ∀ (kind content : String) (context : MemoryReadContext),
      isCautiousMemory kind (toLowercase content) = true →
      context.sharedSpaceVoice = true → context.explicitPrivateIntent = false →
      (assessMemoryRead (inferMetadata kind content) context).allowed = false := by
  intro h
  have := h "person_health" "Maya takes insulin at 8am"
    { MemoryReadContext.sharedRoomVoice with explicitNamedPerson := true }
    (by decide +kernel) rfl rfl
  revert this
  decide +kernel

end GenieClaw.Memory
