import GenieClaw.Memory.Policy
import Mathlib.Data.List.Forall2

/-!
# The scans in front of the memory classifiers

A scan may only skip a classifier that would find nothing. Every pattern of a classifier
contains a fragment of its scan, with one exception: `lock combo` at the start of the
content, where the fragment begins with a blank. The scans of the raw content also ignore
ASCII case only, so a pattern whose every fragment has a `k` is missed when that letter
is a Kelvin sign.

* `unseen_iff`: the restricted contents that the scans do not see.
* `scans_change_nothing_iff` (no assumption): on all others the scans change nothing.
-/

namespace GenieClaw.Memory

open Library Library.Text List

/-! ## The decisions without the scans -/

/-- `infer_metadata` with every classifier run on the lower-cased content. -/
def inferMetadataFull (kind content : String) : MemoryPolicyMetadata :=
  let kindLower := toLowercase (trim kind)
  let contentLower := toLowercase content
  let privateIntent := privateKind kindLower || hasPrivateIntent contentLower
  let cautious := eqIgnoreAsciiCase kind "private" || containsAny contentLower cautiousPatterns
  let scope := scopeFor privateIntent (personLinked kindLower)
  let sensitivity :=
    if (restrictedSecretReason contentLower).isSome then .restricted
    else if cautious || privateIntent then .cautious
    else .normal
  ⟨scope, sensitivity, spokenPolicyFor scope sensitivity⟩

/-- `assess_memory_write` with every classifier run on the lower-cased content. -/
def assessMemoryWriteFull (kind content : String) : MemoryPolicyDecision :=
  match restrictedSecretReason (toLowercase content) with
  | some reason => restrictedDecision reason
  | none => writeDecision (inferMetadataFull kind content)

/-! ## Which fragment covers which pattern -/

/-- A word a scan can look for: lower-case ASCII, not empty and not ending in `i`. -/
def Fragment (f : String) : Prop :=
  (∀ c ∈ f.toList, c.toNat < 128 ∧ ¬ (65 ≤ c.toNat ∧ c.toNat ≤ 90)) ∧
    f.toList.getLast? ≠ some 'i' ∧ f ≠ ""

-- Walking the word beats walking all characters, which are finitely many too.
instance (f : String) : Decidable (Fragment f) :=
  @instDecidableAnd _ _ (List.decidableBAll _ f.toList) inferInstance

/-- The fragments of all three scans. -/
def policyFragments : List String :=
  restrictedFragments ++ privateIntentFragments ++ cautiousFragments

theorem fragment_of_mem : ∀ f ∈ policyFragments, Fragment f := by
  decide

/-- The scan for `gate` sees the pattern through its fragment `f`. -/
def CoveredBy (gate : List String) (p f : String) : Prop :=
  f ∈ gate ∧ f.toList <:+: p.toList

instance (gate : List String) (p f : String) : Decidable (CoveredBy gate p f) :=
  inferInstanceAs (Decidable (_ ∧ _))

theorem credential_covered : List.Forall₂ (CoveredBy restrictedFragments) credentialPatterns
    ["password", "pass:", "pass:", "passcode", "one-time", "one time", "otp", "2fa",
      "recovery", "seed phrase", "recovery", "private key", "secret key", "api key",
      "access token"] := by
  decide

theorem accessCode_covered :
    List.Forall₂ (fun p f => p = "lock combo" ∨ CoveredBy restrictedFragments p f)
      accessCodePatterns
      ["gate code", "door code", "garage code", "alarm code", "security code", "safe code",
        "combination", "combination", "", " lock combo", " lock combo", "combination",
        "combination"] := by
  decide

theorem payment_covered : List.Forall₂ (CoveredBy restrictedFragments) paymentPatterns
    ["credit card", "card number", "cvv", "account number", "confirmation number",
      "bank account", "routing number", "social security", "ssn", "passport",
      "driver license", "government id"] := by
  decide

theorem location_covered : List.Forall₂ (CoveredBy restrictedFragments) locationPhrases
    [" is in ", " are in ", " is inside ", " are inside ", " is kept ", " are kept ",
      " is kept ", " are kept ", " is stored ", " are stored ", " is stored ",
      " are stored ", " is hidden ", " are hidden ", " is hidden ", " are hidden ",
      " under ", " behind "] := by
  decide

theorem document_covered : List.Forall₂ (CoveredBy restrictedFragments) documentPhrases
    ["documents are", "documents are", "documents are", "documents are", "valuables are",
      "valuables are"] := by
  decide

theorem privateIntent_covered :
    List.Forall₂ (CoveredBy privateIntentFragments) privateIntentPatterns
      ["private", "private", "private", "for me only", "aloud", "aloud"] := by
  decide

theorem cautious_covered : List.Forall₂ (CoveredBy cautiousFragments) cautiousPatterns
    ["medical", "mental health", "therapy", "legal", "secret", "medication",
      "prescription", "diagnosed", "diabetes", "cancer", "depression", "anxiety",
      "hypertension", "epilepsy", "asthma", "insulin", "chemotherapy", "dialysis"] := by
  decide

/-! ## Patterns the raw scans can miss -/

/-- The patterns every fragment of which has a `k`. -/
def kPatterns : List String := ["api key", "access token", "lock combo", "bank account"]

def keyObjects : List String := ["house key", "spare key", "safe key"]

def keptPhrases : List String :=
  [" is kept in ", " are kept in ", " is kept at ", " are kept at "]

/-- A restricted content that may owe its match to the letter `k`. -/
def kSecret (lower : String) : Bool :=
  containsAny lower kPatterns || (containsAny lower keyObjects && containsAny lower keptPhrases)

/-- The raw scans see the pattern in whatever case its letters stand. -/
def PlainlyCovered (p f : String) : Prop :=
  CoveredBy policyFragments p f ∧ 'k' ∉ f.toList

instance (p f : String) : Decidable (PlainlyCovered p f) :=
  inferInstanceAs (Decidable (_ ∧ _))

theorem credential_plain :
    List.Forall₂ (fun p f => p ∈ kPatterns ∨ PlainlyCovered p f) credentialPatterns
      ["password", "pass:", "pass:", "passcode", "one-time", "one time", "otp", "2fa",
        "recovery", "seed phrase", "recovery", "private", "secret", "", ""] := by
  decide +kernel

theorem accessCode_plain :
    List.Forall₂ (fun p f => CoveredBy kPatterns p "lock combo" ∨ PlainlyCovered p f)
      accessCodePatterns
      ["gate code", "door code", "garage code", "alarm code", "security code", "safe code",
        "combination", "combination", "", "", "", "combination", "combination"] := by
  decide +kernel

theorem payment_plain :
    List.Forall₂ (fun p f => p ∈ kPatterns ∨ PlainlyCovered p f) paymentPatterns
      ["credit card", "card number", "cvv", "account number", "confirmation number", "",
        "routing number", "social security", "ssn", "passport", "driver license",
        "government id"] := by
  decide +kernel

theorem object_plain :
    List.Forall₂ (fun p f => p ∈ keyObjects ∨ PlainlyCovered p f) sensitiveObjects
      ["passport", "passport", "birth certificate", "birth certificate",
        "social security", "ssn", "government id", "", "", "", "car title",
        "property deed"] := by
  decide

theorem location_plain :
    List.Forall₂ (fun p f => p ∈ keptPhrases ∨ PlainlyCovered p f) locationPhrases
      [" is in ", " are in ", " is inside ", " are inside ", "", "", "", "", " is stored ",
        " are stored ", " is stored ", " are stored ", " is hidden ", " are hidden ",
        " is hidden ", " are hidden ", " under ", " behind "] := by
  decide

theorem document_plain : List.Forall₂ PlainlyCovered documentPhrases
    ["documents are", "documents are", "documents are", "documents are", "valuables are",
      "valuables are"] := by
  decide

theorem plain_of_mem : ∀ f ∈ privateIntentFragments ++ cautiousFragments, 'k' ∉ f.toList := by
  decide

/-! ## What the scans see -/

theorem exists_cover {R : String → String → Prop} {ps fs : List String} {p : String}
    (h : List.Forall₂ R ps fs) (hp : p ∈ ps) : ∃ f, R p f := by
  induction h with
  | nil => cases hp
  | cons hhead _ ih =>
    rcases List.mem_cons.mp hp with rfl | hp
    · exact ⟨_, hhead⟩
    · exact ih hp

theorem containsAny_iff {text : String} {ps : List String} :
    containsAny text ps = true ↔ ∃ p ∈ ps, p.toList <:+: text.toList := by
  simp [containsAny, containsText]

theorem toList_toLowercase (s : String) : (toLowercase s).toList = s.toList.flatMap lowercaseChar :=
  String.toList_ofList

variable {f : String}

theorem Fragment.isAscii (h : Fragment f) : IsAscii f.toList :=
  fun c hc => (h.1 c hc).1

theorem Fragment.map_toLower (h : Fragment f) : f.toList.map Char.toLower = f.toList := by
  calc f.toList.map Char.toLower = f.toList.map id := by
        apply map_congr_left
        intro c hc
        exact toLower_eq_self (h.1 c hc).2
    _ = f.toList := map_id _

theorem Fragment.containsAsciiCi_iff (h : Fragment f) (text : String) :
    containsAsciiCi text f = true ↔ f.toList <:+: text.toList.map Char.toLower := by
  rw [Text.containsAsciiCi_iff h.isAscii h.2.2, h.map_toLower]

theorem Fragment.foldable (h : Fragment f) : FoldableWord f.toList :=
  ⟨h.isAscii, h.2.1, fun hnil => h.2.2 (String.toList_eq_nil_iff.mp hnil)⟩

theorem any_of_covered {gate : List String} {text p f : String}
    (hgate : ∀ g ∈ gate, Fragment g) (hf : CoveredBy gate p f)
    (hp : p.toList <:+: text.toList) : gate.any (containsAsciiCi text) = true := by
  have hfrag := hgate f hf.1
  rw [any_eq_true]
  refine ⟨f, hf.1, (hfrag.containsAsciiCi_iff text).mpr ?_⟩
  rw [← hfrag.map_toLower]
  exact (hf.2.trans hp).map Char.toLower

theorem needsPolicyContentLower_iff (content : String) :
    needsPolicyContentLower content = true ↔
      ∃ f ∈ policyFragments, containsAsciiCi content f = true := by
  unfold needsPolicyContentLower needsRestrictedSecretScanCi needsPrivateIntentScanCi
    needsCautiousScanCi policyFragments
  rw [← any_append, ← any_append, any_eq_true]

theorem needs_of_plainlyCovered {content p f : String} (hf : PlainlyCovered p f)
    (hp : p.toList <:+: (toLowercase content).toList) : needsPolicyContentLower content = true := by
  obtain ⟨⟨hmem, hin⟩, hplain⟩ := hf
  rw [needsPolicyContentLower_iff]
  refine ⟨f, hmem, ((fragment_of_mem f hmem).containsAsciiCi_iff content).mpr ?_⟩
  rw [toList_toLowercase] at hp
  exact infix_toLower_of_infix_lowercase (fragment_of_mem f hmem).foldable
    (fun hk => absurd hk hplain) (hin.trans hp)

theorem restrictedFragments_fragment : ∀ f ∈ restrictedFragments, Fragment f := by
  intro f hf
  apply fragment_of_mem
  simp [policyFragments, hf]

theorem privateIntentFragments_fragment : ∀ f ∈ privateIntentFragments, Fragment f := by
  intro f hf
  apply fragment_of_mem
  simp [policyFragments, hf]

theorem cautiousFragments_fragment : ∀ f ∈ cautiousFragments, Fragment f := by
  intro f hf
  apply fragment_of_mem
  simp [policyFragments, hf]

/-! ## The private and cautious classifiers -/

variable {lower : String}

theorem needsPrivateIntentScan_of_intent (h : hasPrivateIntent lower = true) :
    needsPrivateIntentScan lower = true := by
  obtain ⟨p, hp, hin⟩ := containsAny_iff.mp h
  obtain ⟨f, hf⟩ := exists_cover privateIntent_covered hp
  exact any_of_covered privateIntentFragments_fragment hf hin

theorem needsCautiousScan_of_pattern (h : containsAny lower cautiousPatterns = true) :
    needsCautiousScan lower = true := by
  obtain ⟨p, hp, hin⟩ := containsAny_iff.mp h
  obtain ⟨f, hf⟩ := exists_cover cautious_covered hp
  exact any_of_covered cautiousFragments_fragment hf hin

theorem needsPrivateIntentScan_and (lower : String) :
    (needsPrivateIntentScan lower && hasPrivateIntent lower) = hasPrivateIntent lower := by
  cases h : hasPrivateIntent lower with
  | false => exact Bool.and_false _
  | true => rw [needsPrivateIntentScan_of_intent h, Bool.and_true]

theorem needsPolicy_of_intent {content : String}
    (h : hasPrivateIntent (toLowercase content) = true) :
    needsPolicyContentLower content = true := by
  obtain ⟨p, hp, hin⟩ := containsAny_iff.mp h
  obtain ⟨f, hmem, hfrag⟩ := exists_cover privateIntent_covered hp
  refine needs_of_plainlyCovered ⟨⟨?_, hfrag⟩, plain_of_mem f ?_⟩ hin
  · simp [policyFragments, hmem]
  · simp [hmem]

theorem needsPolicy_of_cautious {content : String}
    (h : containsAny (toLowercase content) cautiousPatterns = true) :
    needsPolicyContentLower content = true := by
  obtain ⟨p, hp, hin⟩ := containsAny_iff.mp h
  obtain ⟨f, hmem, hfrag⟩ := exists_cover cautious_covered hp
  refine needs_of_plainlyCovered ⟨⟨?_, hfrag⟩, plain_of_mem f ?_⟩ hin
  · simp [policyFragments, hmem]
  · simp [hmem]

/-! ## The restricted classifier -/

theorem isSome_restrictedSecretReason (lower : String) :
    (restrictedSecretReason lower).isSome = true ↔
      containsAny lower credentialPatterns = true ∨ containsAny lower accessCodePatterns = true ∨
        containsAny lower paymentPatterns = true ∨
        (containsAny lower sensitiveObjects = true ∧ containsAny lower locationPhrases = true) ∨
        containsAny lower documentPhrases = true := by
  unfold restrictedSecretReason describesSensitiveLocation containsLocationPhrase
  split_ifs with h1 h2 h3 h4 <;> simp_all

theorem needsRestrictedSecretScan_of_reason (h : (restrictedSecretReason lower).isSome = true) :
    needsRestrictedSecretScan lower = true ∨ containsText lower "lock combo" = true := by
  have hscan : ∀ {ps fs : List String}, List.Forall₂ (CoveredBy restrictedFragments) ps fs →
      containsAny lower ps = true → needsRestrictedSecretScan lower = true := by
    intro ps fs hcover hany
    obtain ⟨p, hp, hin⟩ := containsAny_iff.mp hany
    obtain ⟨f, hf⟩ := exists_cover hcover hp
    exact any_of_covered restrictedFragments_fragment hf hin
  rcases (isSome_restrictedSecretReason lower).mp h with h | h | h | ⟨-, h⟩ | h
  · exact .inl (hscan credential_covered h)
  · obtain ⟨p, hp, hin⟩ := containsAny_iff.mp h
    obtain ⟨f, rfl | hf⟩ := exists_cover accessCode_covered hp
    · exact .inr (decide_eq_true hin)
    · exact .inl (any_of_covered restrictedFragments_fragment hf hin)
  · exact .inl (hscan payment_covered h)
  · exact .inl (hscan location_covered h)
  · exact .inl (hscan document_covered h)

theorem needsPolicy_of_reason {content : String}
    (h : (restrictedSecretReason (toLowercase content)).isSome = true) :
    needsPolicyContentLower content = true ∨ kSecret (toLowercase content) = true := by
  have hplain : ∀ {ps fs ks : List String},
      List.Forall₂ (fun p f => p ∈ ks ∨ PlainlyCovered p f) ps fs →
      containsAny (toLowercase content) ps = true →
        needsPolicyContentLower content = true ∨ containsAny (toLowercase content) ks = true := by
    intro ps fs ks hcover hany
    obtain ⟨p, hp, hin⟩ := containsAny_iff.mp hany
    obtain ⟨f, hk | hf⟩ := exists_cover hcover hp
    · exact .inr (containsAny_iff.mpr ⟨p, hk, hin⟩)
    · exact .inl (needs_of_plainlyCovered hf hin)
  unfold kSecret
  rw [Bool.or_eq_true, Bool.and_eq_true]
  rcases (isSome_restrictedSecretReason _).mp h with h | h | h | ⟨hobject, hlocation⟩ | h
  · exact (hplain credential_plain h).imp_right .inl
  · obtain ⟨p, hp, hin⟩ := containsAny_iff.mp h
    obtain ⟨f, hk | hf⟩ := exists_cover accessCode_plain hp
    · exact .inr (.inl (containsAny_iff.mpr ⟨_, hk.1, hk.2.trans hin⟩))
    · exact .inl (needs_of_plainlyCovered hf hin)
  · exact (hplain payment_plain h).imp_right .inl
  · rcases hplain object_plain hobject with hneeds | hkey
    · exact .inl hneeds
    · exact (hplain location_plain hlocation).imp_right (fun hkept => .inr ⟨hkey, hkept⟩)
  · obtain ⟨p, hp, hin⟩ := containsAny_iff.mp h
    obtain ⟨f, hf⟩ := exists_cover document_plain hp
    exact .inl (needs_of_plainlyCovered hf hin)

theorem containsAny_mono {text : String} {ks ps : List String} (hsub : ks ⊆ ps)
    (h : containsAny text ks = true) : containsAny text ps = true := by
  obtain ⟨p, hp, hin⟩ := containsAny_iff.mp h
  exact containsAny_iff.mpr ⟨p, hsub hp, hin⟩

theorem reason_of_lockCombo (h : containsText lower "lock combo" = true) :
    (restrictedSecretReason lower).isSome = true := by
  apply (isSome_restrictedSecretReason lower).mpr
  refine .inr (.inl (containsAny_iff.mpr ⟨"lock combo", ?_, of_decide_eq_true h⟩))
  simp [accessCodePatterns]

theorem reason_of_kSecret (h : kSecret lower = true) :
    (restrictedSecretReason lower).isSome = true := by
  unfold kSecret at h
  rw [Bool.or_eq_true, Bool.and_eq_true] at h
  apply (isSome_restrictedSecretReason lower).mpr
  rcases h with hk | ⟨hkey, hkept⟩
  · obtain ⟨p, hp, hin⟩ := containsAny_iff.mp hk
    simp only [kPatterns, List.mem_cons, List.not_mem_nil, or_false] at hp
    rcases hp with rfl | rfl | rfl | rfl
    · exact .inl (containsAny_iff.mpr ⟨_, by simp [credentialPatterns], hin⟩)
    · exact .inl (containsAny_iff.mpr ⟨_, by simp [credentialPatterns], hin⟩)
    · exact .inr (.inl (containsAny_iff.mpr ⟨_, by simp [accessCodePatterns], hin⟩))
    · exact .inr (.inr (.inl (containsAny_iff.mpr ⟨_, by simp [paymentPatterns], hin⟩)))
  · refine .inr (.inr (.inr (.inl ⟨containsAny_mono ?_ hkey, containsAny_mono ?_ hkept⟩)))
    · simp [keyObjects, sensitiveObjects]
    · simp [keptPhrases, locationPhrases]

/-- A restricted content passes the scans unseen in two ways: it has `lock combo` and no
fragment, or it has a pattern with a `k` and the raw content no fragment. -/
theorem unseen_iff (content : String) :
    ((restrictedSecretReason (toLowercase content)).isSome = true ∧
      ¬ (needsPolicyContentLower content = true ∧
        needsRestrictedSecretScan (toLowercase content) = true)) ↔
    (containsText (toLowercase content) "lock combo" = true ∧
        needsRestrictedSecretScan (toLowercase content) = false) ∨
      (kSecret (toLowercase content) = true ∧ needsPolicyContentLower content = false) := by
  constructor
  · rintro ⟨hreason, hunseen⟩
    by_cases hscan : needsRestrictedSecretScan (toLowercase content) = true
    · have hneeds : ¬ needsPolicyContentLower content = true := fun h => hunseen ⟨h, hscan⟩
      exact .inr ⟨(needsPolicy_of_reason hreason).resolve_left hneeds, by simpa using hneeds⟩
    · exact .inl ⟨(needsRestrictedSecretScan_of_reason hreason).resolve_left hscan,
        by simpa using hscan⟩
  · rintro (⟨hlock, hscan⟩ | ⟨hk, hneeds⟩)
    · exact ⟨reason_of_lockCombo hlock, by simp [hscan]⟩
    · exact ⟨reason_of_kSecret hk, by simp [hneeds]⟩

/-! ## Decisions with and without the scans -/

theorem toLowercase_of_ascii {s : String} (h : IsAscii s.toList) :
    toLowercase s = toAsciiLowercase s := by
  have hchars : ∀ cs : List Char, IsAscii cs → cs.flatMap lowercaseChar = cs.map Char.toLower := by
    intro cs
    induction cs with
    | nil => exact fun _ => rfl
    | cons c cs ih =>
      intro hcs
      have hc := hcs c mem_cons_self
      have hlower : lowercaseChar c = [c.toLower] := by
        unfold lowercaseChar
        rw [if_neg (by omega), if_neg (by omega)]
      rw [flatMap_cons, hlower, ih (fun x hx => hcs x (mem_cons_of_mem _ hx))]
      rfl
  unfold toLowercase toAsciiLowercase
  rw [hchars _ h]

theorem privateKind_of_eqIgnoreAsciiCase {kind : String}
    (h : eqIgnoreAsciiCase kind "private" = true) :
    privateKind (toLowercase (trim kind)) = true := by
  have hkind : toAsciiLowercase kind = "private" := by
    have hword : toAsciiLowercase "private" = "private" := by decide
    unfold eqIgnoreAsciiCase at h
    rw [beq_iff_eq, hword] at h
    exact h
  have htrim : toAsciiLowercase (trim kind) = "private" := by
    rw [← trim_toAsciiLowercase, hkind]
    decide
  have hascii : IsAscii (trim kind).toList := by
    intro c hc
    have hmem : c.toLower ∈ "private".toList := by
      rw [← htrim, toAsciiLowercase, String.toList_ofList]
      exact mem_map_of_mem hc
    have hlower : c.toLower.toNat < 128 := by
      have hword : IsAscii "private".toList := by decide
      exact hword _ hmem
    rw [toNat_toLower] at hlower
    split at hlower <;> omega
  rw [toLowercase_of_ascii hascii, htrim]
  decide

variable (kind : String) {content : String}

theorem inferMetadataLower_eq_full
    (hseen : (restrictedSecretReason (toLowercase content)).isSome = true →
      needsRestrictedSecretScan (toLowercase content) = true) :
    inferMetadataLower kind (toLowercase (trim kind)) (toLowercase content) =
      inferMetadataFull kind content := by
  have hcautious : (needsCautiousScan (toLowercase content) &&
      containsAny (toLowercase content) cautiousPatterns) =
        containsAny (toLowercase content) cautiousPatterns := by
    cases h : containsAny (toLowercase content) cautiousPatterns with
    | false => exact Bool.and_false _
    | true => rw [needsCautiousScan_of_pattern h, Bool.and_true]
  have hrestricted : (needsRestrictedSecretScan (toLowercase content) &&
      (restrictedSecretReason (toLowercase content)).isSome) =
        (restrictedSecretReason (toLowercase content)).isSome := by
    cases h : (restrictedSecretReason (toLowercase content)).isSome with
    | false => exact Bool.and_false _
    | true => rw [hseen h, Bool.and_true]
  unfold inferMetadataLower inferMetadataFull isCautiousMemory
  rw [needsPrivateIntentScan_and, hcautious, hrestricted]

theorem inferMetadataKindOnly_eq_full (hneeds : needsPolicyContentLower content = false)
    (hreason : (restrictedSecretReason (toLowercase content)).isSome = false) :
    inferMetadataKindOnly (toLowercase (trim kind)) = inferMetadataFull kind content := by
  have hintent : hasPrivateIntent (toLowercase content) = false := by
    by_contra h
    rw [needsPolicy_of_intent (by simpa using h)] at hneeds
    cases hneeds
  have hcautious : containsAny (toLowercase content) cautiousPatterns = false := by
    by_contra h
    rw [needsPolicy_of_cautious (by simpa using h)] at hneeds
    cases hneeds
  have hkind : (eqIgnoreAsciiCase kind "private" || privateKind (toLowercase (trim kind))) =
      privateKind (toLowercase (trim kind)) := by
    cases h : eqIgnoreAsciiCase kind "private" with
    | false => exact Bool.false_or _
    | true => rw [privateKind_of_eqIgnoreAsciiCase h, Bool.or_true]
  unfold inferMetadataKindOnly inferMetadataFull
  simp only [hintent, hcautious, hreason, Bool.or_false, hkind, Bool.false_eq_true, if_false]

theorem inferMetadata_of_skipped (h : needsPolicyContentLower content = false) :
    inferMetadata kind content = inferMetadataKindOnly (toLowercase (trim kind)) := by
  unfold inferMetadata
  rw [h]
  exact if_pos rfl

theorem inferMetadata_of_needed (h : needsPolicyContentLower content = true) :
    inferMetadata kind content =
      inferMetadataLower kind (toLowercase (trim kind)) (toLowercase content) := by
  unfold inferMetadata
  rw [h]
  exact if_neg Bool.false_ne_true

theorem assessMemoryWrite_of_skipped (h : needsPolicyContentLower content = false) :
    assessMemoryWrite kind content =
      writeDecision (inferMetadataKindOnly (toLowercase (trim kind))) := by
  unfold assessMemoryWrite
  rw [h]
  exact if_neg Bool.false_ne_true

theorem assessMemoryWrite_of_restricted {reason : String}
    (h : needsPolicyContentLower content = true)
    (hscan : needsRestrictedSecretScan (toLowercase content) = true)
    (hreason : restrictedSecretReason (toLowercase content) = some reason) :
    assessMemoryWrite kind content = restrictedDecision reason := by
  unfold assessMemoryWrite
  dsimp only
  rw [if_pos h, hscan, hreason]

theorem assessMemoryWrite_of_unrestricted (h : needsPolicyContentLower content = true)
    (hreason : needsRestrictedSecretScan (toLowercase content) = true →
      restrictedSecretReason (toLowercase content) = none) :
    assessMemoryWrite kind content = writeDecision
      (inferMetadataLower kind (toLowercase (trim kind)) (toLowercase content)) := by
  unfold assessMemoryWrite
  dsimp only
  rw [if_pos h]
  cases hscan : needsRestrictedSecretScan (toLowercase content) with
  | false => rfl
  | true => rw [hreason hscan]

theorem decisions_eq_full
    (hseen : (restrictedSecretReason (toLowercase content)).isSome = true →
      needsPolicyContentLower content = true ∧
        needsRestrictedSecretScan (toLowercase content) = true) :
    inferMetadata kind content = inferMetadataFull kind content ∧
      assessMemoryWrite kind content = assessMemoryWriteFull kind content := by
  cases hreason : restrictedSecretReason (toLowercase content) with
  | some reason =>
    obtain ⟨hneeds, hscan⟩ := hseen (by rw [hreason]; rfl)
    constructor
    · rw [inferMetadata_of_needed kind hneeds, inferMetadataLower_eq_full kind (fun _ => hscan)]
    · rw [assessMemoryWrite_of_restricted kind hneeds hscan hreason, assessMemoryWriteFull,
        hreason]
  | none =>
    have hwrite : assessMemoryWriteFull kind content =
        writeDecision (inferMetadataFull kind content) := by
      rw [assessMemoryWriteFull, hreason]
    rw [hwrite]
    cases hneeds : needsPolicyContentLower content with
    | false =>
      rw [inferMetadata_of_skipped kind hneeds, assessMemoryWrite_of_skipped kind hneeds,
        inferMetadataKindOnly_eq_full kind hneeds (by rw [hreason]; rfl)]
      exact ⟨rfl, rfl⟩
    | true =>
      rw [inferMetadata_of_needed kind hneeds,
        assessMemoryWrite_of_unrestricted kind hneeds (fun _ => hreason),
        inferMetadataLower_eq_full kind (fun h => (hseen h).2)]
      exact ⟨rfl, rfl⟩

theorem sensitivity_full_of_reason
    (hreason : (restrictedSecretReason (toLowercase content)).isSome = true) :
    (inferMetadataFull kind content).sensitivity = .restricted := by
  unfold inferMetadataFull
  exact if_pos hreason

theorem sensitivity_of_unseen
    (hunseen : ¬ (needsPolicyContentLower content = true ∧
      needsRestrictedSecretScan (toLowercase content) = true)) :
    (inferMetadata kind content).sensitivity ≠ .restricted := by
  cases hneeds : needsPolicyContentLower content with
  | false =>
    rw [inferMetadata_of_skipped kind hneeds]
    unfold inferMetadataKindOnly
    dsimp only
    split_ifs <;> simp
  | true =>
    have hscan : needsRestrictedSecretScan (toLowercase content) = false := by
      by_contra h
      exact hunseen ⟨hneeds, by simpa using h⟩
    rw [inferMetadata_of_needed kind hneeds]
    unfold inferMetadataLower
    rw [hscan]
    dsimp only [Bool.false_and]
    split_ifs <;> simp_all

/-- The scans leave the metadata and the write decision of a content as the classifiers
would have them, and every restricted content is refused, exactly when the content is not
an unseen restricted one. -/
theorem scans_change_nothing_iff (kind content : String) :
    (inferMetadata kind content = inferMetadataFull kind content ∧
      assessMemoryWrite kind content = assessMemoryWriteFull kind content ∧
      (∀ reason, restrictedSecretReason (toLowercase content) = some reason →
        assessMemoryWrite kind content = restrictedDecision reason)) ↔
    ¬ (containsText (toLowercase content) "lock combo" = true ∧
        needsRestrictedSecretScan (toLowercase content) = false) ∧
      ¬ (kSecret (toLowercase content) = true ∧ needsPolicyContentLower content = false) := by
  rw [← not_or, ← unseen_iff]
  constructor
  · rintro ⟨hmeta, -, -⟩ ⟨hreason, hunseen⟩
    apply sensitivity_of_unseen kind hunseen
    rw [hmeta, sensitivity_full_of_reason kind hreason]
  · intro hseen
    have hseen' : (restrictedSecretReason (toLowercase content)).isSome = true →
        needsPolicyContentLower content = true ∧
          needsRestrictedSecretScan (toLowercase content) = true := by
      intro hreason
      by_contra hunseen
      exact hseen ⟨hreason, hunseen⟩
    obtain ⟨hmeta, hwrite⟩ := decisions_eq_full kind hseen'
    refine ⟨hmeta, hwrite, ?_⟩
    intro reason hreason
    obtain ⟨hneeds, hscan⟩ := hseen' (by rw [hreason]; rfl)
    exact assessMemoryWrite_of_restricted kind hneeds hscan hreason

/-- The lock combination at the start of a sentence is stored. -/
theorem scans_miss_lock_combo :
    ¬ ∀ kind content reason, restrictedSecretReason (toLowercase content) = some reason →
      (assessMemoryWrite kind content).allowed = false := by
  intro h
  have := h "fact" "lock combo is 12-34"
    "I should not store household access codes or lock combinations as voice memory."
    (by decide +kernel)
  revert this
  decide +kernel

end GenieClaw.Memory
