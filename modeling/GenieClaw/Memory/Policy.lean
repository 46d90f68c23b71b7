import GenieClaw.Library.AsciiSearch

/-!
# Shared-space memory policy

`genie-core/src/memory/policy.rs`: the scope, sensitivity and spoken policy given to a
memory when it is written, and what may be said of it when it is read. The classifiers
look for patterns in the lower-cased content. Each is guarded by a scan of the bytes for
shorter fragments, and the content is lower-cased only when one of the scans fires.
-/

namespace GenieClaw.Memory

open Library Library.Text

inductive MemoryScope where
  | session
  | household
  | person
  | «private»
deriving DecidableEq

inductive MemorySensitivity where
  | normal
  | cautious
  | restricted
deriving DecidableEq

inductive SpokenMemoryPolicy where
  | allow
  | confirm
  | appOnly
  | deny
deriving DecidableEq

inductive IdentityConfidence where
  | unknown
  | low
  | medium
  | high
deriving DecidableEq

/-- The derived order: each constructor is above the ones before it. -/
def IdentityConfidence.rank : IdentityConfidence → Nat
  | .unknown => 0
  | .low => 1
  | .medium => 2
  | .high => 3

instance : LE IdentityConfidence := ⟨fun a b => a.rank ≤ b.rank⟩

instance (a b : IdentityConfidence) : Decidable (a ≤ b) :=
  inferInstanceAs (Decidable (a.rank ≤ b.rank))

inductive MemoryDisclosure where
  | speak
  | confirm
  | appOnly
  | deny
deriving DecidableEq

inductive MemoryDisclosureClass where
  | «public»
  | household
  | person
  | sensitive
  | «private»
  | restricted
deriving DecidableEq

structure MemoryPolicyMetadata where
  scope : MemoryScope
  sensitivity : MemorySensitivity
  spokenPolicy : SpokenMemoryPolicy
deriving DecidableEq

structure MemoryReadContext where
  identityConfidence : IdentityConfidence
  explicitNamedPerson : Bool
  explicitPrivateIntent : Bool
  sharedSpaceVoice : Bool
deriving DecidableEq

structure MemoryPolicyDecision where
  allowed : Bool
  disclosure : MemoryDisclosure
  «class» : MemoryDisclosureClass
  reason : String
deriving DecidableEq

def MemoryReadContext.sharedRoomVoice : MemoryReadContext where
  identityConfidence := .unknown
  explicitNamedPerson := false
  explicitPrivateIntent := false
  sharedSpaceVoice := true

def classifyMemory (metadata : MemoryPolicyMetadata) : MemoryDisclosureClass :=
  if metadata.sensitivity = .restricted ∨ metadata.spokenPolicy = .deny then .restricted
  else if metadata.scope = .«private» then .«private»
  else if metadata.sensitivity = .cautious ∨ metadata.spokenPolicy = .confirm then .sensitive
  else
    match metadata.scope with
    | .session => .household
    | .household => .household
    | .person => .person
    | .«private» => .«private»

def decisionForMetadata (metadata : MemoryPolicyMetadata) (allowed : Bool)
    (disclosure : MemoryDisclosure) (reason : String) : MemoryPolicyDecision :=
  ⟨allowed, disclosure, classifyMemory metadata, reason⟩

def restrictedDecision (reason : String) : MemoryPolicyDecision :=
  ⟨false, .deny, .restricted, reason⟩

/-! ## Patterns of the classifiers -/

def credentialPatterns : List String :=
  ["password", "pass:", " pass:", "passcode", "one-time code", "one time code", "otp",
    "2fa code", "recovery code", "seed phrase", "recovery phrase", "private key",
    "secret key", "api key", "access token"]

def accessCodePatterns : List String :=
  ["gate code", "door code", "garage code", "alarm code", "security code", "safe code",
    "safe combination", "lock combination", "lock combo", "bike lock combo",
    "bicycle lock combo", "bike lock combination", "bicycle lock combination"]

def paymentPatterns : List String :=
  ["credit card", "card number", "cvv", "account number", "confirmation number",
    "bank account", "routing number", "social security", "ssn", "passport number",
    "driver license number", "government id"]

def sensitiveObjects : List String :=
  ["passport", "passports", "birth certificate", "birth certificates",
    "social security card", "ssn card", "government id", "house key", "spare key",
    "safe key", "car title", "property deed"]

def locationPhrases : List String :=
  [" is in ", " are in ", " is inside ", " are inside ", " is kept in ", " are kept in ",
    " is kept at ", " are kept at ", " is stored in ", " are stored in ", " is stored at ",
    " are stored at ", " is hidden in ", " are hidden in ", " is hidden under ",
    " are hidden under ", " under ", " behind "]

def documentPhrases : List String :=
  ["documents are in the safe", "documents are inside the safe",
    "important documents are in", "important documents are kept",
    "valuables are in the safe", "valuables are inside the safe"]

def privateIntentPatterns : List String :=
  ["remember this privately", "private memory", "private note", "for me only",
    "do not say this aloud", "don't say this aloud"]

def cautiousPatterns : List String :=
  ["medical diagnosis", "mental health", "therapy session", "legal problem",
    "personal secret", "medication", "prescription", "diagnosed with", "for diabetes",
    "for cancer", "for depression", "for anxiety", "for hypertension", "for epilepsy",
    "for asthma", "insulin", "chemotherapy", "dialysis"]

def containsLocationPhrase (lower : String) : Bool := containsAny lower locationPhrases

def describesSensitiveLocation (lower : String) : Bool :=
  (containsAny lower sensitiveObjects && containsLocationPhrase lower) ||
    containsAny lower documentPhrases

def restrictedSecretReason (lower : String) : Option String :=
  if containsAny lower credentialPatterns then
    some "I should not store passwords, tokens, keys, or one-time codes as voice memory."
  else if containsAny lower accessCodePatterns then
    some "I should not store household access codes or lock combinations as voice memory."
  else if containsAny lower paymentPatterns then
    some "I should not store payment, banking, or government ID details as voice memory."
  else if describesSensitiveLocation lower then
    some "I should not store sensitive document, key, or safe locations as voice memory."
  else none

def hasPrivateIntent (lower : String) : Bool := containsAny lower privateIntentPatterns

/-! ## Fragments of the scans -/

def restrictedFragments : List String :=
  ["password", "passcode", "pass:", " pass:", "one-time", "one time", "otp", "2fa",
    "recovery", "seed phrase", "private key", "secret key", "api key", "access token",
    "gate code", "door code", "garage code", "alarm code", "security code", "safe code",
    "combination", " lock combo", "credit card", "card number", "cvv", "account number",
    "confirmation number", "bank account", "routing number", "social security", "ssn",
    "passport", "driver license", "government id", " is in ", " are in ", " is inside ",
    " are inside ", " is kept ", " are kept ", " is stored ", " are stored ",
    " is hidden ", " are hidden ", " under ", " behind ", "birth certificate",
    "house key", "spare key", "safe key", "car title", "property deed", "documents are",
    "valuables are", "important documents"]

def privateIntentFragments : List String := ["private", "for me only", "aloud", "remember this"]

def cautiousFragments : List String :=
  ["medical", "mental health", "therapy", "legal", "secret", "medication", "prescription",
    "diagnosed", "diabetes", "cancer", "depression", "anxiety", "hypertension",
    "epilepsy", "asthma", "insulin", "chemotherapy", "dialysis"]

def needsRestrictedSecretScanCi (text : String) : Bool :=
  restrictedFragments.any (containsAsciiCi text)

def needsRestrictedSecretScan (lower : String) : Bool := needsRestrictedSecretScanCi lower

def needsPrivateIntentScanCi (text : String) : Bool :=
  privateIntentFragments.any (containsAsciiCi text)

def needsPrivateIntentScan (lower : String) : Bool := needsPrivateIntentScanCi lower

def needsCautiousScanCi (text : String) : Bool := cautiousFragments.any (containsAsciiCi text)

def needsCautiousScan (lower : String) : Bool := needsCautiousScanCi lower

def needsPolicyContentLower (content : String) : Bool :=
  needsRestrictedSecretScanCi content || needsPrivateIntentScanCi content ||
    needsCautiousScanCi content

/-! ## Metadata of a memory -/

def isCautiousMemory (kind lower : String) : Bool :=
  eqIgnoreAsciiCase kind "private" ||
    (needsCautiousScan lower && containsAny lower cautiousPatterns)

/-- The kinds that are private by name. -/
def privateKind (kindLower : String) : Bool :=
  kindLower = "private" || startsWith "private_" kindLower

def personLinked (kindLower : String) : Bool :=
  kindLower = "person" || startsWith "person_" kindLower || kindLower = "person-linked" ||
    kindLower = "person_linked"

def scopeFor (privateIntent personLinked : Bool) : MemoryScope :=
  if privateIntent then .«private» else if personLinked then .person else .household

def spokenPolicyFor (scope : MemoryScope) (sensitivity : MemorySensitivity) : SpokenMemoryPolicy :=
  match scope, sensitivity with
  | _, .restricted => .deny
  | .«private», _ => .appOnly
  | _, .cautious => .confirm
  | _, _ => .allow

def inferMetadataKindOnly (kindLower : String) : MemoryPolicyMetadata :=
  let privateIntent := privateKind kindLower
  let scope := scopeFor privateIntent (personLinked kindLower)
  let sensitivity := if privateIntent then .cautious else .normal
  ⟨scope, sensitivity, spokenPolicyFor scope sensitivity⟩

def inferMetadataLower (kind kindLower contentLower : String) : MemoryPolicyMetadata :=
  let privateIntent := privateKind kindLower ||
    (needsPrivateIntentScan contentLower && hasPrivateIntent contentLower)
  let restricted := needsRestrictedSecretScan contentLower &&
    (restrictedSecretReason contentLower).isSome
  let cautious := isCautiousMemory kind contentLower
  let scope := scopeFor privateIntent (personLinked kindLower)
  let sensitivity :=
    if restricted then .restricted
    else if cautious || privateIntent then .cautious
    else .normal
  ⟨scope, sensitivity, spokenPolicyFor scope sensitivity⟩

def inferMetadata (kind content : String) : MemoryPolicyMetadata :=
  let kindLower := toLowercase (trim kind)
  if !needsPolicyContentLower content then inferMetadataKindOnly kindLower
  else inferMetadataLower kind kindLower (toLowercase content)

/-! ## Decisions -/

/-- The end of both branches of `assess_memory_write`. -/
def writeDecision (metadata : MemoryPolicyMetadata) : MemoryPolicyDecision :=
  if metadata.scope = .«private» then
    decisionForMetadata metadata false .appOnly
      "Private personal memory requires an explicit app-backed flow in V1."
  else
    decisionForMetadata metadata true .speak "Memory is safe for household-shared storage."

def assessMemoryWrite (kind content : String) : MemoryPolicyDecision :=
  let kindLower := toLowercase (trim kind)
  if needsPolicyContentLower content then
    let contentLower := toLowercase content
    match needsRestrictedSecretScan contentLower, restrictedSecretReason contentLower with
    | true, some reason => restrictedDecision reason
    | _, _ => writeDecision (inferMetadataLower kind kindLower contentLower)
  else writeDecision (inferMetadataKindOnly kindLower)

def assessMemoryRead (metadata : MemoryPolicyMetadata) (context : MemoryReadContext) :
    MemoryPolicyDecision :=
  if metadata.spokenPolicy = .deny ∨ metadata.sensitivity = .restricted then
    decisionForMetadata metadata false .deny "Memory is restricted and must not be spoken."
  else
    match metadata.scope with
    | .session | .household =>
      match metadata.spokenPolicy with
      | .allow =>
        decisionForMetadata metadata true .speak
          "Household memory is safe for shared-space use."
      | .confirm =>
        decisionForMetadata metadata false .confirm
          "Cautious household memory requires confirmation before speaking."
      | .appOnly =>
        decisionForMetadata metadata false .appOnly
          "Memory should be shown in the app instead of spoken."
      | .deny =>
        decisionForMetadata metadata false .deny "Memory policy denies spoken disclosure."
    | .person =>
      if context.explicitNamedPerson ∨ .medium ≤ context.identityConfidence then
        decisionForMetadata metadata true .speak
          "Person-linked household memory is eligible in this context."
      else
        decisionForMetadata metadata false .confirm
          "Person-linked memory needs explicit naming or stronger identity confidence."
    | .«private» =>
      if context.explicitPrivateIntent ∧ ¬ context.sharedSpaceVoice then
        decisionForMetadata metadata false .appOnly
          "Private memory should be presented through a personal interface."
      else
        decisionForMetadata metadata false .deny
          "Private memory is not spoken in shared-room voice."

end GenieClaw.Memory
