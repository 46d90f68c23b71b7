import GenieClaw.Memory.Household

/-!
# References to secrets

A memory that mentions a secret may have a row in `app_only_secret_references`, with a label that
is spoken in answers. The label is a fixed name for some secrets, and else the text before the
first of a few markers, in the order of their priority, or the whole content without one.
-/

namespace GenieClaw.Memory

open Library Library.Text

inductive SecretType where
  | wifiPassword
  | password
  | gateCode
  | lockCode
  | securityCode
  | confirmationNumber
  | accountNumber
  | secureLocation
  | combination
deriving DecidableEq

def SecretType.asStr : SecretType → String
  | .wifiPassword => "wifi_password"
  | .password => "password"
  | .gateCode => "gate_code"
  | .lockCode => "lock_code"
  | .securityCode => "security_code"
  | .confirmationNumber => "confirmation_number"
  | .accountNumber => "account_number"
  | .secureLocation => "secure_location"
  | .combination => "combination"

/-- `AppOnlySecretReference`, without the id of its memory. -/
structure AppOnlySecretReference where
  secretType : SecretType
  label : String
  locationHint : String
deriving DecidableEq

def mentionsWifi (lower : String) : Bool := containsAny lower ["wi-fi", "wifi", "wi fi"]

def mentionsCredential (lower : String) : Bool :=
  containsAny lower ["password", "passcode", "credential"]

def mentionsLockWord (lower : String) : Bool :=
  (lower.toList.splitOnP fun c => !isAsciiAlphanumeric c).any fun token =>
    token = "lock".toList || token = "locks".toList

def mentionsPassword (lower : String) : Bool :=
  containsAny lower ["password", " pass:"] || startsWith "pass:" lower ||
    containsAny lower ["bank login", "password manager", "secure vault", "credentials vault"] ||
    (containsText lower "netflix" && containsAny lower ["code", "credential", "login"])

def mentionsLockCode (lower : String) : Bool :=
  containsAny lower ["door code", "lock code"] ||
    (containsText lower "shed" && containsText lower "code" &&
      !containsAny lower ["paint", "color", "colour"]) ||
    (containsText lower "shed" && containsText lower "combination") ||
    (mentionsLockWord lower && containsAny lower ["combination", "combo"])

def secretTypeFromText (lower : String) : Option SecretType :=
  if (mentionsWifi lower && mentionsCredential lower) || containsText lower "network password" ||
      (containsText lower "guest network" && mentionsCredential lower) then some .wifiPassword
  else if mentionsPassword lower then some .password
  else if containsText lower "gate code" then some .gateCode
  else if mentionsLockCode lower then some .lockCode
  else if containsAny lower ["alarm code", "security code"] then some .securityCode
  else if containsText lower "confirmation number" then some .confirmationNumber
  else if containsText lower "account number" then some .accountNumber
  else if containsAny lower ["spare key", "spare keys", "house key", "house keys"] then
    some .secureLocation
  else if containsAny lower ["combination", "combo"] then some .combination
  else none

/-! ## Labels -/

/-- The names that some secrets always have. -/
def fixedSecretLabel (lower : String) (secretType : SecretType) : Option String :=
  let wifiOrPassword := secretType = .wifiPassword || secretType = .password
  let combinationOrLock := secretType = .combination || secretType = .lockCode
  if containsText lower "router" && containsText lower "admin" && secretType = .password then
    some "router admin"
  else if containsText lower "guest" && wifiOrPassword then some "guest wifi"
  else if containsText lower "printer" && wifiOrPassword then some "printer wifi"
  else if containsText lower "xbox" && wifiOrPassword then some "Xbox wifi"
  else if containsText lower "locker" && combinationOrLock then
    if containsText lower "mia" then some "Mia locker combination" else some "locker combination"
  else if containsText lower "shed" && combinationOrLock then some "shed combination"
  else if containsText lower "netflix" && secretType = .password then some "Netflix account"
  else if containsText lower "bank" && secretType = .password then some "bank login"
  else if secretType = .secureLocation && containsText lower "key" then some "spare keys"
  else if secretType = .confirmationNumber && containsText lower "hotel" then
    some "hotel confirmation number"
  else if secretType = .accountNumber && containsText lower "gas" then
    some "gas bill account number"
  else if mentionsWifi lower then some "wifi"
  else none

def secretMarkers : List String := [" is ", " pass:", " pass ", " stored ", " saved ", " lives "]

/-- The text before the first marker of the list that is in the content. -/
def beforeMarker (content : String) : String :=
  (secretMarkers.findSome? fun marker =>
    (splitOnceIgnoreCase marker content).map fun parts => trim parts.1).getD content

def withoutOwner (text : String) : String :=
  trimStartMatches "my " (trimStartMatches "our " (trimStartMatches "the " text))

def SecretType.name (secretType : SecretType) : String :=
  String.ofList (secretType.asStr.toList.map fun c => if c = '_' then ' ' else c)

def secretLabelFromText (content lower : String) (secretType : SecretType) : String :=
  match fixedSecretLabel lower secretType with
  | some label => label
  | none =>
    let label := cleanSentenceValue (withoutOwner (beforeMarker content))
    if label = "" then secretType.name else label

def isHintEnd (c : Char) : Bool := c == '.' || c == ',' || c == ';' || c == '!' || c == '?'

/-- A marker with nothing but punctuation from it on is passed over. -/
def secretLocationHint (content : String) : String :=
  (["credential:", "credentials vault", "local vault", "vault", "dashboard"].findSome? fun marker =>
    (splitOnceIgnoreCase marker content).bind fun parts =>
      let hint := trimMatches isHintEnd (trim (String.ofList
        (content.toList.drop parts.1.toList.length)))
      if hint = "" then none else some hint).getD "app-only credential storage"

/-! ## References -/

def explicitlyAppOnly (lower : String) (metadata : MemoryPolicyMetadata) : Bool :=
  metadata.spokenPolicy = .appOnly || metadata.spokenPolicy = .deny ||
    containsAny lower ["credential:", "credentials vault", "local vault", "app-only", "app only"]

def appOnlySecretReferenceFromMemory (_kind content : String) (metadata : MemoryPolicyMetadata) :
    Option AppOnlySecretReference :=
  let lower := toAsciiLowercase content
  (secretTypeFromText lower).bind fun secretType =>
    let sharedAllowed := (assessMemoryRead metadata MemoryReadContext.sharedRoomVoice).allowed
    if sharedAllowed && !explicitlyAppOnly lower metadata then none
    else some ⟨secretType, secretLabelFromText content lower secretType, secretLocationHint content⟩

/-- The columns `secret_type`, `label`, `normalized_label` and `location_hint`. -/
def appOnlySecretColumns (kind content : String) (metadata : MemoryPolicyMetadata) :
    Option Columns :=
  (appOnlySecretReferenceFromMemory kind content metadata).map fun found =>
    [.text found.secretType.asStr, .text found.label, .text (normalizeAliasKey found.label),
      .text found.locationHint]

end GenieClaw.Memory
