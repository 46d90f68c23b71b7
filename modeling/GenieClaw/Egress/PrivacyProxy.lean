import GenieClaw.Egress.Reading

/-!
# The address of the privacy proxy

`PrivacyProxyConfig::endpoint_is_valid` of `genie-common/src/config.rs`, `may_escalate` of
`genie-core/src/llm/escalation.rs`, and the addresses that `PrivacyProxyBackend::from_url`
and `OpenAiCompatClient::from_url` of `genie-core/src/llm` split a base URL into. The two
clients have one way to split it; the check has another.

* `proxyStaysLocal_iff` (no assumption): an admitted URL stays on the device exactly where it begins
  with a loopback host.
-/

namespace GenieClaw.Egress

open Library Library.Text Library.Web List Bool

/-! ## The gate -/

/-- Condition that triggers escalation. -/
inductive EscalationTrigger where
  | localDecline
  | contextOverflow
  | localDeclineOrContextOverflow
deriving DecidableEq

structure PrivacyProxyConfig where
  enabled : Bool := false
  baseUrl : String := "http://127.0.0.1:8180/v1"
  trigger : EscalationTrigger := .localDeclineOrContextOverflow
  vocabPath : String := "/vocab/seed"

def PrivacyProxyConfig.endpointIsValid (config : PrivacyProxyConfig) : Bool :=
  !config.enabled || isLocalUrl config.baseUrl

inductive EscalationReason where
  | contextOverflow
  | localDecline
deriving DecidableEq

def EscalationTrigger.allows : EscalationTrigger → EscalationReason → Bool
  | .contextOverflow, .contextOverflow => true
  | .localDecline, .localDecline => true
  | .localDeclineOrContextOverflow, _ => true
  | _, _ => false

def mayEscalate (proxy : Option PrivacyProxyConfig) (reason : EscalationReason) :
    Option PrivacyProxyConfig :=
  match proxy with
  | none => none
  | some config =>
    if config.enabled && config.endpointIsValid then
      if config.trigger.allows reason then some config else none
    else none

/-! ## The clients -/

/-- The host and the port of a base URL, the way both clients split it. -/
def splitHostPort (defaultPort : Nat) (url : String) : String × Nat :=
  let stripped := ((stripPrefix "http://" url).getD url).toList
  let hostPort := ((splitOnce ['/'] stripped).getD (stripped, [])).1
  let (host, port) := (splitOnce [':'] hostPort).getD (hostPort, (toString defaultPort).toList)
  (String.ofList host, (parseUnsigned 10 16 (String.ofList port)).getD defaultPort)

structure OpenAiCompatClient where
  backendName : String
  host : String
  port : Nat
deriving DecidableEq

def OpenAiCompatClient.fromUrl (backendName url : String) : OpenAiCompatClient where
  backendName := backendName
  host := (splitHostPort 8080 url).1
  port := (splitHostPort 8080 url).2

/-- The address the messages are sent to. -/
def OpenAiCompatClient.address (client : OpenAiCompatClient) : String :=
  client.host ++ ":" ++ toString client.port

structure PrivacyProxyBackend where
  client : OpenAiCompatClient
  host : String
  port : Nat
  vocabPath : String
deriving DecidableEq

def PrivacyProxyBackend.fromUrl (baseUrl vocabPath : String) : PrivacyProxyBackend where
  client := OpenAiCompatClient.fromUrl "privacy-proxy" baseUrl
  host := (splitHostPort 8180 baseUrl).1
  port := (splitHostPort 8180 baseUrl).2
  vocabPath := vocabPath

/-! ## What a URL is split into -/

/-- The host the clients find: up to the first slash, and in that up to the first colon. -/
def clientHost (url : String) : List Char :=
  ((((stripPrefix "http://" url).getD url).toList).takeWhile fun c => c != '/').takeWhile
    fun c => c != ':'

theorem takeWhile_of_splitOnce {c : Char} {cs : List Char} (fallback : List Char) :
    ((splitOnce [c] cs).getD (cs, fallback)).1 = cs.takeWhile fun d => d != c := by
  induction cs with
  | nil => rfl
  | cons d cs ih =>
    rw [splitOnce, takeWhile_cons]
    by_cases hd : d = c
    · subst hd
      simp
    · have hpre : [c].isPrefixOf (d :: cs) = false := by
        simp [List.isPrefixOf, Ne.symm hd]
      rw [hpre, if_neg Bool.false_ne_true, if_pos (bne_iff_ne.mpr hd), ← ih]
      cases splitOnce [c] cs <;> rfl

theorem splitHostPort_host (defaultPort : Nat) (url : String) :
    (splitHostPort defaultPort url).1 = String.ofList (clientHost url) := by
  unfold splitHostPort clientHost
  dsimp only
  rw [takeWhile_of_splitOnce, takeWhile_of_splitOnce]

theorem host_eq (url vocabPath : String) :
    (PrivacyProxyBackend.fromUrl url vocabPath).host =
      (PrivacyProxyBackend.fromUrl url vocabPath).client.host := by
  show (splitHostPort 8180 url).1 = (splitHostPort 8080 url).1
  rw [splitHostPort_host, splitHostPort_host]

theorem mayEscalate_eq_some {config found : PrivacyProxyConfig} {reason : EscalationReason} :
    mayEscalate (some config) reason = some found ↔
      found = config ∧ config.enabled = true ∧ isRemoteUrl config.baseUrl = false ∧
        config.trigger.allows reason = true := by
  have hgate : (config.enabled && config.endpointIsValid) = true ↔
      config.enabled = true ∧ isRemoteUrl config.baseUrl = false := by
    simp only [PrivacyProxyConfig.endpointIsValid, isLocalUrl, and_eq_true, or_eq_true,
      not_eq_true']
    constructor
    · rintro ⟨henabled, hoff | hlocal⟩
      · rw [henabled] at hoff
        cases hoff
      · exact ⟨henabled, hlocal⟩
    · exact fun h => ⟨h.1, .inr h.2⟩
  unfold mayEscalate
  dsimp only
  split_ifs with hopen hallow
  · have hfacts := hgate.mp hopen
    simp [hfacts, hallow, @eq_comm _ config found]
  · simp [hallow]
  · simp only [false_iff]
    exact fun h => hopen (hgate.mpr ⟨h.2.1, h.2.2.1⟩)

/-- Wherever the gate admits a proxy with the base URL, both clients connect to one loopback
host. -/
def ProxyStaysLocal (url : String) : Prop :=
  ∀ config found reason vocabPath, config.baseUrl = url →
    mayEscalate (some config) reason = some found →
      LoopbackText (PrivacyProxyBackend.fromUrl found.baseUrl vocabPath).host.toList ∧
        LoopbackText (PrivacyProxyBackend.fromUrl found.baseUrl vocabPath).client.host.toList ∧
          (PrivacyProxyBackend.fromUrl found.baseUrl vocabPath).host =
            (PrivacyProxyBackend.fromUrl found.baseUrl vocabPath).client.host

/-- Behind an `http://` or from its start on, the text begins with a loopback host without
a colon in it, and the host ends there: at the end, at a slash or at a colon. -/
def BeginsLoopback (url : String) : Prop :=
  ∃ lit rest, ((stripPrefix "http://" url).getD url).toList = lit ++ rest ∧ LoopbackText lit ∧
    ':' ∉ lit ∧ ∀ c ∈ rest.head?, c = ':' ∨ c = '/'

theorem beginsLoopback_iff (url : String) : BeginsLoopback url ↔ LoopbackText (clientHost url) := by
  unfold BeginsLoopback clientHost
  set cs := ((stripPrefix "http://" url).getD url).toList with hcs
  constructor
  · rintro ⟨lit, rest, hsplit, hlit, hcolon, hrest⟩
    have hslash : ∀ c ∈ lit, (c != '/') = true := by
      rintro c hc
      rw [bne_iff_ne]
      rintro rfl
      exact absurd (hlit.chars.2 _ hc).bounds.2.2.2 (by decide)
    have hplain : ∀ c ∈ lit, (c != ':') = true :=
      fun c hc => bne_iff_ne.mpr (ne_of_mem_of_not_mem hc hcolon)
    have hstop : ((rest.takeWhile fun c => c != '/').takeWhile fun c => c != ':') = [] := by
      cases rest with
      | nil => rfl
      | cons d rest =>
        rcases hrest d rfl with rfl | rfl
        · rw [takeWhile_cons_of_pos (by decide), takeWhile_cons_of_neg (by decide)]
        · rw [takeWhile_cons_of_neg (by decide), takeWhile_nil]
    rw [hsplit, takeWhile_append_of_pos hslash, takeWhile_append_of_pos hplain, hstop,
      append_nil]
    exact hlit
  · intro hlit
    set authority := cs.takeWhile fun c => c != '/' with hauthority
    refine ⟨authority.takeWhile fun c => c != ':',
      (authority.dropWhile fun c => c != ':') ++ cs.dropWhile fun c => c != '/', ?_, hlit, ?_, ?_⟩
    · rw [← append_assoc, takeWhile_append_dropWhile, hauthority,
        takeWhile_append_dropWhile]
    · intro hcolon
      simpa using mem_takeWhile_imp hcolon
    · intro c hc
      rw [head?_append] at hc
      cases hhead : (authority.dropWhile fun c => c != ':').head? with
      | some d =>
        rw [hhead] at hc
        cases hc
        exact .inl (by simpa using mem_head?_dropWhile (Option.mem_def.mpr hhead))
      | none =>
        rw [hhead] at hc
        exact .inr (by simpa using mem_head?_dropWhile hc)

/-- An admitted base URL stays on the device exactly where it begins with a loopback host. -/
theorem proxyStaysLocal_iff (url : String) :
    ProxyStaysLocal url ↔ isRemoteUrl url = true ∨ BeginsLoopback url := by
  rw [beginsLoopback_iff]
  constructor
  · intro h
    by_cases hremote : isRemoteUrl url = true
    · exact .inl hremote
    · have hadmit := (@mayEscalate_eq_some { enabled := true, baseUrl := url } _
        .contextOverflow).mpr ⟨rfl, rfl, Bool.eq_false_iff.mpr hremote, rfl⟩
      have hhost := (h _ _ _ "/vocab/seed" rfl hadmit).1
      refine .inr ?_
      simpa [PrivacyProxyBackend.fromUrl, splitHostPort_host] using hhost
  · rintro h config found reason vocabPath rfl hadmit
    obtain ⟨rfl, -, hlocal, -⟩ := mayEscalate_eq_some.mp hadmit
    have hhost :
        LoopbackText (PrivacyProxyBackend.fromUrl found.baseUrl vocabPath).host.toList := by
      show LoopbackText (splitHostPort 8180 found.baseUrl).1.toList
      rw [splitHostPort_host, String.toList_ofList]
      exact h.resolve_left (by rw [hlocal]; exact Bool.false_ne_true)
    exact ⟨hhost, host_eq found.baseUrl vocabPath ▸ hhost, host_eq _ _⟩

/-- The gate checks what stands behind the `@`, the clients connect to what stands before. -/
theorem user_info_leaves_device : ¬ ProxyStaysLocal "http://evil.com:80@localhost/v1" := by
  intro h
  have hadmit := (@mayEscalate_eq_some
    { enabled := true, baseUrl := "http://evil.com:80@localhost/v1" } _ .contextOverflow).mpr
    ⟨rfl, rfl, by decide +kernel, rfl⟩
  have hhost := (h _ _ _ "/vocab/seed" rfl hadmit).1
  have heq : (PrivacyProxyBackend.fromUrl "http://evil.com:80@localhost/v1" "/vocab/seed").host =
      "evil.com" := by decide +kernel
  rw [heq] at hhost
  rcases hhost with hname | ⟨ip, hip, -⟩
  · revert hname
    decide
  · have hnone : IpAddr.parseIp (withoutBrackets "evil.com".toList) = none := by decide
    rw [hnone] at hip
    cases hip

end GenieClaw.Egress
