import GenieClaw.Egress.Reading

/-!
# The optional AI provider

`OptionalProviderPlan::readiness` of `genie-core/src/llm/provider.rs`, `ensure_enabled_ready`
of `genie-common/src/config.rs`, and the URL that `OpenAiCompatibleBackend` of
`genie-core/src/llm/openai_compatible.rs` posts the credential and the messages to. The
library that parses URLs is a parameter.

* `credentialStaysLocal_iff` (the library parses URLs by the standard): the two gates agree, and
  where what they take stays on the device.
-/

namespace GenieClaw.Egress

open Library Library.Text Library.Web List Option

/-! ## Configuration -/

structure AgentConfig where
  contextWindowTokens : Nat := 4096

inductive OptionalAiProviderKind where
  | openAiCompatible
  | openAi
  | anthropic
  | gemini
  | custom
deriving DecidableEq

inductive OptionalAiProviderAuthMode where
  | apiKey
  | oAuthBearer
deriving DecidableEq

structure OptionalAiProviderConfig where
  enabled : Bool := false
  provider : OptionalAiProviderKind := .openAiCompatible
  authMode : OptionalAiProviderAuthMode := .apiKey
  baseUrl : String := ""
  model : String := ""
  apiKeyEnv : String := "GENIEPOD_AI_PROVIDER_API_KEY"
  oauthTokenEnv : String := "GENIEPOD_AI_PROVIDER_OAUTH_TOKEN"
  contextWindowTokens : Nat := 4096
  allowRemoteBaseUrl : Bool := false

/-- The environment variables a process can read. -/
abbrev ProcessEnv := String → Option String

def OptionalAiProviderConfig.credentialEnv (config : OptionalAiProviderConfig) : String :=
  match config.authMode with
  | .apiKey => config.apiKeyEnv
  | .oAuthBearer => config.oauthTokenEnv

def reasonWhen (cond : Bool) (reason : String) : List String := if cond then [reason] else []

def OptionalAiProviderConfig.misconfigurations (config : OptionalAiProviderConfig)
    (agent : AgentConfig) : List String :=
  reasonWhen (agent.contextWindowTokens < config.contextWindowTokens)
    "[optional_ai_provider].context_window_tokens exceeds [agent].context_window_tokens" ++
  reasonWhen (trim config.credentialEnv == "")
    (match config.authMode with
    | .apiKey => "[optional_ai_provider].api_key_env must be set when auth_mode = api_key"
    | .oAuthBearer =>
      "[optional_ai_provider].oauth_token_env must be set when auth_mode = oauth_bearer") ++
  reasonWhen (trim config.baseUrl == "")
    "[optional_ai_provider].base_url must be set when enabled" ++
  reasonWhen (trim config.model == "")
    "[optional_ai_provider].model must be set when enabled" ++
  reasonWhen (isRemoteUrl config.baseUrl && !config.allowRemoteBaseUrl)
    ("[optional_ai_provider].base_url is remote; " ++
      "set allow_remote_base_url = true to opt in")

def notWired (provider : String) : String :=
  "[optional_ai_provider].provider = \"" ++ provider ++
    "\" is not wired yet; use open_ai_compatible"

/-- The check at config load. -/
def OptionalAiProviderConfig.ensureEnabledReady (env : ProcessEnv)
    (config : OptionalAiProviderConfig) (agent : AgentConfig) : Except String Unit :=
  if !config.enabled then .ok ()
  else
    let reasons := config.misconfigurations agent
    if reasons ≠ [] then
      .error ("optional_ai_provider misconfigured: " ++ joinWith "; " reasons)
    else
      match config.provider with
      | .anthropic => .error (notWired "anthropic")
      | .gemini => .error (notWired "gemini")
      | .custom => .error (notWired "custom")
      | .openAiCompatible | .openAi =>
        match env config.credentialEnv with
        | some value =>
          if trim value ≠ "" then .ok ()
          else
            .error ("optional_ai_provider enabled but environment variable " ++
              config.credentialEnv ++ " is empty")
        | none =>
          .error ("optional_ai_provider enabled but environment variable " ++
            config.credentialEnv ++ " is not set")

/-! ## Readiness -/

structure OptionalProviderPlan where
  provider : OptionalAiProviderKind
  authMode : OptionalAiProviderAuthMode
  baseUrl : String
  apiKeyEnv : String
  oauthTokenEnv : String
  contextWindowTokens : Nat
  remoteAllowed : Bool

inductive ProviderReadiness where
  | disabled
  | ready
  | blocked (reasons : List String)
deriving DecidableEq

namespace OptionalProviderPlan

def fromConfig (config : OptionalAiProviderConfig) : Option OptionalProviderPlan :=
  if !config.enabled then none
  else
    some {
      provider := config.provider
      authMode := config.authMode
      baseUrl := config.baseUrl
      apiKeyEnv := config.apiKeyEnv
      oauthTokenEnv := config.oauthTokenEnv
      contextWindowTokens := config.contextWindowTokens
      remoteAllowed := config.allowRemoteBaseUrl }

def credentialEnv (plan : OptionalProviderPlan) : String :=
  match plan.authMode with
  | .apiKey => plan.apiKeyEnv
  | .oAuthBearer => plan.oauthTokenEnv

/-- What is wrong with the credential. The variable is read at every call, since the
operator can unset it after the start. -/
def credentialReasons (env : ProcessEnv) (plan : OptionalProviderPlan) : List String :=
  if trim plan.credentialEnv = "" then
    match plan.authMode with
    | .apiKey => ["missing_api_key_env"]
    | .oAuthBearer => ["missing_oauth_token_env"]
  else
    match env plan.credentialEnv with
    | some value =>
      if trim value ≠ "" then []
      else
        match plan.authMode with
        | .apiKey => ["empty_api_key_env_value"]
        | .oAuthBearer => ["empty_oauth_token_env_value"]
    | none =>
      match plan.authMode with
      | .apiKey => ["api_key_env_unset"]
      | .oAuthBearer => ["oauth_token_env_unset"]

def readiness (env : ProcessEnv) (plan : OptionalProviderPlan) (agent : AgentConfig) :
    ProviderReadiness :=
  let reasons :=
    reasonWhen (agent.contextWindowTokens < plan.contextWindowTokens)
      "context_window_exceeds_agent_budget" ++
    plan.credentialReasons env ++
    reasonWhen (trim plan.baseUrl == "") "missing_base_url" ++
    reasonWhen (remoteUrl plan.baseUrl && !plan.remoteAllowed) "remote_base_url_not_allowed"
  if reasons = [] then .ready else .blocked reasons

end OptionalProviderPlan

/-! ## The request -/

inductive CredentialSource where
  | literal (token : String)
  | envVar (name : String)

structure OpenAiCompatibleBackend (urls : UrlParser) where
  baseUrl : urls.Url
  model : String
  credential : CredentialSource

/-- The URL and the authorization header of a request. -/
structure ChatPost (urls : UrlParser) where
  url : urls.Url
  authorization : String

def parseOpenaiCompatibleBaseUrl (urls : UrlParser) (url : String) : Except String urls.Url :=
  let trimmed := trim url
  if trimmed = "" then .error "openai-compatible base_url must not be empty"
  else
    match urls.parse trimmed with
    | none => .error ("invalid openai-compatible base_url: " ++ trimmed)
    | some parsed =>
      if urls.scheme parsed = "http" ∨ urls.scheme parsed = "https" then
        if urls.host parsed = none then
          .error "openai-compatible base_url must include a host"
        else .ok parsed
      else
        .error ("openai-compatible base_url must use http or https (got " ++
          urls.scheme parsed ++ ")")

def joinChatCompletions (urls : UrlParser) (base : urls.Url) : Except String urls.Url :=
  let baseStr := (urls.asStr base).toList.rdropWhile fun c => c == '/'
  if baseStr = [] then .error "openai-compatible base_url became empty"
  else
    match urls.parse (String.ofList (baseStr ++ "/chat/completions".toList)) with
    | some url => .ok url
    | none => .error "failed to join openai-compatible chat/completions URL"

namespace OpenAiCompatibleBackend

variable {urls : UrlParser}

def new (urls : UrlParser) (url model : String) (credential : CredentialSource) :
    Except String (OpenAiCompatibleBackend urls) := do
  let baseUrl ← parseOpenaiCompatibleBaseUrl urls url
  return { baseUrl, model, credential }

def resolveBearerToken (env : ProcessEnv) (backend : OpenAiCompatibleBackend urls) :
    Except String String := do
  let token ←
    match backend.credential with
    | .literal token => pure token
    | .envVar name =>
      if name = "" then
        throw ("openai-compatible provider misconfigured: " ++
          "credential environment variable name is empty")
      else
        match env name with
        | some value => pure value
        | none =>
          throw ("openai-compatible provider misconfigured: environment variable " ++ name ++
            " is not set")
  let token := trim token
  if token = "" then
    throw ("openai-compatible provider misconfigured: " ++
      "credential environment variable is empty")
  else if token.toList.any fun c => c == '\r' || c == '\n' then
    throw ("openai-compatible provider misconfigured: " ++
      "credential contains invalid header characters")
  else return token

def postChat (env : ProcessEnv) (backend : OpenAiCompatibleBackend urls) :
    Except String (ChatPost urls) := do
  let token ← backend.resolveBearerToken env
  let url ← joinChatCompletions urls backend.baseUrl
  return { url, authorization := "Bearer " ++ token }

end OpenAiCompatibleBackend

/-! ## What the gates ask of the base URL -/

@[simp] theorem reasonWhen_eq_nil {cond : Bool} {reason : String} :
    reasonWhen cond reason = [] ↔ cond = false := by
  cases cond <;> simp [reasonWhen]

/-- The readiness gate takes the base URL: a plan with it is ready. -/
def ReadyWith (base : String) : Prop :=
  ∃ env config agent plan, OptionalProviderPlan.fromConfig config = some plan ∧
    config.baseUrl = base ∧ config.allowRemoteBaseUrl = false ∧ plan.readiness env agent = .ready

/-- The check at config load takes the base URL. -/
def LoadsWith (base : String) : Prop :=
  ∃ (env : ProcessEnv) (config : OptionalAiProviderConfig) (agent : AgentConfig),
    config.enabled = true ∧ config.baseUrl = base ∧ config.allowRemoteBaseUrl = false ∧
      config.ensureEnabledReady env agent = .ok ()

/-- A configuration with nothing else to object to. -/
def plainConfig (base : String) : OptionalAiProviderConfig where
  enabled := true
  baseUrl := base
  model := "default"

/-- Every variable is set. -/
def plainEnv : ProcessEnv := fun _ => some "token"

theorem trim_credentialEnv_ne : trim "GENIEPOD_AI_PROVIDER_API_KEY" ≠ "" := by decide

theorem trim_token_ne : trim "token" ≠ "" := by decide

theorem readyWith_iff (base : String) :
    ReadyWith base ↔ trim base ≠ "" ∧ remoteUrl base = false := by
  constructor
  · rintro ⟨env, config, agent, plan, hplan, rfl, hlocal, hready⟩
    unfold OptionalProviderPlan.fromConfig at hplan
    split_ifs at hplan
    cases hplan
    simp only [OptionalProviderPlan.readiness] at hready
    split_ifs at hready with hreasons
    simp only [List.append_eq_nil_iff, reasonWhen_eq_nil, hlocal, Bool.not_false, Bool.and_true,
      beq_eq_false_iff_ne] at hreasons
    exact ⟨hreasons.1.2, hreasons.2⟩
  · rintro ⟨hne, hremote⟩
    refine ⟨plainEnv, plainConfig base, {}, _, rfl, rfl, rfl, if_pos ?_⟩
    rw [List.append_eq_nil_iff, List.append_eq_nil_iff, List.append_eq_nil_iff]
    refine ⟨⟨⟨rfl, ?_⟩, ?_⟩, ?_⟩
    · unfold OptionalProviderPlan.credentialReasons
      exact (if_neg trim_credentialEnv_ne).trans (if_pos trim_token_ne)
    · exact reasonWhen_eq_nil.mpr (beq_eq_false_iff_ne.mpr hne)
    · refine reasonWhen_eq_nil.mpr ?_
      show (remoteUrl base && true) = false
      rw [hremote]
      rfl

theorem ensureEnabledReady_eq_ok {env : ProcessEnv} {config : OptionalAiProviderConfig}
    {agent : AgentConfig} {value : String} (henabled : config.enabled = true)
    (hreasons : config.misconfigurations agent = [])
    (hprovider : config.provider = .openAiCompatible)
    (hvalue : env config.credentialEnv = some value) (hne : trim value ≠ "") :
    config.ensureEnabledReady env agent = .ok () := by
  unfold OptionalAiProviderConfig.ensureEnabledReady
  simp only [henabled, hreasons, hprovider, hvalue]
  exact if_pos hne

theorem loadsWith_iff (base : String) :
    LoadsWith base ↔ trim base ≠ "" ∧ isRemoteUrl base = false := by
  constructor
  · rintro ⟨env, config, agent, henabled, rfl, hlocal, hready⟩
    simp only [OptionalAiProviderConfig.ensureEnabledReady, henabled, Bool.not_true,
      Bool.false_eq_true, if_false] at hready
    split_ifs at hready with hreasons
    rw [not_not] at hreasons
    simp only [OptionalAiProviderConfig.misconfigurations, List.append_eq_nil_iff,
      reasonWhen_eq_nil, hlocal, Bool.not_false, Bool.and_true, beq_eq_false_iff_ne] at hreasons
    exact ⟨hreasons.1.1.2, hreasons.2⟩
  · rintro ⟨hne, hremote⟩
    refine ⟨plainEnv, plainConfig base, {}, rfl, rfl, rfl, ?_⟩
    have hreasons : (plainConfig base).misconfigurations {} = [] := by
      unfold OptionalAiProviderConfig.misconfigurations
      simp only [List.append_eq_nil_iff, reasonWhen_eq_nil]
      refine ⟨⟨⟨⟨rfl, ?_⟩, ?_⟩, ?_⟩, ?_⟩
      · exact beq_eq_false_iff_ne.mpr trim_credentialEnv_ne
      · exact beq_eq_false_iff_ne.mpr hne
      · exact beq_eq_false_iff_ne.mpr (by decide : trim "default" ≠ "")
      · show (isRemoteUrl base && true) = false
        rw [hremote]
        rfl
    exact ensureEnabledReady_eq_ok rfl hreasons rfl rfl trim_token_ne

/-! ## Where the request goes -/

section Standard

variable {urls : UrlParser} {rules : HostRules}

theorem isWebScheme_toList (name : String) :
    isWebScheme name.toList = true ↔ name = "http" ∨ name = "https" := by
  rw [isWebScheme, Bool.or_eq_true, beq_iff_eq, beq_iff_eq, String.toList_inj, String.toList_inj]

theorem parseOpenaiCompatibleBaseUrl_eq_ok {url : String} {base : urls.Url} :
    parseOpenaiCompatibleBaseUrl urls url = .ok base ↔
      trim url ≠ "" ∧ urls.parse (trim url) = some base ∧
        isWebScheme (urls.scheme base).toList = true ∧ urls.host base ≠ none := by
  unfold parseOpenaiCompatibleBaseUrl
  dsimp only
  by_cases hne : trim url = ""
  · simp [hne]
  · rw [if_neg hne]
    cases hparse : urls.parse (trim url) with
    | none => simp
    | some parsed =>
      dsimp only
      rw [isWebScheme_toList]
      split_ifs with hscheme hhost
      · simp only [Option.some.injEq, false_iff]
        rintro ⟨-, rfl, -, hsome⟩
        exact hsome hhost
      · simp only [Except.ok.injEq, Option.some.injEq]
        constructor
        · rintro rfl
          exact ⟨hne, rfl, hscheme, hhost⟩
        · exact fun h => h.2.1
      · simp only [Option.some.injEq, false_iff]
        rintro ⟨-, rfl, hweb, -⟩
        exact hscheme hweb

theorem exists_longer {scheme authority tail : List Char} (hne : authority ≠ [])
    (hchars : ∀ c ∈ authority, 0x20 < c.toNat ∧ endsAuthority c = false) : ∃ rest,
      (scheme ++ "://".toList ++ authority ++ '/' :: tail).rdropWhile (fun c => c == '/') ++
        "/chat/completions".toList = scheme ++ "://".toList ++ authority ++ '/' :: rest := by
  have hlast : ∀ c ∈ (scheme ++ "://".toList ++ authority).getLast?, (c == '/') = false := by
    intro c hc
    rw [getLast?_append_of_ne_nil _ hne] at hc
    have hend := (hchars c (mem_of_getLast? hc)).2
    simp only [endsAuthority, isSlash, Bool.or_eq_false_iff] at hend
    exact hend.1.1.1
  rw [rdropWhile_append hlast]
  cases hrest : ('/' :: tail).rdropWhile (fun c => c == '/') with
  | nil => exact ⟨"chat/completions".toList, by simp⟩
  | cons c rest =>
    have hprefix := rdropWhile_prefix (fun c => c == '/') ('/' :: tail)
    rw [hrest, cons_prefix_cons] at hprefix
    obtain ⟨rfl, -⟩ := hprefix
    exact ⟨rest ++ "/chat/completions".toList, by simp⟩

theorem host_of_join (hurls : urls.Standard rules) {s : String} {base target : urls.Url}
    (hbase : urls.parse s = some base) (hweb : isWebScheme (urls.scheme base).toList = true)
    (hjoin : joinChatCompletions urls base = .ok target) : urls.host target = urls.host base := by
  obtain ⟨authority, tail, hwritten, hne, hchars, hhost, -⟩ := hurls.written s base hbase hweb
  obtain ⟨rest, hlonger⟩ := @exists_longer (urls.scheme base).toList authority tail hne hchars
  unfold joinChatCompletions at hjoin
  simp only [hwritten, hlonger] at hjoin
  split_ifs at hjoin
  split at hjoin
  · rename_i url hparse
    cases hjoin
    have hread := @webHost_append _ _ ('/' :: rest) hweb hne hchars (by simp; decide)
    have hwebtarget := hurls.scheme_eq _ _ hparse (by rw [String.toList_ofList, hread]; simp)
    obtain ⟨text, htext, heq⟩ := hurls.host_eq _ _ hparse hwebtarget
    rw [String.toList_ofList, hread] at htext
    cases htext
    rw [heq, hhost]
  · cases hjoin

theorem exists_join (hurls : urls.Standard rules) {s : String} {base : urls.Url}
    (hbase : urls.parse s = some base) (hweb : isWebScheme (urls.scheme base).toList = true) :
    ∃ target, joinChatCompletions urls base = .ok target := by
  obtain ⟨authority, tail, hwritten, hne, hchars, -, hsome⟩ := hurls.written s base hbase hweb
  obtain ⟨rest, hlonger⟩ := @exists_longer (urls.scheme base).toList authority tail hne hchars
  obtain ⟨target, htarget⟩ := Option.isSome_iff_exists.mp (hsome rest)
  have hempty : (urls.asStr base).toList.rdropWhile (fun c => c == '/') ≠ [] := by
    intro hnil
    rw [hwritten, List.rdropWhile_eq_nil_iff] at hnil
    exact absurd (hnil ':' (by simp)) (by decide)
  refine ⟨target, ?_⟩
  unfold joinChatCompletions
  dsimp only
  rw [if_neg hempty, hwritten, hlonger, htarget]

/-- Where one of the gates takes the base URL, the credential and the messages go to a
loopback host. -/
def CredentialStaysLocal (urls : UrlParser) (base : String) : Prop :=
  ReadyWith base ∨ LoadsWith base →
    ∀ model credential env (backend : OpenAiCompatibleBackend urls) post,
      OpenAiCompatibleBackend.new urls base model credential = .ok backend →
        backend.postChat env = .ok post →
          ∃ host, urls.host post.url = some host ∧ host.isLoopback = true

/-- As a URL, the text names a loopback host or none. -/
def NamesLoopback (urls : UrlParser) (base : String) : Prop :=
  ∀ url host, urls.parse (trim base) = some url →
    isWebScheme (urls.scheme url).toList = true → urls.host url = some host → host.isLoopback = true

theorem new_eq_ok {url model : String} {credential : CredentialSource}
    {backend : OpenAiCompatibleBackend urls} :
    OpenAiCompatibleBackend.new urls url model credential = .ok backend ↔
      parseOpenaiCompatibleBaseUrl urls url = .ok backend.baseUrl ∧ backend.model = model ∧
        backend.credential = credential := by
  unfold OpenAiCompatibleBackend.new
  cases parseOpenaiCompatibleBaseUrl urls url with
  | error message => simp [bind, Except.bind]
  | ok base =>
    obtain ⟨baseUrl, model', credential'⟩ := backend
    simp only [bind, Except.bind, pure, Except.pure, Except.ok.injEq,
      OpenAiCompatibleBackend.mk.injEq]
    exact and_congr Iff.rfl (and_congr eq_comm eq_comm)

theorem join_of_postChat {env : ProcessEnv} {backend : OpenAiCompatibleBackend urls}
    {post : ChatPost urls} (h : backend.postChat env = .ok post) :
    joinChatCompletions urls backend.baseUrl = .ok post.url := by
  unfold OpenAiCompatibleBackend.postChat at h
  cases htoken : backend.resolveBearerToken env with
  | error message =>
    rw [htoken] at h
    cases h
  | ok token =>
    cases hjoin : joinChatCompletions urls backend.baseUrl with
    | error message =>
      rw [htoken, hjoin] at h
      cases h
    | ok url =>
      rw [htoken, hjoin] at h
      cases h
      rfl

theorem exists_post (hurls : urls.Standard rules) {url : String} {base : urls.Url}
    (hparse : parseOpenaiCompatibleBaseUrl urls url = .ok base) :
    ∃ (backend : OpenAiCompatibleBackend urls) (post : ChatPost urls),
      OpenAiCompatibleBackend.new urls url "default" (.literal "token") = .ok backend ∧
        backend.postChat plainEnv = .ok post ∧ urls.host post.url = urls.host base := by
  obtain ⟨-, hurl, hweb, -⟩ := parseOpenaiCompatibleBaseUrl_eq_ok.mp hparse
  obtain ⟨target, hjoin⟩ := exists_join hurls hurl hweb
  have htoken : ∀ backend : OpenAiCompatibleBackend urls, backend.credential = .literal "token" →
      backend.resolveBearerToken plainEnv = .ok "token" := by
    rintro ⟨baseUrl, model, credential⟩ rfl
    have htrim : trim "token" = "token" := by decide
    have hchars : ("token".toList.any fun c => c == '\r' || c == '\n') = false := by decide
    simp only [OpenAiCompatibleBackend.resolveBearerToken, pure_bind, htrim, hchars]
    rfl
  refine ⟨⟨base, "default", .literal "token"⟩, ⟨target, "Bearer " ++ "token"⟩,
    new_eq_ok.mpr ⟨hparse, rfl, rfl⟩, ?_, host_of_join hurls hurl hweb hjoin⟩
  unfold OpenAiCompatibleBackend.postChat
  rw [htoken _ rfl, hjoin]
  rfl

theorem credentialStaysLocal_of_host (hurls : urls.Standard rules) {base : String}
    (h : trim base ≠ "" → remoteUrl base = false → NamesLoopback urls base) :
    CredentialStaysLocal urls base := by
  intro hgate model credential env backend post hnew hpost
  have haccept : trim base ≠ "" ∧ remoteUrl base = false := by
    rcases hgate with hready | hloads
    · exact (readyWith_iff base).mp hready
    · rw [← isRemoteUrl_eq]
      exact (loadsWith_iff base).mp hloads
  obtain ⟨-, hurl, hweb, hsome⟩ := parseOpenaiCompatibleBaseUrl_eq_ok.mp (new_eq_ok.mp hnew).1
  obtain ⟨host, hhost⟩ := Option.ne_none_iff_exists'.mp hsome
  refine ⟨host, ?_, h haccept.1 haccept.2 _ host hurl hweb hhost⟩
  rw [host_of_join hurls hurl hweb (join_of_postChat hpost), hhost]

/-- The two gates agree, and what they take goes to a loopback host exactly where nothing cuts
the authority short, or what it is cut to is itself loopback. -/
theorem credentialStaysLocal_iff (hurls : urls.Standard rules) (base : String) :
    isRemoteUrl base = remoteUrl base ∧ CredentialStaysLocal urls base ↔
      remoteUrl base = true ∨ cutShort base = false ∨ NamesLoopback urls base := by
  constructor
  · rintro ⟨-, hlocal⟩
    by_cases hremote : remoteUrl base = true
    · exact .inl hremote
    by_cases hcut : cutShort base = false
    · exact .inr (.inl hcut)
    refine .inr (.inr ?_)
    intro url host hurl hweb hhost
    have hne : trim base ≠ "" := by
      intro hempty
      rw [cutShort, hempty] at hcut
      exact hcut (by decide)
    have hready := (readyWith_iff base).mpr ⟨hne, Bool.eq_false_iff.mpr hremote⟩
    have hparse := parseOpenaiCompatibleBaseUrl_eq_ok.mpr
      ⟨hne, hurl, hweb, by rw [hhost]; exact some_ne_none host⟩
    obtain ⟨backend, post, hnew, hpost, hsame⟩ := exists_post hurls hparse
    obtain ⟨found, hfound, hloop⟩ := hlocal (.inl hready) _ _ _ backend post hnew hpost
    rw [hsame, hhost] at hfound
    cases hfound
    exact hloop
  · intro h
    refine ⟨isRemoteUrl_eq base, credentialStaysLocal_of_host hurls ?_⟩
    intro hne haccept
    rcases h with hremote | hcut | hloop
    · rw [haccept] at hremote
      cases hremote
    · intro url host hurl hweb hhost
      obtain ⟨text, htext, heq⟩ := hurls.host_eq _ _ hurl hweb
      rw [hhost] at heq
      exact (readHost_of_accepted haccept hne hcut htext).isLoopback heq.symm
    · exact hloop

end Standard

/-- A base URL of the local machine with a path. -/
theorem credentialStaysLocal_local :
    UrlParser.plain.Standard HostRules.plain ∧
      (isRemoteUrl "http://localhost:8080/v1" = remoteUrl "http://localhost:8080/v1" ∧
        CredentialStaysLocal UrlParser.plain "http://localhost:8080/v1") :=
  ⟨UrlParser.plain_standard, (credentialStaysLocal_iff UrlParser.plain_standard _).mpr
    (.inr (.inl (by decide)))⟩

def maskedUrl : PlainUrl where
  scheme := "http".toList
  authority := "evil.com".toList
  tail := "?@localhost/v1".toList
  host := .domain "evil.com"

/-- Both gates take a URL whose authority ends at the `?`. -/
theorem question_mark_leaves_device :
    ¬ (isRemoteUrl "http://evil.com?@localhost/v1" = remoteUrl "http://evil.com?@localhost/v1" ∧
      CredentialStaysLocal UrlParser.plain "http://evil.com?@localhost/v1") := by
  rintro ⟨-, hlocal⟩
  have hread : PlainUrl.parse (trim "http://evil.com?@localhost/v1") = some maskedUrl := by
    decide
  have hne : trim "http://evil.com?@localhost/v1" ≠ "" := by decide
  have haccept : remoteUrl "http://evil.com?@localhost/v1" = false := by decide
  have hparse : parseOpenaiCompatibleBaseUrl UrlParser.plain "http://evil.com?@localhost/v1" =
      .ok maskedUrl :=
    parseOpenaiCompatibleBaseUrl_eq_ok.mpr ⟨hne, hread, by decide, some_ne_none _⟩
  obtain ⟨backend, post, hnew, hpost, hhost⟩ := exists_post UrlParser.plain_standard hparse
  have hready := (readyWith_iff "http://evil.com?@localhost/v1").mpr ⟨hne, haccept⟩
  obtain ⟨host, hfound, hloop⟩ := hlocal (.inl hready) _ _ _ backend post hnew hpost
  rw [hhost] at hfound
  cases hfound
  revert hloop
  decide

end GenieClaw.Egress
