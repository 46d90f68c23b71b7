import GenieClaw.Egress.Reading
import GenieClaw.Library.AsciiSearch

/-!
# The base URL of the web search

`search_searxng`, `searxng_base_url`, `searxng_search_url` and `is_local_base_url` of
`genie-core/src/tools/web_search.rs`, up to the request that is sent. The library that
parses URLs is a parameter.

* `searchesStayLocal_iff` (the library parses URLs by the standard, remote URLs are not allowed):
  where a search stays on the device.
-/

namespace GenieClaw.Egress

open Library Library.Text Library.Web

structure WebSearchConfig where
  baseUrl : String := ""
  allowRemoteBaseUrl : Bool := false

/-- A request of the search client, before its parameters are written behind the path. -/
structure SearchRequest (urls : UrlParser) where
  url : urls.Url
  parameters : List (String × String)

/-- The environment variable is `none` where it is not set. -/
def searxngBaseUrl (fromEnv : Option String) (config : WebSearchConfig) : Option String :=
  let fromEnv := fromEnv.getD ""
  let base := if trim fromEnv = "" then trim config.baseUrl else trim fromEnv
  if base = "" then none else some base

def searxngSearchUrl (baseUrl : String) : String :=
  let base := String.ofList (baseUrl.toList.rdropWhile fun c => c == '/')
  if endsWith "/search" base then base else base ++ "/search"

def localPrefixes : List String :=
  ["http://127.", "http://localhost", "http://[::1]", "https://127.", "https://localhost",
    "https://[::1]"]

def isLocalBaseUrl (baseUrl : String) : Bool :=
  let lower := toLowercase (trim baseUrl)
  localPrefixes.any fun pre => startsWith pre lower

/-- The client sends nothing where the text is no URL of the web. -/
def searchSearxng (urls : UrlParser) (fromEnv : Option String) (config : WebSearchConfig)
    (query : String) : Except String (SearchRequest urls) :=
  match searxngBaseUrl fromEnv config with
  | none =>
    .error ("SearXNG web search requires web_search.base_url or " ++
      "GENIEPOD_WEB_SEARCH_BASE_URL")
  | some baseUrl =>
    if !config.allowRemoteBaseUrl && !isLocalBaseUrl baseUrl then
      .error ("SearXNG web search base URL must be local unless " ++
        "web_search.allow_remote_base_url is true")
    else
      match urls.parse (searxngSearchUrl baseUrl) with
      | none => .error "builder error"
      | some url =>
        if isWebScheme (urls.scheme url).toList then
          .ok {
            url := url
            parameters :=
              [("q", query), ("format", "json"), ("safesearch", "1"), ("language", "auto")] }
        else .error "builder error"

/-! ## What the prefix test takes -/

/-- A text as the prefix test takes it: a scheme of the web, two slashes, and the beginning
of what looks like a loopback host. -/
structure LocalText where
  scheme : List Char
  host : List Char
  rest : List Char
  web : isWebScheme (scheme.map Char.toLower) = true
  host_eq : host.map Char.toLower ∈ ["127.".toList, "localhost".toList, "[::1]".toList]

/-- What stands before the rest. -/
def LocalText.front (text : LocalText) : List Char := text.scheme ++ "://".toList ++ text.host

theorem localPrefixes_eq : localPrefixes = ["http", "https"].flatMap fun scheme =>
    ["127.", "localhost", "[::1]"].map fun host => scheme ++ "://" ++ host := by
  decide

theorem foldableWord_of_local {pre : String} (h : pre ∈ localPrefixes) :
    FoldableWord pre.toList ∧ 'k' ∉ pre.toList :=
  (by decide : ∀ pre ∈ localPrefixes, FoldableWord pre.toList ∧ 'k' ∉ pre.toList) pre h

variable {base : String}

theorem exists_localText (htrim : trim base = base) (h : isLocalBaseUrl base = true) :
    ∃ text : LocalText, base.toList = text.front ++ text.rest := by
  unfold isLocalBaseUrl at h
  rw [htrim] at h
  obtain ⟨pre, hpre, hstarts⟩ := List.any_eq_true.mp h
  obtain ⟨hfold, hk⟩ := foldableWord_of_local hpre
  have hlead : pre.toList <+: base.toList.map Char.toLower := by
    apply prefix_toLower_of_prefix_lowercase hfold (fun hmem => absurd hmem hk)
    have hlower := List.isPrefixOf_iff_prefix.mp hstarts
    rwa [toLowercase, String.toList_ofList] at hlower
  rw [localPrefixes_eq, List.mem_flatMap] at hpre
  obtain ⟨scheme, hscheme, hpre⟩ := hpre
  obtain ⟨host, hhost, rfl⟩ := List.mem_map.mp hpre
  obtain ⟨rest, hrest⟩ := hlead
  obtain ⟨front, back, hcs, hfront, hback⟩ := List.map_eq_append_iff.mp hrest.symm
  rw [String.toList_append, String.toList_append] at hfront
  obtain ⟨front', host', hsplit, hfront', hhost'⟩ := List.map_eq_append_iff.mp hfront
  obtain ⟨scheme', colon, hsplit', hscheme', hcolon⟩ := List.map_eq_append_iff.mp hfront'
  have hslashes : colon = "://".toList :=
    IpAddr.eq_of_map_toLower hcolon (forall_mem_of_all (by decide))
  subst hsplit' hsplit hslashes
  refine ⟨⟨scheme', host', back, ?_, ?_⟩, hcs⟩
  · rw [hscheme']
    exact (by decide : ∀ scheme ∈ ["http", "https"], isWebScheme scheme.toList = true) _ hscheme
  · rw [hhost']
    exact (by decide : ∀ host ∈ ["127.", "localhost", "[::1]"],
      host.toList ∈ ["127.".toList, "localhost".toList, "[::1]".toList]) _ hhost

namespace LocalText

variable (text : LocalText)

theorem nameChar_of_mem_host {c : Char} (hc : c ∈ text.host) : NameChar c := by
  have hall : ∀ host ∈ ["127.".toList, "localhost".toList, "[::1]".toList],
      (host.all fun d => NameChar d) = true := by
    decide
  exact (forall_mem_of_all (hall _ text.host_eq) _ (List.mem_map_of_mem hc)).of_toLower

theorem host_ne_nil : text.host ≠ [] := by
  intro hnil
  have hhost := text.host_eq
  rw [hnil] at hhost
  revert hhost
  decide

theorem front_printable {c : Char} (hc : c ∈ text.front) : 0x20 < c.toNat := by
  rcases List.mem_append.mp hc with hc | hc
  · rcases List.mem_append.mp hc with hc | hc
    · have halpha := (isSchemeChar_of_web text.web hc).2
      simp only [isAsciiAlpha, isAsciiLowercase, IpAddr.char_le_iff, Char.reduceToNat,
        toNat_toLower, Bool.and_eq_true, decide_eq_true_eq] at halpha
      split at halpha <;> omega
    · have hslashes : ∀ c ∈ "://".toList, 0x20 < c.toNat := forall_mem_of_all (by decide)
      exact hslashes c hc
  · exact (text.nameChar_of_mem_host hc).bounds.1

theorem front_last : ∀ c ∈ text.front.getLast?, endsAuthority c = false := by
  intro c hc
  rw [front, List.getLast?_append_of_ne_nil _ text.host_ne_nil] at hc
  exact (text.nameChar_of_mem_host (List.mem_of_getLast? hc)).bounds.2.2.2

theorem authority_eq (tail : List Char) :
    splitScheme (text.front ++ tail) =
        some (text.scheme.map Char.toLower, "//".toList ++ text.host ++ tail) ∧
      authorityOf ("//".toList ++ text.host ++ tail) =
        text.host ++ tail.takeWhile fun c => !endsAuthority c := by
  have hends : ∀ c ∈ text.host, endsAuthority c = false :=
    fun c hc => (text.nameChar_of_mem_host hc).bounds.2.2.2
  constructor
  · have hread := splitScheme_eq text.web ("//".toList ++ text.host ++ tail)
    rw [← hread]
    simp [front]
  · have hhead : ∀ c ∈ (text.host ++ tail).head?, isSlash c = false := by
      intro c hc
      rw [List.head?_append_of_ne_nil _ text.host_ne_nil] at hc
      exact not_slash_of_not_ends (hends c (List.mem_of_mem_head? hc))
    have happend := @authorityOf_append "//".toList [] (text.host ++ tail)
      (forall_mem_of_all (by decide)) (by simp)
      hhead
    rw [List.takeWhile_append_of_pos (by simpa using hends)] at happend
    simpa using happend

end LocalText

/-- The host text of the base URL as it is configured. -/
def baseHost (base : String) : Option (List Char) :=
  match splitScheme (withoutTabs base.toList) with
  | some (scheme, rest) =>
    if isWebScheme scheme then some (hostText (authorityOf rest)) else none
  | none => none

theorem baseHost_eq {text : LocalText} (h : base.toList = text.front ++ text.rest) :
    baseHost base = some (hostText (text.host ++
      (withoutTabs text.rest).takeWhile fun c => !endsAuthority c)) := by
  obtain ⟨hsplit, hauthority⟩ := text.authority_eq (withoutTabs text.rest)
  rw [baseHost, h, withoutTabs_append, withoutTabs_eq_self fun c hc => text.front_printable hc,
    hsplit]
  dsimp only
  rw [if_pos text.web, hauthority]

theorem exists_searchPath {text : LocalText} (h : base.toList = text.front ++ text.rest) : ∃ tail,
    (searxngSearchUrl base).toList =
      text.front ++ (text.rest.rdropWhile (fun c => c == '/') ++ tail) ∧
      (tail = [] ∨ tail = "/search".toList) ∧
      ∀ c ∈ (text.rest.rdropWhile (fun c => c == '/') ++ tail).getLast?, isC0OrSpace c = false := by
  have hlast : ∀ c ∈ text.front.getLast?, (c == '/') = false := by
    intro c hc
    have := not_slash_of_not_ends (text.front_last c hc)
    simp only [isSlash, Bool.or_eq_false_iff] at this
    exact this.1
  unfold searxngSearchUrl
  dsimp only
  rw [h, rdropWhile_append hlast]
  split_ifs with hends
  · refine ⟨[], ?_, .inl rfl, ?_⟩
    · rw [String.toList_ofList, List.append_nil]
    · intro c hc
      rw [List.append_nil] at hc
      have hsuffix := List.isSuffixOf_iff_suffix.mp hends
      obtain ⟨before, hbefore⟩ := hsuffix
      have hlast : (text.front ++ text.rest.rdropWhile fun c => c == '/').getLast? = some 'h' := by
        rw [← hbefore.trans String.toList_ofList, List.getLast?_append_of_ne_nil _ (by decide)]
        rfl
      rw [List.getLast?_append, Option.mem_def.mp hc] at hlast
      cases hlast
      decide
  · refine ⟨"/search".toList, ?_, .inr rfl, ?_⟩
    · rw [String.toList_append, String.toList_ofList, List.append_assoc]
    · intro c hc
      rw [List.getLast?_append_of_ne_nil _ (by decide)] at hc
      cases hc
      decide

theorem webHost_searxngSearchUrl {text : LocalText} (h : base.toList = text.front ++ text.rest) :
    webHost (searxngSearchUrl base).toList = baseHost base := by
  obtain ⟨tail, hurl, htail, hlast⟩ := exists_searchPath h
  set path := text.rest.rdropWhile fun c => c == '/' with hpath
  have hclean : clean (searxngSearchUrl base).toList =
      text.front ++ withoutTabs (path ++ tail) := by
    have hback : cleanBack (path ++ tail) = withoutTabs (path ++ tail) := by
      rw [cleanBack, List.rdropWhile_eq_self_iff.mpr]
      intro hne
      rw [hlast _ (List.getLast?_eq_some_getLast hne)]
      exact Bool.false_ne_true
    have happend := @clean_append [] text.front (path ++ tail) (by simp [LocalText.front])
      fun c hc => text.front_printable hc
    rwa [List.nil_append, List.dropWhile_nil, withoutTabs_nil, List.nil_append, hback,
      ← hurl] at happend
  have hstop : (withoutTabs (path ++ tail)).takeWhile (fun c => !endsAuthority c) =
      (withoutTabs text.rest).takeWhile fun c => !endsAuthority c := by
    have hslashes : ∀ c ∈ (withoutTabs (text.rest.rtakeWhile fun c => c == '/')).head?,
        endsAuthority c = true := by
      intro c hc
      have hmem := mem_of_mem_withoutTabs (List.mem_of_mem_head? hc)
      have : c = '/' := by simpa using List.mem_rtakeWhile_imp hmem
      subst this
      decide
    have hsearch : ∀ c ∈ (withoutTabs tail).head?, endsAuthority c = true := by
      intro c hc
      rcases htail with rfl | rfl
      · cases hc
      · cases hc
        decide
    have hrest : withoutTabs text.rest =
        withoutTabs path ++ withoutTabs (text.rest.rtakeWhile fun c => c == '/') := by
      rw [← withoutTabs_append, hpath, List.rdropWhile_append_rtakeWhile]
    rw [hrest, withoutTabs_append, takeWhile_append_ends hsearch, takeWhile_append_ends hslashes]
  obtain ⟨hsplit, hauthority⟩ := text.authority_eq (withoutTabs (path ++ tail))
  rw [webHost, hclean, hsplit]
  dsimp only
  rw [if_pos text.web, hauthority, hstop, baseHost_eq h]

/-! ## Where a search goes -/

section Standard

variable {urls : UrlParser} {rules : HostRules}

/-- Every search that is sent goes to a loopback host. -/
def SearchesStayLocal (urls : UrlParser) (fromEnv : Option String) (config : WebSearchConfig) :
    Prop :=
  ∀ query request, searchSearxng urls fromEnv config query = .ok request →
    ∃ host, urls.host request.url = some host ∧ host.isLoopback = true

/-- The base URL names a loopback host: between the user info and the port stands the name
`localhost` or a loopback address, as it is written. -/
def NamesLocalhost (base : String) : Prop := ∃ text, baseHost base = some text ∧ LoopbackText text

/-- What stands in the host's place is no loopback text, but the client's host rules still
take it for a loopback host or for none at all. -/
def ResolvesLocal (urls : UrlParser) (rules : HostRules) (base : String) : Prop :=
  ∀ url text host, urls.parse (searxngSearchUrl base) = some url → baseHost base = some text →
    rules.parse text = some host → host.isLoopback = true

theorem open_mem_hostChars {cs : List Char} (h : ':' ∈ hostChars false cs) :
    '[' ∈ hostChars false cs := by
  induction cs with
  | nil => cases h
  | cons c cs ih =>
    rw [hostChars] at h ⊢
    split_ifs at h ⊢ with hstop hopen
    · cases h
    · rw [hopen]
      exact List.mem_cons_self
    all_goals
      rcases List.mem_cons.mp h with hcolon | h
      · exact absurd ⟨hcolon.symm, rfl⟩ hstop
      · exact List.mem_cons_of_mem _ (ih h)

theorem isLoopback_of_loopbackText {cs : List Char} {host : Host}
    (h : LoopbackText (hostChars false cs))
    (hparse : rules.parse (hostChars false cs) = some host) : host.isLoopback = true := by
  have hread : ReadHost (hostChars false cs) := by
    by_cases hopen : '[' ∈ hostChars false cs
    · obtain ⟨addr, ip, heq, hip, hloop⟩ := h.of_bracket hopen
      exact .bracketed addr [] ip heq hip hloop
    · exact .plain [] _ [] (by simp) (by simp) h (mt open_mem_hostChars hopen)
  exact hread.isLoopback hparse

variable {config : WebSearchConfig} {fromEnv : Option String}

theorem searxngBaseUrl_trim (h : searxngBaseUrl fromEnv config = some base) : trim base = base := by
  unfold searxngBaseUrl at h
  dsimp only at h
  split_ifs at h <;> cases h <;> exact trim_trim _

theorem searchSearxng_eq_ok {url : urls.Url} (hremote : config.allowRemoteBaseUrl = false)
    (hbase : searxngBaseUrl fromEnv config = some base) (hlocal : isLocalBaseUrl base = true)
    (hparse : urls.parse (searxngSearchUrl base) = some url)
    (hweb : isWebScheme (urls.scheme url).toList = true) (query : String) :
    searchSearxng urls fromEnv config query = .ok {
      url := url
      parameters :=
        [("q", query), ("format", "json"), ("safesearch", "1"), ("language", "auto")] } := by
  unfold searchSearxng
  rw [hbase]
  dsimp only
  rw [if_neg (by simp [hremote, hlocal]), hparse]
  exact if_pos hweb

theorem exists_base_of_sent {query : String} {request : SearchRequest urls}
    (hremote : config.allowRemoteBaseUrl = false)
    (h : searchSearxng urls fromEnv config query = .ok request) : ∃ base,
      searxngBaseUrl fromEnv config = some base ∧ isLocalBaseUrl base = true ∧
        urls.parse (searxngSearchUrl base) = some request.url ∧
          isWebScheme (urls.scheme request.url).toList = true := by
  unfold searchSearxng at h
  split at h
  · cases h
  · rename_i base hbase
    split_ifs at h with hblocked
    split at h
    · cases h
    · rename_i url hparse
      split_ifs at h with hweb
      cases h
      refine ⟨base, hbase, ?_, hparse, hweb⟩
      simpa [hremote] using hblocked

/-- A search stays on the device exactly where the base URL is not taken for a local one, or
the host in it is loopback and not only its beginning. -/
theorem searchesStayLocal_iff (hurls : urls.Standard rules) (fromEnv : Option String)
    (config : WebSearchConfig) (hremote : config.allowRemoteBaseUrl = false) :
    SearchesStayLocal urls fromEnv config ↔
      ∀ base, searxngBaseUrl fromEnv config = some base →
        isLocalBaseUrl base = false ∨ NamesLocalhost base ∨ ResolvesLocal urls rules base := by
  constructor
  · intro hlocal base hbase
    by_cases hpre : isLocalBaseUrl base = true
    · refine .inr (.inr ?_)
      intro url text host hparse htext hhost
      obtain ⟨pieces, hpieces⟩ := exists_localText (searxngBaseUrl_trim hbase) hpre
      have hread := webHost_searxngSearchUrl hpieces
      have hweb := hurls.scheme_eq _ _ hparse (by rw [hread, htext]; exact Option.some_ne_none _)
      obtain ⟨text', htext', heq⟩ := hurls.host_eq _ _ hparse hweb
      rw [hread, htext] at htext'
      cases htext'
      have hsent := searchSearxng_eq_ok hremote hbase hpre hparse hweb ""
      obtain ⟨found, hfound, hloop⟩ := hlocal "" _ hsent
      rw [heq, hhost] at hfound
      cases hfound
      exact hloop
    · exact .inl (Bool.eq_false_iff.mpr hpre)
  · intro h query request hsent
    obtain ⟨base, hbase, hpre, hparse, hweb⟩ := exists_base_of_sent hremote hsent
    obtain ⟨pieces, hpieces⟩ := exists_localText (searxngBaseUrl_trim hbase) hpre
    obtain ⟨text, htext, heq⟩ := hurls.host_eq _ _ hparse hweb
    rw [webHost_searxngSearchUrl hpieces] at htext
    obtain ⟨host, hhost⟩ := Option.isSome_iff_exists.mp (hurls.host_isSome _ _ hparse hweb)
    refine ⟨host, hhost, ?_⟩
    rw [hhost] at heq
    rcases h base hbase with hnot | ⟨text', htext', hloop⟩ | hresolves
    · rw [hpre] at hnot
      cases hnot
    · rw [htext] at htext'
      cases htext'
      rw [baseHost_eq hpieces, hostText] at htext
      cases htext
      exact isLoopback_of_loopbackText hloop heq.symm
    · exact hresolves _ _ _ hparse htext heq.symm

end Standard

/-- A search engine on the local machine. -/
theorem searchesStayLocal_local :
    UrlParser.plain.Standard HostRules.plain ∧
      ({ baseUrl := "http://localhost:8888" } : WebSearchConfig).allowRemoteBaseUrl = false ∧
      SearchesStayLocal UrlParser.plain none { baseUrl := "http://localhost:8888" } := by
  refine ⟨UrlParser.plain_standard, rfl,
    (searchesStayLocal_iff UrlParser.plain_standard _ _ rfl).mpr ?_⟩
  intro base hbase
  have hsame : searxngBaseUrl none { baseUrl := "http://localhost:8888" } =
      some "http://localhost:8888" := by decide
  rw [hsame] at hbase
  cases hbase
  exact .inr (.inl ⟨"localhost".toList, by decide, .inl (by decide)⟩)

def lookalikeUrl : PlainUrl where
  scheme := "http".toList
  authority := "127.evil.com".toList
  tail := "search".toList
  host := .domain "127.evil.com"

/-- A name that only begins like a loopback address. -/
theorem loopback_prefix_leaves_device :
    ¬ SearchesStayLocal UrlParser.plain none { baseUrl := "http://127.evil.com" } := by
  intro h
  have hparse : PlainUrl.parse (searxngSearchUrl "http://127.evil.com") = some lookalikeUrl := by
    decide
  have hbase : searxngBaseUrl none { baseUrl := "http://127.evil.com" } =
      some "http://127.evil.com" := by decide
  have hlocal : isLocalBaseUrl "http://127.evil.com" = true := by decide
  have hsent := @searchSearxng_eq_ok _ UrlParser.plain _ none lookalikeUrl rfl hbase hlocal hparse
    (by decide) "weather"
  obtain ⟨host, hhost, hloop⟩ := h "weather" _ hsent
  cases hhost
  revert hloop
  decide

end GenieClaw.Egress
