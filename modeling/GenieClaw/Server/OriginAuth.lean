import GenieClaw.Actuation.Confirmation

/-!
# The trusted origin of a request

`OriginResolver` of `genie-core/src/origin_auth.rs` with the configuration it is built
from. A request claims an origin in a header and may present a token; `resolve` decides
which origin it is given.

* `lookup_fromConfig`: the token of every origin, whatever the order of the names.
* `resolve_trusted` (no assumption): what an origin other than `api` takes.
-/

namespace GenieClaw.Server

open Library Library.Text Actuation List Option

structure OriginAuthConfig where
  requireToken : Bool := false
  tokens : HashTable String String := ∅

/-- The environment variables a process can read. -/
abbrev Environment := String → Option String

def knownOrigins : List String := ["voice", "dashboard", "telegram", "repl"]

/-- An origin name of the configuration without surrounding blanks and case. -/
def originKey (name : String) : String := toAsciiLowercase (trim name)

/-- The configured value, or the one of the environment where that is blank. -/
def tokenFor (env : Environment) (tokens : HashTable String String) (name : String) : String :=
  let fromEnv := trim ((env ("GENIE_ORIGIN_TOKEN_" ++ toAsciiUppercase (originKey name))).getD "")
  match (tokens.lookup name).map trim with
  | some value => if value ≠ "" then value else fromEnv
  | none => fromEnv

/-- One turn of the loop of `resolved_tokens`. -/
def resolveName (env : Environment) (tokens : HashTable String String)
    (out : HashTable String String) (name : String) : HashTable String String :=
  let key := originKey name
  if key = "" ∨ key ∈ out then out
  else
    let token := tokenFor env tokens name
    if token ≠ "" then out.insert key token else out

def OriginAuthConfig.resolvedTokens (env : Environment) (cfg : OriginAuthConfig) :
    HashTable String String :=
  (cfg.tokens.keys ++ knownOrigins).foldl (resolveName env cfg.tokens) ∅

/-- The origins a request can be given by a claim. -/
def claimable : RequestOrigin → Bool
  | .unknown | .api | .confirmation => false
  | .voice | .dashboard | .telegram | .repl => true

structure OriginResolver where
  tokens : HashTable RequestOrigin String := ∅
  requireToken : Bool := false

/-- An entry of the resolved tokens is kept when its origin can be claimed. -/
def keepToken (tokens : HashTable RequestOrigin String)
    (entry : Sigma fun _ : String => String) : HashTable RequestOrigin String :=
  let origin := RequestOrigin.fromHeader entry.1
  if claimable origin then tokens.insert origin entry.2 else tokens

/-- A dual-stack listener reports IPv4 peers as mapped IPv6 addresses. -/
inductive IpAddr where
  | v4 (addr : BitVec 32)
  | v6 (addr : BitVec 128)
deriving DecidableEq

def v4IsLoopback (addr : BitVec 32) : Bool := addr.toNat / 2 ^ 24 == 127

def toIpv4Mapped (addr : BitVec 128) : Option (BitVec 32) :=
  if addr.toNat / 2 ^ 32 = 0xFFFF then some (addr.setWidth 32) else none

def ipIsLoopback : IpAddr → Bool
  | .v4 addr => v4IsLoopback addr
  | .v6 addr => addr == 1 || ((toIpv4Mapped addr).map v4IsLoopback).getD false

def constantTimeEq (a b : List UInt8) : Bool := ctEq a b

namespace OriginResolver

def fromConfig (env : Environment) (order : HashOrder String) (cfg : OriginAuthConfig) :
    OriginResolver where
  tokens := (order.walk (cfg.resolvedTokens env).entries).foldl keepToken ∅
  requireToken := cfg.requireToken

def insertToken (resolver : OriginResolver) (origin : RequestOrigin) (token : String) :
    OriginResolver :=
  if trim token ≠ "" then { resolver with tokens := resolver.tokens.insert origin (trim token) }
  else resolver

def resolve (resolver : OriginResolver) (peer : Option IpAddr)
    (claimedHeader tokenHeader : Option String) : RequestOrigin :=
  let claimed := (claimedHeader.map RequestOrigin.fromHeader).getD .unknown
  if !claimable claimed then .api
  else
    match resolver.tokens.lookup claimed with
    | some expected =>
      let presented := (tokenHeader.map trim).getD ""
      if presented ≠ "" ∧ constantTimeEq (asBytes presented) (asBytes expected) then claimed
      else .api
    | none =>
      let loopback := (peer.map ipIsLoopback).getD false
      if loopback && !resolver.requireToken then claimed else .api

end OriginResolver

/-! ## The token in force for an origin -/

/-- What a name of the configuration contributes to the token of `key`. -/
def candidate (env : Environment) (tokens : HashTable String String) (key name : String) :
    Option String :=
  if originKey name = key ∧ tokenFor env tokens name ≠ "" then some (tokenFor env tokens name)
  else none

/-- The first name of the origin with a token decides; known origins come last. -/
def configuredToken (env : Environment) (cfg : OriginAuthConfig) (origin : RequestOrigin) :
    Option String :=
  (cfg.tokens.keys ++ knownOrigins).findSome? (candidate env cfg.tokens origin.asPolicyKey)

theorem originKey_idem (name : String) : originKey (originKey name) = originKey name := by
  unfold originKey
  rw [trim_toAsciiLowercase, trim_trim, toAsciiLowercase_idem]

variable {origin : RequestOrigin}

theorem fromHeader_eq_iff (h : claimable origin = true) (name : String) :
    RequestOrigin.fromHeader name = origin ↔ originKey name = origin.asPolicyKey := by
  constructor
  · intro heq
    subst heq
    unfold RequestOrigin.fromHeader at h ⊢
    unfold originKey
    split at h <;> first
      | assumption
      | cases h
  · intro hkey
    have hnorm : originKey origin.asPolicyKey = origin.asPolicyKey := by
      cases origin <;> decide
    have hsame : toAsciiLowercase (trim name) = toAsciiLowercase (trim origin.asPolicyKey) :=
      hkey.trans hnorm.symm
    calc RequestOrigin.fromHeader name = RequestOrigin.fromHeader origin.asPolicyKey := by
          unfold RequestOrigin.fromHeader
          rw [hsame]
      _ = origin := RequestOrigin.fromHeader_asPolicyKey origin

variable {env : Environment}

theorem lookup_resolveName {tokens out : HashTable String String} {key : String} (hkey : key ≠ "")
    (name : String) :
    (resolveName env tokens out name).lookup key =
      (out.lookup key).or (candidate env tokens key name) := by
  unfold resolveName candidate
  dsimp only
  by_cases hname : originKey name = key
  · subst hname
    by_cases hmem : originKey name ∈ out
    · obtain ⟨v, hv⟩ := Option.isSome_iff_exists.mp (AList.lookup_isSome.mpr hmem)
      rw [if_pos (.inr hmem), hv, some_or]
    · rw [if_neg (by simp [hkey, hmem]), AList.lookup_eq_none.mpr hmem, none_or]
      by_cases htoken : tokenFor env tokens name = ""
      · simp [htoken, AList.lookup_eq_none.mpr hmem]
      · simp [htoken]
  · have hother : ¬ (originKey name = key ∧ tokenFor env tokens name ≠ "") :=
      fun h => hname h.1
    rw [if_neg hother, or_none]
    split_ifs
    · rfl
    · exact AList.lookup_insert_ne (Ne.symm hname)
    · rfl

theorem lookup_foldl_resolveName {tokens : HashTable String String} {key : String}
    (hkey : key ≠ "") (names : List String) (out : HashTable String String) :
    (names.foldl (resolveName env tokens) out).lookup key =
      (out.lookup key).or (names.findSome? (candidate env tokens key)) := by
  induction names generalizing out with
  | nil => simp
  | cons name names ih =>
    rw [foldl_cons, ih, lookup_resolveName hkey, Option.or_assoc, findSome?_cons]
    cases candidate env tokens key name <;> rfl

theorem lookup_resolvedTokens (env : Environment) (cfg : OriginAuthConfig)
    (origin : RequestOrigin) :
    (cfg.resolvedTokens env).lookup origin.asPolicyKey = configuredToken env cfg origin := by
  have hkey : origin.asPolicyKey ≠ "" := by
    cases origin <;> decide
  rw [OriginAuthConfig.resolvedTokens, lookup_foldl_resolveName hkey, AList.lookup_empty,
    none_or]
  rfl

theorem mem_resolveName {tokens out : HashTable String String} {name key : String}
    (h : key ∈ resolveName env tokens out name) : key ∈ out ∨ key = originKey name := by
  unfold resolveName at h
  dsimp only at h
  split_ifs at h
  · exact .inl h
  · rcases (AList.mem_insert _).mp h with heq | hmem
    · exact .inr heq
    · exact .inl hmem
  · exact .inl h

theorem originKey_of_mem_resolvedTokens {cfg : OriginAuthConfig} {key : String}
    (h : key ∈ cfg.resolvedTokens env) : originKey key = key := by
  have hgo : ∀ (names : List String) (out : HashTable String String),
      (∀ k ∈ out, originKey k = k) →
      ∀ k ∈ names.foldl (resolveName env cfg.tokens) out, originKey k = k := by
    intro names
    induction names with
    | nil => exact fun _ h => h
    | cons name names ih =>
      intro out hout
      apply ih
      intro k hk
      rcases mem_resolveName hk with hmem | rfl
      · exact hout k hmem
      · exact originKey_idem name
  exact hgo _ ∅ (fun k hk => absurd hk (AList.notMem_empty k)) key h

/-! ## Building a resolver -/

theorem lookup_keepToken (horigin : claimable origin = true)
    (tokens : HashTable RequestOrigin String) (entry : Sigma fun _ : String => String) :
    (keepToken tokens entry).lookup origin =
      if RequestOrigin.fromHeader entry.1 = origin then some entry.2
      else tokens.lookup origin := by
  unfold keepToken
  dsimp only
  by_cases heq : RequestOrigin.fromHeader entry.1 = origin
  · rw [heq, if_pos horigin, if_pos rfl, AList.lookup_insert]
  · rw [if_neg heq]
    split_ifs
    · exact AList.lookup_insert_ne (Ne.symm heq)
    · rfl

theorem lookup_foldl_keepToken_of_none (horigin : claimable origin = true)
    {entries : List (Sigma fun _ : String => String)} (tokens : HashTable RequestOrigin String)
    (h : ∀ e ∈ entries, RequestOrigin.fromHeader e.1 ≠ origin) :
    (entries.foldl keepToken tokens).lookup origin = tokens.lookup origin := by
  induction entries generalizing tokens with
  | nil => rfl
  | cons e entries ih =>
    obtain ⟨he, hrest⟩ := List.forall_mem_cons.mp h
    rw [foldl_cons, ih _ hrest, lookup_keepToken horigin, if_neg he]

theorem lookup_foldl_keepToken_of_mem (horigin : claimable origin = true)
    {entries : List (Sigma fun _ : String => String)} {token : String}
    (tokens : HashTable RequestOrigin String)
    (hall : ∀ e ∈ entries, RequestOrigin.fromHeader e.1 = origin → e.2 = token)
    (hmem : ∃ e ∈ entries, RequestOrigin.fromHeader e.1 = origin) :
    (entries.foldl keepToken tokens).lookup origin = some token := by
  induction entries generalizing tokens with
  | nil => simp at hmem
  | cons e entries ih =>
    obtain ⟨he, hrest⟩ := List.forall_mem_cons.mp hall
    by_cases hlater : ∃ e' ∈ entries, RequestOrigin.fromHeader e'.1 = origin
    · rw [foldl_cons]
      exact ih (keepToken tokens e) hrest hlater
    · obtain ⟨e', hmem', heq⟩ := hmem
      rcases List.mem_cons.mp hmem' with rfl | hmem'
      · rw [foldl_cons, lookup_foldl_keepToken_of_none horigin _
          (fun x hx hxo => hlater ⟨x, hx, hxo⟩), lookup_keepToken horigin, if_pos heq, he heq]
      · exact absurd ⟨e', hmem', heq⟩ hlater

namespace OriginResolver

/-- The resolver holds the configured token of every origin that can be claimed, in
whatever order the resolved tokens are walked. -/
theorem lookup_fromConfig (env : Environment) (order : HashOrder String) (cfg : OriginAuthConfig)
    (horigin : claimable origin = true) :
    (fromConfig env order cfg).tokens.lookup origin = configuredToken env cfg origin := by
  have hentry : ∀ e ∈ order.walk (cfg.resolvedTokens env).entries,
      RequestOrigin.fromHeader e.1 = origin → configuredToken env cfg origin = some e.2 := by
    intro e he heq
    have hlook := HashTable.lookup_iff_mem.mpr ((order.perm _).mem_iff.mp he)
    have hfiled : e.1 ∈ cfg.resolvedTokens env := by
      rw [← AList.lookup_isSome, hlook]
      rfl
    have hkey : e.1 = origin.asPolicyKey := by
      rw [← (fromHeader_eq_iff horigin e.1).mp heq, originKey_of_mem_resolvedTokens hfiled]
    rw [← lookup_resolvedTokens, ← hkey]
    exact hlook
  cases hconf : configuredToken env cfg origin with
  | none =>
    refine lookup_foldl_keepToken_of_none horigin ∅ ?_
    intro e he heq
    rw [hentry e he heq] at hconf
    cases hconf
  | some token =>
    refine lookup_foldl_keepToken_of_mem horigin ∅ ?_ ?_
    · intro e he heq
      rw [hentry e he heq] at hconf
      exact Option.some_inj.mp hconf
    · rw [← lookup_resolvedTokens] at hconf
      have hmem := HashTable.lookup_iff_mem.mp hconf
      exact ⟨_, (order.perm _).mem_iff.mpr hmem, RequestOrigin.fromHeader_asPolicyKey origin⟩

/-- When a request is given an origin other than `api`. -/
theorem resolve_eq_iff (resolver : OriginResolver) (peer : Option IpAddr)
    (claimedHeader tokenHeader : Option String) (hapi : origin ≠ .api) :
    resolver.resolve peer claimedHeader tokenHeader = origin ↔
      claimable origin = true ∧ claimedHeader.map RequestOrigin.fromHeader = some origin ∧
        match resolver.tokens.lookup origin with
        | some expected => expected ≠ "" ∧ tokenHeader.map trim = some expected
        | none => peer.map ipIsLoopback = some true ∧ resolver.requireToken = false := by
  have hclaim : ∀ claimed, claimable claimed = true →
      ((claimedHeader.map RequestOrigin.fromHeader).getD .unknown = claimed ↔
        claimedHeader.map RequestOrigin.fromHeader = some claimed) := by
    intro claimed hclaimed
    cases claimedHeader with
    | none =>
      constructor
      · rintro rfl
        cases hclaimed
      · intro h
        cases h
    | some header => simp
  have hpresented : ∀ expected, (tokenHeader.map trim).getD "" ≠ "" ∧
      (tokenHeader.map trim).getD "" = expected ↔
        expected ≠ "" ∧ tokenHeader.map trim = some expected := by
    intro expected
    cases tokenHeader with
    | none => simp
    | some token => aesop
  unfold resolve
  dsimp only
  generalize hclaimed : (claimedHeader.map RequestOrigin.fromHeader).getD .unknown = claimed
  cases hclaimable : claimable claimed with
  | false =>
    constructor
    · intro h
      exact absurd h.symm hapi
    · rintro ⟨horigin, hheader, -⟩
      rw [← (hclaim origin horigin).mpr hheader, hclaimed, hclaimable] at horigin
      cases horigin
  | true =>
    have hheader := (hclaim claimed hclaimable).mp hclaimed
    rw [hheader]
    simp only [Bool.not_true, Bool.false_eq_true, if_false, constantTimeEq, ctEq_asBytes,
      some_inj]
    constructor
    · intro h
      cases hlook : resolver.tokens.lookup claimed with
      | none =>
        rw [hlook] at h
        dsimp only at h
        split at h
        · rename_i hloop
          subst h
          rw [hlook]
          refine ⟨hclaimable, rfl, ?_⟩
          cases peer <;> simp_all
        · exact absurd h.symm hapi
      | some expected =>
        rw [hlook] at h
        dsimp only at h
        split at h
        · rename_i hmatch
          subst h
          rw [hlook]
          exact ⟨hclaimable, rfl, (hpresented expected).mp hmatch⟩
        · exact absurd h.symm hapi
    · rintro ⟨-, rfl, hproof⟩
      cases hlook : resolver.tokens.lookup claimed with
      | none =>
        rw [hlook] at hproof
        dsimp only at hproof ⊢
        rw [hproof.1, hproof.2]
        rfl
      | some expected =>
        rw [hlook] at hproof
        dsimp only at hproof ⊢
        rw [if_pos ((hpresented expected).mpr hproof)]

/-- Tokens registered in-process, one after the other. -/
def withTokens (resolver : OriginResolver) (inserted : List (RequestOrigin × String)) :
    OriginResolver :=
  inserted.foldl (fun r e => r.insertToken e.1 e.2) resolver

end OriginResolver

/-- The last token registered for the origin in-process, or else the configured one. -/
def tokenInForce (env : Environment) (cfg : OriginAuthConfig)
    (inserted : List (RequestOrigin × String)) (origin : RequestOrigin) : Option String :=
  match (inserted.filter (fun e => e.1 = origin ∧ trim e.2 ≠ "")).getLast? with
  | some e => some (trim e.2)
  | none => configuredToken env cfg origin

namespace OriginResolver

theorem withTokens_concat (resolver : OriginResolver)
    (inserted : List (RequestOrigin × String)) (e : RequestOrigin × String) :
    resolver.withTokens (inserted ++ [e]) = (resolver.withTokens inserted).insertToken e.1 e.2 := by
  unfold withTokens
  rw [foldl_append]
  rfl

theorem requireToken_withTokens (resolver : OriginResolver)
    (inserted : List (RequestOrigin × String)) :
    (resolver.withTokens inserted).requireToken = resolver.requireToken := by
  induction inserted using List.reverseRecOn with
  | nil => rfl
  | append_singleton inserted e ih =>
    rw [withTokens_concat, insertToken]
    split_ifs
    · exact ih
    · exact ih

theorem lookup_withTokens (env : Environment) (order : HashOrder String) (cfg : OriginAuthConfig)
    (inserted : List (RequestOrigin × String)) (horigin : claimable origin = true) :
    ((fromConfig env order cfg).withTokens inserted).tokens.lookup origin =
      tokenInForce env cfg inserted origin := by
  induction inserted using List.reverseRecOn with
  | nil => exact lookup_fromConfig env order cfg horigin
  | append_singleton inserted e ih =>
    obtain ⟨holder, token⟩ := e
    rw [withTokens_concat, insertToken]
    unfold tokenInForce at ih ⊢
    rw [filter_append]
    by_cases hblank : trim token = ""
    · rw [if_neg (not_not.mpr hblank), ih]
      simp [hblank]
    · rw [if_pos hblank]
      by_cases heq : holder = origin
      · subst heq
        rw [AList.lookup_insert]
        simp [hblank]
      · rw [AList.lookup_insert_ne (Ne.symm heq), ih]
        simp [heq]

end OriginResolver

/-! ## Who is given which origin -/

theorem tokenFor_of_configured {tokens : HashTable String String} {name secret : String}
    (hsecret : tokens.lookup name = some secret) (hblank : trim secret ≠ "") :
    tokenFor env tokens name = trim secret := by
  unfold tokenFor
  rw [hsecret]
  exact if_pos hblank

/-- Where all names of an origin that carry a token carry the same one, the search through
the names finds it. -/
theorem findSome?_eq_of_forall {α β : Type} {f : α → Option β} {xs : List α} {b : β}
    (hall : ∀ x ∈ xs, f x = none ∨ f x = some b) (hmem : ∃ x ∈ xs, f x = some b) :
    xs.findSome? f = some b := by
  cases hfind : xs.findSome? f with
  | none =>
    obtain ⟨x, hx, hsome⟩ := hmem
    rw [List.findSome?_eq_none_iff.mp hfind x hx] at hsome
    cases hsome
  | some b' =>
    obtain ⟨x, hx, hsome⟩ := exists_of_findSome?_eq_some hfind
    rcases hall x hx with hnone | hsome'
    · rw [hnone] at hsome
      cases hsome
    · rw [← hsome, hsome']

theorem configuredToken_of_unique {cfg : OriginAuthConfig} {name secret : String}
    (hsecret : cfg.tokens.lookup name = some secret) (hname : originKey name = origin.asPolicyKey)
    (hblank : trim secret ≠ "")
    (hunique : ∀ other ∈ cfg.tokens, originKey other = origin.asPolicyKey → other = name) :
    configuredToken env cfg origin = some (trim secret) := by
  have htoken : tokenFor env cfg.tokens name = trim secret := tokenFor_of_configured hsecret hblank
  have hcandidate : candidate env cfg.tokens origin.asPolicyKey name = some (trim secret) := by
    rw [candidate, htoken, if_pos ⟨hname, hblank⟩]
  have hkeys : cfg.tokens.keys.findSome? (candidate env cfg.tokens origin.asPolicyKey) =
      some (trim secret) := by
    apply findSome?_eq_of_forall
    · intro other hother
      by_cases hkey : originKey other = origin.asPolicyKey
      · rw [hunique other (AList.mem_keys.mpr hother) hkey]
        exact .inr hcandidate
      · exact .inl (if_neg (fun h => hkey h.1))
    · refine ⟨name, ?_, hcandidate⟩
      rw [← AList.mem_keys, ← AList.lookup_isSome, hsecret]
      rfl
  rw [configuredToken, findSome?_append, hkeys, some_or]

/-- An origin other than `api` is granted only to a claim of it that presents its token,
or, where it has none, comes from the host itself while tokens are not required. A claim
that presents the token in force is granted from any peer, and the configured text of an
origin is in force where the configuration names the origin once. -/
theorem resolve_trusted (env : Environment) (order : HashOrder String) (cfg : OriginAuthConfig)
    (inserted : List (RequestOrigin × String)) (peer : Option IpAddr)
    (claimedHeader tokenHeader : Option String) (origin : RequestOrigin) :
    (((OriginResolver.fromConfig env order cfg).withTokens inserted).resolve peer
          claimedHeader tokenHeader = origin ∧ origin ≠ .api →
      claimable origin = true ∧ claimedHeader.map RequestOrigin.fromHeader = some origin ∧
        ((∃ token, tokenHeader = some token ∧
            tokenInForce env cfg inserted origin = some (trim token)) ∨
          (tokenInForce env cfg inserted origin = none ∧
            peer.map ipIsLoopback = some true ∧ cfg.requireToken = false))) ∧
    (∀ token, claimable origin = true →
      claimedHeader.map RequestOrigin.fromHeader = some origin → tokenHeader = some token →
      trim token ≠ "" → tokenInForce env cfg inserted origin = some (trim token) →
        ((OriginResolver.fromConfig env order cfg).withTokens inserted).resolve peer
          claimedHeader tokenHeader = origin) ∧
    (∀ name secret, claimable origin = true →
      claimedHeader.map RequestOrigin.fromHeader = some origin → tokenHeader = some secret →
      cfg.tokens.lookup name = some secret → originKey name = origin.asPolicyKey →
      trim secret ≠ "" →
      (∀ other ∈ cfg.tokens, originKey other = origin.asPolicyKey → other = name) →
      (∀ e ∈ inserted, e.1 = origin → trim e.2 = "") →
        ((OriginResolver.fromConfig env order cfg).withTokens inserted).resolve peer
          claimedHeader tokenHeader = origin) := by
  have hcomplete : ∀ token, claimable origin = true →
      claimedHeader.map RequestOrigin.fromHeader = some origin → tokenHeader = some token →
      trim token ≠ "" → tokenInForce env cfg inserted origin = some (trim token) →
        ((OriginResolver.fromConfig env order cfg).withTokens inserted).resolve peer
          claimedHeader tokenHeader = origin := by
    rintro token hclaimable hheader rfl hblank hforce
    have hapi : origin ≠ .api := by
      rintro rfl
      cases hclaimable
    rw [OriginResolver.resolve_eq_iff _ _ _ _ hapi,
      OriginResolver.lookup_withTokens _ _ _ _ hclaimable, hforce]
    exact ⟨hclaimable, hheader, hblank, rfl⟩
  refine ⟨?_, hcomplete, ?_⟩
  · rintro ⟨hresolve, hapi⟩
    obtain ⟨hclaimable, hheader, hproof⟩ := (OriginResolver.resolve_eq_iff _ _ _ _ hapi).mp hresolve
    refine ⟨hclaimable, hheader, ?_⟩
    rw [OriginResolver.lookup_withTokens _ _ _ _ hclaimable] at hproof
    cases hforce : tokenInForce env cfg inserted origin with
    | none =>
      rw [hforce, OriginResolver.requireToken_withTokens] at hproof
      exact .inr ⟨rfl, hproof⟩
    | some expected =>
      rw [hforce] at hproof
      obtain ⟨token, htoken, rfl⟩ := Option.map_eq_some_iff.mp hproof.2
      exact .inl ⟨token, htoken, rfl⟩
  · intro name secret hclaimable hheader htoken hsecret hname hblank hunique hinserted
    apply hcomplete secret hclaimable hheader htoken hblank
    have hnone : inserted.filter (fun e => e.1 = origin ∧ trim e.2 ≠ "") = [] := by
      rw [filter_eq_nil_iff]
      intro e he
      simpa using hinserted e he
    rw [tokenInForce, hnone]
    exact configuredToken_of_unique hsecret hname hblank hunique

theorem resolve_trusted_telegram :
    tokenInForce (fun _ => none) ⟨true, AList.singleton "telegram" "s3cret"⟩ [] .telegram =
      some "s3cret" ∧
    ((OriginResolver.fromConfig (fun _ => none) (HashOrder.listed _)
      ⟨true, AList.singleton "telegram" "s3cret"⟩).withTokens []).resolve
        (some (.v4 0xC0A80132)) (some "telegram") (some "s3cret") = .telegram :=
  ⟨by decide, (resolve_trusted (fun _ => none) (HashOrder.listed _)
    ⟨true, AList.singleton "telegram" "s3cret"⟩ [] (some (.v4 0xC0A80132)) (some "telegram")
    (some "s3cret") .telegram).2.2 "telegram" "s3cret" (by decide) (by decide) rfl (by decide)
    (by decide) (by decide)
    (fun other hother _ => by
      rcases (AList.mem_insert ∅).mp hother with rfl | hnone
      · rfl
      · exact absurd hnone (AList.notMem_empty other))
    (by simp)⟩

/-- The presented token is trimmed before it is compared, and of two spellings of one
origin only the first has its token in force. -/
theorem resolve_not_exact :
    (¬ ∀ (cfg : OriginAuthConfig) (peer : Option IpAddr) (header token : String),
      (OriginResolver.fromConfig (fun _ => none) (HashOrder.listed _) cfg).resolve peer
        (some header) (some token) ≠ .api →
      (∃ name, cfg.tokens.lookup name = some token) ∨ peer.map ipIsLoopback = some true) ∧
    (¬ ∀ (cfg : OriginAuthConfig) (peer : Option IpAddr) (name secret : String),
      cfg.tokens.lookup name = some secret → trim secret ≠ "" →
      (OriginResolver.fromConfig (fun _ => none) (HashOrder.listed _) cfg).resolve peer
        (some name) (some secret) = RequestOrigin.fromHeader name) := by
  constructor
  · intro h
    rcases h ⟨false, AList.singleton "telegram" "s3cret"⟩ none "telegram" " s3cret "
        (by decide) with ⟨name, hname⟩ | hloop
    · have hentries : (AList.singleton "telegram" "s3cret" : HashTable String String).entries =
          [⟨"telegram", "s3cret"⟩] := rfl
      have hmem := HashTable.lookup_iff_mem.mp hname
      rw [hentries] at hmem
      simp at hmem
    · cases hloop
  · intro h
    have := h ⟨false, (AList.singleton "Voice" "b").insert "voice" "a"⟩ none "Voice" "b"
      (by decide) (by decide)
    revert this
    decide

end GenieClaw.Server
