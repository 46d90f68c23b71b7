import GenieClaw.Library.Text

/-!
# Routes of the core server and the local token

`classify_route` of `genie-core/src/server.rs` picks the handler of a request and
`route_requires_local_token` of `genie-common/src/http.rs` decides whether the request
must carry the local API token. The first matches the raw path, the second the path
without its query.

* `handlerReached_without_token`: what runs without a token is what the policy does not list.
* `sensitive_needs_token_iff` (no assumption): which requests slip past the policy.
-/

namespace GenieClaw.Server

open Library Library.Text

inductive RequestRoute where
  | root
  | chatStream
  | chat
  | history
  | clear
  | conversations
  | tools
  | runtimeContract
  | webSearchStatus
  | webSearchPost
  | health
  | connectivity
  | actuationPending
  | actuationActions
  | actuationConfirm
  | memoriesList
  | memoriesUpdate
  | memoriesDelete
  | memoriesReorder
  | openAiChat
  | models
  | options
  | export (id : String)
  | notFound
deriving DecidableEq

/-- The path prefix of the export route. -/
def exportPrefix : String := "/api/chat/export"

/-- `path.split("id=").nth(1).unwrap_or("")`. -/
def exportId (path : String) : String :=
  match splitOnce "id=".toList path.toList with
  | none => ""
  | some (_, rest) =>
    match splitOnce "id=".toList rest with
    | none => String.ofList rest
    | some (id, _) => String.ofList id

def classifyRoute (method path : String) : RequestRoute :=
  match method, path with
  | "GET", "/" => .root
  | "GET", "/index.html" => .root
  | "POST", "/api/chat/stream" => .chatStream
  | "POST", "/api/chat" => .chat
  | "GET", "/api/chat/history" => .history
  | "POST", "/api/chat/clear" => .clear
  | "GET", "/api/conversations" => .conversations
  | "GET", "/api/tools" => .tools
  | "GET", "/api/runtime/contract" => .runtimeContract
  | "GET", "/api/web-search" => .webSearchStatus
  | "POST", "/api/web-search" => .webSearchPost
  | "GET", "/api/health" => .health
  | "GET", "/api/connectivity" => .connectivity
  | "GET", "/api/actuation/pending" => .actuationPending
  | "GET", "/api/actuation/actions" => .actuationActions
  | "POST", "/api/actuation/confirm" => .actuationConfirm
  | "GET", "/api/memories" => .memoriesList
  | "POST", "/api/memories/update" => .memoriesUpdate
  | "POST", "/api/memories/delete" => .memoriesDelete
  | "POST", "/api/memories/reorder" => .memoriesReorder
  | "POST", "/v1/chat/completions" => .openAiChat
  | "GET", "/v1/models" => .models
  | "OPTIONS", _ => .options
  | "GET", path => if startsWith exportPrefix path then .export (exportId path) else .notFound
  | _, _ => .notFound

inductive RoutePolicySurface where
  | genieCore
  | genieApi
deriving DecidableEq

/-- `path.split('?').next()`. -/
def withoutQuery (path : String) : String :=
  String.ofList (path.toList.takeWhile (fun c => c ≠ '?'))

def routeRequiresLocalToken (surface : RoutePolicySurface) (method path : String) : Bool :=
  match method, withoutQuery path with
  | "POST", "/api/actuation/confirm" => true
  | "GET", "/api/actuation/pending" => true
  | "GET", "/api/actuation/actions" => true
  | "GET", "/api/actuation/audit" => surface = .genieApi
  | "GET", "/api/chat/history" => true
  | "GET", "/api/chat/export" => true
  | "GET", "/api/conversations" => true
  | "GET", "/api/memories" => true
  | "POST", "/api/memories/update" => true
  | "POST", "/api/memories/delete" => true
  | "POST", "/api/memories/reorder" => true
  | "POST", "/api/mode" => true
  | "POST", "/api/chat/stream" => true
  | "POST", "/api/chat" => true
  | "POST", "/api/chat/clear" => true
  | "POST", "/api/web-search" => true
  | "POST", "/v1/chat/completions" => true
  | _, _ => false

/-- The handlers that read or change household data or drive devices. -/
def RequestRoute.isSensitive : RequestRoute → Bool
  | .chatStream | .chat | .openAiChat | .history | .clear | .conversations | .export _
  | .webSearchPost | .actuationPending | .actuationActions | .actuationConfirm
  | .memoriesList | .memoriesUpdate | .memoriesDelete | .memoriesReorder => true
  | .root | .tools | .runtimeContract | .webSearchStatus | .health | .connectivity
  | .models | .options | .notFound => false

/-- The handler `handle_request` runs, if the token gate lets the request pass. -/
def handlerReached (tokenOk : Bool) (method path : String) : Option RequestRoute :=
  let route := classifyRoute method path
  if routeRequiresLocalToken .genieCore method path && !tokenOk then none else some route

/-! ## The two classifiers compared -/

theorem toList_withoutQuery (path : String) :
    (withoutQuery path).toList = path.toList.takeWhile (fun c => c ≠ '?') :=
  String.toList_ofList

theorem startsWith_withoutQuery {pre path : String} (hpre : ∀ c ∈ pre.toList, c ≠ '?')
    (h : startsWith pre path = true) : startsWith pre (withoutQuery path) = true := by
  rw [startsWith, List.isPrefixOf_iff_prefix] at h ⊢
  obtain ⟨rest, hrest⟩ := h
  rw [toList_withoutQuery, ← hrest, List.takeWhile_append_of_pos (by simpa using hpre)]
  exact List.prefix_append _ _

/-- Apart from the export route the router compares the whole path, so a sensitive request
is one of the literal pairs of the token policy. -/
theorem classifyRoute_sensitive {method path : String}
    (h : (classifyRoute method path).isSensitive = true) :
    routeRequiresLocalToken .genieCore method path = true ∨
      (method = "GET" ∧ startsWith exportPrefix path = true) := by
  unfold classifyRoute at h
  split at h <;> first
    | exact .inl (by decide)
    | cases h
    | skip
  split at h
  · rename_i hstart
    exact .inr ⟨rfl, hstart⟩
  · cases h

theorem classifyRoute_export {path : String} (h : startsWith exportPrefix path = true) :
    classifyRoute "GET" path = .export (exportId path) := by
  unfold classifyRoute
  split <;> first
    | (revert h; decide)
    | rfl
    | skip
  case h_23 heq => exact absurd heq (by decide)
  case h_24 => rw [if_pos h]
  case h_25 hget _ _ _ _ _ _ _ _ _ _ _ _ _ _ _ _ _ _ _ _ _ _ => exact absurd rfl hget

/-- A path that only begins like the export route is none of the paths the token policy
lists, unless it is that route with a query. -/
theorem routeRequiresLocalToken_export {path : String} (h : startsWith exportPrefix path = true) :
    routeRequiresLocalToken .genieCore "GET" path = true ↔ withoutQuery path = exportPrefix := by
  have hstart := startsWith_withoutQuery (by simp [exportPrefix]) h
  constructor
  · intro hrequires
    unfold routeRequiresLocalToken at hrequires
    split at hrequires <;> rename_i heq <;> first
      | (rw [heq] at hstart; exact absurd hstart (by decide))
      | exact heq
      | cases hrequires
  · intro heq
    unfold routeRequiresLocalToken
    rw [heq]
    rfl

/-- Without a valid token a sensitive handler runs exactly when the policy does not ask
for one. -/
theorem handlerReached_without_token (method path : String) :
    (∀ route, handlerReached false method path = some route → route.isSensitive = false) ↔
      ((classifyRoute method path).isSensitive = true →
        routeRequiresLocalToken .genieCore method path = true) := by
  unfold handlerReached
  cases routeRequiresLocalToken .genieCore method path <;> simp

/-- The router sends a sensitive request past the token policy exactly when the path
begins with the export route and differs from it before the query. -/
theorem sensitive_needs_token_iff (method path : String) :
    (((classifyRoute method path).isSensitive = true →
        routeRequiresLocalToken .genieCore method path = true) ↔
      ¬ (method = "GET" ∧ startsWith exportPrefix path = true ∧ withoutQuery path ≠ exportPrefix)) ∧
    ((∀ route, handlerReached false method path = some route → route.isSensitive = false) ↔
      ¬ (method = "GET" ∧ startsWith exportPrefix path = true ∧
        withoutQuery path ≠ exportPrefix)) := by
  have hagree : ((classifyRoute method path).isSensitive = true →
        routeRequiresLocalToken .genieCore method path = true) ↔
      ¬ (method = "GET" ∧ startsWith exportPrefix path = true ∧
        withoutQuery path ≠ exportPrefix) := by
    constructor
    · rintro hgated ⟨rfl, hstart, hne⟩
      have hsensitive : (classifyRoute "GET" path).isSensitive = true := by
        rw [classifyRoute_export hstart]
        rfl
      exact hne ((routeRequiresLocalToken_export hstart).mp (hgated hsensitive))
    · intro hplain hsensitive
      rcases classifyRoute_sensitive hsensitive with hrequires | ⟨rfl, hstart⟩
      · exact hrequires
      · apply (routeRequiresLocalToken_export hstart).mpr
        by_contra hne
        exact hplain ⟨rfl, hstart, hne⟩
  exact ⟨hagree, (handlerReached_without_token method path).trans hagree⟩

/-- An export is served without the token when a slash follows the route. -/
theorem export_slips_past_token :
    ¬ ∀ method path, (classifyRoute method path).isSensitive = true →
      routeRequiresLocalToken .genieCore method path = true := by
  intro h
  have := h "GET" "/api/chat/export/?id=abc" (by decide)
  revert this
  decide

example : handlerReached false "GET" "/api/chat/export?id=abc" = none := by decide

end GenieClaw.Server
