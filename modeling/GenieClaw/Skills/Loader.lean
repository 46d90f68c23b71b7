import GenieClaw.Library.Machine
import GenieClaw.Parser.Extract

/-!
# The skill loader

`SkillLoader` of `skills/loader.rs`. What the file system and the dynamic linker answer is
part of the `SkillFile` that is loaded: whether the bytes can be read and opened, the table
they export, the sidecar manifest and whether its signature verifies over the bytes.
-/

namespace GenieClaw.Skills

open Library Library.Text GenieClaw.Parser List

structure SkillManifest where
  name : String := ""
  version : String := ""
  description : String := ""
  permissions : List String := []
  capabilities : List String := []
  reviewedBy : String := ""
  signature : String := ""
  keyId : String := ""
deriving DecidableEq

structure SkillManifestAudit where
  status : String
  path : Option String := none
  name : String := ""
  version : String := ""
  description : String := ""
  permissions : List String := []
  capabilities : List String := []
  reviewedBy : String := ""
  keyId : String := ""
  signed : Bool := false
  error : String
deriving DecidableEq

def SkillManifestAudit.missing : SkillManifestAudit where
  status := "missing"
  error := "no sidecar manifest found"

def SkillManifestAudit.invalid (path error : String) : SkillManifestAudit where
  status := "invalid"
  path := some path
  error := error

/-- What is wrong with a field of the manifest that must repeat what the skill says. -/
def manifestProblem (field claimed loaded : String) : List String :=
  if trim claimed = "" then [s!"manifest {field} is empty"]
  else if claimed ≠ loaded then
    [s!"manifest {field} '{claimed}' does not match loaded skill '{loaded}'"]
  else []

def SkillManifestAudit.fromManifest (path : String) (manifest : SkillManifest) (signed : Bool)
    (loadedName loadedVersion : String) : SkillManifestAudit :=
  let problems := manifestProblem "name" manifest.name loadedName ++
    manifestProblem "version" manifest.version loadedVersion
  { status := if problems.isEmpty then "ok" else "mismatch"
    path := some path
    name := manifest.name
    version := manifest.version
    description := manifest.description
    permissions := manifest.permissions
    capabilities := manifest.capabilities
    reviewedBy := manifest.reviewedBy
    keyId := manifest.keyId
    signed := signed
    error := "; ".intercalate problems }

inductive ManifestSource where
  | missing
  | invalid (path error : String)
  | present (path : String) (manifest : SkillManifest)

def buildManifestAudit (source : ManifestSource) (signed : Bool)
    (loadedName loadedVersion : String) : SkillManifestAudit :=
  match source with
  | .missing => .missing
  | .invalid path error => .invalid path error
  | .present path manifest => .fromManifest path manifest signed loadedName loadedVersion

structure SkillLoadPolicy where
  requireManifest : Bool := false
  requireSignature : Bool := false
  deniedPermissions : List String := []
  signatureKeyDir : String := ""

def enforceSkillPolicy (manifest : SkillManifestAudit) (policy : SkillLoadPolicy) :
    Except String Unit :=
  if policy.requireManifest ∧ manifest.status ≠ "ok" then
    .error s!"skill manifest required but status is '{manifest.status}': {manifest.error}"
  else
    let denied := manifest.permissions.filter (fun p => p ∈ policy.deniedPermissions)
    if denied.isEmpty then .ok ()
    else
      let listed := ", ".intercalate denied
      .error s!"skill requests denied permission(s): {listed}"

/-- The table a library exports. -/
structure SkillVTable where
  abiVersion : Nat
  name : String
  description : String
  version : String
  parametersJson : String

def abiVersion : Nat := 1

structure SkillFile where
  path : String
  source : ManifestSource := .missing
  /-- The signature of the manifest verifies over the bytes. -/
  verified : Bool := false
  readError : Option String := none
  /-- What the linker makes of the bytes. -/
  opened : Except String SkillVTable

def SkillFile.signed (file : SkillFile) : Bool :=
  match file.source with
  | .present _ _ => file.verified
  | .missing | .invalid _ _ => false

structure LoadedSkill where
  name : String
  description : String
  version : String
  parametersJson : String
  path : String
  manifest : SkillManifestAudit
  faultCount : Nat := 0
deriving DecidableEq

def LoadedSkill.shouldUnload (skill : LoadedSkill) : Bool := 3 ≤ skill.faultCount

section

variable (fromStr : JsonReader) (policy : SkillLoadPolicy)

/-- The file can be read, is signed where it must be, and can be opened. -/
def checkFile (file : SkillFile) : Except String SkillVTable :=
  match file.readError with
  | some e => .error s!"failed to read {file.path}: {e}"
  | none =>
    if policy.requireSignature ∧ file.signed = false then
      .error (s!"skill signature required but not cryptographically verified for {file.path} " ++
        s!"(need a trusted key in {policy.signatureKeyDir} and a matching detached signature)")
    else file.opened

/-- What the table must say before it becomes a skill. -/
def checkVTable (loaded : List LoadedSkill) (path : String) (vtable : SkillVTable) :
    Except String Unit :=
  if vtable.abiVersion ≠ abiVersion then
    .error s!"ABI version mismatch: skill has {vtable.abiVersion}, core expects {abiVersion}"
  else if vtable.name = "" then .error s!"skill in {path} has empty name"
  else if vtable.description = "" then .error s!"skill '{vtable.name}' has empty description"
  else if (fromStr vtable.parametersJson).isNone then
    .error s!"skill '{vtable.name}' has invalid parameters_json"
  else if loaded.any (fun s => s.name == vtable.name) then
    .error s!"skill '{vtable.name}' already loaded"
  else .ok ()

/-- `load_skill`: the skill that is pushed to the loaded ones. -/
def loadSkill (loaded : List LoadedSkill) (file : SkillFile) : Except String LoadedSkill := do
  let vtable ← checkFile policy file
  checkVTable fromStr loaded file.path vtable
  let manifest := buildManifestAudit file.source file.signed vtable.name vtable.version
  enforceSkillPolicy manifest policy
  return {
    name := vtable.name
    description := vtable.description
    version := vtable.version
    parametersJson := vtable.parametersJson
    path := file.path
    manifest := manifest }

def unload (name : String) (loaded : List LoadedSkill) : List LoadedSkill :=
  loaded.eraseP (fun s => s.name == name)

/-- A fault is filed under the first skill of the name. -/
def recordFault (name : String) : List LoadedSkill → List LoadedSkill
  | [] => []
  | skill :: rest =>
    if skill.name = name then { skill with faultCount := skill.faultCount + 1 } :: rest
    else skill :: recordFault name rest

def pruneFaulted (loaded : List LoadedSkill) : List LoadedSkill :=
  loaded.filter (fun s => !s.shouldUnload)

inductive LoaderAction where
  | load (file : SkillFile)
  | unload (name : String)
  /-- The end of an `exec_skill` that faulted. -/
  | fault (name : String)
  | prune

def takeLoaderAction (loaded : List LoadedSkill) : LoaderAction → List LoadedSkill
  | .load file =>
    match loadSkill fromStr policy loaded file with
    | .ok skill => loaded ++ [skill]
    | .error _ => loaded
  | .unload name => unload name loaded
  | .fault name => pruneFaulted (recordFault name loaded)
  | .prune => pruneFaulted loaded

def loader : Machine (List LoadedSkill) LoaderAction Unit :=
  ⟨fun loaded action => ((), takeLoaderAction fromStr policy loaded action)⟩

end

/-! ## The names of the loaded skills -/

variable {fromStr : JsonReader} {policy : SkillLoadPolicy} {loaded : List LoadedSkill}

theorem checkVTable_fresh {path : String} {vtable : SkillVTable}
    (h : checkVTable fromStr loaded path vtable = .ok ()) :
    ∀ skill ∈ loaded, skill.name ≠ vtable.name := by
  unfold checkVTable at h
  split at h
  · cases h
  · split at h
    · cases h
    · split at h
      · cases h
      · split at h
        · cases h
        · split at h
          · cases h
          · rename_i hfresh
            intro skill hskill hname
            exact hfresh (List.any_eq_true.mpr ⟨skill, hskill, by simpa using hname⟩)

theorem loadSkill_ok {file : SkillFile} {skill : LoadedSkill} :
    loadSkill fromStr policy loaded file = .ok skill ↔
      ∃ vtable, checkFile policy file = .ok vtable ∧
        checkVTable fromStr loaded file.path vtable = .ok () ∧
        enforceSkillPolicy
          (buildManifestAudit file.source file.signed vtable.name vtable.version) policy = .ok () ∧
        skill = ⟨vtable.name, vtable.description, vtable.version, vtable.parametersJson,
          file.path, buildManifestAudit file.source file.signed vtable.name vtable.version, 0⟩ := by
  unfold loadSkill
  cases hfile : checkFile policy file with
  | error e => simp [bind, Except.bind]
  | ok vtable =>
    cases htable : checkVTable fromStr loaded file.path vtable with
    | error e => simp [bind, Except.bind, htable]
    | ok u =>
      cases hpolicy : enforceSkillPolicy
          (buildManifestAudit file.source file.signed vtable.name vtable.version) policy with
      | error e => simp [bind, Except.bind, htable, hpolicy]
      | ok u => simp [bind, Except.bind, pure, Except.pure, htable, hpolicy, eq_comm]

theorem loadSkill_fresh {file : SkillFile} {skill : LoadedSkill}
    (h : loadSkill fromStr policy loaded file = .ok skill) :
    ∀ other ∈ loaded, other.name ≠ skill.name := by
  obtain ⟨vtable, -, htable, -, rfl⟩ := loadSkill_ok.mp h
  exact checkVTable_fresh htable

theorem map_name_recordFault (name : String) (loaded : List LoadedSkill) :
    (recordFault name loaded).map LoadedSkill.name = loaded.map LoadedSkill.name := by
  induction loaded with
  | nil => rfl
  | cons skill rest ih =>
    rw [recordFault]
    split
    · rfl
    · rw [map_cons, ih, map_cons]

def DistinctNames (loaded : List LoadedSkill) : Prop := (loaded.map LoadedSkill.name).Nodup

theorem DistinctNames.step (h : DistinctNames loaded) (action : LoaderAction) :
    DistinctNames (takeLoaderAction fromStr policy loaded action) := by
  unfold DistinctNames at h ⊢
  cases action with
  | load file =>
    rw [takeLoaderAction]
    split
    · rename_i skill hload
      rw [map_append, map_cons, map_nil]
      refine List.nodup_append.mpr ⟨h, pairwise_singleton _ _, ?_⟩
      rintro name hname other hother rfl
      obtain ⟨old, hold, hold_name⟩ := List.mem_map.mp hname
      rw [mem_singleton] at hother
      exact loadSkill_fresh hload old hold (hold_name.trans hother)
    · exact h
  | unload name => exact h.sublist (List.eraseP_sublist.map _)
  | fault name =>
    have hfault : ((recordFault name loaded).map LoadedSkill.name).Nodup := by
      rwa [map_name_recordFault]
    exact hfault.sublist (List.filter_sublist.map _)
  | prune => exact h.sublist (List.filter_sublist.map _)

theorem loaded_names (actions : List LoaderAction) :
    DistinctNames ((loader fromStr policy).run [] actions) := by
  have hstart : DistinctNames [] := nodup_nil
  exact (loader fromStr policy).run_invariant hstart (fun _ action h => h.step action) actions

end GenieClaw.Skills
