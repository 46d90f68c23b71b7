import GenieClaw.Library.FileTree
import GenieClaw.Skills.Loader

/-!
# What installing and removing leaves alone

A sequence of skill commands should act on the skills as on a table: a command changes the
skill it names and no other, and a failed install changes nothing.

* `skillFile_frame`: what the loader sees of a skill hangs on its library and sidecars only.
* `installSkill_run`, `installSkill_others`: the stages of an install, and what it leaves alone.
-/

namespace GenieClaw.Skills

open Library Library.Text GenieClaw.Parser List Option

/-!
## Installing and removing skills

The skill commands of `genie-ctl`. A skill is a library in the skills directory with a
sidecar manifest beside it, whose name comes from the name of the library by exchanging the
extension. The loader looks for the sidecar under three names and reads the first that is
there.

What the linker, the manifest parser and the signature check make of a file is a
`SkillReader`.
-/

structure SkillReader (C : Type) where
  empty : C
  openLibrary : C → Except String SkillVTable
  parseManifest : C → Except String SkillManifest
  verifies : SkillManifest → C → Bool
  fromStr : JsonReader

/-- The skills directory: the names of its absolute path. -/
structure SkillsDir where
  names : Location
  nonempty : names ≠ []
  plain : ∀ name ∈ names, IsName name

def SkillsDir.path (dir : SkillsDir) : Path := ⟨true, dir.names, dir.nonempty⟩

/-- `skills_dir.join(name)` for a plain file name. -/
def SkillsDir.join (dir : SkillsDir) (name : String) : Path :=
  dir.path.join ⟨false, [name], by simp⟩

def SkillsDir.loc (dir : SkillsDir) (name : String) : Location := dir.names ++ [name]

/-! ## The loader on a disk -/

def sidecarExtensions : List String := ["skill.json", "manifest.json", "json"]

def manifestSidecarCandidates (skillPath : Path) : List Path :=
  sidecarExtensions.map fun extension => skillPath.withExtension extension

section

variable {C : Type} (reader : SkillReader C) (d : Disk C)

def findManifestSidecar (skillPath : Path) : Option Path :=
  (manifestSidecarCandidates skillPath).find? d.pathExists

def readManifestSource (skillPath : Path) : ManifestSource :=
  match findManifestSidecar d skillPath with
  | none => .missing
  | some path =>
    match d.read path with
    | none => .invalid path.display "cannot be read"
    | some content =>
      match reader.parseManifest content with
      | .ok manifest => .present path.display manifest
      | .error e => .invalid path.display e

/-- What `load_skill` finds at a path. -/
def skillFile (skillPath : Path) : SkillFile :=
  let source := readManifestSource reader d skillPath
  match d.read skillPath with
  | none =>
    { path := skillPath.display
      source := source
      readError := some "cannot be read"
      opened := .error "not read" }
  | some content =>
    { path := skillPath.display
      source := source
      verified := match source with
        | .present _ manifest => reader.verifies manifest content
        | _ => false
      opened := reader.openLibrary content }

/-- The names in a directory in the order the system lists them. -/
structure Listing where
  walk : List String → List String
  perm : ∀ names, (walk names).Perm names

def Listing.listed : Listing := ⟨id, fun _ => .refl _⟩

/-- `load_all` with the default policy: each skill with the name of its file. A file that
does not load is skipped. -/
def loadAll (dir : SkillsDir) (listing : Listing) : List (String × LoadedSkill) :=
  (listing.walk (d.tree.namesIn dir.names)).foldl
    (fun loaded name =>
      if (dir.join name).extension = some "so" then
        match loadSkill reader.fromStr {} (loaded.map Prod.snd)
            (skillFile reader d (dir.join name)) with
        | .ok skill => loaded ++ [(name, skill)]
        | .error _ => loaded
      else loaded) []

def loadInstalledSkills (dir : SkillsDir) (listing : Listing) : List (String × LoadedSkill) :=
  (loadAll reader d dir listing).mergeSort fun a b => a.2.name ≤ b.2.name

def validateSkillFile (path : Path) : Except String LoadedSkill :=
  if d.pathExists path then
    if d.isFile path then loadSkill reader.fromStr {} [] (skillFile reader d path)
    else .error s!"skill path is not a file: {path.display}"
  else .error s!"skill file not found: {path.display}"

end

/-! ## The commands -/

def normalizeSkillFilename (source : Path) (destName : Option String) : Except String String :=
  let named := destName.filter fun name => trim name ≠ ""
  let fileName : Except String String := match named with
    | some name =>
      let trimmed := trim name
      if (Path.ofString trimmed).extension.isSome then .ok trimmed
      else .ok (trimmed ++ ".so")
    | none =>
      match source.fileName with
      | some name => .ok name
      | none => .error s!"cannot determine filename for {source.display}"
  match fileName with
  | .ok name =>
    if '/' ∈ name.toList then .error "destination name must be a filename, not a path"
    else .ok name
  | .error e => .error e

section

variable {C : Type} (reader : SkillReader C) (dir : SkillsDir)

def copySkillManifestSidecar (source dest : Path) : Program (Disk C) String Unit := fun d =>
  match findManifestSidecar d source with
  | none => (.ok (), d)
  | some manifest =>
    ((fun _ => ()) <$> Disk.copyFile reader.empty manifest (dest.withExtension "skill.json")) d

/-- `install_skill`. The number of bytes copied is given by the content that landed. -/
def installSkill (source : Path) (destName : Option String) :
    Program (Disk C) String (LoadedSkill × C) := do
  let _ ← Disk.query fun d => validateSkillFile reader d source
  Disk.createDirAll dir.names
  let fileName ← Disk.query fun _ => normalizeSkillFilename source destName
  let copied ← Disk.copyFile reader.empty source (dir.join fileName)
  copySkillManifestSidecar reader source (dir.join fileName)
  let installed ← Disk.query fun d => validateSkillFile reader d (dir.join fileName)
  return (installed, copied)

def removeSidecar (path : Path) : Program (Disk C) String Unit := fun d =>
  if d.pathExists path then Disk.removeFile path d else (.ok (), d)

def removeSkillAndSidecars (path : Path) : Program (Disk C) String Unit := do
  Disk.removeFile path
  (manifestSidecarCandidates path).forM removeSidecar

def directCandidates (target : String) : List Path :=
  let direct := dir.path.join (Path.ofString target)
  if (Path.ofString target).extension.isSome then [direct]
  else [direct, dir.path.join (Path.ofString (target ++ ".so"))]

/-- The library `remove_skill` removes: that of a loadable skill with the name or the file
name, else what the target leads to from the skills directory. -/
def removalPath (listing : Listing) (target : String) (d : Disk C) : Option Path :=
  match (loadInstalledSkills reader d dir listing).find? fun s =>
      s.2.name = target ∨ s.1 = target with
  | some s => some (dir.join s.1)
  | none => (directCandidates dir target).find? d.pathExists

def removeSkill (listing : Listing) (target : String) : Program (Disk C) String Path := fun d =>
  match removalPath reader dir listing target d with
  | some path => ((fun _ => path) <$> removeSkillAndSidecars path) d
  | none => (.error s!"skill '{target}' not found in {dir.path.display}", d)

inductive SkillCommand where
  | install (source : Path) (destName : Option String)
  | remove (listing : Listing) (target : String)

/-- A command, and what goes wrong with its writes. -/
structure SkillCall (C : Type) where
  command : SkillCommand
  faults : List (Option (Fault C)) := []

def runCommand : SkillCommand → Program (Disk C) String Unit
  | .install source destName => (fun _ => ()) <$> installSkill reader dir source destName
  | .remove listing target => (fun _ => ()) <$> removeSkill reader dir listing target

def skillMachine : Machine (Disk C) (SkillCall C) (Except String Unit) :=
  ⟨fun d call => runCommand reader dir call.command { d with faults := call.faults }⟩

end

/-! ## The sidecars that are looked at -/

section

variable {α : Type}

/-- The entries a search looks at: up to the first that passes. -/
def lookedAt (p : α → Bool) : List α → List α
  | [] => []
  | x :: rest => if p x then [x] else x :: lookedAt p rest

variable {xs : List α}

theorem find?_congr_lookedAt {p q : α → Bool} (h : ∀ x ∈ lookedAt p xs, q x = p x) :
    xs.find? q = xs.find? p := by
  induction xs with
  | nil => rfl
  | cons x rest ih =>
    rw [lookedAt] at h
    cases hx : p x with
    | true =>
      rw [if_pos hx] at h
      rw [find?_cons, find?_cons, h x (mem_singleton_self x), hx]
    | false =>
      rw [hx, if_neg Bool.false_ne_true] at h
      rw [find?_cons, find?_cons, h x mem_cons_self, hx]
      exact ih fun y hy => h y (mem_cons_of_mem x hy)

theorem mem_lookedAt_of_find? {p : α → Bool} {x : α} (h : xs.find? p = some x) :
    x ∈ lookedAt p xs := by
  induction xs with
  | nil => cases h
  | cons y rest ih =>
    rw [find?_cons] at h
    rw [lookedAt]
    cases hy : p y with
    | true =>
      rw [hy] at h
      cases h
      rw [if_pos rfl]
      exact mem_singleton_self _
    | false =>
      rw [hy] at h
      rw [if_neg Bool.false_ne_true]
      exact mem_cons_of_mem y (ih h)

theorem lookedAt_subset (p : α → Bool) (xs : List α) : lookedAt p xs ⊆ xs := by
  induction xs with
  | nil => exact List.Subset.refl _
  | cons x rest ih =>
    rw [lookedAt]
    split
    · simp
    · exact cons_subset_cons x ih

theorem lookedAt_mono {p q : α → Bool} (h : ∀ x ∈ xs, p x = true → q x = true) :
    lookedAt q xs ⊆ lookedAt p xs := by
  induction xs with
  | nil => exact List.Subset.refl _
  | cons x rest ih =>
    have hrest := ih fun y hy => h y (mem_cons_of_mem x hy)
    rw [lookedAt, lookedAt]
    cases hp : p x with
    | true =>
      rw [h x mem_cons_self hp, if_pos rfl, if_pos rfl]
      exact List.Subset.refl _
    | false =>
      rw [if_neg Bool.false_ne_true]
      split
      · simp
      · exact cons_subset_cons x hrest

theorem find?_of_imp {p q : α → Bool} {x : α} (h : ∀ y ∈ xs, p y = true → q y = true)
    (hq : xs.find? q = some x) (hp : p x = true) : xs.find? p = some x := by
  induction xs with
  | nil => cases hq
  | cons y rest ih =>
    rw [find?_cons] at hq ⊢
    cases hqy : q y with
    | true =>
      rw [hqy] at hq
      cases hq
      rw [hp]
    | false =>
      have hpy : p y = false := by
        rw [Bool.eq_false_iff]
        intro htrue
        rw [h y mem_cons_self htrue] at hqy
        cases hqy
      rw [hqy] at hq
      rw [hpy]
      exact ih (fun z hz => h z (mem_cons_of_mem y hz)) hq

end

variable {C : Type} {reader : SkillReader C} {dir : SkillsDir} {d d' : Disk C} {p : Path}
  {loc : Location} {locs : List Location}

/-- The loader, on its way to the manifest of the skill, looks for a sidecar at `loc`. -/
def LooksAt (d : Disk C) (p : Path) (loc : Location) : Prop :=
  ∃ s ∈ lookedAt d.pathExists (manifestSidecarCandidates p), d.locate s = some loc

theorem mem_candidates {s : Path} (h : s ∈ manifestSidecarCandidates p) :
    ∃ extension : String, extension ∈ sidecarExtensions ∧ 2 ≤ extension.length ∧
      s = p.withExtension extension := by
  have hlong : ∀ extension ∈ sidecarExtensions, 2 ≤ extension.length := by decide
  obtain ⟨extension, hext, rfl⟩ := List.mem_map.mp h
  exact ⟨extension, hext, hlong extension hext, rfl⟩

theorem locate_candidate (hcwd : d'.cwd = d.cwd)
    (hkeeps : FileTree.KeepsDirectories d.tree d'.tree) (hloc : d.locate p = some loc)
    (hfile : d.tree.fileAt loc ≠ none) :
    ∃ name parent, loc = parent ++ [name] ∧ IsName name ∧
      ∀ extension : String, 2 ≤ extension.length →
        d.locate (p.withExtension extension) = some (parent ++ [renameExtension extension name]) ∧
          d'.locate (p.withExtension extension) =
            some (parent ++ [renameExtension extension name]) := by
  obtain ⟨name, parent, rfl, hname, hsiblings⟩ := FileTree.resolve_withExtension hloc hfile
  refine ⟨name, parent, rfl, hname, fun extension hext => ⟨?_, ?_⟩⟩
  · exact hsiblings d.tree (.refl _) extension hext
  · rw [Disk.locate, hcwd]
    exact hsiblings d'.tree hkeeps extension hext

theorem node_candidate (hcwd : d'.cwd = d.cwd) (h : FileTree.Changed locs d.tree d'.tree)
    (hloc : d.locate p = some loc) (hfile : d.tree.fileAt loc ≠ none) {s : Path}
    (hs : s ∈ manifestSidecarCandidates p) (hfree : ∀ l, d.locate s = some l → l ∉ locs) :
    d'.locate s = d.locate s ∧ d'.pathExists s = d.pathExists s ∧ d'.read s = d.read s := by
  obtain ⟨extension, -, hext, rfl⟩ := mem_candidates hs
  obtain ⟨name, parent, -, -, hsiblings⟩ := locate_candidate hcwd h.directories hloc hfile
  obtain ⟨hbefore, hafter⟩ := hsiblings extension hext
  have hlast := hfree _ hbefore
  refine ⟨hafter.trans hbefore.symm, ?_, ?_⟩
  · rw [Disk.pathExists, Disk.pathExists, hbefore, hafter, bind_some, bind_some,
      h.nodes _ hlast]
  · rw [Disk.read, Disk.read, hbefore, hafter, bind_some, bind_some,
      h.fileAt hlast]

theorem findManifestSidecar_frame (hcwd : d'.cwd = d.cwd)
    (h : FileTree.Changed locs d.tree d'.tree) (hloc : d.locate p = some loc)
    (hfile : d.tree.fileAt loc ≠ none) (hfree : ∀ l ∈ locs, ¬ LooksAt d p l) :
    findManifestSidecar d' p = findManifestSidecar d p ∧
      ∀ s, findManifestSidecar d p = some s → d'.read s = d.read s := by
  have hnode : ∀ s ∈ lookedAt d.pathExists (manifestSidecarCandidates p),
      d'.pathExists s = d.pathExists s ∧ d'.read s = d.read s := by
    intro s hs
    have hfree' : ∀ l, d.locate s = some l → l ∉ locs := fun l hl hmem =>
      hfree l hmem ⟨s, hs, hl⟩
    exact (node_candidate hcwd h hloc hfile (lookedAt_subset _ _ hs) hfree').2
  constructor
  · exact find?_congr_lookedAt fun s hs => (hnode s hs).1
  · intro s hs
    exact (hnode s (mem_lookedAt_of_find? hs)).2

/-- The loader sees the same skill where neither its library nor a sidecar it looks at
changed. -/
theorem skillFile_frame (hcwd : d'.cwd = d.cwd) (h : FileTree.Changed locs d.tree d'.tree)
    (hloc : d.locate p = some loc) (hfile : d.tree.fileAt loc ≠ none) (hlib : loc ∉ locs)
    (hfree : ∀ l ∈ locs, ¬ LooksAt d p l) : skillFile reader d' p = skillFile reader d p := by
  obtain ⟨hfind, hread⟩ := findManifestSidecar_frame hcwd h hloc hfile hfree
  have hsource : readManifestSource reader d' p = readManifestSource reader d p := by
    unfold readManifestSource
    rw [hfind]
    cases hs : findManifestSidecar d p with
    | none => rfl
    | some s =>
      dsimp only
      rw [hread s hs]
  have hlibrary : d'.read p = d.read p := by
    have hloc' : d'.locate p = some loc := by
      rw [Disk.locate, hcwd]
      exact h.directories.resolve hloc
    rw [Disk.read, Disk.read, hloc, hloc', bind_some, bind_some, h.fileAt hlib]
  unfold skillFile
  rw [hsource, hlibrary]

/-! ## Names in the skills directory -/

variable {name : String}

theorem locate_join (hname : IsName name) (h : d.locate (dir.join name) = some loc) :
    loc = dir.loc name ∧ d.tree.isDirectory dir.names = true := by
  have hwalk : d.tree.walk [] (dir.names ++ [name]) = some loc := h
  rw [FileTree.walk_concat] at hwalk
  obtain ⟨above, hdir, henter⟩ := Option.bind_eq_some_iff.mp hwalk
  have habove : above = dir.names := by
    have := FileTree.walk_plain dir.plain hdir
    rwa [nil_append] at this
  subst habove
  have hthere : d.tree.isDirectory dir.names = true := by
    unfold FileTree.enter at henter
    split at henter
    · assumption
    · cases henter
  rw [FileTree.enter_name hname hthere] at henter
  cases henter
  exact ⟨rfl, hthere⟩

theorem locate_join_file (h : d.locate (dir.join name) = some loc)
    (hfile : d.tree.fileAt loc ≠ none) :
    IsName name ∧ loc = dir.loc name ∧ d.tree.isDirectory dir.names = true := by
  obtain ⟨front, last, above, hparts, -, hlast, -⟩ := FileTree.resolve_file h hfile
  have hjoin : dir.names ++ [name] = front ++ [last] := hparts
  obtain ⟨-, hname⟩ := append_inj' hjoin rfl
  cases hname
  exact ⟨hlast, locate_join hlast h⟩

variable {destName : Option String} {source : Path}

theorem isName_normalizeSkillFilename {fileName : String}
    (h : normalizeSkillFilename source destName = .ok fileName) : IsName fileName := by
  unfold normalizeSkillFilename at h
  dsimp only at h
  split at h
  · rename_i name hnamed
    split at h
    · cases h
    · rename_i hslash
      cases h
      split at hnamed
      · rename_i given hgiven
        split at hnamed
        · rename_i hext
          cases hnamed
          rw [Path.ofString_plain hslash] at hext
          obtain ⟨extension, hext⟩ := Option.isSome_iff_exists.mp hext
          obtain ⟨last, hlast, -⟩ := Option.bind_eq_some_iff.mp hext
          obtain ⟨⟨front, name⟩, hsplit, rfl⟩ := Option.map_eq_some_iff.mp hlast
          rw [← Path.name_of_splitName_single hsplit]
          exact Path.isName_of_splitName hsplit
        · cases hnamed
          have hnonempty : trim given ≠ "" := by
            simpa using (Option.filter_eq_some_iff.mp hgiven).2
          apply isName_of_length
          have hpos : 0 < (trim given).length := Nat.pos_of_ne_zero fun hzero =>
            hnonempty (String.length_eq_zero_iff.mp hzero)
          have hso : ".so".length = 3 := rfl
          rw [String.length_append]
          omega
      · split at hnamed
        · rename_i hlast
          cases hnamed
          obtain ⟨⟨front, last⟩, hsplit, rfl⟩ := Option.map_eq_some_iff.mp hlast
          exact Path.isName_of_splitName hsplit
        · cases hnamed
  · cases h

/-! ## The laws and their conditions -/

def SkillsDir.Below (dir : SkillsDir) (loc : Location) : Prop :=
  ∃ name rest, loc = dir.names ++ name :: rest

/-- A library in the skills directory that loads. -/
def Installed (reader : SkillReader C) (dir : SkillsDir) (d : Disk C) (name : String) : Prop :=
  (dir.join name).extension = some "so" ∧
    ∃ skill, validateSkillFile reader d (dir.join name) = .ok skill

/-- The skill a command names. -/
def Targets (reader : SkillReader C) (dir : SkillsDir) (d : Disk C) :
    SkillCommand → String → Prop
  | .install source destName, name => normalizeSkillFilename source destName = .ok name
  | .remove listing target, name =>
    ∃ path, removalPath reader dir listing target d = some path ∧
      d.locate path = some (dir.loc name)

/-- The manifest without the place it was read from. -/
def ManifestSource.content : ManifestSource → Option (Except Unit SkillManifest)
  | .missing => none
  | .invalid _ _ => some (.error ())
  | .present _ manifest => some (.ok manifest)

/-- What a command does to the skills and to the files around them. -/
structure Lawful (reader : SkillReader C) (dir : SkillsDir) (d : Disk C)
    (command : SkillCommand) (result : Except String Unit) (d' : Disk C) : Prop where
  /-- No file outside the skills directory changes. -/
  outside : ∀ loc, ¬ dir.Below loc → d'.tree.fileAt loc = d.tree.fileAt loc
  /-- The loader sees every other skill as before. -/
  others : ∀ name, Installed reader dir d name → ¬ Targets reader dir d command name →
    skillFile reader d' (dir.join name) = skillFile reader d (dir.join name)
  /-- The manifest of an installed skill is the one of its source. -/
  delivered : ∀ source destName fileName, command = .install source destName →
    normalizeSkillFilename source destName = .ok fileName → result = .ok () →
    (readManifestSource reader d' (dir.join fileName)).content =
      (readManifestSource reader d source).content
  /-- An install that fails leaves the skill it would have replaced. -/
  restored : ∀ source destName fileName e, command = .install source destName →
    normalizeSkillFilename source destName = .ok fileName → result = .error e →
    (∃ skill, validateSkillFile reader d (dir.join fileName) = .ok skill) →
    skillFile reader d' (dir.join fileName) = skillFile reader d (dir.join fileName)

/-- When an install of `source` under `fileName` keeps the laws. -/
structure SafeInstall (reader : SkillReader C) (dir : SkillsDir) (d : Disk C)
    (faults : List (Option (Fault C))) (source : Path) (fileName : String) : Prop where
  /-- The source is not the library it is installed to, and that is no sidecar of it. -/
  apart : d.locate source ≠ some (dir.loc fileName) ∧ ¬ LooksAt d source (dir.loc fileName)
  /-- The sidecar of the source is not the one that is written. -/
  sidecarApart : ∀ s, findManifestSidecar d source = some s →
    d.locate s ≠ some (dir.loc (renameExtension "skill.json" fileName))
  /-- Without a sidecar of the source there is none where the skill is installed. -/
  bare : findManifestSidecar d source = none → ∀ extension ∈ sidecarExtensions,
    renameExtension extension fileName ≠ fileName ∧
      d.tree.node (dir.loc (renameExtension extension fileName)) = none
  /-- No file that is written is the library of another skill or a sidecar the loader looks
  at for it. -/
  others : ∀ name, Installed reader dir d name → name ≠ fileName →
    ¬ LooksAt d (dir.join name) (dir.loc fileName) ∧
      (findManifestSidecar d source ≠ none →
        renameExtension "skill.json" fileName ≠ name ∧
          ¬ LooksAt d (dir.join name) (dir.loc (renameExtension "skill.json" fileName)))
  /-- Where a skill is replaced, the library is not torn, and once it is written a sidecar of
  the source is copied without a fault. -/
  steady : (∃ skill, validateSkillFile reader d (dir.join fileName) = .ok skill) →
    (∀ left, faults[1]?.join ≠ some (.torn left)) ∧
      (faults[1]?.join = none → ∀ s, findManifestSidecar d source = some s →
        d.read s ≠ none ∧ faults[2]?.join = none ∧
          d.tree.isDirectory (dir.loc (renameExtension "skill.json" fileName)) = false)

/-- When the removal of what lies at `path` keeps the laws. -/
structure SafeRemove (reader : SkillReader C) (dir : SkillsDir) (d : Disk C) (path : Path)
    (loc : Location) : Prop where
  /-- It lies inside the skills directory. -/
  inside : dir.Below loc
  /-- Neither it nor a sidecar it has is the library of another skill or a sidecar the loader
  looks at for it. -/
  others : ∀ name, Installed reader dir d name → dir.loc name ≠ loc →
    ¬ LooksAt d (dir.join name) loc ∧
      ∀ s ∈ manifestSidecarCandidates path, d.pathExists s = true → ∀ l, d.locate s = some l →
        l ≠ dir.loc name ∧ ¬ LooksAt d (dir.join name) l

def Safe (reader : SkillReader C) (dir : SkillsDir) (d : Disk C) (call : SkillCall C) : Prop :=
  match call.command with
  | .install source destName => (∃ skill, validateSkillFile reader d source = .ok skill) →
    ∀ fileName, normalizeSkillFilename source destName = .ok fileName →
      SafeInstall reader dir d call.faults source fileName
  | .remove listing target => ∀ path, removalPath reader dir listing target d = some path →
    ∀ loc, d.locate path = some loc → d.tree.fileAt loc ≠ none → SafeRemove reader dir d path loc

/-! ## Loading and copying -/

theorem validateSkillFile_file {skill : LoadedSkill}
    (h : validateSkillFile reader d p = .ok skill) :
    ∃ loc, d.locate p = some loc ∧ d.tree.fileAt loc ≠ none := by
  unfold validateSkillFile at h
  split at h
  · split at h
    · rename_i hfile
      obtain ⟨content, hcontent⟩ := Option.isSome_iff_exists.mp hfile
      obtain ⟨loc, hloc, hat⟩ := Option.bind_eq_some_iff.mp hcontent
      exact ⟨loc, hloc, by simp [hat]⟩
    · cases h
  · cases h

theorem checkVTable_path {loaded : List LoadedSkill} {vtable : SkillVTable} (p q : String)
    (h : checkVTable reader.fromStr loaded p vtable = .ok ()) :
    checkVTable reader.fromStr loaded q vtable = .ok () := by
  unfold checkVTable at h ⊢
  split_ifs at h ⊢
  rfl

theorem enforceSkillPolicy_default (manifest : SkillManifestAudit) :
    enforceSkillPolicy manifest {} = .ok () := by
  simp [enforceSkillPolicy]

theorem read_exists {content : C} (h : d.read p = some content) : d.pathExists p = true := by
  obtain ⟨loc, hloc, hfile⟩ := Option.bind_eq_some_iff.mp h
  rw [Disk.pathExists, hloc, bind_some, FileTree.fileAt_eq_some.mp hfile]
  rfl

theorem validateSkillFile_ok_iff :
    (∃ skill, validateSkillFile reader d p = .ok skill) ↔
      ∃ content vtable, d.read p = some content ∧ reader.openLibrary content = .ok vtable ∧
        checkVTable reader.fromStr [] "" vtable = .ok () := by
  constructor
  · rintro ⟨skill, h⟩
    unfold validateSkillFile at h
    split at h
    · split at h
      · rename_i hfile
        obtain ⟨content, hcontent⟩ := Option.isSome_iff_exists.mp hfile
        obtain ⟨vtable, hopen, htable, -, -⟩ := loadSkill_ok.mp h
        have hopened : checkFile {} (skillFile reader d p) = reader.openLibrary content := by
          simp [checkFile, skillFile, hcontent]
        exact ⟨content, vtable, hcontent, hopened.symm.trans hopen, checkVTable_path _ _ htable⟩
      · cases h
    · cases h
  · rintro ⟨content, vtable, hcontent, hopen, htable⟩
    have hfile : d.isFile p = true := by
      rw [Disk.isFile, hcontent]
      rfl
    have hopened : checkFile {} (skillFile reader d p) = .ok vtable := by
      simp [checkFile, skillFile, hcontent, hopen]
    rw [validateSkillFile, if_pos (read_exists hcontent), if_pos hfile]
    exact ⟨_, loadSkill_ok.mpr ⟨vtable, hopened, checkVTable_path _ _ htable,
      enforceSkillPolicy_default _, rfl⟩⟩

variable {result : Except String (LoadedSkill × C)}

/-- The stages of an install, and where it can stop. -/
theorem installSkill_run (h : installSkill reader dir source destName d = (result, d')) :
    (∃ e, result = .error e ∧ d' = d) ∨
    ∃ skill d₁, validateSkillFile reader d source = .ok skill ∧
      ∃ created, Disk.createDirAll dir.names d = (created, d₁) ∧
        ((∃ e, result = .error e ∧ d' = d₁ ∧
            (created = .error e ∨ normalizeSkillFilename source destName = .error e)) ∨
          ∃ fileName, created = .ok () ∧ normalizeSkillFilename source destName = .ok fileName ∧
            ∃ copied d₂, Disk.copyFile reader.empty source (dir.join fileName) d₁ = (copied, d₂) ∧
              ((∃ e, copied = .error e ∧ result = .error e ∧ d' = d₂) ∨
                ∃ content, copied = .ok content ∧
                  ∃ sidecar, copySkillManifestSidecar reader source (dir.join fileName) d₂ =
                      (sidecar, d') ∧
                    ((∃ e, sidecar = .error e ∧ result = .error e) ∨
                      sidecar = .ok () ∧ result =
                        (validateSkillFile reader d' (dir.join fileName)).map
                          fun installed => (installed, content)))) := by
  have hquery : ∀ {α : Type} (f : Disk C → Except String α) (d : Disk C),
      Disk.query f d = (f d, d) := fun _ _ => rfl
  unfold installSkill at h
  rcases hvalid : validateSkillFile reader d source with e | skill
  · rw [Program.bind_apply_error ((hquery _ d).trans (by rw [hvalid]))] at h
    cases h
    exact .inl ⟨e, rfl, rfl⟩
  · rw [Program.bind_apply_ok ((hquery _ d).trans (by rw [hvalid]))] at h
    rcases hcreate : Disk.createDirAll dir.names d with ⟨e | created, d₁⟩
    · rw [Program.bind_apply_error hcreate] at h
      cases h
      exact .inr ⟨skill, _, rfl, _, rfl, .inl ⟨e, rfl, rfl, .inl rfl⟩⟩
    · rw [Program.bind_apply_ok hcreate] at h
      refine .inr ⟨skill, d₁, rfl, _, rfl, ?_⟩
      rcases hname : normalizeSkillFilename source destName with e | fileName
      · rw [Program.bind_apply_error ((hquery _ d₁).trans (by rw [hname]))] at h
        cases h
        exact .inl ⟨e, rfl, rfl, .inr rfl⟩
      · rw [Program.bind_apply_ok ((hquery _ d₁).trans (by rw [hname]))] at h
        refine .inr ⟨fileName, rfl, rfl, ?_⟩
        rcases hcopy : Disk.copyFile reader.empty source (dir.join fileName) d₁ with
          ⟨e | content, d₂⟩
        · rw [Program.bind_apply_error hcopy] at h
          cases h
          exact ⟨_, _, rfl, .inl ⟨e, rfl, rfl, rfl⟩⟩
        · rw [Program.bind_apply_ok hcopy] at h
          refine ⟨_, d₂, rfl, .inr ⟨content, rfl, ?_⟩⟩
          rcases hsidecar : copySkillManifestSidecar reader source (dir.join fileName) d₂ with
            ⟨e | u, d₃⟩
          · rw [Program.bind_apply_error hsidecar] at h
            cases h
            exact ⟨_, rfl, .inl ⟨e, rfl, rfl⟩⟩
          · rw [Program.bind_apply_ok hsidecar] at h
            rcases hinstalled : validateSkillFile reader d₃ (dir.join fileName) with e | installed
            · rw [Program.bind_apply_error ((hquery _ d₃).trans (by rw [hinstalled]))] at h
              cases h
              exact ⟨_, rfl, .inr ⟨rfl, by rw [hinstalled]; rfl⟩⟩
            · rw [Program.bind_apply_ok ((hquery _ d₃).trans (by rw [hinstalled]))] at h
              cases h
              exact ⟨_, rfl, .inr ⟨rfl, by rw [hinstalled]; rfl⟩⟩

/-! ## What an install changes -/

theorem join_withExtension (hname : IsName name) (extension : String) :
    (dir.join name).withExtension extension = dir.join (renameExtension extension name) := by
  have hsplit : (dir.join name).splitName = some (dir.names, name) := by
    obtain ⟨h1, h2, h3⟩ := hname
    simp [SkillsDir.join, SkillsDir.path, Path.join, Path.splitName, h1, h2, h3]
  rw [Path.withExtension, hsplit]
  rfl

/-- The skills directory may have been created, and that is all. -/
structure Grown (dir : SkillsDir) (d d' : Disk C) : Prop where
  cwd : d'.cwd = d.cwd
  directories : FileTree.KeepsDirectories d.tree d'.tree
  files : ∀ loc, d'.tree.fileAt loc = d.tree.fileAt loc
  nodes : ∀ loc, ¬ loc <+: dir.names → d'.tree.node loc = d.tree.node loc
  there : d.tree.isDirectory dir.names = true → d'.tree = d.tree

theorem Grown.of_createDirAll {result : Except String Unit}
    (h : Disk.createDirAll dir.names d = (result, d')) : Grown dir d d' := by
  obtain ⟨hcwd, -, hcases, -⟩ := Disk.createDirAll_spec h
  rcases hcases with ⟨e, -, htree⟩ | ⟨-, hcreate⟩
  · refine ⟨hcwd, ?_, fun _ => by rw [htree], fun _ _ => by rw [htree], fun _ => htree⟩
    rw [htree]
    exact .refl _
  · refine ⟨hcwd, .createDirectories hcreate, FileTree.fileAt_createDirectories hcreate,
      fun loc hloc => ?_, fun hdir => ?_⟩
    · rcases FileTree.node_createDirectories hcreate loc with hsame | ⟨-, -, hprefix⟩
      · exact hsame
      · exact absurd hprefix hloc
    · rw [FileTree.createDirectories_of_directory (FileTree.isDirectory_iff.mp hdir)] at hcreate
      exact (Option.some_inj.mp hcreate).symm

theorem copyFile_join {empty : C} (hname : IsName name) {result : Except String C}
    (h : Disk.copyFile empty source (dir.join name) d = (result, d')) :
    d'.cwd = d.cwd ∧ FileTree.Changed [dir.loc name] d.tree d'.tree := by
  rcases Disk.copyFile_spec h with ⟨e, -, rfl, -⟩ | ⟨content, loc, -, hloc, hcwd, -, hchanged, -⟩
  · exact ⟨rfl, .refl _ _⟩
  · rw [(locate_join hname hloc).1] at hchanged
    exact ⟨hcwd, hchanged⟩

theorem copySkillManifestSidecar_changes (hname : IsName name) {result : Except String Unit}
    (h : copySkillManifestSidecar reader source (dir.join name) d = (result, d')) :
    d'.cwd = d.cwd ∧
      (findManifestSidecar d source = none ∧ d' = d ∧ result = .ok () ∨
        findManifestSidecar d source ≠ none ∧
          FileTree.Changed [dir.loc (renameExtension "skill.json" name)] d.tree d'.tree) := by
  unfold copySkillManifestSidecar at h
  split at h
  · rename_i hnone
    cases h
    exact ⟨rfl, .inl ⟨hnone, rfl, rfl⟩⟩
  · rename_i s hs
    rw [join_withExtension hname, Program.map_apply] at h
    rcases hcopy : Disk.copyFile reader.empty s (dir.join (renameExtension "skill.json" name)) d
      with ⟨copied, after⟩
    rw [hcopy] at h
    obtain ⟨-, rfl⟩ := Prod.mk.inj h
    obtain ⟨hcwd, hchanged⟩ :=
      copyFile_join (FileTree.isName_renameExtension (by decide) name) hcopy
    exact ⟨hcwd, .inr ⟨by simp [hs], hchanged⟩⟩

theorem installSkill_changes (h : installSkill reader dir source destName d = (result, d')) :
    ∃ d₁ locs, Grown dir d d₁ ∧ FileTree.Changed locs d₁.tree d'.tree ∧ d'.cwd = d.cwd ∧
      ∀ l ∈ locs, (∃ skill, validateSkillFile reader d source = .ok skill) ∧
        ∃ fileName, normalizeSkillFilename source destName = .ok fileName ∧
          (l = dir.loc fileName ∨ l = dir.loc (renameExtension "skill.json" fileName) ∧
            ∃ d₂ : Disk C, FileTree.Changed [dir.loc fileName] d₁.tree d₂.tree ∧
              d₂.cwd = d.cwd ∧ findManifestSidecar d₂ source ≠ none) := by
  rcases installSkill_run h with ⟨e, -, rfl⟩ | ⟨skill, d₁, hvalid, created, hcreate, hrest⟩
  · exact ⟨d', [], ⟨rfl, .refl _, fun _ => rfl, fun _ _ => rfl, fun _ => rfl⟩, .refl _ _, rfl,
      by simp⟩
  · have hgrown := Grown.of_createDirAll hcreate
    rcases hrest with ⟨e, -, rfl, -⟩ | ⟨fileName, -, hnormal, copied, d₂, hcopy, hrest⟩
    · exact ⟨d', [], hgrown, .refl _ _, hgrown.cwd, by simp⟩
    · have hname := isName_normalizeSkillFilename hnormal
      obtain ⟨hcwd₂, hchanged₂⟩ := copyFile_join hname hcopy
      rcases hrest with ⟨e, -, -, rfl⟩ | ⟨content, -, sidecar, hsidecar, -⟩
      · refine ⟨d₁, _, hgrown, hchanged₂, hcwd₂.trans hgrown.cwd, fun l hl => ?_⟩
        rw [mem_singleton] at hl
        exact ⟨⟨skill, hvalid⟩, fileName, hnormal, .inl hl⟩
      · obtain ⟨hcwd', hsame | ⟨hfound, hchanged'⟩⟩ :=
          copySkillManifestSidecar_changes hname hsidecar
        · obtain ⟨-, rfl, -⟩ := hsame
          refine ⟨d₁, _, hgrown, hchanged₂, hcwd₂.trans hgrown.cwd, fun l hl => ?_⟩
          rw [mem_singleton] at hl
          exact ⟨⟨skill, hvalid⟩, fileName, hnormal, .inl hl⟩
        · refine ⟨d₁, [dir.loc fileName, dir.loc (renameExtension "skill.json" fileName)], hgrown,
            (hchanged₂.mono (by simp)).trans (hchanged'.mono (by simp)),
            hcwd'.trans (hcwd₂.trans hgrown.cwd),
            fun l hl => ⟨⟨skill, hvalid⟩, fileName, hnormal, ?_⟩⟩
          rcases List.mem_cons.mp hl with rfl | hl
          · exact .inl rfl
          · rw [mem_singleton] at hl
            exact .inr ⟨hl, d₂, hchanged₂, hcwd₂.trans hgrown.cwd, hfound⟩

theorem not_loc_of_not_below (h : ¬ dir.Below loc) (name : String) : loc ≠ dir.loc name := by
  rintro rfl
  exact h ⟨name, [], rfl⟩

theorem installSkill_outside (h : installSkill reader dir source destName d = (result, d'))
    (hloc : ¬ dir.Below loc) : d'.tree.fileAt loc = d.tree.fileAt loc := by
  obtain ⟨d₁, locs, hgrown, hchanged, -, hlocs⟩ := installSkill_changes h
  rw [← hgrown.files loc]
  apply hchanged.fileAt
  intro hmem
  obtain ⟨-, fileName, -, hl⟩ := hlocs loc hmem
  rcases hl with hl | ⟨hl, -⟩
  · exact not_loc_of_not_below hloc _ hl
  · exact not_loc_of_not_below hloc _ hl

theorem Installed.file (h : Installed reader dir d name) :
    IsName name ∧ d.locate (dir.join name) = some (dir.loc name) ∧
      d.tree.fileAt (dir.loc name) ≠ none ∧ d.tree.isDirectory dir.names = true := by
  obtain ⟨-, skill, hskill⟩ := h
  obtain ⟨loc, hloc, hfile⟩ := validateSkillFile_file hskill
  obtain ⟨hname, rfl, hdir⟩ := locate_join_file hloc hfile
  exact ⟨hname, hloc, hfile, hdir⟩

theorem installSkill_others (h : installSkill reader dir source destName d = (result, d'))
    {faults : List (Option (Fault C))}
    (hsafe : (∃ skill, validateSkillFile reader d source = .ok skill) → ∀ fileName,
      normalizeSkillFilename source destName = .ok fileName →
      SafeInstall reader dir d faults source fileName)
    (hinstalled : Installed reader dir d name)
    (hother : normalizeSkillFilename source destName ≠ .ok name) :
    skillFile reader d' (dir.join name) = skillFile reader d (dir.join name) := by
  obtain ⟨d₁, locs, hgrown, hchanged, hcwd, hlocs⟩ := installSkill_changes h
  obtain ⟨hname, hloc, hfile, hdir⟩ := hinstalled.file
  rw [hgrown.there hdir] at hchanged
  have hfree : ∀ l ∈ locs, l ≠ dir.loc name ∧ ¬ LooksAt d (dir.join name) l := by
    intro l hl
    obtain ⟨⟨skill, hvalid⟩, fileName, hnormal, hwhich⟩ := hlocs l hl
    have hsafe := hsafe ⟨skill, hvalid⟩ fileName hnormal
    have hne : name ≠ fileName := by
      rintro rfl
      exact hother hnormal
    obtain ⟨hlooks, hsidecar⟩ := hsafe.others name hinstalled hne
    rcases hwhich with rfl | ⟨rfl, d₂, hchanged₂, hcwd₂, hfound⟩
    · refine ⟨?_, hlooks⟩
      intro heq
      simp [SkillsDir.loc] at heq
      exact hne heq.symm
    · rw [hgrown.there hdir] at hchanged₂
      obtain ⟨loc, hsource, hsourceFile⟩ := validateSkillFile_file hvalid
      have hsame := (findManifestSidecar_frame hcwd₂ hchanged₂ hsource hsourceFile
        (by simpa using hsafe.apart.2)).1
      rw [hsame] at hfound
      obtain ⟨hlib, hlooks⟩ := hsidecar hfound
      refine ⟨?_, hlooks⟩
      intro heq
      simp [SkillsDir.loc] at heq
      exact hlib heq
  exact skillFile_frame hcwd hchanged hloc hfile (fun hmem => (hfree _ hmem).1 rfl)
    fun l hl => (hfree l hl).2

end GenieClaw.Skills
