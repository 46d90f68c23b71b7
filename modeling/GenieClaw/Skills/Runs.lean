import GenieClaw.Skills.Installed

/-!
# Runs of skill commands

Whether a command is lawful depends on what it finds on the disk. An install may have the
sidecars of two libraries share a name, or leave one of an earlier install, and a removal
takes what a path leads to.

* `installSkill_restored`: an install that replaces a skill does not fail once it has written.
* `safe_runs_lawful` (the commands are `Safe`): a run of them is lawful.
-/

namespace GenieClaw.Skills

open Library Library.Text GenieClaw.Parser List Option

variable {C : Type} {reader : SkillReader C} {dir : SkillsDir} {d d₁ d₂ d' : Disk C}
  {source : Path} {destName : Option String} {name fileName : String} {loc dest : Location}

/-! ## Successful copies -/

theorem copyFile_join_ok {empty c : C} (hname : IsName name)
    (h : Disk.copyFile empty source (dir.join name) d = (.ok c, d')) :
    ∃ content, d.read source = some content ∧
      d'.tree.fileAt (dir.loc name) =
        some (if d.locate source = some (dir.loc name) then empty else content) ∧
      d.faults.head?.join = none ∧ d'.faults = d.faults.tail ∧
      d'.locate (dir.join name) = some (dir.loc name) := by
  rcases Disk.copyFile_spec h with ⟨e, herror, -⟩ |
    ⟨content, loc, hread, hloc, hcwd, hfaults, hchanged, hlanded, -⟩
  · cases herror
  · obtain ⟨rfl, -⟩ := locate_join hname hloc
    obtain ⟨hfault, hlanded⟩ := hlanded c rfl
    refine ⟨content, hread, hlanded, hfault, hfaults, ?_⟩
    rw [Disk.locate, hcwd]
    exact hchanged.directories.resolve hloc

theorem copySkillManifestSidecar_ok (hname : IsName name)
    (h : copySkillManifestSidecar reader source (dir.join name) d = (.ok (), d')) :
    findManifestSidecar d source = none ∧ d' = d ∨
      ∃ s content, findManifestSidecar d source = some s ∧ d.read s = some content ∧
        d'.read (dir.join (renameExtension "skill.json" name)) =
          some (if d.locate s = some (dir.loc (renameExtension "skill.json" name))
            then reader.empty else content) := by
  unfold copySkillManifestSidecar at h
  split at h
  · rename_i hnone
    cases h
    exact .inl ⟨hnone, rfl⟩
  · rename_i s hs
    right
    rw [join_withExtension hname, Program.map_apply] at h
    rcases hcopy : Disk.copyFile reader.empty s (dir.join (renameExtension "skill.json" name)) d
      with ⟨e | c, after⟩
    · rw [hcopy] at h
      cases h
    · rw [hcopy] at h
      cases h
      obtain ⟨content, hread, hlanded, -, -, hloc⟩ :=
        copyFile_join_ok (FileTree.isName_renameExtension (by decide) name) hcopy
      refine ⟨s, content, hs, hread, ?_⟩
      rw [Disk.read, hloc]
      exact hlanded

/-! ## The manifest that is delivered -/

/-- After the library has landed, the sidecar that is found for the source is the one it had
before. -/
theorem findManifestSidecar_landed (hcwd : d'.cwd = d.cwd)
    (hkeeps : FileTree.KeepsDirectories d.tree d'.tree)
    (hthere : ∀ l, d.tree.node l ≠ none → d'.tree.node l ≠ none)
    (hfiles : ∀ l, l ≠ dest → d'.tree.fileAt l = d.tree.fileAt l)
    (hloc : d.locate source = some loc) (hfile : d.tree.fileAt loc ≠ none)
    (hfree : ¬ LooksAt d source dest) :
    (findManifestSidecar d' source = none → findManifestSidecar d source = none) ∧
      ∀ s content, findManifestSidecar d' source = some s → d'.read s = some content →
        findManifestSidecar d source = some s ∧ d.read s = some content ∧
          d'.locate s = d.locate s := by
  have hsame : ∀ s ∈ manifestSidecarCandidates source, ∃ l, d.locate s = some l ∧
      d'.locate s = some l := by
    intro s hs
    obtain ⟨extension, -, hext, rfl⟩ := mem_candidates hs
    obtain ⟨last, parent, -, -, hsiblings⟩ := locate_candidate hcwd hkeeps hloc hfile
    exact ⟨_, hsiblings extension hext⟩
  have hexists : ∀ s ∈ manifestSidecarCandidates source, d.pathExists s = true →
      d'.pathExists s = true := by
    intro s hs hbefore
    obtain ⟨l, hl, hl'⟩ := hsame s hs
    rw [Disk.pathExists, hl, bind_some, isSome_iff_ne_none] at hbefore
    rw [Disk.pathExists, hl', bind_some, isSome_iff_ne_none]
    exact hthere l hbefore
  constructor
  · intro hnone
    rw [findManifestSidecar, find?_eq_none] at hnone ⊢
    exact fun s hs hbefore => hnone s hs (hexists s hs hbefore)
  · intro s content hs hread
    have hmem : s ∈ manifestSidecarCandidates source := mem_of_find?_eq_some hs
    obtain ⟨l, hl, hl'⟩ := hsame s hmem
    have hne : l ≠ dest := by
      rintro rfl
      have hlooked := lookedAt_mono hexists (mem_lookedAt_of_find? hs)
      exact hfree ⟨s, hlooked, hl⟩
    have hbefore : d.read s = some content := by
      rw [Disk.read, hl', bind_some, hfiles l hne] at hread
      rw [Disk.read, hl, bind_some, hread]
    exact ⟨find?_of_imp hexists hs (read_exists hbefore), hbefore, hl'.trans hl.symm⟩

theorem readManifestSource_content :
    (readManifestSource reader d source).content = (findManifestSidecar d source).map fun s =>
        match d.read s with
        | none => .error ()
        | some content => (reader.parseManifest content).mapError fun _ => () := by
  unfold readManifestSource
  cases findManifestSidecar d source with
  | none => rfl
  | some s =>
    dsimp only [map_some]
    cases d.read s with
    | none => rfl
    | some content =>
      dsimp only
      cases reader.parseManifest content <;> rfl

theorem findManifestSidecar_join (hname : IsName fileName) {content : C}
    (h : d.read (dir.join (renameExtension "skill.json" fileName)) = some content) :
    findManifestSidecar d (dir.join fileName) =
      some (dir.join (renameExtension "skill.json" fileName)) := by
  have hfirst : manifestSidecarCandidates (dir.join fileName) =
      dir.join (renameExtension "skill.json" fileName) ::
        ["manifest.json", "json"].map fun extension =>
          (dir.join fileName).withExtension extension := by
    rw [← join_withExtension hname]
    rfl
  rw [findManifestSidecar, hfirst, find?_cons, read_exists h]

theorem Grown.there_of_file (h : Grown dir d d') (hnode : d.tree.node loc ≠ none) :
    d'.tree.node loc ≠ none := by
  cases hloc : d.tree.node loc with
  | none => exact absurd hloc hnode
  | some node =>
    cases node with
    | directory =>
      rw [h.directories loc hloc]
      exact some_ne_none _
    | file content =>
      have hfile := h.files loc
      rw [FileTree.fileAt_eq_some.mpr hloc] at hfile
      rw [FileTree.fileAt_eq_some.mp hfile]
      exact some_ne_none _

variable {faults : List (Option (Fault C))}

theorem installSkill_delivered {done : LoadedSkill × C}
    (h : installSkill reader dir source destName d = (.ok done, d'))
    (hnormal : normalizeSkillFilename source destName = .ok fileName)
    (hsafe : (∃ skill, validateSkillFile reader d source = .ok skill) →
      SafeInstall reader dir d faults source fileName) :
    (readManifestSource reader d' (dir.join fileName)).content =
      (readManifestSource reader d source).content := by
  rcases installSkill_run h with ⟨e, herror, -⟩ | ⟨skill, d₁, hvalid, created, hcreate, hrest⟩
  · cases herror
  rcases hrest with ⟨e, herror, -⟩ | ⟨other, -, hnormal', copied, d₂, hcopy, hrest⟩
  · cases herror
  rw [hnormal] at hnormal'
  cases hnormal'
  rcases hrest with ⟨e, -, herror, -⟩ | ⟨content, rfl, sidecar, hsidecar, hrest⟩
  · cases herror
  rcases hrest with ⟨e, -, herror⟩ | ⟨rfl, -⟩
  · cases herror
  have hname := isName_normalizeSkillFilename hnormal
  have hgrown := Grown.of_createDirAll hcreate
  obtain ⟨hcwd₂, hchanged₂⟩ := copyFile_join hname hcopy
  obtain ⟨original, -, hlanded, -⟩ := copyFile_join_ok hname hcopy
  obtain ⟨loc, hloc, hfile⟩ := validateSkillFile_file hvalid
  have hsafe := hsafe ⟨skill, hvalid⟩
  -- The library has landed, and the sidecar of the source is still what it was.
  have hthere : ∀ l, d.tree.node l ≠ none → d₂.tree.node l ≠ none := by
    intro l hl
    by_cases hdest : l = dir.loc fileName
    · rw [hdest, FileTree.fileAt_eq_some.mp hlanded]
      exact some_ne_none _
    · rw [hchanged₂.nodes l (by simpa using hdest)]
      exact hgrown.there_of_file hl
  have hfiles : ∀ l, l ≠ dir.loc fileName → d₂.tree.fileAt l = d.tree.fileAt l := by
    intro l hl
    rw [hchanged₂.fileAt (by simpa using hl), hgrown.files]
  obtain ⟨hbare, hfound⟩ := findManifestSidecar_landed (hcwd₂.trans hgrown.cwd)
    (hgrown.directories.trans hchanged₂.directories) hthere hfiles hloc hfile hsafe.apart.2
  rw [readManifestSource_content, readManifestSource_content]
  rcases copySkillManifestSidecar_ok hname hsidecar with ⟨hnone, rfl⟩ |
    ⟨s, manifest, hs, hread, hcopied⟩
  · have hsource := hbare hnone
    have hdest : findManifestSidecar d' (dir.join fileName) = none := by
      rw [findManifestSidecar, find?_eq_none]
      intro s hs
      obtain ⟨extension, hext, hlong, rfl⟩ := mem_candidates hs
      obtain ⟨hne, hfree⟩ := hsafe.bare hsource extension hext
      rw [join_withExtension hname, Bool.not_eq_true]
      cases hloc' : d'.locate (dir.join (renameExtension extension fileName)) with
      | none =>
        rw [Disk.pathExists, hloc']
        rfl
      | some l =>
        obtain ⟨rfl, -⟩ := locate_join (FileTree.isName_renameExtension hlong fileName) hloc'
        have hnode : d'.tree.node (dir.loc (renameExtension extension fileName)) = none := by
          have hapart : dir.loc (renameExtension extension fileName) ∉ [dir.loc fileName] := by
            simpa [SkillsDir.loc] using hne
          have hdeeper : ¬ dir.loc (renameExtension extension fileName) <+: dir.names := by
            intro hprefix
            have hlength := hprefix.length_le
            rw [SkillsDir.loc, length_append, length_singleton] at hlength
            omega
          rw [hchanged₂.nodes _ hapart, hgrown.nodes _ hdeeper, hfree]
        rw [Disk.pathExists, hloc', bind_some, hnode]
        rfl
    rw [hdest, hsource]
    rfl
  · obtain ⟨hsource, hbefore, hsame⟩ := hfound s manifest hs hread
    rw [if_neg (hsame ▸ hsafe.sidecarApart s hsource)] at hcopied
    rw [findManifestSidecar_join hname hcopied, hsource, map_some, map_some,
      hcopied, hbefore]

/-! ## Installs that cannot fail halfway -/

theorem locate_join_beside {other : String} (hname : IsName name) (hother : IsName other)
    (h : d.locate (dir.join name) = some loc) :
    d.locate (dir.join other) = some (dir.loc other) := by
  have hwalk : d.tree.walk [] (dir.names ++ [name]) = some loc := h
  rw [FileTree.walk_concat] at hwalk
  obtain ⟨above, hdir, -⟩ := Option.bind_eq_some_iff.mp hwalk
  have habove : above = dir.names := by
    have hplain := FileTree.walk_plain dir.plain hdir
    rwa [nil_append] at hplain
  obtain ⟨-, hthere⟩ := locate_join hname h
  show d.tree.walk [] (dir.names ++ [other]) = some (dir.names ++ [other])
  rw [FileTree.walk_concat, hdir, bind_some, habove]
  exact FileTree.enter_name hother hthere

theorem copyFile_join_steady {empty : C} {result : Except String C} (hname : IsName name)
    (hloc : d.locate (dir.join name) = some (dir.loc name)) (hread : d.read source ≠ none)
    (hfault : d.faults.head?.join = none) (hfree : d.tree.isDirectory (dir.loc name) = false)
    (h : Disk.copyFile empty source (dir.join name) d = (result, d')) : ∃ c, result = .ok c := by
  rcases Disk.copyFile_spec h with ⟨e, -, -, hnone | hnone⟩ |
    ⟨content, loc, -, hloc', -, -, -, -, -, hok⟩
  · exact absurd hnone hread
  · rw [hloc] at hnone
    cases hnone
  · rw [hloc] at hloc'
    cases hloc'
    refine hok hfault ?_ hfree
    rw [SkillsDir.loc, dropLast_concat]
    exact (locate_join hname hloc).2

variable {result : Except String Unit}

theorem copySkillManifestSidecar_steady (hname : IsName name)
    (hloc : d.locate (dir.join name) = some (dir.loc name))
    (hsteady : ∀ s, findManifestSidecar d source = some s → d.read s ≠ none ∧
      d.faults.head?.join = none ∧
      d.tree.isDirectory (dir.loc (renameExtension "skill.json" name)) = false)
    (h : copySkillManifestSidecar reader source (dir.join name) d = (result, d')) :
    result = .ok () := by
  unfold copySkillManifestSidecar at h
  split at h
  · cases h
    rfl
  · rename_i s hs
    obtain ⟨hread, hfault, hfree⟩ := hsteady s hs
    rw [join_withExtension hname, Program.map_apply] at h
    rcases hcopy : Disk.copyFile reader.empty s (dir.join (renameExtension "skill.json" name)) d
      with ⟨copied, after⟩
    have hsidecar : IsName (renameExtension "skill.json" name) :=
      FileTree.isName_renameExtension (by decide) name
    obtain ⟨c, rfl⟩ := copyFile_join_steady hsidecar (locate_join_beside hname hsidecar hloc)
      hread hfault hfree hcopy
    rw [hcopy] at h
    cases h
    rfl

theorem skillFile_of_same_tree (hcwd : d'.cwd = d.cwd) (htree : d'.tree = d.tree) (p : Path) :
    skillFile reader d' p = skillFile reader d p := by
  obtain ⟨tree, cwd, faults⟩ := d
  obtain ⟨tree', cwd', faults'⟩ := d'
  cases hcwd
  cases htree
  rfl

/-- An install that replaces a skill steadily does not fail once it has written. -/
theorem installSkill_restored {e : String}
    (h : installSkill reader dir source destName d = (.error e, d'))
    (hnormal : normalizeSkillFilename source destName = .ok fileName)
    (hsafe : (∃ skill, validateSkillFile reader d source = .ok skill) →
      SafeInstall reader dir d d.faults source fileName)
    (hloads : ∃ skill, validateSkillFile reader d (dir.join fileName) = .ok skill) :
    skillFile reader d' (dir.join fileName) = skillFile reader d (dir.join fileName) := by
  obtain ⟨skill, hskill⟩ := hloads
  obtain ⟨loc, hdest, hdestFile⟩ := validateSkillFile_file hskill
  obtain ⟨hname, rfl, hdir⟩ := locate_join_file hdest hdestFile
  rcases installSkill_run h with ⟨e', -, rfl⟩ | ⟨_, d₁, hvalid, created, hcreate, hrest⟩
  · rfl
  have hsafe := hsafe ⟨_, hvalid⟩
  obtain ⟨huntorn, hsteady⟩ := hsafe.steady ⟨skill, hskill⟩
  have hgrown := Grown.of_createDirAll hcreate
  have htree := hgrown.there hdir
  obtain ⟨-, hfaults₁, -, -⟩ := Disk.createDirAll_spec hcreate
  have hlocate : ∀ p, d₁.locate p = d.locate p := by
    intro p
    rw [Disk.locate, Disk.locate, htree, hgrown.cwd]
  have hread : ∀ p, d₁.read p = d.read p := by
    intro p
    rw [Disk.read, Disk.read, hlocate, htree]
  obtain ⟨content, vtable, hcontent, hopen, htable⟩ := validateSkillFile_ok_iff.mp ⟨_, hvalid⟩
  rcases hrest with ⟨e', -, rfl, -⟩ | ⟨other, -, hnormal', copied, d₂, hcopy, hrest⟩
  · exact skillFile_of_same_tree hgrown.cwd htree _
  rw [hnormal] at hnormal'
  cases hnormal'
  obtain ⟨hcwd₂, hchanged₂⟩ := copyFile_join hname hcopy
  have hcwd : d₂.cwd = d.cwd := hcwd₂.trans hgrown.cwd
  have hfault₁ : d₁.faults.head?.join = d.faults[1]?.join := by
    rw [hfaults₁, head?_tail]
  rcases hrest with ⟨e', rfl, -, rfl⟩ | ⟨c, rfl, sidecar, hsidecar, hrest⟩
  · -- The library was not written.
    rcases Disk.copyFile_spec hcopy with ⟨_, -, rfl, -⟩ | ⟨_, _, -, -, -, -, -, -, hfailed, -⟩
    · exact skillFile_of_same_tree hgrown.cwd htree _
    · rcases hfailed e' rfl with ⟨left, htorn⟩ | hsame
      · exact absurd (hfault₁.symm.trans htorn) (huntorn left)
      · exact skillFile_of_same_tree hcwd (hsame.trans htree) _
  -- The library that landed has the content of the source, and the sidecar is another file.
  obtain ⟨original, horiginal, hlanded, hfault, hfaults₂, hdest₂⟩ := copyFile_join_ok hname hcopy
  rw [hread, hcontent] at horiginal
  cases horiginal
  rw [hlocate, if_neg hsafe.apart.1] at hlanded
  have hother : renameExtension "skill.json" fileName ≠ fileName :=
    FileTree.renameExtension_ne (by decide) fileName
  rw [htree] at hchanged₂
  obtain ⟨sourceLoc, hsource, hsourceFile⟩ := validateSkillFile_file hvalid
  obtain ⟨hfind, hreadSidecar⟩ := findManifestSidecar_frame hcwd hchanged₂ hsource hsourceFile
    (by simpa using hsafe.apart.2)
  have hsteady₂ : ∀ s, findManifestSidecar d₂ source = some s → d₂.read s ≠ none ∧
      d₂.faults.head?.join = none ∧
      d₂.tree.isDirectory (dir.loc (renameExtension "skill.json" fileName)) = false := by
    intro s hs
    rw [hfind] at hs
    obtain ⟨hsread, hsfault, hfree⟩ := hsteady (hfault₁.symm.trans hfault) s hs
    refine ⟨(hreadSidecar s hs).symm ▸ hsread, ?_, ?_⟩
    · rw [hfaults₂, hfaults₁, head?_tail, getElem?_tail]
      exact hsfault
    · rw [FileTree.isDirectory, hchanged₂.nodes _ (by simpa [SkillsDir.loc] using hother)]
      exact hfree
  have hdone := copySkillManifestSidecar_steady hname hdest₂ hsteady₂ hsidecar
  rcases hrest with ⟨e', herror, -⟩ | ⟨-, hresult⟩
  · rw [hdone] at herror
    cases herror
  · have hfinal : d'.read (dir.join fileName) = some content := by
      obtain ⟨hcwd', ⟨-, rfl, -⟩ | ⟨-, hchanged'⟩⟩ :=
        copySkillManifestSidecar_changes hname hsidecar
      · rw [Disk.read, hdest₂]
        exact hlanded
      · have hdest' : d'.locate (dir.join fileName) = some (dir.loc fileName) := by
          rw [Disk.locate, hcwd']
          exact hchanged'.directories.resolve hdest₂
        rw [Disk.read, hdest', bind_some, hchanged'.fileAt]
        · exact hlanded
        · simpa [SkillsDir.loc] using hother.symm
    obtain ⟨installed, hinstalled⟩ :=
      validateSkillFile_ok_iff.mpr ⟨content, vtable, hfinal, hopen, htable⟩
    rw [hinstalled] at hresult
    cases hresult

/-! ## What a removal changes -/

/-- Some nodes at `locs` are gone, and every directory is still there. -/
structure Removed (locs : List Location) (t t' : FileTree C) : Prop where
  nodes : ∀ other, t'.node other = t.node other ∨ other ∈ locs ∧ t'.node other = none
  directories : FileTree.KeepsDirectories t t'

namespace Removed

variable {t t' t'' : FileTree C} {locs locs' : List Location}

theorem refl (t : FileTree C) : Removed [] t t := ⟨fun _ => .inl rfl, .refl t⟩

theorem trans (h : Removed locs t t') (h' : Removed locs' t' t'') :
    Removed (locs ++ locs') t t'' := by
  refine ⟨fun other => ?_, h.directories.trans h'.directories⟩
  rcases h'.nodes other with hsame | ⟨hmem, hgone⟩
  · rw [hsame]
    rcases h.nodes other with hsame | ⟨hmem, hgone⟩
    · exact .inl hsame
    · exact .inr ⟨mem_append_left _ hmem, hgone⟩
  · exact .inr ⟨mem_append_right _ hmem, hgone⟩

theorem changed (h : Removed locs t t') : FileTree.Changed locs t t' := by
  refine ⟨fun other hother => ?_, h.directories⟩
  rcases h.nodes other with hsame | ⟨hmem, -⟩
  · exact hsame
  · exact absurd hmem hother

theorem there (h : Removed locs t t') (hnode : t'.node loc ≠ none) : t.node loc ≠ none := by
  rcases h.nodes loc with hsame | ⟨-, hgone⟩
  · rwa [hsame] at hnode
  · exact absurd hgone hnode

end Removed

theorem removeFile_removed {p : Path} (h : Disk.removeFile p d = (result, d')) :
    d'.cwd = d.cwd ∧ ∃ locs, Removed locs d.tree d'.tree ∧
      (∀ l ∈ locs, d.locate p = some l ∧ d.tree.fileAt l ≠ none) ∧
      (result = .ok () → locs ≠ []) := by
  obtain ⟨hcwd, ⟨e, rfl, htree⟩ | ⟨loc, rfl, hloc, hremove⟩⟩ := Disk.removeFile_spec h
  · refine ⟨hcwd, [], ?_, by simp, fun hok => (nomatch hok)⟩
    rw [htree]
    exact .refl _
  · have hfile : d.tree.fileAt loc ≠ none := by
      unfold FileTree.remove at hremove
      split at hremove
      · rename_i hsome
        exact Option.isSome_iff_ne_none.mp hsome
      · cases hremove
    refine ⟨hcwd, [loc], ⟨fun other => ?_, (FileTree.Changed.remove hremove).directories⟩, ?_,
      by simp⟩
    · rw [FileTree.node_remove hremove]
      split
      · rename_i hother
        exact .inr ⟨List.mem_singleton.mpr hother, rfl⟩
      · exact .inl rfl
    · intro l hl
      rw [mem_singleton] at hl
      exact hl ▸ ⟨hloc, hfile⟩

theorem removeSidecar_removed {p : Path} (h : removeSidecar p d = (result, d')) :
    d'.cwd = d.cwd ∧ ∃ locs, Removed locs d.tree d'.tree ∧
      ∀ l ∈ locs, d.locate p = some l ∧ d.tree.node l ≠ none := by
  unfold removeSidecar at h
  split at h
  · obtain ⟨hcwd, locs, hremoved, hlocs, -⟩ := removeFile_removed h
    refine ⟨hcwd, locs, hremoved, fun l hl => ⟨(hlocs l hl).1, fun hnone => ?_⟩⟩
    have hfile := (hlocs l hl).2
    rw [FileTree.fileAt, hnone] at hfile
    exact hfile rfl
  · cases h
    exact ⟨rfl, [], .refl _, by simp⟩

theorem forM_removeSidecar_removed {ss : List Path}
    (hfixed : ∀ s ∈ ss, ∀ d₁ : Disk C, d₁.cwd = d.cwd → FileTree.KeepsDirectories d.tree d₁.tree →
      d₁.locate s = d.locate s)
    (h : ss.forM removeSidecar d = (result, d')) :
    d'.cwd = d.cwd ∧ ∃ locs, Removed locs d.tree d'.tree ∧
      ∀ l ∈ locs, ∃ s ∈ ss, d.locate s = some l ∧ d.tree.node l ≠ none := by
  induction ss generalizing d with
  | nil =>
    cases h
    exact ⟨rfl, [], .refl _, by simp⟩
  | cons s rest ih =>
    rw [Program.forM_cons] at h
    rcases hfirst : removeSidecar s d with ⟨e | u, d₁⟩
    · rw [Program.bind_apply_error hfirst] at h
      cases h
      obtain ⟨hcwd, locs, hremoved, hlocs⟩ := removeSidecar_removed hfirst
      exact ⟨hcwd, locs, hremoved, fun l hl => ⟨s, mem_cons_self, hlocs l hl⟩⟩
    · rw [Program.bind_apply_ok hfirst] at h
      obtain ⟨hcwd, locs, hremoved, hlocs⟩ := removeSidecar_removed hfirst
      have hsame : ∀ s' ∈ rest, d₁.locate s' = d.locate s' := fun s' hs' =>
        hfixed s' (mem_cons_of_mem s hs') d₁ hcwd hremoved.directories
      have hfixed₁ : ∀ s' ∈ rest, ∀ d₂ : Disk C, d₂.cwd = d₁.cwd →
          FileTree.KeepsDirectories d₁.tree d₂.tree → d₂.locate s' = d₁.locate s' := by
        intro s' hs' d₂ hcwd₂ hkeeps
        rw [hsame s' hs']
        exact hfixed s' (mem_cons_of_mem s hs') d₂ (hcwd₂.trans hcwd)
          (hremoved.directories.trans hkeeps)
      obtain ⟨hcwd', locs', hremoved', hlocs'⟩ := ih hfixed₁ h
      refine ⟨hcwd'.trans hcwd, locs ++ locs', hremoved.trans hremoved', fun l hl => ?_⟩
      rcases List.mem_append.mp hl with hl | hl
      · exact ⟨s, mem_cons_self, hlocs l hl⟩
      · obtain ⟨s', hs', hl', hnode⟩ := hlocs' l hl
        rw [hsame s' hs'] at hl'
        exact ⟨s', mem_cons_of_mem s hs', hl', hremoved.there hnode⟩

theorem removeSkillAndSidecars_changes {p : Path} (h : removeSkillAndSidecars p d = (result, d')) :
    d'.cwd = d.cwd ∧ (FileTree.Changed [] d.tree d'.tree ∨
      ∃ loc, d.locate p = some loc ∧ d.tree.fileAt loc ≠ none ∧
        ∃ locs, FileTree.Changed (loc :: locs) d.tree d'.tree ∧
          ∀ l ∈ locs, ∃ s ∈ manifestSidecarCandidates p, d.locate s = some l ∧
            d.pathExists s = true) := by
  unfold removeSkillAndSidecars at h
  rcases hfirst : Disk.removeFile p d with ⟨e | u, d₁⟩
  · rw [Program.bind_apply_error hfirst] at h
    cases h
    obtain ⟨hcwd, ⟨e', -, htree⟩ | ⟨loc, herror, -⟩⟩ := Disk.removeFile_spec hfirst
    · refine ⟨hcwd, .inl ?_⟩
      rw [htree]
      exact .refl _ _
    · cases herror
  · rw [Program.bind_apply_ok hfirst] at h
    obtain ⟨hcwd, locs, hremoved, hlocs, hsome⟩ := removeFile_removed hfirst
    obtain ⟨loc, hmem⟩ := exists_mem_of_ne_nil _ (hsome rfl)
    obtain ⟨hloc, hfile⟩ := hlocs loc hmem
    have honly : ∀ l ∈ locs, l = loc := by
      intro l hl
      have hl := (hlocs l hl).1
      rw [hloc] at hl
      exact (Option.some_inj.mp hl).symm
    have hsiblings : ∀ s ∈ manifestSidecarCandidates p, ∀ d₂ : Disk C, d₂.cwd = d.cwd →
        FileTree.KeepsDirectories d.tree d₂.tree → d₂.locate s = d.locate s := by
      intro s hs d₂ hcwd₂ hkeeps
      obtain ⟨extension, -, hext, rfl⟩ := mem_candidates hs
      obtain ⟨last, parent, -, -, hlocate⟩ := locate_candidate hcwd₂ hkeeps hloc hfile
      obtain ⟨hbefore, hafter⟩ := hlocate extension hext
      exact hafter.trans hbefore.symm
    have hfixed : ∀ s ∈ manifestSidecarCandidates p, ∀ d₂ : Disk C, d₂.cwd = d₁.cwd →
        FileTree.KeepsDirectories d₁.tree d₂.tree → d₂.locate s = d₁.locate s := by
      intro s hs d₂ hcwd₂ hkeeps
      rw [hsiblings s hs d₁ hcwd hremoved.directories]
      exact hsiblings s hs d₂ (hcwd₂.trans hcwd) (hremoved.directories.trans hkeeps)
    obtain ⟨hcwd', locs', hremoved', hlocs'⟩ := forM_removeSidecar_removed hfixed h
    refine ⟨hcwd'.trans hcwd, .inr ⟨loc, hloc, hfile, locs', ?_, fun l hl => ?_⟩⟩
    · refine (hremoved.trans hremoved').changed.mono fun l hl => ?_
      rcases List.mem_append.mp hl with hl | hl
      · exact honly l hl ▸ mem_cons_self
      · exact mem_cons_of_mem _ hl
    · obtain ⟨s, hs, hl', hnode⟩ := hlocs' l hl
      rw [hsiblings s hs d₁ hcwd hremoved.directories] at hl'
      refine ⟨s, hs, hl', ?_⟩
      rw [Disk.pathExists, hl', bind_some, isSome_iff_ne_none]
      exact hremoved.there hnode

variable {listing : Listing} {target : String}

theorem removeSkill_changes {result : Except String Path}
    (h : removeSkill reader dir listing target d = (result, d')) :
    d'.cwd = d.cwd ∧ (FileTree.Changed [] d.tree d'.tree ∨
      ∃ path loc, removalPath reader dir listing target d = some path ∧
        d.locate path = some loc ∧ d.tree.fileAt loc ≠ none ∧
          ∃ locs, FileTree.Changed (loc :: locs) d.tree d'.tree ∧
            ∀ l ∈ locs, ∃ s ∈ manifestSidecarCandidates path, d.locate s = some l ∧
              d.pathExists s = true) := by
  unfold removeSkill at h
  split at h
  · rename_i path hpath
    rw [Program.map_apply] at h
    rcases hrun : removeSkillAndSidecars path d with ⟨done, after⟩
    rw [hrun] at h
    cases h
    obtain ⟨hcwd, hnothing | ⟨loc, hloc, hfile, hrest⟩⟩ := removeSkillAndSidecars_changes hrun
    · exact ⟨hcwd, .inl hnothing⟩
    · exact ⟨hcwd, .inr ⟨path, loc, hpath, hloc, hfile, hrest⟩⟩
  · cases h
    exact ⟨rfl, .inl (.refl _ _)⟩

theorem SkillsDir.Below.sibling {parent : Location} (h : dir.Below (parent ++ [name]))
    (other : String) : dir.Below (parent ++ [other]) := by
  obtain ⟨first, rest, heq⟩ := h
  rcases eq_nil_or_concat rest with rfl | ⟨front, last, rfl⟩
  · obtain ⟨rfl, -⟩ := append_inj' heq rfl
    exact ⟨other, [], rfl⟩
  · rw [concat_eq_append, ← cons_append, ← append_assoc] at heq
    obtain ⟨rfl, -⟩ := append_inj' heq rfl
    exact ⟨first, front ++ [other], by simp⟩

theorem removeSkill_outside {result : Except String Path}
    (h : removeSkill reader dir listing target d = (result, d'))
    (hsafe : ∀ path, removalPath reader dir listing target d = some path →
      ∀ loc, d.locate path = some loc → d.tree.fileAt loc ≠ none → SafeRemove reader dir d path loc)
    (hloc : ¬ dir.Below loc) : d'.tree.fileAt loc = d.tree.fileAt loc := by
  obtain ⟨-, hnothing | ⟨path, lib, hpath, hlib, hfile, locs, hchanged, hlocs⟩⟩ :=
    removeSkill_changes h
  · exact hnothing.fileAt (not_mem_nil)
  · have hinside := (hsafe path hpath lib hlib hfile).inside
    apply hchanged.fileAt
    intro hmem
    rcases List.mem_cons.mp hmem with rfl | hmem
    · exact hloc hinside
    · obtain ⟨s, hs, hl, -⟩ := hlocs loc hmem
      obtain ⟨extension, -, hext, rfl⟩ := mem_candidates hs
      obtain ⟨last, parent, rfl, -, hlocate⟩ := locate_candidate rfl (.refl _) hlib hfile
      rw [(hlocate extension hext).1] at hl
      cases hl
      exact hloc (hinside.sibling _)

theorem removeSkill_others {result : Except String Path}
    (h : removeSkill reader dir listing target d = (result, d'))
    (hsafe : ∀ path, removalPath reader dir listing target d = some path →
      ∀ loc, d.locate path = some loc → d.tree.fileAt loc ≠ none → SafeRemove reader dir d path loc)
    (hinstalled : Installed reader dir d name)
    (hother : ¬ Targets reader dir d (.remove listing target) name) :
    skillFile reader d' (dir.join name) = skillFile reader d (dir.join name) := by
  obtain ⟨-, hdest, hdestFile, -⟩ := hinstalled.file
  obtain ⟨hcwd, hnothing | ⟨path, lib, hpath, hlib, hfile, locs, hchanged, hlocs⟩⟩ :=
    removeSkill_changes h
  · exact skillFile_frame hcwd hnothing hdest hdestFile (by simp) (by simp)
  · have hne : dir.loc name ≠ lib := by
      rintro rfl
      exact hother ⟨path, hpath, hlib⟩
    obtain ⟨hlooks, hsidecars⟩ := (hsafe path hpath lib hlib hfile).others name hinstalled hne
    refine skillFile_frame hcwd hchanged hdest hdestFile ?_ ?_
    · intro hmem
      rcases List.mem_cons.mp hmem with hmem | hmem
      · exact hne hmem
      · obtain ⟨s, hs, hl, hthere⟩ := hlocs _ hmem
        exact (hsidecars s hs hthere _ hl).1 rfl
    · intro l hmem
      rcases List.mem_cons.mp hmem with rfl | hmem
      · exact hlooks
      · obtain ⟨s, hs, hl, hthere⟩ := hlocs _ hmem
        exact (hsidecars s hs hthere _ hl).2

/-! ## Runs -/

theorem SafeInstall.withFaults (h : SafeInstall reader dir d faults source fileName) :
    SafeInstall reader dir { d with faults } faults source fileName :=
  ⟨h.apart, h.sidecarApart, h.bare, h.others, h.steady⟩

theorem SafeRemove.withFaults {path : Path} (h : SafeRemove reader dir d path loc) :
    SafeRemove reader dir { d with faults } path loc :=
  ⟨h.inside, h.others⟩

theorem step_lawful (d : Disk C) (call : SkillCall C) (h : Safe reader dir d call) :
    Lawful reader dir d call.command ((skillMachine reader dir).step d call).1
      ((skillMachine reader dir).step d call).2 := by
  obtain ⟨command, faults⟩ := call
  cases command with
  | install source destName =>
    show Lawful reader dir d (.install source destName)
      (((fun _ => ()) <$> installSkill reader dir source destName) { d with faults }).1
      (((fun _ => ()) <$> installSkill reader dir source destName) { d with faults }).2
    rw [Program.map_apply]
    rcases hrun : installSkill reader dir source destName { d with faults } with ⟨result, d'⟩
    have hsafe : (∃ skill, validateSkillFile reader { d with faults } source = .ok skill) →
        ∀ fileName, normalizeSkillFilename source destName = .ok fileName →
          SafeInstall reader dir { d with faults } faults source fileName :=
      fun hvalid fileName hnormal => (h hvalid fileName hnormal).withFaults
    refine ⟨fun loc hloc => ?_, fun name hinstalled hother => ?_,
      fun source' destName' fileName hcommand hnormal hok => ?_,
      fun source' destName' fileName e hcommand hnormal herror hloads => ?_⟩
    · have hsame := installSkill_outside hrun hloc
      exact hsame
    · have hsame := installSkill_others hrun hsafe hinstalled hother
      exact hsame
    · cases hcommand
      rcases result with e | done
      · cases hok
      · have hsame := installSkill_delivered hrun hnormal fun hvalid =>
          hsafe hvalid fileName hnormal
        exact hsame
    · cases hcommand
      rcases result with e' | done
      · have hsame := installSkill_restored hrun hnormal
          (fun hvalid => hsafe hvalid fileName hnormal) hloads
        exact hsame
      · cases herror
  | remove listing target =>
    show Lawful reader dir d (.remove listing target)
      (((fun _ => ()) <$> removeSkill reader dir listing target) { d with faults }).1
      (((fun _ => ()) <$> removeSkill reader dir listing target) { d with faults }).2
    rw [Program.map_apply]
    rcases hrun : removeSkill reader dir listing target { d with faults } with ⟨result, d'⟩
    have hsafe : ∀ path, removalPath reader dir listing target { d with faults } = some path →
        ∀ loc, Disk.locate { d with faults } path = some loc → d.tree.fileAt loc ≠ none →
          SafeRemove reader dir { d with faults } path loc :=
      fun path hpath loc hloc hfile => (h path hpath loc hloc hfile).withFaults
    refine ⟨fun loc hloc => ?_, fun name hinstalled hother => ?_,
      fun _ _ _ hcommand => (nomatch hcommand), fun _ _ _ _ hcommand => (nomatch hcommand)⟩
    · have hsame := removeSkill_outside hrun hsafe hloc
      exact hsame
    · have hsame := removeSkill_others hrun hsafe hinstalled hother
      exact hsame

/-- A run of safe commands is lawful, and no file outside the skills directory is another
after it. -/
theorem safe_runs_lawful (d : Disk C) (calls : List (SkillCall C))
    (hsafe : ∀ e ∈ (skillMachine reader dir).trace d calls, Safe reader dir e.before e.input) :
    (∀ e ∈ (skillMachine reader dir).trace d calls,
      Lawful reader dir e.before e.input.command e.output e.after) ∧
    ∀ loc, ¬ dir.Below loc →
      ((skillMachine reader dir).run d calls).tree.fileAt loc = d.tree.fileAt loc := by
  induction calls generalizing d with
  | nil => exact ⟨by simp, fun _ _ => rfl⟩
  | cons call rest ih =>
    rw [Machine.trace_cons, forall_mem_cons] at hsafe
    have hfirst := step_lawful d call hsafe.1
    obtain ⟨hlater, houtside⟩ := ih _ hsafe.2
    refine ⟨?_, fun loc hloc => ?_⟩
    · rw [Machine.trace_cons, forall_mem_cons]
      exact ⟨hfirst, hlater⟩
    · rw [Machine.run_cons, houtside loc hloc]
      exact hfirst.outside loc hloc

/-- A skills directory with one skill, a download with its manifest, and a private file. -/
def household : FileTree String :=
  let entries : List (Location × Node String) :=
    [(["skills"], .directory), (["skills", "weather.so"], .file "weather"),
      (["skills", "weather.skill.json"], .file "weather manifest"), (["download"], .directory),
      (["download", "lights.so"], .file "lights"),
      (["download", "lights.json"], .file "lights manifest"), (["notes"], .file "private")]
  entries.foldl (fun t e =>
    match e.2 with
    | .directory => (t.createDirectory e.1).getD t
    | .file content => (t.write e.1 content).getD t) {}

def householdSkills : SkillsDir := ⟨["skills"], by decide, by simp [IsName]⟩

def householdReader : SkillReader String where
  empty := ""
  openLibrary content :=
    if content = "" then .error "file too short"
    else .ok ⟨1, content, "A skill of the household", "1.0.0", "\x7b\x7d"⟩
  parseManifest content := .ok { name := content }
  verifies _ _ := false
  fromStr := readerOf "\x7b\x7d" (.object [])

instance (d : Disk C) (p : Path) (loc : Location) : Decidable (LooksAt d p loc) :=
  inferInstanceAs
    (Decidable (∃ s ∈ lookedAt d.pathExists (manifestSidecarCandidates p), d.locate s = some loc))

theorem safeInstall_lights :
    SafeInstall householdReader householdSkills { tree := household } []
      (Path.ofString "/download/lights.so") "lights.so" := by
  have hsidecar : findManifestSidecar ({ tree := household } : Disk String)
      (Path.ofString "/download/lights.so") = some (Path.ofString "/download/lights.json") := by
    decide
  constructor
  · decide
  · intro s hs
    rw [hsidecar] at hs
    cases hs
    decide
  · intro hnone
    rw [hsidecar] at hnone
    cases hnone
  · intro name hinstalled hother
    have hkey : householdSkills.loc name ∈ household.nodes.keys :=
      FileTree.mem_keys_of_fileAt hinstalled.file.2.2.1
    have hkeys : household.nodes.keys = [["notes"], ["download", "lights.json"],
      ["download", "lights.so"], ["download"], ["skills", "weather.skill.json"],
      ["skills", "weather.so"], ["skills"]] := by decide
    rw [hkeys] at hkey
    simp [SkillsDir.loc, householdSkills] at hkey
    rcases hkey with rfl | rfl
    · decide
    · decide
  · rintro ⟨skill, hskill⟩
    obtain ⟨loc, hloc, hfile⟩ := validateSkillFile_file hskill
    have hlib : ({ tree := household } : Disk String).locate (householdSkills.join "lights.so") =
        some ["skills", "lights.so"] := by decide
    rw [hlib] at hloc
    cases hloc
    exact absurd (by decide) hfile

/-- A download with its own manifest is installed beside another skill. -/
theorem safe_runs_lawful_lights :
    let m := skillMachine householdReader householdSkills
    let d : Disk String := { tree := household }
    let calls : List (SkillCall String) :=
      [⟨.install (Path.ofString "/download/lights.so") none, []⟩]
    (∀ e ∈ m.trace d calls,
      Lawful householdReader householdSkills e.before e.input.command e.output e.after) ∧
    ∀ loc, ¬ householdSkills.Below loc → (m.run d calls).tree.fileAt loc = d.tree.fileAt loc := by
  intro m d calls
  apply safe_runs_lawful d calls
  intro e he
  obtain rfl := List.mem_singleton.mp he
  intro hloads fileName hnormal
  have hname : normalizeSkillFilename (Path.ofString "/download/lights.so") none =
      .ok "lights.so" := by decide
  rw [hname] at hnormal
  cases hnormal
  exact safeInstall_lights

/-- A removal takes what its target leads to, also outside the skills directory. -/
theorem removal_leaves_directory :
    ¬ ∀ (reader : SkillReader String) (dir : SkillsDir) (d : Disk String)
      (calls : List (SkillCall String)), ∀ e ∈ (skillMachine reader dir).trace d calls,
        Lawful reader dir e.before e.input.command e.output e.after := by
  intro h
  have hlawful := h householdReader householdSkills { tree := household }
    [⟨.remove .listed "../notes", []⟩] _ mem_cons_self
  have houtside := hlawful.outside ["notes"] (by
    rintro ⟨name, rest, heq⟩
    simp [householdSkills] at heq)
  revert houtside
  decide +kernel

end GenieClaw.Skills
