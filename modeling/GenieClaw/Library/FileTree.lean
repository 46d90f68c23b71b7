import GenieClaw.Library.HashTable
import GenieClaw.Library.Statements
import GenieClaw.Library.Text

/-!
# Files and paths

A `FileTree` is a tree of directories and regular files, without links. The nodes are
kept by their names from the root, and the directory above a node is there.

A `Path` is what a program writes down. It is resolved one name at a time: every name but
the last must be one of a directory, and `..` goes up. The part of a path after its last
slash has a stem and an extension, which programs exchange.

A `Disk` adds the current directory and what goes wrong with the writes to come. A write
that fails may have changed nothing or may leave the file with any content.

* `writeFile_spec`, `copyFile_spec`, `removeFile_spec`, `createDirAll_spec`: what an operation
  changes, and when it fails.
* `resolve_withExtension`: siblings by extension lie beside their file.
-/

namespace GenieClaw.Library

open Text List Option

/-- The names from the root to a node. -/
abbrev Location := List String

inductive Node (C : Type) where
  | directory
  | file (content : C)
deriving DecidableEq

structure FileTree (C : Type) where
  nodes : HashTable Location (Node C) := ∅
  closed : ∀ loc name, nodes.lookup (loc ++ [name]) ≠ none →
    loc = [] ∨ nodes.lookup loc = some .directory := by simp

variable {name : String}

namespace FileTree

variable {C : Type}

def node (t : FileTree C) (loc : Location) : Option (Node C) :=
  if loc = [] then some .directory else t.nodes.lookup loc

def isDirectory (t : FileTree C) (loc : Location) : Bool :=
  match t.node loc with
  | some .directory => true
  | _ => false

def fileAt (t : FileTree C) (loc : Location) : Option C :=
  match t.node loc with
  | some (.file content) => some content
  | _ => none

/-- The names in a directory, in the order of the table. -/
def namesIn (t : FileTree C) (dir : Location) : List String :=
  t.nodes.entries.filterMap fun e => if e.1.dropLast = dir then e.1.getLast? else none

theorem isDirectory_iff {t : FileTree C} {loc : Location} :
    t.isDirectory loc = true ↔ t.node loc = some .directory := by
  unfold isDirectory
  split
  · rename_i h
    exact ⟨fun _ => h, fun _ => rfl⟩
  · rename_i h
    exact ⟨fun hfalse => (nomatch hfalse), fun hdir => absurd hdir h⟩

theorem fileAt_eq_some {t : FileTree C} {loc : Location} {content : C} :
    t.fileAt loc = some content ↔ t.node loc = some (.file content) := by
  unfold fileAt
  split
  · rename_i h
    simp [h]
  · rename_i h
    constructor
    · intro hsome
      cases hsome
    · intro hnode
      exact absurd hnode (h content)

theorem mem_keys_of_fileAt {t : FileTree C} {loc : Location} (h : t.fileAt loc ≠ none) :
    loc ∈ t.nodes.keys := by
  rw [← AList.mem_keys, ← AList.lookup_isSome]
  unfold fileAt node at h
  split_ifs at h with hroot
  · exact absurd rfl h
  · cases hlookup : t.nodes.lookup loc with
    | none =>
      rw [hlookup] at h
      exact absurd rfl h
    | some n => rfl

theorem node_parent {t : FileTree C} {loc : Location} (h : t.node (loc ++ [name]) ≠ none) :
    t.node loc = some .directory := by
  unfold node at h ⊢
  rw [if_neg (by simp)] at h
  rcases t.closed loc name h with rfl | hdir
  · rw [if_pos rfl]
  · split
    · rfl
    · exact hdir

theorem node_dropLast {t : FileTree C} {loc : Location} (h : t.node loc ≠ none) :
    t.node loc.dropLast = some .directory := by
  rcases eq_nil_or_concat loc with rfl | ⟨front, last, rfl⟩
  · rfl
  · rw [concat_eq_append] at h ⊢
    rw [dropLast_concat]
    exact node_parent h

variable (t : FileTree C)

/-- Puts a node where no directory is, below a directory. -/
def put (loc : Location) (n : Node C) (hdir : t.isDirectory loc.dropLast = true)
    (hfree : t.isDirectory loc = false) : FileTree C where
  nodes := t.nodes.insert loc n
  closed := by
    intro above name hnode
    have habove : t.node above = some .directory := by
      by_cases hloc : above ++ [name] = loc
      · rw [← hloc, dropLast_concat] at hdir
        exact isDirectory_iff.mp hdir
      · rw [AList.lookup_insert_ne hloc] at hnode
        apply node_parent
        rwa [node, if_neg (by simp)]
    rcases Decidable.em (above = []) with hroot | hroot
    · exact .inl hroot
    · right
      have hne : above ≠ loc := by
        rintro rfl
        rw [isDirectory_iff.mpr habove] at hfree
        cases hfree
      rw [AList.lookup_insert_ne hne]
      rwa [node, if_neg hroot] at habove

/-- Creates the file or gives it new content. -/
def write (loc : Location) (content : C) : Option (FileTree C) :=
  if h : t.isDirectory loc.dropLast = true ∧ t.isDirectory loc = false then
    some (t.put loc (.file content) h.1 h.2)
  else none

/-- Removes a file. -/
def remove (loc : Location) : Option (FileTree C) :=
  if h : (t.fileAt loc).isSome = true then
    some
      { nodes := t.nodes.erase loc
        closed := by
          intro above name hnode
          have hne : above ++ [name] ≠ loc := by
            intro hloc
            rw [hloc, AList.lookup_erase] at hnode
            exact hnode rfl
          rw [AList.lookup_erase_ne hne] at hnode
          rcases t.closed above name hnode with hroot | hdir
          · exact .inl hroot
          · right
            have habove : above ≠ loc := by
              rintro rfl
              obtain ⟨content, hcontent⟩ := Option.isSome_iff_exists.mp h
              have hfile := fileAt_eq_some.mp hcontent
              by_cases hroot : above = []
              · rw [node, if_pos hroot] at hfile
                cases hfile
              · rw [node, if_neg hroot, hdir] at hfile
                cases hfile
            rwa [AList.lookup_erase_ne habove] }
  else none

/-- Creates the directory at `loc`, which is there already or lies in a directory. -/
def createDirectory (loc : Location) : Option (FileTree C) :=
  match t.node loc with
  | some .directory => some t
  | some (.file _) => none
  | none =>
    if h : t.isDirectory loc.dropLast = true ∧ t.isDirectory loc = false then
      some (t.put loc .directory h.1 h.2)
    else none

def createDirectories (loc : Location) : Option (FileTree C) :=
  loc.inits.foldlM createDirectory t

variable {t} {loc other : Location} {content : C} {t' : FileTree C}

theorem node_put {n : Node C} {hdir : t.isDirectory loc.dropLast = true}
    {hfree : t.isDirectory loc = false} (other : Location) :
    (t.put loc n hdir hfree).node other = if other = loc then some n else t.node other := by
  have hroot : loc ≠ [] := by
    rintro rfl
    rw [isDirectory_iff.mpr (by rw [node, if_pos rfl])] at hfree
    cases hfree
  unfold node
  by_cases hother : other = loc
  · rw [if_neg (hother ▸ hroot), if_pos hother, hother]
    exact AList.lookup_insert _
  · rw [if_neg hother]
    split
    · rfl
    · exact AList.lookup_insert_ne hother

theorem node_write (h : t.write loc content = some t') (other : Location) :
    t'.node other = if other = loc then some (.file content) else t.node other := by
  unfold write at h
  split at h
  · cases h
    exact node_put other
  · cases h

theorem node_remove (h : t.remove loc = some t') (other : Location) :
    t'.node other = if other = loc then none else t.node other := by
  unfold remove at h
  split at h
  · rename_i hfile
    cases h
    have hroot : loc ≠ [] := by
      rintro rfl
      cases hfile
    unfold node
    by_cases hother : other = loc
    · rw [if_neg (hother ▸ hroot), if_pos hother, hother]
      exact AList.lookup_erase _ _
    · rw [if_neg hother]
      split
      · rfl
      · exact AList.lookup_erase_ne hother
  · cases h

theorem node_createDirectory (h : t.createDirectory loc = some t') (other : Location) :
    t'.node other = t.node other ∨
      t.node other = none ∧ t'.node other = some .directory ∧ other = loc := by
  unfold createDirectory at h
  split at h
  · cases h
    exact .inl rfl
  · cases h
  · rename_i hnone
    split at h
    · cases h
      rw [node_put]
      split
      · rename_i hother
        exact .inr ⟨hother ▸ hnone, rfl, hother⟩
      · exact .inl rfl
    · cases h

theorem node_foldlM_createDirectory {locs : List Location}
    (h : locs.foldlM createDirectory t = some t') (other : Location) :
    t'.node other = t.node other ∨
      t.node other = none ∧ t'.node other = some .directory ∧ other ∈ locs := by
  induction locs generalizing t with
  | nil =>
    cases h
    exact .inl rfl
  | cons loc rest ih =>
    rw [foldlM_cons] at h
    obtain ⟨middle, hmiddle, hrest⟩ := Option.bind_eq_some_iff.mp h
    rcases node_createDirectory hmiddle other with hsame | ⟨hnone, hdir, rfl⟩
    · rcases ih hrest with hafter | ⟨hnone, hdir, hmem⟩
      · exact .inl (hafter.trans hsame)
      · exact .inr ⟨hsame ▸ hnone, hdir, mem_cons_of_mem _ hmem⟩
    · refine .inr ⟨hnone, ?_, mem_cons_self⟩
      rcases ih hrest with hafter | ⟨hgone, -, -⟩
      · exact hafter.trans hdir
      · rw [hdir] at hgone
        cases hgone

theorem node_createDirectories (h : t.createDirectories loc = some t') (other : Location) :
    t'.node other = t.node other ∨
      t.node other = none ∧ t'.node other = some .directory ∧ other <+: loc := by
  rcases node_foldlM_createDirectory h other with hsame | ⟨hnone, hdir, hmem⟩
  · exact .inl hsame
  · exact .inr ⟨hnone, hdir, mem_inits _ _ |>.mp hmem⟩

theorem createDirectories_of_directory (h : t.node loc = some .directory) :
    t.createDirectories loc = some t := by
  have hall : ∀ above ∈ loc.inits, t.node above = some .directory := by
    intro above habove
    obtain ⟨rest, rfl⟩ := (mem_inits _ _).mp habove
    clear habove
    induction rest using List.reverseRecOn with
    | nil => rwa [append_nil] at h
    | append_singleton rest name ih =>
      rw [← append_assoc] at h
      have hthere : t.node (above ++ rest ++ [name]) ≠ none := by
        rw [h]
        exact some_ne_none _
      exact ih (node_parent hthere)
  rw [createDirectories]
  generalize loc.inits = locs at hall
  induction locs with
  | nil => rfl
  | cons first rest ih =>
    have hfirst : t.createDirectory first = some t := by
      rw [createDirectory, hall first mem_cons_self]
    rw [foldlM_cons, hfirst]
    exact ih fun above habove => hall above (mem_cons_of_mem _ habove)

end FileTree

/-! ## Paths -/

structure Path where
  absolute : Bool
  parts : List String
  nonempty : parts ≠ []
deriving DecidableEq

/-- The text before and after each slash. -/
def splitSlashes (cs : List Char) : List String := (cs.splitOn '/').map String.ofList

theorem splitSlashes_ne_nil (cs : List Char) : splitSlashes cs ≠ [] := by
  rw [splitSlashes, ne_eq, map_eq_nil_iff]
  exact splitOn_ne_nil '/' cs

namespace Path

def ofString (s : String) : Path :=
  match s.toList with
  | '/' :: rest => ⟨true, splitSlashes rest, splitSlashes_ne_nil rest⟩
  | chars => ⟨false, splitSlashes chars, splitSlashes_ne_nil chars⟩

def display (p : Path) : String := (if p.absolute then "/" else "") ++ "/".intercalate p.parts

/-- An absolute path replaces the one it is joined to. -/
def join (p q : Path) : Path :=
  if q.absolute then q else ⟨p.absolute, p.parts ++ q.parts, by simp [p.nonempty]⟩

/-- The last name and what stands before it. A path that ends in `..` has none. -/
def splitName (p : Path) : Option (List String × String) :=
  match p.parts.reverse.dropWhile (fun part => part = "" ∨ part = ".") with
  | [] => none
  | name :: front => if name = ".." then none else some (front.reverse, name)

def fileName (p : Path) : Option String := p.splitName.map Prod.snd

end Path

/-- The stem and the extension of a file name: the text before and after the last dot,
unless nothing stands before it. -/
def splitExtension (name : String) : String × Option String :=
  match name.toList.reverse.dropWhile (· ≠ '.') with
  | [] => (name, none)
  | _ :: before =>
    if before = [] then (name, none)
    else
      (String.ofList before.reverse,
        some (String.ofList (name.toList.reverse.takeWhile (· ≠ '.')).reverse))

/-- The name with another extension. -/
def renameExtension (extension name : String) : String :=
  (splitExtension name).1 ++ "." ++ extension

namespace Path

def extension (p : Path) : Option String := p.fileName.bind fun name => (splitExtension name).2

def withExtension (extension : String) (p : Path) : Path :=
  match p.splitName with
  | none => p
  | some (front, name) => ⟨p.absolute, front ++ [renameExtension extension name], by simp⟩

end Path

/-- A name of its own: neither the directory itself nor the one above. -/
def IsName (part : String) : Prop := part ≠ "" ∧ part ≠ "." ∧ part ≠ ".."

theorem Path.isName_of_splitName {p : Path} {front : List String}
    (h : p.splitName = some (front, name)) : IsName name := by
  unfold Path.splitName at h
  split at h
  · cases h
  · rename_i last above hdrop
    split at h
    · cases h
    · rename_i hup
      cases h
      have hhead := head?_dropWhile_not
        (fun part => decide (part = "" ∨ part = ".")) p.parts.reverse
      rw [hdrop] at hhead
      simp only [head?_cons, decide_eq_false_iff_not, not_or] at hhead
      exact ⟨hhead.1, hhead.2, hup⟩

theorem Path.name_of_splitName_single {absolute : Bool} {part name : String}
    {front : List String} {hne : [part] ≠ []}
    (h : Path.splitName ⟨absolute, [part], hne⟩ = some (front, name)) : name = part := by
  rw [Path.splitName, reverse_singleton, dropWhile_cons] at h
  by_cases hhere : part = "" ∨ part = "."
  · simp [hhere] at h
  · by_cases hup : part = ".."
    · simp [hup] at h
    · simp [hhere, hup] at h
      exact h.2.symm

theorem isName_of_length (h : 3 ≤ name.length) : IsName name := by
  refine ⟨?_, ?_, ?_⟩
  · rintro rfl
    exact absurd h (by decide)
  · rintro rfl
    exact absurd h (by decide)
  · rintro rfl
    exact absurd h (by decide)

theorem Path.ofString_plain (h : '/' ∉ name.toList) :
    Path.ofString name = ⟨false, [name], by simp⟩ := by
  have hsplit : splitSlashes name.toList = [name] := by
    rw [splitSlashes, splitOn_eq_singleton h, map_singleton, String.ofList_toList]
  unfold Path.ofString
  split
  · rename_i rest hchars
    rw [hchars] at h
    exact absurd mem_cons_self h
  · simp [hsplit]

namespace FileTree

variable {C : Type} (t : FileTree C)

def enter (dir : Location) (part : String) : Option Location :=
  if t.isDirectory dir then
    some (if part = "" ∨ part = "." then dir else if part = ".." then dir.dropLast
      else dir ++ [part])
  else none

def walk (start : Location) (parts : List String) : Option Location := parts.foldlM t.enter start

/-- Where a path leads, from the current directory. -/
def resolve (cwd : Location) (p : Path) : Option Location :=
  t.walk (if p.absolute then [] else cwd) p.parts

variable {t} {t' : FileTree C} {cwd start loc dir : Location} {p : Path}

theorem walk_concat (start : Location) (front : List String) (last : String) :
    t.walk start (front ++ [last]) = (t.walk start front).bind (fun dir => t.enter dir last) := by
  rw [walk, foldlM_append, walk]
  cases front.foldlM t.enter start with
  | none => rfl
  | some dir =>
    show (t.enter dir last >>= fun dir => some dir) = t.enter dir last
    exact bind_pure _

theorem enter_name (hname : IsName name) (hdir : t.isDirectory dir = true) :
    t.enter dir name = some (dir ++ [name]) := by
  obtain ⟨h1, h2, h3⟩ := hname
  simp [enter, h1, h2, h3, hdir]

theorem resolve_file (hloc : t.resolve cwd p = some loc) (hfile : t.fileAt loc ≠ none) :
    ∃ front name dir, p.parts = front ++ [name] ∧ p.splitName = some (front, name) ∧
      IsName name ∧ t.walk (if p.absolute then [] else cwd) front = some dir ∧
      t.isDirectory dir = true ∧ loc = dir ++ [name] := by
  have hnotDir : t.node loc ≠ some .directory := by
    intro hdir
    rw [fileAt, hdir] at hfile
    exact hfile rfl
  obtain ⟨absolute, parts, hne⟩ := p
  rcases eq_nil_or_concat parts with rfl | ⟨front, last, rfl⟩
  · exact absurd rfl hne
  · simp only [concat_eq_append, resolve] at hloc ⊢
    rw [walk_concat] at hloc
    obtain ⟨dir, hfront, henter⟩ := Option.bind_eq_some_iff.mp hloc
    unfold enter at henter
    split at henter
    · rename_i hdir
      have hdirNode := isDirectory_iff.mp hdir
      rw [some_inj] at henter
      by_cases hhere : last = "" ∨ last = "."
      · rw [if_pos hhere] at henter
        exact absurd (henter ▸ hdirNode) hnotDir
      · rw [if_neg hhere] at henter
        by_cases hup : last = ".."
        · rw [if_pos hup] at henter
          have hthere : t.node dir ≠ none := by simp [hdirNode]
          have habove := node_dropLast hthere
          exact absurd (henter ▸ habove) hnotDir
        · rw [if_neg hup] at henter
          rw [not_or] at hhere
          refine ⟨front, last, dir, rfl, ?_, ⟨hhere.1, hhere.2, hup⟩, hfront, hdir, henter.symm⟩
          simp [Path.splitName, hhere, hup]
    · cases henter

/-! ## Changes of a tree -/

/-- Every directory is still one. -/
def KeepsDirectories (t t' : FileTree C) : Prop :=
  ∀ loc, t.node loc = some .directory → t'.node loc = some .directory

namespace KeepsDirectories

variable {t'' : FileTree C}

theorem refl (t : FileTree C) : KeepsDirectories t t := fun _ h => h

theorem trans (h : KeepsDirectories t t') (h' : KeepsDirectories t' t'') : KeepsDirectories t t'' :=
  fun loc hdir => h' loc (h loc hdir)

theorem createDirectories (h : t.createDirectories loc = some t') : KeepsDirectories t t' := by
  intro other hdir
  rcases node_createDirectories h other with hsame | ⟨hnone, -, -⟩
  · rw [hsame, hdir]
  · rw [hdir] at hnone
    cases hnone

theorem isDirectory (h : KeepsDirectories t t') (hdir : t.isDirectory loc = true) :
    t'.isDirectory loc = true :=
  isDirectory_iff.mpr (h loc (isDirectory_iff.mp hdir))

theorem walk (h : KeepsDirectories t t') {parts : List String}
    (hwalk : t.walk start parts = some loc) : t'.walk start parts = some loc := by
  induction parts generalizing start with
  | nil => exact hwalk
  | cons part rest ih =>
    rw [FileTree.walk, foldlM_cons] at hwalk ⊢
    obtain ⟨next, henter, hrest⟩ := Option.bind_eq_some_iff.mp hwalk
    have hsame : t'.enter start part = some next := by
      unfold enter at henter ⊢
      split at henter
      · rename_i hdir
        rwa [if_pos (h.isDirectory hdir)]
      · cases henter
    exact Option.bind_eq_some_iff.mpr ⟨next, hsame, ih hrest⟩

theorem resolve (h : KeepsDirectories t t') (hloc : t.resolve cwd p = some loc) :
    t'.resolve cwd p = some loc :=
  h.walk hloc

end KeepsDirectories

/-- Nothing changes but the nodes at `locs`, and every directory is still one. -/
structure Changed (locs : List Location) (t t' : FileTree C) : Prop where
  nodes : ∀ other, other ∉ locs → t'.node other = t.node other
  directories : KeepsDirectories t t'

namespace Changed

variable {t'' : FileTree C} {locs locs' : List Location} {content : C}

theorem refl (locs : List Location) (t : FileTree C) : Changed locs t t :=
  ⟨fun _ _ => rfl, .refl t⟩

theorem mono (h : Changed locs t t') (hsub : locs ⊆ locs') : Changed locs' t t' :=
  ⟨fun other hother => h.nodes other fun hmem => hother (hsub hmem), h.directories⟩

theorem trans (h : Changed locs t t') (h' : Changed locs t' t'') : Changed locs t t'' :=
  ⟨fun other hother => (h'.nodes other hother).trans (h.nodes other hother),
    h.directories.trans h'.directories⟩

theorem write (h : t.write loc content = some t') : Changed [loc] t t' := by
  refine ⟨fun other hother => ?_, fun other hdir => ?_⟩
  · rw [node_write h, if_neg (by simpa using hother)]
  · rw [node_write h, if_neg]
    · exact hdir
    · rintro rfl
      unfold FileTree.write at h
      split at h
      · rename_i hfree
        rw [isDirectory_iff.mpr hdir] at hfree
        cases hfree.2
      · cases h

theorem remove (h : t.remove loc = some t') : Changed [loc] t t' := by
  refine ⟨fun other hother => ?_, fun other hdir => ?_⟩
  · rw [node_remove h, if_neg (by simpa using hother)]
  · rw [node_remove h, if_neg]
    · exact hdir
    · rintro rfl
      unfold FileTree.remove at h
      split at h
      · rename_i hfile
        rw [fileAt, hdir] at hfile
        cases hfile
      · cases h

theorem fileAt (h : Changed locs t t') (hloc : loc ∉ locs) : t'.fileAt loc = t.fileAt loc := by
  rw [FileTree.fileAt, FileTree.fileAt, h.nodes loc hloc]

end Changed

theorem fileAt_createDirectories (h : t.createDirectories loc = some t') (other : Location) :
    t'.fileAt other = t.fileAt other := by
  rcases node_createDirectories h other with hsame | ⟨hnone, hdir, -⟩
  · rw [fileAt, fileAt, hsame]
  · rw [fileAt, fileAt, hnone, hdir]

theorem isName_renameExtension {extension : String} (hext : 2 ≤ extension.length)
    (name : String) : IsName (renameExtension extension name) := by
  apply isName_of_length
  rw [renameExtension, String.length_append, String.length_append]
  have hdot : ".".length = 1 := rfl
  omega

theorem renameExtension_ne {extension : String} (hdot : '.' ∈ extension.toList) (name : String) :
    renameExtension extension name ≠ name := by
  intro heq
  have hchars : (splitExtension name).1.toList ++ '.' :: extension.toList = name.toList := by
    have h := congrArg String.toList heq
    simpa [renameExtension] using h
  unfold splitExtension at hchars
  split at hchars
  · simpa using congrArg List.length hchars
  · rename_i dot before hdrop
    split at hchars
    · simpa using congrArg List.length hchars
    · -- The text after the last dot would be the extension, which has a dot.
      have hsplit : name.toList.reverse.takeWhile (· ≠ '.') ++ dot :: before =
          name.toList.reverse := by
        rw [← hdrop]
        exact takeWhile_append_dropWhile
      have hback : extension.toList.reverse ++ '.' :: before = name.toList.reverse := by
        have h := congrArg List.reverse hchars
        simpa using h
      have hsame := (append_inj' (hback.trans hsplit.symm) rfl).1
      have hmem : '.' ∈ name.toList.reverse.takeWhile (· ≠ '.') := by
        rw [← hsame]
        exact List.mem_reverse.mpr hdot
      have := mem_takeWhile_imp hmem
      simp at this

/-- Where a file lies, its siblings by extension lie beside it, now and after any change
that keeps the directories. -/
theorem resolve_withExtension (hloc : t.resolve cwd p = some loc) (hfile : t.fileAt loc ≠ none) :
    ∃ name dir, loc = dir ++ [name] ∧ IsName name ∧
      ∀ t', KeepsDirectories t t' → ∀ extension : String, 2 ≤ extension.length →
        t'.resolve cwd (p.withExtension extension) =
          some (dir ++ [renameExtension extension name]) := by
  obtain ⟨front, name, dir, -, hsplit, hname, hfront, hdir, rfl⟩ := resolve_file hloc hfile
  refine ⟨name, dir, rfl, hname, fun t' h extension hext => ?_⟩
  rw [Path.withExtension, hsplit, resolve, walk_concat, h.walk hfront, bind_some]
  exact enter_name (isName_renameExtension hext name) (h.isDirectory hdir)

theorem walk_plain {names : List String} (hnames : ∀ name ∈ names, IsName name)
    (hwalk : t.walk start names = some loc) : loc = start ++ names := by
  induction names generalizing start with
  | nil =>
    cases hwalk
    exact (append_nil _).symm
  | cons name rest ih =>
    rw [walk, foldlM_cons] at hwalk
    obtain ⟨next, henter, hrest⟩ := Option.bind_eq_some_iff.mp hwalk
    have hname := hnames name mem_cons_self
    have hnext : next = start ++ [name] := by
      unfold enter at henter
      split at henter
      · rename_i hdir
        have := enter_name hname hdir
        rw [enter, if_pos hdir] at this
        exact Option.some_inj.mp (henter.symm.trans this)
      · cases henter
    rw [ih (fun other hother => hnames other (mem_cons_of_mem _ hother)) hrest, hnext,
      append_assoc]
    rfl

end FileTree

/-! ## Programs on a disk -/

inductive Fault (C : Type) where
  | refused
  | torn (content : C)

structure Disk (C : Type) where
  tree : FileTree C := {}
  cwd : Location := []
  /-- What happens to the writes to come. A write without an entry succeeds. -/
  faults : List (Option (Fault C)) := []

namespace Disk

variable {C : Type}

def locate (d : Disk C) (p : Path) : Option Location := d.tree.resolve d.cwd p

def pathExists (d : Disk C) (p : Path) : Bool := ((d.locate p).bind d.tree.node).isSome

def read (d : Disk C) (p : Path) : Option C := (d.locate p).bind d.tree.fileAt

def isFile (d : Disk C) (p : Path) : Bool := (d.read p).isSome

/-- Gives a file content. A write that tears leaves any content. -/
def writeFile (loc : Location) (content : C) : Program (Disk C) String Unit := fun d =>
  let rest := d.faults.tail
  match d.faults.head?.join with
  | none =>
    match d.tree.write loc content with
    | some tree => (.ok (), { d with tree, faults := rest })
    | none => (.error "write failed", { d with faults := rest })
  | some .refused => (.error "write failed", { d with faults := rest })
  | some (.torn left) =>
    (.error "write failed", { d with tree := (d.tree.write loc left).getD d.tree, faults := rest })

/-- Copies a file to a path. A copy onto itself is opened for writing first, and leaves the
file empty. -/
def copyFile (empty : C) (source dest : Path) : Program (Disk C) String C := fun d =>
  match d.read source, d.locate dest with
  | some content, some loc =>
    let landed := if d.locate source = some loc then empty else content
    ((fun _ => landed) <$> writeFile loc landed) d
  | _, _ => (.error "copy failed", d)

def removeFile (p : Path) : Program (Disk C) String Unit := fun d =>
  let rest := d.faults.tail
  match d.faults.head?.join, (d.locate p).bind d.tree.remove with
  | none, some tree => (.ok (), { d with tree, faults := rest })
  | _, _ => (.error "remove failed", { d with faults := rest })

def createDirAll (loc : Location) : Program (Disk C) String Unit := fun d =>
  let rest := d.faults.tail
  match d.faults.head?.join, d.tree.createDirectories loc with
  | none, some tree => (.ok (), { d with tree, faults := rest })
  | _, _ => (.error "create failed", { d with faults := rest })

/-- What is read off the disk, and may be an error. -/
def query {α : Type} (f : Disk C → Except String α) : Program (Disk C) String α := fun d =>
  (f d, d)

/-! ### What the programs do -/

variable {d d' : Disk C} {loc : Location} {content : C}

variable {result : Except String Unit}

/-- A write changes its file only. It fails only by a fault or where the file cannot be, and
a write that fails without tearing changes nothing. -/
theorem writeFile_spec (h : writeFile loc content d = (result, d')) :
    d'.cwd = d.cwd ∧ d'.faults = d.faults.tail ∧ FileTree.Changed [loc] d.tree d'.tree ∧
      (result = .ok () → d.faults.head?.join = none ∧ d'.tree.fileAt loc = some content) ∧
      (∀ e, result = .error e → (∃ left, d.faults.head?.join = some (.torn left)) ∨
        d'.tree = d.tree) ∧
      (d.faults.head?.join = none → d.tree.isDirectory loc.dropLast = true →
        d.tree.isDirectory loc = false → result = .ok ()) := by
  unfold writeFile at h
  dsimp only at h
  split at h
  · rename_i hfault
    split at h
    · rename_i tree hwrite
      cases h
      refine ⟨rfl, rfl, .write hwrite, fun _ => ⟨hfault, ?_⟩, fun e herror => (nomatch herror),
        fun _ _ _ => rfl⟩
      rw [FileTree.fileAt_eq_some, FileTree.node_write hwrite, if_pos rfl]
    · rename_i hwrite
      cases h
      refine ⟨rfl, rfl, .refl _ _, fun hok => (nomatch hok), fun _ _ => .inr rfl,
        fun _ hdir hfree => ?_⟩
      rw [FileTree.write, dif_pos ⟨hdir, hfree⟩] at hwrite
      cases hwrite
  · rename_i hfault
    cases h
    refine ⟨rfl, rfl, .refl _ _, fun hok => (nomatch hok), fun _ _ => .inr rfl,
      fun hnone _ _ => ?_⟩
    rw [hnone] at hfault
    cases hfault
  · rename_i left hfault
    cases h
    refine ⟨rfl, rfl, ?_, fun hok => (nomatch hok), fun _ _ => .inl ⟨left, hfault⟩,
      fun hnone _ _ => ?_⟩
    · dsimp only
      cases hwrite : d.tree.write loc left with
      | none => exact .refl _ _
      | some tree => exact .write hwrite
    · rw [hnone] at hfault
      cases hfault

theorem copyFile_spec {empty : C} {source dest : Path} {result : Except String C}
    (h : copyFile empty source dest d = (result, d')) :
    (∃ e, result = .error e ∧ d' = d ∧ (d.read source = none ∨ d.locate dest = none)) ∨
    ∃ content loc, d.read source = some content ∧ d.locate dest = some loc ∧
      d'.cwd = d.cwd ∧ d'.faults = d.faults.tail ∧ FileTree.Changed [loc] d.tree d'.tree ∧
      (∀ c, result = .ok c → d.faults.head?.join = none ∧ d'.tree.fileAt loc =
        some (if d.locate source = some loc then empty else content)) ∧
      (∀ e, result = .error e → (∃ left, d.faults.head?.join = some (.torn left)) ∨
        d'.tree = d.tree) ∧
      (d.faults.head?.join = none → d.tree.isDirectory loc.dropLast = true →
        d.tree.isDirectory loc = false → ∃ c, result = .ok c) := by
  unfold copyFile at h
  split at h
  · rename_i content loc hread hloc
    right
    rw [Program.map_apply] at h
    rcases hwrite : writeFile loc (if d.locate source = some loc then empty else content) d
      with ⟨written, after⟩
    rw [hwrite] at h
    obtain ⟨rfl, rfl⟩ := Prod.mk.inj h
    obtain ⟨hcwd, hfaults, hchanged, hlanded, hfailed, hok⟩ := writeFile_spec hwrite
    refine ⟨content, loc, hread, hloc, hcwd, hfaults, hchanged, fun c hc => ?_, fun e he => ?_, ?_⟩
    · cases written with
      | error e => cases hc
      | ok u => exact hlanded rfl
    · cases written with
      | error e => exact hfailed e rfl
      | ok u => cases he
    · intro hfault hdir hfree
      rw [hok hfault hdir hfree]
      exact ⟨_, rfl⟩
  · rename_i hnone
    cases h
    refine .inl ⟨_, rfl, rfl, ?_⟩
    cases hread : d.read source with
    | none => exact .inl rfl
    | some content =>
      cases hloc : d.locate dest with
      | none => exact .inr rfl
      | some loc => exact absurd hloc (hnone content loc hread)

theorem removeFile_spec {p : Path} (h : removeFile p d = (result, d')) :
    d'.cwd = d.cwd ∧
      ((∃ e, result = .error e ∧ d'.tree = d.tree) ∨
        ∃ loc, result = .ok () ∧ d.locate p = some loc ∧ d.tree.remove loc = some d'.tree) := by
  unfold removeFile at h
  dsimp only at h
  split at h
  · rename_i tree _ hremove
    cases h
    obtain ⟨loc, hloc, hremoved⟩ := Option.bind_eq_some_iff.mp hremove
    exact ⟨rfl, .inr ⟨loc, rfl, hloc, hremoved⟩⟩
  · cases h
    exact ⟨rfl, .inl ⟨_, rfl, rfl⟩⟩

theorem createDirAll_spec (h : createDirAll loc d = (result, d')) :
    d'.cwd = d.cwd ∧ d'.faults = d.faults.tail ∧
      ((∃ e, result = .error e ∧ d'.tree = d.tree) ∨
        result = .ok () ∧ d.tree.createDirectories loc = some d'.tree) ∧
      (d.faults.head?.join = none → d.tree.node loc = some .directory → result = .ok ()) := by
  unfold createDirAll at h
  dsimp only at h
  split at h
  · rename_i tree _ hcreate
    cases h
    exact ⟨rfl, rfl, .inr ⟨rfl, hcreate⟩, fun _ _ => rfl⟩
  · rename_i hnot
    cases h
    refine ⟨rfl, rfl, .inl ⟨_, rfl, rfl⟩, fun hfault hdir => ?_⟩
    exact absurd (FileTree.createDirectories_of_directory hdir) (hnot _ hfault)

end Disk

end GenieClaw.Library
