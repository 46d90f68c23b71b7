import GenieClaw.Library.Text
import GenieClaw.Memory.Store
import Mathlib.Data.List.Dedup
import Mathlib.Data.String.Basic

/-!
# The canonical files

`rebuild_root_memory_file` of `memory/mod.rs` writes the promoted memories to plain files: those
that may be spoken of in a shared room to `MEMORY.md`, all of them to one note for each
namespace, redacted where they may not be spoken of, and the names of the notes to `INDEX.md`.

* `exportDir_rootFile`, `exportDir_notes`: the text of the files.
* `exportDir_agrees`: they say what the memories say.
-/

namespace GenieClaw.Memory

open Library Library.Text

def MemoryScope.asStr : MemoryScope → String
  | .session => "session"
  | .household => "household"
  | .person => "person"
  | .«private» => "private"

def MemorySensitivity.asStr : MemorySensitivity → String
  | .normal => "normal"
  | .cautious => "cautious"
  | .restricted => "restricted"

def SpokenMemoryPolicy.asStr : SpokenMemoryPolicy → String
  | .allow => "allow"
  | .confirm => "confirm"
  | .appOnly => "app_only"
  | .deny => "deny"

/-! ## Namespaces -/

/-- The loop of `sanitize_namespace_segment`, with its flag `last_dash`. -/
def sanitizeLoop : Bool → List Char → List Char
  | _, [] => []
  | lastDash, ch :: rest =>
    if isAsciiAlphanumeric ch then ch.toLower :: sanitizeLoop false rest
    else if ch = '_' ∨ ch = '-' ∨ ch = ' ' ∨ ch = '.' then
      if lastDash then sanitizeLoop true rest else '-' :: sanitizeLoop true rest
    else sanitizeLoop lastDash rest

def isDash (c : Char) : Bool := c == '-'

def sanitizeNamespaceSegment (value : String) : String :=
  trimMatches isDash (String.ofList (sanitizeLoop false value.toList))

/-- The kind without the prefix that names a scope. -/
def namespaceLeaf (kind : String) : String :=
  let lower := toAsciiLowercase (trim kind)
  let leaf := sanitizeNamespaceSegment
    (((((stripPrefix "person_" lower).or (stripPrefix "private_" lower)).or
      (stripPrefix "session_" lower)).or (stripPrefix "household_" lower)).getD lower)
  if leaf = "" then "general" else leaf

def canonicalNamespace (kind : String) (metadata : MemoryPolicyMetadata) : String :=
  metadata.scope.asStr ++ "." ++ namespaceLeaf kind

/-- The components of the path. -/
def canonicalNamespaceNoteRelative (ns : String) : List String :=
  let parts := ((ns.toList.splitOn '.').map fun part =>
    sanitizeNamespaceSegment (String.ofList part)).filter fun part => part ≠ ""
  let parts := if parts = [] then ["general"] else parts
  "namespaces" :: parts.dropLast ++ [parts.getLastD "general" ++ ".md"]

/-! ## Lines of the files -/

namespace MemoryEntry

variable (m : MemoryEntry)

def sharedSafe : Bool := (assessMemoryRead m.metadata .sharedRoomVoice).allowed

def entryMark : String := "- [mem:" ++ toString m.id ++ "] "

def entryLine : String := m.entryMark ++ "[" ++ m.kind ++ "] " ++ m.content

def redactedLine : String :=
  m.entryMark ++ "redacted (" ++ m.metadata.scope.asStr ++ ", " ++ m.metadata.sensitivity.asStr ++
    ", " ++ m.metadata.spokenPolicy.asStr ++ ")"

def namespaceLine : String := if m.sharedSafe then m.entryLine else m.redactedLine

def canonicalNamespace : String := Memory.canonicalNamespace m.kind m.metadata

def notePath : List String := canonicalNamespaceNoteRelative m.canonicalNamespace

end MemoryEntry

def rootHeader : List String :=
  ["# GenieClaw Durable Memory", "", "See [INDEX.md](INDEX.md) for namespace notes.", ""]

def emptyRoot : List String :=
  ["# GenieClaw Durable Memory", "",
    "No promoted memories are currently safe for shared-room disclosure.", "",
    "See [INDEX.md](INDEX.md) for the local namespace map."]

def rootText (records : List MemoryEntry) : String :=
  let rootLines := (records.filter MemoryEntry.sharedSafe).map MemoryEntry.entryLine
  unlines (if rootLines = [] then emptyRoot else rootHeader ++ rootLines)

/-- The lines of a namespace. -/
def namespaceLines (records : List MemoryEntry) (ns : String) : List String :=
  (records.filter fun m => m.canonicalNamespace = ns).map MemoryEntry.namespaceLine

/-- The namespaces in the order of their names, each with its lines. -/
def namespaceIndex (records : List MemoryEntry) : List (String × List String) :=
  let namespaces := (records.map MemoryEntry.canonicalNamespace).dedup.insertionSort (· ≤ ·)
  namespaces.map fun ns => (ns, namespaceLines records ns)

def noteHeader (ns : String) : List String :=
  ["---", "namespace: " ++ ns, "kind: durable-memory", "source: genie-core", "---", "",
    "# " ++ ns, ""]

def noteText (ns : String) (lines : List String) : String := unlines (noteHeader ns ++ lines)

def indexLine (ns : String) (lines : List String) : String :=
  "- [" ++ ns ++ "](" ++ "/".intercalate (canonicalNamespaceNoteRelative ns) ++ ") — " ++
    toString lines.length ++ " durable entr" ++ (if lines.length = 1 then "y" else "ies")

def indexText (index : List (String × List String)) : String :=
  unlines (["# GenieClaw Memory Index", "", "Generated local durable-memory map.", "",
    "## Namespaces", ""] ++ index.map fun entry => indexLine entry.1 entry.2)

/-! ## The directory -/

structure CanonicalDir where
  /-- `MEMORY.md`. -/
  root : Option String := none
  /-- `INDEX.md`. -/
  index : Option String := none
  notes : List (List String × String) := []

/-- A note that is there is written over. -/
def writeNote (notes : List (List String × String)) (path : List String) (text : String) :
    List (List String × String) :=
  notes.filter (fun note => note.1 ≠ path) ++ [(path, text)]

def writeNotes (index : List (String × List String)) : List (List String × String) :=
  index.foldl (fun notes entry =>
    writeNote notes (canonicalNamespaceNoteRelative entry.1) (noteText entry.1 entry.2)) []

/-- What a rebuild leaves behind for the promoted memories. -/
def exportDir (records : List MemoryEntry) : CanonicalDir :=
  if records = [] then {}
  else
    let index := namespaceIndex records
    { root := some (rootText records), index := some (indexText index), notes := writeNotes index }

namespace CanonicalDir

variable (dir : CanonicalDir)

def rootFile : String := dir.root.getD ""

def note (path : List String) : String := (dir.notes.lookup path).getD ""

end CanonicalDir

/-- The lines of a file that are entries. -/
def entriesOf (text : String) : List String :=
  (splitLines text).filter fun line => startsWith "- [mem:" line

/-! ## Names of the notes -/

/-- What `sanitize_namespace_segment` leaves of a text when the character before it was a dash,
or was not. -/
def Tidy : Bool → List Char → Prop
  | _, [] => True
  | lastDash, ch :: rest =>
    if isAsciiAlphanumeric ch then ch.toLower = ch ∧ Tidy false rest
    else ch = '-' ∧ lastDash = false ∧ Tidy true rest

theorem isAsciiAlphanumeric_toLower {ch : Char} (h : isAsciiAlphanumeric ch = true) :
    isAsciiAlphanumeric ch.toLower = true := by
  have hle : ∀ a b : Char, a ≤ b ↔ a.toNat ≤ b.toNat := fun _ _ => UInt32.le_iff_toNat_le
  unfold isAsciiAlphanumeric isAsciiLowercase at *
  simp only [Bool.or_eq_true, Bool.and_eq_true, decide_eq_true_eq, hle, toNat_toLower] at h ⊢
  simp only [Char.reduceToNat] at h ⊢
  split <;> omega

theorem sanitizeLoop_tidy (lastDash : Bool) (cs : List Char) :
    Tidy lastDash (sanitizeLoop lastDash cs) := by
  induction cs generalizing lastDash with
  | nil => exact trivial
  | cons ch rest ih =>
    unfold sanitizeLoop
    split
    · rename_i halnum
      rw [Tidy, if_pos (isAsciiAlphanumeric_toLower halnum)]
      exact ⟨toLower_toLower ch, ih false⟩
    · split
      · cases lastDash with
        | false =>
          rw [if_neg Bool.false_ne_true, Tidy, if_neg (by decide)]
          exact ⟨rfl, rfl, ih true⟩
        | true => exact ih true
      · exact ih lastDash

variable {lastDash : Bool} {cs : List Char}

theorem sanitizeLoop_of_tidy (h : Tidy lastDash cs) : sanitizeLoop lastDash cs = cs := by
  induction cs generalizing lastDash with
  | nil => rfl
  | cons ch rest ih =>
    unfold Tidy at h
    unfold sanitizeLoop
    split at h
    · rename_i halnum
      rw [if_pos halnum, h.1, ih h.2]
    · rename_i halnum
      obtain ⟨rfl, rfl, hrest⟩ := h
      rw [if_neg halnum, if_pos (by decide), if_neg Bool.false_ne_true, ih hrest]

theorem Tidy.of_append_left {as bs : List Char} (h : Tidy lastDash (as ++ bs)) :
    Tidy lastDash as := by
  induction as generalizing lastDash with
  | nil => exact trivial
  | cons ch rest ih =>
    rw [List.cons_append] at h
    unfold Tidy at h ⊢
    split at h
    · rename_i halnum
      rw [if_pos halnum]
      exact ⟨h.1, ih h.2⟩
    · rename_i halnum
      rw [if_neg halnum]
      exact ⟨h.1, h.2.1, ih h.2.2⟩

theorem Tidy.after_dash (h : Tidy lastDash cs)
    (hhead : ∀ ch, cs.head? = some ch → isDash ch = false) : Tidy false cs := by
  cases cs with
  | nil => exact trivial
  | cons ch rest =>
    unfold Tidy at h ⊢
    split at h
    · rename_i halnum
      rw [if_pos halnum]
      exact h
    · obtain ⟨rfl, -⟩ := h
      exact absurd (hhead '-' rfl) (by decide)

theorem Tidy.dropWhile (h : Tidy lastDash cs) : ∃ last, Tidy last (cs.dropWhile isDash) := by
  induction cs generalizing lastDash with
  | nil => exact ⟨lastDash, trivial⟩
  | cons ch rest ih =>
    rw [List.dropWhile_cons]
    split
    · unfold Tidy at h
      split at h
      · exact ih h.2
      · exact ih h.2.2
    · exact ⟨lastDash, h⟩

/-- A text that is left as it is. -/
def IsSegment (cs : List Char) : Prop :=
  Tidy false cs ∧ (cs.dropWhile isDash).rdropWhile isDash = cs

theorem sanitize_isSegment (value : String) :
    IsSegment (sanitizeNamespaceSegment value).toList := by
  have hloop := sanitizeLoop_tidy false value.toList
  rw [sanitizeNamespaceSegment, trimMatches, String.toList_ofList, String.toList_ofList]
  generalize sanitizeLoop false value.toList = cs at hloop
  obtain ⟨last, hdrop⟩ := hloop.dropWhile
  have hprefix := List.rdropWhile_prefix isDash (cs.dropWhile isDash)
  have hhead : ∀ ch, ((cs.dropWhile isDash).rdropWhile isDash).head? = some ch →
      isDash ch = false := by
    intro ch hch
    obtain ⟨t, ht⟩ := hprefix
    have hfirst := List.head?_dropWhile_not isDash cs
    rw [← ht, List.head?_append, hch] at hfirst
    simpa using hfirst
  constructor
  · obtain ⟨t, ht⟩ := hprefix
    rw [← ht] at hdrop
    exact hdrop.of_append_left.after_dash hhead
  · rw [dropWhile_eq_self_of_head hhead, List.rdropWhile_idempotent]

theorem sanitize_of_isSegment {value : String} (h : IsSegment value.toList) :
    sanitizeNamespaceSegment value = value := by
  rw [sanitizeNamespaceSegment, sanitizeLoop_of_tidy h.1, trimMatches, String.toList_ofList, h.2,
    String.ofList_toList]

theorem Tidy.notMem (h : Tidy lastDash cs) {c : Char} (halnum : isAsciiAlphanumeric c = false)
    (hdash : c ≠ '-') : c ∉ cs := by
  induction cs generalizing lastDash with
  | nil => exact List.not_mem_nil
  | cons ch rest ih =>
    unfold Tidy at h
    intro hmem
    split at h
    · rename_i hch
      rcases List.mem_cons.mp hmem with rfl | hmem
      · rw [halnum] at hch
        cases hch
      · exact ih h.2 hmem
    · rcases List.mem_cons.mp hmem with rfl | hmem
      · exact hdash h.1
      · exact ih h.2.2 hmem

theorem IsSegment.notMem (h : IsSegment cs) {c : Char} (halnum : isAsciiAlphanumeric c = false)
    (hdash : c ≠ '-') : c ∉ cs :=
  Tidy.notMem h.1 halnum hdash

theorem namespaceLeaf_isSegment (kind : String) :
    IsSegment (namespaceLeaf kind).toList ∧ namespaceLeaf kind ≠ "" := by
  unfold namespaceLeaf
  dsimp only
  split
  · have hgeneral : sanitizeNamespaceSegment "general" = "general" := by decide +kernel
    exact ⟨hgeneral ▸ sanitize_isSegment "general", by decide⟩
  · rename_i hne
    exact ⟨sanitize_isSegment _, hne⟩

theorem asStr_isSegment (scope : MemoryScope) :
    IsSegment scope.asStr.toList ∧ scope.asStr ≠ "" := by
  have hself : sanitizeNamespaceSegment scope.asStr = scope.asStr := by
    cases scope <;> decide +kernel
  exact ⟨hself ▸ sanitize_isSegment scope.asStr, by cases scope <;> decide⟩

theorem canonicalNamespaceNoteRelative_eq (kind : String) (metadata : MemoryPolicyMetadata) :
    canonicalNamespaceNoteRelative (canonicalNamespace kind metadata) =
      ["namespaces", metadata.scope.asStr, namespaceLeaf kind ++ ".md"] := by
  obtain ⟨hscope, hscopeNe⟩ := asStr_isSegment metadata.scope
  obtain ⟨hleaf, hleafNe⟩ := namespaceLeaf_isSegment kind
  have hsplit : (canonicalNamespace kind metadata).toList.splitOn '.' =
      [metadata.scope.asStr.toList, (namespaceLeaf kind).toList] := by
    have hdot : ".".toList = ['.'] := rfl
    rw [canonicalNamespace, String.toList_append, String.toList_append, hdot, List.append_assoc,
      List.singleton_append,
      List.splitOn_append_cons_self_of_not_mem (hscope.notMem (by decide) (by decide)),
      List.splitOn_eq_singleton (hleaf.notMem (by decide) (by decide))]
  unfold canonicalNamespaceNoteRelative
  rw [hsplit]
  simp [String.ofList_toList, sanitize_of_isSegment hscope, sanitize_of_isSegment hleaf, hscopeNe,
    hleafNe]

theorem canonicalNamespaceNoteRelative_injective {a b : MemoryEntry}
    (h : a.notePath = b.notePath) : a.canonicalNamespace = b.canonicalNamespace := by
  unfold MemoryEntry.notePath MemoryEntry.canonicalNamespace at h
  rw [canonicalNamespaceNoteRelative_eq, canonicalNamespaceNoteRelative_eq] at h
  obtain ⟨-, hscope, hleaf, -⟩ : "namespaces" = "namespaces" ∧
      a.metadata.scope.asStr = b.metadata.scope.asStr ∧
      namespaceLeaf a.kind ++ ".md" = namespaceLeaf b.kind ++ ".md" ∧ True := by
    simpa using h
  have hleaf' : namespaceLeaf a.kind = namespaceLeaf b.kind := by
    have hlist := congrArg String.toList hleaf
    rw [String.toList_append, String.toList_append] at hlist
    exact String.toList_inj.mp (List.append_cancel_right hlist)
  unfold MemoryEntry.canonicalNamespace canonicalNamespace
  rw [hscope, hleaf']

/-! ## Lines without a line break -/

section

variable {m : MemoryEntry}

theorem oneLine_canonicalNamespace (m : MemoryEntry) : OneLine m.canonicalNamespace := by
  have hscope := (asStr_isSegment m.metadata.scope).1
  have hleaf := (namespaceLeaf_isSegment m.kind).1
  rw [MemoryEntry.canonicalNamespace, canonicalNamespace, oneLine_append, oneLine_append]
  exact ⟨⟨hscope.notMem (by decide) (by decide), by decide⟩,
    hleaf.notMem (by decide) (by decide)⟩

theorem oneLine_noteHeader (m : MemoryEntry) :
    ∀ line ∈ noteHeader m.canonicalNamespace, OneLine line := by
  have hns := oneLine_canonicalNamespace m
  intro line hline
  simp only [noteHeader, List.mem_cons, List.not_mem_nil, or_false] at hline
  rcases hline with rfl | rfl | rfl | rfl | rfl | rfl | rfl | rfl
  · decide
  · exact oneLine_append.mpr ⟨by decide, hns⟩
  · decide
  · decide
  · decide
  · decide
  · exact oneLine_append.mpr ⟨by decide, hns⟩
  · decide

theorem oneLine_entryMark (m : MemoryEntry) : OneLine m.entryMark := by
  rw [MemoryEntry.entryMark, oneLine_append, oneLine_append]
  exact ⟨⟨by decide, oneLine_toString m.id⟩, by decide⟩

theorem oneLine_entryLine (hkind : OneLine m.kind) (hcontent : OneLine m.content) :
    OneLine m.entryLine := by
  rw [MemoryEntry.entryLine]
  simp only [oneLine_append]
  exact ⟨⟨⟨⟨oneLine_entryMark m, by decide⟩, hkind⟩, by decide⟩, hcontent⟩

theorem oneLine_redactedLine (m : MemoryEntry) : OneLine m.redactedLine := by
  have hscope : OneLine m.metadata.scope.asStr := by cases m.metadata.scope <;> decide
  have hsensitivity : OneLine m.metadata.sensitivity.asStr := by
    cases m.metadata.sensitivity <;> decide
  have hpolicy : OneLine m.metadata.spokenPolicy.asStr := by
    cases m.metadata.spokenPolicy <;> decide
  rw [MemoryEntry.redactedLine]
  simp only [oneLine_append]
  exact ⟨⟨⟨⟨⟨⟨⟨oneLine_entryMark m, by decide⟩, hscope⟩, by decide⟩, hsensitivity⟩, by decide⟩,
    hpolicy⟩, by decide⟩

theorem oneLine_namespaceLine (h : m.sharedSafe = true → OneLine m.kind ∧ OneLine m.content) :
    OneLine m.namespaceLine := by
  unfold MemoryEntry.namespaceLine
  split
  · rename_i hsafe
    exact oneLine_entryLine (h hsafe).1 (h hsafe).2
  · exact oneLine_redactedLine m

/-! ## Entries -/

def isEntry (line : String) : Bool := startsWith "- [mem:" line

theorem isEntry_append {a b : String} (h : isEntry a = true) : isEntry (a ++ b) = true := by
  unfold isEntry startsWith at *
  rw [List.isPrefixOf_iff_prefix] at *
  rw [String.toList_append]
  exact h.trans (List.prefix_append _ _)

theorem isEntry_entryMark (m : MemoryEntry) : isEntry m.entryMark = true :=
  isEntry_append (isEntry_append (by decide))

theorem isEntry_entryLine (m : MemoryEntry) : isEntry m.entryLine = true := by
  unfold MemoryEntry.entryLine
  iterate 4 apply isEntry_append
  exact isEntry_entryMark m

theorem isEntry_namespaceLine (m : MemoryEntry) : isEntry m.namespaceLine = true := by
  unfold MemoryEntry.namespaceLine
  split
  · exact isEntry_entryLine m
  · unfold MemoryEntry.redactedLine
    iterate 7 apply isEntry_append
    exact isEntry_entryMark m

theorem isEntry_noteHeader {ns : String} : (noteHeader ns).filter isEntry = [] := by
  have hfirst : ∀ c : Char, ∀ rest ns : String, rest.toList.head? = some c → c ≠ '-' →
      isEntry (rest ++ ns) = false := by
    intro c rest ns hhead hc
    cases hrest : rest.toList with
    | nil =>
      rw [hrest] at hhead
      cases hhead
    | cons c' cs =>
      rw [hrest] at hhead
      cases hhead
      have hne : ('-' == c) = false := beq_false_of_ne hc.symm
      unfold isEntry startsWith
      rw [String.toList_append, hrest]
      simp [List.isPrefixOf, hne]
  have hns := hfirst 'n' "namespace: " ns rfl (by decide)
  have htitle := hfirst '#' "# " ns rfl (by decide)
  have hplain : ∀ line ∈ ["---", "kind: durable-memory", "source: genie-core", ""],
      isEntry line = false := by
    decide
  simp [noteHeader, hns, htitle, hplain]

theorem entriesOf_unlines {lines : List String} (h : ∀ line ∈ lines, OneLine line) :
    entriesOf (unlines lines) = lines.filter isEntry := by
  have hblank : isEntry "" = false := by decide
  show (splitLines (unlines lines)).filter isEntry = lines.filter isEntry
  rw [splitLines_unlines h, List.filter_append]
  simp [hblank]

end

/-! ## What is found in the files -/

/-- What the files have to say of these memories: `MEMORY.md` has one entry for each that is
promoted and may be spoken of in a shared room, the note of a namespace has one for each that is
promoted and belongs there, and nothing else that could come from a memory is in them. -/
structure FilesAgree (dir : CanonicalDir) (memories : List MemoryEntry) : Prop where
  root : (entriesOf dir.rootFile).Perm
    ((memories.filter fun m => m.promoted && m.sharedSafe).map MemoryEntry.entryLine)
  rootLines : ∀ line ∈ splitLines dir.rootFile, line ∈ rootHeader ∨ line ∈ emptyRoot ∨
    ∃ m ∈ memories, m.promoted = true ∧ m.sharedSafe = true ∧ line = m.entryLine
  notes : ∀ path, (entriesOf (dir.note path)).Perm
    ((memories.filter fun m => m.promoted && m.notePath = path).map MemoryEntry.namespaceLine)
  noteLines : ∀ path, ∀ line ∈ splitLines (dir.note path), line = "" ∨
    ∃ m ∈ memories, m.promoted = true ∧ m.notePath = path ∧
      (line ∈ noteHeader m.canonicalNamespace ∨ line = m.namespaceLine)
  distinct : ∀ a ∈ memories, ∀ b ∈ memories, a.notePath = b.notePath →
    a.canonicalNamespace = b.canonicalNamespace
  onePath : (dir.notes.map Prod.fst).Nodup

section

variable {records memories : List MemoryEntry}

/-- The kinds and contents that are written out fit on a line. -/
def Lined (records : List MemoryEntry) : Prop :=
  ∀ m ∈ records, m.sharedSafe = true → OneLine m.kind ∧ OneLine m.content

theorem oneLine_rootLines (h : Lined records) :
    ∀ line ∈ (records.filter MemoryEntry.sharedSafe).map MemoryEntry.entryLine, OneLine line := by
  intro line hline
  obtain ⟨m, hm, rfl⟩ := List.mem_map.mp hline
  obtain ⟨hmem, hsafe⟩ := List.mem_filter.mp hm
  obtain ⟨hkind, hcontent⟩ := h m hmem hsafe
  exact oneLine_entryLine hkind hcontent

theorem rootText_eq (records : List MemoryEntry) :
    ∃ header, (header = rootHeader ∨ header = emptyRoot) ∧ rootText records =
      unlines (header ++ (records.filter MemoryEntry.sharedSafe).map MemoryEntry.entryLine) := by
  unfold rootText
  dsimp only
  split
  · rename_i hempty
    exact ⟨emptyRoot, .inr rfl, by rw [hempty, List.append_nil]⟩
  · exact ⟨rootHeader, .inl rfl, rfl⟩

theorem header_plain {header : List String} (h : header = rootHeader ∨ header = emptyRoot) :
    (∀ line ∈ header, OneLine line) ∧ header.filter isEntry = [] := by
  rcases h with rfl | rfl
  · decide
  · decide

theorem filter_map_of_all {α β : Type} {p : β → Bool} {f : α → β} (h : ∀ a, p (f a) = true)
    (xs : List α) : (xs.map f).filter p = xs.map f := by
  rw [List.filter_eq_self]
  intro b hb
  obtain ⟨a, -, rfl⟩ := List.mem_map.mp hb
  exact h a

theorem rootText_spec (h : Lined records) :
    (∃ header, (header = rootHeader ∨ header = emptyRoot) ∧
      splitLines (rootText records) = header ++
        (records.filter MemoryEntry.sharedSafe).map MemoryEntry.entryLine ++ [""]) ∧
      entriesOf (rootText records) =
        (records.filter MemoryEntry.sharedSafe).map MemoryEntry.entryLine := by
  obtain ⟨header, hheader, htext⟩ := rootText_eq records
  obtain ⟨hlined, hplain⟩ := header_plain hheader
  have hlines : ∀ line ∈ header ++
      (records.filter MemoryEntry.sharedSafe).map MemoryEntry.entryLine, OneLine line := by
    intro line hline
    rcases List.mem_append.mp hline with hline | hline
    · exact hlined line hline
    · exact oneLine_rootLines h line hline
  rw [htext]
  refine ⟨⟨header, hheader, splitLines_unlines hlines⟩, ?_⟩
  rw [entriesOf_unlines hlines, List.filter_append, hplain, List.nil_append,
    filter_map_of_all isEntry_entryLine]

/-! ## The notes of a rebuild -/

theorem foldl_writeNote {index : List (String × List String)} {notes : List (List String × String)}
    (hnodup : (notes.map Prod.fst ++ index.map fun e => canonicalNamespaceNoteRelative e.1).Nodup) :
    index.foldl (fun notes entry =>
        writeNote notes (canonicalNamespaceNoteRelative entry.1) (noteText entry.1 entry.2)) notes =
      notes ++ index.map fun e => (canonicalNamespaceNoteRelative e.1, noteText e.1 e.2) := by
  induction index generalizing notes with
  | nil => simp
  | cons entry rest ih =>
    have hfresh : notes.filter (fun note => note.1 ≠ canonicalNamespaceNoteRelative entry.1) =
        notes := by
      rw [List.filter_eq_self]
      intro note hnote
      rw [decide_eq_true_eq]
      intro heq
      rw [List.nodup_append] at hnodup
      exact hnodup.2.2 note.1 (List.mem_map_of_mem hnote) _ List.mem_cons_self heq
    rw [List.foldl_cons, writeNote, hfresh, ih]
    · simp
    · rw [List.map_append, List.append_assoc]
      exact hnodup

theorem mem_namespaces {ns : String} :
    ns ∈ (records.map MemoryEntry.canonicalNamespace).dedup.insertionSort (· ≤ ·) ↔
      ∃ m ∈ records, m.canonicalNamespace = ns := by
  rw [List.mem_insertionSort, List.mem_dedup, List.mem_map]

theorem namespaceIndex_paths (records : List MemoryEntry) :
    ((namespaceIndex records).map fun e => canonicalNamespaceNoteRelative e.1).Nodup := by
  unfold namespaceIndex
  rw [List.map_map]
  refine List.Nodup.map_on ?_ ?_
  · intro a ha b hb hpath
    obtain ⟨m, -, rfl⟩ := mem_namespaces.mp ha
    obtain ⟨n, -, rfl⟩ := mem_namespaces.mp hb
    exact canonicalNamespaceNoteRelative_injective hpath
  · exact (List.perm_insertionSort _ _).nodup_iff.mpr (List.nodup_dedup _)

theorem writeNotes_eq (records : List MemoryEntry) : writeNotes (namespaceIndex records) =
    (namespaceIndex records).map fun e => (canonicalNamespaceNoteRelative e.1, noteText e.1 e.2) :=
  foldl_writeNote (namespaceIndex_paths records)

theorem noteText_spec (h : Lined records) (m : MemoryEntry) :
    splitLines (noteText m.canonicalNamespace (namespaceLines records m.canonicalNamespace)) =
        noteHeader m.canonicalNamespace ++ namespaceLines records m.canonicalNamespace ++ [""] ∧
      entriesOf (noteText m.canonicalNamespace (namespaceLines records m.canonicalNamespace)) =
        namespaceLines records m.canonicalNamespace := by
  have hlines : ∀ line ∈ noteHeader m.canonicalNamespace ++
      namespaceLines records m.canonicalNamespace, OneLine line := by
    intro line hline
    rcases List.mem_append.mp hline with hline | hline
    · exact oneLine_noteHeader m line hline
    · obtain ⟨n, hn, rfl⟩ := List.mem_map.mp hline
      exact oneLine_namespaceLine (h n (List.mem_of_mem_filter hn))
  refine ⟨splitLines_unlines hlines, ?_⟩
  rw [noteText, entriesOf_unlines hlines, List.filter_append, isEntry_noteHeader, List.nil_append,
    namespaceLines, filter_map_of_all isEntry_namespaceLine]

theorem lookup_of_mem {α β : Type} [BEq α] [LawfulBEq α] {xs : List (α × β)} {k : α} {v : β}
    (hnodup : (xs.map Prod.fst).Nodup) (h : (k, v) ∈ xs) : xs.lookup k = some v := by
  obtain ⟨as, bs, rfl⟩ := List.append_of_mem h
  rw [List.lookup_eq_some_iff]
  refine ⟨as, bs, rfl, fun p hp => ?_⟩
  rw [List.map_append, List.nodup_append] at hnodup
  have hne := hnodup.2.2 p.1 (List.mem_map_of_mem hp) k List.mem_cons_self
  simpa using fun heq => hne heq.symm

theorem exportDir_nodup (records : List MemoryEntry) :
    ((exportDir records).notes.map Prod.fst).Nodup := by
  unfold exportDir
  split
  · exact List.nodup_nil
  · dsimp only
    rw [writeNotes_eq, List.map_map]
    exact namespaceIndex_paths records

theorem exportDir_note (records : List MemoryEntry) (path : List String) :
    (∃ m ∈ records, m.notePath = path ∧ (exportDir records).note path =
      noteText m.canonicalNamespace (namespaceLines records m.canonicalNamespace)) ∨
      (∀ m ∈ records, m.notePath ≠ path) ∧ (exportDir records).note path = "" := by
  by_cases hpath : ∃ m ∈ records, m.notePath = path
  · obtain ⟨m, hm, rfl⟩ := hpath
    refine .inl ⟨m, hm, rfl, ?_⟩
    have hne : records ≠ [] := List.ne_nil_of_mem hm
    have hmem : (m.notePath, noteText m.canonicalNamespace
        (namespaceLines records m.canonicalNamespace)) ∈ (exportDir records).notes := by
      rw [exportDir, if_neg hne]
      dsimp only
      rw [writeNotes_eq, namespaceIndex, List.map_map]
      exact List.mem_map.mpr ⟨m.canonicalNamespace, mem_namespaces.mpr ⟨m, hm, rfl⟩, rfl⟩
    rw [CanonicalDir.note, lookup_of_mem (exportDir_nodup records) hmem]
    rfl
  · refine .inr ⟨fun m hm heq => hpath ⟨m, hm, heq⟩, ?_⟩
    have hnone : (exportDir records).notes.lookup path = none := by
      unfold exportDir
      split
      · rfl
      · dsimp only
        rw [List.lookup_eq_none_iff, writeNotes_eq, namespaceIndex, List.map_map]
        intro note hnote
        obtain ⟨ns, hns, rfl⟩ := List.mem_map.mp hnote
        obtain ⟨m, hm, rfl⟩ := mem_namespaces.mp hns
        exact bne_iff_ne.mpr fun heq => hpath ⟨m, hm, heq.symm⟩
    rw [CanonicalDir.note, hnone]
    rfl

theorem exportDir_rootFile (records : List MemoryEntry) :
    (exportDir records).rootFile = rootText records ∨
      records = [] ∧ (exportDir records).rootFile = "" := by
  unfold exportDir
  split
  · rename_i hempty
    exact .inr ⟨hempty, rfl⟩
  · exact .inl rfl

theorem exportDir_root (h : Lined records) :
    entriesOf (exportDir records).rootFile =
        (records.filter MemoryEntry.sharedSafe).map MemoryEntry.entryLine ∧
      ∀ line ∈ splitLines (exportDir records).rootFile, line ∈ rootHeader ∨ line ∈ emptyRoot ∨
        ∃ m ∈ records, m.sharedSafe = true ∧ line = m.entryLine := by
  rcases exportDir_rootFile records with hfile | ⟨rfl, hfile⟩
  · obtain ⟨⟨header, hheader, hlines⟩, hentries⟩ := rootText_spec h
    rw [hfile]
    refine ⟨hentries, fun line hline => ?_⟩
    rw [hlines, List.mem_append, List.mem_append] at hline
    rcases hline with (hline | hline) | hline
    · rcases hheader with rfl | rfl
      · exact .inl hline
      · exact .inr (.inl hline)
    · obtain ⟨m, hm, rfl⟩ := List.mem_map.mp hline
      obtain ⟨hmem, hsafe⟩ := List.mem_filter.mp hm
      exact .inr (.inr ⟨m, hmem, hsafe, rfl⟩)
    · rw [List.mem_singleton.mp hline]
      exact .inl (by decide)
  · rw [hfile]
    exact ⟨rfl, fun line hline => .inl (by rw [List.mem_singleton.mp hline]; decide)⟩

theorem exportDir_notes (h : Lined records) (path : List String) :
    entriesOf ((exportDir records).note path) =
        (records.filter fun m => m.notePath = path).map MemoryEntry.namespaceLine ∧
      ∀ line ∈ splitLines ((exportDir records).note path), line = "" ∨
        ∃ m ∈ records, m.notePath = path ∧
          (line ∈ noteHeader m.canonicalNamespace ∨ line = m.namespaceLine) := by
  rcases exportDir_note records path with ⟨m, hm, rfl, hnote⟩ | ⟨hnone, hnote⟩
  · obtain ⟨hlines, hentries⟩ := noteText_spec h m
    have hpath : ∀ n : MemoryEntry, n.canonicalNamespace = m.canonicalNamespace ↔
        n.notePath = m.notePath := fun n =>
      ⟨fun heq => by rw [MemoryEntry.notePath, heq, MemoryEntry.notePath],
        canonicalNamespaceNoteRelative_injective⟩
    rw [hnote]
    refine ⟨?_, fun line hline => ?_⟩
    · rw [hentries, namespaceLines]
      simp only [hpath]
    · rw [hlines, List.mem_append, List.mem_append] at hline
      rcases hline with (hline | hline) | hline
      · exact .inr ⟨m, hm, rfl, .inl hline⟩
      · obtain ⟨n, hn, rfl⟩ := List.mem_map.mp hline
        obtain ⟨hmem, hns⟩ := List.mem_filter.mp hn
        exact .inr ⟨n, hmem, (hpath n).mp (of_decide_eq_true hns), .inr rfl⟩
      · exact .inl (List.mem_singleton.mp hline)
  · rw [hnote]
    refine ⟨?_, fun line hline => .inl (List.mem_singleton.mp hline)⟩
    have hempty : records.filter (fun m => m.notePath = path) = [] := by
      rw [List.filter_eq_nil_iff]
      exact fun m hm => by simpa using hnone m hm
    rw [hempty]
    rfl

theorem exportDir_agrees (hrecords : records.Perm (memories.filter MemoryEntry.promoted))
    (hlined : Lined (memories.filter MemoryEntry.promoted)) :
    FilesAgree (exportDir records) memories := by
  have hmem : ∀ m ∈ records, m ∈ memories ∧ m.promoted = true := fun m hm =>
    List.mem_filter.mp (hrecords.mem_iff.mp hm)
  have hrecordsLined : Lined records := fun m hm => hlined m (hrecords.mem_iff.mp hm)
  have hfilter : ∀ p : MemoryEntry → Bool, (records.filter p).Perm
      (memories.filter fun m => m.promoted && p m) := fun p => by
    have hperm := hrecords.filter p
    rw [List.filter_filter] at hperm
    simpa only [Bool.and_comm] using hperm
  obtain ⟨hentries, hlines⟩ := exportDir_root hrecordsLined
  refine ⟨?_, fun line hline => ?_, fun path => ?_, fun path line hline => ?_,
    fun a _ b _ => canonicalNamespaceNoteRelative_injective, exportDir_nodup records⟩
  · rw [hentries]
    exact (hfilter MemoryEntry.sharedSafe).map MemoryEntry.entryLine
  · rcases hlines line hline with hheader | hempty | ⟨m, hm, hsafe, rfl⟩
    · exact .inl hheader
    · exact .inr (.inl hempty)
    · exact .inr (.inr ⟨m, (hmem m hm).1, (hmem m hm).2, hsafe, rfl⟩)
  · rw [(exportDir_notes hrecordsLined path).1]
    exact (hfilter fun m => m.notePath = path).map MemoryEntry.namespaceLine
  · rcases (exportDir_notes hrecordsLined path).2 line hline with hblank | ⟨m, hm, hpath, hline⟩
    · exact .inl hblank
    · exact .inr ⟨m, (hmem m hm).1, (hmem m hm).2, hpath, hline⟩

end

end GenieClaw.Memory
