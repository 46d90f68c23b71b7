import GenieClaw.Library.Traced
import GenieClaw.Memory.Store

/-!
# Memories in the prompt of a turn

`genie-core/src/memory/inject.rs`, the read context of a turn from
`genie-core/src/memory/policy.rs`, and `SpeakerInfo` of `genie-core/src/channel/mod.rs`.
Identity and relationship memories, what the search finds and the recent preferences are
offered in this order; those that may be spoken in the turn are rendered within the budget.

* `text_tracedContext`, `sources_tracedContext`: the section and the memories it was made of.
-/

namespace GenieClaw.Memory

open Library Library.Text List

/-! ## The read context -/

structure SpeakerInfo where
  name : Option String := none
  confidence : IdentityConfidence := .unknown

/-- A transport has supplied a resolved speaker. -/
def SpeakerInfo.isResolved (speaker : SpeakerInfo) : Bool :=
  speaker.name.isSome || speaker.confidence ≠ .unknown

def namedPersonOpenings : List String :=
  ["what does ", "what did ", "tell me about ", "who is ", "does ", "is ", "ask ", "call ",
    "text ", "message ", "remind "]

def namedPersonPhrases : List String :=
  [" my wife", " my husband", " my son", " my daughter", " my mom", " my mother", " my dad",
    " my father", " my friend", " my partner"]

def textMentionsNamedPerson (lower : String) : Bool :=
  namedPersonOpenings.any (fun opening => startsWith opening lower) ||
    containsAny lower namedPersonPhrases

def textHasPrivateIntent (lower : String) : Bool :=
  containsAny lower ["private", "privately", "for me only", "don't say this aloud",
    "do not say this aloud"]

def memoryReadContextFromText (text : String) (identityConfidence : IdentityConfidence)
    (sharedSpaceVoice : Bool) : MemoryReadContext :=
  let lower := toAsciiLowercase (trim text)
  { identityConfidence
    explicitNamedPerson := textMentionsNamedPerson lower
    explicitPrivateIntent := textHasPrivateIntent lower
    sharedSpaceVoice }

def SpeakerInfo.memoryReadContext (speaker : SpeakerInfo) (text : String)
    (sharedSpaceVoice : Bool) : MemoryReadContext :=
  memoryReadContextFromText text speaker.confidence sharedSpaceVoice

/-! ## The budget -/

/-- Aligned with the budget of the agent harness. -/
def memoryHydrationBudgetTokens : Nat := 700

def estimateHydrationTokensFromLen (len : Nat) : Nat := (len + 3) / 4

def estimateHydrationTokens (text : String) : Nat :=
  estimateHydrationTokensFromLen text.utf8ByteSize

def formatMemoryLines (entries : List String) : String :=
  joinWith "\n" (entries.map fun entry => "- " ++ entry)

/-- The first `mid` characters, with an ellipsis where they are not all. -/
def truncationCandidate (entry : String) (mid : Nat) : String :=
  if entry.length ≤ mid then String.ofList (entry.toList.take mid)
  else String.ofList (entry.toList.take mid) ++ "…"

/-- The binary search for the largest number of characters that fits. -/
def truncationSearch (entry : String) (budgetTokens : Nat) : Nat → Nat → Nat → Nat
  | 0, lo, _ => lo
  | fuel + 1, lo, hi =>
    if lo < hi then
      let mid := (lo + hi + 1) / 2
      if estimateHydrationTokens ("- " ++ truncationCandidate entry mid) ≤ budgetTokens then
        truncationSearch entry budgetTokens fuel mid hi
      else truncationSearch entry budgetTokens fuel lo (mid - 1)
    else lo

def truncateEntryToBudget (entry : String) (budgetTokens : Nat) : String :=
  if estimateHydrationTokens ("- " ++ entry) ≤ budgetTokens then entry
  else
    let lo := truncationSearch entry budgetTokens entry.length 0 entry.length
    if lo = 0 then ""
    else if entry.length ≤ lo then entry
    else String.ofList (entry.toList.take lo) ++ "…"

/-- The loop of `fit_entries_to_budget`; `joinedLen` is the length of the lines selected so
far. -/
def fitEntriesFrom (budgetTokens : Nat) (selected : List String) (joinedLen : Nat) :
    List String → List String
  | [] => selected
  | entry :: rest =>
    let separator := if selected = [] then 0 else 1
    let trialLen := joinedLen + separator + 2 + entry.utf8ByteSize
    if estimateHydrationTokensFromLen trialLen ≤ budgetTokens then
      fitEntriesFrom budgetTokens (selected ++ [entry]) trialLen rest
    else selected

def fitEntriesToBudget (entries : List String) : List String :=
  fitEntriesFrom memoryHydrationBudgetTokens [] 0 entries

def applyHydrationBudget (entries : List String) : String :=
  match entries with
  | [] => "(no household context yet)"
  | first :: _ =>
    let selected := fitEntriesToBudget entries
    let truncated := truncateEntryToBudget first memoryHydrationBudgetTokens
    if selected = [] ∧ truncated ≠ "" then formatMemoryLines [truncated]
    else formatMemoryLines selected

/-! ## The memory section -/

/-- What the queries of the store answer; nothing where a query fails. -/
structure MemoryReads where
  getByKind : String → Nat → Option (List MemoryEntry)
  search : String → Nat → Option (List MemoryEntry)
  recent : Nat → Option (List MemoryEntry)
  kind_of_getByKind : ∀ kind limit entries, getByKind kind limit = some entries →
    ∀ entry ∈ entries, entry.kind = kind

def mayInjectEntry (entry : MemoryEntry) (readContext : MemoryReadContext) : Bool :=
  (assessMemoryRead entry.metadata readContext).allowed

/-- The entries collected so far, and the ids that were looked at. -/
structure Collected where
  entries : List MemoryEntry := []
  seenIds : List Nat := []

def Collected.offer (readContext : MemoryReadContext) (c : Collected) (entry : MemoryEntry) :
    Collected :=
  if entry.id ∈ c.seenIds then c
  else if mayInjectEntry entry readContext then
    ⟨c.entries ++ [entry], c.seenIds ++ [entry.id]⟩
  else { c with seenIds := c.seenIds ++ [entry.id] }

/-- One of the sources. -/
def Collected.offerAll (readContext : MemoryReadContext) (c : Collected)
    (entries : Option (List MemoryEntry)) : Collected :=
  (entries.getD []).foldl (Collected.offer readContext) c

/-- The preferences, while there is room. -/
def Collected.offerWhileRoom (readContext : MemoryReadContext) (c : Collected)
    (entries : Option (List MemoryEntry)) : Collected :=
  (entries.getD []).foldl (fun (c : Collected) entry =>
    if 8 ≤ c.entries.length then c else c.offer readContext entry) c

/-- The memories that the four sources give for a query. -/
def contextEntries (reads : MemoryReads) (userQuery : String)
    (readContext : MemoryReadContext) : List MemoryEntry :=
  let c := ({} : Collected).offerAll readContext (reads.getByKind "identity" 5)
  let c := c.offerAll readContext (reads.getByKind "relationship" 3)
  let c := if trim userQuery = "" then c else c.offerAll readContext (reads.search userQuery 5)
  let c := c.offerWhileRoom readContext (reads.getByKind "preference" 3)
  c.entries

def contextLine (entry : MemoryEntry) : String := "[" ++ entry.kind ++ "] " ++ entry.content

def buildMemoryContextWithReadContext (reads : MemoryReads) (userQuery : String)
    (readContext : MemoryReadContext) : String :=
  applyHydrationBudget ((contextEntries reads userQuery readContext).map contextLine)

def buildMemoryContext (reads : MemoryReads) (userQuery : String) : String :=
  buildMemoryContextWithReadContext reads userQuery .sharedRoomVoice

/-! ## What is offered -/

/-- The entries whose id was not looked at before, in their order. -/
def unseen : List Nat → List MemoryEntry → List MemoryEntry
  | _, [] => []
  | seen, entry :: rest =>
    if entry.id ∈ seen then unseen seen rest else entry :: unseen (seen ++ [entry.id]) rest

def readable (readContext : MemoryReadContext) (entries : List MemoryEntry) : List MemoryEntry :=
  entries.filter fun entry => mayInjectEntry entry readContext

theorem readable_cons (readContext : MemoryReadContext) (entry : MemoryEntry)
    (rest : List MemoryEntry) : readable readContext (entry :: rest) =
      if mayInjectEntry entry readContext then entry :: readable readContext rest
      else readable readContext rest :=
  filter_cons

theorem unseen_append (seen : List Nat) (xs ys : List MemoryEntry) :
    unseen seen (xs ++ ys) =
      unseen seen xs ++ unseen (seen ++ (unseen seen xs).map MemoryEntry.id) ys := by
  induction xs generalizing seen with
  | nil => simp [unseen]
  | cons x xs ih =>
    rw [cons_append, unseen, unseen]
    split_ifs with hseen
    · exact ih seen
    · rw [ih, cons_append, map_cons, append_assoc, singleton_append]

theorem offerAll_eq (readContext : MemoryReadContext) (c : Collected)
    (entries : Option (List MemoryEntry)) :
    c.offerAll readContext entries =
      ⟨c.entries ++ readable readContext (unseen c.seenIds (entries.getD [])),
        c.seenIds ++ (unseen c.seenIds (entries.getD [])).map MemoryEntry.id⟩ := by
  unfold Collected.offerAll
  induction entries.getD [] generalizing c with
  | nil => simp [unseen, readable]
  | cons x xs ih =>
    rw [foldl_cons, ih, unseen, Collected.offer]
    split_ifs with hseen hmay
    · rfl
    · simp [readable, filter_cons_of_pos, hmay]
    · simp [readable, hmay]

theorem offerWhileRoom_entries (readContext : MemoryReadContext) (c : Collected)
    (entries : Option (List MemoryEntry)) :
    (c.offerWhileRoom readContext entries).entries =
      c.entries ++ (readable readContext (unseen c.seenIds (entries.getD []))).take
        (8 - c.entries.length) := by
  unfold Collected.offerWhileRoom
  induction entries.getD [] generalizing c with
  | nil => simp [unseen, readable]
  | cons x xs ih =>
    rw [foldl_cons, unseen]
    by_cases hroom : 8 ≤ c.entries.length
    · rw [if_pos hroom, ih, Nat.sub_eq_zero_of_le hroom, take_zero, take_zero]
    · rw [if_neg hroom, ih, Collected.offer]
      split_ifs with hseen hmay
      · rfl
      · have hsub : 8 - c.entries.length = 8 - (c.entries.length + 1) + 1 := by omega
        rw [readable_cons, if_pos hmay, hsub, take_succ_cons, length_append,
          length_singleton, append_assoc, singleton_append]
      · rw [readable_cons, if_neg hmay]

/-- What the identity and relationship memories and the search offer. -/
def offeredFirst (reads : MemoryReads) (userQuery : String) : List MemoryEntry :=
  unseen [] ((reads.getByKind "identity" 5).getD [] ++
    (reads.getByKind "relationship" 3).getD [] ++
    if trim userQuery = "" then [] else (reads.search userQuery 5).getD [])

/-- What the preferences offer besides. -/
def offeredPreferences (reads : MemoryReads) (userQuery : String) : List MemoryEntry :=
  unseen ((offeredFirst reads userQuery).map MemoryEntry.id)
    ((reads.getByKind "preference" 3).getD [])

theorem contextEntries_eq (reads : MemoryReads) (userQuery : String)
    (readContext : MemoryReadContext) :
    contextEntries reads userQuery readContext =
      readable readContext (offeredFirst reads userQuery) ++
        (readable readContext (offeredPreferences reads userQuery)).take
          (8 - (readable readContext (offeredFirst reads userQuery)).length) := by
  unfold contextEntries
  dsimp only
  rw [offerWhileRoom_entries]
  have hfirst : (if trim userQuery = "" then
      (({} : Collected).offerAll readContext (reads.getByKind "identity" 5)).offerAll readContext
        (reads.getByKind "relationship" 3)
    else
      ((({} : Collected).offerAll readContext (reads.getByKind "identity" 5)).offerAll readContext
        (reads.getByKind "relationship" 3)).offerAll readContext (reads.search userQuery 5)) =
      ⟨readable readContext (offeredFirst reads userQuery),
        (offeredFirst reads userQuery).map MemoryEntry.id⟩ := by
    unfold offeredFirst
    split_ifs with hblank
    · simp only [offerAll_eq, unseen_append, nil_append, readable, filter_append,
        map_append, append_nil]
    · simp only [offerAll_eq, unseen_append, nil_append, readable, filter_append,
        map_append]
  rw [hfirst]
  rfl

/-! ## What fits -/

theorem joinWith_append_singleton (sep : String) {xs : List String} (x : String) (h : xs ≠ []) :
    joinWith sep (xs ++ [x]) = joinWith sep xs ++ sep ++ x := by
  induction xs with
  | nil => exact absurd rfl h
  | cons y ys ih =>
    cases ys with
    | nil => simp [joinWith, List.intercalate, String.ofList_append, String.append_assoc]
    | cons z zs =>
      have hcons : ∀ rest : List String, joinWith sep (y :: z :: rest) =
          y ++ sep ++ joinWith sep (z :: rest) := fun rest => by
        simp [joinWith, List.intercalate, String.ofList_append, String.append_assoc]
      have hmore := ih (cons_ne_nil z zs)
      rw [cons_append] at hmore
      rw [cons_append, cons_append, hcons, hmore, hcons]
      simp only [String.append_assoc]

theorem size_formatMemoryLines_append (xs : List String) (x : String) :
    (formatMemoryLines (xs ++ [x])).utf8ByteSize =
      (formatMemoryLines xs).utf8ByteSize + (if xs = [] then 0 else 1) + 2 + x.utf8ByteSize := by
  have htwo : ("- " : String).utf8ByteSize = 2 := by decide
  have hone : ("\n" : String).utf8ByteSize = 1 := by decide
  unfold formatMemoryLines
  rw [map_append, map_singleton]
  split_ifs with hnil
  · subst hnil
    have hline : joinWith "\n" ([].map (fun entry => "- " ++ entry) ++ ["- " ++ x]) =
        "- " ++ x := by
      rw [map_nil, nil_append, joinWith, map_singleton,
        intercalate_singleton, String.ofList_toList]
    rw [hline, String.utf8ByteSize_append, htwo]
    simp [joinWith]
  · rw [joinWith_append_singleton "\n" ("- " ++ x) (by simpa using hnil)]
    simp only [String.utf8ByteSize_append, htwo, hone]
    omega

theorem size_formatMemoryLines_mono (xs ys : List String) :
    (formatMemoryLines xs).utf8ByteSize ≤ (formatMemoryLines (xs ++ ys)).utf8ByteSize := by
  induction ys generalizing xs with
  | nil => simp
  | cons y ys ih =>
    have hstep := size_formatMemoryLines_append xs y
    have hmore := ih (xs ++ [y])
    rw [append_assoc, singleton_append] at hmore
    omega

theorem estimate_mono {m n : Nat} (h : m ≤ n) :
    estimateHydrationTokensFromLen m ≤ estimateHydrationTokensFromLen n :=
  Nat.div_le_div_right (Nat.add_le_add_right h 3)

theorem fitEntriesFrom_prefix (budgetTokens : Nat) (selected : List String) (joinedLen : Nat)
    (entries : List String) : ∃ more, more <+: entries ∧
      fitEntriesFrom budgetTokens selected joinedLen entries = selected ++ more := by
  induction entries generalizing selected joinedLen with
  | nil => exact ⟨[], prefix_rfl, by simp [fitEntriesFrom]⟩
  | cons x xs ih =>
    unfold fitEntriesFrom
    dsimp only
    generalize (if selected = [] then 0 else 1) = separator
    split_ifs with hfits
    · obtain ⟨more, hmore, heq⟩ := ih (selected ++ [x]) (joinedLen + separator + 2 + x.utf8ByteSize)
      refine ⟨x :: more, (prefix_cons_inj x).mpr hmore, ?_⟩
      rw [heq, append_assoc, singleton_append]
    · exact ⟨[], nil_prefix, (append_nil _).symm⟩

theorem lt_length_fitEntriesFrom (budgetTokens : Nat) (selected entries : List String) {k : Nat}
    (hk : k < entries.length) :
    selected.length + k < (fitEntriesFrom budgetTokens selected
        (formatMemoryLines selected).utf8ByteSize entries).length ↔
      estimateHydrationTokens (formatMemoryLines (selected ++ entries.take (k + 1))) ≤
        budgetTokens := by
  induction entries generalizing selected k with
  | nil => exact absurd hk (Nat.not_lt_zero k)
  | cons x xs ih =>
    rw [fitEntriesFrom, ← size_formatMemoryLines_append]
    split_ifs with hfits
    · cases k with
      | zero =>
        obtain ⟨more, -, heq⟩ := fitEntriesFrom_prefix budgetTokens (selected ++ [x])
          (formatMemoryLines (selected ++ [x])).utf8ByteSize xs
        rw [heq]
        simpa [estimateHydrationTokens] using hfits
      | succ k =>
        have hmore := ih (selected ++ [x]) (Nat.lt_of_succ_lt_succ hk)
        rw [length_append, length_singleton, append_assoc,
          singleton_append] at hmore
        rw [take_succ_cons, ← hmore, Nat.add_assoc, Nat.add_comm 1 k]
    · refine iff_of_false (by omega) fun hlater => hfits (le_trans (estimate_mono ?_) hlater)
      have hmono := size_formatMemoryLines_mono (selected ++ [x]) (xs.take k)
      rwa [append_assoc, singleton_append] at hmono

theorem fitEntriesToBudget_eq_take (entries : List String) :
    fitEntriesToBudget entries = entries.take (fitEntriesToBudget entries).length := by
  obtain ⟨more, hmore, heq⟩ := fitEntriesFrom_prefix memoryHydrationBudgetTokens [] 0 entries
  rw [fitEntriesToBudget, heq, nil_append]
  exact List.prefix_iff_eq_take.mp hmore

theorem lt_length_fit (entries : List String) {k : Nat} (hk : k < entries.length) :
    k < (fitEntriesToBudget entries).length ↔
      estimateHydrationTokens (formatMemoryLines (entries.take (k + 1))) ≤
        memoryHydrationBudgetTokens := by
  have h := lt_length_fitEntriesFrom memoryHydrationBudgetTokens [] entries hk
  rwa [length_nil, Nat.zero_add, nil_append] at h

theorem truncationCandidate_one_fits (entry : String) {budgetTokens : Nat} (h : 3 ≤ budgetTokens) :
    estimateHydrationTokens ("- " ++ truncationCandidate entry 1) ≤ budgetTokens := by
  have hchar : (String.ofList (entry.toList.take 1)).utf8ByteSize ≤ 4 := by
    cases entry.toList with
    | nil => simp
    | cons c cs =>
      show (String.ofList [c]).utf8ByteSize ≤ 4
      rw [← String.singleton_eq_ofList, String.utf8ByteSize_singleton]
      exact Char.utf8Size_le_four c
  have hdots : ("…" : String).utf8ByteSize = 3 := by decide
  have htwo : ("- " : String).utf8ByteSize = 2 := by decide
  refine le_trans ?_ h
  unfold estimateHydrationTokens estimateHydrationTokensFromLen truncationCandidate
  split_ifs with hall
  · rw [String.utf8ByteSize_append, htwo]
    omega
  · rw [String.utf8ByteSize_append, String.utf8ByteSize_append, htwo, hdots]
    omega

theorem truncationSearch_pos (entry : String) {budgetTokens : Nat} (hbudget : 3 ≤ budgetTokens)
    {fuel lo hi : Nat} (hfuel : hi - lo ≤ fuel) (h : 0 < lo ∨ lo < hi) :
    0 < truncationSearch entry budgetTokens fuel lo hi := by
  induction fuel generalizing lo hi with
  | zero =>
    rw [truncationSearch]
    omega
  | succ fuel ih =>
    rw [truncationSearch]
    dsimp only
    split_ifs with hopen hfits
    · exact ih (by omega) (.inl (by omega))
    · refine ih (by omega) ?_
      by_cases hone : (lo + hi + 1) / 2 = 1
      · rw [hone] at hfits
        exact absurd (truncationCandidate_one_fits entry hbudget) hfits
      · omega
    · omega

theorem truncateEntryToBudget_ne_empty {entry : String} {budgetTokens : Nat}
    (hbudget : 3 ≤ budgetTokens) (hentry : entry ≠ "") :
    truncateEntryToBudget entry budgetTokens ≠ "" := by
  have hpos : 0 < truncationSearch entry budgetTokens entry.length 0 entry.length :=
    truncationSearch_pos entry hbudget le_rfl (.inr (by
      rw [Nat.pos_iff_ne_zero]
      exact fun hzero => hentry (String.length_eq_zero_iff.mp hzero)))
  unfold truncateEntryToBudget
  dsimp only
  split_ifs with hfits hzero hall
  · exact hentry
  · exact absurd hzero (Nat.ne_of_gt hpos)
  · exact hentry
  · intro hempty
    have := congrArg String.length hempty
    simp at this

/-! ## The memories in the section -/

/-- The memories whose line, or the beginning of it, is shown. -/
def shownEntries (entries : List MemoryEntry) : List MemoryEntry :=
  entries.take (max 1 (fitEntriesToBudget (entries.map contextLine)).length)

/-- The memory section with the memories its lines were drawn from. -/
def tracedContext (entries : List MemoryEntry) : Traced MemoryEntry :=
  match entries with
  | [] => Traced.fixed "(no household context yet)"
  | first :: _ =>
    let kept := (fitEntriesToBudget (entries.map contextLine)).length
    if kept = 0 then
      Traced.fixed "- " ++ Traced.drawn first
        (truncateEntryToBudget (contextLine first) memoryHydrationBudgetTokens)
    else
      Traced.joinWith "\n" ((entries.take kept).map fun entry =>
        Traced.fixed "- " ++ Traced.drawn entry (contextLine entry))

theorem contextLine_ne_empty (entry : MemoryEntry) : contextLine entry ≠ "" := by
  intro h
  have := congrArg String.length h
  simp [contextLine] at this

theorem text_tracedContext (entries : List MemoryEntry) :
    (tracedContext entries).text = applyHydrationBudget (entries.map contextLine) := by
  cases entries with
  | nil => rfl
  | cons first rest =>
    have hcut := @truncateEntryToBudget_ne_empty (contextLine first)
      memoryHydrationBudgetTokens (by decide) (contextLine_ne_empty first)
    unfold tracedContext applyHydrationBudget
    dsimp only
    rw [map_cons]
    dsimp only
    split_ifs with hnone hshort hshort
    · rw [Traced.text_append, Traced.text_fixed, Traced.text_drawn, formatMemoryLines,
        map_singleton, joinWith, map_singleton, intercalate_singleton,
        String.ofList_toList]
    · exact absurd ⟨List.length_eq_zero_iff.mp hnone, hcut⟩ hshort
    · exact absurd (List.length_eq_zero_iff.mpr hshort.1) hnone
    · rw [Traced.text_joinWith, map_map, formatMemoryLines]
      conv_rhs => rw [fitEntriesToBudget_eq_take, ← map_cons, ← map_take, map_map]
      congr 1

theorem sources_tracedContext (entries : List MemoryEntry) :
    (tracedContext entries).sources = shownEntries entries := by
  cases entries with
  | nil => rfl
  | cons first rest =>
    unfold tracedContext shownEntries
    dsimp only
    split_ifs with hnone
    · rw [hnone, Traced.sources_append, Traced.sources_fixed, Traced.sources_drawn]
      rfl
    · rw [Traced.sources_joinWith, max_eq_right (Nat.one_le_iff_ne_zero.mpr hnone),
        flatMap_map]
      simp

theorem mem_shownEntries (entries : List MemoryEntry) (entry : MemoryEntry) :
    entry ∈ shownEntries entries ↔ ∃ before after, entries = before ++ entry :: after ∧
      (before = [] ∨ estimateHydrationTokens (formatMemoryLines
        ((before ++ [entry]).map contextLine)) ≤ memoryHydrationBudgetTokens) := by
  have hfit : ∀ before after, entries = before ++ entry :: after →
      (before.length < (fitEntriesToBudget (entries.map contextLine)).length ↔
        estimateHydrationTokens (formatMemoryLines ((before ++ [entry]).map contextLine)) ≤
          memoryHydrationBudgetTokens) := by
    rintro before after rfl
    rw [lt_length_fit _ (by simp), ← map_take, append_cons,
      take_left' (by simp)]
  constructor
  · intro h
    obtain ⟨k, hk, heq⟩ := List.mem_take_iff_getElem.mp h
    have hlen : k < entries.length := lt_of_lt_of_le hk (Nat.min_le_right _ _)
    have hsplit : entries = entries.take k ++ entry :: entries.drop (k + 1) := by
      rw [← heq, getElem_cons_drop, take_append_drop]
    have hbefore : (entries.take k).length = k := length_take_of_le hlen.le
    refine ⟨entries.take k, entries.drop (k + 1), hsplit, ?_⟩
    rcases Nat.eq_zero_or_pos k with rfl | hpos
    · exact .inl rfl
    · refine .inr ((hfit _ _ hsplit).mp ?_)
      rw [hbefore]
      omega
  · rintro ⟨before, after, hsplit, hfits⟩
    have hlen : before.length <
        max 1 (fitEntriesToBudget (entries.map contextLine)).length := by
      rcases hfits with rfl | hfits
      · exact lt_of_lt_of_le Nat.zero_lt_one (le_max_left _ _)
      · exact lt_of_lt_of_le ((hfit before after hsplit).mpr hfits) (le_max_right _ _)
    refine List.mem_take_iff_getElem.mpr ⟨before.length, ?_, ?_⟩
    · rw [hsplit, length_append, length_cons]
      rw [hsplit] at hlen
      omega
    · simp [hsplit]

theorem line_mem_tracedContext {before after : List MemoryEntry} {entry : MemoryEntry}
    (hfits : estimateHydrationTokens (formatMemoryLines ((before ++ [entry]).map contextLine)) ≤
      memoryHydrationBudgetTokens) :
    (some entry, contextLine entry) ∈ tracedContext (before ++ entry :: after) := by
  have hlen : before.length <
      (fitEntriesToBudget ((before ++ entry :: after).map contextLine)).length := by
    rw [lt_length_fit _ (by simp), ← map_take, append_cons, take_left' (by simp)]
    exact hfits
  have hmem : entry ∈ (before ++ entry :: after).take
      (fitEntriesToBudget ((before ++ entry :: after).map contextLine)).length :=
    List.mem_take_iff_getElem.mpr ⟨before.length, lt_min hlen (by simp), by simp⟩
  generalize before ++ entry :: after = entries at hlen hmem ⊢
  cases entries with
  | nil => cases hmem
  | cons first rest =>
    unfold tracedContext
    dsimp only
    rw [if_neg (by omega)]
    apply Traced.mem_joinWith (mem_map_of_mem hmem)
    exact mem_append_right _ mem_cons_self

end GenieClaw.Memory
