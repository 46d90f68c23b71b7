import GenieClaw.Memory.Inject

/-!
# Memories within the token budget

The running length of `fit_entries_to_budget` against the reference that renders and estimates
the lines anew for each entry, and the binary search of `truncate_entry_to_budget` against the
longest beginning that fits.

* `fitEntriesFrom_longest`, `truncationSearch_spec`: as many entries as fit, and as much of one.
* `hydration_within_budget` (no assumption): both against their references.
-/

namespace GenieClaw.Memory

open Library Library.Text List String

/-! ## The reference -/

/-- The loop of the reference: the lines are rendered with each entry. -/
def fitReferenceFrom (budgetTokens : Nat) (selected : List String) : List String → List String
  | [] => selected
  | entry :: rest =>
    let trial := selected ++ [entry]
    if estimateHydrationTokens (formatMemoryLines trial) ≤ budgetTokens then
      fitReferenceFrom budgetTokens trial rest
    else selected

theorem fitEntriesFrom_eq_reference (budgetTokens : Nat) (selected entries : List String) :
    fitEntriesFrom budgetTokens selected (formatMemoryLines selected).utf8ByteSize entries =
      fitReferenceFrom budgetTokens selected entries := by
  induction entries generalizing selected with
  | nil => rfl
  | cons entry rest ih =>
    rw [fitEntriesFrom, fitReferenceFrom, ← size_formatMemoryLines_append, ih]
    rfl

theorem estimate_formatMemoryLines_mono (xs ys : List String) :
    estimateHydrationTokens (formatMemoryLines xs) ≤
      estimateHydrationTokens (formatMemoryLines (xs ++ ys)) :=
  estimate_mono (size_formatMemoryLines_mono xs ys)

/-- What is kept is the longest beginning of the entries whose lines fit. -/
structure LongestFit (budgetTokens : Nat) (entries kept : List String) : Prop where
  beginning : kept <+: entries
  fits : estimateHydrationTokens (formatMemoryLines kept) ≤ budgetTokens
  longest : ∀ more, more <+: entries → kept.length < more.length →
    budgetTokens < estimateHydrationTokens (formatMemoryLines more)

theorem estimate_formatMemoryLines_nil : estimateHydrationTokens (formatMemoryLines []) = 0 := by
  decide

theorem fitEntriesFrom_longest (budgetTokens : Nat) (entries : List String) :
    LongestFit budgetTokens entries (fitEntriesFrom budgetTokens [] 0 entries) := by
  obtain ⟨kept, hkept, heq⟩ := fitEntriesFrom_prefix budgetTokens [] 0 entries
  have hlength := hkept.length_le
  have hfits : ∀ k < entries.length, k < (fitEntriesFrom budgetTokens [] 0 entries).length ↔
      estimateHydrationTokens (formatMemoryLines (entries.take (k + 1))) ≤ budgetTokens := by
    intro k hk
    have h := lt_length_fitEntriesFrom budgetTokens [] entries hk
    rwa [length_nil, Nat.zero_add, nil_append] at h
  rw [heq, nil_append] at hfits ⊢
  refine ⟨hkept, ?_, fun more hmore hlonger => ?_⟩
  · rcases Nat.eq_zero_or_pos kept.length with hzero | hpos
    · rw [List.length_eq_zero_iff.mp hzero, estimate_formatMemoryLines_nil]
      exact Nat.zero_le _
    · have hlast := (hfits (kept.length - 1) (by omega)).mp (by omega)
      rwa [Nat.sub_add_cancel hpos, ← List.prefix_iff_eq_take.mp hkept] at hlast
  · by_contra hsmall
    have hbound := hmore.length_le
    have hnext := (hfits kept.length (by omega)).mpr
      (Nat.le_trans ?_ (Nat.not_lt.mp hsmall))
    · exact absurd hnext (Nat.lt_irrefl _)
    · have htake : entries.take (kept.length + 1) <+: more := by
        rw [List.prefix_iff_eq_take.mp hmore]
        exact take_prefix_take_left hlonger
      obtain ⟨rest, hrest⟩ := htake
      rw [← hrest]
      exact estimate_formatMemoryLines_mono _ _

/-! ## The beginning of an entry -/

/-- The line of the entry is within the budget. -/
def LineFits (budgetTokens : Nat) (entry : String) : Prop :=
  estimateHydrationTokens ("- " ++ entry) ≤ budgetTokens

/-- The first characters of an entry, with the ellipsis. -/
def cutAt (entry : String) (n : Nat) : String := String.ofList (entry.toList.take n) ++ "…"

theorem truncationCandidate_of_lt {entry : String} {n : Nat} (h : n < entry.length) :
    truncationCandidate entry n = cutAt entry n := if_neg (Nat.not_le.mpr h)

theorem truncationCandidate_length (entry : String) :
    truncationCandidate entry entry.length = entry := by
  rw [truncationCandidate, if_pos (Nat.le_refl _), ← length_toList, take_length,
    ofList_toList]

theorem size_cutAt_mono (entry : String) {m n : Nat} (h : m ≤ n) :
    (cutAt entry m).utf8ByteSize ≤ (cutAt entry n).utf8ByteSize := by
  obtain ⟨rest, hrest⟩ := take_prefix_take_left (l := entry.toList) h
  unfold cutAt
  rw [← hrest, ofList_append, utf8ByteSize_append, utf8ByteSize_append,
    utf8ByteSize_append]
  omega

theorem fits_candidate_anti {entry : String} {budgetTokens m n : Nat}
    (hlong : ¬ LineFits budgetTokens entry) (hmn : m ≤ n) (hn : n ≤ entry.length)
    (h : LineFits budgetTokens (truncationCandidate entry n)) :
    LineFits budgetTokens (truncationCandidate entry m) := by
  rcases Nat.lt_or_eq_of_le hn with hlt | rfl
  · rw [truncationCandidate_of_lt hlt] at h
    rw [truncationCandidate_of_lt (Nat.lt_of_le_of_lt hmn hlt)]
    refine Nat.le_trans (estimate_mono ?_) h
    rw [utf8ByteSize_append, utf8ByteSize_append]
    exact Nat.add_le_add_left (size_cutAt_mono entry hmn) _
  · rw [truncationCandidate_length] at h
    exact absurd h hlong

/-- The search keeps its answer between its bounds: the lower one fits, or is 0, and nothing
above the upper one does. -/
theorem truncationSearch_spec {entry : String} {budgetTokens : Nat}
    (hlong : ¬ LineFits budgetTokens entry) {fuel lo hi : Nat} (hfuel : hi ≤ lo + fuel)
    (hlo : lo = 0 ∨ LineFits budgetTokens (truncationCandidate entry lo)) (hle : lo ≤ hi)
    (hhi : hi ≤ entry.length)
    (habove : ∀ n, hi < n → n ≤ entry.length →
      ¬ LineFits budgetTokens (truncationCandidate entry n)) :
    let n := truncationSearch entry budgetTokens fuel lo hi
    n ≤ entry.length ∧ (n = 0 ∨ LineFits budgetTokens (truncationCandidate entry n)) ∧
      ∀ m, n < m → m ≤ entry.length → ¬ LineFits budgetTokens (truncationCandidate entry m) := by
  induction fuel generalizing lo hi with
  | zero =>
    have heq : hi = lo := Nat.le_antisymm hfuel hle
    subst heq
    exact ⟨hhi, hlo, habove⟩
  | succ fuel ih =>
    rw [truncationSearch]
    dsimp only
    split
    · rename_i hopen
      split
      · rename_i hfits
        exact ih (by omega) (.inr hfits) (by omega) hhi habove
      · rename_i hnot
        refine ih (by omega) hlo (by omega) (by omega) fun n hn hlen hfits => hnot ?_
        exact fits_candidate_anti hlong (by omega) hlen hfits
    · rename_i hclosed
      have heq : hi = lo := by omega
      subst heq
      exact ⟨hhi, hlo, habove⟩

/-- The longest beginning with an ellipsis whose line fits, or nothing where none does. -/
def LongestCut (budgetTokens : Nat) (entry cut : String) : Prop :=
  (cut = "" ∧ ∀ m, 0 < m → m < entry.length → ¬ LineFits budgetTokens (cutAt entry m)) ∨
  ∃ n, 0 < n ∧ n < entry.length ∧ cut = cutAt entry n ∧ LineFits budgetTokens (cutAt entry n) ∧
    ∀ m, n < m → m < entry.length → ¬ LineFits budgetTokens (cutAt entry m)

theorem truncateEntryToBudget_spec (budgetTokens : Nat) (entry : String) :
    (LineFits budgetTokens entry → truncateEntryToBudget entry budgetTokens = entry) ∧
    (¬ LineFits budgetTokens entry →
      LongestCut budgetTokens entry (truncateEntryToBudget entry budgetTokens)) := by
  refine ⟨fun hfits => if_pos hfits, fun hlong => ?_⟩
  have hspec := @truncationSearch_spec entry budgetTokens hlong entry.length 0 entry.length
    (Nat.le_add_left _ _) (.inl rfl) (Nat.zero_le _) (Nat.le_refl _)
    fun n hn hlen => absurd hlen (Nat.not_le.mpr hn)
  have hcut : truncateEntryToBudget entry budgetTokens =
      (let lo := truncationSearch entry budgetTokens entry.length 0 entry.length
      if lo = 0 then "" else if entry.length ≤ lo then entry
      else String.ofList (entry.toList.take lo) ++ "…") := if_neg hlong
  rw [hcut]
  generalize truncationSearch entry budgetTokens entry.length 0 entry.length = n at hspec ⊢
  obtain ⟨hlen, hfits, hlongest⟩ := hspec
  have hlongest' : ∀ m, n < m → m < entry.length → ¬ LineFits budgetTokens (cutAt entry m) := by
    intro m hm hlt
    rw [← truncationCandidate_of_lt hlt]
    exact hlongest m hm (Nat.le_of_lt hlt)
  dsimp only
  rcases Nat.eq_zero_or_pos n with rfl | hpos
  · exact .inl ⟨rfl, hlongest'⟩
  · have hfits : LineFits budgetTokens (truncationCandidate entry n) :=
      hfits.resolve_left (Nat.ne_of_gt hpos)
    have hlt : n < entry.length := by
      refine Nat.lt_of_le_of_ne hlen fun heq => hlong ?_
      rwa [heq, truncationCandidate_length] at hfits
    rw [if_neg (Nat.ne_of_gt hpos), if_neg (Nat.not_le.mpr hlt)]
    rw [truncationCandidate_of_lt hlt] at hfits
    exact .inr ⟨n, hpos, hlt, rfl, hfits, hlongest'⟩

/-! ## The section -/

theorem formatMemoryLines_singleton (entry : String) :
    formatMemoryLines [entry] = "- " ++ entry := by
  rw [formatMemoryLines, map_singleton, joinWith, map_singleton,
    List.intercalate_singleton, ofList_toList]

theorem estimate_applyHydrationBudget (entries : List String) :
    estimateHydrationTokens (applyHydrationBudget entries) ≤ memoryHydrationBudgetTokens := by
  cases entries with
  | nil => decide
  | cons first rest =>
    unfold applyHydrationBudget
    dsimp only
    split
    · rename_i h
      rw [formatMemoryLines_singleton]
      obtain ⟨hwhole, hcut⟩ := truncateEntryToBudget_spec memoryHydrationBudgetTokens first
      by_cases hfits : LineFits memoryHydrationBudgetTokens first
      · rw [hwhole hfits]
        exact hfits
      · rcases hcut hfits with ⟨hempty, -⟩ | ⟨n, -, -, heq, hline, -⟩
        · exact absurd hempty h.2
        · rw [heq]
          exact hline
    · exact (fitEntriesFrom_longest memoryHydrationBudgetTokens (first :: rest)).fits

/-- The entries within a budget are those of the reference and as many as fit, a cut entry is as
long as fits, and the section is within its budget. -/
theorem hydration_within_budget :
    (∀ budgetTokens entries, fitEntriesFrom budgetTokens [] 0 entries =
      fitReferenceFrom budgetTokens [] entries) ∧
    (∀ budgetTokens entries,
      LongestFit budgetTokens entries (fitEntriesFrom budgetTokens [] 0 entries)) ∧
    (∀ budgetTokens entry,
      (LineFits budgetTokens entry → truncateEntryToBudget entry budgetTokens = entry) ∧
      (¬ LineFits budgetTokens entry →
        LongestCut budgetTokens entry (truncateEntryToBudget entry budgetTokens))) ∧
    ∀ entries, fitEntriesToBudget entries =
        fitReferenceFrom memoryHydrationBudgetTokens [] entries ∧
      estimateHydrationTokens (applyHydrationBudget entries) ≤ memoryHydrationBudgetTokens :=
  ⟨fun budgetTokens entries => fitEntriesFrom_eq_reference budgetTokens [] entries,
    fitEntriesFrom_longest, truncateEntryToBudget_spec,
    fun entries => ⟨fitEntriesFrom_eq_reference memoryHydrationBudgetTokens [] entries,
      estimate_applyHydrationBudget entries⟩⟩

end GenieClaw.Memory
