import GenieClaw.Memory.Extract
import GenieClaw.Memory.PolicyScan

/-!
# The gates of fact extraction

`memory/extract.rs`: the text is lower-cased only where a search over its bytes finds a fragment
of a pattern, and in the lower-cased text the families of patterns have such a gate each.

* `extractFacts_eq_full_iff` (`LowerCasing`): the gates suppress no fact exactly where the text is
  `Unclaimed` or has a fragment.
-/

namespace GenieClaw.Memory

open Library Library.Text List Option

/-! ## Without the gates -/

def preferenceFactsFull (lower : String) : List ExtractedFact :=
  tasteFact lower "likes" ["i like ", "i love ", "i enjoy ", "i prefer "] ++
  tasteFact lower "dislikes" ["i hate ", "i dislike ", "i don't like ", "i can't stand "] ++
  ((extractFavorite lower).map preferenceFact).toList

section

variable (tools : FactTools)

def extractRelationshipsFull (text : String) : List (String × String) :=
  relations.flatMap fun relation =>
    (relationshipPatterns relation).filterMap fun pattern =>
      (relationshipName tools text pattern).map fun name => (relation, name)

def relationshipFactsFull (lower : String) : List ExtractedFact :=
  (extractRelationshipsFull tools lower).map fun found =>
    ⟨"relationship", "User's " ++ found.1 ++ " is named " ++ capitalize tools found.2⟩

def patternFactsFull (lower : String) : List ExtractedFact :=
  identityFacts tools lower ++ preferenceFactsFull lower ++ relationshipFactsFull tools lower

/-- Every text is lower-cased, and every extractor runs. -/
def extractFactsFull (text : String) : List ExtractedFact :=
  let facts := patternFactsFull tools (tools.toLowercase text)
  if facts = [] then rememberFact text else facts

end

/-! ## Patterns that do not occur -/

theorem restAfter_eq_none {text pattern : String} (h : ¬ pattern.toList <:+: text.toList) :
    restAfter text pattern = none := by
  rw [restAfter, splitOnce_eq_none.mpr h, map_none]

variable {text : String}

theorem extractPattern_eq_none {patterns : List String}
    (h : ∀ p ∈ patterns, ¬ p.toList <:+: text.toList) : extractPattern text patterns = none := by
  refine List.findSome?_eq_none_iff.mpr fun p hp => ?_
  rw [restAfter_eq_none (h p hp), bind_none]

theorem extractPattern_append (text : String) (ps qs : List String) :
    extractPattern text (ps ++ qs) = (extractPattern text ps).or (extractPattern text qs) :=
  findSome?_append

theorem extractAge_eq_none (h : ∀ p ∈ ["i'm ", "i am "], ¬ p.toList <:+: text.toList) :
    extractAge text = none := by
  refine List.findSome?_eq_none_iff.mpr fun p hp => ?_
  rw [restAfter_eq_none (h p hp), bind_none]

theorem extractFavorite_eq_none (h : ¬ "my favo".toList <:+: text.toList) :
    extractFavorite text = none := by
  unfold extractFavorite
  rw [splitOnce_eq_none.mpr h]
  rfl

theorem extractRelationshipsFull_eq_nil {tools : FactTools} (h : ¬ "my ".toList <:+: text.toList) :
    extractRelationshipsFull tools text = [] := by
  have hpattern : ∀ relation, ∀ p ∈ relationshipPatterns relation,
      ¬ p.toList <:+: text.toList := by
    intro relation p hp hin
    have hmy : "my ".toList <+: p.toList := by
      unfold relationshipPatterns at hp
      simp only [mem_cons, not_mem_nil, or_false] at hp
      rcases hp with rfl | rfl | rfl
      all_goals simp only [String.toList_append, append_assoc, prefix_append]
    exact h (hmy.isInfix.trans hin)
  unfold extractRelationshipsFull
  refine List.flatMap_eq_nil_iff.mpr fun relation _ => List.filterMap_eq_nil_iff.mpr fun p hp => ?_
  rw [relationshipName, restAfter_eq_none (hpattern relation p hp)]
  rfl

/-! ## The gates over the lower-cased text -/

/-- Every pattern has a fragment of the gate. -/
def Covered (fragments patterns : List String) : Prop :=
  ∀ p ∈ patterns, ∃ f ∈ fragments, f.toList <:+: p.toList

instance (fragments patterns : List String) : Decidable (Covered fragments patterns) :=
  inferInstanceAs (Decidable (∀ p ∈ patterns, ∃ f ∈ fragments, _))

def identityPatterns : List String :=
  ["my name is ", "call me ", "i'm called ", "i'm ", "i am ", "i work at ", "i work for ",
    "i'm working at ", "i am working at ", "i'm a ", "i am a ", "i work as a ", "i work as an ",
    "i live in ", "i'm from ", "i am from ", "i'm based in "]

def preferencePatterns : List String :=
  ["i like ", "i love ", "i enjoy ", "i prefer ", "i hate ", "i dislike ", "i don't like ",
    "i can't stand ", "my favo"]

theorem identity_covered : Covered identityFragments identityPatterns := by decide

theorem preference_covered : Covered preferenceFragments preferencePatterns := by decide

theorem identityFragments_fragment : ∀ f ∈ identityFragments, Fragment f := by decide

theorem preferenceFragments_fragment : ∀ f ∈ preferenceFragments, Fragment f := by decide

theorem not_infix_of_closed {fragments patterns : List String}
    (hfragments : ∀ f ∈ fragments, Fragment f) (hcovered : Covered fragments patterns)
    (hclosed : fragments.any (containsAsciiCi text) = false) :
    ∀ p ∈ patterns, ¬ p.toList <:+: text.toList := by
  intro p hp hin
  obtain ⟨f, hf, hwithin⟩ := hcovered p hp
  rw [any_of_covered hfragments ⟨hf, hwithin⟩ hin] at hclosed
  cases hclosed

variable {lower : String}

theorem identityFacts_eq_nil {tools : FactTools}
    (h : ∀ p ∈ identityPatterns, ¬ p.toList <:+: lower.toList) :
    identityFacts tools lower = [] := by
  have hnone : ∀ patterns, patterns ⊆ identityPatterns → extractPattern lower patterns = none :=
    fun patterns hsub => extractPattern_eq_none fun p hp => h p (hsub hp)
  unfold identityFacts
  rw [hnone _ (by decide), extractAge_eq_none fun p hp => h p (by revert p; decide),
    hnone _ (by decide), hnone _ (by decide), hnone _ (by decide)]
  rfl

theorem tasteFact_eq_nil {lower verb : String} {patterns : List String}
    (h : ∀ p ∈ patterns, ¬ p.toList <:+: lower.toList) : tasteFact lower verb patterns = [] := by
  rw [tasteFact, extractPattern_eq_none h]
  rfl

theorem preferenceFactsFull_eq_nil (h : ∀ p ∈ preferencePatterns, ¬ p.toList <:+: lower.toList) :
    preferenceFactsFull lower = [] := by
  have hnone : ∀ verb patterns, patterns ⊆ preferencePatterns →
      tasteFact lower verb patterns = [] :=
    fun verb patterns hsub => tasteFact_eq_nil fun p hp => h p (hsub hp)
  unfold preferenceFactsFull
  rw [hnone _ _ (by decide), hnone _ _ (by decide),
    extractFavorite_eq_none (h "my favo" (by decide))]
  rfl

theorem preferenceFacts_eq_full (lower : String) :
    preferenceFacts lower = preferenceFactsFull lower := by
  unfold preferenceFacts preferenceFactsFull
  split
  · rfl
  · rename_i hfavo
    have hnot : ¬ "my favo".toList <:+: lower.toList := fun hin =>
      hfavo (decide_eq_true ((by decide : "favo".toList <:+: "my favo".toList).trans hin))
    rw [extractFavorite_eq_none hnot]
    rfl

theorem relationshipFacts_eq_full (tools : FactTools) (lower : String) :
    relationshipFacts tools lower = relationshipFactsFull tools lower := by
  unfold relationshipFacts relationshipFactsFull extractRelationships
  split
  · rfl
  · rename_i hmy
    rw [extractRelationshipsFull_eq_nil fun hin => hmy (decide_eq_true hin)]

theorem patternFacts_eq_full (tools : FactTools) (lower : String) :
    patternFacts tools lower = patternFactsFull tools lower := by
  unfold patternFacts patternFactsFull
  rw [relationshipFacts_eq_full, preferenceFacts_eq_full]
  congr 2
  · split
    · rfl
    · rename_i hclosed
      exact (identityFacts_eq_nil (not_infix_of_closed identityFragments_fragment identity_covered
        (eq_false_of_ne_true hclosed))).symm
  · split
    · rfl
    · rename_i hclosed
      exact (preferenceFactsFull_eq_nil (not_infix_of_closed preferenceFragments_fragment
        preference_covered (eq_false_of_ne_true hclosed))).symm

/-! ## The gate over the bytes -/

def triggerFragments : List String := identityFragments ++ preferenceFragments ++ ["my "]

theorem needsExtractFactsLower_eq (text : String) :
    needsExtractFactsLower text = triggerFragments.any (containsAsciiCi text) := by
  unfold needsExtractFactsLower needsIdentityScanCi needsPreferenceScanCi
    needsRelationshipScanCi triggerFragments
  rw [any_append, any_append, any_cons, any_nil, Bool.or_false]

/-- The fragments that only ASCII letters spell. -/
def plainFragments : List String := triggerFragments.filter fun f => 'k' ∉ f.toList

def plainPatterns : List String :=
  ["my name is ", "call me ", "i'm called ", "i'm ", "i am ", "i'm working at ",
    "i am working at ", "i'm a ", "i am a ", "i live in ", "i'm from ", "i am from ",
    "i'm based in ", "i love ", "i enjoy ", "i prefer ", "i hate ", "i can't stand ", "my favo",
    "my "]

theorem plain_covered : Covered plainFragments plainPatterns := by decide

theorem triggerFragments_fragment : ∀ f ∈ triggerFragments, Fragment f := by decide

theorem not_infix_of_gate {toLowercase : String → String} (hlower : LowerCasing toLowercase)
    {text p f : String} (hclosed : needsExtractFactsLower text = false)
    (hf : f ∈ triggerFragments) (hwithin : f.toList <:+: p.toList)
    (hk : 'k' ∈ f.toList → kelvinSign ∉ text.toList) :
    ¬ p.toList <:+: (toLowercase text).toList := by
  intro hin
  have hfragment := triggerFragments_fragment f hf
  obtain ⟨pieces, hpieces, htext⟩ := hlower text
  have hin := hwithin.trans hin
  rw [htext] at hin
  have hraw := infix_toLower_of_infix_pieces hfragment.foldable hk hpieces hin
  have hopen : triggerFragments.any (containsAsciiCi text) = true :=
    List.any_eq_true.mpr ⟨f, hf, (hfragment.containsAsciiCi_iff text).mpr hraw⟩
  rw [← needsExtractFactsLower_eq, hclosed] at hopen
  cases hopen

theorem not_infix_lower {toLowercase : String → String} (hlower : LowerCasing toLowercase)
    (hclosed : needsExtractFactsLower text = false) :
    ∀ p ∈ plainPatterns, ¬ p.toList <:+: (toLowercase text).toList := by
  intro p hp
  obtain ⟨f, hf, hwithin⟩ := plain_covered p hp
  obtain ⟨hf, hplain⟩ := List.mem_filter.mp hf
  exact not_infix_of_gate hlower hclosed hf hwithin
    fun hk => absurd hk (of_decide_eq_true hplain)

/-- What the patterns with a `k` find. -/
def kFacts (lower : String) : List ExtractedFact :=
  ((extractPattern lower ["i work at ", "i work for "]).map fun job =>
    identityFact ("User works at " ++ job)).toList ++
  (((extractPattern lower ["i work as a ", "i work as an "]).filter
    fun job => !startsWith "bit " job && !startsWith "lot " job && !startsWith "fan " job).map
      fun job => identityFact ("User is a " ++ job)).toList ++
  (tasteFact lower "likes" ["i like "] ++
    tasteFact lower "dislikes" ["i dislike ", "i don't like "])

theorem patternFactsFull_eq_kFacts {tools : FactTools}
    (h : ∀ p ∈ plainPatterns, ¬ p.toList <:+: lower.toList) :
    patternFactsFull tools lower = kFacts lower := by
  have hnone : ∀ patterns, patterns ⊆ plainPatterns → extractPattern lower patterns = none :=
    fun patterns hsub => extractPattern_eq_none fun p hp => h p (hsub hp)
  have hwork : extractPattern lower ["i work at ", "i work for ", "i'm working at ",
      "i am working at "] = extractPattern lower ["i work at ", "i work for "] := by
    have happend := extractPattern_append lower ["i work at ", "i work for "]
      ["i'm working at ", "i am working at "]
    rw [hnone ["i'm working at ", "i am working at "] (by decide), or_none] at happend
    exact happend
  have hjob : extractPattern lower ["i'm a ", "i am a ", "i work as a ", "i work as an "] =
      extractPattern lower ["i work as a ", "i work as an "] := by
    have happend := extractPattern_append lower ["i'm a ", "i am a "]
      ["i work as a ", "i work as an "]
    rw [hnone ["i'm a ", "i am a "] (by decide), none_or] at happend
    exact happend
  have hlikes : extractPattern lower ["i like ", "i love ", "i enjoy ", "i prefer "] =
      extractPattern lower ["i like "] := by
    have happend := extractPattern_append lower ["i like "] ["i love ", "i enjoy ", "i prefer "]
    rw [hnone ["i love ", "i enjoy ", "i prefer "] (by decide), or_none] at happend
    exact happend
  have hdislikes : extractPattern lower ["i hate ", "i dislike ", "i don't like ",
      "i can't stand "] = extractPattern lower ["i dislike ", "i don't like "] := by
    have hlast := extractPattern_append lower ["i dislike ", "i don't like "] ["i can't stand "]
    rw [hnone ["i can't stand "] (by decide), or_none] at hlast
    have happend := extractPattern_append lower ["i hate "]
      (["i dislike ", "i don't like "] ++ ["i can't stand "])
    rw [hnone ["i hate "] (by decide), none_or, hlast] at happend
    exact happend
  have hidentity : identityFacts tools lower =
      ((extractPattern lower ["i work at ", "i work for "]).map fun job =>
        identityFact ("User works at " ++ job)).toList ++
      (((extractPattern lower ["i work as a ", "i work as an "]).filter
        fun job => !startsWith "bit " job && !startsWith "lot " job && !startsWith "fan " job).map
          fun job => identityFact ("User is a " ++ job)).toList := by
    unfold identityFacts
    rw [hwork, hjob, hnone ["my name is ", "call me ", "i'm called "] (by decide),
      extractAge_eq_none fun p hp => h p (by revert p; decide),
      hnone ["i live in ", "i'm from ", "i am from ", "i'm based in "] (by decide)]
    simp only [map_none, toList_none, nil_append, append_nil]
  have hpreference : preferenceFactsFull lower = tasteFact lower "likes" ["i like "] ++
      tasteFact lower "dislikes" ["i dislike ", "i don't like "] := by
    unfold preferenceFactsFull tasteFact
    rw [hlikes, hdislikes, extractFavorite_eq_none (h "my favo" (by decide))]
    simp only [map_none, toList_none, append_nil]
  unfold patternFactsFull relationshipFactsFull
  rw [hidentity, hpreference, extractRelationshipsFull_eq_nil (h "my " (by decide)), map_nil,
    append_nil]
  rfl

/-- No value that is kept follows one of the patterns with a `k`. -/
structure Unclaimed (lower : String) : Prop where
  workplace : extractPattern lower ["i work at ", "i work for "] = none
  occupation : ∀ job ∈ extractPattern lower ["i work as a ", "i work as an "],
    startsWith "bit " job ∨ startsWith "lot " job ∨ startsWith "fan " job
  likes : ∀ pref ∈ extractPattern lower ["i like "], 8 < (splitWhitespace pref).length
  dislikes : ∀ pref ∈ extractPattern lower ["i dislike ", "i don't like "],
    8 < (splitWhitespace pref).length

theorem filter_map_toList_eq_nil {α β : Type} {x : Option α} {p : α → Bool} {f : α → β} :
    ((x.filter p).map f).toList = [] ↔ ∀ a ∈ x, p a = false := by
  cases x with
  | none => simp
  | some a => cases hp : p a <;> simp [filter_some, hp]

theorem kFacts_eq_nil_iff (lower : String) : kFacts lower = [] ↔ Unclaimed lower := by
  have hwork : ((extractPattern lower ["i work at ", "i work for "]).map fun job =>
      identityFact ("User works at " ++ job)).toList = [] ↔
        extractPattern lower ["i work at ", "i work for "] = none := by
    cases extractPattern lower ["i work at ", "i work for "] <;> simp
  have htaste : ∀ verb patterns, tasteFact lower verb patterns = [] ↔
      ∀ pref ∈ extractPattern lower patterns, 8 < (splitWhitespace pref).length := by
    intro verb patterns
    unfold tasteFact
    simp only [filter_map_toList_eq_nil, decide_eq_false_iff_not, Nat.not_le]
  have hjob : ∀ a b c : Bool, (!a && !b && !c) = false ↔ a = true ∨ b = true ∨ c = true := by
    decide
  unfold kFacts
  simp only [append_eq_nil_iff, hwork, htaste, filter_map_toList_eq_nil, hjob]
  constructor
  · rintro ⟨⟨hworkplace, hoccupation⟩, hlikes, hdislikes⟩
    exact ⟨hworkplace, hoccupation, hlikes, hdislikes⟩
  · rintro ⟨hworkplace, hoccupation, hlikes, hdislikes⟩
    exact ⟨⟨hworkplace, hoccupation⟩, hlikes, hdislikes⟩

/-! ## With and without the gates -/

theorem mem_rememberFact {fact : ExtractedFact} (h : fact ∈ rememberFact text) :
    fact.category = "fact" := by
  obtain ⟨content, -, rfl⟩ := Option.mem_map.mp (Option.mem_toList.mp h)
  rfl

theorem mem_kFacts {fact : ExtractedFact} (h : fact ∈ kFacts lower) :
    fact.category = "identity" ∨ fact.category = "preference" := by
  unfold kFacts tasteFact at h
  simp only [mem_append, mem_toList, map_eq_some_iff] at h
  rcases h with (⟨job, -, rfl⟩ | ⟨job, -, rfl⟩) | ⟨pref, -, rfl⟩ | ⟨pref, -, rfl⟩
  · exact .inl rfl
  · exact .inl rfl
  · exact .inr rfl
  · exact .inr rfl

/-- Only a pattern with a `k` can be suppressed, by a `k` that is no ASCII letter. -/
theorem extractFacts_eq_full_iff (tools : FactTools) (hlower : LowerCasing tools.toLowercase)
    (text : String) :
    extractFacts tools text = extractFactsFull tools text ↔
      needsExtractFactsLower text = true ∨ Unclaimed (tools.toLowercase text) := by
  rw [← kFacts_eq_nil_iff]
  unfold extractFacts extractFactsFull
  cases hgate : needsExtractFactsLower text with
  | true =>
    rw [if_pos rfl, patternFacts_eq_full]
    exact iff_of_true rfl (.inl rfl)
  | false =>
    rw [if_neg Bool.false_ne_true, patternFactsFull_eq_kFacts (not_infix_lower hlower hgate)]
    dsimp only
    constructor
    · intro h
      by_contra hfacts
      rw [if_neg fun hnil => hfacts (.inr hnil)] at h
      obtain ⟨fact, rest, hcons⟩ := exists_cons_of_ne_nil fun hnil => hfacts (.inr hnil)
      have hmem : fact ∈ kFacts (tools.toLowercase text) := hcons ▸ mem_cons_self
      have hfact := mem_rememberFact (h ▸ hmem : fact ∈ rememberFact text)
      rcases mem_kFacts hmem with hcategory | hcategory
      · rw [hcategory] at hfact
        exact absurd hfact (by decide)
      · rw [hcategory] at hfact
        exact absurd hfact (by decide)
    · rintro (h | h)
      · cases h
      · rw [if_pos h]

/-- Lower-casing by characters. -/
def foldingTools : FactTools where
  toLowercase := toLowercase
  isAlphanumeric := isAsciiAlphanumeric
  rows _ _ _ _ := []
  toUppercase c := [c.toUpper]

theorem extractFacts_eq_full_plain :
    extractFacts foldingTools "I LIKE tea" = extractFactsFull foldingTools "I LIKE tea" :=
  (extractFacts_eq_full_iff foldingTools lowerCasing_toLowercase "I LIKE tea").mpr
    (.inl (by decide))

/-- `LIKE` with a Kelvin sign. -/
def kelvinTea : String := String.ofList ['I', ' ', 'L', 'I', kelvinSign, 'E', ' ', 't', 'e', 'a']

theorem extractFacts_kelvin_tea :
    extractFacts foldingTools kelvinTea ≠ extractFactsFull foldingTools kelvinTea := by
  decide

end GenieClaw.Memory
