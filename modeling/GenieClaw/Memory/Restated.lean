import GenieClaw.Library.Words
import GenieClaw.Memory.Failures

/-!
# Restated memories

Whether `has_similar` and `has_exact` of `genie-core/src/memory/mod.rs` recognize a memory that is
in the store, told again in the same words. The words are compared in the lower case of Unicode on
the one side and of ASCII on the other, and the source tag is taken off on one side alone.

* `recognized_iff` (`LetterCase`, `PlainLetters`, the memory has words): when a memory told again is
  recognized, and what follows for storing it.
-/

namespace GenieClaw.Memory

open Library Library.Program Library.Text List

variable (tools : TextTools)

/-! ## Variants of a text -/

/-- The characters have the same lower case. -/
def SameLetter (c d : Char) : Prop :=
  tools.toLowercase (String.singleton c) = tools.toLowercase (String.singleton d)

/-- The texts differ in the case of their letters. -/
def CaseVariant (content variant : String) : Prop :=
  List.Forall₂ (SameLetter tools) content.toList variant.toList

/-- What lower case does to single characters. -/
structure LetterCase : Prop where
  ascii : ∀ c, SameLetter tools c c.toLower
  white : ∀ c d, isWhitespace c = true → SameLetter tools c d → d = c

/-- No letter or digit is white space. -/
def PlainLetters : Prop := ∀ c, tools.isAlphanumeric c = true → isWhitespace c = false

variable {tools}

theorem CaseVariant.refl (content : String) : CaseVariant tools content content :=
  List.forall₂_same.mpr fun _ _ => rfl

/-! ## Characters besides white space -/

theorem visibleChars_trimChars (cs : List Char) :
    visibleChars (trimChars cs) = visibleChars cs := by
  unfold visibleChars
  rw [← flatten_wordsBy, ← flatten_wordsBy]
  have htrim := wordsBy_trim (p := isWhitespace) (fun _ h => h) (String.ofList cs)
  rw [trim, String.toList_ofList, String.toList_ofList] at htrim
  rw [htrim]

theorem toList_normalize (s : String) :
    (normalizeMemoryContent s).toList = [' '].intercalate (wordsBy isWhitespace s.toList) := by
  unfold normalizeMemoryContent joinWith splitWhitespace
  rw [String.toList_ofList, map_map]
  congr 1
  exact (map_congr_left fun w _ => String.toList_ofList).trans (map_id _)

theorem visibleChars_normalize (s : String) :
    visibleChars (normalizeMemoryContent s).toList = visibleChars s.toList := by
  rw [toList_normalize]
  exact filter_intercalate_wordsBy (by decide) s.toList

theorem length_visibleChars_map (cs : List Char) :
    (visibleChars (cs.map Char.toLower)).length = (visibleChars cs).length := by
  unfold visibleChars
  rw [← countP_eq_length_filter, ← countP_eq_length_filter, countP_map]
  refine countP_congr fun c _ => ?_
  show (!isWhitespace c.toLower) = true ↔ _
  rw [isWhitespace_toLower]

theorem toLower_of_white {c : Char} (h : isWhitespace c = true) : c.toLower = c := by
  refine toLower_eq_self fun hletter => ?_
  unfold isWhitespace at h
  grind

variable {xs ys : List Char}

/-- Texts with the same characters besides white space that differ in the case of ASCII letters
alone are the same. -/
theorem eq_of_visibleChars (hlower : xs.map Char.toLower = ys.map Char.toLower)
    (hblack : visibleChars xs = visibleChars ys) : xs = ys := by
  induction xs generalizing ys with
  | nil => exact (List.map_eq_nil_iff.mp hlower.symm).symm
  | cons x xs ih =>
    cases ys with
    | nil => exact absurd hlower (cons_ne_nil _ _)
    | cons y ys =>
      obtain ⟨hhead, htail⟩ := List.cons.inj hlower
      have hwhite : isWhitespace x = isWhitespace y := by
        rw [← isWhitespace_toLower x, hhead, isWhitespace_toLower y]
      unfold visibleChars at hblack ih
      rw [filter_cons, filter_cons, hwhite] at hblack
      cases hy : isWhitespace y with
      | true =>
        rw [hy, Bool.not_true, if_neg Bool.false_ne_true, if_neg Bool.false_ne_true] at hblack
        rw [hy] at hwhite
        rw [toLower_of_white hwhite, toLower_of_white hy] at hhead
        rw [hhead, ih htail hblack]
      | false =>
        rw [hy, Bool.not_false, if_pos rfl, if_pos rfl] at hblack
        obtain ⟨hxy, hrest⟩ := List.cons.inj hblack
        rw [hxy, ih htail hrest]

/-! ## The source tag -/

def sourceTag : List Char := " (source:".toList

theorem stripSourceTag_eq_self {s : String} (h : ¬ sourceTag <:+: s.toList) :
    stripSourceTag s = s := by
  have hnone : splitOnce " (source:".toList.reverse s.toList.reverse = none :=
    splitOnce_eq_none.mpr fun hwithin => h (List.reverse_infix.mp hwithin)
  unfold stripSourceTag
  rw [hnone]

theorem exists_stripSourceTag {s : String} (h : sourceTag <:+: s.toList) :
    ∃ before after, s.toList = before ++ sourceTag ++ after ∧
      stripSourceTag s = trim (String.ofList before) := by
  cases hsplit : splitOnce " (source:".toList.reverse s.toList.reverse with
  | none => exact absurd (List.reverse_infix.mpr h) (splitOnce_eq_none.mp hsplit)
  | some parts =>
    obtain ⟨after, before⟩ := parts
    obtain ⟨heq, -⟩ := splitOnce_eq_some hsplit
    refine ⟨before.reverse, after.reverse, ?_, ?_⟩
    · rw [← reverse_inj, heq, reverse_append, reverse_append, reverse_reverse,
        reverse_reverse, append_assoc]
      rfl
    · unfold stripSourceTag
      rw [hsplit]

theorem trimChars_within (cs : List Char) : trimChars cs <:+: cs :=
  (List.rdropWhile_prefix _ _).isInfix.trans (dropWhile_suffix _).isInfix

theorem stripSourceTag_within (s : String) : (stripSourceTag s).toList <:+: s.toList := by
  by_cases h : sourceTag <:+: s.toList
  · obtain ⟨before, after, heq, hstrip⟩ := exists_stripSourceTag h
    rw [hstrip, trim, String.toList_ofList, String.toList_ofList, heq, append_assoc]
    exact (trimChars_within before).trans (prefix_append _ _).isInfix
  · rw [stripSourceTag_eq_self h]

theorem length_visibleChars_strip {s : String} (h : sourceTag <:+: s.toList) :
    (visibleChars (stripSourceTag s).toList).length < (visibleChars s.toList).length := by
  obtain ⟨before, after, heq, hstrip⟩ := exists_stripSourceTag h
  have htag : (visibleChars sourceTag).length = 8 := by decide
  rw [hstrip, trim, String.toList_ofList, String.toList_ofList, visibleChars_trimChars, heq,
    visibleChars_append, visibleChars_append, length_append, length_append, htag]
  omega

/-! ## Similar memories -/

theorem infix_of_mem_searchTokens {text w : String} (h : w ∈ searchTokens tools text) :
    w.toList <:+: (tools.toLowercase text).toList ∧ w.toList ≠ [] ∧
      ∀ c ∈ w.toList, tools.isAlphanumeric c = true := by
  obtain ⟨hmem, hlong⟩ := List.mem_filter.mp h
  obtain ⟨hlong, -⟩ := of_decide_eq_true hlong
  obtain ⟨piece, hpiece, rfl⟩ := List.mem_map.mp hmem
  have hne : piece ≠ [] := by
    rintro rfl
    exact absurd hlong (by decide)
  rw [String.toList_ofList]
  refine ⟨?_, hne, fun c hc => ?_⟩
  · exact @infix_of_mem_wordsBy _ (fun c => !tools.isAlphanumeric c) _ _
      (List.mem_filter.mpr ⟨hpiece, by simpa using hne⟩)
  · simpa using forall_mem_splitOnP _ piece hpiece c hc

theorem infix_normalize_iff {m : List Char} (hne : m ≠ []) (hm : ∀ c ∈ m, isWhitespace c = false)
    (s : String) : m <:+: (toAsciiLowercase (normalizeMemoryContent s)).toList ↔
      m <:+: (toAsciiLowercase s).toList := by
  have hwords : wordsBy isWhitespace (normalizeMemoryContent s).toList =
      wordsBy isWhitespace s.toList := wordsBy_joinWith_space (fun _ h => h) s
  rw [infix_iff_exists_word hne hm, infix_iff_exists_word hne hm, toAsciiLowercase,
    toAsciiLowercase, String.toList_ofList, String.toList_ofList,
    wordsBy_map isWhitespace_toLower, wordsBy_map isWhitespace_toLower, hwords]

/-- The words that `has_similar` looks for are in the stored text. -/
def WordsFound (tools : TextTools) (content : String) : Prop :=
  ∀ w ∈ similarityWords tools content,
    containsText (toAsciiLowercase (normalizeMemoryContent content)) (toAsciiLowercase w) = true

variable {content : String}

theorem similarityWords_found (hplain : PlainLetters tools)
    (hlower : tools.toLowercase (stripSourceTag content) =
      toAsciiLowercase (stripSourceTag content)) :
    WordsFound tools content := by
  intro w hw
  have htoken : w ∈ searchTokens tools (stripSourceTag content) :=
    (List.mem_filter.mp (mem_of_mem_take hw)).1
  obtain ⟨hwithin, hne, halnum⟩ := infix_of_mem_searchTokens htoken
  rw [hlower, toAsciiLowercase, String.toList_ofList] at hwithin
  have hself : (toAsciiLowercase w).toList = w.toList := by
    rw [toAsciiLowercase, String.toList_ofList]
    refine (map_congr_left fun c hc => ?_).trans (map_id _)
    obtain ⟨d, -, rfl⟩ := List.mem_map.mp (hwithin.subset hc)
    exact toLower_toLower d
  rw [containsText, decide_eq_true_iff, hself,
    infix_normalize_iff hne fun c hc => hplain c (halnum c hc), toAsciiLowercase,
    String.toList_ofList]
  exact hwithin.trans ((stripSourceTag_within content).map _)

/-! ## The same memory -/

theorem isWhitespace_congr (hcase : LetterCase tools) {c d : Char} (h : SameLetter tools c d) :
    isWhitespace c = isWhitespace d := by
  rw [Bool.eq_iff_iff]
  exact ⟨fun hc => hcase.white c d hc h ▸ hc, fun hd => hcase.white d c hd h.symm ▸ hd⟩

theorem length_visibleChars_variant (hcase : LetterCase tools)
    (h : List.Forall₂ (SameLetter tools) xs ys) :
    (visibleChars xs).length = (visibleChars ys).length := by
  induction h with
  | nil => rfl
  | cons hxy _ ih =>
    unfold visibleChars at ih ⊢
    rw [filter_cons, filter_cons, isWhitespace_congr hcase hxy]
    split
    · rw [length_cons, length_cons, ih]
    · exact ih

theorem length_visibleChars_of_eqIgnoreAsciiCase {a b : String} (h : eqIgnoreAsciiCase a b = true) :
    (visibleChars a.toList).length = (visibleChars b.toList).length := by
  have hlower : toAsciiLowercase a = toAsciiLowercase b := by simpa [eqIgnoreAsciiCase] using h
  have hlists := congrArg String.toList hlower
  rw [toAsciiLowercase, toAsciiLowercase, String.toList_ofList, String.toList_ofList] at hlists
  rw [← length_visibleChars_map, hlists, length_visibleChars_map]

theorem dropWhile_append_cons {c : Char} (hc : isWhitespace c = false) (xs ys : List Char) :
    (xs ++ c :: ys).dropWhile isWhitespace = xs.dropWhile isWhitespace ++ c :: ys := by
  induction xs with
  | nil =>
    rw [nil_append, dropWhile_cons_of_neg (by rw [hc]; exact Bool.false_ne_true)]
    rfl
  | cons x xs ih =>
    rw [cons_append, dropWhile_cons, dropWhile_cons]
    split
    · exact ih
    · rfl

theorem trimChars_append_cons {c : Char} (hc : isWhitespace c = false) (xs ys : List Char) :
    trimChars (xs ++ c :: ys) =
      xs.dropWhile isWhitespace ++ c :: (ys.reverse.dropWhile isWhitespace).reverse := by
  unfold trimChars List.rdropWhile
  rw [dropWhile_append_cons hc, reverse_append, reverse_cons, append_assoc,
    singleton_append, dropWhile_append_cons hc, reverse_append, reverse_cons,
    reverse_reverse, append_assoc, singleton_append]

/-- The text has single spaces and no source tag, and no letter of it has another case than those
of ASCII. -/
structure ExactText (tools : TextTools) (content : String) : Prop where
  spaced : normalizeMemoryContent content = trim content
  untagged : ¬ sourceTag <:+: (toAsciiLowercase content).toList
  letters : ∀ c ∈ content.toList, ∀ d, SameLetter tools c d → d.toLower = c.toLower

/-- Every variant of the text is the stored text up to the case of ASCII letters. -/
def VariantsMatch (tools : TextTools) (content : String) : Prop :=
  ∀ variant, CaseVariant tools content variant →
    eqIgnoreAsciiCase (normalizeMemoryContent content) (trim (stripSourceTag variant)) = true

theorem VariantsMatch.untagged (hcase : LetterCase tools) {content variant : String}
    (h : VariantsMatch tools content) (hvariant : CaseVariant tools content variant) :
    ¬ sourceTag <:+: variant.toList := by
  intro htag
  have hshort := length_visibleChars_strip htag
  have hsame := length_visibleChars_variant hcase hvariant
  have hmatch := length_visibleChars_of_eqIgnoreAsciiCase (h variant hvariant)
  rw [visibleChars_normalize, trim, String.toList_ofList, visibleChars_trimChars] at hmatch
  omega

theorem caseVariant_toAsciiLowercase (hcase : LetterCase tools) (content : String) :
    CaseVariant tools content (toAsciiLowercase content) := by
  unfold CaseVariant toAsciiLowercase
  rw [String.toList_ofList, forall₂_map_right_iff]
  exact List.forall₂_same.mpr fun c _ => hcase.ascii c

theorem map_toLower_of_match {a b : String} (h : eqIgnoreAsciiCase a b = true) :
    a.toList.map Char.toLower = b.toList.map Char.toLower := by
  have hlower : toAsciiLowercase a = toAsciiLowercase b := by simpa [eqIgnoreAsciiCase] using h
  have hlists := congrArg String.toList hlower
  rwa [toAsciiLowercase, toAsciiLowercase, String.toList_ofList, String.toList_ofList] at hlists

theorem VariantsMatch.spaced (hcase : LetterCase tools) (h : VariantsMatch tools content) :
    normalizeMemoryContent content = trim content := by
  have hself := h content (.refl content)
  rw [stripSourceTag_eq_self (h.untagged hcase (.refl content))] at hself
  refine String.toList_inj.mp (eq_of_visibleChars (map_toLower_of_match hself) ?_)
  rw [visibleChars_normalize, trim, String.toList_ofList, visibleChars_trimChars]

theorem VariantsMatch.letters (hcase : LetterCase tools) (h : VariantsMatch tools content)
    {c d : Char} (hc : c ∈ content.toList) (hd : SameLetter tools c d) : d.toLower = c.toLower := by
  cases hwhite : isWhitespace c with
  | true => rw [hcase.white c d hwhite hd]
  | false =>
    obtain ⟨before, after, heq⟩ := append_of_mem hc
    have hvariant : CaseVariant tools content (String.ofList (before ++ d :: after)) := by
      unfold CaseVariant
      have hsame : ∀ xs, List.Forall₂ (SameLetter tools) xs xs := fun xs =>
        List.forall₂_same.mpr fun _ _ => rfl
      rw [heq, String.toList_ofList]
      exact rel_append (hsame before) (.cons hd (hsame after))
    have hmatch := h _ hvariant
    rw [stripSourceTag_eq_self (h.untagged hcase hvariant), h.spaced hcase] at hmatch
    have hlists := map_toLower_of_match hmatch
    rw [trim, trim, String.toList_ofList, String.toList_ofList, String.toList_ofList, heq,
      trimChars_append_cons hwhite, trimChars_append_cons ((isWhitespace_congr hcase hd).symm.trans
      hwhite), map_append, map_append, map_cons, map_cons] at hlists
    exact (List.cons.inj (List.append_cancel_left hlists)).1.symm

theorem map_toLower_variant (h : List.Forall₂ (SameLetter tools) xs ys)
    (hletters : ∀ c ∈ xs, ∀ d, SameLetter tools c d → d.toLower = c.toLower) :
    ys.map Char.toLower = xs.map Char.toLower := by
  induction h with
  | nil => rfl
  | cons hxy _ ih =>
    obtain ⟨hfirst, hrest⟩ := List.forall_mem_cons.mp hletters
    rw [map_cons, map_cons, hfirst _ hxy, ih hrest]

theorem exact_iff (hcase : LetterCase tools) (content : String) :
    VariantsMatch tools content ↔ ExactText tools content := by
  constructor
  · intro h
    exact ⟨h.spaced hcase, h.untagged hcase (caseVariant_toAsciiLowercase hcase content),
      fun c hc d hd => h.letters hcase hc hd⟩
  · rintro ⟨hspaced, huntagged, hletters⟩ variant hvariant
    have hlower : toAsciiLowercase variant = toAsciiLowercase content :=
      congrArg String.ofList (map_toLower_variant hvariant hletters)
    have htag : ¬ sourceTag <:+: variant.toList := by
      intro htag
      have hmapped : sourceTag.map Char.toLower <:+: (toAsciiLowercase variant).toList := by
        rw [toAsciiLowercase, String.toList_ofList]
        exact htag.map _
      rw [hlower, show sourceTag.map Char.toLower = sourceTag by decide] at hmapped
      exact huntagged hmapped
    rw [stripSourceTag_eq_self htag, hspaced]
    unfold eqIgnoreAsciiCase
    rw [← trim_toAsciiLowercase, ← trim_toAsciiLowercase, hlower]
    exact beq_self_eq_true _

/-! ## The store -/

/-- The query answers yes. -/
def answers (op : Op Bool) (db : Database) : Prop := (op { db }).1 = .ok true

/-- In every store that holds the memory, it is similar to what is there. -/
def SimilarToItself (tools : TextTools) (content : String) : Prop :=
  ∀ (db : Database), ∀ m ∈ db.memories, m.content = normalizeMemoryContent content →
    answers (hasSimilar tools content) db

/-- In every store that holds the memory, each of its variants is exactly there. -/
def ExactInEveryCase (tools : TextTools) (content : String) : Prop :=
  ∀ (db : Database), ∀ m ∈ db.memories, m.content = normalizeMemoryContent content →
    ∀ variant, CaseVariant tools content variant → answers (hasExact variant) db

/-- A restatement, whether single-valued or not, leaves every store that holds the memory alone. -/
def NotStoredTwice (tools : TextTools) (content : String) : Prop :=
  ∀ (kind : String) (db : Database), ∀ m ∈ db.memories, m.content = content →
    storeResolved tools kind content { db } = (.ok ⟨none, 0, true⟩, { db })

theorem answers_query {f : Database → Bool} {db : Database} : answers (query f) db ↔ f db = true :=
  ⟨fun h => Except.ok.inj h, fun h => congrArg Except.ok h⟩

theorem hasSimilar_eq (hwords : similarityWords tools content ≠ []) :
    hasSimilar tools content = query fun db => db.memories.any fun m =>
      (similarityWords tools content).all fun word =>
        containsText (toAsciiLowercase m.content) (toAsciiLowercase word) := if_neg hwords

/-- A memory with the content. -/
def memoryOf (content : String) : MemoryEntry where
  id := 1
  kind := "fact"
  content := content
  accessedMs := 0
  metadata := ⟨.household, .normal, .allow⟩

theorem similarToItself_iff (hwords : similarityWords tools content ≠ []) :
    SimilarToItself tools content ↔ WordsFound tools content := by
  unfold SimilarToItself
  rw [hasSimilar_eq hwords]
  constructor
  · intro h
    have hanswer := answers_query.mp
      (h { memories := [memoryOf (normalizeMemoryContent content)] } _ mem_cons_self rfl)
    obtain ⟨m, hm, hall⟩ := List.any_eq_true.mp hanswer
    rw [List.mem_singleton.mp hm] at hall
    exact fun w hw => List.all_eq_true.mp hall w hw
  · intro h db m hm hcontent
    refine answers_query.mpr (List.any_eq_true.mpr ⟨m, hm, List.all_eq_true.mpr fun w hw => ?_⟩)
    rw [hcontent]
    exact h w hw

theorem exactInEveryCase_iff : ExactInEveryCase tools content ↔ VariantsMatch tools content := by
  constructor
  · intro h variant hvariant
    have hanswer := answers_query.mp (h { memories := [memoryOf (normalizeMemoryContent content)] }
      _ mem_cons_self rfl variant hvariant)
    obtain ⟨m, hm, hmatch⟩ := List.any_eq_true.mp hanswer
    rw [List.mem_singleton.mp hm] at hmatch
    exact hmatch
  · intro h db m hm hcontent variant hvariant
    refine answers_query.mpr (List.any_eq_true.mpr ⟨m, hm, ?_⟩)
    rw [hcontent]
    exact h variant hvariant

theorem run_of_answers {f : Database → Bool} {db : Database} (h : answers (query f) db) :
    query f { db } = (.ok true, { db }) :=
  Prod.ext h rfl

theorem notStoredTwice (hnormal : normalizeMemoryContent content = content)
    (hwords : similarityWords tools content ≠ []) (hsimilar : SimilarToItself tools content)
    (hexact : ExactInEveryCase tools content) : NotStoredTwice tools content := by
  intro kind db m hm hcontent
  have hstored : m.content = normalizeMemoryContent content := hcontent.trans hnormal.symm
  have hduplicate : isDuplicate tools (memorySlot tools kind content) content { db } =
      (.ok true, { db }) := by
    unfold isDuplicate
    split
    · exact run_of_answers (hexact db m hm hstored content (.refl content))
    · have hanswer := hsimilar db m hm hstored
      rw [hasSimilar_eq hwords] at hanswer ⊢
      exact run_of_answers hanswer
  unfold storeResolved
  rw [hnormal, bind_apply_ok hduplicate]
  rfl

/-- A memory is similar to itself exactly if its words are found in the stored text, as they are
when lower-casing changes its ASCII letters alone; it is exactly there in every case of its letters
exactly if it has single spaces, no source tag and no letters with other cases than those of ASCII;
and where it is both it is not stored a second time. -/
theorem recognized_iff (hcase : LetterCase tools) (hplain : PlainLetters tools) (content : String)
    (hwords : similarityWords tools content ≠ []) :
    (SimilarToItself tools content ∧ ExactInEveryCase tools content ↔
      WordsFound tools content ∧ ExactText tools content) ∧
    (SimilarToItself tools content ↔ WordsFound tools content) ∧
    (tools.toLowercase (stripSourceTag content) = toAsciiLowercase (stripSourceTag content) →
      WordsFound tools content) ∧
    (normalizeMemoryContent content = content → WordsFound tools content →
      ExactText tools content → NotStoredTwice tools content) := by
  have hsimilar := similarToItself_iff hwords
  have hexact := (@exactInEveryCase_iff tools content).trans (exact_iff hcase content)
  exact ⟨and_congr hsimilar hexact, hsimilar, similarityWords_found hplain,
    fun hnormal hfound htext =>
      notStoredTwice hnormal hwords (hsimilar.mpr hfound) (hexact.mpr htext)⟩

/-- Lower case, letters and digits up to the end of the Latin-1 block. -/
def latinTools : TextTools where
  toLowercase s := String.ofList (s.toList.map fun c =>
    if 0xC0 ≤ c.toNat ∧ c.toNat ≤ 0xDE ∧ c.toNat ≠ 0xD7 then Char.ofNat (c.toNat + 32)
    else c.toLower)
  isAlphanumeric c := isAsciiAlphanumeric c ||
    (0xC0 ≤ c.toNat && c.toNat ≤ 0xFF && c.toNat != 0xD7 && c.toNat != 0xF7)
  rows _ _ _ _ := []

theorem letterCase_ascii : LetterCase asciiTools where
  ascii c := by
    show toAsciiLowercase _ = toAsciiLowercase _
    unfold toAsciiLowercase
    rw [String.toList_singleton, String.toList_singleton, map_singleton, map_singleton,
      toLower_toLower]
  white c d hc h := by
    have hlower : d.toLower = c.toLower := by
      have hlists := congrArg String.toList h
      simpa [asciiTools, toAsciiLowercase, eq_comm] using hlists
    have hd : isWhitespace d = true := by
      rw [← isWhitespace_toLower, hlower, isWhitespace_toLower, hc]
    rwa [toLower_of_white hd, toLower_of_white hc] at hlower

theorem plainLetters_ascii : PlainLetters asciiTools := by
  intro c hc
  have hle : ∀ a b : Char, a ≤ b ↔ a.toNat ≤ b.toNat := fun _ _ => UInt32.le_iff_toNat_le
  have hrange : isAsciiAlphanumeric c = true := hc
  unfold isAsciiAlphanumeric isAsciiLowercase at hrange
  rw [Bool.eq_false_iff]
  intro hwhite
  unfold isWhitespace at hwhite
  simp [hle] at hrange hwhite
  omega

theorem recognized_iff_ascii :
    SimilarToItself asciiTools "User's name is Dana" ∧
      ExactInEveryCase asciiTools "User's name is Dana" ∧
      NotStoredTwice asciiTools "User's name is Dana" := by
  obtain ⟨hiff, -, hfound, htwice⟩ := recognized_iff letterCase_ascii plainLetters_ascii
    "User's name is Dana" (by decide +kernel)
  have hwords : WordsFound asciiTools "User's name is Dana" := hfound rfl
  have hexact : ExactText asciiTools "User's name is Dana" := by
    refine ⟨by decide +kernel, by decide +kernel, fun c _ d hcd => ?_⟩
    simpa [asciiTools, toAsciiLowercase] using congrArg String.toList hcd.symm
  obtain ⟨hsimilar, hcase⟩ := hiff.mpr ⟨hwords, hexact⟩
  exact ⟨hsimilar, hcase, htwice (by decide +kernel) hwords hexact⟩

/-- The lower case of the first word is not in the stored text, whose first letter SQLite leaves
as it is. -/
theorem accent_not_recognized :
    similarityWords latinTools "École Normale" ≠ [] ∧
      ¬ (SimilarToItself latinTools "École Normale" ∧
        ExactInEveryCase latinTools "École Normale") := by
  have hwords : similarityWords latinTools "École Normale" ≠ [] := by decide +kernel
  refine ⟨hwords, fun h => ?_⟩
  have hfound := (similarToItself_iff hwords).mp h.1
  exact absurd (hfound "école" (by decide +kernel)) (by decide +kernel)

end GenieClaw.Memory
