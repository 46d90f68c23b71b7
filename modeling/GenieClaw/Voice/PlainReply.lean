import GenieClaw.Voice.SentenceStreamer
import GenieClaw.Voice.SpokenWords

/-!
# Plain replies

A reply without markup is spoken as its words, and its cleaning is the same on both paths.

* `Bare.words_cleanSentence`: the cleaning keeps the words of a plain reply.
-/

namespace GenieClaw.Voice

open Library Library.Text SentenceStreamer Format List

/-! ## Markup -/

/-- What makes a text more than plain: emphasis, code, links and URLs. -/
def markup : List (List Char) :=
  [['*'], ['_', '_'], [backtick], ['['], "http://".toList, "https://".toList, "www.".toList]

def Bare (cs : List Char) : Prop := ∀ m ∈ markup, ¬ m <:+: cs

instance (cs : List Char) : Decidable (Bare cs) := by
  unfold Bare
  infer_instance

/-- A text without markup, in which no line is a header or a list item. -/
structure PlainText (text : String) : Prop where
  bare : Bare text.toList
  lines : ∀ line ∈ splitLines text, stripLine line = trim line

section

variable {cs xs ys : List Char}

theorem markup_words : ∀ m ∈ markup, m ≠ [] ∧ ∀ c ∈ m, isWhitespace c = false := by
  have hne : ∀ m ∈ markup, m ≠ [] := forall_mem_of_all (by decide)
  have hword : ∀ c ∈ markup.flatten, isWhitespace c = false := forall_mem_of_all (by decide)
  exact fun m hm => ⟨hne m hm, fun c hc => hword c (List.mem_flatten.mpr ⟨m, hm, hc⟩)⟩

theorem Bare.mono (h : Bare ys) (hwithin : xs <:+: ys) : Bare xs :=
  fun m hm hmem => h m hm (hmem.trans hwithin)

theorem Bare.of_words (h : Bare ys) (hwords : words xs = words ys) : Bare xs := by
  intro m hm hmem
  obtain ⟨hne, hbreak⟩ := markup_words m hm
  obtain ⟨w, hw, hwithin⟩ := (infix_iff_exists_word hne hbreak).mp hmem
  have hw' : w ∈ words xs := hw
  rw [hwords] at hw'
  exact h m hm ((infix_iff_exists_word hne hbreak).mpr ⟨w, hw', hwithin⟩)

theorem Bare.notMem (h : Bare cs) {c : Char} (hc : [c] ∈ markup) : c ∉ cs := fun hmem =>
  h [c] hc ((singleton_infix_iff c cs).mpr hmem)

theorem Bare.star (h : Bare cs) : '*' ∉ cs := h.notMem (by decide)

theorem Bare.link (h : Bare cs) : '[' ∉ cs := h.notMem (by decide)

theorem Bare.code (h : Bare cs) : backtick ∉ cs := h.notMem (by decide)

theorem Bare.plain (h : Bare cs) : ∀ c ∈ cs, Plain c := by
  intro c hc
  refine ⟨?_, ?_⟩
  · rintro rfl
    exact h.code hc
  · rintro rfl
    exact h.link hc

theorem Bare.isRawUrl (h : Bare cs) : isRawUrl (String.ofList cs) = false := by
  have hwithin : (trimMatches isUrlBracket (String.ofList cs)).toList <:+: cs := by
    unfold trimMatches
    rw [String.toList_ofList, String.toList_ofList]
    exact (List.rdropWhile_prefix _ _).isInfix.trans (dropWhile_suffix _).isInfix
  have hnot : ∀ marker : String, marker.toList ∈ markup →
      startsWith marker (trimMatches isUrlBracket (String.ofList cs)) = false := by
    intro marker hmarker
    refine eq_false_of_ne_true fun hstarts => ?_
    exact h _ hmarker ((List.isPrefixOf_iff_prefix.mp hstarts).isInfix.trans hwithin)
  unfold Voice.isRawUrl
  dsimp only
  rw [hnot _ (by decide), hnot _ (by decide), hnot _ (by decide)]
  rfl

theorem Bare.word (h : Bare cs) {w : List Char} (hw : w ∈ words cs) :
    Voice.isRawUrl (String.ofList w) = false :=
  (h.mono (infix_of_mem_wordsBy hw)).isRawUrl

theorem removeChars_eq_self {chars : List Char} (h : ∀ c ∈ cs, c ∉ chars) :
    removeChars chars (String.ofList cs) = String.ofList cs := by
  unfold removeChars
  rw [String.toList_ofList, List.filter_eq_self.mpr fun c hc => decide_eq_true (h c hc)]

theorem replaceText_eq_self {old new : String} (hold : old.toList ≠ [])
    (h : ¬ old.toList <:+: cs) : replaceText old new (String.ofList cs) = String.ofList cs := by
  rw [← String.toList_inj, replaceText_eq new hold, String.toList_ofList, substitute_eq_self h]

theorem Bare.stripInline (h : Bare cs) : stripInline (String.ofList cs) = String.ofList cs := by
  have hstars : ¬ "**".toList <:+: cs := fun hwithin =>
    h.star (hwithin.subset (by decide))
  have hunders : ¬ "__".toList <:+: cs := h _ (by decide)
  unfold Voice.stripInline
  rw [replaceText_eq_self (by decide) hstars, replaceText_eq_self (by decide) hunders,
    removeChars_eq_self, removeChars_eq_self]
  · intro c hc hmem
    exact h.code (List.mem_singleton.mp hmem ▸ hc)
  · intro c hc hmem
    exact h.star (List.mem_singleton.mp hmem ▸ hc)

theorem Bare.stripLinks {n : Nat} (h : '[' ∉ cs) : stripLinks n cs = cs := by
  induction n generalizing cs with
  | zero => rfl
  | succ n ih =>
    cases cs with
    | nil => rfl
    | cons c cs =>
      rw [mem_cons, not_or] at h
      rw [Format.stripLinks, if_neg (Ne.symm h.1), ih h.2]

theorem Bare.hasRawUrlMarker (h : Bare cs) : hasRawUrlMarker (String.ofList cs) = false := by
  have hnot : ∀ marker : String, marker.toList ∈ markup →
      containsText (String.ofList cs) marker = false := by
    intro marker hmarker
    unfold containsText
    rw [String.toList_ofList]
    exact decide_eq_false (h _ hmarker)
  unfold Format.hasRawUrlMarker
  rw [hnot _ (by decide), hnot _ (by decide), hnot _ (by decide)]
  rfl

/-! ## White space -/

/-- Outer characters that are not white space. -/
structure Ends (cs : List Char) : Prop where
  first : ∀ c ∈ cs.head?, isWhitespace c = false
  last : ∀ c ∈ cs.getLast?, isWhitespace c = false

theorem normalizeFrom_eq (h : ∀ c ∈ cs.getLast?, isWhitespace c = false) :
    normalizeFrom false cs = squeezed cs ∧ normalizeFrom true cs = tidy cs := by
  induction cs with
  | nil => exact ⟨rfl, rfl⟩
  | cons c cs ih =>
    have hrest : ∀ d ∈ cs.getLast?, isWhitespace d = false := by
      intro d hd
      refine h d ?_
      cases cs with
      | nil => cases hd
      | cons e cs => rwa [getLast?_cons_cons]
    obtain ⟨hfalse, htrue⟩ := ih hrest
    by_cases hc : isWhitespace c = true
    · have hne : wordsBy isWhitespace cs ≠ [] := by
        intro hempty
        cases cs with
        | nil => exact Bool.false_ne_true ((h c rfl).symm.trans hc)
        | cons d cs =>
          have hlast := getLast?_eq_some_getLast (cons_ne_nil d cs)
          have hspace := wordsBy_eq_nil_iff.mp hempty _ (getLast_mem (cons_ne_nil d cs))
          exact Bool.false_ne_true ((hrest _ hlast).symm.trans hspace)
      have htidy : tidy (c :: cs) = tidy cs := by
        unfold tidy words
        rw [wordsBy_cons_break hc]
      refine ⟨?_, ?_⟩
      · unfold squeezed
        rw [normalizeFrom, if_pos hc, if_neg Bool.false_ne_true, glued_cons_break hc, if_neg hne,
          htrue]
        rfl
      · rw [normalizeFrom, if_pos hc, if_pos rfl, htrue, htidy]
    · have hc' : isWhitespace c = false := eq_false_of_ne_true hc
      have hcons : squeezed (c :: cs) = c :: squeezed cs := glued_cons_of_neg hc' cs
      have htidy : tidy (c :: cs) = squeezed (c :: cs) := (glued_of_neg (by
          rw [head?_cons, Option.any_some, hc']
          exact Bool.false_ne_true)).symm
      refine ⟨?_, ?_⟩
      · rw [normalizeFrom, if_neg hc, hfalse, hcons]
      · rw [normalizeFrom, if_neg hc, hfalse, htidy, hcons]

theorem Ends.normalize (h : Ends cs) :
    normalizeWhitespace (String.ofList cs) = String.ofList (tidy cs) := by
  have hhead : ¬ cs.head?.any isWhitespace = true := by
    intro hany
    cases cs with
    | nil => cases hany
    | cons c cs => exact Bool.false_ne_true ((h.first c rfl).symm.trans hany)
  have hglued : squeezed cs = tidy cs := glued_of_neg hhead
  unfold normalizeWhitespace
  rw [String.toList_ofList, (normalizeFrom_eq h.last).1, hglued]

theorem ends_trimChars : Ends (trimChars cs) := by
  refine ⟨fun c hc => ?_, fun c hc => ?_⟩
  · have hnot := head?_dropWhile_not isWhitespace cs
    obtain ⟨rest, hrest⟩ := List.head?_eq_some_iff.mp hc
    obtain ⟨back, hback⟩ := rdropWhile_prefix isWhitespace (cs.dropWhile isWhitespace)
    have hhead : (cs.dropWhile isWhitespace).head? = some c := by
      rw [← hback]
      unfold trimChars at hrest
      rw [hrest]
      rfl
    rw [hhead] at hnot
    exact hnot
  · have hne : (cs.dropWhile isWhitespace).rdropWhile isWhitespace ≠ [] := by
      intro hempty
      have hnil : trimChars cs = [] := hempty
      rw [hnil] at hc
      cases hc
    have hlast := rdropWhile_last_not isWhitespace (cs.dropWhile isWhitespace) hne
    have hsome : (trimChars cs).getLast? = some _ := getLast?_eq_some_getLast hne
    rw [Option.mem_def.mp hc, Option.some.injEq] at hsome
    rw [hsome]
    exact eq_false_of_ne_true hlast

theorem ends_intercalate {pieces : List (List Char)} (h : ∀ p ∈ pieces, p ≠ [] ∧ Ends p) :
    Ends ([' '].intercalate pieces) := by
  induction pieces with
  | nil => exact ⟨fun c hc => absurd hc (by simp), fun c hc => absurd hc (by simp)⟩
  | cons p pieces ih =>
    obtain ⟨hne, hends⟩ := h p mem_cons_self
    have hrest := ih fun q hq => h q (mem_cons_of_mem p hq)
    cases pieces with
    | nil =>
      rw [intercalate_singleton]
      exact hends
    | cons q pieces =>
      obtain ⟨c, cs, rfl⟩ := exists_cons_of_ne_nil hne
      have hqne : [' '].intercalate (q :: pieces) ≠ [] := by
        obtain ⟨d, ds, rfl⟩ :=
          exists_cons_of_ne_nil (h q (mem_cons_of_mem _ mem_cons_self)).1
        cases pieces with
        | nil =>
          rw [intercalate_singleton]
          exact cons_ne_nil d ds
        | cons r pieces =>
          rw [intercalate_cons_cons]
          exact cons_ne_nil d _
      rw [intercalate_cons_cons]
      refine ⟨hends.first, fun x hx => hrest.last x ?_⟩
      rwa [append_assoc, getLast?_append_of_ne_nil _ (by simp),
        getLast?_append_of_ne_nil _ hqne] at hx

/-! ## The whole reply -/

theorem stripLines_eq {lines : List String}
    (h : ∀ line ∈ lines, isFence line = false ∧ stripLine line = trim line) :
    stripLines false lines = (lines.map trim).filter (· ≠ "") := by
  induction lines with
  | nil => rfl
  | cons line rest ih =>
    obtain ⟨hfence, hline⟩ := h line mem_cons_self
    have hrest := ih fun other hother => h other (mem_cons_of_mem line hother)
    rw [stripLines, hfence, if_neg Bool.false_ne_true, hline, hrest, map_cons]
    by_cases hempty : trim line = ""
    · rw [if_pos (.inr hempty), List.filter_cons_of_neg (by simp [hempty])]
    · rw [if_neg (by simp [hempty]), List.filter_cons_of_pos (by simp [hempty])]

theorem isFence_eq_false {line : String} (h : backtick ∉ line.toList) : isFence line = false := by
  refine eq_false_of_ne_true fun hfence => h ?_
  have hwithin : (trim line).toList <:+: line.toList := by
    unfold trim trimChars
    rw [String.toList_ofList]
    exact (List.rdropWhile_prefix _ _).isInfix.trans (dropWhile_suffix _).isInfix
  have hstarts := (List.isPrefixOf_iff_prefix.mp hfence).isInfix.trans hwithin
  exact hstarts.subset (by rw [String.toList_ofList]; exact mem_cons_self)

theorem flatMap_words_lines (cs : List Char) : (cs.splitOn '\n').flatMap words = words cs := by
  have hbreak : ∀ c : Char, (c == '\n') = true → isWhitespace c = true := by
    intro c hc
    rw [beq_iff_eq.mp hc]
    decide
  rw [splitOn_eq_splitOnP]
  exact wordsBy_flatMap_splitOnP hbreak cs

theorem Bare.line (h : Bare cs) {line : List Char} (hline : line ∈ cs.splitOn '\n') :
    Bare line := by
  intro m hm hmem
  obtain ⟨hne, hbreak⟩ := markup_words m hm
  obtain ⟨w, hw, hwithin⟩ := (infix_iff_exists_word hne hbreak).mp hmem
  have hword : w ∈ words cs := by
    rw [← flatMap_words_lines]
    exact List.mem_flatMap.mpr ⟨line, hline, hw⟩
  exact h m hm ((infix_iff_exists_word hne hbreak).mpr ⟨w, hword, hwithin⟩)

/-- The lines of a text that are not blank, with single blanks between them. -/
def joinedLines (text : String) : List Char :=
  [' '].intercalate (((text.toList.splitOn '\n').map trimChars).filter fun line => !line.isEmpty)

theorem words_joinedLines (text : String) : words (joinedLines text) = words text.toList := by
  unfold words joinedLines
  rw [wordsBy_intercalate (by decide), wordsBy_flatMap_filter, flatMap_map]
  have htrim : (fun line => wordsBy isWhitespace (trimChars line)) = wordsBy isWhitespace :=
    funext words_trimChars
  rw [htrim]
  exact flatMap_words_lines text.toList

theorem ends_joinedLines (text : String) : Ends (joinedLines text) := by
  refine ends_intercalate fun line hline => ?_
  obtain ⟨hmem, hne⟩ := List.mem_filter.mp hline
  obtain ⟨cs, -, rfl⟩ := List.mem_map.mp hmem
  exact ⟨by simpa using hne, ends_trimChars⟩

variable {text : String}

theorem PlainText.stripLines_eq (h : PlainText text) :
    joinWith " " (stripLines false (splitLines text)) = String.ofList (joinedLines text) := by
  have hlines : ∀ line ∈ splitLines text, isFence line = false ∧ stripLine line = trim line := by
    intro line hline
    refine ⟨isFence_eq_false fun hcode => ?_, h.lines line hline⟩
    obtain ⟨cs, hcs, rfl⟩ := List.mem_map.mp hline
    rw [String.toList_ofList] at hcode
    exact (h.bare.line hcs).code hcode
  have htrim : (splitLines text).map trim =
      ((text.toList.splitOn '\n').map trimChars).map String.ofList := by
    unfold splitLines
    rw [map_map, map_map]
    refine map_congr_left fun cs _ => ?_
    unfold trim
    rw [Function.comp_apply, Function.comp_apply, String.toList_ofList]
  have hid : String.toList ∘ String.ofList = id := funext fun cs => String.toList_ofList
  rw [Voice.stripLines_eq hlines, htrim]
  unfold joinWith joinedLines
  rw [filter_map, map_map, hid, map_id]
  congr 2
  refine filter_congr fun cs _ => ?_
  cases cs with
  | nil => rfl
  | cons c cs =>
    refine decide_eq_true ?_
    exact fun hempty => cons_ne_nil c cs (String.ofList_eq_empty_iff.mp hempty)

theorem PlainText.plainReply_eq (h : PlainText text) :
    plainReply text = String.ofList (tidy text.toList) := by
  have hwords := words_joinedLines text
  have hbare : Bare (joinedLines text) := h.bare.of_words hwords
  have hmarkdown : stripMarkdown text = String.ofList (joinedLines text) := by
    unfold stripMarkdown
    rw [h.stripLines_eq, hbare.stripInline]
    dsimp only
    rw [String.toList_ofList, Bare.stripLinks hbare.link]
  unfold plainReply
  rw [hmarkdown]
  dsimp only
  rw [hbare.hasRawUrlMarker, if_neg Bool.false_ne_true, (ends_joinedLines text).normalize]
  unfold tidy
  rw [hwords]

/-! ## Sentences -/

theorem tidy_eq_of_spaced (h : Spaced isWhitespace ' ' cs) : tidy cs = trimChars cs :=
  h.trimmed_eq.symm

theorem words_tidy : words (tidy cs) = words cs :=
  splitOnP_intercalate_space (words_of_splitOnP cs)

theorem spaced_tidy : Spaced isWhitespace ' ' (tidy cs) :=
  (spaced_glued (by decide) cs).mono (intercalate_suffix_glued cs).isInfix

theorem words_collapse (acc : List Char) (b : Bool)
    (hb : b = true → ∃ front, ∃ d, isWhitespace d = true ∧ acc = front ++ [d]) :
    words (cs.foldl collapseStep (acc, b)).1 = words (acc ++ cs) := by
  induction cs generalizing acc b with
  | nil =>
    rw [append_nil]
    rfl
  | cons c cs ih =>
    have hkept : ∀ front d, isWhitespace d = true → acc = front ++ [d] →
        words (acc ++ cs) = words acc ++ words cs := by
      rintro front d hd rfl
      have hsplit := words_append_space hd front cs
      have hfront : words (front ++ [d]) = words front := wordsBy_concat_break hd front
      rwa [append_assoc, hfront]
    rw [foldl_cons]
    by_cases hc : isWhitespace c = true
    · have hblank : isWhitespace ' ' = true := by decide
      rw [words_append_space hc]
      by_cases hkeep : !b ∧ acc ≠ []
      · have hstep : collapseStep (acc, b) c = (acc ++ [' '], true) := by
          unfold collapseStep
          rw [if_pos hc, if_pos hkeep]
        rw [hstep, ih _ _ fun _ => ⟨acc, ' ', hblank, rfl⟩, append_assoc]
        exact words_append_space hblank acc cs
      · have hstep : collapseStep (acc, b) c = (acc, b) := by
          unfold collapseStep
          rw [if_pos hc, if_neg hkeep]
        rw [hstep, ih acc b hb]
        by_cases hnil : acc = []
        · rw [hnil]
          rfl
        · cases b with
          | false => exact absurd ⟨rfl, hnil⟩ hkeep
          | true =>
            obtain ⟨front, d, hd, hacc⟩ := hb rfl
            exact hkept front d hd hacc
    · have hstep : collapseStep (acc, b) c = (acc ++ [c], false) := by
        unfold collapseStep
        rw [if_neg hc]
      rw [hstep, ih _ _ fun h => absurd h Bool.false_ne_true, append_assoc]
      rfl

theorem words_collapseWhitespace (text : String) :
    words (collapseWhitespace text).toList = words text.toList := by
  unfold collapseWhitespace
  rw [String.toList_ofList]
  exact words_collapse [] false fun h => absurd h Bool.false_ne_true

theorem words_trim (text : String) : words (trim text).toList = words text.toList := by
  unfold trim
  rw [String.toList_ofList, words_trimChars]

theorem filter_flatMap_parens (cs : List Char) :
    (cs.flatMap fun c => if c = '(' ∨ c = ')' then [',', ' '] else [c]).filter
        (fun c => c ∉ ['[', ']', '{', '}', '"']) =
      cs.flatMap fun ch => if ch = '(' ∨ ch = ')' then [',', ' ']
        else if ch ∈ ['[', ']', '{', '}', '"'] then [] else [ch] := by
  rw [filter_flatMap]
  congr 1
  funext c
  by_cases hparen : c = '(' ∨ c = ')'
  · rw [if_pos hparen, if_pos hparen]
    decide
  · rw [if_neg hparen, if_neg hparen]
    by_cases hmark : c ∈ ['[', ']', '{', '}', '"']
    · rw [if_pos hmark, List.filter_singleton, decide_eq_false (not_not_intro hmark)]
      rfl
    · rw [if_neg hmark, List.filter_singleton, decide_eq_true hmark]
      rfl

theorem cleanPunctuation_eq (text : String) : cleanPunctuation text = cleanForTts text := by
  unfold cleanPunctuation cleanForTts removeChars
  dsimp only
  rw [String.toList_ofList, filter_flatMap_parens]

theorem Bare.words_cleanSentence (h : Bare cs) (htidy : tidy cs = cs)
    (hmark : stripListOrHeaderPrefix (String.ofList cs) = String.ofList cs) :
    words (cleanSentence (String.ofList cs)).toList =
      words (cleanForTts (String.ofList cs)).toList := by
  have hurls : ((words cs).map String.ofList).filter (fun token => !Voice.isRawUrl token) =
      (words cs).map String.ofList := by
    refine List.filter_eq_self.mpr fun token htoken => ?_
    obtain ⟨w, hw, rfl⟩ := List.mem_map.mp htoken
    rw [h.word hw]
    rfl
  have hjoin : joinWith " " ((words cs).map String.ofList) = String.ofList cs := by
    have hid : String.toList ∘ String.ofList = id := funext fun cs => String.toList_ofList
    unfold joinWith
    rw [map_map, hid, map_id]
    exact congrArg String.ofList htidy
  have hspaced : Spaced isWhitespace ' ' cs := by
    have hself := @spaced_tidy cs
    rwa [htidy] at hself
  have htrim : trim (String.ofList cs) = String.ofList cs := by
    rw [trim, String.toList_ofList, ← tidy_eq_of_spaced hspaced, htidy]
  rw [cleanSentence_eq h.link]
  unfold cleanWords
  rw [hurls]
  dsimp only
  rw [hjoin, htrim, hmark, h.stripInline, words_collapseWhitespace, words_trim,
    cleanPunctuation_eq]

end

end GenieClaw.Voice
