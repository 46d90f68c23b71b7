import GenieClaw.Voice.PlainReply
import GenieClaw.Voice.SpokenAlike

/-!
# Raw URLs in a spoken reply

`for_voice` looks for URLs only where the reply holds a marker of one, and what it does instead
differs in the outer white space, which the cutting into sentences trims. The cleaning for the
synthesiser comes after the URLs are gone, and it can lay one bare: it cuts words at parentheses
and ellipses and takes marks out of them.

* `forVoice_iff` (no assumption): the spoken text has no raw URL exactly if the cleaning makes none.
-/

namespace GenieClaw.Voice

open Library Library.Text SentenceStreamer Format List Option

/-- The reply on one line, with the URLs taken out of every reply. -/
def plainReplyFull (text : String) : String := stripRawUrls (stripMarkdown text)

def forVoiceFull (text : String) : String :=
  trim (cleanForTts (truncateForVoice (plainReplyFull text) 3))

/-! ## Outer white space -/

section

variable {room : Nat} {prev prev' : Option Char} {front clause rest cs : List Char} {ch d : Char}

theorem trimChars_append_left (h : ∀ c ∈ front, isWhitespace c = true) (xs : List Char) :
    trimChars (front ++ xs) = trimChars xs := by
  unfold trimChars
  rw [dropWhile_append, List.dropWhile_eq_nil_iff.mpr h, isEmpty_nil, if_pos rfl]

theorem words_append_left (h : ∀ c ∈ front, isWhitespace c = true) (xs : List Char) :
    words (front ++ xs) = words xs := by
  rw [← words_trimChars, trimChars_append_left h, words_trimChars]

theorem trimChars_append_space (hd : isWhitespace d = true) (xs : List Char) :
    trimChars (xs ++ [d]) = trimChars xs := by
  unfold trimChars
  rw [dropWhile_append]
  split
  · rename_i hempty
    rw [List.isEmpty_iff.mp hempty, dropWhile_cons, if_pos hd]
    rfl
  · exact rdropWhile_concat_pos _ _ _ hd

/-- White space in front of a clause does not matter, nor which character that is no digit stands
before it. -/
theorem endsSentence_front (h : ∀ c ∈ front, isWhitespace c = true)
    (hprev : prev.any isAsciiDigit = prev'.any isAsciiDigit) (next : Option Char) :
    endsSentence prev ch next (front ++ clause) = endsSentence prev' ch next clause := by
  unfold endsSentence
  rw [hprev, trimChars_append_left h, endsWithAbbreviation_congr (words_append_left h clause)]

theorem sentencesFrom_front (h : ∀ c ∈ front, isWhitespace c = true)
    (hprev : prev.any isAsciiDigit = prev'.any isAsciiDigit) (cs : List Char) :
    sentencesFrom room prev (front ++ clause) cs = sentencesFrom room prev' clause cs := by
  induction cs generalizing room prev prev' clause with
  | nil =>
    unfold sentencesFrom
    rw [trimChars_append_left h]
  | cons ch rest ih =>
    have hends := @endsSentence_front prev prev' front (clause ++ [ch]) ch h hprev rest.head?
    unfold sentencesFrom
    rw [append_assoc, hends, trimChars_append_left h, ih rfl]

theorem endsSentence_end (hd : isWhitespace d = true) :
    endsSentence prev ch (some d) clause = endsSentence prev ch none clause := by
  unfold endsSentence
  simp only [any_some, all_some, any_none, all_none,
    isAsciiDigit_of_space hd, hd]

theorem sentencesFrom_back (hd : isWhitespace d = true) (cs : List Char) :
    sentencesFrom room prev clause (cs ++ [d]) = sentencesFrom room prev clause cs := by
  induction cs generalizing room prev clause with
  | nil =>
    obtain ⟨hcjk, hascii, -⟩ := isWhitespace_facts hd
    cases room with
    | zero => rw [sentencesFrom_zero, sentencesFrom_zero]
    | succ room =>
      rw [nil_append, sentencesFrom_of_not (endsSentence_other _ hcjk hascii),
        sentencesFrom_nil, sentencesFrom_nil, trimChars_append_space hd]
  | cons ch rest ih =>
    have hnext : endsSentence prev ch (rest ++ [d]).head? (clause ++ [ch]) =
        endsSentence prev ch rest.head? (clause ++ [ch]) := by
      cases rest with
      | nil => exact endsSentence_end hd
      | cons e rest => rfl
    rw [cons_append]
    unfold sentencesFrom
    rw [hnext, ih, ih]

theorem normalizeFrom_append (cs : List Char) {back : List Char}
    (h : ∀ c ∈ back, isWhitespace c = true) (b : Bool) :
    normalizeFrom b (cs ++ back) = normalizeFrom b cs ∨
      normalizeFrom b (cs ++ back) = normalizeFrom b cs ++ [' '] := by
  induction cs generalizing b with
  | nil =>
    have htrue : ∀ back : List Char, (∀ c ∈ back, isWhitespace c = true) →
        normalizeFrom true back = [] := by
      intro back hback
      induction back with
      | nil => rfl
      | cons c back ih =>
        rw [normalizeFrom, if_pos (hback c mem_cons_self), if_pos rfl]
        exact ih fun e he => hback e (mem_cons_of_mem c he)
    cases b with
    | true => exact .inl (htrue back h)
    | false =>
      cases back with
      | nil => exact .inl rfl
      | cons c back =>
        have hrest := htrue back fun e he => h e (mem_cons_of_mem c he)
        have hone : normalizeFrom false (c :: back) = [' '] := by
          rw [normalizeFrom, if_pos (h c mem_cons_self), if_neg Bool.false_ne_true, hrest]
        exact .inr hone
  | cons c cs ih =>
    rw [cons_append, normalizeFrom, normalizeFrom]
    split
    · split
      · exact ih true
      · rcases ih true with hnone | hone
        · exact .inl (congrArg _ hnone)
        · exact .inr (congrArg _ hone)
    · rcases ih false with hnone | hone
      · exact .inl (congrArg _ hnone)
      · exact .inr (congrArg _ hone)

theorem sentencesFrom_normalize (cs : List Char) :
    sentencesFrom room none [] (normalizeFrom false cs) = sentencesFrom room none [] (tidy cs) := by
  have hblank : isWhitespace ' ' = true := by decide
  let front := cs.rdropWhile isWhitespace
  have hsplit : cs = front ++ cs.rtakeWhile isWhitespace := List.rdropWhile_append_rtakeWhile.symm
  have hback : ∀ c ∈ cs.rtakeWhile isWhitespace, isWhitespace c = true :=
    fun c hc => mem_rtakeWhile_imp hc
  have hlast : ∀ c ∈ front.getLast?, isWhitespace c = false := by
    intro c hc
    have hne : front ≠ [] := fun hnil => by simp [hnil] at hc
    rw [getLast?_eq_some_getLast hne, mem_some_iff] at hc
    exact hc ▸ eq_false_of_ne_true (rdropWhile_last_not isWhitespace cs hne)
  have hwords : wordsBy isWhitespace front = words cs := wordsBy_rdropWhile (fun _ h => h) cs
  have hfront : sentencesFrom room none [] (normalizeFrom false front) =
      sentencesFrom room none [] (tidy cs) := by
    rw [(normalizeFrom_eq hlast).1]
    unfold squeezed glued tidy
    rw [hwords]
    split
    · cases room with
      | zero => rw [sentencesFrom_zero, sentencesFrom_zero]
      | succ room =>
        rw [singleton_append, sentencesFrom_of_not (endsSentence_other _ (by decide)
          (by decide)), nil_append]
        exact @sentencesFrom_front _ (some ' ') none [' '] []
          (fun c hc => List.mem_singleton.mp hc ▸ hblank) (by decide) _
    · rfl
  rcases normalizeFrom_append front hback false with h | h
  · rw [← hfront, ← h, ← hsplit]
  · rw [← hfront, ← sentencesFrom_back hblank (normalizeFrom false front), ← h, ← hsplit]

end

/-! ## The gate -/

theorem within_of_startsWith {pre s : String} (h : startsWith pre s = true) :
    pre.toList <:+: s.toList := (List.isPrefixOf_iff_prefix.mp h).isInfix

theorem trimMatches_within (q : Char → Bool) (s : String) :
    (trimMatches q s).toList <:+: s.toList := by
  unfold trimMatches
  rw [String.toList_ofList]
  exact (List.rdropWhile_prefix _ _).isInfix.trans (dropWhile_suffix _).isInfix

theorem isRawUrl_of_gate {cs w : List Char}
    (h : hasRawUrlMarker (String.ofList cs) = false) (hw : w ∈ words cs) :
    Voice.isRawUrl (String.ofList w) = false := by
  have hword : ∀ marker : String, containsText (String.ofList cs) marker = false →
      startsWith marker (trimMatches isUrlBracket (String.ofList w)) = false := by
    intro marker hmarker
    refine eq_false_of_ne_true fun hstarts => ?_
    have hwithin := (within_of_startsWith hstarts).trans (trimMatches_within _ _)
    rw [String.toList_ofList] at hwithin
    unfold containsText at hmarker
    rw [String.toList_ofList] at hmarker
    exact of_decide_eq_false hmarker (hwithin.trans (infix_of_mem_wordsBy hw))
  simp only [hasRawUrlMarker, Bool.or_eq_false_iff] at h
  simp only [Voice.isRawUrl, Bool.or_eq_false_iff]
  exact ⟨⟨hword _ h.1.1, hword _ h.1.2⟩, hword _ h.2⟩

theorem stripRawUrls_of_gate {cs : List Char} (h : hasRawUrlMarker (String.ofList cs) = false) :
    stripRawUrls (String.ofList cs) = String.ofList (tidy cs) := by
  have hkept : ((words cs).map String.ofList).filter (fun token => !Voice.isRawUrl token) =
      (words cs).map String.ofList := by
    refine List.filter_eq_self.mpr fun token htoken => ?_
    obtain ⟨w, hw, rfl⟩ := List.mem_map.mp htoken
    rw [isRawUrl_of_gate h hw]
    rfl
  have hid : String.toList ∘ String.ofList = id := funext fun cs => String.toList_ofList
  unfold stripRawUrls joinWith
  rw [splitWhitespace_eq, hkept, List.map_map, hid, List.map_id]
  rfl

theorem truncateForVoice_plainReply (text : String) (n : Nat) :
    truncateForVoice (plainReply text) n = truncateForVoice (plainReplyFull text) n := by
  obtain ⟨cs, hcs⟩ : ∃ cs, stripMarkdown text = String.ofList cs := ⟨_, String.ofList_toList.symm⟩
  unfold plainReply plainReplyFull
  rw [hcs]
  dsimp only
  split
  · rfl
  · rename_i hgate
    rw [stripRawUrls_of_gate (eq_false_of_ne_true hgate)]
    unfold truncateForVoice normalizeWhitespace
    simp only [String.toList_ofList]
    rw [sentencesFrom_normalize]

theorem forVoice_eq_full (text : String) : forVoice text = forVoiceFull text := by
  unfold forVoice forVoiceFull
  rw [truncateForVoice_plainReply]

/-! ## What the cleaning lays bare -/

/-- The cleaning without the ellipses and the dashes. -/
def readMarks (cs : List Char) : List Char :=
  substitute "'s".toList "s".toList (cs.flatMap fun ch =>
    if ch = '(' ∨ ch = ')' then [',', ' ']
    else if ch ∈ ['[', ']', '{', '}', '"'] then [] else [ch])

def cutEllipses (cs : List Char) : List Char := substitute "...".toList ", ".toList cs

def cutDashes (cs : List Char) : List Char :=
  substitute " – ".toList ", ".toList (substitute " — ".toList ", ".toList
    (substitute " - ".toList ", ".toList cs))

/-- Text of which no word is read as a URL. -/
def Quiet (cs : List Char) : Prop :=
  ∀ w ∈ words (readMarks cs), Voice.isRawUrl (String.ofList w) = false

instance (cs : List Char) : Decidable (Quiet cs) := by
  unfold Quiet
  infer_instance

/-- The words of the sentences that are kept. -/
def keptWords (text : String) : List (List Char) :=
  (sentencesFrom 3 none [] (plainReply text).toList).flatMap words

section

variable {d : Char} {xs ys cs : List Char}

theorem ne_of_isWhitespace (hd : isWhitespace d = true) {c : Char}
    (hc : isWhitespace c = false) : d ≠ c := by
  rintro rfl
  exact Bool.false_ne_true (hc.symm.trans hd)

theorem notMem_of_isWhitespace (hd : isWhitespace d = true)
    (h : ∀ c ∈ cs, isWhitespace c = false) : d ∉ cs :=
  fun hmem => ne_of_isWhitespace hd (h d hmem) rfl

theorem readMarks_break (hd : isWhitespace d = true) (xs ys : List Char) :
    readMarks (xs ++ d :: ys) = readMarks xs ++ d :: readMarks ys := by
  have hparen : ¬ (d = '(' ∨ d = ')') := fun h => h.elim
    (ne_of_isWhitespace hd (by decide)) (ne_of_isWhitespace hd (by decide))
  have hmarks : ∀ c ∈ ['[', ']', '{', '}', '"'], isWhitespace c = false :=
    forall_mem_of_all (by decide)
  have hquote : ∀ c ∈ "'s".toList, isWhitespace c = false := forall_mem_of_all (by decide)
  unfold readMarks
  rw [flatMap_append, flatMap_cons, if_neg hparen,
    if_neg (notMem_of_isWhitespace hd hmarks), singleton_append,
    substitute_break (by decide) (notMem_of_isWhitespace hd hquote)]

theorem cutEllipses_break (hd : isWhitespace d = true) (xs ys : List Char) :
    cutEllipses (xs ++ d :: ys) = cutEllipses xs ++ d :: cutEllipses ys := by
  have hdots : ∀ c ∈ "...".toList, isWhitespace c = false := forall_mem_of_all (by decide)
  exact substitute_break (by decide) (notMem_of_isWhitespace hd hdots) xs ys

theorem quiet_nil : Quiet [] := fun _ hw => absurd hw not_mem_nil

theorem quiet_break (hd : isWhitespace d = true) : Quiet (xs ++ d :: ys) ↔ Quiet xs ∧ Quiet ys := by
  unfold Quiet
  rw [readMarks_break hd, words_append_space hd, forall_mem_append]

theorem isRawUrl_comma (w : List Char) :
    Voice.isRawUrl (String.ofList (w ++ [','])) = Voice.isRawUrl (String.ofList w) := by
  have hcomma : isUrlBracket ',' = true := by decide
  have htrim : trimMatches isUrlBracket (String.ofList (w ++ [','])) =
      trimMatches isUrlBracket (String.ofList w) := by
    unfold trimMatches
    rw [String.toList_ofList, String.toList_ofList, dropWhile_append]
    split
    · rename_i hempty
      rw [List.isEmpty_iff.mp hempty, dropWhile_cons, if_pos hcomma]
      rfl
    · rw [rdropWhile_concat_pos _ _ _ hcomma]
  unfold Voice.isRawUrl
  rw [htrim]

theorem readMarks_comma (xs : List Char) : readMarks (xs ++ [',']) = readMarks xs ++ [','] := by
  unfold readMarks
  rw [flatMap_append]
  exact substitute_break (by decide) (by decide) _ []

theorem words_comma (cs : List Char) :
    (∀ w ∈ words (cs ++ [',']), Voice.isRawUrl (String.ofList w) = false) ↔
      ∀ w ∈ words cs, Voice.isRawUrl (String.ofList w) = false := by
  have halone : Voice.isRawUrl (String.ofList [',']) = false := by decide
  have hcomma : wordsBy isWhitespace [','] = [[',']] := by decide
  unfold words
  by_cases hlast : (cs.rtakeWhile fun c => !isWhitespace c) = []
  · rw [wordsBy_append_apart (.inl hlast), hcomma, forall_mem_append,
      forall_mem_singleton]
    exact and_iff_left halone
  · obtain ⟨front, rear, hcs, hrear, hboth, -⟩ :=
      @wordsBy_append_across _ isWhitespace cs [','] hlast (by decide)
    have htake : ([','].takeWhile fun c => !isWhitespace c) = [','] := by decide
    rw [hcomma, htake] at hrear
    rw [htake, ← (List.cons.inj hrear).2] at hboth
    rw [hboth, hcs, forall_mem_append, forall_mem_append, forall_mem_singleton,
      forall_mem_singleton, isRawUrl_comma]

theorem quiet_comma (xs : List Char) : Quiet (xs ++ [',']) ↔ Quiet xs := by
  unfold Quiet
  rw [readMarks_comma, words_comma]

theorem quiet_substitute_dash {dash : Char} (hquiet : Quiet [dash]) (xs cs : List Char) :
    Quiet (xs ++ substitute [' ', dash, ' '] ", ".toList cs) ↔ Quiet (xs ++ cs) := by
  have hblank : isWhitespace ' ' = true := by decide
  have hold : [' ', dash, ' '] ≠ [] := cons_ne_nil _ _
  induction hlen : cs.length using Nat.strong_induction_on generalizing xs cs with
  | _ len ih =>
    cases cs with
    | nil => rfl
    | cons c cs =>
      rw [length_cons] at hlen
      by_cases hstarts : [' ', dash, ' '] <+: c :: cs
      · obtain ⟨rest, hrest⟩ := hstarts
        have hlength := congrArg List.length hrest
        have hnext := ih rest.length (by simp at hlength; omega) [] rest rfl
        rw [nil_append, nil_append] at hnext
        have hstart : [' ', dash, ' '] <+: ' ' :: ([dash, ' '] ++ rest) := ⟨rest, rfl⟩
        rw [← hrest, cons_append, substitute_cons_of_starts hold hstart]
        calc Quiet (xs ++ (", ".toList ++ substitute [' ', dash, ' '] ", ".toList
              ((' ' :: ([dash, ' '] ++ rest)).drop [' ', dash, ' '].length)))
            ↔ Quiet ((xs ++ [',']) ++ ' ' :: substitute [' ', dash, ' '] ", ".toList rest) := by
              rw [append_assoc]
              rfl
          _ ↔ Quiet xs ∧ Quiet rest := (quiet_break hblank).trans (and_congr (quiet_comma xs) hnext)
          _ ↔ Quiet xs ∧ Quiet ([dash] ++ ' ' :: rest) := by
              rw [quiet_break hblank, and_iff_right hquiet]
          _ ↔ Quiet (xs ++ ' ' :: ([dash, ' '] ++ rest)) := (quiet_break hblank).symm
      · have hnext := ih cs.length (by omega) (xs ++ [c]) cs rfl
        rw [append_assoc, append_assoc] at hnext
        rw [substitute_cons_of_not hstarts]
        exact hnext

theorem quiet_cutDashes (cs : List Char) : Quiet (cutDashes cs) ↔ Quiet cs := by
  have hhyphen := quiet_substitute_dash (show Quiet ['-'] by decide +kernel) []
  have hem := quiet_substitute_dash (show Quiet ['—'] by decide +kernel) []
  have hen := quiet_substitute_dash (show Quiet ['–'] by decide +kernel) []
  exact (hen _).trans ((hem _).trans (hhyphen cs))

theorem cleanForTts_stages (text : String) :
    (cleanForTts text).toList = readMarks (cutDashes (cutEllipses text.toList)) := by
  unfold cleanForTts readMarks cutDashes cutEllipses
  dsimp only
  rw [@replaceText_eq "'s" "s" (by decide)]
  simp only [String.toList_ofList]
  rw [@replaceText_eq " – " ", " (by decide), @replaceText_eq " — " ", " (by decide),
    @replaceText_eq " - " ", " (by decide), @replaceText_eq "..." ", " (by decide)]

theorem quiet_cutEllipses (cs : List Char) :
    Quiet (cutEllipses cs) ↔ ∀ w ∈ words cs, Quiet (cutEllipses w) := by
  refine (forall_wordsBy_iff (P := fun cs => Quiet (cutEllipses cs)) quiet_nil ?_ cs).symm
  intro d xs ys hd
  rw [cutEllipses_break hd, quiet_break hd]

end

theorem words_forVoice (text : String) :
    words (forVoice text).toList = words (readMarks (cutDashes (cutEllipses
      ([' '].intercalate (sentencesFrom 3 none [] (plainReply text).toList))))) := by
  unfold forVoice
  rw [words_trim, cleanForTts_stages, truncateForVoice, String.toList_ofList]

/-- The gate never changes the spoken text. That text has no word which is a URL if and only if
no word that is kept has a piece which the cleaning makes one of. -/
theorem forVoice_iff (text : String) :
    (forVoice text = forVoiceFull text ∧
        ∀ w ∈ words (forVoice text).toList, Voice.isRawUrl (String.ofList w) = false) ↔
      ∀ w ∈ keptWords text, Quiet (cutEllipses w) := by
  have hblank : isWhitespace ' ' = true := by decide
  have hkept : words ([' '].intercalate (sentencesFrom 3 none [] (plainReply text).toList)) =
      keptWords text := wordsBy_intercalate hblank _
  have hquiet := (quiet_cutDashes _).trans (quiet_cutEllipses
    ([' '].intercalate (sentencesFrom 3 none [] (plainReply text).toList)))
  rw [and_iff_right (forVoice_eq_full text), words_forVoice, ← hkept]
  exact hquiet

/-- A word with a URL between parentheses comes apart. -/
theorem forVoice_parenthesis :
    ¬ (forVoice "Docs(www.example.com)" = forVoiceFull "Docs(www.example.com)" ∧
      ∀ w ∈ words (forVoice "Docs(www.example.com)").toList,
        Voice.isRawUrl (String.ofList w) = false) := by
  intro h
  have hmem : "www.example.com,".toList ∈ words (forVoice "Docs(www.example.com)").toList := by
    decide +kernel
  have hraw : Voice.isRawUrl "www.example.com," = true := by decide +kernel
  have hnot := h.2 _ hmem
  rw [String.ofList_toList, hraw] at hnot
  cases hnot

end GenieClaw.Voice
