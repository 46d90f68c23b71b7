import GenieClaw.Library.Gaps
import GenieClaw.Quick.Calculation
import GenieClaw.Voice.Turn

/-!
# Normalizing in one pass

`normalize_transcript` of `voice/intent.rs` and `normalize` of `tools/quick.rs`, as the loops that
they are. Both carry a flag for a blank: the first writes the blank early and takes back the last
one, the second writes it late.

* `normalize_one_pass` (`NormalizeRules`): both loops do what the passes do, and once is enough.
-/

namespace GenieClaw.Quick

open Library Library.Text Home

/-! ## Words of a normalized text -/

variable {tables : CharTables}

/-- The runs of letters and digits of the lower-cased text. -/
def normalWords (tables : CharTables) (text : String) : List (List Char) :=
  wordsBy (fun c => !tables.isAlphanumeric c) (tables.toLowercase text).toList

theorem normalize_eq (text : String) :
    normalize tables text = String.ofList (spaced (normalWords tables text)) := by
  have hspace : " ".toList = [' '] := rfl
  have hid : String.toList ∘ String.ofList = id := by
    funext cs
    exact String.toList_ofList
  unfold normalize joinWith normalWords spaced
  rw [List.map_map, hspace, hid, List.map_id]

theorem alphanumeric_of_mem_normalWords {text : String} {word : List Char}
    (h : word ∈ normalWords tables text) : ∀ c ∈ word, tables.isAlphanumeric c = true := by
  intro c hc
  have hmem := (List.mem_filter.mp h).1
  have hchar := forall_mem_splitOnP _ word hmem c hc
  simpa using hchar

/-! ## Transcripts -/

/-- The loop of `normalize_transcript`: what it has written, and whether that ends in a blank. -/
def normalizeTranscriptFrom (out : List Char) (pendingSpace : Bool) : List Char → List Char
  | [] => if pendingSpace then out.dropLast else out
  | ch :: rest =>
    if isWhitespace ch then
      if out ≠ [] ∧ pendingSpace = false then normalizeTranscriptFrom (out ++ [' ']) true rest
      else normalizeTranscriptFrom out pendingSpace rest
    else normalizeTranscriptFrom (out ++ [ch.toLower]) false rest

def onePassTranscript (text : String) : String :=
  String.ofList (normalizeTranscriptFrom [] false text.toList)

/-- `normalize_transcript_oracle`. -/
def normalizeTranscriptOracle (text : String) : String :=
  toAsciiLowercase (trim (joinWith " " (splitWhitespace text)))

/-- The words in small letters, with single gaps. -/
def smallGlued (cs : List Char) : List Char :=
  glued isWhitespace ' ' (cs.map Char.toLower)

theorem smallGlued_word {ch : Char} (hch : isWhitespace ch = false) (cs : List Char) :
    smallGlued (ch :: cs) = ch.toLower :: smallGlued cs :=
  glued_cons_of_neg ((isWhitespace_toLower ch).trans hch) _

theorem normalizeTranscriptFrom_spec (cs : List Char) : ∀ out : List Char, out ≠ [] →
    normalizeTranscriptFrom out false cs = out ++ smallGlued cs ∧
      normalizeTranscriptFrom (out ++ [' ']) true cs = out ++ smallGlued (' ' :: cs) := by
  have hblank : isWhitespace ' '.toLower = true := by decide
  induction cs with
  | nil =>
    intro out hout
    constructor
    · exact (List.append_nil out).symm
    · rw [normalizeTranscriptFrom, if_pos rfl, List.dropLast_concat]
      exact (List.append_nil out).symm
  | cons ch cs ih =>
    intro out hout
    cases hch : isWhitespace ch with
    | true =>
      have hlower : isWhitespace ch.toLower = true := (isWhitespace_toLower ch).trans hch
      have hone : smallGlued (ch :: cs) = smallGlued (' ' :: cs) := by
        unfold smallGlued
        rw [List.map_cons, List.map_cons, glued_cons_break hlower, glued_cons_break hblank]
      have htwo : smallGlued (' ' :: ch :: cs) = smallGlued (' ' :: cs) :=
        glued_break_break hblank hlower _
      constructor
      · rw [normalizeTranscriptFrom, if_pos hch, if_pos ⟨hout, rfl⟩, (ih out hout).2, hone]
      · rw [normalizeTranscriptFrom, if_pos hch, if_neg fun h => absurd h.2 (by decide),
          (ih out hout).2, htwo]
    | false =>
      have hlower : isWhitespace ch.toLower = false := (isWhitespace_toLower ch).trans hch
      have hnot : ¬ isWhitespace ch = true := by
        rw [hch]
        exact Bool.false_ne_true
      have hword : smallGlued (' ' :: ch :: cs) = ' ' :: ch.toLower :: smallGlued cs :=
        glued_break_word hblank hlower _
      constructor
      · rw [normalizeTranscriptFrom, if_neg hnot,
          (ih _ (List.append_ne_nil_of_left_ne_nil hout _)).1, smallGlued_word hch,
          List.append_assoc, List.singleton_append]
      · rw [normalizeTranscriptFrom, if_neg hnot,
          (ih _ (List.append_ne_nil_of_right_ne_nil _ (List.cons_ne_nil _ _))).1, hword,
          List.append_assoc, List.append_assoc, List.singleton_append, List.singleton_append]

theorem normalizeTranscriptFrom_nil (cs : List Char) :
    normalizeTranscriptFrom [] false cs = spaced (wordsBy isWhitespace (cs.map Char.toLower)) := by
  induction cs with
  | nil => rfl
  | cons ch cs ih =>
    cases hch : isWhitespace ch with
    | true =>
      have hlower : isWhitespace ch.toLower = true := (isWhitespace_toLower ch).trans hch
      rw [normalizeTranscriptFrom, if_pos hch, if_neg fun h => h.1 rfl, ih, List.map_cons,
        wordsBy_cons_break hlower]
    | false =>
      have hnot : ¬ isWhitespace ch = true := by
        rw [hch]
        exact Bool.false_ne_true
      have hhead : ¬ ((ch :: cs).map Char.toLower).head?.any isWhitespace = true := by
        rw [List.map_cons, List.head?_cons, Option.any_some, isWhitespace_toLower, hch]
        exact Bool.false_ne_true
      have hglued : smallGlued (ch :: cs) =
          spaced (wordsBy isWhitespace ((ch :: cs).map Char.toLower)) := glued_of_neg hhead
      rw [normalizeTranscriptFrom, if_neg hnot, List.nil_append,
        (normalizeTranscriptFrom_spec cs [ch.toLower] (List.cons_ne_nil _ _)).1, ← hglued,
        smallGlued_word hch, List.singleton_append]

/-- The small words of a transcript. -/
def transcriptWords (text : String) : List (List Char) :=
  wordsBy isWhitespace (text.toList.map Char.toLower)

theorem onePassTranscript_eq (text : String) :
    onePassTranscript text = String.ofList (spaced (transcriptWords text)) :=
  congrArg String.ofList (normalizeTranscriptFrom_nil text.toList)

theorem normalizeTranscriptOracle_eq (text : String) :
    normalizeTranscriptOracle text = String.ofList (spaced (transcriptWords text)) := by
  have hspace : " ".toList = [' '] := rfl
  have hid : String.toList ∘ String.ofList = id := by
    funext cs
    exact String.toList_ofList
  have hjoin : joinWith " " (splitWhitespace text) =
      String.ofList (spaced (wordsBy isWhitespace text.toList)) := by
    unfold joinWith splitWhitespace spaced wordsBy
    rw [List.map_map, hspace, hid, List.map_id]
  have hlower : (spaced (wordsBy isWhitespace text.toList)).map Char.toLower =
      spaced (transcriptWords text) := by
    unfold transcriptWords
    rw [wordsBy_map isWhitespace_toLower, map_spaced (by decide)]
  unfold normalizeTranscriptOracle trim toAsciiLowercase
  rw [hjoin, String.toList_ofList, String.toList_ofList, trimChars_spaced (isWords_wordsBy _),
    hlower]

theorem onePassTranscript_idem (text : String) :
    onePassTranscript (onePassTranscript text) = onePassTranscript text := by
  have hsmall : (transcriptWords text).map (List.map Char.toLower) = transcriptWords text := by
    have hlower : Char.toLower ∘ Char.toLower = Char.toLower := by
      funext c
      exact toLower_toLower c
    unfold transcriptWords
    rw [← wordsBy_map isWhitespace_toLower, List.map_map, hlower]
  have hwords : transcriptWords (String.ofList (spaced (transcriptWords text))) =
      transcriptWords text := by
    have hspaced := wordsBy_spaced (isWords_wordsBy (text.toList.map Char.toLower))
    conv_lhs => unfold transcriptWords
    rw [String.toList_ofList, map_spaced (by decide)]
    exact (congrArg (fun words => wordsBy isWhitespace (spaced words)) hsmall).trans hspaced
  rw [onePassTranscript_eq text, onePassTranscript_eq, hwords]

/-! ## Requests -/

variable (tables)

/-- The loop of `normalize`: what it has written, and whether a blank is due. -/
def normalizeFrom (out : List Char) (pendingSpace : Bool) : List Char → List Char
  | [] => out
  | ch :: rest =>
    if tables.isAlphanumeric ch then
      normalizeFrom ((if pendingSpace ∧ out ≠ [] then out ++ [' '] else out) ++ [ch]) false rest
    else normalizeFrom out true rest

def onePassNormalize (text : String) : String :=
  String.ofList (normalizeFrom tables [] false (tables.toLowercase text).toList)

/-- Lower-casing, a blank for every character that is not alphanumeric, one blank for every run of
blanks, and none around the text. -/
def normalizeInPasses (text : String) : String :=
  trim (String.ofList (collapseRuns ' '
    ((tables.toLowercase text).toList.map fun c => if tables.isAlphanumeric c then c else ' ')))

/-- White space is not alphanumeric, and lower-casing leaves a text of lower-cased characters. -/
structure NormalizeRules (tables : CharTables) : Prop where
  not_white : ∀ c : Char, isWhitespace c = true → tables.isAlphanumeric c = false
  lower_lower : ∀ s t : String, (∀ c ∈ t.toList, c = ' ' ∨ c ∈ (tables.toLowercase s).toList) →
    tables.toLowercase t = t

variable {tables}

/-- What `normalize` turns into blanks. -/
def isGap (tables : CharTables) (c : Char) : Bool := !tables.isAlphanumeric c

theorem normalizeFrom_spec (hblank : isGap tables ' ' = true) (cs : List Char) :
    ∀ out : List Char, out ≠ [] →
      normalizeFrom tables out false cs = out ++ glued (isGap tables) ' ' cs ∧
        normalizeFrom tables out true cs = out ++ glued (isGap tables) ' ' (' ' :: cs) := by
  induction cs with
  | nil =>
    intro out hout
    refine ⟨(List.append_nil out).symm, ?_⟩
    rw [glued_cons_break hblank, wordsBy_nil, if_pos rfl, List.append_nil]
    rfl
  | cons ch cs ih =>
    intro out hout
    cases hch : tables.isAlphanumeric ch with
    | true =>
      have hword : isGap tables ch = false := congrArg not hch
      constructor
      · rw [normalizeFrom, if_pos hch, if_neg fun h => Bool.false_ne_true h.1,
          (ih _ (List.append_ne_nil_of_left_ne_nil hout _)).1, glued_cons_of_neg hword,
          List.append_assoc, List.singleton_append]
      · rw [normalizeFrom, if_pos hch, if_pos ⟨rfl, hout⟩,
          (ih _ (List.append_ne_nil_of_right_ne_nil _ (List.cons_ne_nil _ _))).1,
          glued_break_word hblank hword, List.append_assoc, List.append_assoc,
          List.singleton_append, List.singleton_append]
    | false =>
      have hgap : isGap tables ch = true := congrArg not hch
      have hnot : ¬ tables.isAlphanumeric ch = true := ne_true_of_eq_false hch
      constructor
      · rw [normalizeFrom, if_neg hnot, (ih out hout).2, glued_cons_break hblank,
          glued_cons_break hgap]
      · rw [normalizeFrom, if_neg hnot, (ih out hout).2, glued_break_break hblank hgap]

theorem normalizeFrom_nil (hblank : isGap tables ' ' = true) (cs : List Char) :
    ∀ pendingSpace : Bool,
      normalizeFrom tables [] pendingSpace cs = spaced (wordsBy (isGap tables) cs) := by
  induction cs with
  | nil => exact fun _ => rfl
  | cons ch cs ih =>
    intro pendingSpace
    cases hch : tables.isAlphanumeric ch with
    | true =>
      have hword : isGap tables ch = false := congrArg not hch
      have hhead : ¬ (ch :: cs).head?.any (isGap tables) = true := ne_true_of_eq_false hword
      have hglued : glued (isGap tables) ' ' (ch :: cs) =
          spaced (wordsBy (isGap tables) (ch :: cs)) := glued_of_neg hhead
      rw [normalizeFrom, if_pos hch, if_neg fun h => h.2 rfl, List.nil_append,
        (normalizeFrom_spec hblank cs [ch] (List.cons_ne_nil _ _)).1, ← hglued,
        glued_cons_of_neg hword, List.singleton_append]
    | false =>
      have hgap : isGap tables ch = true := congrArg not hch
      rw [normalizeFrom, if_neg (ne_true_of_eq_false hch), ih, wordsBy_cons_break hgap]

theorem NormalizeRules.isGap_blank (rules : NormalizeRules tables) : isGap tables ' ' = true :=
  congrArg not (rules.not_white ' ' (by decide))

theorem onePassNormalize_eq (rules : NormalizeRules tables) (text : String) :
    onePassNormalize tables text = normalize tables text := by
  rw [normalize_eq]
  exact congrArg String.ofList
    (normalizeFrom_nil rules.isGap_blank (tables.toLowercase text).toList false)

theorem normalizeInPasses_eq (rules : NormalizeRules tables) (text : String) :
    normalizeInPasses tables text = normalize tables text := by
  have hblank : isWhitespace ' ' = true := by decide
  have hwords : wordsBy isWhitespace ((tables.toLowercase text).toList.map fun c =>
      if tables.isAlphanumeric c then c else ' ') = normalWords tables text := by
    refine wordsBy_map_break (fun c hc => ?_) (fun c hc => ?_) _
    · have hnot : tables.isAlphanumeric c = false := by simpa using hc
      rw [hnot, if_neg Bool.false_ne_true]
      exact hblank
    · have halpha : tables.isAlphanumeric c = true := by simpa using hc
      refine ⟨if_pos halpha, Bool.eq_false_iff.mpr fun hwhite => ?_⟩
      rw [rules.not_white c hwhite] at halpha
      cases halpha
  have honly : ∀ c ∈ (tables.toLowercase text).toList.map fun c =>
      if tables.isAlphanumeric c then c else ' ', isWhitespace c = true → c = ' ' := by
    intro c hc hwhite
    obtain ⟨d, -, rfl⟩ := List.mem_map.mp hc
    split at hwhite
    · rename_i halpha
      rw [rules.not_white d hwhite] at halpha
      cases halpha
    · rename_i hnot
      exact if_neg hnot
  have htrimmed := (spaced_collapseRuns honly).trimmed_eq
  rw [wordsBy_collapseRuns hblank, hwords] at htrimmed
  rw [normalize_eq]
  unfold normalizeInPasses trim trimChars
  rw [String.toList_ofList, htrimmed]
  rfl

theorem normalize_idem (rules : NormalizeRules tables) (text : String) :
    normalize tables (normalize tables text) = normalize tables text := by
  have hchars : ∀ c ∈ (normalize tables text).toList,
      c = ' ' ∨ c ∈ (tables.toLowercase text).toList := by
    intro c hc
    rw [normalize_eq, String.toList_ofList] at hc
    exact mem_glued ((intercalate_suffix_glued (tables.toLowercase text).toList).subset hc)
  have halone : ∀ word ∈ normalWords tables text, word ≠ [] ∧
      ∀ c ∈ word, isGap tables c = false := fun word hword =>
    ⟨ne_nil_of_mem_wordsBy hword,
      fun c hc => congrArg not (alphanumeric_of_mem_normalWords hword c hc)⟩
  have hwords : normalWords tables (normalize tables text) = normalWords tables text := by
    have hspaced := wordsBy_intercalate_words rules.isGap_blank halone
    conv_lhs => unfold normalWords
    rw [rules.lower_lower text _ hchars, normalize_eq, String.toList_ofList]
    exact hspaced
  rw [normalize_eq (normalize tables text), hwords, ← normalize_eq]

/-- Both loops do what the passes do, and a second time changes nothing. -/
theorem normalize_one_pass {tables : CharTables} (rules : NormalizeRules tables) (text : String) :
    (onePassTranscript text = normalizeTranscriptOracle text ∧
      onePassTranscript (onePassTranscript text) = onePassTranscript text) ∧
    onePassNormalize tables text = normalizeInPasses tables text ∧
      onePassNormalize tables (onePassNormalize tables text) = onePassNormalize tables text := by
  refine ⟨⟨?_, onePassTranscript_idem text⟩, ?_, ?_⟩
  · rw [onePassTranscript_eq, normalizeTranscriptOracle_eq]
  · rw [onePassNormalize_eq rules, normalizeInPasses_eq rules]
  · rw [onePassNormalize_eq rules, onePassNormalize_eq rules, normalize_idem rules]

theorem isAsciiAlphanumeric_white {c : Char} (hc : isWhitespace c = true) :
    isAsciiAlphanumeric c = false := by
  by_contra halpha
  have hrange : 48 ≤ c.toNat ∧ c.toNat ≤ 122 := by
    unfold isAsciiAlphanumeric isAsciiLowercase at halpha
    simp only [Bool.not_eq_false, Bool.or_eq_true, Bool.and_eq_true, decide_eq_true_eq,
      Char.le_def, UInt32.le_iff_toNat_le] at halpha
    change (97 ≤ c.toNat ∧ c.toNat ≤ 122 ∨ 65 ≤ c.toNat ∧ c.toNat ≤ 90) ∨
      48 ≤ c.toNat ∧ c.toNat ≤ 57 at halpha
    omega
  unfold isWhitespace at hc
  simp at hc
  omega

theorem normalizeRules_ascii : NormalizeRules .ascii where
  not_white _ hc := isAsciiAlphanumeric_white hc
  lower_lower s t h := by
    change toAsciiLowercase t = t
    have hsame : ∀ c ∈ t.toList, c.toLower = c := by
      intro c hc
      rcases h c hc with rfl | hlower
      · decide
      · change c ∈ (String.ofList (s.toList.map Char.toLower)).toList at hlower
        rw [String.toList_ofList] at hlower
        obtain ⟨d, -, rfl⟩ := List.mem_map.mp hlower
        exact toLower_toLower d
    unfold toAsciiLowercase
    rw [List.map_congr_left hsame, List.map_id', String.ofList_toList]

theorem normalize_one_pass_greeting :
    (onePassTranscript "  Hello,\t World " = normalizeTranscriptOracle "  Hello,\t World " ∧
      onePassTranscript (onePassTranscript "  Hello,\t World ") =
        onePassTranscript "  Hello,\t World ") ∧
    onePassNormalize .ascii "  Hello,\t World " = normalizeInPasses .ascii "  Hello,\t World " ∧
      onePassNormalize .ascii (onePassNormalize .ascii "  Hello,\t World ") =
        onePassNormalize .ascii "  Hello,\t World " :=
  normalize_one_pass normalizeRules_ascii _

end GenieClaw.Quick
