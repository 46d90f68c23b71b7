import GenieClaw.Parser.ToolCalls
import GenieClaw.Voice.SentenceStreamer

/-!
# Replies that are not for the ear

A reply that is a tool call goes through the same streamer as an answer. The streamer leaves out
what stands in code fences and knows nothing of tool calls.

* `call_unspoken_iff` (no assumption): a reply is not spoken exactly if it is unspeakable outside
  its fences.
-/

namespace GenieClaw.Voice

open Library.Text Dispatch GenieClaw.Parser List

/-! ## What a reply shows -/

/-- The text outside the code fences, from a fence state on. The backticks of a marker that is
not complete count only at the end. -/
def outsideFences : Bool → Nat → List Char → List Char
  | inFence, markers, [] => if inFence then [] else List.replicate markers backtick
  | inFence, markers, c :: rest =>
    if c = backtick then
      if markers + 1 = 3 then outsideFences (!inFence) 0 rest
      else outsideFences inFence (markers + 1) rest
    else if inFence then outsideFences inFence 0 rest
    else c :: outsideFences inFence 0 rest

def EndsWith (p : Char → Bool) (text : List Char) : Prop := ∃ c ∈ text.getLast?, p c = true

def StartsWith (p : Char → Bool) (text : List Char) : Prop := ∃ c ∈ text.head?, p c = true

/-- A sentence ends where the second part begins. -/
def SentenceEnd (before after : List Char) : Prop :=
  EndsWith isCjkBoundary before ∨
    (EndsWith isAsciiBoundary before ∧ StartsWith isWhitespace after ∧
      endsWithAbbreviation (String.ofList before) = false)

/-- Too short for a sentence of its own. -/
def TooShort (text : List Char) : Prop :=
  (cleanSentence (String.ofList text)).toList.length < minSentenceChars

/-- At no end of a sentence is there enough to be said. -/
def NoSentence (text : List Char) : Prop :=
  ∀ before after, text = before ++ after → SentenceEnd before after → TooShort before

/-- No sentence is complete, and nothing is left when the whole is cleaned for speech. -/
def Unspeakable (text : List Char) : Prop :=
  NoSentence text ∧ cleanSentence (trim (String.ofList text)) = ""

section

variable {p q : List Char} {c : Char} {f : Char → Bool}

theorem not_endsWith_nil : ¬ EndsWith f [] := by
  rintro ⟨c, hc, -⟩
  cases hc

theorem endsWith_concat : EndsWith f (p ++ [c]) ↔ f c = true := by
  unfold EndsWith
  rw [getLast?_concat]
  simp

theorem startsWith_cons : StartsWith f (c :: q) ↔ f c = true := by
  unfold StartsWith
  rw [head?_cons]
  simp

theorem not_startsWith_nil : ¬ StartsWith f [] := by
  rintro ⟨c, hc, -⟩
  cases hc

theorem SentenceEnd.append {before after : List Char} (h : SentenceEnd before after)
    (q : List Char) : SentenceEnd before (after ++ q) := by
  rcases h with hcjk | ⟨hascii, hspace, habbr⟩
  · exact .inl hcjk
  · refine .inr ⟨hascii, ?_, habbr⟩
    cases after with
    | nil => exact absurd hspace not_startsWith_nil
    | cons c after => exact startsWith_cons.mpr (startsWith_cons.mp hspace)

theorem NoSentence.of_append (h : NoSentence (p ++ q)) : NoSentence p := by
  rintro before after rfl hend
  exact h before (after ++ q) (append_assoc _ _ _) (hend.append q)

theorem noSentence_nil : NoSentence [] := by
  intro before after h hend
  obtain ⟨rfl, rfl⟩ := List.append_eq_nil_iff.mp h.symm
  rcases hend with hcjk | ⟨hascii, -⟩
  · exact absurd hcjk not_endsWith_nil
  · exact absurd hascii not_endsWith_nil

theorem noSentence_concat :
    NoSentence (p ++ [c]) ↔ NoSentence p ∧
      (EndsWith isAsciiBoundary p → isWhitespace c = true →
        endsWithAbbreviation (String.ofList p) = false → TooShort p) ∧
      (isCjkBoundary c = true → TooShort (p ++ [c])) := by
  constructor
  · intro h
    refine ⟨h.of_append, fun hascii hspace habbr => ?_, fun hcjk => ?_⟩
    · exact h p [c] rfl (.inr ⟨hascii, startsWith_cons.mpr hspace, habbr⟩)
    · exact h (p ++ [c]) [] (append_nil _).symm (.inl (endsWith_concat.mpr hcjk))
  · rintro ⟨hp, hspace, hcjk⟩ before after heq hend
    rcases eq_nil_or_concat after with rfl | ⟨after, d, rfl⟩
    · rw [append_nil] at heq
      subst heq
      rcases hend with h | ⟨-, h, -⟩
      · exact hcjk (endsWith_concat.mp h)
      · exact absurd h not_startsWith_nil
    · rw [concat_eq_append, ← append_assoc] at heq
      obtain ⟨rfl, hcd⟩ := append_inj' heq rfl
      obtain rfl : c = d := head_eq_of_cons_eq hcd
      rcases hend with h | ⟨hascii, hstarts, habbr⟩
      · exact hp before after rfl (.inl h)
      · cases after with
        | nil =>
          rw [append_nil] at hspace
          exact hspace hascii (startsWith_cons.mp hstarts) habbr
        | cons a after =>
          exact hp before (a :: after) rfl
            (.inr ⟨hascii, startsWith_cons.mpr (startsWith_cons.mp hstarts), habbr⟩)

theorem noSentence_append_markers (h : NoSentence p) (n : Nat) :
    NoSentence (p ++ List.replicate n backtick) := by
  induction n with
  | zero => rwa [replicate_zero, append_nil]
  | succ n ih =>
    rw [replicate_succ', ← append_assoc, noSentence_concat]
    exact ⟨ih, fun _ hspace => absurd hspace (by decide), fun hcjk => absurd hcjk (by decide)⟩

end

/-! ## A streamer that has said nothing -/

namespace SentenceStreamer

variable {s t : SentenceStreamer} {ch : Char} {sentence : String}

/-- No sentence of the pending text was complete, and the flag says how the text ends. -/
structure Silent (s : SentenceStreamer) : Prop where
  noSentence : NoSentence s.pendingSentence
  awaiting : s.awaitingAsciiBoundary = true ↔ EndsWith isAsciiBoundary s.pendingSentence

/-- What there is to say if this is what comes. -/
def textWith (s : SentenceStreamer) (rest : List Char) : List Char :=
  s.pendingSentence ++ outsideFences s.inCodeFence s.fenceMarkers rest

theorem tryEmit_short (h : TooShort s.pendingSentence) : s.tryEmit = (none, s) := by
  unfold tryEmit
  exact if_neg (Nat.not_le.mpr h)

theorem tryEmit_long (h : ¬ TooShort s.pendingSentence) :
    ∃ sentence t, s.tryEmit = (some sentence, t) := by
  unfold tryEmit
  rw [if_pos (Nat.not_lt.mp h)]
  exact ⟨_, _, rfl⟩

theorem boundary_of_whitespace (h : isWhitespace ch = true) :
    isCjkBoundary ch = false ∧ isAsciiBoundary ch = false := by
  have hne : ∀ c : Char, isWhitespace c = false → (ch == c) = false := by
    intro c hc
    rw [beq_eq_false_iff_ne]
    rintro rfl
    rw [h] at hc
    cases hc
  constructor
  · rw [isCjkBoundary, hne '。' (by decide), hne '！' (by decide), hne '？' (by decide)]
    rfl
  · rw [isAsciiBoundary, hne '.' (by decide), hne '!' (by decide), hne '?' (by decide)]
    rfl

theorem ascii_of_cjk (h : isCjkBoundary ch = true) : isAsciiBoundary ch = false := by
  simp only [isCjkBoundary, Bool.or_eq_true, beq_iff_eq] at h
  rcases h with (rfl | rfl) | rfl
  · rfl
  · rfl
  · rfl

/-- One more character in the pending text, and nothing else. -/
structure Reads (s : SentenceStreamer) (ch : Char) (t : SentenceStreamer) : Prop where
  pending : t.pendingSentence = s.pendingSentence ++ [ch]
  fence : t.inCodeFence = s.inCodeFence
  markers : t.fenceMarkers = s.fenceMarkers
  full : t.full = s.full

theorem Reads.silent (h : Reads s ch t) (hno : NoSentence (s.pendingSentence ++ [ch]))
    (hflag : t.awaitingAsciiBoundary = isAsciiBoundary ch) : t.Silent := by
  refine ⟨h.pending ▸ hno, ?_⟩
  rw [h.pending, hflag, endsWith_concat]

theorem confirmBoundary_cases (hno : NoSentence s.pendingSentence)
    (hends : EndsWith isAsciiBoundary s.pendingSentence) (hspace : isWhitespace ch = true)
    (hflag : s.awaitingAsciiBoundary = false) :
    (NoSentence (s.pendingSentence ++ [ch]) ∧
      ∃ t, s.confirmBoundary ch = (none, t) ∧ Reads s ch t ∧ t.Silent) ∨
    (¬ NoSentence (s.pendingSentence ++ [ch]) ∧
      ∃ sentence t, s.confirmBoundary ch = (some sentence, t)) := by
  obtain ⟨hcjk, hascii⟩ := boundary_of_whitespace hspace
  have hpush : Reads s ch (s.push ch) := ⟨rfl, rfl, rfl, rfl⟩
  have hiff : NoSentence (s.pendingSentence ++ [ch]) ↔
      (endsWithAbbreviation (String.ofList s.pendingSentence) = false →
        TooShort s.pendingSentence) := by
    rw [noSentence_concat]
    refine ⟨fun h => h.2.1 hends hspace, fun h => ⟨hno, fun _ _ => h, fun h => ?_⟩⟩
    rw [hcjk] at h
    cases h
  have hquiet : NoSentence (s.pendingSentence ++ [ch]) → (s.push ch).Silent := fun h =>
    hpush.silent h (hflag.trans hascii.symm)
  unfold confirmBoundary
  cases habbr : endsWithAbbreviation (String.ofList s.pendingSentence) with
  | true =>
    have hstill : NoSentence (s.pendingSentence ++ [ch]) := by
      rw [hiff, habbr]
      intro h
      cases h
    exact .inl ⟨hstill, s.push ch, rfl, hpush, hquiet hstill⟩
  | false =>
    by_cases hshort : TooShort s.pendingSentence
    · have hstill := hiff.mpr fun _ => hshort
      refine .inl ⟨hstill, s.push ch, ?_, hpush, hquiet hstill⟩
      rw [tryEmit_short hshort]
      rfl
    · obtain ⟨sentence, t, hemit⟩ := tryEmit_long hshort
      refine .inr ⟨fun h => hshort (hiff.mp h habbr), sentence, if t.full then t else t.push ch, ?_⟩
      rw [hemit]
      rfl

theorem readChar_cases (hsilent : s.Silent) (ch : Char) :
    (NoSentence (s.pendingSentence ++ [ch]) ∧
      ∃ t, s.readChar ch = (none, t) ∧ Reads s ch t ∧ t.Silent) ∨
    (¬ NoSentence (s.pendingSentence ++ [ch]) ∧
      ∃ sentence t, s.readChar ch = (some sentence, t)) := by
  unfold readChar
  by_cases hspace : s.awaitingAsciiBoundary = true ∧ isWhitespace ch = true
  · rw [if_pos hspace]
    have hends := hsilent.awaiting.mp hspace.1
    rcases confirmBoundary_cases (s := { s with awaitingAsciiBoundary := false })
        hsilent.noSentence hends hspace.2 rfl with ⟨hno, t, hrun, hreads, ht⟩ | hstated
    · exact .inl ⟨hno, t, hrun, ⟨hreads.pending, hreads.fence, hreads.markers, hreads.full⟩, ht⟩
    · exact .inr hstated
  · rw [if_neg hspace]
    dsimp only
    have hiff : NoSentence (s.pendingSentence ++ [ch]) ↔
        (isCjkBoundary ch = true → TooShort (s.pendingSentence ++ [ch])) := by
      rw [noSentence_concat]
      refine ⟨fun h => h.2.2, fun h => ⟨hsilent.noSentence, fun hends hwhite _ => ?_, h⟩⟩
      exact absurd ⟨hsilent.awaiting.mpr hends, hwhite⟩ hspace
    cases hcjk : isCjkBoundary ch with
    | true =>
      rw [if_pos rfl]
      by_cases hshort : TooShort (s.pendingSentence ++ [ch])
      · have hno := hiff.mpr fun _ => hshort
        have hreads : Reads s ch ({ s with awaitingAsciiBoundary := false }.push ch) :=
          ⟨rfl, rfl, rfl, rfl⟩
        exact .inl ⟨hno, _, tryEmit_short hshort, hreads,
          hreads.silent hno (ascii_of_cjk hcjk).symm⟩
      · exact .inr ⟨fun h => hshort (hiff.mp h hcjk), tryEmit_long hshort⟩
    | false =>
      rw [if_neg Bool.false_ne_true]
      have hno : NoSentence (s.pendingSentence ++ [ch]) := by
        rw [hiff, hcjk]
        intro h
        cases h
      have hreads : Reads s ch { { s with awaitingAsciiBoundary := false }.push ch with
          awaitingAsciiBoundary := isAsciiBoundary ch } := ⟨rfl, rfl, rfl, rfl⟩
      exact .inl ⟨hno, _, rfl, hreads, hreads.silent hno rfl⟩

/-! ## Characters, chunks and streams -/

/-- Some text was read and nothing said. -/
structure Passed (s : SentenceStreamer) (cs : List Char) (t : SentenceStreamer) : Prop where
  silent : t.Silent
  room : t.full = false
  text : ∀ rest, t.textWith rest = s.textWith (cs ++ rest)

/-- A sentence was said, which any text that begins like this completes. -/
def Says (s : SentenceStreamer) (cs : List Char) : Prop :=
  ∀ rest, ¬ NoSentence (s.textWith (cs ++ rest))

theorem Passed.trans {cs ds : List Char} {u : SentenceStreamer} (h : Passed s cs t)
    (h' : Passed t ds u) : Passed s (cs ++ ds) u := by
  refine ⟨h'.silent, h'.room, fun rest => ?_⟩
  rw [h'.text, h.text, append_assoc]

theorem Passed.saysMore {cs ds : List Char} (h : Passed s cs t) (h' : Says t ds) :
    Says s (cs ++ ds) := by
  intro rest
  rw [append_assoc, ← h.text]
  exact h' rest

theorem textWith_char {rest : List Char} (hch : ch ≠ backtick) (hfence : s.inCodeFence = false) :
    s.textWith (ch :: rest) = (s.pendingSentence ++ [ch]) ++ outsideFences false 0 rest := by
  rw [textWith, outsideFences, if_neg hch, hfence, if_neg Bool.false_ne_true, append_assoc]
  rfl

theorem step_cases (hsilent : s.Silent) (hroom : s.full = false) (ch : Char) :
    (∃ t, s.step ch = (none, t) ∧ Passed s [ch] t) ∨
      (Says s [ch] ∧ ∃ sentence t, s.step ch = (some sentence, t)) := by
  by_cases hch : ch = backtick
  · subst hch
    by_cases hthree : s.fenceMarkers + 1 = 3
    · refine .inl ⟨{ s with inCodeFence := !s.inCodeFence, fenceMarkers := 0 }, ?_, ?_⟩
      · rw [step, consumeFenceMarker, if_pos rfl, if_pos hthree]
      · refine ⟨⟨hsilent.noSentence, hsilent.awaiting⟩, hroom, fun rest => ?_⟩
        rw [textWith, textWith, singleton_append, outsideFences, if_pos rfl, if_pos hthree]
    · refine .inl ⟨{ s with fenceMarkers := s.fenceMarkers + 1 }, ?_, ?_⟩
      · rw [step, consumeFenceMarker, if_pos rfl, if_neg hthree]
      · refine ⟨⟨hsilent.noSentence, hsilent.awaiting⟩, hroom, fun rest => ?_⟩
        rw [textWith, textWith, singleton_append, outsideFences, if_pos rfl, if_neg hthree]
  · have hmarker : s.consumeFenceMarker ch = (false, { s with fenceMarkers := 0 }) := by
      rw [consumeFenceMarker, if_neg hch]
    cases hfence : s.inCodeFence with
    | true =>
      refine .inl ⟨{ s with fenceMarkers := 0 }, ?_, ?_⟩
      · rw [step, hmarker]
        exact if_pos hfence
      · refine ⟨⟨hsilent.noSentence, hsilent.awaiting⟩, hroom, fun rest => ?_⟩
        rw [textWith, textWith, singleton_append, outsideFences, if_neg hch, hfence,
          if_pos rfl]
    | false =>
      have hstep : s.step ch = { s with fenceMarkers := 0 }.readChar ch := by
        rw [step, hmarker]
        exact if_neg (by rw [hfence]; exact Bool.false_ne_true)
      rw [hstep]
      rcases readChar_cases (s := { s with fenceMarkers := 0 })
          ⟨hsilent.noSentence, hsilent.awaiting⟩ ch with ⟨-, t, hrun, hreads, ht⟩ | ⟨hno, hstated⟩
      · refine .inl ⟨t, hrun, ht, hreads.full.trans hroom, fun rest => ?_⟩
        rw [singleton_append, textWith_char hch hfence, textWith, hreads.pending,
          hreads.fence, hreads.markers, hfence]
      · refine .inr ⟨fun rest h => hno ?_, hstated⟩
        rw [singleton_append, textWith_char hch hfence] at h
        exact h.of_append

theorem feedChars_cases (hsilent : s.Silent) (hroom : s.full = false) (cs : List Char) :
    (∃ t, s.feedChars cs = ([], t) ∧ Passed s cs t) ∨
      (Says s cs ∧ ∃ sentence sentences t, s.feedChars cs = (sentence :: sentences, t)) := by
  induction cs generalizing s with
  | nil => exact .inl ⟨s, rfl, hsilent, hroom, fun _ => rfl⟩
  | cons ch rest ih =>
    rw [feedChars]
    rcases step_cases hsilent hroom ch with ⟨t, hstep, hpassed⟩ | ⟨hstated, sentence, t, hstep⟩
    · rw [hstep]
      rcases ih hpassed.silent hpassed.room with ⟨u, hfeed, hafter⟩ | ⟨hstated, hfeed⟩
      · exact .inl ⟨u, hfeed, hpassed.trans hafter⟩
      · exact .inr ⟨hpassed.saysMore hstated, hfeed⟩
    · refine .inr ⟨fun later => ?_, ?_⟩
      · rw [← singleton_append, append_assoc]
        exact hstated (rest ++ later)
      · rw [hstep]
        dsimp only
        split
        · exact ⟨_, _, _, rfl⟩
        · exact ⟨_, _, _, rfl⟩

theorem feedAll_cases (hsilent : s.Silent) (hroom : s.full = false) (tokens : List String) :
    (∃ t, s.feedAll tokens = ([], t) ∧ Passed s (String.join tokens).toList t) ∨
      (Says s (String.join tokens).toList ∧
        ∃ sentence sentences t, s.feedAll tokens = (sentence :: sentences, t)) := by
  induction tokens generalizing s with
  | nil => exact .inl ⟨s, rfl, hsilent, hroom, fun _ => rfl⟩
  | cons token rest ih =>
    have hfeed : s.feed token = s.feedChars token.toList := by
      rw [feed, hroom]
      rfl
    rw [String.join_cons, String.toList_append, feedAll, hfeed]
    rcases feedChars_cases hsilent hroom token.toList with
      ⟨t, hchars, hpassed⟩ | ⟨hstated, sentence, sentences, t, hchars⟩
    · rw [hchars]
      dsimp only
      rcases ih hpassed.silent hpassed.room with
        ⟨u, hrest, hafter⟩ | ⟨hstated, sentence, sentences, u, hrest⟩
      · exact .inl ⟨u, by rw [hrest]; rfl, hpassed.trans hafter⟩
      · exact .inr ⟨hpassed.saysMore hstated, sentence, sentences, u, by rw [hrest]; rfl⟩
    · refine .inr ⟨fun later => ?_, sentence, _, _, by rw [hchars]; rfl⟩
      rw [append_assoc]
      exact hstated _

/-! ## The end of the stream -/

theorem Silent.textWith_nil (h : s.Silent) : NoSentence (s.textWith []) := by
  unfold textWith outsideFences
  split
  · rw [append_nil]
    exact h.noSentence
  · exact noSentence_append_markers h.noSentence _

theorem cleanSentence_empty : cleanSentence "" = "" := by decide +kernel

theorem finish_eq_none_iff (hroom : s.full = false) :
    s.finish = none ↔ cleanSentence (trim (String.ofList (s.textWith []))) = "" := by
  have hpending : (if s.inCodeFence then s.pendingSentence
      else s.pendingSentence ++ List.replicate s.fenceMarkers backtick) = s.textWith [] := by
    unfold textWith outsideFences
    cases s.inCodeFence with
    | true => exact (append_nil _).symm
    | false => rfl
  unfold finish
  rw [hroom, if_neg Bool.false_ne_true, hpending]
  by_cases hblank : trim (String.ofList (s.textWith [])) = ""
  · rw [if_pos hblank, hblank, cleanSentence_empty]
    simp
  · rw [if_neg hblank]
    dsimp only
    split
    · rename_i hclean
      simp [hclean]
    · rename_i hclean
      simp [hclean]

end SentenceStreamer

theorem streamAndSpeak_nil_iff (tokens : List String) :
    streamAndSpeak tokens = [] ↔
      Unspeakable (outsideFences false 0 (String.join tokens).toList) := by
  have hsilent : ({ maxSentences := maxSpokenSentences } : SentenceStreamer).Silent :=
    ⟨noSentence_nil, ⟨fun h => (by cases h), fun h => absurd h not_endsWith_nil⟩⟩
  unfold streamAndSpeak
  rcases SentenceStreamer.feedAll_cases hsilent rfl tokens with
    ⟨t, hrun, hpassed⟩ | ⟨hstated, sentence, sentences, t, hrun⟩
  · have htext := hpassed.text []
    rw [append_nil] at htext
    have hno := hpassed.silent.textWith_nil
    have hfinish := SentenceStreamer.finish_eq_none_iff hpassed.room
    rw [htext] at hno hfinish
    rw [hrun]
    dsimp only
    rw [nil_append, Option.toList_eq_nil_iff, hfinish]
    exact ⟨fun hclean => ⟨hno, hclean⟩, fun h => h.2⟩
  · rw [hrun]
    have hspeakable := hstated []
    rw [append_nil] at hspeakable
    exact ⟨fun h => (by cases h), fun h => absurd h.1 hspeakable⟩

/-! ## Turns -/

section

variable (fromStr : JsonReader) (isKnownTool : String → Bool)
  (answerSpeech : ToolCall → List String)

/-- What is said of the tool's answer, if the reply is a tool call. -/
def toolSpeech (response : String) : List String :=
  ((tryToolCall fromStr isKnownTool response).map answerSpeech).getD []

/-- Everything that `process_transcript` says once the model replies with these tokens. -/
def turnSpeech (tokens : List String) : List String :=
  streamAndSpeak tokens ++ toolSpeech fromStr isKnownTool answerSpeech (String.join tokens)

/-- Whatever its tokens are, nothing of a reply is spoken and the turn says only what the tool
has to say exactly if the reply is unspeakable outside its code fences. -/
theorem call_unspoken_iff (response : String) :
    (∀ tokens, String.join tokens = response → streamAndSpeak tokens = [] ∧
        turnSpeech fromStr isKnownTool answerSpeech tokens =
          toolSpeech fromStr isKnownTool answerSpeech response) ↔
      Unspeakable (outsideFences false 0 response.toList) := by
  constructor
  · intro h
    have hone : String.join [response] = response := by
      rw [String.join_cons, String.join_nil, String.append_empty]
    have hsilent := (h [response] hone).1
    rwa [streamAndSpeak_nil_iff, hone] at hsilent
  · rintro hquiet tokens rfl
    have hsilent := (streamAndSpeak_nil_iff tokens).mpr hquiet
    refine ⟨hsilent, ?_⟩
    rw [turnSpeech, hsilent, nil_append]

end

example : streamAndSpeak ["```json\n\x7b\"tool\":", "\"get_time\"\x7d\n", "```"] = [] := by
  decide

/-- A tool call outside a fence is read out. -/
theorem call_spoken :
    ¬ ∀ (fromStr : JsonReader) (isKnownTool : String → Bool) (tokens : List String),
      (tryToolCall fromStr isKnownTool (String.join tokens)).isSome = true ∨
        isUnparsedToolCall fromStr (String.join tokens) = true →
      streamAndSpeak tokens = [] := by
  intro h
  have hquiet := h
    (readerOf "\x7b\"tool\":\"get_time\"\x7d" (.object [("tool", .string "get_time")]))
    (fun name => name == "get_time") ["\x7b\"tool\":", "\"get_time\"\x7d"]
    (.inl (by decide))
  revert hquiet
  decide +kernel

end GenieClaw.Voice
