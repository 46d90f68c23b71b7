import GenieClaw.Library.Gaps
import GenieClaw.Voice.SpokenSentences

/-!
# The words of a stream

The white space between the words of a reply does not matter to the streamer: texts with the same
words come to the same sentences.

* `run_tidy`: nor on the white space between the words.
-/

namespace GenieClaw.Voice

open Library Library.Text SentenceStreamer List

/-! ## The words of a clause -/

def words (cs : List Char) : List (List Char) := wordsBy isWhitespace cs

theorem words_append_space {ch : Char} (h : isWhitespace ch = true) (xs ys : List Char) :
    words (xs ++ ch :: ys) = words xs ++ words ys := wordsBy_append_break h xs ys

theorem splitWhitespace_eq (cs : List Char) :
    splitWhitespace (String.ofList cs) = (words cs).map String.ofList := by
  rw [splitWhitespace, String.toList_ofList]
  rfl

/-- The cleaning of a sentence without links, by its words. -/
def cleanWords (ws : List (List Char)) : String :=
  let text := joinWith " " ((ws.map String.ofList).filter fun token => !isRawUrl token)
  collapseWhitespace (trim (cleanPunctuation (stripInline (stripListOrHeaderPrefix (trim text)))))

theorem cleanWords_nil : cleanWords [] = "" := by decide +kernel

theorem stripInlineLinks_eq_self {n : Nat} {cs : List Char} (h : '[' ∉ cs) :
    stripInlineLinks n cs = cs := by
  induction n generalizing cs with
  | zero => rfl
  | succ n ih =>
    cases cs with
    | nil => rfl
    | cons c cs =>
      rw [List.mem_cons, not_or] at h
      rw [stripInlineLinks, if_neg (Ne.symm h.1), ih h.2]

theorem cleanSentence_eq {cs : List Char} (h : '[' ∉ cs) :
    cleanSentence (String.ofList cs) = cleanWords (words cs) := by
  unfold cleanSentence
  dsimp only
  rw [String.toList_ofList, stripInlineLinks_eq_self h, stripRawUrls, splitWhitespace_eq]
  rfl

theorem words_trimChars (cs : List Char) : words (trimChars cs) = words cs := by
  unfold words trimChars
  rw [wordsBy_rdropWhile fun _ h => h, wordsBy_dropWhile fun _ h => h]

variable {cs : List Char}

theorem notMem_trimChars {c : Char} (h : c ∉ cs) : c ∉ trimChars cs := by
  intro hmem
  have hsub : c ∈ cs.dropWhile isWhitespace := (List.rdropWhile_prefix _ _).subset hmem
  exact h ((dropWhile_suffix _).subset hsub)

theorem words_eq_nil_iff : words cs = [] ↔ ∀ c ∈ cs, isWhitespace c = true := wordsBy_eq_nil_iff

theorem trimChars_eq_nil_iff : trimChars cs = [] ↔ words cs = [] := by
  constructor
  · intro h
    rw [← words_trimChars, h]
    rfl
  · intro h
    rw [words_eq_nil_iff] at h
    have hdrop : cs.dropWhile isWhitespace = [] := List.dropWhile_eq_nil_iff.mpr h
    rw [trimChars, hdrop]
    rfl

/-- What is spoken of the rest at the end of the stream. -/
def finishWords (ws : List (List Char)) : Option String :=
  if ws = [] then none else if cleanWords ws = "" then none else some (cleanWords ws)

namespace SentenceStreamer

/-! ## States that differ in white space -/

/-- The streamer without the white space it waits for. -/
def settled (s : SentenceStreamer) : SentenceStreamer := { s with awaitingAsciiBoundary := false }

/-- The streamer behind a sentence. -/
def renewed (s : SentenceStreamer) : SentenceStreamer :=
  { s with pendingSentence := [], awaitingAsciiBoundary := false, emitted := s.emitted + 1 }

/-- White space makes a sentence of what is pending. -/
def Confirms (s : SentenceStreamer) : Prop :=
  s.awaitingAsciiBoundary = true ∧
    endsWithAbbreviation (String.ofList s.pendingSentence) = false ∧
    minSentenceChars ≤ (cleanWords (words s.pendingSentence)).toList.length

/-- Outside a fence, and without a link. -/
structure Clear (s : SentenceStreamer) : Prop where
  code : s.inCodeFence = false
  markers : s.fenceMarkers = 0
  links : '[' ∉ s.pendingSentence

/-- Two texts that are the same words, whatever is put behind them. -/
def SameWords (xs ys : List Char) : Prop := ∀ zs, words (xs ++ zs) = words (ys ++ zs)

variable {xs ys : List Char}

theorem SameWords.words_eq (h : SameWords xs ys) : words xs = words ys := by
  have hnil := h []
  rwa [append_nil, append_nil] at hnil

theorem SameWords.append (h : SameWords xs ys) (zs : List Char) :
    SameWords (xs ++ zs) (ys ++ zs) := by
  intro ws
  rw [append_assoc, append_assoc]
  exact h (zs ++ ws)

structure Alike (s t : SentenceStreamer) : Prop where
  left : s.Clear
  right : t.Clear
  pending : SameWords s.pendingSentence t.pendingSentence
  awaiting : s.awaitingAsciiBoundary = t.awaitingAsciiBoundary
  emitted : s.emitted = t.emitted
  max : s.maxSentences = t.maxSentences

section

variable {s t : SentenceStreamer} {ch : Char}

theorem Alike.full_eq (h : Alike s t) : s.full = t.full := by
  unfold full
  rw [h.emitted, h.max]

theorem Clear.finish_eq (h : s.Clear) :
    s.finish = if s.full then none else finishWords (words s.pendingSentence) := by
  unfold finish
  by_cases hfull : s.full = true
  · rw [if_pos hfull, if_pos hfull]
  · rw [if_neg hfull, if_neg hfull, h.code, h.markers]
    have hpending : (if false = true then s.pendingSentence
        else s.pendingSentence ++ List.replicate 0 backtick) = s.pendingSentence :=
      append_nil _
    have htrim : trim (String.ofList s.pendingSentence) =
        String.ofList (trimChars s.pendingSentence) := by
      rw [trim, String.toList_ofList]
    have hempty : String.ofList (trimChars s.pendingSentence) = "" ↔
        words s.pendingSentence = [] := by
      rw [← trimChars_eq_nil_iff]
      exact String.ofList_eq_empty_iff
    dsimp only
    rw [hpending, htrim, cleanSentence_eq (notMem_trimChars h.links), words_trimChars]
    unfold finishWords
    by_cases hwords : words s.pendingSentence = []
    · rw [if_pos (hempty.mpr hwords), if_pos hwords]
    · rw [if_neg fun he => hwords (hempty.mp he), if_neg hwords]

theorem Alike.finish_eq (h : Alike s t) : s.finish = t.finish := by
  rw [h.left.finish_eq, h.right.finish_eq, h.full_eq, h.pending.words_eq]

theorem endsWithAbbreviation_congr (h : words xs = words ys) :
    endsWithAbbreviation (String.ofList xs) = endsWithAbbreviation (String.ofList ys) := by
  unfold endsWithAbbreviation
  rw [splitWhitespace_eq, splitWhitespace_eq, h]

theorem Clear.tryEmit_eq (h : s.Clear) :
    s.tryEmit = if minSentenceChars ≤ (cleanWords (words s.pendingSentence)).toList.length then
      (some (cleanWords (words s.pendingSentence)),
        { s with pendingSentence := [], emitted := s.emitted + 1 })
      else (none, s) := by
  unfold tryEmit
  rw [cleanSentence_eq h.links]

/-- A character of a text without code and links. -/
def Plain (ch : Char) : Prop := ch ≠ backtick ∧ ch ≠ '['

theorem Clear.push (h : s.Clear) (hch : Plain ch) : (s.push ch).Clear where
  code := h.code
  markers := h.markers
  links := by
    have happend : (s.push ch).pendingSentence = s.pendingSentence ++ [ch] := rfl
    rw [happend, List.mem_append, not_or, List.mem_singleton]
    exact ⟨h.links, Ne.symm hch.2⟩

theorem Clear.step_eq (h : s.Clear) (hch : Plain ch) : s.step ch = s.readChar ch := by
  have hsame : ({ s with fenceMarkers := 0 } : SentenceStreamer) = s := by
    rw [← h.markers]
  have hconsume : s.consumeFenceMarker ch = (false, s) := by
    unfold consumeFenceMarker
    rw [if_neg hch.1]
    exact Prod.ext rfl hsame
  unfold step
  rw [hconsume]
  dsimp only
  rw [if_neg (by rw [h.code]; exact Bool.false_ne_true)]

theorem Alike.push (h : Alike s t) (hch : Plain ch) : Alike (s.push ch) (t.push ch) where
  left := h.left.push hch
  right := h.right.push hch
  pending := h.pending.append [ch]
  awaiting := h.awaiting
  emitted := h.emitted
  max := h.max

theorem Alike.awaitingSet (h : Alike s t) (b : Bool) :
    Alike { s with awaitingAsciiBoundary := b } { t with awaitingAsciiBoundary := b } where
  left := ⟨h.left.code, h.left.markers, h.left.links⟩
  right := ⟨h.right.code, h.right.markers, h.right.links⟩
  pending := h.pending
  awaiting := rfl
  emitted := h.emitted
  max := h.max

/-- The same sentence is handed on, and the states stay alike. -/
def AlikeOut (p q : Option String × SentenceStreamer) : Prop := p.1 = q.1 ∧ Alike p.2 q.2

theorem Alike.tryEmit (h : Alike s t) : AlikeOut s.tryEmit t.tryEmit := by
  rw [h.left.tryEmit_eq, h.right.tryEmit_eq, h.pending.words_eq]
  split
  · exact ⟨rfl, {
      left := ⟨h.left.code, h.left.markers, not_mem_nil⟩
      right := ⟨h.right.code, h.right.markers, not_mem_nil⟩
      pending := fun _ => rfl
      awaiting := h.awaiting
      emitted := congrArg (· + 1) h.emitted
      max := h.max }⟩
  · exact ⟨rfl, h⟩

variable {ch' : Char}

theorem Alike.confirmBoundary (h : Alike s t)
    (hpush : ∀ u v, Alike u v → Alike (u.push ch) (v.push ch')) :
    AlikeOut (s.confirmBoundary ch) (t.confirmBoundary ch') := by
  unfold SentenceStreamer.confirmBoundary
  rw [endsWithAbbreviation_congr h.pending.words_eq]
  split
  · exact ⟨rfl, hpush s t h⟩
  · obtain ⟨hout, halike⟩ := h.tryEmit
    rcases hs : s.tryEmit with ⟨out, s'⟩
    rcases ht : t.tryEmit with ⟨out', t'⟩
    rw [hs, ht] at hout halike
    cases hout
    cases out with
    | none => exact ⟨rfl, hpush s' t' halike⟩
    | some sentence =>
      dsimp only at halike ⊢
      rw [halike.full_eq]
      split
      · exact ⟨rfl, halike⟩
      · exact ⟨rfl, hpush s' t' halike⟩

theorem Alike.readChar (h : Alike s t) (hch : Plain ch) :
    AlikeOut (s.readChar ch) (t.readChar ch) := by
  unfold SentenceStreamer.readChar
  rw [h.awaiting]
  split
  · exact (h.awaitingSet false).confirmBoundary fun _ _ huv => huv.push hch
  · dsimp only
    split
    · exact ((h.awaitingSet false).push hch).tryEmit
    · exact ⟨rfl, ((h.awaitingSet false).push hch).awaitingSet _⟩

theorem Alike.step (h : Alike s t) (hch : Plain ch) : AlikeOut (s.step ch) (t.step ch) := by
  rw [h.left.step_eq hch, h.right.step_eq hch]
  exact h.readChar hch

/-- Texts that come to the same sentences from states that are alike. -/
def SameRun (xs ys : List Char) : Prop := ∀ s t, Alike s t → s.run xs = t.run ys

theorem run_none (hfull : ¬ s.full = true) (h : s.step ch = (none, t)) (rest : List Char) :
    s.run (ch :: rest) = t.run rest := by
  unfold run
  rw [if_neg hfull, if_neg (s.step_not_full hfull h), feedChars_none h]

theorem run_some {sentence : String} (hfull : ¬ s.full = true)
    (h : s.step ch = (some sentence, t)) (rest : List Char) :
    s.run (ch :: rest) = sentence :: t.run rest := by
  unfold run
  rw [if_neg hfull]
  by_cases hlast : t.full = true
  · rw [feedChars_last h hlast, if_pos hlast]
    dsimp only
    rw [finish_of_full hlast]
    rfl
  · rw [feedChars_some h hlast, if_neg hlast]
    rfl

theorem run_of_full (h : s.full = true) (cs : List Char) : s.run cs = [] := if_pos h

theorem Alike.run_cons (h : Alike s t) (hstep : AlikeOut (s.step ch) (t.step ch'))
    (hrest : ∀ out s' t', s.step ch = (out, s') → Alike s' t' → s'.run xs = t'.run ys) :
    s.run (ch :: xs) = t.run (ch' :: ys) := by
  by_cases hfull : s.full = true
  · rw [run_of_full hfull, run_of_full (h.full_eq ▸ hfull)]
  · have hfull' : ¬ t.full = true := h.full_eq ▸ hfull
    rcases hs : s.step ch with ⟨out, s'⟩
    rcases ht : t.step ch' with ⟨out', t'⟩
    rw [hs, ht] at hstep
    obtain ⟨hsame, hnext⟩ := hstep
    cases hsame
    have hrest := hrest out s' t' hs hnext
    cases out with
    | none => rw [run_none hfull hs, run_none hfull' ht, hrest]
    | some sentence => rw [run_some hfull hs, run_some hfull' ht, hrest]

theorem SameRun.cons (hch : Plain ch) (h : SameRun xs ys) : SameRun (ch :: xs) (ch :: ys) :=
  fun _ _ halike => halike.run_cons (halike.step hch) fun _ s' t' _ => h s' t'

theorem SameRun.refl {xs : List Char} (hxs : ∀ c ∈ xs, Plain c) : SameRun xs xs := by
  induction xs with
  | nil =>
    intro s t halike
    unfold run
    rw [halike.full_eq]
    split
    · rfl
    · show [] ++ s.finish.toList = [] ++ t.finish.toList
      rw [halike.finish_eq]
  | cons c xs ih =>
    exact (ih fun d hd => hxs d (mem_cons_of_mem _ hd)).cons (hxs c mem_cons_self)

theorem SameRun.trans {xs ys zs : List Char} (h : SameRun xs ys) (h' : SameRun ys zs) :
    SameRun xs zs := fun s t halike => by
  have hrefl : Alike t t := {
    left := halike.right
    right := halike.right
    pending := fun _ => rfl
    awaiting := rfl
    emitted := rfl
    max := rfl }
  exact (h s t halike).trans (h' t t hrefl)

/-! ## White space -/

/-- A state behind white space: it waits for nothing, and its text ends with the white space. -/
def Spaced (s : SentenceStreamer) : Prop :=
  s.awaitingAsciiBoundary = false ∧
    ∃ front, ∃ ch, isWhitespace ch = true ∧ s.pendingSentence = front ++ [ch]

theorem isWhitespace_facts (h : isWhitespace ch = true) :
    isCjkBoundary ch = false ∧ isAsciiBoundary ch = false ∧ Plain ch := by
  refine ⟨?_, ?_, ?_, ?_⟩
  · by_contra hcjk
    simp only [isCjkBoundary, Bool.not_eq_false, Bool.or_eq_true, beq_iff_eq] at hcjk
    rcases hcjk with (rfl | rfl) | rfl <;> exact absurd h (by decide)
  · by_contra hascii
    simp only [isAsciiBoundary, Bool.not_eq_false, Bool.or_eq_true, beq_iff_eq] at hascii
    rcases hascii with (rfl | rfl) | rfl <;> exact absurd h (by decide)
  · rintro rfl
    exact absurd h (by decide)
  · rintro rfl
    exact absurd h (by decide)

theorem Clear.settled (h : s.Clear) : s.settled.Clear := ⟨h.code, h.markers, h.links⟩

theorem Clear.renewed (h : s.Clear) : s.renewed.Clear := ⟨h.code, h.markers, not_mem_nil⟩

theorem readChar_space (hch : isWhitespace ch = true) (h : ¬ s.awaitingAsciiBoundary = true) :
    s.readChar ch = (none, s.settled.push ch) := by
  obtain ⟨hcjk, hascii, -⟩ := isWhitespace_facts hch
  unfold SentenceStreamer.readChar
  rw [if_neg fun hboth => h hboth.1]
  dsimp only
  rw [hcjk, if_neg Bool.false_ne_true, hascii]
  rfl

theorem readChar_awaited (hch : isWhitespace ch = true) (h : s.awaitingAsciiBoundary = true) :
    s.readChar ch = s.settled.confirmBoundary ch := by
  unfold SentenceStreamer.readChar
  rw [if_pos ⟨h, hch⟩]
  rfl

theorem Clear.step_kept (h : s.Clear) (hch : isWhitespace ch = true) (hnot : ¬ s.Confirms) :
    s.step ch = (none, s.settled.push ch) := by
  rw [h.step_eq (isWhitespace_facts hch).2.2]
  by_cases hawait : s.awaitingAsciiBoundary = true
  · rw [readChar_awaited hch hawait]
    unfold SentenceStreamer.confirmBoundary
    by_cases habbr : endsWithAbbreviation (String.ofList s.pendingSentence) = true
    · exact if_pos habbr
    · have hshort : ¬ minSentenceChars ≤ (cleanWords (words s.pendingSentence)).toList.length :=
        fun hlong => hnot ⟨hawait, eq_false_of_ne_true habbr, hlong⟩
      have hemit : s.settled.tryEmit = (none, s.settled) := by
        rw [h.settled.tryEmit_eq]
        exact if_neg hshort
      have habbr' : ¬ endsWithAbbreviation (String.ofList s.settled.pendingSentence) = true := habbr
      rw [if_neg habbr', hemit]
  · exact readChar_space hch hawait

theorem Clear.step_confirmed (h : s.Clear) (hch : isWhitespace ch = true) (hconfirms : s.Confirms) :
    s.step ch = (some (cleanWords (words s.pendingSentence)),
      if s.renewed.full then s.renewed else s.renewed.push ch) := by
  obtain ⟨hawait, habbr, hlong⟩ := hconfirms
  have hemit : s.settled.tryEmit = (some (cleanWords (words s.pendingSentence)), s.renewed) := by
    rw [h.settled.tryEmit_eq]
    exact if_pos hlong
  have habbr' : ¬ endsWithAbbreviation (String.ofList s.settled.pendingSentence) = true :=
    fun htrue => Bool.false_ne_true (habbr.symm.trans htrue)
  rw [h.step_eq (isWhitespace_facts hch).2.2, readChar_awaited hch hawait]
  unfold SentenceStreamer.confirmBoundary
  rw [if_neg habbr', hemit]

theorem Clear.spaced_of_step (h : s.Clear) (hch : isWhitespace ch = true) {out : Option String}
    (hstep : s.step ch = (out, t)) : t.full = true ∨ t.Spaced := by
  by_cases hconfirms : s.Confirms
  · have hnext := (Prod.ext_iff.mp ((h.step_confirmed hch hconfirms).symm.trans hstep)).2
    dsimp only at hnext
    split at hnext
    · rename_i hfull
      exact .inl (hnext ▸ hfull)
    · rw [← hnext]
      exact .inr ⟨rfl, [], ch, hch, rfl⟩
  · have hnext := (Prod.ext_iff.mp ((h.step_kept hch hconfirms).symm.trans hstep)).2
    dsimp only at hnext
    rw [← hnext]
    exact .inr ⟨rfl, _, ch, hch, rfl⟩

theorem Alike.step_space (h : Alike s t) (hch : isWhitespace ch = true)
    (hch' : isWhitespace ch' = true) : AlikeOut (s.step ch) (t.step ch') := by
  have hplain := (isWhitespace_facts hch).2.2
  have hplain' := (isWhitespace_facts hch').2.2
  have hpush : ∀ u v : SentenceStreamer, Alike u v → Alike (u.push ch) (v.push ch') := by
    intro u v huv
    refine { huv.push hplain with
      right := huv.right.push hplain'
      pending := ?_ }
    intro zs
    have hu : (u.push ch).pendingSentence ++ zs = u.pendingSentence ++ ch :: zs :=
      append_assoc _ _ _
    have hv : (v.push ch').pendingSentence ++ zs = v.pendingSentence ++ ch' :: zs :=
      append_assoc _ _ _
    rw [hu, hv, words_append_space hch, words_append_space hch', huv.pending.words_eq]
  rw [h.left.step_eq hplain, h.right.step_eq hplain']
  by_cases hawait : t.awaitingAsciiBoundary = true
  · unfold SentenceStreamer.readChar
    rw [if_pos ⟨h.awaiting.trans hawait, hch⟩, if_pos ⟨hawait, hch'⟩]
    exact (h.awaitingSet false).confirmBoundary hpush
  · rw [readChar_space hch (h.awaiting ▸ hawait), readChar_space hch' hawait]
    exact ⟨rfl, hpush _ _ (h.awaitingSet false)⟩

theorem Alike.step_more (h : Alike s t) (hspaced : s.Spaced) (hch : isWhitespace ch = true) :
    s.step ch = (none, s.push ch) ∧ Alike (s.push ch) t := by
  have hplain := (isWhitespace_facts hch).2.2
  obtain ⟨hawait, front, d, hd, hpending⟩ := hspaced
  refine ⟨?_, { h with left := h.left.push hplain, pending := ?_ }⟩
  · have hsettled : s.settled = s := by
      unfold SentenceStreamer.settled
      rw [← hawait]
    rw [h.left.step_eq hplain,
      readChar_space hch (by rw [hawait]; exact Bool.false_ne_true), hsettled]
  · intro zs
    have hpush : (s.push ch).pendingSentence ++ zs = front ++ d :: ([] ++ ch :: zs) := by
      have happend : (s.push ch).pendingSentence = s.pendingSentence ++ [ch] := rfl
      rw [happend, hpending, append_assoc, append_assoc]
      rfl
    have hzs := h.pending zs
    rw [hpending, append_assoc, singleton_append, words_append_space hd] at hzs
    rw [hpush, words_append_space hd, words_append_space hch, ← hzs]
    rfl

/-! ## Rules for white space -/

theorem SameRun.space {xs : List Char} (hch : isWhitespace ch = true)
    (hxs : ∀ c ∈ xs, Plain c) : SameRun (ch :: xs) (' ' :: xs) := fun _ _ halike =>
  halike.run_cons (halike.step_space hch (by decide)) fun _ s' t' _ => SameRun.refl hxs s' t'

theorem SameRun.space_space {xs : List Char} (hch : isWhitespace ch = true)
    (hch' : isWhitespace ch' = true) (hxs : ∀ c ∈ xs, Plain c) :
    SameRun (ch :: ch' :: xs) (' ' :: xs) := by
  intro s t halike
  refine halike.run_cons (halike.step_space hch (by decide)) fun out s' t' hs hnext => ?_
  by_cases hlast : s'.full = true
  · rw [run_of_full hlast, run_of_full (hnext.full_eq ▸ hlast)]
  · have hspaced := (halike.left.spaced_of_step hch hs).resolve_left hlast
    obtain ⟨hmore, hagain⟩ := hnext.step_more hspaced hch'
    rw [run_none hlast hmore, SameRun.refl hxs _ t' hagain]

theorem run_nil (hfull : ¬ s.full = true) : s.run [] = s.finish.toList := if_neg hfull

theorem SameRun.space_end (hch : isWhitespace ch = true) : SameRun [ch] [] := by
  intro s t halike
  by_cases hfull : s.full = true
  · rw [run_of_full hfull, run_of_full (halike.full_eq ▸ hfull)]
  · have hfull' : ¬ t.full = true := halike.full_eq ▸ hfull
    have hplain := (isWhitespace_facts hch).2.2
    rw [run_nil hfull', halike.right.finish_eq, if_neg hfull', ← halike.pending.words_eq]
    have hpushed : ∀ front, words (front ++ [ch]) = words front := fun front =>
      wordsBy_concat_break hch front
    by_cases hconfirms : s.Confirms
    · have hnone : (if s.renewed.full then s.renewed else s.renewed.push ch).run [] = [] := by
        by_cases hlast : s.renewed.full = true
        · rw [if_pos hlast, run_of_full hlast]
        · have hlast' : ¬ (s.renewed.push ch).full = true := hlast
          rw [if_neg hlast, run_nil hlast', (halike.left.renewed.push hplain).finish_eq,
            if_neg hlast']
          exact congrArg (fun ws => (finishWords ws).toList) (hpushed [])
      have hne : cleanWords (words s.pendingSentence) ≠ "" := by
        intro hempty
        have hlong := hconfirms.2.2
        rw [hempty] at hlong
        exact absurd hlong (by decide)
      have hwords : words s.pendingSentence ≠ [] := by
        intro hempty
        rw [hempty] at hne
        exact hne cleanWords_nil
      rw [run_some hfull (halike.left.step_confirmed hch hconfirms), hnone]
      unfold finishWords
      rw [if_neg hwords, if_neg hne]
      rfl
    · have hstep := halike.left.step_kept hch hconfirms
      have hstill := s.step_not_full hfull hstep
      rw [run_none hfull hstep, run_nil hstill, (halike.left.settled.push hplain).finish_eq,
        if_neg hstill]
      exact congrArg (fun ws => (finishWords ws).toList) (hpushed s.pendingSentence)

/-- Single blanks between the words, and one in front if there is white space. -/
def squeezed (cs : List Char) : List Char := glued isWhitespace ' ' cs

theorem sameRun_squeezed (hcs : ∀ c ∈ cs, Plain c) : SameRun cs (squeezed cs) := by
  induction cs with
  | nil => exact SameRun.refl fun c hc => absurd hc not_mem_nil
  | cons c cs ih =>
    have hrest : ∀ d ∈ cs, Plain d := fun d hd => hcs d (mem_cons_of_mem _ hd)
    have hsame := ih hrest
    by_cases hc : isWhitespace c = true
    · have hcons := hsame.cons (hcs c mem_cons_self)
      unfold squeezed
      rw [glued_cons_break hc]
      by_cases hwords : wordsBy isWhitespace cs = []
      · have hnil : squeezed cs = [] := by
          unfold squeezed glued
          rw [hwords, if_neg fun h => h.2 rfl]
          rfl
        rw [hnil] at hcons
        rw [if_pos hwords]
        exact hcons.trans (SameRun.space_end hc)
      · rw [if_neg hwords]
        have hmem : ∀ d ∈ [' '].intercalate (wordsBy isWhitespace cs), Plain d := by
          intro d hd
          rcases mem_glued ((intercalate_suffix_glued cs).subset hd) with rfl | hd
          · exact (isWhitespace_facts (by decide)).2.2
          · exact hrest d hd
        by_cases hnext : cs.head?.any isWhitespace = true
        · have hsqueezed : squeezed cs = ' ' :: [' '].intercalate (wordsBy isWhitespace cs) := by
            unfold squeezed glued
            rw [if_pos ⟨hnext, hwords⟩]
            rfl
          rw [hsqueezed] at hcons
          exact hcons.trans (SameRun.space_space hc (by decide) hmem)
        · have hsqueezed : squeezed cs = [' '].intercalate (wordsBy isWhitespace cs) := by
            unfold squeezed glued
            rw [if_neg fun h => hnext h.1]
            rfl
          rw [hsqueezed] at hcons
          exact hcons.trans (SameRun.space hc hmem)
    · unfold squeezed
      rw [glued_cons_of_neg (eq_false_of_ne_true hc)]
      exact hsame.cons (hcs c mem_cons_self)

/-- The words of the text with single blanks between them. -/
def tidy (cs : List Char) : List Char := [' '].intercalate (words cs)

theorem run_tidy {maxSentences : Nat} (hcs : ∀ c ∈ cs, Plain c) :
    ({ maxSentences } : SentenceStreamer).run cs =
      ({ maxSentences } : SentenceStreamer).run (tidy cs) := by
  have hstart : ({ maxSentences } : SentenceStreamer).Clear := ⟨rfl, rfl, not_mem_nil⟩
  have hrefl : Alike ({ maxSentences } : SentenceStreamer) { maxSentences } :=
    ⟨hstart, hstart, fun _ => rfl, rfl, rfl, rfl⟩
  have htidy : ∀ c ∈ tidy cs, Plain c := by
    intro c hc
    rcases mem_glued ((intercalate_suffix_glued cs).subset hc) with rfl | hc
    · exact (isWhitespace_facts (by decide)).2.2
    · exact hcs c hc
  rw [sameRun_squeezed hcs _ _ hrefl]
  have hsqueezed : squeezed cs = (if cs.head?.any isWhitespace = true ∧
      wordsBy isWhitespace cs ≠ [] then [' '] else []) ++ tidy cs := rfl
  rw [hsqueezed]
  split
  · by_cases hfull : ({ maxSentences } : SentenceStreamer).full = true
    · rw [run_of_full hfull, run_of_full hfull]
    · have hblank : isWhitespace ' ' = true := by decide
      have hplain := (isWhitespace_facts hblank).2.2
      have hstep : ({ maxSentences } : SentenceStreamer).step ' ' =
          (none, ({ maxSentences } : SentenceStreamer).push ' ') := by
        rw [hstart.step_eq hplain]
        exact readChar_space hblank Bool.false_ne_true
      have hpushed : Alike (({ maxSentences } : SentenceStreamer).push ' ') { maxSentences } :=
        ⟨hstart.push hplain, hstart, fun zs => wordsBy_cons_break hblank zs, rfl, rfl, rfl⟩
      rw [singleton_append, run_none hfull hstep]
      exact SameRun.refl htidy _ _ hpushed
  · rfl

end

end SentenceStreamer

end GenieClaw.Voice
