import GenieClaw.Library.Words
import Mathlib.Data.List.DropRight

/-!
# Long messages in chunks

`split_message` of `genie-core/src/telegram.rs`: as long as a message has more than 4096
characters, a chunk is cut off at the last newline of the first 4096, or else at their last
blank, or else behind them.

* `splitMessage_iff` (the message has something to read): it is split well exactly if every round of
  the loop is good.
-/

namespace GenieClaw.Telegram

open Library Library.Text List

def telegramMaxMessageLen : Nat := 4096

/-- `str::rfind` of a character, in characters. -/
def rfind (c : Char) : List Char → Option Nat
  | [] => none
  | d :: ds =>
    match rfind c ds with
    | some i => some (i + 1)
    | none => if d = c then some 0 else none

def chunkEnd (searchArea : List Char) : Nat :=
  ((rfind '\n' searchArea).or (rfind ' ' searchArea)).getD telegramMaxMessageLen

/-- Where the chunk ends, for a text that is too long. -/
def cutPoint (remaining : List Char) : Nat :=
  if chunkEnd (remaining.take telegramMaxMessageLen) = 0 then telegramMaxMessageLen
  else chunkEnd (remaining.take telegramMaxMessageLen)

/-- What is left behind the chunk. -/
def restAfterCut (remaining : List Char) : List Char :=
  (remaining.drop (cutPoint remaining)).dropWhile isWhitespace

/-! ## Where a chunk ends -/

variable {cs : List Char} {c : Char}

theorem rfind_eq_none : rfind c cs = none ↔ c ∉ cs := by
  induction cs with
  | nil => simp [rfind]
  | cons d ds ih =>
    rw [rfind, mem_cons, not_or, ← ih]
    cases hrest : rfind c ds with
    | none =>
      by_cases hd : d = c
      · simp [hd]
      · simp [hd, Ne.symm hd]
    | some i => simp

theorem rfind_eq_zero : rfind c cs = some 0 ↔ cs.head? = some c ∧ c ∉ cs.tail := by
  cases cs with
  | nil => simp [rfind]
  | cons d ds =>
    rw [rfind, head?_cons, tail_cons, ← rfind_eq_none]
    cases rfind c ds with
    | none => simp
    | some i => simp

theorem rfind_spec {i : Nat} (h : rfind c cs = some i) : cs[i]? = some c := by
  induction cs generalizing i with
  | nil => cases h
  | cons d ds ih =>
    rw [rfind] at h
    cases hrest : rfind c ds with
    | some j =>
      rw [hrest, Option.some.injEq] at h
      rw [← h, getElem?_cons_succ]
      exact ih hrest
    | none =>
      rw [hrest] at h
      dsimp only at h
      split at h
      · rename_i hd
        rw [← Option.some.inj h, hd]
        rfl
      · cases h

/-- There is no newline or blank to cut at, other than in front. -/
def CutsBlindly (remaining : List Char) : Prop :=
  '\n' ∉ (remaining.take telegramMaxMessageLen).tail ∧
    (remaining.head? = some '\n' ∨ ' ' ∉ (remaining.take telegramMaxMessageLen).tail)

theorem telegramMaxMessageLen_pos : 0 < telegramMaxMessageLen := by decide

variable {remaining : List Char}

theorem found_in_area {i : Nat} (h : rfind c (remaining.take telegramMaxMessageLen) = some i) :
    i < telegramMaxMessageLen ∧ remaining[i]? = some c := by
  have hfound := rfind_spec h
  rw [getElem?_take] at hfound
  split at hfound
  · rename_i hlt
    exact ⟨hlt, hfound⟩
  · cases hfound

theorem notMem_tail {α : Type} {x : α} {xs : List α} (h : x ∉ xs) : x ∉ xs.tail :=
  fun hmem => h (mem_of_mem_tail hmem)

theorem mem_tail_of_rfind {i : Nat} (h : rfind c cs = some (i + 1)) : c ∈ cs.tail := by
  have hfound := rfind_spec h
  cases cs with
  | nil => cases hfound
  | cons d ds => exact mem_of_getElem? hfound

theorem cutPoint_spec (remaining : List Char) :
    (CutsBlindly remaining ∧ cutPoint remaining = telegramMaxMessageLen) ∨
      (¬ CutsBlindly remaining ∧ 0 < cutPoint remaining ∧
        cutPoint remaining < telegramMaxMessageLen ∧
          ∃ c ∈ ['\n', ' '], remaining[cutPoint remaining]? = some c) := by
  have hhead : (remaining.take telegramMaxMessageLen).head? = remaining.head? := by
    rw [head?_take, if_neg telegramMaxMessageLen_pos.ne']
  -- a position other than the first is where the chunk ends
  have hcut : ∀ c ∈ ['\n', ' '], ∀ i, rfind c (remaining.take telegramMaxMessageLen) =
      some (i + 1) → cutPoint remaining = i + 1 → 0 < cutPoint remaining ∧
        cutPoint remaining < telegramMaxMessageLen ∧
          ∃ c ∈ ['\n', ' '], remaining[cutPoint remaining]? = some c := by
    intro c hc i hfind hpoint
    obtain ⟨hlt, hfound⟩ := found_in_area hfind
    rw [hpoint]
    exact ⟨Nat.succ_pos i, hlt, c, hc, hfound⟩
  unfold CutsBlindly
  cases hnewline : rfind '\n' (remaining.take telegramMaxMessageLen) with
  | some i =>
    cases i with
    | zero =>
      obtain ⟨hfirst, htail⟩ := rfind_eq_zero.mp hnewline
      refine .inl ⟨⟨htail, .inl (hhead ▸ hfirst)⟩, ?_⟩
      rw [cutPoint, chunkEnd, hnewline]
      rfl
    | succ i =>
      refine .inr ⟨fun h => h.1 (mem_tail_of_rfind hnewline), hcut '\n' (by decide) i hnewline ?_⟩
      rw [cutPoint, chunkEnd, hnewline]
      rfl
  | none =>
    have hnone := rfind_eq_none.mp hnewline
    cases hblank : rfind ' ' (remaining.take telegramMaxMessageLen) with
    | none =>
      refine .inl ⟨⟨notMem_tail hnone, .inr (notMem_tail (rfind_eq_none.mp hblank))⟩, ?_⟩
      rw [cutPoint, chunkEnd, hnewline, hblank]
      rfl
    | some i =>
      cases i with
      | zero =>
        refine .inl ⟨⟨notMem_tail hnone, .inr (rfind_eq_zero.mp hblank).2⟩, ?_⟩
        rw [cutPoint, chunkEnd, hnewline, hblank]
        rfl
      | succ i =>
        refine .inr ⟨fun h => ?_, hcut ' ' (by decide) i hblank ?_⟩
        · rcases h.2 with hfirst | htail
          · exact hnone (mem_of_mem_head? (hhead.trans hfirst))
          · exact htail (mem_tail_of_rfind hblank)
        · rw [cutPoint, chunkEnd, hnewline, hblank]
          rfl

theorem cutPoint_pos (remaining : List Char) : 0 < cutPoint remaining := by
  rcases cutPoint_spec remaining with ⟨-, h⟩ | ⟨-, h, -⟩
  · rw [h]
    exact telegramMaxMessageLen_pos
  · exact h

theorem cutPoint_le (remaining : List Char) : cutPoint remaining ≤ telegramMaxMessageLen := by
  rcases cutPoint_spec remaining with ⟨-, h⟩ | ⟨-, -, h, -⟩
  · exact h.le
  · exact h.le

theorem length_restAfterCut (h : remaining ≠ []) :
    (restAfterCut remaining).length < remaining.length := by
  have hdrop :=
    (dropWhile_sublist isWhitespace (l := remaining.drop (cutPoint remaining))).length_le
  have hpos := cutPoint_pos remaining
  have hlen := List.length_pos_iff.mpr h
  rw [length_drop] at hdrop
  unfold restAfterCut
  omega

/-! ## The loop -/

def splitRemaining (remaining : List Char) : List (List Char) :=
  if remaining = [] then []
  else if remaining.length ≤ telegramMaxMessageLen then [remaining]
  else trimChars (remaining.take (cutPoint remaining)) :: splitRemaining (restAfterCut remaining)
termination_by remaining.length
decreasing_by exact length_restAfterCut (by assumption)

def splitMessage (message : String) : List String :=
  if message.toList.length ≤ telegramMaxMessageLen then [message]
  else (splitRemaining message.toList).map String.ofList

/-- The texts that are left before each cut. -/
def roundsOf (remaining : List Char) : List (List Char) :=
  if remaining.length ≤ telegramMaxMessageLen then []
  else remaining :: roundsOf (restAfterCut remaining)
termination_by remaining.length
decreasing_by
  refine length_restAfterCut fun hnil => ?_
  rename_i hlong
  rw [hnil] at hlong
  exact hlong (Nat.zero_le _)

/-! ## The loop, round by round -/

theorem splitRemaining_nil : splitRemaining [] = [] := by
  rw [splitRemaining, if_pos rfl]

theorem splitRemaining_short (hne : remaining ≠ []) (h : remaining.length ≤ telegramMaxMessageLen) :
    splitRemaining remaining = [remaining] := by
  rw [splitRemaining, if_neg hne, if_pos h]

theorem splitRemaining_long (h : telegramMaxMessageLen < remaining.length) :
    splitRemaining remaining = trimChars (remaining.take (cutPoint remaining)) ::
      splitRemaining (restAfterCut remaining) := by
  have hne : remaining ≠ [] := ne_nil_of_length_pos (Nat.zero_lt_of_lt h)
  rw [splitRemaining, if_neg hne, if_neg (Nat.not_le.mpr h)]

theorem roundsOf_short (h : remaining.length ≤ telegramMaxMessageLen) :
    roundsOf remaining = [] := by
  rw [roundsOf, if_pos h]

theorem roundsOf_long (h : telegramMaxMessageLen < remaining.length) :
    roundsOf remaining = remaining :: roundsOf (restAfterCut remaining) := by
  rw [roundsOf, if_neg (Nat.not_le.mpr h)]

theorem rounds_induction {P : List Char → Prop} (hnil : P [])
    (hshort : ∀ remaining, remaining ≠ [] → remaining.length ≤ telegramMaxMessageLen → P remaining)
    (hlong : ∀ remaining, telegramMaxMessageLen < remaining.length →
      P (restAfterCut remaining) → P remaining) (remaining : List Char) : P remaining := by
  induction hlength : remaining.length using Nat.strongRecOn generalizing remaining with
  | ind n ih =>
    rcases eq_or_ne remaining [] with rfl | hne
    · exact hnil
    · rcases Nat.lt_or_ge telegramMaxMessageLen remaining.length with h | h
      · exact hlong remaining h
          (ih _ (hlength ▸ length_restAfterCut hne) (restAfterCut remaining) rfl)
      · exact hshort remaining hne h

/-! ## The bound and the text -/

theorem length_trimChars_le (cs : List Char) : (trimChars cs).length ≤ cs.length := by
  unfold trimChars
  exact (List.rdropWhile_prefix _ _).length_le.trans (dropWhile_sublist _).length_le

theorem splitRemaining_bounded (remaining : List Char) :
    ∀ chunk ∈ splitRemaining remaining, chunk.length ≤ telegramMaxMessageLen := by
  induction remaining using rounds_induction with
  | hnil =>
    rw [splitRemaining_nil]
    exact fun _ h => absurd h not_mem_nil
  | hshort remaining hne h =>
    rw [splitRemaining_short hne h]
    exact fun chunk hchunk => List.mem_singleton.mp hchunk ▸ h
  | hlong remaining h ih =>
    rw [splitRemaining_long h]
    refine List.forall_mem_cons.mpr ⟨?_, ih⟩
    refine (length_trimChars_le _).trans ?_
    rw [length_take]
    exact (Nat.min_le_left _ _).trans (cutPoint_le remaining)

theorem words_trimChars (cs : List Char) :
    wordsBy isWhitespace (trimChars cs) = wordsBy isWhitespace cs := by
  unfold trimChars
  rw [wordsBy_rdropWhile fun _ h => h, wordsBy_dropWhile fun _ h => h]

theorem visibleChars_eq (cs : List Char) : visibleChars cs = (wordsBy isWhitespace cs).flatten :=
  (flatten_wordsBy cs).symm

theorem words_restAfterCut (remaining : List Char) :
    wordsBy isWhitespace (restAfterCut remaining) =
      wordsBy isWhitespace (remaining.drop (cutPoint remaining)) :=
  wordsBy_dropWhile (fun _ h => h) _

theorem splitRemaining_visibleChars (remaining : List Char) :
    visibleChars (splitRemaining remaining).flatten = visibleChars remaining := by
  induction remaining using rounds_induction with
  | hnil => rw [splitRemaining_nil, flatten_nil]
  | hshort remaining hne h => rw [splitRemaining_short hne h, flatten_singleton]
  | hlong remaining h ih =>
    conv_rhs => rw [← take_append_drop (cutPoint remaining) remaining]
    rw [splitRemaining_long h, flatten_cons, visibleChars_append, ih, visibleChars_append,
      visibleChars_eq, visibleChars_eq, words_trimChars, words_restAfterCut, ← visibleChars_eq,
      ← visibleChars_eq]

/-! ## Something to read -/

/-- The text has a visible character. -/
def Visible (cs : List Char) : Prop := ∃ c ∈ cs, isWhitespace c = false

theorem visible_iff : Visible cs ↔ wordsBy isWhitespace cs ≠ [] := by
  rw [ne_eq, wordsBy_eq_nil_iff]
  unfold Visible
  simp only [not_forall, exists_prop, Bool.not_eq_true]

theorem visible_trimChars : Visible (trimChars cs) ↔ Visible cs := by
  rw [visible_iff, visible_iff, words_trimChars]

theorem head?_restAfterCut (h : c ∈ (restAfterCut remaining).head?) : isWhitespace c = false := by
  have hhead := head?_dropWhile_not isWhitespace (remaining.drop (cutPoint remaining))
  unfold restAfterCut at h
  rw [Option.mem_def] at h
  rw [h] at hhead
  simpa using hhead

theorem visible_restAfterCut (h : restAfterCut remaining ≠ []) :
    Visible (restAfterCut remaining) := by
  obtain ⟨c, cs, hcons⟩ := exists_cons_of_ne_nil h
  have hfirst : c ∈ (restAfterCut remaining).head? := by
    rw [hcons]
    rfl
  exact ⟨c, hcons ▸ mem_cons_self, head?_restAfterCut hfirst⟩

theorem splitRemaining_visible (remaining : List Char)
    (hvisible : remaining = [] ∨ Visible remaining) :
    (∀ chunk ∈ splitRemaining remaining, Visible chunk) ↔
      ∀ round ∈ roundsOf remaining, Visible (round.take (cutPoint round)) := by
  induction remaining using rounds_induction with
  | hnil =>
    rw [splitRemaining_nil, roundsOf_short (Nat.zero_le _)]
    exact iff_of_true (fun _ h => absurd h not_mem_nil) fun _ h => absurd h not_mem_nil
  | hshort remaining hne h =>
    rw [splitRemaining_short hne h, roundsOf_short h]
    refine iff_of_true (fun chunk hchunk => ?_) fun _ h => absurd h not_mem_nil
    rw [List.mem_singleton.mp hchunk]
    exact hvisible.resolve_left hne
  | hlong remaining h ih =>
    rw [splitRemaining_long h, roundsOf_long h, forall_mem_cons, forall_mem_cons,
      visible_trimChars, ih]
    rcases eq_or_ne (restAfterCut remaining) [] with hnil | hne
    · exact .inl hnil
    · exact .inr (visible_restAfterCut hne)

/-! ## Words that are kept whole -/

/-- Every word is in the pieces, and whole where it fits into a chunk. -/
def WordsKept (words pieces : List (List Char)) : Prop :=
  ∃ groups, List.Forall₂ (fun word parts => parts.flatten = word ∧
    (word.length ≤ telegramMaxMessageLen → parts = [word])) words groups ∧ groups.flatten = pieces

/-- The same, where the first word is the end of a longer one. -/
def RestKept : List (List Char) → List (List Char) → Prop
  | [], pieces => pieces = []
  | word :: words, pieces =>
    ∃ parts rest, pieces = parts ++ rest ∧ parts.flatten = word ∧ WordsKept words rest

theorem wordsKept_nil {pieces : List (List Char)} : WordsKept [] pieces ↔ pieces = [] := by
  constructor
  · rintro ⟨groups, hgroups, rfl⟩
    cases hgroups
    rfl
  · rintro rfl
    exact ⟨[], .nil, rfl⟩

variable {words pieces : List (List Char)} {word : List Char}

theorem wordsKept_cons :
    WordsKept (word :: words) pieces ↔
      ∃ parts rest, pieces = parts ++ rest ∧ parts.flatten = word ∧
        (word.length ≤ telegramMaxMessageLen → parts = [word]) ∧ WordsKept words rest := by
  constructor
  · rintro ⟨groups, hgroups, rfl⟩
    cases hgroups with
    | @cons _ parts _ rest hparts hrest =>
      exact ⟨parts, rest.flatten, flatten_cons, hparts.1, hparts.2, rest, hrest, rfl⟩
  · rintro ⟨parts, rest, rfl, hflatten, hwhole, groups, hgroups, rfl⟩
    exact ⟨parts :: groups, .cons ⟨hflatten, hwhole⟩ hgroups, flatten_cons⟩

theorem WordsKept.rest (h : WordsKept words pieces) : RestKept words pieces := by
  cases words with
  | nil => exact wordsKept_nil.mp h
  | cons word words =>
    obtain ⟨parts, rest, hpieces, hflatten, -, hrest⟩ := wordsKept_cons.mp h
    exact ⟨parts, rest, hpieces, hflatten, hrest⟩

theorem WordsKept.append (front : List (List Char)) (h : WordsKept words pieces) :
    WordsKept (front ++ words) (front ++ pieces) := by
  induction front with
  | nil => exact h
  | cons word front ih =>
    exact wordsKept_cons.mpr
      ⟨[word], front ++ pieces, rfl, flatten_singleton, fun _ => rfl, ih⟩

theorem wordsKept_self (words : List (List Char)) : WordsKept words words := by
  have h := (wordsKept_nil.mpr rfl : WordsKept [] []).append words
  rwa [append_nil] at h

theorem parts_eq_singleton {parts rest pieces : List (List Char)}
    (hpieces : word :: pieces = parts ++ rest) (hflatten : parts.flatten = word)
    (hword : word ≠ []) (hne : ∀ piece ∈ pieces, piece ≠ []) : parts = [word] ∧ rest = pieces := by
  cases parts with
  | nil => exact absurd hflatten.symm hword
  | cons first parts =>
    obtain ⟨rfl, hrest⟩ := List.cons.inj hpieces
    rw [flatten_cons, append_right_eq_self] at hflatten
    cases parts with
    | nil => exact ⟨rfl, hrest.symm⟩
    | cons second parts =>
      have hsecond := hne second (hrest ▸ mem_cons_self)
      rw [flatten_cons, append_eq_nil_iff] at hflatten
      exact absurd hflatten.1 hsecond

theorem RestKept.cancel {front words pieces : List (List Char)}
    (h : RestKept (word :: (front ++ words)) (word :: (front ++ pieces)))
    (hfront : ∀ w ∈ word :: front, w ≠ []) (hpieces : ∀ piece ∈ pieces, piece ≠ []) :
    WordsKept words pieces := by
  induction front generalizing word with
  | nil =>
    obtain ⟨parts, rest, heq, hflatten, hrest⟩ := h
    obtain ⟨-, rfl⟩ := parts_eq_singleton heq hflatten (hfront word mem_cons_self) hpieces
    exact hrest
  | cons second front ih =>
    obtain ⟨hword, hlater⟩ := List.forall_mem_cons.mp hfront
    obtain ⟨parts, rest, heq, hflatten, hrest⟩ := h
    obtain ⟨-, rfl⟩ := parts_eq_singleton heq hflatten hword fun piece hpiece => by
      rcases List.mem_append.mp hpiece with hpiece | hpiece
      · exact hlater piece hpiece
      · exact hpieces piece hpiece
    exact ih hrest.rest hlater

/-! ## What a cut does to the words -/

/-- The end of the search area, back to its last white space. -/
def wordBefore (remaining : List Char) : List Char :=
  (remaining.take telegramMaxMessageLen).rtakeWhile fun c => !isWhitespace c

/-- The text behind the search area, up to its first white space. -/
def wordBehind (remaining : List Char) : List Char :=
  (remaining.drop telegramMaxMessageLen).takeWhile fun c => !isWhitespace c

def CutsWord (remaining : List Char) : Prop :=
  CutsBlindly remaining ∧ wordBefore remaining ≠ [] ∧ wordBehind remaining ≠ []

theorem words_apart (h : ¬ CutsWord remaining) :
    wordsBy isWhitespace remaining =
      wordsBy isWhitespace (remaining.take (cutPoint remaining)) ++
        wordsBy isWhitespace (restAfterCut remaining) := by
  rw [words_restAfterCut]
  conv_lhs => rw [← take_append_drop (cutPoint remaining) remaining]
  refine wordsBy_append_apart ?_
  rcases cutPoint_spec remaining with ⟨hblind, hpoint⟩ | ⟨-, -, -, c, hc, hfound⟩
  · rw [hpoint]
    by_contra hapart
    rw [not_or] at hapart
    exact h ⟨hblind, hapart⟩
  · right
    have hwhite : isWhitespace c = true := by
      have hmarks : ∀ c ∈ ['\n', ' '], isWhitespace c = true := forall_mem_of_all (by decide)
      exact hmarks c hc
    obtain ⟨hlt, hget⟩ := List.getElem?_eq_some_iff.mp hfound
    rw [drop_eq_getElem_cons hlt, hget, takeWhile_cons, hwhite]
    rfl

theorem words_across (h : CutsWord remaining) :
    ∃ front rear,
      wordsBy isWhitespace (remaining.take (cutPoint remaining)) = front ++ [wordBefore remaining] ∧
      wordsBy isWhitespace (restAfterCut remaining) = wordBehind remaining :: rear ∧
      wordsBy isWhitespace remaining =
        front ++ (wordBefore remaining ++ wordBehind remaining) :: rear ∧
      (front = [] → (∀ c ∈ remaining.head?, isWhitespace c = false) →
        wordBefore remaining = remaining.take telegramMaxMessageLen) := by
  obtain ⟨hblind, hbefore, hbehind⟩ := h
  have hpoint : cutPoint remaining = telegramMaxMessageLen := by
    rcases cutPoint_spec remaining with ⟨-, hpoint⟩ | ⟨hnot, -⟩
    · exact hpoint
    · exact absurd hblind hnot
  obtain ⟨front, rear, hxs, hys, hall, hfront⟩ := wordsBy_append_across hbefore hbehind
  rw [take_append_drop] at hall
  refine ⟨front, rear, hpoint ▸ hxs, ?_, hall, fun hnil hhead => ?_⟩
  · rw [words_restAfterCut, hpoint]
    exact hys
  · have happend := @rdropWhile_append_rtakeWhile _ (fun c => !isWhitespace c)
      (remaining.take telegramMaxMessageLen)
    cases hdrop : (remaining.take telegramMaxMessageLen).rdropWhile fun c => !isWhitespace c with
    | nil =>
      rw [hdrop] at happend
      exact happend
    | cons c cs =>
      have hwhite := hfront hnil c (hdrop ▸ mem_cons_self)
      have hfirst : remaining.head? = some c := by
        rw [hdrop] at happend
        rw [← take_append_drop telegramMaxMessageLen remaining, ← happend]
        rfl
      rw [hhead c hfirst] at hwhite
      cases hwhite

/-- The words of the chunks. -/
def piecesOf (remaining : List Char) : List (List Char) :=
  (splitRemaining remaining).flatMap (wordsBy isWhitespace)

theorem piecesOf_short (h : remaining.length ≤ telegramMaxMessageLen) :
    piecesOf remaining = wordsBy isWhitespace remaining := by
  unfold piecesOf
  rcases eq_or_ne remaining [] with rfl | hne
  · rw [splitRemaining_nil]
    rfl
  · rw [splitRemaining_short hne h, flatMap_singleton]

theorem piecesOf_long (h : telegramMaxMessageLen < remaining.length) :
    piecesOf remaining = wordsBy isWhitespace (remaining.take (cutPoint remaining)) ++
      piecesOf (restAfterCut remaining) := by
  unfold piecesOf
  rw [splitRemaining_long h, flatMap_cons, words_trimChars]

theorem piece_ne_nil {remaining piece : List Char} (h : piece ∈ piecesOf remaining) :
    piece ≠ [] := by
  obtain ⟨chunk, -, hpiece⟩ := List.mem_flatMap.mp h
  exact ne_nil_of_mem_wordsBy hpiece

/-- A word across the cut does not fit into a chunk. -/
def CutsLongWord (remaining : List Char) : Prop :=
  CutsWord remaining → telegramMaxMessageLen < (wordBefore remaining ++ wordBehind remaining).length

theorem wordsKept_of_rounds (remaining : List Char)
    (h : ∀ round ∈ roundsOf remaining, CutsLongWord round) :
    WordsKept (wordsBy isWhitespace remaining) (piecesOf remaining) := by
  induction remaining using rounds_induction with
  | hnil => exact wordsKept_nil.mpr (piecesOf_short (Nat.zero_le _))
  | hshort remaining hne hshort =>
    rw [piecesOf_short hshort]
    exact wordsKept_self _
  | hlong remaining hlong ih =>
    rw [roundsOf_long hlong, forall_mem_cons] at h
    have hrest := ih h.2
    rw [piecesOf_long hlong]
    by_cases hcut : CutsWord remaining
    · obtain ⟨front, rear, hfront, hrear, hwords, -⟩ := words_across hcut
      rw [hrear] at hrest
      obtain ⟨parts, later, hpieces, hflatten, hlater⟩ := hrest.rest
      rw [hwords, hfront, append_assoc, singleton_append, hpieces]
      refine WordsKept.append front (wordsKept_cons.mpr
        ⟨wordBefore remaining :: parts, later, rfl, ?_, fun hshort => ?_, hlater⟩)
      · rw [flatten_cons, hflatten]
      · exact absurd (h.1 hcut) (Nat.not_lt.mpr hshort)
    · rw [words_apart hcut]
      exact hrest.append _

theorem RestKept.behind {before behind : List Char}
    (h : RestKept ((before ++ behind) :: words) (before :: pieces)) (hne : before ≠ []) :
    RestKept (behind :: words) pieces := by
  obtain ⟨parts, rest, heq, hflatten, hrest⟩ := h
  cases parts with
  | nil => exact absurd (List.append_eq_nil_iff.mp hflatten.symm).1 hne
  | cons first parts =>
    obtain ⟨rfl, rfl⟩ := List.cons.inj heq
    rw [flatten_cons, append_right_inj] at hflatten
    exact ⟨parts, rest, rfl, hflatten, hrest⟩

theorem WordsKept.long {before behind : List Char}
    (h : WordsKept ((before ++ behind) :: words) (before :: pieces)) (hne : behind ≠ []) :
    telegramMaxMessageLen < (before ++ behind).length := by
  obtain ⟨parts, rest, heq, -, hwhole, -⟩ := wordsKept_cons.mp h
  by_contra hshort
  rw [hwhole (Nat.not_lt.mp hshort), singleton_append] at heq
  exact hne (List.self_eq_append_right.mp (List.cons.inj heq).1)

/-- A text that begins with something to read may begin with the end of a longer word. -/
theorem rounds_of_wordsKept (remaining : List Char)
    (hrest : RestKept (wordsBy isWhitespace remaining) (piecesOf remaining))
    (hkept : (∃ c ∈ remaining.head?, isWhitespace c = true) →
      WordsKept (wordsBy isWhitespace remaining) (piecesOf remaining)) :
    ∀ round ∈ roundsOf remaining, CutsLongWord round := by
  induction remaining using rounds_induction with
  | hnil =>
    rw [roundsOf_short (Nat.zero_le _)]
    exact fun _ h => absurd h not_mem_nil
  | hshort remaining hne hshort =>
    rw [roundsOf_short hshort]
    exact fun _ h => absurd h not_mem_nil
  | hlong remaining hlong ih =>
    rw [piecesOf_long hlong] at hrest hkept
    rw [roundsOf_long hlong, forall_mem_cons]
    have hlater : (∃ c ∈ (restAfterCut remaining).head?, isWhitespace c = true) →
        WordsKept (wordsBy isWhitespace (restAfterCut remaining))
          (piecesOf (restAfterCut remaining)) := by
      rintro ⟨c, hc, hwhite⟩
      rw [head?_restAfterCut hc] at hwhite
      cases hwhite
    have hpieces : ∀ piece ∈ piecesOf (restAfterCut remaining), piece ≠ [] :=
      fun _ h => piece_ne_nil h
    have hwords : ∀ word ∈ wordsBy isWhitespace (remaining.take (cutPoint remaining)),
        word ≠ [] := fun _ h => ne_nil_of_mem_wordsBy h
    by_cases hcut : CutsWord remaining
    · obtain ⟨front, rear, hfront, hrear, hall, hwhole⟩ := words_across hcut
      rw [hall, hfront, append_assoc, singleton_append] at hrest hkept
      rw [hrear] at ih hlater
      rw [hfront] at hwords
      have hbefore : ∀ piece ∈ wordBefore remaining :: piecesOf (restAfterCut remaining),
          piece ≠ [] := List.forall_mem_cons.mpr ⟨hcut.2.1, hpieces⟩
      cases front with
      | nil =>
        refine ⟨fun _ => ?_, ih (RestKept.behind hrest hcut.2.1) hlater⟩
        by_cases hwhite : ∃ c ∈ remaining.head?, isWhitespace c = true
        · exact (hkept hwhite).long hcut.2.2
        · have hvisible : ∀ c ∈ remaining.head?, isWhitespace c = false := fun c hc =>
            eq_false_of_ne_true fun hc' => hwhite ⟨c, hc, hc'⟩
          have hbehind := List.length_pos_iff.mpr hcut.2.2
          rw [hwhole rfl hvisible, length_append, length_take]
          omega
      | cons word front =>
        have hsame := RestKept.cancel hrest
          (fun w hw => hwords w (mem_append_left _ hw)) hbefore
        exact ⟨fun _ => hsame.long hcut.2.2, ih (hsame.rest.behind hcut.2.1) hlater⟩
    · refine ⟨fun h => absurd h hcut, ih ?_ hlater⟩
      rw [words_apart hcut] at hrest hkept
      cases hfront : wordsBy isWhitespace (remaining.take (cutPoint remaining)) with
      | nil =>
        rw [hfront] at hrest
        exact hrest
      | cons word front =>
        rw [hfront] at hrest hwords
        exact (RestKept.cancel hrest hwords hpieces).rest

/-! ## The chunks of a message -/

/-- The chunks of a message: each has something to read and fits, nothing that can be read is
lost, a message that fits is left as it is, and so is a word that fits. -/
structure SplitsWell (message : String) : Prop where
  visible : ∀ chunk ∈ splitMessage message, Visible chunk.toList
  bounded : ∀ chunk ∈ splitMessage message, chunk.toList.length ≤ telegramMaxMessageLen
  nothingLost : visibleChars ((splitMessage message).map String.toList).flatten =
    visibleChars message.toList
  unchanged : message.toList.length ≤ telegramMaxMessageLen → splitMessage message = [message]
  words : WordsKept (wordsBy isWhitespace message.toList)
    ((splitMessage message).flatMap fun chunk => wordsBy isWhitespace chunk.toList)

/-- There is something to read before the cut, and a word across it does not fit. -/
structure GoodRound (remaining : List Char) : Prop where
  visible : Visible (remaining.take (cutPoint remaining))
  across : CutsLongWord remaining

theorem toList_splitMessage {message : String} (hne : message.toList ≠ []) :
    (splitMessage message).map String.toList = splitRemaining message.toList := by
  unfold splitMessage
  split
  · rename_i hshort
    rw [splitRemaining_short hne hshort, map_singleton]
  · rw [map_map]
    exact map_congr_left (fun _ _ => String.toList_ofList) |>.trans (map_id _)

theorem splitMessage_iff {message : String} (hvisible : Visible message.toList) :
    SplitsWell message ↔ ∀ round ∈ roundsOf message.toList, GoodRound round := by
  have hne : message.toList ≠ [] := by
    obtain ⟨c, hc, -⟩ := hvisible
    exact ne_nil_of_mem hc
  have hchunks := toList_splitMessage hne
  have hall : ∀ P : List Char → Prop, (∀ chunk ∈ splitMessage message, P chunk.toList) ↔
      ∀ chunk ∈ splitRemaining message.toList, P chunk := by
    intro P
    rw [← hchunks, forall_mem_map]
  have hpieces : ((splitMessage message).flatMap fun chunk => wordsBy isWhitespace chunk.toList) =
      piecesOf message.toList := by
    rw [piecesOf, ← hchunks, flatMap_map]
  have hrounds := splitRemaining_visible message.toList (.inr hvisible)
  constructor
  · intro h
    have hwords := h.words
    rw [hpieces] at hwords
    have hacross := rounds_of_wordsKept message.toList hwords.rest fun _ => hwords
    have hread := hrounds.mp ((hall Visible).mp h.visible)
    exact fun round hround => ⟨hread round hround, hacross round hround⟩
  · intro h
    refine ⟨(hall Visible).mpr (hrounds.mpr fun round hround => (h round hround).visible),
      (hall fun chunk => chunk.length ≤ telegramMaxMessageLen).mpr
        (splitRemaining_bounded message.toList), ?_, fun hshort => if_pos hshort, ?_⟩
    · rw [hchunks, splitRemaining_visibleChars]
    · rw [hpieces]
      exact wordsKept_of_rounds message.toList fun round hround => (h round hround).across

section Example

variable {front behind : List Char}

theorem not_cutsBlindly_of_blank (hne : front ≠ []) (hshort : front.length < telegramMaxMessageLen)
    (hfront : ∀ c ∈ front, isWhitespace c = false) : ¬ CutsBlindly (front ++ ' ' :: behind) := by
  obtain ⟨c, front, rfl⟩ := exists_cons_of_ne_nil hne
  rw [length_cons] at hshort
  have hblank : ' ' ∈ ((c :: front ++ ' ' :: behind).take telegramMaxMessageLen).tail := by
    have hat : ((c :: front ++ ' ' :: behind).take telegramMaxMessageLen).tail[front.length]? =
        some ' ' := by
      rw [getElem?_tail, getElem?_take, if_pos hshort]
      simp
    exact mem_of_getElem? hat
  rintro ⟨-, hhead | hnone⟩
  · have hc : c = '\n' := Option.some.inj hhead
    have hplain := hfront c mem_cons_self
    rw [hc] at hplain
    cases hplain
  · exact hnone hblank

/-- Two words that do not fit together are cut between them. -/
theorem cutPoint_two_words (hne : front ≠ []) (hshort : front.length < telegramMaxMessageLen)
    (hfront : ∀ c ∈ front, isWhitespace c = false)
    (hbehind : ∀ c ∈ behind, isWhitespace c = false) :
    cutPoint (front ++ ' ' :: behind) = front.length := by
  rcases cutPoint_spec (front ++ ' ' :: behind) with
    ⟨hblind, -⟩ | ⟨-, -, -, c, hc, hfound⟩
  · exact absurd hblind (not_cutsBlindly_of_blank hne hshort hfront)
  · have hall : ∀ c ∈ ['\n', ' '], isWhitespace c = true := forall_mem_of_all (by decide)
    have hwhite := hall c hc
    rcases Nat.lt_trichotomy (cutPoint (front ++ ' ' :: behind)) front.length with h | h | h
    · rw [getElem?_append_left h] at hfound
      rw [hfront c (mem_of_getElem? hfound)] at hwhite
      cases hwhite
    · exact h
    · obtain ⟨k, hk⟩ := Nat.exists_eq_add_of_lt h
      have hbeyond : front.length + k + 1 - front.length = k + 1 := by omega
      rw [getElem?_append_right h.le, hk, hbeyond, getElem?_cons_succ] at hfound
      rw [hbehind c (mem_of_getElem? hfound)] at hwhite
      cases hwhite

/-- A message of two words, the second of them as long as a chunk. -/
theorem splitMessage_two_words :
    let front := List.replicate 4095 'a'
    let behind := List.replicate telegramMaxMessageLen 'b'
    SplitsWell (String.ofList (front ++ ' ' :: behind)) := by
  intro front behind
  have hne : front ≠ [] := cons_ne_nil _ _
  have hshort : front.length < telegramMaxMessageLen := by
    rw [length_replicate]
    decide
  have hfront : ∀ c ∈ front, isWhitespace c = false := fun c hc => by
    rw [eq_of_mem_replicate hc]
    decide
  have hbehind : ∀ c ∈ behind, isWhitespace c = false := fun c hc => by
    rw [eq_of_mem_replicate hc]
    decide
  have hcut := cutPoint_two_words hne hshort hfront hbehind
  have hlong : telegramMaxMessageLen < (front ++ ' ' :: behind).length := by
    rw [length_append, length_cons, length_replicate, length_replicate]
    omega
  have hrest : restAfterCut (front ++ ' ' :: behind) = behind := by
    rw [restAfterCut, hcut, drop_left, dropWhile_cons_of_pos (by decide)]
    exact List.dropWhile_eq_self_iff.mpr fun h => by simp [hbehind _ (getElem_mem h)]
  have hrounds : roundsOf (front ++ ' ' :: behind) = [front ++ ' ' :: behind] := by
    rw [roundsOf_long hlong, hrest, roundsOf_short (List.length_replicate.le)]
  refine (splitMessage_iff ?_).mpr ?_
  · rw [String.toList_ofList]
    exact ⟨'a', mem_append_left _ mem_cons_self, by decide⟩
  · rw [String.toList_ofList, hrounds]
    intro round hround
    rw [List.mem_singleton.mp hround]
    refine ⟨?_, fun hword => ?_⟩
    · rw [hcut, take_left]
      exact ⟨'a', mem_cons_self, by decide⟩
    · exact absurd hword.1 (not_cutsBlindly_of_blank hne hshort hfront)

end Example

/-- A message that begins with 4096 blanks has a first chunk with nothing to read. -/
theorem splitMessage_blanks :
    ¬ SplitsWell (String.ofList (List.replicate telegramMaxMessageLen ' ' ++ ['x'])) := by
  intro h
  let text := List.replicate telegramMaxMessageLen ' ' ++ ['x']
  have hlong : telegramMaxMessageLen < text.length := by
    rw [length_append, length_replicate]
    exact Nat.lt_succ_self _
  have hchunks := @toList_splitMessage (String.ofList text)
    (by rw [String.toList_ofList]; exact ne_nil_of_length_pos (Nat.zero_lt_of_lt hlong))
  rw [String.toList_ofList, splitRemaining_long hlong] at hchunks
  obtain ⟨chunk, hchunk, hfirst⟩ := List.mem_map.mp (hchunks ▸ mem_cons_self)
  have hvisible := h.visible chunk hchunk
  rw [hfirst, visible_trimChars] at hvisible
  obtain ⟨c, hc, hread⟩ := hvisible
  rw [take_append_of_le_length (List.length_replicate.symm ▸ cutPoint_le text)] at hc
  rw [eq_of_mem_replicate (mem_of_mem_take hc)] at hread
  cases hread

end GenieClaw.Telegram
