import GenieClaw.Library.Words

/-!
# Words with single gaps

`glued p gap xs` has the words of `xs` with one gap between them, and one in front if `xs` begins
with a break.
-/

namespace GenieClaw.Library

open List Option
section

variable {α : Type} {p : α → Bool}

/-- The words with one `gap` between two of them, and one in front if there is a break. -/
def glued (p : α → Bool) (gap : α) (xs : List α) : List α :=
  (if (xs.head?.any p) = true ∧ wordsBy p xs ≠ [] then [gap] else []) ++
    [gap].intercalate (wordsBy p xs)

variable {gap : α}

theorem glued_cons_break {d : α} (hd : p d = true) (xs : List α) :
    glued p gap (d :: xs) =
      if wordsBy p xs = [] then [] else gap :: [gap].intercalate (wordsBy p xs) := by
  unfold glued
  rw [wordsBy_cons_break hd, head?_cons, any_some, hd]
  by_cases hnil : wordsBy p xs = []
  · rw [hnil]
    rfl
  · rw [if_pos ⟨rfl, hnil⟩, if_neg hnil]
    rfl

theorem glued_cons_of_neg {c : α} (hc : p c = false) (xs : List α) :
    glued p gap (c :: xs) = c :: glued p gap xs := by
  have hfront : ∀ ys : List α, glued p gap (c :: ys) = [gap].intercalate (wordsBy p (c :: ys)) := by
    intro ys
    unfold glued
    rw [head?_cons, any_some, hc, if_neg fun h => Bool.false_ne_true h.1]
    rfl
  rw [hfront]
  cases xs with
  | nil =>
    rw [wordsBy_of_forall (cons_ne_nil _ _) fun x hx => List.mem_singleton.mp hx ▸ hc]
    rfl
  | cons d xs =>
    by_cases hd : p d = true
    · have hwords : wordsBy p (c :: d :: xs) = [c] :: wordsBy p xs := by
        have happend := wordsBy_append_break hd [c] xs
        rw [wordsBy_of_forall (cons_ne_nil _ _) fun x hx => List.mem_singleton.mp hx ▸ hc]
          at happend
        exact happend
      rw [hwords, glued_cons_break hd]
      cases hrest : wordsBy p xs with
      | nil => rfl
      | cons word rest =>
        rw [if_neg (cons_ne_nil _ _), intercalate_cons_cons]
        rfl
    · have hd : p d = false := eq_false_of_ne_true hd
      obtain ⟨word, rest, hone, htwo⟩ := wordsBy_cons_cons hc hd xs
      have hglued : glued p gap (d :: xs) = [gap].intercalate (wordsBy p (d :: xs)) := by
        unfold glued
        rw [head?_cons, any_some, hd, if_neg fun h => Bool.false_ne_true h.1]
        rfl
      rw [hglued, hone, htwo]
      cases rest with
      | nil => rfl
      | cons second rest =>
        rw [intercalate_cons_cons, intercalate_cons_cons]
        rfl

theorem intercalate_suffix_glued (xs : List α) :
    [gap].intercalate (wordsBy p xs) <:+ glued p gap xs := ⟨_, rfl⟩

variable {xs : List α}

theorem mem_glued {x : α} (h : x ∈ glued p gap xs) : x = gap ∨ x ∈ xs := by
  induction xs with
  | nil => cases h
  | cons d xs ih =>
    by_cases hd : p d = true
    · rw [glued_cons_break hd] at h
      split at h
      · cases h
      · rcases List.mem_cons.mp h with rfl | h
        · exact .inl rfl
        · exact (ih ((intercalate_suffix_glued xs).subset h)).imp_right (mem_cons_of_mem d)
    · rw [glued_cons_of_neg (eq_false_of_ne_true hd)] at h
      rcases List.mem_cons.mp h with rfl | h
      · exact .inr mem_cons_self
      · exact (ih h).imp_right (mem_cons_of_mem d)

/-! ## No two breaks together -/

/-- No break but the gap, and never two of them together. -/
structure Spaced (p : α → Bool) (gap : α) (xs : List α) : Prop where
  eq_gap : ∀ x ∈ xs, p x = true → x = gap
  single : ¬ [gap, gap] <:+: xs

theorem Spaced.mono {xs ys : List α} (h : Spaced p gap ys) (hwithin : xs <:+: ys) :
    Spaced p gap xs :=
  ⟨fun x hx => h.eq_gap x (hwithin.subset hx), fun hgaps => h.single (hgaps.trans hwithin)⟩

theorem Spaced.of_flatMap {f : α → List α} (hf : ∀ x, p x = true → f x = [x])
    (hgap : p gap = true) (h : Spaced p gap (xs.flatMap f)) : Spaced p gap xs where
  eq_gap x hx hpx := h.eq_gap x (List.mem_flatMap.mpr ⟨x, hx, by simp [hf x hpx]⟩) hpx
  single := by
    rintro ⟨front, back, rfl⟩
    exact h.single ⟨front.flatMap f, back.flatMap f, by simp [hf gap hgap]⟩

theorem glued_of_neg (h : ¬ xs.head?.any p = true) :
    glued p gap xs = [gap].intercalate (wordsBy p xs) := by
  unfold glued
  rw [if_neg fun hboth => h hboth.1, nil_append]

theorem glued_break_break {d e : α} (hd : p d = true) (he : p e = true) (xs : List α) :
    glued p gap (d :: e :: xs) = glued p gap (d :: xs) := by
  rw [glued_cons_break hd, glued_cons_break hd, wordsBy_cons_break he]

theorem glued_break_word {d c : α} (hd : p d = true) (hc : p c = false) (xs : List α) :
    glued p gap (d :: c :: xs) = gap :: c :: glued p gap xs := by
  obtain ⟨word, rest, hwords, -⟩ := wordsBy_cons hc xs
  have hne : wordsBy p (c :: xs) ≠ [] := by
    rw [hwords]
    exact cons_ne_nil _ _
  have hhead : ¬ (c :: xs).head?.any p = true := by
    rw [head?_cons, any_some, hc]
    exact Bool.false_ne_true
  rw [glued_cons_break hd, if_neg hne, ← glued_of_neg hhead, glued_cons_of_neg hc]

theorem head_intercalate {c : α} {xs ys : List α}
    (h : [gap].intercalate (wordsBy p xs) = c :: ys) : p c = false := by
  induction xs with
  | nil => cases h
  | cons d xs ih =>
    by_cases hd : p d = true
    · rw [wordsBy_cons_break hd] at h
      exact ih h
    · have hd : p d = false := eq_false_of_ne_true hd
      obtain ⟨word, rest, hwords, -⟩ := wordsBy_cons hd xs
      rw [hwords] at h
      have hhead : d = c := by
        cases rest with
        | nil => exact (List.cons.inj h).1
        | cons second rest =>
          rw [intercalate_cons_cons] at h
          exact (List.cons.inj h).1
      exact hhead ▸ hd

theorem spaced_glued (hgap : p gap = true) (xs : List α) : Spaced p gap (glued p gap xs) := by
  induction xs with
  | nil => exact ⟨fun x hx => absurd hx not_mem_nil, fun h =>
      cons_ne_nil _ _ (List.infix_nil.mp h)⟩
  | cons c xs ih =>
    by_cases hc : p c = true
    · have htail := ih.mono (intercalate_suffix_glued xs).isInfix
      rw [glued_cons_break hc]
      by_cases hwords : wordsBy p xs = []
      · rw [if_pos hwords]
        exact ⟨fun x hx => absurd hx not_mem_nil, fun h =>
      cons_ne_nil _ _ (List.infix_nil.mp h)⟩
      · rw [if_neg hwords]
        refine ⟨fun x hx hpx => ?_, fun h => ?_⟩
        · rcases List.mem_cons.mp hx with rfl | hx
          · rfl
          · exact htail.eq_gap x hx hpx
        · rcases List.infix_cons_iff.mp h with ⟨rest, hrest⟩ | h
          · have hhead := head_intercalate (List.cons.inj hrest).2.symm
            rw [hgap] at hhead
            cases hhead
          · exact htail.single h
    · have hc : p c = false := eq_false_of_ne_true hc
      rw [glued_cons_of_neg hc]
      refine ⟨fun x hx hpx => ?_, fun h => ?_⟩
      · rcases List.mem_cons.mp hx with rfl | hx
        · rw [hc] at hpx
          cases hpx
        · exact ih.eq_gap x hx hpx
      · rcases List.infix_cons_iff.mp h with ⟨rest, hrest⟩ | h
        · rw [← (List.cons.inj hrest).1, hgap] at hc
          cases hc
        · exact ih.single h

theorem rdropWhile_cons (c : α) (xs : List α) : (c :: xs).rdropWhile p =
    if xs.rdropWhile p = [] then [c].rdropWhile p else c :: xs.rdropWhile p := by
  induction xs using List.reverseRecOn with
  | nil => rfl
  | append_singleton xs d ih =>
    rw [← cons_append, rdropWhile_concat, rdropWhile_concat]
    by_cases hd : p d = true
    · rw [if_pos hd, if_pos hd, ih]
    · have hne : xs ++ [d] ≠ [] := append_ne_nil_of_right_ne_nil xs (cons_ne_nil d [])
      rw [if_neg hd, if_neg hd, if_neg hne]
      rfl

theorem rdropWhile_eq_nil_iff : xs.rdropWhile p = [] ↔ wordsBy p xs = [] := by
  rw [List.rdropWhile_eq_nil_iff, wordsBy_eq_nil_iff]

theorem Spaced.glued_eq (h : Spaced p gap xs) : glued p gap xs = xs.rdropWhile p := by
  induction xs with
  | nil => rfl
  | cons c xs ih =>
    have htail := ih (h.mono (suffix_cons c xs).isInfix)
    rw [rdropWhile_cons]
    by_cases hc : p c = true
    · rw [glued_cons_break hc]
      by_cases hwords : wordsBy p xs = []
      · rw [if_pos hwords, if_pos (rdropWhile_eq_nil_iff.mpr hwords)]
        exact (List.rdropWhile_eq_nil_iff.mpr fun x hx => List.mem_singleton.mp hx ▸ hc).symm
      · have hgap : c = gap := h.eq_gap c mem_cons_self hc
        have hhead : ¬ xs.head?.any p = true := by
          intro hany
          cases xs with
          | nil => cases hany
          | cons d xs =>
            have hd : d = gap := h.eq_gap d (mem_cons_of_mem c mem_cons_self) hany
            refine h.single ⟨[], xs, ?_⟩
            rw [hgap, hd]
            rfl
        rw [if_neg hwords, if_neg (mt rdropWhile_eq_nil_iff.mp hwords), ← htail,
          glued_of_neg hhead, hgap]
    · have hc : p c = false := eq_false_of_ne_true hc
      rw [glued_cons_of_neg hc, htail]
      split
      · rename_i hnil
        rw [hnil]
        have hone : [c].rdropWhile p = [c] := by
          rw [rdropWhile_singleton, hc]
          rfl
        exact hone.symm
      · rfl

theorem Spaced.trimmed_eq (h : Spaced p gap xs) :
    (xs.dropWhile p).rdropWhile p = [gap].intercalate (wordsBy p xs) := by
  have hdrop := h.mono (dropWhile_suffix p (l := xs)).isInfix
  have hhead : ¬ (xs.dropWhile p).head?.any p = true := by
    intro hany
    have hnot := head?_dropWhile_not p xs
    cases hxs : (xs.dropWhile p).head? with
    | none =>
      rw [hxs] at hany
      cases hany
    | some c =>
      have hc : p c = true := by
        rw [hxs] at hany
        exact hany
      rw [hxs] at hnot
      exact Bool.false_ne_true (hnot.symm.trans hc)
  rw [← hdrop.glued_eq, glued_of_neg hhead, wordsBy_dropWhile fun _ hx => hx]

/-! ## Runs of gaps -/

/-- One gap for every run of gaps. -/
def collapseRuns [DecidableEq α] (gap : α) : List α → List α
  | [] => []
  | x :: xs =>
    if x = gap ∧ xs.head? = some gap then collapseRuns gap xs else x :: collapseRuns gap xs

variable [DecidableEq α]

theorem head?_collapseRuns (xs : List α) : (collapseRuns gap xs).head? = xs.head? := by
  induction xs with
  | nil => rfl
  | cons x xs ih =>
    rw [collapseRuns]
    split
    · rename_i hrun
      rw [ih, hrun.2, hrun.1, head?_cons]
    · rfl

theorem wordsBy_collapseRuns (hgap : p gap = true) (xs : List α) :
    wordsBy p (collapseRuns gap xs) = wordsBy p xs := by
  induction xs with
  | nil => rfl
  | cons x xs ih =>
    rw [collapseRuns]
    split
    · rename_i hrun
      rw [ih, hrun.1, wordsBy_cons_break hgap]
    · exact wordsBy_cons_congr (by rw [head?_collapseRuns]) ih x

theorem collapseRuns_subset (xs : List α) : collapseRuns gap xs ⊆ xs := by
  induction xs with
  | nil => exact List.Subset.refl _
  | cons x xs ih =>
    rw [collapseRuns]
    split
    · exact subset_cons_of_subset x ih
    · exact cons_subset_cons x ih

theorem spaced_collapseRuns (h : ∀ x ∈ xs, p x = true → x = gap) :
    Spaced p gap (collapseRuns gap xs) := by
  refine ⟨fun x hx => h x (collapseRuns_subset xs hx), ?_⟩
  induction xs with
  | nil => exact fun hinfix => cons_ne_nil _ _ (List.infix_nil.mp hinfix)
  | cons x xs ih =>
    have hrest := ih fun y hy => h y (mem_cons_of_mem x hy)
    rw [collapseRuns]
    split
    · exact hrest
    · rename_i hrun
      intro hinfix
      rcases List.infix_cons_iff.mp hinfix with ⟨rest, hstart⟩ | hlater
      · refine hrun ⟨(List.cons.inj hstart).1.symm, ?_⟩
        rw [← head?_collapseRuns, ← (List.cons.inj hstart).2]
        rfl
      · exact hrest hlater

end

/-!
## Texts of words with single blanks between them

`spaced words` is the text that joining the words with a blank gives. It begins and ends with
a word, its only white space are the blanks, and no two of them are adjacent.
-/

namespace Text

def spaced (words : List (List Char)) : List Char := [' '].intercalate words

theorem spaced_singleton (word : List Char) : spaced [word] = word := intercalate_singleton

theorem spaced_cons_cons (first second : List Char) (rest : List (List Char)) :
    spaced (first :: second :: rest) = first ++ ' ' :: spaced (second :: rest) := by
  rw [spaced, intercalate_cons_cons, append_assoc, singleton_append]
  rfl

variable {words : List (List Char)} {word : List Char}

theorem IsWords.head (h : IsWords (word :: words)) :
    word ≠ [] ∧ ∀ c ∈ word, isWhitespace c = false :=
  h word mem_cons_self

theorem IsWords.tail (h : IsWords (word :: words)) : IsWords words :=
  fun w hw => h w (mem_cons_of_mem word hw)

theorem isWords_wordsBy (cs : List Char) : IsWords (wordsBy isWhitespace cs) :=
  words_of_splitOnP cs

theorem wordsBy_spaced (h : IsWords words) : wordsBy isWhitespace (spaced words) = words :=
  splitOnP_intercalate_space h

theorem map_spaced {f : Char → Char} (hf : f ' ' = ' ') (words : List (List Char)) :
    (spaced words).map f = spaced (words.map (List.map f)) := by
  induction words with
  | nil => rfl
  | cons first rest ih =>
    cases rest with
    | nil => rw [spaced_singleton, map_singleton, spaced_singleton]
    | cons second rest =>
      rw [map_cons] at ih
      rw [spaced_cons_cons, map_append, map_cons, hf, ih, map_cons, map_cons,
        spaced_cons_cons]

theorem spaced_flatMap {f : Char → List Char} (hf : f ' ' = [' ']) (words : List (List Char)) :
    (spaced words).flatMap f = spaced (words.map (List.flatMap f)) := by
  induction words with
  | nil => rfl
  | cons first rest ih =>
    cases rest with
    | nil => simp [spaced_singleton]
    | cons second rest =>
      rw [map_cons] at ih
      rw [spaced_cons_cons, flatMap_append, flatMap_cons, hf, ih, map_cons,
        map_cons, spaced_cons_cons, singleton_append]

theorem IsWords.flatMap {f : Char → List Char}
    (hf : ∀ c, isWhitespace c = false → f c ≠ [] ∧ ∀ d ∈ f c, isWhitespace d = false)
    (h : IsWords words) : IsWords (words.map (List.flatMap f)) := by
  intro w hw
  obtain ⟨word, hword, rfl⟩ := List.mem_map.mp hw
  obtain ⟨hne, hletters⟩ := h word hword
  constructor
  · obtain ⟨c, hc⟩ := exists_mem_of_ne_nil word hne
    rw [ne_eq, flatMap_eq_nil_iff]
    exact fun hnil => (hf c (hletters c hc)).1 (hnil c hc)
  · intro d hd
    obtain ⟨c, hc, hdc⟩ := List.mem_flatMap.mp hd
    exact (hf c (hletters c hc)).2 d hdc

theorem spaced_injective {others : List (List Char)} (h : IsWords words) (hothers : IsWords others)
    (heq : spaced words = spaced others) : words = others := by
  rw [← wordsBy_spaced h, heq, wordsBy_spaced hothers]

theorem spaced_append {front back : List (List Char)} (hfront : front ≠ []) (hback : back ≠ []) :
    spaced (front ++ back) = spaced front ++ ' ' :: spaced back := by
  induction front with
  | nil => exact absurd rfl hfront
  | cons first rest ih =>
    cases rest with
    | nil =>
      obtain ⟨second, more, rfl⟩ := exists_cons_of_ne_nil hback
      rw [singleton_append, spaced_cons_cons, spaced_singleton]
    | cons second rest =>
      have hrest := ih (cons_ne_nil second rest)
      rw [cons_append] at hrest
      rw [cons_append, cons_append, spaced_cons_cons, hrest, spaced_cons_cons,
        append_assoc, cons_append]

theorem head?_spaced (h : IsWords words) {c : Char} (hc : c ∈ (spaced words).head?) :
    isWhitespace c = false := by
  cases words with
  | nil => cases hc
  | cons first rest =>
    obtain ⟨hne, hplain⟩ := h.head
    obtain ⟨d, ds, rfl⟩ := exists_cons_of_ne_nil hne
    have hd : c = d := by
      cases rest with
      | nil => exact (Option.some.inj hc).symm
      | cons second rest =>
        rw [spaced_cons_cons] at hc
        exact (Option.some.inj hc).symm
    rw [hd]
    exact hplain d mem_cons_self

theorem getLast?_spaced (h : IsWords words) {c : Char} (hc : c ∈ (spaced words).getLast?) :
    isWhitespace c = false := by
  induction words with
  | nil => cases hc
  | cons first rest ih =>
    cases rest with
    | nil =>
      rw [spaced_singleton] at hc
      exact h.head.2 c (mem_of_getLast? hc)
    | cons second rest =>
      have hne : spaced (second :: rest) ≠ [] := by
        intro hnil
        have hwords := wordsBy_spaced h.tail
        rw [hnil] at hwords
        cases hwords
      rw [spaced_cons_cons, getLast?_append_cons, getLast?_cons_of_ne_nil hne] at hc
      exact ih h.tail hc

theorem trimChars_spaced (h : IsWords words) : trimChars (spaced words) = spaced words := by
  unfold trimChars
  rw [dropWhile_eq_self_of_head fun c hc => head?_spaced h hc, rdropWhile_eq_self_iff]
  intro hne
  rw [getLast?_spaced h (getLast?_eq_some_getLast hne)]
  decide

theorem mem_dropLast_of_infix (h : IsWords words) (hne : word ≠ [])
    (hplain : ∀ c ∈ word, isWhitespace c = false)
    (hin : ' ' :: (word ++ [' ']) <:+: spaced words) : word ∈ words.dropLast := by
  obtain ⟨before, after, heq⟩ := hin
  have hblank : isWhitespace ' ' = true := by decide
  have hparts : words = wordsBy isWhitespace before ++ [word] ++ wordsBy isWhitespace after := by
    have hrest : wordsBy isWhitespace (word ++ ' ' :: after) =
        [word] ++ wordsBy isWhitespace after := by
      rw [wordsBy_append_break hblank, wordsBy_of_forall hne hplain]
    rw [← wordsBy_spaced h, ← heq, append_assoc, cons_append, append_assoc,
      singleton_append, wordsBy_append_break hblank, hrest, append_assoc]
  have hafter : wordsBy isWhitespace after ≠ [] := by
    intro hnil
    have hwhite := wordsBy_eq_nil_iff.mp hnil
    have hlast : ∃ c ∈ (spaced words).getLast?, isWhitespace c = true := by
      have htail : ∃ c ∈ (' ' :: after).getLast?, isWhitespace c = true := by
        refine ⟨_, getLast?_eq_some_getLast (cons_ne_nil ' ' after), ?_⟩
        rcases List.mem_cons.mp (getLast_mem (cons_ne_nil ' ' after)) with hc | hc
        · rw [hc]
          exact hblank
        · exact hwhite _ hc
      rw [← heq, append_assoc, cons_append, append_assoc, singleton_append,
        ← cons_append, ← append_assoc, getLast?_append_cons]
      exact htail
    obtain ⟨c, hc, hblankc⟩ := hlast
    rw [getLast?_spaced h hc] at hblankc
    cases hblankc
  rw [hparts, dropLast_append_of_ne_nil hafter]
  exact mem_append_left _ (mem_append_right _ (List.mem_singleton.mpr rfl))

theorem splitOnce_spaced {front back : List (List Char)} (h : IsWords (front ++ word :: back))
    (hfront : front ≠ []) (hback : back ≠ []) (hfirst : word ∉ front) :
    splitOnce (' ' :: (word ++ [' '])) (spaced (front ++ word :: back)) =
      some (spaced front, spaced back) := by
  obtain ⟨hne, hplain⟩ := h word (mem_append_right _ mem_cons_self)
  have hwords : IsWords (front ++ [word]) := by
    intro w hw
    refine h w ?_
    rcases List.mem_append.mp hw with hw | hw
    · exact mem_append_left _ hw
    · exact mem_append_right _ (List.mem_singleton.mp hw ▸ mem_cons_self)
  have hnot : ¬ ' ' :: (word ++ [' ']) <:+: spaced front ++ (' ' :: (word ++ [' '])).dropLast := by
    intro hinfix
    have hlong : (' ' :: (word ++ [' '])).dropLast = ' ' :: spaced [word] := by
      rw [spaced_singleton, ← cons_append, dropLast_concat]
    rw [hlong, ← spaced_append hfront (cons_ne_nil word [])] at hinfix
    have hmem := mem_dropLast_of_infix hwords hne hplain hinfix
    rw [dropLast_concat] at hmem
    exact hfirst hmem
  have htext : spaced (front ++ word :: back) =
      spaced front ++ (' ' :: (word ++ [' '])) ++ spaced back := by
    have hrest : spaced (word :: back) = word ++ ' ' :: spaced back := by
      have hcut := spaced_append (cons_ne_nil word []) hback
      rwa [singleton_append, spaced_singleton] at hcut
    rw [spaced_append hfront (cons_ne_nil word back), hrest]
    simp
  rw [htext]
  exact splitOnce_append _ hnot (cons_ne_nil _ _)

theorem gaps_spaced (h : IsWords words) : Spaced isWhitespace ' ' (spaced words) := by
  have hblank : isWhitespace ' ' = true := by decide
  have hglued := (spaced_glued hblank (spaced words)).mono
    (intercalate_suffix_glued (spaced words)).isInfix
  rw [wordsBy_spaced h] at hglued
  exact hglued

end Text

end GenieClaw.Library
