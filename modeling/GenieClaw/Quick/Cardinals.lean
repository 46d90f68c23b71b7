import GenieClaw.Quick.NumberWords

/-!
# English cardinals

The cardinals below a million as English writes them, and that `parse_spoken_number` reads them.

* `spokenLoop_stops`, `parseSpokenNumber_stops`: a cardinal is read to its value, and no further.
-/

namespace GenieClaw.Quick

open Library Library.Text List Option

/-! ## The grammar -/

def digitNames : List (String × Nat) :=
  [("one", 1), ("two", 2), ("three", 3), ("four", 4), ("five", 5), ("six", 6), ("seven", 7),
    ("eight", 8), ("nine", 9)]

def teenNames : List (String × Nat) :=
  [("ten", 10), ("eleven", 11), ("twelve", 12), ("thirteen", 13), ("fourteen", 14),
    ("fifteen", 15), ("sixteen", 16), ("seventeen", 17), ("eighteen", 18), ("nineteen", 19)]

def tenNames : List (String × Nat) :=
  [("twenty", 20), ("thirty", 30), ("forty", 40), ("fifty", 50), ("sixty", 60), ("seventy", 70),
    ("eighty", 80), ("ninety", 90)]

inductive UnderHundred : List String → Nat → Prop
  | single {word : String} {n : Nat} (h : (word, n) ∈ digitNames ++ teenNames ++ tenNames) :
      UnderHundred [word] n
  | compound {ten digit : String} {n m : Nat} (hten : (ten, n) ∈ tenNames)
      (hdigit : (digit, m) ∈ digitNames) : UnderHundred [ten, digit] (n + m)

inductive UnderThousand : List String → Nat → Prop
  | under {words : List String} {n : Nat} (h : UnderHundred words n) : UnderThousand words n
  | hundreds {word : String} {n : Nat} (h : (word, n) ∈ ("a", 1) :: digitNames) :
      UnderThousand [word, "hundred"] (n * 100)
  | more {word : String} {link words : List String} {n m : Nat}
      (h : (word, n) ∈ ("a", 1) :: digitNames) (hlink : link = [] ∨ link = ["and"])
      (hrest : UnderHundred words m) :
      UnderThousand ([word, "hundred"] ++ (link ++ words)) (n * 100 + m)

/-- The thousands in front of the word `thousand`. -/
inductive Thousands : List String → Nat → Prop
  | article : Thousands ["a"] 1
  | number {words : List String} {n : Nat} (h : UnderThousand words n) : Thousands words n

/-- The cardinals below a million. -/
inductive Cardinal : List String → Nat → Prop
  | zero : Cardinal ["zero"] 0
  | under {words : List String} {n : Nat} (h : UnderThousand words n) : Cardinal words n
  | thousands {words : List String} {n : Nat} (h : Thousands words n) :
      Cardinal (words ++ ["thousand"]) (n * 1000)
  | more {front link words : List String} {n m : Nat} (h : Thousands front n)
      (hlink : link = [] ∨ link = ["and"]) (hrest : UnderThousand words m) :
      Cardinal (front ++ "thousand" :: (link ++ words)) (n * 1000 + m)

/-! ## Single words -/

theorem not_cardinal_and : cardinalWord "and" = none := by decide

variable {n : Nat} {word : String}

theorem cardinalWord_of_mem (h : (word, n) ∈ ("a", 1) :: (digitNames ++ teenNames ++ tenNames)) :
    cardinalWord word = some (.value n) := by
  have hall : ∀ entry ∈ ("a", 1) :: (digitNames ++ teenNames ++ tenNames),
      cardinalWord entry.1 = some (.value entry.2) := by decide
  exact hall _ h

theorem le_of_mem (h : (word, n) ∈ ("a", 1) :: (digitNames ++ teenNames ++ tenNames)) :
    1 ≤ n ∧ n ≤ 90 := by
  have hall : ∀ entry ∈ ("a", 1) :: (digitNames ++ teenNames ++ tenNames),
      1 ≤ entry.2 ∧ entry.2 ≤ 90 := by decide
  exact hall _ h

theorem parseUnsigned_of_cardinal {c : CardinalWord} (h : cardinalWord word = some c) :
    parseUnsigned 10 64 word = none := by
  have hall : ∀ entry ∈ cardinalWords, parseUnsigned 10 64 entry.1 = none := by decide
  obtain ⟨entry, hentry, hword⟩ : ∃ entry ∈ cardinalWords, entry.1 = word := by
    unfold cardinalWord at h
    obtain ⟨l₁, l₂, heq, -⟩ := List.lookup_eq_some_iff.mp h
    exact ⟨(word, c), by rw [heq]; simp, rfl⟩
  rw [← hword]
  exact hall entry hentry

/-! ## The loop, word by word -/

variable {s : SpokenState} {rest : List String}

theorem spokenLoop_word {c : CardinalWord} (h : cardinalWord word = some c) :
    spokenLoop s (word :: rest) = spokenLoop (s.read c) rest := by
  have hand : word ≠ "and" := by
    rintro rfl
    rw [not_cardinal_and] at h
    cases h
  rw [spokenLoop, if_neg fun hlink => hand hlink.2.1, h]

/-- The words go on with a number, or with `and` and a number. -/
def goesOn (words : List String) : Bool :=
  (words.head?.bind cardinalWord).isSome ||
    (words.head? = some "and" && (words.tail.head?.bind cardinalWord).isSome)

theorem spokenLoop_and (hmatched : s.matched = true)
    (h : (rest.head?.bind cardinalWord).isSome = true) :
    spokenLoop s ("and" :: rest) = spokenLoop { s with index := s.index + 1 } rest := by
  rw [spokenLoop, if_pos ⟨hmatched, rfl, h⟩]

theorem spokenLoop_end (h : goesOn rest = false) : spokenLoop s rest = s := by
  cases rest with
  | nil => rfl
  | cons token rest =>
    unfold goesOn at h
    rw [Bool.or_eq_false_iff] at h
    obtain ⟨hword, hlink⟩ := h
    rw [head?_cons, bind_some, isSome_eq_false_iff, isNone_iff_eq_none]
      at hword
    rw [spokenLoop, if_neg, hword]
    rintro ⟨-, rfl, hnext⟩
    rw [head?_cons, tail_cons, hnext] at hlink
    exact absurd hlink (by decide)

/-! ## Cardinals are read -/

theorem saturated_eq (h : n < 2 ^ 64) : saturated n = n := by
  unfold saturated
  omega

def leadWords : List String :=
  "zero" :: "a" :: (digitNames ++ teenNames ++ tenNames).map Prod.fst

/-- The words begin like a cardinal. -/
def Leads (words : List String) : Prop := ∃ word ∈ leadWords, words.head? = some word

variable {words : List String}

theorem Leads.isSome (h : Leads words) : (words.head?.bind cardinalWord).isSome = true := by
  have hall : ∀ word ∈ leadWords, (cardinalWord word).isSome = true := by decide
  obtain ⟨word, hword, hhead⟩ := h
  rw [hhead]
  exact hall word hword

theorem Leads.append (h : Leads words) (rest : List String) : Leads (words ++ rest) := by
  cases words with
  | nil =>
    obtain ⟨word, -, hhead⟩ := h
    cases hhead
  | cons word words => exact h

theorem leads_of_mem {rest : List String}
    (h : (word, n) ∈ ("a", 1) :: (digitNames ++ teenNames ++ tenNames)) : Leads (word :: rest) :=
  ⟨word, mem_cons_of_mem _ (List.mem_map_of_mem (f := Prod.fst) h), rfl⟩

theorem mem_names_of_mem_lead (h : (word, n) ∈ ("a", 1) :: digitNames) :
    (word, n) ∈ ("a", 1) :: (digitNames ++ teenNames ++ tenNames) := by
  rcases List.mem_cons.mp h with h | h
  · exact h ▸ mem_cons_self
  · exact mem_cons_of_mem _ (mem_append_left _ (mem_append_left _ h))

theorem UnderHundred.leads (h : UnderHundred words n) : Leads words := by
  cases h with
  | single h => exact leads_of_mem (mem_cons_of_mem _ h)
  | compound hten hdigit =>
    exact leads_of_mem (mem_cons_of_mem _ (mem_append_right _ hten))

theorem UnderHundred.pos (h : UnderHundred words n) : 1 ≤ n ∧ n < 100 := by
  cases h with
  | single h =>
    have := le_of_mem (mem_cons_of_mem _ h)
    omega
  | compound hten hdigit =>
    have hlow := (le_of_mem (mem_cons_of_mem _ (mem_append_right _ hten))).2
    have hall : ∀ entry ∈ digitNames, 1 ≤ entry.2 ∧ entry.2 ≤ 9 := by decide
    have := hall _ hdigit
    omega

theorem UnderHundred.read (h : UnderHundred words n) (hgroup : s.group < 2 ^ 63) :
    spokenLoop s (words ++ rest) = spokenLoop { s with
      group := s.group + n, index := s.index + words.length, matched := true } rest := by
  have hvalue : ∀ (s : SpokenState) (n : Nat), s.group < 2 ^ 63 + 100 → n < 100 →
      s.read (.value n) =
        { s with group := s.group + n, index := s.index + 1, matched := true } := by
    intro s n hs hn
    rw [SpokenState.read, saturated_eq (by omega)]
  cases h with
  | single h =>
    have hle := le_of_mem (mem_cons_of_mem _ h)
    rw [singleton_append, spokenLoop_word (cardinalWord_of_mem (mem_cons_of_mem _ h)),
      hvalue s n (by omega) (by omega), length_singleton]
  | compound hten hdigit =>
    have hten' := cardinalWord_of_mem (mem_cons_of_mem _ (mem_append_right _ hten))
    have hdigit' := cardinalWord_of_mem (mem_cons_of_mem _
      (mem_append_left tenNames (mem_append_left teenNames hdigit)))
    have hle := le_of_mem (mem_cons_of_mem _ (mem_append_right _ hten))
    have hle' := le_of_mem (mem_cons_of_mem _
      (mem_append_left tenNames (mem_append_left teenNames hdigit)))
    rw [cons_append, singleton_append, spokenLoop_word hten', spokenLoop_word hdigit',
      hvalue s _ (by omega) (by omega), hvalue _ _ (by dsimp only; omega) (by omega)]
    dsimp only [length_cons, length_nil]
    rw [Nat.add_assoc, Nat.add_assoc]

theorem spokenLoop_link {link : List String} (hlink : link = [] ∨ link = ["and"])
    (hmatched : s.matched = true) (h : (rest.head?.bind cardinalWord).isSome = true) :
    spokenLoop s (link ++ rest) = spokenLoop { s with index := s.index + link.length } rest := by
  rcases hlink with rfl | rfl
  · rfl
  · rw [singleton_append, spokenLoop_and hmatched h, length_singleton]

theorem spokenLoop_hundred (h : (word, n) ∈ ("a", 1) :: digitNames) (hgroup : s.group = 0) :
    spokenLoop s (word :: "hundred" :: rest) = spokenLoop { s with
      group := n * 100, index := s.index + 2, matched := true } rest := by
  have hmem := mem_names_of_mem_lead h
  have hle := le_of_mem hmem
  have hhundred : cardinalWord "hundred" = some .hundred := by decide
  rw [spokenLoop_word (cardinalWord_of_mem hmem), spokenLoop_word hhundred]
  unfold SpokenState.read
  dsimp only
  have hlead : saturated n = n := saturated_eq (by omega)
  rw [hgroup, Nat.zero_add, hlead, Nat.max_eq_left hle.1, saturated_eq (by omega)]

theorem UnderThousand.read (h : UnderThousand words n) (hgroup : s.group = 0) :
    spokenLoop s (words ++ rest) = spokenLoop { s with
      group := n, index := s.index + words.length, matched := true } rest := by
  cases h with
  | under h =>
    rw [h.read (by omega), hgroup, Nat.zero_add]
  | hundreds h =>
    rw [cons_append, singleton_append, spokenLoop_hundred h hgroup]
    rfl
  | more h hlink hrest =>
    rename_i word link words n m
    have hle : n ≤ 90 := (le_of_mem (mem_names_of_mem_lead h)).2
    rw [append_assoc, append_assoc, cons_append, singleton_append,
      spokenLoop_hundred h hgroup, spokenLoop_link hlink rfl (hrest.leads.append rest).isSome,
      hrest.read (by dsimp only; omega)]
    refine congrArg (fun i => spokenLoop ⟨s.total, n * 100 + m, i, true⟩ rest) ?_
    simp only [length_append, length_cons, length_nil]
    omega

theorem Thousands.read (h : Thousands words n) (hgroup : s.group = 0) :
    spokenLoop s (words ++ rest) = spokenLoop { s with
      group := n, index := s.index + words.length, matched := true } rest := by
  cases h with
  | article =>
    have ha : cardinalWord "a" = some (.value 1) := by decide
    rw [singleton_append, spokenLoop_word ha]
    unfold SpokenState.read
    dsimp only
    rw [hgroup, saturated_eq (by omega)]
    rfl
  | number h => exact h.read hgroup

theorem UnderThousand.lt (h : UnderThousand words n) : 1 ≤ n ∧ n < 1000 := by
  have hdigits : ∀ entry ∈ ("a", 1) :: digitNames, 1 ≤ entry.2 ∧ entry.2 ≤ 9 := by decide
  cases h with
  | under h =>
    have := h.pos
    omega
  | hundreds h =>
    have := hdigits _ h
    omega
  | more h hlink hrest =>
    have := hdigits _ h
    have := hrest.pos
    omega

theorem Thousands.lt (h : Thousands words n) : 1 ≤ n ∧ n < 1000 := by
  cases h with
  | article => decide
  | number h => exact h.lt

theorem UnderThousand.leads (h : UnderThousand words n) : Leads words := by
  cases h with
  | under h => exact h.leads
  | hundreds h => exact leads_of_mem (mem_names_of_mem_lead h)
  | more h hlink hrest => exact leads_of_mem (mem_names_of_mem_lead h)

theorem Thousands.leads (h : Thousands words n) : Leads words := by
  cases h with
  | article => exact ⟨"a", by decide, rfl⟩
  | number h => exact h.leads

theorem Cardinal.leads (h : Cardinal words n) : Leads words := by
  cases h with
  | zero => exact ⟨"zero", by decide, rfl⟩
  | under h => exact h.leads
  | thousands h => exact h.leads.append _
  | more h hlink hrest => exact h.leads.append _

theorem Cardinal.ne_nil (h : Cardinal words n) : words ≠ [] := by
  rintro rfl
  obtain ⟨word, -, hhead⟩ := h.leads
  cases hhead

theorem spokenLoop_thousand (htotal : s.total = 0) (hgroup : 1 ≤ s.group ∧ s.group < 1000) :
    spokenLoop s ("thousand" :: rest) = spokenLoop
      { total := s.group * 1000, index := s.index + 1, matched := true } rest := by
  have hthousand : cardinalWord "thousand" = some .thousand := by decide
  rw [spokenLoop_word hthousand]
  unfold SpokenState.read
  dsimp only
  have hthousands : saturated (s.group * 1000) = s.group * 1000 := saturated_eq (by omega)
  rw [htotal, Nat.zero_add, Nat.max_eq_left hgroup.1, hthousands, hthousands]

theorem Cardinal.read (h : Cardinal words n) (index : Nat) :
    ∃ total group, total + group = n ∧ n < 2 ^ 64 ∧ ∀ rest,
      spokenLoop { index } (words ++ rest) =
        spokenLoop ⟨total, group, index + words.length, true⟩ rest := by
  cases h with
  | zero =>
    have hzero : cardinalWord "zero" = some (.value 0) := by decide
    exact ⟨0, 0, rfl, by decide, fun rest => spokenLoop_word hzero⟩
  | under h =>
    have := h.lt
    exact ⟨0, n, Nat.zero_add n, by omega, fun rest => h.read rfl⟩
  | thousands h =>
    rename_i words n
    have hlt := h.lt
    refine ⟨n * 1000, 0, Nat.add_zero _, by omega, fun rest => ?_⟩
    rw [append_assoc, singleton_append, h.read rfl, spokenLoop_thousand rfl hlt,
      length_append, length_singleton, Nat.add_assoc]
  | more h hlink hrest =>
    rename_i front link words n m
    have hlt := h.lt
    have hlt' := hrest.lt
    refine ⟨n * 1000, m, rfl, by omega, fun rest => ?_⟩
    rw [append_assoc, cons_append, append_assoc, h.read rfl,
      spokenLoop_thousand rfl hlt, spokenLoop_link hlink rfl (hrest.leads.append rest).isSome,
      hrest.read rfl]
    refine congrArg (fun i => spokenLoop ⟨n * 1000, m, i, true⟩ rest) ?_
    simp only [length_append, length_cons]
    omega

theorem Cardinal.parse (h : Cardinal words n) {tokens rest : List String} {start : Nat}
    (htokens : tokens.drop start = words ++ rest) (hrest : goesOn rest = false) :
    parseSpokenNumber tokens start = some (n, start + words.length) := by
  obtain ⟨total, group, hsum, hlt, hread⟩ := h.read start
  have hfirst : tokens[start]?.bind (parseUnsigned 10 64) = none := by
    rw [← head?_drop, htokens]
    obtain ⟨word, hword, hhead⟩ := h.leads.append rest
    have hcount := (h.leads.append rest).isSome
    rw [hhead, bind_some] at hcount ⊢
    obtain ⟨c, hc⟩ := Option.isSome_iff_exists.mp hcount
    exact parseUnsigned_of_cardinal hc
  unfold parseSpokenNumber
  rw [hfirst, htokens]
  dsimp only
  rw [hread, spokenLoop_end hrest, if_pos rfl]
  dsimp only
  rw [hsum, saturated_eq hlt]

/-! ## Where a reading stops -/

theorem spokenLoop_stops (hword : cardinalWord word = none)
    (hand : word = "and" → (rest.head?.bind cardinalWord).isSome = false) (before : List String) :
    (spokenLoop s (before ++ word :: rest)).index ≤ s.index + before.length := by
  induction before generalizing s with
  | nil =>
    rw [nil_append, spokenLoop, if_neg, hword]
    · exact Nat.le_refl _
    · rintro ⟨-, rfl, hnext⟩
      rw [hand rfl] at hnext
      cases hnext
  | cons token before ih =>
    rw [cons_append, spokenLoop, length_cons]
    split
    · have hrest := @ih { s with index := s.index + 1 }
      dsimp only at hrest
      omega
    · split
      · omega
      · rename_i c _
        have hindex : (s.read c).index = s.index + 1 := by
          cases c with
          | value n => rfl
          | hundred => rfl
          | thousand => rfl
        have hrest := @ih (s.read c)
        omega

theorem parseSpokenNumber_stops (hword : cardinalWord word = none)
    (hand : word = "and" → (rest.head?.bind cardinalWord).isSome = false)
    {tokens before : List String} {start n stop : Nat}
    (htokens : tokens.drop start = before ++ word :: rest)
    (h : parseSpokenNumber tokens start = some (n, stop)) :
    stop ≤ start + before.length ∨ (before = [] ∧ stop = start + 1) := by
  unfold parseSpokenNumber at h
  split at h
  · cases h
    cases before with
    | nil => exact Or.inr ⟨rfl, rfl⟩
    | cons token before =>
      rw [length_cons]
      omega
  · dsimp only at h
    split at h
    · cases h
      rw [htokens]
      exact Or.inl (spokenLoop_stops hword hand before)
    · cases h

theorem parseSpokenNumber_eq_none (hword : cardinalWord word = none)
    (hdigits : parseUnsigned 10 64 word = none) {tokens : List String} {start : Nat}
    (htokens : tokens.drop start = word :: rest) : parseSpokenNumber tokens start = none := by
  unfold parseSpokenNumber
  rw [← head?_drop, htokens, head?_cons, bind_some, hdigits]
  have hloop : spokenLoop { index := start } (word :: rest) = { index := start } := by
    rw [spokenLoop, if_neg, hword]
    rintro ⟨⟨⟩, -⟩
  dsimp only
  rw [hloop, if_neg Bool.false_ne_true]

/-- The words that something else follows at once: an article or another number, also with `and`
behind it, would be read as a part of it. -/
def Detached (front : List String) : Prop :=
  (∀ word ∈ front.getLast?, cardinalWord word = none) ∧
    (front.getLast? = some "and" → ∀ word ∈ front.dropLast.getLast?, cardinalWord word = none)

theorem Detached.stops {front : List String} (h : Detached front) {tokens : List String}
    {start n stop : Nat} (hstart : start < front.length) (htokens : tokens = front ++ rest)
    (hparse : parseSpokenNumber tokens start = some (n, stop)) : stop ≤ front.length := by
  obtain ⟨hlast, hand⟩ := h
  rcases eq_nil_or_concat front with rfl | ⟨before, word, rfl⟩
  · exact absurd hstart (Nat.not_lt_zero _)
  rw [concat_eq_append] at *
  rw [getLast?_append, getLast?_singleton, some_or] at hlast hand
  rw [dropLast_concat] at hand
  have hword := hlast word rfl
  rw [length_append, length_singleton] at hstart ⊢
  have hdrop : tokens.drop start = before.drop start ++ word :: rest := by
    rw [htokens, append_assoc, singleton_append, drop_append_of_le_length (by omega)]
  by_cases hlink : word = "and"
  · subst hlink
    rcases Nat.lt_or_ge start before.length with hbefore | hbefore
    · rcases eq_nil_or_concat before with rfl | ⟨earlier, previous, rfl⟩
      · exact absurd hbefore (Nat.not_lt_zero _)
      rw [concat_eq_append] at *
      rw [length_append, length_singleton] at hbefore ⊢
      have hprevious := hand rfl previous (by
        rw [getLast?_append, getLast?_singleton, some_or]
        rfl)
      rw [drop_append_of_le_length (by omega), append_assoc, singleton_append]
        at hdrop
      have hstop := parseSpokenNumber_stops hprevious (fun _ => rfl) hdrop hparse
      rw [length_drop] at hstop
      omega
    · -- nothing has been read before this `and`
      rw [drop_eq_nil_of_le hbefore, nil_append] at hdrop
      rw [parseSpokenNumber_eq_none hword (by decide) hdrop] at hparse
      cases hparse
  · have hstop := parseSpokenNumber_stops hword (fun h => absurd h hlink) hdrop hparse
    rw [length_drop] at hstop
    omega

end GenieClaw.Quick
