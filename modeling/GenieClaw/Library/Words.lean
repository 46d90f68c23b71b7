import GenieClaw.Library.Text

/-!
# The words between breaks

The pieces that are left when a list is cut at its breaks and the empty pieces are dropped.
Everything here follows from one equation, `wordsBy_append_break`: a break in the middle cuts the
list in two.

* `wordsBy_append_break`: a break in the middle cuts the list in two.
-/

namespace GenieClaw.Library

open List Option
section

variable {α : Type} {p q : α → Bool}

def wordsBy (p : α → Bool) (xs : List α) : List (List α) :=
  (xs.splitOnP p).filter fun w => !w.isEmpty

theorem wordsBy_nil : wordsBy p [] = [] := rfl

variable {d : α}

theorem wordsBy_append_break (hd : p d = true) (xs ys : List α) :
    wordsBy p (xs ++ d :: ys) = wordsBy p xs ++ wordsBy p ys := by
  unfold wordsBy
  rw [splitOnP_append_cons xs ys hd, filter_append]

theorem wordsBy_cons_break (hd : p d = true) (xs : List α) :
    wordsBy p (d :: xs) = wordsBy p xs := by
  have h := wordsBy_append_break hd [] xs
  rwa [wordsBy_nil, nil_append, nil_append] at h

theorem wordsBy_concat_break (hd : p d = true) (xs : List α) :
    wordsBy p (xs ++ [d]) = wordsBy p xs := by
  rw [wordsBy_append_break hd, wordsBy_nil, append_nil]

variable {xs : List α}

theorem wordsBy_of_forall (hne : xs ≠ []) (h : ∀ x ∈ xs, p x = false) : wordsBy p xs = [xs] := by
  unfold wordsBy
  rw [splitOnP_eq_singleton h, filter_cons, if_pos (by simpa using hne), filter_nil]

theorem wordsBy_dropWhile (hpq : ∀ x, q x = true → p x = true) (xs : List α) :
    wordsBy p (xs.dropWhile q) = wordsBy p xs := by
  induction xs with
  | nil => rfl
  | cons x rest ih =>
    rw [dropWhile_cons]
    split
    · rename_i hx
      rw [ih, wordsBy_cons_break (hpq x hx)]
    · rfl

theorem wordsBy_rdropWhile (hpq : ∀ x, q x = true → p x = true) (xs : List α) :
    wordsBy p (xs.rdropWhile q) = wordsBy p xs := by
  induction xs using List.reverseRecOn with
  | nil => rfl
  | append_singleton rest x ih =>
    by_cases hx : q x = true
    · rw [rdropWhile_concat_pos _ _ _ hx, ih, wordsBy_concat_break (hpq x hx)]
    · rw [rdropWhile_concat_neg _ _ _ hx]

theorem wordsBy_intercalate (hd : p d = true) (pieces : List (List α)) :
    wordsBy p ([d].intercalate pieces) = pieces.flatMap (wordsBy p) := by
  induction pieces with
  | nil => rfl
  | cons first rest ih =>
    cases rest with
    | nil => rw [intercalate_singleton, flatMap_singleton]
    | cons second rest =>
      rw [intercalate_cons_cons, append_assoc, singleton_append,
        wordsBy_append_break hd, ih, flatMap_cons (x := first)]

theorem wordsBy_intercalate_words (hd : p d = true) {words : List (List α)}
    (h : ∀ w ∈ words, w ≠ [] ∧ ∀ x ∈ w, p x = false) :
    wordsBy p ([d].intercalate words) = words := by
  rw [wordsBy_intercalate hd]
  induction words with
  | nil => rfl
  | cons first rest ih =>
    obtain ⟨hne, hfirst⟩ := h first mem_cons_self
    rw [flatMap_cons, wordsBy_of_forall hne hfirst,
      ih fun w hw => h w (mem_cons_of_mem first hw), singleton_append]

theorem wordsBy_flatMap_splitOnP_append (hpq : ∀ x, q x = true → p x = true) {pre : List α}
    (hpre : ∀ x ∈ pre, q x = false) (xs : List α) :
    ((pre ++ xs).splitOnP q).flatMap (wordsBy p) = wordsBy p (pre ++ xs) := by
  induction xs generalizing pre with
  | nil =>
    rw [append_nil, splitOnP_eq_singleton hpre, flatMap_singleton]
  | cons x rest ih =>
    by_cases hx : q x = true
    · have hrest := ih fun y (hy : y ∈ []) => absurd hy not_mem_nil
      rw [nil_append] at hrest
      rw [splitOnP_append_cons_of_forall_mem hpre x hx, flatMap_cons, hrest,
        wordsBy_append_break (hpq x hx)]
    · have hconcat : ∀ y ∈ pre ++ [x], q y = false := by
        intro y hy
        rcases List.mem_append.mp hy with hy | hy
        · exact hpre y hy
        · rw [List.mem_singleton.mp hy]
          exact eq_false_of_ne_true hx
      have hrest := ih hconcat
      rwa [append_assoc, singleton_append] at hrest

theorem wordsBy_flatMap_splitOnP (hpq : ∀ x, q x = true → p x = true) (xs : List α) :
    (xs.splitOnP q).flatMap (wordsBy p) = wordsBy p xs :=
  wordsBy_flatMap_splitOnP_append hpq (fun _ hx => absurd hx not_mem_nil) xs

theorem wordsBy_flatMap_filter (pieces : List (List α)) :
    (pieces.filter fun w => !w.isEmpty).flatMap (wordsBy p) = pieces.flatMap (wordsBy p) := by
  induction pieces with
  | nil => rfl
  | cons first rest ih =>
    rw [filter_cons]
    cases first with
    | nil =>
      rw [isEmpty_nil, Bool.not_true, if_neg Bool.false_ne_true, ih, flatMap_cons,
        wordsBy_nil, nil_append]
    | cons x xs =>
      rw [isEmpty_cons, Bool.not_false, if_pos rfl, flatMap_cons, flatMap_cons, ih]

theorem wordsBy_cons_cons {c d : α} (hc : p c = false) (hd : p d = false) (xs : List α) :
    ∃ word rest, wordsBy p (d :: xs) = word :: rest ∧
      wordsBy p (c :: d :: xs) = (c :: word) :: rest := by
  obtain ⟨first, later, hsplit⟩ := exists_cons_of_ne_nil (splitOnP_ne_nil p xs)
  have hone : (d :: xs).splitOnP p = (d :: first) :: later := by
    rw [splitOnP_cons_eq_if_modifyHead, hd, if_neg Bool.false_ne_true, hsplit]
    rfl
  refine ⟨d :: first, later.filter fun w => !w.isEmpty, ?_, ?_⟩
  · unfold wordsBy
    rw [hone]
    rfl
  · unfold wordsBy
    rw [splitOnP_cons_eq_if_modifyHead, hc, if_neg Bool.false_ne_true, hone]
    rfl

theorem wordsBy_singleton {c : α} (hc : p c = false) : wordsBy p [c] = [[c]] :=
  wordsBy_of_forall (cons_ne_nil _ _) fun _ hx => List.mem_singleton.mp hx ▸ hc

theorem wordsBy_cons {c : α} (hc : p c = false) (xs : List α) :
    ∃ word rest, wordsBy p (c :: xs) = (c :: word) :: rest ∧ word <+: xs := by
  induction xs generalizing c with
  | nil => exact ⟨[], [], wordsBy_singleton hc, prefix_refl _⟩
  | cons d xs ih =>
    by_cases hd : p d = true
    · refine ⟨[], wordsBy p xs, ?_, nil_prefix⟩
      have happend := wordsBy_append_break hd [c] xs
      rw [wordsBy_singleton hc] at happend
      exact happend
    · have hd : p d = false := eq_false_of_ne_true hd
      obtain ⟨word, rest, hone, htwo⟩ := wordsBy_cons_cons hc hd xs
      obtain ⟨later, rest', hlater, hstarts⟩ := ih hd
      rw [hlater, List.cons.injEq] at hone
      exact ⟨word, rest, htwo, hone.1 ▸ (prefix_cons_inj d).mpr hstarts⟩

theorem wordsBy_eq_nil_iff : wordsBy p xs = [] ↔ ∀ x ∈ xs, p x = true := by
  induction xs with
  | nil => exact iff_of_true rfl fun x hx => absurd hx not_mem_nil
  | cons c xs ih =>
    by_cases hc : p c = true
    · rw [wordsBy_cons_break hc, ih, forall_mem_cons]
      exact (and_iff_right hc).symm
    · obtain ⟨word, rest, hwords, -⟩ := wordsBy_cons (eq_false_of_ne_true hc) xs
      rw [hwords]
      exact iff_of_false (cons_ne_nil _ _) fun h => hc (h c mem_cons_self)

theorem infix_of_mem_wordsBy {xs w : List α} (h : w ∈ wordsBy p xs) : w <:+: xs := by
  induction xs with
  | nil => cases h
  | cons c xs ih =>
    by_cases hc : p c = true
    · rw [wordsBy_cons_break hc] at h
      exact (ih h).trans (suffix_cons c xs).isInfix
    · obtain ⟨word, rest, hwords, hstarts⟩ := wordsBy_cons (eq_false_of_ne_true hc) xs
      rw [hwords] at h
      rcases List.mem_cons.mp h with rfl | h
      · exact ((prefix_cons_inj c).mpr hstarts).isInfix
      · cases xs with
        | nil =>
          rw [wordsBy_singleton (eq_false_of_ne_true hc), List.cons.injEq] at hwords
          exact absurd (hwords.2 ▸ h) not_mem_nil
        | cons d xs =>
          refine (ih ?_).trans (suffix_cons c _).isInfix
          by_cases hd : p d = true
          · have happend := wordsBy_append_break hd [c] xs
            rw [wordsBy_singleton (eq_false_of_ne_true hc)] at happend
            have hrest : rest = wordsBy p xs := (List.cons.inj (hwords.symm.trans happend)).2
            rw [wordsBy_cons_break hd]
            exact hrest ▸ h
          · obtain ⟨word', rest', hone, htwo⟩ :=
              wordsBy_cons_cons (eq_false_of_ne_true hc) (eq_false_of_ne_true hd) xs
            have hrest : rest = rest' := (List.cons.inj (hwords.symm.trans htwo)).2
            rw [hone]
            exact mem_cons_of_mem _ (hrest ▸ h)

theorem exists_word_of_prefix {m xs : List α} (hne : m ≠ []) (hm : ∀ x ∈ m, p x = false)
    (h : m <+: xs) : ∃ w rest, wordsBy p xs = w :: rest ∧ m <+: w := by
  induction m generalizing xs with
  | nil => exact absurd rfl hne
  | cons c m ih =>
    obtain ⟨xs, rfl⟩ := h
    have hc : p c = false := hm c mem_cons_self
    have hrest : ∀ x ∈ m, p x = false := fun x hx => hm x (mem_cons_of_mem c hx)
    cases m with
    | nil =>
      obtain ⟨word, rest, hwords, -⟩ := wordsBy_cons hc xs
      exact ⟨c :: word, rest, hwords, word, rfl⟩
    | cons d m =>
      have hd : p d = false := hrest d mem_cons_self
      obtain ⟨word, rest, hone, htwo⟩ := wordsBy_cons_cons hc hd (m ++ xs)
      obtain ⟨w, rest', hwords, hstarts⟩ := ih (cons_ne_nil _ _) hrest ⟨xs, rfl⟩
      have hw : word = w := (List.cons.inj (hone.symm.trans hwords)).1
      exact ⟨c :: word, rest, htwo, hw ▸ (prefix_cons_inj c).mpr hstarts⟩

theorem infix_iff_exists_word {m xs : List α} (hne : m ≠ []) (hm : ∀ x ∈ m, p x = false) :
    m <:+: xs ↔ ∃ w ∈ wordsBy p xs, m <:+: w := by
  constructor
  · intro h
    induction xs with
    | nil => exact absurd (List.infix_nil.mp h) hne
    | cons c xs ih =>
      rcases List.infix_cons_iff.mp h with h | h
      · obtain ⟨w, rest, hwords, hstarts⟩ := exists_word_of_prefix hne hm h
        exact ⟨w, hwords ▸ mem_cons_self, hstarts.isInfix⟩
      · obtain ⟨w, hw, hwithin⟩ := ih h
        by_cases hc : p c = true
        · exact ⟨w, (wordsBy_cons_break hc xs).symm ▸ hw, hwithin⟩
        · have hc : p c = false := eq_false_of_ne_true hc
          cases xs with
          | nil => cases hw
          | cons d xs =>
            by_cases hd : p d = true
            · have happend : wordsBy p (c :: d :: xs) = wordsBy p [c] ++ wordsBy p xs :=
                wordsBy_append_break hd [c] xs
              rw [wordsBy_cons_break hd] at hw
              exact ⟨w, happend ▸ mem_append_right _ hw, hwithin⟩
            · obtain ⟨word, rest, hone, htwo⟩ :=
                wordsBy_cons_cons hc (eq_false_of_ne_true hd) xs
              rw [hone] at hw
              rcases List.mem_cons.mp hw with rfl | hw
              · exact ⟨c :: w, htwo ▸ mem_cons_self,
                  hwithin.trans (suffix_cons c w).isInfix⟩
              · exact ⟨w, htwo ▸ mem_cons_of_mem _ hw, hwithin⟩
  · rintro ⟨w, hw, hwithin⟩
    exact hwithin.trans (infix_of_mem_wordsBy hw)

theorem forall_wordsBy_iff {P : List α → Prop} (hnil : P [])
    (hbreak : ∀ d xs ys, p d = true → (P (xs ++ d :: ys) ↔ P xs ∧ P ys)) (xs : List α) :
    (∀ w ∈ wordsBy p xs, P w) ↔ P xs := by
  induction hlen : xs.length using Nat.strong_induction_on generalizing xs with
  | _ len ih =>
    by_cases hany : ∃ d ∈ xs, p d = true
    · obtain ⟨d, hmem, hd⟩ := hany
      obtain ⟨front, back, rfl⟩ := append_of_mem hmem
      rw [length_append, length_cons] at hlen
      rw [wordsBy_append_break hd, forall_mem_append, hbreak d front back hd,
        ih front.length (by omega) front rfl, ih back.length (by omega) back rfl]
    · have hword : ∀ x ∈ xs, p x = false := fun x hx =>
        eq_false_of_ne_true fun hpx => hany ⟨x, hx, hpx⟩
      by_cases hne : xs = []
      · rw [hne]
        exact iff_of_true (fun w hw => absurd hw not_mem_nil) hnil
      · rw [wordsBy_of_forall hne hword, forall_mem_singleton]

theorem flatten_wordsBy (xs : List α) : (wordsBy p xs).flatten = xs.filter fun x => !p x := by
  induction xs with
  | nil => rfl
  | cons c xs ih =>
    by_cases hc : p c = true
    · rw [wordsBy_cons_break hc, ih, filter_cons_of_neg (by rw [hc]; exact Bool.false_ne_true)]
    · have hc : p c = false := eq_false_of_ne_true hc
      rw [filter_cons_of_pos (by rw [hc]; rfl), ← ih]
      cases xs with
      | nil => rw [wordsBy_singleton hc]; rfl
      | cons d xs =>
        by_cases hd : p d = true
        · have happend : wordsBy p (c :: d :: xs) = wordsBy p [c] ++ wordsBy p xs :=
            wordsBy_append_break hd [c] xs
          rw [happend, wordsBy_singleton hc, wordsBy_cons_break hd]
          rfl
        · obtain ⟨word, rest, hone, htwo⟩ := wordsBy_cons_cons hc (eq_false_of_ne_true hd) xs
          rw [hone, htwo]
          rfl

/-! ## A list in two parts -/

theorem wordsBy_append_of_getLast (h : ∀ x ∈ xs.getLast?, p x = true) (ys : List α) :
    wordsBy p (xs ++ ys) = wordsBy p xs ++ wordsBy p ys := by
  rcases eq_nil_or_concat xs with rfl | ⟨front, d, rfl⟩
  · rfl
  · rw [concat_eq_append] at h ⊢
    have hd : p d = true := h d (by simp)
    rw [append_assoc, singleton_append, wordsBy_append_break hd,
      wordsBy_concat_break hd]

theorem wordsBy_append_of_head {ys : List α} (h : ∀ y ∈ ys.head?, p y = true) (xs : List α) :
    wordsBy p (xs ++ ys) = wordsBy p xs ++ wordsBy p ys := by
  cases ys with
  | nil => rw [wordsBy_nil, append_nil, append_nil]
  | cons d ys =>
    have hd : p d = true := h d rfl
    rw [wordsBy_append_break hd, wordsBy_cons_break hd]

theorem wordsBy_word {front word rear : List α} (hfront : ∀ x ∈ front.getLast?, p x = true)
    (hne : word ≠ []) (hword : ∀ x ∈ word, p x = false) (hrear : ∀ x ∈ rear.head?, p x = true) :
    wordsBy p (front ++ (word ++ rear)) = wordsBy p front ++ word :: wordsBy p rear := by
  rw [wordsBy_append_of_getLast hfront, wordsBy_append_of_head hrear, wordsBy_of_forall hne hword,
    singleton_append]

theorem ne_nil_of_mem_wordsBy {xs w : List α} (h : w ∈ wordsBy p xs) : w ≠ [] := by
  have hne := (List.mem_filter.mp h).2
  exact fun hnil => by simp [hnil] at hne

theorem getLast?_rdropWhile {x : α} (h : x ∈ (xs.rdropWhile fun x => !p x).getLast?) :
    p x = true := by
  have hne : (xs.rdropWhile fun x => !p x) ≠ [] := fun hnil => by simp [hnil] at h
  have hlast := rdropWhile_last_not (fun x => !p x) xs hne
  rw [getLast?_eq_getLast_of_ne_nil hne, mem_some_iff] at h
  simpa [h] using hlast

theorem head?_dropWhile {x : α} (h : x ∈ (xs.dropWhile fun x => !p x).head?) : p x = true := by
  have hhead := head?_dropWhile_not (fun x => !p x) xs
  rw [mem_def] at h
  rw [h] at hhead
  simpa using hhead

theorem wordsBy_append_apart {xs ys : List α}
    (h : xs.rtakeWhile (fun x => !p x) = [] ∨ ys.takeWhile (fun x => !p x) = []) :
    wordsBy p (xs ++ ys) = wordsBy p xs ++ wordsBy p ys := by
  rcases h with h | h
  · refine wordsBy_append_of_getLast (fun x hx => ?_) ys
    have hxs : (xs.rdropWhile fun x => !p x) = xs := by
      have happend := @rdropWhile_append_rtakeWhile _ (fun x => !p x) xs
      rwa [h, append_nil] at happend
    exact getLast?_rdropWhile (hxs.symm ▸ hx)
  · refine wordsBy_append_of_head (fun y hy => ?_) xs
    have hys : (ys.dropWhile fun x => !p x) = ys := by
      have happend := @takeWhile_append_dropWhile _ (fun x => !p x) ys
      rwa [h, nil_append] at happend
    exact head?_dropWhile (hys.symm ▸ hy)

theorem wordsBy_append_across {xs ys : List α} (hbefore : xs.rtakeWhile (fun x => !p x) ≠ [])
    (hbehind : ys.takeWhile (fun x => !p x) ≠ []) :
    ∃ front rear, wordsBy p xs = front ++ [xs.rtakeWhile fun x => !p x] ∧
      wordsBy p ys = (ys.takeWhile fun x => !p x) :: rear ∧
      wordsBy p (xs ++ ys) =
        front ++ ((xs.rtakeWhile fun x => !p x) ++ ys.takeWhile fun x => !p x) :: rear ∧
      (front = [] → ∀ x ∈ xs.rdropWhile (fun x => !p x), p x = true) := by
  have hfirst : ∀ x ∈ xs.rtakeWhile (fun x => !p x), p x = false := fun x hx => by
    simpa using mem_rtakeWhile_imp hx
  have hlast : ∀ y ∈ ys.takeWhile (fun x => !p x), p y = false := fun y hy => by
    simpa using mem_takeWhile_imp hy
  have hxs := @rdropWhile_append_rtakeWhile _ (fun x => !p x) xs
  have hys := @takeWhile_append_dropWhile _ (fun x => !p x) ys
  refine ⟨wordsBy p (xs.rdropWhile fun x => !p x), wordsBy p (ys.dropWhile fun x => !p x),
    ?_, ?_, ?_, fun hnil => wordsBy_eq_nil_iff.mp hnil⟩
  · conv_lhs => rw [← hxs]
    rw [wordsBy_append_of_getLast fun x hx => getLast?_rdropWhile hx,
      wordsBy_of_forall hbefore hfirst]
  · conv_lhs => rw [← hys]
    rw [wordsBy_append_of_head fun x hx => head?_dropWhile hx, wordsBy_of_forall hbehind hlast,
      singleton_append]
  · conv_lhs => rw [← hxs, ← hys, append_assoc, ← append_assoc (xs.rtakeWhile _)]
    refine wordsBy_word (fun x hx => getLast?_rdropWhile hx) ?_ (fun x hx => ?_)
      fun x hx => head?_dropWhile hx
    · exact append_ne_nil_of_left_ne_nil hbefore _
    · rcases List.mem_append.mp hx with hx | hx
      · exact hfirst x hx
      · exact hlast x hx

theorem wordsBy_map {f : α → α} (h : ∀ x, p (f x) = p x) (xs : List α) :
    wordsBy p (xs.map f) = (wordsBy p xs).map (List.map f) := by
  induction xs with
  | nil => rfl
  | cons c xs ih =>
    rw [map_cons]
    by_cases hc : p c = true
    · rw [wordsBy_cons_break ((h c).trans hc), wordsBy_cons_break hc, ih]
    · have hc : p c = false := eq_false_of_ne_true hc
      cases xs with
      | nil =>
        rw [map_nil, wordsBy_singleton ((h c).trans hc), wordsBy_singleton hc]
        rfl
      | cons d xs =>
        rw [map_cons] at ih ⊢
        by_cases hd : p d = true
        · have hleft :
              wordsBy p (f c :: f d :: xs.map f) = wordsBy p [f c] ++ wordsBy p (xs.map f) :=
            wordsBy_append_break ((h d).trans hd) [f c] _
          have hright : wordsBy p (c :: d :: xs) = wordsBy p [c] ++ wordsBy p xs :=
            wordsBy_append_break hd [c] xs
          rw [wordsBy_cons_break ((h d).trans hd), wordsBy_cons_break hd] at ih
          rw [hleft, hright, ih, wordsBy_singleton ((h c).trans hc), wordsBy_singleton hc]
          rfl
        · have hd : p d = false := eq_false_of_ne_true hd
          obtain ⟨word, rest, hone, htwo⟩ := wordsBy_cons_cons hc hd xs
          obtain ⟨word', rest', hone', htwo'⟩ :=
            wordsBy_cons_cons ((h c).trans hc) ((h d).trans hd) (xs.map f)
          rw [hone, hone', map_cons] at ih
          obtain ⟨hword, hrest⟩ := List.cons.inj ih
          rw [htwo, htwo', map_cons, map_cons, hword, hrest]

theorem wordsBy_cons_congr {ys zs : List α} (hhead : ys.head?.any p = zs.head?.any p)
    (hwords : wordsBy p ys = wordsBy p zs) (c : α) : wordsBy p (c :: ys) = wordsBy p (c :: zs) := by
  by_cases hc : p c = true
  · rw [wordsBy_cons_break hc, wordsBy_cons_break hc, hwords]
  · have hc : p c = false := eq_false_of_ne_true hc
    have halone : ∀ xs : List α, xs.head?.any p = true →
        wordsBy p (c :: xs) = [c] :: wordsBy p xs := by
      intro xs hxs
      have happend : wordsBy p ([c] ++ xs) = wordsBy p [c] ++ wordsBy p xs :=
        wordsBy_append_of_head (fun y hy => by
          rw [Option.mem_def.mp hy] at hxs
          exact hxs) [c]
      rwa [wordsBy_singleton hc] at happend
    by_cases hbreak : ys.head?.any p = true
    · rw [halone ys hbreak, halone zs (hhead ▸ hbreak), hwords]
    · cases ys with
      | nil =>
        cases zs with
        | nil => rfl
        | cons d zs =>
          have hd : p d = false := by
            rw [head?_nil, head?_cons, any_some] at hhead
            exact hhead.symm
          obtain ⟨word, rest, hone, -⟩ := wordsBy_cons hd zs
          rw [hone] at hwords
          cases hwords
      | cons d ys =>
        have hd : p d = false := eq_false_of_ne_true hbreak
        obtain ⟨word, rest, hone, htwo⟩ := wordsBy_cons_cons hc hd ys
        cases zs with
        | nil =>
          rw [hone] at hwords
          cases hwords
        | cons e zs =>
          have he : p e = false := by
            rw [head?_cons, head?_cons, any_some, any_some, hd] at hhead
            exact hhead.symm
          obtain ⟨word', rest', hone', htwo'⟩ := wordsBy_cons_cons hc he zs
          rw [hone, hone'] at hwords
          cases hwords
          rw [htwo, htwo']

theorem wordsBy_map_break {q : α → Bool} {f : α → α} (hbreak : ∀ x, p x = true → q (f x) = true)
    (hkeep : ∀ x, p x = false → f x = x ∧ q x = false) (xs : List α) :
    wordsBy q (xs.map f) = wordsBy p xs := by
  induction xs with
  | nil => rfl
  | cons c xs ih =>
    rw [map_cons]
    by_cases hc : p c = true
    · rw [wordsBy_cons_break (hbreak c hc), wordsBy_cons_break hc, ih]
    · have hc : p c = false := eq_false_of_ne_true hc
      rw [(hkeep c hc).1]
      cases xs with
      | nil =>
        rw [map_nil, wordsBy_singleton (hkeep c hc).2, wordsBy_singleton hc]
      | cons d xs =>
        rw [map_cons] at ih ⊢
        by_cases hd : p d = true
        · have hleft : wordsBy q (c :: f d :: xs.map f) = [c] :: wordsBy q (xs.map f) := by
            have happend := wordsBy_append_break (hbreak d hd) [c] (xs.map f)
            rwa [wordsBy_singleton (hkeep c hc).2] at happend
          have hright : wordsBy p (c :: d :: xs) = [c] :: wordsBy p xs := by
            have happend := wordsBy_append_break hd [c] xs
            rwa [wordsBy_singleton hc] at happend
          rw [wordsBy_cons_break (hbreak d hd), wordsBy_cons_break hd] at ih
          rw [hleft, hright, ih]
        · have hd : p d = false := eq_false_of_ne_true hd
          rw [(hkeep d hd).1] at ih ⊢
          obtain ⟨word, rest, hone, htwo⟩ := wordsBy_cons_cons hc hd xs
          obtain ⟨word', rest', hone', htwo'⟩ :=
            wordsBy_cons_cons (hkeep c hc).2 (hkeep d hd).2 (xs.map f)
          rw [hone, hone', List.cons.injEq] at ih
          rw [htwo, htwo', ih.1, ih.2]

theorem filter_intercalate (hd : p d = true) {pieces : List (List α)}
    (h : ∀ w ∈ pieces, ∀ x ∈ w, p x = false) :
    (([d].intercalate pieces).filter fun x => !p x) = pieces.flatten := by
  induction pieces with
  | nil => rfl
  | cons first rest ih =>
    obtain ⟨hfirst, hrest⟩ := List.forall_mem_cons.mp h
    have hkept : (first.filter fun x => !p x) = first :=
      List.filter_eq_self.mpr fun x hx => by rw [hfirst x hx]; rfl
    have hgone : ([d].filter fun x => !p x) = [] :=
      filter_cons_of_neg (by rw [hd]; exact Bool.false_ne_true)
    cases rest with
    | nil => rw [intercalate_singleton, hkept, flatten_singleton]
    | cons second rest =>
      rw [intercalate_cons_cons, filter_append, filter_append, hkept, hgone,
        ih hrest, append_nil, flatten_cons (L := second :: rest)]

theorem filter_intercalate_wordsBy (hd : p d = true) (xs : List α) :
    (([d].intercalate (wordsBy p xs)).filter fun x => !p x) = xs.filter fun x => !p x := by
  rw [filter_intercalate hd, flatten_wordsBy]
  exact fun w hw => Text.forall_mem_splitOnP xs w (List.mem_filter.mp hw).1

end

/-! ## Words of a text -/

namespace Text

variable {p : Char → Bool}

theorem wordsBy_trim (hp : ∀ c, isWhitespace c = true → p c = true) (s : String) :
    wordsBy p (trim s).toList = wordsBy p s.toList := by
  unfold trim trimChars
  rw [String.toList_ofList, wordsBy_rdropWhile hp, wordsBy_dropWhile hp]

theorem wordsBy_joinWith_space (hp : ∀ c, isWhitespace c = true → p c = true) (s : String) :
    wordsBy p (joinWith " " (splitWhitespace s)).toList = wordsBy p s.toList := by
  have hspace : " ".toList = [' '] := rfl
  have hid : String.toList ∘ String.ofList = id := by
    funext cs
    exact String.toList_ofList
  unfold joinWith splitWhitespace
  rw [String.toList_ofList, List.map_map, hid, List.map_id, hspace,
    wordsBy_intercalate (hp ' ' (by decide)), wordsBy_flatMap_filter, wordsBy_flatMap_splitOnP hp]

end Text

end GenieClaw.Library
