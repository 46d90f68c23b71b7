import GenieClaw.Library.Text

/-!
# Searching text for an ASCII word

A search over the bytes of a text that ignores ASCII case finds an ASCII word exactly
where a search over its characters does: in UTF-8 the bytes of the other characters are
128 and more. Lower-casing by Unicode adds two sources of ASCII letters, the Kelvin sign
and the dotted capital I, so a word without `k` that does not end in `i` occurs in the
lower-cased text only where it occurs up to ASCII case.
-/

namespace GenieClaw.Library.Text

open List
def asciiLowerByte (b : UInt8) : UInt8 := if 65 ≤ b.toNat ∧ b.toNat ≤ 90 then b + 32 else b

/-- `u8::eq_ignore_ascii_case`. -/
def byteEqIgnoreAsciiCase (a b : UInt8) : Bool := asciiLowerByte a == asciiLowerByte b

/-- `slice::windows`. -/
def windows {α : Type} (n : Nat) (xs : List α) : List (List α) :=
  (xs.tails.map (List.take n)).filter (fun w => w.length = n)

/-- Byte search for a word, ignoring ASCII case. -/
def containsAsciiCi (haystack needle : String) : Bool :=
  if needle = "" ∨ (asBytes haystack).length < (asBytes needle).length then false
  else
    (windows (asBytes needle).length (asBytes haystack)).any (fun window =>
      (window.zip (asBytes needle)).all (fun pair => byteEqIgnoreAsciiCase pair.1 pair.2))

def IsAscii (cs : List Char) : Prop := ∀ c ∈ cs, c.toNat < 128

instance (cs : List Char) : Decidable (IsAscii cs) :=
  List.decidableBAll _ cs

theorem mem_windows {α : Type} {n : Nat} {xs w : List α} :
    w ∈ windows n xs ↔ w <:+: xs ∧ w.length = n := by
  unfold windows
  simp only [List.mem_filter, mem_map, mem_tails, decide_eq_true_eq]
  constructor
  · rintro ⟨⟨t, ht, rfl⟩, hlen⟩
    exact ⟨(List.take_prefix n t).isInfix.trans ht.isInfix, hlen⟩
  · rintro ⟨hin, rfl⟩
    obtain ⟨t, hpre, hsuffix⟩ := List.infix_iff_prefix_suffix.mp hin
    exact ⟨⟨t, hsuffix, (List.prefix_iff_eq_take.mp hpre).symm⟩, rfl⟩

/-! ## Bytes and characters -/

theorem asBytes_eq (s : String) : asBytes s = s.toList.flatMap String.utf8EncodeChar := by
  unfold asBytes
  rw [← String.utf8Encode_toList, List.utf8Encode]
  simp

theorem utf8EncodeChar_ascii {c : Char} (h : c.toNat < 128) :
    String.utf8EncodeChar c = [UInt8.ofNat c.toNat] := by
  unfold String.utf8EncodeChar
  have hle : c.val.toNat ≤ 0x7f := Nat.le_of_lt_succ h
  rw [if_pos hle]
  rfl

theorem utf8EncodeChar_high {c : Char} (h : 128 ≤ c.toNat) :
    ∀ b ∈ String.utf8EncodeChar c, 128 ≤ b.toNat := by
  have hgt : ¬ c.val.toNat ≤ 0x7f := Nat.not_le_of_lt h
  unfold String.utf8EncodeChar
  dsimp only
  rw [if_neg hgt]
  split_ifs <;> intro b hb <;>
    simp only [List.mem_cons, List.not_mem_nil, or_false] at hb
  · rcases hb with rfl | rfl <;> simp only [UInt8.toNat_ofNat'] <;> omega
  · rcases hb with rfl | rfl | rfl <;> simp only [UInt8.toNat_ofNat'] <;> omega
  · rcases hb with rfl | rfl | rfl | rfl <;> simp only [UInt8.toNat_ofNat'] <;> omega

theorem asciiLowerByte_high {b : UInt8} (h : 128 ≤ b.toNat) : asciiLowerByte b = b := by
  unfold asciiLowerByte
  rw [if_neg (by omega)]

theorem asciiLowerByte_ascii {c : Char} (h : c.toNat < 128) :
    asciiLowerByte (UInt8.ofNat c.toNat) = UInt8.ofNat c.toLower.toNat := by
  apply UInt8.toNat_inj.mp
  unfold asciiLowerByte
  rw [toNat_toLower]
  have hbyte : (UInt8.ofNat c.toNat).toNat = c.toNat := by
    simp only [UInt8.toNat_ofNat']
    omega
  rw [hbyte]
  split_ifs with hupper
  · rw [UInt8.toNat_add, hbyte]
    simp only [UInt8.toNat_ofNat', UInt8.reduceToNat]
  · rfl

theorem map_asciiLowerByte_encode (cs : List Char) :
    (cs.flatMap String.utf8EncodeChar).map asciiLowerByte =
      (cs.map Char.toLower).flatMap String.utf8EncodeChar := by
  induction cs with
  | nil => rfl
  | cons c cs ih =>
    have hone : (String.utf8EncodeChar c).map asciiLowerByte = String.utf8EncodeChar c.toLower := by
      by_cases h : c.toNat < 128
      · have hlower : c.toLower.toNat < 128 := by
          rw [toNat_toLower]
          split <;> omega
        rw [utf8EncodeChar_ascii h, utf8EncodeChar_ascii hlower, map_singleton,
          asciiLowerByte_ascii h]
      · rw [toLower_eq_self (by omega)]
        calc (String.utf8EncodeChar c).map asciiLowerByte
            = (String.utf8EncodeChar c).map id := by
              apply map_congr_left
              intro b hb
              exact asciiLowerByte_high (utf8EncodeChar_high (by omega) b hb)
          _ = String.utf8EncodeChar c := map_id _
    rw [flatMap_cons, map_append, ih, hone, map_cons, flatMap_cons]

variable {word cs : List Char}

theorem prefix_of_encode_prefix (hword : IsAscii word)
    (h : word.flatMap String.utf8EncodeChar <+: cs.flatMap String.utf8EncodeChar) :
    word <+: cs := by
  induction word generalizing cs with
  | nil => exact nil_prefix
  | cons a word ih =>
    have ha : a.toNat < 128 := hword a mem_cons_self
    rw [flatMap_cons, utf8EncodeChar_ascii ha] at h
    cases cs with
    | nil => simp at h
    | cons c cs =>
      rw [flatMap_cons] at h
      by_cases hc : c.toNat < 128
      · rw [utf8EncodeChar_ascii hc] at h
        simp only [singleton_append, cons_prefix_cons] at h
        have hac : a = c := by
          apply Char.toNat_inj.mp
          have := congrArg UInt8.toNat h.1
          simp only [UInt8.toNat_ofNat'] at this
          omega
        rw [hac, prefix_cons_inj]
        exact ih (fun x hx => hword x (mem_cons_of_mem _ hx)) h.2
      · cases henc : String.utf8EncodeChar c with
        | nil => exact absurd henc String.utf8EncodeChar_ne_nil
        | cons b bs =>
          have hb := utf8EncodeChar_high (by omega : 128 ≤ c.toNat) b (by simp [henc])
          rw [henc] at h
          simp only [cons_append, cons_prefix_cons] at h
          have := congrArg UInt8.toNat h.1
          simp only [UInt8.toNat_ofNat'] at this
          omega

theorem infix_of_infix_append {α : Type} {word xs ys : List α} (hne : word ≠ [])
    (hdisjoint : ∀ x ∈ xs, x ∉ word) (h : word <:+: xs ++ ys) : word <:+: ys := by
  induction xs with
  | nil => exact h
  | cons x xs ih =>
    rw [cons_append, infix_cons_iff] at h
    rcases h with hpre | hin
    · obtain ⟨a, word, rfl⟩ := exists_cons_of_ne_nil hne
      rw [cons_prefix_cons] at hpre
      exact absurd (hpre.1 ▸ mem_cons_self) (hdisjoint x mem_cons_self)
    · exact ih (fun y hy => hdisjoint y (mem_cons_of_mem _ hy)) hin

theorem infix_of_encode_infix (hword : IsAscii word) (hne : word ≠ [])
    (h : word.flatMap String.utf8EncodeChar <:+: cs.flatMap String.utf8EncodeChar) :
    word <:+: cs := by
  have hbytes : word.flatMap String.utf8EncodeChar ≠ [] := by
    obtain ⟨a, word, rfl⟩ := exists_cons_of_ne_nil hne
    simp
  induction cs with
  | nil => exact absurd (List.infix_nil.mp h) hbytes
  | cons c cs ih =>
    by_cases hc : c.toNat < 128
    · have hsplit := h
      rw [flatMap_cons, utf8EncodeChar_ascii hc, singleton_append,
        infix_cons_iff] at hsplit
      rcases hsplit with hpre | hin
      · apply List.IsPrefix.isInfix
        apply prefix_of_encode_prefix hword
        rw [flatMap_cons, utf8EncodeChar_ascii hc]
        exact hpre
      · exact (ih hin).trans (suffix_cons c cs).isInfix
    · rw [flatMap_cons] at h
      refine (ih (infix_of_infix_append hbytes ?_ h)).trans (suffix_cons c cs).isInfix
      intro b hb hmem
      obtain ⟨a, ha, hba⟩ := List.mem_flatMap.mp hmem
      have hlow := hword a ha
      rw [utf8EncodeChar_ascii hlow, mem_singleton] at hba
      have hhigh := utf8EncodeChar_high (by omega : 128 ≤ c.toNat) b hb
      rw [hba, UInt8.toNat_ofNat'] at hhigh
      omega

theorem all_zip_iff {α β : Type} [BEq β] [LawfulBEq β] (f : α → β) {xs ys : List α}
    (hlen : xs.length = ys.length) :
    (xs.zip ys).all (fun pair => f pair.1 == f pair.2) = true ↔ xs.map f = ys.map f := by
  induction xs generalizing ys with
  | nil =>
    cases ys with
    | nil => simp
    | cons y ys => simp at hlen
  | cons x xs ih =>
    cases ys with
    | nil => simp at hlen
    | cons y ys =>
      rw [zip_cons_cons, all_cons, Bool.and_eq_true, ih (by simpa using hlen)]
      simp

theorem exists_infix_of_infix_map {α β : Type} {f : α → β} {ys : List β} {xs : List α}
    (h : ys <:+: xs.map f) : ∃ w, w <:+: xs ∧ w.map f = ys := by
  obtain ⟨before, after, heq⟩ := h
  obtain ⟨front, rear, rfl, hfront, -⟩ := List.map_eq_append_iff.mp heq.symm
  obtain ⟨head, w, rfl, -, hw⟩ := List.map_eq_append_iff.mp hfront
  exact ⟨w, ⟨head, rear, rfl⟩, hw⟩

theorem containsAsciiCi_iff {haystack needle : String} (hascii : IsAscii needle.toList)
    (hne : needle ≠ "") :
    containsAsciiCi haystack needle = true ↔
      needle.toList.map Char.toLower <:+: haystack.toList.map Char.toLower := by
  have hbytes : containsAsciiCi haystack needle = true ↔
      (asBytes needle).map asciiLowerByte <:+: (asBytes haystack).map asciiLowerByte := by
    unfold containsAsciiCi
    split
    · rename_i hshort
      constructor
      · intro h
        cases h
      · intro h
        have hlen := h.length_le
        simp only [length_map] at hlen
        rcases hshort with h' | h'
        · exact absurd h' hne
        · omega
    · rw [any_eq_true]
      constructor
      · rintro ⟨w, hw, hall⟩
        obtain ⟨hin, hlen⟩ := mem_windows.mp hw
        rw [← (all_zip_iff asciiLowerByte hlen).mp hall]
        exact hin.map asciiLowerByte
      · intro h
        obtain ⟨w, hin, hmap⟩ := exists_infix_of_infix_map h
        have hlen : w.length = (asBytes needle).length := by
          simpa using congrArg List.length hmap
        exact ⟨w, mem_windows.mpr ⟨hin, hlen⟩, (all_zip_iff asciiLowerByte hlen).mpr hmap⟩
  rw [hbytes, asBytes_eq, asBytes_eq, map_asciiLowerByte_encode, map_asciiLowerByte_encode]
  constructor
  · apply infix_of_encode_infix
    · intro c hc
      obtain ⟨a, ha, rfl⟩ := List.mem_map.mp hc
      have := hascii a ha
      rw [toNat_toLower]
      split <;> omega
    · simpa using hne
  · rintro ⟨before, after, heq⟩
    rw [← heq]
    exact ⟨before.flatMap String.utf8EncodeChar, after.flatMap String.utf8EncodeChar, by simp⟩

/-! ## Unicode lower case -/

def kelvinSign : Char := Char.ofNat 0x212A

/-- A word the marks that lower-casing adds cannot be part of. -/
def FoldableWord (word : List Char) : Prop :=
  IsAscii word ∧ word.getLast? ≠ some 'i' ∧ word ≠ []

instance (word : List Char) : Decidable (FoldableWord word) :=
  inferInstanceAs (Decidable (_ ∧ _ ∧ _))

theorem lowercaseChar_cases (c : Char) :
    (c = kelvinSign ∧ lowercaseChar c = ['k']) ∨
      lowercaseChar c = ['i', Char.ofNat 0x307] ∨ lowercaseChar c = [c.toLower] := by
  unfold lowercaseChar
  split_ifs with hkelvin
  · exact .inl ⟨Char.toNat_inj.mp hkelvin, rfl⟩
  · exact .inr (.inl rfl)
  · exact .inr (.inr rfl)

theorem lowercaseChar_of_whitespace {c : Char} (hc : isWhitespace c = true) :
    lowercaseChar c = [c] := by
  have hbounds : ¬ (65 ≤ c.toNat ∧ c.toNat ≤ 90) ∧ c.toNat ≠ 0x212A ∧ c.toNat ≠ 0x130 := by
    unfold isWhitespace at hc
    simp only [Bool.or_eq_true, Bool.and_eq_true, decide_eq_true_eq, beq_iff_eq] at hc
    omega
  have hlower : c.toLower = c := by
    apply Char.toNat_inj.mp
    rw [toNat_toLower, if_neg hbounds.1]
  rw [lowercaseChar, if_neg hbounds.2.1, if_neg hbounds.2.2, hlower]

theorem lowercaseChar_ne_nil (c : Char) : lowercaseChar c ≠ [] := by
  rcases lowercaseChar_cases c with ⟨-, h⟩ | h | h <;> rw [h] <;> exact cons_ne_nil _ _

theorem isWhitespace_of_mem_lowercaseChar {c d : Char} (hc : isWhitespace c = false)
    (hd : d ∈ lowercaseChar c) : isWhitespace d = false := by
  rcases lowercaseChar_cases c with ⟨-, h⟩ | h | h
  · rw [h, mem_singleton] at hd
    subst hd
    decide
  · rw [h] at hd
    have hall : ∀ d ∈ ['i', '\u0307'], isWhitespace d = false := forall_mem_of_all (by decide)
    exact hall d hd
  · rw [h, mem_singleton] at hd
    rw [hd, isWhitespace_toLower, hc]

theorem FoldableWord.tail {a b : Char} {word : List Char} (h : FoldableWord (a :: b :: word)) :
    FoldableWord (b :: word) := by
  obtain ⟨hascii, hlast, -⟩ := h
  refine ⟨fun c hc => hascii c (mem_cons_of_mem _ hc), ?_, cons_ne_nil _ _⟩
  rwa [getLast?_cons_cons] at hlast

/-- What lower-casing may make of a character, wherever it stands. -/
inductive LowerPiece : Char → List Char → Prop
  | ascii {c : Char} (hc : c.toNat < 128) : LowerPiece c [c.toLower]
  | kelvin : LowerPiece kelvinSign ['k']
  | dottedI {c : Char} (hc : c.toNat = 0x130) : LowerPiece c ['i', Char.ofNat 0x307]
  | other {c d : Char} {ds : List Char} (hc : 128 ≤ c.toNat)
      (hds : ∀ x ∈ d :: ds, 128 ≤ x.toNat) : LowerPiece c (d :: ds)

theorem lowerPiece_lowercaseChar (c : Char) : LowerPiece c (lowercaseChar c) := by
  unfold lowercaseChar
  split_ifs with hkelvin hdotted
  · rw [show c = kelvinSign from Char.toNat_inj.mp hkelvin]
    exact .kelvin
  · exact .dottedI hdotted
  · by_cases hc : c.toNat < 128
    · exact .ascii hc
    · rw [toLower_eq_self (by omega)]
      refine .other (by omega) fun x hx => ?_
      rw [List.mem_singleton.mp hx]
      omega

/-- A lower-casing of whole texts. -/
def LowerCasing (toLowercase : String → String) : Prop :=
  ∀ s, ∃ pieces, List.Forall₂ LowerPiece s.toList pieces ∧ (toLowercase s).toList = pieces.flatten

theorem forall₂_lowercaseChar (cs : List Char) :
    List.Forall₂ LowerPiece cs (cs.map lowercaseChar) := by
  induction cs with
  | nil => exact .nil
  | cons c cs ih => exact .cons (lowerPiece_lowercaseChar c) ih

theorem lowerCasing_toLowercase : LowerCasing toLowercase := by
  intro s
  refine ⟨s.toList.map lowercaseChar, forall₂_lowercaseChar _, ?_⟩
  rw [toLowercase, String.toList_ofList, flatMap_def]

theorem prefix_toLower_of_prefix_pieces {pieces : List (List Char)} (hword : FoldableWord word)
    (hk : 'k' ∈ word → kelvinSign ∉ cs) (hpieces : List.Forall₂ LowerPiece cs pieces)
    (h : word <+: pieces.flatten) : word <+: cs.map Char.toLower := by
  induction word generalizing cs pieces with
  | nil => exact nil_prefix
  | cons a word ih =>
    obtain ⟨hascii, hlast, -⟩ := id hword
    cases hpieces with
    | nil => simp at h
    | @cons c piece cs pieces hpiece hpieces =>
      rw [flatten_cons] at h
      cases hpiece with
      | kelvin =>
        rw [singleton_append, cons_prefix_cons] at h
        exact absurd mem_cons_self (hk (h.1 ▸ mem_cons_self))
      | dottedI hc =>
        rw [cons_append, cons_prefix_cons] at h
        obtain ⟨rfl, hrest⟩ := h
        cases word with
        | nil => exact absurd rfl hlast
        | cons b word =>
          rw [cons_append, cons_prefix_cons] at hrest
          have := hascii b (by simp)
          rw [hrest.1] at this
          exact absurd this (by decide)
      | other hc hds =>
        rw [cons_append, cons_prefix_cons] at h
        have hlow := hascii a mem_cons_self
        have hhigh := hds _ mem_cons_self
        rw [h.1] at hlow
        omega
      | ascii hc =>
        rw [singleton_append, cons_prefix_cons] at h
        rw [map_cons, cons_prefix_cons]
        refine ⟨h.1, ?_⟩
        cases word with
        | nil => exact nil_prefix
        | cons b word =>
          refine ih hword.tail (fun hmem hkelvin => ?_) hpieces h.2
          exact hk (mem_cons_of_mem _ hmem) (mem_cons_of_mem _ hkelvin)

theorem prefix_toLower_of_prefix_lowercase (hword : FoldableWord word)
    (hk : 'k' ∈ word → kelvinSign ∉ cs) (h : word <+: cs.flatMap lowercaseChar) :
    word <+: cs.map Char.toLower :=
  prefix_toLower_of_prefix_pieces hword hk (forall₂_lowercaseChar cs) (flatMap_def ▸ h)

theorem infix_toLower_of_infix_pieces {pieces : List (List Char)} (hword : FoldableWord word)
    (hk : 'k' ∈ word → kelvinSign ∉ cs) (hpieces : List.Forall₂ LowerPiece cs pieces)
    (h : word <:+: pieces.flatten) : word <:+: cs.map Char.toLower := by
  obtain ⟨hascii, -, hne⟩ := id hword
  induction hpieces with
  | nil => exact h
  | @cons c piece cs pieces hpiece hpieces ih =>
    by_cases hpre : word <+: (piece :: pieces).flatten
    · exact (prefix_toLower_of_prefix_pieces hword hk (.cons hpiece hpieces) hpre).isInfix
    · have hlater : word <:+: pieces.flatten → word <:+: (c :: cs).map Char.toLower := by
        intro hin
        have hrest := ih (fun hmem hkelvin => hk hmem (mem_cons_of_mem _ hkelvin)) hin
        exact hrest.trans (suffix_cons _ _).isInfix
      -- a mark or a letter outside ASCII is no part of the word
      have hhigh : ∀ marks : List Char, (∀ x ∈ marks, 128 ≤ x.toNat) →
          word <:+: marks ++ pieces.flatten → word <:+: (c :: cs).map Char.toLower := by
        intro marks hmarks hin
        refine hlater (infix_of_infix_append hne (fun x hx hmem => ?_) hin)
        have := hascii x hmem
        have := hmarks x hx
        omega
      rw [flatten_cons] at h hpre
      cases hpiece with
      | kelvin =>
        rw [singleton_append] at h hpre
        exact hlater ((List.infix_cons_iff.mp h).resolve_left hpre)
      | dottedI hc =>
        rw [cons_append] at h hpre
        refine hhigh [Char.ofNat 0x307] (fun x hx => ?_)
          ((List.infix_cons_iff.mp h).resolve_left hpre)
        rw [List.mem_singleton.mp hx]
        decide
      | other hc hds => exact hhigh _ hds h
      | ascii hc =>
        rw [singleton_append] at h hpre
        exact hlater ((List.infix_cons_iff.mp h).resolve_left hpre)

/-- Where its letters are not Kelvin signs, a word of the lower-cased text is in the text
up to ASCII case. -/
theorem infix_toLower_of_infix_lowercase (hword : FoldableWord word)
    (hk : 'k' ∈ word → kelvinSign ∉ cs) (h : word <:+: cs.flatMap lowercaseChar) :
    word <:+: cs.map Char.toLower :=
  infix_toLower_of_infix_pieces hword hk (forall₂_lowercaseChar cs) (flatMap_def ▸ h)

end GenieClaw.Library.Text
