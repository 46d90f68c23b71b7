import GenieClaw.Library.Newest
import Mathlib.Algebra.Order.Field.Rat
import Mathlib.Data.Finset.Card
import Mathlib.Data.Prod.Lex
import Mathlib.Tactic.Linarith
import Mathlib.Tactic.Positivity

/-!
# Reciprocal rank fusion

Two rankings of ids are fused: an id has from each ranking it is in the reciprocal of `k` plus its
rank there, and the ids are sorted by the sum, those with the same sum in the order in which they
are first seen.

* `le_fusedScore_iff`: when a shared id comes up to the first of one ranking.
* `right_mem_take_iff`: when the first of the right ranking is within the cut.
-/

namespace GenieClaw.Library

open List
/-! ## Stable sorting -/

section

variable {α : Type}

theorem pairwise_orderedInsert {R r : α → α → Prop} [DecidableRel r] {a : α} {xs : List α}
    (htrans : ∀ x y z, R x y → R y z → R x z) (hxs : xs.Pairwise R)
    (hin : ∀ b ∈ xs, r a b → R a b) (hout : ∀ b ∈ xs, ¬ r a b → R b a) :
    (xs.orderedInsert r a).Pairwise R := by
  induction xs with
  | nil => exact pairwise_singleton R a
  | cons b xs ih =>
    obtain ⟨hb, hrest⟩ := List.pairwise_cons.mp hxs
    rw [List.orderedInsert]
    split
    · rename_i hab
      have hfirst := hin b mem_cons_self hab
      refine List.pairwise_cons.mpr ⟨fun c hc => ?_, hxs⟩
      rcases List.mem_cons.mp hc with rfl | hc
      · exact hfirst
      · exact htrans a b c hfirst (hb c hc)
    · rename_i hab
      refine List.pairwise_cons.mpr ⟨fun c hc => ?_, ih hrest
        (fun c hc => hin c (mem_cons_of_mem b hc))
        fun c hc => hout c (mem_cons_of_mem b hc)⟩
      rcases (mem_orderedInsert r).mp hc with rfl | hc
      · exact hout b mem_cons_self hab
      · exact hb c hc

theorem countP_le_of_subset {xs : List α} (h : xs.Nodup) {p : α → Bool} {zs : List α}
    (hsub : ∀ i ∈ xs, p i = true → i ∈ zs) : xs.countP p ≤ zs.length := by
  rw [countP_eq_length_filter]
  refine ((h.filter p).subperm fun i hi => ?_).length_le
  obtain ⟨hmem, hp⟩ := List.mem_filter.mp hi
  exact hsub i hmem hp

theorem le_countP_of_subset {xs : List α} {p : α → Bool} {zs : List α} (h : zs.Nodup)
    (hsub : ∀ i ∈ zs, i ∈ xs ∧ p i = true) : zs.length ≤ xs.countP p := by
  rw [countP_eq_length_filter]
  exact (h.subperm fun i hi => List.mem_filter.mpr (hsub i hi)).length_le

variable {κ : Type} [LinearOrder κ]

/-- The value first, and among equal values the position. -/
def stableKey (f : α → κ) (pos : α → Nat) (a : α) : κ ×ₗ Natᵒᵈ :=
  toLex (f a, OrderDual.toDual (pos a))

theorem stableKey_lt {f : α → κ} {pos : α → Nat} {a b : α} :
    stableKey f pos b < stableKey f pos a ↔ f b < f a ∨ f b = f a ∧ pos a < pos b := by
  unfold stableKey
  rw [Prod.Lex.toLex_lt_toLex]
  exact Iff.rfl

theorem pairwise_stable {f : α → κ} {pos : α → Nat} {xs : List α}
    (hxs : xs.Pairwise fun a b => pos a < pos b) :
    (xs.insertionSort fun a b => f b ≤ f a).Pairwise
      fun a b => stableKey f pos b < stableKey f pos a := by
  induction xs with
  | nil => exact .nil
  | cons a xs ih =>
    obtain ⟨ha, hrest⟩ := List.pairwise_cons.mp hxs
    rw [insertionSort_cons]
    refine pairwise_orderedInsert (fun x y z hxy hyz => lt_trans hyz hxy) (ih hrest) ?_ ?_
    · intro b hb hab
      have hpos := ha b ((mem_insertionSort _).mp hb)
      rw [stableKey_lt]
      exact (lt_or_eq_of_le hab).imp_right fun heq => ⟨heq, hpos⟩
    · intro b hb hab
      exact stableKey_lt.mpr (.inl (not_le.mp hab))

end

/-! ## Positions -/

section

variable {ι : Type} [DecidableEq ι]

theorem pairwise_idxOf_append {xs : List ι} (h : xs.Nodup) (zs : List ι) :
    xs.Pairwise fun a b => (xs ++ zs).idxOf a < (xs ++ zs).idxOf b := by
  induction xs with
  | nil => exact .nil
  | cons x xs ih =>
    obtain ⟨hx, hxs⟩ := List.nodup_cons.mp h
    have hne : ∀ a ∈ xs, x ≠ a := fun a ha heq => hx (heq ▸ ha)
    refine List.pairwise_cons.mpr ⟨fun b hb => ?_, (ih hxs).imp_of_mem ?_⟩
    · rw [cons_append, idxOf_cons_self, idxOf_cons_ne _ (hne b hb)]
      exact Nat.succ_pos _
    · intro a b ha hb hab
      rw [cons_append, idxOf_cons_ne _ (hne a ha), idxOf_cons_ne _ (hne b hb)]
      exact Nat.succ_lt_succ hab

theorem rel_of_idxOf_lt {R : ι → ι → Prop} {xs : List ι} (h : xs.Pairwise R) {a b : ι}
    (hb : b ∈ xs) (hlt : xs.idxOf a < xs.idxOf b) : R a b := by
  have hblt := idxOf_lt_length_of_mem hb
  have hrel := List.pairwise_iff_getElem.mp h _ _ (Nat.lt_trans hlt hblt) hblt hlt
  rwa [getElem_idxOf, getElem_idxOf] at hrel

/-- The ids of both rankings, as they are first seen. -/
def firstSeen (xs ys : List ι) : List ι := xs ++ ys.filter fun i => decide (i ∉ xs)

theorem mem_firstSeen {xs ys : List ι} {i : ι} : i ∈ firstSeen xs ys ↔ i ∈ xs ∨ i ∈ ys := by
  unfold firstSeen
  rw [mem_append, List.mem_filter, decide_eq_true_iff]
  by_cases h : i ∈ xs
  · exact iff_of_true (.inl h) (.inl h)
  · exact or_congr_right (and_iff_left h)

theorem pairwise_firstSeen {xs ys : List ι} (hxs : xs.Nodup) (hys : ys.Nodup) :
    (firstSeen xs ys).Pairwise fun a b => (xs ++ ys).idxOf a < (xs ++ ys).idxOf b := by
  unfold firstSeen
  rw [pairwise_append]
  have hsecond : ∀ b ∈ ys.filter fun i => decide (i ∉ xs), b ∉ xs := fun b hb =>
    of_decide_eq_true (List.mem_filter.mp hb).2
  refine ⟨pairwise_idxOf_append hxs ys, ?_, fun a ha b hb => ?_⟩
  · have hpair := pairwise_idxOf_append hys []
    rw [append_nil] at hpair
    refine (hpair.sublist filter_sublist).imp_of_mem fun {a b} ha hb hab => ?_
    rw [idxOf_append_of_notMem (hsecond a ha), idxOf_append_of_notMem (hsecond b hb)]
    exact Nat.add_lt_add_left hab _
  · rw [idxOf_append_of_mem ha, idxOf_append_of_notMem (hsecond b hb)]
    exact Nat.lt_of_lt_of_le (idxOf_lt_length_of_mem ha) (Nat.le_add_right _ _)

theorem nodup_firstSeen {xs ys : List ι} (hxs : xs.Nodup) (hys : ys.Nodup) :
    (firstSeen xs ys).Nodup :=
  (pairwise_firstSeen hxs hys).imp fun {i j} h (heq : i = j) => Nat.lt_irrefl _ (heq ▸ h)

/-! ## Scores -/

/-- What a ranking gives an id. -/
def share (k : Nat) (xs : List ι) (i : ι) : ℚ :=
  if i ∈ xs then 1 / ((k : ℚ) + xs.idxOf i + 1) else 0

def fusedScore (k : Nat) (xs ys : List ι) (i : ι) : ℚ := share k xs i + share k ys i

variable {k : Nat} {xs ys : List ι} {i j : ι}

theorem share_of_mem (h : i ∈ xs) : share k xs i = 1 / ((k : ℚ) + xs.idxOf i + 1) := if_pos h

theorem share_of_not_mem (h : i ∉ xs) : share k xs i = 0 := if_neg h

theorem share_nonneg (k : Nat) (xs : List ι) (i : ι) : 0 ≤ share k xs i := by
  unfold share
  split
  · positivity
  · exact le_refl 0

theorem share_pos (h : i ∈ xs) : 0 < share k xs i := by
  rw [share_of_mem h]
  positivity

theorem share_le (k : Nat) (xs : List ι) (i : ι) : share k xs i ≤ 1 / ((k : ℚ) + 1) := by
  unfold share
  split
  · apply one_div_le_one_div_of_le (by positivity)
    have hnonneg : (0 : ℚ) ≤ xs.idxOf i := Nat.cast_nonneg _
    linarith
  · positivity

theorem share_head (k : Nat) (x : ι) (xs : List ι) : share k (x :: xs) x = 1 / ((k : ℚ) + 1) := by
  rw [share_of_mem mem_cons_self, idxOf_cons_self, Nat.cast_zero, add_zero]

theorem share_tail_lt (hi : i ≠ j) : share k (j :: xs) i < 1 / ((k : ℚ) + 1) := by
  by_cases hmem : i ∈ j :: xs
  · rw [share_of_mem hmem, idxOf_cons_ne _ hi.symm]
    apply one_div_lt_one_div_of_lt (by positivity)
    have hnonneg : (0 : ℚ) ≤ xs.idxOf i := Nat.cast_nonneg _
    push_cast
    linarith
  · rw [share_of_not_mem hmem]
    positivity

theorem le_share (h : i ∈ xs) : 1 / ((k : ℚ) + xs.length) ≤ share k xs i := by
  rw [share_of_mem h]
  apply one_div_le_one_div_of_le (by positivity)
  have hlt : ((xs.idxOf i + 1 : ℕ) : ℚ) ≤ xs.length :=
    Nat.cast_le.mpr (idxOf_lt_length_of_mem h)
  push_cast at hlt
  linarith

theorem fusedScore_lt_of_shared (hxs : xs.length ≤ k + 1) (hys : ys.length ≤ k + 1)
    (hi : i ∈ xs ∧ i ∈ ys) (hj : ¬ (j ∈ xs ∧ j ∈ ys)) :
    fusedScore k xs ys j < fusedScore k xs ys i := by
  have hlow : ∀ zs : List ι, zs.length ≤ k + 1 → i ∈ zs → 1 / (2 * (k : ℚ) + 1) ≤ share k zs i := by
    intro zs hlen hmem
    refine le_trans ?_ (le_share hmem)
    have hpos : 0 < zs.length := length_pos_of_mem hmem
    have hcast : (zs.length : ℚ) ≤ k + 1 := by exact_mod_cast hlen
    have hone : (1 : ℚ) ≤ zs.length := by exact_mod_cast hpos
    apply one_div_le_one_div_of_le (by positivity)
    linarith
  have hhigh : fusedScore k xs ys j ≤ 1 / ((k : ℚ) + 1) := by
    unfold fusedScore
    by_cases hjx : j ∈ xs
    · rw [share_of_not_mem fun hjy => hj ⟨hjx, hjy⟩, add_zero]
      exact share_le k xs j
    · rw [share_of_not_mem hjx, zero_add]
      exact share_le k ys j
  have hgap : 1 / ((k : ℚ) + 1) < 1 / (2 * (k : ℚ) + 1) + 1 / (2 * (k : ℚ) + 1) := by
    rw [← add_div, div_lt_div_iff₀ (by positivity) (by positivity)]
    linarith
  have hleft := hlow xs hxs hi.1
  have hright := hlow ys hys hi.2
  unfold fusedScore at *
  linarith

/-- Two ranks together come up to the first rank of one ranking exactly if the product of the
positions does not exceed the square of that rank. -/
theorem le_fusedScore_iff (hx : i ∈ xs) (hy : i ∈ ys) :
    1 / ((k : ℚ) + 1) ≤ fusedScore k xs ys i ↔ xs.idxOf i * ys.idxOf i ≤ (k + 1) ^ 2 := by
  unfold fusedScore
  rw [share_of_mem hx, share_of_mem hy]
  generalize xs.idxOf i = a
  generalize ys.idxOf i = b
  rw [div_add_div _ _ (by positivity) (by positivity), div_le_div_iff₀ (by positivity)
    (by positivity), ← @Nat.cast_le ℚ]
  push_cast
  constructor
  · intro h
    nlinarith only [h]
  · intro h
    nlinarith only [h]

/-! ## The fused ranking -/

def fusedRanking (k : Nat) (xs ys : List ι) : List ι :=
  (firstSeen xs ys).insertionSort fun i j => fusedScore k xs ys j ≤ fusedScore k xs ys i

/-- The place of an id in the fused ranking. -/
def fusedKey (k : Nat) (xs ys : List ι) : ι → ℚ ×ₗ Natᵒᵈ :=
  stableKey (fusedScore k xs ys) fun i => (xs ++ ys).idxOf i

theorem fusedKey_lt : fusedKey k xs ys j < fusedKey k xs ys i ↔
    fusedScore k xs ys j < fusedScore k xs ys i ∨
      fusedScore k xs ys j = fusedScore k xs ys i ∧ (xs ++ ys).idxOf i < (xs ++ ys).idxOf j :=
  stableKey_lt

theorem mem_fusedRanking : i ∈ fusedRanking k xs ys ↔ i ∈ xs ∨ i ∈ ys :=
  (mem_insertionSort _).trans mem_firstSeen

theorem pairwise_fusedRanking (hxs : xs.Nodup) (hys : ys.Nodup) :
    (fusedRanking k xs ys).Pairwise fun i j => fusedKey k xs ys j < fusedKey k xs ys i :=
  pairwise_stable (pairwise_firstSeen hxs hys)

theorem nodup_fusedRanking (hxs : xs.Nodup) (hys : ys.Nodup) : (fusedRanking k xs ys).Nodup :=
  (@pairwise_fusedRanking _ _ k xs ys hxs hys).imp fun {i j} h (heq : i = j) =>
    lt_irrefl _ (heq ▸ h)

theorem length_fusedRanking (hxs : xs.Nodup) (hys : ys.Nodup) :
    (fusedRanking k xs ys).length = (xs.toFinset ∪ ys.toFinset).card := by
  have hsame : (firstSeen xs ys).toFinset = xs.toFinset ∪ ys.toFinset := by
    ext i
    rw [mem_toFinset, mem_firstSeen, Finset.mem_union, mem_toFinset, mem_toFinset]
  rw [fusedRanking, length_insertionSort, ← hsame,
    toFinset_card_of_nodup (nodup_firstSeen hxs hys)]

theorem mem_take_fusedRanking (hxs : xs.Nodup) (hys : ys.Nodup) (n : Nat) :
    i ∈ (fusedRanking k xs ys).take n ↔ (i ∈ xs ∨ i ∈ ys) ∧
      (firstSeen xs ys).countP (fun j => fusedKey k xs ys i < fusedKey k xs ys j) < n := by
  have hperm : (fusedRanking k xs ys).Perm (firstSeen xs ys) := perm_insertionSort _ _
  rw [mem_take_of_pairwise (pairwise_fusedRanking hxs hys), hperm.countP_eq, mem_fusedRanking]

/-! ## The first entries -/

theorem mem_both_of_lt (h : 1 / ((k : ℚ) + 1) < fusedScore k xs ys i) : i ∈ xs ∧ i ∈ ys := by
  have hx := share_le k xs i
  have hy := share_le k ys i
  unfold fusedScore at h
  constructor
  · by_contra hnot
    rw [share_of_not_mem hnot] at h
    linarith
  · by_contra hnot
    rw [share_of_not_mem hnot] at h
    linarith

variable {n : Nat}

theorem left_mem_take {x : ι} (hxs : (x :: xs).Nodup) (hys : ys.Nodup) (hn : xs.length < n) :
    x ∈ (fusedRanking k (x :: xs) ys).take n := by
  rw [mem_take_fusedRanking hxs hys]
  refine ⟨.inl mem_cons_self, Nat.lt_of_le_of_lt ?_ hn⟩
  refine countP_le_of_subset (nodup_firstSeen hxs hys) fun i _ hi => ?_
  have hscore : 1 / ((k : ℚ) + 1) ≤ fusedScore k (x :: xs) ys x := by
    unfold fusedScore
    rw [share_head]
    have hnonneg := share_nonneg k ys x
    linarith
  rcases fusedKey_lt.mp (of_decide_eq_true hi) with hlt | ⟨-, hidx⟩
  · rcases List.mem_cons.mp (mem_both_of_lt (lt_of_le_of_lt hscore hlt)).1 with rfl | hmem
    · exact absurd hlt (lt_irrefl _)
    · exact hmem
  · rw [cons_append, idxOf_cons_self] at hidx
    exact absurd hidx (Nat.not_lt_zero _)

/-- Both rankings have `n` entries, the first of either is in that one alone, the others are the
same and each of them is level with the first. -/
structure Displaced (k n : Nat) (x : ι) (xs : List ι) (y : ι) (ys : List ι) : Prop where
  left_length : xs.length + 1 = n
  right_length : ys.length + 1 = n
  left_only : x ∉ y :: ys
  right_only : y ∉ x :: xs
  same : ∀ i, i ∈ xs ↔ i ∈ ys
  level : ∀ i ∈ xs, (x :: xs).idxOf i * (y :: ys).idxOf i ≤ (k + 1) ^ 2

theorem fusedScore_right {y : ι} (hy : y ∉ xs) :
    fusedScore k xs (y :: ys) y = 1 / ((k : ℚ) + 1) := by
  unfold fusedScore
  rw [share_of_not_mem hy, share_head, zero_add]

/-- What is above the first of the right ranking is in the rest of that ranking, if that first one
is in the left ranking too. -/
theorem above_right_of_shared {y : ι} (hy : y ∈ xs)
    (h : fusedKey k xs (y :: ys) y < fusedKey k xs (y :: ys) i) : i ∈ ys := by
  have hscore : 1 / ((k : ℚ) + 1) < fusedScore k xs (y :: ys) y := by
    unfold fusedScore
    rw [share_head]
    have hpos := share_pos hy (k := k)
    linarith
  have hne : i ≠ y := fun heq => lt_irrefl _ (heq ▸ h)
  have hle : fusedScore k xs (y :: ys) y ≤ fusedScore k xs (y :: ys) i := by
    rcases fusedKey_lt.mp h with hlt | ⟨heq, -⟩
    · exact le_of_lt hlt
    · exact le_of_eq heq
  exact (List.mem_cons.mp (mem_both_of_lt (lt_of_lt_of_le hscore hle)).2).resolve_left hne

variable {x y : ι}

theorem above_right_cases (hy : y ∉ x :: xs)
    (h : fusedKey k (x :: xs) (y :: ys) y < fusedKey k (x :: xs) (y :: ys) i) :
    (i = x ∧ x ∉ y :: ys) ∨ (i ∈ x :: xs ∧ i ∈ ys ∧
      (x :: xs).idxOf i * (y :: ys).idxOf i ≤ (k + 1) ^ 2) := by
  have hne : i ≠ y := fun heq => lt_irrefl _ (heq ▸ h)
  have hle : 1 / ((k : ℚ) + 1) ≤ fusedScore k (x :: xs) (y :: ys) i := by
    rw [← @fusedScore_right _ _ k _ ys _ hy]
    rcases fusedKey_lt.mp h with hlt | ⟨heq, -⟩
    · exact le_of_lt hlt
    · exact le_of_eq heq
  by_cases hboth : i ∈ x :: xs ∧ i ∈ y :: ys
  · exact .inr ⟨hboth.1, (List.mem_cons.mp hboth.2).resolve_left hne,
      (le_fusedScore_iff hboth.1 hboth.2).mp hle⟩
  · left
    have hright : share k (y :: ys) i < 1 / ((k : ℚ) + 1) := share_tail_lt hne
    by_cases hix : i = x
    · subst hix
      exact ⟨rfl, fun hmem => hboth ⟨mem_cons_self, hmem⟩⟩
    · have hleft : share k (x :: xs) i < 1 / ((k : ℚ) + 1) := share_tail_lt hix
      unfold fusedScore at hle
      by_cases hmem : i ∈ x :: xs
      · rw [share_of_not_mem fun hiy => hboth ⟨hmem, hiy⟩, add_zero] at hle
        exact absurd hle (not_le.mpr hleft)
      · rw [share_of_not_mem hmem, zero_add] at hle
        exact absurd hle (not_le.mpr hright)

theorem above_of_displaced (h : Displaced k n x xs y ys) (hi : i ∈ x :: xs) :
    fusedKey k (x :: xs) (y :: ys) y < fusedKey k (x :: xs) (y :: ys) i := by
  have hscore := @fusedScore_right _ _ k _ ys _ h.right_only
  have hidx : (x :: xs ++ y :: ys).idxOf i < (x :: xs ++ y :: ys).idxOf y := by
    rw [idxOf_append_of_mem hi, idxOf_append_of_notMem h.right_only]
    exact Nat.lt_of_lt_of_le (idxOf_lt_length_of_mem hi) (Nat.le_add_right _ _)
  have hle : 1 / ((k : ℚ) + 1) ≤ fusedScore k (x :: xs) (y :: ys) i := by
    rcases List.mem_cons.mp hi with rfl | hmem
    · unfold fusedScore
      rw [share_head, share_of_not_mem h.left_only, add_zero]
    · have hright := mem_cons_of_mem y ((h.same i).mp hmem)
      exact (le_fusedScore_iff hi hright).mpr (h.level i hmem)
  rw [fusedKey_lt, hscore]
  exact (lt_or_eq_of_le hle).imp_right fun heq => ⟨heq, hidx⟩

theorem displaced_of_full (hxs : (x :: xs).Nodup) (hleft : xs.length + 1 = n)
    (hright : ys.length + 1 = n) (hx : x ∉ y :: ys) (hy : y ∉ x :: xs)
    (hlevel : ∀ i ∈ xs, i ∈ ys ∧ (x :: xs).idxOf i * (y :: ys).idxOf i ≤ (k + 1) ^ 2) :
    Displaced k n x xs y ys := by
  have hnodup := (List.nodup_cons.mp hxs).2
  have hsub : xs.Subperm ys := hnodup.subperm fun i hi => (hlevel i hi).1
  have hperm : xs.Perm ys := hsub.perm_of_length_le (by omega)
  exact ⟨hleft, hright, hx, hy, fun i => hperm.mem_iff, fun i hi => (hlevel i hi).2⟩

theorem right_mem_take_iff (hxs : (x :: xs).Nodup) (hys : (y :: ys).Nodup) (hn : xs.length < n)
    (hn' : ys.length < n) :
    y ∈ (fusedRanking k (x :: xs) (y :: ys)).take n ↔ ¬ Displaced k n x xs y ys := by
  rw [mem_take_fusedRanking hxs hys, and_iff_right (.inr mem_cons_self)]
  have hseen := nodup_firstSeen hxs hys
  constructor
  · intro hfew hdisplaced
    have hmany : (x :: xs).length ≤ (firstSeen (x :: xs) (y :: ys)).countP
        fun j => fusedKey k (x :: xs) (y :: ys) y < fusedKey k (x :: xs) (y :: ys) j :=
      le_countP_of_subset hxs fun i hi =>
        ⟨mem_firstSeen.mpr (.inl hi), decide_eq_true (above_of_displaced hdisplaced hi)⟩
    have hlength := hdisplaced.left_length
    rw [length_cons] at hmany
    omega
  · intro hnot
    -- what is above is listed in `zs`, which is short
    have hbound : ∀ zs : List ι, zs.length < n →
        (∀ i, fusedKey k (x :: xs) (y :: ys) y < fusedKey k (x :: xs) (y :: ys) i → i ∈ zs) →
        (firstSeen (x :: xs) (y :: ys)).countP
          (fun j => fusedKey k (x :: xs) (y :: ys) y < fusedKey k (x :: xs) (y :: ys) j) < n :=
      fun zs hzs hsub => Nat.lt_of_le_of_lt
        (countP_le_of_subset hseen fun i _ hi => hsub i (of_decide_eq_true hi)) hzs
    by_cases hy : y ∈ x :: xs
    · exact hbound ys hn' fun i hi => above_right_of_shared hy hi
    · have hcases := fun i => @above_right_cases ι _ k xs ys i x y hy
      by_cases hx : x ∈ y :: ys
      · exact hbound ys hn' fun i hi => ((hcases i hi).resolve_left fun h => h.2 hx).2.1
      · by_cases hleft : xs.length + 1 < n
        · refine hbound (x :: xs) hleft fun i hi => ?_
          rcases hcases i hi with ⟨rfl, -⟩ | ⟨hmem, -⟩
          · exact mem_cons_self
          · exact hmem
        · by_cases hright : ys.length + 1 < n
          · refine hbound (x :: ys) hright fun i hi => ?_
            rcases hcases i hi with ⟨rfl, -⟩ | ⟨-, hmem, -⟩
            · exact mem_cons_self
            · exact mem_cons_of_mem x hmem
          · by_contra hmany
            refine hnot (displaced_of_full hxs (by omega) (by omega) hx hy fun i hi => ?_)
            by_contra hlow
            refine hmany (hbound (x :: xs.erase i) ?_ fun j hj => ?_)
            · have hpos := length_pos_of_mem hi
              rw [length_cons, length_erase_of_mem hi]
              omega
            · rcases hcases j hj with ⟨rfl, -⟩ | ⟨hmem, hother, hlevel⟩
              · exact mem_cons_self
              · rcases List.mem_cons.mp hmem with rfl | hmem
                · exact mem_cons_self
                · have hne : j ≠ i := fun heq => hlow (heq ▸ ⟨hother, hlevel⟩)
                  exact mem_cons_of_mem x ((mem_erase_of_ne hne).mpr hmem)

theorem right_mem_take_nil {y : ι} (hys : (y :: ys).Nodup) (hn : ys.length < n) :
    y ∈ (fusedRanking k [] (y :: ys)).take n := by
  rw [mem_take_fusedRanking nodup_nil hys, and_iff_right (.inr mem_cons_self)]
  refine Nat.lt_of_le_of_lt (countP_le_of_subset (nodup_firstSeen nodup_nil hys)
    fun i hi habove => ?_) hn
  have hne : i ≠ y := fun heq => lt_irrefl _ (heq ▸ of_decide_eq_true habove)
  exact (List.mem_cons.mp ((mem_firstSeen.mp hi).resolve_left not_mem_nil)).resolve_left hne

end

end GenieClaw.Library
