import Mathlib.Data.List.Sort

/-!
# The first rows of a sorted list

A stable sort and a cut. Whether a row is among the first `k` of the sorted list is told from the
unsorted one, by counting what comes before it.

* `mem_take_insertionSort`, `mem_shortlist_iff`: a row is taken exactly when few come before it.
-/

namespace GenieClaw.Library.Leading

open List
variable {α : Type} (le earlier : α → α → Prop)

/-- `y` is sorted before `x`: it is the lesser, or as good and listed earlier. -/
def Before (y x : α) : Prop := le y x ∧ (le x y → earlier y x)

instance [DecidableRel le] [DecidableRel earlier] : DecidableRel (Before le earlier) := fun y x =>
  inferInstanceAs (Decidable (le y x ∧ (le x y → earlier y x)))

/-- The rows that come before `x`. -/
def ahead [DecidableRel le] [DecidableRel earlier] (rows : List α) (x : α) : List α :=
  rows.filter fun y => Before le earlier y x

variable {le earlier}

/-- An order of the positions. -/
structure Positions (earlier : α → α → Prop) (rows : List α) : Prop where
  listed : rows.Pairwise earlier
  asymm : ∀ {x y}, earlier x y → ¬ earlier y x

variable {rows : List α}

theorem Positions.nodup (h : Positions earlier rows) : rows.Nodup :=
  h.listed.imp fun {x y} hxy => by
    rintro rfl
    exact h.asymm hxy hxy

theorem Positions.sublist {rows part : List α} (h : Positions earlier rows)
    (hpart : part.Sublist rows) : Positions earlier part :=
  ⟨h.listed.sublist hpart, h.asymm⟩

theorem Positions.pair (h : Positions earlier rows) {x y : α} (hx : x ∈ rows) (hy : y ∈ rows)
    (hne : y ≠ x) : (earlier y x ∧ [y, x].Sublist rows) ∨ (earlier x y ∧ [x, y].Sublist rows) := by
  obtain ⟨listed, asymm⟩ := h
  induction rows with
  | nil => cases hx
  | cons row rest ih =>
    obtain ⟨hrow, hrest⟩ := List.pairwise_cons.mp listed
    rcases List.mem_cons.mp hx with rfl | hxrest
    · have hy := (List.mem_cons.mp hy).resolve_left hne
      exact Or.inr ⟨hrow y hy, (List.singleton_sublist.mpr hy).cons_cons x⟩
    · rcases List.mem_cons.mp hy with rfl | hy
      · exact Or.inl ⟨hrow x hxrest, (List.singleton_sublist.mpr hxrest).cons_cons y⟩
      · rcases ih hxrest hy hrest with ⟨hyx, hsub⟩ | ⟨hxy, hsub⟩
        · exact Or.inl ⟨hyx, hsub.cons row⟩
        · exact Or.inr ⟨hxy, hsub.cons row⟩

theorem filter_earlier [DecidableRel earlier] {rows before after : List α} {x : α}
    (h : Positions earlier rows) (hsplit : rows = before ++ x :: after) :
    (rows.filter fun y => earlier y x) = before := by
  subst hsplit
  obtain ⟨-, hafter, hcross⟩ := List.pairwise_append.mp h.listed
  have hself : ¬ earlier x x := fun hxx => h.asymm hxx hxx
  have hbefore : (before.filter fun y => earlier y x) = before :=
    List.filter_eq_self.mpr fun y hy => decide_eq_true (hcross y hy x mem_cons_self)
  have hrest : (after.filter fun y => earlier y x) = [] := List.filter_eq_nil_iff.mpr fun y hy => by
      rw [decide_eq_true_iff]
      exact h.asymm ((List.pairwise_cons.mp hafter).1 y hy)
  rw [filter_append, filter_cons_of_neg (by rwa [decide_eq_true_iff]), hbefore, hrest,
    append_nil]

theorem not_sublist_swap (hnodup : rows.Nodup) {x y : α} (hyx : [y, x].Sublist rows) :
    ¬ [x, y].Sublist rows := by
  intro hxy
  induction rows with
  | nil => cases hyx
  | cons row rest ih =>
    obtain ⟨hrow, hrest⟩ := List.nodup_cons.mp hnodup
    cases hyx with
    | cons _ hyx =>
      cases hxy with
      | cons _ hxy => exact ih hrest hyx hxy
      | cons_cons _ hxy => exact hrow (hyx.subset (by simp))
    | cons_cons _ hx =>
      cases hxy with
      | cons _ hxy => exact hrow (hxy.subset (by simp))
      | cons_cons _ hy => exact hrow (List.singleton_sublist.mp hx)

/-- Where the list goes by its positions, a row is among the first `k` when fewer rows stand
before it. -/
theorem mem_take_iff [DecidableRel earlier] (h : Positions earlier rows) {k : Nat} {x : α} :
    x ∈ rows.take k ↔ x ∈ rows ∧ (rows.filter fun y => earlier y x).length < k := by
  constructor
  · intro hx
    obtain ⟨before, after, hsplit⟩ := append_of_mem (mem_of_mem_take hx)
    refine ⟨mem_of_mem_take hx, ?_⟩
    rw [filter_earlier h hsplit]
    by_contra hlong
    have hnodup := h.nodup
    rw [hsplit] at hx hnodup
    rw [take_append_of_le_length (Nat.le_of_not_lt hlong)] at hx
    exact (List.nodup_middle.mp hnodup).notMem
      (mem_append_left after (mem_of_mem_take hx))
  · rintro ⟨hx, hfew⟩
    obtain ⟨before, after, hsplit⟩ := append_of_mem hx
    rw [filter_earlier h hsplit] at hfew
    rw [hsplit, take_append]
    obtain ⟨n, hn⟩ := Nat.exists_eq_add_of_lt hfew
    rw [hn, show before.length + n + 1 - before.length = n + 1 by omega]
    exact mem_append_right _ mem_cons_self

variable [DecidableRel le] [Std.Total le] [IsTrans α le]

theorem pairwise_before (h : Positions earlier rows) :
    (rows.insertionSort le).Pairwise (Before le earlier) := by
  have hsorted := pairwise_insertionSort le rows
  have hnodup : (rows.insertionSort le).Nodup :=
    (perm_insertionSort le rows).nodup_iff.mpr h.nodup
  rw [pairwise_iff_forall_sublist] at hsorted ⊢
  intro y x hsub
  refine ⟨hsorted hsub, fun hxy => ?_⟩
  have hmem : ∀ z ∈ [y, x], z ∈ rows := fun z hz =>
    (mem_insertionSort le).mp (hsub.subset hz)
  have hne : y ≠ x := by
    rintro rfl
    exact List.nodup_iff_sublist.mp hnodup y hsub
  rcases h.pair (hmem x (by simp)) (hmem y (by simp)) hne with ⟨hyx, -⟩ | ⟨-, hback⟩
  · exact hyx
  · -- as good and listed later: the sort would have kept `x` in front
    have hback := pair_sublist_insertionSort hxy hback
    exact absurd hback (not_sublist_swap hnodup hsub)

theorem positions_before (h : Positions earlier rows) :
    Positions (Before le earlier) (rows.insertionSort le) where
  listed := pairwise_before h
  asymm := fun hxy hyx => h.asymm (hxy.2 hyx.1) (hyx.2 hxy.1)

theorem mem_take_insertionSort [DecidableRel earlier] (h : Positions earlier rows) {k : Nat}
    {x : α} :
    x ∈ (rows.insertionSort le).take k ↔ x ∈ rows ∧ (ahead le earlier rows x).length < k := by
  have hperm := perm_insertionSort le rows
  rw [mem_take_iff (positions_before h), hperm.mem_iff, (hperm.filter _).length_eq]
  rfl

/-! ## Sorted and cut twice -/

/-- The place in the list. -/
def listedBefore [DecidableEq α] (rows : List α) (y x : α) : Prop := rows.idxOf y < rows.idxOf x

instance [DecidableEq α] (rows : List α) : DecidableRel (listedBefore rows) := fun y x =>
  inferInstanceAs (Decidable (rows.idxOf y < rows.idxOf x))

theorem positions_listedBefore [DecidableEq α] (h : rows.Nodup) :
    Positions (listedBefore rows) rows where
  listed := by
    rw [pairwise_iff_getElem]
    intro i j hi hj hij
    unfold listedBefore
    rwa [h.idxOf_getElem i hi, h.idxOf_getElem j hj]
  asymm hxy hyx := Nat.lt_asymm hxy hyx

section

variable (le le' : α → α → Prop) [DecidableRel le] [DecidableRel le'] [DecidableEq α]

/-- The first `many` by one order, and of these the first `few` by another one. -/
def shortlist (many few : Nat) (rows : List α) : List α :=
  (((rows.insertionSort le).take many).insertionSort le').take few

/-- The rows that fewer than `many` come before. -/
def foremost (many : Nat) (rows : List α) : List α :=
  rows.filter fun x => (ahead le (listedBefore rows) rows x).length < many

/-- Fewer than `many` rows come before it by the one order, and of the rows of which this holds
fewer than `few` by the other one. -/
def Shortlisted (many few : Nat) (rows : List α) (x : α) : Prop :=
  x ∈ foremost le many rows ∧
    (ahead le' (Before le (listedBefore rows)) (foremost le many rows) x).length < few

variable {le le'}

/-- Where there are few rows, every one of them is taken. -/
theorem shortlisted_of_few {many few : Nat} {x : α} (hx : x ∈ rows) (hmany : rows.length < many)
    (hfew : rows.length < few) : Shortlisted le le' many few rows x := by
  have hforemost : (foremost le many rows).length ≤ rows.length := length_filter_le _ _
  refine ⟨List.mem_filter.mpr ⟨hx, decide_eq_true ?_⟩, ?_⟩
  · exact (length_filter_le _ _).trans_lt hmany
  · exact ((length_filter_le _ _).trans hforemost).trans_lt hfew

variable [Std.Total le] [IsTrans α le] [Std.Total le'] [IsTrans α le']

theorem mem_shortlist_iff {many few : Nat} (h : rows.Nodup) {x : α} :
    x ∈ shortlist le le' many few rows ↔ Shortlisted le le' many few rows x := by
  have hpositions := positions_listedBefore h
  have hfirst := (positions_before hpositions).sublist
    (take_sublist many (rows.insertionSort le))
  have hmem : ∀ y, y ∈ (rows.insertionSort le).take many ↔ y ∈ foremost le many rows := by
    intro y
    rw [mem_take_insertionSort hpositions, foremost, List.mem_filter, decide_eq_true_iff]
  have hperm : ((rows.insertionSort le).take many).Perm (foremost le many rows) :=
    (perm_ext_iff_of_nodup hfirst.nodup (h.filter _)).mpr hmem
  unfold shortlist Shortlisted
  rw [mem_take_insertionSort hfirst, hmem]
  unfold ahead
  rw [(hperm.filter _).length_eq]

end

end GenieClaw.Library.Leading
