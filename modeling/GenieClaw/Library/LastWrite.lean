import Mathlib.Data.List.MinMax

/-!
# The last write and the newest stamp

Writes in the order in which they were made, each with the keys that it names, a verdict on them
and a stamp. Whoever has no more than the stamps finds the newest write of a key instead of the
last one.
-/

namespace GenieClaw.Library.LastWrite

open List
section

variable {α κ σ : Type} [LinearOrder σ]

/-- A write of the key that no other one has a larger stamp than. -/
structure Newest (names : α → List κ) (stamp : α → σ) (log : List α) (k : κ) (a : α) : Prop where
  mem : a ∈ log
  named : k ∈ names a
  newest : ∀ b ∈ log, k ∈ names b → stamp b ≤ stamp a

/-- Of two writes of a key the later one has the larger stamp, or the same verdict. -/
def InOrder (names : α → List κ) (verdict : α → Bool) (stamp : α → σ) (log : List α) : Prop :=
  log.Pairwise fun a b => ∀ k ∈ names a, k ∈ names b → verdict a = verdict b ∨ stamp a < stamp b

variable {names : α → List κ} {verdict : α → Bool} {stamp : α → σ} {log : List α} {k : κ}

theorem InOrder.filter (h : InOrder names verdict stamp log) (p : α → Bool) :
    InOrder names verdict stamp (log.filter p) := List.Pairwise.filter p h

theorem InOrder.append (h : InOrder names verdict stamp log) {more : List α}
    (hmore : InOrder names verdict stamp more)
    (hnew : ∀ a ∈ log, ∀ b ∈ more, ∀ k ∈ names a, k ∈ names b →
      verdict a = verdict b ∨ stamp a < stamp b) :
    InOrder names verdict stamp (log ++ more) := List.pairwise_append.mpr ⟨h, hmore, hnew⟩

variable [DecidableEq κ]

/-- The last write that names the key. -/
def last (names : α → List κ) (log : List α) (k : κ) : Option α :=
  log.reverse.find? fun a => k ∈ names a

theorem last_eq_some {b : α} : last names log k = some b ↔
    k ∈ names b ∧ ∃ before after, log = before ++ b :: after ∧ ∀ c ∈ after, k ∉ names c := by
  unfold last
  rw [find?_eq_some_iff_append]
  simp only [decide_eq_true_eq, Bool.not_eq_true', decide_eq_false_iff_not]
  refine and_congr_right fun _ => ?_
  constructor
  · rintro ⟨as, bs, hlog, hnone⟩
    refine ⟨bs.reverse, as.reverse, ?_, fun c hc => hnone c (List.mem_reverse.mp hc)⟩
    rw [← reverse_reverse log, hlog]
    simp
  · rintro ⟨before, after, rfl, hnone⟩
    exact ⟨after.reverse, before.reverse, by simp, fun c hc => hnone c (List.mem_reverse.mp hc)⟩

theorem exists_last {b : α} (hb : b ∈ log) (hk : k ∈ names b) : ∃ c, last names log k = some c := by
  rw [← Option.isSome_iff_exists, last, find?_isSome]
  exact ⟨b, List.mem_reverse.mpr hb, decide_eq_true hk⟩

theorem exists_newest (stamp : α → σ) {b : α} (hb : b ∈ log) (hk : k ∈ names b) :
    ∃ a, Newest names stamp log k a := by
  have hmem : b ∈ log.filter fun a => k ∈ names a := List.mem_filter.mpr ⟨hb, decide_eq_true hk⟩
  cases hmax : (log.filter fun a => k ∈ names a).argmax stamp with
  | none =>
    rw [List.argmax_eq_none.mp hmax] at hmem
    cases hmem
  | some a =>
    obtain ⟨ha, hnames⟩ := List.mem_filter.mp (argmax_mem hmax)
    refine ⟨a, ha, of_decide_eq_true hnames, fun c hc hck => ?_⟩
    exact le_of_mem_argmax (List.mem_filter.mpr ⟨hc, decide_eq_true hck⟩) hmax

theorem verdict_of_newest (h : InOrder names verdict stamp log) {a b : α}
    (ha : Newest names stamp log k a) (hb : last names log k = some b) : verdict a = verdict b := by
  obtain ⟨hkb, before, after, rfl, hnone⟩ := last_eq_some.mp hb
  rcases List.mem_append.mp ha.mem with hbefore | hrest
  · have hpair := (List.pairwise_append.mp h).2.2 a hbefore b mem_cons_self k ha.named hkb
    have hle := ha.newest b (mem_append_right before mem_cons_self) hkb
    exact hpair.resolve_right (not_lt_of_ge hle)
  · rcases List.mem_cons.mp hrest with rfl | hafter
    · rfl
    · exact absurd ha.named (hnone a hafter)

theorem newest_iff_last (h : InOrder names verdict stamp log) (k : κ) :
    (∃ a, Newest names stamp log k a ∧ verdict a = true) ↔
      ∃ b, last names log k = some b ∧ verdict b = true := by
  constructor
  · rintro ⟨a, ha, hverdict⟩
    obtain ⟨b, hb⟩ := exists_last ha.mem ha.named
    exact ⟨b, hb, verdict_of_newest h ha hb ▸ hverdict⟩
  · rintro ⟨b, hb, hverdict⟩
    obtain ⟨hkb, before, after, hlog, -⟩ := last_eq_some.mp hb
    have hmem : b ∈ log := hlog ▸ mem_append_right before mem_cons_self
    obtain ⟨a, ha⟩ := exists_newest stamp hmem hkb
    exact ⟨a, ha, (verdict_of_newest h ha hb).trans hverdict⟩

end

end GenieClaw.Library.LastWrite
