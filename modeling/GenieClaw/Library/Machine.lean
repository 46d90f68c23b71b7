import Mathlib.Data.List.Induction
import Mathlib.Data.List.Perm.Subperm
import Mathlib.Logic.Function.Iterate

/-!
# Runs of a deterministic machine

A machine reacts to an input by changing its state and giving an output. `run` folds
the inputs and `trace` lists the events of a run: each input with its output and the
states around it. The invariant rules turn a fact about one step into a fact about
every run. `EachPast` states a law of every event of a run together with the events
before it, and grows with the run one event at a time.

* `run_history`: the rule of runs, with the past events and the present state.
* `countP_le_of_keys`: counting events by the keys they carry.
-/

namespace GenieClaw.Library

open List
structure Machine (σ ι ο : Type) where
  step : σ → ι → ο × σ

namespace Machine

variable {σ ι ο : Type} (m : Machine σ ι ο)

def run (s : σ) (inputs : List ι) : σ := inputs.foldl (fun s i => (m.step s i).2) s

structure Event (σ ι ο : Type) where
  before : σ
  input : ι
  output : ο
  after : σ

def eventAt (s : σ) (i : ι) : Event σ ι ο := ⟨s, i, (m.step s i).1, (m.step s i).2⟩

theorem eventAt_after (s : σ) (i : ι) : (m.eventAt s i).after = (m.step s i).2 := rfl

def trace : σ → List ι → List (Event σ ι ο)
  | _, [] => []
  | s, i :: rest => m.eventAt s i :: trace (m.step s i).2 rest

@[simp] theorem run_nil (s : σ) : m.run s [] = s := rfl

@[simp] theorem run_cons (s : σ) (i : ι) (rest : List ι) :
    m.run s (i :: rest) = m.run (m.step s i).2 rest := rfl

theorem run_append (s : σ) (as bs : List ι) : m.run s (as ++ bs) = m.run (m.run s as) bs :=
  foldl_append

theorem run_concat (s : σ) (as : List ι) (i : ι) :
    m.run s (as ++ [i]) = (m.step (m.run s as) i).2 := by
  rw [run_append]
  rfl

@[simp] theorem trace_nil (s : σ) : m.trace s [] = [] := rfl

@[simp] theorem trace_cons (s : σ) (i : ι) (rest : List ι) :
    m.trace s (i :: rest) = m.eventAt s i :: m.trace (m.step s i).2 rest := rfl

theorem trace_append (s : σ) (as bs : List ι) :
    m.trace s (as ++ bs) = m.trace s as ++ m.trace (m.run s as) bs := by
  induction as generalizing s with
  | nil => rfl
  | cons a as ih => simp [ih]

theorem trace_concat (s : σ) (as : List ι) (i : ι) :
    m.trace s (as ++ [i]) = m.trace s as ++ [m.eventAt (m.run s as) i] := by
  rw [trace_append]
  rfl

theorem map_input_trace (s : σ) (inputs : List ι) :
    (m.trace s inputs).map Event.input = inputs := by
  induction inputs generalizing s with
  | nil => rfl
  | cons i rest ih => simp [ih, eventAt]

theorem run_invariant {Inv : σ → Prop} {s : σ} (h0 : Inv s)
    (hstep : ∀ s i, Inv s → Inv (m.step s i).2) (inputs : List ι) : Inv (m.run s inputs) := by
  induction inputs generalizing s with
  | nil => exact h0
  | cons i rest ih => exact ih (hstep s i h0)

theorem run_invariant_of {Inv : σ → Prop} {Ok : σ → ι → Prop} {s : σ} (h0 : Inv s)
    (hstep : ∀ s i, Inv s → Ok s i → Inv (m.step s i).2) {inputs : List ι}
    (hok : ∀ e ∈ m.trace s inputs, Ok e.before e.input) : Inv (m.run s inputs) := by
  induction inputs generalizing s with
  | nil => exact h0
  | cons i rest ih =>
    rw [trace_cons, forall_mem_cons] at hok
    exact ih (hstep s i h0 hok.1) hok.2

/-- A property of the past events and the present state that every step extends holds
of every run. The step rule may use that the inputs so far, with the new one, satisfy
a condition that passes to prefixes. -/
theorem run_history (Ok : List ι → Prop) {Inv : List (Event σ ι ο) → σ → Prop} {s₀ : σ}
    (hclosed : ∀ is i, Ok (is ++ [i]) → Ok is) (h0 : Inv [] s₀)
    (hstep : ∀ is i, Ok (is ++ [i]) → Inv (m.trace s₀ is) (m.run s₀ is) →
      Inv (m.trace s₀ is ++ [m.eventAt (m.run s₀ is) i]) (m.step (m.run s₀ is) i).2)
    (inputs : List ι) (hok : Ok inputs) : Inv (m.trace s₀ inputs) (m.run s₀ inputs) := by
  induction inputs using List.reverseRecOn with
  | nil => exact h0
  | append_singleton is i ih =>
    rw [m.trace_concat, m.run_concat]
    exact hstep is i hok (ih (hclosed is i hok))

theorem mem_trace {s : σ} {inputs : List ι} {e : Event σ ι ο} (he : e ∈ m.trace s inputs) :
    ∃ as i bs, inputs = as ++ i :: bs ∧ e = m.eventAt (m.run s as) i := by
  induction inputs generalizing s with
  | nil => simp at he
  | cons i rest ih =>
    rw [trace_cons, mem_cons] at he
    rcases he with rfl | he
    · exact ⟨[], i, rest, rfl, rfl⟩
    · obtain ⟨as, j, bs, rfl, rfl⟩ := ih he
      exact ⟨i :: as, j, bs, rfl, rfl⟩

end Machine

/-! ## Laws of an event and its past -/

variable {α β : Type}

theorem filterMap_concat (f : α → Option β) (xs : List α) (x : α) :
    (xs ++ [x]).filterMap f = xs.filterMap f ++ (f x).toList := by
  rw [filterMap_append, filterMap_cons]
  cases f x <;> rfl

/-- Every entry of the list satisfies `P` together with the entries before it. -/
def EachPast (P : List α → α → Prop) (xs : List α) : Prop :=
  ∀ as x bs, xs = as ++ x :: bs → P as x

theorem eachPast_nil (P : List α → α → Prop) : EachPast P [] := by
  intro as x bs h
  simp at h

/-- Entries that carry distinct keys, each of which some other kind of entry was filed
under, are no more than those others. -/
theorem countP_le_of_keys {κ : Type} {xs : List α} {P Q : α → Bool} {f g : α → Option κ}
    (hkeys : (xs.filterMap f).Nodup)
    (hfiled : ∀ x ∈ xs, P x = true → ∃ k, f x = some k ∧ ∃ y ∈ xs, Q y = true ∧ g y = some k) :
    xs.countP P ≤ xs.countP Q := by
  have hall : ((xs.filter P).filterMap f).length = xs.countP P := by
    rw [length_filterMap_eq_countP, @countP_eq_length_filter _ P xs]
    apply List.countP_eq_length.mpr
    intro x hx
    obtain ⟨hmem, hP⟩ := List.mem_filter.mp hx
    obtain ⟨k, hk, -⟩ := hfiled x hmem hP
    rw [hk]
    rfl
  have hnodup : ((xs.filter P).filterMap f).Nodup :=
    hkeys.sublist (List.Sublist.filterMap f filter_sublist)
  have hsubset : (xs.filter P).filterMap f ⊆ (xs.filter Q).filterMap g := by
    intro k hk
    obtain ⟨x, hx, hfx⟩ := List.mem_filterMap.mp hk
    obtain ⟨hmem, hP⟩ := List.mem_filter.mp hx
    obtain ⟨k', hk', y, hy, hQ, hgy⟩ := hfiled x hmem hP
    rw [hfx] at hk'
    cases hk'
    exact List.mem_filterMap.mpr ⟨y, List.mem_filter.mpr ⟨hy, hQ⟩, hgy⟩
  calc xs.countP P = ((xs.filter P).filterMap f).length := hall.symm
    _ ≤ ((xs.filter Q).filterMap g).length := (hnodup.subperm hsubset).length_le
    _ ≤ (xs.filter Q).length := length_filterMap_le g _
    _ = xs.countP Q := List.countP_eq_length_filter.symm

theorem split_concat {xs as bs : List α} {x y : α} (h : xs ++ [x] = as ++ y :: bs) :
    (bs = [] ∧ xs = as ∧ x = y) ∨ ∃ bs', bs = bs' ++ [x] ∧ xs = as ++ y :: bs' := by
  rcases eq_nil_or_concat bs with rfl | ⟨bs', z, rfl⟩
  · obtain ⟨rfl, hxy⟩ := append_inj' h rfl
    exact .inl ⟨rfl, rfl, List.singleton_inj.mp hxy⟩
  · rw [concat_eq_append, ← cons_append, ← append_assoc] at h
    obtain ⟨rfl, hxz⟩ := append_inj' h rfl
    cases hxz
    exact .inr ⟨bs', concat_eq_append, rfl⟩

theorem eachPast_concat {P : List α → α → Prop} {xs : List α} {x : α} :
    EachPast P (xs ++ [x]) ↔ EachPast P xs ∧ P xs x := by
  constructor
  · intro h
    refine ⟨fun as y bs hxs => h as y (bs ++ [x]) (by simp [hxs]), h xs x [] rfl⟩
  · rintro ⟨hxs, hx⟩ as y bs heq
    rcases split_concat heq with ⟨-, rfl, rfl⟩ | ⟨bs', -, hsplit⟩
    · exact hx
    · exact hxs as y bs' hsplit

/-!
## Tasks that take turns

Each task has a state of its own and all share one more. A turn advances one task; a
schedule is the list of the tasks whose turn it is. The pool is a machine whose inputs are
the turns, so the invariant rules of machines hold of every schedule.

* `turns_task`, `turns_shared`: a turn changes one task and what all share.
* `run_replicate`: a schedule of one task is that task run alone.
* `Within`: a task run alone gets somewhere in at most so many turns.
-/

structure Pool (ι σ τ : Type) where
  shared : σ
  task : ι → τ

namespace Pool

variable {ι σ τ ο : Type} [DecidableEq ι]

/-- The machine that gives a turn to one task at a time. -/
def turns (advance : τ → σ → ο × τ × σ) : Machine (Pool ι σ τ) ι ο where
  step pool i :=
    let (output, t, s) := advance (pool.task i) pool.shared
    (output, ⟨s, Function.update pool.task i t⟩)

variable (advance : τ → σ → ο × τ × σ)

theorem turns_task (pool : Pool ι σ τ) (i j : ι) :
    (((turns advance).step pool i).2).task j =
      if j = i then (advance (pool.task i) pool.shared).2.1 else pool.task j :=
  Function.update_apply _ _ _ _

theorem turns_shared (pool : Pool ι σ τ) (i : ι) :
    (((turns advance).step pool i).2).shared = (advance (pool.task i) pool.shared).2.2 := rfl

/-! ## A task alone -/

def alone (ts : τ × σ) : τ × σ := (advance ts.1 ts.2).2

theorem run_replicate (pool : Pool ι σ τ) (i : ι) (n : Nat) :
    (turns advance).run pool (List.replicate n i) =
      ⟨((alone advance)^[n] (pool.task i, pool.shared)).2,
        Function.update pool.task i ((alone advance)^[n] (pool.task i, pool.shared)).1⟩ := by
  induction n generalizing pool with
  | zero =>
    show pool = _
    rw [Function.iterate_zero, id_eq, Function.update_eq_self]
  | succ n ih =>
    have htask : (((turns advance).step pool i).2).task i =
        (advance (pool.task i) pool.shared).2.1 := by
      rw [turns_task, if_pos rfl]
    rw [replicate_succ, Machine.run_cons, ih, Function.iterate_succ, Function.comp_apply,
      htask, turns_shared]
    congr 1
    exact Function.update_idem _ _ _

/-- Alone, the task gets from `x` to `y` in at most `n` turns. -/
def Within (n : Nat) (x y : τ × σ) : Prop := ∃ k ≤ n, (alone advance)^[k] x = y

variable {advance} {m n : Nat} {x y z : τ × σ}

theorem Within.refl (x : τ × σ) : Within advance n x x := ⟨0, Nat.zero_le n, rfl⟩

theorem Within.trans (h : Within advance m x y) (h' : Within advance n y z) :
    Within advance (m + n) x z := by
  obtain ⟨k, hk, rfl⟩ := h
  obtain ⟨k', hk', rfl⟩ := h'
  refine ⟨k' + k, by omega, ?_⟩
  rw [Function.iterate_add_apply]

theorem Within.turn (h : Within advance n (alone advance x) y) : Within advance (n + 1) x y := by
  obtain ⟨k, hk, hend⟩ := h
  exact ⟨k + 1, Nat.succ_le_succ hk, hend⟩

theorem Within.mono (h : Within advance m x y) (hle : m ≤ n) : Within advance n x y := by
  obtain ⟨k, hk, hend⟩ := h
  exact ⟨k, Nat.le_trans hk hle, hend⟩

theorem Within.settled (h : Within advance n x y) (hfixed : alone advance y = y) :
    (alone advance)^[n] x = y := by
  obtain ⟨k, hk, rfl⟩ := h
  obtain ⟨more, rfl⟩ := Nat.exists_eq_add_of_le' hk
  rw [Function.iterate_add_apply]
  exact Function.iterate_fixed hfixed more

end Pool

end GenieClaw.Library
