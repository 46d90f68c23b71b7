import GenieClaw.Library.Machine
import Mathlib.Data.List.TakeWhile
import Mathlib.Logic.Function.Basic

/-!
# One sliding window a key

A limiter that keeps one queue of admitted times for each key. `Keeps` is what such a
limiter promises of every sequence of calls whose readings do not decrease: the bound, the
exact rule of refusal, that a refused call spends nothing and that keys do not interfere.

* `slide_refused_iff`: the queue of a key refuses when its window is used up.
* `keyed_keeps`: a table of such queues keeps what `Keeps` promises.
* `Keeps.of_stands`: so does what stands for such a table.
-/

namespace GenieClaw.Library.SlidingWindow

open List
/-!
## Sliding-window admission

A limiter remembers the times it admitted, oldest first. A call at time `now` first
forgets the times before `now - window`, is refused when `limit` times are left, and is
appended otherwise. `Remembers` relates the queue to the whole history of admitted
times: what was forgotten is too old to matter to any later call. From it follow that
the queue counts exactly the admitted times of the preceding window and that no window
of the history holds more than `limit` admitted times.
-/

/-- Forget the times before the cutoff. -/
def expire (window now : Nat) (queue : List Nat) : List Nat :=
  queue.dropWhile (fun ts => decide (ts < now - window))

/-- One call: whether it is admitted, and the queue it leaves. -/
def slide (window limit now : Nat) (queue : List Nat) : Bool × List Nat :=
  let kept := expire window now queue
  if limit ≤ kept.length then (false, kept) else (true, kept ++ [now])

/-- How many of the times lie in the closed window that starts at `t`. -/
def countIn (window t : Nat) (times : List Nat) : Nat :=
  times.countP (fun x => decide (t ≤ x ∧ x ≤ t + window))

/-- No window holds more than `limit` of the times. -/
def Bounded (window limit : Nat) (times : List Nat) : Prop :=
  ∀ t, countIn window t times ≤ limit

/-- The queue is what is left of the history after forgetting only times that are more
than `window` before `now`. -/
structure Remembers (window now : Nat) (queue history : List Nat) : Prop where
  split : ∃ old, history = old ++ queue ∧ ∀ x ∈ old, x + window < now
  sorted : history.Pairwise (· ≤ ·)
  past : ∀ x ∈ history, x ≤ now

variable {window limit now now' : Nat} {queue history : List Nat}

theorem remembers_nil : Remembers window now [] [] :=
  ⟨⟨[], rfl, by simp⟩, .nil, by simp⟩

theorem Remembers.later (h : Remembers window now queue history) (hle : now ≤ now') :
    Remembers window now' queue history := by
  obtain ⟨⟨old, rfl, hold⟩, hs, hp⟩ := h
  refine ⟨⟨old, rfl, fun x hx => ?_⟩, hs, fun x hx => (hp x hx).trans hle⟩
  have := hold x hx
  omega

theorem Remembers.expire (h : Remembers window now queue history) (hle : now ≤ now') :
    Remembers window now' (expire window now' queue) history := by
  obtain ⟨⟨old, rfl, hold⟩, hs, hp⟩ := h
  refine ⟨⟨old ++ queue.takeWhile (fun ts => decide (ts < now' - window)), ?_, ?_⟩, hs,
    fun x hx => (hp x hx).trans hle⟩
  · rw [append_assoc, SlidingWindow.expire, takeWhile_append_dropWhile]
  · intro x hx
    rcases List.mem_append.mp hx with hx | hx
    · have := hold x hx
      omega
    · have := mem_takeWhile_imp hx
      simp only [decide_eq_true_eq] at this
      omega

theorem cutoff_le_of_mem_expire (hs : queue.Pairwise (· ≤ ·)) {x : Nat}
    (hx : x ∈ expire window now queue) : now - window ≤ x := by
  induction queue with
  | nil => simp [expire] at hx
  | cons q rest ih =>
    rw [pairwise_cons] at hs
    by_cases hq : q < now - window
    · have he : expire window now (q :: rest) = expire window now rest := by
        simp [expire, List.dropWhile, hq]
      exact ih hs.2 (he ▸ hx)
    · have he : expire window now (q :: rest) = q :: rest := by
        simp [expire, List.dropWhile, hq]
      rw [he, mem_cons] at hx
      rcases hx with rfl | hx
      · omega
      · have := hs.1 x hx
        omega

/-- After forgetting, the queue holds exactly the admitted times of the window before
`now'`. -/
theorem Remembers.length_expire (h : Remembers window now queue history) (hle : now ≤ now') :
    (SlidingWindow.expire window now' queue).length = countIn window (now' - window) history := by
  have hsort : queue.Pairwise (· ≤ ·) := by
    obtain ⟨⟨old, rfl, _⟩, hs, _⟩ := h
    exact (List.pairwise_append.mp hs).2.1
  have hcut : ∀ x ∈ SlidingWindow.expire window now' queue, now' - window ≤ x :=
    fun _ hx => cutoff_le_of_mem_expire hsort hx
  obtain ⟨⟨old, hsplit, hold⟩, _, hp⟩ := h.expire hle
  have hnone :
      old.countP (fun x => decide (now' - window ≤ x ∧ x ≤ now' - window + window)) = 0 := by
    rw [countP_eq_zero]
    intro x hx
    have := hold x hx
    simp only [decide_eq_true_eq]
    omega
  have hall : (SlidingWindow.expire window now' queue).countP
      (fun x => decide (now' - window ≤ x ∧ x ≤ now' - window + window)) =
      (SlidingWindow.expire window now' queue).length := by
    rw [countP_eq_length]
    intro x hx
    have h1 := hcut x hx
    have h2 := hp x (hsplit ▸ mem_append_right _ hx)
    simp only [decide_eq_true_eq]
    omega
  calc (SlidingWindow.expire window now' queue).length
      = countIn window (now' - window) (old ++ SlidingWindow.expire window now' queue) := by
        rw [countIn, countP_append, hnone, hall, Nat.zero_add]
    _ = countIn window (now' - window) history := by rw [← hsplit]

/-- A window that contains `now'` sees no more of the history than the window before
`now'`. -/
theorem countIn_le_before (hp : ∀ x ∈ history, x ≤ now') {t : Nat} (ht : now' ≤ t + window) :
    countIn window t history ≤ countIn window (now' - window) history := by
  unfold countIn
  apply countP_mono_left
  intro x hx hin
  have := hp x hx
  simp only [decide_eq_true_eq] at hin ⊢
  omega

theorem slide_admitted (h : Remembers window now queue history) (hle : now ≤ now')
    (hb : Bounded window limit history) (ha : (slide window limit now' queue).1 = true) :
    Remembers window now' (slide window limit now' queue).2 (history ++ [now']) ∧
      Bounded window limit (history ++ [now']) := by
  have hex := h.expire hle
  have hlen := h.length_expire hle
  by_cases hroom : limit ≤ (expire window now' queue).length
  · simp [slide, hroom] at ha
  · simp only [slide, hroom, if_false]
    obtain ⟨⟨old, hsplit, hold⟩, hs, hp⟩ := hex
    refine ⟨⟨⟨old, by rw [hsplit, append_assoc], hold⟩, ?_, ?_⟩, ?_⟩
    · rw [pairwise_append]
      exact ⟨hs, by simp, fun x hx y hy => by simp at hy; exact hy ▸ hp x hx⟩
    · intro x hx
      rcases List.mem_append.mp hx with hx | hx
      · exact hp x hx
      · simp at hx
        omega
    · intro t
      have hsum : countIn window t (history ++ [now']) =
          countIn window t history + countIn window t [now'] := countP_append
      by_cases hin : t ≤ now' ∧ now' ≤ t + window
      · have hone : countIn window t [now'] = 1 := by simp [countIn, hin]
        have := countIn_le_before hp hin.2
        omega
      · have hzero : countIn window t [now'] = 0 := by simp [countIn, hin]
        have := hb t
        omega

theorem slide_refused (h : Remembers window now queue history) (hle : now ≤ now')
    (hr : (slide window limit now' queue).1 = false) :
    Remembers window now' (slide window limit now' queue).2 history := by
  by_cases hroom : limit ≤ (expire window now' queue).length
  · simp only [slide, hroom, if_true]
    exact h.expire hle
  · simp [slide, hroom] at hr

/-! ## One window a key -/

structure Call (K : Type) where
  key : K
  now : Nat
deriving DecidableEq

variable {K σ : Type}

/-- The readings of the calls do not decrease. -/
def InOrder (calls : List (Call K)) : Prop := (calls.map Call.now).Pairwise (· ≤ ·)

/-- The calls of a run with their answers. -/
def answered (m : Machine σ (Call K) Bool) (s : σ) (calls : List (Call K)) : List (Call K × Bool) :=
  (m.trace s calls).map fun e => (e.input, e.output)

theorem answered_cons (m : Machine σ (Call K) Bool) (s : σ) (call : Call K)
    (calls : List (Call K)) : answered m s (call :: calls) =
      (call, (m.step s call).1) :: answered m (m.step s call).2 calls := rfl

theorem answered_concat (m : Machine σ (Call K) Bool) (s : σ) (calls : List (Call K))
    (call : Call K) : answered m s (calls ++ [call]) =
      answered m s calls ++ [(call, (m.step (m.run s calls) call).1)] := by
  rw [answered, m.trace_concat, map_append]
  rfl

theorem InOrder.init {calls : List (Call K)} {call : Call K} (h : InOrder (calls ++ [call])) :
    InOrder calls := by
  rw [InOrder, map_append, pairwise_append] at h
  exact h.1

theorem InOrder.last {calls : List (Call K)} {call : Call K} (h : InOrder (calls ++ [call])) :
    ∀ earlier ∈ calls, earlier.now ≤ call.now := by
  rw [InOrder, map_append, pairwise_append] at h
  intro earlier hmem
  exact h.2.2 earlier.now (mem_map_of_mem hmem) call.now mem_cons_self

theorem exists_latest (calls : List (Call K)) : ∃ now, ∀ call ∈ calls, call.now ≤ now := by
  induction calls with
  | nil => exact ⟨0, by simp⟩
  | cons call calls ih =>
    obtain ⟨now, hnow⟩ := ih
    refine ⟨max call.now now, List.forall_mem_cons.mpr ⟨Nat.le_max_left _ _, ?_⟩⟩
    exact fun later hlater => Nat.le_trans (hnow later hlater) (Nat.le_max_right _ _)

variable [DecidableEq K]

/-- The times at which calls of the key were admitted. -/
def admittedAt (key : K) (answers : List (Call K × Bool)) : List Nat :=
  answers.filterMap fun answer =>
    if answer.1.key = key ∧ answer.2 = true then some answer.1.now else none

/-- How many of the times lie in the window that ends with `now`. -/
def countBefore (window now : Nat) (times : List Nat) : Nat :=
  times.countP fun x => decide (x ≤ now ∧ now ≤ x + window)

/-- What a limiter promises; a key without a limit is always admitted. -/
structure Keeps (window : Nat) (limit : K → Option Nat) (m : Machine σ (Call K) Bool) (s : σ) :
    Prop where
  bounded : ∀ calls, InOrder calls → ∀ key most, limit key = some most →
    Bounded window most (admittedAt key (answered m s calls))
  refused : ∀ past call, InOrder (past ++ [call]) → ∀ most, limit call.key = some most →
    ((m.step (m.run s past) call).1 = false ↔
      countBefore window call.now (admittedAt call.key (answered m s past)) = most)
  unspent : ∀ past call later, InOrder (past ++ call :: later) →
    (m.step (m.run s past) call).1 = false →
    answered m (m.run s (past ++ [call])) later = answered m (m.run s past) later
  separate : ∀ calls key, (answered m s calls).filter (fun answer => answer.1.key = key) =
    answered m s (calls.filter fun call => call.key = key)

/-! ## The table of queues -/

/-- One call against the queue of its key. -/
def charge (window : Nat) (limit : Option Nat) (now : Nat) (queue : List Nat) : Bool × List Nat :=
  match limit with
  | none => (true, queue)
  | some 0 => (false, queue)
  | some most => slide window most now queue

@[simp] theorem charge_none (window now : Nat) (queue : List Nat) :
    charge window none now queue = (true, queue) := rfl

@[simp] theorem charge_succ (window n now : Nat) (queue : List Nat) :
    charge window (some (n + 1)) now queue = slide window (n + 1) now queue := rfl

def keyed (window : Nat) (limit : K → Option Nat) : Machine (K → List Nat) (Call K) Bool where
  step queues call :=
    let (admitted, queue) := charge window (limit call.key) call.now (queues call.key)
    (admitted, Function.update queues call.key queue)

variable {window : Nat} {limit : K → Option Nat} {queues : K → List Nat} {call : Call K}

theorem keyed_output : ((keyed window limit).step queues call).1 =
    (charge window (limit call.key) call.now (queues call.key)).1 := rfl

theorem keyed_state : ((keyed window limit).step queues call).2 =
    Function.update queues call.key
      (charge window (limit call.key) call.now (queues call.key)).2 := rfl

theorem admittedAt_concat (key : K) (answers : List (Call K × Bool)) (call : Call K)
    (admitted : Bool) : admittedAt key (answers ++ [(call, admitted)]) =
      if call.key = key ∧ admitted = true then admittedAt key answers ++ [call.now]
      else admittedAt key answers := by
  rw [admittedAt, filterMap_concat]
  split_ifs with h
  · rfl
  · exact append_nil _

/-! ## The queue against the history -/

/-- What a queue has to do with the admitted times of its key when the clock shows `now`. -/
structure Account (window : Nat) (limit : Option Nat) (now : Nat) (queue history : List Nat) :
    Prop where
  remembers : limit ≠ none → Remembers window now queue history
  bounded : ∀ most, limit = some most → Bounded window most history

theorem account_nil (window : Nat) (limit : Option Nat) (now : Nat) :
    Account window limit now [] [] where
  remembers _ := remembers_nil
  bounded most _ _ := Nat.zero_le most

variable {most now now' : Nat} {queue history : List Nat}

theorem Account.later {limit : Option Nat} (h : Account window limit now queue history)
    (hle : now ≤ now') : Account window limit now' queue history where
  remembers hsome := (h.remembers hsome).later hle
  bounded := h.bounded

theorem Account.charge {limit : Option Nat} (h : Account window limit now queue history)
    (hle : now ≤ now') : Account window limit now' (charge window limit now' queue).2
      (if (SlidingWindow.charge window limit now' queue).1 = true then history ++ [now']
        else history) := by
  cases limit with
  | none => exact ⟨fun hsome => absurd rfl hsome, nofun⟩
  | some most =>
    have hremembers := h.remembers (Option.some_ne_none most)
    cases most with
    | zero => exact h.later hle
    | succ n =>
      rw [charge_succ]
      cases hanswer : (slide window (n + 1) now' queue).1 with
      | true =>
        obtain ⟨hremembers', hbounded⟩ := slide_admitted hremembers hle (h.bounded _ rfl) hanswer
        refine ⟨fun _ => hremembers', ?_⟩
        rintro most ⟨⟩
        exact hbounded
      | false => exact ⟨fun _ => slide_refused hremembers hle hanswer, h.bounded⟩

/-- The queue is full when the window before the call holds as many admissions as the
limit. -/
theorem slide_refused_iff (h : Remembers window now queue history) (hle : now ≤ now')
    (hbounded : Bounded window most history) :
    (slide window most now' queue).1 = false ↔ countBefore window now' history = most := by
  have hcount : countBefore window now' history = countIn window (now' - window) history := by
    apply countP_congr
    intro x hx
    have := (h.later hle).past x hx
    simp only [decide_eq_true_eq]
    omega
  have hmost := hbounded (now' - window)
  rw [hcount]
  rw [← h.length_expire hle] at hmost ⊢
  by_cases hroom : most ≤ (expire window now' queue).length
  · rw [slide, if_pos hroom]
    exact iff_of_true rfl (Nat.le_antisymm hmost hroom)
  · rw [slide, if_neg hroom]
    exact iff_of_false (by simp) fun heq => hroom (Nat.le_of_eq heq.symm)

theorem Account.refused_iff (h : Account window (some most) now queue history)
    (hle : now ≤ now') : (SlidingWindow.charge window (some most) now' queue).1 = false ↔
      countBefore window now' history = most := by
  have hremembers := h.remembers (Option.some_ne_none most)
  cases most with
  | zero =>
    refine iff_of_true rfl ?_
    have hnone := h.bounded 0 rfl (now' - window)
    apply Nat.le_antisymm _ (Nat.zero_le _)
    refine Nat.le_trans (countP_mono_left fun x hx hin => ?_) hnone
    have := (hremembers.later hle).past x hx
    simp only [decide_eq_true_eq] at hin ⊢
    omega
  | succ n => exact slide_refused_iff hremembers hle (h.bounded _ rfl)

theorem accounts (calls : List (Call K)) (hcalls : InOrder calls) {now : Nat}
    (hnow : ∀ call ∈ calls, call.now ≤ now) (key : K) :
    Account window (limit key) now ((keyed window limit).run (fun _ => []) calls key)
      (admittedAt key (answered (keyed window limit) (fun _ => []) calls)) := by
  induction calls using List.reverseRecOn generalizing now with
  | nil => exact account_nil window (limit key) now
  | append_singleton calls call ih =>
    have hbefore := ih hcalls.init hcalls.last
    have hlast : call.now ≤ now := hnow call (by simp)
    rw [answered_concat, admittedAt_concat, Machine.run_concat, keyed_state, keyed_output]
    by_cases hkey : call.key = key
    · subst hkey
      rw [Function.update_self]
      simp only [true_and]
      exact (hbefore.charge (Nat.le_refl _)).later hlast
    · rw [Function.update_of_ne (Ne.symm hkey), if_neg fun h => hkey h.1]
      exact hbefore.later hlast

/-! ## A refused call -/

/-- The queues answer every call from `now` on alike. -/
def Alike (window now : Nat) (queue queue' : List Nat) : Prop :=
  ∀ now', now ≤ now' → expire window now' queue = expire window now' queue'

theorem expire_expire (hle : now ≤ now') (queue : List Nat) :
    expire window now' (expire window now queue) = expire window now' queue := by
  induction queue with
  | nil => rfl
  | cons x rest ih =>
    by_cases hx : x < now - window
    · have hx' : x < now' - window := by omega
      simp only [expire, dropWhile_cons, hx, hx', decide_true, if_true] at ih ⊢
      exact ih
    · simp [expire, hx]

theorem Alike.charge {limit : Option Nat} {queue' : List Nat}
    (h : Alike window now queue queue') (hle : now ≤ now') :
    (charge window limit now' queue).1 = (SlidingWindow.charge window limit now' queue').1 ∧
      Alike window now' (SlidingWindow.charge window limit now' queue).2
        (SlidingWindow.charge window limit now' queue').2 := by
  have hlater : Alike window now' queue queue' := fun n hn => h n (Nat.le_trans hle hn)
  cases limit with
  | none => exact ⟨rfl, hlater⟩
  | some most =>
    cases most with
    | zero => exact ⟨rfl, hlater⟩
    | succ n =>
      have hsame : slide window (n + 1) now' queue = slide window (n + 1) now' queue' := by
        rw [slide, slide, h now' hle]
      rw [charge_succ, charge_succ, hsame]
      exact ⟨rfl, fun _ _ => rfl⟩

theorem alike_of_refused {limit : Option Nat} (h : (charge window limit now queue).1 = false) :
    Alike window now (SlidingWindow.charge window limit now queue).2 queue := by
  cases limit with
  | none => exact absurd h (by simp)
  | some most =>
    cases most with
    | zero => exact fun _ _ => rfl
    | succ n =>
      rw [charge_succ] at h ⊢
      intro now' hle
      have hfull : n + 1 ≤ (expire window now queue).length := by
        by_contra hroom
        rw [slide, if_neg hroom] at h
        cases h
      rw [slide, if_pos hfull]
      exact expire_expire hle queue

theorem answered_alike {queues queues' : K → List Nat}
    (h : ∀ key, Alike window now (queues key) (queues' key)) (calls : List (Call K))
    (hcalls : InOrder calls) (hnow : ∀ call ∈ calls, now ≤ call.now) :
    answered (keyed window limit) queues calls = answered (keyed window limit) queues' calls := by
  induction calls generalizing now queues queues' with
  | nil => rfl
  | cons call calls ih =>
    rw [InOrder, map_cons, pairwise_cons] at hcalls
    have hcall := hnow call mem_cons_self
    have hsame := fun key => @Alike.charge window now call.now (queues key) (limit key)
      (queues' key) (h key) hcall
    rw [answered_cons, answered_cons, keyed_output, keyed_output, (hsame call.key).1]
    refine congrArg _ (@ih call.now _ _ ?_ hcalls.2 ?_)
    · intro key
      rw [keyed_state, keyed_state]
      by_cases hkey : key = call.key
      · subst hkey
        rw [Function.update_self, Function.update_self]
        exact (hsame call.key).2
      · rw [Function.update_of_ne hkey, Function.update_of_ne hkey]
        exact fun n hn => h key n (Nat.le_trans hcall hn)
    · intro later hlater
      exact hcalls.1 later.now (mem_map_of_mem hlater)

/-! ## The calls of one key -/

theorem answered_filter (key : K) {queues queues' : K → List Nat}
    (h : queues key = queues' key) (calls : List (Call K)) :
    (answered (keyed window limit) queues calls).filter (fun answer => answer.1.key = key) =
      answered (keyed window limit) queues' (calls.filter fun call => call.key = key) := by
  induction calls generalizing queues queues' with
  | nil => rfl
  | cons call calls ih =>
    rw [answered_cons]
    by_cases hkey : call.key = key
    · have hafter : ((keyed window limit).step queues call).2 key =
          ((keyed window limit).step queues' call).2 key := by
        rw [keyed_state, keyed_state, hkey, h, Function.update_self, Function.update_self]
      rw [filter_cons_of_pos (by simpa using hkey),
        filter_cons_of_pos (by simpa using hkey), answered_cons, ih hafter, keyed_output,
        keyed_output, hkey, h]
    · have hafter : ((keyed window limit).step queues call).2 key = queues' key := by
        rw [keyed_state, Function.update_of_ne (Ne.symm hkey), h]
      rw [filter_cons_of_neg (by simpa using hkey),
        filter_cons_of_neg (by simpa using hkey), ih hafter]

theorem keyed_keeps (window : Nat) (limit : K → Option Nat) :
    Keeps window limit (keyed window limit) fun _ => [] where
  bounded := by
    intro calls hcalls key most hmost
    obtain ⟨now, hnow⟩ := exists_latest calls
    exact (accounts calls hcalls hnow key).bounded most hmost
  refused := by
    intro past call hcalls most hmost
    have haccount := @accounts K _ window limit past hcalls.init call.now hcalls.last call.key
    rw [hmost] at haccount
    rw [keyed_output, hmost]
    exact haccount.refused_iff (Nat.le_refl _)
  unspent := by
    intro past call later hcalls hrefused
    rw [Machine.run_concat]
    have hlater : InOrder later ∧ ∀ next ∈ later, call.now ≤ next.now := by
      rw [InOrder, map_append, map_cons, pairwise_append, pairwise_cons]
        at hcalls
      exact ⟨hcalls.2.1.2, fun next hnext => hcalls.2.1.1 next.now (mem_map_of_mem hnext)⟩
    refine answered_alike (fun key => ?_) later hlater.1 hlater.2
    rw [keyed_state]
    by_cases hkey : key = call.key
    · subst hkey
      rw [Function.update_self]
      exact alike_of_refused hrefused
    · rw [Function.update_of_ne hkey]
      exact fun _ _ => rfl
  separate calls key := answered_filter key rfl calls

/-! ## Limiters with another state -/

/-- The state of the limiter stands for a table of queues, step by step. -/
def Stands (window : Nat) (limit : K → Option Nat) (m : Machine σ (Call K) Bool)
    (table : σ → K → List Nat) : Prop :=
  ∀ s call, (keyed window limit).step (table s) call = ((m.step s call).1, table (m.step s call).2)

variable {m : Machine σ (Call K) Bool} {table : σ → K → List Nat}

theorem Stands.run (h : Stands window limit m table) (s : σ) (calls : List (Call K)) :
    (keyed window limit).run (table s) calls = table (m.run s calls) := by
  induction calls generalizing s with
  | nil => rfl
  | cons call calls ih => rw [Machine.run_cons, Machine.run_cons, h, ih]

theorem Stands.answered (h : Stands window limit m table) (s : σ) (calls : List (Call K)) :
    answered (keyed window limit) (table s) calls = answered m s calls := by
  induction calls generalizing s with
  | nil => rfl
  | cons call calls ih => rw [answered_cons, answered_cons, h, ih]

theorem Keeps.of_stands (h : Stands window limit m table) {s : σ}
    (hempty : table s = fun _ => []) : Keeps window limit m s := by
  have hkeeps := keyed_keeps window limit
  have houtput : ∀ s call, ((keyed window limit).step (table s) call).1 = (m.step s call).1 :=
    fun s call => congrArg Prod.fst (h s call)
  rw [← hempty] at hkeeps
  obtain ⟨bounded, refused, unspent, separate⟩ := hkeeps
  simp only [h.run, h.answered, houtput] at bounded refused unspent separate
  exact ⟨bounded, refused, unspent, separate⟩

end GenieClaw.Library.SlidingWindow
