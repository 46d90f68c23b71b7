import GenieClaw.Library.Machine
import GenieClaw.Library.SortedTable
import Mathlib.Algebra.Group.Int.Defs
import Mathlib.Data.String.Basic

/-!
# The registry of sessions

`genie-core/src/session.rs`: which conversations are active, with idle expiry and a cap. Every
operation that inserts a session first drops the idle ones and then, while the registry is full,
the one that was least recently active.

* `follows_step`, `follows_run`: the registry follows the history of the calls.
* `registry_runs` (no assumption): the law of every operation of every run.
-/

namespace GenieClaw.Conversation

open Library List Option

/-! ## The registry -/

structure SessionEntry where
  conversationId : String
  lastActiveMs : Int
deriving DecidableEq

/-- The cap and the time to live are positive, as `new` makes them. -/
structure SessionRegistry where
  sessions : SortedTable String SessionEntry
  maxSessions : Nat
  idleTtlMs : Int
  cap_pos : 1 ≤ maxSessions
  ttl_pos : 1 ≤ idleTtlMs

def i64Min : Int := -(2 ^ 63)

def i64Max : Int := 2 ^ 63 - 1

/-- `i64::saturating_sub`. -/
def saturatingSub (a b : Int) : Int :=
  if a - b < i64Min then i64Min else if i64Max < a - b then i64Max else a - b

namespace SessionRegistry

def new (maxSessions : Nat) (idleTtlMs : Int) : SessionRegistry where
  sessions := .empty
  maxSessions := max maxSessions 1
  idleTtlMs := if idleTtlMs < 1 then 1 else idleTtlMs
  cap_pos := Nat.le_max_right maxSessions 1
  ttl_pos := by
    split
    · exact le_refl 1
    · exact not_lt.mp ‹_›

def len (r : SessionRegistry) : Nat := r.sessions.size

def conversationId (r : SessionRegistry) (sessionKey : String) : Option String :=
  (r.sessions.lookup sessionKey).map SessionEntry.conversationId

def touch (r : SessionRegistry) (sessionKey : String) (nowMs : Int) : SessionRegistry :=
  { r with sessions := r.sessions.modify sessionKey fun e => { e with lastActiveMs := nowMs } }

def cutoff (r : SessionRegistry) (nowMs : Int) : Int := saturatingSub nowMs r.idleTtlMs

/-- With the number of sessions that are removed. -/
def evictIdle (r : SessionRegistry) (nowMs : Int) : Nat × SessionRegistry :=
  let stale := (r.sessions.entries.filter fun e =>
    decide (e.2.lastActiveMs < r.cutoff nowMs)).map Prod.fst
  (stale.length, { r with sessions := r.sessions.eraseAll stale })

/-- `min_by_key`: the first of several oldest ones. -/
def oldestOf : List (String × SessionEntry) → Option (String × SessionEntry)
  | [] => none
  | e :: rest =>
    match oldestOf rest with
    | none => some e
    | some d => if d.2.lastActiveMs < e.2.lastActiveMs then some d else some e

/-- The loop of `enforce_cap`, at most `n` times. -/
def enforceCapFrom (maxSessions : Nat) :
    Nat → SortedTable String SessionEntry → SortedTable String SessionEntry
  | 0, t => t
  | n + 1, t =>
    if t.size < maxSessions then t
    else
      match oldestOf t.entries with
      | none => t
      | some oldest => enforceCapFrom maxSessions n (t.erase oldest.1)

def enforceCap (r : SessionRegistry) : SessionRegistry :=
  { r with sessions := enforceCapFrom r.maxSessions r.sessions.size r.sessions }

def track (r : SessionRegistry) (conversationId : String) (nowMs : Int) : SessionRegistry :=
  let r := (r.evictIdle nowMs).2
  if (r.sessions.lookup conversationId).isSome then r.touch conversationId nowMs
  else
    let r := r.enforceCap
    { r with sessions := r.sessions.insert conversationId ⟨conversationId, nowMs⟩ }

def resolve (r : SessionRegistry) (sessionKey : String) (nowMs : Int) : String × SessionRegistry :=
  let r := r.track sessionKey nowMs
  ((r.conversationId sessionKey).getD sessionKey, r)

end SessionRegistry

/-! ## Operations -/

inductive SessionCommand where
  | resolve (sessionKey : String) (nowMs : Int)
  | track (conversationId : String) (nowMs : Int)
  | touch (sessionKey : String) (nowMs : Int)
  | evictIdle (nowMs : Int)

inductive SessionReply where
  | conversation (id : String)
  | done
  | evicted (count : Nat)
deriving DecidableEq

def SessionCommand.nowMs : SessionCommand → Int
  | .resolve _ nowMs => nowMs
  | .track _ nowMs => nowMs
  | .touch _ nowMs => nowMs
  | .evictIdle nowMs => nowMs

/-- The session that is active with the operation. -/
def SessionCommand.key : SessionCommand → Option String
  | .resolve sessionKey _ => some sessionKey
  | .track conversationId _ => some conversationId
  | .touch sessionKey _ => some sessionKey
  | .evictIdle _ => none

/-- The session that is there afterwards in any case. -/
def SessionCommand.served : SessionCommand → Option String
  | .resolve sessionKey _ => some sessionKey
  | .track conversationId _ => some conversationId
  | .touch _ _ => none
  | .evictIdle _ => none

def registryMachine : Machine SessionRegistry SessionCommand SessionReply where
  step r
    | .resolve sessionKey nowMs =>
      let (id, r) := r.resolve sessionKey nowMs
      (.conversation id, r)
    | .track conversationId nowMs => (.done, r.track conversationId nowMs)
    | .touch sessionKey nowMs => (.done, r.touch sessionKey nowMs)
    | .evictIdle nowMs =>
      let (count, r) := r.evictIdle nowMs
      (.evicted count, r)

/-! ## The cap -/

/-- What removing the oldest sessions leaves: a table below the cap, in which nothing is older
than what was removed, and from which no more was removed than necessary. -/
structure Capped (maxSessions : Nat) (before after : SortedTable String SessionEntry) : Prop where
  subset : after.entries ⊆ before.entries
  small : after.size < maxSessions
  oldest : ∀ gone ∈ before.entries, gone ∉ after.entries → ∀ kept ∈ after.entries,
    gone.2.lastActiveMs ≤ kept.2.lastActiveMs
  needed : after = before ∨ after.size + 1 = maxSessions

theorem oldestOf_spec {es : List (String × SessionEntry)} (h : es ≠ []) :
    ∃ d ∈ es, SessionRegistry.oldestOf es = some d ∧
      ∀ e ∈ es, d.2.lastActiveMs ≤ e.2.lastActiveMs := by
  induction es with
  | nil => exact absurd rfl h
  | cons e rest ih =>
    rw [SessionRegistry.oldestOf]
    cases rest with
    | nil =>
      refine ⟨e, mem_cons_self, rfl, fun d hd => ?_⟩
      rw [List.mem_singleton.mp hd]
    | cons x xs =>
      obtain ⟨d, hd, heq, hle⟩ := ih (cons_ne_nil x xs)
      rw [heq]
      dsimp only
      split
      · rename_i hlt
        refine ⟨d, mem_cons_of_mem e hd, rfl, fun c hc => ?_⟩
        rcases List.mem_cons.mp hc with rfl | hc
        · exact Int.le_of_lt hlt
        · exact hle c hc
      · rename_i hge
        refine ⟨e, mem_cons_self, rfl, fun c hc => ?_⟩
        rcases List.mem_cons.mp hc with rfl | hc
        · exact Int.le_refl _
        · exact Int.le_trans (Int.not_lt.mp hge) (hle c hc)

theorem enforceCapFrom_capped {maxSessions n : Nat} {t : SortedTable String SessionEntry}
    (hcap : 1 ≤ maxSessions) (hn : t.size ≤ n) :
    Capped maxSessions t (SessionRegistry.enforceCapFrom maxSessions n t) := by
  induction n generalizing t with
  | zero =>
    have hsize : t.size = 0 := Nat.le_zero.mp hn
    exact ⟨fun _ h => h, by rw [SessionRegistry.enforceCapFrom, hsize]; exact hcap,
      fun gone hgone hnot => absurd hgone hnot, .inl rfl⟩
  | succ n ih =>
    rw [SessionRegistry.enforceCapFrom]
    split
    · rename_i hsmall
      exact ⟨fun _ h => h, hsmall, fun gone hgone hnot => absurd hgone hnot, .inl rfl⟩
    · rename_i hfull
      have hne : t.entries ≠ [] := by
        intro hnil
        have hsize : t.size = 0 := congrArg List.length hnil
        omega
      obtain ⟨first, hmem, hfirst, hle⟩ := oldestOf_spec hne
      rw [hfirst]
      have hless := SortedTable.size_erase hmem
      obtain ⟨hsubset, hsmall, hold, hneeded⟩ := @ih (t.erase first.1) (by omega)
      dsimp only
      refine ⟨fun e he => (SortedTable.mem_erase.mp (hsubset he)).1, hsmall, ?_, .inr ?_⟩
      · intro gone hgone hnot kept hkept
        have hkept' := (SortedTable.mem_erase.mp (hsubset hkept)).1
        by_cases hkey : gone.1 = first.1
        · rw [SortedTable.eq_of_mem hgone hmem hkey]
          exact hle kept hkept'
        · exact hold gone (SortedTable.mem_erase.mpr ⟨hgone, hkey⟩) hnot kept hkept
      · rcases hneeded with heq | heq
        · rw [heq] at hsmall ⊢
          omega
        · exact heq

namespace SessionRegistry

variable (r : SessionRegistry) (nowMs : Int)

theorem enforceCap_spec : Capped r.maxSessions r.sessions r.enforceCap.sessions :=
  enforceCapFrom_capped r.cap_pos (Nat.le_refl _)

theorem mem_evictIdle {e : String × SessionEntry} :
    e ∈ (r.evictIdle nowMs).2.sessions.entries ↔
      e ∈ r.sessions.entries ∧ r.cutoff nowMs ≤ e.2.lastActiveMs := by
  show e ∈ (r.sessions.eraseAll _).entries ↔ _
  rw [SortedTable.mem_eraseAll]
  refine and_congr_right fun he => ?_
  rw [List.mem_map]
  constructor
  · intro hnot
    by_contra hidle
    exact hnot ⟨e, List.mem_filter.mpr ⟨he, decide_eq_true (not_le.mp hidle)⟩, rfl⟩
  · rintro hactive ⟨d, hd, hkey⟩
    obtain ⟨hd, hidle⟩ := List.mem_filter.mp hd
    rw [SortedTable.eq_of_mem hd he hkey, decide_eq_true_iff] at hidle
    exact absurd hidle (not_lt.mpr hactive)

theorem count_evictIdle : (r.evictIdle nowMs).1 =
    r.sessions.entries.countP fun e => decide (e.2.lastActiveMs < r.cutoff nowMs) := by
  show (List.map _ _).length = _
  rw [length_map, countP_eq_length_filter]

theorem len_evictIdle_le : (r.evictIdle nowMs).2.len ≤ r.len := SortedTable.size_eraseAll_le _ _

variable {r nowMs} {key : String}

theorem conversationId_eq_some {id : String} :
    r.conversationId key = some id ↔
      ∃ e, (key, e) ∈ r.sessions.entries ∧ e.conversationId = id := by
  unfold conversationId
  rw [map_eq_some_iff]
  exact exists_congr fun e => and_congr_left' SortedTable.lookup_eq_some

theorem lookup_ne_none {e : String × SessionEntry} (he : e ∈ r.sessions.entries) :
    r.sessions.lookup e.1 ≠ none := fun hnone => SortedTable.lookup_eq_none.mp hnone e he rfl

theorem lookup_touch (other : String) :
    ((r.touch key nowMs).sessions.lookup other).isSome = (r.sessions.lookup other).isSome := by
  rw [Bool.eq_iff_iff, isSome_iff_exists, isSome_iff_exists]
  constructor
  · rintro ⟨e, he⟩
    have hmem := SortedTable.mem_modify.mp (SortedTable.lookup_eq_some.mp he)
    rcases hmem with ⟨hmem, -⟩ | ⟨old, hold, heq⟩
    · exact ⟨e, SortedTable.lookup_eq_some.mpr hmem⟩
    · cases heq
      exact ⟨old, SortedTable.lookup_eq_some.mpr hold⟩
  · rintro ⟨e, he⟩
    have hmem := SortedTable.lookup_eq_some.mp he
    by_cases hkey : other = key
    · subst hkey
      exact ⟨_, SortedTable.lookup_eq_some.mpr (SortedTable.mem_modify.mpr (.inr ⟨e, hmem, rfl⟩))⟩
    · exact ⟨e, SortedTable.lookup_eq_some.mpr (SortedTable.mem_modify.mpr (.inl ⟨hmem, hkey⟩))⟩

/-! ## One session is served -/

/-- What serving `key` leaves of a registry: the session itself, and of the others those that are
not idle, less the oldest ones when the registry is full. -/
structure Serves (r : SessionRegistry) (key : String) (nowMs : Int) (after : SessionRegistry) :
    Prop where
  cap : after.maxSessions = r.maxSessions
  bounded : after.len ≤ after.maxSessions
  present : ∃ e, (key, e) ∈ after.sessions.entries ∧ e.lastActiveMs = nowMs ∧
    (e.conversationId = key ∨ ∃ old, (key, old) ∈ r.sessions.entries ∧
      e.conversationId = old.conversationId)
  others : ∀ e ∈ after.sessions.entries, e.1 ≠ key →
    e ∈ r.sessions.entries ∧ r.cutoff nowMs ≤ e.2.lastActiveMs
  removed : ∀ gone ∈ r.sessions.entries, after.sessions.lookup gone.1 = none →
    gone.2.lastActiveMs < r.cutoff nowMs ∨ (after.len = after.maxSessions ∧
      ∀ kept ∈ after.sessions.entries, kept.1 ≠ key → gone.2.lastActiveMs ≤ kept.2.lastActiveMs)

theorem serves_of_present {e : SessionEntry} (hbounded : r.len ≤ r.maxSessions)
    (he : (r.evictIdle nowMs).2.sessions.lookup key = some e) :
    Serves r key nowMs ((r.evictIdle nowMs).2.touch key nowMs) := by
  have hmem := SortedTable.lookup_eq_some.mp he
  refine ⟨rfl, ?_, ?_, ?_, ?_⟩
  · show ((r.evictIdle nowMs).2.sessions.modify key _).size ≤ r.maxSessions
    rw [SortedTable.size_modify]
    exact Nat.le_trans (len_evictIdle_le r nowMs) hbounded
  · refine ⟨{ e with lastActiveMs := nowMs },
      SortedTable.mem_modify.mpr (.inr ⟨e, hmem, rfl⟩), rfl, .inr ⟨e, ?_, rfl⟩⟩
    exact ((mem_evictIdle r nowMs).mp hmem).1
  · intro d hd hne
    rcases SortedTable.mem_modify.mp hd with ⟨hd, -⟩ | ⟨old, -, rfl⟩
    · exact (mem_evictIdle r nowMs).mp hd
    · exact absurd rfl hne
  · intro gone hgone hnone
    by_contra hnot
    have hactive : r.cutoff nowMs ≤ gone.2.lastActiveMs := not_lt.mp fun hidle => hnot (.inl hidle)
    have hkept := lookup_ne_none ((mem_evictIdle r nowMs).mpr ⟨hgone, hactive⟩)
    rw [← isSome_iff_ne_none, ← @lookup_touch _ nowMs key, hnone] at hkept
    exact absurd hkept Bool.false_ne_true

theorem serves_of_absent
    (habsent : (r.evictIdle nowMs).2.sessions.lookup key = none) :
    Serves r key nowMs { (r.evictIdle nowMs).2.enforceCap with
      sessions := (r.evictIdle nowMs).2.enforceCap.sessions.insert key ⟨key, nowMs⟩ } := by
  obtain ⟨hsubset, hsmall, holdest, hneeded⟩ := (r.evictIdle nowMs).2.enforceCap_spec
  have hfresh : (r.evictIdle nowMs).2.enforceCap.sessions.lookup key = none :=
    SortedTable.lookup_eq_none.mpr fun e he =>
      SortedTable.lookup_eq_none.mp habsent e (hsubset he)
  have hsize := @SortedTable.size_insert _ _ _ _ _ (⟨key, nowMs⟩ : SessionEntry) hfresh
  refine ⟨rfl, ?_, ?_, ?_, ?_⟩
  · exact hsize.trans_le hsmall
  · exact ⟨⟨key, nowMs⟩, SortedTable.mem_insert.mpr (.inl rfl), rfl, .inl rfl⟩
  · intro e he hne
    rcases SortedTable.mem_insert.mp he with rfl | ⟨he, -⟩
    · exact absurd rfl hne
    · exact (mem_evictIdle r nowMs).mp (hsubset he)
  · intro gone hgone hnone
    rcases lt_or_ge gone.2.lastActiveMs (r.cutoff nowMs) with hidle | hactive
    · exact .inl hidle
    · right
      have hbefore := (mem_evictIdle r nowMs).mpr ⟨hgone, hactive⟩
      have hkey : gone.1 ≠ key := SortedTable.lookup_eq_none.mp habsent gone hbefore
      have hnot : gone ∉ (r.evictIdle nowMs).2.enforceCap.sessions.entries := by
        intro hstill
        exact SortedTable.lookup_eq_none.mp hnone gone
          (SortedTable.mem_insert.mpr (.inr ⟨hstill, hkey⟩)) rfl
      constructor
      · rcases hneeded with heq | heq
        · exact absurd (heq ▸ hbefore) hnot
        · exact hsize.trans heq
      · intro kept hkept hne
        rcases SortedTable.mem_insert.mp hkept with rfl | ⟨hkept, -⟩
        · exact absurd rfl hne
        · exact holdest gone hbefore hnot kept hkept

theorem track_serves (hbounded : r.len ≤ r.maxSessions) (key : String) (nowMs : Int) :
    Serves r key nowMs (r.track key nowMs) := by
  unfold track
  dsimp only
  cases hlookup : (r.evictIdle nowMs).2.sessions.lookup key with
  | none =>
    rw [isSome_none, if_neg Bool.false_ne_true]
    exact serves_of_absent hlookup
  | some e =>
    rw [isSome_some, if_pos rfl]
    exact serves_of_present hbounded hlookup

end SessionRegistry

/-! ## Runs -/

open SessionRegistry

/-- When the key was last named. -/
def lastActive (cmds : List SessionCommand) (key : String) : Option Int :=
  (cmds.reverse.find? fun c => decide (c.key = some key)).map SessionCommand.nowMs

theorem lastActive_concat (cmds : List SessionCommand) (cmd : SessionCommand) (key : String) :
    lastActive (cmds ++ [cmd]) key =
      if cmd.key = some key then some cmd.nowMs else lastActive cmds key := by
  unfold lastActive
  rw [reverse_append, reverse_singleton, singleton_append, find?_cons]
  split <;> simp_all

/-- The registry after the operations is within its cap, every session is filed under its own
conversation, and it carries the time at which it was last named. -/
structure Follows (cmds : List SessionCommand) (r : SessionRegistry) : Prop where
  bounded : r.len ≤ r.maxSessions
  filed : ∀ e ∈ r.sessions.entries, e.2.conversationId = e.1
  stamped : ∀ e ∈ r.sessions.entries, lastActive cmds e.1 = some e.2.lastActiveMs

theorem follows_new (maxSessions : Nat) (idleTtlMs : Int) :
    Follows [] (SessionRegistry.new maxSessions idleTtlMs) where
  bounded := Nat.zero_le _
  filed _ he := absurd he not_mem_nil
  stamped _ he := absurd he not_mem_nil

variable {cmds : List SessionCommand} {r : SessionRegistry}

theorem Follows.serves (h : Follows cmds r) {cmd : SessionCommand} {key : String}
    (hkey : cmd.key = some key) {after : SessionRegistry}
    (hserves : Serves r key cmd.nowMs after) : Follows (cmds ++ [cmd]) after := by
  obtain ⟨-, hbounded, ⟨served, hserved, hstamp, hid⟩, hothers, -⟩ := hserves
  have hcase : ∀ e ∈ after.sessions.entries, e = (key, served) ∨
      e ∈ r.sessions.entries ∧ e.1 ≠ key := by
    intro e he
    by_cases hek : e.1 = key
    · exact .inl (SortedTable.eq_of_mem he hserved hek)
    · exact .inr ⟨(hothers e he hek).1, hek⟩
  refine ⟨hbounded, fun e he => ?_, fun e he => ?_⟩
  · rcases hcase e he with rfl | ⟨he, -⟩
    · rcases hid with hid | ⟨old, hold, hid⟩
      · exact hid
      · exact hid.trans (h.filed (key, old) hold)
    · exact h.filed e he
  · rw [lastActive_concat]
    rcases hcase e he with rfl | ⟨he, hne⟩
    · rw [if_pos hkey, hstamp]
    · rw [if_neg fun heq => hne (Option.some_inj.mp (heq.symm.trans hkey))]
      exact h.stamped e he

theorem Follows.touch (h : Follows cmds r) (key : String) (nowMs : Int) :
    Follows (cmds ++ [.touch key nowMs]) (r.touch key nowMs) where
  bounded := (SortedTable.size_modify _ _ _).trans_le h.bounded
  filed e he := by
    rcases SortedTable.mem_modify.mp he with ⟨he, -⟩ | ⟨old, hold, rfl⟩
    · exact h.filed e he
    · exact h.filed (key, old) hold
  stamped e he := by
    rw [lastActive_concat]
    rcases SortedTable.mem_modify.mp he with ⟨he, hne⟩ | ⟨old, hold, rfl⟩
    · exact (if_neg fun heq => hne (Option.some_inj.mp heq).symm).trans (h.stamped e he)
    · exact if_pos rfl

theorem Follows.evictIdle (h : Follows cmds r) (nowMs : Int) :
    Follows (cmds ++ [.evictIdle nowMs]) (r.evictIdle nowMs).2 where
  bounded := Nat.le_trans (len_evictIdle_le r nowMs) h.bounded
  filed e he := h.filed e ((mem_evictIdle r nowMs).mp he).1
  stamped e he := by
    rw [lastActive_concat, if_neg fun heq => some_ne_none _ heq.symm]
    exact h.stamped e ((mem_evictIdle r nowMs).mp he).1

theorem follows_step (h : Follows cmds r) (cmd : SessionCommand) :
    Follows (cmds ++ [cmd]) (registryMachine.step r cmd).2 := by
  cases cmd with
  | resolve key nowMs => exact h.serves rfl (track_serves h.bounded key nowMs)
  | track key nowMs => exact h.serves rfl (track_serves h.bounded key nowMs)
  | touch key nowMs => exact h.touch key nowMs
  | evictIdle nowMs => exact h.evictIdle nowMs

theorem follows_run (maxSessions : Nat) (idleTtlMs : Int) (cmds : List SessionCommand) :
    Follows cmds (registryMachine.run (SessionRegistry.new maxSessions idleTtlMs) cmds) := by
  induction cmds using List.reverseRecOn with
  | nil => exact follows_new maxSessions idleTtlMs
  | append_singleton cmds cmd ih =>
    rw [registryMachine.run_concat]
    exact follows_step ih cmd

/-- What an operation does in a run that began with `cmds`. -/
structure OperationSound (cmds : List SessionCommand)
    (e : Machine.Event SessionRegistry SessionCommand SessionReply) : Prop where
  bounded : e.after.len ≤ e.after.maxSessions
  present : ∀ key, e.input.served = some key → e.after.conversationId key = some key
  resolved : ∀ key nowMs, e.input = .resolve key nowMs → e.output = .conversation key
  stamped : ∀ s ∈ e.after.sessions.entries,
    lastActive (cmds ++ [e.input]) s.1 = some s.2.lastActiveMs
  touched : ∀ key nowMs, e.input = .touch key nowMs → ∀ other,
    (e.after.sessions.lookup other).isSome = (e.before.sessions.lookup other).isSome
  evicted : ∀ nowMs, e.input = .evictIdle nowMs →
    (∀ s, s ∈ e.after.sessions.entries ↔
      s ∈ e.before.sessions.entries ∧ e.before.cutoff nowMs ≤ s.2.lastActiveMs) ∧
    e.output = .evicted (e.before.sessions.entries.countP fun s =>
      decide (s.2.lastActiveMs < e.before.cutoff nowMs))
  idle : ∀ key, e.input.served = some key → ∀ s ∈ e.after.sessions.entries, s.1 ≠ key →
    s ∈ e.before.sessions.entries ∧ e.before.cutoff e.input.nowMs ≤ s.2.lastActiveMs
  removed : ∀ key, e.input.served = some key → ∀ gone ∈ e.before.sessions.entries,
    e.after.sessions.lookup gone.1 = none →
      gone.2.lastActiveMs < e.before.cutoff e.input.nowMs ∨
      (e.after.len = e.after.maxSessions ∧ ∀ kept ∈ e.after.sessions.entries, kept.1 ≠ key →
        gone.2.lastActiveMs ≤ kept.2.lastActiveMs)

/-- The law of every operation of every run. -/
theorem registry_runs (maxSessions : Nat) (idleTtlMs : Int) (cmds : List SessionCommand)
    (cmd : SessionCommand) :
    OperationSound cmds (registryMachine.eventAt
      (registryMachine.run (SessionRegistry.new maxSessions idleTtlMs) cmds) cmd) := by
  have hbefore := follows_run maxSessions idleTtlMs cmds
  have hafter := follows_step hbefore cmd
  generalize registryMachine.run (SessionRegistry.new maxSessions idleTtlMs) cmds = r
    at hbefore hafter ⊢
  have hpresent : ∀ key, cmd.served = some key →
      Serves r key cmd.nowMs (registryMachine.step r cmd).2 := by
    intro key hkey
    cases cmd with
    | resolve k nowMs =>
      cases hkey
      exact track_serves hbefore.bounded key nowMs
    | track k nowMs =>
      cases hkey
      exact track_serves hbefore.bounded key nowMs
    | touch k nowMs => exact absurd hkey.symm (some_ne_none key)
    | evictIdle nowMs => exact absurd hkey.symm (some_ne_none key)
  have hfound : ∀ key, cmd.served = some key →
      (registryMachine.step r cmd).2.conversationId key = some key := by
    intro key hkey
    obtain ⟨e, he, -⟩ := (hpresent key hkey).present
    exact conversationId_eq_some.mpr ⟨e, he, hafter.filed (key, e) he⟩
  refine ⟨hafter.bounded, hfound, ?_, hafter.stamped, ?_, ?_,
    fun key hkey => (hpresent key hkey).others, fun key hkey => (hpresent key hkey).removed⟩
  · rintro key nowMs rfl
    have hid := hfound key rfl
    show SessionReply.conversation (((r.track key nowMs).conversationId key).getD key) = _
    rw [show (r.track key nowMs).conversationId key = some key from hid, getD_some]
  · rintro key nowMs rfl other
    exact lookup_touch other
  · rintro nowMs rfl
    exact ⟨fun s => mem_evictIdle r nowMs, congrArg _ (count_evictIdle r nowMs)⟩

end GenieClaw.Conversation
