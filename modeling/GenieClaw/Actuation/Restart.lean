import GenieClaw.Actuation.Ledger
import Mathlib.Logic.Relation

/-!
# The ledger across restarts

A session is the ledger in memory and the audit log on disk. Executed actions are
recorded and logged, other events are only logged, and a restart hydrates a fresh ledger
from the end of the log. `SessionStep` carries the condition under which restarts are
considered.

* `reachable_sound` (no assumption): ids increase along the ledger of every session.
* `hydrate_mirrors_ledger` (every restart finds the log covered): a restart brings the live ledger
  back, and no id is issued twice.
-/

namespace GenieClaw.Actuation

open Library Relation List Option

structure Session where
  ledger : ActionLedgerState := {}
  log : List AuditEvent := []

inductive SessionStep (format : LineFormat) (AtRestart : List AuditEvent → Prop) :
    Session → Session → Prop
  /-- An undo names an action that was recorded before. -/
  | executed {s : Session} (entity action : String) (value : Option F64) (origin : RequestOrigin)
      (summary : String) (confidence : Option F32) (undoOf : Option Nat)
      (undoRestore : Option UndoRestore) (nowMs tsMs : Nat)
      (hundo : ∀ id, undoOf = some id → id ≤ s.ledger.nextId) :
      SessionStep format AtRestart s
        { ledger := (s.ledger.recordInternal entity action value origin summary confidence undoOf
            undoRestore nowMs).2
          log := s.log ++ [executedEvent tsMs (s.ledger.recordInternal entity action value origin
            summary confidence undoOf undoRestore nowMs).1] }
  | audited {s : Session} (event : AuditEvent) (hstatus : event.status ≠ .executed) :
      SessionStep format AtRestart s { s with log := s.log ++ [event] }
  | restarted {s : Session} (h : AtRestart s.log) :
      SessionStep format AtRestart s
        { s with ledger := .hydrate (readRecentExecutedActions format actionHistoryLimit s.log) }

/-- Reachable with restarts at any moment. -/
def Session.Reachable (format : LineFormat) (s : Session) : Prop :=
  ReflTransGen (SessionStep format fun _ => True) {} s

variable {format : LineFormat}

theorem readRecent_eq_rtake (log : List AuditEvent) :
    readRecentExecutedActions format actionHistoryLimit log =
      (scannedActions format actionHistoryLimit log).rtake actionHistoryLimit := rfl

theorem rtake_rtake {α : Type} (l : List α) (m n : Nat) (h : m ≤ n) :
    (l.rtake n).rtake m = l.rtake m := by
  rw [rtake_eq_reverse_take_reverse, rtake_eq_reverse_take_reverse,
    rtake_eq_reverse_take_reverse, reverse_reverse, take_take, min_eq_left h]

/-! ## Order survives every restart -/

/-- Ids increase along the ledger and along what a restart would read, and none is beyond
the last one issued. -/
structure Session.Sound (format : LineFormat) (s : Session) : Prop where
  ordered : s.ledger.Ordered
  increasing : (scannedActions format actionHistoryLimit s.log).Pairwise (fun a b => a.id < b.id)
  bounded : ∀ item ∈ scannedActions format actionHistoryLimit s.log, item.id ≤ s.ledger.nextId

theorem ordered_hydrate {actions : List RecordedAction}
    (h : actions.Pairwise (fun a b => a.id < b.id)) :
    (ActionLedgerState.hydrate actions).Ordered := by
  obtain ⟨hactions, -, hbound, -⟩ := ActionLedgerState.hydrate_spec actions
  refine ⟨?_, hbound⟩
  rw [hactions]
  exact h.sublist (drop_sublist _ _)

theorem le_hydrate_nextId {actions : List RecordedAction}
    (h : actions.Pairwise (fun a b => a.id < b.id)) :
    ∀ item ∈ actions, item.id ≤ (ActionLedgerState.hydrate actions).nextId := by
  obtain ⟨hactions, -, hbound, -⟩ := ActionLedgerState.hydrate_spec actions
  rw [hactions] at hbound
  have hsplit := take_append_drop (actions.length - actionHistoryLimit) actions
  intro item hitem
  rw [← hsplit] at h hitem
  rcases List.mem_append.mp hitem with hold | hnew
  · have hlen := length_pos_of_mem hold
    rw [length_take] at hlen
    have hne : actions.rtake actionHistoryLimit ≠ [] := by
      intro hnil
      have := congrArg List.length hnil
      rw [List.rtake, length_drop, length_nil, actionHistoryLimit] at this
      rw [actionHistoryLimit] at hlen
      omega
    obtain ⟨newer, hnewer⟩ := exists_mem_of_ne_nil _ hne
    have hlt := (List.pairwise_append.mp h).2.2 item hold newer hnewer
    exact (Nat.le_of_lt hlt).trans (hbound newer hnewer)
  · exact hbound item hnew

theorem Session.Sound.step {s s' : Session} {AtRestart : List AuditEvent → Prop}
    (h : s.Sound format) (hstep : SessionStep format AtRestart s s') : s'.Sound format := by
  cases hstep with
  | executed entity action value origin summary confidence undoOf undoRestore nowMs tsMs hundo =>
    have hsub := @scannedActions_append_sublist format actionHistoryLimit s.log
      (executedEvent tsMs (s.ledger.recordInternal entity action value origin summary confidence
        undoOf undoRestore nowMs).1)
    -- an action read from the new line carries the new id
    have hnew : ∀ item ∈ (format.recall (executedEvent tsMs (s.ledger.recordInternal entity action
        value origin summary confidence undoOf undoRestore nowMs).1)).toList,
        item.id = s.ledger.nextId + 1 := by
      intro item hitem
      rw [mem_toList] at hitem
      exact (Option.some.inj (recall_spec hitem).2).symm
    refine ⟨h.ordered.recordInternal, List.Pairwise.sublist hsub ?_, fun item hitem => ?_⟩
    · rw [pairwise_append]
      refine ⟨h.increasing, ?_, fun a ha b hb => ?_⟩
      · cases format.recall _ <;> simp
      · have := h.bounded a ha
        rw [hnew b hb]
        omega
    · rcases List.mem_append.mp (hsub.subset hitem) with hitem | hitem
      · exact Nat.le_succ_of_le (h.bounded item hitem)
      · exact Nat.le_of_eq (hnew item hitem)
  | audited event hstatus =>
    have hsub := @scannedActions_append_sublist format actionHistoryLimit s.log event
    rw [recall_eq_none hstatus, toList_none, append_nil] at hsub
    exact ⟨h.ordered, h.increasing.sublist hsub, fun item hitem =>
      h.bounded item (hsub.subset hitem)⟩
  | restarted =>
    have hrecent : (readRecentExecutedActions format actionHistoryLimit s.log).Pairwise
        (fun a b => a.id < b.id) := h.increasing.sublist (drop_sublist _ _)
    refine ⟨ordered_hydrate hrecent, h.increasing, fun item hitem => ?_⟩
    -- hydrating the last 32 or all that was scanned counts on from the same id
    have hsame : ActionLedgerState.hydrate (readRecentExecutedActions format actionHistoryLimit
        s.log) = .hydrate (scannedActions format actionHistoryLimit s.log) := by
      unfold ActionLedgerState.hydrate
      rw [ActionLedgerState.newest_eq_rtake, ActionLedgerState.newest_eq_rtake,
        readRecent_eq_rtake, rtake_rtake _ _ _ (Nat.le_refl _)]
    show item.id ≤ (ActionLedgerState.hydrate _).nextId
    rw [hsame]
    exact le_hydrate_nextId h.increasing item hitem

/-- Whatever the log holds and whenever the program restarted, ids increase along the
ledger. -/
theorem reachable_sound {s : Session} {AtRestart : List AuditEvent → Prop}
    (h : ReflTransGen (SessionStep format AtRestart) {} s) : s.Sound format := by
  induction h with
  | refl => exact ⟨ActionLedgerState.ordered_empty, .nil, by intro item h; cases h⟩
  | tail _ hstep ih => exact ih.step hstep

/-! ## What a restart brings back -/

def isExecuted (event : AuditEvent) : Bool := decide (event.status = .executed)

/-- The last 32 executed events of the whole log. -/
def recentExecuted (log : List AuditEvent) : List AuditEvent :=
  (log.filter isExecuted).rtake actionHistoryLimit

/-- The ids of the executed actions, as logged. -/
def executedIds (log : List AuditEvent) : List Nat :=
  (log.filter isExecuted).filterMap AuditEvent.actionId

/-- The last 32 executed events are all among the last 512 lines that are short enough,
and their lines parse. -/
def Covered (format : LineFormat) (log : List AuditEvent) : Prop :=
  recentExecuted log <:+
      (tailLines format (scanLimit actionHistoryLimit) log).filter isExecuted ∧
    ∀ event ∈ recentExecuted log, (format.recall event).isSome

/-- The entry is the one the line was written for, with its numbers as written or as read
back. -/
structure LoggedAs (format : LineFormat) (event : AuditEvent) (item : RecordedAction) : Prop where
  executed : event.status = .executed
  id : event.actionId = some item.id
  undoOf : item.undoOf = event.undoOf
  entity : item.entity = event.entity
  action : item.action = event.action
  inverseAction : item.inverseAction = Actuation.inverseAction event.action
  origin : item.origin = event.origin
  value : item.value = event.value ∨ format.reread64 event.value = some item.value
  confidence : item.confidence = event.confidence ∨
    format.reread32 event.confidence = some item.confidence
  undoRestore : item.undoRestore = event.undoRestore ∨
    format.rereadRestore event.undoRestore = some item.undoRestore

/-- Two ledger entries of one action: all fields agree but the summary and the time, and
a number of the second may have passed through its text. -/
structure SameAction (format : LineFormat) (live read : RecordedAction) : Prop where
  id : read.id = live.id
  undoOf : read.undoOf = live.undoOf
  entity : read.entity = live.entity
  action : read.action = live.action
  inverseAction : read.inverseAction = live.inverseAction
  origin : read.origin = live.origin
  value : read.value = live.value ∨ format.reread64 live.value = some read.value
  confidence : read.confidence = live.confidence ∨
    format.reread32 live.confidence = some read.confidence
  undoRestore : read.undoRestore = live.undoRestore ∨
    format.rereadRestore live.undoRestore = some read.undoRestore

variable {event : AuditEvent}

theorem loggedAs_recall {item : RecordedAction} (h : format.recall event = some item) :
    LoggedAs format event item ∧ format.reread64 event.value = some item.value ∧
      format.reread32 event.confidence = some item.confidence ∧
      format.rereadRestore event.undoRestore = some item.undoRestore := by
  obtain ⟨hstatus, hid⟩ := recall_spec h
  unfold LineFormat.recall at h
  obtain ⟨event', hback, hitem⟩ := Option.bind_eq_some_iff.mp h
  obtain ⟨value, confidence, undoRestore, hvalue, hconfidence, hrestore, rfl⟩ := readBack_spec hback
  unfold auditEventToRecordedAction at hitem
  rw [if_neg (not_not.mpr hstatus)] at hitem
  obtain ⟨id, -, rfl⟩ := Option.map_eq_some_iff.mp hitem
  exact ⟨⟨hstatus, hid, rfl, rfl, rfl, rfl, rfl, .inr hvalue, .inr hconfidence, .inr hrestore⟩,
    hvalue, hconfidence, hrestore⟩

theorem sameAction_recall {live read : RecordedAction} (hlive : LoggedAs format event live)
    (hread : format.recall event = some read) : SameAction format live read := by
  obtain ⟨hlogged, hvalue, hconfidence, hrestore⟩ := loggedAs_recall hread
  refine ⟨?_, ?_, ?_, ?_, ?_, ?_, ?_, ?_, ?_⟩
  · exact Option.some.inj (hlogged.id.symm.trans hlive.id)
  · exact hlogged.undoOf.trans hlive.undoOf.symm
  · exact hlogged.entity.trans hlive.entity.symm
  · exact hlogged.action.trans hlive.action.symm
  · exact hlogged.inverseAction.trans hlive.inverseAction.symm
  · exact hlogged.origin.trans hlive.origin.symm
  · rcases hlive.value with heq | heq
    · exact .inr (heq ▸ hvalue)
    · exact .inl (Option.some.inj (hvalue.symm.trans heq))
  · rcases hlive.confidence with heq | heq
    · exact .inr (heq ▸ hconfidence)
    · exact .inl (Option.some.inj (hconfidence.symm.trans heq))
  · rcases hlive.undoRestore with heq | heq
    · exact .inr (heq ▸ hrestore)
    · exact .inl (Option.some.inj (hrestore.symm.trans heq))

theorem readRecent_of_covered {log : List AuditEvent} (h : Covered format log) :
    readRecentExecutedActions format actionHistoryLimit log =
      (recentExecuted log).filterMap format.recall := by
  obtain ⟨⟨front, hfront⟩, hparse⟩ := h
  have hscan : scannedActions format actionHistoryLimit log =
      front.filterMap format.recall ++ (recentExecuted log).filterMap format.recall := by
    rw [← filterMap_append, hfront]
    unfold scannedActions
    generalize tailLines format (scanLimit actionHistoryLimit) log = tail
    induction tail with
    | nil => rfl
    | cons event rest ih =>
      by_cases hexec : isExecuted event = true
      · rw [filter_cons_of_pos hexec, filterMap_cons, filterMap_cons, ih]
      · have hnone : format.recall event = none :=
          recall_eq_none (fun heq => hexec (decide_eq_true heq))
        rw [filter_cons_of_neg hexec, filterMap_cons, hnone, ih]
  have hlen : ((recentExecuted log).filterMap format.recall).length =
      (recentExecuted log).length := by
    generalize recentExecuted log = recent at hparse ⊢
    induction recent with
    | nil => rfl
    | cons event rest ih =>
      obtain ⟨item, hitem⟩ := Option.isSome_iff_exists.mp (hparse event mem_cons_self)
      rw [filterMap_cons, hitem]
      exact congrArg (· + 1) (ih fun e he => hparse e (mem_cons_of_mem _ he))
  rw [readRecent_eq_rtake, hscan, List.rtake, length_append, hlen]
  have hrecent : (recentExecuted log).length =
      min (log.filter isExecuted).length actionHistoryLimit := by
    rw [recentExecuted, List.rtake, length_drop]
    omega
  -- either 32 events fill the ledger, or the log has no executed event besides them
  have hcut : (front.filterMap format.recall).length + (recentExecuted log).length -
      actionHistoryLimit = (front.filterMap format.recall).length := by
    by_cases hmany : actionHistoryLimit ≤ (log.filter isExecuted).length
    · omega
    · have hsub : (front ++ recentExecuted log).Sublist (log.filter isExecuted) := by
        rw [hfront]
        exact (tailLines_sublist _ log).filter isExecuted
      have hle := hsub.length_le
      have hfilter := length_filterMap_le format.recall front
      rw [length_append] at hle
      omega
  rw [hcut, drop_left]

/-! ## The ledger mirrors the log -/

/-- The ledger against the log: entry by entry the last 32 executed events, the undone
marks those of the undos among them, and all ids accounted for. -/
structure Mirrors (format : LineFormat) (s : Session) : Prop where
  ordered : s.ledger.Ordered
  logged : List.Forall₂ (LoggedAs format) (recentExecuted s.log) s.ledger.actions
  marks : ∀ item ∈ s.ledger.actions, item.id ∈ s.ledger.undoneActionIds ↔
    ∃ undo ∈ s.ledger.actions, undo.undoOf = some item.id
  marksIssued : ∀ id ∈ s.ledger.undoneActionIds, id ≤ s.ledger.nextId
  undoLater : ∀ undo ∈ s.ledger.actions, ∀ id, undo.undoOf = some id → id < undo.id
  idsIncrease : (executedIds s.log).Pairwise (· < ·)
  idsIssued : ∀ id ∈ executedIds s.log, id ≤ s.ledger.nextId
  latest : s.ledger.nextId = 0 ∨ ∃ item ∈ s.ledger.actions, item.id = s.ledger.nextId

theorem mirrors_start : Mirrors format {} where
  ordered := ActionLedgerState.ordered_empty
  logged := .nil
  marks := by intro item h; cases h
  marksIssued := by intro id h; simp at h
  undoLater := by intro undo h; cases h
  idsIncrease := .nil
  idsIssued := by intro id h; cases h
  latest := .inl rfl

theorem recentExecuted_append_executed (log : List AuditEvent) (h : event.status = .executed) :
    recentExecuted (log ++ [event]) = (recentExecuted log).rtake 31 ++ [event] := by
  have hexec : isExecuted event = true := decide_eq_true h
  unfold recentExecuted
  rw [filter_append, filter_cons_of_pos hexec, filter_nil, actionHistoryLimit,
    rtake_concat_succ, rtake_rtake _ _ _ (by omega)]

theorem executedIds_append_executed (log : List AuditEvent) (tsMs : Nat) (item : RecordedAction) :
    executedIds (log ++ [executedEvent tsMs item]) = executedIds log ++ [item.id] := by
  unfold executedIds
  rw [filter_append, filterMap_append]
  rfl

theorem filter_append_audited (log : List AuditEvent) (h : event.status ≠ .executed) :
    (log ++ [event]).filter isExecuted = log.filter isExecuted := by
  have hexec : ¬ isExecuted event = true := fun he => h (of_decide_eq_true he)
  rw [filter_append, filter_cons_of_neg hexec, filter_nil, append_nil]

theorem Mirrors.executed {s : Session} (h : Mirrors format s) (entity action : String)
    (value : Option F64) (origin : RequestOrigin) (summary : String) (confidence : Option F32)
    (undoOf : Option Nat) (undoRestore : Option UndoRestore) (nowMs tsMs : Nat)
    (hundo : ∀ id, undoOf = some id → id ≤ s.ledger.nextId) :
    Mirrors format
      { ledger := (s.ledger.recordInternal entity action value origin summary confidence undoOf
          undoRestore nowMs).2
        log := s.log ++ [executedEvent tsMs (s.ledger.recordInternal entity action value origin
          summary confidence undoOf undoRestore nowMs).1] } := by
  obtain ⟨hitem, hnext, old, hsplit, hmarks⟩ := s.ledger.recordInternal_spec entity action value
    origin summary confidence undoOf undoRestore nowMs
  have hactions := s.ledger.recordInternal_actions entity action value origin summary confidence
    undoOf undoRestore nowMs
  have hord : ActionLedgerState.Ordered (s.ledger.recordInternal entity action value origin summary
    confidence undoOf undoRestore nowMs).2 := h.ordered.recordInternal
  have hall := hsplit ▸ h.ordered.append (congrArg RecordedAction.id hitem.symm)
  rw [hitem]
  generalize hout : (s.ledger.recordInternal entity action value origin summary confidence undoOf
    undoRestore nowMs).2 = ledger at *
  generalize hnew : (⟨s.ledger.nextId + 1, undoOf, entity, action, value, inverseAction action,
    undoRestore, origin, summary, confidence, nowMs⟩ : RecordedAction) = item at *
  have hid : item.id = s.ledger.nextId + 1 := by rw [← hnew]
  have hundoOf : item.undoOf = undoOf := by rw [← hnew]
  -- an entry is the new one or was in the ledger before
  have hcases : ∀ a ∈ ledger.actions, a = item ∨ a ∈ s.ledger.actions := by
    intro a ha
    rw [hactions] at ha
    rcases List.mem_append.mp ha with ha | ha
    · exact .inr (mem_of_mem_drop ha)
    · exact .inl (List.mem_singleton.mp ha)
  have hlater : ∀ undo ∈ ledger.actions, ∀ id, undo.undoOf = some id → id < undo.id := by
    intro undo hmem id hof
    rcases hcases undo hmem with rfl | hmem
    · have := hundo id (hundoOf ▸ hof)
      omega
    · exact h.undoLater undo hmem id hof
  -- an entry that is kept was not dropped
  have hkept : ∀ a ∈ ledger.actions, a.id ∉ old.map RecordedAction.id := by
    intro a ha hin
    obtain ⟨b, hb, heq⟩ := List.mem_map.mp hin
    have := (List.pairwise_append.mp hall).2.2 b hb a ha
    omega
  refine ⟨hord, ?_, ?_, ?_, hlater, ?_, ?_, ?_⟩
  · show List.Forall₂ _ (recentExecuted (s.log ++ [_])) ledger.actions
    rw [recentExecuted_append_executed _ rfl, hactions]
    refine rel_append ?_ (.cons ?_ .nil)
    · unfold List.rtake
      rw [h.logged.length_eq]
      exact forall₂_drop _ h.logged
    · subst hnew
      exact ⟨rfl, rfl, rfl, rfl, rfl, rfl, rfl, .inl rfl, .inl rfl, .inl rfl⟩
  · intro a ha
    rw [hmarks]
    constructor
    · rintro ⟨hmark, hnotold⟩
      rcases hmark with hmark | hmark
      · exact ⟨item, by rw [hactions]; exact mem_append_right _ mem_cons_self,
          hundoOf.trans hmark⟩
      · rcases hcases a ha with rfl | hmem
        · have := h.marksIssued a.id hmark
          omega
        · obtain ⟨undo, hundoMem, hof⟩ := (h.marks a hmem).mp hmark
          have hin : undo ∈ old ++ ledger.actions := hsplit ▸ mem_append_left _ hundoMem
          rcases List.mem_append.mp hin with hin | hin
          · -- the undo is newer than the entry, which was kept
            have hlt := h.undoLater undo hundoMem a.id hof
            have := (List.pairwise_append.mp hall).2.2 undo hin a ha
            omega
          · exact ⟨undo, hin, hof⟩
    · rintro ⟨undo, hmem, hof⟩
      refine ⟨?_, hkept a ha⟩
      rcases hcases undo hmem with rfl | hundoMem
      · exact .inl (hundoOf.symm.trans hof)
      · rcases hcases a ha with rfl | hmem'
        · have hlt := h.undoLater undo hundoMem a.id hof
          have := h.ordered.bounded undo hundoMem
          omega
        · exact .inr ((h.marks a hmem').mpr ⟨undo, hundoMem, hof⟩)
  · intro id hin
    rw [hmarks] at hin
    rw [hnext]
    rcases hin.1 with hof | hin
    · exact Nat.le_succ_of_le (hundo id hof)
    · exact Nat.le_succ_of_le (h.marksIssued id hin)
  · show (executedIds (s.log ++ [_])).Pairwise _
    rw [executedIds_append_executed, pairwise_append]
    refine ⟨h.idsIncrease, pairwise_singleton _ _, fun a ha b hb => ?_⟩
    have := h.idsIssued a ha
    rw [mem_singleton] at hb
    omega
  · intro id hin
    change id ∈ executedIds (s.log ++ [_]) at hin
    rw [executedIds_append_executed, mem_append] at hin
    rw [hnext]
    rcases hin with hin | hin
    · exact Nat.le_succ_of_le (h.idsIssued id hin)
    · have : id = item.id := List.mem_singleton.mp hin
      omega
  · refine .inr ⟨item, ?_, hid.trans hnext.symm⟩
    rw [hactions]
    exact mem_append_right _ mem_cons_self

theorem Mirrors.audited {s : Session} (h : Mirrors format s) (hstatus : event.status ≠ .executed) :
    Mirrors format { s with log := s.log ++ [event] } := by
  have hrecent : recentExecuted (s.log ++ [event]) = recentExecuted s.log := by
    unfold recentExecuted
    rw [filter_append_audited s.log hstatus]
  have hids : executedIds (s.log ++ [event]) = executedIds s.log := by
    unfold executedIds
    rw [filter_append_audited s.log hstatus]
  exact ⟨h.ordered, hrecent ▸ h.logged, h.marks, h.marksIssued, h.undoLater, hids ▸ h.idsIncrease,
    hids ▸ h.idsIssued, h.latest⟩

/-! ## A covered restart -/

/-- The state a restart leaves. -/
def restarted (format : LineFormat) (log : List AuditEvent) : ActionLedgerState :=
  .hydrate (readRecentExecutedActions format actionHistoryLimit log)

theorem restarted_actions {log : List AuditEvent} (hcov : Covered format log) :
    (restarted format log).actions = (recentExecuted log).filterMap format.recall := by
  obtain ⟨hactions, -⟩ := ActionLedgerState.hydrate_spec
    (readRecentExecutedActions format actionHistoryLimit log)
  rw [restarted, hactions, readRecent_eq_rtake, rtake_rtake _ _ _ (Nat.le_refl _),
    ← readRecent_eq_rtake, readRecent_of_covered hcov]

theorem forall₂_recall {lines : List AuditEvent} {items : List RecordedAction}
    (hparse : ∀ event ∈ lines, (format.recall event).isSome)
    (hlogged : List.Forall₂ (LoggedAs format) lines items) :
    List.Forall₂ (LoggedAs format) lines (lines.filterMap format.recall) ∧
      List.Forall₂ (SameAction format) items (lines.filterMap format.recall) := by
  induction hlogged with
  | nil => exact ⟨.nil, .nil⟩
  | @cons event item lines items hline hrest ih =>
    obtain ⟨read, hread⟩ := Option.isSome_iff_exists.mp (hparse event mem_cons_self)
    obtain ⟨hself, hsame⟩ := ih fun e he => hparse e (mem_cons_of_mem _ he)
    rw [filterMap_cons, hread]
    exact ⟨.cons (loggedAs_recall hread).1 hself, .cons (sameAction_recall hline hread) hsame⟩

theorem mem_left_of_forall₂ {α β : Type} {R : α → β → Prop} {as : List α} {bs : List β}
    (h : List.Forall₂ R as bs) {b : β} (hb : b ∈ bs) : ∃ a ∈ as, R a b := by
  induction h with
  | nil => cases hb
  | cons hab _ ih =>
    rcases List.mem_cons.mp hb with rfl | hb
    · exact ⟨_, mem_cons_self, hab⟩
    · obtain ⟨a, ha, hR⟩ := ih hb
      exact ⟨a, mem_cons_of_mem _ ha, hR⟩

theorem mem_right_of_forall₂ {α β : Type} {R : α → β → Prop} {as : List α} {bs : List β}
    (h : List.Forall₂ R as bs) {a : α} (ha : a ∈ as) : ∃ b ∈ bs, R a b := by
  induction h with
  | nil => cases ha
  | cons hab _ ih =>
    rcases List.mem_cons.mp ha with rfl | ha
    · exact ⟨_, mem_cons_self, hab⟩
    · obtain ⟨b, hb, hR⟩ := ih ha
      exact ⟨b, mem_cons_of_mem _ hb, hR⟩

section Covered

variable {s : Session} (h : Mirrors format s) (hcov : Covered format s.log)

include h hcov

theorem sameActions_restarted :
    List.Forall₂ (SameAction format) s.ledger.actions (restarted format s.log).actions := by
  rw [restarted_actions hcov]
  exact (forall₂_recall hcov.2 h.logged).2

theorem restarted_nextId : (restarted format s.log).nextId = s.ledger.nextId := by
  obtain ⟨-, -, hbound, hlast⟩ := ActionLedgerState.hydrate_spec
    (readRecentExecutedActions format actionHistoryLimit s.log)
  change (∀ item ∈ (restarted format s.log).actions, item.id ≤ (restarted format s.log).nextId)
    at hbound
  change (restarted format s.log).nextId = 0 ∨ ∃ item ∈ (restarted format s.log).actions,
    item.id = (restarted format s.log).nextId at hlast
  have hsame := sameActions_restarted h hcov
  apply Nat.le_antisymm
  · rcases hlast with hzero | ⟨read, hread, hid⟩
    · omega
    · obtain ⟨live, hlive, hR⟩ := mem_left_of_forall₂ hsame hread
      rw [← hid, hR.id]
      exact h.ordered.bounded live hlive
  · rcases h.latest with hzero | ⟨live, hlive, hid⟩
    · omega
    · obtain ⟨read, hread, hR⟩ := mem_right_of_forall₂ hsame hlive
      rw [← hid, ← hR.id]
      exact hbound read hread

theorem restarted_marks (item : RecordedAction) (hitem : item ∈ s.ledger.actions) :
    item.id ∈ (restarted format s.log).undoneActionIds ↔ item.id ∈ s.ledger.undoneActionIds := by
  obtain ⟨-, hundone, -, -⟩ := ActionLedgerState.hydrate_spec
    (readRecentExecutedActions format actionHistoryLimit s.log)
  change ∀ id, id ∈ (restarted format s.log).undoneActionIds ↔
    ∃ item ∈ (restarted format s.log).actions, item.undoOf = some id at hundone
  have hsame := sameActions_restarted h hcov
  rw [hundone, h.marks item hitem]
  constructor
  · rintro ⟨read, hread, hof⟩
    obtain ⟨live, hlive, hR⟩ := mem_left_of_forall₂ hsame hread
    exact ⟨live, hlive, hR.undoOf.symm.trans hof⟩
  · rintro ⟨live, hlive, hof⟩
    obtain ⟨read, hread, hR⟩ := mem_right_of_forall₂ hsame hlive
    exact ⟨read, hread, hR.undoOf.trans hof⟩

theorem mirrors_restarted : Mirrors format { s with ledger := restarted format s.log } := by
  obtain ⟨-, hundone, -, hlast⟩ := ActionLedgerState.hydrate_spec
    (readRecentExecutedActions format actionHistoryLimit s.log)
  have hsame := sameActions_restarted h hcov
  have hnext := restarted_nextId h hcov
  have hordered : (restarted format s.log).actions.Pairwise (fun a b => a.id < b.id) := by
    have hids : (restarted format s.log).actions.map RecordedAction.id =
        s.ledger.actions.map RecordedAction.id := by
      generalize (restarted format s.log).actions = reads at hsame
      generalize s.ledger.actions = lives at hsame
      induction hsame with
      | nil => rfl
      | cons hR _ ih => rw [map_cons, map_cons, hR.id, ih]
    have := h.ordered.increasing
    rw [← pairwise_map, ← hids, pairwise_map] at this
    exact this
  have hbounded : ∀ item ∈ (restarted format s.log).actions,
      item.id ≤ (restarted format s.log).nextId := by
    intro read hread
    obtain ⟨live, hlive, hR⟩ := mem_left_of_forall₂ hsame hread
    rw [hnext, hR.id]
    exact h.ordered.bounded live hlive
  refine ⟨⟨hordered, hbounded⟩, ?_, fun item _ => hundone item.id, ?_, ?_, h.idsIncrease, ?_,
    hlast⟩
  · show List.Forall₂ _ (recentExecuted s.log) (restarted format s.log).actions
    rw [restarted_actions hcov]
    exact (forall₂_recall hcov.2 h.logged).1
  · intro id hid
    obtain ⟨read, hread, hof⟩ := (hundone id).mp hid
    obtain ⟨live, hlive, hR⟩ := mem_left_of_forall₂ hsame hread
    have hlater := h.undoLater live hlive id (hR.undoOf.symm.trans hof)
    have := h.ordered.bounded live hlive
    show id ≤ (restarted format s.log).nextId
    omega
  · intro read hread id hof
    obtain ⟨live, hlive, hR⟩ := mem_left_of_forall₂ hsame hread
    rw [hR.id]
    exact h.undoLater live hlive id (hR.undoOf.symm.trans hof)
  · intro id hid
    show id ≤ (restarted format s.log).nextId
    rw [hnext]
    exact h.idsIssued id hid

theorem restarted_lastUndoable :
    Option.Rel (SameAction format) s.ledger.lastUndoable (restarted format s.log).lastUndoable := by
  have hsame := sameActions_restarted h hcov
  have hundoable : ∀ live ∈ s.ledger.actions, ∀ read, SameAction format live read →
      (restarted format s.log).undoable read = s.ledger.undoable live := by
    intro live hlive read hR
    have hmark := restarted_marks h hcov live hlive
    have hrestore : read.undoRestore.isSome = live.undoRestore.isSome := by
      rcases hR.undoRestore with heq | heq
      · rw [heq]
      · cases hlr : live.undoRestore with
        | none =>
          rw [hlr] at heq
          rw [← Option.some.inj heq]
        | some restore =>
          rw [hlr] at heq
          obtain ⟨_, -, hsome⟩ := Option.map_eq_some_iff.mp heq
          rw [← hsome]
          rfl
    unfold ActionLedgerState.undoable
    rw [hR.undoOf, hR.id, hR.inverseAction, hrestore]
    simp only [hmark]
  unfold ActionLedgerState.lastUndoable
  generalize hreads : (restarted format s.log).actions = reads at hsame
  have hrev := rel_reverse hsame
  have hmem : ∀ live ∈ s.ledger.actions.reverse, ∀ read, SameAction format live read →
      (restarted format s.log).undoable read = s.ledger.undoable live :=
    fun live hlive => hundoable live (List.mem_reverse.mp hlive)
  generalize s.ledger.actions.reverse = lives at hrev hmem ⊢
  generalize reads.reverse = reads' at hrev ⊢
  induction hrev with
  | nil => exact .none
  | @cons live read lives reads' hR _ ih =>
    rw [find?_cons, find?_cons, hmem live mem_cons_self read hR]
    cases s.ledger.undoable live with
    | true => exact .some hR
    | false => exact ih fun l hl => hmem l (mem_cons_of_mem _ hl)

end Covered

theorem mirrors_of_covered_run {s : Session}
    (h : ReflTransGen (SessionStep format (Covered format)) {} s) : Mirrors format s := by
  induction h with
  | refl => exact mirrors_start
  | tail _ hstep ih =>
    cases hstep with
    | executed entity action value origin summary confidence undoOf undoRestore nowMs tsMs hundo =>
      exact ih.executed entity action value origin summary confidence undoOf undoRestore nowMs tsMs
        hundo
    | audited event hstatus => exact ih.audited hstatus
    | restarted hcov => exact mirrors_restarted ih hcov

/-- In a session whose restarts all happen while the log is covered, a further covered
restart brings back the live ledger: the same actions in order, the same of them undone,
the same next id and the same answer to `last_undoable`. No action id was ever issued
twice and none is beyond the next id. -/
theorem hydrate_mirrors_ledger {s : Session}
    (hrun : ReflTransGen (SessionStep format (Covered format)) {} s) (hcov : Covered format s.log) :
    List.Forall₂ (SameAction format) s.ledger.actions (restarted format s.log).actions ∧
      (∀ item ∈ s.ledger.actions,
        item.id ∈ (restarted format s.log).undoneActionIds ↔ item.id ∈ s.ledger.undoneActionIds) ∧
      (restarted format s.log).nextId = s.ledger.nextId ∧
      Option.Rel (SameAction format) s.ledger.lastUndoable
        (restarted format s.log).lastUndoable ∧
      (executedIds s.log).Nodup ∧
      ∀ id ∈ executedIds s.log, id ≤ (restarted format s.log).nextId := by
  have h := mirrors_of_covered_run hrun
  refine ⟨sameActions_restarted h hcov, restarted_marks h hcov, restarted_nextId h hcov,
    restarted_lastUndoable h hcov, ?_, ?_⟩
  · exact h.idsIncrease.imp fun hlt => Nat.ne_of_lt hlt
  · rw [restarted_nextId h hcov]
    exact h.idsIssued

/-! ## A concrete log -/

/-- Short lines whose numbers are read back as written. -/
def plainFormat : LineFormat := ⟨fun _ => 250, some, some⟩

def lightAction (id : Nat) : RecordedAction :=
  ⟨id, none, "light.porch", "turn_on", none, some "turn_off", none, .voice, "Porch is on", none, 40⟩

/-- The session in which one light was switched on. -/
def oneAction : Session := ⟨⟨1, [lightAction 1], ∅⟩, [executedEvent 41 (lightAction 1)]⟩

theorem oneAction_step (AtRestart : List AuditEvent → Prop) :
    SessionStep plainFormat AtRestart {} oneAction :=
  @SessionStep.executed plainFormat AtRestart {} "light.porch" "turn_on" none .voice "Porch is on"
    none none none 40 41 (by simp)

/-- A refused request, as the rate limiter logs it. -/
def refusedEvent : AuditEvent :=
  ⟨50, .blockedRuntime, .voice, "light.porch", "turn_on", none,
    "actuation from 'voice' exceeded 1 action per minute", none, none, none, none, none⟩

/-- After a restart a request is refused, and then the light is switched off again by an undo. -/
def undoneLater : Session :=
  let s : Session := ⟨restarted plainFormat oneAction.log, oneAction.log ++ [refusedEvent]⟩
  let undo := s.ledger.recordInternal "light.porch" "turn_off" none .voice "Porch is off" none
    (some 1) none 60
  ⟨undo.2, s.log ++ [executedEvent 61 undo.1]⟩

theorem covered_oneAction : Covered plainFormat oneAction.log := by
  refine ⟨⟨[], rfl⟩, ?_⟩
  intro event hevent
  have : event = executedEvent 41 (lightAction 1) := List.mem_singleton.mp hevent
  rw [this]
  rfl

theorem covered_undoneLater : Covered plainFormat undoneLater.log := by
  refine ⟨⟨[], rfl⟩, ?_⟩
  have hrecent : ∀ event ∈ recentExecuted undoneLater.log,
      (plainFormat.recall event).isSome = true := by decide
  exact hrecent

theorem undoneLater_run :
    ReflTransGen (SessionStep plainFormat (Covered plainFormat)) {} undoneLater := by
  have hon := ReflTransGen.single (oneAction_step (Covered plainFormat))
  have hback := hon.tail (.restarted covered_oneAction)
  have hrefused := hback.tail (.audited refusedEvent (by decide))
  refine hrefused.tail (.executed "light.porch" "turn_off" none .voice "Porch is off" none (some 1)
    none 60 61 fun id hid => ?_)
  obtain rfl : 1 = id := Option.some.inj hid
  decide

/-- The second restart brings both actions back, the first of them undone, and counts on from
the second. -/
theorem hydrate_mirrors_ledger_undoneLater :
    (restarted plainFormat undoneLater.log).nextId = 2 ∧
      executedIds undoneLater.log = [1, 2] ∧
      (restarted plainFormat undoneLater.log).lastUndoable = none ∧
      ∃ item ∈ undoneLater.ledger.actions,
        item.id = 1 ∧ item.id ∈ (restarted plainFormat undoneLater.log).undoneActionIds := by
  obtain ⟨-, hundone, hnext, hlast, -⟩ :=
    hydrate_mirrors_ledger undoneLater_run covered_undoneLater
  have hnone : undoneLater.ledger.lastUndoable = none := by decide
  rw [hnone] at hlast
  have hmem : { lightAction 1 with summary := "home action executed", executedMs := 41 } ∈
      undoneLater.ledger.actions := by decide
  refine ⟨hnext, rfl, ?_, _, hmem, rfl, (hundone _ hmem).mpr (by decide)⟩
  generalize (restarted plainFormat undoneLater.log).lastUndoable = last at hlast
  cases hlast
  rfl

theorem reachable_audited {s : Session} (h : s.Reachable format)
    (hstatus : event.status ≠ .executed) (n : Nat) :
    Session.Reachable format { s with log := s.log ++ List.replicate n event } := by
  induction n with
  | zero => rwa [replicate_zero, append_nil]
  | succ n ih =>
    rw [replicate_succ', ← append_assoc]
    exact ih.tail (.audited event hstatus)

theorem readRecent_quiet :
    readRecentExecutedActions plainFormat actionHistoryLimit
      (oneAction.log ++ List.replicate 512 refusedEvent) = [] := by
  have htail : tailLines plainFormat (scanLimit actionHistoryLimit)
      (oneAction.log ++ List.replicate 512 refusedEvent) = List.replicate 512 refusedEvent := by
    have hshort : ∀ event, decide (plainFormat.lineBytes event ≤ maxJsonlLineBytes) = true :=
      fun _ => rfl
    unfold tailLines
    rw [List.filter_eq_self.mpr (fun event _ => hshort event), reverse_append,
      reverse_replicate]
    have hlimit : scanLimit actionHistoryLimit = (List.replicate 512 refusedEvent).length := by
      rw [length_replicate]
      rfl
    rw [hlimit, take_left, reverse_replicate]
  have hscan : scannedActions plainFormat actionHistoryLimit
      (oneAction.log ++ List.replicate 512 refusedEvent) = [] := by
    unfold scannedActions
    rw [htail, filterMap_eq_nil_iff]
    intro event hevent
    rw [eq_of_mem_replicate hevent]
    rfl
  rw [readRecent_eq_rtake, hscan]
  rfl

/-- A light is switched on, 512 requests are refused, the program restarts: the light can
no longer be undone, and the next action is given the light's id again. -/
theorem restart_after_quiet_log_reissues_id :
    ∃ s s' : Session, s.Reachable plainFormat ∧ s'.Reachable plainFormat ∧
      s.ledger.lastUndoable = some (lightAction 1) ∧
      (restarted plainFormat s.log).lastUndoable = none ∧
      (restarted plainFormat s.log).nextId = 0 ∧
      executedIds s'.log = [1, 1] := by
  have hquiet : Session.Reachable plainFormat
      ⟨oneAction.ledger, oneAction.log ++ List.replicate 512 refusedEvent⟩ :=
    reachable_audited (.single (oneAction_step _)) (by decide) 512
  have hempty : restarted plainFormat (oneAction.log ++ List.replicate 512 refusedEvent) = {} := by
    rw [restarted, readRecent_quiet]
    rfl
  have hold : executedIds (oneAction.log ++ List.replicate 512 refusedEvent) = [1] := by
    unfold executedIds
    rw [filter_append, filter_replicate]
    rfl
  generalize oneAction.log ++ List.replicate 512 refusedEvent = log at hquiet hempty hold
  have hrestart : Session.Reachable plainFormat ⟨restarted plainFormat log, log⟩ :=
    hquiet.tail (.restarted trivial)
  rw [hempty] at hrestart
  have hnext := hrestart.tail (SessionStep.executed "light.porch" "turn_on" none .voice
    "Porch is on" none none none 60 61 (by simp))
  refine ⟨_, _, hquiet, hnext, rfl, ?_, ?_, ?_⟩
  · rw [hempty]
    rfl
  · rw [hempty]
  · rw [executedIds_append_executed, hold]
    rfl

end GenieClaw.Actuation
