import GenieClaw.Library.Machine
import GenieClaw.Library.Text
import Mathlib.Data.List.Nodup
import Mathlib.Logic.Function.Basic

/-!
# Every message is handled once and in order

What the dispatcher hands to the drivers of a chat is what their turn handler has been given,
followed by what waits in the inbox of a driver that still reads it.

* `Inv.drive`, `Inv.spawn`, `Inv.push`, `Inv.dispatch`: the steps keep the inboxes in account.
* `delivered_of_calm` (a `Calm` run): every message is handled once and in order.
-/

namespace GenieClaw.Telegram

open Library Library.Text List

/-!
## The Telegram dispatcher and its drivers

`run`, `spawn_chat_driver` and `TelegramChatChannel::recv` of `telegram.rs` with the loop of
`channel/serve.rs`. The dispatcher hands every message to the driver of its chat; every driver
is a task of its own with an inbox, and retires when it is idle. A step is one piece of either
that no other task can see inside of: between two steps any task may run. The contents of
replies and the answers to voice messages are left out.
-/

structure TelegramMessage where
  chat : Int
  fromBot : Bool
  text : Option String
  /-- A voice or an audio attachment. -/
  voice : Bool
deriving DecidableEq

def stripBotMention (text : String) : String :=
  joinWith " " ((splitWhitespace text).filter fun part => !startsWith "@" part)

/-- The text that becomes a turn, if the message has one. -/
def TelegramMessage.turnText (message : TelegramMessage) : Option String :=
  if message.voice then none
  else
    let text := trim (message.text.getD "")
    let normalized := trim (stripBotMention text)
    if text = "" ∨ normalized = "" then none else some normalized

/-! ## State -/

def inboxCapacity : ℕ := 64

inductive GateHolder where
  | dispatcher
  | driver
deriving DecidableEq

inductive DriverPhase where
  /-- Waiting for the inbox, with the idle timer running. -/
  | receiving
  /-- The timer has fired; the driver wants the gate. -/
  | idle
  /-- Before `try_recv`, with the gate. -/
  | checking
  /-- The inbox was empty; before `close`, with the gate. -/
  | closing
  /-- A message that is no turn is answered. -/
  | aside
  /-- The turn handler runs. -/
  | turn
  /-- The reply is on its way. -/
  | reply
  /-- The loop has ended and the receiver still exists. -/
  | leaving
  /-- The receiver is dropped. -/
  | ended
deriving DecidableEq

/-- A driver task with its channel and its gate. -/
structure ChatDriver where
  chat : Int
  inbox : List TelegramMessage := []
  /-- The receiver is closed or dropped, which the sender sees. -/
  closed : Bool := false
  gate : Option GateHolder := none
  phase : DriverPhase := .receiving
deriving DecidableEq

inductive Dispatcher where
  | polling
  | routing (updates : List (Option TelegramMessage))
  /-- Before the gate of the driver. -/
  | locking (driver : ℕ) (message : TelegramMessage) (updates : List (Option TelegramMessage))
  /-- With the gate, in `send`. -/
  | sending (driver : ℕ) (message : TelegramMessage) (updates : List (Option TelegramMessage))
  /-- In the `send` of a message that came back, to a fresh driver and without its gate. -/
  | redelivering (driver : ℕ) (message : TelegramMessage)
    (updates : List (Option TelegramMessage))

/-- The drivers are numbered as they are spawned. `handed` lists the messages that a `send`
took and `handled` the turns that were given to the handler. -/
structure TelegramState where
  driver : ℕ → ChatDriver
  spawned : ℕ
  drivers : Int → Option ℕ
  dispatcher : Dispatcher
  handed : List TelegramMessage
  handled : List (Int × String)

def TelegramState.start : TelegramState :=
  ⟨fun _ => { chat := 0 }, 0, fun _ => none, .polling, [], []⟩

namespace TelegramState

variable (allowed : Int → Bool) (s : TelegramState)

def setDriver (d : ℕ) (x : ChatDriver) : TelegramState :=
  { s with driver := Function.update s.driver d x }

def setDispatcher (x : Dispatcher) : TelegramState := { s with dispatcher := x }

/-! ## The dispatcher -/

def spawnChatDriver (chat : Int) : TelegramState :=
  { s.setDriver s.spawned { chat } with spawned := s.spawned + 1 }

/-- The driver of the chat, unless its inbox is closed. -/
def openDriver (chat : Int) : Option ℕ := (s.drivers chat).filter fun d => !(s.driver d).closed

def route (update : Option TelegramMessage) (updates : List (Option TelegramMessage)) :
    TelegramState :=
  match update with
  | none => s.setDispatcher (.routing updates)
  | some message =>
    if message.fromBot then s.setDispatcher (.routing updates)
    else if allowed message.chat = false then s.setDispatcher (.routing updates)
    else
      match s.openDriver message.chat with
      | some d => s.setDispatcher (.locking d message updates)
      | none =>
        { s.spawnChatDriver message.chat with
          drivers := Function.update s.drivers message.chat (some s.spawned)
          dispatcher := .locking s.spawned message updates }

/-- What `send` does with the inbox. -/
def push (d : ℕ) (message : TelegramMessage) : TelegramState :=
  { s.setDriver d { s.driver d with inbox := (s.driver d).inbox ++ [message] } with
    handed := s.handed ++ [message] }

def setGate (d : ℕ) (holder : Option GateHolder) : TelegramState :=
  s.setDriver d { s.driver d with gate := holder }

/-- The next step of the dispatcher; `updates` is what the poll brings. -/
def dispatch (updates : List (Option TelegramMessage)) : TelegramState :=
  match s.dispatcher with
  | .polling => { s with drivers := s.openDriver, dispatcher := .routing updates }
  | .routing [] => s.setDispatcher .polling
  | .routing (update :: rest) => s.route allowed update rest
  | .locking d message rest =>
    if (s.driver d).gate = none then
      (s.setGate d (some .dispatcher)).setDispatcher (.sending d message rest)
    else s
  | .sending d message rest =>
    if (s.driver d).closed then
      ((s.setGate d none).spawnChatDriver message.chat).setDispatcher
        (.redelivering s.spawned message rest)
    else if (s.driver d).inbox.length < inboxCapacity then
      ((s.push d message).setGate d none).setDispatcher (.routing rest)
    else s
  | .redelivering d message rest =>
    if (s.driver d).closed then
      { s with
        drivers := Function.update s.drivers message.chat none
        dispatcher := .routing rest }
    else if (s.driver d).inbox.length < inboxCapacity then
      { s.push d message with
        drivers := Function.update s.drivers message.chat (some d)
        dispatcher := .routing rest }
    else s

/-! ## A driver -/

def holds (d : ℕ) : Bool :=
  match s.dispatcher with
  | .locking e _ _ => e == d
  | .sending e _ _ => e == d
  | .redelivering e _ _ => e == d
  | _ => false

/-- All senders are gone. -/
def disconnected (d : ℕ) : Bool := s.drivers (s.driver d).chat ≠ some d && !s.holds d

/-- A message out of the inbox: a turn, or something that the channel answers itself. -/
def accept (d : ℕ) (message : TelegramMessage) (rest : List TelegramMessage)
    (gate : Option GateHolder) : TelegramState :=
  match message.turnText with
  | some text =>
    { s.setDriver d { s.driver d with inbox := rest, gate := gate, phase := .turn } with
      handled := s.handled ++ [((s.driver d).chat, text)] }
  | none => s.setDriver d { s.driver d with inbox := rest, gate := gate, phase := .aside }

def setPhase (d : ℕ) (phase : DriverPhase) : TelegramState :=
  s.setDriver d { s.driver d with phase := phase }

/-- The next step of a driver. While it waits for its inbox, `ok` says whether it reads or the
timer fires; after a turn or a reply, whether that succeeded. -/
def drive (d : ℕ) (ok : Bool) : TelegramState :=
  let x := s.driver d
  match x.phase, ok with
  | .receiving, true =>
    match x.inbox with
    | message :: rest => s.accept d message rest x.gate
    | [] => if s.disconnected d then s.setPhase d .leaving else s
  | .receiving, false => if x.inbox = [] then s.setPhase d .idle else s
  | .idle, _ =>
    if x.gate = none then s.setDriver d { x with gate := some .driver, phase := .checking } else s
  | .checking, _ =>
    match x.inbox with
    | message :: rest => s.accept d message rest none
    | [] =>
      if s.disconnected d then s.setDriver d { x with gate := none, phase := .leaving }
      else s.setPhase d .closing
  | .closing, _ => s.setDriver d { x with closed := true, gate := none, phase := .leaving }
  | .aside, _ => s.setPhase d .receiving
  | .turn, true => s.setPhase d .reply
  | .turn, false => s.setPhase d .receiving
  | .reply, true => s.setPhase d .receiving
  | .reply, false => s.setPhase d .leaving
  | .leaving, _ => s.setDriver d { x with inbox := [], closed := true, phase := .ended }
  | .ended, _ => s

end TelegramState

/-! ## Interleavings -/

inductive TelegramAction where
  | dispatch (updates : List (Option TelegramMessage))
  | drive (driver : ℕ) (ok : Bool)

def telegramMachine (allowed : Int → Bool) : Machine TelegramState TelegramAction Unit where
  step s
    | .dispatch updates => ((), s.dispatch allowed updates)
    | .drive d ok => ((), if d < s.spawned then s.drive d ok else s)

/-! ## Delivery -/

variable {allowed : Int → Bool} {s : TelegramState} {d : ℕ} {x : ChatDriver}

/-! ## What is handed, handled and waiting -/

def textsOf (messages : List TelegramMessage) : List String :=
  messages.filterMap TelegramMessage.turnText

/-- The texts for the chat that were handed to some driver. -/
def TelegramState.handedTexts (s : TelegramState) (chat : Int) : List String :=
  textsOf (s.handed.filter fun message => message.chat = chat)

def TelegramState.handledTexts (s : TelegramState) (chat : Int) : List String :=
  (s.handled.filter fun turn => turn.1 = chat).map Prod.snd

/-- The texts in the inboxes of the chat's drivers. -/
def TelegramState.waitingTexts (s : TelegramState) (chat : Int) : List String :=
  ((List.range s.spawned).filter fun d => (s.driver d).chat = chat).flatMap fun d =>
    textsOf (s.driver d).inbox

/-- The driver's loop has ended. -/
def ChatDriver.Over (x : ChatDriver) : Prop := x.phase = .leaving ∨ x.phase = .ended

/-- A turn of the driver is in progress. -/
def ChatDriver.Busy (x : ChatDriver) : Prop := x.phase = .turn ∨ x.phase = .reply

/-- Every message that was handed over is handled, once and in order, or waits for a driver that
goes on reading; and no two drivers of a chat have a turn in progress. -/
structure Delivered (s : TelegramState) : Prop where
  inOrder : ∀ chat, s.handedTexts chat = s.handledTexts chat ++ s.waitingTexts chat
  read : ∀ d < s.spawned, (s.driver d).inbox ≠ [] →
    ¬ (s.driver d).Over ∧ (s.driver d).closed = false
  exclusive : ∀ d < s.spawned, ∀ e < s.spawned, (s.driver d).chat = (s.driver e).chat →
    (s.driver d).Busy → (s.driver e).Busy → d = e

/-! ## The invariant -/

/-- What holds of a driver by itself. -/
structure ChatDriver.Ok (x : ChatDriver) : Prop where
  empty : x.Over → x.inbox = []
  closed : x.closed = true → x.Over
  ended : x.phase = .ended → x.closed = true
  gate : x.phase = .checking ∨ x.phase = .closing → x.gate = some .driver
  closing : x.phase = .closing → x.inbox = []

/-- The dispatcher is at a message for the driver, which the map names. -/
structure TelegramState.AtDriver (s : TelegramState) (d : ℕ) (message : TelegramMessage) :
    Prop where
  spawned : d < s.spawned
  chat : (s.driver d).chat = message.chat
  mapped : s.drivers message.chat = some d

/-- A fresh driver has not moved before the message that came back is sent to it. -/
structure TelegramState.AtFresh (s : TelegramState) (d : ℕ) (message : TelegramMessage) : Prop where
  spawned : d < s.spawned
  chat : (s.driver d).chat = message.chat
  phase : (s.driver d).phase = .receiving
  inbox : (s.driver d).inbox = []
  alone : ∀ e < s.spawned, e ≠ d → (s.driver e).chat = message.chat → (s.driver e).Over

def TelegramState.DispatcherOk (s : TelegramState) : Prop :=
  match s.dispatcher with
  | .locking d message _ => s.AtDriver d message
  | .sending d message _ => s.AtDriver d message ∧ (s.driver d).gate = some .dispatcher
  | .redelivering d message _ => s.AtFresh d message
  | _ => True

def TelegramState.Redelivers (s : TelegramState) (d : ℕ) : Prop :=
  ∃ message updates, s.dispatcher = .redelivering d message updates

/-- The texts handed over for the chat are those handled and those in the inbox of its active
driver. -/
structure TelegramState.Accounted (s : TelegramState) (chat : Int) : Prop where
  active : ∀ d < s.spawned, (s.driver d).chat = chat → ¬ (s.driver d).Over →
    s.handedTexts chat = s.handledTexts chat ++ textsOf (s.driver d).inbox
  ended : (∀ d < s.spawned, (s.driver d).chat = chat → (s.driver d).Over) →
    s.handedTexts chat = s.handledTexts chat

structure Inv (s : TelegramState) : Prop where
  ok : ∀ d < s.spawned, (s.driver d).Ok
  known : ∀ d < s.spawned, ¬ (s.driver d).Over →
    s.drivers (s.driver d).chat = some d ∨ s.Redelivers d
  mapped : ∀ chat d, s.drivers chat = some d → d < s.spawned ∧ (s.driver d).chat = chat
  dispatcher : s.DispatcherOk
  accounted : ∀ chat, s.Accounted chat

theorem inv_start : Inv .start where
  ok d hd := absurd hd (Nat.not_lt_zero d)
  known d hd := absurd hd (Nat.not_lt_zero d)
  mapped _ _ h := by cases h
  dispatcher := trivial
  accounted _ := ⟨fun d hd => absurd hd (Nat.not_lt_zero d), fun _ => rfl⟩

variable {updates : List (Option TelegramMessage)} {message : TelegramMessage}

theorem Inv.atFresh (h : Inv s) (hd : s.dispatcher = .redelivering d message updates) :
    s.AtFresh d message := by
  have := h.dispatcher
  rwa [TelegramState.DispatcherOk, hd] at this

theorem Inv.active_unique (h : Inv s) {e : ℕ} (hd : d < s.spawned) (he : e < s.spawned)
    (hchat : (s.driver d).chat = (s.driver e).chat) (hdover : ¬ (s.driver d).Over)
    (heover : ¬ (s.driver e).Over) : d = e := by
  by_contra hne
  obtain hdmap | ⟨message, updates, hred⟩ := h.known d hd hdover
  · obtain hemap | ⟨message, updates, hred⟩ := h.known e he heover
    · rw [hchat, hemap] at hdmap
      exact hne (Option.some.inj hdmap).symm
    · have hfresh := h.atFresh hred
      exact hdover (hfresh.alone d hd hne (hchat.trans hfresh.chat))
  · have hfresh := h.atFresh hred
    exact heover (hfresh.alone e he (Ne.symm hne) (hchat.symm.trans hfresh.chat))

theorem Inv.sending (h : Inv s) (hd : s.dispatcher = .sending d message updates) :
    s.AtDriver d message ∧ (s.driver d).gate = some .dispatcher := by
  have := h.dispatcher
  rwa [TelegramState.DispatcherOk, hd] at this

theorem Inv.locking (h : Inv s) (hd : s.dispatcher = .locking d message updates) :
    s.AtDriver d message := by
  have := h.dispatcher
  rwa [TelegramState.DispatcherOk, hd] at this

theorem Inv.not_disconnected (h : Inv s) (hd : d < s.spawned) (hover : ¬ (s.driver d).Over) :
    s.disconnected d = false := by
  obtain hmap | ⟨message, updates, hred⟩ := h.known d hd hover
  · simp [TelegramState.disconnected, hmap]
  · simp [TelegramState.disconnected, TelegramState.holds, hred]

/-! ## What one step changes -/

theorem driver_setDriver (s : TelegramState) (d : ℕ) (x : ChatDriver) (e : ℕ) :
    (s.setDriver d x).driver e = if e = d then x else s.driver e :=
  Function.update_apply s.driver d x e

theorem textsOf_append (xs ys : List TelegramMessage) :
    textsOf (xs ++ ys) = textsOf xs ++ textsOf ys := filterMap_append

/-- The state after a driver has changed and some texts have been given to its handler. -/
def TelegramState.changed (s : TelegramState) (d : ℕ) (x : ChatDriver) (texts : List String) :
    TelegramState :=
  { s.setDriver d x with
    handled := s.handled ++ texts.map fun text => ((s.driver d).chat, text) }

theorem changed_nil (s : TelegramState) (d : ℕ) (x : ChatDriver) :
    s.changed d x [] = s.setDriver d x := by
  rw [TelegramState.changed, map_nil, append_nil]
  rfl

theorem driver_changed (s : TelegramState) (d : ℕ) (x : ChatDriver) (texts : List String) (e : ℕ) :
    (s.changed d x texts).driver e = if e = d then x else s.driver e := driver_setDriver s d x e

theorem handledTexts_changed (s : TelegramState) (d : ℕ) (x : ChatDriver) (texts : List String)
    (chat : Int) :
    (s.changed d x texts).handledTexts chat =
      s.handledTexts chat ++ if (s.driver d).chat = chat then texts else [] := by
  unfold TelegramState.handledTexts TelegramState.changed
  rw [filter_append, map_append, filter_map]
  by_cases hchat : (s.driver d).chat = chat
  · simp [hchat, Function.comp_def]
  · simp [hchat, Function.comp_def]

/-- What may change about a driver: texts leave the inbox in order, the loop does not begin again,
the gate stays the dispatcher's while it sends, and a fresh driver waits for its first message. -/
structure Changes (s : TelegramState) (d : ℕ) (x : ChatDriver) (texts : List String) : Prop where
  chat : x.chat = (s.driver d).chat
  ok : x.Ok
  ended : (s.driver d).Over → x.Over
  texts : textsOf (s.driver d).inbox = texts ++ textsOf x.inbox
  gate : ∀ message updates, s.dispatcher = .sending d message updates → x.gate = some .dispatcher
  fresh : s.Redelivers d → x.phase = .receiving ∧ x.inbox = []

variable {texts : List String}

theorem Changes.dispatcherOk (h : Inv s) (hx : Changes s d x texts) :
    (s.changed d x texts).DispatcherOk := by
  have hchat : ∀ e, ((s.changed d x texts).driver e).chat = (s.driver e).chat := by
    intro e
    rw [driver_changed]
    split
    · next he => rw [hx.chat, he]
    · rfl
  have hok := h.dispatcher
  unfold TelegramState.DispatcherOk at hok ⊢
  change match s.dispatcher with
    | .locking e message _ => (s.changed d x texts).AtDriver e message
    | .sending e message _ => (s.changed d x texts).AtDriver e message ∧
        ((s.changed d x texts).driver e).gate = some .dispatcher
    | .redelivering e message _ => (s.changed d x texts).AtFresh e message
    | _ => True
  cases hdisp : s.dispatcher with
  | polling => trivial
  | routing updates => trivial
  | locking e message updates =>
    rw [hdisp] at hok
    exact ⟨hok.spawned, (hchat e).trans hok.chat, hok.mapped⟩
  | sending e message updates =>
    rw [hdisp] at hok
    refine ⟨⟨hok.1.spawned, (hchat e).trans hok.1.chat, hok.1.mapped⟩, ?_⟩
    rw [driver_changed]
    split
    · next he => exact hx.gate message updates (he ▸ hdisp)
    · exact hok.2
  | redelivering f message updates =>
    rw [hdisp] at hok
    refine ⟨hok.spawned, (hchat f).trans hok.chat, ?_, ?_, ?_⟩
    · rw [driver_changed]
      split
      · next hf => exact (hx.fresh ⟨message, updates, hf ▸ hdisp⟩).1
      · exact hok.phase
    · rw [driver_changed]
      split
      · next hf => exact (hx.fresh ⟨message, updates, hf ▸ hdisp⟩).2
      · exact hok.inbox
    · intro e he hne hechat
      have hover := hok.alone e he hne ((hchat e).symm.trans hechat)
      rw [driver_changed]
      split
      · next hed => exact hx.ended (hed ▸ hover)
      · exact hover

theorem Changes.accounted (h : Inv s) (hd : d < s.spawned) (hx : Changes s d x texts) (chat : Int) :
    (s.changed d x texts).Accounted chat := by
  have hacc := h.accounted chat
  have hhanded : (s.changed d x texts).handedTexts chat = s.handedTexts chat := rfl
  -- Texts leave the inbox of an active driver only.
  have hnone : (s.driver d).Over → texts = [] ∧ textsOf x.inbox = [] := by
    intro hover
    have htexts := hx.texts
    rw [(h.ok d hd).empty hover] at htexts
    exact List.append_eq_nil_iff.mp htexts.symm
  constructor
  · intro e he hechat hactive
    rw [driver_changed] at hechat hactive ⊢
    rw [hhanded, handledTexts_changed]
    by_cases hed : e = d
    · subst hed
      rw [if_pos rfl] at hechat hactive ⊢
      have hdchat : (s.driver e).chat = chat := hx.chat.symm.trans hechat
      rw [if_pos hdchat, hacc.active e he hdchat fun hover => hactive (hx.ended hover), hx.texts,
        append_assoc]
    · rw [if_neg hed] at hechat hactive ⊢
      rw [hacc.active e he hechat hactive]
      by_cases hdchat : (s.driver d).chat = chat
      · by_cases hover : (s.driver d).Over
        · rw [(hnone hover).1]
          simp
        · exact absurd (h.active_unique he hd (hechat.trans hdchat.symm) hactive hover) hed
      · rw [if_neg hdchat, append_nil]
  · intro hall
    have hothers : ∀ e < s.spawned, e ≠ d → (s.driver e).chat = chat → (s.driver e).Over := by
      intro e he hed hechat
      have := hall e he
      rw [driver_changed, if_neg hed] at this
      exact this hechat
    rw [hhanded, handledTexts_changed]
    by_cases hdchat : (s.driver d).chat = chat
    · rw [if_pos hdchat]
      by_cases hover : (s.driver d).Over
      · rw [(hnone hover).1, append_nil]
        refine hacc.ended fun e he hechat => ?_
        by_cases hed : e = d
        · exact hed ▸ hover
        · exact hothers e he hed hechat
      · have hxover : x.Over := by
          have := hall d hd
          rw [driver_changed, if_pos rfl] at this
          exact this (hx.chat.trans hdchat)
        have htexts := hx.texts
        rw [hx.ok.empty hxover] at htexts
        rw [hacc.active d hd hdchat hover, htexts]
        simp [textsOf]
    · rw [if_neg hdchat, append_nil]
      refine hacc.ended fun e he hechat => hothers e he ?_ hechat
      rintro rfl
      exact hdchat hechat

theorem Inv.changed (h : Inv s) (hd : d < s.spawned) (hx : Changes s d x texts) :
    Inv (s.changed d x texts) where
  ok e he := by
    rw [driver_changed]
    split
    · exact hx.ok
    · exact h.ok e he
  known e he hactive := by
    rw [driver_changed] at hactive ⊢
    change s.drivers _ = some e ∨ s.Redelivers e
    split at hactive
    · next hed =>
      subst hed
      rw [if_pos rfl, hx.chat]
      exact h.known e he fun hover => hactive (hx.ended hover)
    · next hed =>
      rw [if_neg hed]
      exact h.known e he hactive
  mapped chat e hmap := by
    obtain ⟨he, hchat⟩ := h.mapped chat e hmap
    refine ⟨he, ?_⟩
    rw [driver_changed]
    split
    · next hed => rw [hx.chat, ← hed, hchat]
    · exact hchat
  dispatcher := hx.dispatcherOk h
  accounted := hx.accounted h hd

theorem Inv.setDriver (h : Inv s) (hd : d < s.spawned) (hx : Changes s d x []) :
    Inv (s.setDriver d x) := by
  rw [← changed_nil]
  exact h.changed hd hx

/-! ## A step of a driver -/

theorem ChatDriver.Ok.not_closed (h : x.Ok) (hover : ¬ x.Over) : x.closed = false := by
  rw [← Bool.not_eq_true]
  exact fun hclosed => hover (h.closed hclosed)

variable {gate : Option GateHolder}

theorem Inv.goesOn (h : Inv s) (hd : d < s.spawned) {phase : DriverPhase}
    (hbefore : ¬ (s.driver d).Over) (hphase : phase ≠ .leaving ∧ phase ≠ .ended)
    (hgate : phase = .checking ∨ phase = .closing → gate = some .driver)
    (hclosing : phase = .closing → (s.driver d).inbox = [])
    (hdispatcher : (s.driver d).gate = some .dispatcher → gate = some .dispatcher)
    (hfresh : ¬ s.Redelivers d) :
    Inv (s.setDriver d { s.driver d with gate := gate, phase := phase }) := by
  have hclosed := (h.ok d hd).not_closed hbefore
  refine h.setDriver hd ⟨rfl, ⟨?_, ?_, ?_, hgate, hclosing⟩, ?_, rfl, ?_, ?_⟩
  · rintro (hp | hp)
    · exact absurd hp hphase.1
    · exact absurd hp hphase.2
  · intro hc
    rw [hclosed] at hc
    cases hc
  · exact fun hp => absurd hp hphase.2
  · exact fun hover => absurd hover hbefore
  · exact fun message updates hsend => hdispatcher (h.sending hsend).2
  · exact fun hred => absurd hred hfresh

theorem Inv.leaves (h : Inv s) (hd : d < s.spawned) {closed : Bool}
    (hempty : (s.driver d).inbox = [])
    (hdispatcher : (s.driver d).gate = some .dispatcher → gate = some .dispatcher)
    (hfresh : ¬ s.Redelivers d) :
    Inv (s.setDriver d
      { s.driver d with closed := closed, gate := gate, phase := .leaving }) := by
  refine h.setDriver hd ⟨rfl, ⟨fun _ => hempty, fun _ => .inl rfl, ?_, ?_, ?_⟩, fun _ => .inl rfl,
    rfl, fun message updates hsend => hdispatcher (h.sending hsend).2,
    fun hred => absurd hred hfresh⟩
  · rintro ⟨⟩
  · rintro (⟨⟨⟩⟩ | ⟨⟨⟩⟩)
  · rintro ⟨⟩

theorem Inv.accept (h : Inv s) (hd : d < s.spawned) {rest : List TelegramMessage}
    (hinbox : (s.driver d).inbox = message :: rest)
    (hdispatcher : (s.driver d).gate = some .dispatcher → gate = some .dispatcher) :
    Inv (s.accept d message rest gate) := by
  have hactive : ¬ (s.driver d).Over := by
    intro hover
    rw [(h.ok d hd).empty hover] at hinbox
    cases hinbox
  have hclosed := (h.ok d hd).not_closed hactive
  have hchanges : ∀ phase, phase = .turn ∨ phase = .aside →
      Changes s d { s.driver d with inbox := rest, gate := gate, phase := phase }
        message.turnText.toList := by
    intro phase hphase
    refine ⟨rfl, ⟨?_, ?_, ?_, ?_, ?_⟩, fun hover => absurd hover hactive, ?_,
      fun m updates hsend => hdispatcher (h.sending hsend).2, ?_⟩
    · rintro (hp | hp) <;> rcases hphase with rfl | rfl <;> cases hp
    · intro hc
      rw [hclosed] at hc
      cases hc
    · intro hp
      rcases hphase with rfl | rfl <;> cases hp
    · rintro (hp | hp) <;> rcases hphase with rfl | rfl <;> cases hp
    · intro hp
      rcases hphase with rfl | rfl <;> cases hp
    · rw [hinbox, textsOf, filterMap_cons]
      cases message.turnText <;> rfl
    · rintro ⟨m, updates, hred⟩
      rw [(h.atFresh hred).inbox] at hinbox
      cases hinbox
  unfold TelegramState.accept
  cases htext : message.turnText with
  | none =>
    have := hchanges .aside (.inr rfl)
    rw [htext] at this
    exact h.setDriver hd this
  | some text =>
    have := hchanges .turn (.inl rfl)
    rw [htext] at this
    exact h.changed hd this

theorem Inv.not_redelivers (h : Inv s) (hphase : (s.driver d).phase ≠ .receiving) :
    ¬ s.Redelivers d := by
  rintro ⟨message, updates, hred⟩
  exact hphase (h.atFresh hred).phase

/-- Every step of a driver, when its reply fails only with an empty inbox and its timer fires
only while no message is on its way back to it. -/
theorem Inv.drive (h : Inv s) (hd : d < s.spawned) {ok : Bool}
    (hreply : ok = false → (s.driver d).phase = .reply → (s.driver d).inbox = [])
    (htimer : ok = false → (s.driver d).phase = .receiving → ¬ s.Redelivers d) :
    Inv (s.drive d ok) := by
  have hok := h.ok d hd
  have hactive : ∀ phase, (s.driver d).phase = phase → phase ≠ .leaving → phase ≠ .ended →
      ¬ (s.driver d).Over := by
    rintro phase rfl hleaving hended (hp | hp)
    · exact hleaving hp
    · exact hended hp
  cases hphase : (s.driver d).phase with
  | receiving =>
    have hon := hactive _ hphase (by decide) (by decide)
    cases ok with
    | true =>
      simp only [TelegramState.drive, hphase, h.not_disconnected hd hon]
      split
      · next message rest hinbox => exact h.accept hd hinbox id
      · exact h
    | false =>
      simp only [TelegramState.drive, hphase]
      split
      · refine h.goesOn hd hon ?_ ?_ ?_ id (htimer rfl hphase) <;> simp
      · exact h
  | idle =>
    have hon := hactive _ hphase (by decide) (by decide)
    simp only [TelegramState.drive, hphase]
    split
    · next hgate =>
      refine h.goesOn hd hon (by simp) (fun _ => rfl) (by simp) ?_
        (h.not_redelivers (by rw [hphase]; decide))
      intro hdispatcher
      rw [hgate] at hdispatcher
      cases hdispatcher
    · exact h
  | checking =>
    have hon := hactive _ hphase (by decide) (by decide)
    have hgate := hok.gate (.inl hphase)
    have hother : (s.driver d).gate ≠ some .dispatcher := by rw [hgate]; decide
    simp only [TelegramState.drive, hphase, h.not_disconnected hd hon]
    split
    · next message rest hinbox =>
      exact h.accept hd hinbox fun hdispatcher => absurd hdispatcher hother
    · next hinbox =>
      exact h.goesOn hd hon (by simp) (fun _ => hgate) (fun _ => hinbox)
        (fun hdispatcher => absurd hdispatcher hother) (h.not_redelivers (by rw [hphase]; decide))
  | closing =>
    have hgate := hok.gate (.inr hphase)
    simp only [TelegramState.drive, hphase]
    refine h.leaves hd (hok.closing hphase) ?_ (h.not_redelivers (by rw [hphase]; decide))
    intro hdispatcher
    rw [hgate] at hdispatcher
    cases hdispatcher
  | aside =>
    have hfresh := h.not_redelivers (d := d) (by rw [hphase]; decide)
    simp only [TelegramState.drive, hphase]
    refine h.goesOn hd (hactive _ hphase (by decide) (by decide)) ?_ ?_ ?_ id hfresh <;> simp
  | turn =>
    have hon := hactive _ hphase (by decide) (by decide)
    have hfresh := h.not_redelivers (d := d) (by rw [hphase]; decide)
    cases ok <;> simp only [TelegramState.drive, hphase]
    · refine h.goesOn hd hon ?_ ?_ ?_ id hfresh <;> simp
    · refine h.goesOn hd hon ?_ ?_ ?_ id hfresh <;> simp
  | reply =>
    have hon := hactive _ hphase (by decide) (by decide)
    have hfresh := h.not_redelivers (d := d) (by rw [hphase]; decide)
    cases ok with
    | true =>
      simp only [TelegramState.drive, hphase]
      refine h.goesOn hd hon ?_ ?_ ?_ id hfresh <;> simp
    | false =>
      simp only [TelegramState.drive, hphase]
      exact h.leaves hd (hreply rfl hphase) id hfresh
  | leaving =>
    simp only [TelegramState.drive, hphase]
    refine h.setDriver hd ⟨rfl, ⟨fun _ => rfl, fun _ => .inr rfl, fun _ => rfl, ?_, ?_⟩,
      fun _ => .inr rfl, ?_, fun message updates hsend => (h.sending hsend).2, ?_⟩
    · rintro (⟨⟨⟩⟩ | ⟨⟨⟩⟩)
    · rintro ⟨⟩
    · rw [hok.empty (.inl hphase)]
      rfl
    · exact fun hred => absurd hred (h.not_redelivers (by rw [hphase]; decide))
  | ended =>
    simp only [TelegramState.drive, hphase]
    exact h

/-! ## A step of the dispatcher -/

theorem Inv.redispatch (h : Inv s) {drivers : Int → Option ℕ} {dispatcher : Dispatcher}
    (hknown : ∀ d < s.spawned, ¬ (s.driver d).Over → drivers (s.driver d).chat = some d)
    (hmapped : ∀ chat d, drivers chat = some d → d < s.spawned ∧ (s.driver d).chat = chat)
    (hdispatcher : { s with drivers := drivers, dispatcher := dispatcher }.DispatcherOk) :
    Inv { s with drivers := drivers, dispatcher := dispatcher } where
  ok := h.ok
  known d hd hactive := .inl (hknown d hd hactive)
  mapped := hmapped
  dispatcher := hdispatcher
  accounted chat := ⟨(h.accounted chat).active, (h.accounted chat).ended⟩

theorem Inv.known_of (h : Inv s) (hfresh : ¬ s.Redelivers d) (hd : d < s.spawned)
    (hactive : ¬ (s.driver d).Over) : s.drivers (s.driver d).chat = some d :=
  (h.known d hd hactive).resolve_right hfresh

theorem Inv.continue (h : Inv s) (hfresh : ∀ d, ¬ s.Redelivers d)
    (updates : List (Option TelegramMessage)) : Inv (s.setDispatcher (.routing updates)) :=
  h.redispatch (fun _ hd hactive => h.known_of (hfresh _) hd hactive) h.mapped trivial

/-- A driver is spawned for a chat whose other drivers are over. -/
theorem Inv.spawn (h : Inv s) {chat : Int} {drivers : Int → Option ℕ} {dispatcher : Dispatcher}
    (hover : ∀ d < s.spawned, (s.driver d).chat = chat → (s.driver d).Over)
    (hknown : ∀ d < s.spawned, ¬ (s.driver d).Over → drivers (s.driver d).chat = some d)
    (hfresh : drivers chat = some s.spawned ∨
      ∃ message updates, dispatcher = .redelivering s.spawned message updates)
    (hmapped : ∀ c d, drivers c = some d →
      d = s.spawned ∧ chat = c ∨ d < s.spawned ∧ (s.driver d).chat = c)
    (hdispatcher : { s.spawnChatDriver chat with
      drivers := drivers, dispatcher := dispatcher }.DispatcherOk) :
    Inv { s.spawnChatDriver chat with drivers := drivers, dispatcher := dispatcher } := by
  have hdriver : ∀ d, (s.spawnChatDriver chat).driver d =
      if d = s.spawned then { chat } else s.driver d := driver_setDriver s s.spawned { chat }
  have hold : ∀ d, d < s.spawned → (s.spawnChatDriver chat).driver d = s.driver d := by
    intro d hd
    rw [hdriver, if_neg (Nat.ne_of_lt hd)]
  have hnew : (s.spawnChatDriver chat).driver s.spawned = { chat } := by
    rw [hdriver, if_pos rfl]
  have hcases : ∀ d, d < s.spawned + 1 → d = s.spawned ∨ d < s.spawned := by
    intro d hd
    omega
  refine ⟨?_, ?_, ?_, hdispatcher, ?_⟩
  · intro d hd
    change ((s.spawnChatDriver chat).driver d).Ok
    obtain rfl | hd := hcases d hd
    · rw [hnew]
      refine ⟨?_, ?_, ?_, ?_, ?_⟩
      · rintro (⟨⟨⟩⟩ | ⟨⟨⟩⟩)
      · rintro ⟨⟩
      · rintro ⟨⟩
      · rintro (⟨⟨⟩⟩ | ⟨⟨⟩⟩)
      · rintro ⟨⟩
    · rw [hold d hd]
      exact h.ok d hd
  · intro d hd hactive
    change drivers ((s.spawnChatDriver chat).driver d).chat = some d ∨ _
    change ¬ ((s.spawnChatDriver chat).driver d).Over at hactive
    obtain rfl | hd := hcases d hd
    · rw [hnew]
      exact hfresh.imp_right fun hred => hred
    · rw [hold d hd] at hactive ⊢
      exact .inl (hknown d hd hactive)
  · intro c d hmap
    change d < s.spawned + 1 ∧ ((s.spawnChatDriver chat).driver d).chat = c
    obtain ⟨rfl, rfl⟩ | ⟨hd, hchat⟩ := hmapped c d hmap
    · rw [hnew]
      exact ⟨Nat.lt_succ_self _, rfl⟩
    · rw [hold d hd]
      exact ⟨Nat.lt_succ_of_lt hd, hchat⟩
  · intro c
    have hacc := h.accounted c
    constructor
    · intro d hd
      change ((s.spawnChatDriver chat).driver d).chat = c →
        ¬ ((s.spawnChatDriver chat).driver d).Over →
        s.handedTexts c = s.handledTexts c ++ textsOf ((s.spawnChatDriver chat).driver d).inbox
      intro hchat hactive
      obtain rfl | hd := hcases d hd
      · rw [hnew] at hchat ⊢
        obtain rfl : chat = c := hchat
        rw [hacc.ended hover]
        simp [textsOf]
      · rw [hold d hd] at hchat hactive ⊢
        exact hacc.active d hd hchat hactive
    · intro hall
      refine hacc.ended fun d hd hchat => ?_
      have := hall d (Nat.lt_succ_of_lt hd)
      change ((s.spawnChatDriver chat).driver d).chat = c →
        ((s.spawnChatDriver chat).driver d).Over at this
      rw [hold d hd] at this
      exact this hchat

/-- A message goes into the inbox of an active driver of its chat. -/
theorem Inv.push (h : Inv s) (hd : d < s.spawned) (hchat : (s.driver d).chat = message.chat)
    (hactive : ¬ (s.driver d).Over) (hclosing : (s.driver d).phase ≠ .closing)
    (hrouting : s.dispatcher = .routing updates) : Inv (s.push d message) := by
  have hdriver : ∀ e, (s.push d message).driver e =
      if e = d then { s.driver d with inbox := (s.driver d).inbox ++ [message] } else s.driver e :=
    driver_setDriver s d _
  have hfresh : ∀ e, ¬ s.Redelivers e := by
    rintro e ⟨m, u, hred⟩
    rw [hrouting] at hred
    cases hred
  have hover : ∀ e, ((s.push d message).driver e).Over ↔ (s.driver e).Over := by
    intro e
    rw [hdriver]
    split
    · next he =>
      subst he
      exact Iff.rfl
    · exact Iff.rfl
  have hsame : ∀ e, ((s.push d message).driver e).chat = (s.driver e).chat := by
    intro e
    rw [hdriver]
    split
    · next he => rw [he]
    · rfl
  have hok := h.ok d hd
  refine ⟨?_, ?_, ?_, ?_, ?_⟩
  · intro e he
    rw [hdriver]
    split
    · exact ⟨fun hx => absurd hx hactive, hok.closed, hok.ended, hok.gate,
        fun hx => absurd hx hclosing⟩
    · exact h.ok e he
  · intro e he hon
    rw [hsame]
    exact .inl (h.known_of (hfresh e) he fun hx => hon ((hover e).mpr hx))
  · intro chat e hmap
    obtain ⟨he, hechat⟩ := h.mapped chat e hmap
    exact ⟨he, (hsame e).trans hechat⟩
  · rw [TelegramState.DispatcherOk]
    change match s.dispatcher with
      | .locking e m _ => (s.push d message).AtDriver e m
      | .sending e m _ => (s.push d message).AtDriver e m ∧ _
      | .redelivering e m _ => (s.push d message).AtFresh e m
      | _ => True
    rw [hrouting]
    trivial
  · intro chat
    have hacc := h.accounted chat
    have hhanded : (s.push d message).handedTexts chat = s.handedTexts chat ++
        if message.chat = chat then textsOf [message] else [] := by
      unfold TelegramState.handedTexts TelegramState.push
      rw [filter_append, textsOf_append, filter_cons]
      by_cases hm : message.chat = chat <;> simp [hm, textsOf]
    have hhandled : (s.push d message).handledTexts chat = s.handledTexts chat := rfl
    constructor
    · intro e he hechat hon
      rw [hsame] at hechat
      rw [hover] at hon
      rw [hhanded, hhandled, hacc.active e he hechat hon, hdriver]
      by_cases hed : e = d
      · subst hed
        rw [if_pos rfl, if_pos (hchat.symm.trans hechat), append_assoc, ← textsOf_append]
      · have hother : message.chat ≠ chat := by
          rintro rfl
          exact hed (h.active_unique he hd (hechat.trans hchat.symm) hon hactive)
        rw [if_neg hed, if_neg hother, append_nil]
    · intro hall
      have hother : message.chat ≠ chat := by
        rintro rfl
        have := hall d hd
        rw [hsame, hover] at this
        exact hactive (this hchat)
      rw [hhanded, hhandled, if_neg hother, append_nil]
      refine hacc.ended fun e he hechat => ?_
      have := hall e he
      rw [hsame, hover] at this
      exact this hechat

theorem Inv.setGate (h : Inv s) (hd : d < s.spawned) {holder : Option GateHolder}
    (hphase : (s.driver d).phase ≠ .checking ∧ (s.driver d).phase ≠ .closing)
    (hrouting : s.dispatcher = .routing updates) : Inv (s.setGate d holder) := by
  have hok := h.ok d hd
  refine h.setDriver hd ⟨rfl, ⟨hok.empty, hok.closed, hok.ended, ?_, hok.closing⟩, id, rfl, ?_, ?_⟩
  · rintro (hx | hx)
    · exact absurd hx hphase.1
    · exact absurd hx hphase.2
  · intro m u hsend
    rw [hrouting] at hsend
    cases hsend
  · rintro ⟨m, u, hred⟩
    rw [hrouting] at hred
    cases hred

theorem openDriver_eq_some {chat : Int} :
    s.openDriver chat = some d ↔ s.drivers chat = some d ∧ (s.driver d).closed = false := by
  simp [TelegramState.openDriver, Option.filter_eq_some_iff]

theorem Inv.route (h : Inv s) (hfresh : ∀ d, ¬ s.Redelivers d) (update : Option TelegramMessage)
    (updates : List (Option TelegramMessage)) : Inv (s.route allowed update updates) := by
  unfold TelegramState.route
  cases update with
  | none => exact h.continue hfresh updates
  | some message =>
    dsimp only
    split
    · exact h.continue hfresh updates
    split
    · exact h.continue hfresh updates
    have hknown : ∀ d < s.spawned, ¬ (s.driver d).Over → s.drivers (s.driver d).chat = some d :=
      fun _ hd hactive => h.known_of (hfresh _) hd hactive
    split
    · next d hopen =>
      obtain ⟨hmap, -⟩ := openDriver_eq_some.mp hopen
      obtain ⟨hd, hchat⟩ := h.mapped _ _ hmap
      exact h.redispatch hknown h.mapped ⟨hd, hchat, hmap⟩
    · next hopen =>
      -- The chat has no driver, or its driver has closed the inbox.
      have hover : ∀ d < s.spawned, (s.driver d).chat = message.chat → (s.driver d).Over := by
        intro d hd hchat
        by_contra hactive
        have hmap := hknown d hd hactive
        rw [hchat] at hmap
        have : s.openDriver message.chat = some d :=
          openDriver_eq_some.mpr ⟨hmap, (h.ok d hd).not_closed hactive⟩
        rw [hopen] at this
        cases this
      refine h.spawn hover ?_ (.inl (Function.update_self ..)) ?_ ?_
      · intro d hd hactive
        rw [Function.update_of_ne fun hchat => hactive (hover d hd hchat)]
        exact hknown d hd hactive
      · intro chat d hmap
        by_cases hchat : chat = message.chat
        · rw [hchat, Function.update_self] at hmap
          exact .inl ⟨(Option.some.inj hmap).symm, hchat.symm⟩
        · rw [Function.update_of_ne hchat] at hmap
          exact .inr (h.mapped chat d hmap)
      · refine ⟨Nat.lt_succ_self _, ?_, Function.update_self ..⟩
        change ((s.setDriver s.spawned { chat := message.chat }).driver s.spawned).chat = _
        rw [driver_setDriver, if_pos rfl]

/-- Every step of the dispatcher, when it does not send into the inbox of a driver whose loop has
ended. -/
theorem Inv.dispatch (h : Inv s) (updates : List (Option TelegramMessage))
    (hleft : ∀ d message rest, s.dispatcher = .sending d message rest →
      (s.driver d).phase = .leaving → (s.driver d).closed = true) :
    Inv (s.dispatch allowed updates) := by
  have hfresh : (∀ d message rest, s.dispatcher ≠ .redelivering d message rest) →
      ∀ d, ¬ s.Redelivers d := by
    rintro hno d ⟨message, rest, hred⟩
    exact hno d message rest hred
  cases hdisp : s.dispatcher with
  | polling =>
    have hnone := hfresh (by simp [hdisp])
    simp only [TelegramState.dispatch, hdisp]
    refine h.redispatch ?_ ?_ trivial
    · intro d hd hactive
      exact openDriver_eq_some.mpr
        ⟨h.known_of (hnone d) hd hactive, (h.ok d hd).not_closed hactive⟩
    · exact fun chat d hopen => h.mapped chat d (openDriver_eq_some.mp hopen).1
  | routing pending =>
    have hnone := hfresh (by simp [hdisp])
    cases pending with
    | nil =>
      simp only [TelegramState.dispatch, hdisp]
      exact h.redispatch (fun d hd hactive => h.known_of (hnone d) hd hactive) h.mapped trivial
    | cons update rest =>
      simp only [TelegramState.dispatch, hdisp]
      exact h.route hnone update rest
  | locking d message rest =>
    have hat := h.locking hdisp
    have hgo := h.continue (hfresh (by simp [hdisp])) rest
    simp only [TelegramState.dispatch, hdisp]
    split
    · next hgate =>
      have hphase : (s.driver d).phase ≠ .checking ∧ (s.driver d).phase ≠ .closing := by
        constructor <;>
        · intro hx
          have := (h.ok d hat.spawned).gate (by simp [hx])
          rw [hgate] at this
          cases this
      have hgated : Inv ((s.setDispatcher (.routing rest)).setGate d (some .dispatcher)) :=
        hgo.setGate hat.spawned hphase rfl
      refine hgated.redispatch ?_ hgated.mapped ⟨⟨hat.spawned, ?_, hat.mapped⟩, ?_⟩
      · intro e he hactive
        refine hgated.known_of ?_ he hactive
        rintro ⟨m, u, hred⟩
        cases hred
      · change ((s.setGate d (some .dispatcher)).driver d).chat = _
        rw [TelegramState.setGate, driver_setDriver, if_pos rfl]
        exact hat.chat
      · change ((s.setGate d (some .dispatcher)).driver d).gate = _
        rw [TelegramState.setGate, driver_setDriver, if_pos rfl]
    · exact h
  | sending d message rest =>
    obtain ⟨hat, hgate⟩ := h.sending hdisp
    have hok := h.ok d hat.spawned
    have hnone := hfresh (by simp [hdisp])
    have hgo := h.continue hnone rest
    have hphase : (s.driver d).phase ≠ .checking ∧ (s.driver d).phase ≠ .closing := by
      constructor <;>
      · intro hx
        have := hok.gate (by simp [hx])
        rw [hgate] at this
        cases this
    simp only [TelegramState.dispatch, hdisp]
    split
    · next hclosed =>
      -- The driver was over before the send; a fresh one takes its place.
      have hover := hok.closed hclosed
      have hreleased : Inv ((s.setDispatcher (.routing rest)).setGate d none) :=
        hgo.setGate hat.spawned hphase rfl
      have hsame : ∀ e, ((s.setGate d none).driver e).chat = (s.driver e).chat ∧
          (((s.setGate d none).driver e).Over ↔ (s.driver e).Over) := by
        intro e
        rw [TelegramState.setGate, driver_setDriver]
        split
        · next he =>
          subst he
          exact ⟨rfl, Iff.rfl⟩
        · exact ⟨rfl, Iff.rfl⟩
      have hall : ∀ e < s.spawned, ((s.setGate d none).driver e).chat = message.chat →
          ((s.setGate d none).driver e).Over := by
        intro e he hchat
        rw [(hsame e).1] at hchat
        rw [(hsame e).2]
        by_contra hactive
        have hmap := h.known_of (hnone e) he hactive
        rw [hchat, hat.mapped] at hmap
        exact hactive (Option.some.inj hmap ▸ hover)
      refine hreleased.spawn hall ?_ (.inr ⟨message, rest, rfl⟩) ?_ ?_
      · intro e he hactive
        refine hreleased.known_of ?_ he hactive
        rintro ⟨m, u, hred⟩
        cases hred
      · exact fun c e hmap => .inr (hreleased.mapped c e hmap)
      · have hnew : ((s.setGate d none).spawnChatDriver message.chat).driver s.spawned =
            { chat := message.chat } := by
          refine (driver_setDriver ..).trans ?_
          exact if_pos rfl
        refine ⟨Nat.lt_succ_self _, ?_, ?_, ?_, ?_⟩
        · exact congrArg ChatDriver.chat hnew
        · exact congrArg ChatDriver.phase hnew
        · exact congrArg ChatDriver.inbox hnew
        · intro e he hne hchat
          have hold : ((s.setGate d none).spawnChatDriver message.chat).driver e =
              (s.setGate d none).driver e := by
            refine (driver_setDriver ..).trans ?_
            exact if_neg hne
          change (((s.setGate d none).spawnChatDriver message.chat).driver e).chat = _ at hchat
          change (((s.setGate d none).spawnChatDriver message.chat).driver e).Over
          rw [hold] at hchat ⊢
          refine hall e ?_ hchat
          have : e < s.spawned + 1 := he
          have : e ≠ s.spawned := hne
          omega
    · next hopen =>
      split
      · have hactive : ¬ (s.driver d).Over := by
          rintro (hx | hx)
          · exact hopen (hleft d message rest hdisp hx)
          · exact hopen (hok.ended hx)
        have hpushed : Inv ((s.setDispatcher (.routing rest)).push d message) :=
          hgo.push hat.spawned hat.chat hactive hphase.2 rfl
        have hpushedDriver : ((s.setDispatcher (.routing rest)).push d message).driver d =
            { s.driver d with inbox := (s.driver d).inbox ++ [message] } := by
          refine (driver_setDriver ..).trans ?_
          exact if_pos rfl
        refine hpushed.setGate hat.spawned ?_ rfl
        rw [hpushedDriver]
        exact hphase
      · exact h
  | redelivering d message rest =>
    have hat := h.atFresh hdisp
    have hactive : ¬ (s.driver d).Over := by
      rintro (hx | hx)
      · rw [hat.phase] at hx
        cases hx
      · rw [hat.phase] at hx
        cases hx
    have hopen := (h.ok d hat.spawned).not_closed hactive
    simp only [TelegramState.dispatch, hdisp, hopen]
    split
    · next hno => cases hno
    split
    · have hmapped : Inv { s with
          drivers := Function.update s.drivers message.chat (some d)
          dispatcher := .routing rest } := by
        refine h.redispatch ?_ ?_ trivial
        · intro e he heactive
          by_cases hchat : (s.driver e).chat = message.chat
          · have hed : e = d := by
              by_contra hne
              exact heactive (hat.alone e he hne hchat)
            rw [hchat, Function.update_self, hed]
          · rw [Function.update_of_ne hchat]
            refine h.known_of ?_ he heactive
            rintro ⟨m, u, hred⟩
            rw [hdisp] at hred
            cases hred
            exact hchat hat.chat
        · intro chat e hmap
          by_cases hchat : chat = message.chat
          · rw [hchat, Function.update_self] at hmap
            obtain rfl := Option.some.inj hmap
            exact ⟨hat.spawned, hat.chat.trans hchat.symm⟩
          · rw [Function.update_of_ne hchat] at hmap
            exact h.mapped chat e hmap
      exact hmapped.push hat.spawned hat.chat hactive (by rw [hat.phase]; decide) rfl
    · exact h

/-! ## Runs -/

/-- The steps that lose no message. A reply fails only while no message waits for its driver, and
nothing is sent to a driver between its failed reply and the end of its receiver; the idle timer
of a fresh driver does not fire while the message that came back is on its way to it. -/
def Calm (s : TelegramState) : TelegramAction → Prop
  | .dispatch _ => ∀ d message rest, s.dispatcher = .sending d message rest →
      (s.driver d).phase = .leaving → (s.driver d).closed = true
  | .drive d ok => ok = false →
      ((s.driver d).phase = .reply → (s.driver d).inbox = []) ∧
      ((s.driver d).phase = .receiving → ¬ s.Redelivers d)

instance decideRedelivers (s : TelegramState) (d : ℕ) : Decidable (s.Redelivers d) :=
  match h : s.dispatcher with
  | .redelivering e message updates =>
    decidable_of_iff (e = d) ⟨fun he => ⟨message, updates, he ▸ h⟩, fun ⟨_, _, hd⟩ => by
      rw [h] at hd
      cases hd
      rfl⟩
  | .polling | .routing _ | .locking _ _ _ | .sending _ _ _ =>
    isFalse fun ⟨_, _, hd⟩ => by rw [h] at hd; cases hd

instance decideCalm (s : TelegramState) : ∀ action, Decidable (Calm s action)
  | .dispatch _ =>
    match h : s.dispatcher with
    | .sending e message rest =>
      decidable_of_iff ((s.driver e).phase = .leaving → (s.driver e).closed = true)
        ⟨fun hclosed _ _ _ hd => by rw [h] at hd; cases hd; exact hclosed,
          fun hcalm => hcalm e message rest h⟩
    | .polling | .routing _ | .locking _ _ _ | .redelivering _ _ _ =>
      isTrue fun _ _ _ hd => by rw [h] at hd; cases hd
  | .drive d _ => inferInstanceAs (Decidable (_ = false →
      ((s.driver d).phase = .reply → (s.driver d).inbox = []) ∧
      ((s.driver d).phase = .receiving → ¬ s.Redelivers d)))

theorem Inv.step (h : Inv s) (action : TelegramAction) (hcalm : Calm s action) :
    Inv ((telegramMachine allowed).step s action).2 := by
  cases action with
  | dispatch updates => exact h.dispatch updates hcalm
  | drive d ok =>
    change Inv (if d < s.spawned then s.drive d ok else s)
    split
    · next hd => exact h.drive hd (fun hno => (hcalm hno).1) fun hno => (hcalm hno).2
    · exact h

theorem flatMap_unique {α β : Type} {f : α → List β} {xs : List α} {a : α} (ha : a ∈ xs)
    (hnodup : xs.Nodup) (hothers : ∀ b ∈ xs, b ≠ a → f b = []) : xs.flatMap f = f a := by
  induction xs with
  | nil => cases ha
  | cons b rest ih =>
    obtain ⟨hb, hrest⟩ := List.nodup_cons.mp hnodup
    rw [flatMap_cons]
    obtain rfl | ha := List.mem_cons.mp ha
    · have hempty : rest.flatMap f = [] := List.flatMap_eq_nil_iff.mpr fun c hc =>
        hothers c (mem_cons_of_mem _ hc) fun hca => hb (hca ▸ hc)
      rw [hempty, append_nil]
    · rw [hothers b mem_cons_self fun hba => hb (hba ▸ ha), nil_append]
      exact ih ha hrest fun c hc => hothers c (mem_cons_of_mem _ hc)

theorem Inv.delivered (h : Inv s) : Delivered s where
  inOrder chat := by
    have hacc := h.accounted chat
    have hnodup : ((List.range s.spawned).filter fun d => (s.driver d).chat = chat).Nodup :=
      List.nodup_range.filter _
    have hmem : ∀ d, d ∈ (List.range s.spawned).filter (fun d => (s.driver d).chat = chat) ↔
        d < s.spawned ∧ (s.driver d).chat = chat := by
      intro d
      rw [List.mem_filter, mem_range, decide_eq_true_eq]
    have hempty : ∀ d, d < s.spawned → (s.driver d).Over → textsOf (s.driver d).inbox = [] := by
      intro d hd hover
      rw [(h.ok d hd).empty hover]
      rfl
    unfold TelegramState.waitingTexts
    by_cases hactive : ∃ d < s.spawned, (s.driver d).chat = chat ∧ ¬ (s.driver d).Over
    · obtain ⟨d, hd, hchat, hon⟩ := hactive
      rw [hacc.active d hd hchat hon,
        @flatMap_unique _ _ (fun e => textsOf (s.driver e).inbox) _ d ((hmem d).mpr ⟨hd, hchat⟩)
          hnodup]
      intro e he hne
      obtain ⟨he, hechat⟩ := (hmem e).mp he
      refine hempty e he ?_
      by_contra heon
      exact hne (h.active_unique he hd (hechat.trans hchat.symm) heon hon)
    · have hover : ∀ d < s.spawned, (s.driver d).chat = chat → (s.driver d).Over := by
        intro d hd hchat
        by_contra hon
        exact hactive ⟨d, hd, hchat, hon⟩
      have hnone : ((List.range s.spawned).filter fun d => (s.driver d).chat = chat).flatMap
          (fun d => textsOf (s.driver d).inbox) = [] := by
        refine List.flatMap_eq_nil_iff.mpr fun d hd => ?_
        obtain ⟨hd, hchat⟩ := (hmem d).mp hd
        exact hempty d hd (hover d hd hchat)
      rw [hacc.ended hover, hnone, append_nil]
  read d hd hinbox := by
    have hon : ¬ (s.driver d).Over := fun hover => hinbox ((h.ok d hd).empty hover)
    exact ⟨hon, (h.ok d hd).not_closed hon⟩
  exclusive d hd e he hchat hdbusy hebusy := by
    have hon : ∀ x : ChatDriver, x.Busy → ¬ x.Over := by
      rintro x (hx | hx) (hy | hy) <;> rw [hx] at hy <;> cases hy
    exact h.active_unique hd he hchat (hon _ hdbusy) (hon _ hebusy)

/-- In a calm run no message that was handed over is lost, doubled or overtaken, and the turns of
a chat do not overlap. -/
theorem delivered_of_calm (allowed : Int → Bool) (actions : List TelegramAction)
    (hcalm : ∀ e ∈ (telegramMachine allowed).trace .start actions, Calm e.before e.input) :
    Delivered ((telegramMachine allowed).run .start actions) :=
  ((telegramMachine allowed).run_invariant_of inv_start (fun _ action h => h.step action)
    hcalm).delivered

/-- Two chats. Two messages wait in the first driver's inbox before it answers the first of them;
the reply of the second driver fails while nothing waits for it. -/
def twoChats : List TelegramAction :=
  [.dispatch [some ⟨7, false, some "one", false⟩, some ⟨7, false, some "two", false⟩,
      some ⟨8, false, some "hi", false⟩],
    .dispatch [], .dispatch [], .dispatch [], .dispatch [], .dispatch [], .dispatch [],
    .drive 0 true, .drive 0 true, .drive 0 true,
    .dispatch [], .dispatch [], .dispatch [],
    .drive 0 true, .drive 1 true, .drive 0 true, .drive 1 true, .drive 0 true, .drive 1 false,
    .drive 1 true]

/-- The first driver retires while the dispatcher has a message for it, which comes back and
goes to a fresh driver. -/
def retiring : List TelegramAction :=
  [.dispatch [], .dispatch [some ⟨7, false, some "three", false⟩], .dispatch [],
    .drive 0 false, .drive 0 true, .drive 0 true, .drive 0 true,
    .dispatch [], .dispatch [], .dispatch [], .drive 0 true, .drive 2 true]

theorem delivered_of_calm_retiring :
    let s := (telegramMachine fun _ => true).run .start (twoChats ++ retiring)
    Delivered s ∧ s.handledTexts 7 = ["one", "two", "three"] ∧ s.handledTexts 8 = ["hi"] ∧
      s.spawned = 3 := by
  intro s
  refine ⟨delivered_of_calm _ _ ?_, by decide +kernel⟩
  decide +kernel

/-- The reply to the first of two messages fails: the driver is gone, and the second message,
which was handed to it, is in no inbox and was not handled. -/
theorem failed_reply_loses_messages :
    let s := (telegramMachine fun _ => true).run .start
      [.dispatch [some ⟨7, false, some "one", false⟩, some ⟨7, false, some "two", false⟩],
        .dispatch [], .dispatch [], .dispatch [], .dispatch [], .dispatch [], .dispatch [],
        .drive 0 true, .drive 0 true, .drive 0 false, .drive 0 true]
    s.handedTexts 7 = ["one", "two"] ∧ s.handledTexts 7 = ["one"] ∧ s.waitingTexts 7 = [] ∧
      s.spawned = 1 ∧ (s.driver 0).phase = .ended := by
  decide +kernel

end GenieClaw.Telegram
