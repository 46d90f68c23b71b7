import GenieClaw.Server.Reasoning

/-!
# One directive for each turn

After `apply_reasoning_mode` the last message of the user should end with the directive of the
mode and hold no other one, and a second application should change nothing. That is so exactly
if the text of the turn is not blank without its directives and cutting them out leaves none.

* `directed_iff` (there is a message of the user): when it ends with one directive.
-/

namespace GenieClaw.Server

open Library Library.Text List Option

/-! ## Directives in a text -/

def directives : List (List Char) := ["/no_think".toList, "/think".toList]

def startsWithDirective (cs : List Char) : Bool := directives.any fun d => d.isPrefixOf cs

/-- At how many places of the text a directive begins. -/
def directiveCount (cs : List Char) : Nat := cs.tails.countP startsWithDirective

theorem directiveCount_cons (c : Char) (cs : List Char) :
    directiveCount (c :: cs) =
      directiveCount cs + if startsWithDirective (c :: cs) then 1 else 0 := by
  unfold directiveCount
  rw [tails_cons, countP_cons]

theorem startsWithDirective_cons {c : Char} (hc : c ≠ '/') (cs : List Char) :
    startsWithDirective (c :: cs) = false := by
  have hslash : ∀ rest : List Char, List.isPrefixOf ('/' :: rest) (c :: cs) = false := by
    intro rest
    rw [isPrefixOf_cons_cons, beq_false_of_ne (Ne.symm hc), Bool.false_and]
  unfold startsWithDirective directives
  rw [any_cons, any_cons, any_nil]
  exact Bool.or_eq_false_iff.mpr ⟨hslash _, Bool.or_eq_false_iff.mpr ⟨hslash _, rfl⟩⟩

variable {w : Char}

theorem isPrefixOf_append_space {d : List Char} (hw : w ∉ d) (xs ys : List Char) :
    d.isPrefixOf (xs ++ w :: ys) = d.isPrefixOf xs := by
  induction d generalizing xs with
  | nil => simp
  | cons c d ih =>
    rw [mem_cons, not_or] at hw
    cases xs with
    | nil =>
      rw [nil_append, isPrefixOf_cons_cons, beq_false_of_ne (Ne.symm hw.1),
        Bool.false_and]
      rfl
    | cons x xs =>
      rw [cons_append, isPrefixOf_cons_cons, isPrefixOf_cons_cons, ih hw.2]

theorem notMem_directives (hw : isWhitespace w = true) : ∀ d ∈ directives, w ∉ d := by
  have hchars : ∀ c ∈ directives.flatten, isWhitespace c = false := forall_mem_of_all (by decide)
  intro d hd hmem
  exact Bool.false_ne_true ((hchars w (List.mem_flatten.mpr ⟨d, hd, hmem⟩)).symm.trans hw)

theorem startsWithDirective_append (hw : isWhitespace w = true) (xs ys : List Char) :
    startsWithDirective (xs ++ w :: ys) = startsWithDirective xs := by
  have hnot := notMem_directives hw
  unfold startsWithDirective directives at *
  rw [any_cons, any_cons, any_cons, any_cons,
    isPrefixOf_append_space (hnot _ (by simp)), isPrefixOf_append_space (hnot _ (by simp))]
  rfl

theorem directiveCount_append (hw : isWhitespace w = true) (xs ys : List Char) :
    directiveCount (xs ++ w :: ys) = directiveCount xs + directiveCount ys := by
  induction xs with
  | nil =>
    have hslash : w ≠ '/' := by
      rintro rfl
      exact absurd hw (by decide)
    have hnil : directiveCount [] = 0 := by decide
    rw [nil_append, directiveCount_cons, startsWithDirective_cons hslash, hnil]
    rw [if_neg Bool.false_ne_true, Nat.add_zero, Nat.zero_add]
  | cons x xs ih =>
    rw [cons_append, directiveCount_cons, directiveCount_cons, ih, ← cons_append,
      startsWithDirective_append hw]
    omega

theorem directiveCount_trim (text : String) :
    directiveCount (trim text).toList = directiveCount text.toList := by
  have hnil : directiveCount [] = 0 := by decide
  have hfront : ∀ cs : List Char,
      directiveCount (cs.dropWhile isWhitespace) = directiveCount cs := by
    intro cs
    induction cs with
    | nil => rfl
    | cons c cs ih =>
      rw [dropWhile_cons]
      split
      · rename_i hc
        have happend := directiveCount_append hc [] cs
        rw [nil_append, hnil, Nat.zero_add] at happend
        rw [ih, happend]
      · rfl
  have hback : ∀ cs : List Char,
      directiveCount (cs.rdropWhile isWhitespace) = directiveCount cs := by
    intro cs
    induction cs using List.reverseRecOn with
    | nil => rfl
    | append_singleton cs c ih =>
      rw [rdropWhile_concat]
      split
      · rename_i hc
        rw [ih, directiveCount_append hc, hnil, Nat.add_zero]
      · rfl
  unfold trim trimChars
  rw [String.toList_ofList, hback, hfront]

theorem directiveCount_directive (mode : ReasoningMode) :
    directiveCount mode.directive.toList = 1 := by
  cases mode <;> decide

theorem directiveCount_line (base : String) (mode : ReasoningMode) :
    directiveCount (base ++ "\n" ++ mode.directive).toList = directiveCount base.toList + 1 := by
  have hline : (base ++ "\n" ++ mode.directive).toList =
      base.toList ++ '\n' :: mode.directive.toList := by
    rw [String.toList_append, String.toList_append, append_assoc]
    rfl
  rw [hline, directiveCount_append (by decide), directiveCount_directive]

/-! ## The last message of the user -/

/-- The messages in front of the user's last one, this one, and those behind it. -/
structure LastUser (messages front : List Message) (last : Message) (back : List Message) :
    Prop where
  eq : messages = front ++ last :: back
  role : last.role = "user"
  later : ∀ m ∈ back, m.role ≠ "user"

theorem exists_lastUser {messages : List Message} (h : ∃ m ∈ messages, m.role = "user") :
    ∃ front last back, LastUser messages front last back := by
  induction messages with
  | nil =>
    obtain ⟨m, hm, -⟩ := h
    cases hm
  | cons first rest ih =>
    by_cases hrest : ∃ m ∈ rest, m.role = "user"
    · obtain ⟨front, last, back, hlast⟩ := ih hrest
      exact ⟨first :: front, last, back, congrArg (first :: ·) hlast.eq, hlast.role, hlast.later⟩
    · obtain ⟨m, hm, hrole⟩ := h
      rcases List.mem_cons.mp hm with rfl | hm
      · exact ⟨[], m, rest, rfl, hrole, fun other hother huser => hrest ⟨other, hother, huser⟩⟩
      · exact absurd ⟨m, hm, hrole⟩ hrest

section

variable {messages front back : List Message} {last : Message}

theorem LastUser.idx_eq (h : LastUser messages front last back) :
    lastUserIdx messages = some front.length := by
  have hback : back.reverse.findIdx? (fun m => m.role == "user") = none := by
    refine List.findIdx?_eq_none_iff.mpr fun m hm => ?_
    exact beq_false_of_ne (h.later m (List.mem_reverse.mp hm))
  have hlast : (last.role == "user") = true := beq_iff_eq.mpr h.role
  unfold lastUserIdx
  rw [h.eq, reverse_append, reverse_cons, append_assoc, findIdx?_append, hback,
    none_or, singleton_append, findIdx?_cons, hlast, if_pos rfl]
  simp only [map_some, length_append, length_cons, length_reverse,
    Option.some.injEq]
  omega

theorem LastUser.withContent (h : LastUser messages front last back) (content : String) :
    LastUser (front ++ { last with content } :: back) front { last with content } back :=
  ⟨rfl, h.role, h.later⟩

variable (toLowercase : String → String) (userText : String) (interaction : InteractionKind)

/-- The mode that is decided for the turn. -/
def decidedMode : ReasoningMode :=
  (explicitReasoningMode (toLowercase userText)).getD
    (autoReasoningMode (toLowercase userText) interaction)

theorem LastUser.applied (h : LastUser messages front last back) :
    applyReasoningMode toLowercase .qwen messages userText interaction =
      (front ++ directedContent (decidedMode toLowercase userText interaction)
          (stripReasoningDirectives userText) last :: back,
        ⟨decidedMode toLowercase userText interaction,
          (explicitReasoningMode (toLowercase userText)).isSome, true⟩) := by
  have hsupports : supportsReasoningToggle .qwen = true := rfl
  have hmodify : messages.modify front.length (directedContent
      (decidedMode toLowercase userText interaction) (stripReasoningDirectives userText)) =
      front ++ directedContent (decidedMode toLowercase userText interaction)
        (stripReasoningDirectives userText) last :: back := by
    rw [h.eq, modify_eq_take_drop, take_left, drop_left]
    rfl
  unfold applyReasoningMode
  rw [hsupports, if_neg (by decide), h.idx_eq]
  dsimp only
  rw [← hmodify]
  rfl

/-- The text that the user's last message should keep: that of the turn, or its own where the
turn has none. -/
def turnText (last : Message) : String :=
  if trim (stripReasoningDirectives userText) = "" then last.content else userText

/-- What the last message of the user and the others should be after the mode is applied. -/
structure Directed (messages : List Message) : Prop where
  message : ∃ front last back text, LastUser messages front last back ∧
    (applyReasoningMode toLowercase .qwen messages userText interaction).1 =
      front ++ { last with
        content := text ++ (decidedMode toLowercase userText interaction).directive } :: back ∧
    directiveCount
      (text ++ (decidedMode toLowercase userText interaction).directive).toList = 1 ∧
    trim text = trim (stripReasoningDirectives (turnText userText last))
  again : (applyReasoningMode toLowercase .qwen
      (applyReasoningMode toLowercase .qwen messages userText interaction).1
      userText interaction).1 =
    (applyReasoningMode toLowercase .qwen messages userText interaction).1

/-! ## When it is so -/

theorem trimChars_concat (hw : isWhitespace w = true) (cs : List Char) :
    trimChars (cs ++ [w]) = trimChars cs := by
  unfold trimChars
  rw [dropWhile_append]
  by_cases hall : cs.dropWhile isWhitespace = []
  · rw [hall, isEmpty_nil, if_pos rfl, dropWhile_cons, if_pos hw]
    rfl
  · rw [if_neg (by simpa using hall), rdropWhile_concat, if_pos hw]

theorem trim_line (base : String) : trim (trim base ++ "\n") = trim base := by
  have hlist : (trim base ++ "\n").toList = (trim base).toList ++ ['\n'] := by
    rw [String.toList_append]
    rfl
  have hagain : trim (trim base) = trim base := trim_trim base
  rw [trim, hlist, trimChars_concat (by decide)]
  exact hagain

theorem directedContent_of_ne {mode : ReasoningMode} {cleaned : String}
    (h : trim cleaned ≠ "") (message : Message) : directedContent mode cleaned message =
      { message with content := trim cleaned ++ "\n" ++ mode.directive } := by
  unfold directedContent
  dsimp only
  rw [if_neg h, if_neg h]

theorem directiveCount_directed (mode : ReasoningMode) (cleaned : String) (message : Message) :
    directiveCount (directedContent mode cleaned message).content.toList =
      directiveCount (if trim cleaned = "" then message.content else cleaned).toList + 1 := by
  by_cases hblank : trim cleaned = ""
  · have htrim := directiveCount_trim message.content
    unfold directedContent
    dsimp only
    rw [if_pos hblank, if_pos hblank]
    by_cases hempty : trim message.content = ""
    · have hzero : directiveCount "".toList = 0 := by decide
      rw [hempty, hzero] at htrim
      rw [if_pos hempty, directiveCount_directive, ← htrim]
    · rw [if_neg hempty, directiveCount_line, htrim]
  · rw [directedContent_of_ne hblank, if_neg hblank, directiveCount_line, directiveCount_trim]

theorem withContent_directed (mode : ReasoningMode) (cleaned : String) (message : Message) :
    ({ message with content := (directedContent mode cleaned message).content } : Message) =
      directedContent mode cleaned message := by
  unfold directedContent
  dsimp only

theorem LastUser.unique {front' back' : List Message} {last' : Message}
    (h : LastUser messages front last back) (h' : LastUser messages front' last' back') :
    front = front' ∧ last = last' ∧ back = back' := by
  have hlength : front.length = front'.length := Option.some.inj (h.idx_eq.symm.trans h'.idx_eq)
  obtain ⟨hfront, hrest⟩ := append_inj (h.eq.symm.trans h'.eq) hlength
  obtain ⟨hlast, hback⟩ := List.cons.inj hrest
  exact ⟨hfront, hlast, hback⟩

theorem LastUser.not_again (h : LastUser messages front last back)
    (hblank : trim (stripReasoningDirectives userText) = "") :
    (applyReasoningMode toLowercase .qwen
        (applyReasoningMode toLowercase .qwen messages userText interaction).1
        userText interaction).1 ≠
      (applyReasoningMode toLowercase .qwen messages userText interaction).1 := by
  have hfirst := h.applied toLowercase userText interaction
  have hlater := h.withContent (directedContent (decidedMode toLowercase userText interaction)
    (stripReasoningDirectives userText) last).content
  have hsecond := hlater.applied toLowercase userText interaction
  intro heq
  rw [hfirst] at heq
  dsimp only at heq
  rw [withContent_directed] at hsecond
  rw [hsecond] at heq
  have hsame := congrArg (fun m : Message => directiveCount m.content.toList)
    (List.cons.inj (append_cancel_left heq)).1
  rw [directiveCount_directed, if_pos hblank] at hsame
  omega

/-- The last message of the user ends with one directive, that of the mode, behind the text of
the turn without directives, and a second application changes nothing, exactly if the turn is
not blank without its directives and cutting them out leaves none. -/
theorem directed_iff (toLowercase : String → String) (messages : List Message)
    (userText : String) (interaction : InteractionKind) (huser : ∃ m ∈ messages, m.role = "user") :
    Directed toLowercase userText interaction messages ↔
      trim (stripReasoningDirectives userText) ≠ "" ∧
        directiveCount (stripReasoningDirectives userText).toList = 0 := by
  obtain ⟨front, last, back, h⟩ := exists_lastUser huser
  have happlied := h.applied toLowercase userText interaction
  constructor
  · rintro ⟨⟨front', last', back', text, h', heq, hcount, -⟩, hagain⟩
    have hne : trim (stripReasoningDirectives userText) ≠ "" := fun hblank =>
      h.not_again toLowercase userText interaction hblank hagain
    obtain ⟨rfl, rfl, rfl⟩ := h.unique h'
    rw [happlied] at heq
    have hcontent := congrArg Message.content (List.cons.inj (append_cancel_left heq)).1
    have hdirected := directiveCount_directed (decidedMode toLowercase userText interaction)
      (stripReasoningDirectives userText) last
    rw [if_neg hne, hcontent] at hdirected
    dsimp only at hdirected
    rw [hcount] at hdirected
    exact ⟨hne, (Nat.succ.inj hdirected).symm⟩
  · rintro ⟨hne, hzero⟩
    have hdirected := fun message => @directedContent_of_ne
      (decidedMode toLowercase userText interaction) _ hne message
    refine ⟨⟨front, last, back, trim (stripReasoningDirectives userText) ++ "\n", h, ?_, ?_, ?_⟩,
      ?_⟩
    · rw [happlied, hdirected]
    · rw [directiveCount_line, directiveCount_trim, hzero]
    · unfold turnText
      rw [if_neg hne, trim_line]
    · have hsecond := (h.withContent (trim (stripReasoningDirectives userText) ++ "\n" ++
        (decidedMode toLowercase userText interaction).directive)).applied toLowercase userText
        interaction
      rw [hdirected] at happlied hsecond
      rw [happlied]
      exact congrArg Prod.fst hsecond

theorem directed_iff_debug :
    Directed toAsciiLowercase "debug this crash /think" .chat
      [⟨"user", "debug this crash /think"⟩] :=
  (directed_iff _ _ _ _ ⟨_, mem_singleton_self _, rfl⟩).mpr
    ⟨by decide +kernel, by decide +kernel⟩

/-- A turn that is only a directive keeps it in front of the one that is added, and removing the
directives of a turn can put a new one together. -/
theorem directive_left :
    (applyReasoningMode toAsciiLowercase .qwen [⟨"user", "/think"⟩] "/think" .chat).1 =
        [⟨"user", "/think\n/think"⟩] ∧
      ¬ Directed toAsciiLowercase "/think" .chat [⟨"user", "/think"⟩] ∧
      (applyReasoningMode toAsciiLowercase .qwen [⟨"user", "say /no_/thinkthink"⟩]
          "say /no_/thinkthink" .chat).1 = [⟨"user", "say /no_think\n/think"⟩] ∧
      ¬ Directed toAsciiLowercase "say /no_/thinkthink" .chat
          [⟨"user", "say /no_/thinkthink"⟩] := by
  have hlast : ∀ content : String, LastUser [⟨"user", content⟩] [] ⟨"user", content⟩ [] :=
    fun content => ⟨rfl, rfl, fun m hm => absurd hm not_mem_nil⟩
  refine ⟨by decide +kernel, fun h => ?_, by decide +kernel, fun h => ?_⟩
  · exact (hlast _).not_again _ _ _ (by decide) h.again
  · obtain ⟨front, last, back, text, h', heq, hcount, -⟩ := h.message
    obtain ⟨rfl, rfl, rfl⟩ := (hlast _).unique h'
    have happlied : (applyReasoningMode toAsciiLowercase .qwen
        [⟨"user", "say /no_/thinkthink"⟩] "say /no_/thinkthink" .chat).1 =
        [⟨"user", "say /no_think\n/think"⟩] := by
      decide +kernel
    rw [happlied] at heq
    have hcontent := congrArg Message.content (List.cons.inj heq).1
    dsimp only at hcontent
    rw [← hcontent] at hcount
    exact absurd hcount (by decide)

end

end GenieClaw.Server
