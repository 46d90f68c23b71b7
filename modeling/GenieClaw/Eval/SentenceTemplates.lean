import GenieClaw.Library.Gaps
import GenieClaw.Library.Phrases

/-!
# Sentence templates

`render_sentence_template` of `bfcl_import.rs`: slots and rules become sample phrases, then groups
their first alternative, from the inside out, then optional parts go, then leftover bars. The
passes work on the text, so that the first bar of a group may be one of an optional part in it,
and then the bracket in front of that bar is left open.

* `Template.replaceReferences_write`, `Template.chooses_write`: the passes over the references and
  the groups of a written template.
* `Template.keeps_chosen`: what stands in front of the first bracket left open is all that the
  pass over the optional parts keeps.
* `Template.intact_rendered_right`: where nothing visible is behind that bracket or in quotation
  marks at an end, the rendered sentence is one of the template, and only there it is the visible
  sentence.
-/

namespace GenieClaw.Eval

open Library Library.Text

/-! ## The source -/

def sampleNameForDomain (domain : Option String) : String :=
  (domain.bind fun name => [("cover", "living room blinds"), ("fan", "bedroom fan"),
    ("switch", "coffee maker"), ("media_player", "living room tv"),
    ("input_boolean", "guest mode")].lookup name).getD "kitchen light"

def slotSamples (domain : Option String) : List (String × String) :=
  [("name", sampleNameForDomain domain), ("timer_name", "tea"), ("brightness_level", "medium"),
    ("todo_list_name", "shopping list"), ("item", "milk"), ("search_query", "jazz"),
    ("media_class", "music")]

def ruleSamples (domain : Option String) : List (String × String) :=
  [("turn", "turn"), ("open", "open"), ("close", "close"), ("what_is", "what is"),
    ("how_is", "how is"), ("numeric_value_set", "set"), ("timer_set", "set"),
    ("timer_duration", "5 minutes"), ("brightness", "50 percent"), ("temperature", "72 degrees"),
    ("temp", "temperature"), ("area", "kitchen"), ("area_floor", "kitchen"),
    ("in_area_floor", "in kitchen"), ("floor", "upstairs"), ("home", "house"), ("here", "here"),
    ("in", "in"), ("all", "all"), ("the", "the"), ("everywhere", "everywhere"),
    ("name", sampleNameForDomain domain), ("light", "lights"), ("fan", "fan"),
    ("cover", "blinds"), ("weather", "weather"), ("media", "music"), ("search_query", "jazz")]

def supportedSlots : List String :=
  ["name", "timer_name", "todo_list_name", "item", "search_query", "media_class",
    "brightness_level"]

def supportedRules : List String :=
  ["turn", "open", "close", "what_is", "how_is", "numeric_value_set", "timer_set",
    "timer_duration", "brightness", "temperature", "temp", "area", "area_floor", "in_area_floor",
    "floor", "home", "here", "in", "all", "the", "everywhere", "name", "light", "fan", "cover",
    "weather", "media", "search_query"]

/-- The two kinds of references, in braces and in angle brackets. -/
inductive Reference where
  | slot
  | rule
deriving DecidableEq

namespace Reference

def opening : Reference → Char
  | slot => '{'
  | rule => '<'

def closing : Reference → Char
  | slot => '}'
  | rule => '>'

/-- The name of a slot ends at a colon. -/
def supported : Reference → List Char → Bool
  | slot, name => supportedSlots.contains (String.ofList (name.takeWhile (· ≠ ':')))
  | rule, name => supportedRules.contains (String.ofList name)

def sample (domain : Option String) : Reference → List Char → List Char
  | slot, name =>
    (((slotSamples domain).lookup (String.ofList (name.takeWhile (· ≠ ':')))).getD "item").toList
  | rule, name => (((ruleSamples domain).lookup (String.ofList name)).getD "").toList

end Reference

/-- The loop of `has_unsupported_delimited_slot`, for at most so many rounds. -/
def hasUnsupportedDelimitedSlot (opening closing : Char) (supported : List Char → Bool) :
    Nat → List Char → Bool
  | 0, _ => false
  | rounds + 1, rest =>
    match splitOnce [opening] rest with
    | none => false
    | some (_, afterOpen) =>
      match splitOnce [closing] afterOpen with
      | none => true
      | some (slot, behind) =>
        !supported slot || hasUnsupportedDelimitedSlot opening closing supported rounds behind

/-- The loop of `replace_delimited`, for at most so many rounds. -/
def replaceDelimited (opening closing : Char) (replacement : List Char → List Char) :
    Nat → List Char → List Char
  | 0, rest => rest
  | rounds + 1, rest =>
    match splitOnce [opening] rest with
    | none => rest
    | some (before, afterOpen) =>
      before ++
        match splitOnce [closing] afterOpen with
        | none => opening :: replaceDelimited opening closing replacement rounds afterOpen
        | some (slot, behind) =>
          replacement slot ++ replaceDelimited opening closing replacement rounds behind

/-- The loop of `choose_parenthetical_alternatives`, for at most so many rounds. -/
def chooseParentheticalAlternatives : Nat → List Char → List Char
  | 0, current => current
  | rounds + 1, current =>
    match splitOnce [')'] current with
    | none => current
    | some (front, behind) =>
      match rsplitOnce ['('] front with
      | none => current
      | some (before, content) =>
        chooseParentheticalAlternatives rounds (before ++ (content.takeWhile (· ≠ '|') ++ behind))

/-- The loop of `remove_optional_segments` over the characters. -/
def removeOptionalSegments (depth : Nat) : List Char → List Char
  | [] => []
  | ch :: rest =>
    if ch = '[' then removeOptionalSegments (depth + 1) rest
    else if ch = ']' then removeOptionalSegments (depth - 1) rest
    else if depth = 0 then ch :: removeOptionalSegments depth rest
    else removeOptionalSegments depth rest

def chooseRemainingPipeAlternative (input : List Char) : List Char :=
  if '|' ∉ input then input
  else spaced ((wordsBy isWhitespace input).map fun word => word.takeWhile (· ≠ '|'))

def isQuote (c : Char) : Bool := c == '"' || c == '\''

/-- Single blanks, and no quotes around the text. -/
def cleanSentence (text : List Char) : List Char :=
  ((spaced (wordsBy isWhitespace text)).dropWhile isQuote).rdropWhile isQuote

def hasUnsupportedSlots (template : List Char) : Bool :=
  [Reference.slot, .rule].any fun kind =>
    hasUnsupportedDelimitedSlot kind.opening kind.closing kind.supported (template.length + 1)
      template

def replaceReferences (domain : Option String) (kind : Reference) (template : List Char) :
    List Char :=
  replaceDelimited kind.opening kind.closing (kind.sample domain) (template.length + 1) template

def renderSentenceTemplate (template : String) (domain : Option String) : Option String :=
  if hasUnsupportedSlots template.toList then none
  else
    let rendered := replaceReferences domain .rule (replaceReferences domain .slot template.toList)
    let rendered := chooseParentheticalAlternatives (rendered.length + 1) rendered
    let rendered := cleanSentence (chooseRemainingPipeAlternative
      (removeOptionalSegments 0 rendered))
    if rendered = [] ∨ ['<', '>', '{', '}'].any rendered.contains then none
    else some (String.ofList rendered)

example : renderSentenceTemplate "<turn> on [<the>] {name} [<in_area_floor>]" (some "light") =
    some "turn on kitchen light" := by decide +kernel

/-! ## Templates -/

/-- The parts of a template in a row, or the further alternatives of a group or an optional part. -/
inductive Layer where
  | sequence
  | others

inductive Template : Layer → Type where
  | nothing : Template .sequence
  | text (words : List Char) (rest : Template .sequence) : Template .sequence
  | ref (kind : Reference) (name : List Char) (rest : Template .sequence) : Template .sequence
  | group (first : Template .sequence) (more : Template .others) (rest : Template .sequence) :
    Template .sequence
  | optional (first : Template .sequence) (more : Template .others) (rest : Template .sequence) :
    Template .sequence
  | noMore : Template .others
  | or (alternative : Template .sequence) (more : Template .others) : Template .others

/-- No character of the text has a meaning in a template. -/
def Literal (text : List Char) : Prop :=
  ∀ c ∈ text, c ∉ ['(', ')', '[', ']', '{', '}', '<', '>', '|']

namespace Template

def WellFormed {l : Layer} : Template l → Prop
  | nothing => True
  | text words rest => Literal words ∧ rest.WellFormed
  | ref _ name rest => Literal name ∧ rest.WellFormed
  | group first more rest => first.WellFormed ∧ more.WellFormed ∧ rest.WellFormed
  | optional first more rest => first.WellFormed ∧ more.WellFormed ∧ rest.WellFormed
  | noMore => True
  | or alternative more => alternative.WellFormed ∧ more.WellFormed

/-- The text of a template, with its references written by `f`. -/
def writeWith (f : Reference → List Char → List Char) {l : Layer} : Template l → List Char
  | nothing => []
  | text words rest => words ++ rest.writeWith f
  | ref kind name rest => f kind name ++ rest.writeWith f
  | group first more rest =>
    '(' :: (first.writeWith f ++ (more.writeWith f ++ ')' :: rest.writeWith f))
  | optional first more rest =>
    '[' :: (first.writeWith f ++ (more.writeWith f ++ ']' :: rest.writeWith f))
  | noMore => []
  | or alternative more => '|' :: (alternative.writeWith f ++ more.writeWith f)

def bracketed (kind : Reference) (name : List Char) : List Char :=
  kind.opening :: (name ++ [kind.closing])

def write (t : Template .sequence) : String := String.ofList (t.writeWith bracketed)

variable (domain : Option String)

/-- The language of a template, and the texts of some alternatives. -/
def Says {l : Layer} : Template l → List Char → Prop
  | nothing, s => s = []
  | text words rest, s => ∃ u, rest.Says u ∧ s = words ++ u
  | ref kind name rest, s => ∃ u, rest.Says u ∧ s = kind.sample domain name ++ u
  | group first more rest, s => ∃ a u, (first.Says a ∨ more.Says a) ∧ rest.Says u ∧ s = a ++ u
  | optional first more rest, s =>
    ∃ a u, (a = [] ∨ first.Says a ∨ more.Says a) ∧ rest.Says u ∧ s = a ++ u
  | noMore, _ => False
  | or alternative more, s => alternative.Says s ∨ more.Says s

/-- Once the groups are chosen, there is a bar left. -/
def barred {l : Layer} : Template l → Bool
  | nothing => false
  | text _ rest => rest.barred
  | ref _ _ rest => rest.barred
  | group _ _ rest => rest.barred
  | optional first more rest => first.barred || more.barred || rest.barred
  | noMore => false
  | or _ _ => true

/-- All brackets are closed that the groups leave, also where the text is cut at its first bar. -/
def closed (cut : Bool) {l : Layer} : Template l → Bool
  | nothing => true
  | text _ rest => rest.closed cut
  | ref _ _ rest => rest.closed cut
  | group first _ rest => first.closed true && rest.closed cut
  | optional first more rest =>
    !(cut && (first.barred || more.barred)) && first.closed false && more.closed false &&
      rest.closed cut
  | noMore => true
  | or alternative more => cut || (alternative.closed false && more.closed false)

/-- What the groups leave of a template. -/
def reduced {l : Layer} : Template l → List Char
  | nothing => []
  | text words rest => words ++ rest.reduced
  | ref kind name rest => kind.sample domain name ++ rest.reduced
  | group first _ rest => first.reduced.takeWhile (· ≠ '|') ++ rest.reduced
  | optional first more rest => '[' :: (first.reduced ++ (more.reduced ++ ']' :: rest.reduced))
  | noMore => []
  | or alternative more => '|' :: (alternative.reduced ++ more.reduced)

/-- The sentence with the first alternative of each group and without the optional parts. -/
def visible {l : Layer} : Template l → List Char
  | nothing => []
  | text words rest => words ++ rest.visible
  | ref kind name rest => kind.sample domain name ++ rest.visible
  | group first _ rest => first.visible ++ rest.visible
  | optional _ _ rest => rest.visible
  | noMore => []
  | or _ _ => []

/-- What of that sentence is behind the first bracket left open. -/
def lost (cut : Bool) {l : Layer} : Template l → List Char
  | nothing => []
  | text _ rest => rest.lost cut
  | ref _ _ rest => rest.lost cut
  | group first _ rest =>
    if first.closed true then rest.lost cut else first.lost true ++ rest.visible domain
  | optional first more rest =>
    if (optional first more nothing).closed cut then rest.lost cut else rest.visible domain
  | noMore => []
  | or _ _ => []

/-- The rendered sentence is one of the template, white space apart. -/
def Right (t : Template .sequence) : Prop :=
  ∀ sentence, renderSentenceTemplate t.write domain = some sentence →
    ∃ s, t.Says domain s ∧ wordsBy isWhitespace sentence.toList = wordsBy isWhitespace s

/-- No word of the visible sentence is lost, and it has no quotation mark at an end. -/
def Intact (t : Template .sequence) : Prop :=
  wordsBy isWhitespace (t.lost domain false) = [] ∧
    ∀ c, c ∈ (spaced (wordsBy isWhitespace (t.visible domain))).head? ∨
      c ∈ (spaced (wordsBy isWhitespace (t.visible domain))).getLast? → isQuote c = false

end Template

/-! ## Splitting at a character -/

theorem splitOnce_head (d : Char) (rest : List Char) :
    splitOnce [d] (d :: rest) = some ([], rest) := by
  simp [splitOnce]

variable {pre : List Char}

theorem splitOnce_skip {d : Char} (h : d ∉ pre) (rest : List Char) :
    splitOnce [d] (pre ++ rest) =
      (splitOnce [d] rest).map fun parts => (pre ++ parts.1, parts.2) := by
  induction pre with
  | nil => simp
  | cons c pre ih =>
    obtain ⟨hne, hpre⟩ := not_or.mp (List.mem_cons.not.mp h)
    simp [splitOnce, hne, ih hpre, Function.comp_def]

theorem splitOnce_at {d : Char} (h : d ∉ pre) (rest : List Char) :
    splitOnce [d] (pre ++ d :: rest) = some (pre, rest) := by
  rw [splitOnce_skip h, splitOnce_head, Option.map_some, List.append_nil]

theorem splitOnce_absent {d : Char} (h : d ∉ pre) : splitOnce [d] pre = none := by
  have hskip := splitOnce_skip h []
  rwa [List.append_nil, splitOnce] at hskip

theorem rsplitOnce_at {d : Char} (pre : List Char) {rest : List Char} (h : d ∉ rest) :
    rsplitOnce [d] (pre ++ d :: rest) = some (pre, rest) := by
  have hreverse : (pre ++ d :: rest).reverse = rest.reverse ++ d :: pre.reverse := by simp
  rw [rsplitOnce, List.reverse_singleton, hreverse, splitOnce_at (by simpa using h)]
  simp

/-! ## References -/

section

variable (domain : Option String) (kind : Reference)

/-- The pass over the references of a kind turns the first text into the second one. -/
def Rewrites (a b : List Char) : Prop :=
  ∃ n ≤ a.length, ∀ rounds rest,
    replaceDelimited kind.opening kind.closing (kind.sample domain) (n + rounds) (a ++ rest) =
      b ++ replaceDelimited kind.opening kind.closing (kind.sample domain) rounds rest

variable {domain kind} {a b c d : List Char}

theorem Rewrites.append (hab : Rewrites domain kind a b) (hcd : Rewrites domain kind c d) :
    Rewrites domain kind (a ++ c) (b ++ d) := by
  obtain ⟨n, hn, hab⟩ := hab
  obtain ⟨m, hm, hcd⟩ := hcd
  refine ⟨n + m, ?_, fun rounds rest => ?_⟩
  · rw [List.length_append]
    omega
  · rw [List.append_assoc, Nat.add_assoc, hab, hcd, List.append_assoc]

theorem Rewrites.plain (h : kind.opening ∉ a) : Rewrites domain kind a a := by
  refine ⟨0, Nat.zero_le _, fun rounds rest => ?_⟩
  rw [Nat.zero_add]
  cases rounds with
  | zero => rfl
  | succ rounds =>
    rw [replaceDelimited, splitOnce_skip h, replaceDelimited]
    cases splitOnce [kind.opening] rest with
    | none => rfl
    | some parts => exact List.append_assoc _ _ _

theorem Rewrites.reference (h : kind.closing ∉ a) :
    Rewrites domain kind (Template.bracketed kind a) (kind.sample domain a) := by
  refine ⟨1, by simp [Template.bracketed], fun rounds rest => ?_⟩
  have htext : Template.bracketed kind a ++ rest =
      kind.opening :: (a ++ kind.closing :: rest) := by simp [Template.bracketed]
  rw [htext, Nat.add_comm, replaceDelimited, splitOnce_head]
  dsimp only
  rw [splitOnce_at h]
  rfl

theorem Rewrites.replaceReferences (h : Rewrites domain kind a b) :
    replaceReferences domain kind a = b := by
  obtain ⟨n, hn, h⟩ := h
  have hrounds := h (a.length + 1 - n) []
  have hnil : ∀ rounds, replaceDelimited kind.opening kind.closing (kind.sample domain) rounds [] =
      [] := by
    intro rounds
    cases rounds with
    | zero => rfl
    | succ rounds => rw [replaceDelimited, splitOnce_absent List.not_mem_nil]
  rwa [hnil, List.append_nil, List.append_nil, Nat.add_sub_cancel' (by omega)] at hrounds

end

/-! ## Groups -/

/-- In a text without closed groups in front, the groups of the first text leave the second. -/
def Chooses (a b : List Char) : Prop :=
  '(' ∉ b ∧ ')' ∉ b ∧ ∃ n ≤ a.length, ∀ rounds pre post, ')' ∉ pre →
    chooseParentheticalAlternatives (n + rounds) (pre ++ (a ++ post)) =
      chooseParentheticalAlternatives rounds (pre ++ (b ++ post))

section

variable {a b c d : List Char}

theorem Chooses.append (hab : Chooses a b) (hcd : Chooses c d) : Chooses (a ++ c) (b ++ d) := by
  obtain ⟨hopen, hclose, n, hn, hab⟩ := hab
  obtain ⟨hopen', hclose', m, hm, hcd⟩ := hcd
  refine ⟨by simp [hopen, hopen'], by simp [hclose, hclose'], n + m, ?_,
    fun rounds pre post hpre => ?_⟩
  · rw [List.length_append]
    omega
  · have hpre' : ')' ∉ pre ++ b := by simp [hpre, hclose]
    rw [List.append_assoc, Nat.add_assoc, hab _ _ _ hpre, ← List.append_assoc pre,
      hcd _ _ _ hpre', List.append_assoc, List.append_assoc]

theorem Chooses.plain (hopen : '(' ∉ a) (hclose : ')' ∉ a) : Chooses a a :=
  ⟨hopen, hclose, 0, Nat.zero_le _, fun rounds pre post _ => by rw [Nat.zero_add]⟩

theorem Chooses.group (h : Chooses a b) :
    Chooses ('(' :: (a ++ [')'])) (b.takeWhile (· ≠ '|')) := by
  obtain ⟨hopen, hclose, n, hn, h⟩ := h
  have hkept : ∀ {e}, e ∉ b → e ∉ b.takeWhile (· ≠ '|') :=
    fun he hmem => he (List.takeWhile_subset _ hmem)
  refine ⟨hkept hopen, hkept hclose, n + 1, by simp; omega, fun rounds pre post hpre => ?_⟩
  have hfront : ')' ∉ pre ++ ['('] := by simp [hpre]
  have hall : ')' ∉ pre ++ '(' :: b := by simp [hpre, hclose]
  have hstart : pre ++ ('(' :: (a ++ [')']) ++ post) = pre ++ ['('] ++ (a ++ ')' :: post) := by
    simp
  have hend : pre ++ ['('] ++ (b ++ ')' :: post) = (pre ++ '(' :: b) ++ ')' :: post := by simp
  rw [hstart, Nat.add_assoc, h _ _ _ hfront, hend, Nat.add_comm 1, chooseParentheticalAlternatives,
    splitOnce_at hall]
  dsimp only
  rw [rsplitOnce_at pre hopen]

theorem Chooses.all (h : Chooses a b) : chooseParentheticalAlternatives (a.length + 1) a = b := by
  obtain ⟨-, hclose, n, hn, h⟩ := h
  have hrounds := h (a.length + 1 - n) [] [] List.not_mem_nil
  rw [List.nil_append, List.append_nil, List.nil_append, List.append_nil,
    Nat.add_sub_cancel' (by omega)] at hrounds
  rw [hrounds]
  cases a.length + 1 - n with
  | zero => rfl
  | succ rounds => rw [chooseParentheticalAlternatives, splitOnce_absent hclose]

end

/-! ## Optional parts -/

/-- Inside of a bracket the text leaves `k` more of them open. -/
def Deepens (a : List Char) (k : ℕ) : Prop :=
  ∀ depth rest, removeOptionalSegments (depth + 1) (a ++ rest) =
    removeOptionalSegments (depth + 1 + k) rest

/-- Outside of brackets the text leaves `k` of them open, and `v` of it is kept. -/
def Keeps (a v : List Char) (k : ℕ) : Prop :=
  ∀ rest, removeOptionalSegments 0 (a ++ rest) = v ++ removeOptionalSegments k rest

section

variable {a b v w : List Char} {k m : ℕ}

theorem Deepens.append (ha : Deepens a k) (hb : Deepens b m) : Deepens (a ++ b) (k + m) := by
  intro depth rest
  have hdepth : depth + 1 + k = depth + k + 1 := by omega
  rw [List.append_assoc, ha, hdepth, hb]
  congr 1
  omega

theorem Deepens.plain (hopen : '[' ∉ a) (hclose : ']' ∉ a) : Deepens a 0 := by
  intro depth rest
  induction a with
  | nil => rfl
  | cons c a ih =>
    obtain ⟨hne, hopen⟩ := not_or.mp (List.mem_cons.not.mp hopen)
    obtain ⟨hne', hclose⟩ := not_or.mp (List.mem_cons.not.mp hclose)
    rw [List.cons_append, removeOptionalSegments, if_neg (Ne.symm hne), if_neg (Ne.symm hne'),
      if_neg (Nat.succ_ne_zero _), ih hopen hclose]

theorem Deepens.opened (ha : Deepens a k) : Deepens ('[' :: a) (k + 1) := by
  intro depth rest
  rw [List.cons_append, removeOptionalSegments, if_pos rfl, ha]
  congr 1
  omega

theorem Deepens.bracket (ha : Deepens a k) : Deepens ('[' :: (a ++ [']'])) k := by
  intro depth rest
  have htext : '[' :: (a ++ [']']) ++ rest = '[' :: a ++ ']' :: rest := by simp
  have hdepth : depth + 1 + (k + 1) = depth + 1 + k + 1 := by omega
  rw [htext, ha.opened, hdepth, removeOptionalSegments, if_neg (by decide), if_pos rfl,
    Nat.add_sub_cancel]

theorem Keeps.append (ha : Keeps a v 0) (hb : Keeps b w k) : Keeps (a ++ b) (v ++ w) k := by
  intro rest
  rw [List.append_assoc, ha, hb, List.append_assoc]

theorem Keeps.append_deep (ha : Keeps a v (k + 1)) (hb : Deepens b m) :
    Keeps (a ++ b) v (k + 1 + m) := by
  intro rest
  rw [List.append_assoc, ha, hb]

theorem Keeps.plain (hopen : '[' ∉ a) (hclose : ']' ∉ a) : Keeps a a 0 := by
  intro rest
  induction a with
  | nil => rfl
  | cons c a ih =>
    obtain ⟨hne, hopen⟩ := not_or.mp (List.mem_cons.not.mp hopen)
    obtain ⟨hne', hclose⟩ := not_or.mp (List.mem_cons.not.mp hclose)
    rw [List.cons_append, removeOptionalSegments, if_neg (Ne.symm hne), if_neg (Ne.symm hne'),
      if_pos rfl, ih hopen hclose]
    rfl

theorem Keeps.opened (ha : Deepens a k) : Keeps ('[' :: a) [] (k + 1) := by
  intro rest
  rw [List.cons_append, removeOptionalSegments, if_pos rfl, ha, Nat.add_comm (0 + 1),
    List.nil_append]

theorem Keeps.bracket (ha : Deepens a k) : Keeps ('[' :: (a ++ [']'])) [] k := by
  intro rest
  have htext : '[' :: (a ++ [']']) ++ rest = '[' :: a ++ ']' :: rest := by simp
  rw [htext, Keeps.opened ha, removeOptionalSegments, if_neg (by decide), if_pos rfl,
    Nat.add_sub_cancel]

end

/-! ## The passes over a template -/

theorem Literal.notMem {text : List Char} (h : Literal text) {c : Char}
    (hc : c ∈ ['(', ')', '[', ']', '{', '}', '<', '>', '|']) : c ∉ text :=
  fun hmem => h c hmem hc

def isLiteral (text : String) : Bool :=
  text.toList.all fun c => !(['(', ')', '[', ']', '{', '}', '<', '>', '|'].contains c)

theorem literal_of_isLiteral {text : String} (h : isLiteral text = true) : Literal text.toList := by
  intro c hc
  simpa using List.all_eq_true.mp h c hc

theorem literal_lookup {table : List (String × String)} {key default : String}
    (htable : (table.all fun entry => isLiteral entry.2) = true)
    (hdefault : isLiteral default = true) : isLiteral ((table.lookup key).getD default) = true := by
  induction table with
  | nil => exact hdefault
  | cons entry table ih =>
    rw [List.all_cons, Bool.and_eq_true] at htable
    rw [List.lookup_cons]
    split
    · exact htable.1
    · exact ih htable.2

theorem isLiteral_sampleName (domain : Option String) :
    isLiteral (sampleNameForDomain domain) = true := by
  cases domain with
  | none => decide +kernel
  | some name => exact literal_lookup (by decide +kernel) (by decide +kernel)

theorem all_isLiteral {table : List (String × String)} {sample : String}
    (htable : (table.all fun entry => isLiteral entry.2) = true)
    (hsample : isLiteral sample = true) :
    ((table.map fun entry => if entry.1 = "name" then (entry.1, sample) else entry).all
      fun entry => isLiteral entry.2) = true := by
  rw [List.all_map]
  refine List.all_eq_true.mpr fun entry hmem => ?_
  rw [Function.comp_apply]
  split
  · exact hsample
  · exact List.all_eq_true.mp htable entry hmem

theorem literal_sample (domain : Option String) (kind : Reference) (name : List Char) :
    Literal (kind.sample domain name) := by
  have hname := isLiteral_sampleName domain
  cases kind with
  | slot =>
    have htable : slotSamples domain = (slotSamples none).map fun entry =>
        if entry.1 = "name" then (entry.1, sampleNameForDomain domain) else entry := by
      simp [slotSamples]
    refine literal_of_isLiteral (literal_lookup ?_ (by decide +kernel))
    rw [htable]
    exact all_isLiteral (by decide +kernel) hname
  | rule =>
    have htable : ruleSamples domain = (ruleSamples none).map fun entry =>
        if entry.1 = "name" then (entry.1, sampleNameForDomain domain) else entry := by
      simp [ruleSamples]
    refine literal_of_isLiteral (literal_lookup ?_ (by decide +kernel))
    rw [htable]
    exact all_isLiteral (by decide +kernel) hname

namespace Template

variable {domain : Option String} {l : Layer}

variable {t : Template l}

theorem rewrites_write {kind : Reference} {f g : Reference → List Char → List Char}
    (href : ∀ other name, Literal name → Rewrites domain kind (f other name) (g other name))
    (h : t.WellFormed) : Rewrites domain kind (t.writeWith f) (t.writeWith g) := by
  have hmark : ∀ mark ∈ ['(', ')', '[', ']', '|'], Rewrites domain kind [mark] [mark] := by
    refine fun mark hmem => .plain ?_
    revert mark
    cases kind with
    | slot => exact forall_mem_of_all (by decide)
    | rule => exact forall_mem_of_all (by decide)
  induction t with
  | nothing => exact .plain List.not_mem_nil
  | text words rest ih =>
    have hwords : kind.opening ∉ words := h.1.notMem (by cases kind <;> decide)
    exact (Rewrites.plain hwords).append (ih h.2)
  | ref other name rest ih => exact (href other name h.1).append (ih h.2)
  | group first more rest ihf ihm ih =>
    exact (hmark '(' (by decide)).append ((ihf h.1).append ((ihm h.2.1).append
      ((hmark ')' (by decide)).append (ih h.2.2))))
  | optional first more rest ihf ihm ih =>
    exact (hmark '[' (by decide)).append ((ihf h.1).append ((ihm h.2.1).append
      ((hmark ']' (by decide)).append (ih h.2.2))))
  | noMore => exact .plain List.not_mem_nil
  | or alternative more iha ihm =>
    exact (hmark '|' (by decide)).append ((iha h.1).append (ihm h.2))

theorem replaceReferences_write {t : Template .sequence} (h : t.WellFormed) :
    replaceReferences domain .rule (replaceReferences domain .slot (t.writeWith bracketed)) =
      t.writeWith fun kind name => kind.sample domain name := by
  have hslots : Rewrites domain .slot (t.writeWith bracketed) (t.writeWith fun kind name =>
      if kind = .slot then kind.sample domain name else bracketed kind name) := by
    refine rewrites_write (fun kind name hname => ?_) h
    cases kind with
    | slot => exact .reference (hname.notMem (by decide))
    | rule =>
      have hopening : '{' ∉ name := hname.notMem (by decide)
      exact .plain (by simpa [bracketed, Reference.opening, Reference.closing] using hopening)
  have hrules : Rewrites domain .rule (t.writeWith fun kind name =>
      if kind = .slot then kind.sample domain name else bracketed kind name)
      (t.writeWith fun kind name => kind.sample domain name) := by
    refine rewrites_write (fun kind name hname => ?_) h
    cases kind with
    | slot => exact .plain ((literal_sample domain .slot name).notMem (by decide))
    | rule => exact .reference (hname.notMem (by decide))
  rw [hslots.replaceReferences, hrules.replaceReferences]

theorem takeWhile_reduced (first : List Char) (more : Template .others) :
    (first ++ more.reduced domain).takeWhile (· ≠ '|') = first.takeWhile (· ≠ '|') := by
  cases more with
  | noMore => rw [reduced, List.append_nil]
  | or alternative more =>
    rw [reduced, List.takeWhile_append]
    split
    · rename_i hall
      rw [List.takeWhile_cons_of_neg (by simp), List.append_nil]
      exact ((List.takeWhile_prefix _).eq_of_length hall).symm
    · rfl

theorem chooses_write (h : t.WellFormed) :
    Chooses (t.writeWith fun kind name => kind.sample domain name) (t.reduced domain) := by
  have hmark : ∀ mark ∈ ['[', ']', '|'], Chooses [mark] [mark] := by
    refine fun mark hmem => .plain ?_ ?_
    · exact (forall_mem_of_all (p := fun mark => '(' ∉ [mark]) (by decide)) mark hmem
    · exact (forall_mem_of_all (p := fun mark => ')' ∉ [mark]) (by decide)) mark hmem
  have hplain : ∀ {text}, Literal text → Chooses text text := fun htext =>
    .plain (htext.notMem (by decide)) (htext.notMem (by decide))
  induction t with
  | nothing => exact .plain List.not_mem_nil List.not_mem_nil
  | text words rest ih => exact (hplain h.1).append (ih h.2)
  | ref kind name rest ih => exact (hplain (literal_sample domain kind name)).append (ih h.2)
  | group first more rest ihf ihm ih =>
    have hgroup := ((ihf h.1).append (ihm h.2.1)).group.append (ih h.2.2)
    rw [takeWhile_reduced] at hgroup
    simpa [writeWith, reduced] using hgroup
  | optional first more rest ihf ihm ih =>
    exact (hmark '[' (by decide)).append ((ihf h.1).append ((ihm h.2.1).append
      ((hmark ']' (by decide)).append (ih h.2.2))))
  | noMore => exact .plain List.not_mem_nil List.not_mem_nil
  | or alternative more iha ihm =>
    exact (hmark '|' (by decide)).append ((iha h.1).append (ihm h.2))

theorem bar_mem_reduced (h : t.WellFormed) : '|' ∈ t.reduced domain ↔ t.barred = true := by
  induction t with
  | nothing => simp [reduced, barred]
  | text words rest ih => simp [reduced, barred, h.1.notMem, ih h.2]
  | ref kind name rest ih =>
    simp [reduced, barred, (literal_sample domain kind name).notMem, ih h.2]
  | group first more rest ihf ihm ih =>
    have hcut : '|' ∉ (first.reduced domain).takeWhile (· ≠ '|') := fun hmem => by
      simpa using List.mem_takeWhile_imp hmem
    simp only [reduced, barred, List.mem_append, ih h.2.2]
    exact or_iff_right hcut
  | optional first more rest ihf ihm ih =>
    simp [reduced, barred, ihf h.1, ihm h.2.1, ih h.2.2, or_assoc]
  | noMore => simp [reduced, barred]
  | or alternative more iha ihm => simp [reduced, barred]

variable (domain) in
/-- What the groups leave of a template, cut at its first bar or not. -/
def chosen (cut : Bool) (t : Template l) : List Char :=
  if cut then (t.reduced domain).takeWhile (· ≠ '|') else t.reduced domain

theorem bar_notMem_chosen (t : Template l) : '|' ∉ t.chosen domain true := fun hmem => by
  simpa using List.mem_takeWhile_imp hmem

theorem takeWhile_literal {text : List Char} (h : '|' ∉ text) (rest : List Char) :
    (text ++ rest).takeWhile (· ≠ '|') = text ++ rest.takeWhile (· ≠ '|') :=
  List.takeWhile_append_of_pos fun _ hc => decide_eq_true (ne_of_mem_of_not_mem hc h)

theorem chosen_text (cut : Bool) {words : List Char} (h : '|' ∉ words)
    (rest : Template .sequence) :
    (text words rest).chosen domain cut = words ++ rest.chosen domain cut := by
  cases cut with
  | true => exact takeWhile_literal h _
  | false => rfl

theorem chosen_ref (cut : Bool) (kind : Reference) (name : List Char)
    (rest : Template .sequence) :
    (ref kind name rest).chosen domain cut =
      kind.sample domain name ++ rest.chosen domain cut := by
  cases cut with
  | true => exact takeWhile_literal ((literal_sample domain kind name).notMem (by decide)) _
  | false => rfl

theorem chosen_group (cut : Bool) (first : Template .sequence) (more : Template .others)
    (rest : Template .sequence) : (group first more rest).chosen domain cut =
      first.chosen domain true ++ rest.chosen domain cut := by
  cases cut with
  | true => exact takeWhile_literal (bar_notMem_chosen first) _
  | false => rfl

/-- The cut is inside of an optional part with a bar, and its bracket stays open. -/
theorem chosen_optional_open {first : Template .sequence} {more : Template .others}
    (hf : first.WellFormed) (hm : more.WellFormed) (hbar : (first.barred || more.barred) = true)
    (rest : Template .sequence) : (optional first more rest).chosen domain true =
      '[' :: first.chosen domain true := by
  have hmem : '|' ∈ first.reduced domain ++ more.reduced domain := by
    rw [List.mem_append, bar_mem_reduced hf, bar_mem_reduced hm]
    exact (Bool.or_eq_true _ _).mp hbar
  have hshort : ((first.reduced domain ++ more.reduced domain).takeWhile (· ≠ '|')).length ≠
      (first.reduced domain ++ more.reduced domain).length := fun hall => by
    rw [(List.takeWhile_prefix _).eq_of_length hall |>.symm] at hmem
    simpa using List.mem_takeWhile_imp hmem
  have hinside : ('[' :: (first.reduced domain ++ (more.reduced domain ++
      ']' :: rest.reduced domain))).takeWhile (· ≠ '|') =
      '[' :: (first.reduced domain ++ more.reduced domain).takeWhile (· ≠ '|') := by
    rw [List.takeWhile_cons_of_pos (by decide), ← List.append_assoc, List.takeWhile_append,
      if_neg hshort]
  exact hinside.trans (congrArg _ (takeWhile_reduced _ more))

theorem chosen_optional {first : Template .sequence} {more : Template .others} {cut : Bool}
    (hf : first.WellFormed) (hm : more.WellFormed)
    (hbar : (cut && (first.barred || more.barred)) = false) (rest : Template .sequence) :
    (optional first more rest).chosen domain cut =
      '[' :: (first.reduced domain ++ more.reduced domain ++ [']']) ++ rest.chosen domain cut := by
  cases cut with
  | true =>
    have hfree : '|' ∉ '[' :: (first.reduced domain ++ more.reduced domain ++ [']']) := by
      rw [Bool.true_and, Bool.or_eq_false_iff] at hbar
      simp [bar_mem_reduced hf, bar_mem_reduced hm, hbar]
    have hsplit := takeWhile_literal hfree (rest.reduced domain)
    simpa [chosen, reduced] using hsplit
  | false => simp [chosen, reduced]

variable (domain) in
theorem deepens_chosen (h : t.WellFormed) (cut : Bool) :
    ∃ k, Deepens (t.chosen domain cut) k ∧ (k = 0 ↔ t.closed cut = true) := by
  have hplain : ∀ {text}, Literal text → Deepens text 0 := fun htext =>
    .plain (htext.notMem (by decide)) (htext.notMem (by decide))
  have hnil : Deepens [] 0 := .plain List.not_mem_nil List.not_mem_nil
  induction t generalizing cut with
  | nothing => exact ⟨0, by cases cut <;> exact hnil, by simp [closed]⟩
  | text words rest ih =>
    obtain ⟨k, hk, hclosed⟩ := ih h.2 cut
    refine ⟨0 + k, ?_, by rw [Nat.zero_add]; exact hclosed⟩
    rw [chosen_text cut (h.1.notMem (by decide))]
    exact (hplain h.1).append hk
  | ref kind name rest ih =>
    obtain ⟨k, hk, hclosed⟩ := ih h.2 cut
    refine ⟨0 + k, ?_, by rw [Nat.zero_add]; exact hclosed⟩
    rw [chosen_ref]
    exact (hplain (literal_sample domain kind name)).append hk
  | group first more rest ihf ihm ih =>
    obtain ⟨k, hk, hfirst⟩ := ihf h.1 true
    obtain ⟨m, hm, hrest⟩ := ih h.2.2 cut
    refine ⟨k + m, ?_, ?_⟩
    · rw [chosen_group]
      exact hk.append hm
    · rw [closed, Bool.and_eq_true, ← hfirst, ← hrest, Nat.add_eq_zero_iff]
  | optional first more rest ihf ihm ih =>
    cases hbar : cut && (first.barred || more.barred) with
    | true =>
      obtain ⟨rfl, hbar⟩ := (Bool.and_eq_true _ _).mp hbar
      obtain ⟨k, hk, -⟩ := ihf h.1 true
      refine ⟨k + 1, ?_, by simp [closed, hbar]⟩
      rw [chosen_optional_open h.1 h.2.1 hbar]
      exact hk.opened
    | false =>
      obtain ⟨k, hk, hfirst⟩ := ihf h.1 false
      obtain ⟨n, hn, hmore⟩ := ihm h.2.1 false
      obtain ⟨m, hm, hrest⟩ := ih h.2.2 cut
      refine ⟨k + n + m, ?_, ?_⟩
      · rw [chosen_optional h.1 h.2.1 hbar]
        exact (hk.append hn).bracket.append hm
      · simp only [closed, hbar, Bool.not_false, Bool.true_and, Bool.and_eq_true, ← hfirst,
          ← hmore, ← hrest]
        omega
  | noMore => exact ⟨0, by cases cut <;> exact hnil, by simp [closed]⟩
  | or alternative more iha ihm =>
    cases cut with
    | true => exact ⟨0, hnil, by simp [closed]⟩
    | false =>
      obtain ⟨k, hk, halternative⟩ := iha h.1 false
      obtain ⟨m, hm, hmore⟩ := ihm h.2 false
      refine ⟨0 + (k + m), ?_, ?_⟩
      · exact (Deepens.plain (a := ['|']) (by decide) (by decide)).append (hk.append hm)
      · simp only [closed, Bool.false_or, Bool.and_eq_true, ← halternative, ← hmore]
        omega

theorem lost_eq_nil : ∀ {t : Template .sequence} {cut : Bool}, t.closed cut = true →
    t.lost domain cut = []
  | nothing, _, _ => rfl
  | text _ rest, _, h => lost_eq_nil (t := rest) h
  | ref _ _ rest, _, h => lost_eq_nil (t := rest) h
  | group first _ rest, cut, h => by
    obtain ⟨hfirst, hrest⟩ := (Bool.and_eq_true _ _).mp h
    rw [lost, if_pos hfirst, lost_eq_nil hrest]
  | optional first more rest, cut, h => by
    obtain ⟨hinside, hrest⟩ := (Bool.and_eq_true _ _).mp h
    rw [lost, if_pos (by rw [closed, hinside]; rfl), lost_eq_nil hrest]

variable (domain) in
/-- Up to the first bracket left open the text is kept. -/
theorem keeps_chosen : ∀ {t : Template .sequence} (cut : Bool), t.WellFormed →
    ∃ v k, Keeps (t.chosen domain cut) v k ∧ (k = 0 ↔ t.closed cut = true) ∧
      v ++ t.lost domain cut = t.visible domain
  | nothing, cut, _ => by
    refine ⟨[], 0, ?_, by simp [closed], rfl⟩
    cases cut <;> exact .plain List.not_mem_nil List.not_mem_nil
  | text words rest, cut, h => by
    obtain ⟨v, k, hkeeps, hclosed, hv⟩ := keeps_chosen (t := rest) cut h.2
    refine ⟨words ++ v, k, ?_, hclosed, by rw [visible, lost, List.append_assoc, hv]⟩
    rw [chosen_text cut (h.1.notMem (by decide))]
    exact (Keeps.plain (h.1.notMem (by decide)) (h.1.notMem (by decide))).append hkeeps
  | ref kind name rest, cut, h => by
    obtain ⟨v, k, hkeeps, hclosed, hv⟩ := keeps_chosen (t := rest) cut h.2
    have hsample := literal_sample domain kind name
    refine ⟨kind.sample domain name ++ v, k, ?_, hclosed,
      by rw [visible, lost, List.append_assoc, hv]⟩
    rw [chosen_ref]
    exact (Keeps.plain (hsample.notMem (by decide)) (hsample.notMem (by decide))).append hkeeps
  | group first more rest, cut, h => by
    obtain ⟨v, k, hkeeps, hclosed, hv⟩ := keeps_chosen (t := first) true h.1
    rw [chosen_group, visible, closed, lost]
    cases k with
    | zero =>
      obtain ⟨w, m, hrest, hclosed', hw⟩ := keeps_chosen (t := rest) cut h.2.2
      have hfirst : first.closed true = true := hclosed.mp rfl
      rw [lost_eq_nil hfirst, List.append_nil] at hv
      refine ⟨v ++ w, m, hkeeps.append hrest, by simpa [hfirst] using hclosed', ?_⟩
      rw [if_pos hfirst, List.append_assoc, hw, hv]
    | succ k =>
      obtain ⟨m, hrest, -⟩ := deepens_chosen domain h.2.2 cut
      have hfirst : ¬ first.closed true = true := fun hall => absurd (hclosed.mpr hall) (by simp)
      refine ⟨v, k + 1 + m, hkeeps.append_deep hrest, ?_, ?_⟩
      · rw [Bool.and_eq_true]
        exact ⟨fun hzero => absurd hzero (by omega), fun hall => absurd hall.1 hfirst⟩
      · rw [if_neg hfirst, ← List.append_assoc, hv]
  | optional first more rest, cut, h => by
    rw [visible, lost]
    cases hbar : cut && (first.barred || more.barred) with
    | true =>
      obtain ⟨rfl, hbar⟩ := (Bool.and_eq_true _ _).mp hbar
      obtain ⟨k, hk, -⟩ := deepens_chosen domain h.1 true
      refine ⟨[], k + 1, ?_, by simp [closed, hbar], by simp [closed, hbar]⟩
      rw [chosen_optional_open h.1 h.2.1 hbar]
      exact .opened hk
    | false =>
      obtain ⟨k, hk, hfirst⟩ := deepens_chosen domain h.1 false
      obtain ⟨n, hn, hmore⟩ := deepens_chosen domain h.2.1 false
      have hinside : Keeps _ [] (k + n) := .bracket (hk.append hn)
      have hclosed : (optional first more nothing).closed cut = true ↔ k + n = 0 := by
        simp only [closed, hbar, Bool.not_false, Bool.true_and, Bool.and_true, Bool.and_eq_true,
          ← hfirst, ← hmore]
        omega
      have hall : (optional first more rest).closed cut = true ↔
          k + n = 0 ∧ rest.closed cut = true := by
        rw [← hclosed]
        simp [closed]
      rw [chosen_optional h.1 h.2.1 hbar, hall]
      cases hdepth : k + n with
      | zero =>
        obtain ⟨w, m, hrest, hclosed', hw⟩ := keeps_chosen (t := rest) cut h.2.2
        rw [hdepth] at hinside
        refine ⟨[] ++ w, m, hinside.append hrest, by simpa using hclosed', ?_⟩
        rw [if_pos (hclosed.mpr hdepth), List.nil_append, hw]
      | succ d =>
        obtain ⟨m, hrest, -⟩ := deepens_chosen domain h.2.2 cut
        rw [hdepth] at hinside
        refine ⟨[], d + 1 + m, hinside.append_deep hrest, by simp, ?_⟩
        rw [if_neg fun hall => absurd (hclosed.mp hall) (by omega), List.nil_append]

/-! ## The rendered sentence -/

theorem says_visible : ∀ t : Template .sequence, t.Says domain (t.visible domain)
  | nothing => rfl
  | text _ rest => ⟨_, says_visible rest, rfl⟩
  | ref _ _ rest => ⟨_, says_visible rest, rfl⟩
  | group first _ rest => ⟨_, _, .inl (says_visible first), says_visible rest, rfl⟩
  | optional _ _ rest => ⟨[], _, .inl rfl, says_visible rest, rfl⟩

theorem bar_notMem_visible : ∀ {t : Template .sequence}, t.WellFormed → '|' ∉ t.visible domain
  | nothing, _ => List.not_mem_nil
  | text _ _, h => by
    rw [visible, List.mem_append, not_or]
    exact ⟨h.1.notMem (by decide), bar_notMem_visible h.2⟩
  | ref kind name _, h => by
    rw [visible, List.mem_append, not_or]
    exact ⟨(literal_sample domain kind name).notMem (by decide), bar_notMem_visible h.2⟩
  | group _ _ _, h => by
    rw [visible, List.mem_append, not_or]
    exact ⟨bar_notMem_visible h.1, bar_notMem_visible h.2.2⟩
  | optional _ _ _, h => by
    rw [visible]
    exact bar_notMem_visible h.2.2

theorem cleanSentence_unquoted {text : List Char}
    (h : ∀ c, c ∈ (spaced (wordsBy isWhitespace text)).head? ∨
      c ∈ (spaced (wordsBy isWhitespace text)).getLast? → isQuote c = false) :
    cleanSentence text = spaced (wordsBy isWhitespace text) := by
  have hhead : (spaced (wordsBy isWhitespace text)).dropWhile isQuote =
      spaced (wordsBy isWhitespace text) :=
    dropWhile_eq_self_of_head fun c hc => h c (.inl hc)
  rw [cleanSentence, hhead, List.rdropWhile_eq_self_iff]
  intro hne
  rw [h _ (.inr (List.getLast?_eq_some_getLast hne ▸ rfl))]
  exact Bool.false_ne_true

theorem not_isWhitespace_of_isQuote {c : Char} (h : isQuote c = true) : isWhitespace c = false := by
  simp only [isQuote, Bool.or_eq_true, beq_iff_eq] at h
  rcases h with rfl | rfl <;> decide

/-- A character trimmed off an end is missing in what is left. -/
theorem trimmed_sublist {q : Char → Bool} {text : List Char} {c : Char}
    (hc : c ∈ text.head? ∨ c ∈ text.getLast?) (hq : q c = true) :
    ∃ front back, text = front ++ c :: back ∧
      ((text.dropWhile q).rdropWhile q).Sublist (front ++ back) := by
  have htrim : ∀ xs : List Char, (xs.rdropWhile q).Sublist xs := fun xs =>
    (List.rdropWhile_prefix q xs).sublist
  rcases hc with hc | hc
  · obtain ⟨back, rfl⟩ := List.head?_eq_some_iff.mp hc
    refine ⟨[], back, rfl, ?_⟩
    rw [List.dropWhile_cons_of_pos hq]
    exact (htrim _).trans (List.dropWhile_suffix q).sublist
  · obtain ⟨front, rfl⟩ := List.getLast?_eq_some_iff.mp hc
    refine ⟨front, [], rfl, ?_⟩
    rw [List.append_nil, List.dropWhile_append]
    split
    · rw [List.dropWhile_cons_of_pos hq]
      exact List.nil_sublist _
    · rw [List.rdropWhile_concat_pos _ _ _ hq]
      exact (htrim _).trans (List.dropWhile_suffix q).sublist

theorem filter_spaced (text : List Char) :
    ((spaced (wordsBy isWhitespace text)).filter fun c => !isWhitespace c) =
      text.filter fun c => !isWhitespace c := by
  rw [← flatten_wordsBy, wordsBy_spaced (isWords_wordsBy _), flatten_wordsBy]

/-- The cleaned text has the words of a longer one only if nothing of that one is missing. -/
theorem words_cleanSentence {kept lost : List Char} :
    wordsBy isWhitespace (cleanSentence kept) = wordsBy isWhitespace (kept ++ lost) ↔
      wordsBy isWhitespace lost = [] ∧
        ∀ c, c ∈ (spaced (wordsBy isWhitespace (kept ++ lost))).head? ∨
          c ∈ (spaced (wordsBy isWhitespace (kept ++ lost))).getLast? → isQuote c = false := by
  have hblank : wordsBy isWhitespace lost = [] →
      wordsBy isWhitespace (kept ++ lost) = wordsBy isWhitespace kept := by
    intro hlost
    rw [wordsBy_append_of_head fun c hc => wordsBy_eq_nil_iff.mp hlost c (List.mem_of_head? hc),
      hlost, List.append_nil]
  constructor
  · intro hwords
    have hsolid := congrArg List.flatten hwords
    rw [flatten_wordsBy, flatten_wordsBy, List.filter_append] at hsolid
    have htrimmed : ∀ {rest : List Char}, (cleanSentence kept).Sublist rest →
        (kept.filter fun c => !isWhitespace c).length +
          (lost.filter fun c => !isWhitespace c).length ≤
            (rest.filter fun c => !isWhitespace c).length := by
      intro rest hrest
      have hle := (hrest.filter fun c => !isWhitespace c).length_le
      rwa [hsolid, List.length_append] at hle
    have hspaced : (cleanSentence kept).Sublist (spaced (wordsBy isWhitespace kept)) :=
      (List.rdropWhile_prefix isQuote _).sublist.trans (List.dropWhile_suffix isQuote).sublist
    have hlost : wordsBy isWhitespace lost = [] := by
      have hle := htrimmed hspaced
      rw [filter_spaced] at hle
      have hnil : (lost.filter fun c => !isWhitespace c) = [] :=
        List.length_eq_zero_iff.mp (by omega)
      refine wordsBy_eq_nil_iff.mpr fun c hc => ?_
      simpa using List.filter_eq_nil_iff.mp hnil c hc
    refine ⟨hlost, fun c hc => ?_⟩
    rw [hblank hlost] at hc
    by_contra hquote
    rw [Bool.not_eq_false] at hquote
    obtain ⟨front, back, htext, hshort⟩ := trimmed_sublist hc hquote
    have hle := htrimmed hshort
    have hkept := congrArg (fun text => (text.filter fun c => !isWhitespace c).length) htext
    have hsolidc : (!isWhitespace c) = true := by rw [not_isWhitespace_of_isQuote hquote]; rfl
    have hmore : ((c :: back).filter fun c => !isWhitespace c).length =
        (back.filter fun c => !isWhitespace c).length + 1 := by
      rw [List.filter_cons_of_pos (p := fun c => !isWhitespace c) hsolidc, List.length_cons]
    simp only [filter_spaced, List.filter_append, List.length_append, hmore] at hkept hle
    omega
  · rintro ⟨hlost, hquotes⟩
    rw [hblank hlost] at hquotes ⊢
    rw [cleanSentence_unquoted hquotes, wordsBy_spaced (isWords_wordsBy _)]

/-- The rendered sentence has the words kept, without the quotation marks at their ends. -/
theorem renderSentenceTemplate_write {t : Template .sequence} (h : t.WellFormed)
    {sentence : String} (hsentence : renderSentenceTemplate t.write domain = some sentence) :
    ∃ kept, kept ++ t.lost domain false = t.visible domain ∧
      sentence.toList = cleanSentence kept := by
  obtain ⟨kept, k, hkeeps, -, hkept⟩ := keeps_chosen domain false h
  have hshown : removeOptionalSegments 0 (t.reduced domain) = kept := by
    have hkeeps := hkeeps []
    rwa [List.append_nil, removeOptionalSegments, List.append_nil] at hkeeps
  have hbar : '|' ∉ kept := fun hmem =>
    bar_notMem_visible h (hkept ▸ List.mem_append_left _ hmem)
  have hclean : cleanSentence (chooseRemainingPipeAlternative kept) = cleanSentence kept := by
    rw [chooseRemainingPipeAlternative, if_pos hbar]
  unfold renderSentenceTemplate write at hsentence
  simp only [String.toList_ofList, replaceReferences_write h, (chooses_write h).all, hshown,
    hclean] at hsentence
  split at hsentence
  · cases hsentence
  split at hsentence
  · cases hsentence
  · exact ⟨kept, hkept, by rw [← Option.some.inj hsentence, String.toList_ofList]⟩

theorem intact_rendered_right (domain : Option String) (t : Template .sequence)
    (h : t.WellFormed) : (t.Intact domain → t.Right domain) ∧
      ∀ sentence, renderSentenceTemplate t.write domain = some sentence →
        (wordsBy isWhitespace sentence.toList = wordsBy isWhitespace (t.visible domain) ↔
          t.Intact domain) := by
  have hexact : ∀ sentence, renderSentenceTemplate t.write domain = some sentence →
      (wordsBy isWhitespace sentence.toList = wordsBy isWhitespace (t.visible domain) ↔
        t.Intact domain) := by
    intro sentence hsentence
    obtain ⟨kept, hkept, hclean⟩ := renderSentenceTemplate_write h hsentence
    rw [Intact, hclean, ← hkept]
    exact words_cleanSentence
  refine ⟨fun hintact sentence hsentence => ?_, hexact⟩
  exact ⟨t.visible domain, says_visible t, (hexact sentence hsentence).mpr hintact⟩

/-- `(turn|'switch') on [the|any] {name}`. -/
def turnOn : Template .sequence :=
  group (text "turn".toList nothing) (or (text "'switch'".toList nothing) noMore)
    (text " on ".toList (optional (text "the".toList nothing)
      (or (text "any".toList nothing) noMore) (text " ".toList
        (ref .slot "name".toList nothing))))

theorem turnOn_wellFormed : turnOn.WellFormed := by
  have hl : ∀ {text : String}, isLiteral text = true → Literal text.toList := literal_of_isLiteral
  exact ⟨⟨hl (by decide), trivial⟩, ⟨⟨hl (by decide), trivial⟩, trivial⟩, hl (by decide),
    ⟨hl (by decide), trivial⟩, ⟨⟨hl (by decide), trivial⟩, trivial⟩, hl (by decide), hl (by decide),
    trivial⟩

theorem intact_rendered_right_turnOn : turnOn.Right (some "fan") ∧
    renderSentenceTemplate turnOn.write (some "fan") = some "turn on bedroom fan" := by
  refine ⟨(intact_rendered_right (some "fan") turnOn turnOn_wellFormed).1 ⟨?_, ?_⟩, ?_⟩
  · decide +kernel
  · intro c hc
    have hhead : (spaced (wordsBy isWhitespace (turnOn.visible (some "fan")))).head? =
        some 't' := by decide +kernel
    have hlast : (spaced (wordsBy isWhitespace (turnOn.visible (some "fan")))).getLast? =
        some 'n' := by decide +kernel
    rw [hhead, hlast] at hc
    rcases hc with hc | hc <;> cases hc <;> decide
  · decide +kernel

/-- `(turn [on|off] it|go) lights`. -/
def turnLights : Template .sequence :=
  group
    (text "turn ".toList (optional (text "on".toList nothing)
      (or (text "off".toList nothing) noMore) (text " it".toList nothing)))
    (or (text "go".toList nothing) noMore) (text " lights".toList nothing)

theorem turn_loses_lights :
    ¬ ∀ domain, ∀ t : Template .sequence, t.WellFormed → t.Right domain := by
  intro hright
  have hl : ∀ {text : String}, isLiteral text = true → Literal text.toList := literal_of_isLiteral
  have hformed : turnLights.WellFormed :=
    ⟨⟨hl (by decide), ⟨hl (by decide), trivial⟩, ⟨⟨hl (by decide), trivial⟩, trivial⟩,
      hl (by decide), trivial⟩, ⟨⟨hl (by decide), trivial⟩, trivial⟩, hl (by decide), trivial⟩
  have hrendered : renderSentenceTemplate turnLights.write none = some "turn" := by decide +kernel
  obtain ⟨s, ⟨a, u, -, ⟨v, rfl, rfl⟩, rfl⟩, hwords⟩ := hright none turnLights hformed _ hrendered
  have hlights : wordsBy isWhitespace (a ++ (" lights".toList ++ [])) =
      wordsBy isWhitespace a ++ ["lights".toList] :=
    wordsBy_append_break (d := ' ') (by decide) a "lights".toList
  rw [hlights] at hwords
  have hlast := congrArg List.getLast? hwords
  rw [List.getLast?_concat] at hlast
  revert hlast
  decide +kernel

end Template

end GenieClaw.Eval
