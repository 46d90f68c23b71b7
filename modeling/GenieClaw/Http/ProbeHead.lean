import GenieClaw.Http.Probe

/-!
# The head of a response

A response begins with a status line and header fields, each on a line of its own, and a blank
line. The bytes of a value are any but the line ends; a number or a coding in it may have white
space on both sides and letters of either case.
-/

namespace GenieClaw.Http.Probe

open Library Library.Text List

/-! ## Lines of bytes -/

def crlf : List UInt8 := [13, 10]

/-- Bytes of one line. -/
structure Line (bytes : List UInt8) : Prop where
  ne_nil : bytes ≠ []
  plain : ∀ b ∈ bytes, b ≠ 13 ∧ b ≠ 10

def headOf (lines : List (List UInt8)) : List UInt8 := lines.flatMap (· ++ crlf) ++ crlf

theorem headOf_cons (line : List UInt8) (rest : List (List UInt8)) :
    headOf (line :: rest) = line ++ 13 :: 10 :: headOf rest := by
  rw [headOf, flatMap_cons, append_assoc, append_assoc]
  rfl

/-! ## Where the head ends -/

theorem position_le {needle xs : List UInt8} {i : Nat} (h : position needle xs = some i) :
    i + needle.length ≤ xs.length := by
  induction xs generalizing i with
  | nil =>
    rw [position] at h
    split_ifs at h with hnil
    cases h
    rw [hnil]
    exact le_rfl
  | cons b rest ih =>
    rw [position] at h
    split_ifs at h with hprefix
    · cases h
      rw [Nat.zero_add]
      exact (List.isPrefixOf_iff_prefix.mp hprefix).length_le
    · obtain ⟨j, hj, rfl⟩ := Option.map_eq_some_iff.mp h
      have := ih hj
      rw [length_cons]
      omega

theorem position_append {needle xs : List UInt8} {i : Nat} (h : position needle xs = some i)
    (hne : needle ≠ []) (ys : List UInt8) : position needle (xs ++ ys) = some i := by
  induction xs generalizing i with
  | nil =>
    rw [position, if_neg hne] at h
    cases h
  | cons b rest ih =>
    have hle := position_le h
    rw [position] at h
    rw [cons_append, position]
    split_ifs at h with hprefix
    · rw [if_pos, ← h]
      rw [List.isPrefixOf_iff_prefix] at hprefix ⊢
      rw [← cons_append]
      exact hprefix.trans (prefix_append _ _)
    · obtain ⟨j, hj, rfl⟩ := Option.map_eq_some_iff.mp h
      have hlong := position_le hj
      rw [if_neg, ih hj]
      · rfl
      · rw [List.isPrefixOf_iff_prefix] at hprefix ⊢
        rw [← cons_append]
        intro hmore
        refine hprefix (prefix_of_prefix_length_le hmore (prefix_append _ _) ?_)
        rw [length_cons]
        omega

theorem position_line {line : List UInt8} (hline : ∀ b ∈ line, b ≠ 13 ∧ b ≠ 10)
    (rest : List UInt8) : position terminator (line ++ 13 :: 10 :: rest) =
      if crlf.isPrefixOf rest then some line.length
      else (position terminator rest).map (· + (line.length + 2)) := by
  have hlast : position terminator (10 :: rest) = (position terminator rest).map (· + 1) := by
    rw [position, if_neg (by simp [terminator, List.isPrefixOf])]
  induction line with
  | nil =>
    have hhere : terminator.isPrefixOf (13 :: 10 :: rest) = crlf.isPrefixOf rest := by
      simp [terminator, crlf, List.isPrefixOf]
    rw [nil_append, position, hhere]
    split_ifs with hend
    · rfl
    · rw [hlast, Option.map_map]
      rfl
  | cons b line ih =>
    have hb := hline b mem_cons_self
    have hnot : terminator.isPrefixOf (b :: (line ++ 13 :: 10 :: rest)) = false := by
      simp [terminator, List.isPrefixOf, Ne.symm hb.1]
    rw [cons_append, position, hnot, if_neg Bool.false_ne_true,
      ih fun b hb => hline b (mem_cons_of_mem _ hb)]
    split_ifs with hend
    · rfl
    · rw [Option.map_map, length_cons]
      rfl

theorem position_head {lines : List (List UInt8)} (hne : lines ≠ [])
    (hlines : ∀ line ∈ lines, Line line) (more : List UInt8) :
    ∃ i, position terminator (headOf lines ++ more) = some i ∧ i + 4 = (headOf lines).length := by
  induction lines with
  | nil => exact absurd rfl hne
  | cons line rest ih =>
    have hline := hlines line mem_cons_self
    rw [headOf_cons, append_assoc, cons_append, cons_append,
      position_line hline.plain]
    cases rest with
    | nil =>
      refine ⟨line.length, ?_, by simp [headOf, crlf]⟩
      exact if_pos rfl
    | cons next rest =>
      have hnext := hlines next (mem_cons_of_mem _ mem_cons_self)
      obtain ⟨b, bs, hbytes⟩ := exists_cons_of_ne_nil hnext.ne_nil
      have hb : b ≠ 13 := (hnext.plain b (hbytes ▸ mem_cons_self)).1
      obtain ⟨i, hi, hlength⟩ := ih (cons_ne_nil _ _)
        fun l hl => hlines l (mem_cons_of_mem _ hl)
      have hnot : crlf.isPrefixOf (headOf (next :: rest) ++ more) = false := by
        rw [headOf_cons, hbytes]
        simp [crlf, List.isPrefixOf, Ne.symm hb]
      refine ⟨i + (line.length + 2), ?_, ?_⟩
      · rw [hnot, if_neg Bool.false_ne_true, hi]
        rfl
      · rw [length_append, length_cons, length_cons]
        omega

theorem position_isSome_iff {lines : List (List UInt8)} (hne : lines ≠ [])
    (hlines : ∀ line ∈ lines, Line line) {more xs : List UInt8}
    (hxs : xs <+: headOf lines ++ more) :
    (position terminator xs).isSome = true ↔ (headOf lines).length ≤ xs.length := by
  constructor
  · intro h
    obtain ⟨i, hi⟩ := Option.isSome_iff_exists.mp h
    obtain ⟨ys, hys⟩ := hxs
    obtain ⟨j, hj, hlength⟩ := position_head hne hlines more
    have hle := position_le hi
    rw [← hys, position_append hi (by decide)] at hj
    cases hj
    have hfour : terminator.length = 4 := rfl
    omega
  · intro hle
    obtain ⟨ys, rfl⟩ := prefix_of_prefix_length_le (prefix_append _ more) hxs hle
    obtain ⟨i, hi, -⟩ := position_head hne hlines ys
    rw [hi]
    rfl

/-! ## The lines as text -/

theorem not_newline_of_line {line : List UInt8} (h : ∀ b ∈ line, b ≠ 13 ∧ b ≠ 10) :
    '\n' ∉ lossy line := fun hmem =>
  (h 10 (mem_of_mem_lossy (by decide) hmem)).2 rfl

theorem lossy_headOf_cons (line : List UInt8) (rest : List (List UInt8)) :
    lossy (headOf (line :: rest)) = lossy line ++ ['\r'] ++ '\n' :: lossy (headOf rest) := by
  have hreturn : (13 : UInt8).toNat < 128 := by decide
  have hnewline : (10 : UInt8).toNat < 128 := by decide
  rw [headOf_cons, lossy_append_ascii line hreturn, ← nil_append (10 :: headOf rest),
    lossy_append_ascii [] hnewline, lossy_nil, append_assoc]
  rfl

theorem splitOn_lossy_headOf {ls : List (List UInt8)} (hlines : ∀ line ∈ ls, Line line) :
    (lossy (headOf ls)).splitOn '\n' =
      ls.map (fun line => lossy line ++ ['\r']) ++ [['\r'], []] := by
  induction ls with
  | nil => decide
  | cons line rest ih =>
    have hline := hlines line mem_cons_self
    have hnot : '\n' ∉ lossy line ++ ['\r'] := by
      rw [List.mem_append, not_or]
      exact ⟨not_newline_of_line hline.plain, by decide⟩
    rw [lossy_headOf_cons, splitOn_append_cons_self_of_not_mem hnot,
      ih fun l hl => hlines l (mem_cons_of_mem _ hl)]
    rfl

theorem withoutReturn_append (line : List Char) : withoutReturn (line ++ ['\r']) = line := by
  rw [withoutReturn, getLast?_concat, if_pos rfl, dropLast_concat]

theorem lines_lossy_headOf {ls : List (List UInt8)} (hlines : ∀ line ∈ ls, Line line) :
    lines (lossy (headOf ls)) = ls.map lossy ++ [[]] := by
  have hsplit := splitOn_lossy_headOf hlines
  have hlast : (ls.map (fun line => lossy line ++ ['\r']) ++ [['\r'], []]).getLast? = some [] := by
    rw [append_cons]
    exact getLast?_concat
  have hbefore : (ls.map (fun line => lossy line ++ ['\r']) ++ [['\r'], []]).dropLast =
      ls.map (fun line => lossy line ++ ['\r']) ++ [['\r']] := by
    rw [append_cons]
    exact dropLast_concat
  unfold lines
  dsimp only
  rw [hsplit, hlast, hbefore, Option.getD_some, if_pos rfl, append_nil, map_append,
    map_map]
  congr 1
  apply map_congr_left
  intro line _
  exact withoutReturn_append (lossy line)

/-! ## The status line -/

/-- `HTTP/1.1`, a code of three digits and a reason. -/
structure StatusLine where
  hundreds : Fin 10
  tens : Fin 10
  ones : Fin 10
  reason : List UInt8
  plain : ∀ b ∈ reason, b ≠ 13 ∧ b ≠ 10
  spaced : reason = [] ∨ reason.head? = some 32

def digitText (d : Fin 10) : Char := Char.ofNat (48 + d)

def StatusLine.code (status : StatusLine) : Nat :=
  100 * status.hundreds + 10 * status.tens + status.ones

def StatusLine.digits (status : StatusLine) : List Char :=
  [digitText status.hundreds, digitText status.tens, digitText status.ones]

def StatusLine.bytes (status : StatusLine) : List UInt8 :=
  asBytes ("HTTP/1.1 " ++ String.ofList status.digits) ++ status.reason

theorem digitText_facts : ∀ d : Fin 10, digitOf 10 (digitText d) = some d.val ∧
    isWhitespace (digitText d) = false ∧ digitText d ≠ '+' ∧ digitText d ≠ '\r' ∧
      digitText d ≠ '\n' ∧ digitText d ≠ ':' := by
  decide

theorem parseUnsigned_digits (status : StatusLine) :
    parseUnsigned 10 16 (String.ofList status.digits) = some status.code := by
  have hplus : withoutPlus status.digits = status.digits := by
    unfold StatusLine.digits withoutPlus
    split
    · rename_i heq
      exact absurd (List.cons.inj heq).1 (digitText_facts status.hundreds).2.2.1
    · rfl
  have hvalue : parseDigits 10 0 status.digits = some status.code := by
    simp only [StatusLine.digits, parseDigits, (digitText_facts _).1, Option.bind_some,
      StatusLine.code]
    congr 1
    omega
  have hsmall : status.code < 2 ^ 16 := by
    have h := status.hundreds.isLt
    have t := status.tens.isLt
    have o := status.ones.isLt
    unfold StatusLine.code
    omega
  rw [parseUnsigned, String.toList_ofList, hplus, hvalue, if_neg (by simp [StatusLine.digits]),
    Option.filter_some, if_pos (decide_eq_true hsmall)]

theorem toList_statusText (cs : List Char) :
    ("HTTP/1.1 " ++ String.ofList cs).toList = "HTTP/1.1 ".toList ++ cs := by
  rw [String.toList_append]
  exact congrArg ("HTTP/1.1 ".toList ++ ·) String.toList_ofList

theorem StatusLine.line (status : StatusLine) : Line status.bytes where
  ne_nil h := by
    have hmem : (72 : UInt8) ∈ status.bytes := by
      rw [StatusLine.bytes, asBytes_append]
      exact mem_append_left _ (mem_append_left _ (by decide))
    rw [h] at hmem
    cases hmem
  plain b hb := by
    rw [StatusLine.bytes, List.mem_append] at hb
    rcases hb with hb | hb
    · have hchars : ∀ c ∈ ("HTTP/1.1 " ++ String.ofList status.digits).toList,
          c ≠ '\r' ∧ c ≠ '\n' := by
        intro c hc
        rw [toList_statusText, List.mem_append] at hc
        rcases hc with hc | hc
        · have hversion : ∀ c ∈ "HTTP/1.1 ".toList, c ≠ '\r' ∧ c ≠ '\n' :=
            forall_mem_of_all (by decide)
          exact hversion c hc
        · simp only [StatusLine.digits, List.mem_cons, List.not_mem_nil, or_false] at hc
          rcases hc with rfl | rfl | rfl
          · exact ⟨(digitText_facts _).2.2.2.1, (digitText_facts _).2.2.2.2.1⟩
          · exact ⟨(digitText_facts _).2.2.2.1, (digitText_facts _).2.2.2.2.1⟩
          · exact ⟨(digitText_facts _).2.2.2.1, (digitText_facts _).2.2.2.2.1⟩
      constructor
      · rintro rfl
        exact (hchars '\r' ((mem_asBytes_ascii (c := '\r') (by decide)).mp hb)).1 rfl
      · rintro rfl
        exact (hchars '\n' ((mem_asBytes_ascii (c := '\n') (by decide)).mp hb)).2 rfl
    · exact status.plain b hb

theorem exists_space (status : StatusLine) (more : List UInt8) :
    ∃ c rest, isWhitespace c = true ∧ lossy (status.reason ++ 13 :: more) = c :: rest := by
  have hreturn : (13 : UInt8).toNat < 128 := by decide
  rcases status.spaced with hnil | hspace
  · refine ⟨'\r', lossy more, by decide, ?_⟩
    rw [hnil, lossy_append_ascii [] hreturn]
    rfl
  · obtain ⟨rest, hrest⟩ := List.head?_eq_some_iff.mp hspace
    have hascii : (32 : UInt8).toNat < 128 := by decide
    refine ⟨' ', lossy (rest ++ 13 :: more), by decide, ?_⟩
    rw [hrest, cons_append, ← nil_append (32 :: (rest ++ 13 :: more)),
      lossy_append_ascii [] hascii]
    rfl

theorem parseHttpStatus_head (status : StatusLine) (ls : List (List UInt8)) :
    parseHttpStatus (headOf (status.bytes :: ls)) = some status.code := by
  obtain ⟨c, rest, hc, htail⟩ := exists_space status (10 :: headOf ls)
  have hchars : lossy (headOf (status.bytes :: ls)) =
      "HTTP/1.1".toList ++ ' ' :: (status.digits ++ c :: rest) := by
    rw [headOf_cons, StatusLine.bytes, append_assoc, lossy_asBytes_append, htail,
      toList_statusText, append_assoc]
    rfl
  have hversion : ∀ d ∈ "HTTP/1.1".toList, isWhitespace d = false := forall_mem_of_all (by decide)
  have hdigits : ∀ d ∈ status.digits, isWhitespace d = false := by
    intro d hd
    simp only [StatusLine.digits, List.mem_cons, List.not_mem_nil, or_false] at hd
    rcases hd with rfl | rfl | rfl
    · exact (digitText_facts _).2.1
    · exact (digitText_facts _).2.1
    · exact (digitText_facts _).2.1
  have hwords : splitWhitespace (String.ofList (lossy (headOf (status.bytes :: ls)))) =
      "HTTP/1.1" :: String.ofList status.digits :: splitWhitespace (String.ofList rest) := by
    have hsplit : (lossy (headOf (status.bytes :: ls))).splitOnP isWhitespace =
        "HTTP/1.1".toList :: status.digits :: rest.splitOnP isWhitespace := by
      rw [hchars, splitOnP_append_cons_of_forall_mem hversion ' ' (by decide),
        splitOnP_append_cons_of_forall_mem hdigits c hc]
    unfold splitWhitespace
    rw [String.toList_ofList, hsplit, filter_cons_of_pos (by decide),
      filter_cons_of_pos (by simp [StatusLine.digits]), map_cons, map_cons,
      @String.toList_ofList rest]
    rfl
  rw [parseHttpStatus, fromUtf8Lossy_eq, hwords]
  exact parseUnsigned_digits status

/-! ## Header fields -/

/-- A header field: its name and the bytes behind the colon. -/
structure FieldLine where
  name : String
  value : List UInt8
  nonempty : name ≠ ""
  token : ∀ c ∈ name.toList, 32 < c.toNat ∧ c.toNat < 127 ∧ c ≠ ':'
  plain : ∀ b ∈ value, b ≠ 13 ∧ b ≠ 10

def FieldLine.bytes (field : FieldLine) : List UInt8 := asBytes field.name ++ 58 :: field.value

/-- The name of the field, in letters of either case. -/
def FieldLine.Named (field : FieldLine) (name : String) : Prop :=
  eqIgnoreAsciiCase field.name name = true

instance (field : FieldLine) (name : String) : Decidable (field.Named name) :=
  inferInstanceAs (Decidable (_ = true))

/-- Optional white space. -/
def Blank (cs : List Char) : Prop := ∀ c ∈ cs, c = ' ' ∨ c = '\t'

/-- The value is this text, with optional white space on both sides. -/
def FieldLine.Says (field : FieldLine) (text : List Char) : Prop :=
  ∃ before after, Blank before ∧ Blank after ∧
    field.value = asBytes (String.ofList (before ++ text ++ after))

/-- The value is a number in digits. -/
def FieldLine.SaysLength (field : FieldLine) (n : Nat) : Prop :=
  ∃ digits : List Char, digits ≠ [] ∧ (∀ c ∈ digits, c.isDigit = true) ∧
    parseDigits 10 0 digits = some n ∧ field.Says digits

/-- The value is the chunked coding, in letters of either case. -/
def FieldLine.SaysChunked (field : FieldLine) : Prop :=
  ∃ coding : List Char, eqIgnoreAsciiCase (String.ofList coding) "chunked" = true ∧
    field.Says coding

/-- The value is the chunked coding with one space before it and nothing behind it. -/
def FieldLine.Tight (field : FieldLine) : Prop :=
  ∃ coding : List Char, eqIgnoreAsciiCase (String.ofList coding) "chunked" = true ∧
    field.value = asBytes (String.ofList (' ' :: coding))

theorem eqIgnoreAsciiCase_ofList {cs : List Char} {s : String} :
    eqIgnoreAsciiCase (String.ofList cs) s = true ↔
      cs.map Char.toLower = s.toList.map Char.toLower := by
  rw [eqIgnoreAsciiCase, beq_iff_eq, toAsciiLowercase, toAsciiLowercase, String.toList_ofList]
  constructor
  · intro h
    have := congrArg String.toList h
    rwa [String.toList_ofList, String.toList_ofList] at this
  · intro h
    rw [h]

variable {field : FieldLine}

theorem FieldLine.named_iff {name : String} :
    field.Named name ↔ field.name.toList.map Char.toLower = name.toList.map Char.toLower := by
  rw [FieldLine.Named, ← eqIgnoreAsciiCase_ofList, String.ofList_toList]

theorem FieldLine.line (field : FieldLine) : Line field.bytes where
  ne_nil := by simp [FieldLine.bytes]
  plain b hb := by
    rw [FieldLine.bytes, List.mem_append, List.mem_cons] at hb
    rcases hb with hb | rfl | hb
    · constructor
      · rintro rfl
        have h := field.token '\r' ((mem_asBytes_ascii (c := '\r') (by decide)).mp hb)
        exact absurd h.1 (by decide)
      · rintro rfl
        have h := field.token '\n' ((mem_asBytes_ascii (c := '\n') (by decide)).mp hb)
        exact absurd h.1 (by decide)
    · decide
    · exact field.plain b hb

theorem lossy_field (field : FieldLine) :
    lossy field.bytes = field.name.toList ++ ':' :: lossy field.value := by
  have hcolon : (58 : UInt8).toNat < 128 := by decide
  rw [FieldLine.bytes, lossy_asBytes_append, ← nil_append (58 :: field.value),
    lossy_append_ascii [] hcolon]
  rfl

theorem FieldLine.colon_notMem (field : FieldLine) : ':' ∉ field.name.toList := fun h =>
  (field.token ':' h).2.2 rfl

theorem splitOnce_field (field : FieldLine) :
    splitOnce [':'] (lossy field.bytes) = some (field.name.toList, lossy field.value) := by
  have hnot : ¬ [':'] <:+: field.name.toList ++ [':'].dropLast := by
    rw [dropLast_singleton, append_nil, singleton_infix_iff]
    exact field.colon_notMem
  rw [lossy_field, ← splitOnce_append (lossy field.value) hnot (cons_ne_nil _ _),
    append_assoc]
  rfl

theorem lengthOfLine_field (field : FieldLine) :
    lengthOfLine (lossy field.bytes) = if field.Named "content-length" then
      parseUnsigned 10 64 (trim (String.ofList (lossy field.value))) else none := by
  rw [lengthOfLine, splitOnce_field]
  dsimp only
  rw [String.ofList_toList]
  rfl

/-! ## The length -/

theorem isWhitespace_of_blank {cs : List Char} (h : Blank cs) :
    ∀ c ∈ cs, isWhitespace c = true := by
  intro c hc
  rcases h c hc with rfl | rfl
  · decide
  · decide

theorem trim_padded {before text after : List Char} (hbefore : Blank before) (hafter : Blank after)
    (htext : ∀ c ∈ text, isWhitespace c = false) (hne : text ≠ []) :
    trim (String.ofList (before ++ text ++ after)) = String.ofList text := by
  have hfirst : (text ++ after).dropWhile isWhitespace = text ++ after := by
    apply dropWhile_eq_self_of_head
    intro c hc
    rw [head?_append, Option.or_of_isSome (by simpa using hne)] at hc
    exact htext c (mem_of_head? hc)
  have hlast : text.reverse.dropWhile isWhitespace = text.reverse := by
    apply dropWhile_eq_self_of_head
    intro c hc
    exact htext c (List.mem_reverse.mp (mem_of_head? hc))
  have hback : ∀ c ∈ after.reverse, isWhitespace c = true := fun c hc =>
    isWhitespace_of_blank hafter c (List.mem_reverse.mp hc)
  rw [trim, String.toList_ofList, trimChars, append_assoc,
    dropWhile_append_of_pos (isWhitespace_of_blank hbefore), hfirst, List.rdropWhile,
    reverse_append, dropWhile_append_of_pos hback, hlast, reverse_reverse]

theorem lossy_asBytes (s : String) : lossy (asBytes s) = s.toList := by
  have h := lossy_asBytes_append s []
  rwa [append_nil, lossy_nil, append_nil] at h

theorem FieldLine.lossy_value {text : List Char} (h : field.Says text) :
    ∃ before after, Blank before ∧ Blank after ∧ lossy field.value = before ++ text ++ after := by
  obtain ⟨before, after, hbefore, hafter, hvalue⟩ := h
  exact ⟨before, after, hbefore, hafter, by rw [hvalue, lossy_asBytes, String.toList_ofList]⟩

theorem digit_plain {c : Char} (h : c.isDigit = true) : isWhitespace c = false ∧ c ≠ '+' := by
  have hbounds : 48 ≤ c.toNat ∧ c.toNat ≤ 57 := by
    simpa [Char.isDigit, UInt32.le_iff_toNat_le] using h
  constructor
  · unfold isWhitespace
    simp only [Bool.or_eq_false_iff, Bool.and_eq_false_iff, decide_eq_false_iff_not,
      beq_eq_false_iff_ne]
    omega
  · rintro rfl
    exact absurd hbounds.1 (by decide)

theorem parsedLength_of_field {n : Nat} (h : field.SaysLength n) (hn : n < 2 ^ 64) :
    parseUnsigned 10 64 (trim (String.ofList (lossy field.value))) = some n := by
  obtain ⟨digits, hne, hdigits, hvalue, hstated⟩ := h
  obtain ⟨before, after, hbefore, hafter, htext⟩ := FieldLine.lossy_value hstated
  have hplus : withoutPlus digits = digits := by
    unfold withoutPlus
    split
    · exact absurd rfl (digit_plain (hdigits '+' mem_cons_self)).2
    · rfl
  rw [htext, trim_padded hbefore hafter (fun c hc => (digit_plain (hdigits c hc)).1) hne,
    parseUnsigned, String.toList_ofList, hplus, if_neg hne, hvalue, Option.filter_some,
    if_pos (decide_eq_true hn)]

/-! ## The head -/

structure Head where
  status : StatusLine
  fields : List FieldLine

def Head.lines (head : Head) : List (List UInt8) :=
  head.status.bytes :: head.fields.map FieldLine.bytes

def Head.bytes (head : Head) : List UInt8 := headOf head.lines

theorem Head.line_of_mem (head : Head) : ∀ line ∈ head.lines, Line line := by
  intro line hline
  rcases List.mem_cons.mp hline with rfl | hline
  · exact head.status.line
  · obtain ⟨field, -, rfl⟩ := List.mem_map.mp hline
    exact field.line

theorem Head.lines_text (head : Head) :
    Probe.lines (fromUtf8Lossy head.bytes).toList = lossy head.status.bytes ::
      (head.fields.map fun field => lossy field.bytes) ++ [[]] := by
  rw [fromUtf8Lossy_eq, String.toList_ofList, Head.bytes, lines_lossy_headOf head.line_of_mem,
    Head.lines, map_cons, map_map]
  rfl

theorem lossy_status (status : StatusLine) : ∃ rest, lossy status.bytes = 'H' :: rest := by
  refine ⟨"TTP/1.1 ".toList ++ status.digits ++ lossy status.reason, ?_⟩
  rw [StatusLine.bytes, lossy_asBytes_append, toList_statusText]
  rfl

theorem lengthOfLine_status (status : StatusLine) : lengthOfLine (lossy status.bytes) = none := by
  obtain ⟨rest, hrest⟩ := lossy_status status
  unfold lengthOfLine
  split
  · rfl
  · rename_i name value hsplit
    obtain ⟨htext, -⟩ := splitOnce_eq_some hsplit
    rw [if_neg]
    rw [eqIgnoreAsciiCase_ofList]
    intro hname
    cases name with
    | nil => cases hname
    | cons c name =>
      rw [hrest, cons_append, cons_append] at htext
      rw [← (List.cons.inj htext).1, map_cons] at hname
      exact absurd (List.cons.inj hname).1 (by decide)

theorem isChunkedLine_status (status : StatusLine) :
    isChunkedLine (lossy status.bytes) = false := by
  obtain ⟨rest, hrest⟩ := lossy_status status
  rw [← Bool.not_eq_true, isChunkedLine, eqIgnoreAsciiCase_ofList, hrest]
  intro h
  exact absurd (List.cons.inj h).1 (by decide)

theorem parseContentLength_none {head : Head}
    (hnone : ∀ field ∈ head.fields, ¬ field.Named "content-length") :
    parseContentLength (fromUtf8Lossy head.bytes) = none := by
  rw [parseContentLength, head.lines_text, findSome?_eq_none_iff]
  intro line hline
  rw [List.mem_append, List.mem_cons, mem_map] at hline
  rcases hline with (rfl | ⟨field, hfield, rfl⟩) | hline
  · exact lengthOfLine_status head.status
  · rw [lengthOfLine_field, if_neg (hnone field hfield)]
  · rw [List.mem_singleton.mp hline]
    rfl

theorem parseContentLength_head {head : Head} {n : Nat} (hn : n < 2 ^ 64)
    (hsome : ∃ field ∈ head.fields, field.Named "content-length")
    (hall : ∀ field ∈ head.fields, field.Named "content-length" → field.SaysLength n) :
    parseContentLength (fromUtf8Lossy head.bytes) = some n := by
  have hone : ∀ line ∈ Probe.lines (fromUtf8Lossy head.bytes).toList, ∀ m,
      lengthOfLine line = some m → m = n := by
    intro line hline m hm
    rw [head.lines_text, List.mem_append, List.mem_cons, mem_map] at hline
    rcases hline with (rfl | ⟨field, hfield, rfl⟩) | hline
    · rw [lengthOfLine_status] at hm
      cases hm
    · rw [lengthOfLine_field] at hm
      split_ifs at hm with hnamed
      rw [parsedLength_of_field (hall field hfield hnamed) hn] at hm
      exact (Option.some.inj hm).symm
    · rw [List.mem_singleton.mp hline] at hm
      cases hm
  obtain ⟨field, hfield, hnamed⟩ := hsome
  have hfound : lengthOfLine (lossy field.bytes) = some n := by
    rw [lengthOfLine_field, if_pos hnamed, parsedLength_of_field (hall field hfield hnamed) hn]
  have hmem : lossy field.bytes ∈ Probe.lines (fromUtf8Lossy head.bytes).toList := by
    rw [head.lines_text]
    exact mem_append_left _ (mem_cons_of_mem _ (mem_map_of_mem hfield))
  cases hrun : parseContentLength (fromUtf8Lossy head.bytes) with
  | none =>
    rw [parseContentLength, findSome?_eq_none_iff] at hrun
    rw [hrun _ hmem] at hfound
    cases hfound
  | some m =>
    obtain ⟨line, hline, hm⟩ := exists_of_findSome?_eq_some hrun
    rw [hone line hline m hm]

/-! ## The coding -/

theorem eq_of_toLower_eq {c d : Char} (hd : ¬ (97 ≤ d.toNat ∧ d.toNat ≤ 122))
    (h : c.toLower = d) : c = d := by
  have hnat := congrArg Char.toNat h
  rw [toNat_toLower] at hnat
  split_ifs at hnat with hupper
  · omega
  · exact Char.toNat_inj.mp hnat

theorem tight_iff {before coding after : List Char} (hbefore : Blank before)
    (hcoding : coding.map Char.toLower = "chunked".toList) :
    (before ++ coding ++ after).map Char.toLower = " chunked".toList ↔
      before = [' '] ∧ after = [] := by
  rw [map_append, map_append, hcoding]
  constructor
  · intro h
    have hlength := congrArg List.length h
    have hseven : "chunked".toList.length = 7 := rfl
    have height : " chunked".toList.length = 8 := rfl
    rw [length_append, length_append, length_map, length_map, hseven,
      height] at hlength
    rcases before with _ | ⟨c, _ | ⟨d, before⟩⟩
    · exact absurd (List.cons.inj h).1 (by decide)
    · have hafter : after = [] := by
        rw [← length_eq_zero_iff]
        rw [length_singleton] at hlength
        omega
      have hspace : c = ' ' := eq_of_toLower_eq (by decide) (List.cons.inj h).1
      exact ⟨by rw [hspace], hafter⟩
    · rw [length_cons, length_cons] at hlength
      omega
  · rintro ⟨rfl, rfl⟩
    rfl

theorem append_cons_eq_iff {α : Type} {delimiter : α} {front front' back back' : List α}
    (hfront : delimiter ∉ front) (hfront' : delimiter ∉ front') :
    front ++ delimiter :: back = front' ++ delimiter :: back' ↔ front = front' ∧ back = back' := by
  induction front generalizing front' with
  | nil =>
    cases front' with
    | nil => simp
    | cons y ys =>
      rw [List.mem_cons, not_or] at hfront'
      simp [hfront'.1]
  | cons x xs ih =>
    rw [List.mem_cons, not_or] at hfront
    cases front' with
    | nil => simp [Ne.symm hfront.1]
    | cons y ys =>
      rw [List.mem_cons, not_or] at hfront'
      simp [ih hfront.2 hfront'.2, and_assoc]

/-- A field that names the chunked coding is taken for it if there is one space before the
coding and nothing behind it. -/
theorem isChunkedLine_field {field : FieldLine}
    (hstated : field.Named "transfer-encoding" → field.SaysChunked) :
    isChunkedLine (lossy field.bytes) = true ↔ field.Named "transfer-encoding" ∧ field.Tight := by
  have hcolon : ':' ∉ field.name.toList.map Char.toLower := by
    intro h
    obtain ⟨c, hc, heq⟩ := List.mem_map.mp h
    exact field.colon_notMem (eq_of_toLower_eq (by decide) heq ▸ hc)
  have hline : isChunkedLine (lossy field.bytes) = true ↔ field.Named "transfer-encoding" ∧
      (lossy field.value).map Char.toLower = " chunked".toList := by
    have htarget : "transfer-encoding: chunked".toList.map Char.toLower =
        "transfer-encoding".toList.map Char.toLower ++ ':' :: " chunked".toList := by decide
    rw [isChunkedLine, eqIgnoreAsciiCase_ofList, lossy_field, map_append, map_cons,
      htarget, FieldLine.named_iff]
    have hcolon' : ':' ∉ "transfer-encoding".toList.map Char.toLower := by decide
    have hlower : ':'.toLower = ':' := by decide
    rw [hlower]
    exact append_cons_eq_iff hcolon hcolon'
  rw [hline]
  refine and_congr_right fun hnamed => ?_
  obtain ⟨coding, hcoding, before, after, hbefore, hafter, hvalue⟩ := hstated hnamed
  rw [eqIgnoreAsciiCase_ofList] at hcoding
  have htext : lossy field.value = before ++ coding ++ after := by
    rw [hvalue, lossy_asBytes, String.toList_ofList]
  constructor
  · intro h
    rw [htext, tight_iff hbefore hcoding] at h
    refine ⟨coding, eqIgnoreAsciiCase_ofList.mpr hcoding, ?_⟩
    rw [hvalue, h.1, h.2, append_nil]
    rfl
  · rintro ⟨coding', hcoding', hvalue'⟩
    rw [eqIgnoreAsciiCase_ofList] at hcoding'
    rw [hvalue', lossy_asBytes, String.toList_ofList, map_cons, hcoding']
    rfl

theorem any_isChunkedLine {head : Head}
    (hall : ∀ field ∈ head.fields, field.Named "transfer-encoding" → field.SaysChunked) :
    (Probe.lines (fromUtf8Lossy head.bytes).toList).any isChunkedLine = true ↔
      ∃ field ∈ head.fields, field.Named "transfer-encoding" ∧ field.Tight := by
  rw [head.lines_text, any_append, any_cons, isChunkedLine_status, Bool.false_or,
    any_cons, any_nil, Bool.or_false, Bool.or_eq_true, any_eq_true]
  constructor
  · rintro (⟨line, hline, hchunked⟩ | hblank)
    · obtain ⟨field, hfield, rfl⟩ := List.mem_map.mp hline
      exact ⟨field, hfield, (isChunkedLine_field (hall field hfield)).mp hchunked⟩
    · exact absurd hblank (by decide)
  · rintro ⟨field, hfield, htight⟩
    exact .inl ⟨_, mem_map_of_mem hfield,
      (isChunkedLine_field (hall field hfield)).mpr htight⟩

end GenieClaw.Http.Probe
