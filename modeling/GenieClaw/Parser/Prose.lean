import GenieClaw.Parser.Scans
import GenieClaw.Parser.ToolCalls

/-!
# A tool call in prose

When `extract_json` returns the tool call that stands somewhere in a response. What it
finds first may be something else: the response as a whole, a fenced block, or a bracket
of the prose that opens a JSON text.

* `call_found_iff` (the call is a call by itself): it is found exactly where nothing hides it.
* `call_found_sure`: plain prose hides nothing.
-/

namespace GenieClaw.Parser

open Library Library.Text Library.JsonText List Option

/-! ## Nesting -/

/-- How deep a text leads into brackets of one kind, and whether it ends inside of a string
literal or behind a backslash there. -/
structure Nesting where
  depth : Nat
  inString : Bool
  escape : Bool

variable {b : Bracket} {n : Nesting}

namespace Nesting

def read (b : Bracket) (n : Nesting) (c : Char) : Nesting :=
  if n.escape then { n with escape := false }
  else if c = '\\' ∧ n.inString then { n with escape := true }
  else if c = '"' then { n with inString := !n.inString }
  else if c = b.opening ∧ !n.inString then { n with depth := n.depth + 1 }
  else if c = b.closing ∧ !n.inString then { n with depth := n.depth - 1 }
  else n

/-- The text leads out of all brackets, and no shorter one does. -/
def Ends (b : Bracket) (n : Nesting) (seg : List Char) : Prop :=
  (seg.foldl (read b) n).depth = 0 ∧
    ∀ pre, pre <+: seg → pre ≠ seg → 0 < (pre.foldl (read b) n).depth

theorem ends_nil (hn : 0 < n.depth) : ¬ n.Ends b [] :=
  fun h => absurd h.1 (Nat.ne_of_gt hn)

theorem ends_cons_of_pos {c : Char} {seg : List Char} (hn : 0 < n.depth)
    (hc : 0 < (n.read b c).depth) : n.Ends b (c :: seg) ↔ (n.read b c).Ends b seg := by
  refine and_congr_right fun _ => ⟨fun h pre hpre hne => ?_, fun h pre hpre hne => ?_⟩
  · have hlong : c :: pre <+: c :: seg := (List.prefix_cons_inj c).mpr hpre
    exact h (c :: pre) hlong fun heq => hne (List.cons.inj heq).2
  · cases pre with
    | nil => exact hn
    | cons d pre =>
      obtain ⟨rfl, hshort⟩ := List.cons_prefix_cons.mp hpre
      exact h pre hshort fun heq => hne (by rw [heq])

theorem ends_cons_of_zero {c : Char} {seg : List Char} (hn : 0 < n.depth)
    (hc : (n.read b c).depth = 0) : n.Ends b (c :: seg) ↔ seg = [] := by
  constructor
  · intro h
    by_contra hne
    have hpre : [c] <+: c :: seg := (List.prefix_cons_inj c).mpr List.nil_prefix
    have hpos := h.2 [c] hpre fun heq => hne (List.cons.inj heq).2.symm
    exact absurd hc (Nat.ne_of_gt hpos)
  · rintro rfl
    refine ⟨hc, fun pre hpre hne => ?_⟩
    cases pre with
    | nil => exact hn
    | cons d pre =>
      obtain ⟨rfl, hnil⟩ := List.cons_prefix_cons.mp hpre
      rw [List.prefix_nil.mp hnil] at hne
      exact absurd rfl hne

end Nesting

/-- The text from a bracket through the one that closes it: the shortest one at whose end no
bracket of the kind is open. -/
def Closes (b : Bracket) (seg : List Char) : Prop :=
  seg.head? = some b.opening ∧ Nesting.Ends b ⟨1, false, false⟩ seg.tail

theorem balancedPrefix_cons (hn : 0 < n.depth) (c : Char) (rest : List Char) :
    balancedPrefix b.opening b.closing n.depth n.inString n.escape (c :: rest) =
      if (n.read b c).depth = 0 then some [c]
      else (balancedPrefix b.opening b.closing (n.read b c).depth (n.read b c).inString
        (n.read b c).escape rest).map (c :: ·) := by
  obtain ⟨depth, inString, escape⟩ := n
  have hdepth : ¬ depth = 0 := Nat.ne_of_gt hn
  cases escape with
  | true => rw [balancedPrefix]; simp [Nesting.read, hdepth]
  | false =>
    rw [balancedPrefix]
    unfold Nesting.read
    rw [if_neg Bool.false_ne_true]
    by_cases hslash : c = '\\' ∧ inString = true
    · rw [if_pos hslash, if_pos hslash, if_neg hdepth]
    · rw [if_neg hslash, if_neg hslash]
      by_cases hquote : c = '"'
      · rw [if_pos hquote, if_pos hquote, if_neg hdepth]
      · rw [if_neg hquote, if_neg hquote]
        by_cases hopen : c = b.opening ∧ (!inString) = true
        · rw [if_pos hopen, if_pos hopen, if_neg (Nat.succ_ne_zero _)]
        · rw [if_neg hopen, if_neg hopen]
          by_cases hclose : c = b.closing ∧ (!inString) = true
          · rw [if_pos hclose, if_pos hclose]
            have hone : depth = 1 ↔ depth - 1 = 0 := by
              dsimp only at hn
              omega
            simp only [hone]
          · rw [if_neg hclose, if_neg hclose, if_neg hdepth]

theorem balancedPrefix_eq_some (hn : 0 < n.depth) {text seg : List Char} :
    balancedPrefix b.opening b.closing n.depth n.inString n.escape text = some seg ↔
      seg <+: text ∧ n.Ends b seg := by
  induction text generalizing n seg with
  | nil =>
    rw [balancedPrefix, prefix_nil]
    refine ⟨by simp, ?_⟩
    rintro ⟨rfl, hends⟩
    exact absurd hends (Nesting.ends_nil hn)
  | cons c rest ih =>
    rw [balancedPrefix_cons hn]
    by_cases hc : (n.read b c).depth = 0
    · rw [if_pos hc, some_inj]
      constructor
      · rintro rfl
        exact ⟨⟨rest, rfl⟩, (Nesting.ends_cons_of_zero hn hc).mpr rfl⟩
      · rintro ⟨hpre, hends⟩
        cases seg with
        | nil => exact absurd hends (Nesting.ends_nil hn)
        | cons d seg =>
          obtain ⟨rfl, -⟩ := List.cons_prefix_cons.mp hpre
          rw [(Nesting.ends_cons_of_zero hn hc).mp hends]
    · have hpos := Nat.pos_of_ne_zero hc
      rw [if_neg hc, map_eq_some_iff]
      constructor
      · rintro ⟨tail, htail, rfl⟩
        obtain ⟨hpre, hends⟩ := (ih hpos).mp htail
        exact ⟨List.cons_prefix_cons.mpr ⟨rfl, hpre⟩,
          (Nesting.ends_cons_of_pos hn hpos).mpr hends⟩
      · rintro ⟨hpre, hends⟩
        cases seg with
        | nil => exact absurd hends (Nesting.ends_nil hn)
        | cons d seg =>
          obtain ⟨rfl, hshort⟩ := List.cons_prefix_cons.mp hpre
          exact ⟨seg, (ih hpos).mpr ⟨hshort, (Nesting.ends_cons_of_pos hn hpos).mp hends⟩, rfl⟩

theorem balancedPrefix_eq_some_closes {rest seg : List Char} :
    balancedPrefix b.opening b.closing 0 false false (b.opening :: rest) = some seg ↔
      seg <+: b.opening :: rest ∧ Closes b seg := by
  rw [balancedPrefix_opening, if_pos rfl, map_eq_some_iff]
  have hscan : ∀ tail, balancedPrefix b.opening b.closing (0 + 1) false false rest = some tail ↔
      tail <+: rest ∧ Nesting.Ends b ⟨1, false, false⟩ tail := fun tail =>
    balancedPrefix_eq_some (n := ⟨1, false, false⟩) Nat.one_pos
  constructor
  · rintro ⟨tail, htail, rfl⟩
    obtain ⟨hpre, hends⟩ := (hscan tail).mp htail
    exact ⟨List.cons_prefix_cons.mpr ⟨rfl, hpre⟩, rfl, hends⟩
  · rintro ⟨hpre, hhead, hends⟩
    obtain ⟨tail, rfl⟩ := List.head?_eq_some_iff.mp hhead
    exact ⟨tail, (hscan tail).mpr ⟨(List.cons_prefix_cons.mp hpre).2, hends⟩, rfl⟩

/-! ## What a bracket opens -/

section

variable (fromStr : JsonReader)

/-- The text reads as JSON as it stands, or else without its trailing commas. -/
def ReadsAs (seg : List Char) (json : String) : Prop :=
  ((fromStr (String.ofList seg)).isSome ∧ json = String.ofList seg) ∨
    ((fromStr (String.ofList seg)).isNone ∧
      json = String.ofList (stripTrailingCommas false false seg) ∧ json ≠ String.ofList seg ∧
      (fromStr json).isSome)

/-- The text begins with a bracket, and what that encloses reads as JSON. -/
def Opens (text : List Char) (json : String) : Prop :=
  ∃ b seg, seg <+: text ∧ Closes b seg ∧ ReadsAs fromStr seg json

end

variable {fromStr : JsonReader}

theorem extractBalanced_eq_some {rest : List Char} {json : String} :
    extractBalancedJsonCandidate fromStr b.opening b.closing (b.opening :: rest) = some json ↔
      ∃ seg, seg <+: b.opening :: rest ∧ Closes b seg ∧ ReadsAs fromStr seg json := by
  have hseg : ∀ seg, (if (fromStr (String.ofList seg)).isSome then some (String.ofList seg)
      else if String.ofList (stripTrailingCommas false false seg) ≠ String.ofList seg ∧
          (fromStr (String.ofList (stripTrailingCommas false false seg))).isSome
        then some (String.ofList (stripTrailingCommas false false seg)) else none) = some json ↔
      ReadsAs fromStr seg json := by
    intro seg
    unfold ReadsAs
    by_cases hread : (fromStr (String.ofList seg)).isSome = true
    · have hnot : ¬ (fromStr (String.ofList seg)).isNone = true := by
        rw [isNone_iff_eq_none]
        exact Option.isSome_iff_ne_none.mp hread
      rw [if_pos hread, some_inj]
      constructor
      · rintro rfl
        exact .inl ⟨hread, rfl⟩
      · rintro (⟨-, rfl⟩ | ⟨hnone, -⟩)
        · rfl
        · exact absurd hnone hnot
    · have hnone : (fromStr (String.ofList seg)).isNone = true := by simpa using hread
      rw [if_neg hread, ite_none_right_eq_some]
      constructor
      · rintro ⟨hrepaired, heq⟩
        cases heq
        exact .inr ⟨hnone, rfl, hrepaired⟩
      · rintro (⟨hsome, -⟩ | ⟨-, rfl, hrepaired⟩)
        · exact absurd hsome hread
        · exact ⟨hrepaired, rfl⟩
  unfold extractBalancedJsonCandidate
  cases hscan : balancedPrefix b.opening b.closing 0 false false (b.opening :: rest) with
  | none =>
    refine ⟨nofun, ?_⟩
    rintro ⟨seg, hpre, hcloses, -⟩
    rw [balancedPrefix_eq_some_closes.mpr ⟨hpre, hcloses⟩] at hscan
    cases hscan
  | some seg =>
    refine (hseg seg).trans ⟨fun h => ⟨seg, ?_⟩, ?_⟩
    · obtain ⟨hpre, hcloses⟩ := balancedPrefix_eq_some_closes.mp hscan
      exact ⟨hpre, hcloses, h⟩
    · rintro ⟨seg', hpre, hcloses, h⟩
      rw [balancedPrefix_eq_some_closes.mpr ⟨hpre, hcloses⟩] at hscan
      cases hscan
      exact h

theorem candidateHere_eq_some {text : List Char} {json : String} :
    candidateHere fromStr text = some json ↔ Opens fromStr text json := by
  constructor
  · intro h
    cases text with
    | nil => cases h
    | cons c rest =>
      rw [candidateHere] at h
      split_ifs at h with hcurly hsquare
      · subst hcurly
        obtain ⟨seg, hseg⟩ := (extractBalanced_eq_some (b := .curly)).mp h
        exact ⟨.curly, seg, hseg⟩
      · subst hsquare
        obtain ⟨seg, hseg⟩ := (extractBalanced_eq_some (b := .square)).mp h
        exact ⟨.square, seg, hseg⟩
  · rintro ⟨b, seg, hpre, hcloses, hreads⟩
    obtain ⟨tail, rfl⟩ := List.head?_eq_some_iff.mp hcloses.1
    obtain ⟨more, rfl⟩ := hpre
    rw [candidateHere_opening hcloses.1]
    exact extractBalanced_eq_some.mpr ⟨_, ⟨more, rfl⟩, hcloses, hreads⟩

/-! ## The response -/

/-- What the brackets of a text open, by the position of the bracket. -/
def OpensAt (fromStr : JsonReader) (text : List Char) (k : Nat) (json : String) : Prop :=
  Opens fromStr (text.drop k) json

/-- The first bracket before the call that opens a JSON text opens the call's text. -/
def ProseClear (fromStr : JsonReader) (before rest : List Char) (call : String) : Prop :=
  ∀ k json, k < before.length → OpensAt fromStr (before ++ rest) k json →
    (∀ j < k, ∀ other, ¬ OpensAt fromStr (before ++ rest) j other) → json = call

theorem extractEmbeddedJson_append_iff {before rest : List Char} {call : String}
    (hrest : extractEmbeddedJson fromStr rest = some call) :
    extractEmbeddedJson fromStr (before ++ rest) = some call ↔
      ProseClear fromStr before rest call := by
  induction before with
  | nil => exact ⟨fun _ k _ hk => absurd hk (Nat.not_lt_zero k), fun _ => hrest⟩
  | cons c before ih =>
    rw [cons_append, extractEmbeddedJson]
    cases hhere : candidateHere fromStr (c :: (before ++ rest)) with
    | some json =>
      have hopens : OpensAt fromStr (c :: before ++ rest) 0 json := candidateHere_eq_some.mp hhere
      rw [some_or, some_inj]
      constructor
      · rintro rfl k other _ hk hfirst
        cases k with
        | zero => exact Option.some.inj ((candidateHere_eq_some.mpr hk).symm.trans hhere)
        | succ k => exact absurd hopens (hfirst 0 (Nat.succ_pos k) json)
      · intro hclear
        exact hclear 0 json (Nat.succ_pos _) hopens fun j hj => absurd hj (Nat.not_lt_zero j)
    | none =>
      have hnone : ∀ json, ¬ OpensAt fromStr (c :: before ++ rest) 0 json := by
        intro json hopens
        have hsome : candidateHere fromStr (c :: (before ++ rest)) = some json :=
          candidateHere_eq_some.mpr hopens
        rw [hhere] at hsome
        cases hsome
      rw [none_or, ih]
      constructor
      · intro hclear k json hk hopens hfirst
        cases k with
        | zero => exact absurd hopens (hnone json)
        | succ k =>
          exact hclear k json (Nat.lt_of_succ_lt_succ hk) hopens fun j hj =>
            hfirst (j + 1) (Nat.succ_lt_succ hj)
      · intro hclear k json hk hopens hfirst
        refine hclear (k + 1) json (Nat.succ_lt_succ hk) hopens fun j hj other => ?_
        cases j with
        | zero => exact hnone other
        | succ j => exact hfirst j (Nat.lt_of_succ_lt_succ hj) other

/-- The trimmed text between a fence and the end of its block. -/
def Fenced (text fence block : String) : Prop :=
  ∃ before content raw after, splitOnce fence.toList text.toList = some (before, content) ∧
    splitOnce "```".toList content = some (raw, after) ∧ block = String.ofList (trimChars raw)

/-- The text is an object or an array that can be read. -/
def IsContainer (fromStr : JsonReader) (text : String) : Prop :=
  isJsonContainer text = true ∧ (fromStr text).isSome = true

theorem fencedBlock_eq_some {text fence json : String} :
    fencedBlock fromStr text fence = some json ↔
      Fenced text fence json ∧ IsContainer fromStr json := by
  unfold fencedBlock Fenced IsContainer
  cases hopen : splitOnce fence.toList text.toList with
  | none => simp
  | some parts =>
    obtain ⟨before, content⟩ := parts
    dsimp only
    cases hclose : splitOnce "```".toList content with
    | none =>
      refine ⟨nofun, ?_⟩
      rintro ⟨⟨before', content', raw, after, hparts, hblock, -⟩, -⟩
      cases hparts
      rw [hclose] at hblock
      cases hblock
    | some parts =>
      obtain ⟨raw, after⟩ := parts
      rw [ite_none_right_eq_some, Bool.and_eq_true, some_inj]
      constructor
      · rintro ⟨hread, rfl⟩
        exact ⟨⟨before, content, raw, after, rfl, hclose, rfl⟩, hread⟩
      · rintro ⟨⟨before', content', raw', after', hparts, hclose', rfl⟩, hread⟩
        cases hparts
        rw [hclose] at hclose'
        cases hclose'
        exact ⟨hread, rfl⟩

/-- The first fence, in the order they are tried, that has an object or array behind it has
this one. -/
def FirstFenced (fromStr : JsonReader) (text json : String) : Prop :=
  ∃ earlier fence later, fences = earlier ++ fence :: later ∧ Fenced text fence json ∧
    IsContainer fromStr json ∧
    ∀ other ∈ earlier, ∀ block, Fenced text other block → ¬ IsContainer fromStr block

theorem extractFromCodeBlock_eq_some {text json : String} :
    extractFromCodeBlock fromStr text = some json ↔ FirstFenced fromStr text json := by
  have hnone : ∀ fence, fencedBlock fromStr text fence = none ↔
      ∀ block, Fenced text fence block → ¬ IsContainer fromStr block := by
    intro fence
    rw [eq_none_iff_forall_not_mem]
    refine forall_congr' fun block => ?_
    rw [Option.mem_def, fencedBlock_eq_some, not_and]
  rw [extractFromCodeBlock, findSome?_eq_some_iff]
  simp only [FirstFenced, fencedBlock_eq_some, hnone, and_assoc]

/-- Where the response is the call between two other texts: nothing but white space is there,
or neither the whole response, nor a fenced block, nor a bracket of the text before the call
gives another JSON text first. -/
def Unhidden (fromStr : JsonReader) (before call after : String) : Prop :=
  ((∀ c ∈ before.toList, isWhitespace c = true) ∧ ∀ c ∈ after.toList, isWhitespace c = true) ∨
    (¬ IsContainer fromStr (trim (before ++ call ++ after)) ∧
      (FirstFenced fromStr (trim (before ++ call ++ after)) call ∨
        ((∀ block, ¬ FirstFenced fromStr (trim (before ++ call ++ after)) block) ∧
          ProseClear fromStr (before.toList.dropWhile isWhitespace)
            (call.toList ++ after.toList.rdropWhile isWhitespace) call)))

/-- A JSON object that the parser takes for a tool call. -/
structure CallText (fromStr : JsonReader) (isKnownTool : String → Bool) (call : String) :
    Prop where
  json : Derives .value call.toList
  object : call.toList.head? = some '{'
  names : ∃ v, fromStr call = some v ∧ (parseToolCallValue fromStr isKnownTool v).isSome = true

section

variable {isKnownTool : String → Bool} {before call after : String}

theorem CallText.reads (h : CallText fromStr isKnownTool call) : (fromStr call).isSome = true := by
  obtain ⟨v, hv, -⟩ := h.names
  rw [hv]
  rfl

theorem CallText.braces (h : CallText fromStr isKnownTool call) :
    ∃ t, call.toList = '{' :: (t ++ ['}']) := by
  obtain ⟨t, ht, -⟩ := exists_inner (b := .curly) h.json h.object
  exact ⟨t, ht⟩

theorem CallText.isContainer (h : CallText fromStr isKnownTool call) :
    IsContainer fromStr call := by
  obtain ⟨t, ht⟩ := h.braces
  refine ⟨?_, h.reads⟩
  have hstart : startsWith "\x7b" call = true := by
    unfold startsWith
    rw [ht]
    rfl
  have hend : endsWith "\x7d" call = true := by
    unfold endsWith
    rw [ht, isSuffixOf_iff_suffix]
    exact ⟨'{' :: t, rfl⟩
  rw [isJsonContainer, hstart, hend]
  rfl

theorem CallText.trim (h : CallText fromStr isKnownTool call) :
    (Text.trim (before ++ call ++ after)).toList = before.toList.dropWhile isWhitespace ++
      (call.toList ++ after.toList.rdropWhile isWhitespace) := by
  obtain ⟨t, ht⟩ := h.braces
  have hleft : ∀ s, (before.toList ++ (call.toList ++ s)).dropWhile isWhitespace =
      before.toList.dropWhile isWhitespace ++ (call.toList ++ s) := by
    intro s
    rw [dropWhile_append, ht]
    split_ifs with hblank
    · rw [List.isEmpty_iff.mp hblank]
      rfl
    · rfl
  have hright : ∀ s, (s ++ (call.toList ++ after.toList)).rdropWhile isWhitespace =
      s ++ (call.toList ++ after.toList.rdropWhile isWhitespace) := by
    intro s
    have hlast : call.toList.reverse = '}' :: (t.reverse ++ ['{']) := by
      rw [ht]
      simp
    unfold List.rdropWhile
    rw [reverse_append, reverse_append, append_assoc, dropWhile_append, hlast]
    split_ifs with hblank
    · rw [List.isEmpty_iff.mp hblank, cons_append, dropWhile_cons_of_neg (by decide),
        ← cons_append, ← hlast]
      simp
    · rw [← hlast]
      simp
  rw [Text.trim, String.toList_ofList, trimChars, String.toList_append, String.toList_append,
    append_assoc, hleft, hright]

theorem CallText.extracted (h : CallText fromStr isKnownTool call) (s : List Char) :
    extractEmbeddedJson fromStr (call.toList ++ s) = some call := by
  have hscan := (scans_keep_json.1 fromStr .curly call.toList s h.json h.object).2
  rw [String.ofList_toList, if_pos h.reads] at hscan
  obtain ⟨t, ht⟩ := h.braces
  rw [ht, cons_append] at hscan ⊢
  rw [extractEmbeddedJson, hscan, some_or]

/-- A response gives the call in it exactly where nothing hides it. -/
theorem call_found_iff (h : CallText fromStr isKnownTool call) :
    extractJson fromStr (before ++ call ++ after) = some call ↔
      Unhidden fromStr before call after := by
  have htrim := @CallText.trim fromStr isKnownTool before call after h
  have hcall : Text.trim (before ++ call ++ after) = call ↔
      (∀ c ∈ before.toList, isWhitespace c = true) ∧ ∀ c ∈ after.toList, isWhitespace c = true := by
    rw [← String.toList_inj, htrim, ← dropWhile_eq_nil_iff, ← List.rdropWhile_eq_nil_iff]
    constructor
    · intro heq
      have hlength := congrArg List.length heq
      simp only [length_append] at hlength
      exact ⟨List.length_eq_zero_iff.mp (by omega), List.length_eq_zero_iff.mp (by omega)⟩
    · rintro ⟨hbefore, hafter⟩
      rw [hbefore, hafter, append_nil, nil_append]
  unfold extractJson Unhidden
  dsimp only
  by_cases hwhole : IsContainer fromStr (Text.trim (before ++ call ++ after))
  · rw [if_pos (by rw [hwhole.1, hwhole.2]; rfl), some_inj, hcall]
    exact ⟨.inl, fun hcond => hcond.resolve_right fun hright => hright.1 hwhole⟩
  · have hnot : ¬ (isJsonContainer (Text.trim (before ++ call ++ after)) &&
        (fromStr (Text.trim (before ++ call ++ after))).isSome) = true := by
      rw [Bool.and_eq_true]
      exact hwhole
    have hsurrounded : ¬ ((∀ c ∈ before.toList, isWhitespace c = true) ∧
        ∀ c ∈ after.toList, isWhitespace c = true) := by
      rw [← hcall]
      intro heq
      rw [heq] at hwhole
      exact hwhole h.isContainer
    rw [if_neg hnot, or_eq_some_iff, extractFromCodeBlock_eq_some, htrim,
      extractEmbeddedJson_append_iff (h.extracted _), eq_none_iff_forall_not_mem]
    simp only [Option.mem_def, extractFromCodeBlock_eq_some]
    constructor
    · intro hgives
      exact .inr ⟨hwhole, hgives⟩
    · rintro (hblank | ⟨-, hgives⟩)
      · exact absurd hblank hsurrounded
      · exact hgives

end

/-! ## A citation before a call -/

def timeCall : String := "\x7b\"tool\":\"get_time\"\x7d"

/-- The reader on two texts: a citation mark and the call. -/
def citedReader : JsonReader := fun s =>
  if s = "[1]" then some (.array [.number (.posInt 1)])
  else if s = timeCall then some (.object [("tool", .string "get_time")])
  else none

theorem timeCall_derives : Derives .value timeCall.toList := by
  have hliteral : ∀ body, Body body → Literal ('"' :: (body ++ ['"'])) :=
    fun body hbody => ⟨body, hbody, rfl⟩
  have hplain : ∀ body : List Char,
      (body.all fun c => c ≠ '"' && c ≠ '\\' && decide (32 ≤ c.toNat)) = true → Body body := by
    intro body hall
    induction body with
    | nil => exact .nil
    | cons c rest ih =>
      rw [List.all_cons, Bool.and_eq_true] at hall
      obtain ⟨hc, hrest⟩ := hall
      simp only [ne_eq, Bool.and_eq_true, decide_eq_true_eq] at hc
      exact .plain hc.1.1 hc.1.2 hc.2 (ih hrest)
  have hblank : Blank [] := fun _ hc => absurd hc List.not_mem_nil
  have hname := hliteral "tool".toList (hplain _ (by decide))
  have hvalue := hliteral "get_time".toList (hplain _ (by decide))
  have hfield := Derives.field hname hblank hblank (.literal hvalue)
  exact .full (.last hblank hfield hblank)

theorem timeCall_callText : CallText citedReader (fun _ => false) timeCall where
  json := timeCall_derives
  object := by decide
  names := by
    refine ⟨.object [("tool", .string "get_time")], ?_, rfl⟩
    rw [citedReader, if_neg (by decide), if_pos rfl]

/-- The condition holds in plain prose. -/
theorem call_found_sure : Unhidden citedReader "Sure: " timeCall "" :=
  (call_found_iff timeCall_callText).mp (by decide +kernel)

/-- A citation before the call is extracted in its place. -/
theorem citation_hides_call :
    ¬ ∀ (fromStr : JsonReader) (isKnownTool : String → Bool) (before call after : String),
      CallText fromStr isKnownTool call →
      (∀ t, t <:+: before.toList → ¬ CallText fromStr isKnownTool (String.ofList t)) →
      extractJson fromStr (before ++ call ++ after) = some call := by
  intro hclaim
  have hprose : ∀ t, t <:+: "[1] ".toList →
      ¬ CallText citedReader (fun _ => false) (String.ofList t) := by
    intro t ht hcall
    obtain ⟨rest, hrest⟩ := List.head?_eq_some_iff.mp hcall.object
    rw [String.toList_ofList] at hrest
    have hmem : '{' ∈ "[1] ".toList := ht.subset (hrest ▸ List.mem_cons_self)
    exact absurd hmem (by decide)
  have hgives := hclaim citedReader (fun _ => false) "[1] " timeCall "" timeCall_callText hprose
  have hcited : extractJson citedReader ("[1] " ++ timeCall ++ "") = some "[1]" := by
    decide +kernel
  rw [hcited] at hgives
  exact absurd hgives (by decide)

end GenieClaw.Parser
