import GenieClaw.Home.Provider
import GenieClaw.Library.AsciiSearch

/-!
# Action verbs in the grounded metric

`canon_action` of `eval/bfcl.rs` beside `canon_home_control_action` of
`tools/home_action.rs`. The lower-casing of a text is a parameter: `LowerCasing` is what
the standard library promises of it, letter by letter.

The two tables differ in one row. The runtime folds `activate_scene` into `activate`, the
metric leaves it as it is.

* `canonAction_credits_iff` (`LowerCasing`): the metric credits what the runtime executes alike, but
  for a scene verb beside the plain one.
-/

namespace GenieClaw.Eval

open Library Library.Text Home

section

variable (toLowercase : String → String)

/-- `raw.trim().to_lowercase().replace([' ', '-'], "_")`. -/
def normalizedAction (raw : String) : String := underscored (toLowercase (trim raw))

/-- The runtime's canonical verb, over any lower-casing. -/
def canonHomeControlActionBy (raw : String) : Option String :=
  if isCanonicalShape raw then mapSynonym raw else mapSynonym (normalizedAction toLowercase raw)

def foldSynonyms (normalized : String) : String :=
  match normalized with
  | "deactivate" => "turn_off"
  | "disable" => "turn_off"
  | "switch_off" => "turn_off"
  | "power_off" => "turn_off"
  | "shut_off" => "turn_off"
  | "turn_off" => "turn_off"
  | "enable" => "turn_on"
  | "switch_on" => "turn_on"
  | "power_on" => "turn_on"
  | "turn_on" => "turn_on"
  | other => other

def canonAction (text : String) : String := foldSynonyms (normalizedAction toLowercase text)

/-- The runtime executes the two spellings alike. -/
def ExecutedAlike (a b : String) : Prop :=
  (∃ verb, canonHomeControlActionBy toLowercase a = some verb ∧
    canonHomeControlActionBy toLowercase b = some verb) ∨
  (canonHomeControlActionBy toLowercase a = none ∧ canonHomeControlActionBy toLowercase b = none ∧
    normalizedAction toLowercase a = normalizedAction toLowercase b)

/-- One spelling asks for `activate`, the other for `activate_scene`. -/
def SceneBesidePlain (a b : String) : Prop :=
  (normalizedAction toLowercase a = "activate" ∧
    normalizedAction toLowercase b = "activate_scene") ∨
  (normalizedAction toLowercase a = "activate_scene" ∧ normalizedAction toLowercase b = "activate")

end

/-! ## The fast path -/

variable {toLowercase : String → String}

theorem isAsciiLowercase_bounds {c : Char} (h : isAsciiLowercase c = true) :
    97 ≤ c.toNat ∧ c.toNat ≤ 122 := by
  simp only [isAsciiLowercase, Bool.and_eq_true, decide_eq_true_eq] at h
  exact ⟨UInt32.le_iff_toNat_le.mp h.1, UInt32.le_iff_toNat_le.mp h.2⟩

theorem canonical_char {raw : String} (h : isCanonicalShape raw = true) :
    ∀ c ∈ raw.toList, 33 ≤ c.toNat ∧ c.toNat ≤ 126 ∧ c.toLower = c ∧ c ≠ '-' := by
  intro c hc
  simp only [isCanonicalShape, Bool.and_eq_true, List.all_eq_true, Bool.or_eq_true,
    beq_iff_eq] at h
  rcases h.2 c hc with rfl | hlow
  · decide
  · obtain ⟨hlo, hhi⟩ := isAsciiLowercase_bounds hlow
    refine ⟨by omega, by omega, toLower_eq_self (by omega), ?_⟩
    rintro rfl
    exact absurd hlo (by decide)

theorem trim_printable {s : String} (h : ∀ c ∈ s.toList, 33 ≤ c.toNat ∧ c.toNat ≤ 126) :
    trim s = s := by
  have hhead : s.toList.dropWhile isWhitespace = s.toList := by
    apply dropWhile_eq_self_of_head
    intro c hc
    exact isWhitespace_printable (h c (List.mem_of_mem_head? hc))
  unfold trim trimChars
  rw [hhead, List.rdropWhile_eq_self_iff.mpr, String.ofList_toList]
  intro hne
  rw [isWhitespace_printable (h _ (List.getLast_mem hne))]
  decide

theorem flatten_pieces_of_lower {cs : List Char} {pieces : List (List Char)}
    (hpieces : List.Forall₂ LowerPiece cs pieces)
    (h : ∀ c ∈ cs, c.toNat ≤ 126 ∧ c.toLower = c) : pieces.flatten = cs := by
  induction hpieces with
  | nil => rfl
  | @cons c piece cs pieces hpiece _ ih =>
    have hc := h c List.mem_cons_self
    have hpiece' : piece = [c] := by
      cases hpiece with
      | ascii _ => rw [hc.2]
      | kelvin => exact absurd hc.1 (by decide)
      | dottedI hdot => omega
      | other hhigh _ => omega
    rw [List.flatten_cons, hpiece', ih fun d hd => h d (List.mem_cons_of_mem c hd),
      List.singleton_append]

theorem normalizedAction_canonical (hlower : LowerCasing toLowercase) {raw : String}
    (h : isCanonicalShape raw = true) : normalizedAction toLowercase raw = raw := by
  have hchars := canonical_char h
  have htrim : trim raw = raw := trim_printable fun c hc => ⟨(hchars c hc).1, (hchars c hc).2.1⟩
  have hlow : toLowercase raw = raw := by
    obtain ⟨pieces, hpieces, heq⟩ := hlower raw
    apply String.toList_inj.mp
    rw [heq]
    exact flatten_pieces_of_lower hpieces fun c hc => (hchars c hc).2.imp_right And.left
  unfold normalizedAction underscored
  rw [htrim, hlow]
  apply String.toList_inj.mp
  rw [String.toList_ofList]
  conv_rhs => rw [← List.map_id raw.toList]
  apply List.map_congr_left
  intro c hc
  obtain ⟨hlo, -, -, hdash⟩ := hchars c hc
  apply if_neg
  rintro (rfl | rfl)
  · exact absurd hlo (by decide)
  · exact hdash rfl

theorem canonHomeControlActionBy_eq (hlower : LowerCasing toLowercase) (raw : String) :
    canonHomeControlActionBy toLowercase raw = mapSynonym (normalizedAction toLowercase raw) := by
  unfold canonHomeControlActionBy
  split
  · next h => rw [normalizedAction_canonical hlower h]
  · rfl

/-! ## The two tables -/

/-- The runtime's table: the metric's, and `activate` for `activate_scene`. -/
def runtimeFold (normalized : String) : String :=
  if normalized = "activate_scene" then "activate" else foldSynonyms normalized

theorem foldSynonyms_cases (x : String) :
    foldSynonyms x = x ∨ foldSynonyms x = "turn_off" ∨ foldSynonyms x = "turn_on" := by
  unfold foldSynonyms
  split
  all_goals first | exact Or.inr (Or.inl rfl) | exact Or.inr (Or.inr rfl) | exact Or.inl rfl

theorem mapSynonym_eq (x : String) :
    mapSynonym x = homeControlActions.find? fun a => a == runtimeFold x := by
  unfold mapSynonym runtimeFold
  split
  case h_9 => rfl
  case h_10 _ hoff1 hoff2 hoff3 hoff4 hoff5 hon1 hon2 hon3 hscene =>
    rw [if_neg hscene]
    have hfold : foldSynonyms x = x := by
      unfold foldSynonyms
      split <;> first | rfl | contradiction
    rw [hfold]
  all_goals rfl

theorem find?_beq_eq_some {l : List String} {x m : String} :
    l.find? (fun a => a == x) = some m ↔ m = x ∧ x ∈ l := by
  constructor
  · intro h
    have hm := List.find?_some h
    rw [beq_iff_eq] at hm
    exact ⟨hm, hm ▸ List.mem_of_find?_eq_some h⟩
  · rintro ⟨rfl, hmem⟩
    cases hfind : l.find? (fun a => a == m) with
    | none => exact absurd (List.find?_eq_none.mp hfind m hmem) (by simp)
    | some a =>
      have ha := List.find?_some hfind
      rw [beq_iff_eq] at ha
      rw [ha]

theorem mapSynonym_eq_some {x verb : String} :
    mapSynonym x = some verb ↔ verb = runtimeFold x ∧ runtimeFold x ∈ homeControlActions := by
  rw [mapSynonym_eq, find?_beq_eq_some]

theorem mapSynonym_eq_none {x : String} :
    mapSynonym x = none ↔ runtimeFold x ∉ homeControlActions := by
  rw [Option.eq_none_iff_forall_ne_some]
  constructor
  · intro h hmem
    exact h _ (mapSynonym_eq_some.mpr ⟨rfl, hmem⟩)
  · intro h verb hverb
    exact h (mapSynonym_eq_some.mp hverb).2

theorem runtimeFold_of_notMem {x : String} (h : runtimeFold x ∉ homeControlActions) :
    runtimeFold x = x := by
  unfold runtimeFold at h ⊢
  split at h
  · exact absurd h (by decide)
  · next hscene =>
    rw [if_neg hscene]
    rcases foldSynonyms_cases x with heq | heq | heq
    · exact heq
    · rw [heq] at h
      exact absurd h (by decide)
    · rw [heq] at h
      exact absurd h (by decide)

theorem executedAlike_iff (hlower : LowerCasing toLowercase) (a b : String) :
    ExecutedAlike toLowercase a b ↔
      runtimeFold (normalizedAction toLowercase a) =
        runtimeFold (normalizedAction toLowercase b) := by
  unfold ExecutedAlike
  simp only [canonHomeControlActionBy_eq hlower, mapSynonym_eq_some, mapSynonym_eq_none]
  generalize normalizedAction toLowercase a = x
  generalize normalizedAction toLowercase b = y
  constructor
  · rintro (⟨verb, ⟨hx, -⟩, hy, -⟩ | ⟨-, -, rfl⟩)
    · rw [← hx, hy]
    · rfl
  · intro heq
    by_cases hx : runtimeFold x ∈ homeControlActions
    · exact Or.inl ⟨_, ⟨rfl, hx⟩, heq, heq ▸ hx⟩
    · have hy : runtimeFold y ∉ homeControlActions := heq ▸ hx
      refine Or.inr ⟨hx, hy, ?_⟩
      rw [← runtimeFold_of_notMem hx, heq, runtimeFold_of_notMem hy]

theorem foldSynonyms_eq_iff {x form : String} (hoff : form ≠ "turn_off") (hon : form ≠ "turn_on")
    (hfix : foldSynonyms form = form) : foldSynonyms x = form ↔ x = form := by
  constructor
  · intro h
    rcases foldSynonyms_cases x with heq | heq | heq
    · rw [← heq, h]
    · exact absurd (h.symm.trans heq) hoff
    · exact absurd (h.symm.trans heq) hon
  · rintro rfl
    exact hfix

theorem foldSynonyms_congr_iff (x y : String) :
    (foldSynonyms x = foldSynonyms y ↔ runtimeFold x = runtimeFold y) ↔
      ¬ ((x = "activate" ∧ y = "activate_scene") ∨ (x = "activate_scene" ∧ y = "activate")) := by
  have hscene : ∀ z, foldSynonyms z = "activate_scene" ↔ z = "activate_scene" := fun z =>
    foldSynonyms_eq_iff (by decide) (by decide) (by decide)
  have hplain : ∀ z, foldSynonyms z = "activate" ↔ z = "activate" := fun z =>
    foldSynonyms_eq_iff (by decide) (by decide) (by decide)
  have hparts : ("activate_scene" : String) ≠ "activate" := by decide
  unfold runtimeFold
  by_cases hx : x = "activate_scene"
  · by_cases hy : y = "activate_scene"
    · subst hx hy
      simp [hparts]
    · subst hx
      rw [if_pos rfl, if_neg hy, show foldSynonyms "activate_scene" = "activate_scene" from rfl,
        eq_comm (a := "activate_scene"), hscene, eq_comm (a := "activate"), hplain]
      simp [hy, hparts]
  · by_cases hy : y = "activate_scene"
    · subst hy
      rw [if_pos rfl, if_neg hx, show foldSynonyms "activate_scene" = "activate_scene" from rfl,
        hscene, hplain]
      simp [hx, hparts]
    · simp [hx, hy]

/-- The metric credits exactly what the runtime executes alike, but for a scene verb against
the plain one; and the fast path is no more than a short cut. -/
theorem canonAction_credits_iff (hlower : LowerCasing toLowercase) :
    (∀ a b, (canonAction toLowercase a = canonAction toLowercase b ↔
        ExecutedAlike toLowercase a b) ↔ ¬ SceneBesidePlain toLowercase a b) ∧
      ∀ raw, isCanonicalShape raw = true →
        mapSynonym raw = mapSynonym (normalizedAction toLowercase raw) := by
  constructor
  · intro a b
    rw [executedAlike_iff hlower]
    exact foldSynonyms_congr_iff _ _
  · intro raw h
    rw [normalizedAction_canonical hlower h]

theorem canonAction_credits_ascii :
    ExecutedAlike Text.toLowercase "Turn-Off" "shut off" ∧
      mapSynonym "switch_off" = mapSynonym (normalizedAction Text.toLowercase "switch_off") := by
  obtain ⟨hiff, hfast⟩ := canonAction_credits_iff lowerCasing_toLowercase
  have hcredits :
      canonAction Text.toLowercase "Turn-Off" = canonAction Text.toLowercase "shut off" ↔
        ExecutedAlike Text.toLowercase "Turn-Off" "shut off" :=
    (hiff _ _).mpr (by unfold SceneBesidePlain; decide +kernel)
  exact ⟨hcredits.mp (by decide +kernel), hfast _ (by decide +kernel)⟩

/-- The runtime activates for both spellings, the metric scores them apart. -/
theorem canonAction_parts_scene :
    ¬ ∀ a b, canonAction Text.toLowercase a = canonAction Text.toLowercase b ↔
      ExecutedAlike Text.toLowercase a b := by
  intro h
  have halike : ExecutedAlike Text.toLowercase "activate" "activate scene" :=
    Or.inl ⟨"activate", by decide +kernel, by decide +kernel⟩
  exact absurd ((h _ _).mpr halike) (by decide +kernel)

end GenieClaw.Eval
