import GenieClaw.Quick.HomeControl

/-!
# Delayed home control

A request with a clause `in T` for a time `T` should be left to the model, which can arm the delay.
The guard looks at what follows the last `in` of the request only.

* `isTimeExpression_tail`: what follows the last `in` ends like what follows any `in`.
* `homeControlRequest_none_iff` (the request carries a delay): when it is left to the model.
-/

namespace GenieClaw.Quick

open Library Library.Text List Option

/-! ## Requests with a delay -/

def delayVerbs : List String := ["turn on", "turn off", "set", "preheat"]

/-- The piece begins with a blank, unless it is empty. -/
def Apart (piece : String) : Prop := piece = "" ∨ ∃ rest, piece = " " ++ rest

/-- Somewhere behind the verb there is a clause `in T` for a time expression `T`. -/
def CarriesDelay (text : String) : Prop :=
  ∃ verb ∈ delayVerbs, ∃ before time after, text = verb ++ before ++ " in " ++ time ++ after ∧
    Apart before ∧ Apart after ∧ isTimeExpression time = true

/-- The clause is the end of the request, and the device stands in front of it. -/
def EndsWithDelay (text : String) : Prop :=
  ∃ verb ∈ delayVerbs, ∃ device time, text = verb ++ " " ++ device ++ " in " ++ time ∧
    trim time = time ∧ isTimeExpression time = true

/-- A single device that the router can name. -/
structure NamesDevice (rest : String) : Prop where
  nonempty : cleanControlEntity rest ≠ ""
  single : isMultiClause rest = false
  known : knownDevice (cleanControlEntity rest) = true

/-- A number for a light or for something that is heated or cooled. -/
def NamesSetpoint (doubles : Doubles) (text rest : String) : Prop :=
  ∃ target, parseTemperatureTarget doubles rest = some target ∧
    (isLightEntity target.1 = true ∨ startsWith "preheat " text = true ∨
      isTemperatureEntity target.1 = true)

/-- The request is not the one of the slow cooker, which is read by its beginning alone, and what
follows the last `in` is a time unless the request names nothing to control. -/
structure HeedsDelay (doubles : Doubles) (text : String) : Prop where
  cooker : isSlowCooker text = false
  turn : ∀ rest action, turnVerb text = some (rest, action) →
    endsInTime rest = true ∨ ¬ NamesDevice rest
  set : ∀ rest, setVerb text = some rest →
    endsInTime rest = true ∨ ¬ NamesSetpoint doubles text rest

variable {doubles : Doubles} {text : String}

/-! ## The fixed phrases -/

theorem CarriesDelay.hasIn (h : CarriesDelay text) : " in ".toList <:+: text.toList := by
  obtain ⟨verb, -, before, time, after, rfl, -⟩ := h
  refine ⟨(verb ++ before).toList, (time ++ after).toList, ?_⟩
  simp only [String.toList_append, append_assoc]

theorem fixedRequest_eq_none {table : List (List String × HomeRequest)}
    (htable : (table.all fun entry => entry.1.all fun phrase => !containsText phrase " in ") = true)
    (h : " in ".toList <:+: text.toList) : fixedRequest table text = none := by
  unfold fixedRequest
  rw [map_eq_none_iff, find?_eq_none]
  intro entry hentry hcontains
  have hphrases := List.all_eq_true.mp htable entry hentry
  have hphrase := List.all_eq_true.mp hphrases text (List.contains_iff_mem.mp hcontains)
  rw [containsText, decide_eq_true h] at hphrase
  exact absurd hphrase (by decide)

theorem CarriesDelay.verb (h : CarriesDelay text) :
    ∃ verb ∈ delayVerbs, startsWith (verb ++ " ") text = true := by
  obtain ⟨verb, hverb, before, time, after, rfl, hbefore, -⟩ := h
  refine ⟨verb, hverb, startsWith_iff.mpr ?_⟩
  rcases hbefore with rfl | ⟨rest, rfl⟩
  · refine ⟨"in ".toList ++ (time ++ after).toList, ?_⟩
    have hin : " in " = " " ++ "in " := by decide
    rw [hin]
    simp only [String.toList_append, append_assoc, String.toList_empty, nil_append]
  · refine ⟨(rest ++ " in " ++ time ++ after).toList, ?_⟩
    simp only [String.toList_append, append_assoc]

theorem CarriesDelay.not_sprinklers (h : CarriesDelay text) :
    (startsWith "stop the sprinklers" text || startsWith "pause the sprinklers" text) = false := by
  obtain ⟨verb, hverb, hstarts⟩ := h.verb
  have hapart : ∀ other ∈ ["stop the sprinklers", "pause the sprinklers"],
      ∀ verb ∈ delayVerbs, startsWith (verb ++ " ") other = false ∧
        startsWith other (verb ++ " ") = false := by decide
  rw [Bool.or_eq_false_iff]
  exact ⟨startsWith_eq_false hstarts (hapart _ (by simp) verb hverb),
    startsWith_eq_false hstarts (hapart _ (by simp) verb hverb)⟩

/-! ## The two paths -/

theorem simpleTurnRequest_eq_none :
    simpleTurnRequest text = none ↔ ∀ rest action, turnVerb text = some (rest, action) →
      endsInTime rest = true ∨ ¬ NamesDevice rest := by
  unfold simpleTurnRequest
  cases hverb : turnVerb text with
  | none => simp
  | some verb =>
    obtain ⟨rest, action⟩ := verb
    rw [bind_some]
    have hnames : NamesDevice rest ↔ cleanControlEntity rest ≠ "" ∧ isMultiClause rest = false ∧
        knownDevice (cleanControlEntity rest) = true :=
      ⟨fun h => ⟨h.nonempty, h.single, h.known⟩, fun h => ⟨h.1, h.2.1, h.2.2⟩⟩
    have hall : (∀ rest' action', some (rest, action) = some (rest', action') →
        endsInTime rest' = true ∨ ¬ NamesDevice rest') ↔
          endsInTime rest = true ∨ ¬ NamesDevice rest :=
      ⟨fun h => h rest action rfl, fun h rest' action' heq => by cases heq; exact h⟩
    rw [hall, hnames]
    dsimp only
    split
    · simp_all
    · split
      · simp_all
      · split
        · simp_all
        · split
          · simp_all
          · simp_all

theorem setRequest_eq_none :
    setRequest doubles text = none ↔ ∀ rest, setVerb text = some rest →
      endsInTime rest = true ∨ ¬ NamesSetpoint doubles text rest := by
  unfold setRequest
  cases hverb : setVerb text with
  | none => simp
  | some rest =>
    rw [bind_some]
    have hall : (∀ rest', some rest = some rest' →
        endsInTime rest' = true ∨ ¬ NamesSetpoint doubles text rest') ↔
          endsInTime rest = true ∨ ¬ NamesSetpoint doubles text rest :=
      ⟨fun h => h rest rfl, fun h rest' heq => by cases heq; exact h⟩
    rw [hall]
    split
    · simp_all
    · rename_i hguard
      rw [or_iff_right hguard]
      unfold NamesSetpoint
      cases htarget : parseTemperatureTarget doubles rest with
      | none => simp
      | some target =>
        rw [bind_some]
        split
        · simp_all
        · split
          · simp_all
          · simp_all

/-! ## A delay at the end -/

/-- A word that makes a time of what it ends. -/
def isTimeWord (word : String) : Bool := isTimeUnit word || timesOfDay.contains word

theorem isTimeExpression_iff {location : String} : isTimeExpression location = true ↔
    location ∈ ["a while", "a bit", "a moment"] ∨
      ∃ word, lastWord location.toList = some word ∧ isTimeWord (String.ofList word) = true := by
  have hlast : (splitWhitespace location).getLast? =
      (lastWord location.toList).map String.ofList := by
    unfold splitWhitespace lastWord wordsBy
    rw [getLast?_map]
  have hword : ∀ phrase ∈ timePhrases, phrase ∈ ["a while", "a bit", "a moment"] ∨
      ((lastWord phrase.toList).any fun word => isTimeWord (String.ofList word)) = true := by
    decide
  unfold isTimeExpression
  rw [hlast, Bool.or_eq_true, contains_iff_mem, Option.any_map, Option.any_eq_true]
  constructor
  · rintro (hphrase | hend)
    · rcases hword location hphrase with h | h
      · exact Or.inl h
      · rw [Option.any_eq_true] at h
        exact Or.inr h
    · exact Or.inr hend
  · rintro (hphrase | hend)
    · have hsub : ∀ phrase ∈ ["a while", "a bit", "a moment"], phrase ∈ timePhrases := by decide
      exact Or.inl (hsub location hphrase)
    · exact Or.inr hend

theorem lastWord_dropRepeated {word : List Char} (hthe : word ≠ "the".toList) (n : Nat)
    {cs : List Char} (h : lastWord cs = some word) :
    lastWord (dropRepeated "the ".toList n cs) = some word := by
  induction n generalizing cs with
  | zero => exact h
  | succ n ih =>
    rw [dropRepeated]
    split
    · rename_i hprefix
      obtain ⟨rest, rfl⟩ := List.isPrefixOf_iff_prefix.mp hprefix
      rw [drop_left]
      refine ih ?_
      have hcut : "the ".toList ++ rest = "the".toList ++ ' ' :: rest := rfl
      rw [hcut] at h
      by_cases hrest : wordsBy isWhitespace rest = []
      · -- nothing but `the` would be left
        have hwords : wordsBy isWhitespace ("the".toList ++ ' ' :: rest) = ["the".toList] := by
          rw [wordsBy_append_break (by decide), hrest]
          decide
        rw [lastWord, hwords] at h
        exact absurd (Option.some.inj h).symm hthe
      · rwa [lastWord_append (by decide) hrest] at h
    · exact h

theorem isTimeExpression_guard {tail : String} (h : isTimeExpression tail = true) :
    isTimeExpression (trim (trimStartMatches "the " (trim tail))) = true := by
  rcases isTimeExpression_iff.mp h with hphrase | ⟨word, hlast, htime⟩
  · have hall : ∀ phrase ∈ ["a while", "a bit", "a moment"],
        isTimeExpression (trim (trimStartMatches "the " (trim phrase))) = true := by decide
    exact hall tail hphrase
  · refine isTimeExpression_iff.mpr (Or.inr ⟨word, ?_, htime⟩)
    have hthe : word ≠ "the".toList := by
      rintro rfl
      exact absurd htime (by decide)
    unfold trim trimStartMatches
    rw [String.toList_ofList, lastWord_trimChars, String.toList_ofList]
    refine lastWord_dropRepeated hthe _ ?_
    rw [String.toList_ofList, lastWord_trimChars]
    exact hlast

/-- What follows the last `in` ends like what follows any `in`. -/
theorem isTimeExpression_tail {before after front time : List Char}
    (hsplit : before ++ " in ".toList ++ after = front ++ " in ".toList ++ time)
    (hlast : ¬ " in ".toList <:+: "in ".toList ++ after)
    (htrim : trimChars time = time) (htime : isTimeExpression (String.ofList time) = true) :
    isTimeExpression (String.ofList after) = true := by
  have hsuffix : after <:+ time := by
    rcases suffix_or_suffix_of_suffix (show after <:+ front ++ " in ".toList ++ time from
      ⟨_, hsplit⟩) (suffix_append _ time) with h | ⟨more, rfl⟩
    · exact h
    · -- the clause would lie behind the last `in`
      cases more with
      | nil => exact suffix_refl _
      | cons c more =>
        rw [← append_assoc] at hsplit
        have hfront := append_cancel_right hsplit
        have hin : " in ".toList <:+ "in ".toList ++ c :: more := by
          refine suffix_of_suffix_length_le (suffix_append front _) ?_ ?_
          · rw [← hfront]
            exact ⟨before ++ [' '], by simp⟩
          · rw [length_append, length_cons]
            have hlength : " in ".toList.length = "in ".toList.length + 1 := by decide
            omega
        refine absurd (hin.isInfix.trans ?_) hlast
        rw [← append_assoc]
        exact (prefix_append _ _).isInfix
  obtain ⟨more, rfl⟩ := hsuffix
  rcases eq_nil_or_concat more with rfl | ⟨m, d, rfl⟩
  · exact htime
  rw [concat_eq_append] at hsplit htrim htime
  rw [← append_assoc] at hsplit
  have hfront := append_cancel_right hsplit
  have hin : " in ".toList = " in".toList ++ [' '] := by decide
  rw [hin, ← append_assoc, ← append_assoc, ← append_assoc] at hfront
  obtain ⟨hbefore, hd⟩ := append_inj' hfront rfl
  cases hd
  have hwords : wordsBy isWhitespace after ≠ [] := by
    intro hnone
    have hblank : ∀ c ∈ (m ++ [' '] ++ after).getLast?, isWhitespace c = true := by
      intro c hc
      have hmem : c ∈ ' ' :: after := by
        rw [append_assoc, singleton_append,
          getLast?_append_of_ne_nil _ (cons_ne_nil _ _)] at hc
        exact mem_of_getLast? hc
      rcases List.mem_cons.mp hmem with rfl | hmem
      · decide
      · exact wordsBy_eq_nil_iff.mp hnone c hmem
    have hne : m ++ [' '] ++ after ≠ [] := by simp
    obtain ⟨c, hc⟩ : ∃ c, c ∈ (m ++ [' '] ++ after).getLast? :=
      ⟨_, getLast?_eq_some_getLast hne⟩
    have hwhite := hblank c hc
    rw [← htrim] at hc
    rw [getLast?_trimChars hc] at hwhite
    exact absurd hwhite (by decide)
  rw [append_assoc, singleton_append] at htime htrim
  rcases isTimeExpression_iff.mp htime with hphrase | ⟨word, hword, hunit⟩
  · -- the last `in` would end in the article of the phrase
    have harticle : ∀ phrase ∈ ["a while", "a bit", "a moment"],
        ∃ rest, phrase.toList = ['a'] ++ ' ' :: rest ∧ ' ' ∉ rest := by
      intro phrase hmem
      simp only [List.mem_cons, List.not_mem_nil, or_false] at hmem
      rcases hmem with rfl | rfl | rfl
      · exact ⟨"while".toList, by decide, by decide⟩
      · exact ⟨"bit".toList, by decide, by decide⟩
      · exact ⟨"moment".toList, by decide, by decide⟩
    obtain ⟨rest, heq, hrest⟩ := harticle _ hphrase
    rw [String.toList_ofList] at heq
    have hm : m = ['a'] := ((append_cons_inj_of_notMem (by decide) hrest).mp heq.symm).1.symm
    subst hm
    have hend := congrArg List.getLast? hbefore
    simp at hend
  · rw [String.toList_ofList, lastWord_append (by decide) hwords] at hword
    refine isTimeExpression_iff.mpr (Or.inr ⟨word, ?_, hunit⟩)
    rw [String.toList_ofList]
    exact hword

theorem endsInTime_of_last {device time : String} (htrim : trim time = time)
    (htime : isTimeExpression time = true) : endsInTime (device ++ " in " ++ time) = true := by
  have htext : (device ++ " in " ++ time).toList =
      device.toList ++ " in ".toList ++ time.toList := by
    rw [String.toList_append, String.toList_append]
  cases hsplit : rsplitOnce " in ".toList (device ++ " in " ++ time).toList with
  | none =>
    refine absurd ⟨device.toList, time.toList, ?_⟩ (rsplitOnce_eq_none.mp hsplit)
    exact htext.symm
  | some parts =>
    obtain ⟨before, after⟩ := parts
    obtain ⟨heq, hlast⟩ := rsplitOnce_eq_some hsplit (by decide)
    have htail := isTimeExpression_tail (heq.symm.trans htext) hlast
      (by rw [← String.toList_inj] at htrim; rwa [trim, String.toList_ofList] at htrim)
      (by rwa [String.ofList_toList])
    unfold endsInTime rsplitOnceAt
    rw [hsplit, map_some, any_some]
    exact isTimeExpression_guard htail

theorem EndsWithDelay.endsInTime {verb rest : String} (h : EndsWithDelay text)
    (hverb : verb ∈ delayVerbs) (hrest : stripPrefix (verb ++ " ") text = some rest) :
    endsInTime rest = true := by
  obtain ⟨own, hown, device, time, htext, htrim, htime⟩ := h
  have hsplit : text = own ++ " " ++ (device ++ " in " ++ time) := by
    rw [htext]
    simp only [String.append_assoc]
  have hapart : ∀ verb ∈ delayVerbs, ∀ own ∈ delayVerbs, verb = own ∨
      (startsWith (verb ++ " ") (own ++ " ") = false ∧
        startsWith (own ++ " ") (verb ++ " ") = false) := by decide
  have hstarts : startsWith (own ++ " ") text = true := hsplit ▸ startsWith_append _ _
  rcases hapart verb hverb own hown with rfl | hne
  · rw [hsplit, stripPrefix_append] at hrest
    rw [← Option.some.inj hrest]
    exact endsInTime_of_last htrim htime
  · have hother : startsWith (verb ++ " ") text = true :=
      startsWith_iff.mpr ⟨rest.toList, (stripPrefix_eq_some hrest).symm⟩
    rw [startsWith_eq_false hstarts ⟨hne.2, hne.1⟩] at hother
    cases hother

theorem homeControlRequest_none_iff (doubles : Doubles) {text : String} (h : CarriesDelay text) :
    (homeControlRequest doubles text = none ↔ HeedsDelay doubles text) ∧
      (EndsWithDelay text → isSlowCooker text = false →
        homeControlRequest doubles text = none) := by
  have hmain : homeControlRequest doubles text = none ↔ HeedsDelay doubles text := by
    unfold homeControlRequest
    rw [fixedRequest_eq_none (by decide) h.hasIn, fixedRequest_eq_none (by decide) h.hasIn,
      h.not_sprinklers]
    dsimp only
    cases hcooker : isSlowCooker text with
    | true =>
      simp only [if_true]
      refine iff_of_false (by simp) fun hheeds => ?_
      rw [hheeds.cooker] at hcooker
      cases hcooker
    | false =>
      rw [if_neg (by decide), if_neg (by decide)]
      cases hturn : simpleTurnRequest text with
      | some found =>
        refine iff_of_false (by simp) fun hheeds => ?_
        rw [simpleTurnRequest_eq_none.mpr hheeds.turn] at hturn
        cases hturn
      | none =>
        dsimp only
        rw [setRequest_eq_none]
        exact ⟨fun hset => ⟨hcooker, simpleTurnRequest_eq_none.mp hturn, hset⟩, fun hheeds =>
          hheeds.set⟩
  refine ⟨hmain, fun hend hcooker => hmain.mpr ⟨hcooker, ?_, ?_⟩⟩
  · intro rest action hverb
    unfold turnVerb at hverb
    rcases Option.or_eq_some_iff.mp hverb with hon | ⟨-, hoff⟩
    · obtain ⟨found, hfound, heq⟩ := Option.map_eq_some_iff.mp hon
      cases heq
      exact Or.inl (@EndsWithDelay.endsInTime text "turn on" rest hend (by decide) hfound)
    · obtain ⟨found, hfound, heq⟩ := Option.map_eq_some_iff.mp hoff
      cases heq
      exact Or.inl (@EndsWithDelay.endsInTime text "turn off" rest hend (by decide) hfound)
  · intro rest hverb
    unfold setVerb at hverb
    rcases Option.or_eq_some_iff.mp hverb with hset | ⟨-, hpreheat⟩
    · exact Or.inl (@EndsWithDelay.endsInTime text "set" rest hend (by decide) hset)
    · exact Or.inl (@EndsWithDelay.endsInTime text "preheat" rest hend (by decide) hpreheat)

/-! ## A word behind the delay -/

/-- Doubles without rounding. -/
def exactDoubles : Doubles := ⟨some, fun _ _ => rfl, fun _ h _ hm => Option.some.inj hm ▸ h⟩

theorem homeControlRequest_fan_later :
    homeControlRequest exactDoubles "turn on the fan in an hour" = none := by
  have hcarries : CarriesDelay "turn on the fan in an hour" :=
    ⟨"turn on", by decide, " the fan", "an hour", "", by decide, Or.inr ⟨"the fan", by decide⟩,
      Or.inl rfl, by decide⟩
  have hturn : turnVerb "turn on the fan in an hour" = some ("the fan in an hour", "turn_on") := by
    decide +kernel
  have hset : setVerb "turn on the fan in an hour" = none := by decide +kernel
  refine (homeControlRequest_none_iff exactDoubles hcarries).1.mpr
    ⟨by decide +kernel, fun rest action h => ?_, fun rest h => ?_⟩
  · rw [hturn] at h
    cases h
    exact .inl (by decide +kernel)
  · rw [hset] at h
    cases h

/-- With a `please` behind the delay the light goes on at once. -/
theorem kitchen_light_not_delayed :
    ¬ ∀ doubles text, CarriesDelay text → homeControlRequest doubles text = none := by
  intro hall
  have hnone := hall exactDoubles "turn on the kitchen light in 5 minutes please"
    ⟨"turn on", by decide, " the kitchen light", "5 minutes", " please", by decide,
      Or.inr ⟨"the kitchen light", by decide⟩, Or.inr ⟨"please", by decide⟩, by decide⟩
  have hfires : homeControlRequest exactDoubles "turn on the kitchen light in 5 minutes please" =
      some ⟨"5 minutes kitchen light", "turn_on", none⟩ := by decide +kernel
  rw [hfires] at hnone
  cases hnone

end GenieClaw.Quick
