import GenieClaw.Memory.Clause
import GenieClaw.Memory.ExtractGates
import GenieClaw.Library.Phrases

/-!
# Where the facts of an utterance come from

Every fact goes back to one of the trigger phrases and to the words behind it. The phrases are
looked for as texts, so the words are those behind the first occurrence. That may begin within a
longer word; where it does not, the phrase was spoken in whole words.

* `extractFacts_licensed` (no assumption): every fact is licensed by a phrase, and by one in whole
  words where the phrases of its category are.
-/

namespace GenieClaw.Memory

open Library Library.Text List Option

section

variable (tools : FactTools)

/-! ## Phrases in whole words -/

def isWordChar (c : Char) : Bool := !isWhitespace c && (tools.isAlphanumeric c || c == '\'')

/-- No word goes on from the one text into the other. -/
def Boundary (xs ys : List Char) : Prop :=
  ¬ (xs.getLast?.any (isWordChar tools) = true ∧ ys.head?.any (isWordChar tools) = true)

instance (xs ys : List Char) : Decidable (Boundary tools xs ys) :=
  inferInstanceAs (Decidable (¬ _))

/-- The phrase stands in the text and ends with a word, and it begins with one if this is known of
the phrases. -/
structure Spoken (whole : Prop) (cs phrase front rest : List Char) : Prop where
  split : cs = front ++ phrase ++ rest
  begins : whole → Boundary tools front phrase
  ends : Boundary tools phrase rest

/-! ## What licenses a fact -/

/-- A family of phrases with a value behind them. -/
structure Family where
  phrases : List String
  fact : String → ExtractedFact

def nameFamily : Family where
  phrases := ["my name is ", "call me ", "i'm called "]
  fact name := identityFact ("User's name is " ++ capitalize tools name)

def workplaceFamily : Family where
  phrases := ["i work at ", "i work for ", "i'm working at ", "i am working at "]
  fact job := identityFact ("User works at " ++ job)

def occupationFamily : Family where
  phrases := ["i'm a ", "i am a ", "i work as a ", "i work as an "]
  fact job := identityFact ("User is a " ++ job)

def homeFamily : Family where
  phrases := ["i live in ", "i'm from ", "i am from ", "i'm based in "]
  fact loc := identityFact ("User lives in " ++ loc)

def likesFamily : Family where
  phrases := ["i like ", "i love ", "i enjoy ", "i prefer "]
  fact pref := preferenceFact ("User likes " ++ pref)

def dislikesFamily : Family where
  phrases := ["i hate ", "i dislike ", "i don't like ", "i can't stand "]
  fact pref := preferenceFact ("User dislikes " ++ pref)

def families : List Family :=
  [nameFamily tools, workplaceFamily, occupationFamily, homeFamily, likesFamily, dislikesFamily]

/-- What is to be remembered is the rest of the utterance, without a word `that` before it. -/
def Request (whole : Prop) (rest : List Char) (content : String) : Prop :=
  content ≠ "" ∧
    ((content = trim (String.ofList rest) ∧ ¬ "that".toList <+: content.toList) ∨
      ∃ more, (trim (String.ofList rest)).toList = "that".toList ++ more ∧
        (whole → Boundary tools "that".toList more) ∧ content = trim (String.ofList more))

/-- A fact and the words that it comes from, where `whole` says that the phrases of its category
are found in whole words. -/
inductive Licensed (text : String) (whole : Prop) : ExtractedFact → Prop where
  | value (family : Family) (hfamily : family ∈ families tools) (phrase : String)
      (hphrase : phrase ∈ family.phrases) (front rest : List Char)
      (hspoken : Spoken tools whole (tools.toLowercase text).toList phrase.toList front rest)
      (value : String) (hvalue : Clause sentenceMarks (String.ofList rest) value) :
      Licensed text whole (family.fact value)
  | age (phrase : String) (hphrase : phrase ∈ ["i'm ", "i am "]) (front digits rest : List Char)
      (hspoken : Spoken tools whole (tools.toLowercase text).toList phrase.toList front
        (digits ++ rest))
      (hdigits : ∀ c ∈ digits, c.isDigit = true) (hends : whole → Boundary tools digits rest)
      (age : Nat) (hage : parseU32 digits = some age) :
      Licensed text whole (identityFact ("User is " ++ toString age ++ " years old"))
  | favorite (phrase : String) (hphrase : phrase ∈ ["my favorite ", "my favourite "])
      (front thing rest : List Char)
      (hspoken : Spoken tools whole (tools.toLowercase text).toList phrase.toList front
        (thing ++ " is ".toList ++ rest))
      (value : String) (hvalue : Clause ['.', ',', '!'] (trim (String.ofList rest)) value) :
      Licensed text whole (preferenceFact
        ("User's favorite " ++ trim (String.ofList thing) ++ " is " ++ value))
  | relationship (relation : String) (hrelation : relation ∈ relations) (phrase : String)
      (hphrase : phrase ∈ relationshipPatterns relation) (front name rest : List Char)
      (hspoken : Spoken tools whole (tools.toLowercase text).toList phrase.toList front
        (name ++ rest))
      (hne : name ≠ []) (hname : ∀ c ∈ name, (tools.isAlphanumeric c || c == '\'') = true)
      (hends : Boundary tools name rest) :
      Licensed text whole ⟨"relationship",
        "User's " ++ relation ++ " is named " ++ capitalize tools (String.ofList name)⟩
  | remember (word rest : List Char) (hword : word.map Char.toLower = "remember".toList)
      (hsplit : (trim text).toList = word ++ rest) (hends : whole → Boundary tools word rest)
      (content : String) (hcontent : Request tools whole rest content) :
      Licensed text whole ⟨"fact", content⟩

/-! ## Where the phrases stand -/

/-- The first occurrence of the phrase does not begin within a longer word. -/
def BeginsWhole (lower : List Char) (phrase : String) : Prop :=
  ∀ parts ∈ splitOnce phrase.toList lower, Boundary tools parts.1 phrase.toList

instance (lower : List Char) (phrase : String) : Decidable (BeginsWhole tools lower phrase) :=
  inferInstanceAs (Decidable (∀ parts ∈ splitOnce phrase.toList lower, _))

/-- The number behind the phrase is no part of a longer word. -/
def NumberWhole (lower : List Char) (phrase : String) : Prop :=
  ∀ parts ∈ splitOnce phrase.toList lower,
    Boundary tools (parts.2.takeWhile Char.isDigit) (parts.2.dropWhile Char.isDigit)

instance (lower : List Char) (phrase : String) : Decidable (NumberWhole tools lower phrase) :=
  inferInstanceAs (Decidable (∀ parts ∈ splitOnce phrase.toList lower, _))

/-- Neither the request nor a `that` behind it is the front of a longer word. -/
def RequestWhole (cs : List Char) : Prop :=
  Boundary tools (cs.take 8) (cs.drop 8) ∧
    ∀ more ∈ stripPrefix "that" (trim (String.ofList (cs.drop 8))),
      Boundary tools "that".toList more.toList

instance (cs : List Char) : Decidable (RequestWhole tools cs) :=
  inferInstanceAs (Decidable (_ ∧
    ∀ more ∈ stripPrefix "that" (trim (String.ofList (cs.drop 8))), _))

def phrasesOf (category : String) : List String :=
  if category = "identity" then identityPatterns
  else if category = "preference" then preferencePatterns
  else if category = "relationship" then relations.flatMap relationshipPatterns
  else []

/-- No phrase for facts of the category is found within a longer word. -/
structure InWholeWords (text category : String) : Prop where
  phrases : ∀ phrase ∈ phrasesOf category,
    BeginsWhole tools (tools.toLowercase text).toList phrase
  numbers : category = "identity" → ∀ phrase ∈ ["i'm ", "i am "],
    NumberWhole tools (tools.toLowercase text).toList phrase
  request : category = "fact" → RequestWhole tools (trim text).toList

end

variable {tools : FactTools}

theorem boundary_of_getLast {xs ys : List Char}
    (h : ∀ c ∈ xs.getLast?, isWordChar tools c = false) : Boundary tools xs ys := by
  rintro ⟨hword, -⟩
  cases hlast : xs.getLast? with
  | none =>
    rw [hlast] at hword
    cases hword
  | some c =>
    rw [hlast, any_some, h c hlast] at hword
    cases hword

theorem boundary_of_head {xs ys : List Char}
    (h : ∀ c ∈ ys.head?, isWordChar tools c = false) : Boundary tools xs ys := by
  rintro ⟨-, hword⟩
  cases hhead : ys.head? with
  | none =>
    rw [hhead] at hword
    cases hword
  | some c =>
    rw [hhead, any_some, h c hhead] at hword
    cases hword

theorem boundary_of_blank {phrase : List Char} (h : phrase.getLast? = some ' ')
    (rest : List Char) : Boundary tools phrase rest := by
  refine boundary_of_getLast fun c hc => ?_
  rw [h] at hc
  cases hc
  rfl

variable {whole : Prop}

theorem Spoken.of_first {cs phrase front rest : List Char}
    (hfirst : splitOnce phrase cs = some (front, rest))
    (hbegins : whole → Boundary tools front phrase) (hblank : phrase.getLast? = some ' ') :
    Spoken tools whole cs phrase front rest :=
  ⟨(splitOnce_eq_some hfirst).1, hbegins, boundary_of_blank hblank rest⟩

/-! ## The kinds of facts -/

variable {fact : ExtractedFact}

theorem mem_identityFacts {lower : String} (h : fact ∈ identityFacts tools lower) :
    fact.category = "identity" := by
  unfold identityFacts at h
  simp only [mem_append, mem_toList, map_eq_some_iff] at h
  rcases h with (((⟨_, -, rfl⟩ | ⟨_, -, rfl⟩) | ⟨_, -, rfl⟩) | ⟨_, -, rfl⟩) | ⟨_, -, rfl⟩ <;> rfl

theorem mem_preferenceFacts {lower : String} (h : fact ∈ preferenceFacts lower) :
    fact.category = "preference" := by
  unfold preferenceFacts tasteFact at h
  simp only [mem_append, mem_toList, map_eq_some_iff] at h
  rcases h with (⟨_, -, rfl⟩ | ⟨_, -, rfl⟩) | h
  · rfl
  · rfl
  · split at h
    · obtain ⟨_, -, rfl⟩ := Option.map_eq_some_iff.mp (Option.mem_toList.mp h)
      rfl
    · cases h

theorem licensed_value {text value : String} (family : Family) (hfamily : family ∈ families tools)
    (hwhole : whole → ∀ phrase ∈ family.phrases,
      BeginsWhole tools (tools.toLowercase text).toList phrase)
    (h : extractPattern (tools.toLowercase text) family.phrases = some value) :
    Licensed tools text whole (family.fact value) := by
  have hblank : ∀ family ∈ families tools, ∀ phrase ∈ family.phrases,
      phrase.toList.getLast? = some ' ' := by
    simp only [families, forall_mem_cons, nameFamily]
    decide
  obtain ⟨phrase, hphrase, front, rest, hfirst, hvalue⟩ := extractPattern_eq_some h
  refine .value family hfamily phrase hphrase front rest ?_ value hvalue
  exact .of_first hfirst (fun h => hwhole h phrase hphrase (front, rest) hfirst)
    (hblank family hfamily phrase hphrase)

variable {text : String}

theorem licensed_age {age : Nat}
    (hwhole : whole → ∀ phrase ∈ ["i'm ", "i am "],
      BeginsWhole tools (tools.toLowercase text).toList phrase)
    (hnumber : whole → ∀ phrase ∈ ["i'm ", "i am "],
      NumberWhole tools (tools.toLowercase text).toList phrase)
    (h : extractAge (tools.toLowercase text) = some age) :
    Licensed tools text whole (identityFact ("User is " ++ toString age ++ " years old")) := by
  have hblank : ∀ phrase ∈ ["i'm ", "i am "], phrase.toList.getLast? = some ' ' := by decide
  obtain ⟨phrase, hphrase, hfound⟩ := exists_of_findSome?_eq_some h
  obtain ⟨rest, hrest, hage⟩ := Option.bind_eq_some_iff.mp hfound
  obtain ⟨⟨front, after⟩, hfirst, rfl⟩ := Option.map_eq_some_iff.mp hrest
  dsimp only at hage
  obtain ⟨n, hparse, hn⟩ := Option.bind_eq_some_iff.mp hage
  rw [String.toList_ofList] at hparse
  have hsame : n = age := by
    split at hn
    · exact Option.some.inj hn
    · cases hn
  have hspoken := Spoken.of_first hfirst
    (fun h => hwhole h phrase hphrase (front, after) hfirst) (hblank phrase hphrase)
  rw [← takeWhile_append_dropWhile (p := Char.isDigit) (l := after)] at hspoken
  exact .age phrase hphrase front _ _ hspoken (fun c hc => mem_takeWhile_imp hc)
    (fun h => hnumber h phrase hphrase (front, after) hfirst) age (hsame ▸ hparse)

theorem licensed_favorite {text content : String}
    (hwhole : whole → BeginsWhole tools (tools.toLowercase text).toList "my favo")
    (h : extractFavorite (tools.toLowercase text) = some content) :
    Licensed tools text whole (preferenceFact content) := by
  have hphrases : ∀ phrase ∈ ["my favorite ", "my favourite "],
      phrase.toList.getLast? = some ' ' ∧ phrase.toList.head? = "my favo".toList.head? := by decide
  unfold extractFavorite at h
  obtain ⟨⟨front, after⟩, hfirst, h⟩ := Option.bind_eq_some_iff.mp h
  obtain ⟨⟨beforeIs, afterIs⟩, his, h⟩ := Option.bind_eq_some_iff.mp h
  obtain ⟨thing, hthing, h⟩ := Option.bind_eq_some_iff.mp h
  obtain ⟨phrase, hphrase, hstrip⟩ : ∃ phrase ∈ ["my favorite ", "my favourite "],
      stripPrefix phrase (String.ofList beforeIs) = some thing := by
    rcases Option.or_eq_some_iff.mp hthing with hone | ⟨-, htwo⟩
    · exact ⟨"my favorite ", by simp, hone⟩
    · exact ⟨"my favourite ", by simp, htwo⟩
  obtain ⟨hblank, hhead⟩ := hphrases phrase hphrase
  have hbefore := stripPrefix_eq_some hstrip
  rw [String.toList_ofList] at hbefore
  have hrest := (splitOnce_eq_some his).1
  rw [hbefore] at hrest
  have hlower : (tools.toLowercase text).toList =
      front ++ phrase.toList ++ (thing.toList ++ " is ".toList ++ afterIs) := by
    have hfront : (tools.toLowercase text).toList.take front.length = front := by
      rw [(splitOnce_eq_some hfirst).1, append_assoc, take_left]
    have hwhole := take_append_drop front.length (tools.toLowercase text).toList
    rw [hfront, hrest] at hwhole
    rw [← hwhole]
    simp only [append_assoc]
  have hspoken : Spoken tools whole (tools.toLowercase text).toList phrase.toList front
      (thing.toList ++ " is ".toList ++ afterIs) := by
    refine ⟨hlower, fun h => ?_, boundary_of_blank hblank _⟩
    have hbegins := hwhole h (front, after) hfirst
    unfold Boundary at hbegins ⊢
    rwa [hhead]
  dsimp only at h
  split at h
  · cases h
  · rename_i hne
    have hlicensed := Licensed.favorite phrase hphrase front thing.toList afterIs hspoken _
      (capturedValue_clause rfl hne)
    rw [String.ofList_toList] at hlicensed
    rwa [← Option.some.inj h]

theorem licensed_relationship {found : String × String}
    (hwhole : whole → ∀ phrase ∈ relations.flatMap relationshipPatterns,
      BeginsWhole tools (tools.toLowercase text).toList phrase)
    (h : found ∈ extractRelationships tools (tools.toLowercase text)) :
    Licensed tools text whole ⟨"relationship",
      "User's " ++ found.1 ++ " is named " ++ capitalize tools found.2⟩ := by
  have hblank : ∀ phrase ∈ relations.flatMap relationshipPatterns,
      phrase.toList.getLast? = some ' ' := forall_mem_of_all (by decide +kernel)
  unfold extractRelationships at h
  split at h
  · obtain ⟨relation, hrelation, h⟩ := List.mem_flatMap.mp h
    obtain ⟨phrase, hphrase, h⟩ := List.mem_filterMap.mp h
    obtain ⟨name, hname, rfl⟩ := Option.map_eq_some_iff.mp h
    have hmem : phrase ∈ relations.flatMap relationshipPatterns :=
      List.mem_flatMap.mpr ⟨relation, hrelation, hphrase⟩
    obtain ⟨rest, hrest, hname⟩ := Option.bind_eq_some_iff.mp hname
    obtain ⟨⟨front, after⟩, hfirst, rfl⟩ := Option.map_eq_some_iff.mp hrest
    dsimp only at hname
    rw [String.toList_ofList] at hname
    split at hname
    · cases hname
    · rename_i hne
      have hspoken := Spoken.of_first hfirst
        (fun h => hwhole h phrase hmem (front, after) hfirst) (hblank phrase hmem)
      rw [← takeWhile_append_dropWhile
        (p := fun c => tools.isAlphanumeric c || c == '\'') (l := after)] at hspoken
      rw [← Option.some.inj hname]
      refine .relationship relation hrelation phrase hphrase front _ _ hspoken ?_
        (fun c hc => ?_) (boundary_of_head fun c hc => ?_)
      · exact fun hnil => hne (by rw [hnil])
      · have hkept := mem_takeWhile_imp hc
        exact hkept
      · have hstop := head?_dropWhile_not
          (fun c => tools.isAlphanumeric c || c == '\'') after
        rw [Option.mem_def.mp hc] at hstop
        rw [isWordChar, hstop, Bool.and_false]
  · cases h

theorem startsWithAsciiCi_prefix {haystack needle : String} (hascii : IsAscii needle.toList)
    (h : startsWithAsciiCi haystack needle = true) :
    needle.toList.map Char.toLower <+: haystack.toList.map Char.toLower := by
  obtain ⟨hlong, hall⟩ := Bool.and_eq_true_iff.mp h
  have hlong := of_decide_eq_true hlong
  have htake : ((asBytes haystack).take (asBytes needle).length).length =
      (asBytes needle).length := length_take_of_le hlong
  have hzip : (asBytes haystack).zip (asBytes needle) =
      ((asBytes haystack).take (asBytes needle).length).zip (asBytes needle) := by
    rw [zip_eq_zip_take_min, Nat.min_eq_right hlong, take_length]
  rw [hzip] at hall
  have hmap := (all_zip_iff asciiLowerByte htake).mp hall
  have hbytes : (asBytes needle).map asciiLowerByte <+: (asBytes haystack).map asciiLowerByte := by
    rw [← hmap]
    exact (List.take_prefix _ _).map asciiLowerByte
  rw [asBytes_eq, asBytes_eq, map_asciiLowerByte_encode, map_asciiLowerByte_encode] at hbytes
  refine prefix_of_encode_prefix (fun c hc => ?_) hbytes
  obtain ⟨a, ha, rfl⟩ := List.mem_map.mp hc
  have hlow := hascii a ha
  rw [toNat_toLower]
  split <;> omega

theorem licensed_remember (hwhole : whole → RequestWhole tools (trim text).toList)
    (h : fact ∈ rememberFact text) : Licensed tools text whole fact := by
  obtain ⟨content, hcontent, rfl⟩ := Option.mem_map.mp (Option.mem_toList.mp h)
  rw [mem_def, extractRemember] at hcontent
  split at hcontent
  · rename_i hstarts
    have hword : ((trim text).toList.take 8).map Char.toLower = "remember".toList := by
      have hprefix := startsWithAsciiCi_prefix (by decide) hstarts
      rw [map_take]
      have hlower : "remember".toList.map Char.toLower = "remember".toList := by decide
      rw [hlower] at hprefix
      exact (List.prefix_iff_eq_take.mp hprefix).symm
    refine .remember _ _ hword (take_append_drop 8 _).symm (fun h => (hwhole h).1) content ?_
    have height : "remember".toList.length = 8 := by decide
    dsimp only at hcontent
    rw [height] at hcontent
    split at hcontent
    · cases hcontent
    · rename_i hne
      have hsame := Option.some.inj hcontent
      refine ⟨hsame ▸ hne, ?_⟩
      cases hthat : stripPrefix "that" (trim (String.ofList ((trim text).toList.drop 8))) with
      | none =>
        rw [hthat, getD_none, trim_trim] at hsame
        refine .inl ⟨hsame.symm, fun hprefix => ?_⟩
        rw [← hsame] at hprefix
        rw [stripPrefix, startsWith, if_pos (List.isPrefixOf_iff_prefix.mpr hprefix)] at hthat
        cases hthat
      | some more =>
        rw [hthat, getD_some] at hsame
        refine .inr ⟨more.toList, stripPrefix_eq_some hthat, fun h => (hwhole h).2 more hthat, ?_⟩
        rw [String.ofList_toList, hsame]
  · cases hcontent

theorem licensed_identity (hwhole : whole → InWholeWords tools text "identity")
    (h : fact ∈ identityFacts tools (tools.toLowercase text)) : Licensed tools text whole fact := by
  have hphrases : ∀ phrases : List String, phrases ⊆ identityPatterns → whole →
      ∀ phrase ∈ phrases, BeginsWhole tools (tools.toLowercase text).toList phrase :=
    fun phrases hsubset h phrase hphrase => (hwhole h).phrases phrase (hsubset hphrase)
  unfold identityFacts at h
  simp only [mem_append, mem_toList, map_eq_some_iff] at h
  have hnames : (nameFamily tools).phrases ⊆ identityPatterns := by
    simp only [nameFamily]
    decide
  rcases h with (((⟨name, hname, rfl⟩ | ⟨age, hage, rfl⟩) | ⟨job, hjob, rfl⟩) |
    ⟨job, hjob, rfl⟩) | ⟨loc, hloc, rfl⟩
  · exact licensed_value (nameFamily tools) (by simp [families])
      (hphrases _ hnames) hname
  · exact licensed_age (hphrases _ (by decide)) (fun h => (hwhole h).numbers rfl) hage
  · exact licensed_value workplaceFamily (by simp [families])
      (hphrases _ (by decide)) hjob
  · have hjob := (Option.filter_eq_some_iff.mp hjob).1
    exact licensed_value occupationFamily (by simp [families])
      (hphrases _ (by decide)) hjob
  · exact licensed_value homeFamily (by simp [families])
      (hphrases _ (by decide)) hloc

theorem licensed_preference (hwhole : whole → InWholeWords tools text "preference")
    (h : fact ∈ preferenceFacts (tools.toLowercase text)) : Licensed tools text whole fact := by
  have hphrases : ∀ phrases : List String, phrases ⊆ preferencePatterns → whole →
      ∀ phrase ∈ phrases, BeginsWhole tools (tools.toLowercase text).toList phrase :=
    fun phrases hsubset h phrase hphrase => (hwhole h).phrases phrase (hsubset hphrase)
  unfold preferenceFacts tasteFact at h
  simp only [mem_append, mem_toList, map_eq_some_iff] at h
  rcases h with (⟨pref, hpref, rfl⟩ | ⟨pref, hpref, rfl⟩) | h
  · have hpref := (Option.filter_eq_some_iff.mp hpref).1
    exact licensed_value likesFamily (by simp [families])
      (hphrases _ (by decide)) hpref
  · have hpref := (Option.filter_eq_some_iff.mp hpref).1
    exact licensed_value dislikesFamily (by simp [families])
      (hphrases _ (by decide)) hpref
  · split at h
    · obtain ⟨content, hcontent, rfl⟩ := Option.map_eq_some_iff.mp (Option.mem_toList.mp h)
      exact licensed_favorite (fun h => (hwhole h).phrases "my favo" (by decide)) hcontent
    · cases h

/-- Every fact of an utterance is licensed, in whole words if the phrases of its category are found
in whole words. -/
theorem extractFacts_licensed (tools : FactTools) (text : String) (fact : ExtractedFact)
    (hfact : fact ∈ extractFacts tools text) :
    Licensed tools text (InWholeWords tools text fact.category) fact := by
  have hcases : fact ∈ patternFacts tools (tools.toLowercase text) ∨ fact ∈ rememberFact text := by
    unfold extractFacts at hfact
    dsimp only at hfact
    split_ifs at hfact
    · exact .inr hfact
    · exact .inl hfact
    · exact .inr hfact
  rcases hcases with hpattern | hremember
  · unfold patternFacts at hpattern
    rcases List.mem_append.mp hpattern with hpattern | hrelationship
    · rcases List.mem_append.mp hpattern with hidentity | hpreference
      · split at hidentity
        · have hcategory : fact.category = "identity" := mem_identityFacts hidentity
          exact licensed_identity (fun h => hcategory ▸ h) hidentity
        · cases hidentity
      · split at hpreference
        · have hcategory : fact.category = "preference" := mem_preferenceFacts hpreference
          exact licensed_preference (fun h => hcategory ▸ h) hpreference
        · cases hpreference
    · obtain ⟨found, hfound, rfl⟩ := List.mem_map.mp hrelationship
      exact licensed_relationship (fun h => h.phrases) hfound
  · exact licensed_remember (fun h => h.request (mem_rememberFact hremember)) hremember

theorem extractFacts_licensed_ada :
    InWholeWords foldingTools "My name is Ada. I love tea and maths." "identity" ∧
      Licensed foldingTools "My name is Ada. I love tea and maths."
        (InWholeWords foldingTools "My name is Ada. I love tea and maths." "identity")
        (identityFact "User's name is Ada") :=
  ⟨⟨forall_mem_of_all (by decide +kernel), by decide, by decide⟩,
    extractFacts_licensed foldingTools "My name is Ada. I love tea and maths."
      (identityFact "User's name is Ada") (by decide +kernel)⟩

def triggerPhrases : List String :=
  identityPatterns ++ preferencePatterns ++ ["my favorite ", "my favourite "] ++
    relations.flatMap relationshipPatterns

theorem Licensed.spoken (h : Licensed tools text whole fact) (hfact : fact.category ≠ "fact") :
    ∃ phrase ∈ triggerPhrases, ∃ front rest,
      Spoken tools whole (tools.toLowercase text).toList phrase.toList front rest := by
  cases h with
  | value family hfamily phrase hphrase front rest hspoken =>
    have hphrases : ∀ family ∈ families tools, family.phrases ⊆ triggerPhrases := by
      simp only [families, forall_mem_cons, nameFamily]
      decide
    exact ⟨phrase, hphrases family hfamily hphrase, front, rest, hspoken⟩
  | age phrase hphrase front digits rest hspoken =>
    have hphrases : ["i'm ", "i am "] ⊆ triggerPhrases := by decide
    exact ⟨phrase, hphrases hphrase, front, _, hspoken⟩
  | favorite phrase hphrase front thing rest hspoken =>
    have hphrases : ["my favorite ", "my favourite "] ⊆ triggerPhrases := by decide
    exact ⟨phrase, hphrases hphrase, front, _, hspoken⟩
  | relationship relation hrelation phrase hphrase front name rest hspoken =>
    have hmem : phrase ∈ relations.flatMap relationshipPatterns :=
      List.mem_flatMap.mpr ⟨relation, hrelation, hphrase⟩
    exact ⟨phrase, mem_append_right _ hmem, front, _, hspoken⟩
  | remember => exact absurd rfl hfact

/-- A name that ends in a phrase gives a fact, and what is to be remembered goes on behind the
end of a sentence. -/
theorem extractFacts_unlicensed :
    (¬ ∀ (tools : FactTools) (text : String), ∀ fact ∈ extractFacts tools text,
      Licensed tools text True fact) ∧
    ¬ ∀ (tools : FactTools) (text : String), ∀ fact ∈ extractFacts tools text,
      fact.category = "fact" → ∀ c ∈ fact.content.toList, c ∉ sentenceMarks := by
  constructor
  · intro h
    have hlicensed := h foldingTools "Heidi love cats" (preferenceFact "User likes cats")
      (by decide)
    obtain ⟨phrase, hphrase, front, rest, hspoken⟩ := hlicensed.spoken (by decide)
    have hnone : ∀ phrase ∈ triggerPhrases, ∀ i < 16,
        phrase.toList <+: "heidi love cats".toList.drop i →
          ¬ Boundary foldingTools ("heidi love cats".toList.take i) phrase.toList :=
      forall_mem_of_all (by decide +kernel)
    have hsplit : "heidi love cats".toList = front ++ phrase.toList ++ rest := hspoken.split
    have hlength := congrArg List.length hsplit
    rw [length_append, length_append] at hlength
    have hcount : "heidi love cats".toList.length = 15 := by decide
    refine hnone phrase hphrase front.length (by omega) ?_ ?_
    · rw [hsplit, append_assoc, drop_left]
      exact prefix_append _ _
    · rw [hsplit, append_assoc, take_left]
      exact hspoken.begins trivial
  · intro h
    have hmark := h foldingTools "Remember milk. Eggs" ⟨"fact", "milk. Eggs"⟩ (by decide) rfl '.'
      (by decide)
    exact hmark (by decide)

end GenieClaw.Memory
