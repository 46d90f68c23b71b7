import GenieClaw.Library.HashTable
import GenieClaw.Library.Machine
import GenieClaw.Library.Text
import Mathlib.Data.List.Sort
import Mathlib.Data.String.Basic

/-!
# Speaker profiles

`voice/identity.rs`: the profiles of the speakers are files of one directory, and the name of a
file is made from the name of its speaker. A file is taken for the profile whose JSON was written
to it, and a path for the name of the file. The audio is analysed before.

* `profiles_map_iff` (the directory is empty at the start): the files are a map exactly if no two
  names share one.
-/

namespace GenieClaw.Voice

open Library Library.Text List

def profileSchemaVersion : Nat := 1

def fingerprintVersion : String := "genie_acoustic_v1"

/-- `SpeakerProfile`; what a fingerprint is made of does not matter here. -/
structure SpeakerProfile (F : Type) where
  schemaVersion : Nat
  fingerprintVersion : String
  name : String
  createdMs : Nat
  sampleRate : Nat
  sampleCount : Nat
  fingerprint : F
deriving DecidableEq

/-- What is found in the audio of a speaker, and when. -/
structure VoiceSample (F : Type) where
  createdMs : Nat
  sampleRate : Nat
  sampleCount : Nat
  fingerprint : F

/-- The file names of a directory and what the files hold. -/
abbrev ProfileDir (F : Type) := HashTable String (SpeakerProfile F)

/-! ## File names -/

/-- One turn of the loop of `sanitize_profile_name`. -/
def sanitizeChar (out : List Char) (ch : Char) : List Char :=
  if isAsciiAlphanumeric ch then out ++ [ch.toLower]
  else if (isWhitespace ch ∨ ch = '-' ∨ ch = '_') ∧ out.getLast? ≠ some '-' then out ++ ['-']
  else out

def sanitizeProfileName (name : String) : String :=
  let out := String.ofList (name.toList.foldl sanitizeChar [])
  let trimmed := trimMatches (· == '-') out
  if trimmed = "" then "speaker" else trimmed

def profilePath (name : String) : String := sanitizeProfileName name ++ ".speaker.json"

def isProfileFile (path : String) : Bool := endsWith ".speaker.json" path

/-! ## The calls -/

section

variable {F : Type}

def enrollSpeakerFile (name : String) (sample : Except String (VoiceSample F))
    (dir : ProfileDir F) : Except String (SpeakerProfile F) × ProfileDir F :=
  let name := trim name
  if name = "" then (.error "speaker name is required", dir)
  else match sample with
    | .error e => (.error e, dir)
    | .ok sample =>
      let profile : SpeakerProfile F :=
        { schemaVersion := profileSchemaVersion, fingerprintVersion, name,
          createdMs := sample.createdMs, sampleRate := sample.sampleRate,
          sampleCount := sample.sampleCount, fingerprint := sample.fingerprint }
      (.ok profile, dir.insert (profilePath name) profile)

def removeSpeakerProfile (name : String) (dir : ProfileDir F) :
    Except String String × ProfileDir F :=
  let name := trim name
  if name = "" then (.error "speaker name is required", dir)
  else
    let path := profilePath name
    if path ∈ dir then (.ok path, dir.erase path)
    else (.error ("speaker profile not found: " ++ path), dir)

/-- The files in the order in which the directory is read, then sorted by name. -/
def listSpeakerProfiles (order : HashOrder (SpeakerProfile F)) (dir : ProfileDir F) :
    List (SpeakerProfile F) :=
  let files := (order.walk dir.entries).filter fun file => isProfileFile file.1
  (files.map Sigma.snd).insertionSort fun a b => a.name ≤ b.name

inductive ProfileCall (F : Type) where
  | enroll (name : String) (sample : Except String (VoiceSample F))
  | remove (name : String)

inductive ProfileAnswer (F : Type) where
  | enrolled (result : Except String (SpeakerProfile F))
  | removed (result : Except String String)

/-- The calls on one profile directory. -/
def profiles : Machine (ProfileDir F) (ProfileCall F) (ProfileAnswer F) where
  step dir
    | .enroll name sample =>
      let (result, dir) := enrollSpeakerFile name sample dir
      (.enrolled result, dir)
    | .remove name =>
      let (result, dir) := removeSpeakerProfile name dir
      (.removed result, dir)

abbrev ProfileEvent (F : Type) := Machine.Event (ProfileDir F) (ProfileCall F) (ProfileAnswer F)

/-! ## What a map of profiles promises -/

/-- The name that a call is about. -/
def ProfileCall.speaker : ProfileCall F → String
  | .enroll name _ => trim name
  | .remove name => trim name

/-- What a call that succeeded does to the profiles that are known. -/
def record (known : String → Option (SpeakerProfile F)) (e : ProfileEvent F) :
    String → Option (SpeakerProfile F) :=
  match e.input, e.output with
  | .enroll _ _, .enrolled (.ok profile) => Function.update known profile.name (some profile)
  | .remove name, .removed (.ok _) => Function.update known (trim name) none
  | _, _ => known

/-- For each name the last profile enrolled, unless it was removed since. -/
def known (events : List (ProfileEvent F)) : String → Option (SpeakerProfile F) :=
  events.foldl record fun _ => none

/-- The profiles of other names stay, and what is removed under a name is a profile of it. -/
structure KeepsNames (e : ProfileEvent F) : Prop where
  others : FoldedStore.Leaves SpeakerProfile.name e.input.speaker e.before e.after
  removed : ∀ name path, e.input = .remove name → e.output = .removed (.ok path) →
    ∃ profile, profile.name = trim name ∧ FoldedStore.Holds e.before profile ∧
      ¬ FoldedStore.Holds e.after profile

/-- The list is what is known, each name once. -/
structure Lists (events : List (ProfileEvent F)) (dir : ProfileDir F) : Prop where
  listed : ∀ order profile, profile ∈ listSpeakerProfiles order dir ↔
    known events profile.name = some profile
  once : ∀ order, ((listSpeakerProfiles order dir).map SpeakerProfile.name).Nodup

/-- The calls keep a map from names to profiles, in every state that they reach. -/
structure BehavesAsMap (calls : List (ProfileCall F)) : Prop where
  events : ∀ e ∈ profiles.trace ∅ calls, KeepsNames e
  states : ∀ earlier later, calls = earlier ++ later →
    Lists (profiles.trace ∅ earlier) (profiles.run ∅ earlier)

/-- The file of the name does not hold the profile of another one. -/
def OwnFile (dir : ProfileDir F) (name : String) : Prop :=
  FoldedStore.Own profilePath SpeakerProfile.name dir name

/-- The call is one that fails before it looks for a file, or finds its own. -/
def MeetsOwnFile (dir : ProfileDir F) : ProfileCall F → Prop
  | .enroll name (.ok _) => trim name ≠ "" → OwnFile dir (trim name)
  | .enroll _ (.error _) => True
  | .remove name => trim name ≠ "" → OwnFile dir (trim name)

/-! ## One call -/

variable {dir : ProfileDir F} {call : ProfileCall F}

/-- All that a call can do. -/
inductive Done (dir : ProfileDir F) : ProfileCall F → ProfileAnswer F → ProfileDir F → Prop
  | enrolled {name : String} {sample : VoiceSample F} (profile : SpeakerProfile F)
      (hname : trim name ≠ "") (hprofile : profile.name = trim name) :
      Done dir (.enroll name (.ok sample)) (.enrolled (.ok profile))
        (FoldedStore.put profilePath SpeakerProfile.name profile dir)
  | removed {name : String} (hname : trim name ≠ "") (hfile : profilePath (trim name) ∈ dir) :
      Done dir (.remove name) (.removed (.ok (profilePath (trim name))))
        (FoldedStore.delete profilePath (trim name) dir)
  | notEnrolled {name : String} {sample : Except String (VoiceSample F)} (e : String)
      (hfails : trim name = "" ∨ ∃ e, sample = .error e) :
      Done dir (.enroll name sample) (.enrolled (.error e)) dir
  | notRemoved {name : String} (e : String)
      (hfails : trim name = "" ∨ profilePath (trim name) ∉ dir) :
      Done dir (.remove name) (.removed (.error e)) dir

theorem profiles_done (dir : ProfileDir F) (call : ProfileCall F) :
    Done dir call (profiles.step dir call).1 (profiles.step dir call).2 := by
  cases call with
  | enroll name sample =>
    by_cases hname : trim name = ""
    · have hstep : profiles.step dir (.enroll name sample) =
          (.enrolled (.error "speaker name is required"), dir) := by
        simp only [profiles, enrollSpeakerFile, hname, if_true]
      rw [hstep]
      exact .notEnrolled _ (.inl hname)
    · cases sample with
      | error e =>
        have hstep : profiles.step dir (.enroll name (.error e)) = (.enrolled (.error e), dir) := by
          simp only [profiles, enrollSpeakerFile, hname, if_false]
        rw [hstep]
        exact .notEnrolled _ (.inr ⟨e, rfl⟩)
      | ok sample =>
        simp only [profiles, enrollSpeakerFile, hname, if_false]
        exact .enrolled _ hname rfl
  | remove name =>
    by_cases hname : trim name = ""
    · have hstep : profiles.step dir (.remove name) =
          (.removed (.error "speaker name is required"), dir) := by
        simp only [profiles, removeSpeakerProfile, hname, if_true]
      rw [hstep]
      exact .notRemoved _ (.inl hname)
    · by_cases hfile : profilePath (trim name) ∈ dir
      · simp only [profiles, removeSpeakerProfile, hname, if_false, hfile, if_true]
        exact .removed hname hfile
      · simp only [profiles, removeSpeakerProfile, hname, if_false, hfile]
        exact .notRemoved _ (.inr hfile)

theorem own_of_notMem {name : String} (h : profilePath name ∉ dir) : OwnFile dir name := by
  intro profile hprofile
  rw [AList.lookup_eq_none.mpr h] at hprofile
  cases hprofile

theorem keepsNames_iff (hfiled : FoldedStore.Filed profilePath SpeakerProfile.name dir)
    (call : ProfileCall F) : KeepsNames (profiles.eventAt dir call) ↔ MeetsOwnFile dir call := by
  have hdone := profiles_done dir call
  have hevent : profiles.eventAt dir call =
      ⟨dir, call, (profiles.step dir call).1, (profiles.step dir call).2⟩ := rfl
  rw [hevent]
  generalize (profiles.step dir call).1 = answer at hdone ⊢
  generalize (profiles.step dir call).2 = after at hdone ⊢
  have hstays : FoldedStore.Leaves SpeakerProfile.name call.speaker dir dir :=
    fun _ _ => Iff.rfl
  cases hdone with
  | @enrolled name sample profile hname hprofile =>
    have hleaves := FoldedStore.put_leaves_iff (v := profile) hfiled
    rw [hprofile] at hleaves
    constructor
    · rintro ⟨hothers, -⟩ -
      exact hleaves.mp hothers
    · intro hmeets
      exact ⟨hleaves.mpr (hmeets hname), nofun⟩
  | @removed name hname hfile =>
    have hleaves := FoldedStore.delete_leaves_iff (k := trim name) hfiled
    constructor
    · rintro ⟨hothers, -⟩ -
      exact hleaves.mp hothers
    · intro hmeets
      refine ⟨hleaves.mpr (hmeets hname), ?_⟩
      rintro name' path ⟨⟩ -
      obtain ⟨profile, hlookup⟩ := Option.isSome_iff_exists.mp (AList.lookup_isSome.mpr hfile)
      have hprofile := hmeets hname profile hlookup
      refine ⟨profile, hprofile, ⟨_, hlookup⟩, fun hafter => ?_⟩
      rw [FoldedStore.holds_delete_iff hfiled, hprofile] at hafter
      exact hafter.2 rfl
  | @notEnrolled name sample e hfails =>
    refine iff_of_true ⟨hstays, nofun⟩ ?_
    rcases hfails with hname | ⟨e, rfl⟩
    · cases sample with
      | error e => trivial
      | ok sample => exact fun hne => absurd hname hne
    · trivial
  | @notRemoved name e hfails =>
    refine iff_of_true ⟨hstays, ?_⟩ ?_
    · rintro name' path - ⟨⟩
    · intro hne
      exact own_of_notMem (hfails.resolve_left hne)

/-! ## Runs -/

theorem filed_step (h : FoldedStore.Filed profilePath SpeakerProfile.name dir)
    (call : ProfileCall F) :
    FoldedStore.Filed profilePath SpeakerProfile.name (profiles.step dir call).2 := by
  have hdone := profiles_done dir call
  generalize (profiles.step dir call).1 = answer at hdone
  generalize (profiles.step dir call).2 = after at hdone ⊢
  cases hdone with
  | enrolled profile _ _ => exact h.put profile
  | removed _ _ => exact h.delete _
  | notEnrolled _ _ => exact h
  | notRemoved _ _ => exact h

theorem filed_run (calls : List (ProfileCall F)) :
    FoldedStore.Filed profilePath SpeakerProfile.name (profiles.run ∅ calls) :=
  profiles.run_invariant FoldedStore.filed_empty (fun _ call h => filed_step h call) calls

theorem mirrors_step {names : String → Option (SpeakerProfile F)}
    (h : FoldedStore.Mirrors profilePath SpeakerProfile.name dir names)
    (hmeets : MeetsOwnFile dir call) :
    FoldedStore.Mirrors profilePath SpeakerProfile.name (profiles.step dir call).2
      (record names (profiles.eventAt dir call)) := by
  have hdone := profiles_done dir call
  have hevent : profiles.eventAt dir call =
      ⟨dir, call, (profiles.step dir call).1, (profiles.step dir call).2⟩ := rfl
  rw [hevent]
  generalize (profiles.step dir call).1 = answer at hdone ⊢
  generalize (profiles.step dir call).2 = after at hdone ⊢
  cases hdone with
  | @enrolled name sample profile hname hprofile =>
    refine h.put (v := profile) ?_
    rw [hprofile]
    exact hmeets hname
  | @removed name hname hfile => exact h.delete (hmeets hname)
  | notEnrolled _ _ => exact h
  | notRemoved _ _ => exact h

theorem known_concat (events : List (ProfileEvent F)) (e : ProfileEvent F) :
    known (events ++ [e]) = record (known events) e := by
  rw [known, foldl_append]
  rfl

theorem mirrors_run (calls : List (ProfileCall F))
    (hmeets : ∀ e ∈ profiles.trace ∅ calls, MeetsOwnFile e.before e.input) :
    FoldedStore.Mirrors profilePath SpeakerProfile.name (profiles.run ∅ calls)
      (known (profiles.trace ∅ calls)) := by
  induction calls using List.reverseRecOn with
  | nil => exact FoldedStore.mirrors_empty
  | append_singleton calls call ih =>
    rw [profiles.trace_concat] at hmeets ⊢
    rw [profiles.run_concat, known_concat]
    rw [forall_mem_append, forall_mem_singleton] at hmeets
    exact mirrors_step (ih hmeets.1) hmeets.2

/-! ## The list -/

theorem isProfileFile_profilePath (name : String) : isProfileFile (profilePath name) = true := by
  rw [isProfileFile, endsWith, profilePath, String.toList_append, isSuffixOf_iff_suffix]
  exact suffix_append _ _

theorem list_perm (h : FoldedStore.Filed profilePath SpeakerProfile.name dir)
    (order : HashOrder (SpeakerProfile F)) :
    (listSpeakerProfiles order dir).Perm (dir.entries.map Sigma.snd) := by
  have hall : (order.walk dir.entries).filter (fun file => isProfileFile file.1) =
      order.walk dir.entries := by
    rw [filter_eq_self]
    intro file hfile
    have hlookup : dir.lookup file.1 = some file.2 :=
      HashTable.lookup_iff_mem.mpr ((order.perm dir.entries).mem_iff.mp hfile)
    rw [h file.1 file.2 hlookup]
    exact isProfileFile_profilePath _
  unfold listSpeakerProfiles
  rw [hall]
  exact (perm_insertionSort _ _).trans ((order.perm dir.entries).map Sigma.snd)

theorem mem_list_iff (h : FoldedStore.Filed profilePath SpeakerProfile.name dir)
    (order : HashOrder (SpeakerProfile F)) (profile : SpeakerProfile F) :
    profile ∈ listSpeakerProfiles order dir ↔ FoldedStore.Holds dir profile := by
  rw [(list_perm h order).mem_iff, mem_map]
  constructor
  · rintro ⟨⟨path, value⟩, hmem, rfl⟩
    exact ⟨path, HashTable.lookup_iff_mem.mpr hmem⟩
  · rintro ⟨path, hlookup⟩
    exact ⟨⟨path, profile⟩, HashTable.lookup_iff_mem.mp hlookup, rfl⟩

theorem nodup_names (h : FoldedStore.Filed profilePath SpeakerProfile.name dir)
    (order : HashOrder (SpeakerProfile F)) :
    ((listSpeakerProfiles order dir).map SpeakerProfile.name).Nodup := by
  rw [((list_perm h order).map SpeakerProfile.name).nodup_iff, map_map]
  have hpaths : (dir.entries.map (SpeakerProfile.name ∘ Sigma.snd)).map profilePath = dir.keys := by
    rw [map_map]
    apply map_congr_left
    intro file hfile
    exact (h file.1 file.2 (HashTable.lookup_iff_mem.mpr hfile)).symm
  have hkeys := dir.keys_nodup
  rw [← hpaths] at hkeys
  exact List.Nodup.of_map profilePath hkeys

theorem lists_of_mirrors {events : List (ProfileEvent F)}
    (hfiled : FoldedStore.Filed profilePath SpeakerProfile.name dir)
    (h : FoldedStore.Mirrors profilePath SpeakerProfile.name dir (known events)) :
    Lists events dir where
  listed order profile := by rw [mem_list_iff hfiled, h.holds_iff hfiled]
  once := nodup_names hfiled

/-- From an empty directory the calls keep a map from names to profiles exactly if no call meets
the profile of another name in the file of its own. -/
theorem profiles_map_iff (calls : List (ProfileCall F)) :
    BehavesAsMap calls ↔ ∀ e ∈ profiles.trace ∅ calls, MeetsOwnFile e.before e.input := by
  have hevents : (∀ e ∈ profiles.trace ∅ calls, KeepsNames e) ↔
      ∀ e ∈ profiles.trace ∅ calls, MeetsOwnFile e.before e.input := by
    refine forall₂_congr fun e he => ?_
    obtain ⟨earlier, call, later, -, rfl⟩ := profiles.mem_trace he
    exact keepsNames_iff (filed_run earlier) call
  constructor
  · intro h
    exact hevents.mp h.events
  · intro h
    refine ⟨hevents.mpr h, ?_⟩
    rintro earlier later rfl
    rw [profiles.trace_append, forall_mem_append] at h
    exact lists_of_mirrors (filed_run earlier) (mirrors_run earlier h.1)

def enrollLi : ProfileCall Unit := .enroll "李" (.ok ⟨1, 16000, 16000, ()⟩)

def enrollWang : ProfileCall Unit := .enroll "王" (.ok ⟨2, 16000, 16000, ()⟩)

/-- Two speakers whose names have no ASCII letter are in one file. -/
theorem second_speaker_overwrites : ¬ ∀ calls : List (ProfileCall Unit), BehavesAsMap calls := by
  intro h
  have hmem : profiles.eventAt (profiles.run ∅ [enrollLi]) enrollWang ∈
      profiles.trace ∅ [enrollLi, enrollWang] := by
    rw [profiles.trace_cons, profiles.trace_cons]
    exact mem_cons_of_mem _ mem_cons_self
  have hkeeps := (h [enrollLi, enrollWang]).events _ hmem
  rw [keepsNames_iff (filed_run [enrollLi])] at hkeeps
  have hname := hkeeps (by decide) ⟨1, "genie_acoustic_v1", "李", 1, 16000, 16000, ()⟩ (by decide)
  exact absurd hname (by decide)

end

end GenieClaw.Voice
