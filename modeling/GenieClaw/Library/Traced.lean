import GenieClaw.Library.Text

/-!
# Texts that remember their sources

A text is put together from pieces. Some are fixed, some were drawn from a source.
-/

namespace GenieClaw.Library

open List String
/-- The pieces of a text, each with the source it was drawn from. -/
abbrev Traced (S : Type) := List (Option S × String)

namespace Traced

variable {S : Type}

def text (t : Traced S) : String := String.join (t.map Prod.snd)

def sources (t : Traced S) : List S := t.filterMap Prod.fst

def fixed (s : String) : Traced S := [(none, s)]

def drawn (source : S) (s : String) : Traced S := [(some source, s)]

def joinWith (sep : String) : List (Traced S) → Traced S
  | [] => []
  | [t] => t
  | t :: u :: rest => t ++ fixed sep ++ joinWith sep (u :: rest)

@[simp] theorem text_fixed (s : String) : text (fixed s : Traced S) = s := by
  simp [text, fixed]

@[simp] theorem text_drawn (source : S) (s : String) : text (drawn source s) = s := by
  simp [text, drawn]

@[simp] theorem text_append (t u : Traced S) : text (t ++ u) = text t ++ text u := by
  rw [text, map_append, join_append]
  rfl

@[simp] theorem sources_fixed (s : String) : sources (fixed s : Traced S) = [] := rfl

@[simp] theorem sources_drawn (source : S) (s : String) : sources (drawn source s) = [source] := rfl

@[simp] theorem sources_append (t u : Traced S) : sources (t ++ u) = sources t ++ sources u :=
  filterMap_append

theorem text_joinWith (sep : String) (ts : List (Traced S)) :
    text (joinWith sep ts) = Text.joinWith sep (ts.map text) := by
  induction ts with
  | nil => rfl
  | cons t ts ih =>
    cases ts with
    | nil => simp [joinWith, Text.joinWith]
    | cons u rest =>
      rw [joinWith, text_append, text_append, text_fixed, ih]
      simp [Text.joinWith, List.intercalate, ofList_append, String.append_assoc]

theorem sources_joinWith (sep : String) (ts : List (Traced S)) :
    sources (joinWith sep ts) = ts.flatMap sources := by
  induction ts with
  | nil => rfl
  | cons t ts ih =>
    cases ts with
    | nil => simp [joinWith]
    | cons u rest =>
      rw [joinWith, sources_append, sources_append, sources_fixed, append_nil, ih,
        flatMap_cons, flatMap_cons, flatMap_cons]

theorem mem_joinWith {sep : String} {ts : List (Traced S)} {t : Traced S} (ht : t ∈ ts)
    {piece : Option S × String} (h : piece ∈ t) : piece ∈ joinWith sep ts := by
  induction ts with
  | nil => cases ht
  | cons u ts ih =>
    cases ts with
    | nil =>
      rw [List.mem_singleton.mp ht] at h
      exact h
    | cons u' rest =>
      rw [joinWith]
      rcases List.mem_cons.mp ht with rfl | ht
      · exact mem_append_left _ (mem_append_left _ h)
      · exact mem_append_right _ (ih ht)

theorem exists_text_of_mem {t : Traced S} {source : S} {s : String} (h : (some source, s) ∈ t) :
    ∃ before after, text t = before ++ s ++ after := by
  obtain ⟨front, back, rfl⟩ := append_of_mem h
  refine ⟨text front, text back, ?_⟩
  rw [append_cons, text_append, text_append]
  congr 2

end Traced

end GenieClaw.Library
