import Mathlib.Data.List.AList

/-!
# Hash tables

A hash table is the list of its entries in iteration order; Mathlib's association
lists carry the proof that no key occurs twice, and supply `lookup`, `insert` and
`erase`. What the standard library's tables offer beyond that is `retain` (keep the
entries whose value passes a test) and iteration, whose order is unspecified: a
`HashOrder` is any way of enumerating the entries.

* `Mirrors.put`, `Mirrors.delete`: a table kept in step with the entries it stands for.
-/

namespace GenieClaw.Library

open List
abbrev HashTable (K V : Type) := AList (fun _ : K => V)

namespace HashTable

variable {K V : Type}

def size (m : HashTable K V) : Nat := m.entries.length

def values (m : HashTable K V) : List V := m.entries.map Sigma.snd

def retain (keep : V → Bool) (m : HashTable K V) : HashTable K V :=
  ⟨m.entries.filter (fun e => keep e.2), m.nodupKeys.sublist filter_sublist⟩

@[simp] theorem size_empty : size (∅ : HashTable K V) = 0 := rfl

theorem size_retain_le (keep : V → Bool) (m : HashTable K V) : (retain keep m).size ≤ m.size :=
  length_filter_le _ _

variable [DecidableEq K]

variable {m : HashTable K V}

theorem lookup_iff_mem {k : K} {v : V} :
    m.lookup k = some v ↔ (⟨k, v⟩ : Sigma fun _ : K => V) ∈ m.entries :=
  AList.mem_lookup_iff

theorem lookup_retain_iff {keep : V → Bool} {k : K} {v : V} :
    (retain keep m).lookup k = some v ↔ m.lookup k = some v ∧ keep v = true := by
  rw [lookup_iff_mem, lookup_iff_mem]
  simp [retain]

theorem size_insert (m : HashTable K V) (k : K) (v : V) :
    size (m.insert k v) = if k ∈ m then m.size else m.size + 1 := by
  have hlen : ∀ t : HashTable K V, t.size = t.keys.length := fun t => (length_map _).symm
  rw [hlen, hlen, AList.keys_insert, length_cons, length_erase]
  split_ifs with hk hm hm
  · have := length_pos_of_mem hk
    omega
  · exact absurd (AList.mem_keys.mpr hk) hm
  · exact absurd (AList.mem_keys.mp hm) hk
  · rfl

theorem size_erase_le (m : HashTable K V) (k : K) : size (m.erase k) ≤ m.size :=
  (kerase_sublist k m.entries).length_le

theorem erase_of_lookup_eq_none {k : K} (h : m.lookup k = none) : m.erase k = m := by
  apply AList.ext
  exact kerase_of_notMem_keys (AList.lookup_eq_none.mp h)

end HashTable

/-- One way of walking through the entries of a hash table. -/
structure HashOrder (V : Type) where
  walk : List (Sigma fun _ : String => V) → List (Sigma fun _ : String => V)
  perm : ∀ entries, (walk entries).Perm entries

/-- The walk in the order of the entry list. -/
def HashOrder.listed (V : Type) : HashOrder V := ⟨id, fun _ => .refl _⟩

/-!
## Stores with folded keys

Each value has a key, and is stored in the slot of its key. Two keys may have one slot. As long as
a key is written or deleted only while its slot is its own, the store is a map from keys to values.

* `put_leaves_iff`, `delete_leaves_iff`: a write leaves the values of other keys alone exactly if
  the slot is the key's own.
* `Mirrors.put`, `Mirrors.delete`: the store goes on to mirror the map.
-/

namespace FoldedStore

variable {κ φ V : Type} [DecidableEq φ] (slot : κ → φ) (name : V → κ)

def put (v : V) (store : HashTable φ V) : HashTable φ V := store.insert (slot (name v)) v

def delete (k : κ) (store : HashTable φ V) : HashTable φ V := store.erase (slot k)

/-- The value is in some slot. -/
def Holds (store : HashTable φ V) (v : V) : Prop := ∃ s, store.lookup s = some v

/-- Every value is in the slot of its key. -/
def Filed (store : HashTable φ V) : Prop :=
  ∀ s v, store.lookup s = some v → s = slot (name v)

/-- The slot of the key is empty, or holds a value of this key. -/
def Own (store : HashTable φ V) (k : κ) : Prop :=
  ∀ v, store.lookup (slot k) = some v → name v = k

/-- The values of the other keys are what they were. -/
def Leaves (k : κ) (store store' : HashTable φ V) : Prop :=
  ∀ v, name v ≠ k → (Holds store' v ↔ Holds store v)

/-- The store holds for each key the value that the map has, and no others. -/
def Mirrors (store : HashTable φ V) (known : κ → Option V) : Prop :=
  ∀ k v, known k = some v ↔ store.lookup (slot k) = some v ∧ name v = k

variable {slot name} {store : HashTable φ V} {known : κ → Option V} {k : κ} {v : V}

theorem filed_empty : Filed slot name (∅ : HashTable φ V) := by
  intro s v h
  cases h

theorem mirrors_empty : Mirrors slot name (∅ : HashTable φ V) fun _ => none := by
  intro k v
  exact iff_of_false nofun nofun

theorem Filed.put (h : Filed slot name store) (v : V) :
    Filed slot name (put slot name v store) := by
  intro s w hlookup
  by_cases hs : s = slot (name v)
  · rw [FoldedStore.put, hs, AList.lookup_insert] at hlookup
    cases hlookup
    exact hs
  · rw [FoldedStore.put, AList.lookup_insert_ne hs] at hlookup
    exact h s w hlookup

theorem Filed.delete (h : Filed slot name store) (k : κ) :
    Filed slot name (delete slot k store) := by
  intro s w hlookup
  by_cases hs : s = slot k
  · rw [FoldedStore.delete, hs, AList.lookup_erase] at hlookup
    cases hlookup
  · rw [FoldedStore.delete, AList.lookup_erase_ne hs] at hlookup
    exact h s w hlookup

theorem Filed.holds_iff (h : Filed slot name store) :
    Holds store v ↔ store.lookup (slot (name v)) = some v := by
  constructor
  · rintro ⟨s, hs⟩
    rwa [h s v hs] at hs
  · intro hs
    exact ⟨_, hs⟩

/-! ## The values of other keys -/

theorem holds_put_iff (h : Filed slot name store) {w : V} (hne : name w ≠ name v) :
    Holds (put slot name v store) w ↔ Holds store w ∧ slot (name w) ≠ slot (name v) := by
  rw [(h.put v).holds_iff, h.holds_iff]
  by_cases hs : slot (name w) = slot (name v)
  · rw [put, hs, AList.lookup_insert]
    refine iff_of_false (fun heq => hne ?_) fun hand => hand.2 rfl
    cases heq
    rfl
  · rw [put, AList.lookup_insert_ne hs]
    exact (and_iff_left hs).symm

theorem holds_delete_iff (h : Filed slot name store) {w : V} :
    Holds (delete slot k store) w ↔ Holds store w ∧ slot (name w) ≠ slot k := by
  rw [(h.delete k).holds_iff, h.holds_iff]
  by_cases hs : slot (name w) = slot k
  · rw [delete, hs, AList.lookup_erase]
    exact iff_of_false nofun fun hand => hand.2 rfl
  · rw [delete, AList.lookup_erase_ne hs]
    exact (and_iff_left hs).symm

theorem own_iff (h : Filed slot name store) :
    Own slot name store k ↔ ∀ w, name w ≠ k → Holds store w → slot (name w) ≠ slot k := by
  constructor
  · intro hown w hne hholds hs
    rw [h.holds_iff, hs] at hholds
    exact hne (hown w hholds)
  · intro hother w hlookup
    by_contra hne
    exact hother w hne ⟨_, hlookup⟩ (h _ w hlookup).symm

theorem put_leaves_iff (h : Filed slot name store) :
    Leaves name (name v) store (put slot name v store) ↔ Own slot name store (name v) := by
  rw [own_iff h, Leaves]
  refine forall_congr' fun w => forall_congr' fun hne => ?_
  rw [holds_put_iff h hne]
  exact ⟨fun hiff hholds => (hiff.mpr hholds).2, fun hs => and_iff_left_iff_imp.mpr hs⟩

theorem delete_leaves_iff (h : Filed slot name store) :
    Leaves name k store (delete slot k store) ↔ Own slot name store k := by
  rw [own_iff h, Leaves]
  refine forall_congr' fun w => forall_congr' fun _ => ?_
  rw [holds_delete_iff h]
  exact ⟨fun hiff hholds => (hiff.mpr hholds).2, fun hs => and_iff_left_iff_imp.mpr hs⟩

/-! ## The map -/

theorem Mirrors.holds_iff (h : Mirrors slot name store known) (hfiled : Filed slot name store) :
    Holds store v ↔ known (name v) = some v := by
  rw [hfiled.holds_iff, h]
  exact (and_iff_left rfl).symm

variable [DecidableEq κ]

theorem Mirrors.put (h : Mirrors slot name store known) (hown : Own slot name store (name v)) :
    Mirrors slot name (put slot name v store) (Function.update known (name v) (some v)) := by
  intro k w
  rw [FoldedStore.put]
  by_cases hk : k = name v
  · subst hk
    rw [Function.update_self, AList.lookup_insert, Option.some.injEq]
    exact ⟨fun heq => ⟨heq, heq ▸ rfl⟩, fun hand => hand.1⟩
  · rw [Function.update_of_ne hk, h k w]
    by_cases hs : slot k = slot (name v)
    · rw [hs, AList.lookup_insert]
      refine iff_of_false (fun hand => hk ?_) fun hand => hk ?_
      · rw [← hand.2]
        exact hown w hand.1
      · rw [← hand.2, Option.some.inj hand.1]
    · rw [AList.lookup_insert_ne hs]

theorem Mirrors.delete (h : Mirrors slot name store known) (hown : Own slot name store k) :
    Mirrors slot name (delete slot k store) (Function.update known k none) := by
  intro k' w
  rw [FoldedStore.delete]
  by_cases hk : k' = k
  · subst hk
    rw [Function.update_self, AList.lookup_erase]
    exact iff_of_false nofun nofun
  · rw [Function.update_of_ne hk, h k' w]
    by_cases hs : slot k' = slot k
    · rw [hs, AList.lookup_erase]
      refine iff_of_false (fun hand => hk ?_) nofun
      rw [← hand.2]
      exact hown w hand.1
    · rw [AList.lookup_erase_ne hs]

end FoldedStore

end GenieClaw.Library
