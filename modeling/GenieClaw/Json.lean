import GenieClaw.Library.Binary
import GenieClaw.Library.Text

/-!
# JSON values

The value type of `serde_json`, whose objects are maps sorted by key, with the readers
the tool code uses and the compact writer `to_string`. The shortest decimal text of a
double is the number writer's business and stays a parameter.
-/

namespace GenieClaw

open Library List

inductive Json.Number where
  | posInt (n : Nat)
  /-- The negative integer `-(n + 1)`. -/
  | negInt (n : Nat)
  | float (x : F64)
deriving DecidableEq

inductive Json where
  | null
  | bool (b : Bool)
  | number (n : Json.Number)
  | string (s : String)
  | array (items : List Json)
  | object (fields : List (String × Json))

namespace Json

def get (key : String) : Json → Option Json
  | .object fields => fields.lookup key
  | _ => none

def asStr : Json → Option String
  | .string s => some s
  | _ => none

def asU64 : Json → Option Nat
  | .number (.posInt n) => some n
  | _ => none

def asF64 : Json → Option F64
  | .number (.posInt n) => some (F64.ofNat n)
  | .number (.negInt n) => some (F64.ofNat (n + 1)).neg
  | .number (.float x) => some x
  | _ => none

def keys : Json → List String
  | .object fields => fields.map Prod.fst
  | _ => []

/-- `json!(value)` of an optional double. A value that is not finite has no JSON number
and becomes `null`. -/
def ofOptionF64 : Option F64 → Json
  | some x => if x.isFinite then .number (.float x) else .null
  | none => .null

def escapeChar (c : Char) : List Char :=
  if c = '"' then ['\\', '"']
  else if c = '\\' then ['\\', '\\']
  else if c.toNat = 8 then ['\\', 'b']
  else if c = '\t' then ['\\', 't']
  else if c = '\n' then ['\\', 'n']
  else if c.toNat = 12 then ['\\', 'f']
  else if c = '\r' then ['\\', 'r']
  else if c.toNat < 32 then
    ['\\', 'u', '0', '0', Text.hexDigit (c.toNat / 16), Text.hexDigit (c.toNat % 16)]
  else [c]

def writeString (s : String) : List Char := '"' :: s.toList.flatMap escapeChar ++ ['"']

def writeNumber (floatText : F64 → String) : Number → List Char
  | .posInt n => n.repr.toList
  | .negInt n => '-' :: (n + 1).repr.toList
  | .float x => (floatText x).toList

mutual

def write (floatText : F64 → String) : Json → List Char
  | .null => "null".toList
  | .bool b => (if b then "true" else "false").toList
  | .number n => writeNumber floatText n
  | .string s => writeString s
  | .array items => '[' :: writeItems floatText items ++ [']']
  | .object fields => '{' :: writeFields floatText fields ++ ['}']

def writeItems (floatText : F64 → String) : List Json → List Char
  | [] => []
  | [item] => write floatText item
  | item :: rest => write floatText item ++ ',' :: writeItems floatText rest

def writeField (floatText : F64 → String) : String × Json → List Char
  | (key, value) => writeString key ++ ':' :: write floatText value

def writeFields (floatText : F64 → String) : List (String × Json) → List Char
  | [] => []
  | [field] => writeField floatText field
  | field :: rest => writeField floatText field ++ ',' :: writeFields floatText rest

end

/-- `serde_json::to_string`. -/
def render (floatText : F64 → String) (v : Json) : String := String.ofList (write floatText v)

/-! ## Printable output -/

theorem escapeChar_printable (c : Char) : ∀ d ∈ escapeChar c, 32 ≤ d.toNat := by
  have hdigit : ∀ n < 16, 32 ≤ (Text.hexDigit n).toNat := by decide
  unfold escapeChar
  split_ifs with _ _ _ _ _ _ _ hcontrol
  · simp
  · simp
  · simp
  · simp
  · simp
  · simp
  · simp
  · intro d hd
    simp only [mem_cons, not_mem_nil, or_false] at hd
    rcases hd with rfl | rfl | rfl | rfl | rfl | rfl
    · decide
    · decide
    · decide
    · decide
    · exact hdigit _ (by omega)
    · exact hdigit _ (by omega)
  · intro d hd
    rw [mem_singleton] at hd
    subst hd
    omega

theorem writeString_printable (s : String) : ∀ d ∈ writeString s, 32 ≤ d.toNat := by
  intro d hd
  unfold writeString at hd
  rw [cons_append, mem_cons, mem_append, mem_flatMap, mem_singleton] at hd
  rcases hd with rfl | ⟨c, -, hd⟩ | rfl
  · decide
  · exact escapeChar_printable c d hd
  · decide

theorem repr_printable (n : Nat) : ∀ d ∈ n.repr.toList, 32 ≤ d.toNat := by
  intro d hd
  rw [Nat.toList_repr] at hd
  have hdigit := Nat.isDigit_of_mem_toDigits (by omega) (by omega) hd
  unfold Char.isDigit at hdigit
  simp only [Bool.and_eq_true, decide_eq_true_eq] at hdigit
  have := hdigit.1
  exact le_trans (by decide) (UInt32.le_iff_toNat_le.mp this)

/-- The number writer prints no control characters. -/
def PlainNumbers (floatText : F64 → String) : Prop :=
  ∀ x, ∀ c ∈ (floatText x).toList, 32 ≤ c.toNat

variable {floatText : F64 → String}

theorem writeNumber_printable (hfloat : PlainNumbers floatText) (n : Number) :
    ∀ d ∈ writeNumber floatText n, 32 ≤ d.toNat := by
  cases n with
  | posInt n => exact repr_printable n
  | negInt n =>
    intro d hd
    rcases List.mem_cons.mp hd with rfl | hd
    · decide
    · exact repr_printable _ d hd
  | float x => exact hfloat x

mutual

theorem write_printable (hfloat : PlainNumbers floatText) :
    ∀ v : Json, ∀ d ∈ write floatText v, 32 ≤ d.toNat
  | .null => by
    rw [write]
    simp
  | .bool b => by
    rw [write]
    cases b with
    | false => simp
    | true => simp
  | .number n => by
    rw [write]
    exact writeNumber_printable hfloat n
  | .string s => by
    rw [write]
    exact writeString_printable s
  | .array items => by
    rw [write]
    intro d hd
    rw [cons_append, mem_cons, mem_append, mem_singleton] at hd
    rcases hd with rfl | hd | rfl
    · decide
    · exact writeItems_printable hfloat items d hd
    · decide
  | .object fields => by
    rw [write]
    intro d hd
    rw [cons_append, mem_cons, mem_append, mem_singleton] at hd
    rcases hd with rfl | hd | rfl
    · decide
    · exact writeFields_printable hfloat fields d hd
    · decide

theorem writeItems_printable (hfloat : PlainNumbers floatText) :
    ∀ items : List Json, ∀ d ∈ writeItems floatText items, 32 ≤ d.toNat
  | [] => by
    rw [writeItems]
    intro d hd
    cases hd
  | [item] => by
    rw [writeItems]
    exact write_printable hfloat item
  | item :: next :: rest => by
    rw [writeItems]
    · intro d hd
      rw [mem_append, mem_cons] at hd
      rcases hd with hd | rfl | hd
      · exact write_printable hfloat item d hd
      · decide
      · exact writeItems_printable hfloat (next :: rest) d hd
    · exact cons_ne_nil _ _

theorem writeField_printable (hfloat : PlainNumbers floatText) :
    ∀ field : String × Json, ∀ d ∈ writeField floatText field, 32 ≤ d.toNat
  | (key, value) => by
    rw [writeField]
    intro d hd
    rw [mem_append, mem_cons] at hd
    rcases hd with hd | rfl | hd
    · exact writeString_printable key d hd
    · decide
    · exact write_printable hfloat value d hd

theorem writeFields_printable (hfloat : PlainNumbers floatText) :
    ∀ fields : List (String × Json), ∀ d ∈ writeFields floatText fields, 32 ≤ d.toNat
  | [] => by
    rw [writeFields]
    intro d hd
    cases hd
  | [field] => by
    rw [writeFields]
    exact writeField_printable hfloat field
  | field :: next :: rest => by
    rw [writeFields]
    · intro d hd
      rw [mem_append, mem_cons] at hd
      rcases hd with hd | rfl | hd
      · exact writeField_printable hfloat field d hd
      · decide
      · exact writeFields_printable hfloat (next :: rest) d hd
    · exact cons_ne_nil _ _

end

end Json

end GenieClaw
