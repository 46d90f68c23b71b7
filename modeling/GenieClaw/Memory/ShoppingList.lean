import GenieClaw.Library.LastWrite
import GenieClaw.Memory.Store
import Mathlib.Data.Prod.Lex

/-!
# The statements of the shopping list

What a memory says about the shopping list, apart from how the parser finds it: the items that it
names, and whether they are wanted. A statement with a status keyword lists what follows the
keyword.

* `mem_names`, `mem_listedNames`: the items a memory names and those on the list.
-/

namespace GenieClaw.Memory

open Library Library.Text Library.LastWrite List Option

/-! ## Statements -/

/-- The keywords of the statements that take items off the list. -/
def offListKeywords : List String :=
  [" removed:", " remove:", " taken off:", " done:", " bought:", " completed:", " purchased:"]

/-- What a statement lists: the text after its status keyword, if it has one. -/
def listedText (statement : String) : String :=
  (offListKeywords.findSome? fun keyword => textAfter keyword statement).getD (itemsText statement)

/-- The text before the first occurrence of the keyword ends in `shopping list`. -/
def ofShoppingList (keyword statement : String) : Bool :=
  (splitOnceIgnoreCase keyword statement).any fun parts =>
    endsWith "shopping list" (toAsciiLowercase parts.1)

/-- The forms with a status keyword whose items the parser finds: `shopping list removed:` and
`shopping list remove:`. -/
def KeywordRead (statement : String) : Prop :=
  containsText (toAsciiLowercase statement) "shopping list pending:" = false ∧
    (ofShoppingList " removed:" statement = true ∨
      containsText (toAsciiLowercase statement) " removed:" = false ∧
        ofShoppingList " remove:" statement = true)

instance (statement : String) : Decidable (KeywordRead statement) :=
  inferInstanceAs (Decidable (_ ∧ _))

namespace MemoryEntry

/-- The memory is a statement about the shopping list of the household: it is about shopping, and
may be spoken of in a shared room. -/
def isShopping (m : MemoryEntry) : Bool :=
  (toAsciiLowercase m.kind = "shopping" ||
    containsText (toAsciiLowercase (statementOf m.content)) "shopping list") &&
    (assessMemoryRead m.metadata MemoryReadContext.sharedRoomVoice).allowed

/-- The items of the memory are wanted. -/
def isPending (m : MemoryEntry) : Bool :=
  !containsAny (toAsciiLowercase (statementOf m.content)) offListKeywords

/-- The items that the memory names, by their normalised names. -/
def itemNames (m : MemoryEntry) : List String :=
  if m.isShopping then
    (splitListItems (listedText (statementOf m.content))).map normalizeAliasKey
  else []

/-- A keyword stands where the parser finds the items, and what is wanted is not named twice. -/
structure Readable (m : MemoryEntry) : Prop where
  keyword : m.isShopping = true → m.isPending = true ∨ KeywordRead (statementOf m.content)
  once : m.isPending = true → m.itemNames.Nodup

/-- What the parser takes from the memory. -/
def shoppingColumns (m : MemoryEntry) : List Columns :=
  sharedRoomOnly m.metadata (shoppingListItemsFromMemory m.kind m.content)

end MemoryEntry

theorem textAfter_eq_none {marker statement : String} : textAfter marker statement = none ↔
    containsText (toAsciiLowercase statement) marker = false := by
  rw [textAfter, map_eq_none_iff, splitOnceIgnoreCase_eq_none]

theorem shoppingStatus_pending {lower : String} :
    shoppingStatus lower = "pending" ↔ containsAny lower offListKeywords = false := by
  have hsplit : containsAny lower offListKeywords =
      (containsAny lower [" removed:", " remove:", " taken off:"] ||
        containsAny lower [" done:", " bought:", " completed:", " purchased:"]) := by
    simp [containsAny, offListKeywords, Bool.or_assoc]
  rw [hsplit, shoppingStatus]
  split
  · rename_i h
    simp [h]
  · rename_i h
    split
    · rename_i h'
      simp [h']
    · rename_i h'
      simp [h, h']

theorem listedText_of_pending {statement : String}
    (h : containsAny (toAsciiLowercase statement) offListKeywords = false) :
    listedText statement = itemsText statement := by
  have hnone : (offListKeywords.findSome? fun keyword => textAfter keyword statement) = none := by
    rw [findSome?_eq_none_iff]
    intro keyword hkeyword
    rw [textAfter_eq_none]
    exact Bool.eq_false_iff.mpr (List.any_eq_false.mp h keyword hkeyword)
  rw [listedText, hnone, getD_none]

theorem textAfter_of_shopping_list {keyword statement : String} (hne : keyword ≠ "")
    (h : ofShoppingList keyword statement = true) :
    ∃ text, textAfter keyword statement = some text ∧
      textAfter ("shopping list" ++ keyword) statement = some text := by
  obtain ⟨parts, hparts, hends⟩ := (Option.any_eq_true _ _).mp h
  obtain ⟨before, hlonger⟩ := splitOnceIgnoreCase_longer hne hparts hends
  refine ⟨parts.2, ?_, ?_⟩
  · rw [textAfter, hparts, map_some]
  · rw [textAfter, hlonger, map_some]

theorem textAfter_longer_none {keyword longer statement : String}
    (hlonger : keyword.toList <:+ longer.toList)
    (h : containsText (toAsciiLowercase statement) keyword = false) :
    textAfter longer statement = none := by
  rw [textAfter_eq_none, containsText, decide_eq_false_iff_not]
  rw [containsText, decide_eq_false_iff_not] at h
  exact fun hwithin => h (hlonger.isInfix.trans hwithin)

theorem listedText_of_keywordRead {statement : String} (h : KeywordRead statement) :
    listedText statement = itemsText statement := by
  obtain ⟨hpending, hkeyword⟩ := h
  have hnone : textAfter "shopping list pending:" statement = none := textAfter_eq_none.mpr hpending
  rcases hkeyword with hremoved | ⟨habsent, hremove⟩
  · obtain ⟨text, hshort, hlong⟩ := textAfter_of_shopping_list (by decide) hremoved
    have hlong : textAfter "shopping list removed:" statement = some text := hlong
    rw [listedText, itemsText, hnone, hlong, offListKeywords, findSome?_cons, hshort]
    simp only [none_or, some_or, getD_some]
  · obtain ⟨text, hshort, hlong⟩ := textAfter_of_shopping_list (by decide) hremove
    have hlong : textAfter "shopping list remove:" statement = some text := hlong
    have hskip : textAfter "shopping list removed:" statement = none :=
      textAfter_longer_none (by decide) habsent
    have habsent : textAfter " removed:" statement = none := textAfter_eq_none.mpr habsent
    rw [listedText, itemsText, hnone, hskip, hlong, offListKeywords, findSome?_cons,
      habsent, findSome?_cons, hshort]
    simp only [none_or, some_or, getD_some]

/-! ## Rows -/

/-- The normalised name of the item in a row. -/
def DerivedRow.itemName (row : DerivedRow) : String := row.textAt 1

/-- The rows of the memory, written at some time. -/
def MemoryEntry.shoppingRows (m : MemoryEntry) (now : Nat) : List DerivedRow :=
  m.shoppingColumns.map fun columns => ⟨m.id, columns, now⟩

/-- The names on the list, as it is read out. -/
def listedNames (rows : List DerivedRow) : List String :=
  (shoppingListItems rows).map DerivedRow.itemName

section

variable {m : MemoryEntry} {now : Nat}

theorem shoppingRows_eq (m : MemoryEntry) (now : Nat) : m.shoppingRows now =
    if m.isShopping then
      (splitListItems (itemsText (statementOf m.content))).map fun item => ⟨m.id,
        [.text item, .text (normalizeAliasKey item),
          .text (shoppingStatus (toAsciiLowercase (statementOf m.content)))], now⟩
    else [] := by
  unfold MemoryEntry.shoppingRows MemoryEntry.shoppingColumns sharedRoomOnly
    shoppingListItemsFromMemory MemoryEntry.isShopping
  dsimp only
  cases (assessMemoryRead m.metadata MemoryReadContext.sharedRoomVoice).allowed with
  | false => simp
  | true =>
    by_cases h : toAsciiLowercase m.kind = "shopping" ∨
        containsText (toAsciiLowercase (statementOf m.content)) "shopping list" = true
    · rw [if_pos rfl, if_pos h, if_pos (by simpa using h), List.map_map]
      rfl
    · rw [if_pos rfl, if_neg h, if_neg (by simpa using h)]
      rfl

theorem shoppingRows_spec {row : DerivedRow} (h : row ∈ m.shoppingRows now) :
    row.sourceMemoryId = m.id ∧ row.updatedMs = now ∧
      (row.textAt 2 = "pending" ↔ m.isPending = true) := by
  rw [shoppingRows_eq] at h
  split at h
  · obtain ⟨item, -, rfl⟩ := List.mem_map.mp h
    refine ⟨rfl, rfl, ?_⟩
    show shoppingStatus (toAsciiLowercase (statementOf m.content)) = "pending" ↔ _
    rw [shoppingStatus_pending, MemoryEntry.isPending, Bool.not_eq_true']
  · cases h

theorem shoppingRows_names (h : m.Readable) :
    (m.shoppingRows now).map DerivedRow.itemName = m.itemNames := by
  rw [shoppingRows_eq, MemoryEntry.itemNames]
  split
  · rename_i hshopping
    have hlisted : listedText (statementOf m.content) = itemsText (statementOf m.content) := by
      rcases h.keyword hshopping with hpending | hread
      · exact listedText_of_pending (by simpa [MemoryEntry.isPending] using hpending)
      · exact listedText_of_keywordRead hread
    rw [hlisted, List.map_map]
    rfl
  · rfl

end

/-! ## The table -/

/-- A statement with the time of its rows. -/
structure Dated where
  memory : MemoryEntry
  now : Nat

namespace Dated

def rows (w : Dated) : List DerivedRow := w.memory.shoppingRows w.now

def names (w : Dated) : List String := w.memory.itemNames

def wanted (w : Dated) : Bool := w.memory.isPending

/-- Rows are compared by their time, and then by their memory. -/
def stamp (w : Dated) : Nat ×ₗ Nat := toLex (w.now, w.memory.id)

variable {v w : Dated} {row other : DerivedRow}

theorem newer_iff (hrow : row ∈ w.rows) (hother : other ∈ v.rows) :
    row.newer other = true ↔ other.itemName = row.itemName ∧ w.stamp < v.stamp := by
  obtain ⟨hid, hnow, -⟩ := shoppingRows_spec hrow
  obtain ⟨hid', hnow', -⟩ := shoppingRows_spec hother
  rw [DerivedRow.newer, decide_eq_true_eq, hid, hnow, hid', hnow', stamp, stamp,
    Prod.Lex.toLex_lt_toLex, eq_comm (a := v.now)]
  rfl

theorem mem_names (hread : w.memory.Readable) {k : String} :
    k ∈ w.names ↔ ∃ row ∈ w.rows, row.itemName = k := by
  rw [names, ← shoppingRows_names hread, List.mem_map]
  rfl

end Dated

section

variable {ws : List Dated}

theorem shown_iff (hread : ∀ w ∈ ws, w.memory.Readable) {w : Dated} (hw : w ∈ ws)
    {row : DerivedRow} (hrow : row ∈ w.rows) :
    row ∈ shoppingListItems (ws.flatMap Dated.rows) ↔
      Newest Dated.names Dated.stamp ws row.itemName w ∧ w.wanted = true := by
  have hmem : row ∈ ws.flatMap Dated.rows := List.mem_flatMap.mpr ⟨w, hw, hrow⟩
  rw [shoppingListItems, mem_insertionSort, List.mem_filter, and_iff_right hmem,
    Bool.and_eq_true, decide_eq_true_eq, (shoppingRows_spec hrow).2.2, and_comm]
  refine and_congr_left fun _ => ?_
  rw [Bool.not_eq_true', Bool.eq_false_iff, Ne, List.any_eq_true]
  constructor
  · intro hnone
    refine ⟨hw, (Dated.mem_names (hread w hw)).mpr ⟨row, hrow, rfl⟩, fun v hv hk => ?_⟩
    obtain ⟨other, hother, hname⟩ := (Dated.mem_names (hread v hv)).mp hk
    refine le_of_not_gt fun hlt => hnone ⟨other, List.mem_flatMap.mpr ⟨v, hv, hother⟩, ?_⟩
    exact (Dated.newer_iff hrow hother).mpr ⟨hname, hlt⟩
  · rintro hnewest ⟨other, hother, hnewer⟩
    obtain ⟨v, hv, hother⟩ := List.mem_flatMap.mp hother
    obtain ⟨hname, hlt⟩ := (Dated.newer_iff hrow hother).mp hnewer
    have hk : row.itemName ∈ v.names := (Dated.mem_names (hread v hv)).mpr ⟨other, hother, hname⟩
    exact absurd (hnewest.newest v hv hk) (not_le_of_gt hlt)

theorem mem_listedNames (hread : ∀ w ∈ ws, w.memory.Readable) {k : String} :
    k ∈ listedNames (ws.flatMap Dated.rows) ↔
      ∃ w, Newest Dated.names Dated.stamp ws k w ∧ w.wanted = true := by
  rw [listedNames, List.mem_map]
  constructor
  · rintro ⟨row, hrow, rfl⟩
    obtain ⟨w, hw, hmem⟩ := List.mem_flatMap.mp (mem_shoppingListItems hrow)
    exact ⟨w, (shown_iff hread hw hmem).mp hrow⟩
  · rintro ⟨w, hnewest, hwanted⟩
    obtain ⟨row, hrow, rfl⟩ := (Dated.mem_names (hread w hnewest.mem)).mp hnewest.named
    exact ⟨row, (shown_iff hread hnewest.mem hrow).mpr ⟨hnewest, hwanted⟩, rfl⟩

theorem listedNames_nodup (hread : ∀ w ∈ ws, w.memory.Readable)
    (hids : (ws.map fun w => w.memory.id).Nodup) : (listedNames (ws.flatMap Dated.rows)).Nodup := by
  -- of two rows on the list with one name neither is newer, so they are of one memory
  have hapart : (ws.flatMap Dated.rows).Pairwise fun a b =>
      a ∈ shoppingListItems (ws.flatMap Dated.rows) →
      b ∈ shoppingListItems (ws.flatMap Dated.rows) → a.itemName ≠ b.itemName := by
    rw [pairwise_flatMap]
    constructor
    · intro w hw
      by_cases hwanted : w.wanted = true
      · have honce : (w.rows.map DerivedRow.itemName).Nodup := by
          rw [Dated.rows, shoppingRows_names (hread w hw)]
          exact (hread w hw).once hwanted
        exact (List.pairwise_map.mp honce).imp fun hne _ _ => hne
      · refine pairwise_of_forall_mem_list fun a ha b _ hshown => ?_
        exact absurd ((shown_iff hread hw ha).mp hshown).2 hwanted
    · refine (List.pairwise_map.mp hids).imp_of_mem
        fun hv hw hne a ha b hb hshown hshown' hname => ?_
      obtain ⟨hv', -⟩ := (shown_iff hread hv ha).mp hshown
      obtain ⟨hw', -⟩ := (shown_iff hread hw hb).mp hshown'
      rw [hname] at hv'
      have hstamp := le_antisymm (hw'.newest _ hv hv'.named) (hv'.newest _ hw hw'.named)
      exact hne (congrArg Prod.snd (toLex_inj.mp hstamp))
  have hsorted : (shoppingListItems (ws.flatMap Dated.rows)).Perm
      ((ws.flatMap Dated.rows).filter fun row => row.textAt 2 = "pending" &&
        !(ws.flatMap Dated.rows).any row.newer) := perm_insertionSort _ _
  have hshown : ∀ row, row ∈ shoppingListItems (ws.flatMap Dated.rows) ↔
      row ∈ (ws.flatMap Dated.rows).filter fun row => row.textAt 2 = "pending" &&
        !(ws.flatMap Dated.rows).any row.newer := fun row => hsorted.mem_iff
  rw [listedNames, (hsorted.map _).nodup_iff]
  refine List.pairwise_map.mpr ((hapart.filter _).imp_of_mem fun ha hb hne => ?_)
  exact hne ((hshown _).mpr ha) ((hshown _).mpr hb)

end

end GenieClaw.Memory
