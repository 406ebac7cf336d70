import Mathlib.Data.List.Basic
import Mathlib.Order.Lattice
import OneBase.Common.Types
import OneBase.Lib.Bisect

/-!
# Pages of the B+ tree (`storage/page/b_plus_tree_*_page.cpp`)

A leaf page holds entries in key order, an internal page holds children with a
separator before each child but the first. `array_` is the list of its first `size_`
elements; slot 0 of an internal page has a key that nobody reads as a separator.

- `LeafPage.keyIndex_spec`, `InternalPage.lookup_spec`: the binary searches.
- `LeafPage.insert_cases`, `removeAndDeleteRecord_cases`, `lookup_eq_some_iff`: a leaf with
  increasing keys is a finite map.
-/

namespace OneBase

open Bisect

/-- Model of `BPlusTreeLeafPage`. Which elements of `array_` an operation writes, and how many the
4096 bytes of the page have room for, is in `PageWrites`. -/
structure LeafPage (K V : Type) where
  maxSize : Nat
  parentPageId : PageId := invalidPageId
  nextPageId : PageId := invalidPageId
  array : List (K × V) := []

/-- Model of `BPlusTreeInternalPage`, with the same about `array_`. -/
structure InternalPage (K : Type) where
  maxSize : Nat
  parentPageId : PageId := invalidPageId
  array : List (K × PageId) := []

/-- A page of the tree, as a `BPlusTreePage`. -/
inductive TreePage (K V : Type) where
  | leaf (page : LeafPage K V)
  | internal (page : InternalPage K)

namespace TreePage

variable {K V : Type}

def isLeafPage : TreePage K V → Bool
  | leaf _ => true
  | internal _ => false

def getSize : TreePage K V → Nat
  | leaf page => page.array.length
  | internal page => page.array.length

def getMaxSize : TreePage K V → Nat
  | leaf page => page.maxSize
  | internal page => page.maxSize

def getMinSize (page : TreePage K V) : Nat :=
  if page.isLeafPage then page.getMaxSize / 2 else (page.getMaxSize + 1) / 2

def getParentPageId : TreePage K V → PageId
  | leaf page => page.parentPageId
  | internal page => page.parentPageId

def setParentPageId (p : PageId) : TreePage K V → TreePage K V
  | leaf page => leaf { page with parentPageId := p }
  | internal page => internal { page with parentPageId := p }

def isRootPage (page : TreePage K V) : Bool := page.getParentPageId = invalidPageId

end TreePage

/-- The keys of a list increase. -/
def Increasing {K α : Type} [LT K] (entries : List (K × α)) : Prop :=
  entries.Pairwise fun a b => a.1 < b.1

/-- A key occurs at most once. -/
theorem Increasing.unique {K α : Type} [LinearOrder K] {entries : List (K × α)}
    (h : Increasing entries) {key : K} {v v' : α} (hv : (key, v) ∈ entries)
    (hv' : (key, v') ∈ entries) : v = v' := by
  by_contra hne
  have hpair := List.Pairwise.forall_of_forall_of_flip
    (R := fun a b : K × α => a ≠ b → a.1 ≠ b.1) (fun _ _ hself => absurd rfl hself)
    (h.imp fun hab _ => hab.ne) (h.imp fun hab _ => hab.ne')
  exact hpair hv hv' (fun heq => hne (Prod.mk.inj heq).2) rfl

/-! ## Leaf pages -/

namespace LeafPage

variable {K V : Type} [LinearOrder K] [Inhabited K] [Inhabited V]

def init (maxSize : Nat) : LeafPage K V := { maxSize }

def keyAt (page : LeafPage K V) (index : Nat) : K := (page.array.getD index default).1

def keyIndex (page : LeafPage K V) (key : K) : Nat :=
  bisect (fun mid => ¬ page.keyAt mid < key) page.array.length 0 page.array.length

/-- The test that `Lookup`, `Insert` and `RemoveAndDeleteRecord` make: the key is at
the position. -/
def holdsAt (page : LeafPage K V) (key : K) (index : Nat) : Prop :=
  index < page.array.length ∧ ¬ key < page.keyAt index ∧ ¬ page.keyAt index < key

instance (page : LeafPage K V) (key : K) (index : Nat) : Decidable (page.holdsAt key index) :=
  inferInstanceAs (Decidable (_ ∧ _ ∧ _))

def lookup (page : LeafPage K V) (key : K) : Option V :=
  let index := page.keyIndex key
  if page.holdsAt key index then some (page.array.getD index default).2 else none

/-- Model of `Insert`; the size that the source returns is the size of the page. -/
def insert (page : LeafPage K V) (key : K) (value : V) : LeafPage K V :=
  let index := page.keyIndex key
  if page.holdsAt key index then page
  else { page with array := page.array.take index ++ (key, value) :: page.array.drop index }

def removeAndDeleteRecord (page : LeafPage K V) (key : K) : LeafPage K V :=
  let index := page.keyIndex key
  if page.holdsAt key index then { page with array := page.array.eraseIdx index } else page

/-- Model of `MoveHalfTo`: this page and the recipient. -/
def moveHalfTo (page recipient : LeafPage K V) : LeafPage K V × LeafPage K V :=
  let mid := page.array.length / 2
  ({ page with array := page.array.take mid }, { recipient with array := page.array.drop mid })

def moveAllTo (page recipient : LeafPage K V) : LeafPage K V × LeafPage K V :=
  ({ page with array := [] }, { recipient with array := recipient.array ++ page.array })

def moveFirstToEndOf (page recipient : LeafPage K V) : LeafPage K V × LeafPage K V :=
  ({ page with array := page.array.tail },
    { recipient with array := recipient.array ++ [page.array.getD 0 default] })

def moveLastToFrontOf (page recipient : LeafPage K V) : LeafPage K V × LeafPage K V :=
  ({ page with array := page.array.dropLast },
    { recipient with
      array := page.array.getD (page.array.length - 1) default :: recipient.array })

/-! ### A leaf is a finite map -/

variable {page : LeafPage K V}

/-- **`KeyIndex`** splits the entries into those with smaller keys and the others. -/
theorem keyIndex_spec (h : Increasing page.array) (key : K) :
    ∃ l r, page.array = l ++ r ∧ page.keyIndex key = l.length ∧ (∀ e ∈ l, e.1 < key) ∧
      ∀ e ∈ r, key ≤ e.1 := by
  obtain ⟨m, hm, -, hle, hbefore, hafter⟩ :=
    bisect_list (fun e : K × V => decide (¬ e.1 < key)) default page.array (Nat.zero_le _)
      (h.imp fun hab ha => by
        simp only [decide_eq_true_eq, not_lt] at ha ⊢
        exact ha.trans hab.le)
  refine ⟨page.array.take m, page.array.drop m, (List.take_append_drop m _).symm, ?_,
    fun e he => ?_, fun e he => ?_⟩
  · rw [List.length_take, Nat.min_eq_left hle]
    exact hm
  · simpa using hbefore e (by simpa using he)
  · simpa using hafter e he

/-- The position that `KeyIndex` finds holds the key if and only if the page does. -/
theorem holdsAt_keyIndex (h : Increasing page.array) (key : K) :
    (∃ l v r, page.array = l ++ (key, v) :: r ∧ page.keyIndex key = l.length ∧
        page.holdsAt key (page.keyIndex key)) ∨
      (∃ l r, page.array = l ++ r ∧ page.keyIndex key = l.length ∧ (∀ e ∈ l, e.1 < key) ∧
        (∀ e ∈ r, key < e.1) ∧ ¬ page.holdsAt key (page.keyIndex key)) := by
  obtain ⟨l, r, harray, hindex, hl, hr⟩ := keyIndex_spec h key
  cases r with
  | nil =>
    refine .inr ⟨l, [], harray, hindex, hl, fun _ he => absurd he List.not_mem_nil, fun hat => ?_⟩
    have hlt := hat.1
    rw [hindex, harray, List.append_nil] at hlt
    exact Nat.lt_irrefl _ hlt
  | cons e r =>
    have hkey : page.keyAt (page.keyIndex key) = e.1 := by
      simp [keyAt, hindex, harray, List.getD_eq_getElem?_getD]
    have hlt : page.keyIndex key < page.array.length := by
      rw [hindex, harray, List.length_append, List.length_cons]
      omega
    rcases (hr e List.mem_cons_self).eq_or_lt with heq | hlt'
    · refine .inl ⟨l, e.2, r, ?_, hindex, hlt, ?_, ?_⟩
      · rw [harray, heq]
      · rw [hkey, heq]
        exact lt_irrefl _
      · rw [hkey, heq]
        exact lt_irrefl _
    · refine .inr ⟨l, e :: r, harray, hindex, hl, fun e' he' => ?_, fun hat => ?_⟩
      · rcases List.mem_cons.mp he' with rfl | he'
        · exact hlt'
        · rw [harray] at h
          have hsorted := (List.pairwise_append.mp h).2.1
          exact hlt'.trans ((List.pairwise_cons.mp hsorted).1 e' he')
      · exact hat.2.1 (hkey ▸ hlt')

/-- **`Insert`** leaves a page that has the key as it is. -/
theorem insert_cases (h : Increasing page.array) (key : K) (value : V) :
    (key ∈ page.array.map Prod.fst ∧ page.insert key value = page) ∨
      (key ∉ page.array.map Prod.fst ∧
        ∃ l r, page.array = l ++ r ∧ (∀ e ∈ l, e.1 < key) ∧ (∀ e ∈ r, key < e.1) ∧
          page.insert key value = { page with array := l ++ (key, value) :: r }) := by
  rcases holdsAt_keyIndex h key with ⟨l, v, r, harray, -, hat⟩ | ⟨l, r, harray, hindex, hl, hr, hat⟩
  · refine .inl ⟨?_, if_pos hat⟩
    rw [harray]
    simp
  · refine .inr ⟨?_, l, r, harray, hl, hr, ?_⟩
    · intro hmem
      obtain ⟨e, he, rfl⟩ := List.mem_map.mp hmem
      rw [harray] at he
      rcases List.mem_append.mp he with he | he
      · exact lt_irrefl _ (hl e he)
      · exact lt_irrefl _ (hr e he)
    · show (if _ then _ else _) = _
      rw [if_neg hat, hindex, harray, List.take_left, List.drop_left]

/-- **`RemoveAndDeleteRecord`** removes the entry of the key. -/
theorem removeAndDeleteRecord_cases (h : Increasing page.array) (key : K) :
    (key ∉ page.array.map Prod.fst ∧ page.removeAndDeleteRecord key = page) ∨
      ∃ l v r, page.array = l ++ (key, v) :: r ∧
        page.removeAndDeleteRecord key = { page with array := l ++ r } := by
  rcases holdsAt_keyIndex h key with ⟨l, v, r, harray, hindex, hat⟩ | ⟨l, r, harray, -, hl, hr, hat⟩
  · refine .inr ⟨l, v, r, harray, ?_⟩
    show (if _ then _ else _) = _
    rw [if_pos hat, hindex, harray, List.eraseIdx_append_of_length_le (Nat.le_refl _), Nat.sub_self,
      List.eraseIdx_cons_zero]
  · refine .inl ⟨?_, if_neg hat⟩
    intro hmem
    obtain ⟨e, he, rfl⟩ := List.mem_map.mp hmem
    rw [harray] at he
    rcases List.mem_append.mp he with he | he
    · exact lt_irrefl _ (hl e he)
    · exact lt_irrefl _ (hr e he)

/-- **`Lookup`** finds the value of the key. -/
theorem lookup_eq_some_iff (h : Increasing page.array) (key : K) (v : V) :
    page.lookup key = some v ↔ (key, v) ∈ page.array := by
  rcases holdsAt_keyIndex h key with
    ⟨l, v', r, harray, hindex, hat⟩ | ⟨l, r, harray, -, hl, hr, hat⟩
  · have hlookup : page.lookup key = some v' := by
      show (if _ then _ else _) = _
      rw [if_pos hat, hindex, harray]
      simp [List.getD_eq_getElem?_getD]
    have hmem : (key, v') ∈ page.array := by
      rw [harray]
      simp
    rw [hlookup, Option.some.injEq]
    constructor
    · rintro rfl
      exact hmem
    · exact h.unique hmem
  · have hlookup : page.lookup key = none := if_neg hat
    rw [hlookup]
    constructor
    · intro hv
      cases hv
    · intro hv
      rw [harray] at hv
      rcases List.mem_append.mp hv with hv | hv
      · exact absurd (hl _ hv) (lt_irrefl _)
      · exact absurd (hr _ hv) (lt_irrefl _)

end LeafPage

/-! ## Internal pages -/

namespace InternalPage

variable {K : Type} [LinearOrder K] [Inhabited K]

def init (maxSize : Nat) : InternalPage K := { maxSize }

def keyAt (page : InternalPage K) (index : Nat) : K := (page.array.getD index default).1

def setKeyAt (page : InternalPage K) (index : Nat) (key : K) : InternalPage K :=
  { page with array := page.array.modify index fun e => (key, e.2) }

def valueAt (page : InternalPage K) (index : Nat) : PageId := (page.array.getD index default).2

/-- Model of `ValueIndex`; no value stands for `-1`. -/
def valueIndex (page : InternalPage K) (value : PageId) : Option Nat :=
  page.array.findIdx? fun e => e.2 = value

/-- The slot that `Lookup` finds. -/
def lookupIndex (page : InternalPage K) (key : K) : Nat :=
  bisect (fun mid => key < page.keyAt mid) page.array.length 1 page.array.length - 1

def lookup (page : InternalPage K) (key : K) : PageId := page.valueAt (page.lookupIndex key)

def populateNewRoot (page : InternalPage K) (oldValue : PageId) (key : K) (newValue : PageId) :
    InternalPage K :=
  { page with array := [(page.keyAt 0, oldValue), (key, newValue)] }

def insertNodeAfter (page : InternalPage K) (oldValue : PageId) (key : K) (newValue : PageId) :
    InternalPage K :=
  match page.valueIndex oldValue with
  | none => page
  | some index =>
    { page with
      array := page.array.take (index + 1) ++ (key, newValue) :: page.array.drop (index + 1) }

/-- Model of `Remove`; past the end of the array it drops the last element. -/
def remove (page : InternalPage K) (index : Nat) : InternalPage K :=
  { page with array := (page.array.eraseIdx index).take (page.array.length - 1) }

def removeAndReturnOnlyChild (page : InternalPage K) : PageId × InternalPage K :=
  (page.valueAt 0, { page with array := [] })

def moveAllTo (page recipient : InternalPage K) (middleKey : K) :
    InternalPage K × InternalPage K :=
  ({ page with array := [] },
    { recipient with
      array := recipient.array ++
        match page.array with
        | [] => []
        | e :: rest => (middleKey, e.2) :: rest })

/-- Model of `MoveHalfTo`, which does not use its second argument. -/
def moveHalfTo (page recipient : InternalPage K) : InternalPage K × InternalPage K :=
  let mid := page.array.length / 2
  ({ page with array := page.array.take mid },
    { recipient with
      array :=
        match page.array.drop mid with
        | [] => []
        | e :: rest => (recipient.keyAt 0, e.2) :: rest })

/-- Model of `MoveFirstToEndOf`. The values move one slot to the left, the keys only from
slot 1 on: the key of slot 1 is lost. -/
def moveFirstToEndOf (page recipient : InternalPage K) (middleKey : K) :
    InternalPage K × InternalPage K :=
  ({ page with
      array :=
        match page.array with
        | e₀ :: e₁ :: rest => (e₀.1, e₁.2) :: rest
        | _ => [] },
    { recipient with array := recipient.array ++ [(middleKey, page.valueAt 0)] })

/-- Model of `MoveLastToFrontOf`. The child that moves gets slot 1. -/
def moveLastToFrontOf (page recipient : InternalPage K) (middleKey : K) :
    InternalPage K × InternalPage K :=
  ({ page with array := page.array.dropLast },
    { recipient with
      array :=
        match recipient.array with
        | [] => [default]
        | e :: rest => e :: (middleKey, page.valueAt (page.array.length - 1)) :: rest })

variable {page : InternalPage K}

/-- **`Lookup`** goes to the last child whose separator is not above the key. -/
theorem lookup_spec (hne : page.array ≠ []) (h : Increasing page.array.tail) (key : K) :
    ∃ l e r, page.array = l ++ e :: r ∧ page.lookupIndex key = l.length ∧
      page.lookup key = e.2 ∧ (l ≠ [] → e.1 ≤ key) ∧ ∀ x ∈ r, key < x.1 := by
  have hpos := List.length_pos_iff.mpr hne
  obtain ⟨m, hm, hm₁, hm₂, hbefore, hafter⟩ :=
    bisect_list (fun e : K × PageId => decide (key < e.1)) default page.array hpos (by
      rw [List.drop_one]
      exact h.imp fun hab ha => by
        simp only [decide_eq_true_eq] at ha ⊢
        exact ha.trans hab)
  have hlt : m - 1 < page.array.length := by omega
  have hsplit : page.array = page.array.take (m - 1) ++ page.array[m - 1] :: page.array.drop m := by
    have hdrop := List.drop_eq_getElem_cons hlt
    rw [show m - 1 + 1 = m by omega] at hdrop
    rw [← hdrop, List.take_append_drop]
  have hindex : page.lookupIndex key = m - 1 := congrArg (· - 1) hm
  refine ⟨_, _, _, hsplit, ?_, ?_, fun hl => ?_, fun x hx => ?_⟩
  · rw [hindex, List.length_take, Nat.min_eq_left (Nat.le_of_lt hlt)]
  · rw [lookup, hindex, valueAt, List.getD_eq_getElem?_getD, List.getElem?_eq_getElem hlt]
    rfl
  · -- the slot is not slot 0
    have hm' : 1 ≤ m - 1 := by
      by_contra hzero
      exact hl (by rw [show m - 1 = 0 by omega]; rfl)
    have hmem : page.array[m - 1] ∈ (page.array.take m).drop 1 := by
      rw [List.mem_iff_getElem]
      refine ⟨m - 2, ?_, ?_⟩
      · rw [List.length_drop, List.length_take]
        omega
      · rw [List.getElem_drop, List.getElem_take]
        congr 1
        omega
    simpa using hbefore _ hmem
  · simpa using hafter x hx

omit [LinearOrder K] [Inhabited K] in
/-- **`ValueIndex`** finds the slot of a child. -/
theorem valueIndex_eq {l r : List (K × PageId)} {e : K × PageId} (harray : page.array = l ++ e :: r)
    (hl : ∀ x ∈ l, x.2 ≠ e.2) : page.valueIndex e.2 = some l.length := by
  rw [valueIndex, harray, List.findIdx?_append, List.findIdx?_eq_none_iff.mpr]
  · simp [List.findIdx?_cons]
  · intro x hx
    simpa using hl x hx

omit [LinearOrder K] [Inhabited K] in
theorem insertNodeAfter_eq {l r : List (K × PageId)} {e : K × PageId}
    (harray : page.array = l ++ e :: r) (hl : ∀ x ∈ l, x.2 ≠ e.2) (key : K) (newValue : PageId) :
    page.insertNodeAfter e.2 key newValue =
      { page with array := l ++ e :: (key, newValue) :: r } := by
  have htake : page.array.take (l.length + 1) = l ++ [e] := by
    rw [harray, List.take_append, List.take_of_length_le (Nat.le_succ _), Nat.add_sub_cancel_left]
    rfl
  have hdrop : page.array.drop (l.length + 1) = r := by
    rw [harray, List.drop_append, List.drop_of_length_le (Nat.le_succ _), Nat.add_sub_cancel_left]
    rfl
  rw [insertNodeAfter, valueIndex_eq harray hl]
  simp only [htake, hdrop, List.append_assoc, List.singleton_append]

omit [LinearOrder K] [Inhabited K] in
theorem remove_eq {l r : List (K × PageId)} {e : K × PageId} (harray : page.array = l ++ e :: r) :
    page.remove l.length = { page with array := l ++ r } := by
  rw [remove, harray, List.eraseIdx_append_of_length_le (Nat.le_refl _), Nat.sub_self,
    List.eraseIdx_cons_zero, List.take_of_length_le]
  simp only [List.length_append, List.length_cons]
  omega

end InternalPage

end OneBase
