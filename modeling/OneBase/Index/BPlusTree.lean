import Mathlib.Logic.Function.Basic
import OneBase.Buffer.PageGuard
import OneBase.Index.BPlusTreePage

/-!
# The B+ tree (`storage/index/b_plus_tree.cpp`)

The buffer pool is a store of pages that never runs out of frames: `NewPage` gives the
next page id, and `FetchPage` finds the page that was written under an id. Every operation
takes the state of the tree and its pages and returns the new one.

Page guards leave a log. A guard pins its page, and a read or write guard latches it too;
the log has an event when a guard is created and one when it gives its page back, the
latest event first. The latches are re-entrant: a request of a latch that is held is in
the log, and the operation goes on.

Loops and recursion have fuel; no value stands for a run that needs more, or that takes a
page for what it is not.
-/

namespace OneBase

/-! ## The log of the guards -/

/-- A guard is created for a page, or gives it back. -/
inductive GuardEvent where
  | acquire (pageId : PageId) (kind : GuardKind)
  | release (pageId : PageId) (kind : GuardKind)

/-- What the guards did, the latest event first. -/
abbrev GuardLog := List GuardEvent

namespace GuardLog

/-- The guards that are live. -/
def live : GuardLog → List (PageId × GuardKind)
  | [] => []
  | .acquire p kind :: log => (p, kind) :: live log
  | .release p kind :: log => (live log).erase (p, kind)

/-- A latch on the page is held. -/
def Latched (log : GuardLog) (p : PageId) : Prop :=
  (p, GuardKind.read) ∈ live log ∨ (p, GuardKind.write) ∈ live log

instance (log : GuardLog) (p : PageId) : Decidable (log.Latched p) :=
  inferInstanceAs (Decidable (_ ∨ _))

/-- No guard requested a latch that was held. -/
def NoRelatch : GuardLog → Prop
  | [] => True
  | .acquire p kind :: log => (kind = .basic ∨ ¬ Latched log p) ∧ NoRelatch log
  | .release _ _ :: log => NoRelatch log

end GuardLog

/-! ## The state -/

/-- The tree object and its pages; a page without value is one that no `Init` wrote. -/
structure BPlusTree (K V : Type) where
  leafMaxSize : Nat
  internalMaxSize : Nat
  rootPageId : PageId := invalidPageId
  pages : PageId → Option (TreePage K V) := fun _ => none
  nextPageId : PageId := 0
  log : GuardLog := []

namespace BPlusTree

variable {K V : Type} [LinearOrder K] [Inhabited K] [Inhabited V]

/-- Model of the constructor, with `sizeof(KeyType)` and `sizeof(ValueType)`. The header of a
page has 16 bytes, that of a leaf page 4 more, and a page id has 4. -/
def construct (keySize valueSize leafMaxSize internalMaxSize : Nat) : BPlusTree K V where
  leafMaxSize :=
    if leafMaxSize = 0 then (pageSize - 16 - 4) / (keySize + valueSize) else leafMaxSize
  internalMaxSize :=
    if internalMaxSize = 0 then (pageSize - 16) / (keySize + 4) else internalMaxSize

def isEmpty (s : BPlusTree K V) : Bool := s.rootPageId = invalidPageId

/-- `FetchPageRead` and `FetchPageWrite`. -/
def fetchPage (s : BPlusTree K V) (p : PageId) (kind : GuardKind) : BPlusTree K V :=
  { s with log := .acquire p kind :: s.log }

/-- `NewPageGuarded`, and `Init` of the page. -/
def newPageGuarded (s : BPlusTree K V) (page : TreePage K V) : PageId × BPlusTree K V :=
  (s.nextPageId,
    { s with
      nextPageId := s.nextPageId + 1
      pages := Function.update s.pages s.nextPageId (some page)
      log := .acquire s.nextPageId .basic :: s.log })

/-- `Drop` of a guard. -/
def drop (s : BPlusTree K V) (p : PageId) (kind : GuardKind) : BPlusTree K V :=
  { s with log := .release p kind :: s.log }

/-- A page is written. -/
def write (s : BPlusTree K V) (p : PageId) (page : TreePage K V) : BPlusTree K V :=
  { s with pages := Function.update s.pages p (some page) }

def leafAt (s : BPlusTree K V) (p : PageId) : Option (LeafPage K V) :=
  match s.pages p with
  | some (.leaf page) => some page
  | _ => none

def internalAt (s : BPlusTree K V) (p : PageId) : Option (InternalPage K) :=
  match s.pages p with
  | some (.internal page) => some page
  | _ => none

/-- A child is fetched and its `parent_page_id_` set. -/
def setParent (s : BPlusTree K V) (parent : PageId) (child : PageId) : BPlusTree K V :=
  let s := s.fetchPage child .write
  let s := { s with
    pages := Function.update s.pages child ((s.pages child).map (TreePage.setParentPageId parent)) }
  s.drop child .write

/-- The loop over the children of a page. -/
def setParents (s : BPlusTree K V) (parent : PageId) (children : List (K × PageId)) :
    BPlusTree K V :=
  children.foldl (fun s e => s.setParent parent e.2) s

/-- The descent from a page that is fetched. Before the guard of the page is given back,
the child is fetched. -/
def findLeaf (kind : GuardKind) (next : InternalPage K → PageId) :
    Nat → BPlusTree K V → PageId → Option (PageId × BPlusTree K V)
  | 0, _, _ => none
  | fuel + 1, s, p =>
    match s.pages p with
    | none => none
    | some (.leaf _) => some (p, s)
    | some (.internal page) =>
      let child := next page
      findLeaf kind next fuel ((s.fetchPage child kind).drop p kind) child

/-! ## `Insert` -/

/-- The root was split into `left` and `right`: a new root above them. -/
def growRoot (s : BPlusTree K V) (left : PageId) (key : K) (right : PageId) :
    PageId × BPlusTree K V :=
  let (newRootId, s) := s.newPageGuarded
    (.internal ((InternalPage.init s.internalMaxSize).populateNewRoot left key right))
  (newRootId, { s with rootPageId := newRootId })

def insertIntoParent :
    Nat → BPlusTree K V → (parentPageId oldPageId : PageId) → K → PageId → Option (BPlusTree K V)
  | 0, _, _, _, _, _ => none
  | fuel + 1, s, parentPageId, oldPageId, key, newPageId => do
    let s := s.fetchPage parentPageId .write
    let parent ← s.internalAt parentPageId
    let parent := parent.insertNodeAfter oldPageId key newPageId
    if parent.maxSize < parent.array.length then
      let (newParentId, s) := s.newPageGuarded (.internal (InternalPage.init s.internalMaxSize))
      let middleKey := parent.keyAt (parent.array.length / 2)
      let (parent, newParent) := parent.moveHalfTo (InternalPage.init s.internalMaxSize)
      let s := s.write parentPageId (.internal parent)
      let s := s.write newParentId (.internal newParent)
      let s := s.setParents newParentId newParent.array
      if parent.parentPageId = invalidPageId then
        let (newRootId, s) := s.growRoot parentPageId middleKey newParentId
        let s := s.write parentPageId (.internal { parent with parentPageId := newRootId })
        let s := s.write newParentId (.internal { newParent with parentPageId := newRootId })
        return ((s.drop newRootId .basic).drop newParentId .basic).drop parentPageId .write
      else
        let grandparentPageId := parent.parentPageId
        let s := s.write newParentId
          (.internal { newParent with parentPageId := grandparentPageId })
        let s := (s.drop parentPageId .write).drop newParentId .basic
        insertIntoParent fuel s grandparentPageId parentPageId middleKey newParentId
    else
      return (s.write parentPageId (.internal parent)).drop parentPageId .write

/-- `Insert` from the leaf on, which is fetched. -/
def insertIntoLeaf (fuel : Nat) (s : BPlusTree K V) (leafPageId : PageId) (key : K) (value : V) :
    Option (Bool × BPlusTree K V) := do
  let oldLeaf ← s.leafAt leafPageId
  let leaf := oldLeaf.insert key value
  if leaf.array.length = oldLeaf.array.length then
    return (false, s.drop leafPageId .write)
  else if leaf.maxSize < leaf.array.length then
    let (newPageId, s) := s.newPageGuarded (.leaf (LeafPage.init s.leafMaxSize))
    let (leaf, newLeaf) := leaf.moveHalfTo (LeafPage.init s.leafMaxSize)
    let newLeaf := { newLeaf with nextPageId := leaf.nextPageId }
    let leaf := { leaf with nextPageId := newPageId }
    let middleKey := newLeaf.keyAt 0
    if leaf.parentPageId = invalidPageId then
      let (newRootId, s) := s.growRoot leafPageId middleKey newPageId
      let s := s.write leafPageId (.leaf { leaf with parentPageId := newRootId })
      let s := s.write newPageId (.leaf { newLeaf with parentPageId := newRootId })
      return (true, ((s.drop newRootId .basic).drop newPageId .basic).drop leafPageId .write)
    else
      let parentPageId := leaf.parentPageId
      let s := s.write leafPageId (.leaf leaf)
      let s := s.write newPageId (.leaf { newLeaf with parentPageId })
      let s := (s.drop leafPageId .write).drop newPageId .basic
      let s ← s.insertIntoParent fuel parentPageId leafPageId middleKey newPageId
      return (true, s)
  else
    return (true, (s.write leafPageId (.leaf leaf)).drop leafPageId .write)

def insert (fuel : Nat) (s : BPlusTree K V) (key : K) (value : V) :
    Option (Bool × BPlusTree K V) :=
  if s.isEmpty then
    let (newPageId, s) := s.newPageGuarded
      (.leaf ((LeafPage.init s.leafMaxSize).insert key value))
    some (true, { s with rootPageId := newPageId }.drop newPageId .basic)
  else do
    let s := s.fetchPage s.rootPageId .write
    let (leafPageId, s) ← s.findLeaf .write (·.lookup key) fuel s.rootPageId
    s.insertIntoLeaf fuel leafPageId key value

/-! ## `Remove` -/

/-- Model of `AdjustRoot` on the root page, which is fetched. -/
def adjustRoot (s : BPlusTree K V) (p : PageId) : Option (Bool × BPlusTree K V) :=
  match s.pages p with
  | none => none
  | some (.leaf page) =>
    if page.array.length = 0 then some (true, { s with rootPageId := invalidPageId })
    else some (false, s)
  | some (.internal page) =>
    if page.array.length = 1 then
      let (newRootId, page) := page.removeAndReturnOnlyChild
      let s := { s.write p (.internal page) with rootPageId := newRootId }
      some (true, s.setParent invalidPageId newRootId)
    else some (false, s)

/-- `Coalesce` of two pages: `node` moves to its left neighbour. The children of an
internal neighbour get the parent of the neighbour as their parent. -/
def coalescePages (s : BPlusTree K V) (neighbor node : PageId) (middleKey : K) :
    Option (BPlusTree K V) :=
  match s.pages node with
  | none => none
  | some (.leaf leafNode) => do
    let neighborLeaf ← s.leafAt neighbor
    let (leafNode, neighborLeaf) := leafNode.moveAllTo neighborLeaf
    let neighborLeaf := { neighborLeaf with nextPageId := leafNode.nextPageId }
    return (s.write node (.leaf leafNode)).write neighbor (.leaf neighborLeaf)
  | some (.internal internalNode) => do
    let neighborInternal ← s.internalAt neighbor
    let (internalNode, neighborInternal) := internalNode.moveAllTo neighborInternal middleKey
    let s := (s.write node (.internal internalNode)).write neighbor (.internal neighborInternal)
    return s.setParents neighborInternal.parentPageId neighborInternal.array

/-- Model of `Coalesce`. -/
def coalesce (s : BPlusTree K V) (neighbor node parentPageId : PageId) (index : Nat) :
    Option (Bool × BPlusTree K V) := do
  let parent ← s.internalAt parentPageId
  let s ← s.coalescePages neighbor node (parent.keyAt (index + 1))
  let parent := parent.remove (index + 1)
  let s := s.write parentPageId (.internal parent)
  return (decide (parent.array.length < (parent.maxSize + 1) / 2), s)

/-- `Redistribute` between leaves. -/
def redistributeLeaf (s : BPlusTree K V) (neighbor node parentPageId : PageId) (index : Nat)
    (isPredecessor : Bool) : Option (BPlusTree K V) := do
  let parent ← s.internalAt parentPageId
  let leafNode ← s.leafAt node
  let neighborLeaf ← s.leafAt neighbor
  if isPredecessor then
    let (neighborLeaf, leafNode) := neighborLeaf.moveLastToFrontOf leafNode
    let s := (s.write node (.leaf leafNode)).write neighbor (.leaf neighborLeaf)
    return s.write parentPageId (.internal (parent.setKeyAt index (leafNode.keyAt 0)))
  else
    let (neighborLeaf, leafNode) := neighborLeaf.moveFirstToEndOf leafNode
    let s := (s.write node (.leaf leafNode)).write neighbor (.leaf neighborLeaf)
    return s.write parentPageId (.internal (parent.setKeyAt (index + 1) (neighborLeaf.keyAt 0)))

/-- `Redistribute` between internal pages. A child of `node` gets the parent of `node` as
its parent: its first child, or its last. -/
def redistributeInternal (s : BPlusTree K V) (neighbor node parentPageId : PageId) (index : Nat)
    (isPredecessor : Bool) : Option (BPlusTree K V) := do
  let parent ← s.internalAt parentPageId
  let internalNode ← s.internalAt node
  let neighborInternal ← s.internalAt neighbor
  if isPredecessor then
    let middleKey := parent.keyAt index
    let (neighborInternal, internalNode) :=
      neighborInternal.moveLastToFrontOf internalNode middleKey
    let s := (s.write node (.internal internalNode)).write neighbor (.internal neighborInternal)
    let s := s.write parentPageId (.internal (parent.setKeyAt index (internalNode.keyAt 1)))
    return s.setParent internalNode.parentPageId (internalNode.valueAt 0)
  else
    let middleKey := parent.keyAt (index + 1)
    let (neighborInternal, internalNode) :=
      neighborInternal.moveFirstToEndOf internalNode middleKey
    let s := (s.write node (.internal internalNode)).write neighbor (.internal neighborInternal)
    let s := s.write parentPageId
      (.internal (parent.setKeyAt (index + 1) (neighborInternal.keyAt 1)))
    return s.setParent internalNode.parentPageId
      (internalNode.valueAt (internalNode.array.length - 1))

/-- Model of `Redistribute`, which fetches the parent once more. -/
def redistribute (s : BPlusTree K V) (neighbor node : PageId) (index : Nat)
    (isPredecessor : Bool) : Option (BPlusTree K V) := do
  let nodePage ← s.pages node
  let parentPageId := nodePage.getParentPageId
  let s := s.fetchPage parentPageId .write
  let s ←
    if nodePage.isLeafPage then s.redistributeLeaf neighbor node parentPageId index isPredecessor
    else s.redistributeInternal neighbor node parentPageId index isPredecessor
  return s.drop parentPageId .write

/-- Model of `CoalesceOrRedistribute` on a page that is fetched. It gives the page back; in
the source its callers do so right after it returns, where it has not done so. -/
def coalesceOrRedistribute :
    Nat → BPlusTree K V → (node : PageId) → Option (Bool × BPlusTree K V)
  | 0, _, _ => none
  | fuel + 1, s, node => do
    let nodePage ← s.pages node
    if nodePage.isRootPage then
      let (adjusted, s) ← s.adjustRoot node
      return (adjusted, s.drop node .write)
    else if nodePage.getMinSize ≤ nodePage.getSize then
      return (false, s.drop node .write)
    else
      let parentPageId := nodePage.getParentPageId
      let s := s.fetchPage parentPageId .write
      let parent ← s.internalAt parentPageId
      match parent.valueIndex node with
      | none => return (false, (s.drop parentPageId .write).drop node .write)
      | some nodeIndex =>
        let isPredecessor := decide (0 < nodeIndex)
        let siblingIndex := if isPredecessor then nodeIndex - 1 else nodeIndex + 1
        let sibling := parent.valueAt siblingIndex
        let s := s.fetchPage sibling .write
        let siblingPage ← s.pages sibling
        if nodePage.getSize + siblingPage.getSize ≤ nodePage.getMaxSize then
          let (parentShouldDelete, s) ←
            if isPredecessor then s.coalesce sibling node parentPageId siblingIndex
            else s.coalesce node sibling parentPageId nodeIndex
          let s := (s.drop node .write).drop sibling .write
          if parentShouldDelete then coalesceOrRedistribute fuel s parentPageId
          else return (false, s.drop parentPageId .write)
        else
          let s ← s.redistribute sibling node nodeIndex isPredecessor
          return (false, ((s.drop sibling .write).drop parentPageId .write).drop node .write)

/-- `Remove` from the leaf on, which is fetched. -/
def removeFromLeaf (fuel : Nat) (s : BPlusTree K V) (leafPageId : PageId) (key : K) :
    Option (BPlusTree K V) := do
  let oldLeaf ← s.leafAt leafPageId
  let leaf := oldLeaf.removeAndDeleteRecord key
  if leaf.array.length = oldLeaf.array.length then
    return s.drop leafPageId .write
  else
    let s := s.write leafPageId (.leaf leaf)
    if leaf.array.length < (TreePage.leaf leaf).getMinSize then
      let (_, s) ← s.coalesceOrRedistribute fuel leafPageId
      return s
    else
      return s.drop leafPageId .write

def remove (fuel : Nat) (s : BPlusTree K V) (key : K) : Option (BPlusTree K V) :=
  if s.isEmpty then some s
  else do
    let s := s.fetchPage s.rootPageId .write
    let (leafPageId, s) ← s.findLeaf .write (·.lookup key) fuel s.rootPageId
    s.removeFromLeaf fuel leafPageId key

/-! ## Reads -/

/-- Model of `GetValue`: the value that is appended to the result, if there is one. -/
def getValue (fuel : Nat) (s : BPlusTree K V) (key : K) : Option (Option V × BPlusTree K V) :=
  if s.isEmpty then some (none, s)
  else do
    let s := s.fetchPage s.rootPageId .read
    let (leafPageId, s) ← s.findLeaf .read (·.lookup key) fuel s.rootPageId
    let leaf ← s.leafAt leafPageId
    return (leaf.lookup key, s.drop leafPageId .read)

end BPlusTree

/-- Model of `BPlusTreeIterator`. -/
structure BPlusTreeIterator where
  pageId : PageId := invalidPageId
  index : Nat := 0
  deriving DecidableEq

namespace BPlusTree

variable {K V : Type} [LinearOrder K] [Inhabited K] [Inhabited V]

/-- Model of `End()`. -/
def endIterator : BPlusTreeIterator := {}

/-- Model of `Begin()`. -/
def begin (fuel : Nat) (s : BPlusTree K V) : Option (BPlusTreeIterator × BPlusTree K V) :=
  if s.isEmpty then some (endIterator, s)
  else do
    let s := s.fetchPage s.rootPageId .read
    let (leafPageId, s) ← s.findLeaf .read (·.valueAt 0) fuel s.rootPageId
    return (⟨leafPageId, 0⟩, s.drop leafPageId .read)

/-- Model of `Begin(key)`. -/
def beginAt (fuel : Nat) (s : BPlusTree K V) (key : K) :
    Option (BPlusTreeIterator × BPlusTree K V) :=
  if s.isEmpty then some (endIterator, s)
  else do
    let s := s.fetchPage s.rootPageId .read
    let (leafPageId, s) ← s.findLeaf .read (·.lookup key) fuel s.rootPageId
    let leaf ← s.leafAt leafPageId
    let index := leaf.keyIndex key
    let s := s.drop leafPageId .read
    if leaf.array.length ≤ index then return (endIterator, s) else return (⟨leafPageId, index⟩, s)

/-- Model of `operator++` of an iterator. -/
def next (s : BPlusTree K V) (it : BPlusTreeIterator) :
    Option (BPlusTreeIterator × BPlusTree K V) :=
  if it.pageId = invalidPageId then some (it, s)
  else do
    let s := s.fetchPage it.pageId .read
    let leaf ← s.leafAt it.pageId
    let s := s.drop it.pageId .read
    if leaf.array.length ≤ it.index + 1 then return (⟨leaf.nextPageId, 0⟩, s)
    else return (⟨it.pageId, it.index + 1⟩, s)

/-- Model of `operator*` of an iterator, which throws at the end. -/
def deref (s : BPlusTree K V) (it : BPlusTreeIterator) : Option ((K × V) × BPlusTree K V) :=
  if it.pageId = invalidPageId then none
  else do
    let s := s.fetchPage it.pageId .read
    let leaf ← s.leafAt it.pageId
    return (leaf.array.getD it.index default, s.drop it.pageId .read)

/-- The loop `for (; it != tree.End(); ++it)`, which reads the entry at each position. -/
def walk : Nat → BPlusTree K V → BPlusTreeIterator → Option (List (K × V) × BPlusTree K V)
  | 0, _, _ => none
  | fuel + 1, s, it =>
    if it = endIterator then some ([], s)
    else do
      let (entry, s) ← s.deref it
      let (it, s) ← s.next it
      let (rest, s) ← walk fuel s it
      return (entry :: rest, s)

end BPlusTree

end OneBase
