import OneBase.Buffer.LRUKReplacer
import OneBase.Lib.Bytes
import OneBase.Storage.DiskManager

/-!
# The buffer pool manager (`buffer/buffer_pool_manager.cpp`)

Every method runs under `latch_`, so a run of the pool is a sequence of method
calls. A `Page *` is the index of its frame in `pages_`. The disk is the
abstract one (`DiskImage`): `ReadPage(p)` returns the last page written under
`p`, zeros if there is none.

- `acquireFrame`: the block `NewPage` and `FetchPage` share, a free frame or
  the victim of the replacer, written back if dirty.
- `PoolInv`: page table, free list, replacer and frames in step; `hole` names a
  frame that is between `acquireFrame` and `installPage`.
- `PoolOp`, `step`, `PoolRun ok`: the operations and the states they reach.
- `Allowed`, `InRange`: which calls a run makes. `next_page_id_` and the pin counts are 32-bit
  counters that nothing checks; a run in range never takes one past `2^31 - 1`.
-/

namespace OneBase

open Cpp

/-- A frame of the pool (`storage/page/page.h`). `pin_count_` is an `int` and wraps around. -/
structure Page where
  data : PageData := PageData.zero
  pageId : PageId := invalidPageId
  pinCount : Int := 0
  isDirty : Bool := false

/-- The disk under the pool: page contents and `next_page_id_`, an `int32_t` that wraps around. -/
structure Disk where
  image : DiskImage := DiskImage.blank
  nextPageId : PageId := 0

/-- The disk after `WritePage`. -/
def Disk.writePage (d : Disk) (pageId : PageId) (data : PageData) : Disk :=
  { d with image := Function.update d.image pageId data }

/-- The buffer pool: `pool_size_`, `disk_manager_`, `replacer_`, `pages_`,
`page_table_`, `free_list_`. -/
structure BufferPoolManager where
  poolSize : Nat
  disk : Disk
  replacer : LRUKReplacer
  pages : FrameId → Page
  pageTable : AList (fun _ : PageId => FrameId)
  freeList : List FrameId

namespace BufferPoolManager

/-- The constructor: every frame starts on the free list. -/
def create (poolSize replacerK : Nat) : BufferPoolManager where
  poolSize := poolSize
  disk := {}
  replacer := LRUKReplacer.create poolSize replacerK
  pages := fun _ => {}
  pageTable := ∅
  freeList := (List.range poolSize).map fun i : Nat => (i : FrameId)

/-- The frame `f` after the update `u`. -/
def modifyPage (b : BufferPoolManager) (f : FrameId) (u : Page → Page) : BufferPoolManager :=
  { b with pages := Function.update b.pages f (u (b.pages f)) }

/-- Take a frame for a new resident page (buffer_pool_manager.cpp:22–34, 64–76):
the front of the free list, else the replacer's victim, whose page is written
back if dirty and leaves the page table. -/
def acquireFrame (b : BufferPoolManager) : Option FrameId × BufferPoolManager :=
  match b.freeList with
  | frameId :: rest => (some frameId, { b with freeList := rest })
  | [] =>
    match b.replacer.evict with
    | (none, _) => (none, b)
    | (some frameId, replacer) =>
      let victim := b.pages frameId
      let disk := if victim.isDirty then b.disk.writePage victim.pageId victim.data else b.disk
      (some frameId, { b with
        replacer := replacer
        disk := disk
        pageTable := b.pageTable.erase victim.pageId })

/-- Put page `pageId` with the given contents into `frameId`, pinned once
(buffer_pool_manager.cpp:37–45, 78–87). -/
def installPage (b : BufferPoolManager) (frameId : FrameId) (pageId : PageId) (data : PageData) :
    BufferPoolManager :=
  { b with
    pages := Function.update b.pages frameId
      { data := data, pageId := pageId, pinCount := 1, isDirty := false }
    pageTable := b.pageTable.insert pageId frameId
    replacer := (b.replacer.recordAccess frameId).setEvictable frameId false }

/-- Model of `NewPage`; the result is the frame and the new page id, `none` for `nullptr`. -/
def newPage (b : BufferPoolManager) : Option (FrameId × PageId) × BufferPoolManager :=
  match b.acquireFrame with
  | (none, b) => (none, b)
  | (some frameId, b) =>
    let pageId := b.disk.nextPageId
    let b := { b with disk := { b.disk with nextPageId := int32 (pageId + 1) } }
    (some (frameId, pageId), b.installPage frameId pageId PageData.zero)

/-- Model of `FetchPage`. -/
def fetchPage (b : BufferPoolManager) (pageId : PageId) : Option FrameId × BufferPoolManager :=
  match b.pageTable.lookup pageId with
  | some frameId =>
    let b := b.modifyPage frameId fun page => { page with pinCount := int32 (page.pinCount + 1) }
    (some frameId, { b with
      replacer := (b.replacer.recordAccess frameId).setEvictable frameId false })
  | none =>
    match b.acquireFrame with
    | (none, b) => (none, b)
    | (some frameId, b) => (some frameId, b.installPage frameId pageId (b.disk.image pageId))

/-- Model of `UnpinPage`. -/
def unpinPage (b : BufferPoolManager) (pageId : PageId) (isDirty : Bool) :
    Bool × BufferPoolManager :=
  match b.pageTable.lookup pageId with
  | none => (false, b)
  | some frameId =>
    if (b.pages frameId).pinCount ≤ 0 then (false, b)
    else
      let b := b.modifyPage frameId fun page =>
        { page with isDirty := page.isDirty || isDirty, pinCount := page.pinCount - 1 }
      if (b.pages frameId).pinCount = 0 then
        (true, { b with replacer := b.replacer.setEvictable frameId true })
      else (true, b)

/-- Model of `DeletePage`; the exception is the one `LRUKReplacer::Remove` throws. -/
def deletePage (b : BufferPoolManager) (pageId : PageId) :
    Except String (Bool × BufferPoolManager) :=
  match b.pageTable.lookup pageId with
  | none => .ok (true, b)
  | some frameId =>
    if (b.pages frameId).pinCount > 0 then .ok (false, b)
    else do
      let replacer ← b.replacer.remove frameId
      let b := { b with pageTable := b.pageTable.erase pageId, replacer := replacer }
      let b := b.modifyPage frameId fun page =>
        { page with data := PageData.zero, pageId := invalidPageId, isDirty := false }
      return (true, { b with freeList := b.freeList ++ [frameId] })

/-- Model of `FlushPage`. -/
def flushPage (b : BufferPoolManager) (pageId : PageId) : Bool × BufferPoolManager :=
  match b.pageTable.lookup pageId with
  | none => (false, b)
  | some frameId =>
    let b := { b with disk := b.disk.writePage pageId (b.pages frameId).data }
    (true, b.modifyPage frameId fun page => { page with isDirty := false })

/-- The body of the loop in `FlushAllPages`. -/
def flushEntry (b : BufferPoolManager) (e : Sigma fun _ : PageId => FrameId) :
    BufferPoolManager :=
  let b := { b with disk := b.disk.writePage e.1 (b.pages e.2).data }
  b.modifyPage e.2 fun page => { page with isDirty := false }

/-- Model of `FlushAllPages`. -/
def flushAllPages (b : BufferPoolManager) : BufferPoolManager :=
  b.pageTable.entries.foldl flushEntry b

end BufferPoolManager

/-! ## Runs -/

/-- One call on the pool. -/
inductive PoolOp where
  | newPage
  | fetchPage (pageId : PageId)
  | unpinPage (pageId : PageId) (isDirty : Bool)
  | deletePage (pageId : PageId)
  | flushPage (pageId : PageId)
  | flushAllPages

namespace BufferPoolManager

/-- The id was handed out by `NewPage`. -/
def Allocated (b : BufferPoolManager) (pageId : PageId) : Prop :=
  0 ≤ pageId ∧ pageId < b.disk.nextPageId

/-- Only allocated ids are fetched. -/
def Allowed (b : BufferPoolManager) : PoolOp → Prop
  | .fetchPage pageId => b.Allocated pageId
  | _ => True

/-- The call counts no counter past `2^31 - 1`. -/
def CountersFit (b : BufferPoolManager) : PoolOp → Prop
  | .newPage => b.newPage.1 = none ∨ b.disk.nextPageId + 1 < 2 ^ 31
  | .fetchPage pageId => ∀ f, b.pageTable.lookup pageId = some f →
      (b.pages f).pinCount + 1 < 2 ^ 31
  | _ => True

/-- An allowed call that stays in the range of the counters. -/
def InRange (b : BufferPoolManager) (op : PoolOp) : Prop := b.Allowed op ∧ b.CountersFit op

/-- The state after one call. -/
def step (b : BufferPoolManager) : PoolOp → Except String BufferPoolManager
  | .newPage => .ok b.newPage.2
  | .fetchPage pageId => .ok (b.fetchPage pageId).2
  | .unpinPage pageId isDirty => .ok (b.unpinPage pageId isDirty).2
  | .deletePage pageId => (·.2) <$> b.deletePage pageId
  | .flushPage pageId => .ok (b.flushPage pageId).2
  | .flushAllPages => .ok b.flushAllPages

end BufferPoolManager

/-- The states that sequences of calls that satisfy `ok` reach from a fresh pool. -/
inductive PoolRun (ok : BufferPoolManager → PoolOp → Prop) (poolSize k : Nat) :
    BufferPoolManager → Prop where
  | create : PoolRun ok poolSize k (BufferPoolManager.create poolSize k)
  | step {b b' : BufferPoolManager} {op : PoolOp} :
      PoolRun ok poolSize k b → ok b op → b.step op = .ok b' → PoolRun ok poolSize k b'

end OneBase
