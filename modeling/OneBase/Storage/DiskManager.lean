import OneBase.Common.Types
import OneBase.Lib.Bytes
import OneBase.Lib.Fstream

/-!
# The disk manager (`storage/disk/disk_manager.cpp`)

`DiskManager` stores page `p` at offset `p * PAGE_SIZE` of one file, through an
`std::fstream` that lives as long as the manager. Nothing ever calls
`db_io_.clear()`, so the error bits a short read leaves behind are part of the
manager's state.

- `DiskManager.exec`: a sequence of calls, with the pages the reads return.
- `DiskImage`, `DiskImage.exec`: what the calls are for, a total map from page
  ids to contents that starts all zero.
- `ReadsInFile`: no read goes past the end of the file.
- `Holds.exec`: under `ReadsInFile` every read agrees with the map.
- `failed_exec`: after one read past the end, writes are dropped and every
  later read returns zeros.
- `reads_correct`: both directions, over whole call sequences.
-/

namespace OneBase

open Cpp

/-- The disk manager: the stream `db_io_`, `next_page_id_` and `num_pages_`. -/
structure DiskManager where
  dbIo : Fstream
  nextPageId : PageId
  numPages : Nat

namespace DiskManager

/-- The constructor, on a database file with the given contents. -/
def create (file : List UInt8) : DiskManager where
  dbIo := { file := file, pos := file.length }
  nextPageId := int32 (file.length / pageSize : Nat)
  numPages := file.length / pageSize

theorem create_nextPageId (file : List UInt8) :
    (create file).nextPageId = int32 (file.length / pageSize : Nat) := by
  dsimp only [create]

/-- Model of `ReadPage` (disk_manager.cpp:31–43) on the caller's buffer `buf`. The
`bad()` test looks at `badbit` only, so a stream in the failed state passes it. -/
def readPage (d : DiskManager) (pageId : PageId) (buf : PageData) :
    Except String (DiskManager × PageData) :=
  let io := d.dbIo.seekg (pageId * pageSize)
  if io.bad then .error "I/O error while seeking to read page"
  else
    let (bytes, io) := io.read pageSize
    let pageData : PageData := fun i => if i < bytes.length then bytes.getD i 0 else buf i
    let pageData : PageData := fun i => if i < io.gcount then pageData i else 0
    .ok ({ d with dbIo := io }, pageData)

/-- Model of `WritePage` (disk_manager.cpp:45–57). -/
def writePage (d : DiskManager) (pageId : PageId) (pageData : PageData) :
    Except String DiskManager :=
  let io := (d.dbIo.seekp (pageId * pageSize)).write pageData.toBytes
  if io.bad then .error "I/O error while writing page"
  else
    .ok { d with
      dbIo := io
      numPages := if pageId.toNat ≥ d.numPages then pageId.toNat + 1 else d.numPages }

/-- Model of `AllocatePage`. -/
def allocatePage (d : DiskManager) : PageId × DiskManager :=
  (d.nextPageId, { d with nextPageId := int32 (d.nextPageId + 1) })

end DiskManager

/-- One call on the disk manager; a read names the buffer it overwrites. -/
inductive DiskOp where
  | allocatePage
  | readPage (pageId : PageId) (buf : PageData)
  | writePage (pageId : PageId) (pageData : PageData)

/-- The call's page id is not negative. -/
def DiskOp.Valid : DiskOp → Prop
  | .allocatePage => True
  | .readPage pageId _ => 0 ≤ pageId
  | .writePage pageId _ => 0 ≤ pageId

namespace DiskManager

/-- Run a sequence of calls and collect the pages the reads return. -/
def exec (d : DiskManager) : List DiskOp → Except String (DiskManager × List PageData)
  | [] => .ok (d, [])
  | .allocatePage :: ops => exec d.allocatePage.2 ops
  | .readPage pageId buf :: ops => do
    let (d, page) ← d.readPage pageId buf
    let (d, pages) ← exec d ops
    return (d, page :: pages)
  | .writePage pageId pageData :: ops => do
    let d ← d.writePage pageId pageData
    exec d ops

end DiskManager

/-! ## The abstract disk -/

/-- What the disk is for: every page id has a content. -/
abbrev DiskImage := PageId → PageData

namespace DiskImage

/-- A disk no page of which was written. -/
def blank : DiskImage := fun _ => PageData.zero

/-- The contents after a sequence of calls, and the pages its reads return. -/
def exec (m : DiskImage) : List DiskOp → DiskImage × List PageData
  | [] => (m, [])
  | .allocatePage :: ops => exec m ops
  | .readPage pageId _ :: ops => ((exec m ops).1, m pageId :: (exec m ops).2)
  | .writePage pageId pageData :: ops => exec (Function.update m pageId pageData) ops

end DiskImage

/-- Every `ReadPage` of the sequence is of a page inside the file, which has
`n` pages before the first call and grows to `p + 1` pages with `WritePage(p, .)`. -/
def ReadsInFile : Nat → List DiskOp → Prop
  | _, [] => True
  | n, .allocatePage :: ops => ReadsInFile n ops
  | n, .readPage pageId _ :: ops => pageId < n ∧ ReadsInFile n ops
  | n, .writePage pageId _ :: ops => ReadsInFile (max n (pageId.toNat + 1)) ops

namespace DiskManager

/-! ## The stream between calls -/

/-- The manager holds the image `m`: no error bit is up, the file is a whole
number of pages, and page `p` of it is `m p`. -/
structure Holds (d : DiskManager) (m : DiskImage) : Prop where
  good : d.dbIo.good = true
  length : d.dbIo.file.length = d.numPages * pageSize
  page : ∀ (p : Nat) (i : Fin pageSize),
    Fstream.byteAt d.dbIo.file (p * pageSize + i) = m p i

theorem good_iff {s : Fstream} :
    s.good = true ↔ s.eofbit = false ∧ s.failbit = false ∧ s.badbit = false := by
  simp [Fstream.good, and_assoc]

theorem holds_create : (create []).Holds DiskImage.blank where
  good := rfl
  length := by simp [create]
  page p i := by simp [create, Fstream.byteAt, DiskImage.blank, PageData.zero]

/-- A read inside the file returns the page and leaves every bit down. -/
theorem Holds.readPage {d : DiskManager} {m : DiskImage} (h : d.Holds m) {pageId : PageId}
    (h0 : 0 ≤ pageId) (hin : pageId < d.numPages) (buf : PageData) :
    ∃ d', d.readPage pageId buf = .ok (d', m pageId) ∧ d'.Holds m ∧
      d'.numPages = d.numPages := by
  obtain ⟨p, rfl⟩ := Int.eq_ofNat_of_zero_le h0
  obtain ⟨heof, hfail, hbad⟩ := good_iff.mp h.good
  have hp : p + 1 ≤ d.numPages := Int.ofNat_lt.mp hin
  have hoff : ((p : Int) * pageSize).toNat = p * pageSize := by
    rw [← Int.natCast_mul]
    exact Int.toNat_natCast _
  have hend : p * pageSize + pageSize ≤ d.dbIo.file.length := by
    rw [h.length, ← Nat.succ_mul]
    exact Nat.mul_le_mul_right _ hp
  have hseek : d.dbIo.seekg ((p : Int) * pageSize) = { d.dbIo with pos := p * pageSize } := by
    have hneg : ¬ ((p : Int) * pageSize < 0) := by
      rw [← Int.natCast_mul]
      omega
    simp [Fstream.seekg, Fstream.fail, heof, hfail, hbad, hneg, hoff]
  have hlen : ((d.dbIo.file.drop (p * pageSize)).take pageSize).length = pageSize := by
    rw [List.length_take, List.length_drop]
    omega
  refine ⟨{ d with dbIo := { d.dbIo with
      pos := p * pageSize + pageSize, gcount := pageSize } }, ?_, ?_, rfl⟩
  · unfold DiskManager.readPage
    rw [hseek]
    simp only [Fstream.bad, Fstream.read, Fstream.good, heof, hfail, hbad, hlen]
    simp only [Bool.not_false, Bool.and_self, if_true, Nat.lt_irrefl, if_false,
      Except.ok.injEq, Prod.mk.injEq, true_and, Bool.false_eq_true]
    funext i
    rw [if_pos i.isLt, if_pos (hlen.symm ▸ i.isLt)]
    have hbyte := h.page p i
    simp only [Fstream.byteAt, List.getD_eq_getElem?_getD] at hbyte ⊢
    rw [List.getElem?_take_of_lt i.isLt, List.getElem?_drop]
    exact hbyte
  · exact ⟨good_iff.mpr ⟨heof, hfail, hbad⟩, h.length, h.page⟩

/-- A write with every bit down changes the page it names and no other. -/
theorem Holds.writePage {d : DiskManager} {m : DiskImage} (h : d.Holds m) {pageId : PageId}
    (h0 : 0 ≤ pageId) (pageData : PageData) :
    ∃ d', d.writePage pageId pageData = .ok d' ∧
      d'.Holds (Function.update m pageId pageData) ∧
      d'.numPages = max d.numPages (pageId.toNat + 1) := by
  obtain ⟨p, rfl⟩ := Int.eq_ofNat_of_zero_le h0
  obtain ⟨heof, hfail, hbad⟩ := good_iff.mp h.good
  have hseek : d.dbIo.seekp ((p : Int) * pageSize) = { d.dbIo with pos := p * pageSize } := by
    have hoff : ((p : Int) * pageSize).toNat = p * pageSize := by
      rw [← Int.natCast_mul]
      exact Int.toNat_natCast _
    have hneg : ¬ ((p : Int) * pageSize < 0) := by
      rw [← Int.natCast_mul]
      omega
    simp [Fstream.seekp, Fstream.fail, hfail, hbad, hneg, hoff]
  have hnum : (if p ≥ d.numPages then p + 1 else d.numPages) = max d.numPages (p + 1) := by
    split <;> omega
  refine ⟨{ d with
    dbIo := { d.dbIo with
      file := Fstream.writeAt d.dbIo.file (p * pageSize) pageData.toBytes
      pos := p * pageSize + pageSize }
    numPages := max d.numPages (p + 1) }, ?_, ?_, by simp⟩
  · unfold DiskManager.writePage
    rw [hseek]
    simp [Fstream.write, Fstream.good, Fstream.bad, heof, hfail, hbad, hnum]
  · refine ⟨good_iff.mpr ⟨heof, hfail, hbad⟩, ?_, fun q i => ?_⟩
    · simp only [Fstream.length_writeAt, PageData.length_toBytes, h.length]
      rw [← Nat.succ_mul, Nat.mul_max_mul_right]
    · simp only [Fstream.byteAt_writeAt, PageData.length_toBytes]
      -- byte `i` of page `q` lies in the written range exactly when `q = p`
      have hrange : (p * pageSize ≤ q * pageSize + i ∧
          q * pageSize + i < p * pageSize + pageSize) ↔ q = p := by
        have hi := i.isLt
        constructor
        · rintro ⟨hle, hlt⟩
          rcases Nat.lt_trichotomy q p with hqp | hqp | hqp
          · have := Nat.mul_le_mul_right pageSize (Nat.succ_le_of_lt hqp)
            rw [Nat.succ_mul] at this
            omega
          · exact hqp
          · have := Nat.mul_le_mul_right pageSize (Nat.succ_le_of_lt hqp)
            rw [Nat.succ_mul] at this
            omega
        · rintro rfl
          omega
      by_cases hqp : q = p
      · subst hqp
        rw [if_pos (hrange.mpr rfl), Function.update_self, Nat.add_sub_cancel_left]
        exact PageData.getD_toBytes pageData i
      · rw [if_neg (mt hrange.mp hqp), Function.update_of_ne (by exact_mod_cast hqp)]
        exact h.page q i

/-- Along any run whose reads stay inside the file, the manager holds the
image the writes describe, and every read returns the image's page. -/
theorem Holds.exec {ops : List DiskOp} :
    ∀ {d : DiskManager} {m : DiskImage}, d.Holds m → (∀ op ∈ ops, op.Valid) →
      ReadsInFile d.numPages ops →
      ∃ d', d.exec ops = .ok (d', (m.exec ops).2) ∧ d'.Holds (m.exec ops).1 := by
  induction ops with
  | nil =>
    intro d m h _ _
    exact ⟨d, rfl, h⟩
  | cons op ops ih =>
    intro d m h hvalid hreads
    have hrest : ∀ op ∈ ops, op.Valid := fun o ho => hvalid o (List.mem_cons_of_mem _ ho)
    have hop := hvalid op List.mem_cons_self
    cases op with
    | allocatePage =>
      have halloc : d.allocatePage.2.Holds m := ⟨h.good, h.length, h.page⟩
      exact ih halloc hrest hreads
    | readPage pageId buf =>
      obtain ⟨d₁, hread, hd₁, hnum⟩ := h.readPage hop hreads.1 buf
      obtain ⟨d₂, hexec, hd₂⟩ := ih hd₁ hrest (hnum ▸ hreads.2)
      refine ⟨d₂, ?_, hd₂⟩
      simp only [DiskManager.exec, hread, bind, Except.bind, hexec, pure, Except.pure,
        DiskImage.exec]
    | writePage pageId pageData =>
      obtain ⟨d₁, hwrite, hd₁, hnum⟩ := h.writePage hop pageData
      obtain ⟨d₂, hexec, hd₂⟩ := ih hd₁ hrest (by rw [hnum]; exact hreads)
      refine ⟨d₂, ?_, hd₂⟩
      simp only [DiskManager.exec, hwrite, bind, Except.bind, hexec, DiskImage.exec]

/-! ## After a read past the end

`seekg` clears `eofbit` but not `failbit`, so one short read makes every later
`read`, `seekp` and `write` a no-op, while `bad()` keeps answering `false`. -/

/-- The stream is in the failed state a short read leaves. -/
def Failed (d : DiskManager) : Prop := d.dbIo.failbit = true ∧ d.dbIo.badbit = false

/-- A read past the end returns zeros, as it should, and fails the stream. -/
theorem Holds.readPage_past_end {d : DiskManager} {m : DiskImage} (h : d.Holds m)
    {pageId : PageId} (h0 : 0 ≤ pageId) (hout : ¬ pageId < d.numPages) (buf : PageData) :
    ∃ d', d.readPage pageId buf = .ok (d', PageData.zero) ∧ d'.Failed := by
  obtain ⟨p, rfl⟩ := Int.eq_ofNat_of_zero_le h0
  obtain ⟨heof, hfail, hbad⟩ := good_iff.mp h.good
  have hp : d.numPages ≤ p := by
    by_contra hlt
    exact hout (Int.ofNat_lt.mpr (Nat.lt_of_not_le hlt))
  have hoff : ((p : Int) * pageSize).toNat = p * pageSize := by
    rw [← Int.natCast_mul]
    exact Int.toNat_natCast _
  have hneg : ¬ ((p : Int) * pageSize < 0) := by
    rw [← Int.natCast_mul]
    omega
  have hempty : d.dbIo.file.drop (p * pageSize) = [] := by
    refine List.drop_eq_nil_of_le ?_
    rw [h.length]
    exact Nat.mul_le_mul_right _ hp
  have hpos : 0 < pageSize := by decide
  refine ⟨{ d with dbIo := { d.dbIo with
    pos := p * pageSize, gcount := 0, eofbit := true, failbit := true } }, ?_, rfl, hbad⟩
  unfold DiskManager.readPage
  simp [Fstream.seekg, Fstream.fail, hfail, hbad, hneg, hoff, Fstream.bad, Fstream.read,
    Fstream.good, hempty, hpos]
  rfl

/-- A failed stream stays failed through a read, which returns zeros. -/
theorem Failed.readPage {d : DiskManager} (h : d.Failed) (pageId : PageId) (buf : PageData) :
    ∃ d', d.readPage pageId buf = .ok (d', PageData.zero) ∧ d'.Failed := by
  obtain ⟨hfail, hbad⟩ := h
  refine ⟨{ d with dbIo := { d.dbIo with eofbit := false, gcount := 0, failbit := true } },
    ?_, rfl, hbad⟩
  unfold DiskManager.readPage
  simp [Fstream.seekg, Fstream.fail, hfail, hbad, Fstream.bad, Fstream.read, Fstream.good]
  rfl

/-- A failed stream stays failed through a write, which is dropped silently. -/
theorem Failed.writePage {d : DiskManager} (h : d.Failed) (pageId : PageId)
    (pageData : PageData) :
    ∃ d', d.writePage pageId pageData = .ok d' ∧ d'.Failed := by
  obtain ⟨hfail, hbad⟩ := h
  refine ⟨{ d with numPages := if pageId.toNat ≥ d.numPages then pageId.toNat + 1
    else d.numPages }, ?_, hfail, hbad⟩
  unfold DiskManager.writePage
  simp [Fstream.seekp, Fstream.fail, hfail, hbad, Fstream.bad, Fstream.write, Fstream.good]

/-- From the failed state on, every read of every run returns zeros. -/
theorem failed_exec {ops : List DiskOp} :
    ∀ {d : DiskManager}, d.Failed →
      ∃ d' pages, d.exec ops = .ok (d', pages) ∧ d'.Failed ∧
        ∀ page ∈ pages, page = PageData.zero := by
  induction ops with
  | nil =>
    intro d h
    exact ⟨d, [], rfl, h, by simp⟩
  | cons op ops ih =>
    intro d h
    cases op with
    | allocatePage => exact ih (d := d.allocatePage.2) h
    | readPage pageId buf =>
      obtain ⟨d₁, hread, hd₁⟩ := h.readPage pageId buf
      obtain ⟨d₂, pages, hexec, hd₂, hzero⟩ := ih hd₁
      refine ⟨d₂, PageData.zero :: pages, ?_, hd₂, ?_⟩
      · simp only [DiskManager.exec, hread, bind, Except.bind, hexec, pure, Except.pure]
      · intro page hpage
        rcases List.mem_cons.mp hpage with rfl | hpage
        · rfl
        · exact hzero page hpage
    | writePage pageId pageData =>
      obtain ⟨d₁, hwrite, hd₁⟩ := h.writePage pageId pageData
      obtain ⟨d₂, pages, hexec, hd₂, hzero⟩ := ih hd₁
      refine ⟨d₂, pages, ?_, hd₂, hzero⟩
      simp only [DiskManager.exec, hwrite, bind, Except.bind, hexec]

/-- A run with a read past the end leaves the stream failed. -/
theorem Holds.exec_failed {ops : List DiskOp} :
    ∀ {d : DiskManager} {m : DiskImage}, d.Holds m → (∀ op ∈ ops, op.Valid) →
      ¬ ReadsInFile d.numPages ops →
      ∃ d' pages, d.exec ops = .ok (d', pages) ∧ d'.Failed := by
  induction ops with
  | nil =>
    intro d m _ _ hreads
    exact absurd trivial hreads
  | cons op ops ih =>
    intro d m h hvalid hreads
    have hrest : ∀ op ∈ ops, op.Valid := fun o ho => hvalid o (List.mem_cons_of_mem _ ho)
    have hop := hvalid op List.mem_cons_self
    cases op with
    | allocatePage =>
      have halloc : d.allocatePage.2.Holds m := ⟨h.good, h.length, h.page⟩
      exact ih halloc hrest hreads
    | readPage pageId buf =>
      by_cases hin : pageId < d.numPages
      · obtain ⟨d₁, hread, hd₁, hnum⟩ := h.readPage hop hin buf
        obtain ⟨d₂, pages, hexec, hd₂⟩ :=
          ih hd₁ hrest (fun hr => hreads ⟨hin, hnum ▸ hr⟩)
        refine ⟨d₂, m pageId :: pages, ?_, hd₂⟩
        simp only [DiskManager.exec, hread, bind, Except.bind, hexec, pure, Except.pure]
      · -- this is the read that runs into the end of the file
        obtain ⟨d₁, hread, hd₁⟩ := h.readPage_past_end hop hin buf
        obtain ⟨d₂, pages, hexec, hd₂, -⟩ := @failed_exec ops _ hd₁
        refine ⟨d₂, PageData.zero :: pages, ?_, hd₂⟩
        simp only [DiskManager.exec, hread, bind, Except.bind, hexec, pure, Except.pure]
    | writePage pageId pageData =>
      obtain ⟨d₁, hwrite, hd₁, hnum⟩ := h.writePage hop pageData
      obtain ⟨d₂, pages, hexec, hd₂⟩ := ih hd₁ hrest (by rw [hnum]; exact hreads)
      refine ⟨d₂, pages, ?_, hd₂⟩
      simp only [DiskManager.exec, hwrite, bind, Except.bind, hexec]

/-! ## Whole call sequences on an empty file -/

theorem exec_append (d : DiskManager) (ops ops' : List DiskOp) :
    d.exec (ops ++ ops') = do
      let (d, pages) ← d.exec ops
      let (d, pages') ← d.exec ops'
      return (d, pages ++ pages') := by
  induction ops generalizing d with
  | nil =>
    simp only [List.nil_append, DiskManager.exec, bind, Except.bind, pure, Except.pure]
    cases d.exec ops' <;> rfl
  | cons op ops ih =>
    cases op with
    | allocatePage => exact ih d.allocatePage.2
    | readPage pageId buf =>
      simp only [List.cons_append, DiskManager.exec, bind, Except.bind, pure, Except.pure]
      cases d.readPage pageId buf with
      | error e => rfl
      | ok r =>
        simp only [ih, bind, Except.bind, pure, Except.pure]
        cases r.1.exec ops with
        | error e => rfl
        | ok r' =>
          dsimp only
          cases r'.1.exec ops' <;> rfl
    | writePage pageId pageData =>
      simp only [List.cons_append, DiskManager.exec, bind, Except.bind, pure, Except.pure]
      cases d.writePage pageId pageData with
      | error e => rfl
      | ok d₁ =>
        simp only [ih, bind, Except.bind, pure, Except.pure]

end DiskManager

theorem DiskImage.exec_append (m : DiskImage) (ops ops' : List DiskOp) :
    m.exec (ops ++ ops') =
      (((m.exec ops).1.exec ops').1, (m.exec ops).2 ++ ((m.exec ops).1.exec ops').2) := by
  induction ops generalizing m with
  | nil => rfl
  | cons op ops ih => cases op <;> simp [DiskImage.exec, ih]

theorem readsInFile_append {n : Nat} {ops : List DiskOp} (hreads : ReadsInFile n ops)
    (pageId : Int) (h0 : 0 ≤ pageId) (pageData buf : PageData) :
    ReadsInFile n (ops ++ [.writePage pageId pageData, .readPage pageId buf]) := by
  induction ops generalizing n with
  | nil =>
    refine ⟨?_, trivial⟩
    show pageId < ((max n (pageId.toNat + 1) : Nat) : Int)
    omega
  | cons op ops ih =>
    cases op with
    | allocatePage => exact ih hreads
    | readPage _ _ => exact ⟨hreads.1, ih hreads.2⟩
    | writePage _ _ => exact ih hreads

/-- The pages the reads of a call sequence return, on a file that starts empty. -/
def diskReads (ops : List DiskOp) : Except String (List PageData) :=
  (·.2) <$> (DiskManager.create []).exec ops

/-- The page whose every byte is one. -/
def onesPage : PageData := fun _ => 1

/-- **Reads against writes, over every call sequence.** If no `ReadPage` goes
past the end of the file, every read returns the last write of its page, or
zeros. Conversely, a sequence is still safe to continue by writing a page and
reading it back exactly when none of its reads went past the end. -/
theorem diskReads_correct (ops : List DiskOp) (hvalid : ∀ op ∈ ops, op.Valid) :
    (ReadsInFile 0 ops → diskReads ops = .ok (DiskImage.blank.exec ops).2) ∧
    (ReadsInFile 0 ops ↔ ∀ (pageId : PageId) (pageData buf : PageData), 0 ≤ pageId →
      diskReads (ops ++ [.writePage pageId pageData, .readPage pageId buf]) =
        .ok (DiskImage.blank.exec
          (ops ++ [.writePage pageId pageData, .readPage pageId buf])).2) := by
  have hread : ∀ ops : List DiskOp, (∀ op ∈ ops, op.Valid) → ReadsInFile 0 ops →
      diskReads ops = .ok (DiskImage.blank.exec ops).2 := by
    intro ops hvalid hreads
    obtain ⟨d, hexec, -⟩ := DiskManager.holds_create.exec hvalid hreads
    simp only [diskReads, hexec]
    rfl
  refine ⟨hread ops hvalid, ⟨fun hreads pageId pageData buf h0 => ?_, fun h => ?_⟩⟩
  · refine hread _ (fun op hop => ?_) (readsInFile_append hreads pageId h0 pageData buf)
    rcases List.mem_append.mp hop with hop | hop
    · exact hvalid op hop
    · simp only [List.mem_cons, List.not_mem_nil, or_false] at hop
      rcases hop with rfl | rfl <;> exact h0
  · by_contra hreads
    -- the stream has failed, so a page of ones written now reads back as zeros
    obtain ⟨d, pages, hexec, hfailed⟩ := DiskManager.holds_create.exec_failed hvalid hreads
    obtain ⟨d₁, hwrite, hfailed₁⟩ := hfailed.writePage 0 onesPage
    obtain ⟨d₂, hread₂, -⟩ := hfailed₁.readPage 0 onesPage
    have hlast := h 0 onesPage onesPage (Int.le_refl 0)
    rw [diskReads, DiskManager.exec_append, hexec, DiskImage.exec_append] at hlast
    simp only [bind, Except.bind, DiskManager.exec, hwrite, hread₂, pure, Except.pure,
      DiskImage.exec, Function.update_self] at hlast
    have hpages : pages ++ [PageData.zero] = (DiskImage.blank.exec ops).2 ++ [onesPage] :=
      Except.ok.inj hlast
    have hpage := (List.append_inj_right' hpages rfl)
    have hbyte := congrFun (List.cons.inj hpage).1 ⟨0, by decide⟩
    exact absurd hbyte (by decide)

/-- One page is written and read back, so every hypothesis is met. -/
theorem diskReads_correct_readBack :
    diskReads [.writePage 0 onesPage, .readPage 0 PageData.zero] = .ok [onesPage] :=
  (diskReads_correct [.writePage 0 onesPage, .readPage 0 PageData.zero]
    (by simp [DiskOp.Valid])).1 ⟨by decide, trivial⟩

/-- Reading the allocated but never written page 0 fails the stream, so the
page of ones written next is lost and the last read returns zeros. -/
theorem diskReads_lost_write :
    ¬ ∀ ops : List DiskOp, (∀ op ∈ ops, op.Valid) →
      diskReads ops = .ok (DiskImage.blank.exec ops).2 := by
  intro h
  have hreads := h [.allocatePage, .readPage 0 onesPage, .writePage 0 onesPage,
    .readPage 0 onesPage] (by simp [DiskOp.Valid])
  have hpages : [PageData.zero, PageData.zero] = [PageData.zero, onesPage] :=
    Except.ok.inj hreads
  have hbyte := congrFun (List.cons.inj (List.cons.inj hpages).2).1 ⟨0, by decide⟩
  exact absurd hbyte (by decide)

end OneBase
