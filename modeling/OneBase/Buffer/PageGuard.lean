import OneBase.Buffer.TransparentCache

/-!
# Page guards (`buffer/page_guard.cpp`)

A guard owns a pin of a page, and a read or a write guard the latch of the page too.
Guards are moved, never copied: the guard that is moved from becomes null. A program
works on guard objects in variables; it creates them, moves them, writes through them
and destroys them in any order.

A guard has the members of the source, and the id of the page that it was created
for, which no operation reads.

- `GuardState.step`: one operation; `GuardRun ok`: the runs whose steps satisfy `ok`.
- `GuardState.live`: the guards that are not null, in some order.
- `GuardInv`: the live guards are the pins of the pool, and hold its latches.
- `guardRun_ok`: so they do in every run that fetches ids of pages that exist and in which
  page ids and pin counts stay below `2^31`.
- `fetch_before_new`: a run that fetches a page before it exists.
-/

namespace OneBase

open BufferPoolManager

/-! ## Guards -/

/-- The classes `BasicPageGuard`, `ReadPageGuard` and `WritePageGuard`. -/
inductive GuardKind where
  | basic
  | read
  | write
  deriving DecidableEq

/-- A guard object. `page_` is a frame of the pool; only a basic guard has `is_dirty_`. -/
structure Guard where
  kind : GuardKind
  page : Option FrameId := none
  isDirty : Bool := false
  /-- The page that the guard was created for. -/
  pageId : PageId := invalidPageId
  deriving DecidableEq

/-- Model of `ReaderWriterLatch`: how it is held. -/
structure Latch where
  readers : Nat := 0
  writer : Bool := false

/-- The pool, the latches of its frames, and the guard objects by variable. The other
members record what was done: the bytes that the pages should have, the pins that
guards got and gave back, and the calls of `UnpinPage` that returned false. -/
structure GuardState where
  pool : BufferPoolManager
  latches : FrameId → Latch := fun _ => {}
  guards : AList (fun _ : Nat => Guard) := ∅
  content : PageId → PageData := fun _ => PageData.zero
  acquired : PageId → Nat := fun _ => 0
  released : PageId → Nat := fun _ => 0
  failed : Nat := 0

namespace GuardState

/-- A program without guards on a fresh pool. -/
def create (poolSize k : Nat) : GuardState := { pool := BufferPoolManager.create poolSize k }

/-- A guard object in a variable. -/
def put (s : GuardState) (x : Nat) (g : Guard) : GuardState :=
  { s with guards := s.guards.insert x g }

/-- `RLatch` and `WLatch`; no value if the latch is held in a way that makes the caller
wait. A basic guard has no latch. -/
def latch (s : GuardState) (f : FrameId) : GuardKind → Option GuardState
  | .basic => some s
  | .read =>
    if (s.latches f).writer then none
    else some { s with
      latches := Function.update s.latches f
        { s.latches f with readers := (s.latches f).readers + 1 } }
  | .write =>
    if (s.latches f).writer ∨ 0 < (s.latches f).readers then none
    else some { s with
      latches := Function.update s.latches f { s.latches f with writer := true } }

/-- `RUnlatch` and `WUnlatch`. -/
def unlatch (s : GuardState) (f : FrameId) : GuardKind → GuardState
  | .basic => s
  | .read => { s with
      latches := Function.update s.latches f
        { s.latches f with readers := (s.latches f).readers - 1 } }
  | .write => { s with
      latches := Function.update s.latches f { s.latches f with writer := false } }

/-- What a guard passes to `UnpinPage` as `is_dirty`. -/
def dirtyFlag (g : Guard) : Bool :=
  match g.kind with
  | .basic => g.isDirty
  | .read => false
  | .write => true

/-- Model of `Drop` of the guard in `x`. -/
def drop (s : GuardState) (x : Nat) (g : Guard) : GuardState :=
  match g.page with
  | none => s
  | some f =>
    let s := s.unlatch f g.kind
    let p := (s.pool.pages f).pageId
    let (ok, pool) := s.pool.unpinPage p (dirtyFlag g)
    let s := { s with
      pool
      released := if ok then Function.update s.released p (s.released p + 1) else s.released
      failed := if ok then s.failed else s.failed + 1 }
    s.put x { g with page := none, isDirty := false }

/-- The members of the guard in `y` go to `x`, and the guard in `y` becomes null. Its
`is_dirty_` stays. -/
def transfer (s : GuardState) (x y : Nat) (g : Guard) : GuardState :=
  (s.put x g).put y { g with page := none }

/-- A guard for a page that was pinned. -/
def acquire (s : GuardState) (x : Nat) (kind : GuardKind) (f : FrameId) (p : PageId) :
    Option GuardState :=
  let s := { s with acquired := Function.update s.acquired p (s.acquired p + 1) }
  (s.latch f kind).map fun s => s.put x { kind, page := some f, pageId := p }

/-- Model of `NewPageGuarded`, into a new variable. -/
def newPageGuarded (s : GuardState) (x : Nat) : Option GuardState :=
  match s.pool.newPage with
  | (none, pool) => some ({ s with pool }.put x { kind := .basic })
  | (some (f, p), pool) =>
    { s with pool, content := Function.update s.content p PageData.zero }.acquire x .basic f p

/-- Model of `FetchPageRead` and `FetchPageWrite`, into a new variable. -/
def fetchPage (s : GuardState) (x : Nat) (kind : GuardKind) (p : PageId) : Option GuardState :=
  match s.pool.fetchPage p with
  | (none, pool) => some ({ s with pool }.put x { kind })
  | (some f, pool) => { s with pool }.acquire x kind f p

/-- One byte written through `GetDataMut`, which makes a basic guard dirty. -/
def write (s : GuardState) (x : Nat) (g : Guard) (f : FrameId) (i : Fin pageSize) (v : UInt8) :
    GuardState :=
  { s with
    pool := s.pool.modifyPage f fun page => { page with data := Function.update page.data i v }
    content := Function.update s.content g.pageId
      (Function.update (s.content g.pageId) i v) }.put x
    { g with isDirty := g.isDirty || decide (g.kind = GuardKind.basic) }

end GuardState

/-- The operations of a program. -/
inductive GuardOp where
  | construct (x : Nat) (kind : GuardKind)
  | newPageGuarded (x : Nat)
  | fetchPageRead (x : Nat) (p : PageId)
  | fetchPageWrite (x : Nat) (p : PageId)
  | moveConstruct (x y : Nat)
  | moveAssign (x y : Nat)
  | write (x : Nat) (i : Fin pageSize) (v : UInt8)
  | drop (x : Nat)
  | destroy (x : Nat)

namespace GuardState

/-- One operation. No value: the variable is in use or not, the classes of the guards
differ, the guard is null, or the latch is held. -/
def step (s : GuardState) : GuardOp → Option GuardState
  | .construct x kind => if x ∈ s.guards then none else some (s.put x { kind })
  | .newPageGuarded x => if x ∈ s.guards then none else s.newPageGuarded x
  | .fetchPageRead x p => if x ∈ s.guards then none else s.fetchPage x .read p
  | .fetchPageWrite x p => if x ∈ s.guards then none else s.fetchPage x .write p
  | .moveConstruct x y =>
    match s.guards.lookup x, s.guards.lookup y with
    | none, some that => some (s.transfer x y that)
    | _, _ => none
  | .moveAssign x y =>
    match s.guards.lookup x, s.guards.lookup y with
    | some this, some that =>
      if this.kind ≠ that.kind then none
      -- the test `this != &that`
      else if x = y then some s
      else some ((s.drop x this).transfer x y that)
    | _, _ => none
  | .write x i v =>
    match s.guards.lookup x with
    | some g =>
      match g.kind, g.page with
      | .read, _ => none
      | _, none => none
      | _, some f => some (s.write x g f i v)
    | none => none
  | .drop x => (s.guards.lookup x).map fun g => s.drop x g
  | .destroy x =>
    (s.guards.lookup x).map fun g =>
      let s := s.drop x g
      { s with guards := s.guards.erase x }

/-- Only pages that exist are fetched, and no page id and no pin is counted past `2^31 - 1`. -/
def InRange (s : GuardState) : GuardOp → Prop
  | .newPageGuarded _ => s.pool.InRange .newPage
  | .fetchPageRead _ p => s.pool.InRange (.fetchPage p)
  | .fetchPageWrite _ p => s.pool.InRange (.fetchPage p)
  | _ => True

end GuardState

/-- The runs whose steps all satisfy `ok`. -/
inductive GuardRun (ok : GuardState → GuardOp → Prop) (poolSize k : Nat) : GuardState → Prop where
  | create : GuardRun ok poolSize k (GuardState.create poolSize k)
  | step {s s' : GuardState} {op : GuardOp} :
      GuardRun ok poolSize k s → ok s op → s.step op = some s' → GuardRun ok poolSize k s'

/-! ## Live guards -/

/-- The guard, if it is not null. -/
def liveOf (g : Guard) : List Guard := if g.page = none then [] else [g]

namespace GuardState

/-- The guards that are not null, in the order of the variables. -/
def live (s : GuardState) : List Guard := s.guards.entries.flatMap fun e => liveOf e.2

/-- The live guards in the other variables. -/
def others (s : GuardState) (x : Nat) : List Guard :=
  (s.guards.erase x).entries.flatMap fun e => liveOf e.2

theorem live_put (s : GuardState) (x : Nat) (g : Guard) :
    (s.put x g).live = liveOf g ++ s.others x := rfl

theorem live_perm (s : GuardState) {x : Nat} {g : Guard} (h : s.guards.lookup x = some g) :
    s.live.Perm (liveOf g ++ s.others x) := by
  have hmem : x ∈ s.guards.entries.keys := by
    have := AList.lookup_isSome.mp (h ▸ rfl : (s.guards.lookup x).isSome)
    exact this
  obtain ⟨g', l₁, l₂, -, hentries, herase⟩ := List.exists_of_kerase hmem
  obtain rfl : g' = g := by
    have hg' : s.guards.lookup x = some g' := by
      rw [AList.mem_lookup_iff.mpr]
      rw [hentries]
      simp
    exact Option.some.inj (hg'.symm.trans h)
  have hothers : s.others x = (l₁ ++ l₂).flatMap fun e => liveOf e.2 := by
    rw [← herase]
    rfl
  rw [hothers, live, hentries, List.flatMap_append, List.flatMap_cons, List.flatMap_append]
  exact List.perm_append_comm_assoc ..

theorem live_others (s : GuardState) {x : Nat} (h : x ∉ s.guards) : s.others x = s.live := by
  have herase : s.guards.entries.kerase x = s.guards.entries :=
    List.kerase_of_notMem_keys h
  show (s.guards.entries.kerase x).flatMap _ = _
  rw [herase]
  rfl

end GuardState

/-! ## The invariant -/

/-- The pin of a live guard. A write guard counts as one that wrote. -/
def pinOf (g : Guard) : Pin where
  frame := g.page.getD 0
  pageId := g.pageId
  wrote :=
    match g.kind with
    | .basic => g.isDirty
    | .read => false
    | .write => true

/-- The guard holds the latch of the frame as a reader, or as the writer. -/
def isReader (f : FrameId) (g : Guard) : Bool := g.kind = .read && g.page = some f
def isWriter (f : FrameId) (g : Guard) : Bool := g.kind = .write && g.page = some f

/-- The latches are held by the guards of the list. -/
structure LatchesHeld (latches : FrameId → Latch) (L : List Guard) : Prop where
  readers : ∀ f, (latches f).readers = L.countP (isReader f)
  writer : ∀ f, (if (latches f).writer then 1 else 0) = L.countP (isWriter f)
  exclusive : ∀ f, (latches f).writer = true → (latches f).readers = 0

/-- **The invariant**, over a list of the live guards. -/
structure GuardInv (s : GuardState) (L : List Guard) : Prop where
  held : ∀ g ∈ L, g.page ≠ none
  cache : CacheInv ⟨s.pool, L.map pinOf, s.content⟩
  latches : LatchesHeld s.latches L
  accounts : ∀ p, s.acquired p = s.released p + L.countP fun g => g.pageId = p
  failed : s.failed = 0

theorem CacheInv.perm {b : BufferPoolManager} {pins pins' : List Pin} {content : PageId → PageData}
    (h : CacheInv ⟨b, pins, content⟩) (hperm : pins.Perm pins') :
    CacheInv ⟨b, pins', content⟩ where
  pool := h.pool
  pinned := fun pin hpin => h.pinned pin (hperm.mem_iff.mpr hpin)
  count := fun p f hp => by
    have hcount := h.count p f hp
    rw [CacheState.pinsOn, hperm.countP_eq] at hcount
    exact hcount
  resident := h.resident
  evicted := h.evicted
  clean := fun p f hp hd hw => h.clean p f hp hd fun pin hpin => hw pin (hperm.mem_iff.mp hpin)
  fresh := h.fresh

/-- A holder may count as one that wrote. -/
theorem CacheInv.setWrote {b : BufferPoolManager} {pin : Pin} {pins : List Pin}
    {content : PageId → PageData} (h : CacheInv ⟨b, pin :: pins, content⟩) :
    CacheInv ⟨b, { pin with wrote := true } :: pins, content⟩ where
  pool := h.pool
  pinned := by
    intro pin' hpin'
    rcases List.mem_cons.mp hpin' with rfl | hpin'
    · exact h.pinned pin List.mem_cons_self
    · exact h.pinned pin' (List.mem_cons_of_mem _ hpin')
  count := fun p f hp => by
    have hcount := h.count p f hp
    rw [CacheState.pinsOn, List.countP_cons] at hcount ⊢
    exact hcount
  resident := h.resident
  evicted := h.evicted
  clean := fun p f hp hd hw => by
    refine h.clean p f hp hd fun pin' hpin' hpage => ?_
    rcases List.mem_cons.mp hpin' with rfl | hpin'
    · exact absurd (hw _ List.mem_cons_self hpage) (by simp)
    · exact hw pin' (List.mem_cons_of_mem _ hpin') hpage
  fresh := h.fresh

namespace LatchesHeld

variable {s : GuardState} {latches : FrameId → Latch} {L : List Guard} {g : Guard} {f : FrameId}

theorem perm {L' : List Guard} (h : LatchesHeld latches L) (hperm : L.Perm L') :
    LatchesHeld latches L' where
  readers := fun f => by rw [h.readers, hperm.countP_eq]
  writer := fun f => by rw [h.writer, hperm.countP_eq]
  exclusive := h.exclusive

/-- **A guard gets the latch.** -/
theorem latch (h : LatchesHeld s.latches L) (hpage : g.page = some f) {s' : GuardState}
    (hlatch : s.latch f g.kind = some s') :
    ∃ latches, s' = { s with latches } ∧ LatchesHeld latches (g :: L) := by
  cases hkind : g.kind with
  | basic =>
    rw [hkind] at hlatch
    refine ⟨s.latches, (Option.some.inj hlatch).symm, fun f' => ?_, fun f' => ?_, h.exclusive⟩
    · rw [List.countP_cons_of_neg (by simp [isReader, hkind])]
      exact h.readers f'
    · rw [List.countP_cons_of_neg (by simp [isWriter, hkind])]
      exact h.writer f'
  | read =>
    rw [hkind, GuardState.latch] at hlatch
    split at hlatch
    · cases hlatch
    · rename_i hfree
      refine ⟨_, (Option.some.inj hlatch).symm, fun f' => ?_, fun f' => ?_, fun f' => ?_⟩
      · by_cases hf : f' = f
        · subst hf
          rw [Function.update_self, List.countP_cons_of_pos (by simp [isReader, hkind, hpage]),
            ← h.readers]
        · rw [Function.update_of_ne hf,
            List.countP_cons_of_neg (by simp [isReader, hpage, Ne.symm hf])]
          exact h.readers f'
      · rw [List.countP_cons_of_neg (by simp [isWriter, hkind]), ← h.writer]
        by_cases hf : f' = f
        · subst hf
          rw [Function.update_self]
        · rw [Function.update_of_ne hf]
      · by_cases hf : f' = f
        · subst hf
          rw [Function.update_self]
          exact fun hw => absurd hw hfree
        · rw [Function.update_of_ne hf]
          exact h.exclusive f'
  | write =>
    rw [hkind, GuardState.latch] at hlatch
    split at hlatch
    · cases hlatch
    · rename_i hfree
      obtain ⟨hnowriter, hnoreader⟩ := not_or.mp hfree
      refine ⟨_, (Option.some.inj hlatch).symm, fun f' => ?_, fun f' => ?_, fun f' => ?_⟩
      · rw [List.countP_cons_of_neg (by simp [isReader, hkind]), ← h.readers]
        by_cases hf : f' = f
        · subst hf
          rw [Function.update_self]
        · rw [Function.update_of_ne hf]
      · by_cases hf : f' = f
        · subst hf
          rw [Function.update_self, List.countP_cons_of_pos (by simp [isWriter, hkind, hpage]),
            ← h.writer, if_neg hnowriter]
          rfl
        · rw [Function.update_of_ne hf,
            List.countP_cons_of_neg (by simp [isWriter, hpage, Ne.symm hf])]
          exact h.writer f'
      · by_cases hf : f' = f
        · subst hf
          rw [Function.update_self]
          exact fun _ => Nat.eq_zero_of_not_pos hnoreader
        · rw [Function.update_of_ne hf]
          exact h.exclusive f'

/-- **A guard gives the latch back.** -/
theorem unlatch (h : LatchesHeld s.latches (g :: L)) (hpage : g.page = some f) :
    ∃ latches, s.unlatch f g.kind = { s with latches } ∧ LatchesHeld latches L := by
  cases hkind : g.kind with
  | basic =>
    refine ⟨s.latches, rfl, fun f' => ?_, fun f' => ?_, h.exclusive⟩
    · rw [h.readers, List.countP_cons_of_neg (by simp [isReader, hkind])]
    · rw [h.writer, List.countP_cons_of_neg (by simp [isWriter, hkind])]
  | read =>
    refine ⟨_, rfl, fun f' => ?_, fun f' => ?_, fun f' => ?_⟩
    · by_cases hf : f' = f
      · subst hf
        rw [Function.update_self, h.readers,
          List.countP_cons_of_pos (by simp [isReader, hkind, hpage])]
        rfl
      · rw [Function.update_of_ne hf, h.readers,
          List.countP_cons_of_neg (by simp [isReader, hpage, Ne.symm hf])]
    · have hwriter := h.writer f'
      rw [List.countP_cons_of_neg (by simp [isWriter, hkind])] at hwriter
      by_cases hf : f' = f
      · subst hf
        rw [Function.update_self]
        exact hwriter
      · rw [Function.update_of_ne hf]
        exact hwriter
    · by_cases hf : f' = f
      · subst hf
        rw [Function.update_self]
        intro hw
        rw [h.exclusive f' hw]
      · rw [Function.update_of_ne hf]
        exact h.exclusive f'
  | write =>
    refine ⟨_, rfl, fun f' => ?_, fun f' => ?_, fun f' => ?_⟩
    · have hreaders := h.readers f'
      rw [List.countP_cons_of_neg (by simp [isReader, hkind])] at hreaders
      by_cases hf : f' = f
      · subst hf
        rw [Function.update_self]
        exact hreaders
      · rw [Function.update_of_ne hf]
        exact hreaders
    · have hwriter := h.writer f'
      by_cases hf : f' = f
      · subst hf
        rw [List.countP_cons_of_pos (by simp [isWriter, hkind, hpage])] at hwriter
        rw [Function.update_self]
        split at hwriter
        · exact Nat.succ.inj hwriter
        · omega
      · rw [List.countP_cons_of_neg (by simp [isWriter, hpage, Ne.symm hf])] at hwriter
        rw [Function.update_of_ne hf]
        exact hwriter
    · by_cases hf : f' = f
      · subst hf
        rw [Function.update_self]
        exact fun hw => (nomatch hw)
      · rw [Function.update_of_ne hf]
        exact h.exclusive f'

/-- What a guard holds does not depend on `is_dirty_`. -/
theorem setDirty (h : LatchesHeld latches (g :: L)) (b : Bool) :
    LatchesHeld latches ({ g with isDirty := b } :: L) where
  readers := fun f => by rw [h.readers, List.countP_cons, List.countP_cons]; rfl
  writer := fun f => by rw [h.writer, List.countP_cons, List.countP_cons]; rfl
  exclusive := h.exclusive

end LatchesHeld

namespace GuardInv

variable {s : GuardState} {L L' : List Guard}

theorem perm (h : GuardInv s L) (hperm : L.Perm L') : GuardInv s L' where
  held := fun g hg => h.held g (hperm.mem_iff.mpr hg)
  cache := h.cache.perm (hperm.map pinOf)
  latches := h.latches.perm hperm
  accounts := fun p => by rw [h.accounts, hperm.countP_eq]
  failed := h.failed

theorem create (poolSize k : Nat) : GuardInv (GuardState.create poolSize k) [] where
  held := fun _ hg => absurd hg List.not_mem_nil
  cache := cacheInv_create poolSize k
  latches := ⟨fun _ => rfl, fun _ => rfl, fun _ h => (nomatch h)⟩
  accounts := fun _ => rfl
  failed := rfl

/-- **A guard for a page that was pinned.** -/
theorem acquire {x : Nat} {kind : GuardKind} {f : FrameId} {p : PageId} {s' : GuardState}
    (hheld : ∀ g ∈ L, g.page ≠ none)
    (hcache : CacheInv ⟨s.pool, ⟨f, p, false⟩ :: L.map pinOf, s.content⟩)
    (hlatches : LatchesHeld s.latches L)
    (haccounts : ∀ p, s.acquired p = s.released p + L.countP fun g => g.pageId = p)
    (hfailed : s.failed = 0) (hacquire : s.acquire x kind f p = some s') :
    s'.guards = s.guards.insert x { kind, page := some f, pageId := p } ∧
      GuardInv s' ({ kind, page := some f, pageId := p } :: L) := by
  obtain ⟨s₁, hlatch, rfl⟩ := Option.map_eq_some_iff.mp hacquire
  have hlatches' : LatchesHeld
      { s with acquired := Function.update s.acquired p (s.acquired p + 1) }.latches L := hlatches
  obtain ⟨latches, rfl, hheld'⟩ := @LatchesHeld.latch _ _
    { kind, page := some f, pageId := p } f hlatches' rfl _ hlatch
  refine ⟨rfl, ?_, ?_, hheld', fun q => ?_, hfailed⟩
  · intro g hg
    rcases List.mem_cons.mp hg with rfl | hg
    · exact Option.some_ne_none f
    · exact hheld g hg
  · cases kind with
    | basic => exact hcache
    | read => exact hcache
    | write => exact hcache.setWrote
  · show Function.update s.acquired p (s.acquired p + 1) q = _
    by_cases hq : q = p
    · subst hq
      rw [Function.update_self, haccounts, List.countP_cons_of_pos (by simp)]
      rfl
    · rw [Function.update_of_ne hq, haccounts, List.countP_cons_of_neg (by simp [Ne.symm hq])]
      rfl

/-- **Dropping a live guard** releases its pin. -/
theorem drop {g : Guard} (h : GuardInv s (g :: L)) (x : Nat) :
    (s.drop x g).guards = s.guards.insert x { g with page := none, isDirty := false } ∧
      GuardInv (s.drop x g) L := by
  obtain ⟨f, hpage⟩ := Option.ne_none_iff_exists'.mp (h.held g List.mem_cons_self)
  have hpin : pinOf g ∈ (g :: L).map pinOf := List.mem_cons_self
  have hframe : (pinOf g).frame = f := by simp [pinOf, hpage]
  have hlookup := h.cache.pinned _ hpin
  have hpos := h.cache.pinCount_pos hpin
  rw [hframe] at hlookup hpos
  have hid : (s.pool.pages f).pageId = g.pageId := h.cache.pool.pageId _ _ hlookup
  obtain ⟨latches, hunlatch, hheld⟩ := h.latches.unlatch hpage
  have hwrote : (pinOf g).wrote = true → GuardState.dirtyFlag g = true := by
    intro hw
    cases hkind : g.kind <;> simp [pinOf, GuardState.dirtyFlag, hkind] at hw ⊢
    exact hw
  have hcache := h.cache.unpinPage hpin hwrote
  rw [List.map_cons, List.erase_cons_head] at hcache
  have hok : (s.pool.unpinPage g.pageId (GuardState.dirtyFlag g)).1 = true := by
    unfold BufferPoolManager.unpinPage
    simp only [show s.pool.pageTable.lookup g.pageId = some f from hlookup]
    rw [if_neg (Int.not_le.mpr hpos)]
    split <;> rfl
  simp only [GuardState.drop, hpage, hunlatch, hid, hok, if_true]
  refine ⟨rfl, fun g' hg' => h.held g' (List.mem_cons_of_mem _ hg'), hcache, hheld, fun q => ?_,
    h.failed⟩
  have haccounts := h.accounts q
  show s.acquired q = Function.update s.released g.pageId (s.released g.pageId + 1) q + _
  by_cases hq : q = g.pageId
  · subst hq
    rw [List.countP_cons_of_pos (by simp)] at haccounts
    rw [Function.update_self, haccounts, Nat.add_right_comm]
    rfl
  · rw [List.countP_cons_of_neg (by simp [Ne.symm hq])] at haccounts
    rw [Function.update_of_ne hq, haccounts]

/-- **Writing through a live guard.** -/
theorem write {g : Guard} {f : FrameId} (h : GuardInv s (g :: L)) (hpage : g.page = some f)
    (hkind : g.kind ≠ .read) (x : Nat) (i : Fin pageSize) (v : UInt8) :
    GuardInv (s.write x g f i v)
      ({ g with isDirty := g.isDirty || decide (g.kind = .basic) } :: L) where
  held := by
    intro g' hg'
    rcases List.mem_cons.mp hg' with rfl | hg'
    · exact h.held g List.mem_cons_self
    · exact h.held g' (List.mem_cons_of_mem _ hg')
  cache := by
    have hpin : pinOf g ∈ (g :: L).map pinOf := List.mem_cons_self
    have hcache := h.cache.write hpin i v
    have hframe : (pinOf g).frame = f := by simp [pinOf, hpage]
    have hnew : pinOf { g with isDirty := g.isDirty || decide (g.kind = .basic) } =
        ⟨f, g.pageId, true⟩ := by
      cases hk : g.kind with
      | basic => simp [pinOf, hpage]
      | read => exact absurd hk hkind
      | write => simp [pinOf, hpage]
    rw [List.map_cons, List.erase_cons_head, hframe] at hcache
    rw [List.map_cons, hnew]
    exact hcache
  latches := h.latches.setDirty _
  accounts := fun q => by
    have haccounts := h.accounts q
    rw [List.countP_cons] at haccounts ⊢
    exact haccounts
  failed := h.failed

end GuardInv

/-! ## Steps -/

namespace GuardInv

variable {s s' : GuardState} {x y : Nat} {g : Guard}

/-- A null guard in a variable that is new. -/
theorem putNull (h : GuardInv s s.live) (hx : x ∉ s.guards) (kind : GuardKind) :
    GuardInv (s.put x { kind }) (s.put x { kind }).live := by
  rw [GuardState.live_put, GuardState.live_others s hx]
  exact ⟨h.held, h.cache, h.latches, h.accounts, h.failed⟩

/-- A guard in a variable that is new. -/
theorem putNew (hx : x ∉ s.guards) (hguards : s'.guards = s.guards.insert x g)
    (hpage : g.page ≠ none) (h : GuardInv s' (g :: s.live)) : GuardInv s' s'.live := by
  have hlive : s'.live = g :: s.live := by
    have hput : s'.live = liveOf g ++ s.others x := by
      rw [GuardState.live, hguards]
      rfl
    rw [hput, GuardState.live_others s hx, liveOf, if_neg hpage]
    rfl
  rw [hlive]
  exact h

/-- **`Drop`** of a guard that may be null. -/
theorem dropAt (h : GuardInv s s.live) (hx : s.guards.lookup x = some g) :
    GuardInv (s.drop x g) (s.others x) ∧
      ∃ g', g'.page = none ∧ (s.drop x g).guards.lookup x = some g' ∧
        (∀ z, z ≠ x → (s.drop x g).guards.lookup z = s.guards.lookup z) ∧
        (s.drop x g).others x = s.others x := by
  have hperm := s.live_perm hx
  by_cases hpage : g.page = none
  · have hsame : s.drop x g = s := by simp [GuardState.drop, hpage]
    rw [liveOf, if_pos hpage] at hperm
    rw [hsame]
    exact ⟨h.perm hperm, g, hpage, hx, fun _ _ => rfl, rfl⟩
  · rw [liveOf, if_neg hpage] at hperm
    obtain ⟨hguards, hinv⟩ := (h.perm hperm).drop x
    refine ⟨hinv, { g with page := none, isDirty := false }, rfl, ?_, fun z hz => ?_, ?_⟩
    · rw [hguards, AList.lookup_insert]
    · rw [hguards, AList.lookup_insert_ne hz]
    · rw [GuardState.others, hguards]
      have herase : (s.guards.insert x { g with page := none, isDirty := false }).entries.kerase x
          = s.guards.entries.kerase x := List.kerase_cons_eq rfl
      show (List.kerase x _).flatMap _ = _
      rw [herase]
      rfl

/-- **A move** changes no more than the order of the live guards. -/
theorem transfer (h : GuardInv s s.live) (hy : s.guards.lookup y = some g)
    (hx : ∀ g', s.guards.lookup x = some g' → g'.page = none) (hne : x ≠ y) :
    GuardInv (s.transfer x y g) (s.transfer x y g).live := by
  have hlive : (s.transfer x y g).live =
      liveOf g ++ ((s.guards.erase x).erase y).entries.flatMap fun e => liveOf e.2 := by
    show ((⟨x, g⟩ :: s.guards.entries.kerase x).kerase y).flatMap _ = _
    rw [List.kerase_cons_ne hne.symm]
    rfl
  have hothers : (s.others y).Perm
      (((s.guards.erase x).erase y).entries.flatMap fun e => liveOf e.2) := by
    rw [AList.erase_erase]
    -- the state without `y`: its live guards are those in the other variables
    let s₁ : GuardState := { s with guards := s.guards.erase y }
    show s₁.live.Perm (s₁.others x)
    cases hlookup : s₁.guards.lookup x with
    | none => rw [s₁.live_others (AList.lookup_eq_none.mp hlookup)]
    | some g' =>
      have hnull := hx g' ((AList.lookup_erase_ne hne).symm.trans hlookup)
      have hperm := s₁.live_perm hlookup
      rw [liveOf, if_pos hnull] at hperm
      exact hperm
  rw [hlive]
  obtain ⟨hheld, hcache, hlatches, haccounts, hfailed⟩ :=
    h.perm ((s.live_perm hy).trans (hothers.append_left _))
  exact ⟨hheld, hcache, hlatches, haccounts, hfailed⟩

theorem newPageGuarded (h : GuardInv s s.live) (hx : x ∉ s.guards)
    (hok : s.pool.InRange .newPage) (hstep : s.newPageGuarded x = some s') :
    GuardInv s' s'.live := by
  unfold GuardState.newPageGuarded at hstep
  split at hstep
  · rename_i pool hnew
    obtain rfl := Option.some.inj hstep
    have hcache : CacheInv ⟨pool, s.live.map pinOf, s.content⟩ :=
      CacheStep.inv h.cache (.newPage_null hok hnew)
    have h' : GuardInv { s with pool } { s with pool }.live :=
      ⟨h.held, hcache, h.latches, h.accounts, h.failed⟩
    exact h'.putNull hx .basic
  · rename_i f p pool hnew
    let s₁ : GuardState :=
      { s with pool, content := Function.update s.content p PageData.zero }
    obtain ⟨hguards, hinv⟩ :=
      acquire (s := s₁) h.held (h.cache.newPage hok.2 hnew) h.latches h.accounts h.failed hstep
    exact putNew hx hguards (Option.some_ne_none f) hinv

theorem fetchPage (h : GuardInv s s.live) (hx : x ∉ s.guards) {kind : GuardKind} {p : PageId}
    (hok : s.pool.InRange (.fetchPage p)) (hstep : s.fetchPage x kind p = some s') :
    GuardInv s' s'.live := by
  unfold GuardState.fetchPage at hstep
  split at hstep
  · rename_i pool hfetch
    obtain rfl := Option.some.inj hstep
    have hcache : CacheInv ⟨pool, s.live.map pinOf, s.content⟩ :=
      CacheStep.inv h.cache (.fetchPage_null hok hfetch)
    have h' : GuardInv { s with pool } { s with pool }.live :=
      ⟨h.held, hcache, h.latches, h.accounts, h.failed⟩
    exact h'.putNull hx kind
  · rename_i f pool hfetch
    obtain ⟨hguards, hinv⟩ :=
      acquire (s := { s with pool }) h.held (h.cache.fetchPage hok hfetch) h.latches
        h.accounts h.failed hstep
    exact putNew hx hguards (Option.some_ne_none f) hinv

/-- The live guards after `Drop` are those in the other variables. -/
theorem dropLive (h : GuardInv s s.live) (hx : s.guards.lookup x = some g) :
    GuardInv (s.drop x g) (s.drop x g).live := by
  obtain ⟨hinv, g', hnull, hlookup, -, hothers⟩ := h.dropAt hx
  have hperm := (s.drop x g).live_perm hlookup
  rw [liveOf, if_pos hnull, hothers] at hperm
  exact hinv.perm hperm.symm

/-- **One operation keeps the invariant.** -/
theorem step {op : GuardOp} (h : GuardInv s s.live) (hok : s.InRange op)
    (hstep : s.step op = some s') : GuardInv s' s'.live := by
  cases op with
  | construct x kind =>
    obtain ⟨hx, hsome⟩ := Option.ite_none_left_eq_some.mp hstep
    obtain rfl := Option.some.inj hsome
    exact h.putNull hx kind
  | newPageGuarded x =>
    obtain ⟨hx, hnew⟩ := Option.ite_none_left_eq_some.mp hstep
    exact h.newPageGuarded hx hok hnew
  | fetchPageRead x p =>
    obtain ⟨hx, hfetch⟩ := Option.ite_none_left_eq_some.mp hstep
    exact h.fetchPage hx hok hfetch
  | fetchPageWrite x p =>
    obtain ⟨hx, hfetch⟩ := Option.ite_none_left_eq_some.mp hstep
    exact h.fetchPage hx hok hfetch
  | moveConstruct x y =>
    simp only [GuardState.step] at hstep
    split at hstep
    · rename_i that hx hy
      obtain rfl := Option.some.inj hstep
      have hne : x ≠ y := by
        rintro rfl
        rw [hx] at hy
        cases hy
      exact h.transfer hy (fun g' hg' => by rw [hx] at hg'; cases hg') hne
    · cases hstep
  | moveAssign x y =>
    simp only [GuardState.step] at hstep
    split at hstep
    · rename_i this that hx hy
      obtain ⟨-, hstep⟩ := Option.ite_none_left_eq_some.mp hstep
      split at hstep
      · obtain rfl := Option.some.inj hstep
        exact h
      · rename_i hne
        obtain rfl := Option.some.inj hstep
        obtain ⟨-, g', hnull, hlookup, hsame, -⟩ := h.dropAt hx
        refine (h.dropLive hx).transfer ?_ ?_ hne
        · rw [hsame y (Ne.symm hne), hy]
        · intro g'' hg''
          rw [hlookup] at hg''
          obtain rfl := Option.some.inj hg''
          exact hnull
    · cases hstep
  | write x i v =>
    simp only [GuardState.step] at hstep
    split at hstep
    · rename_i g hx
      split at hstep
      · cases hstep
      · cases hstep
      · rename_i f hpage hkind
        obtain rfl := Option.some.inj hstep
        have hperm := s.live_perm hx
        rw [liveOf, if_neg (by rw [hpage]; exact Option.some_ne_none f)] at hperm
        have hinv := (h.perm hperm).write hpage hkind x i v
        have hlive : (s.write x g f i v).live =
            { g with isDirty := g.isDirty || decide (g.kind = .basic) } :: s.others x := by
          show liveOf _ ++ s.others x = _
          rw [liveOf, if_neg (by rw [hpage]; exact Option.some_ne_none f)]
          rfl
        rw [hlive]
        exact hinv
    · cases hstep
  | drop x =>
    obtain ⟨g, hx, rfl⟩ := Option.map_eq_some_iff.mp hstep
    exact h.dropLive hx
  | destroy x =>
    obtain ⟨g, hx, rfl⟩ := Option.map_eq_some_iff.mp hstep
    obtain ⟨hinv, -, -, -, -, hothers⟩ := h.dropAt hx
    have hlive : { s.drop x g with guards := (s.drop x g).guards.erase x }.live =
        s.others x := hothers
    rw [hlive]
    exact ⟨hinv.held, hinv.cache, hinv.latches, hinv.accounts, hinv.failed⟩

end GuardInv

theorem GuardRun.inv {poolSize k : Nat} {s : GuardState}
    (h : GuardRun GuardState.InRange poolSize k s) : GuardInv s s.live := by
  induction h with
  | create => exact GuardInv.create poolSize k
  | step _ hok hstep ih => exact ih.step hok hstep

/-! ## What guards promise -/

/-- What the guards of a program promise. -/
structure GuardsOk (s : GuardState) : Prop where
  /-- The pin count of a resident page is the number of live guards on it. -/
  pinCount : ∀ p f, s.pool.pageTable.lookup p = some f →
    (s.pool.pages f).pinCount = (s.live.countP fun g => g.page = some f : Nat)
  /-- The latch of a frame is held by the live read guards or by the live write guard. -/
  latched : LatchesHeld s.latches s.live
  /-- The page of a live guard is in the frame that the guard points to. -/
  frame : ∀ g ∈ s.live, ∀ f, g.page = some f →
    s.pool.pageTable.lookup g.pageId = some f ∧ (s.pool.pages f).pageId = g.pageId
  /-- Every pin is given back once: the pins that are out are the live guards, and no
  call of `UnpinPage` failed. -/
  released : ∀ p, s.acquired p = s.released p + s.live.countP fun g => g.pageId = p
  failed : s.failed = 0
  /-- A live guard sees what was written to its page. -/
  data : ∀ g ∈ s.live, ∀ f, g.page = some f → (s.pool.pages f).data = s.content g.pageId

theorem GuardInv.guardsOk {s : GuardState} (h : GuardInv s s.live) : GuardsOk s := by
  have hpin : ∀ g ∈ s.live, ∀ f, g.page = some f → s.pool.pageTable.lookup g.pageId = some f := by
    intro g hg f hf
    have hpinned := h.cache.pinned (pinOf g) (List.mem_map_of_mem hg)
    simpa [pinOf, hf] using hpinned
  have hframe : ∀ g ∈ s.live, ∀ f, g.page = some f →
      s.pool.pageTable.lookup g.pageId = some f ∧ (s.pool.pages f).pageId = g.pageId :=
    fun g hg f hf => ⟨hpin g hg f hf, h.cache.pool.pageId _ _ (hpin g hg f hf)⟩
  refine ⟨fun p f hp => ?_, h.latches, hframe, h.accounts, h.failed,
    fun g hg f hf => h.cache.resident _ _ (hpin g hg f hf)⟩
  rw [h.cache.count p f hp, CacheState.pinsOn, List.countP_map]
  refine congrArg _ (List.countP_congr fun g hg => ?_)
  obtain ⟨f', hf'⟩ := Option.ne_none_iff_exists'.mp (h.held g hg)
  obtain ⟨hlookup, hid⟩ := hframe g hg f' hf'
  -- the guard is on the page `p` if and only if it points to the frame of `p`
  simp only [Function.comp_apply, decide_eq_true_eq, hf', Option.some.injEq]
  constructor
  · rintro rfl
    exact Option.some.inj (hlookup.symm.trans hp)
  · rintro rfl
    exact hid.symm.trans (h.cache.pool.pageId _ _ hp)

/-- **Guards keep the pool in order.** In every state that a program reaches which fetches
only pages that exist, as long as page ids and pin counts stay below `2^31`. -/
theorem guardRun_ok {poolSize k : Nat} {s : GuardState}
    (h : GuardRun GuardState.InRange poolSize k s) : GuardsOk s :=
  h.inv.guardsOk

/-- A page is created, written, its guard moved, and the page read by another guard. -/
theorem guardRun_ok_moved :
    ∃ s, GuardRun GuardState.InRange 2 2 s ∧ s.live.length = 2 ∧ GuardsOk s := by
  have h₁ := @GuardRun.step GuardState.InRange 2 2 _ _ (.newPageGuarded 0) .create
    ⟨trivial, .inr (by decide)⟩ rfl
  have h₂ := @GuardRun.step _ _ _ _ _ (.write 0 ⟨0, by decide⟩ 7) h₁ trivial rfl
  have h₃ := @GuardRun.step _ _ _ _ _ (.moveConstruct 1 0) h₂ trivial rfl
  have hcount : ∀ f, (create 2 2).newPage.2.pageTable.lookup 0 = some f → (0 : FrameId) = f :=
    fun f hf => Option.some.inj hf
  have h₄ := @GuardRun.step _ _ _ _ _ (.fetchPageRead 2 0) h₃
    ⟨⟨Int.le_refl 0, Int.zero_lt_one⟩, fun f hf => by
      obtain rfl := hcount f hf
      decide⟩ rfl
  exact ⟨_, h₄, rfl, guardRun_ok h₄⟩

/-- Page 0 is fetched before it exists, then created in another frame: dropping the
first guard takes the pin of the second. -/
theorem fetch_before_new : ¬ ∀ s, GuardRun (fun _ _ => True) 2 2 s → GuardsOk s := by
  intro hall
  have h₁ := @GuardRun.step (fun _ _ => True) 2 2 _ _ (.fetchPageRead 0 0) .create trivial rfl
  have h₂ := @GuardRun.step _ _ _ _ _ (.newPageGuarded 1) h₁ trivial rfl
  have h₃ := @GuardRun.step _ _ _ _ _ (.drop 0) h₂ trivial rfl
  have hpins := (hall _ h₃).pinCount 0 1 rfl
  exact absurd hpins (by decide)

end OneBase
