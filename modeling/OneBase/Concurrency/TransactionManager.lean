import OneBase.Concurrency.LockAccounting
import OneBase.Lib.RangeFor

/-!
# The loops of `Commit` and `Abort` (`concurrency/transaction_manager.cpp`)

`Commit` and `Abort` loop over the lock sets themselves, while `Unlock` erases the row it is
called for from both sets. (It also reads the row once more after the first erasure, through a
reference to the erased element.) `LockSystem` takes the rows that were held on entry; here the
loops are as they are written.

- `unlockRow_eq_or_erases`: `Unlock` changes nothing, or erases the row from both sets.
- `commit_abort_visitsOnce_iff`: when the loops visit every held row once.
- `visitsOnce_iff_empty`: after lock calls, only without locks.
- `stepAll_commit_abort`: where the loops return they do what the steps of `LockSystem` do when
  nobody else acts in between.
-/

namespace OneBase

open Cpp LockManager

/-- The elements of a lock set in the order of iteration, which is not specified. -/
structure IterationOrder (set : Finset RID) where
  elems : List RID
  nodup : elems.Nodup
  mem_iff : ∀ rid, rid ∈ elems ↔ rid ∈ set

namespace TransactionManager

/-- What a lock set of the transaction iterates over, of rows in this order. -/
def elemsOf (set : Transaction → Finset RID) (t : TxnId) (order : List RID) (m : LockManager) :
    List RID := order.filter (· ∈ set (m.txns t))

/-- The body of both loops; the result of `Unlock` is not used. -/
def unlockRow (t : TxnId) (rid : RID) (m : LockManager) : LockManager := (m.unlock t rid).2

/-- The two loops and the end of `Commit` and `Abort`, with the rows that were visited. -/
def releaseLocks (m : LockManager) (t : TxnId) (shared exclusive : List RID) (fuel : Nat) :
    Option (List RID × LoopEnd LockManager) :=
  match forEach (elemsOf (·.sharedLockSet) t shared) (unlockRow t) fuel m with
  | some (visited, .returned m) =>
    match forEach (elemsOf (·.exclusiveLockSet) t exclusive) (unlockRow t) fuel m with
    | some (visited', .returned m) => some (visited ++ visited', .returned (m.clearSets t))
    | some (visited', .invalidated) => some (visited ++ visited', .invalidated)
    | none => none
  | some (visited, .invalidated) => some (visited, .invalidated)
  | none => none

/-- Model of `Commit`. -/
def commit (m : LockManager) (t : TxnId) (shared exclusive : List RID) (fuel : Nat) :
    Option (List RID × LoopEnd LockManager) :=
  releaseLocks (m.setState t .committed) t shared exclusive fuel

/-- Model of `Abort`. -/
def abort (m : LockManager) (t : TxnId) (shared exclusive : List RID) (fuel : Nat) :
    Option (List RID × LoopEnd LockManager) :=
  releaseLocks (m.setState t .aborted) t shared exclusive fuel

/-- **Each row is visited once**: the loops end, without the use of an iterator to an erased
element, and visit each row held on entry exactly once. -/
def VisitsOnce (run : Nat → Option (List RID × LoopEnd LockManager)) (txn : Transaction) : Prop :=
  ∃ fuel visited m', run fuel = some (visited, .returned m') ∧
    ∀ rid ∈ txn.sharedLockSet ∪ txn.exclusiveLockSet, visited.count rid = 1

/-- **Nothing to erase**: no held row is in both sets, and the lock table has no request of the
transaction for one. -/
structure NothingToErase (m : LockManager) (t : TxnId) : Prop where
  disjoint : Disjoint (m.txns t).sharedLockSet (m.txns t).exclusiveLockSet
  noRequest : ∀ rid ∈ (m.txns t).sharedLockSet ∪ (m.txns t).exclusiveLockSet, m.own t rid = []

/-! ## The loops -/

variable {m : LockManager} {t : TxnId} {rid : RID}

theorem unlockRow_eq (h : m.own t rid = []) : unlockRow t rid m = m := by
  obtain ⟨-, heq⟩ | ⟨hne, -⟩ := m.unlock_cases t rid
  · rw [unlockRow, heq]
  · exact absurd h hne

theorem txns_unlockRow (h : m.own t rid ≠ []) :
    (unlockRow t rid m).txns t = unlockedTxn (m.txns t) rid := by
  obtain ⟨hnil, -⟩ | ⟨-, -, htxns, -⟩ := m.unlock_cases t rid
  · exact absurd hnil h
  · rw [unlockRow, htxns, Function.update_self]

/-- `Unlock` changes nothing, or erases the row from both sets. -/
theorem unlockRow_eq_or_erases {set : Transaction → Finset RID}
    (hset : ∀ txn rid, set (unlockedTxn txn rid) = (set txn).erase rid) (order : List RID)
    (rid : RID) : unlockRow t rid m = m ∨ rid ∉ elemsOf set t order (unlockRow t rid m) := by
  by_cases h : m.own t rid = []
  · exact .inl (unlockRow_eq h)
  · refine .inr fun hmem => ?_
    rw [elemsOf, txns_unlockRow h, hset] at hmem
    simp at hmem

/-- `Unlock` changes nothing only without a request. -/
theorem own_of_unlockRow_eq (hheld : rid ∈ (m.txns t).sharedLockSet ∪ (m.txns t).exclusiveLockSet)
    (h : unlockRow t rid m = m) : m.own t rid = [] := by
  by_contra hne
  have htxn := txns_unlockRow hne
  rw [h] at htxn
  rw [htxn] at hheld
  simp [unlockedTxn] at hheld

theorem elemsOf_order {set : Transaction → Finset RID} (order : IterationOrder (set (m.txns t))) :
    elemsOf set t order.elems m = order.elems :=
  List.filter_eq_self.mpr fun rid hrid => by simpa using (order.mem_iff rid).mp hrid

/-- **One loop returns** only if there is no request for any of its rows. -/
theorem forEach_unlockRow (set : Transaction → Finset RID)
    (hset : ∀ txn rid, set (unlockedTxn txn rid) = (set txn).erase rid)
    (hsub : set (m.txns t) ⊆ (m.txns t).sharedLockSet ∪ (m.txns t).exclusiveLockSet)
    (order : IterationOrder (set (m.txns t))) {fuel : Nat} {visited : List RID} {m' : LockManager}
    (h : forEach (elemsOf set t order.elems) (unlockRow t) fuel m =
      some (visited, .returned m')) :
    (∀ rid ∈ set (m.txns t), m.own t rid = []) ∧ visited = order.elems ∧ m' = m := by
  have helems := elemsOf_order order
  have hnodup : (elemsOf set t order.elems m).Nodup := by
    rw [helems]
    exact order.nodup
  obtain ⟨hsame, hvisited, rfl⟩ :=
    forEach_returned hnodup (fun rid _ => unlockRow_eq_or_erases hset order.elems rid) h
  rw [helems] at hsame hvisited
  refine ⟨fun rid hrid => ?_, hvisited, rfl⟩
  exact own_of_unlockRow_eq (hsub hrid) (hsame rid ((order.mem_iff rid).mpr hrid))

/-- Without requests it visits its rows once. -/
theorem forEach_unlockRow_of_nil {set : Transaction → Finset RID}
    (order : IterationOrder (set (m.txns t))) (h : ∀ rid ∈ set (m.txns t), m.own t rid = [])
    {fuel : Nat} (hfuel : order.elems.length < fuel) :
    forEach (elemsOf set t order.elems) (unlockRow t) fuel m =
      some (order.elems, .returned m) := by
  have helems := elemsOf_order order
  have hnodup : (elemsOf set t order.elems m).Nodup := by
    rw [helems]
    exact order.nodup
  have hsame : ∀ rid ∈ elemsOf set t order.elems m, unlockRow t rid m = m := by
    rw [helems]
    exact fun rid hrid => unlockRow_eq (h rid ((order.mem_iff rid).mp hrid))
  rw [forEach_of_same hnodup hsame (by rwa [helems]), helems]

/-- **The two loops.** -/
theorem releaseLocks_visitsOnce_iff (m : LockManager) (t : TxnId)
    (shared : IterationOrder (m.txns t).sharedLockSet)
    (exclusive : IterationOrder (m.txns t).exclusiveLockSet) :
    VisitsOnce (releaseLocks m t shared.elems exclusive.elems) (m.txns t) ↔
      NothingToErase m t := by
  constructor
  · rintro ⟨fuel, visited, m', hrun, hcount⟩
    rw [releaseLocks] at hrun
    split at hrun
    · rename_i visited₁ m₁ hshared
      obtain ⟨hnil, rfl, rfl⟩ := forEach_unlockRow (·.sharedLockSet) (fun _ _ => rfl)
        Finset.subset_union_left shared hshared
      split at hrun
      · rename_i visited₂ m₂ hexclusive
        obtain ⟨hnil', rfl, rfl⟩ := forEach_unlockRow (·.exclusiveLockSet) (fun _ _ => rfl)
          Finset.subset_union_right exclusive hexclusive
        obtain ⟨rfl, -⟩ := Prod.mk.inj (Option.some.inj hrun)
        constructor
        case disjoint =>
          refine Finset.disjoint_left.mpr fun rid hs hx => ?_
          -- a row in both sets is visited twice
          have htwice := hcount rid (Finset.mem_union_left _ hs)
          rw [List.count_append,
            List.count_eq_one_of_mem shared.nodup ((shared.mem_iff rid).mpr hs),
            List.count_eq_one_of_mem exclusive.nodup ((exclusive.mem_iff rid).mpr hx)] at htwice
          cases htwice
        case noRequest =>
          intro rid hrid
          rcases Finset.mem_union.mp hrid with hs | hx
          · exact hnil rid hs
          · exact hnil' rid hx
      · cases hrun
      · cases hrun
    · cases hrun
    · cases hrun
  · intro h
    have hshared := fun rid hs => h.noRequest rid (Finset.mem_union_left _ hs)
    have hexclusive := fun rid hx => h.noRequest rid (Finset.mem_union_right _ hx)
    refine ⟨shared.elems.length + exclusive.elems.length + 1, shared.elems ++ exclusive.elems,
      m.clearSets t, ?_, fun rid hrid => ?_⟩
    · rw [releaseLocks, forEach_unlockRow_of_nil shared hshared (by omega)]
      dsimp only
      rw [forEach_unlockRow_of_nil exclusive hexclusive (by omega)]
    · rw [List.count_append]
      rcases Finset.mem_union.mp hrid with hs | hx
      · have hx : rid ∉ exclusive.elems := fun hin =>
          Finset.disjoint_left.mp h.disjoint hs ((exclusive.mem_iff rid).mp hin)
        rw [List.count_eq_one_of_mem shared.nodup ((shared.mem_iff rid).mpr hs),
          List.count_eq_zero_of_not_mem hx]
      · have hs : rid ∉ shared.elems := fun hin =>
          Finset.disjoint_right.mp h.disjoint hx ((shared.mem_iff rid).mp hin)
        rw [List.count_eq_one_of_mem exclusive.nodup ((exclusive.mem_iff rid).mpr hx),
          List.count_eq_zero_of_not_mem hs]

/-- The state that is set first does not matter. -/
theorem setState_visitsOnce_iff (m : LockManager) (t : TxnId) (state : TransactionState)
    (shared : IterationOrder (m.txns t).sharedLockSet)
    (exclusive : IterationOrder (m.txns t).exclusiveLockSet) :
    VisitsOnce (releaseLocks (m.setState t state) t shared.elems exclusive.elems) (m.txns t) ↔
      NothingToErase m t := by
  have hs : ((m.setState t state).txns t).sharedLockSet = (m.txns t).sharedLockSet := by
    simp [setState]
  have hx : ((m.setState t state).txns t).exclusiveLockSet = (m.txns t).exclusiveLockSet := by
    simp [setState]
  -- the same orders, of the sets after the state was set
  obtain ⟨shared', hshared⟩ : ∃ order : IterationOrder ((m.setState t state).txns t).sharedLockSet,
      order.elems = shared.elems := ⟨⟨_, shared.nodup, by rw [hs]; exact shared.mem_iff⟩, rfl⟩
  obtain ⟨exclusive', hexclusive⟩ :
      ∃ order : IterationOrder ((m.setState t state).txns t).exclusiveLockSet,
        order.elems = exclusive.elems :=
    ⟨⟨_, exclusive.nodup, by rw [hx]; exact exclusive.mem_iff⟩, rfl⟩
  have hiff := releaseLocks_visitsOnce_iff (m.setState t state) t shared' exclusive'
  rw [VisitsOnce, hshared, hexclusive, hs, hx] at hiff
  refine hiff.trans ⟨fun h => ⟨?_, ?_⟩, fun h => ⟨?_, ?_⟩⟩
  · simpa only [hs, hx] using h.disjoint
  · simpa only [hs, hx, own_setState] using h.noRequest
  · simpa only [hs, hx] using h.disjoint
  · simpa only [hs, hx, own_setState] using h.noRequest

/-- **`Commit` and `Abort` visit each held row once if and only if there is nothing to erase.** -/
theorem commit_abort_visitsOnce_iff (m : LockManager) (t : TxnId)
    (shared : IterationOrder (m.txns t).sharedLockSet)
    (exclusive : IterationOrder (m.txns t).exclusiveLockSet) :
    (VisitsOnce (commit m t shared.elems exclusive.elems) (m.txns t) ↔ NothingToErase m t) ∧
      (VisitsOnce (abort m t shared.elems exclusive.elems) (m.txns t) ↔ NothingToErase m t) :=
  ⟨setState_visitsOnce_iff m t .committed shared exclusive,
    setState_visitsOnce_iff m t .aborted shared exclusive⟩

/-! ## After lock calls -/

/-- Where lock sets and queues agree there is something to erase unless both sets are empty. -/
theorem nothingToErase_iff {w : Waiting} (h : Acct m w) (t : TxnId) :
    NothingToErase m t ↔ (m.txns t).sharedLockSet = ∅ ∧ (m.txns t).exclusiveLockSet = ∅ := by
  constructor
  · intro hnone
    have hfree : ∀ rid, rid ∉ (m.txns t).sharedLockSet ∪ (m.txns t).exclusiveLockSet := by
      intro rid hrid
      have haccount := h.account t rid
      rw [hnone.noRequest rid hrid] at haccount
      obtain ⟨hs, hx⟩ := haccount.sets_of_nil
      rw [hasRow_eq_false] at hs hx
      exact (Finset.mem_union.mp hrid).elim hs hx
    constructor
    · exact Finset.eq_empty_of_forall_notMem fun rid hs => hfree rid (Finset.mem_union_left _ hs)
    · exact Finset.eq_empty_of_forall_notMem fun rid hx => hfree rid (Finset.mem_union_right _ hx)
  · rintro ⟨hs, hx⟩
    refine ⟨by simp [hs], fun rid hrid => ?_⟩
    rw [hs, hx] at hrid
    exact absurd hrid (by simp)

/-- **After lock calls** the loops are right only without locks. -/
theorem visitsOnce_iff_empty {trace : List (LockAction × Option Bool)} {s : LockSystem}
    (hrun : LockRun SoundStep trace s) (t : TxnId) (state : TransactionState)
    (shared : IterationOrder (s.manager.txns t).sharedLockSet)
    (exclusive : IterationOrder (s.manager.txns t).exclusiveLockSet) :
    VisitsOnce (releaseLocks (s.manager.setState t state) t shared.elems exclusive.elems)
        (s.manager.txns t) ↔
      (s.manager.txns t).sharedLockSet = ∅ ∧ (s.manager.txns t).exclusiveLockSet = ∅ :=
  (setState_visitsOnce_iff s.manager t state shared exclusive).trans
    (nothingToErase_iff hrun.accounts.1 t)

/-! ## The loops and the step system -/

/-- The actions one after the other, with no others in between. -/
def stepAll (s : LockSystem) : List LockAction → Option LockSystem
  | [] => some s
  | a :: actions => (s.step a).bind fun r => stepAll r.2 actions

theorem stepAll_append {s s' : LockSystem} {front back : List LockAction}
    (h : stepAll s front = some s') : stepAll s (front ++ back) = stepAll s' back := by
  induction front generalizing s with
  | nil =>
    cases h
    rfl
  | cons a front ih =>
    obtain ⟨r, hr, hrest⟩ := Option.bind_eq_some_iff.mp h
    rw [List.cons_append, stepAll, hr, Option.bind_some]
    exact ih hrest

/-- The finisher of the thread, with this left of its snapshot. -/
def setFinisher (s : LockSystem) (thread : ThreadId) (shared exclusive : Finset RID)
    (t : TxnId) : LockSystem :=
  { s with finishers := Function.update s.finishers thread (some ⟨t, shared, exclusive⟩) }

/-- A row of the snapshot without requests is only taken off the snapshot. -/
theorem step_release_of_nil {s : LockSystem} {thread : ThreadId} {t : TxnId}
    {shared exclusive : Finset RID} {rid : RID} (hnil : s.manager.own t rid = []) :
    (rid ∈ shared → ((setFinisher s thread shared exclusive t).step (.release thread rid)).map
        (·.2) = some (setFinisher s thread (shared.erase rid) exclusive t)) ∧
      (shared = ∅ → rid ∈ exclusive →
        ((setFinisher s thread shared exclusive t).step (.release thread rid)).map (·.2) =
          some (setFinisher s thread shared (exclusive.erase rid) t)) := by
  have hsame : (s.manager.unlock t rid).2 = s.manager := unlockRow_eq hnil
  constructor
  · intro hmem
    simp [setFinisher, LockSystem.step, LockSystem.releaseRow, hmem, hsame]
  · rintro rfl hmem
    simp [setFinisher, LockSystem.step, LockSystem.releaseRow, hmem, hsame]

theorem stepAll_cons_of_map {s s' : LockSystem} {a : LockAction} {actions : List LockAction}
    (h : (s.step a).map (·.2) = some s') : stepAll s (a :: actions) = stepAll s' actions := by
  obtain ⟨r, hr, rfl⟩ := Option.map_eq_some_iff.mp h
  rw [stepAll, hr, Option.bind_some]

/-- The order of the set without its first element. -/
theorem mem_rows_iff_erase {set : Finset RID} {rid : RID} {rows : List RID}
    (hnodup : (rid :: rows).Nodup) (hmem : ∀ r, r ∈ rid :: rows ↔ r ∈ set) (r : RID) :
    r ∈ rows ↔ r ∈ set.erase rid := by
  have hnot := (List.nodup_cons.mp hnodup).1
  rw [Finset.mem_erase, ← hmem r, List.mem_cons]
  constructor
  · exact fun hr => ⟨fun heq => hnot (heq ▸ hr), .inr hr⟩
  · exact fun ⟨hne, hr⟩ => hr.resolve_left hne

/-- The rows of the first loop, by induction on them. -/
theorem stepAll_release_shared {s : LockSystem} {thread : ThreadId} {t : TxnId}
    {exclusive : Finset RID} {rows : List RID} :
    ∀ {shared : Finset RID}, rows.Nodup → (∀ r, r ∈ rows ↔ r ∈ shared) →
      (∀ r ∈ rows, s.manager.own t r = []) →
      stepAll (setFinisher s thread shared exclusive t) (rows.map (.release thread)) =
        some (setFinisher s thread ∅ exclusive t) := by
  induction rows with
  | nil =>
    intro shared _ hmem _
    obtain rfl : shared = ∅ := Finset.eq_empty_of_forall_notMem fun r hr => by
      simpa using (hmem r).mpr hr
    rfl
  | cons rid rows ih =>
    intro shared hnodup hmem hnil
    have hstep := (@step_release_of_nil _ thread _ _ exclusive _ (hnil rid List.mem_cons_self)).1
      ((hmem rid).mp List.mem_cons_self)
    rw [List.map_cons, stepAll_cons_of_map hstep]
    exact ih (List.nodup_cons.mp hnodup).2 (mem_rows_iff_erase hnodup hmem)
      fun r hr => hnil r (List.mem_cons_of_mem _ hr)

/-- The rows of the second loop. -/
theorem stepAll_release_exclusive {s : LockSystem} {thread : ThreadId} {t : TxnId}
    {rows : List RID} :
    ∀ {exclusive : Finset RID}, rows.Nodup → (∀ r, r ∈ rows ↔ r ∈ exclusive) →
      (∀ r ∈ rows, s.manager.own t r = []) →
      stepAll (setFinisher s thread ∅ exclusive t) (rows.map (.release thread)) =
        some (setFinisher s thread ∅ ∅ t) := by
  induction rows with
  | nil =>
    intro exclusive _ hmem _
    obtain rfl : exclusive = ∅ := Finset.eq_empty_of_forall_notMem fun r hr => by
      simpa using (hmem r).mpr hr
    rfl
  | cons rid rows ih =>
    intro exclusive hnodup hmem hnil
    have hstep := (@step_release_of_nil _ thread _ _ _ _ (hnil rid List.mem_cons_self)).2 rfl
      ((hmem rid).mp List.mem_cons_self)
    rw [List.map_cons, stepAll_cons_of_map hstep]
    exact ih (List.nodup_cons.mp hnodup).2 (mem_rows_iff_erase hnodup hmem)
      fun r hr => hnil r (List.mem_cons_of_mem _ hr)

/-- **Loops that return** do what the steps do that unlock the rows of the snapshot. -/
theorem stepAll_releaseLocks {s : LockSystem} {thread : ThreadId} {t : TxnId}
    (hthread : s.finishers thread = none)
    (shared : IterationOrder (s.manager.txns t).sharedLockSet)
    (exclusive : IterationOrder (s.manager.txns t).exclusiveLockSet) {fuel : Nat}
    {visited : List RID} {m' : LockManager}
    (h : releaseLocks s.manager t shared.elems exclusive.elems fuel =
      some (visited, .returned m')) :
    stepAll (setFinisher s thread (s.manager.txns t).sharedLockSet
        (s.manager.txns t).exclusiveLockSet t) (visited.map (.release thread) ++
          [.finish thread t]) = some { s with manager := m' } := by
  rw [releaseLocks] at h
  split at h
  · rename_i visited₁ m₁ hshared
    obtain ⟨hnil, rfl, rfl⟩ := forEach_unlockRow (·.sharedLockSet) (fun _ _ => rfl)
      Finset.subset_union_left shared hshared
    split at h
    · rename_i visited₂ m₂ hexclusive
      obtain ⟨hnil', rfl, rfl⟩ := forEach_unlockRow (·.exclusiveLockSet) (fun _ _ => rfl)
        Finset.subset_union_right exclusive hexclusive
      obtain ⟨rfl, hend⟩ := Prod.mk.inj (Option.some.inj h)
      obtain rfl := LoopEnd.returned.inj hend
      have hfirst := @stepAll_release_shared s thread t (s.manager.txns t).exclusiveLockSet _ _
        shared.nodup shared.mem_iff fun r hr => hnil r ((shared.mem_iff r).mp hr)
      have hsecond := @stepAll_release_exclusive s thread t _ _ exclusive.nodup
        exclusive.mem_iff fun r hr => hnil' r ((exclusive.mem_iff r).mp hr)
      rw [List.map_append, List.append_assoc, stepAll_append hfirst, stepAll_append hsecond]
      -- the entry of the thread is gone again
      have hback : Function.update s.finishers thread none = s.finishers := by
        rw [← hthread, Function.update_eq_self]
      simp [stepAll, setFinisher, LockSystem.step, hback]
    · cases h
    · cases h
  · cases h
  · cases h

/-- The same after the state was set, which leaves the lock sets as they are. -/
theorem stepAll_begun {s : LockSystem} {thread : ThreadId} {t : TxnId} (state : TransactionState)
    (hthread : s.finishers thread = none)
    (shared : IterationOrder (s.manager.txns t).sharedLockSet)
    (exclusive : IterationOrder (s.manager.txns t).exclusiveLockSet) {fuel : Nat}
    {visited : List RID} {m' : LockManager}
    (h : releaseLocks (s.manager.setState t state) t shared.elems exclusive.elems fuel =
      some (visited, .returned m')) :
    stepAll (s.beginFinish thread t state) (visited.map (.release thread) ++
      [.finish thread t]) = some { s with manager := m' } := by
  have hs : ((s.manager.setState t state).txns t).sharedLockSet =
      (s.manager.txns t).sharedLockSet := by simp [setState]
  have hx : ((s.manager.setState t state).txns t).exclusiveLockSet =
      (s.manager.txns t).exclusiveLockSet := by simp [setState]
  have hall := @stepAll_releaseLocks { s with manager := s.manager.setState t state } thread t
    hthread ⟨shared.elems, shared.nodup, by rw [hs]; exact shared.mem_iff⟩
    ⟨exclusive.elems, exclusive.nodup, by rw [hx]; exact exclusive.mem_iff⟩ _ _ _ h
  rw [hs, hx] at hall
  exact hall

/-- **`Commit` and `Abort` in the step system**: where the loops return, the action and the
unlocking of the rows that they visited lead to the state that they lead to. -/
theorem stepAll_commit_abort {s : LockSystem} {thread : ThreadId} {t : TxnId}
    (hthread : s.finishers thread = none)
    (shared : IterationOrder (s.manager.txns t).sharedLockSet)
    (exclusive : IterationOrder (s.manager.txns t).exclusiveLockSet) {fuel : Nat}
    {visited : List RID} {m' : LockManager} :
    (commit s.manager t shared.elems exclusive.elems fuel = some (visited, .returned m') →
        stepAll s (.commit thread t :: (visited.map (.release thread) ++ [.finish thread t])) =
          some { s with manager := m' }) ∧
      (abort s.manager t shared.elems exclusive.elems fuel = some (visited, .returned m') →
        stepAll s (.abort thread t :: (visited.map (.release thread) ++ [.finish thread t])) =
          some { s with manager := m' }) := by
  constructor
  · intro h
    have hbegin : (s.step (.commit thread t)).map (·.2) =
        some (s.beginFinish thread t .committed) := by simp [LockSystem.step, hthread]
    rw [stepAll_cons_of_map hbegin]
    exact stepAll_begun .committed hthread shared exclusive h
  · intro h
    have hbegin : (s.step (.abort thread t)).map (·.2) =
        some (s.beginFinish thread t .aborted) := by simp [LockSystem.step, hthread]
    rw [stepAll_cons_of_map hbegin]
    exact stepAll_begun .aborted hthread shared exclusive h

/-- A shared lock and a commit: the iterator of the first loop is to an erased element. -/
theorem commit_invalidated : ∃ (s : LockSystem)
    (shared : IterationOrder (s.manager.txns 0).sharedLockSet)
    (exclusive : IterationOrder (s.manager.txns 0).exclusiveLockSet),
    LockRun (fun _ _ => True) [(.lock .shared 0 {}, some true)] s ∧
    commit s.manager 0 shared.elems exclusive.elems 1 = some ([{}], .invalidated) ∧
    ¬ VisitsOnce (commit s.manager 0 shared.elems exclusive.elems) (s.manager.txns 0) := by
  have hrun : LockRun (fun _ _ => True) _ _ := .step (a := .lock .shared 0 {}) .init trivial rfl
  refine ⟨_, ⟨[{}], List.nodup_singleton _, ?_⟩, ⟨[], List.nodup_nil, ?_⟩, hrun, rfl, fun h => ?_⟩
  · intro rid
    rw [List.mem_singleton]
    exact Finset.mem_singleton.symm
  · intro rid
    exact iff_of_false List.not_mem_nil (Finset.notMem_empty rid)
  · have hnone := (setState_visitsOnce_iff _ _ _ ⟨_, _, _⟩ ⟨_, _, _⟩).mp h
    have hown := hnone.noRequest {} (by decide)
    exact absurd hown (by decide)

end TransactionManager

end OneBase
