import Mathlib.Data.Finset.Basic
import OneBase.Concurrency.LockManager

/-!
# Transactions, waiting calls and commits as one step system

`LockSystem` is the lock manager together with the calls that are suspended in
their waits and the `Commit` and `Abort` calls that are under way
(`concurrency/transaction_manager.cpp`). A transaction runs one call at a time;
other threads may mark it aborted, or commit or abort it, at any moment.
`Commit` and `Abort` set the state, unlock the rows that were in the two lock sets
one by one (each `Unlock` takes `latch_` for itself) and clear the sets at the end.
The rows are taken from a snapshot here; the loops over the sets themselves are in
`TransactionManager`.

- `LockSystem.step`: one action; `LockRun ok`: the runs whose steps satisfy `ok`.
- `step_lock` to `step_finish`: what the action of each kind does.
- `own_*`: what the operations do to the requests of one transaction.
- `enter_wait`, `tail_granted`, `tail_aborted`, `unlock_cases`: what a method can do.
- `LockRun.closed`: a property that every operation keeps holds along every run.
-/

namespace OneBase

open Cpp

/-- A `Commit` or `Abort` under way: what is left of its snapshot. -/
structure Finisher where
  txn : TxnId
  shared : Finset RID
  exclusive : Finset RID
  deriving DecidableEq

/-- The threads that run `Commit` and `Abort`. -/
abbrev ThreadId := Nat

/-- The calls that are suspended, by transaction. -/
abbrev Waiting := TxnId → Option (LockCall × RID)

/-- The lock manager, the suspended calls and the finishers. -/
structure LockSystem where
  manager : LockManager := {}
  suspended : Waiting := fun _ => none
  finishers : ThreadId → Option Finisher := fun _ => none

/-- The actions of the system. -/
inductive LockAction where
  /-- The transaction calls a lock method. -/
  | lock (call : LockCall) (t : TxnId) (rid : RID)
  /-- The suspended call of the transaction goes on. -/
  | resume (t : TxnId)
  /-- The transaction calls `Unlock`. -/
  | unlock (t : TxnId) (rid : RID)
  /-- Somebody sets the transaction's state to `ABORTED`. -/
  | markAborted (t : TxnId)
  /-- A thread calls `Commit`. -/
  | commit (thread : ThreadId) (t : TxnId)
  /-- A thread calls `Abort`. -/
  | abort (thread : ThreadId) (t : TxnId)
  /-- A thread inside `Commit` or `Abort` unlocks one row of its snapshot. -/
  | release (thread : ThreadId) (rid : RID)
  /-- A thread inside `Commit` or `Abort` of `t` clears the lock sets and returns. -/
  | finish (thread : ThreadId) (t : TxnId)
  deriving DecidableEq

namespace LockManager

/-- The end of `Commit` and `Abort`. -/
def clearSets (m : LockManager) (t : TxnId) : LockManager :=
  m.modifyTxn t fun txn => { txn with sharedLockSet := ∅, exclusiveLockSet := ∅ }

end LockManager

namespace LockSystem

/-- A suspended call runs to its end. -/
def resume (s : LockSystem) (call : LockCall) (t : TxnId) (rid : RID) :
    Option Bool × LockSystem :=
  let (result, m) := s.manager.tail call t rid
  (some result, { s with manager := m, suspended := Function.update s.suspended t none })

/-- The start of `Commit` and `Abort`: the new state and the snapshot. -/
def beginFinish (s : LockSystem) (thread : ThreadId) (t : TxnId) (state : TransactionState) :
    LockSystem :=
  let txn := s.manager.txns t
  { s with
    manager := s.manager.setState t state
    finishers := Function.update s.finishers thread
      (some ⟨t, txn.sharedLockSet, txn.exclusiveLockSet⟩) }

/-- One `Unlock` of `Commit` and `Abort`. -/
def releaseRow (s : LockSystem) (thread : ThreadId) (fin : Finisher) (t : TxnId) (rid : RID) :
    Option Bool × LockSystem :=
  let (result, m) := s.manager.unlock t rid
  (some result, { s with
    manager := m, finishers := Function.update s.finishers thread (some fin) })

/-- One action, with the result of the method that returned, if one did. No
value: the action is not possible in this state. -/
def step (s : LockSystem) : LockAction → Option (Option Bool × LockSystem)
  | .lock call t rid =>
    if s.suspended t = none then
      match s.manager.enter call t rid with
      | (some result, m) => some (some result, { s with manager := m })
      | (none, m) =>
        let s := { s with
          manager := m, suspended := Function.update s.suspended t (some (call, rid)) }
        -- `cv_.wait` does not suspend when its predicate holds already
        if m.ready call t rid then some (s.resume call t rid) else some (none, s)
    else none
  | .resume t =>
    match s.suspended t with
    | some (call, rid) =>
      if s.manager.ready call t rid then some (s.resume call t rid) else none
    | none => none
  | .unlock t rid =>
    if s.suspended t = none then
      let (result, m) := s.manager.unlock t rid
      some (some result, { s with manager := m })
    else none
  | .markAborted t => some (none, { s with manager := s.manager.setState t .aborted })
  | .commit thread t =>
    if s.finishers thread = none then some (none, s.beginFinish thread t .committed) else none
  | .abort thread t =>
    if s.finishers thread = none then some (none, s.beginFinish thread t .aborted) else none
  | .release thread rid =>
    match s.finishers thread with
    | some fin =>
      if rid ∈ fin.shared then
        some (s.releaseRow thread { fin with shared := fin.shared.erase rid } fin.txn rid)
      else if fin.shared = ∅ ∧ rid ∈ fin.exclusive then
        some (s.releaseRow thread { fin with exclusive := fin.exclusive.erase rid } fin.txn rid)
      else none
    | none => none
  | .finish thread t =>
    if s.finishers thread = some ⟨t, ∅, ∅⟩ then
      some (none, { s with
        manager := s.manager.clearSets t
        finishers := Function.update s.finishers thread none })
    else none

/-! ## What a step can do -/

section Step

variable {s s' : LockSystem} {result : Option Bool} {call : LockCall} {t : TxnId} {rid : RID}
  {thread : ThreadId}

/-- A lock call returns before its wait, or passes its wait at once, or is suspended. -/
theorem step_lock (h : s.step (.lock call t rid) = some (result, s')) :
    s.suspended t = none ∧
      ((∃ b m, s.manager.enter call t rid = (some b, m) ∧ result = some b ∧
          s' = { s with manager := m }) ∨
        ∃ m waiting, s.manager.enter call t rid = (none, m) ∧
          waiting = { s with
            manager := m, suspended := Function.update s.suspended t (some (call, rid)) } ∧
          (m.ready call t rid = true ∧ (result, s') = waiting.resume call t rid ∨
            m.ready call t rid = false ∧ result = none ∧ s' = waiting)) := by
  simp only [step] at h
  split at h
  · rename_i hidle
    refine ⟨hidle, ?_⟩
    split at h
    · rename_i b m henter
      obtain ⟨rfl, rfl⟩ := Prod.mk.inj (Option.some.inj h)
      exact .inl ⟨b, m, henter, rfl, rfl⟩
    · rename_i m henter
      refine .inr ⟨m, _, henter, rfl, ?_⟩
      split at h
      · rename_i hready
        exact .inl ⟨hready, (Option.some.inj h).symm⟩
      · rename_i hready
        obtain ⟨rfl, rfl⟩ := Prod.mk.inj (Option.some.inj h)
        exact .inr ⟨Bool.not_eq_true _ ▸ hready, rfl, rfl⟩
  · cases h

theorem step_resume (h : s.step (.resume t) = some (result, s')) :
    ∃ call rid, s.suspended t = some (call, rid) ∧ s.manager.ready call t rid = true ∧
      (result, s') = s.resume call t rid := by
  simp only [step] at h
  split at h
  · rename_i call rid hsusp
    split at h
    · rename_i hready
      exact ⟨call, rid, hsusp, hready, (Option.some.inj h).symm⟩
    · cases h
  · cases h

theorem step_unlock (h : s.step (.unlock t rid) = some (result, s')) :
    s.suspended t = none ∧ result = some (s.manager.unlock t rid).1 ∧
      s' = { s with manager := (s.manager.unlock t rid).2 } := by
  simp only [step] at h
  split at h
  · rename_i hidle
    obtain ⟨rfl, rfl⟩ := Prod.mk.inj (Option.some.inj h)
    exact ⟨hidle, rfl, rfl⟩
  · cases h

theorem step_commit (h : s.step (.commit thread t) = some (result, s')) :
    s' = s.beginFinish thread t .committed := by
  simp only [step] at h
  split at h
  · exact (Prod.mk.inj (Option.some.inj h)).2.symm
  · cases h

theorem step_abort (h : s.step (.abort thread t) = some (result, s')) :
    s' = s.beginFinish thread t .aborted := by
  simp only [step] at h
  split at h
  · exact (Prod.mk.inj (Option.some.inj h)).2.symm
  · cases h

/-- `Commit` and `Abort` unlock one row of what is left of the snapshot. -/
theorem step_release (h : s.step (.release thread rid) = some (result, s')) :
    ∃ fin left, s.finishers thread = some fin ∧ left.txn = fin.txn ∧
      (∀ r ∈ fin.shared ∪ fin.exclusive, r ≠ rid → r ∈ left.shared ∪ left.exclusive) ∧
      (result, s') = s.releaseRow thread left fin.txn rid := by
  simp only [step] at h
  split at h
  · rename_i fin hfin
    split at h
    · refine ⟨fin, { fin with shared := fin.shared.erase rid }, hfin, rfl, fun r hr hne => ?_,
        (Option.some.inj h).symm⟩
      simpa [hne] using hr
    · split at h
      · refine ⟨fin, { fin with exclusive := fin.exclusive.erase rid }, hfin, rfl,
          fun r hr hne => ?_, (Option.some.inj h).symm⟩
        simpa [hne] using hr
      · cases h
  · cases h

theorem step_finish (h : s.step (.finish thread t) = some (result, s')) :
    s.finishers thread = some ⟨t, ∅, ∅⟩ ∧ s' = { s with
      manager := s.manager.clearSets t
      finishers := Function.update s.finishers thread none } := by
  simp only [step] at h
  split at h
  · rename_i hfin
    exact ⟨hfin, (Prod.mk.inj (Option.some.inj h)).2.symm⟩
  · cases h

end Step

end LockSystem

/-- The runs whose steps all satisfy `ok`, with what was done and returned. -/
inductive LockRun (ok : LockSystem → LockAction → Prop) :
    List (LockAction × Option Bool) → LockSystem → Prop where
  | init : LockRun ok [] {}
  | step {trace : List (LockAction × Option Bool)} {s s' : LockSystem} {a : LockAction}
      {result : Option Bool} :
      LockRun ok trace s → ok s a → s.step a = some (result, s') →
      LockRun ok (trace ++ [(a, result)]) s'

namespace LockManager

/-! ## The requests of one transaction -/

section Own

variable (m : LockManager) (t t' : TxnId) (rid r : RID)

@[simp] theorem own_modifyTxn (u : Transaction → Transaction) :
    (m.modifyTxn t u).own t' r = m.own t' r := rfl

@[simp] theorem own_setState (state : TransactionState) :
    (m.setState t state).own t' r = m.own t' r := rfl

@[simp] theorem own_setUpgrading (b : Bool) : (m.setUpgrading rid b).own t r = m.own t r := by
  by_cases h : r = rid
  · subst h
    simp [own, setUpgrading]
  · simp [own, setUpgrading, h]

theorem own_modifyQueue_ne (u : List LockRequest → List LockRequest) (h : r ≠ rid) :
    (m.modifyQueue rid u).own t r = m.own t r := by
  simp [own, modifyQueue, h]

theorem own_modifyQueue_self (u : List LockRequest → List LockRequest) :
    (m.modifyQueue rid u).own t rid =
      (u (m.lockTable rid).requestQueue).filter fun req => req.txnId = t := by
  simp [own, modifyQueue]

@[simp] theorem txns_modifyQueue (u : List LockRequest → List LockRequest) :
    (m.modifyQueue rid u).txns = m.txns := rfl

@[simp] theorem txns_setUpgrading (b : Bool) : (m.setUpgrading rid b).txns = m.txns := rfl

@[simp] theorem txns_modifyTxn_self (u : Transaction → Transaction) :
    (m.modifyTxn t u).txns t = u (m.txns t) := Function.update_self ..

theorem txns_modifyTxn_ne (u : Transaction → Transaction) {t t' : TxnId} (h : t' ≠ t) :
    (m.modifyTxn t u).txns t' = m.txns t' := Function.update_of_ne h ..

@[simp] theorem upgrading_modifyQueue (u : List LockRequest → List LockRequest) :
    ((m.modifyQueue rid u).lockTable r).upgrading = (m.lockTable r).upgrading := by
  by_cases h : r = rid
  · subst h
    simp [modifyQueue]
  · simp [modifyQueue, h]

@[simp] theorem upgrading_modifyTxn (u : Transaction → Transaction) :
    ((m.modifyTxn t u).lockTable r).upgrading = (m.lockTable r).upgrading := rfl

@[simp] theorem upgrading_setState (state : TransactionState) :
    ((m.setState t state).lockTable r).upgrading = (m.lockTable r).upgrading := rfl

theorem upgrading_setUpgrading (b : Bool) :
    ((m.setUpgrading rid b).lockTable r).upgrading =
      if r = rid then b else (m.lockTable r).upgrading := by
  by_cases h : r = rid
  · subst h
    simp [setUpgrading]
  · simp [setUpgrading, h]

theorem mem_own {req : LockRequest} :
    req ∈ m.own t rid ↔ req ∈ (m.lockTable rid).requestQueue ∧ req.txnId = t := by
  simp [own]

theorem own_eq_nil_iff :
    m.own t rid = [] ↔ ∀ req ∈ (m.lockTable rid).requestQueue, req.txnId ≠ t := by
  simp [own, List.filter_eq_nil_iff]

end Own

/-- In `m'` the requests of `t` for `rid` are `l`; all other requests, of `t` for
other rows and of other transactions, are those of `m`. -/
structure Rewrites (m m' : LockManager) (t : TxnId) (rid : RID) (l : List LockRequest) :
    Prop where
  self : m'.own t rid = l
  rows : ∀ r, r ≠ rid → m'.own t r = m.own t r
  others : ∀ t', t' ≠ t → ∀ r, m'.own t' r = m.own t' r

/-- A queue update that acts on the requests of `t` alone. -/
theorem rewrites_modifyQueue (m : LockManager) {t : TxnId} {rid : RID}
    {u : List LockRequest → List LockRequest} {l : List LockRequest}
    (hself : (u (m.lockTable rid).requestQueue).filter (fun req => req.txnId = t) = l)
    (hothers : ∀ t', t' ≠ t → (u (m.lockTable rid).requestQueue).filter
      (fun req => req.txnId = t') = m.own t' rid) :
    Rewrites m (m.modifyQueue rid u) t rid l where
  self := (m.own_modifyQueue_self t rid u).trans hself
  rows := fun r hr => m.own_modifyQueue_ne t rid r u hr
  others := by
    intro t' ht r
    by_cases hr : r = rid
    · subst hr
      exact (m.own_modifyQueue_self t' r u).trans (hothers t' ht)
    · exact m.own_modifyQueue_ne t' rid r u hr

section RewritesOps

variable (m : LockManager) (t : TxnId) (rid : RID)

theorem rewrites_push (mode : LockMode) :
    Rewrites m (m.modifyQueue rid (· ++ [{ txnId := t, lockMode := mode }])) t rid
      (m.own t rid ++ [{ txnId := t, lockMode := mode }]) := by
  refine m.rewrites_modifyQueue ?_ fun t' ht => ?_
  · simp [own]
  · simp [own, Ne.symm ht]

theorem rewrites_modifyFirst {p : LockRequest → Bool} {f : LockRequest → LockRequest}
    (hp : ∀ req, p req = true → req.txnId = t) (hf : ∀ req, (f req).txnId = req.txnId) :
    Rewrites m (m.modifyQueue rid (modifyFirst p f)) t rid (modifyFirst p f (m.own t rid)) := by
  refine m.rewrites_modifyQueue ?_ fun t' ht => ?_
  · refine filter_modifyFirst_of_imp (fun req hreq => ?_) _
    simp [hf, hp req hreq]
  · refine filter_modifyFirst_of_disjoint (fun req hreq => ?_) _
    simp [hf, hp req hreq, Ne.symm ht]

theorem rewrites_filter {p : LockRequest → Bool}
    (hp : ∀ req, req.txnId ≠ t → p req = true) :
    Rewrites m (m.modifyQueue rid fun l => l.filter p) t rid ((m.own t rid).filter p) := by
  refine m.rewrites_modifyQueue ?_ fun t' ht => ?_
  · simp [own, Bool.and_comm]
  · rw [List.filter_filter, own]
    refine List.filter_congr fun req _ => ?_
    by_cases hreq : req.txnId = t'
    · simp [hreq, hp req (hreq ▸ ht)]
    · simp [hreq]

theorem rewrites_eraseP :
    Rewrites m (m.modifyQueue rid (·.eraseP fun req => req.txnId = t)) t rid
      (m.own t rid).tail := by
  refine m.rewrites_modifyQueue ?_ fun t' ht => ?_
  · rw [filter_eraseP_of_imp fun req hreq => hreq]
    show (m.own t rid).eraseP _ = _
    cases hl : m.own t rid with
    | nil => rfl
    | cons req l =>
      have hreq : req.txnId = t := ((m.mem_own t rid).mp (hl ▸ List.mem_cons_self)).2
      simp [hreq]
  · refine filter_eraseP_of_disjoint (fun req hreq => ?_) _
    simp only [decide_eq_true_eq] at hreq
    simp [hreq, Ne.symm ht]

end RewritesOps

/-- Changes to records and flags do not matter to `Rewrites`. -/
theorem Rewrites.of_own_eq {m m' n n' : LockManager} {t : TxnId} {rid : RID}
    {l : List LockRequest} (h : Rewrites m m' t rid l) (hn : ∀ t r, n.own t r = m.own t r)
    (hn' : ∀ t r, n'.own t r = m'.own t r) : Rewrites n n' t rid l where
  self := (hn' t rid).trans h.self
  rows := fun r hr => by rw [hn', hn, h.rows r hr]
  others := fun t' ht r => by rw [hn', hn, h.others t' ht r]

/-! ## What a method can do -/

/-- The transaction may lock, as far as the lock methods check. -/
def MayLock (m : LockManager) (t : TxnId) : Prop :=
  (m.txns t).state = .growing ∨ (m.txns t).state = .committed

theorem refused_eq_none_iff (m : LockManager) (t : TxnId) : m.refused t = none ↔ m.MayLock t := by
  unfold refused MayLock
  cases (m.txns t).state <;> simp

theorem refused_eq_some {m m' : LockManager} {t : TxnId} (h : m.refused t = some m') :
    m' = m.setState t .aborted := by
  unfold refused at h
  split at h
  · exact (Option.some.inj h).symm
  · rename_i hstate
    rw [← Option.some.inj h]
    -- setting the state it already has
    have hsame : { m.txns t with state := .aborted } = m.txns t := by rw [← hstate]
    simp [setState, modifyTxn, hsame]
  all_goals cases h

theorem setUpgrading_eq_self {m : LockManager} {rid : RID} {b : Bool}
    (h : (m.lockTable rid).upgrading = b) : m.setUpgrading rid b = m := by
  have hsame : { m.lockTable rid with upgrading := b } = m.lockTable rid := by rw [← h]
  simp [setUpgrading, hsame]

/-- A lock method that returns before its wait changed nothing, or refused and
left the transaction aborted. -/
theorem enter_returned {m m' : LockManager} {call : LockCall} {t : TxnId} {rid : RID}
    {result : Bool} (h : m.enter call t rid = (some result, m')) :
    (m' = m ∧ result = true ∧ m.MayLock t ∧ call ≠ .upgrade) ∨
      (m' = m.setState t .aborted ∧ result = false) := by
  cases hr : m.refused t with
  | some m₁ =>
    refine .inr ?_
    cases call <;>
    · simp only [enter, lockShared, lockExclusive, request, lockUpgrade, hr, Prod.mk.injEq,
        Option.some.injEq] at h
      exact ⟨h.2 ▸ refused_eq_some hr, h.1.symm⟩
  | none =>
    have hmay := (m.refused_eq_none_iff t).mp hr
    cases call with
    | shared | exclusive =>
      simp only [enter, lockShared, lockExclusive, request, hr] at h
      split at h
      · simp only [Prod.mk.injEq, Option.some.injEq] at h
        exact .inl ⟨h.2.symm, h.1.symm, hmay, by simp⟩
      · simp at h
    | upgrade =>
      simp only [enter, lockUpgrade, hr] at h
      split at h
      · simp only [Prod.mk.injEq, Option.some.injEq] at h
        exact .inr ⟨h.2.symm, h.1.symm⟩
      · rename_i hflag
        split at h
        · simp at h
        · simp only [Prod.mk.injEq, Option.some.injEq] at h
          rw [setUpgrading_eq_self (Bool.eq_false_iff.mpr hflag)] at h
          exact .inr ⟨h.2.symm, h.1.symm⟩

/-- The mode a waiting call asks for; `LockUpgrade` asks by changing its request. -/
def pushed (t : TxnId) (l : List LockRequest) : LockCall → List LockRequest
  | .shared => l ++ [{ txnId := t, lockMode := .shared }]
  | .exclusive => l ++ [{ txnId := t, lockMode := .exclusive }]
  | .upgrade => modifyFirst (isShared t) LockRequest.makeExclusive l

/-- What a lock method has checked when it reaches its wait. -/
def Entered (m : LockManager) (call : LockCall) (t : TxnId) (rid : RID) : Prop :=
  match call with
  | .shared => rid ∉ (m.txns t).sharedLockSet ∧ rid ∉ (m.txns t).exclusiveLockSet
  | .exclusive => rid ∉ (m.txns t).exclusiveLockSet
  | .upgrade => (m.lockTable rid).upgrading = false ∧ ∃ req ∈ m.own t rid, isShared t req = true

/-- **A lock method at its wait**: the checks it passed, and its request. -/
theorem enter_wait {m m' : LockManager} {call : LockCall} {t : TxnId} {rid : RID}
    (h : m.enter call t rid = (none, m')) :
    m.MayLock t ∧ m.Entered call t rid ∧ m'.txns = m.txns ∧
      Rewrites m m' t rid (pushed t (m.own t rid) call) ∧
      ∀ r, (m'.lockTable r).upgrading =
        if call = .upgrade ∧ r = rid then true else (m.lockTable r).upgrading := by
  cases hr : m.refused t with
  | some m₁ => cases call <;> simp [enter, lockShared, lockExclusive, request, lockUpgrade, hr] at h
  | none =>
    refine ⟨(m.refused_eq_none_iff t).mp hr, ?_⟩
    cases call with
    | shared | exclusive =>
      simp only [enter, lockShared, lockExclusive, request, hr] at h
      split at h
      · simp at h
      · rename_i hheld
        simp only [Prod.mk.injEq, true_and] at h
        subst h
        refine ⟨by simpa [Entered] using hheld, rfl, m.rewrites_push t rid _, fun r => ?_⟩
        simp
    | upgrade =>
      simp only [enter, lockUpgrade, hr] at h
      split at h
      · simp at h
      · rename_i hflag
        split at h
        · rename_i hany
          simp only [Prod.mk.injEq, true_and] at h
          subst h
          obtain ⟨req, hreq, hshared⟩ := List.any_eq_true.mp hany
          have htxn : ∀ req, isShared t req = true → req.txnId = t := by
            intro req hreq
            simp only [isShared, Bool.and_eq_true, decide_eq_true_eq] at hreq
            exact hreq.1
          refine ⟨⟨Bool.eq_false_iff.mpr hflag, req,
            (m.mem_own t rid).mpr ⟨hreq, htxn req hshared⟩, hshared⟩, rfl, ?_, fun r => ?_⟩
          · have hrw := (m.setUpgrading rid true).rewrites_modifyFirst t rid
              (f := LockRequest.makeExclusive) htxn fun _ => rfl
            rw [own_setUpgrading] at hrw
            exact hrw.of_own_eq (fun t r => (m.own_setUpgrading t rid r true).symm) fun _ _ => rfl
          · simp [upgrading_setUpgrading]
        · simp at h

/-- The requests of `t` after a call was granted. -/
def settled (t : TxnId) (l : List LockRequest) : LockCall → List LockRequest
  | .shared =>
    modifyFirst (fun req => req.txnId = t && req.lockMode = .shared) LockRequest.grant l
  | .exclusive =>
    modifyFirst (fun req => req.txnId = t && req.lockMode = .exclusive) LockRequest.grant l
  | .upgrade => modifyFirst (fun req => req.txnId = t) LockRequest.grant l

/-- The lock sets after a call was granted. -/
def settledTxn (txn : Transaction) (rid : RID) : LockCall → Transaction
  | .shared => txn.insertLock rid .shared
  | .exclusive => txn.insertLock rid .exclusive
  | .upgrade => { txn with
      sharedLockSet := txn.sharedLockSet.erase rid
      exclusiveLockSet := insert rid txn.exclusiveLockSet }

/-- **A call that was granted.** -/
theorem tail_granted (m : LockManager) (call : LockCall) (t : TxnId) (rid : RID)
    (hstate : (m.txns t).state ≠ .aborted) :
    (m.tail call t rid).1 = true ∧
      (m.tail call t rid).2.txns =
        Function.update m.txns t (settledTxn (m.txns t) rid call) ∧
      Rewrites m (m.tail call t rid).2 t rid (settled t (m.own t rid) call) ∧
      ∀ r, ((m.tail call t rid).2.lockTable r).upgrading =
        if call = .upgrade ∧ r = rid then false else (m.lockTable r).upgrading := by
  cases call with
  | shared | exclusive =>
    simp only [tail, lockSharedTail, lockExclusiveTail, requestTail, hstate, if_false]
    refine ⟨trivial, rfl, ?_, fun r => ?_⟩
    · refine (m.rewrites_modifyFirst t rid (f := LockRequest.grant) (fun req hreq => ?_)
        fun _ => rfl).of_own_eq (fun _ _ => rfl) fun _ _ => own_modifyTxn _ _ _ _ _
      simp only [Bool.and_eq_true, decide_eq_true_eq] at hreq
      exact hreq.1
    · simp
  | upgrade =>
    simp only [tail, lockUpgradeTail, txns_setUpgrading, hstate, if_false]
    refine ⟨trivial, rfl, ?_, fun r => ?_⟩
    · have hrw := (m.setUpgrading rid false).rewrites_modifyFirst t rid
        (p := fun req => req.txnId = t) (f := LockRequest.grant)
        (fun req hreq => by simpa using hreq) fun _ => rfl
      rw [own_setUpgrading] at hrw
      exact hrw.of_own_eq (fun t r => (m.own_setUpgrading t rid r false).symm)
        fun _ _ => own_modifyTxn _ _ _ _ _
    · simp [upgrading_setUpgrading]

/-- The requests of `t` after a call gave up because `t` was aborted. -/
def dropped (l : List LockRequest) : LockCall → List LockRequest
  | .shared | .exclusive => l.filter (·.granted)
  | .upgrade => []

/-- **A call that gives up** because its transaction was aborted. -/
theorem tail_aborted (m : LockManager) (call : LockCall) (t : TxnId) (rid : RID)
    (hstate : (m.txns t).state = .aborted) :
    (m.tail call t rid).1 = false ∧ (m.tail call t rid).2.txns = m.txns ∧
      Rewrites m (m.tail call t rid).2 t rid (dropped (m.own t rid) call) ∧
      ∀ r, ((m.tail call t rid).2.lockTable r).upgrading =
        if call = .upgrade ∧ r = rid then false else (m.lockTable r).upgrading := by
  cases call with
  | shared | exclusive =>
    simp only [tail, lockSharedTail, lockExclusiveTail, requestTail, hstate, if_true]
    refine ⟨trivial, rfl, ?_, fun r => ?_⟩
    · have hdrop : dropped (m.own t rid) .shared =
          (m.own t rid).filter fun req => !(req.txnId = t && !req.granted) := by
        refine List.filter_congr fun req hreq => ?_
        simp [((m.mem_own t rid).mp hreq).2]
      show Rewrites m _ t rid (dropped (m.own t rid) .shared)
      rw [hdrop]
      exact m.rewrites_filter t rid fun req hreq => by simp [hreq]
    · simp
  | upgrade =>
    simp only [tail, lockUpgradeTail, txns_setUpgrading, hstate, if_true]
    refine ⟨trivial, rfl, ?_, fun r => ?_⟩
    · have hrw := (m.setUpgrading rid false).rewrites_filter t rid
        (p := fun req => !decide (req.txnId = t)) fun req hreq => by simp [hreq]
      have hnil : ((m.setUpgrading rid false).own t rid).filter
          (fun req => !decide (req.txnId = t)) = [] := by
        rw [List.filter_eq_nil_iff]
        intro req hreq
        simp [((mem_own _ t rid).mp hreq).2]
      rw [hnil] at hrw
      exact hrw.of_own_eq (fun t r => (m.own_setUpgrading t rid r false).symm) fun _ _ => rfl
    · simp [upgrading_setUpgrading]

/-- The record of `t` after a successful `Unlock`. -/
def unlockedTxn (txn : Transaction) (rid : RID) : Transaction where
  state := if txn.state = .growing then .shrinking else txn.state
  sharedLockSet := txn.sharedLockSet.erase rid
  exclusiveLockSet := txn.exclusiveLockSet.erase rid

/-- **Unlock** fails without a request of `t`, and else removes the first. -/
theorem unlock_cases (m : LockManager) (t : TxnId) (rid : RID) :
    (m.own t rid = [] ∧ m.unlock t rid = (false, m)) ∨
      (m.own t rid ≠ [] ∧ (m.unlock t rid).1 = true ∧
        (m.unlock t rid).2.txns = Function.update m.txns t (unlockedTxn (m.txns t) rid) ∧
        Rewrites m (m.unlock t rid).2 t rid (m.own t rid).tail ∧
        ∀ r, ((m.unlock t rid).2.lockTable r).upgrading = (m.lockTable r).upgrading) := by
  by_cases hany : (m.lockTable rid).requestQueue.any fun req => req.txnId = t
  · refine .inr ⟨fun hnil => ?_, ?_⟩
    · obtain ⟨req, hreq, htxn⟩ := List.any_eq_true.mp hany
      exact (m.own_eq_nil_iff t rid).mp hnil req hreq (by simpa using htxn)
    · by_cases hgrow : (m.txns t).state = .growing
      all_goals
        simp only [unlock, hany, if_true, txns_modifyQueue, hgrow, if_false]
        refine ⟨trivial, ?_, ?_, fun r => ?_⟩
        · simp [unlockedTxn, hgrow, setState, modifyTxn]
        · exact (m.rewrites_eraseP t rid).of_own_eq (fun _ _ => rfl) fun _ _ => rfl
        · simp
  · refine .inl ⟨(m.own_eq_nil_iff t rid).mpr fun req hreq htxn => hany ?_, ?_⟩
    · exact List.any_eq_true.mpr ⟨req, hreq, by simpa using htxn⟩
    · simp only [unlock, hany, Bool.false_eq_true, if_false]

end LockManager

/-! ## The wait predicates -/

namespace LockManager

variable {m m' : LockManager} {t : TxnId} {rid : RID}

/-- `LockExclusive` and `LockUpgrade` go on when nobody else holds the row. -/
theorem onlyHolder_iff : m.onlyHolder t rid = true ↔ (m.txns t).state = .aborted ∨
    ∀ t', t' ≠ t → ∀ req ∈ m.own t' rid, req.granted = false := by
  simp only [onlyHolder, Bool.or_eq_true, decide_eq_true_eq, Bool.not_eq_true',
    List.any_eq_false, mem_own]
  refine or_congr_right ⟨fun h t' ht req hreq => ?_, fun h req hreq => ?_⟩
  · cases hg : req.granted with
    | false => rfl
    | true => exact absurd (by simp [hg, hreq.2, ht]) (h req hreq.1)
  · by_cases ht : req.txnId = t
    · simp [ht]
    · simp [h req.txnId ht req ⟨hreq, rfl⟩]

/-- `LockShared` goes on when nobody holds the row exclusively. -/
theorem lockSharedReady_iff : m.lockSharedReady t rid = true ↔ (m.txns t).state = .aborted ∨
    ∀ t', ∀ req ∈ m.own t' rid, req.granted = true → req.lockMode = .shared := by
  simp only [lockSharedReady, Bool.or_eq_true, decide_eq_true_eq, Bool.not_eq_true',
    List.any_eq_false, mem_own]
  refine or_congr_right ⟨fun h t' req hreq hg => ?_, fun h req hreq => ?_⟩
  · cases hm : req.lockMode with
    | shared => rfl
    | exclusive => exact absurd (by simp [hg, hm]) (h req hreq.1)
  · cases hg : req.granted with
    | false => simp
    | true => simp [h req.txnId req ⟨hreq, rfl⟩ hg]

/-- A call that need not wait at its wait could have been told so before it
made its request. -/
theorem ready_of_enter {call : LockCall} (henter : m.enter call t rid = (none, m'))
    (hready : m'.ready call t rid = true) : m.ready call t rid = true := by
  obtain ⟨-, -, htxns, hrw, -⟩ := enter_wait henter
  cases call with
  | shared =>
    refine lockSharedReady_iff.mpr ((lockSharedReady_iff.mp hready).imp (fun h => htxns ▸ h)
      fun h t' req hreq => h t' req ?_)
    by_cases ht : t' = t
    · subst ht
      rw [hrw.self]
      exact List.mem_append_left _ hreq
    · rw [hrw.others t' ht]
      exact hreq
  | exclusive | upgrade =>
    refine onlyHolder_iff.mpr ((onlyHolder_iff.mp hready).imp (fun h => htxns ▸ h)
      fun h t' ht req hreq => h t' ht req ?_)
    rw [hrw.others t' ht]
    exact hreq

end LockManager

/-! ## Suspended calls and lock sets, row by row -/

/-- The call on `rid` that `t` is suspended in. -/
def Waiting.on (w : Waiting) (t : TxnId) (rid : RID) : Option LockCall :=
  match w t with
  | some (call, r) => if r = rid then some call else none
  | none => none

theorem Waiting.on_update_self (w : Waiting) (t : TxnId) (call : LockCall) (rid : RID) :
    Waiting.on (Function.update w t (some (call, rid))) t rid = some call := by
  simp [Waiting.on]

theorem Waiting.on_update_rows (w : Waiting) {t : TxnId} {call : LockCall} {rid r : RID}
    (hr : r ≠ rid) : Waiting.on (Function.update w t (some (call, rid))) t r = none := by
  simp [Waiting.on, Ne.symm hr]

theorem Waiting.on_update_none (w : Waiting) (t : TxnId) (r : RID) :
    Waiting.on (Function.update w t none) t r = none := by
  simp [Waiting.on]

theorem Waiting.on_of_none {w : Waiting} {t : TxnId} (h : w t = none) (r : RID) :
    w.on t r = none := by
  simp [Waiting.on, h]

theorem Waiting.on_of_some {w : Waiting} {t : TxnId} {call : LockCall} {rid : RID}
    (h : w t = some (call, rid)) : w.on t rid = some call := by
  simp [Waiting.on, h]

theorem Waiting.on_of_some_rows {w : Waiting} {t : TxnId} {call : LockCall} {rid r : RID}
    (h : w t = some (call, rid)) (hr : r ≠ rid) : w.on t r = none := by
  simp [Waiting.on, h, Ne.symm hr]

/-- The lock set has the row. -/
def hasRow (set : Finset RID) (r : RID) : Bool := decide (r ∈ set)

@[simp] theorem hasRow_eq_true {set : Finset RID} {r : RID} : hasRow set r = true ↔ r ∈ set :=
  decide_eq_true_iff

@[simp] theorem hasRow_eq_false {set : Finset RID} {r : RID} : hasRow set r = false ↔ r ∉ set :=
  decide_eq_false_iff_not

theorem hasRow_insert_self (set : Finset RID) (r : RID) : hasRow (insert r set) r = true := by
  simp

theorem hasRow_insert_ne (set : Finset RID) {r rid : RID} (h : r ≠ rid) :
    hasRow (insert rid set) r = hasRow set r := by
  rw [Bool.eq_iff_iff]
  simp [h]

theorem hasRow_erase_self (set : Finset RID) (r : RID) : hasRow (set.erase r) r = false := by
  simp

theorem hasRow_erase_ne (set : Finset RID) {r rid : RID} (h : r ≠ rid) :
    hasRow (set.erase rid) r = hasRow set r := by
  rw [Bool.eq_iff_iff]
  simp [h]

/-! ## Invariants of runs -/

/-- The transaction was committed or aborted. -/
def TransactionState.Over (state : TransactionState) : Prop :=
  state = .committed ∨ state = .aborted

/-- What each operation of the system keeps. `waitOk`, `tailOk` and `clearOk`
restrict where lock methods reach their wait, where they pass it, and where
`Commit` and `Abort` end. -/
structure Closed (J : LockManager → Waiting → Prop)
    (waitOk tailOk : LockManager → LockCall → TxnId → RID → Prop)
    (clearOk : LockManager → TxnId → Prop) : Prop where
  setState : ∀ {m : LockManager} {w : Waiting} (t : TxnId) {state : TransactionState},
    J m w → state.Over → J (m.setState t state) w
  wait : ∀ {m m' : LockManager} {w : Waiting} {call : LockCall} {t : TxnId} {rid : RID},
    J m w → w t = none → m.enter call t rid = (none, m') → waitOk m call t rid →
    J m' (Function.update w t (some (call, rid)))
  tail : ∀ {m : LockManager} {w : Waiting} {call : LockCall} {t : TxnId} {rid : RID},
    J m w → w t = some (call, rid) → m.ready call t rid = true → tailOk m call t rid →
    J (m.tail call t rid).2 (Function.update w t none)
  unlock : ∀ {m : LockManager} {w : Waiting} {t : TxnId} (rid : RID),
    J m w → w t = none ∨ (m.txns t).state.Over → J (m.unlock t rid).2 w
  clear : ∀ {m : LockManager} {w : Waiting} {t : TxnId},
    J m w → (m.txns t).state.Over → clearOk m t → J (m.clearSets t) w

namespace LockSystem

/-- `Commit` and `Abort` work on transactions that are over. -/
def FinishersOver (s : LockSystem) : Prop :=
  ∀ thread fin, s.finishers thread = some fin → (s.manager.txns fin.txn).state.Over

/-- The restrictions of `Closed` at one action. -/
def StepOk (waitOk tailOk : LockManager → LockCall → TxnId → RID → Prop)
    (clearOk : LockManager → TxnId → Prop) (s : LockSystem) : LockAction → Prop
  | .lock call t rid => ∀ m, s.manager.enter call t rid = (none, m) →
      waitOk s.manager call t rid ∧ (m.ready call t rid = true → tailOk m call t rid)
  | .resume t => ∀ call rid, s.suspended t = some (call, rid) →
      s.manager.ready call t rid = true → tailOk s.manager call t rid
  | .finish thread t => s.finishers thread = some ⟨t, ∅, ∅⟩ → clearOk s.manager t
  | _ => True

end LockSystem

open LockSystem

section Rule

variable {J : LockManager → Waiting → Prop}
  {waitOk tailOk : LockManager → LockCall → TxnId → RID → Prop}
  {clearOk : LockManager → TxnId → Prop}

/-- **One step** keeps what every operation keeps. -/
theorem Closed.step (h : Closed J waitOk tailOk clearOk) {s s' : LockSystem} {a : LockAction}
    {result : Option Bool} (hover : s.FinishersOver) (hJ : J s.manager s.suspended)
    (hok : s.StepOk waitOk tailOk clearOk a) (hstep : s.step a = some (result, s')) :
    J s'.manager s'.suspended := by
  cases a with
  | lock call t rid =>
    obtain ⟨hidle, ⟨b, m, henter, -, rfl⟩ | ⟨m, waiting, henter, rfl, hcases⟩⟩ := step_lock hstep
    · rcases LockManager.enter_returned henter with ⟨rfl, -⟩ | ⟨rfl, -⟩
      · exact hJ
      · exact h.setState t hJ (.inr rfl)
    · have hwait := h.wait hJ hidle henter (hok m henter).1
      obtain ⟨hready, hresume⟩ | ⟨-, -, rfl⟩ := hcases
      · obtain ⟨-, rfl⟩ := Prod.mk.inj hresume
        exact h.tail hwait (Function.update_self ..) hready ((hok m henter).2 hready)
      · exact hwait
  | resume t =>
    obtain ⟨call, rid, hsusp, hready, hresume⟩ := step_resume hstep
    obtain ⟨-, rfl⟩ := Prod.mk.inj hresume
    exact h.tail hJ hsusp hready (hok call rid hsusp hready)
  | unlock t rid =>
    obtain ⟨hidle, -, rfl⟩ := step_unlock hstep
    exact h.unlock rid hJ (.inl hidle)
  | markAborted t =>
    obtain ⟨rfl, rfl⟩ := Prod.mk.inj (Option.some.inj hstep)
    exact h.setState t hJ (.inr rfl)
  | commit thread t =>
    obtain rfl := step_commit hstep
    exact h.setState t hJ (.inl rfl)
  | abort thread t =>
    obtain rfl := step_abort hstep
    exact h.setState t hJ (.inr rfl)
  | release thread rid =>
    obtain ⟨fin, left, hfin, -, -, hrelease⟩ := step_release hstep
    obtain ⟨-, rfl⟩ := Prod.mk.inj hrelease
    exact h.unlock rid hJ (.inr (hover thread fin hfin))
  | finish thread t =>
    obtain ⟨hfin, rfl⟩ := step_finish hstep
    exact h.clear hJ (hover thread _ hfin) (hok hfin)

end Rule

/-- States only change through operations that keep `COMMITTED` or `ABORTED`. -/
theorem closed_over (t : TxnId) :
    Closed (fun m _ => (m.txns t).state.Over) (fun _ _ _ _ => True) (fun _ _ _ _ => True)
      (fun _ _ => True) where
  setState := by
    intro m w t' state hJ hstate
    by_cases ht : t = t'
    · subst ht
      simpa [LockManager.setState] using hstate
    · simpa [LockManager.setState, LockManager.txns_modifyTxn_ne m _ ht] using hJ
  wait := by
    intro m m' w call t' rid hJ _ henter _
    rw [(LockManager.enter_wait henter).2.2.1]
    exact hJ
  tail := by
    intro m w call t' rid hJ _ _ _
    by_cases haborted : (m.txns t').state = .aborted
    · rw [(m.tail_aborted call t' rid haborted).2.1]
      exact hJ
    · rw [(m.tail_granted call t' rid haborted).2.1]
      by_cases ht : t = t'
      · subst ht
        cases call <;> simpa [LockManager.settledTxn, Transaction.insertLock] using hJ
      · simpa [ht] using hJ
  unlock := by
    intro m w t' rid hJ _
    rcases m.unlock_cases t' rid with ⟨-, heq⟩ | ⟨-, -, htxns, -⟩
    · rw [heq]
      exact hJ
    · rw [htxns]
      by_cases ht : t = t'
      · subst ht
        rcases hJ with hJ | hJ <;> simp [LockManager.unlockedTxn, hJ, TransactionState.Over]
      · simpa [ht] using hJ
  clear := by
    intro m w t' hJ _ _
    by_cases ht : t = t'
    · subst ht
      simpa [LockManager.clearSets] using hJ
    · simpa [LockManager.clearSets, LockManager.txns_modifyTxn_ne m _ ht] using hJ

theorem stepOk_trivial (s : LockSystem) (a : LockAction) :
    s.StepOk (fun _ _ _ _ => True) (fun _ _ _ _ => True) (fun _ _ => True) a := by
  cases a <;> simp [StepOk]

/-- **A finisher after a step** was there before, or has just begun with its
snapshot, or has just unlocked one row of what was left. -/
theorem LockSystem.finishers_step {s s' : LockSystem} {a : LockAction} {result : Option Bool}
    (hstep : s.step a = some (result, s')) {thread : ThreadId} {fin : Finisher}
    (hfin : s'.finishers thread = some fin) :
    s.finishers thread = some fin ∨
      (∃ t state, TransactionState.Over state ∧ s'.manager = s.manager.setState t state ∧
        fin = ⟨t, (s.manager.txns t).sharedLockSet, (s.manager.txns t).exclusiveLockSet⟩) ∨
      ∃ fin₀ rid, s.finishers thread = some fin₀ ∧ fin.txn = fin₀.txn ∧
        s'.manager = (s.manager.unlock fin₀.txn rid).2 ∧
        ∀ r ∈ fin₀.shared ∪ fin₀.exclusive, r ≠ rid → r ∈ fin.shared ∪ fin.exclusive := by
  -- the new table is the old one updated at one thread
  have hupdate : ∀ {th : ThreadId} {new : Option Finisher},
      Function.update s.finishers th new thread = some fin →
      s.finishers thread = some fin ∨ thread = th ∧ new = some fin := by
    intro th new hnew
    by_cases hth : thread = th
    · subst hth
      rw [Function.update_self] at hnew
      exact .inr ⟨rfl, hnew⟩
    · rw [Function.update_of_ne hth] at hnew
      exact .inl hnew
  cases a with
  | lock call t rid =>
    obtain ⟨-, ⟨b, m, -, -, rfl⟩ | ⟨m, waiting, -, rfl, hcases⟩⟩ := step_lock hstep
    · exact .inl hfin
    · obtain ⟨-, hresume⟩ | ⟨-, -, rfl⟩ := hcases
      · obtain ⟨-, rfl⟩ := Prod.mk.inj hresume
        exact .inl hfin
      · exact .inl hfin
  | resume t =>
    obtain ⟨call, rid, -, -, hresume⟩ := step_resume hstep
    obtain ⟨-, rfl⟩ := Prod.mk.inj hresume
    exact .inl hfin
  | unlock t rid =>
    obtain ⟨-, -, rfl⟩ := step_unlock hstep
    exact .inl hfin
  | markAborted t =>
    obtain ⟨rfl, rfl⟩ := Prod.mk.inj (Option.some.inj hstep)
    exact .inl hfin
  | commit th t =>
    obtain rfl := step_commit hstep
    rcases hupdate hfin with hold | ⟨-, hnew⟩
    · exact .inl hold
    · exact .inr (.inl ⟨t, .committed, .inl rfl, rfl, (Option.some.inj hnew).symm⟩)
  | abort th t =>
    obtain rfl := step_abort hstep
    rcases hupdate hfin with hold | ⟨-, hnew⟩
    · exact .inl hold
    · exact .inr (.inl ⟨t, .aborted, .inr rfl, rfl, (Option.some.inj hnew).symm⟩)
  | release th rid =>
    obtain ⟨fin₀, left, hfin₀, htxn, hleft, hrelease⟩ := step_release hstep
    obtain ⟨-, rfl⟩ := Prod.mk.inj hrelease
    rcases hupdate hfin with hold | ⟨rfl, hnew⟩
    · exact .inl hold
    · obtain rfl := Option.some.inj hnew
      exact .inr (.inr ⟨fin₀, rid, hfin₀, htxn, rfl, hleft⟩)
  | finish th t =>
    obtain ⟨-, rfl⟩ := step_finish hstep
    rcases hupdate hfin with hold | ⟨-, hnew⟩
    · exact .inl hold
    · cases hnew

theorem LockSystem.FinishersOver.step {s s' : LockSystem} {a : LockAction}
    {result : Option Bool} (h : s.FinishersOver) (hstep : s.step a = some (result, s')) :
    s'.FinishersOver := by
  intro thread fin hfin
  rcases finishers_step hstep hfin with hold | ⟨t, state, hover, hm, rfl⟩ |
    ⟨fin₀, rid, hfin₀, htxn, -⟩
  · exact (closed_over fin.txn).step h (h thread fin hold) (stepOk_trivial s a) hstep
  · rw [hm]
    simpa [LockManager.setState] using hover
  · exact htxn ▸ (closed_over fin₀.txn).step h (h thread fin₀ hfin₀) (stepOk_trivial s a) hstep

/-- Along every run `Commit` and `Abort` work on transactions that are over. -/
theorem LockRun.finishersOver {ok : LockSystem → LockAction → Prop}
    {trace : List (LockAction × Option Bool)} {s : LockSystem} (hrun : LockRun ok trace s) :
    s.FinishersOver := by
  induction hrun with
  | init => exact fun thread fin hfin => (nomatch hfin)
  | step _ _ hstep ih => exact ih.step hstep

/-- **Every run** keeps what every operation keeps. -/
theorem LockRun.closed {J : LockManager → Waiting → Prop} {ok : LockSystem → LockAction → Prop}
    {trace : List (LockAction × Option Bool)} {s : LockSystem}
    (h : Closed J (fun _ _ _ _ => True) (fun _ _ _ _ => True) (fun _ _ => True))
    (hinit : J {} fun _ => none) (hrun : LockRun ok trace s) : J s.manager s.suspended := by
  induction hrun with
  | init => exact hinit
  | step hprev _ hstep ih =>
    exact h.step hprev.finishersOver ih (stepOk_trivial _ _) hstep

end OneBase
