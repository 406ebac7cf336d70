import OneBase.Concurrency.LockSafety
import OneBase.Lib.Schedule

/-!
# Serializable execution of transactions that lock their rows

The purpose of the lock manager is serializable execution of concurrent transactions
(lab4_concurrency_control_en.md:5). `DataRun` is a run of the lock system in which
transactions also read and write rows: a live transaction that is not suspended reads a
row of its lock sets, and writes a row of its exclusive set.

Transactions leave their growing phase one after the other. A transaction that comes
to a row after a conflicting access of another one got its lock after the other had
left its growing phase, so all conflicts go in the order in which transactions leave it.

- `LockSystem.step_txns`: one step changes the record of one transaction, in one of six ways.
- `LeavingOrder.step`, `LeavingOrder.access`: the order in which transactions leave their
  growing phase explains all conflicts so far.
- `dataRun_serializable`: every run ends as a serial execution does.
- `dataRun_noDirtyAccess`: if transactions unlock by `Commit` and `Abort` only, nobody
  reads or overwrites what a transaction wrote that is not committed or aborted.
-/

namespace OneBase

open LockManager LockSystem Schedule

variable {V : Type}

/-- The lock sets allow to read the row, or to write it. -/
def Transaction.MayAccess (txn : Transaction) (rid : RID) (isWrite : Bool) : Prop :=
  rid ∈ txn.exclusiveLockSet ∨ isWrite = false ∧ rid ∈ txn.sharedLockSet

/-- The runs of the lock system with accesses to rows in between, and the accesses
made so far. -/
inductive DataRun (ok : LockAction → Prop) : List (Op TxnId RID V) → LockSystem → Prop where
  | init : DataRun ok [] {}
  | step {log : List (Op TxnId RID V)} {s s' : LockSystem} {a : LockAction}
      {result : Option Bool} :
      DataRun ok log s → ok a → s.step a = some (result, s') → DataRun ok log s'
  | access {log : List (Op TxnId RID V)} {s : LockSystem} {op : Op TxnId RID V} :
      DataRun ok log s → s.manager.Live op.txn → s.suspended op.txn = none →
      (s.manager.txns op.txn).MayAccess op.item op.access.isWrite →
      DataRun ok (log ++ [op]) s

/-- The action is not a call of `Unlock` outside `Commit` and `Abort`. -/
def NoUnlock (a : LockAction) : Prop := ∀ t rid, a ≠ .unlock t rid

theorem DataRun.mono {ok ok' : LockAction → Prop} (hok : ∀ a, ok a → ok' a)
    {log : List (Op TxnId RID V)} {s : LockSystem} (hrun : DataRun ok log s) :
    DataRun ok' log s := by
  induction hrun with
  | init => exact .init
  | step _ ha hstep ih => exact ih.step (hok _ ha) hstep
  | access _ hlive hidle hmay ih => exact ih.access hlive hidle hmay

/-! ## One step and the record of one transaction -/

/-- What a step can do to the record of the transaction `t`. -/
inductive TxnStep (t : TxnId) (a : LockAction) (txn : Transaction) : Transaction → Prop where
  | same : TxnStep t a txn txn
  | ended {state : TransactionState} : state.Over → TxnStep t a txn { txn with state := state }
  | granted (call : LockCall) (rid : RID) : txn.state ≠ .shrinking →
      TxnStep t a txn (settledTxn txn rid call)
  | unlocked (rid : RID) : a = .unlock t rid ∨ txn.state.Over →
      TxnStep t a txn (unlockedTxn txn rid)
  | cleared : txn.state.Over →
      TxnStep t a txn { txn with sharedLockSet := ∅, exclusiveLockSet := ∅ }

/-- A call that passes its wait settles the record, or leaves it. -/
theorem TxnStep.of_tail {m : LockManager} (call : LockCall) (t : TxnId) (rid : RID)
    (a : LockAction) (hstate : (m.txns t).state ≠ .shrinking) :
    (∀ t', t' ≠ t → (m.tail call t rid).2.txns t' = m.txns t') ∧
      TxnStep t a (m.txns t) ((m.tail call t rid).2.txns t) := by
  by_cases haborted : (m.txns t).state = .aborted
  · rw [(m.tail_aborted call t rid haborted).2.1]
    exact ⟨fun _ _ => rfl, .same⟩
  · rw [(m.tail_granted call t rid haborted).2.1]
    refine ⟨fun t' ht => Function.update_of_ne ht .., ?_⟩
    rw [Function.update_self]
    exact .granted call rid hstate

theorem TxnStep.of_unlock {m : LockManager} (t : TxnId) (rid : RID) {a : LockAction}
    (h : a = .unlock t rid ∨ (m.txns t).state.Over) :
    (∀ t', t' ≠ t → (m.unlock t rid).2.txns t' = m.txns t') ∧
      TxnStep t a (m.txns t) ((m.unlock t rid).2.txns t) := by
  rcases m.unlock_cases t rid with ⟨-, heq⟩ | ⟨-, -, htxns, -⟩
  · rw [heq]
    exact ⟨fun _ _ => rfl, .same⟩
  · rw [htxns]
    refine ⟨fun t' ht => Function.update_of_ne ht .., ?_⟩
    rw [Function.update_self]
    exact .unlocked rid h

theorem TxnStep.of_setState {m : LockManager} (t : TxnId) {state : TransactionState}
    {a : LockAction} (h : state.Over) :
    (∀ t', t' ≠ t → (m.setState t state).txns t' = m.txns t') ∧
      TxnStep t a (m.txns t) ((m.setState t state).txns t) := by
  refine ⟨fun t' ht => m.txns_modifyTxn_ne _ ht, ?_⟩
  rw [LockManager.setState, txns_modifyTxn_self]
  exact .ended h

theorem TxnStep.of_clearSets {m : LockManager} (t : TxnId) {a : LockAction}
    (h : (m.txns t).state.Over) :
    (∀ t', t' ≠ t → (m.clearSets t).txns t' = m.txns t') ∧
      TxnStep t a (m.txns t) ((m.clearSets t).txns t) := by
  refine ⟨fun t' ht => m.txns_modifyTxn_ne _ ht, ?_⟩
  rw [clearSets, txns_modifyTxn_self]
  exact .cleared h

/-- **One step** changes the record of at most one transaction. -/
theorem LockSystem.step_txns {s s' : LockSystem} {a : LockAction} {result : Option Bool}
    (hsafe : Safe s.manager s.suspended) (hover : s.FinishersOver)
    (hstep : s.step a = some (result, s')) :
    ∃ t, (∀ t', t' ≠ t → s'.manager.txns t' = s.manager.txns t') ∧
      TxnStep t a (s.manager.txns t) (s'.manager.txns t) := by
  cases a with
  | lock call t rid =>
    refine ⟨t, ?_⟩
    obtain ⟨-, ⟨b, m, henter, -, rfl⟩ | ⟨m, waiting, henter, rfl, hcases⟩⟩ := step_lock hstep
    · rcases enter_returned henter with ⟨rfl, -⟩ | ⟨rfl, -⟩
      · exact ⟨fun _ _ => rfl, .same⟩
      · exact TxnStep.of_setState t (.inr rfl)
    · obtain ⟨hmay, -, htxns, -⟩ := enter_wait henter
      obtain ⟨-, hresume⟩ | ⟨-, -, rfl⟩ := hcases
      · obtain ⟨-, rfl⟩ := Prod.mk.inj hresume
        have htail := TxnStep.of_tail (m := m) call t rid (.lock call t rid) fun hs => by
          rw [htxns] at hs
          rcases hmay with hmay | hmay <;> rw [hmay] at hs <;> cases hs
        rwa [htxns] at htail
      · show (∀ t', t' ≠ t → m.txns t' = s.manager.txns t') ∧ _
        rw [htxns]
        exact ⟨fun _ _ => rfl, .same⟩
  | resume t =>
    refine ⟨t, ?_⟩
    obtain ⟨call, rid, hsusp, -, hresume⟩ := step_resume hstep
    obtain ⟨-, rfl⟩ := Prod.mk.inj hresume
    -- a shrinking transaction is not suspended
    refine TxnStep.of_tail call t rid _ fun hs => ?_
    rw [(hsafe.shrinking t hs).1] at hsusp
    cases hsusp
  | unlock t rid =>
    obtain ⟨-, -, rfl⟩ := step_unlock hstep
    exact ⟨t, TxnStep.of_unlock t rid (.inl rfl)⟩
  | markAborted t =>
    obtain ⟨rfl, rfl⟩ := Prod.mk.inj (Option.some.inj hstep)
    exact ⟨t, TxnStep.of_setState t (.inr rfl)⟩
  | commit thread t =>
    obtain rfl := step_commit hstep
    exact ⟨t, TxnStep.of_setState t (.inl rfl)⟩
  | abort thread t =>
    obtain rfl := step_abort hstep
    exact ⟨t, TxnStep.of_setState t (.inr rfl)⟩
  | release thread rid =>
    obtain ⟨fin, left, hfin, -, -, hrelease⟩ := step_release hstep
    obtain ⟨-, rfl⟩ := Prod.mk.inj hrelease
    exact ⟨fin.txn, TxnStep.of_unlock fin.txn rid (.inr (hover thread fin hfin))⟩
  | finish thread t =>
    obtain ⟨hfin, rfl⟩ := step_finish hstep
    exact ⟨t, TxnStep.of_clearSets t (hover thread _ hfin)⟩

namespace TxnStep

variable {t : TxnId} {a : LockAction} {txn txn' : Transaction}

/-- A transaction that still grows keeps its rows. -/
theorem growing (h : TxnStep t a txn txn') (hstate : txn'.state = .growing) :
    txn.state = .growing ∧ ∀ rid w, txn.MayAccess rid w → txn'.MayAccess rid w := by
  cases h with
  | same => exact ⟨hstate, fun _ _ => id⟩
  | ended hover =>
    obtain rfl : _ = TransactionState.growing := hstate
    rcases hover with h | h <;> cases h
  | granted call rid hnot =>
    refine ⟨?_, fun r w hmay => ?_⟩
    · cases call <;> exact hstate
    · rcases hmay with hmem | ⟨hw, hmem⟩
      · refine .inl ?_
        cases call with
        | shared => exact hmem
        | exclusive | upgrade => exact Finset.mem_insert_of_mem hmem
      · cases call with
        | shared => exact .inr ⟨hw, Finset.mem_insert_of_mem hmem⟩
        | exclusive => exact .inr ⟨hw, hmem⟩
        | upgrade =>
          by_cases hr : r = rid
          · exact .inl (hr ▸ Finset.mem_insert_self ..)
          · exact .inr ⟨hw, Finset.mem_erase.mpr ⟨hr, hmem⟩⟩
  | unlocked rid hunlock =>
    simp only [unlockedTxn] at hstate
    split at hstate
    · cases hstate
    · contradiction
  | cleared hover =>
    rcases hover with h | h <;> rw [show txn.state = .growing from hstate] at h <;> cases h

/-- A transaction that is shrinking was live, and gets no row. -/
theorem shrinking (h : TxnStep t a txn txn') (hstate : txn'.state = .shrinking) :
    (txn.state = .growing ∨ txn.state = .shrinking) ∧
      ∀ rid w, txn'.MayAccess rid w → txn.MayAccess rid w := by
  cases h with
  | same => exact ⟨.inr hstate, fun _ _ => id⟩
  | ended hover =>
    obtain rfl : _ = TransactionState.shrinking := hstate
    rcases hover with h | h <;> cases h
  | granted call rid hnot =>
    refine absurd ?_ hnot
    cases call <;> exact hstate
  | unlocked rid hunlock =>
    refine ⟨?_, fun r w hmay => ?_⟩
    · simp only [unlockedTxn] at hstate
      split at hstate
      · rename_i hgrow
        exact .inl hgrow
      · exact .inr hstate
    · rcases hmay with hmem | ⟨hw, hmem⟩
      · exact .inl (Finset.mem_of_mem_erase hmem)
      · exact .inr ⟨hw, Finset.mem_of_mem_erase hmem⟩
  | cleared hover =>
    rcases hover with h | h <;> rw [show txn.state = .shrinking from hstate] at h <;> cases h

/-- Only its own `Unlock` makes a transaction shrink. -/
theorem shrinking_of_unlock (h : TxnStep t a txn txn') (hstate : txn'.state = .shrinking)
    (hnot : ∀ rid, a ≠ .unlock t rid) : txn.state = .shrinking := by
  cases h with
  | same => exact hstate
  | ended hover =>
    obtain rfl : _ = TransactionState.shrinking := hstate
    rcases hover with h | h <;> cases h
  | granted call rid => cases call <;> exact hstate
  | unlocked rid hunlock =>
    have hover := hunlock.resolve_left (hnot rid)
    simp only [unlockedTxn] at hstate
    split at hstate
    · rename_i hgrow
      rw [hgrow] at hover
      rcases hover with h | h <;> cases h
    · exact hstate
  | cleared => exact hstate

end TxnStep

/-! ## The order in which transactions leave their growing phase -/

/-- `t` has left before `u`. -/
def LeftBefore (left : List TxnId) (t u : TxnId) : Prop :=
  ∃ front back, left = front ++ back ∧ t ∈ front ∧ u ∉ front

theorem LeftBefore.append {left : List TxnId} {t u : TxnId} (h : LeftBefore left t u)
    (more : List TxnId) : LeftBefore (left ++ more) t u := by
  obtain ⟨front, back, rfl, ht, hu⟩ := h
  exact ⟨front, back ++ more, by rw [List.append_assoc], ht, hu⟩

/-- A transaction that has left is before one that has not. -/
theorem LeftBefore.of_notMem {left : List TxnId} {t u : TxnId} (ht : t ∈ left) (hu : u ∉ left) :
    LeftBefore left t u :=
  ⟨left, [], by rw [List.append_nil], ht, hu⟩

/-- Ranks that go up: the place of the transaction in the order. -/
theorem LeftBefore.idxOf_lt {left : List TxnId} {t u : TxnId} (h : LeftBefore left t u) :
    left.idxOf t < left.idxOf u := by
  obtain ⟨front, back, rfl, ht, hu⟩ := h
  rw [List.idxOf_append_of_mem ht, List.idxOf_append_of_notMem hu]
  exact Nat.lt_add_right _ (List.idxOf_lt_length_of_mem ht)

/-- Two accesses to a row that must not be swapped. -/
def Opposed (op : Op TxnId RID V) (rid : RID) (isWrite : Bool) : Prop :=
  op.item = rid ∧ (op.access.isWrite = true ∨ isWrite = true)

/-- Two live transactions do not both have a row of which one may write it. -/
theorem Safe.not_both {m : LockManager} {w : Waiting} (h : Safe m w) {t u : TxnId} {rid : RID}
    {b c : Bool} (hne : t ≠ u) (ht : m.Live t) (hu : m.Live u)
    (hmayt : (m.txns t).MayAccess rid b) (hmayu : (m.txns u).MayAccess rid c)
    (hwrite : b = true ∨ c = true) : False := by
  rcases hmayt with hmem | ⟨rfl, hmem⟩
  · obtain ⟨hs, hx⟩ := h.exclusion hne ht hu hmem
    exact hmayu.elim hx fun hsh => hs hsh.2
  · rcases hmayu with hmemu | ⟨rfl, -⟩
    · exact (h.exclusion hne.symm hu ht hmemu).1 hmem
    · rcases hwrite with hw | hw <;> cases hw

/-- The transactions that left their growing phase, in the order `left`, explain the
conflicts between the accesses of the log and those that are possible now. -/
structure LeavingOrder (log : List (Op TxnId RID V)) (left : List TxnId) (m : LockManager) :
    Prop where
  left_iff : ∀ t, t ∈ left ↔ (m.txns t).state ≠ .growing
  holds : ∀ op ∈ log, (m.txns op.txn).state = .growing →
    (m.txns op.txn).MayAccess op.item op.access.isWrite
  cleared : ∀ t rid w, m.Live t → (m.txns t).MayAccess rid w →
    ∀ op ∈ log, op.txn ≠ t → Opposed op rid w → LeftBefore left op.txn t
  conflicts : log.Pairwise fun a b => Conflicts a b → LeftBefore left a.txn b.txn

theorem leavingOrder_init : LeavingOrder ([] : List (Op TxnId RID V)) [] {} where
  left_iff := fun _ => ⟨fun h => absurd h List.not_mem_nil, fun h => absurd rfl h⟩
  holds := fun _ h => absurd h List.not_mem_nil
  cleared := fun _ _ _ _ _ _ h => absurd h List.not_mem_nil
  conflicts := .nil

/-- **A step of the lock system** appends the transaction that leaves its growing phase. -/
theorem LeavingOrder.step {log : List (Op TxnId RID V)} {left : List TxnId} {s s' : LockSystem}
    {a : LockAction} {result : Option Bool} (h : LeavingOrder log left s.manager)
    (hsafe : Safe s.manager s.suspended) (hover : s.FinishersOver)
    (hsafe' : Safe s'.manager s'.suspended) (hstep : s.step a = some (result, s')) :
    ∃ more, LeavingOrder log (left ++ more) s'.manager := by
  obtain ⟨t, hothers, htxn⟩ := step_txns hsafe hover hstep
  have hall : ∀ u, TxnStep u a (s.manager.txns u) (s'.manager.txns u) ∨
      s'.manager.txns u = s.manager.txns u := by
    intro u
    by_cases hu : u = t
    · exact .inl (hu ▸ htxn)
    · exact .inr (hothers u hu)
  have hgrowing : ∀ u, (s'.manager.txns u).state = .growing →
      (s.manager.txns u).state = .growing ∧ ∀ rid w, (s.manager.txns u).MayAccess rid w →
        (s'.manager.txns u).MayAccess rid w := by
    intro u hu
    rcases hall u with hstep | heq
    · exact hstep.growing hu
    · rw [heq] at hu ⊢
      exact ⟨hu, fun _ _ => id⟩
  let more : List TxnId :=
    if (s.manager.txns t).state = .growing ∧ (s'.manager.txns t).state ≠ .growing then [t] else []
  have hleft : ∀ u, u ∈ left ++ more ↔ (s'.manager.txns u).state ≠ .growing := by
    intro u
    rw [List.mem_append, h.left_iff u]
    by_cases hu : u = t
    · subst hu
      by_cases hgone : (s.manager.txns u).state = .growing ∧ (s'.manager.txns u).state ≠ .growing
      · simp [more, hgone]
      · simp only [more, hgone, if_false, List.not_mem_nil, or_false]
        refine ⟨fun hu hu' => hu (hgrowing u hu').1, fun hu' hu => hgone ⟨hu, hu'⟩⟩
    · have hnot : u ∉ more := by
        simp only [more]
        split
        · simpa using hu
        · exact List.not_mem_nil
      simp only [hnot, or_false, hothers u hu]
  refine ⟨more, hleft, fun op hop hu => ?_, fun u rid w hlive hmay op hop hne hopp => ?_,
    h.conflicts.imp fun hab hcon => (hab hcon).append more⟩
  · obtain ⟨hu, hkeep⟩ := hgrowing op.txn hu
    exact hkeep _ _ (h.holds op hop hu)
  · rcases hlive with hgrow | hshrink
    · -- `u` may have got the row in this step, but it is still growing
      refine .of_notMem ((hleft op.txn).mpr fun hopgrow => ?_) fun hmem =>
        (hleft u).mp hmem hgrow
      obtain ⟨hbefore, hkeep⟩ := hgrowing op.txn hopgrow
      exact hsafe'.not_both hne (.inl hopgrow) (.inl hgrow)
        (hkeep _ _ (h.holds op hop hbefore)) (hopp.1 ▸ hmay) hopp.2
    · have hbefore : s.manager.Live u ∧ (s.manager.txns u).MayAccess rid w := by
        rcases hall u with hstep | heq
        · exact ⟨(hstep.shrinking hshrink).1, (hstep.shrinking hshrink).2 rid w hmay⟩
        · rw [heq] at hshrink hmay
          exact ⟨.inr hshrink, hmay⟩
      exact (h.cleared u rid w hbefore.1 hbefore.2 op hop hne hopp).append more

/-- **An access** conflicts only with accesses of transactions that left before. -/
theorem LeavingOrder.access {log : List (Op TxnId RID V)} {left : List TxnId} {m : LockManager}
    {w : Waiting} {op : Op TxnId RID V} (h : LeavingOrder log left m) (hsafe : Safe m w)
    (hlive : m.Live op.txn) (hmay : (m.txns op.txn).MayAccess op.item op.access.isWrite) :
    LeavingOrder (log ++ [op]) left m where
  left_iff := h.left_iff
  holds := by
    intro op' hop' hgrow
    rcases List.mem_append.mp hop' with hop' | hop'
    · exact h.holds op' hop' hgrow
    · rw [List.mem_singleton.mp hop']
      exact hmay
  cleared := by
    intro t rid b ht hmayt op' hop' hne hopp
    rcases List.mem_append.mp hop' with hop' | hop'
    · exact h.cleared t rid b ht hmayt op' hop' hne hopp
    · obtain rfl := List.mem_singleton.mp hop'
      exact (hsafe.not_both hne hlive ht hmay (hopp.1 ▸ hmayt) hopp.2).elim
  conflicts := by
    refine List.pairwise_append.mpr ⟨h.conflicts, List.pairwise_singleton _ _, ?_⟩
    intro a ha b hb hcon
    obtain rfl := List.mem_singleton.mp hb
    exact h.cleared b.txn b.item b.access.isWrite hlive hmay a ha hcon.1 ⟨hcon.2.1, hcon.2.2⟩

/-! ## Runs -/

/-- The lock system of a run with accesses is one of a run without. -/
theorem DataRun.exists_lockRun {ok : LockAction → Prop} {log : List (Op TxnId RID V)}
    {s : LockSystem} (hrun : DataRun ok log s) :
    ∃ trace, LockRun (fun _ _ => True) trace s := by
  induction hrun with
  | init => exact ⟨[], .init⟩
  | step _ _ hstep ih =>
    obtain ⟨trace, hlock⟩ := ih
    exact ⟨_, hlock.step trivial hstep⟩
  | access _ _ _ _ ih => exact ih

theorem DataRun.safe {ok : LockAction → Prop} {log : List (Op TxnId RID V)} {s : LockSystem}
    (hrun : DataRun ok log s) : Safe s.manager s.suspended ∧ s.FinishersOver := by
  obtain ⟨trace, hlock⟩ := hrun.exists_lockRun
  exact ⟨LockRun.closed closed_safe safe_init hlock, hlock.finishersOver⟩

theorem DataRun.exists_leavingOrder {ok : LockAction → Prop} {log : List (Op TxnId RID V)}
    {s : LockSystem} (hrun : DataRun ok log s) : ∃ left, LeavingOrder log left s.manager := by
  induction hrun with
  | init => exact ⟨[], leavingOrder_init⟩
  | @step log s s' a result hprev hok hstep ih =>
    obtain ⟨left, h⟩ := ih
    obtain ⟨more, h'⟩ := h.step hprev.safe.1 hprev.safe.2 (hprev.step hok hstep).safe.1 hstep
    exact ⟨left ++ more, h'⟩
  | @access log s op hprev hlive _ hmay ih =>
    obtain ⟨left, h⟩ := ih
    exact ⟨left, h.access hprev.safe.1 hlive hmay⟩

/-- **Every run is serializable.** For any interleaving of lock calls, unlocks, commits and
aborts with accesses by live transactions to rows that they have locked, there is an order
of the transactions such that running them one after the other, from any contents of the
rows, ends with the same contents, every transaction having read the same values. -/
theorem dataRun_serializable {log : List (Op TxnId RID V)} {s : LockSystem}
    (hrun : DataRun (fun _ => True) log s) :
    ∃ order : List TxnId, order.Nodup ∧ (∀ op ∈ log, op.txn ∈ order) ∧
      ∀ w : World TxnId RID V, Schedule.run (serial order log) w = Schedule.run log w := by
  obtain ⟨left, h⟩ := hrun.exists_leavingOrder
  obtain ⟨order, hnodup, hall, -, hserial⟩ :=
    exists_serial left.idxOf (h.conflicts.imp fun hab hcon => (hab hcon).idxOf_lt)
  exact ⟨order, hnodup, hall, hserial⟩

/-- One transaction writes a row and commits; then another one locks it. -/
theorem exists_handover :
    ∃ s, DataRun NoUnlock [(⟨0, {}, .write fun _ => 7⟩ : Op TxnId RID Nat)] s ∧
      s.manager.Live 1 ∧ s.suspended 1 = none ∧ (s.manager.txns 1).MayAccess {} false := by
  have hok : ∀ {a : LockAction}, (∀ t rid, a ≠ .unlock t rid) → NoUnlock a := fun h => h
  have hlocked : DataRun (V := Nat) NoUnlock [] _ :=
    .step (a := .lock .exclusive 0 {}) .init (hok (by simp)) rfl
  have hwritten : DataRun NoUnlock [(⟨0, {}, .write fun _ => 7⟩ : Op TxnId RID Nat)] _ :=
    hlocked.access (.inl (by decide)) rfl (.inl (by decide))
  have hended : DataRun (V := Nat) NoUnlock _ _ :=
    .step (a := .finish 0 0) (.step (a := .release 0 {})
      (.step (a := .commit 0 0) hwritten (hok (by simp)) rfl) (hok (by simp)) rfl)
      (hok (by simp)) rfl
  exact ⟨_, .step (a := .lock .shared 1 {}) hended (hok (by simp)) rfl, .inl (by decide), rfl,
    .inr ⟨rfl, by decide⟩⟩

/-- The other transaction reads the row, which it could also have read afterwards. -/
theorem dataRun_serializable_handover :
    ∃ order : List TxnId, order.Nodup ∧ 0 ∈ order ∧ 1 ∈ order ∧
      (Schedule.run (serial order [⟨0, {}, .write fun _ => 7⟩, ⟨1, {}, .read⟩])
        (⟨fun _ => 0, fun _ => []⟩ : World TxnId RID Nat)).seen 1 = [7] := by
  obtain ⟨s, hrun, hlive, hidle, hmay⟩ := exists_handover
  have hread : DataRun _ ([_] ++ [⟨1, {}, .read⟩]) _ :=
    (hrun.mono fun _ _ => trivial).access hlive hidle hmay
  obtain ⟨order, hnodup, hall, hserial⟩ := dataRun_serializable hread
  refine ⟨order, hnodup, hall ⟨0, {}, .write fun _ => 7⟩ (by simp), hall ⟨1, {}, .read⟩ (by simp),
    ?_⟩
  have heq := hserial (⟨fun _ => 0, fun _ => []⟩ : World TxnId RID Nat)
  exact congrArg (fun w : World TxnId RID Nat => w.seen 1) heq

/-! ## Transactions that unlock when they end -/

/-- Without calls of `Unlock`, no transaction is ever shrinking. -/
theorem DataRun.not_shrinking {log : List (Op TxnId RID V)} {s : LockSystem}
    (hrun : DataRun NoUnlock log s) (t : TxnId) : (s.manager.txns t).state ≠ .shrinking := by
  induction hrun with
  | init => exact fun h => (nomatch h)
  | @step log s s' a result hprev hok hstep ih =>
    obtain ⟨u, hothers, htxn⟩ := step_txns hprev.safe.1 hprev.safe.2 hstep
    by_cases ht : t = u
    · subst ht
      exact fun h => ih (htxn.shrinking_of_unlock h (hok t))
    · rw [hothers t ht]
      exact ih
  | access _ _ _ _ ih => exact ih

/-- **No access to what a transaction wrote that is still under way.** If locks are given
up by `Commit` and `Abort` only, then whenever a transaction may read or write a row that
another one wrote before, or may write a row that another one read before, the other one
is committed or aborted. -/
theorem dataRun_noDirtyAccess {log : List (Op TxnId RID V)} {s : LockSystem}
    (hrun : DataRun NoUnlock log s) {op : Op TxnId RID V} (hop : op ∈ log) {t : TxnId}
    {rid : RID} {isWrite : Bool} (hne : op.txn ≠ t) (hlive : s.manager.Live t)
    (hmay : (s.manager.txns t).MayAccess rid isWrite) (hopp : Opposed op rid isWrite) :
    (s.manager.txns op.txn).state.Over := by
  obtain ⟨left, h⟩ := hrun.exists_leavingOrder
  obtain ⟨front, back, hleft, hmem, -⟩ := h.cleared t rid isWrite hlive hmay op hop hne hopp
  have hgrow := (h.left_iff op.txn).mp (hleft ▸ List.mem_append_left back hmem)
  have hshrink := hrun.not_shrinking op.txn
  cases hstate : (s.manager.txns op.txn).state with
  | growing => exact absurd hstate hgrow
  | shrinking => exact absurd hstate hshrink
  | committed => exact .inl rfl
  | aborted => exact .inr rfl

/-- When the second transaction has the row, the first one is committed. -/
theorem dataRun_noDirtyAccess_handover :
    ∃ s : LockSystem, s.manager.Live 1 ∧ (s.manager.txns 1).MayAccess {} false ∧
      (s.manager.txns 0).state.Over := by
  obtain ⟨s, hrun, hlive, -, hmay⟩ := exists_handover
  exact ⟨s, hlive, hmay, dataRun_noDirtyAccess hrun List.mem_cons_self (by decide) hlive hmay
    ⟨rfl, .inl rfl⟩⟩

end OneBase
