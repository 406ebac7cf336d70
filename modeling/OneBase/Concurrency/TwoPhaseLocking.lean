import OneBase.Concurrency.LockSystem

/-!
# Two-phase locking

Once a transaction has unlocked a row, or was committed or aborted, it should get
no further lock. The lock methods look for `SHRINKING` and `ABORTED` only
(`LockManager.refused`), so a committed transaction can still lock; apart from
that the rule holds.

- `Released`: the transaction has unlocked, or was committed or aborted.
- `TwoPhaseStep`: no lock method gets past its checks, or past its wait, for a
  committed transaction.
- `lockRun_twoPhase`: under `TwoPhaseStep` the rule holds along every run.
- `lock_after_commit`: without it, it does not.
-/

namespace OneBase

open LockManager LockSystem

/-- The trace has a successful `Unlock` by `t`, or a `Commit` or `Abort` of `t`. -/
def Released (trace : List (LockAction × Option Bool)) (t : TxnId) : Prop :=
  (∃ rid, (.unlock t rid, some true) ∈ trace) ∨
    (∃ thread result, (.commit thread t, result) ∈ trace) ∨
      ∃ thread result, (.abort thread t, result) ∈ trace

/-- No lock method acts for a committed transaction: none is entered, except a
`LockUpgrade` that is turned away because an upgrade is pending or because it
has no `SHARED` request to upgrade; and none is resumed. -/
def TwoPhaseStep (s : LockSystem) : LockAction → Prop
  | .lock call t rid => (s.manager.txns t).state = .committed →
      call = .upgrade ∧ ((s.manager.lockTable rid).upgrading = true ∨
        ∀ req ∈ (s.manager.lockTable rid).requestQueue, isShared t req = false)
  | .resume t => (s.manager.txns t).state ≠ .committed
  | _ => True

/-- The transaction is past its growing phase; it can only be suspended if it is
over. -/
def PastGrowing (t : TxnId) (m : LockManager) (w : Waiting) : Prop :=
  (m.txns t).state ≠ .growing ∧ (w t ≠ none → (m.txns t).state.Over)

/-- The lock sets and the requests of `t` are within the given ones. -/
structure Within (t : TxnId) (txn : Transaction) (requests : RID → List LockRequest)
    (m : LockManager) : Prop where
  shared : (m.txns t).sharedLockSet ⊆ txn.sharedLockSet
  exclusive : (m.txns t).exclusiveLockSet ⊆ txn.exclusiveLockSet
  own : ∀ r, (m.own t r).Sublist (requests r)

theorem within_refl (t : TxnId) (m : LockManager) : Within t (m.txns t) (m.own t) m :=
  ⟨Finset.Subset.refl _, Finset.Subset.refl _, fun _ => List.Sublist.refl _⟩

/-- What another transaction's operation leaves alone. -/
theorem Within.of_eq {t : TxnId} {txn : Transaction} {requests : RID → List LockRequest}
    {m m' : LockManager} (h : Within t txn requests m) (htxn : m'.txns t = m.txns t)
    (hown : ∀ r, m'.own t r = m.own t r) : Within t txn requests m' where
  shared := by rw [htxn]; exact h.shared
  exclusive := by rw [htxn]; exact h.exclusive
  own := fun r => by rw [hown]; exact h.own r

/-- A queue operation that only takes requests of `t` away. -/
theorem Within.shrink {t : TxnId} {txn : Transaction} {requests : RID → List LockRequest}
    {m m' : LockManager} {rid : RID} {l : List LockRequest} (h : Within t txn requests m)
    (hrw : Rewrites m m' t rid l) (hl : l.Sublist (m.own t rid))
    (hshared : (m'.txns t).sharedLockSet ⊆ (m.txns t).sharedLockSet)
    (hexclusive : (m'.txns t).exclusiveLockSet ⊆ (m.txns t).exclusiveLockSet) :
    Within t txn requests m' where
  shared := Finset.Subset.trans hshared h.shared
  exclusive := Finset.Subset.trans hexclusive h.exclusive
  own := by
    intro r
    by_cases hr : r = rid
    · subst hr
      rw [hrw.self]
      exact hl.trans (h.own r)
    · rw [hrw.rows r hr]
      exact h.own r

/-- A transaction that no longer grows does not grow again. -/
theorem closed_pastGrowing (t : TxnId) :
    Closed (PastGrowing t) (fun _ _ _ _ => True) (fun _ _ _ _ => True) (fun _ _ => True) where
  setState := by
    rintro m w t' state ⟨hgrow, hsusp⟩ hover
    by_cases ht : t = t'
    · subst ht
      simp only [PastGrowing, LockManager.setState, txns_modifyTxn_self]
      refine ⟨?_, fun _ => hover⟩
      rcases hover with rfl | rfl <;> simp
    · simpa only [PastGrowing, LockManager.setState, m.txns_modifyTxn_ne _ ht] using ⟨hgrow, hsusp⟩
  wait := by
    rintro m m' w call t' rid ⟨hgrow, hsusp⟩ _ henter _
    obtain ⟨hmay, -, htxns, -⟩ := enter_wait henter
    simp only [PastGrowing, htxns]
    refine ⟨hgrow, fun hw => ?_⟩
    by_cases ht : t = t'
    · subst ht
      exact .inl (hmay.resolve_left hgrow)
    · rw [Function.update_of_ne ht] at hw
      exact hsusp hw
  tail := by
    rintro m w call t' rid ⟨hgrow, hsusp⟩ _ _ _
    have hstate : ((m.tail call t' rid).2.txns t).state = (m.txns t).state := by
      by_cases haborted : (m.txns t').state = .aborted
      · rw [(m.tail_aborted call t' rid haborted).2.1]
      · rw [(m.tail_granted call t' rid haborted).2.1]
        by_cases ht : t = t'
        · subst ht
          cases call <;> simp [settledTxn, Transaction.insertLock]
        · simp [ht]
    simp only [PastGrowing, hstate]
    refine ⟨hgrow, fun hw => hsusp ?_⟩
    by_cases ht : t = t'
    · subst ht
      rw [Function.update_self] at hw
      exact absurd rfl hw
    · rwa [Function.update_of_ne ht] at hw
  unlock := by
    rintro m w t' rid ⟨hgrow, hsusp⟩ _
    rcases m.unlock_cases t' rid with ⟨-, heq⟩ | ⟨-, -, htxns, -⟩
    · rw [heq]
      exact ⟨hgrow, hsusp⟩
    · by_cases ht : t = t'
      · subst ht
        simpa [PastGrowing, htxns, unlockedTxn, hgrow] using hsusp
      · simpa [PastGrowing, htxns, ht] using ⟨hgrow, hsusp⟩
  clear := by
    rintro m w t' ⟨hgrow, hsusp⟩ _ _
    by_cases ht : t = t'
    · subst ht
      simpa [PastGrowing, clearSets] using ⟨hgrow, hsusp⟩
    · simpa only [PastGrowing, clearSets, m.txns_modifyTxn_ne _ ht] using ⟨hgrow, hsusp⟩

/-- While no lock method acts for a committed transaction, the lock sets and
requests of a transaction that no longer grows can only get smaller. -/
theorem closed_within (t : TxnId) (txn : Transaction) (requests : RID → List LockRequest) :
    Closed (fun m w => PastGrowing t m w ∧ Within t txn requests m)
      (fun m _ t _ => (m.txns t).state ≠ .committed)
      (fun m _ t _ => (m.txns t).state ≠ .committed) (fun _ _ => True) where
  setState := by
    rintro m w t' state ⟨hpast, hin⟩ hover
    refine ⟨(closed_pastGrowing t).setState t' hpast hover, ?_⟩
    by_cases ht : t = t'
    · subst ht
      exact ⟨by simpa [LockManager.setState] using hin.shared,
        by simpa [LockManager.setState] using hin.exclusive, hin.own⟩
    · exact hin.of_eq (m.txns_modifyTxn_ne _ ht) fun _ => rfl
  wait := by
    rintro m m' w call t' rid ⟨hpast, hin⟩ hidle henter hok
    refine ⟨(closed_pastGrowing t).wait hpast hidle henter trivial, ?_⟩
    obtain ⟨hmay, -, htxns, hrw, -⟩ := enter_wait henter
    have ht : t ≠ t' := by
      rintro rfl
      exact hok (hmay.resolve_left hpast.1)
    exact hin.of_eq (by rw [htxns]) (hrw.others t ht)
  tail := by
    rintro m w call t' rid ⟨hpast, hin⟩ hsusp hready hok
    refine ⟨(closed_pastGrowing t).tail hpast hsusp hready trivial, ?_⟩
    by_cases ht : t = t'
    · -- a suspended transaction that no longer grows is over, so aborted: it gives up
      subst ht
      have hover : (m.txns t).state.Over := hpast.2 (by rw [hsusp]; simp)
      obtain ⟨-, htxns, hrw, -⟩ := m.tail_aborted call t rid (hover.resolve_left hok)
      refine hin.shrink hrw ?_ (by rw [htxns]) (by rw [htxns])
      cases call with
      | shared | exclusive => exact List.filter_sublist
      | upgrade => exact List.nil_sublist _
    · by_cases haborted : (m.txns t').state = .aborted
      · obtain ⟨-, htxns, hrw, -⟩ := m.tail_aborted call t' rid haborted
        exact hin.of_eq (by rw [htxns]) (hrw.others t ht)
      · obtain ⟨-, htxns, hrw, -⟩ := m.tail_granted call t' rid haborted
        exact hin.of_eq (by rw [htxns, Function.update_of_ne ht]) (hrw.others t ht)
  unlock := by
    rintro m w t' rid ⟨hpast, hin⟩ hidle
    refine ⟨(closed_pastGrowing t).unlock rid hpast hidle, ?_⟩
    rcases m.unlock_cases t' rid with ⟨-, heq⟩ | ⟨-, -, htxns, hrw, -⟩
    · rw [heq]
      exact hin
    · by_cases ht : t = t'
      · subst ht
        refine hin.shrink hrw (List.tail_sublist _) ?_ ?_ <;>
          simp [htxns, unlockedTxn, Finset.erase_subset]
      · exact hin.of_eq (by rw [htxns, Function.update_of_ne ht]) (hrw.others t ht)
  clear := by
    rintro m w t' ⟨hpast, hin⟩ hover _
    refine ⟨(closed_pastGrowing t).clear hpast hover trivial, ?_⟩
    by_cases ht : t = t'
    · subst ht
      exact ⟨by simp [clearSets], by simp [clearSets], hin.own⟩
    · exact hin.of_eq (m.txns_modifyTxn_ne _ ht) fun _ => rfl

/-! ## Steps -/

/-- The restriction on steps, where `closed_within` asks for it. -/
theorem TwoPhaseStep.stepOk {s : LockSystem} {a : LockAction} (h : TwoPhaseStep s a) :
    s.StepOk (fun m _ t _ => (m.txns t).state ≠ .committed)
      (fun m _ t _ => (m.txns t).state ≠ .committed) (fun _ _ => True) a := by
  cases a with
  | lock call t rid =>
    intro m henter
    obtain ⟨-, hentered, htxns, -⟩ := enter_wait henter
    have hstate : (s.manager.txns t).state ≠ .committed := by
      intro hstate
      obtain ⟨rfl, hturned⟩ := h hstate
      obtain ⟨hflag, req, hreq, hshared⟩ := hentered
      rcases hturned with hup | hnone
      · rw [hflag] at hup
        cases hup
      · rw [hnone req ((s.manager.mem_own t rid).mp hreq).1] at hshared
        cases hshared
    refine ⟨hstate, fun _ => ?_⟩
    show (m.txns t).state ≠ .committed
    rw [htxns]
    exact hstate
  | resume t => exact fun _ _ _ _ => h
  | unlock | markAborted | commit | abort | release => trivial
  | finish => exact fun _ => trivial

/-- A lock call of a transaction that no longer grows returns false. -/
theorem TwoPhaseStep.lock_false {s s' : LockSystem} {call : LockCall} {t : TxnId} {rid : RID}
    {result : Option Bool} (h : TwoPhaseStep s (.lock call t rid))
    (hpast : PastGrowing t s.manager s.suspended)
    (hstep : s.step (.lock call t rid) = some (result, s')) : result = some false := by
  have hok := h.stepOk
  obtain ⟨-, ⟨b, m, henter, rfl, -⟩ | ⟨m, -, henter, -⟩⟩ := step_lock hstep
  · rcases enter_returned henter with ⟨-, -, hmay, hcall⟩ | ⟨-, hfalse⟩
    · exact absurd (h (hmay.resolve_left hpast.1)).1 hcall
    · rw [hfalse]
  · obtain ⟨hmay, -⟩ := enter_wait henter
    exact absurd (hmay.resolve_left hpast.1) (hok m henter).1

/-- A resumed call of a transaction that no longer grows returns false. -/
theorem TwoPhaseStep.resume_false {s s' : LockSystem} {t : TxnId} {result : Option Bool}
    (h : TwoPhaseStep s (.resume t)) (hpast : PastGrowing t s.manager s.suspended)
    (hstep : s.step (.resume t) = some (result, s')) : result = some false := by
  obtain ⟨call, rid, hsusp, -, hresume⟩ := step_resume hstep
  have hover : (s.manager.txns t).state.Over := hpast.2 (by rw [hsusp]; simp)
  have htail := (s.manager.tail_aborted call t rid (hover.resolve_left h)).1
  obtain ⟨rfl, -⟩ := Prod.mk.inj hresume
  exact congrArg some htail

/-! ## Runs -/

/-- A transaction that has released a lock, or is over, no longer grows. -/
theorem LockRun.pastGrowing {ok : LockSystem → LockAction → Prop}
    {trace : List (LockAction × Option Bool)} {s : LockSystem} (hrun : LockRun ok trace s)
    {t : TxnId} (hrel : Released trace t) : PastGrowing t s.manager s.suspended := by
  induction hrun with
  | init => rcases hrel with ⟨_, h⟩ | ⟨_, _, h⟩ | ⟨_, _, h⟩ <;> exact absurd h List.not_mem_nil
  | @step trace s s' a result hprev _ hstep ih =>
    by_cases hbefore : Released trace t
    · exact (closed_pastGrowing t).step hprev.finishersOver (ih hbefore) (stepOk_trivial _ _) hstep
    · -- the last step is the release
      have hlast : ∀ e, e ∈ trace ++ [(a, result)] → e ∈ trace ∨ e = (a, result) := by
        intro e he
        simpa using he
      rcases hrel with ⟨rid, h⟩ | ⟨thread, r, h⟩ | ⟨thread, r, h⟩
      · rcases hlast _ h with h | h
        · exact absurd (.inl ⟨rid, h⟩) hbefore
        · obtain ⟨rfl, rfl⟩ := Prod.mk.inj h
          obtain ⟨hidle, hres, rfl⟩ := step_unlock hstep
          rcases s.manager.unlock_cases t rid with ⟨-, heq⟩ | ⟨-, -, htxns, -⟩
          · rw [heq] at hres
            cases hres
          · refine ⟨?_, fun hw => absurd hidle hw⟩
            simp only [htxns, Function.update_self, unlockedTxn]
            split
            · simp
            · assumption
      · rcases hlast _ h with h | h
        · exact absurd (.inr (.inl ⟨thread, r, h⟩)) hbefore
        · obtain ⟨rfl, rfl⟩ := Prod.mk.inj h
          obtain rfl := step_commit hstep
          simp [PastGrowing, beginFinish, LockManager.setState, TransactionState.Over]
      · rcases hlast _ h with h | h
        · exact absurd (.inr (.inr ⟨thread, r, h⟩)) hbefore
        · obtain ⟨rfl, rfl⟩ := Prod.mk.inj h
          obtain rfl := step_abort hstep
          simp [PastGrowing, beginFinish, LockManager.setState, TransactionState.Over]

/-- **Two-phase locking.** Along every run in which no lock method acts for a
committed transaction: once `t` has successfully unlocked a row, or was committed
or aborted, no step adds to its lock sets or to its requests in any queue, or
grants one; and every lock call of `t`, new or resumed, returns false. -/
theorem lockRun_twoPhase {trace : List (LockAction × Option Bool)} {s s' : LockSystem}
    {t : TxnId} {a : LockAction} {result : Option Bool} (hrun : LockRun TwoPhaseStep trace s)
    (hrel : Released trace t) (hok : TwoPhaseStep s a) (hstep : s.step a = some (result, s')) :
    (s'.manager.txns t).sharedLockSet ⊆ (s.manager.txns t).sharedLockSet ∧
    (s'.manager.txns t).exclusiveLockSet ⊆ (s.manager.txns t).exclusiveLockSet ∧
    (∀ rid, (s'.manager.own t rid).Sublist (s.manager.own t rid)) ∧
    (∀ call rid, a = .lock call t rid → result = some false) ∧
    (a = .resume t → result = some false) := by
  have hpast := hrun.pastGrowing hrel
  obtain ⟨-, hshared, hexclusive, hown⟩ :=
    (closed_within t (s.manager.txns t) (s.manager.own t)).step hrun.finishersOver
      ⟨hpast, within_refl t s.manager⟩ hok.stepOk hstep
  refine ⟨hshared, hexclusive, hown, ?_, ?_⟩
  · rintro call rid rfl
    exact hok.lock_false hpast hstep
  · rintro rfl
    exact hok.resume_false hpast hstep

/-- A row is locked and unlocked; the next lock call is turned away. -/
theorem lockRun_twoPhase_unlock :
    ∃ trace s s', LockRun TwoPhaseStep trace s ∧ Released trace 0 ∧
      s.step (.lock .shared 0 {}) = some (some false, s') ∧
      (s'.manager.own 0 {}).Sublist (s.manager.own 0 {}) := by
  have hrun : LockRun TwoPhaseStep _ _ := .step (a := .unlock 0 {})
    (.step (a := .lock .shared 0 {}) .init (by simp [TwoPhaseStep]) rfl) trivial rfl
  have hrel : Released [(.lock .shared 0 {}, some true), (.unlock 0 {}, some true)] 0 :=
    .inl ⟨{}, by simp⟩
  exact ⟨_, _, _, hrun, hrel, rfl,
    (lockRun_twoPhase hrun hrel (a := .lock .shared 0 {})
      (fun hstate => absurd hstate (by decide)) rfl).2.2.1 {}⟩

/-- **A committed transaction gets a lock.** Without the restriction on steps the
rule fails: `LockShared` after `Commit` returns true and extends the lock set. -/
theorem lock_after_commit :
    ¬ ∀ (trace : List (LockAction × Option Bool)) (s s' : LockSystem) (t : TxnId)
      (a : LockAction) (result : Option Bool),
      LockRun (fun _ _ => True) trace s → Released trace t → s.step a = some (result, s') →
      (s'.manager.txns t).sharedLockSet ⊆ (s.manager.txns t).sharedLockSet ∧
      (s'.manager.txns t).exclusiveLockSet ⊆ (s.manager.txns t).exclusiveLockSet ∧
      (∀ rid, (s'.manager.own t rid).Sublist (s.manager.own t rid)) ∧
      (∀ call rid, a = .lock call t rid → result = some false) ∧
      (a = .resume t → result = some false) := by
  intro h
  have hrun : LockRun (fun _ _ => True) _ _ := .step (a := .finish 0 0)
    (.step (a := .commit 0 0) .init trivial rfl) trivial rfl
  have hrel : Released [(.commit 0 0, none), (.finish 0 0, none)] 0 :=
    .inr (.inl ⟨0, none, by simp⟩)
  have hlock := (h _ _ _ 0 (.lock .shared 0 {}) _ hrun hrel rfl).2.2.2.1 .shared {} rfl
  exact absurd hlock (by decide)

end OneBase
