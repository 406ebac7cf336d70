import OneBase.Concurrency.LockSystem

/-!
# Lock sets and request queues agree

For a transaction that is not inside a lock call, the queues should hold exactly
one granted request for each row of its lock sets. `Account` lists the requests
a transaction may have for one row, with the calls under way. Three branches of
the code leave that list, and `SoundPass` names them, at the moment a lock method
gets past its wait:

1. `LockExclusive` grants a row that is in the shared set, which it does not
   look at;
2. `LockUpgrade` gives up and removes the requests of the transaction, but not
   the row from the shared set;
3. a lock is granted to a committed transaction, whose state no lock method
   looks at.

- `closed_acct`: every other operation keeps the account.
- `Covered`: what is left of the snapshot of a `Commit` or `Abort` covers the
  lock sets, so that nothing is left when the sets are cleared.
- `lockRun_accounts`: the account, along every run without the three branches.
- `shared_then_exclusive`: the first branch, in a run of two calls.
-/

namespace OneBase

open Cpp LockManager LockSystem

/-! ## The requests for one row -/

/-- The requests of a transaction for one row, by the call it is suspended in
there and by whether its shared and its exclusive set have the row. A request
under way is lost only when another thread has committed or aborted the
transaction. -/
inductive Account (t : TxnId) (ended : Prop) :
    Option LockCall → Bool → Bool → List LockRequest → Prop where
  | free : Account t ended none false false []
  | shared : Account t ended none true false [⟨t, .shared, true⟩]
  | exclusive : Account t ended none false true [⟨t, .exclusive, true⟩]
  | waitShared : Account t ended (some .shared) false false [⟨t, .shared, false⟩]
  | waitExclusive : Account t ended (some .exclusive) false false [⟨t, .exclusive, false⟩]
  | waitBoth : Account t ended (some .exclusive) true false
      [⟨t, .shared, true⟩, ⟨t, .exclusive, false⟩]
  | waitUpgrade : Account t ended (some .upgrade) true false [⟨t, .exclusive, true⟩]
  | lost {call : LockCall} : ended → Account t ended (some call) false false []

namespace Account

variable {t : TxnId} {ended ended' : Prop} {pending : Option LockCall} {call : LockCall}
  {inShared inExclusive : Bool} {l : List LockRequest}

theorem mono (h : Account t ended pending inShared inExclusive l) (himp : ended → ended') :
    Account t ended' pending inShared inExclusive l := by
  cases h with
  | lost hover => exact .lost (himp hover)
  | _ => constructor

/-- Up to the wait. -/
theorem pushed (h : Account t ended none inShared inExclusive l)
    (hshared : call = .shared → inShared = false ∧ inExclusive = false)
    (hexclusive : call = .exclusive → inExclusive = false)
    (hupgrade : call = .upgrade → ∃ req ∈ l, isShared t req = true) :
    Account t ended (some call) inShared inExclusive (LockManager.pushed t l call) := by
  cases call with
  | shared =>
    obtain ⟨rfl, rfl⟩ := hshared rfl
    cases h
    exact .waitShared
  | exclusive =>
    obtain rfl := hexclusive rfl
    cases h with
    | free => exact .waitExclusive
    | shared => exact .waitBoth
  | upgrade =>
    obtain ⟨req, hreq, hs⟩ := hupgrade rfl
    cases h with
    | free => exact absurd hreq List.not_mem_nil
    | shared =>
      simpa [LockManager.pushed, modifyFirst, isShared, LockRequest.makeExclusive] using
        waitUpgrade
    | exclusive =>
      obtain rfl := List.mem_singleton.mp hreq
      simp [isShared] at hs

/-- After the wait, when the call gives up. An upgrade must find its row out of
the shared set. -/
theorem dropped (h : Account t ended (some call) inShared inExclusive l)
    (hpass : call = .upgrade → inShared = false) :
    Account t ended none inShared inExclusive (LockManager.dropped l call) := by
  cases h with
  | waitShared | waitExclusive => exact .free
  | waitBoth => exact .shared
  | waitUpgrade => cases hpass rfl
  | lost =>
    cases call <;> exact .free

/-- After the wait, when the call is granted. The transaction must not be over,
and an exclusive request must find its row out of the shared set. -/
theorem settled (h : Account t ended (some call) inShared inExclusive l) (hlive : ¬ ended)
    (hpass : call = .exclusive → inShared = false) :
    Account t ended none (if call = .shared then true else if call = .upgrade then false
        else inShared) (if call = .shared then inExclusive else true)
      (LockManager.settled t l call) := by
  cases h with
  | waitShared =>
    simpa [LockManager.settled, modifyFirst, LockRequest.grant] using shared
  | waitExclusive =>
    simpa [LockManager.settled, modifyFirst, LockRequest.grant] using exclusive
  | waitBoth => cases hpass rfl
  | waitUpgrade =>
    simpa [LockManager.settled, modifyFirst, LockRequest.grant] using exclusive
  | lost hover => exact absurd hover hlive

/-- One request goes away, and the row leaves both sets. -/
theorem unlocked (h : Account t ended pending inShared inExclusive l) (hl : l ≠ [])
    (hover : pending ≠ none → ended) : Account t ended pending false false l.tail := by
  cases h with
  | free => exact absurd rfl hl
  | shared | exclusive => exact .free
  | waitShared | waitExclusive | waitUpgrade => exact .lost (hover (by simp))
  | waitBoth => exact .waitExclusive
  | lost => exact absurd rfl hl

/-- Without a request the row is in neither set. -/
theorem sets_of_nil (h : Account t ended pending inShared inExclusive []) :
    inShared = false ∧ inExclusive = false := by
  cases h <;> exact ⟨rfl, rfl⟩

end Account

/-! ## The invariant -/

/-- The account of every transaction for every row. -/
structure Acct (m : LockManager) (w : Waiting) : Prop where
  account : ∀ t r, Account t (m.txns t).state.Over (w.on t r)
    (hasRow (m.txns t).sharedLockSet r) (hasRow (m.txns t).exclusiveLockSet r) (m.own t r)
  idle : ∀ t, (m.txns t).state = .shrinking → w t = none

theorem acct_init : Acct {} fun _ => none where
  account := fun _ _ => .free
  idle := fun _ _ => rfl

/-- What must not happen when a lock method gets past its wait: see the module
documentation. -/
def SoundPass (m : LockManager) (call : LockCall) (t : TxnId) (rid : RID) : Prop :=
  if (m.txns t).state = .aborted then call = .upgrade → rid ∉ (m.txns t).sharedLockSet
  else (m.txns t).state ≠ .committed ∧ (call = .exclusive → rid ∉ (m.txns t).sharedLockSet)

/-- An operation of `t` leaves the accounts of the other transactions alone. -/
theorem Acct.of_actor {m m' : LockManager} {w w' : Waiting} (h : Acct m w) (t : TxnId)
    (htxns : ∀ t', t' ≠ t → m'.txns t' = m.txns t')
    (hown : ∀ t', t' ≠ t → ∀ r, m'.own t' r = m.own t' r)
    (hw : ∀ t', t' ≠ t → w' t' = w t')
    (haccount : ∀ r, Account t (m'.txns t).state.Over (w'.on t r)
      (hasRow (m'.txns t).sharedLockSet r) (hasRow (m'.txns t).exclusiveLockSet r) (m'.own t r))
    (hidle : (m'.txns t).state = .shrinking → w' t = none) : Acct m' w' := by
  constructor
  case account =>
    intro t' r
    by_cases ht : t' = t
    · subst ht
      exact haccount r
    · rw [htxns t' ht, hown t' ht]
      simpa only [Waiting.on, hw t' ht] using h.account t' r
  case idle =>
    intro t' hstate
    by_cases ht : t' = t
    · subst ht
      exact hidle hstate
    · rw [htxns t' ht] at hstate
      rw [hw t' ht]
      exact h.idle t' hstate

namespace Acct

variable {m m' : LockManager} {w : Waiting} {t : TxnId} {rid : RID} {call : LockCall}

theorem setState (h : Acct m w) (t : TxnId) {state : TransactionState} (hover : state.Over) :
    Acct (m.setState t state) w := by
  have hself : ((m.setState t state).txns t) = { m.txns t with state := state } := by
    simp [LockManager.setState]
  refine h.of_actor t (fun t' ht => m.txns_modifyTxn_ne _ ht) (fun _ _ _ => rfl)
    (fun _ _ => rfl) (fun r => ?_) (fun hs => ?_)
  · rw [hself]
    exact (h.account t r).mono fun _ => hover
  · rw [hself] at hs
    rcases hover with ho | ho <;> cases hs.symm.trans ho

theorem wait (h : Acct m w) (hidle : w t = none) (henter : m.enter call t rid = (none, m')) :
    Acct m' (Function.update w t (some (call, rid))) := by
  obtain ⟨hmay, hentered, htxns, hrw, -⟩ := enter_wait henter
  refine h.of_actor t (fun t' _ => by rw [htxns]) hrw.others
    (fun t' ht => Function.update_of_ne ht _ _) (fun r => ?_) (fun hs => ?_)
  · have haccount := h.account t r
    rw [Waiting.on_of_none hidle] at haccount
    rw [htxns]
    by_cases hr : r = rid
    · subst hr
      rw [Waiting.on_update_self, hrw.self]
      refine haccount.pushed ?_ ?_ ?_
      · rintro rfl
        exact ⟨hasRow_eq_false.mpr hentered.1, hasRow_eq_false.mpr hentered.2⟩
      · rintro rfl
        exact hasRow_eq_false.mpr hentered
      · rintro rfl
        exact hentered.2
    · rw [Waiting.on_update_rows w hr, hrw.rows r hr]
      exact haccount
  · rw [htxns] at hs
    rcases hmay with hmay | hmay <;> cases hmay.symm.trans hs

theorem tail (h : Acct m w) (hsusp : w t = some (call, rid)) (hpass : SoundPass m call t rid) :
    Acct (m.tail call t rid).2 (Function.update w t none) := by
  have hw : ∀ t', t' ≠ t → Function.update w t none t' = w t' :=
    fun t' ht => Function.update_of_ne ht _ _
  by_cases hstate : (m.txns t).state = .aborted
  · obtain ⟨-, htxns, hrw, -⟩ := m.tail_aborted call t rid hstate
    refine h.of_actor t (fun t' _ => by rw [htxns]) hrw.others hw (fun r => ?_)
      (fun _ => Function.update_self ..)
    have haccount := h.account t r
    rw [Waiting.on_update_none, htxns]
    by_cases hr : r = rid
    · subst hr
      rw [Waiting.on_of_some hsusp] at haccount
      rw [hrw.self]
      refine haccount.dropped fun hcall => hasRow_eq_false.mpr ?_
      rw [SoundPass, if_pos hstate] at hpass
      exact hpass hcall
    · rw [Waiting.on_of_some_rows hsusp hr] at haccount
      rw [hrw.rows r hr]
      exact haccount
  · obtain ⟨-, htxns, hrw, -⟩ := m.tail_granted call t rid hstate
    rw [SoundPass, if_neg hstate] at hpass
    have hlive : ¬ (m.txns t).state.Over := by
      rintro (hc | ha)
      · exact hpass.1 hc
      · exact hstate ha
    refine h.of_actor t (fun t' ht => by rw [htxns, Function.update_of_ne ht]) hrw.others hw
      (fun r => ?_) (fun _ => Function.update_self ..)
    have hsame : (settledTxn (m.txns t) rid call).state = (m.txns t).state := by
      cases call <;> rfl
    have haccount := h.account t r
    rw [Waiting.on_update_none, htxns, Function.update_self, hsame]
    by_cases hr : r = rid
    · subst hr
      rw [Waiting.on_of_some hsusp] at haccount
      rw [hrw.self]
      have hsettled := haccount.settled hlive fun hcall => hasRow_eq_false.mpr (hpass.2 hcall)
      cases call <;>
        simpa only [settledTxn, Transaction.insertLock, hasRow_insert_self, hasRow_erase_self,
          reduceCtorEq, if_true, if_false] using hsettled
    · rw [Waiting.on_of_some_rows hsusp hr] at haccount
      rw [hrw.rows r hr]
      cases call <;>
        simpa only [settledTxn, Transaction.insertLock, hasRow_insert_ne _ hr,
          hasRow_erase_ne _ hr] using haccount

theorem unlock (h : Acct m w) (rid : RID) (ht : w t = none ∨ (m.txns t).state.Over) :
    Acct (m.unlock t rid).2 w := by
  rcases m.unlock_cases t rid with ⟨-, heq⟩ | ⟨hne, -, htxns, hrw, -⟩
  · rw [heq]
    exact h
  · have hover : (m.txns t).state.Over → (unlockedTxn (m.txns t) rid).state.Over := by
      rintro (ho | ho)
      · exact .inl (by simp [unlockedTxn, ho])
      · exact .inr (by simp [unlockedTxn, ho])
    refine h.of_actor t (fun t' ht => by rw [htxns, Function.update_of_ne ht]) hrw.others
      (fun _ _ => rfl) (fun r => ?_) (fun hs => ?_)
    · rw [htxns, Function.update_self]
      refine Account.mono ?_ hover
      by_cases hr : r = rid
      · subst hr
        rw [hrw.self]
        simp only [unlockedTxn, hasRow_erase_self]
        refine (h.account t r).unlocked hne fun hpending => ?_
        rcases ht with ht | ht
        · exact absurd (Waiting.on_of_none ht r) hpending
        · exact ht
      · rw [hrw.rows r hr]
        simp only [unlockedTxn, hasRow_erase_ne _ hr]
        exact h.account t r
    · rw [htxns, Function.update_self] at hs
      rcases ht with ht | ht
      · exact ht
      · rcases hover ht with ho | ho <;> cases hs.symm.trans ho

theorem clear (h : Acct m w)
    (hempty : (m.txns t).sharedLockSet = ∅ ∧ (m.txns t).exclusiveLockSet = ∅) :
    Acct (m.clearSets t) w := by
  refine h.of_actor t (fun t' ht => m.txns_modifyTxn_ne _ ht) (fun _ _ _ => rfl)
    (fun _ _ => rfl) (fun r => ?_) (fun hs => h.idle t ?_)
  · simp only [clearSets, txns_modifyTxn_self, own_modifyTxn]
    simpa only [hempty.1, hempty.2] using h.account t r
  · simpa [clearSets] using hs

end Acct

/-- Every operation keeps the account, if no call passes its wait on one of the
three branches and the sets are empty when they are cleared. -/
theorem closed_acct : Closed Acct (fun _ _ _ _ => True) SoundPass
    (fun m t => (m.txns t).sharedLockSet = ∅ ∧ (m.txns t).exclusiveLockSet = ∅) where
  setState := fun t _ h hover => h.setState t hover
  wait := fun h hidle henter _ => h.wait hidle henter
  tail := fun h hsusp _ hpass => h.tail hsusp hpass
  unlock := fun rid h ht => h.unlock rid ht
  clear := fun h _ hempty => h.clear hempty

/-! ## Commit and Abort -/

/-- The transaction is over and its lock sets lie within `rows`. -/
def Bounded (t : TxnId) (rows : Finset RID) (m : LockManager) : Prop :=
  (m.txns t).state.Over ∧ (m.txns t).sharedLockSet ⊆ rows ∧ (m.txns t).exclusiveLockSet ⊆ rows

/-- The lock sets of a transaction that is over do not grow. -/
theorem closed_bounded (t : TxnId) (rows : Finset RID) :
    Closed (fun m _ => Bounded t rows m) (fun _ _ _ _ => True) SoundPass (fun _ _ => True) where
  setState := by
    rintro m w t' state ⟨hover, hs, hx⟩ hstate
    by_cases ht : t = t'
    · subst ht
      simpa [Bounded, LockManager.setState] using ⟨hstate, hs, hx⟩
    · simpa only [Bounded, LockManager.setState, m.txns_modifyTxn_ne _ ht] using ⟨hover, hs, hx⟩
  wait := by
    intro m m' w call t' rid hbound _ henter _
    rw [Bounded, (enter_wait henter).2.2.1]
    exact hbound
  tail := by
    rintro m w call t' rid ⟨hover, hs, hx⟩ _ _ hpass
    by_cases hstate : (m.txns t').state = .aborted
    · rw [Bounded, (m.tail_aborted call t' rid hstate).2.1]
      exact ⟨hover, hs, hx⟩
    · rw [SoundPass, if_neg hstate] at hpass
      have ht : t ≠ t' := by
        rintro rfl
        rcases hover with ho | ho
        · exact hpass.1 ho
        · exact hstate ho
      rw [Bounded, (m.tail_granted call t' rid hstate).2.1, Function.update_of_ne ht]
      exact ⟨hover, hs, hx⟩
  unlock := by
    rintro m w t' rid hbound hidle
    refine ⟨(closed_over t).unlock rid hbound.1 hidle, ?_⟩
    rcases m.unlock_cases t' rid with ⟨-, heq⟩ | ⟨-, -, htxns, -⟩
    · rw [heq]
      exact hbound.2
    · by_cases ht : t = t'
      · subst ht
        rw [htxns, Function.update_self]
        exact ⟨(Finset.erase_subset _ _).trans hbound.2.1,
          (Finset.erase_subset _ _).trans hbound.2.2⟩
      · rw [htxns, Function.update_of_ne ht]
        exact hbound.2
  clear := by
    rintro m w t' ⟨hover, hs, hx⟩ _ _
    by_cases ht : t = t'
    · subst ht
      simpa [Bounded, clearSets] using hover
    · simpa only [Bounded, clearSets, m.txns_modifyTxn_ne _ ht] using ⟨hover, hs, hx⟩

/-- Whoever runs `Commit` or `Abort` still has every row of the lock sets in what
is left of its snapshot. -/
def LockSystem.Covered (s : LockSystem) : Prop :=
  ∀ thread fin, s.finishers thread = some fin →
    Bounded fin.txn (fin.shared ∪ fin.exclusive) s.manager

/-- After `Unlock` the row is in neither set, also when there was no request. -/
theorem Acct.not_mem_unlock {m : LockManager} {w : Waiting} (h : Acct m w) (t : TxnId)
    (rid : RID) : rid ∉ ((m.unlock t rid).2.txns t).sharedLockSet ∧
      rid ∉ ((m.unlock t rid).2.txns t).exclusiveLockSet := by
  rcases m.unlock_cases t rid with ⟨hnil, heq⟩ | ⟨-, -, htxns, -⟩
  · have haccount := h.account t rid
    rw [hnil] at haccount
    rw [heq]
    simpa using haccount.sets_of_nil
  · rw [htxns, Function.update_self]
    simp [unlockedTxn]

/-- The restriction on a step of a run: a lock method that gets past its wait, at
once or when it is resumed, takes none of the three branches. -/
def SoundStep (s : LockSystem) : LockAction → Prop
  | .lock call t rid => s.manager.MayLock t → s.manager.Entered call t rid →
      s.manager.ready call t rid = true → SoundPass s.manager call t rid
  | .resume t => ∀ call rid, s.suspended t = some (call, rid) →
      s.manager.ready call t rid = true → SoundPass s.manager call t rid
  | _ => True

theorem SoundStep.stepOk {s : LockSystem} {a : LockAction} {clearOk : LockManager → TxnId → Prop}
    (h : SoundStep s a) (hclear : ∀ thread t, a = .finish thread t →
      s.finishers thread = some ⟨t, ∅, ∅⟩ → clearOk s.manager t) :
    s.StepOk (fun _ _ _ _ => True) SoundPass clearOk a := by
  cases a with
  | lock call t rid =>
    refine fun m henter => ⟨trivial, fun hready => ?_⟩
    obtain ⟨hmay, hentered, htxns, -⟩ := enter_wait henter
    have hpass := h hmay hentered (ready_of_enter henter hready)
    simpa only [SoundPass, htxns] using hpass
  | resume t => exact h
  | finish thread t => exact hclear thread t rfl
  | unlock | markAborted | commit | abort | release => trivial

theorem LockSystem.Covered.step {s s' : LockSystem} {a : LockAction} {result : Option Bool}
    (h : s.Covered) (hacct : Acct s.manager s.suspended) (hover : s.FinishersOver)
    (hok : SoundStep s a) (hstep : s.step a = some (result, s')) : s'.Covered := by
  intro thread fin hfin
  have hkeep : ∀ t rows, Bounded t rows s.manager → Bounded t rows s'.manager := fun t rows hb =>
    (closed_bounded t rows).step hover hb (hok.stepOk fun _ _ _ _ => trivial) hstep
  rcases finishers_step hstep hfin with hold | ⟨t, state, hstate, hm, rfl⟩ |
    ⟨fin₀, rid, hfin₀, htxn, hm, hleft⟩
  · exact hkeep _ _ (h thread fin hold)
  · -- the snapshot has just been taken
    rw [hm]
    refine ⟨by simpa [LockManager.setState] using hstate, ?_, ?_⟩
    · simp [LockManager.setState]
    · simp [LockManager.setState]
  · -- one row was unlocked, and is in neither set any more
    obtain ⟨hover', hs, hx⟩ := hkeep _ _ (h thread fin₀ hfin₀)
    obtain ⟨hns, hnx⟩ := hacct.not_mem_unlock fin₀.txn rid
    rw [← hm] at hns hnx
    rw [htxn]
    refine ⟨hover', fun r hr => hleft r (hs hr) ?_, fun r hr => hleft r (hx hr) ?_⟩
    · rintro rfl
      exact hns hr
    · rintro rfl
      exact hnx hr

/-! ## Every run -/

/-- The transaction was committed or aborted, by a call that has returned. -/
def Finished (trace : List (LockAction × Option Bool)) (t : TxnId) : Prop :=
  ∃ thread result, (.finish thread t, result) ∈ trace

/-- The account along every run, what the snapshots cover, and the empty sets
after `Commit` and `Abort`. -/
theorem LockRun.accounts {trace : List (LockAction × Option Bool)} {s : LockSystem}
    (hrun : LockRun SoundStep trace s) :
    Acct s.manager s.suspended ∧ s.Covered ∧
      ∀ t, Finished trace t → Bounded t ∅ s.manager := by
  induction hrun with
  | init =>
    refine ⟨acct_init, fun thread fin hfin => (nomatch hfin), ?_⟩
    rintro t ⟨thread, result, h⟩
    exact absurd h List.not_mem_nil
  | @step trace s s' a result hprev hok hstep ih =>
    obtain ⟨hacct, hcover, hfinished⟩ := ih
    have hover := hprev.finishersOver
    -- nothing is left of the snapshot, so the sets are empty
    have hempty : ∀ thread t, s.finishers thread = some ⟨t, ∅, ∅⟩ → Bounded t ∅ s.manager := by
      intro thread t hfin
      simpa using hcover thread _ hfin
    have hclear : ∀ thread t, a = .finish thread t → s.finishers thread = some ⟨t, ∅, ∅⟩ →
        (s.manager.txns t).sharedLockSet = ∅ ∧ (s.manager.txns t).exclusiveLockSet = ∅ := by
      intro thread t _ hfin
      obtain ⟨-, hs, hx⟩ := hempty thread t hfin
      exact ⟨Finset.subset_empty.mp hs, Finset.subset_empty.mp hx⟩
    have hkeep : ∀ t, Bounded t ∅ s.manager → Bounded t ∅ s'.manager := fun t hb =>
      (closed_bounded t ∅).step hover hb (hok.stepOk fun _ _ _ _ => trivial) hstep
    refine ⟨closed_acct.step hover hacct (hok.stepOk hclear) hstep,
      hcover.step hacct hover hok hstep, ?_⟩
    rintro t ⟨thread, r, h⟩
    rcases List.mem_append.mp h with h | h
    · exact hkeep t (hfinished t ⟨thread, r, h⟩)
    · obtain ⟨rfl, rfl⟩ := Prod.mk.inj (List.mem_singleton.mp h)
      exact hkeep t (hempty thread t (step_finish hstep).1)

/-- **Lock sets and queues agree.** In every state of every run whose lock calls
take none of the three branches, a transaction that is not inside a lock call
has exactly one granted `SHARED` request for each row of its shared set and one
granted `EXCLUSIVE` request for each row of its exclusive set; the two sets are
disjoint; and once `Commit` or `Abort` has returned, no queue has a request of
the transaction. -/
theorem lockRun_accounts {trace : List (LockAction × Option Bool)} {s : LockSystem}
    (hrun : LockRun SoundStep trace s) {t : TxnId} (hidle : s.suspended t = none) :
    (∀ rid, s.manager.own t rid =
      (if rid ∈ (s.manager.txns t).sharedLockSet then [⟨t, .shared, true⟩] else []) ++
        if rid ∈ (s.manager.txns t).exclusiveLockSet then [⟨t, .exclusive, true⟩] else []) ∧
    Disjoint (s.manager.txns t).sharedLockSet (s.manager.txns t).exclusiveLockSet ∧
    (Finished trace t →
      ∀ rid, ∀ req ∈ (s.manager.lockTable rid).requestQueue, req.txnId ≠ t) := by
  obtain ⟨hacct, -, hfinished⟩ := hrun.accounts
  have hrow : ∀ rid, Account t (s.manager.txns t).state.Over none
      (hasRow (s.manager.txns t).sharedLockSet rid)
      (hasRow (s.manager.txns t).exclusiveLockSet rid) (s.manager.own t rid) := by
    intro rid
    have haccount := hacct.account t rid
    rwa [Waiting.on_of_none hidle] at haccount
  have hexact : ∀ rid, s.manager.own t rid =
      (if rid ∈ (s.manager.txns t).sharedLockSet then [⟨t, .shared, true⟩] else []) ++
        if rid ∈ (s.manager.txns t).exclusiveLockSet then [⟨t, .exclusive, true⟩] else [] := by
    intro rid
    have haccount := hrow rid
    simp only [← hasRow_eq_true]
    generalize hasRow (s.manager.txns t).sharedLockSet rid = inShared at haccount ⊢
    generalize hasRow (s.manager.txns t).exclusiveLockSet rid = inExclusive at haccount ⊢
    generalize s.manager.own t rid = l at haccount ⊢
    cases haccount <;> rfl
  refine ⟨hexact, ?_, fun hfin rid => ?_⟩
  · rw [Finset.disjoint_left]
    intro rid hs hx
    have haccount := hrow rid
    rw [hasRow_eq_true.mpr hs, hasRow_eq_true.mpr hx] at haccount
    cases haccount
  · obtain ⟨-, hs, hx⟩ := hfinished t hfin
    refine (s.manager.own_eq_nil_iff t rid).mp ?_
    rw [hexact, Finset.subset_empty.mp hs, Finset.subset_empty.mp hx]
    simp

/-- A shared lock, a commit, and nothing is left. -/
theorem lockRun_accounts_commit :
    ∃ trace s, LockRun SoundStep trace s ∧ Finished trace 0 ∧ s.suspended 0 = none ∧
      ∀ rid, ∀ req ∈ (s.manager.lockTable rid).requestQueue, req.txnId ≠ 0 := by
  have hrun : LockRun SoundStep _ _ := .step (a := .finish 0 0)
    (.step (a := .release 0 {}) (.step (a := .commit 0 0)
      (.step (a := .lock .shared 0 {}) .init
        (fun _ _ _ => by simp [SoundPass]) rfl) trivial rfl) trivial rfl) trivial rfl
  have hfin : Finished [(.lock .shared 0 {}, some true), (.commit 0 0, none),
      (.release 0 {}, some true), (.finish 0 0, none)] 0 := ⟨0, none, by simp⟩
  exact ⟨_, _, hrun, hfin, rfl, (lockRun_accounts hrun rfl).2.2 hfin⟩

/-- **Shared, then exclusive.** Without the restriction the account fails after
two calls of one transaction: the row is in both lock sets. -/
theorem shared_then_exclusive :
    ¬ ∀ (trace : List (LockAction × Option Bool)) (s : LockSystem) (t : TxnId),
      LockRun (fun _ _ => True) trace s → s.suspended t = none →
      (∀ rid, s.manager.own t rid =
        (if rid ∈ (s.manager.txns t).sharedLockSet then [⟨t, .shared, true⟩] else []) ++
          if rid ∈ (s.manager.txns t).exclusiveLockSet then [⟨t, .exclusive, true⟩] else []) ∧
      Disjoint (s.manager.txns t).sharedLockSet (s.manager.txns t).exclusiveLockSet ∧
      (Finished trace t →
        ∀ rid, ∀ req ∈ (s.manager.lockTable rid).requestQueue, req.txnId ≠ t) := by
  intro h
  have hrun : LockRun (fun _ _ => True) _ _ := .step (a := .lock .exclusive 0 {})
    (.step (a := .lock .shared 0 {}) .init trivial rfl) trivial rfl
  exact absurd (h _ _ 0 hrun rfl).2.1 (by decide)

end OneBase
