import OneBase.Concurrency.LockSystem

/-!
# Sleeping and waking up (`lock_manager.cpp`, `cv_`)

`CvSystem` adds the condition variables to the lock system. A suspended call sleeps
until `notify_all` is called on the queue of its row; then it evaluates its predicate
once more, and passes its wait or sleeps again. `Unlock` notifies when it has erased
a request. `LockUpgrade` erases the requests of its transaction too, when that was
aborted during the wait, and does not notify: a call that sleeps because of these
requests is not woken, and the `Unlock` of `Abort` that comes later finds no request
and does not notify either.

- `CvRun.lockRun`: the runs are runs of the lock system.
- `Blocked`: the wait predicate of a call is false, the disjunct `ABORTED` apart.
- `Keeps`: the requests that block others are kept.
- `SleepersBlocked.step`: a step keeps the sleepers blocked if it is not the last
  request that a sleeper waits for that `LockUpgrade` erases.
- `cvRun_noLostWakeUp`: so no run of such steps loses a wake-up.
- `lost_wakeUp`: a run of three transactions that does.
-/

namespace OneBase

open Cpp

/-! ## The system -/

/-- The lock system, and which of the suspended calls were notified and have not
evaluated their predicate since. -/
structure CvSystem where
  locks : LockSystem := {}
  notified : TxnId → Bool := fun _ => false

namespace CvSystem

/-- `notify_all` on the queue of the row, if `Unlock` returns true. -/
def notify (s : CvSystem) (rid : RID) (result : Option Bool) : CvSystem :=
  if result = some true then
    { s with notified := fun t => s.notified t || (s.locks.suspended.on t rid).isSome }
  else s

/-- One action. A suspended call goes on only after it was notified. -/
def step (s : CvSystem) : LockAction → Option (Option Bool × CvSystem)
  | .lock call t rid =>
    (s.locks.step (.lock call t rid)).map fun (result, locks) =>
      (result, { locks, notified := Function.update s.notified t false })
  | .resume t =>
    if s.notified t then
      match s.locks.suspended t with
      | none => none
      | some (call, rid) =>
        let notified := Function.update s.notified t false
        if s.locks.manager.ready call t rid then
          let (result, locks) := s.locks.resume call t rid
          some (result, { locks, notified })
        else some (none, { s with notified })
    else none
  | .unlock t rid =>
    (s.locks.step (.unlock t rid)).map fun (result, locks) =>
      (result, ({ s with locks }).notify rid result)
  | .release thread rid =>
    (s.locks.step (.release thread rid)).map fun (result, locks) =>
      (result, ({ s with locks }).notify rid result)
  | .markAborted t =>
    (s.locks.step (.markAborted t)).map fun (result, locks) => (result, { s with locks })
  | .commit thread t =>
    (s.locks.step (.commit thread t)).map fun (result, locks) => (result, { s with locks })
  | .abort thread t =>
    (s.locks.step (.abort thread t)).map fun (result, locks) => (result, { s with locks })
  | .finish thread t =>
    (s.locks.step (.finish thread t)).map fun (result, locks) => (result, { s with locks })

end CvSystem

/-- The runs whose steps all satisfy `ok`. -/
inductive CvRun (ok : CvSystem → LockAction → Prop) : CvSystem → Prop where
  | init : CvRun ok {}
  | step {s s' : CvSystem} {a : LockAction} {result : Option Bool} :
      CvRun ok s → ok s a → s.step a = some (result, s') → CvRun ok s'

@[simp] theorem CvSystem.locks_notify (s : CvSystem) (rid : RID) (result : Option Bool) :
    (s.notify rid result).locks = s.locks := by
  unfold notify
  split <;> rfl

/-- A step is one of the lock system, or a call that sleeps again. -/
theorem CvSystem.step_locks {s s' : CvSystem} {a : LockAction} {result : Option Bool}
    (hstep : s.step a = some (result, s')) :
    s'.locks = s.locks ∨ s.locks.step a = some (result, s'.locks) := by
  -- apart from `resume`, the action is passed on
  have hpassed : ∀ {b : LockAction} {f : Option Bool × LockSystem → Option Bool × CvSystem},
      s.step a = (s.locks.step b).map f → (∀ p, ((f p).1, (f p).2.locks) = p) →
      s.locks.step b = some (result, s'.locks) := by
    intro b f hmap hf
    rw [hstep] at hmap
    obtain ⟨p, hlocks, heq⟩ := Option.map_eq_some_iff.mp hmap.symm
    rw [hlocks, ← hf p, heq]
  cases a with
  | resume t =>
    simp only [CvSystem.step] at hstep
    split at hstep
    · split at hstep
      · cases hstep
      · rename_i call rid hsusp
        split at hstep
        · rename_i hready
          obtain ⟨rfl, rfl⟩ := Prod.mk.inj (Option.some.inj hstep)
          refine .inr ?_
          simp only [LockSystem.step, hsusp, if_pos hready]
        · obtain ⟨rfl, rfl⟩ := Prod.mk.inj (Option.some.inj hstep)
          exact .inl rfl
    · cases hstep
  | unlock t rid => exact .inr (hpassed (by rw [CvSystem.step]) fun p => by simp)
  | release thread rid => exact .inr (hpassed (by rw [CvSystem.step]) fun p => by simp)
  | lock call t rid => exact .inr (hpassed (by rw [CvSystem.step]) fun p => by rfl)
  | markAborted t => exact .inr (hpassed (by rw [CvSystem.step]) fun p => by rfl)
  | commit thread t => exact .inr (hpassed (by rw [CvSystem.step]) fun p => by rfl)
  | abort thread t => exact .inr (hpassed (by rw [CvSystem.step]) fun p => by rfl)
  | finish thread t => exact .inr (hpassed (by rw [CvSystem.step]) fun p => by rfl)

/-- **The condition variables only delay calls**: the lock system of a run is that of
a run without them. -/
theorem CvRun.lockRun {ok : CvSystem → LockAction → Prop} {s : CvSystem} (hrun : CvRun ok s) :
    ∃ trace, LockRun (fun _ _ => True) trace s.locks := by
  induction hrun with
  | init => exact ⟨[], .init⟩
  | step _ _ hstep ih =>
    obtain ⟨trace, hlocks⟩ := ih
    rcases CvSystem.step_locks hstep with heq | hlocks'
    · exact ⟨trace, heq ▸ hlocks⟩
    · exact ⟨_, hlocks.step trivial hlocks'⟩

/-! ## Blocked calls -/

/-- The request makes the wait predicate of the call false. -/
def blocks (t : TxnId) (req : LockRequest) : LockCall → Bool
  | .shared => req.granted && req.lockMode = .exclusive
  | .exclusive | .upgrade => req.granted && req.txnId ≠ t

namespace LockManager

/-- The wait predicate is false, the disjunct `ABORTED` apart. -/
def Blocked (m : LockManager) (call : LockCall) (t : TxnId) (rid : RID) : Prop :=
  ∃ req ∈ (m.lockTable rid).requestQueue, blocks t req call = true

theorem ready_iff (m : LockManager) (call : LockCall) (t : TxnId) (rid : RID) :
    m.ready call t rid = true ↔ (m.txns t).state = .aborted ∨ ¬ m.Blocked call t rid := by
  cases call <;>
    simp [ready, lockSharedReady, lockExclusiveReady, lockUpgradeReady, onlyHolder, Blocked, blocks]

/-- The granted requests of the one list are in the other, and have not become
shared. -/
def Keeps (l l' : List LockRequest) : Prop :=
  ∀ req ∈ l, req.granted = true → ∃ req' ∈ l', req'.granted = true ∧ req'.txnId = req.txnId ∧
    (req.lockMode = .exclusive → req'.lockMode = .exclusive)

theorem Keeps.of_subset {l l' : List LockRequest} (h : ∀ req ∈ l, req.granted = true → req ∈ l') :
    Keeps l l' :=
  fun req hreq hg => ⟨req, h req hreq hg, hg, rfl, fun h => h⟩

theorem keeps_modifyFirst {p : LockRequest → Bool} {f : LockRequest → LockRequest}
    (hf : ∀ req, req.granted = true → (f req).granted = true ∧ (f req).txnId = req.txnId ∧
      (req.lockMode = .exclusive → (f req).lockMode = .exclusive)) (l : List LockRequest) :
    Keeps l (modifyFirst p f l) := by
  induction l with
  | nil => exact fun req hreq => absurd hreq List.not_mem_nil
  | cons a l ih =>
    intro req hreq hg
    rw [modifyFirst]
    split
    · rcases List.mem_cons.mp hreq with rfl | hreq
      · exact ⟨f req, List.mem_cons_self, hf req hg⟩
      · exact ⟨req, List.mem_cons_of_mem _ hreq, hg, rfl, fun h => h⟩
    · rcases List.mem_cons.mp hreq with rfl | hreq
      · exact ⟨req, List.mem_cons_self, hg, rfl, fun h => h⟩
      · obtain ⟨req', hreq', h⟩ := ih req hreq hg
        exact ⟨req', List.mem_cons_of_mem _ hreq', h⟩

/-- Reaching a wait keeps the requests. -/
theorem keeps_pushed (t : TxnId) (l : List LockRequest) (call : LockCall) :
    Keeps l (pushed t l call) := by
  cases call with
  | shared => exact .of_subset fun req hreq _ => List.mem_append_left _ hreq
  | exclusive => exact .of_subset fun req hreq _ => List.mem_append_left _ hreq
  | upgrade =>
    show Keeps l (modifyFirst (isShared t) LockRequest.makeExclusive l)
    refine keeps_modifyFirst ?_ l
    exact fun req hg => ⟨hg, rfl, fun _ => rfl⟩

/-- So does a grant. -/
theorem keeps_settled (t : TxnId) (l : List LockRequest) (call : LockCall) :
    Keeps l (settled t l call) := by
  have hgrant : ∀ p, Keeps l (modifyFirst p LockRequest.grant l) := by
    intro p
    refine keeps_modifyFirst ?_ l
    exact fun req _ => ⟨rfl, rfl, fun h => h⟩
  cases call with
  | shared => exact hgrant _
  | exclusive => exact hgrant _
  | upgrade => exact hgrant _

/-- And so do the calls that push a request, when they give it up. -/
theorem keeps_dropped (l : List LockRequest) {call : LockCall} (hcall : call ≠ .upgrade) :
    Keeps l (dropped l call) := by
  cases call with
  | shared => exact .of_subset fun req hreq hg => List.mem_filter.mpr ⟨hreq, hg⟩
  | exclusive => exact .of_subset fun req hreq hg => List.mem_filter.mpr ⟨hreq, hg⟩
  | upgrade => exact absurd rfl hcall

/-- Blocked, by the requests of the transactions. -/
theorem blocked_iff_own {m : LockManager} {call : LockCall} {t : TxnId} {rid : RID} :
    m.Blocked call t rid ↔ ∃ t', ∃ req ∈ m.own t' rid, blocks t req call = true := by
  constructor
  · rintro ⟨req, hreq, hblocks⟩
    exact ⟨req.txnId, req, (m.mem_own _ rid).mpr ⟨hreq, rfl⟩, hblocks⟩
  · rintro ⟨t', req, hreq, hblocks⟩
    exact ⟨req, ((m.mem_own t' rid).mp hreq).1, hblocks⟩

/-- A request that blocks is replaced by one that blocks. -/
theorem blocks_of_keeps {l l' : List LockRequest} (h : Keeps l l') {t : TxnId} {call : LockCall}
    {req : LockRequest} (hreq : req ∈ l) (hblocks : blocks t req call = true) :
    ∃ req' ∈ l', blocks t req' call = true := by
  have hg : req.granted = true := by
    cases call <;> exact (Bool.and_eq_true_iff.mp hblocks).1
  obtain ⟨req', hreq', hg', hid, hmode⟩ := h req hreq hg
  refine ⟨req', hreq', ?_⟩
  cases call with
  | shared =>
    have := (Bool.and_eq_true_iff.mp hblocks).2
    simp [blocks, hg', hmode (by simpa using this)]
  | exclusive =>
    have := (Bool.and_eq_true_iff.mp hblocks).2
    simpa [blocks, hg', hid] using this
  | upgrade =>
    have := (Bool.and_eq_true_iff.mp hblocks).2
    simpa [blocks, hg', hid] using this

/-- **Blocked calls stay blocked** when the requests are kept, or the row is another. -/
theorem Rewrites.blocked {m m' : LockManager} {t₀ : TxnId} {rid₀ : RID} {l : List LockRequest}
    (hrw : Rewrites m m' t₀ rid₀ l) {call : LockCall} {t : TxnId} {rid : RID}
    (hkeeps : rid = rid₀ → Keeps (m.own t₀ rid₀) l) (h : m.Blocked call t rid) :
    m'.Blocked call t rid := by
  obtain ⟨t', req, hreq, hblocks⟩ := blocked_iff_own.mp h
  have hown : Keeps (m.own t' rid) (m'.own t' rid) := by
    by_cases ht : t' = t₀
    · subst ht
      by_cases hr : rid = rid₀
      · subst hr
        rw [hrw.self]
        exact hkeeps rfl
      · rw [hrw.rows rid hr]
        exact .of_subset fun req hreq _ => hreq
    · rw [hrw.others t' ht rid]
      exact .of_subset fun req hreq _ => hreq
  obtain ⟨req', hreq', hblocks'⟩ := blocks_of_keeps hown hreq hblocks
  exact blocked_iff_own.mpr ⟨t', req', hreq', hblocks'⟩

end LockManager

/-! ## Sleepers -/

namespace CvSystem

/-- The call of the transaction sleeps. -/
def Asleep (s : CvSystem) (t : TxnId) (call : LockCall) (rid : RID) : Prop :=
  s.locks.suspended t = some (call, rid) ∧ s.notified t = false

/-- **The invariant**: calls that sleep are blocked. -/
def SleepersBlocked (s : CvSystem) : Prop :=
  ∀ t call rid, s.Asleep t call rid → s.locks.manager.Blocked call t rid

/-- **A lost wake-up**: no `Commit` or `Abort` is under way, no call has still to act
on a notification, and a call sleeps although nothing blocks it. -/
def LostWakeUp (s : CvSystem) : Prop :=
  (∀ thread, s.locks.finishers thread = none) ∧
    (∀ t, s.locks.suspended t ≠ none → s.notified t = false) ∧
    ∃ t call rid, s.Asleep t call rid ∧ ¬ s.locks.manager.Blocked call t rid

/-- A `LockUpgrade` whose transaction was aborted goes on only while each call that
sleeps on the row is blocked by a third transaction as well. -/
def UpgradeOk (s : CvSystem) (a : LockAction) : Prop :=
  ∀ t rid, a = .resume t → s.locks.suspended t = some (.upgrade, rid) →
    (s.locks.manager.txns t).state = .aborted → ∀ t' call, t' ≠ t → s.Asleep t' call rid →
    ∃ req ∈ (s.locks.manager.lockTable rid).requestQueue, req.txnId ≠ t ∧
      blocks t' req call = true

/-- The other calls are blocked as before, and the call of `t` does not sleep, or is
blocked. -/
theorem SleepersBlocked.of_actor {s s' : CvSystem} (h : s.SleepersBlocked) (t : TxnId)
    (hsuspended : ∀ t', t' ≠ t → s'.locks.suspended t' = s.locks.suspended t')
    (hnotified : ∀ t', t' ≠ t → s'.notified t' = s.notified t')
    (hblocked : ∀ t' call rid, t' ≠ t → s.Asleep t' call rid →
      s.locks.manager.Blocked call t' rid → s'.locks.manager.Blocked call t' rid)
    (hself : ∀ call rid, s'.Asleep t call rid → s'.locks.manager.Blocked call t rid) :
    s'.SleepersBlocked := by
  intro t' call rid hasleep
  by_cases ht : t' = t
  · subst ht
    exact hself call rid hasleep
  · have hasleep' : s.Asleep t' call rid :=
      ⟨(hsuspended t' ht).symm.trans hasleep.1, (hnotified t' ht).symm.trans hasleep.2⟩
    exact hblocked t' call rid ht hasleep' (h t' call rid hasleep')

/-- A step that leaves the queues, the suspended calls and the notifications alone. -/
theorem SleepersBlocked.congr {s s' : CvSystem} (h : s.SleepersBlocked)
    (hsuspended : s'.locks.suspended = s.locks.suspended) (hnotified : s'.notified = s.notified)
    (hqueues : s'.locks.manager.lockTable = s.locks.manager.lockTable) : s'.SleepersBlocked := by
  intro t call rid ⟨hsusp, hnot⟩
  rw [hsuspended] at hsusp
  rw [hnotified] at hnot
  have hblocked := h t call rid ⟨hsusp, hnot⟩
  rw [LockManager.Blocked, hqueues]
  exact hblocked

/-- **`Unlock`** notifies the calls on the row, and keeps the other queues. -/
theorem SleepersBlocked.unlock {s : CvSystem} (h : s.SleepersBlocked) (t : TxnId) (rid : RID)
    (finishers : ThreadId → Option Finisher) :
    (notify { s with locks := { s.locks with
      manager := (s.locks.manager.unlock t rid).2, finishers } } rid
      (some (s.locks.manager.unlock t rid).1)).SleepersBlocked := by
  rcases s.locks.manager.unlock_cases t rid with ⟨-, heq⟩ | ⟨-, htrue, -, hrw, -⟩
  · rw [heq]
    exact h.congr rfl rfl rfl
  · rw [htrue]
    rintro t' call rid' ⟨hsusp, hnot⟩
    simp only [notify, if_true, Bool.or_eq_false_iff] at hsusp hnot
    have hne : rid' ≠ rid := by
      rintro rfl
      have hon := Waiting.on_of_some hsusp
      rw [hon] at hnot
      exact absurd hnot.2 (by simp)
    exact hrw.blocked (fun heq => absurd heq hne) (h t' call rid' ⟨hsusp, hnot.1⟩)

/-- **A call passes its wait.** -/
theorem SleepersBlocked.resume {s : CvSystem} (h : s.SleepersBlocked) {call : LockCall} {t : TxnId}
    {rid : RID}
    (hok : call = .upgrade → (s.locks.manager.txns t).state = .aborted →
      ∀ t' call', t' ≠ t → s.Asleep t' call' rid →
        ∃ req ∈ (s.locks.manager.lockTable rid).requestQueue, req.txnId ≠ t ∧
          blocks t' req call' = true) :
    SleepersBlocked ⟨(s.locks.resume call t rid).2, Function.update s.notified t false⟩ := by
  refine h.of_actor t (fun t' ht => Function.update_of_ne ht ..)
    (fun t' ht => Function.update_of_ne ht ..) ?_ ?_
  · intro t' call' rid' ht hasleep hblocked
    show (s.locks.manager.tail call t rid).2.Blocked call' t' rid'
    by_cases haborted : (s.locks.manager.txns t).state = .aborted
    · obtain ⟨-, -, hrw, -⟩ := s.locks.manager.tail_aborted call t rid haborted
      by_cases hcall : call = .upgrade
      · by_cases hrid : rid' = rid
        · subst hrid
          obtain ⟨req, hreq, hne, hblocks⟩ := hok hcall haborted t' call' ht hasleep
          refine LockManager.blocked_iff_own.mpr ⟨req.txnId, req, ?_, hblocks⟩
          rw [hrw.others _ hne]
          exact (s.locks.manager.mem_own _ rid').mpr ⟨hreq, rfl⟩
        · exact hrw.blocked (fun heq => absurd heq hrid) hblocked
      · exact hrw.blocked (fun _ => LockManager.keeps_dropped _ hcall) hblocked
    · obtain ⟨-, -, hrw, -⟩ := s.locks.manager.tail_granted call t rid haborted
      exact hrw.blocked (fun _ => LockManager.keeps_settled _ _ _) hblocked
  · intro call' rid' hasleep
    have hnone : Function.update s.locks.suspended t none t = none := Function.update_self ..
    exact absurd (hnone.symm.trans hasleep.1) (by simp)

/-- **A call reaches its wait**, and sleeps if it is blocked. -/
theorem SleepersBlocked.wait {s : CvSystem} (h : s.SleepersBlocked) {call : LockCall} {t : TxnId}
    {rid : RID} {m : LockManager} (henter : s.locks.manager.enter call t rid = (none, m))
    {b : Bool} (hself : b = false → m.Blocked call t rid) :
    SleepersBlocked ⟨{ s.locks with
      manager := m, suspended := Function.update s.locks.suspended t (some (call, rid)) },
      Function.update s.notified t b⟩ := by
  obtain ⟨-, -, -, hrw, -⟩ := LockManager.enter_wait henter
  refine h.of_actor t (fun t' ht => Function.update_of_ne ht ..)
    (fun t' ht => Function.update_of_ne ht ..) ?_ ?_
  · intro t' call' rid' _ _ hblocked
    exact hrw.blocked (fun _ => LockManager.keeps_pushed _ _ _) hblocked
  · rintro call' rid' ⟨hsusp, hnot⟩
    simp only [Function.update_self, Option.some.injEq, Prod.mk.injEq] at hsusp hnot
    obtain ⟨rfl, rfl⟩ := hsusp
    exact hself hnot

/-- A lock method that returned before its wait changed no queue. -/
theorem lockTable_enter_returned {m m' : LockManager} {call : LockCall} {t : TxnId} {rid : RID}
    {result : Bool} (henter : m.enter call t rid = (some result, m')) :
    m'.lockTable = m.lockTable := by
  rcases LockManager.enter_returned henter with ⟨rfl, -⟩ | ⟨rfl, -⟩
  · rfl
  · rfl

/-- **One step** keeps the sleepers blocked. -/
theorem SleepersBlocked.step {s s' : CvSystem} (h : s.SleepersBlocked) {a : LockAction}
    {result : Option Bool} (hok : s.UpgradeOk a) (hstep : s.step a = some (result, s')) :
    s'.SleepersBlocked := by
  cases a with
  | lock call t rid =>
    obtain ⟨⟨r, locks⟩, hlocks, heq⟩ := Option.map_eq_some_iff.mp hstep
    obtain ⟨rfl, rfl⟩ := Prod.mk.inj heq
    obtain ⟨hidle, ⟨b, m, henter, -, rfl⟩ | ⟨m, waiting, henter, rfl, hcases⟩⟩ :=
      LockSystem.step_lock hlocks
    · have hqueues := lockTable_enter_returned henter
      refine h.of_actor t (fun _ _ => rfl) (fun t' ht => Function.update_of_ne ht ..) ?_ ?_
      · intro t' call' rid' _ _ hblocked
        rw [LockManager.Blocked] at hblocked ⊢
        rw [hqueues]
        exact hblocked
      · intro call' rid' hasleep
        exact absurd (hidle.symm.trans hasleep.1) (by simp)
    · obtain ⟨hready, hresumed⟩ | ⟨hready, -, rfl⟩ := hcases
      · obtain ⟨-, rfl⟩ := Prod.mk.inj hresumed
        -- the call does not sleep, so it may count as notified at its wait
        have hwait := h.wait henter (b := true) (fun hb => absurd hb (by simp))
        have hgrow : (m.txns t).state ≠ .aborted := by
          obtain ⟨hmay, -, htxns, -⟩ := LockManager.enter_wait henter
          rw [htxns]
          rcases hmay with hmay | hmay <;> simp [hmay]
        have hresume := @SleepersBlocked.resume _ hwait call t rid
          fun _ haborted => absurd haborted hgrow
        simp only [Function.update_idem] at hresume
        exact hresume
      · refine h.wait henter fun _ => ?_
        by_contra hblocked
        have hpass := (m.ready_iff call t rid).mpr (.inr hblocked)
        exact absurd (hready.symm.trans hpass) (by simp)
  | resume t =>
    simp only [CvSystem.step] at hstep
    split at hstep
    · split at hstep
      · cases hstep
      · rename_i call rid hsusp
        split at hstep
        · obtain ⟨rfl, rfl⟩ := Prod.mk.inj (Option.some.inj hstep)
          refine h.resume fun hcall haborted => ?_
          subst hcall
          exact hok t rid rfl hsusp haborted
        · rename_i hready
          obtain ⟨rfl, rfl⟩ := Prod.mk.inj (Option.some.inj hstep)
          refine h.of_actor t (fun _ _ => rfl) (fun t' ht => Function.update_of_ne ht ..)
            (fun _ _ _ _ _ hblocked => hblocked) ?_
          rintro call' rid' ⟨hsusp', -⟩
          obtain ⟨rfl, rfl⟩ := Prod.mk.inj (Option.some.inj (hsusp.symm.trans hsusp'))
          by_contra hblocked
          exact hready ((s.locks.manager.ready_iff call t rid).mpr (.inr hblocked))
    · cases hstep
  | unlock t rid =>
    obtain ⟨⟨r, locks⟩, hlocks, heq⟩ := Option.map_eq_some_iff.mp hstep
    obtain ⟨rfl, rfl⟩ := Prod.mk.inj heq
    obtain ⟨-, rfl, rfl⟩ := LockSystem.step_unlock hlocks
    exact h.unlock t rid s.locks.finishers
  | release thread rid =>
    obtain ⟨⟨r, locks⟩, hlocks, heq⟩ := Option.map_eq_some_iff.mp hstep
    obtain ⟨rfl, rfl⟩ := Prod.mk.inj heq
    obtain ⟨fin, left, -, -, -, hrelease⟩ := LockSystem.step_release hlocks
    obtain ⟨rfl, rfl⟩ := Prod.mk.inj hrelease
    exact h.unlock fin.txn rid _
  | markAborted t =>
    obtain ⟨rfl, rfl⟩ := Prod.mk.inj (Option.some.inj hstep)
    exact h.congr rfl rfl rfl
  | commit thread t =>
    obtain ⟨⟨r, locks⟩, hlocks, heq⟩ := Option.map_eq_some_iff.mp hstep
    obtain ⟨rfl, rfl⟩ := Prod.mk.inj heq
    obtain rfl := LockSystem.step_commit hlocks
    exact h.congr rfl rfl rfl
  | abort thread t =>
    obtain ⟨⟨r, locks⟩, hlocks, heq⟩ := Option.map_eq_some_iff.mp hstep
    obtain ⟨rfl, rfl⟩ := Prod.mk.inj heq
    obtain rfl := LockSystem.step_abort hlocks
    exact h.congr rfl rfl rfl
  | finish thread t =>
    obtain ⟨⟨r, locks⟩, hlocks, heq⟩ := Option.map_eq_some_iff.mp hstep
    obtain ⟨rfl, rfl⟩ := Prod.mk.inj heq
    obtain ⟨-, rfl⟩ := LockSystem.step_finish hlocks
    exact h.congr rfl rfl rfl

end CvSystem

open CvSystem

/-- Along every run the sleepers are blocked. -/
theorem CvRun.sleepersBlocked {s : CvSystem} (hrun : CvRun UpgradeOk s) : s.SleepersBlocked := by
  induction hrun with
  | init => exact fun t call rid hasleep => (nomatch hasleep.1)
  | step _ hok hstep ih => exact ih.step hok hstep

/-- **No lost wake-up**, in every run in which an aborted `LockUpgrade` goes on only
while each call that sleeps on the row is blocked by a third transaction. -/
theorem cvRun_noLostWakeUp {s : CvSystem} (hrun : CvRun UpgradeOk s) : ¬ s.LostWakeUp := by
  rintro ⟨-, -, t, call, rid, hasleep, hfree⟩
  exact hfree (hrun.sleepersBlocked t call rid hasleep)

/-! ## A lost wake-up -/

/-- The actions, if they are all possible. -/
def CvSystem.exec (s : CvSystem) : List LockAction → Option CvSystem
  | [] => some s
  | a :: actions =>
    match s.step a with
    | none => none
    | some (_, s') => exec s' actions

theorem CvRun.exec {s s' : CvSystem} {actions : List LockAction}
    (hrun : CvRun (fun _ _ => True) s) (h : s.exec actions = some s') :
    CvRun (fun _ _ => True) s' := by
  induction actions generalizing s with
  | nil => exact Option.some.inj h ▸ hrun
  | cons a actions ih =>
    rw [CvSystem.exec] at h
    split at h
    · cases h
    · rename_i hstep
      exact ih (hrun.step trivial hstep) h

/-- Two readers, of which the first waits for an upgrade and a third reader waits for
it. The first is aborted. The other reader unlocks, which wakes the two; the third
sleeps again, and then the first erases its request. The `Unlock` of `Abort` finds
nothing to erase. -/
def lostWakeUpActions : List LockAction :=
  [.lock .shared 1 {}, .lock .shared 2 {}, .lock .upgrade 1 {}, .lock .shared 3 {},
    .abort 0 1, .unlock 2 {}, .resume 3, .resume 1, .release 0 {}, .finish 0 1]

/-- What the state after these actions is, where the proof below looks. -/
theorem exec_lostWakeUpActions : ∃ s, ({} : CvSystem).exec lostWakeUpActions = some s ∧
    (∀ thread, s.locks.finishers thread = none) ∧
    (∀ t, t ≠ 3 → s.locks.suspended t = none) ∧ s.Asleep 3 .shared {} ∧
    (s.locks.manager.lockTable {}).requestQueue = [⟨3, .shared, false⟩] := by
  refine ⟨_, rfl, fun thread => ?_, fun t h3 => ?_, ⟨rfl, rfl⟩, rfl⟩
  · -- one thread began, unlocked a row and ended
    show Function.update (Function.update (Function.update (fun _ => none) 0 _) 0 _) 0 none thread =
      none
    by_cases h0 : thread = 0
    · rw [h0, Function.update_self]
    · simp [h0]
  · show Function.update (Function.update (Function.update (Function.update (Function.update
      (Function.update (Function.update (fun _ => none) 1 _) 1 _) 2 _) 2 none) 1 _) 3 _) 1 none t =
      none
    by_cases h1 : t = 1
    · rw [h1, Function.update_self]
    · simp [h1, h3]

/-- **The third reader sleeps for ever.** -/
theorem lost_wakeUp : ¬ ∀ s : CvSystem, CvRun (fun _ _ => True) s → ¬ s.LostWakeUp := by
  intro h
  obtain ⟨s, hexec, hfinishers, hsuspended, hasleep, hqueue⟩ := exec_lostWakeUpActions
  refine h s (CvRun.init.exec hexec) ⟨hfinishers, fun t ht => ?_, 3, .shared, {}, hasleep, ?_⟩
  · by_cases h3 : t = 3
    · exact h3 ▸ hasleep.2
    · exact absurd (hsuspended t h3) ht
  · rintro ⟨req, hreq, hblocks⟩
    rw [hqueue] at hreq
    obtain rfl := List.mem_singleton.mp hreq
    cases hblocks

/-- A reader unlocks, which wakes a writer. -/
theorem cvRun_noLostWakeUp_unlock : ∃ s, CvRun UpgradeOk s ∧ s.notified 2 = true ∧
    ¬ s.LostWakeUp := by
  have hok : ∀ (s : CvSystem) (call : LockCall) (t : TxnId) (rid : RID),
      s.UpgradeOk (.lock call t rid) := fun _ _ _ _ _ _ h => (nomatch h)
  have hunlock : ∀ s : CvSystem, s.UpgradeOk (.unlock 1 {}) := fun _ _ _ h => (nomatch h)
  have hrun : CvRun UpgradeOk _ := .step (a := .unlock 1 {})
    (.step (a := .lock .exclusive 2 {}) (.step (a := .lock .shared 1 {}) .init (hok _ _ _ _) rfl)
      (hok _ _ _ _) rfl) (hunlock _) rfl
  exact ⟨_, hrun, rfl, cvRun_noLostWakeUp hrun⟩

end OneBase
