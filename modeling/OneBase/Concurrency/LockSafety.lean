import OneBase.Concurrency.LockSystem

/-!
# Exclusive locks exclude

For a transaction that is `GROWING`, the requests in a queue are known exactly:
`GrowShape` lists them by the call it is suspended in and by the lock sets that
have the row. `Safe` adds to this what holds between transactions. The one
queue in which a granted `EXCLUSIVE` request stands next to a granted request of
another transaction is that of an upgrader, whose request is flipped before its
wait and is in no lock set as `EXCLUSIVE` yet.

- `GrowShape.pushed`, `GrowShape.settled`: a call up to its wait, and after it.
- `closed_safe`: every operation keeps `Safe`.
- `lockRun_exclusive`: mutual exclusion, and the meaning of `upgrading_`, along
  every run.
-/

namespace OneBase

open Cpp LockManager

/-! ## The requests of a growing transaction -/

/-- The requests of a `GROWING` transaction for one row, by the call it is
suspended in there and by whether its shared and its exclusive set have the row. -/
inductive GrowShape (t : TxnId) :
    Option LockCall → Bool → Bool → List LockRequest → Prop where
  | free : GrowShape t none false false []
  | shared : GrowShape t none true false [⟨t, .shared, true⟩]
  | exclusive : GrowShape t none false true [⟨t, .exclusive, true⟩]
  /-- `LockExclusive` does not look at the shared set. -/
  | both : GrowShape t none true true [⟨t, .shared, true⟩, ⟨t, .exclusive, true⟩]
  | upgradedBoth : GrowShape t none false true [⟨t, .exclusive, true⟩, ⟨t, .exclusive, true⟩]
  | waitShared : GrowShape t (some .shared) false false [⟨t, .shared, false⟩]
  | waitExclusive : GrowShape t (some .exclusive) false false [⟨t, .exclusive, false⟩]
  | waitBoth : GrowShape t (some .exclusive) true false
      [⟨t, .shared, true⟩, ⟨t, .exclusive, false⟩]
  | waitUpgrade : GrowShape t (some .upgrade) true false [⟨t, .exclusive, true⟩]
  | waitUpgradeBoth : GrowShape t (some .upgrade) true true
      [⟨t, .exclusive, true⟩, ⟨t, .exclusive, true⟩]

namespace GrowShape

variable {t : TxnId} {inShared inExclusive : Bool} {l : List LockRequest} {call : LockCall}

/-- What a lock method has checked when it reaches its wait, for one row. -/
def Checked (t : TxnId) (inShared inExclusive : Bool) (l : List LockRequest) :
    LockCall → Prop
  | .shared => inShared = false ∧ inExclusive = false
  | .exclusive => inExclusive = false
  | .upgrade => ∃ req ∈ l, isShared t req = true

/-- Up to the wait. -/
theorem pushed (h : GrowShape t none inShared inExclusive l)
    (hcheck : Checked t inShared inExclusive l call) :
    GrowShape t (some call) inShared inExclusive (LockManager.pushed t l call) := by
  cases call with
  | shared =>
    obtain ⟨rfl, rfl⟩ := hcheck
    cases h
    exact .waitShared
  | exclusive =>
    obtain rfl : inExclusive = false := hcheck
    cases h with
    | free => exact .waitExclusive
    | shared => exact .waitBoth
  | upgrade =>
    obtain ⟨req, hreq, hshared⟩ := hcheck
    cases h with
    | free => exact absurd hreq List.not_mem_nil
    | shared =>
      simp only [LockManager.pushed, modifyFirst, isShared, LockRequest.makeExclusive]
      exact (by simpa using .waitUpgrade)
    | both =>
      simp only [LockManager.pushed, modifyFirst, isShared, LockRequest.makeExclusive]
      exact (by simpa using .waitUpgradeBoth)
    | exclusive | upgradedBoth =>
      simp [isShared] at hreq hshared
      simp [hreq] at hshared

/-- The lock sets after a granted call. -/
def settledSets (inShared inExclusive : Bool) : LockCall → Bool × Bool
  | .shared => (true, inExclusive)
  | .exclusive => (inShared, true)
  | .upgrade => (false, true)

/-- After the wait, when the call is granted. -/
theorem settled (h : GrowShape t (some call) inShared inExclusive l) :
    GrowShape t none (settledSets inShared inExclusive call).1
      (settledSets inShared inExclusive call).2 (LockManager.settled t l call) := by
  cases h with
  | waitShared =>
    simpa [settledSets, LockManager.settled, modifyFirst, LockRequest.grant] using GrowShape.shared
  | waitExclusive =>
    simpa [settledSets, LockManager.settled, modifyFirst, LockRequest.grant]
      using GrowShape.exclusive
  | waitBoth =>
    simpa [settledSets, LockManager.settled, modifyFirst, LockRequest.grant] using GrowShape.both
  | waitUpgrade =>
    simpa [settledSets, LockManager.settled, modifyFirst, LockRequest.grant]
      using GrowShape.exclusive
  | waitUpgradeBoth =>
    simpa [settledSets, LockManager.settled, modifyFirst, LockRequest.grant]
      using GrowShape.upgradedBoth

/-- A row of the exclusive set has a granted exclusive request. -/
theorem granted_exclusive {pending : Option LockCall}
    (h : GrowShape t pending inShared true l) :
    ∃ req ∈ l, req.granted = true ∧ req.lockMode = .exclusive := by
  cases h <;> simp

/-- A row of the shared set has a granted request. -/
theorem granted_of_shared {pending : Option LockCall}
    (h : GrowShape t pending true inExclusive l) : ∃ req ∈ l, req.granted = true := by
  cases h <;> simp

/-- Upgraders have a granted exclusive request. -/
theorem granted_upgrade (h : GrowShape t (some .upgrade) inShared inExclusive l) :
    ∃ req ∈ l, req.granted = true ∧ req.lockMode = .exclusive := by
  cases h <;> simp

end GrowShape

/-! ## The invariant -/

/-- What holds between the queues, the lock sets and the suspended calls. -/
structure Safe (m : LockManager) (w : Waiting) : Prop where
  growing : ∀ t, (m.txns t).state = .growing → ∀ r,
    GrowShape t (w.on t r) (hasRow (m.txns t).sharedLockSet r)
      (hasRow (m.txns t).exclusiveLockSet r) (m.own t r)
  shrinking : ∀ t, (m.txns t).state = .shrinking → w t = none ∧ ∀ r,
    (r ∈ (m.txns t).exclusiveLockSet →
      ∃ req ∈ m.own t r, req.granted = true ∧ req.lockMode = .exclusive) ∧
    (r ∈ (m.txns t).sharedLockSet → ∃ req ∈ m.own t r, req.granted = true)
  compatible : ∀ r t₁ t₂, t₁ ≠ t₂ → ∀ req₁ ∈ m.own t₁ r, ∀ req₂ ∈ m.own t₂ r,
    req₁.granted = true → req₂.granted = true → req₂.lockMode = .exclusive →
    w t₂ = some (.upgrade, r)
  upgrader_alone : ∀ t r, (m.txns t).state = .growing → w t = some (.upgrade, r) →
    r ∈ (m.txns t).exclusiveLockSet → ∀ t', t' ≠ t → ∀ req ∈ m.own t' r, req.granted = false
  flag : ∀ r, (m.lockTable r).upgrading = true ↔ ∃ t, w t = some (.upgrade, r)
  unique : ∀ r t t', w t = some (.upgrade, r) → w t' = some (.upgrade, r) → t = t'

theorem safe_init : Safe {} fun _ => none where
  growing := fun _ _ _ => .free
  shrinking := fun _ h => (nomatch h)
  compatible := fun _ _ _ _ _ h => absurd h List.not_mem_nil
  upgrader_alone := fun _ _ _ h => (nomatch h)
  flag := fun _ => ⟨fun h => (nomatch h), fun ⟨_, h⟩ => (nomatch h)⟩
  unique := fun _ _ _ h => (nomatch h)

/-- Why a granted request of `t` in the new state does no harm: it was granted
before, or no other transaction has a granted request, or it is shared and so
are all the others. -/
def Harmless (m : LockManager) (w w' : Waiting) (t : TxnId) (r : RID) (req : LockRequest) :
    Prop :=
  (∃ req₀ ∈ m.own t r, req₀.granted = true ∧
      (req.lockMode = .exclusive → w' t = some (.upgrade, r) ∨ req₀.lockMode = .exclusive ∧
        (w t = some (.upgrade, r) → w' t = some (.upgrade, r)))) ∨
    (∀ t', t' ≠ t → ∀ req' ∈ m.own t' r, req'.granted = false) ∨
    req.lockMode = .shared ∧
      ∀ t', t' ≠ t → ∀ req' ∈ m.own t' r, req'.granted = true → req'.lockMode = .shared

/-- An operation of `t` touches the record, the requests and the suspended call
of `t` only. It keeps the invariant if `t` is left well-formed and its granted
requests are harmless. -/
theorem Safe.of_actor {m m' : LockManager} {w w' : Waiting} (h : Safe m w) (t : TxnId)
    (htxns : ∀ t', t' ≠ t → m'.txns t' = m.txns t')
    (hown : ∀ t', t' ≠ t → ∀ r, m'.own t' r = m.own t' r)
    (hw : ∀ t', t' ≠ t → w' t' = w t')
    (hgrowing : (m'.txns t).state = .growing → ∀ r,
      GrowShape t (w'.on t r) (hasRow (m'.txns t).sharedLockSet r)
        (hasRow (m'.txns t).exclusiveLockSet r) (m'.own t r))
    (hshrinking : (m'.txns t).state = .shrinking → w' t = none ∧ ∀ r,
      (r ∈ (m'.txns t).exclusiveLockSet →
        ∃ req ∈ m'.own t r, req.granted = true ∧ req.lockMode = .exclusive) ∧
      (r ∈ (m'.txns t).sharedLockSet → ∃ req ∈ m'.own t r, req.granted = true))
    (hharmless : ∀ r, ∀ req ∈ m'.own t r, req.granted = true → Harmless m w w' t r req)
    (halone : ∀ r, (m'.txns t).state = .growing → w' t = some (.upgrade, r) →
      r ∈ (m'.txns t).exclusiveLockSet →
      ∀ t', t' ≠ t → ∀ req ∈ m.own t' r, req.granted = false)
    (hflag : ∀ r, (m'.lockTable r).upgrading = true ↔ ∃ t, w' t = some (.upgrade, r))
    (hunique : ∀ r t', w' t = some (.upgrade, r) → w' t' = some (.upgrade, r) → t' = t) :
    Safe m' w' := by
  have hon : ∀ t', t' ≠ t → ∀ r, w'.on t' r = w.on t' r := by
    intro t' ht r
    simp only [Waiting.on, hw t' ht]
  constructor
  case growing =>
    intro t' hstate r
    by_cases ht : t' = t
    · subst ht
      exact hgrowing hstate r
    · rw [htxns t' ht] at hstate ⊢
      rw [hon t' ht, hown t' ht]
      exact h.growing t' hstate r
  case shrinking =>
    intro t' hstate
    by_cases ht : t' = t
    · subst ht
      exact hshrinking hstate
    · rw [htxns t' ht] at hstate ⊢
      rw [hw t' ht]
      simpa only [hown t' ht] using h.shrinking t' hstate
  case compatible =>
    intro r t₁ t₂ hne req₁ hreq₁ req₂ hreq₂ hg₁ hg₂ hmode
    by_cases ht₁ : t₁ = t
    · -- the other transaction holds the exclusive request
      subst ht₁
      have ht₂ := Ne.symm hne
      rw [hown t₂ ht₂] at hreq₂
      rw [hw t₂ ht₂]
      rcases hharmless r req₁ hreq₁ hg₁ with ⟨req₀, hreq₀, hg₀, -⟩ | hnone | ⟨-, hshared⟩
      · exact h.compatible r t₁ t₂ hne req₀ hreq₀ req₂ hreq₂ hg₀ hg₂ hmode
      · rw [hnone t₂ ht₂ req₂ hreq₂] at hg₂
        cases hg₂
      · rw [hshared t₂ ht₂ req₂ hreq₂ hg₂] at hmode
        cases hmode
    · rw [hown t₁ ht₁] at hreq₁
      by_cases ht₂ : t₂ = t
      · subst ht₂
        rcases hharmless r req₂ hreq₂ hg₂ with ⟨req₀, hreq₀, hg₀, hx⟩ | hnone | ⟨hs, -⟩
        · rcases hx hmode with hup | ⟨hx₀, hkeep⟩
          · exact hup
          · exact hkeep (h.compatible r t₁ t₂ hne req₁ hreq₁ req₀ hreq₀ hg₁ hg₀ hx₀)
        · rw [hnone t₁ ht₁ req₁ hreq₁] at hg₁
          cases hg₁
        · rw [hs] at hmode
          cases hmode
      · rw [hown t₂ ht₂] at hreq₂
        rw [hw t₂ ht₂]
        exact h.compatible r t₁ t₂ hne req₁ hreq₁ req₂ hreq₂ hg₁ hg₂ hmode
  case upgrader_alone =>
    intro t₁ r hstate hup hmem t' ht' req hreq
    by_cases ht₁ : t₁ = t
    · subst ht₁
      rw [hown t' ht'] at hreq
      exact halone r hstate hup hmem t' ht' req hreq
    · rw [htxns t₁ ht₁] at hstate hmem
      rw [hw t₁ ht₁] at hup
      by_cases ht : t' = t
      · subst ht
        -- the upgrader has a granted exclusive request, so `t` got nothing new
        have hshape := h.growing t₁ hstate r
        rw [Waiting.on_of_some hup] at hshape
        obtain ⟨req₁, hreq₁, hg₁, hx₁⟩ := hshape.granted_upgrade
        cases hg : req.granted with
        | false => rfl
        | true =>
          rcases hharmless r req hreq hg with ⟨req₀, hreq₀, hg₀, -⟩ | hnone | ⟨-, hshared⟩
          · rw [h.upgrader_alone t₁ r hstate hup hmem t' ht' req₀ hreq₀] at hg₀
            cases hg₀
          · rw [hnone t₁ ht₁ req₁ hreq₁] at hg₁
            cases hg₁
          · rw [hshared t₁ ht₁ req₁ hreq₁ hg₁] at hx₁
            cases hx₁
      · rw [hown t' ht] at hreq
        exact h.upgrader_alone t₁ r hstate hup hmem t' ht' req hreq
  case flag => exact hflag
  case unique =>
    intro r t₁ t₂ h₁ h₂
    by_cases ht₁ : t₁ = t
    · subst ht₁
      exact (hunique r t₂ h₁ h₂).symm
    · by_cases ht₂ : t₂ = t
      · subst ht₂
        exact hunique r t₁ h₂ h₁
      · rw [hw t₁ ht₁] at h₁
        rw [hw t₂ ht₂] at h₂
        exact h.unique r t₁ t₂ h₁ h₂

/-! ## Every operation keeps the invariant -/

namespace Safe

variable {m m' : LockManager} {w : Waiting} {t : TxnId} {rid : RID} {call : LockCall}

theorem setState (h : Safe m w) (t : TxnId) {state : TransactionState} (hover : state.Over) :
    Safe (m.setState t state) w := by
  have hstate : ((m.setState t state).txns t).state = state := by simp [LockManager.setState]
  have hlive : ∀ {P : Prop}, state = .growing ∨ state = .shrinking → P := by
    rintro P (rfl | rfl) <;> rcases hover with h | h <;> cases h
  refine h.of_actor t (fun t' ht => m.txns_modifyTxn_ne _ ht) (fun _ _ _ => rfl)
    (fun _ _ => rfl) (fun hg => hlive (.inl (hstate ▸ hg))) (fun hs => hlive (.inr (hstate ▸ hs)))
    (fun r req hreq hg => ?_) (fun r hg => hlive (.inl (hstate ▸ hg))) h.flag
    fun r t' ht ht' => h.unique r t' t ht' ht
  exact .inl ⟨req, hreq, hg, fun hx => .inr ⟨hx, id⟩⟩

theorem wait (h : Safe m w) (hidle : w t = none) (henter : m.enter call t rid = (none, m')) :
    Safe m' (Function.update w t (some (call, rid))) := by
  obtain ⟨hmay, hentered, htxns, hrw, hupg⟩ := enter_wait henter
  have hw : ∀ t', t' ≠ t → Function.update w t (some (call, rid)) t' = w t' :=
    fun t' ht => Function.update_of_ne ht _ _
  have hon : ∀ r, w.on t r = none := Waiting.on_of_none hidle
  have hnot : ∀ {P : Prop} {r : RID}, w t = some (.upgrade, r) → P := by
    intro P r hup
    rw [hidle] at hup
    cases hup
  refine h.of_actor t (fun t' _ => by rw [htxns]) hrw.others hw (fun hg r => ?_) (fun hs => ?_)
    (fun r req hreq hg => ?_) (fun r hg hup hmem => ?_) (fun r => ?_) (fun r t' hup hup' => ?_)
  · rw [htxns] at hg ⊢
    have hshape := h.growing t hg r
    rw [hon r] at hshape
    by_cases hr : r = rid
    · subst hr
      rw [Waiting.on_update_self, hrw.self]
      refine hshape.pushed ?_
      cases call with
      | shared => exact ⟨hasRow_eq_false.mpr hentered.1, hasRow_eq_false.mpr hentered.2⟩
      | exclusive => exact hasRow_eq_false.mpr hentered
      | upgrade => exact hentered.2
    · rw [Waiting.on_update_rows w hr, hrw.rows r hr]
      exact hshape
  · rw [htxns] at hs
    rcases hmay with hmay | hmay <;> rw [hmay] at hs <;> cases hs
  · by_cases hr : r = rid
    · subst hr
      rw [hrw.self] at hreq
      cases call with
      | shared | exclusive =>
        rcases List.mem_append.mp hreq with hreq | hreq
        · exact .inl ⟨req, hreq, hg, fun hx => .inr ⟨hx, hnot⟩⟩
        · rw [List.mem_singleton.mp hreq] at hg
          cases hg
      | upgrade =>
        rcases mem_modifyFirst hreq with hreq | ⟨req₀, hreq₀, -, rfl⟩
        · exact .inl ⟨req, hreq, hg, fun hx => .inr ⟨hx, hnot⟩⟩
        · exact .inl ⟨req₀, hreq₀, hg, fun _ => .inl (Function.update_self ..)⟩
    · rw [hrw.rows r hr] at hreq
      exact .inl ⟨req, hreq, hg, fun hx => .inr ⟨hx, hnot⟩⟩
  · -- an upgrader that holds the row exclusively already is alone in the queue
    rw [htxns] at hg hmem
    rw [Function.update_self] at hup
    cases hup
    have hshape := h.growing t hg rid
    rw [hasRow_eq_true.mpr hmem] at hshape
    obtain ⟨req₀, hreq₀, hg₀, hx₀⟩ := hshape.granted_exclusive
    intro t' ht req hreq
    cases hgr : req.granted with
    | false => rfl
    | true => exact hnot (h.compatible rid t' t ht req hreq req₀ hreq₀ hgr hg₀ hx₀)
  · rw [hupg]
    by_cases hup : call = .upgrade ∧ r = rid
    · obtain ⟨rfl, rfl⟩ := hup
      simp only [and_self, if_true, true_iff]
      exact ⟨t, Function.update_self ..⟩
    · rw [if_neg hup, h.flag]
      constructor
      · rintro ⟨t', ht'⟩
        have ht : t' ≠ t := by
          rintro rfl
          exact hnot ht'
        exact ⟨t', (hw t' ht).trans ht'⟩
      · rintro ⟨t', ht'⟩
        by_cases ht : t' = t
        · subst ht
          rw [Function.update_self] at ht'
          cases ht'
          exact absurd ⟨rfl, rfl⟩ hup
        · exact ⟨t', (hw t' ht).symm.trans ht'⟩
  · rw [Function.update_self] at hup
    cases hup
    by_contra ht
    have hflag := (h.flag rid).mpr ⟨t', (hw t' ht).symm.trans hup'⟩
    rw [hentered.1] at hflag
    cases hflag

/-- The flag after a suspended call has ended. -/
theorem flag_ended (h : Safe m w) (hsusp : w t = some (call, rid))
    (hupg : ∀ r, (m'.lockTable r).upgrading =
      if call = .upgrade ∧ r = rid then false else (m.lockTable r).upgrading) (r : RID) :
    (m'.lockTable r).upgrading = true ↔
      ∃ t', Function.update w t none t' = some (.upgrade, r) := by
  have hne : ∀ t', Function.update w t none t' = some (.upgrade, r) →
      t' ≠ t ∧ w t' = some (.upgrade, r) := by
    intro t' ht'
    by_cases ht : t' = t
    · subst ht
      rw [Function.update_self] at ht'
      cases ht'
    · exact ⟨ht, (Function.update_of_ne ht _ _).symm.trans ht'⟩
  rw [hupg]
  by_cases hup : call = .upgrade ∧ r = rid
  · obtain ⟨rfl, rfl⟩ := hup
    simp only [and_self, if_true, Bool.false_eq_true, false_iff, not_exists]
    intro t' ht'
    obtain ⟨ht, hw⟩ := hne t' ht'
    exact ht (h.unique r t' t hw hsusp)
  · rw [if_neg hup, h.flag]
    constructor
    · rintro ⟨t', ht'⟩
      have ht : t' ≠ t := by
        rintro rfl
        rw [hsusp] at ht'
        obtain ⟨hc, hr⟩ := Prod.mk.inj (Option.some.inj ht')
        exact hup ⟨hc, hr.symm⟩
      exact ⟨t', (Function.update_of_ne ht _ _).trans ht'⟩
    · rintro ⟨t', ht'⟩
      exact ⟨t', (hne t' ht').2⟩

theorem tail (h : Safe m w) (hsusp : w t = some (call, rid))
    (hready : m.ready call t rid = true) :
    Safe (m.tail call t rid).2 (Function.update w t none) := by
  have hw : ∀ t', t' ≠ t → Function.update w t none t' = w t' :=
    fun t' ht => Function.update_of_ne ht _ _
  have hnone : Function.update w t none t = none := Function.update_self ..
  by_cases hstate : (m.txns t).state = .aborted
  · obtain ⟨-, htxns, hrw, hupg⟩ := m.tail_aborted call t rid hstate
    refine h.of_actor t (fun t' _ => by rw [htxns]) hrw.others hw (fun hg => ?_) (fun hs => ?_)
      (fun r req hreq hg => ?_) (fun r _ hup => ?_) (h.flag_ended hsusp hupg) (fun r t' hup => ?_)
    · rw [htxns, hstate] at hg
      cases hg
    · rw [htxns, hstate] at hs
      cases hs
    · -- what is left was there before, and not in the queue of an upgrade
      by_cases hr : r = rid
      · subst hr
        rw [hrw.self] at hreq
        cases call with
        | shared | exclusive =>
          refine .inl ⟨req, List.mem_of_mem_filter hreq, hg, fun hx => .inr ⟨hx, fun hup => ?_⟩⟩
          rw [hsusp] at hup
          cases hup
        | upgrade => exact absurd hreq List.not_mem_nil
      · rw [hrw.rows r hr] at hreq
        refine .inl ⟨req, hreq, hg, fun hx => .inr ⟨hx, fun hup => ?_⟩⟩
        rw [hsusp] at hup
        cases hup
        exact absurd rfl hr
    · rw [hnone] at hup
      cases hup
    · rw [hnone] at hup
      cases hup
  · obtain ⟨-, htxns, hrw, hupg⟩ := m.tail_granted call t rid hstate
    refine h.of_actor t (fun t' ht => by rw [htxns, Function.update_of_ne ht]) hrw.others hw
      (fun hg r => ?_) (fun hs => ?_) (fun r req hreq hg => ?_) (fun r _ hup => ?_)
      (h.flag_ended hsusp hupg) (fun r t' hup => ?_)
    · rw [htxns, Function.update_self] at hg ⊢
      have hg₀ : (m.txns t).state = .growing := by
        cases call <;> exact hg
      have hshape := h.growing t hg₀ r
      rw [Waiting.on_update_none]
      by_cases hr : r = rid
      · subst hr
        rw [Waiting.on_of_some hsusp] at hshape
        rw [hrw.self]
        have hsettled := hshape.settled
        cases call <;>
          simpa only [settledTxn, Transaction.insertLock, GrowShape.settledSets,
            hasRow_insert_self, hasRow_erase_self] using hsettled
      · rw [Waiting.on_of_some_rows hsusp hr] at hshape
        rw [hrw.rows r hr]
        cases call <;>
          simpa only [settledTxn, Transaction.insertLock, hasRow_insert_ne _ hr,
            hasRow_erase_ne _ hr] using hshape
    · rw [htxns, Function.update_self] at hs
      have hs₀ : (m.txns t).state = .shrinking := by
        cases call <;> exact hs
      rw [(h.shrinking t hs₀).1] at hsusp
      cases hsusp
    · have hold : ∀ req₀ ∈ m.own t r, req₀.granted = true → (call = .upgrade → r ≠ rid) →
          req₀ = req → Harmless m w (Function.update w t none) t r req := by
        rintro req₀ hreq₀ hg₀ hne rfl
        refine .inl ⟨req₀, hreq₀, hg₀, fun hx => .inr ⟨hx, fun hup => ?_⟩⟩
        rw [hsusp] at hup
        cases hup
        exact absurd rfl (hne rfl)
      by_cases hr : r = rid
      · subst hr
        cases call with
        | shared =>
          have hothers := (lockSharedReady_iff.mp hready).resolve_left hstate
          rw [hrw.self] at hreq
          rcases mem_modifyFirst hreq with hreq | ⟨req₀, hreq₀, hmode, rfl⟩
          · exact hold req hreq hg (fun hc => LockCall.noConfusion hc) rfl
          · simp only [Bool.and_eq_true, decide_eq_true_eq] at hmode
            exact .inr (.inr ⟨hmode.2, fun t' _ => hothers t'⟩)
        | exclusive | upgrade => exact .inr (.inl ((onlyHolder_iff.mp hready).resolve_left hstate))
      · rw [hrw.rows r hr] at hreq
        exact hold req hreq hg (fun _ => hr) rfl
    · rw [hnone] at hup
      cases hup
    · rw [hnone] at hup
      cases hup

theorem unlock (h : Safe m w) (rid : RID) (ht : w t = none ∨ (m.txns t).state.Over) :
    Safe (m.unlock t rid).2 w := by
  rcases m.unlock_cases t rid with ⟨-, heq⟩ | ⟨-, -, htxns, hrw, hupg⟩
  · rw [heq]
    exact h
  · have hself : ((m.unlock t rid).2.txns t) = unlockedTxn (m.txns t) rid := by
      rw [htxns, Function.update_self]
    have hnotgrowing : ∀ {P : Prop}, ((m.unlock t rid).2.txns t).state = .growing → P := by
      intro P hg
      rw [hself] at hg
      simp only [unlockedTxn] at hg
      split at hg
      · cases hg
      · exact absurd hg ‹_›
    refine h.of_actor t (fun t' ht => by rw [htxns, Function.update_of_ne ht]) hrw.others
      (fun _ _ => rfl) (fun hg => hnotgrowing hg) (fun hs => ?_) (fun r req hreq hg => ?_)
      (fun r hg => hnotgrowing hg) (fun r => by rw [hupg, h.flag])
      (fun r t' hup hup' => h.unique r t' t hup' hup)
    · rw [hself] at hs ⊢
      -- the transaction was growing or shrinking, so it is not suspended
      have hlive : (m.txns t).state = .growing ∨ (m.txns t).state = .shrinking := by
        simp only [unlockedTxn] at hs
        split at hs
        · exact .inl ‹_›
        · exact .inr hs
      have hidle : w t = none := by
        rcases ht with ht | ht
        · exact ht
        · rcases hlive with hl | hl <;> rw [hl] at ht <;> rcases ht with ht | ht <;> cases ht
      refine ⟨hidle, fun r => ?_⟩
      have hbefore : (r ∈ (m.txns t).exclusiveLockSet →
          ∃ req ∈ m.own t r, req.granted = true ∧ req.lockMode = .exclusive) ∧
          (r ∈ (m.txns t).sharedLockSet → ∃ req ∈ m.own t r, req.granted = true) := by
        rcases hlive with hl | hl
        · have hshape := h.growing t hl r
          refine ⟨fun hmem => ?_, fun hmem => ?_⟩
          · rw [hasRow_eq_true.mpr hmem] at hshape
            exact hshape.granted_exclusive
          · rw [hasRow_eq_true.mpr hmem] at hshape
            exact hshape.granted_of_shared
        · exact (h.shrinking t hl).2 r
      simp only [unlockedTxn, Finset.mem_erase]
      refine ⟨fun hmem => ?_, fun hmem => ?_⟩
      · rw [hrw.rows r hmem.1]
        exact hbefore.1 hmem.2
      · rw [hrw.rows r hmem.1]
        exact hbefore.2 hmem.2
    · refine .inl ⟨req, ?_, hg, fun hx => .inr ⟨hx, id⟩⟩
      by_cases hr : r = rid
      · subst hr
        rw [hrw.self] at hreq
        exact List.mem_of_mem_tail hreq
      · rw [hrw.rows r hr] at hreq
        exact hreq

theorem clear (h : Safe m w) (hover : (m.txns t).state.Over) : Safe (m.clearSets t) w := by
  have hstate : ((m.clearSets t).txns t).state = (m.txns t).state := by
    simp [LockManager.clearSets]
  have hlive : ∀ {P : Prop}, (m.txns t).state = .growing ∨ (m.txns t).state = .shrinking → P := by
    rintro P (hl | hl) <;> rw [hl] at hover <;> rcases hover with ho | ho <;> cases ho
  refine h.of_actor t (fun t' ht => m.txns_modifyTxn_ne _ ht) (fun _ _ _ => rfl)
    (fun _ _ => rfl) (fun hg => hlive (.inl (hstate ▸ hg))) (fun hs => hlive (.inr (hstate ▸ hs)))
    (fun r req hreq hg => ?_) (fun r hg => hlive (.inl (hstate ▸ hg))) h.flag
    fun r t' ht ht' => h.unique r t' t ht' ht
  exact .inl ⟨req, hreq, hg, fun hx => .inr ⟨hx, id⟩⟩

end Safe

theorem closed_safe :
    Closed Safe (fun _ _ _ _ => True) (fun _ _ _ _ => True) (fun _ _ => True) where
  setState := fun t _ h hover => h.setState t hover
  wait := fun h hidle henter _ => h.wait hidle henter
  tail := fun h hsusp hready _ => h.tail hsusp hready
  unlock := fun rid h ht => h.unlock rid ht
  clear := fun h hover _ => h.clear hover

/-! ## Every run -/

/-- The transaction is `GROWING` or `SHRINKING`. -/
def LockManager.Live (m : LockManager) (t : TxnId) : Prop :=
  (m.txns t).state = .growing ∨ (m.txns t).state = .shrinking

namespace Safe

variable {m : LockManager} {w : Waiting} {t : TxnId} {r : RID}

theorem granted_exclusive (h : Safe m w) (hlive : m.Live t)
    (hmem : r ∈ (m.txns t).exclusiveLockSet) :
    ∃ req ∈ m.own t r, req.granted = true ∧ req.lockMode = .exclusive := by
  rcases hlive with hl | hl
  · have hshape := h.growing t hl r
    rw [hasRow_eq_true.mpr hmem] at hshape
    exact hshape.granted_exclusive
  · exact ((h.shrinking t hl).2 r).1 hmem

theorem granted_of_mem (h : Safe m w) (hlive : m.Live t)
    (hmem : r ∈ (m.txns t).sharedLockSet ∨ r ∈ (m.txns t).exclusiveLockSet) :
    ∃ req ∈ m.own t r, req.granted = true := by
  rcases hmem with hmem | hmem
  · rcases hlive with hl | hl
    · have hshape := h.growing t hl r
      rw [hasRow_eq_true.mpr hmem] at hshape
      exact hshape.granted_of_shared
    · exact ((h.shrinking t hl).2 r).2 hmem
  · obtain ⟨req, hreq, hg, -⟩ := h.granted_exclusive hlive hmem
    exact ⟨req, hreq, hg⟩

/-- Two live transactions never have a row of which one holds the exclusive lock. -/
theorem exclusion (h : Safe m w) {t₁ t₂ : TxnId} (hne : t₁ ≠ t₂) (h₁ : m.Live t₁)
    (h₂ : m.Live t₂) (hmem : r ∈ (m.txns t₁).exclusiveLockSet) :
    r ∉ (m.txns t₂).sharedLockSet ∧ r ∉ (m.txns t₂).exclusiveLockSet := by
  rw [← not_or]
  intro hmem₂
  obtain ⟨req₁, hreq₁, hg₁, hx₁⟩ := h.granted_exclusive h₁ hmem
  obtain ⟨req₂, hreq₂, hg₂⟩ := h.granted_of_mem h₂ hmem₂
  have hup := h.compatible r t₂ t₁ hne.symm req₂ hreq₂ req₁ hreq₁ hg₂ hg₁ hx₁
  rcases h₁ with hl | hl
  · rw [h.upgrader_alone t₁ r hl hup hmem t₂ hne.symm req₂ hreq₂] at hg₂
    cases hg₂
  · rw [(h.shrinking t₁ hl).1] at hup
    cases hup

end Safe

/-- **Exclusive locks exclude, and `upgrading_` names one upgrader.** In every
state of every run: a row in the exclusive set of a live transaction is in
neither set of another live one; and the flag of a queue is set iff exactly one
transaction is suspended in `LockUpgrade` on the row. -/
theorem lockRun_exclusive {trace : List (LockAction × Option Bool)} {s : LockSystem}
    (hrun : LockRun (fun _ _ => True) trace s) :
    (∀ rid t₁ t₂, t₁ ≠ t₂ → s.manager.Live t₁ → s.manager.Live t₂ →
      rid ∈ (s.manager.txns t₁).exclusiveLockSet →
      rid ∉ (s.manager.txns t₂).sharedLockSet ∧ rid ∉ (s.manager.txns t₂).exclusiveLockSet) ∧
    ∀ rid, (s.manager.lockTable rid).upgrading = true ↔
      ∃! t, s.suspended t = some (.upgrade, rid) := by
  have h := LockRun.closed closed_safe safe_init hrun
  refine ⟨fun rid t₁ t₂ hne h₁ h₂ hmem => h.exclusion hne h₁ h₂ hmem, fun rid => ?_⟩
  rw [h.flag]
  constructor
  · rintro ⟨t, ht⟩
    exact ⟨t, ht, fun t' ht' => h.unique rid t' t ht' ht⟩
  · rintro ⟨t, ht, -⟩
    exact ⟨t, ht⟩

/-- Two readers of one row; the first asks for an upgrade and is suspended. -/
theorem lockRun_exclusive_upgrade :
    ∃ trace s, LockRun (fun _ _ => True) trace s ∧ s.suspended 0 = some (.upgrade, {}) ∧
      ∃! t, s.suspended t = some (.upgrade, {}) := by
  have hrun : LockRun (fun _ _ => True) _ _ := .step (a := .lock .upgrade 0 {})
    (.step (a := .lock .shared 1 {}) (.step (a := .lock .shared 0 {}) .init trivial rfl)
      trivial rfl) trivial rfl
  exact ⟨_, _, hrun, rfl, ((lockRun_exclusive hrun).2 {}).mp (by decide)⟩

end OneBase
