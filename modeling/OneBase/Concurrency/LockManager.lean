import Mathlib.Data.Finset.Basic
import OneBase.Common.Types
import OneBase.Lib.FirstMatch

/-!
# The lock manager (`concurrency/lock_manager.cpp`)

The three lock methods run under `latch_` up to `queue.cv_.wait(lock, pred)`,
which returns at once when `pred` holds and otherwise releases the latch until
`pred` holds. Each method is therefore three definitions: the part before the
wait (`lockShared`), the wait predicate (`lockSharedReady`) and the part after
the wait (`lockSharedTail`). `Unlock` runs through.

A queue that `lock_table_` does not have yet is the empty queue here:
`lock_table_[rid]` creates it empty, and `Unlock` returns false on both.
-/

namespace OneBase

open Cpp

/-- Transaction identifiers (`txn_id_t`), as `next_txn_id_` hands them out. -/
abbrev TxnId := Nat

/-- The states of a transaction (`transaction.h`). -/
inductive TransactionState where
  | growing
  | shrinking
  | committed
  | aborted
  deriving DecidableEq, Repr

/-- Lock modes. -/
inductive LockMode where
  | shared
  | exclusive
  deriving DecidableEq, Repr

/-- A transaction: its state and its two lock sets, as the constructor sets them. -/
structure Transaction where
  state : TransactionState := .growing
  sharedLockSet : Finset RID := ∅
  exclusiveLockSet : Finset RID := ∅
  deriving DecidableEq

/-- A request in the queue of a row. -/
structure LockRequest where
  txnId : TxnId
  lockMode : LockMode
  granted : Bool := false
  deriving DecidableEq, Repr

/-- The assignment `req.granted_ = true`. -/
def LockRequest.grant (req : LockRequest) : LockRequest := { req with granted := true }

/-- The assignment `req.lock_mode_ = LockMode::EXCLUSIVE`. -/
def LockRequest.makeExclusive (req : LockRequest) : LockRequest :=
  { req with lockMode := .exclusive }

/-- The queue of a row. -/
structure LockRequestQueue where
  requestQueue : List LockRequest := []
  upgrading : Bool := false
  deriving DecidableEq, Repr

/-- The set a lock of the given mode goes to, with `rid` inserted. -/
def Transaction.insertLock (txn : Transaction) (rid : RID) : LockMode → Transaction
  | .shared => { txn with sharedLockSet := insert rid txn.sharedLockSet }
  | .exclusive => { txn with exclusiveLockSet := insert rid txn.exclusiveLockSet }

/-- The lock table, and the transactions its methods work on. -/
structure LockManager where
  txns : TxnId → Transaction := fun _ => {}
  lockTable : RID → LockRequestQueue := fun _ => {}

namespace LockManager

/-- The transaction `t` after the update `u`. -/
def modifyTxn (m : LockManager) (t : TxnId) (u : Transaction → Transaction) : LockManager :=
  { m with txns := Function.update m.txns t (u (m.txns t)) }

/-- Model of `SetState`. -/
def setState (m : LockManager) (t : TxnId) (state : TransactionState) : LockManager :=
  m.modifyTxn t fun txn => { txn with state := state }

/-- The requests of `rid` after the update `u`. -/
def modifyQueue (m : LockManager) (rid : RID) (u : List LockRequest → List LockRequest) :
    LockManager :=
  { m with
    lockTable := Function.update m.lockTable rid
      { m.lockTable rid with requestQueue := u (m.lockTable rid).requestQueue } }

/-- The flag `upgrading_` of `rid` set. -/
def setUpgrading (m : LockManager) (rid : RID) (upgrading : Bool) : LockManager :=
  { m with
    lockTable := Function.update m.lockTable rid
      { m.lockTable rid with upgrading := upgrading } }

/-- Step 1 of the lock methods: the state in which the method returns false, if
the transaction may not lock. Only `SHRINKING` and `ABORTED` are looked at. -/
def refused (m : LockManager) (t : TxnId) : Option LockManager :=
  match (m.txns t).state with
  | .shrinking => some (m.setState t .aborted)
  | .aborted => some m
  | .growing | .committed => none

/-! ## LockShared and LockExclusive -/

/-- Steps 1 to 4 of `LockShared` and `LockExclusive`; without a result the
method is at its wait. -/
def request (m : LockManager) (t : TxnId) (rid : RID) (mode : LockMode) (alreadyHeld : Bool) :
    Option Bool × LockManager :=
  match m.refused t with
  | some m => (some false, m)
  | none =>
    if alreadyHeld then (some true, m)
    else (none, m.modifyQueue rid (· ++ [{ txnId := t, lockMode := mode }]))

/-- Steps 6 to 8 of `LockShared` and `LockExclusive`. -/
def requestTail (m : LockManager) (t : TxnId) (rid : RID) (mode : LockMode) :
    Bool × LockManager :=
  if (m.txns t).state = .aborted then
    (false, m.modifyQueue rid fun l => l.filter fun req => !(req.txnId = t && !req.granted))
  else
    let m := m.modifyQueue rid <|
      modifyFirst (fun req => req.txnId = t && req.lockMode = mode) LockRequest.grant
    (true, m.modifyTxn t (·.insertLock rid mode))

/-- No other transaction has a granted request; the wait predicate of
`LockExclusive` and `LockUpgrade`. -/
def onlyHolder (m : LockManager) (t : TxnId) (rid : RID) : Bool :=
  (m.txns t).state = .aborted ||
    !(m.lockTable rid).requestQueue.any fun req => req.granted && req.txnId ≠ t

/-- `LockShared` up to its wait. -/
def lockShared (m : LockManager) (t : TxnId) (rid : RID) : Option Bool × LockManager :=
  m.request t rid .shared
    (rid ∈ (m.txns t).sharedLockSet || rid ∈ (m.txns t).exclusiveLockSet)

/-- The wait predicate of `LockShared`. -/
def lockSharedReady (m : LockManager) (t : TxnId) (rid : RID) : Bool :=
  (m.txns t).state = .aborted ||
    !(m.lockTable rid).requestQueue.any fun req => req.granted && req.lockMode = .exclusive

/-- `LockShared` after its wait. -/
def lockSharedTail (m : LockManager) (t : TxnId) (rid : RID) : Bool × LockManager :=
  m.requestTail t rid .shared

/-- `LockExclusive` up to its wait. Unlike `LockShared` it does not look at the
other lock set. -/
def lockExclusive (m : LockManager) (t : TxnId) (rid : RID) : Option Bool × LockManager :=
  m.request t rid .exclusive (rid ∈ (m.txns t).exclusiveLockSet)

/-- The wait predicate of `LockExclusive`. -/
def lockExclusiveReady (m : LockManager) (t : TxnId) (rid : RID) : Bool := m.onlyHolder t rid

/-- `LockExclusive` after its wait. -/
def lockExclusiveTail (m : LockManager) (t : TxnId) (rid : RID) : Bool × LockManager :=
  m.requestTail t rid .exclusive

/-! ## LockUpgrade -/

/-- The request `LockUpgrade` looks for. -/
def isShared (t : TxnId) (req : LockRequest) : Bool := req.txnId = t && req.lockMode = .shared

/-- `LockUpgrade` up to its wait (lock_manager.cpp:130–168). -/
def lockUpgrade (m : LockManager) (t : TxnId) (rid : RID) : Option Bool × LockManager :=
  match m.refused t with
  | some m => (some false, m)
  | none =>
    if (m.lockTable rid).upgrading then (some false, m.setState t .aborted)
    else if (m.lockTable rid).requestQueue.any (isShared t) then
      let m := m.setUpgrading rid true
      (none, m.modifyQueue rid (modifyFirst (isShared t) LockRequest.makeExclusive))
    else (some false, (m.setUpgrading rid false).setState t .aborted)

/-- The wait predicate of `LockUpgrade`. -/
def lockUpgradeReady (m : LockManager) (t : TxnId) (rid : RID) : Bool := m.onlyHolder t rid

/-- `LockUpgrade` after its wait (lock_manager.cpp:185–209). -/
def lockUpgradeTail (m : LockManager) (t : TxnId) (rid : RID) : Bool × LockManager :=
  let m := m.setUpgrading rid false
  if (m.txns t).state = .aborted then
    (false, m.modifyQueue rid fun l => l.filter fun req => !decide (req.txnId = t))
  else
    let m := m.modifyQueue rid (modifyFirst (fun req => req.txnId = t) LockRequest.grant)
    (true, m.modifyTxn t fun txn => { txn with
      sharedLockSet := txn.sharedLockSet.erase rid
      exclusiveLockSet := insert rid txn.exclusiveLockSet })

/-! ## Unlock -/

/-- Model of `Unlock`. -/
def unlock (m : LockManager) (t : TxnId) (rid : RID) : Bool × LockManager :=
  if (m.lockTable rid).requestQueue.any fun req => req.txnId = t then
    let m := m.modifyQueue rid (·.eraseP fun req => req.txnId = t)
    let m := if (m.txns t).state = .growing then m.setState t .shrinking else m
    (true, m.modifyTxn t fun txn => { txn with
      sharedLockSet := txn.sharedLockSet.erase rid
      exclusiveLockSet := txn.exclusiveLockSet.erase rid })
  else (false, m)

/-! ## The three lock methods as one family -/

end LockManager

/-- The methods that can wait. -/
inductive LockCall where
  | shared
  | exclusive
  | upgrade
  deriving DecidableEq, Repr

namespace LockManager

/-- A lock method up to its wait. -/
def enter (m : LockManager) : LockCall → TxnId → RID → Option Bool × LockManager
  | .shared => m.lockShared
  | .exclusive => m.lockExclusive
  | .upgrade => m.lockUpgrade

/-- The wait predicate of a lock method. -/
def ready (m : LockManager) : LockCall → TxnId → RID → Bool
  | .shared => m.lockSharedReady
  | .exclusive => m.lockExclusiveReady
  | .upgrade => m.lockUpgradeReady

/-- A lock method after its wait. -/
def tail (m : LockManager) : LockCall → TxnId → RID → Bool × LockManager
  | .shared => m.lockSharedTail
  | .exclusive => m.lockExclusiveTail
  | .upgrade => m.lockUpgradeTail

/-- The requests of `t` in the queue of `rid`. -/
def own (m : LockManager) (t : TxnId) (rid : RID) : List LockRequest :=
  (m.lockTable rid).requestQueue.filter fun req => req.txnId = t

end LockManager

end OneBase
