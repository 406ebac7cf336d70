import Mathlib.Data.List.Basic
import Mathlib.Logic.Function.Basic
import Mathlib.Data.List.Dedup

/-!
# Schedules and serial executions

A schedule is the list of the reads and writes that transactions made, in the order in
which they were made. What a transaction writes may depend on all that it has read.
Two operations of different transactions on one item conflict if one of them writes.

- `Op.run_comm`: operations of different transactions that do not conflict commute.
- `run_serial`: if no transaction conflicts with one that is placed before it, running the
  transactions one after the other ends as the schedule does, with the same values read.
- `exists_serial`: so does every schedule whose conflicts all go from smaller to larger rank.
-/

namespace Schedule

variable {T R V : Type}

/-- What an operation does to its item; the value written is computed from the values
that the transaction has read so far. -/
inductive Access (V : Type) where
  | read
  | write (value : List V → V)

/-- The access changes the item. -/
def Access.isWrite : Access V → Bool
  | .read => false
  | .write _ => true

/-- One operation of a transaction. -/
structure Op (T R V : Type) where
  txn : T
  item : R
  access : Access V

/-- The items, and what each transaction has read so far. -/
structure World (T R V : Type) where
  store : R → V
  seen : T → List V

/-- Two operations whose order matters. -/
def Conflicts (a b : Op T R V) : Prop :=
  a.txn ≠ b.txn ∧ a.item = b.item ∧ (a.access.isWrite = true ∨ b.access.isWrite = true)

section Serial

variable [DecidableEq T]

/-- The operations of one transaction. -/
def opsOf (t : T) (ops : List (Op T R V)) : List (Op T R V) := ops.filter fun op => op.txn = t

/-- The transactions one after the other, each with its operations in their order. -/
def serial (order : List T) (ops : List (Op T R V)) : List (Op T R V) :=
  order.flatMap fun t => opsOf t ops

/-- The operations of one transaction, when those of another are left out. -/
theorem opsOf_filter_ne {t t' : T} (h : t' ≠ t) (ops : List (Op T R V)) :
    opsOf t' (ops.filter fun op => op.txn ≠ t) = opsOf t' ops := by
  rw [opsOf, List.filter_filter]
  refine List.filter_congr fun op _ => ?_
  by_cases hop : op.txn = t'
  · simp [hop, h]
  · simp [hop]

end Serial

section Run

variable [DecidableEq T] [DecidableEq R]

/-- One operation. -/
def Op.run (op : Op T R V) (w : World T R V) : World T R V :=
  match op.access with
  | .read => { w with seen := Function.update w.seen op.txn (w.seen op.txn ++ [w.store op.item]) }
  | .write value => { w with store := Function.update w.store op.item (value (w.seen op.txn)) }

/-- The operations of a schedule, in their order. -/
def run (ops : List (Op T R V)) (w : World T R V) : World T R V :=
  ops.foldl (fun w op => op.run w) w

theorem run_append (ops ops' : List (Op T R V)) (w : World T R V) :
    run (ops ++ ops') w = run ops' (run ops w) := List.foldl_append

/-- **Operations that do not conflict commute.** -/
theorem Op.run_comm {a b : Op T R V} (hne : a.txn ≠ b.txn) (h : ¬ Conflicts a b)
    (w : World T R V) : b.run (a.run w) = a.run (b.run w) := by
  have hitem : a.access.isWrite = true ∨ b.access.isWrite = true → a.item ≠ b.item :=
    fun hwrite heq => h ⟨hne, heq, hwrite⟩
  cases ha : a.access with
  | read =>
    cases hb : b.access with
    | read =>
      simp only [Op.run, ha, hb, Function.update_of_ne hne, Function.update_of_ne hne.symm]
      rw [Function.update_comm hne.symm]
    | write value =>
      have hneq := hitem (.inr (by rw [hb]; rfl))
      simp only [Op.run, ha, hb, Function.update_of_ne hne.symm, Function.update_of_ne hneq]
  | write value =>
    have hneq := hitem (.inl (by rw [ha]; rfl))
    cases hb : b.access with
    | read => simp only [Op.run, ha, hb, Function.update_of_ne hne, Function.update_of_ne hneq.symm]
    | write value' =>
      simp only [Op.run, ha, hb]
      rw [Function.update_comm hneq.symm]

/-- An operation can be moved behind operations of another transaction. -/
theorem run_swap {a : Op T R V} {ops : List (Op T R V)}
    (h : ∀ b ∈ ops, a.txn ≠ b.txn ∧ ¬ Conflicts a b) (w : World T R V) :
    run ops (a.run w) = a.run (run ops w) := by
  induction ops generalizing w with
  | nil => rfl
  | cons b ops ih =>
    show run ops (b.run (a.run w)) = a.run (run ops (b.run w))
    rw [Op.run_comm (h b List.mem_cons_self).1 (h b List.mem_cons_self).2]
    exact ih (fun b' hb' => h b' (List.mem_cons_of_mem _ hb')) _

/-- A transaction that no earlier operation conflicts with can be run first. -/
theorem run_first (t : T) {ops : List (Op T R V)}
    (h : ops.Pairwise fun a b => Conflicts a b → b.txn ≠ t) (w : World T R V) :
    run ops w = run (ops.filter fun op => op.txn ≠ t) (run (opsOf t ops) w) := by
  induction ops generalizing w with
  | nil => rfl
  | cons a ops ih =>
    rw [List.pairwise_cons] at h
    show run ops (a.run w) = _
    rw [ih h.2]
    by_cases ht : a.txn = t
    · simp only [opsOf, List.filter_cons, ht, ne_eq, not_true_eq_false, decide_true, decide_false,
        Bool.false_eq_true, if_true, if_false]
      rfl
    · have hfirst : run (opsOf t ops) (a.run w) = a.run (run (opsOf t ops) w) := by
        refine run_swap (fun b hb => ?_) w
        obtain ⟨hmem, hb⟩ := List.mem_filter.mp hb
        have hb : b.txn = t := of_decide_eq_true hb
        exact ⟨fun heq => ht (heq.trans hb), fun hcon => h.1 b hmem hcon hb⟩
      rw [hfirst]
      simp only [opsOf, List.filter_cons, ht, decide_false, Bool.false_eq_true, if_false, ne_eq,
        not_false_eq_true, decide_true, if_true]
      rfl

/-- **A serial execution.** If every conflict goes from a transaction to one that is placed
after it, the transactions can be run one after the other. -/
theorem run_serial {order : List T} {ops : List (Op T R V)} (hnodup : order.Nodup)
    (hall : ∀ op ∈ ops, op.txn ∈ order)
    (h : ops.Pairwise fun a b => Conflicts a b → ¬ [b.txn, a.txn].Sublist order)
    (w : World T R V) : run (serial order ops) w = run ops w := by
  induction order generalizing ops w with
  | nil =>
    have hnil : ops = [] := by
      cases ops with
      | nil => rfl
      | cons op ops => exact absurd (hall op List.mem_cons_self) List.not_mem_nil
    rw [hnil]
    rfl
  | cons t order ih =>
    obtain ⟨hnot, hnodup⟩ := List.nodup_cons.mp hnodup
    -- the rest of the order does not see the operations of `t`
    have hrest : serial order ops = serial order (ops.filter fun op => op.txn ≠ t) := by
      refine List.flatMap_congr fun t' ht' => ?_
      exact (opsOf_filter_ne (ne_of_mem_of_not_mem ht' hnot) ops).symm
    have hfirst : ops.Pairwise fun a b => Conflicts a b → b.txn ≠ t := by
      refine h.imp_of_mem fun {a b} ha _ hab hcon hb => hab hcon ?_
      have ha : a.txn ∈ order :=
        (List.mem_cons.mp (hall a ha)).resolve_left fun heq => hcon.1 (heq.trans hb.symm)
      rw [hb]
      exact List.cons_sublist_cons.mpr (List.singleton_sublist.mpr ha)
    show run (opsOf t ops ++ serial order ops) w = run ops w
    rw [run_append, run_first t hfirst w, hrest]
    refine ih hnodup (fun op hop => ?_) ?_ _
    · obtain ⟨hmem, hne⟩ := List.mem_filter.mp hop
      exact (List.mem_cons.mp (hall op hmem)).resolve_left (of_decide_eq_true hne)
    · refine (h.sublist List.filter_sublist).imp fun hab hcon hsub => hab hcon ?_
      exact hsub.trans (List.sublist_cons_self _ _)

end Run

/-! ## Ranks -/

/-- **Conflicts that go up.** If all conflicts go from transactions of smaller rank to
transactions of larger rank, the schedule is a serial execution in disguise. -/
theorem exists_serial [DecidableEq T] [DecidableEq R] (rank : T → Nat) {ops : List (Op T R V)}
    (h : ops.Pairwise fun a b => Conflicts a b → rank a.txn < rank b.txn) :
    ∃ order : List T, order.Nodup ∧ (∀ op ∈ ops, op.txn ∈ order) ∧
      order.Pairwise (fun t t' => rank t ≤ rank t') ∧
      ∀ w, run (serial order ops) w = run ops w := by
  let le : T → T → Bool := fun t t' => rank t ≤ rank t'
  let order := ((ops.map Op.txn).dedup).mergeSort le
  have hperm : order.Perm (ops.map Op.txn).dedup := List.mergeSort_perm _ _
  have hsorted : order.Pairwise fun t t' => rank t ≤ rank t' := by
    have hle : order.Pairwise fun t t' => le t t' = true := by
      refine List.pairwise_mergeSort (fun t t' t'' htt' ht' => ?_) (fun t t' => ?_) _
      · simp only [le, decide_eq_true_eq] at *
        omega
      · simp only [le, Bool.or_eq_true, decide_eq_true_eq]
        omega
    exact hle.imp fun htt' => of_decide_eq_true htt'
  have hall : ∀ op ∈ ops, op.txn ∈ order := fun op hop =>
    hperm.mem_iff.mpr (List.mem_dedup.mpr (List.mem_map_of_mem hop))
  refine ⟨order, hperm.nodup_iff.mpr (List.nodup_dedup _), hall, hsorted, fun w => ?_⟩
  refine run_serial (hperm.nodup_iff.mpr (List.nodup_dedup _)) hall
    (h.imp fun hab hcon hsub => ?_) w
  -- the order has the smaller rank first
  have hle := (hsorted.sublist hsub)
  simp only [List.pairwise_cons, List.mem_singleton, forall_eq] at hle
  have hlt := hab hcon
  omega

end Schedule
