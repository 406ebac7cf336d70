import OneBase.Buffer.LRUKReplacer

/-!
# The LRU-K policy

The replacer keeps the last `k` access times of a frame. Next to it runs a log that keeps all
of them since the frame was last evicted or removed, and the policy is stated on the log.

- `AccessLog`, `AccessLog.IsVictim`: the log, and the frame that should be evicted.
- `LRURun`: the replacers and logs that sequences of calls reach.
- `scan_best`: what the pass of `Evict` finds.
- `lruRun_evict`: `Evict` follows the policy.
-/

namespace OneBase

/-- Calls on the replacer. -/
inductive LRUOp where
  | recordAccess (frameId : FrameId)
  | setEvictable (frameId : FrameId) (flag : Bool)
  | remove (frameId : FrameId)
  | evict

/-! ## The policy -/

/-- The access times of every frame since it was last evicted or removed, latest last; the flags
that `SetEvictable` set; and the number of accesses so far. -/
structure AccessLog where
  clock : Nat := 0
  accesses : FrameId → List Nat := fun _ => []
  flags : FrameId → Bool := fun _ => false

namespace AccessLog

variable (a : AccessLog) (k : Nat)

/-- The frame was accessed. -/
def Tracked (f : FrameId) : Prop := a.accesses f ≠ []

def Evictable (f : FrameId) : Prop := a.Tracked f ∧ a.flags f = true

def firstAccess (f : FrameId) : Nat := (a.accesses f).headD 0

/-- The `k`-th most recent access. -/
def kthAccess (f : FrameId) : Nat := (a.accesses f).getD ((a.accesses f).length - k) 0

/-- **The frame that should be evicted**: among the evictable frames with fewer than `k` accesses
the one with the earliest first access; if there are none, the one whose `k`-th most recent
access is earliest. -/
def IsVictim (f : FrameId) : Prop :=
  a.Evictable f ∧
    (((a.accesses f).length < k ∧
        ∀ g, a.Evictable g → (a.accesses g).length < k → g ≠ f →
          a.firstAccess f < a.firstAccess g) ∨
      ((∀ g, a.Evictable g → k ≤ (a.accesses g).length) ∧
        ∀ g, a.Evictable g → g ≠ f → a.kthAccess k f < a.kthAccess k g))

/-- The frame is not tracked any more. -/
def forget (f : FrameId) : AccessLog :=
  { a with accesses := Function.update a.accesses f [], flags := Function.update a.flags f false }

def recordAccess (f : FrameId) : AccessLog :=
  { a with
    clock := a.clock + 1
    accesses := Function.update a.accesses f (a.accesses f ++ [a.clock]) }

/-- Only a tracked frame gets a flag. -/
def setEvictable (f : FrameId) (flag : Bool) : AccessLog :=
  if a.accesses f = [] then a else { a with flags := Function.update a.flags f flag }

end AccessLog

namespace LRUKReplacer

/-- A call on the replacer and on the log. `Remove` throws on a frame that is not evictable and
changes nothing then. -/
def step (r : LRUKReplacer) (a : AccessLog) : LRUOp → LRUKReplacer × AccessLog
  | .recordAccess f => (r.recordAccess f, a.recordAccess f)
  | .setEvictable f flag => (r.setEvictable f flag, a.setEvictable f flag)
  | .remove f =>
    match r.remove f with
    | .ok r => (r, a.forget f)
    | .error _ => (r, a)
  | .evict =>
    match r.evict with
    | (some f, r) => (r, a.forget f)
    | (none, r) => (r, a)

/-- The two replacers differ in the iteration order of the map only. -/
structure SameUpToOrder (r r' : LRUKReplacer) : Prop where
  maxFrames : r'.maxFrames = r.maxFrames
  k : r'.k = r.k
  currSize : r'.currSize = r.currSize
  currentTimestamp : r'.currentTimestamp = r.currentTimestamp
  entries : r'.entries.entries.Perm r.entries.entries

end LRUKReplacer

/-- A frame that is accessed is not `INVALID_FRAME_ID`. -/
def LRUOp.Valid : LRUOp → Prop
  | .recordAccess f => f ≠ -1
  | _ => True

/-- The replacers that sequences of calls reach, each with its log; the iteration order of the
map can change between calls. -/
inductive LRURun (k : Nat) : LRUKReplacer → AccessLog → Prop where
  | create (numFrames : Nat) : LRURun k (LRUKReplacer.create numFrames k) {}
  | step {r : LRUKReplacer} {a : AccessLog} (op : LRUOp) :
      LRURun k r a → op.Valid → LRURun k (r.step a op).1 (r.step a op).2
  | reorder {r r' : LRUKReplacer} {a : AccessLog} :
      LRURun k r a → r.SameUpToOrder r' → LRURun k r' a

namespace LRUKReplacer

/-! ## The pass of `Evict` -/

section Pass

/-- The oldest access time that the replacer keeps of an entry. -/
def front (e : Sigma fun _ : FrameId => FrameEntry) : Nat := e.2.history.headD 0

/-- A frame that can be evicted and has a distance of `+inf`. -/
def Far (r : LRUKReplacer) (e : Sigma fun _ : FrameId => FrameEntry) : Prop :=
  e.2.isEvictable = true ∧ e.2.history.length < r.k

/-- A frame that can be evicted and has a finite distance. -/
def Near (r : LRUKReplacer) (e : Sigma fun _ : FrameId => FrameEntry) : Prop :=
  e.2.isEvictable = true ∧ ¬ e.2.history.length < r.k

/-- **What the pass knows** after the entries `l`. -/
inductive Best (r : LRUKReplacer) (l : List (Sigma fun _ : FrameId => FrameEntry)) (s : Scan) :
    Prop where
  | nothing : s.foundInfFrame = false → s.victimFrame = -1 →
      (∀ x ∈ l, x.2.isEvictable = false) → Best r l s
  | far {e : Sigma fun _ : FrameId => FrameEntry} : e ∈ l → r.Far e → s.foundInfFrame = true →
      s.victimFrame = e.1 → s.earliestTimestamp = front e → (∀ x ∈ l, r.Far x → front e ≤ front x) →
      Best r l s
  | near {e : Sigma fun _ : FrameId => FrameEntry} : e ∈ l → r.Near e → s.foundInfFrame = false →
      s.victimFrame = e.1 → s.maxKDistance = r.currentTimestamp - front e →
      (∀ x ∈ l, ¬ r.Far x) → (∀ x ∈ l, r.Near x → front e ≤ front x) → Best r l s

variable {r : LRUKReplacer} {l : List (Sigma fun _ : FrameId => FrameEntry)} {s : Scan}
  {e : Sigma fun _ : FrameId => FrameEntry}

theorem forall_mem_snoc {α : Type*} {P : α → Prop} {l : List α} {a : α} (hl : ∀ x ∈ l, P x)
    (ha : P a) : ∀ x ∈ l ++ [a], P x := by
  intro x hx
  rcases List.mem_append.mp hx with hx | hx
  · exact hl x hx
  · rw [List.mem_singleton.mp hx]
    exact ha

theorem mem_snoc (l : List (Sigma fun _ : FrameId => FrameEntry))
    (e : Sigma fun _ : FrameId => FrameEntry) : e ∈ l ++ [e] :=
  List.mem_append_right _ List.mem_cons_self

/-- An entry that cannot be evicted is skipped. -/
theorem Best.skip (h : Best r l s) (hev : e.2.isEvictable = false) :
    Best r (l ++ [e]) (r.scanEntry s e) := by
  have hsame : r.scanEntry s e = s := by simp [scanEntry, hev]
  have hnot : ¬ e.2.isEvictable = true := by simp [hev]
  rw [hsame]
  cases h with
  | nothing hfound hvictim hall => exact .nothing hfound hvictim (forall_mem_snoc hall hev)
  | far he hfar hfound hvictim hearliest hall =>
    exact .far (List.mem_append_left _ he) hfar hfound hvictim hearliest
      (forall_mem_snoc hall fun hx => absurd hx.1 hnot)
  | near he hnear hfound hvictim hdist hnone hall =>
    exact .near (List.mem_append_left _ he) hnear hfound hvictim hdist
      (forall_mem_snoc hnone fun hx => hnot hx.1) (forall_mem_snoc hall fun hx => absurd hx.1 hnot)

theorem scanEntry_far (s : Scan) (hfar : r.Far e) : r.scanEntry s e =
    if s.foundInfFrame = false ∨ front e < s.earliestTimestamp then
      { s with victimFrame := e.1, earliestTimestamp := front e, foundInfFrame := true }
    else s := by
  simp [scanEntry, hfar.1, hfar.2, front]

theorem scanEntry_near (s : Scan) (hnear : r.Near e) : r.scanEntry s e =
    if s.foundInfFrame = false ∧
        (s.victimFrame = -1 ∨ s.maxKDistance < r.currentTimestamp - front e) then
      { s with victimFrame := e.1, maxKDistance := r.currentTimestamp - front e }
    else s := by
  cases hfound : s.foundInfFrame with
  | false => simp [scanEntry, hnear.1, hnear.2, hfound, front]
  | true => simp [scanEntry, hnear.1, hnear.2, hfound]

/-- An entry with a distance of `+inf`. -/
theorem Best.addFar (h : Best r l s) (hfar : r.Far e) : Best r (l ++ [e]) (r.scanEntry s e) := by
  rw [scanEntry_far s hfar]
  -- the first such entry takes the place of the victim so far
  have hfirst : s.foundInfFrame = false → (∀ x ∈ l, ¬ r.Far x) →
      Best r (l ++ [e]) (if s.foundInfFrame = false ∨ front e < s.earliestTimestamp then
        { s with victimFrame := e.1, earliestTimestamp := front e, foundInfFrame := true }
      else s) := by
    intro hfound hnone
    rw [if_pos (.inl hfound)]
    exact .far (mem_snoc l e) hfar rfl rfl rfl
      (forall_mem_snoc (fun x hx hfar' => absurd hfar' (hnone x hx)) fun _ => Nat.le_refl _)
  cases h with
  | nothing hfound _ hall =>
    exact hfirst hfound fun x hx hfar' => by simp [Far, hall x hx] at hfar'
  | near _ _ hfound _ _ hnone _ => exact hfirst hfound hnone
  | @far e₀ he₀ hfar₀ hfound hvictim hearliest hall =>
    by_cases hearlier : front e < s.earliestTimestamp
    · rw [if_pos (.inr hearlier)]
      refine .far (mem_snoc l e) hfar rfl rfl rfl
        (forall_mem_snoc (fun x hx hfar' => ?_) fun _ => ?_)
      · exact Nat.le_trans (Nat.le_of_lt (hearliest ▸ hearlier)) (hall x hx hfar')
      · exact Nat.le_refl _
    · rw [if_neg (by simp [hfound, hearlier])]
      refine .far (List.mem_append_left _ he₀) hfar₀ hfound hvictim hearliest
        (forall_mem_snoc hall fun _ => ?_)
      rw [hearliest] at hearlier
      exact Nat.not_lt.mp hearlier

/-- An entry with a finite distance. -/
theorem Best.addNear (h : Best r l s) (hnear : r.Near e) (hids : ∀ x ∈ l, x.1 ≠ -1)
    (hpasts : ∀ x ∈ l, front x < r.currentTimestamp) : Best r (l ++ [e]) (r.scanEntry s e) := by
  rw [scanEntry_near s hnear]
  have hnotfar : ¬ r.Far e := fun hfar => hnear.2 hfar.2
  cases h with
  | nothing hfound hvictim hall =>
    have hnot : ∀ x ∈ l, ¬ x.2.isEvictable = true := fun x hx => by simp [hall x hx]
    rw [if_pos ⟨hfound, .inl hvictim⟩]
    exact .near (mem_snoc l e) hnear hfound rfl rfl
      (forall_mem_snoc (fun x hx hfar => hnot x hx hfar.1) hnotfar)
      (forall_mem_snoc (fun x hx hnear' => absurd hnear'.1 (hnot x hx)) fun _ => Nat.le_refl _)
  | far he₀ hfar₀ hfound hvictim hearliest hall =>
    rw [if_neg (by simp [hfound])]
    exact .far (List.mem_append_left _ he₀) hfar₀ hfound hvictim hearliest
      (forall_mem_snoc hall fun hfar => absurd hfar hnotfar)
  | @near e₀ he₀ hnear₀ hfound hvictim hdist hnone hall =>
    have hvictim' : s.victimFrame ≠ -1 := hvictim ▸ hids e₀ he₀
    have hpast₀ := hpasts e₀ he₀
    by_cases hearlier : front e < front e₀
    · rw [if_pos ⟨hfound, .inr (by omega)⟩]
      refine .near (mem_snoc l e) hnear hfound rfl rfl (forall_mem_snoc hnone hnotfar)
        (forall_mem_snoc (fun x hx hnear' => ?_) fun _ => Nat.le_refl _)
      exact Nat.le_trans (Nat.le_of_lt hearlier) (hall x hx hnear')
    · rw [if_neg]
      · exact .near (List.mem_append_left _ he₀) hnear₀ hfound hvictim hdist
          (forall_mem_snoc hnone hnotfar) (forall_mem_snoc hall fun _ => Nat.not_lt.mp hearlier)
      · rintro ⟨-, hneg | hlt⟩
        · exact hvictim' hneg
        · omega

/-- **The pass finds the best entry.** -/
theorem scan_best (r : LRUKReplacer) (l : List (Sigma fun _ : FrameId => FrameEntry))
    (hids : ∀ e ∈ l, e.1 ≠ -1) (hpasts : ∀ e ∈ l, front e < r.currentTimestamp) :
    Best r l (l.foldl r.scanEntry {}) := by
  induction l using List.reverseRecOn with
  | nil => exact .nothing rfl rfl fun x hx => absurd hx List.not_mem_nil
  | append_singleton l e ih =>
    have hids' : ∀ x ∈ l, x.1 ≠ -1 := fun x hx => hids x (List.mem_append_left _ hx)
    have hpasts' : ∀ x ∈ l, front x < r.currentTimestamp := fun x hx =>
      hpasts x (List.mem_append_left _ hx)
    have hbest := ih hids' hpasts'
    rw [List.foldl_append, List.foldl_cons, List.foldl_nil]
    cases hev : e.2.isEvictable with
    | false => exact hbest.skip hev
    | true =>
      by_cases hk : e.2.history.length < r.k
      · exact hbest.addFar ⟨hev, hk⟩
      · exact hbest.addNear ⟨hev, hk⟩ hids' hpasts'

end Pass

end LRUKReplacer

/-! ## The log -/

namespace AccessLog

/-- Access times are distinct and in order, and `INVALID_FRAME_ID` was not accessed. -/
structure Ok (a : AccessLog) : Prop where
  valid : a.accesses (-1) = []
  flags : ∀ f, a.accesses f = [] → a.flags f = false
  sorted : ∀ f, (a.accesses f).Pairwise (· < ·)
  past : ∀ f, ∀ t ∈ a.accesses f, t < a.clock
  distinct : ∀ f g, ∀ t ∈ a.accesses f, t ∈ a.accesses g → f = g

variable {a : AccessLog}

theorem ok_empty : ({} : AccessLog).Ok :=
  ⟨rfl, fun _ _ => rfl, fun _ => .nil, fun _ _ ht => absurd ht List.not_mem_nil,
    fun _ _ _ ht => absurd ht List.not_mem_nil⟩

section Operations

variable {f g : FrameId}

@[simp] theorem accesses_recordAccess_self :
    (a.recordAccess f).accesses f = a.accesses f ++ [a.clock] := Function.update_self ..

theorem accesses_recordAccess_ne (hg : g ≠ f) : (a.recordAccess f).accesses g = a.accesses g :=
  Function.update_of_ne hg ..

@[simp] theorem accesses_forget_self : (a.forget f).accesses f = [] := Function.update_self ..

theorem accesses_forget_ne (hg : g ≠ f) : (a.forget f).accesses g = a.accesses g :=
  Function.update_of_ne hg ..

@[simp] theorem flags_forget_self : (a.forget f).flags f = false := Function.update_self ..

theorem flags_forget_ne (hg : g ≠ f) : (a.forget f).flags g = a.flags g :=
  Function.update_of_ne hg ..

theorem mem_accesses_recordAccess {t : Nat} (ht : t ∈ (a.recordAccess f).accesses g) :
    t ∈ a.accesses g ∨ (g = f ∧ t = a.clock) := by
  by_cases hg : g = f
  · subst hg
    rw [accesses_recordAccess_self] at ht
    rcases List.mem_append.mp ht with ht | ht
    · exact .inl ht
    · exact .inr ⟨rfl, List.mem_singleton.mp ht⟩
  · rw [accesses_recordAccess_ne hg] at ht
    exact .inl ht

theorem mem_accesses_forget {t : Nat} (ht : t ∈ (a.forget f).accesses g) : t ∈ a.accesses g := by
  by_cases hg : g = f
  · subst hg
    rw [accesses_forget_self] at ht
    exact absurd ht List.not_mem_nil
  · rwa [accesses_forget_ne hg] at ht

theorem Ok.recordAccess (h : a.Ok) (hf : f ≠ -1) : (a.recordAccess f).Ok := by
  refine ⟨?_, fun g hg => ?_, fun g => ?_, fun g t ht => ?_, fun g g' t ht ht' => ?_⟩
  · rw [accesses_recordAccess_ne hf.symm]
    exact h.valid
  · by_cases hgf : g = f
    · subst hgf
      rw [accesses_recordAccess_self] at hg
      exact absurd hg (by simp)
    · rw [accesses_recordAccess_ne hgf] at hg
      exact h.flags g hg
  · by_cases hgf : g = f
    · subst hgf
      rw [accesses_recordAccess_self]
      refine List.pairwise_append.mpr ⟨h.sorted g, List.pairwise_singleton _ _,
        fun t ht t' ht' => ?_⟩
      rw [List.mem_singleton.mp ht']
      exact h.past g t ht
    · rw [accesses_recordAccess_ne hgf]
      exact h.sorted g
  · rcases mem_accesses_recordAccess ht with ht | ⟨-, rfl⟩
    · exact Nat.lt_succ_of_lt (h.past g t ht)
    · exact Nat.lt_succ_self _
  · rcases mem_accesses_recordAccess ht with hold | ⟨rfl, rfl⟩
    · rcases mem_accesses_recordAccess ht' with hold' | ⟨rfl, rfl⟩
      · exact h.distinct g g' t hold hold'
      · exact absurd (h.past g _ hold) (Nat.lt_irrefl _)
    · rcases mem_accesses_recordAccess ht' with hold' | ⟨rfl, -⟩
      · exact absurd (h.past g' _ hold') (Nat.lt_irrefl _)
      · rfl

theorem Ok.setEvictable (h : a.Ok) (f : FrameId) (flag : Bool) : (a.setEvictable f flag).Ok := by
  rw [AccessLog.setEvictable]
  split
  · exact h
  · rename_i hf
    refine ⟨h.valid, fun g hg => ?_, h.sorted, h.past, h.distinct⟩
    have hgf : g ≠ f := fun heq => hf (heq ▸ hg)
    exact (Function.update_of_ne hgf ..).trans (h.flags g hg)

theorem Ok.forget (h : a.Ok) (f : FrameId) : (a.forget f).Ok := by
  refine ⟨?_, fun g hg => ?_, fun g => ?_, fun g t ht => h.past g t (mem_accesses_forget ht),
    fun g g' t ht ht' => h.distinct g g' t (mem_accesses_forget ht) (mem_accesses_forget ht')⟩
  · exact List.eq_nil_iff_forall_not_mem.mpr fun t ht => by
      simpa [h.valid] using mem_accesses_forget ht
  · by_cases hgf : g = f
    · rw [hgf, flags_forget_self]
    · rw [accesses_forget_ne hgf] at hg
      rw [flags_forget_ne hgf]
      exact h.flags g hg
  · by_cases hgf : g = f
    · rw [hgf, accesses_forget_self]
      exact .nil
    · rw [accesses_forget_ne hgf]
      exact h.sorted g

theorem Ok.forget_eq (h : a.Ok) (hf : a.accesses f = []) : a.forget f = a := by
  rw [AccessLog.forget]
  congr 1
  · exact Function.update_eq_self_iff.mpr hf.symm
  · exact Function.update_eq_self_iff.mpr (h.flags f hf).symm

/-- A flag is set on tracked frames only. -/
theorem Ok.evictable_iff (h : a.Ok) : a.Evictable f ↔ a.flags f = true := by
  refine and_iff_right_of_imp fun hflag hnil => ?_
  rw [h.flags f hnil] at hflag
  cases hflag

theorem Ok.evictable_recordAccess (h : a.Ok) (hf : f ≠ -1) :
    (a.recordAccess f).Evictable g ↔ a.Evictable g := by
  rw [(h.recordAccess hf).evictable_iff, h.evictable_iff]
  rfl

theorem Ok.evictable_setEvictable (h : a.Ok) (hf : a.accesses f ≠ []) (flag : Bool) :
    (a.setEvictable f flag).Evictable g ↔ if g = f then flag = true else a.Evictable g := by
  rw [(h.setEvictable f flag).evictable_iff, AccessLog.setEvictable, if_neg hf]
  split
  · rename_i hg
    simp [hg]
  · rename_i hg
    rw [h.evictable_iff]
    exact Eq.congr_left (Function.update_of_ne hg ..)

theorem Ok.evictable_forget (h : a.Ok) : (a.forget f).Evictable g ↔ g ≠ f ∧ a.Evictable g := by
  rw [(h.forget f).evictable_iff, h.evictable_iff]
  by_cases hg : g = f
  · rw [hg, flags_forget_self]
    simp
  · rw [flags_forget_ne hg]
    simp [hg]

end Operations

/-- So many frames can be evicted. -/
def Count (a : AccessLog) (n : Nat) : Prop :=
  ∃ fs : List FrameId, fs.Nodup ∧ (∀ f, f ∈ fs ↔ a.Evictable f) ∧ n = fs.length

namespace Count

variable {a' : AccessLog} {n : Nat} {f : FrameId}

theorem congr (h : a.Count n) (hsame : ∀ g, a'.Evictable g ↔ a.Evictable g) : a'.Count n := by
  obtain ⟨fs, hnodup, hmem, hlen⟩ := h
  exact ⟨fs, hnodup, fun g => (hmem g).trans (hsame g).symm, hlen⟩

/-- One frame less. -/
theorem erase (h : a.Count n) (hf : a.Evictable f)
    (hsame : ∀ g, a'.Evictable g ↔ g ≠ f ∧ a.Evictable g) : a'.Count (n - 1) := by
  obtain ⟨fs, hnodup, hmem, rfl⟩ := h
  refine ⟨fs.erase f, hnodup.erase f, fun g => ?_, ?_⟩
  · rw [hnodup.mem_erase_iff, hmem, hsame]
  · rw [List.length_erase_of_mem ((hmem f).mpr hf)]

/-- One frame more. -/
theorem insert (h : a.Count n) (hf : ¬ a.Evictable f)
    (hsame : ∀ g, a'.Evictable g ↔ g = f ∨ a.Evictable g) : a'.Count (n + 1) := by
  obtain ⟨fs, hnodup, hmem, rfl⟩ := h
  refine ⟨f :: fs, List.nodup_cons.mpr ⟨fun hin => hf ((hmem f).mp hin), hnodup⟩, fun g => ?_, rfl⟩
  rw [List.mem_cons, hmem, hsame]

theorem pos_iff (h : a.Count n) : 0 < n ↔ ∃ f, a.Evictable f := by
  obtain ⟨fs, -, hmem, rfl⟩ := h
  rw [List.length_pos_iff_exists_mem]
  exact exists_congr hmem

end Count

end AccessLog

namespace AccessLog

variable {a : AccessLog} {k : Nat} {f g : FrameId}

theorem kthAccess_of_lt (a : AccessLog) (hfew : (a.accesses f).length < k) :
    a.kthAccess k f = a.firstAccess f := by
  rw [kthAccess, Nat.sub_eq_zero_of_le (Nat.le_of_lt hfew), firstAccess]
  cases a.accesses f <;> rfl

theorem kthAccess_mem (a : AccessLog) (hk : 1 ≤ k) (hf : a.Tracked f) :
    a.kthAccess k f ∈ a.accesses f := by
  have hlen : (a.accesses f).length - k < (a.accesses f).length := by
    have hpos := List.length_pos_iff.mpr hf
    omega
  rw [kthAccess, List.getD_eq_getElem?_getD, List.getElem?_eq_getElem hlen, Option.getD_some]
  exact List.getElem_mem hlen

/-- There is at most one such frame. -/
theorem IsVictim.unique (hf : a.IsVictim k f) (hg : a.IsVictim k g) : f = g := by
  by_contra hne
  obtain ⟨hfev, hfbest⟩ := hf
  obtain ⟨hgev, hgbest⟩ := hg
  rcases hfbest with ⟨hffew, hffirst⟩ | ⟨hfmany, hfkth⟩
  · rcases hgbest with ⟨hgfew, hgfirst⟩ | ⟨hgmany, -⟩
    · exact Nat.lt_asymm (hffirst g hgev hgfew (Ne.symm hne)) (hgfirst f hfev hffew hne)
    · exact absurd hffew (Nat.not_lt.mpr (hgmany f hfev))
  · rcases hgbest with ⟨hgfew, -⟩ | ⟨-, hgkth⟩
    · exact absurd hgfew (Nat.not_lt.mpr (hfmany g hgev))
    · exact Nat.lt_asymm (hfkth g hgev (Ne.symm hne)) (hgkth f hfev hne)

end AccessLog

/-! ## The replacer keeps the end of the log -/

/-- The last `k` elements. -/
def lastK (k : Nat) (l : List Nat) : List Nat := l.drop (l.length - k)

/-- `RecordAccess` appends the time and drops the oldest one if there are too many. -/
theorem lastK_append {k : Nat} (hk : 1 ≤ k) (l : List Nat) (t : Nat) :
    (if (lastK k l ++ [t]).length > k then (lastK k l ++ [t]).tail else lastK k l ++ [t]) =
      lastK k (l ++ [t]) := by
  have hlen : (lastK k l ++ [t]).length = l.length - (l.length - k) + 1 := by
    rw [List.length_append, lastK, List.length_drop, List.length_singleton]
  rw [hlen, lastK, lastK, List.length_append, List.length_singleton]
  by_cases hlong : k ≤ l.length
  · rw [if_pos (by omega), List.tail_append_of_ne_nil, List.drop_append_of_le_length (by omega),
      List.tail_drop, show l.length + 1 - k = l.length - k + 1 by omega]
    rw [← List.length_pos_iff, List.length_drop]
    omega
  · rw [if_neg (by omega), show l.length - k = 0 by omega, show l.length + 1 - k = 0 by omega]
    rfl

theorem length_lastK_lt {k : Nat} {l : List Nat} : (lastK k l).length < k ↔ l.length < k := by
  rw [lastK, List.length_drop]
  omega

theorem headD_lastK (k : Nat) (l : List Nat) :
    (lastK k l).headD 0 = l.getD (l.length - k) 0 := by
  rw [lastK, List.headD_eq_head?_getD, List.head?_drop, List.getD_eq_getElem?_getD]

namespace LRUKReplacer

/-- **The replacer in step with the log.** -/
structure Follows (k : Nat) (r : LRUKReplacer) (a : AccessLog) : Prop where
  ok : a.Ok
  k_eq : r.k = k
  clock : r.currentTimestamp = a.clock
  lookup : ∀ f, r.entries.lookup f =
    if a.accesses f = [] then none else some ⟨lastK k (a.accesses f), a.flags f⟩
  size : a.Count r.currSize

namespace Follows

variable {k : Nat} {r : LRUKReplacer} {a : AccessLog} {f : FrameId}

theorem lookup_of_tracked (h : Follows k r a) (hf : a.accesses f ≠ []) :
    r.entries.lookup f = some ⟨lastK k (a.accesses f), a.flags f⟩ := by
  rw [h.lookup, if_neg hf]

theorem evictable_iff (h : Follows k r a) :
    a.Evictable f ↔ ∃ e, r.entries.lookup f = some e ∧ e.isEvictable = true := by
  rw [h.lookup]
  by_cases hf : a.accesses f = []
  · simp [AccessLog.Evictable, AccessLog.Tracked, hf]
  · simp [AccessLog.Evictable, AccessLog.Tracked, hf]

theorem create (numFrames : Nat) : Follows k (LRUKReplacer.create numFrames k) {} where
  ok := AccessLog.ok_empty
  k_eq := rfl
  clock := rfl
  lookup := fun f => by simp [LRUKReplacer.create]
  size := ⟨[], .nil, fun f => by simp [AccessLog.Evictable], rfl⟩

theorem recordAccess (h : Follows k r a) (hk : 1 ≤ k) (hf : f ≠ -1) :
    Follows k (r.recordAccess f) (a.recordAccess f) where
  ok := h.ok.recordAccess hf
  k_eq := h.k_eq
  clock := congrArg (· + 1) h.clock
  lookup := fun g => by
    by_cases hg : g = f
    · subst hg
      rw [AccessLog.accesses_recordAccess_self, if_neg (by simp), LRUKReplacer.recordAccess,
        AList.lookup_insert, ← lastK_append hk, h.k_eq, h.clock]
      by_cases hnil : a.accesses g = []
      · simp [h.lookup, hnil, AccessLog.recordAccess, lastK, h.ok.flags g hnil]
      · rw [h.lookup_of_tracked hnil]
        rfl
    · rw [AccessLog.accesses_recordAccess_ne hg, lookup_recordAccess_ne r hg, h.lookup]
      rfl
  size := h.size.congr fun g => h.ok.evictable_recordAccess hf

/-- Setting the flag of a tracked frame moves the count by one, or not at all. -/
theorem count_setEvictable (h : Follows k r a) (hf : a.accesses f ≠ []) (flag : Bool) :
    (a.setEvictable f flag).Count
      (if a.flags f && !flag then r.currSize - 1
        else if !a.flags f && flag then r.currSize + 1 else r.currSize) := by
  have hself := h.ok.evictable_iff (f := f)
  have hset := fun g => h.ok.evictable_setEvictable (g := g) hf flag
  -- a flag that was set so before
  have hsame : a.flags f = flag → (a.setEvictable f flag).Count r.currSize := by
    intro hold
    refine h.size.congr fun g => ?_
    rw [hset]
    split
    · rename_i hg
      simp [hg, hself, hold]
    · rfl
  cases hold : a.flags f <;> cases flag
  · exact hsame hold
  · refine h.size.insert (f := f) (by simp [hself, hold]) fun g => ?_
    rw [hset]
    by_cases hg : g = f <;> simp [hg]
  · refine h.size.erase (f := f) (hself.mpr hold) fun g => ?_
    rw [hset]
    by_cases hg : g = f <;> simp [hg]
  · exact hsame hold

theorem setEvictable (h : Follows k r a) (f : FrameId) (flag : Bool) :
    Follows k (r.setEvictable f flag) (a.setEvictable f flag) := by
  by_cases hf : a.accesses f = []
  · have hnone : r.entries.lookup f = none := by rw [h.lookup, if_pos hf]
    rw [LRUKReplacer.setEvictable, AccessLog.setEvictable, hnone, if_pos hf]
    exact h
  · have hsome := h.lookup_of_tracked hf
    have hcount := h.count_setEvictable hf flag
    refine ⟨h.ok.setEvictable f flag, ?_, ?_, fun g => ?_, ?_⟩
    · rw [LRUKReplacer.setEvictable, hsome]
      exact h.k_eq
    · rw [LRUKReplacer.setEvictable, hsome, AccessLog.setEvictable, if_neg hf]
      exact h.clock
    · by_cases hg : g = f
      · subst hg
        rw [lookup_setEvictable_self, hsome, AccessLog.setEvictable, if_neg hf]
        simp [hf]
      · rw [lookup_setEvictable_ne r flag hg, h.lookup, AccessLog.setEvictable, if_neg hf]
        simp [Function.update_of_ne hg]
    · rw [LRUKReplacer.setEvictable, hsome]
      exact hcount

/-- An evictable frame is dropped, by `Evict` or by `Remove`. -/
theorem forget (h : Follows k r a) (hf : a.Evictable f) :
    Follows k { r with entries := r.entries.erase f, currSize := r.currSize - 1 } (a.forget f) where
  ok := h.ok.forget f
  k_eq := h.k_eq
  clock := h.clock
  lookup := fun g => by
    by_cases hg : g = f
    · subst hg
      rw [AList.lookup_erase, AccessLog.accesses_forget_self, if_pos rfl]
    · rw [AList.lookup_erase_ne hg, AccessLog.accesses_forget_ne hg, AccessLog.flags_forget_ne hg,
        h.lookup]
  size := h.size.erase hf fun _ => h.ok.evictable_forget

/-- The iteration order plays no role here. -/
theorem reorder (h : Follows k r a) {r' : LRUKReplacer} (hr : r.SameUpToOrder r') :
    Follows k r' a where
  ok := h.ok
  k_eq := hr.k.trans h.k_eq
  clock := hr.currentTimestamp.trans h.clock
  lookup := fun f => (AList.perm_lookup hr.entries).trans (h.lookup f)
  size := hr.currSize ▸ h.size

/-! ### What the pass sees of the log -/

variable {e : Sigma fun _ : FrameId => FrameEntry}

theorem of_mem (h : Follows k r a) (he : e ∈ r.entries.entries) :
    a.Tracked e.1 ∧ e.2 = ⟨lastK k (a.accesses e.1), a.flags e.1⟩ := by
  have hlookup : r.entries.lookup e.1 = some e.2 := AList.mem_lookup_iff.mpr he
  rw [h.lookup] at hlookup
  split at hlookup
  · cases hlookup
  · rename_i htracked
    exact ⟨htracked, (Option.some.inj hlookup).symm⟩

theorem mem_of_tracked (h : Follows k r a) (hf : a.Tracked f) :
    ⟨f, ⟨lastK k (a.accesses f), a.flags f⟩⟩ ∈ r.entries.entries :=
  AList.mem_lookup_iff.mp (h.lookup_of_tracked hf)

theorem far_iff (h : Follows k r a) (he : e ∈ r.entries.entries) :
    r.Far e ↔ a.Evictable e.1 ∧ (a.accesses e.1).length < k := by
  rw [h.ok.evictable_iff, Far, (h.of_mem he).2, h.k_eq, length_lastK_lt]

theorem near_iff (h : Follows k r a) (he : e ∈ r.entries.entries) :
    r.Near e ↔ a.Evictable e.1 ∧ k ≤ (a.accesses e.1).length := by
  rw [h.ok.evictable_iff, Near, (h.of_mem he).2, h.k_eq, length_lastK_lt, Nat.not_lt]

theorem front_eq (h : Follows k r a) (he : e ∈ r.entries.entries) :
    front e = a.kthAccess k e.1 := by
  rw [front, (h.of_mem he).2, headD_lastK]
  rfl

theorem front_lt (h : Follows k r a) (hk : 1 ≤ k) (he : e ∈ r.entries.entries) :
    front e < r.currentTimestamp := by
  rw [h.front_eq he, h.clock]
  exact h.ok.past _ _ (a.kthAccess_mem hk (h.of_mem he).1)

theorem ne_invalid (h : Follows k r a) (he : e ∈ r.entries.entries) : e.1 ≠ -1 := by
  intro heq
  exact (h.of_mem he).1 (heq ▸ h.ok.valid)

/-- An entry that is found is not later than any other one of its class, so it is earlier. -/
theorem kthAccess_lt (h : Follows k r a) (hk : 1 ≤ k) {g : FrameId} (hf : a.Tracked f)
    (hg : a.Tracked g) (hgf : g ≠ f) (hle : a.kthAccess k f ≤ a.kthAccess k g) :
    a.kthAccess k f < a.kthAccess k g := by
  refine Nat.lt_of_le_of_ne hle fun heq => hgf ?_
  exact (h.ok.distinct f g _ (a.kthAccess_mem hk hf) (heq ▸ a.kthAccess_mem hk hg)).symm

/-- **The pass of `Evict` finds the victim**, if there is one. -/
theorem scan_victim (h : Follows k r a) (hk : 1 ≤ k) :
    (r.scan.victimFrame = -1 ∧ ∀ f, ¬ a.Evictable f) ∨
      (r.scan.victimFrame ≠ -1 ∧ a.IsVictim k r.scan.victimFrame) := by
  have hbest := scan_best r r.entries.entries (fun e he => h.ne_invalid he)
    (fun e he => h.front_lt hk he)
  change Best r r.entries.entries r.scan at hbest
  cases hbest with
  | nothing _ hvictim hall =>
    refine .inl ⟨hvictim, fun f hf => ?_⟩
    have hflag := hall _ (h.mem_of_tracked hf.1)
    rw [show a.flags f = true from hf.2] at hflag
    cases hflag
  | @far e he hfar _ hvictim _ hall =>
    refine .inr ⟨hvictim ▸ h.ne_invalid he, ?_⟩
    rw [hvictim]
    obtain ⟨hev, hfew⟩ := (h.far_iff he).mp hfar
    refine ⟨hev, .inl ⟨hfew, fun g hg hgfew hge => ?_⟩⟩
    have hmem := h.mem_of_tracked hg.1
    have hle := hall _ hmem ((h.far_iff hmem).mpr ⟨hg, hgfew⟩)
    rw [h.front_eq he, h.front_eq hmem] at hle
    rw [← a.kthAccess_of_lt hfew, ← a.kthAccess_of_lt hgfew]
    exact h.kthAccess_lt hk hev.1 hg.1 hge hle
  | @near e he hnear _ hvictim _ hnone hall =>
    refine .inr ⟨hvictim ▸ h.ne_invalid he, ?_⟩
    rw [hvictim]
    have hmany : ∀ g, a.Evictable g → k ≤ (a.accesses g).length := fun g hg => by
      have hmem := h.mem_of_tracked hg.1
      exact Nat.not_lt.mp fun hlt => hnone _ hmem ((h.far_iff hmem).mpr ⟨hg, hlt⟩)
    obtain ⟨hev, -⟩ := (h.near_iff he).mp hnear
    refine ⟨hev, .inr ⟨hmany, fun g hg hge => ?_⟩⟩
    have hmem := h.mem_of_tracked hg.1
    have hle := hall _ hmem ((h.near_iff hmem).mpr ⟨hg, hmany g hg⟩)
    rw [h.front_eq he, h.front_eq hmem] at hle
    exact h.kthAccess_lt hk hev.1 hg.1 hge hle

theorem evict_cases (h : Follows k r a) (hk : 1 ≤ k) :
    (r.evict = (none, r) ∧ ∀ f, ¬ a.Evictable f) ∨
      ∃ f, a.IsVictim k f ∧ r.evict = (some f,
        { r with entries := r.entries.erase f, currSize := r.currSize - 1 }) := by
  rcases h.scan_victim hk with ⟨hvictim, hnone⟩ | ⟨hvictim, hbest⟩
  · refine .inl ⟨?_, hnone⟩
    unfold LRUKReplacer.evict
    rw [hvictim]
    rfl
  · refine .inr ⟨_, hbest, ?_⟩
    unfold LRUKReplacer.evict
    exact if_neg hvictim

theorem evict_iff (h : Follows k r a) (hk : 1 ≤ k) : r.evict.1 = some f ↔ a.IsVictim k f := by
  rcases h.evict_cases hk with ⟨hevict, hnone⟩ | ⟨g, hg, hevict⟩
  · rw [hevict]
    constructor
    · intro hf
      cases hf
    · intro hf
      exact absurd hf.1 (hnone f)
  · rw [hevict]
    constructor
    · intro hf
      rw [← Option.some.inj hf]
      exact hg
    · intro hf
      exact congrArg some (hg.unique hf)

end Follows

end LRUKReplacer

/-! ## Every sequence of calls -/

namespace LRURun

open LRUKReplacer

variable {k : Nat} {r : LRUKReplacer} {a : AccessLog}

/-- One call. -/
theorem step_follows (h : Follows k r a) (hk : 1 ≤ k) {op : LRUOp} (hop : op.Valid) :
    Follows k (r.step a op).1 (r.step a op).2 := by
  cases op with
  | recordAccess f => exact h.recordAccess hk hop
  | setEvictable f flag => exact h.setEvictable f flag
  | remove f =>
    by_cases hf : a.accesses f = []
    · have hsame : r.remove f = .ok r := by rw [LRUKReplacer.remove, h.lookup, if_pos hf]
      have hforget : a.forget f = a := h.ok.forget_eq hf
      simp only [LRUKReplacer.step, hsame, hforget]
      exact h
    · have hsome := h.lookup_of_tracked hf
      cases hflag : a.flags f with
      | true =>
        have hremove := r.remove_of_evictable hsome hflag
        simp only [LRUKReplacer.step, hremove]
        exact h.forget ⟨hf, hflag⟩
      | false =>
        have hthrow : r.remove f = .error "Cannot remove non-evictable frame" := by
          simp [LRUKReplacer.remove, hsome, hflag]
        simp only [LRUKReplacer.step, hthrow]
        exact h
  | evict =>
    rcases h.evict_cases hk with ⟨hevict, -⟩ | ⟨f, hf, hevict⟩
    · simp only [LRUKReplacer.step, hevict]
      exact h
    · simp only [LRUKReplacer.step, hevict]
      exact h.forget hf.1

theorem follows (h : LRURun k r a) (hk : 1 ≤ k) : Follows k r a := by
  induction h with
  | create numFrames => exact .create numFrames
  | step _ _ hop ih => exact step_follows ih hk hop
  | reorder _ hr ih => exact ih.reorder hr

end LRURun

open LRUKReplacer in
/-- **`Evict` follows the policy**, after every sequence of calls: `Size()` is the number of
tracked evictable frames; `Evict` returns one iff there is one; it is the victim by the log,
whatever the iteration order is; and the other frames keep their entries. -/
theorem lruRun_evict {k : Nat} {r : LRUKReplacer} {a : AccessLog} (hk : 1 ≤ k)
    (h : LRURun k r a) :
    (∀ f, a.Evictable f ↔ ∃ e, r.entries.lookup f = some e ∧ e.isEvictable = true) ∧
      (∃ fs : List FrameId, fs.Nodup ∧ (∀ f, f ∈ fs ↔ a.Evictable f) ∧ r.size = fs.length) ∧
      (r.evict.1.isSome ↔ 0 < r.size) ∧
      (∀ f, r.evict.1 = some f ↔ a.IsVictim k f) ∧
      (∀ r', r.SameUpToOrder r' → r'.evict.1 = r.evict.1) ∧
      ∀ f, r.evict.1 ≠ some f → r.evict.2.entries.lookup f = r.entries.lookup f := by
  have hfollows := h.follows hk
  refine ⟨fun f => hfollows.evictable_iff, hfollows.size, ?_, fun f => hfollows.evict_iff hk,
    fun r' hr => ?_, fun f hf => ?_⟩
  · rw [LRUKReplacer.size, hfollows.size.pos_iff]
    rcases hfollows.evict_cases hk with ⟨hevict, hnone⟩ | ⟨f, hf, hevict⟩
    · simp [hevict, hnone]
    · simp only [hevict, Option.isSome_some, true_iff]
      exact ⟨f, hf.1⟩
  · have hfollows' := hfollows.reorder hr
    refine Option.ext fun f => ?_
    rw [hfollows'.evict_iff hk, hfollows.evict_iff hk]
  · rcases hfollows.evict_cases hk with ⟨hevict, -⟩ | ⟨g, -, hevict⟩
    · rw [hevict]
    · rw [hevict] at hf ⊢
      exact AList.lookup_erase_ne fun heq => hf (congrArg some heq.symm)

/-- Frame 1 was accessed twice and frame 2 once: with `k = 2` frame 2 goes first. -/
theorem lruRun_evict_second : ∃ r a, LRURun 2 r a ∧ r.evict.1 = some 2 ∧ r.size = 2 ∧
    r.evict.2.entries.lookup 1 = r.entries.lookup 1 := by
  have hone : (LRUOp.recordAccess 1).Valid := show (1 : FrameId) ≠ -1 by decide
  have htwo : (LRUOp.recordAccess 2).Valid := show (2 : FrameId) ≠ -1 by decide
  have h := ((LRURun.create (k := 2) 7).step _ hone).step _ hone |>.step _ htwo
  replace h := (h.step (.setEvictable 1 true) trivial).step (.setEvictable 2 true) trivial
  obtain ⟨-, -, -, -, -, hother⟩ := lruRun_evict (by decide) h
  exact ⟨_, _, h, by decide, by decide, hother 1 (by decide)⟩

/-- `Evict` cannot tell the frame `INVALID_FRAME_ID` from no frame at all. -/
theorem evict_invalidFrame :
    let r := ((LRUKReplacer.create 1 1).recordAccess (-1)).setEvictable (-1) true
    r.entries.lookup (-1) = some ⟨[0], true⟩ ∧ r.size = 1 ∧ r.evict.1 = none := by
  decide

end OneBase
