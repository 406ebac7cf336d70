import Mathlib.Algebra.Group.Int.Defs
import Mathlib.Algebra.Group.Nat.Defs
import Mathlib.Data.List.AList
import Mathlib.Data.List.Induction
import OneBase.Common.Types

/-!
# The LRU-K replacer (`buffer/lru_k_replacer.cpp`)

`entries_` maps a tracked frame to its last `k` access times and its evictable
flag. `Evict` makes one pass over the map: frames with fewer than `k` recorded
accesses ("+infinity" frames) are ranked by their first access, the others by
their backward k-distance, and the first class wins as soon as one of its
members is met.

`std::unordered_map` is an association list without duplicate keys; its list
order stands for the iteration order of the hash table.

- `scan_cases`: what one pass can leave in `victim_frame`.
- `evict_spec`: the victim is a tracked evictable frame, and a pass without a
  victim means that no tracked frame is evictable.
- `lookup_recordAccess`, `lookup_setEvictable`, `lookup_remove`: the other
  three operations, one lookup lemma each.
-/

namespace OneBase

/-- A tracked frame (`LRUKReplacer::FrameEntry`). -/
structure FrameEntry where
  history : List Nat := []
  isEvictable : Bool := false
  deriving DecidableEq, Repr

/-- The replacer: `max_frames_`, `k_`, `curr_size_`, `current_timestamp_`, `entries_`. -/
structure LRUKReplacer where
  maxFrames : Nat
  k : Nat
  currSize : Nat := 0
  currentTimestamp : Nat := 0
  entries : AList (fun _ : FrameId => FrameEntry) := ∅

namespace LRUKReplacer

/-- The constructor. -/
def create (numFrames k : Nat) : LRUKReplacer := { maxFrames := numFrames, k := k }

/-- The local variables of the loop in `Evict`. -/
structure Scan where
  victimFrame : FrameId := -1
  maxKDistance : Nat := 0
  earliestTimestamp : Nat := 2 ^ 64 - 1
  foundInfFrame : Bool := false

/-- One iteration of the loop in `Evict` (lru_k_replacer.cpp:18–39). -/
def scanEntry (r : LRUKReplacer) (s : Scan) (e : Sigma fun _ : FrameId => FrameEntry) : Scan :=
  if !e.2.isEvictable then s
  else if e.2.history.length < r.k then
    let firstAccess := e.2.history.headD 0
    if !s.foundInfFrame || firstAccess < s.earliestTimestamp then
      { s with victimFrame := e.1, earliestTimestamp := firstAccess, foundInfFrame := true }
    else s
  else if !s.foundInfFrame then
    let kDistance := r.currentTimestamp - e.2.history.headD 0
    if s.victimFrame = -1 || kDistance > s.maxKDistance then
      { s with victimFrame := e.1, maxKDistance := kDistance }
    else s
  else s

/-- The whole pass over `entries_`. -/
def scan (r : LRUKReplacer) : Scan := r.entries.entries.foldl r.scanEntry {}

/-- Model of `Evict`; `none` is the return value `false`. -/
def evict (r : LRUKReplacer) : Option FrameId × LRUKReplacer :=
  let victimFrame := r.scan.victimFrame
  if victimFrame = -1 then (none, r)
  else (some victimFrame,
    { r with entries := r.entries.erase victimFrame, currSize := r.currSize - 1 })

/-- Model of `RecordAccess`; `entries_[frame_id]` creates a missing entry. -/
def recordAccess (r : LRUKReplacer) (frameId : FrameId) : LRUKReplacer :=
  let entry := (r.entries.lookup frameId).getD {}
  let history := entry.history ++ [r.currentTimestamp]
  let history := if history.length > r.k then history.tail else history
  { r with
    entries := r.entries.insert frameId { entry with history := history }
    currentTimestamp := r.currentTimestamp + 1 }

/-- Model of `SetEvictable`. -/
def setEvictable (r : LRUKReplacer) (frameId : FrameId) (flag : Bool) : LRUKReplacer :=
  match r.entries.lookup frameId with
  | none => r
  | some entry =>
    let currSize :=
      if entry.isEvictable && !flag then r.currSize - 1
      else if !entry.isEvictable && flag then r.currSize + 1
      else r.currSize
    { r with
      currSize := currSize
      entries := r.entries.insert frameId { entry with isEvictable := flag } }

/-- Model of `Remove`, which throws on a tracked frame that is not evictable. -/
def remove (r : LRUKReplacer) (frameId : FrameId) : Except String LRUKReplacer :=
  match r.entries.lookup frameId with
  | none => .ok r
  | some entry =>
    if !entry.isEvictable then .error "Cannot remove non-evictable frame"
    else .ok { r with currSize := r.currSize - 1, entries := r.entries.erase frameId }

/-- Model of `Size`. -/
def size (r : LRUKReplacer) : Nat := r.currSize

/-! ## The pass of `Evict` -/

/-- One iteration keeps the victim or moves it to the entry just met; it moves
away from the initial `-1` at the first evictable entry. -/
theorem scanEntry_victim (r : LRUKReplacer) (s : Scan)
    (e : Sigma fun _ : FrameId => FrameEntry) (hinf : s.foundInfFrame = true → s.victimFrame ≠ -1)
    (hid : e.1 ≠ -1) :
    ((r.scanEntry s e).victimFrame = s.victimFrame ∧
        (e.2.isEvictable = true → s.victimFrame ≠ -1) ∨
      (r.scanEntry s e).victimFrame = e.1 ∧ e.2.isEvictable = true) ∧
    ((r.scanEntry s e).foundInfFrame = true → (r.scanEntry s e).victimFrame ≠ -1) := by
  unfold scanEntry
  generalize e.2.history.headD 0 = front
  by_cases hev : e.2.isEvictable = true
  · by_cases hk : e.2.history.length < r.k
    · cases hf : s.foundInfFrame with
      | false => simp [hev, hk, hid]
      | true =>
        have hv := hinf hf
        by_cases hfirst : front < s.earliestTimestamp
        · simp [hev, hk, hfirst, hid]
        · simp [hev, hk, hfirst, hv, hf]
    · cases hf : s.foundInfFrame with
      | true => simp [hev, hk, hinf hf, hf]
      | false =>
        by_cases hv : s.victimFrame = -1
        · simp [hev, hk, hv, hid]
        · by_cases hd : r.currentTimestamp - front > s.maxKDistance
          · simp [hev, hk, hd, hid]
          · simp [hev, hk, hv, hd, hf]
  · have hskip : (!e.2.isEvictable) = true := by simpa using hev
    rw [if_pos hskip]
    exact ⟨.inl ⟨rfl, fun h => absurd h hev⟩, hinf⟩

/-- After a pass over `l`, either there is no victim and nothing in `l` is
evictable, or the victim is an evictable entry of `l`. -/
theorem scan_cases (r : LRUKReplacer) (l : List (Sigma fun _ : FrameId => FrameEntry))
    (hids : ∀ e ∈ l, e.1 ≠ -1) :
    ((l.foldl r.scanEntry {}).victimFrame = -1 ∧ ∀ e ∈ l, e.2.isEvictable = false) ∨
      ∃ e ∈ l, (l.foldl r.scanEntry {}).victimFrame = e.1 ∧ e.2.isEvictable = true := by
  -- the pass is a left fold, so the induction adds an entry at the end
  suffices h : (((l.foldl r.scanEntry {}).victimFrame = -1 ∧
        ∀ e ∈ l, e.2.isEvictable = false) ∨
      ∃ e ∈ l, (l.foldl r.scanEntry {}).victimFrame = e.1 ∧ e.2.isEvictable = true) ∧
      ((l.foldl r.scanEntry {}).foundInfFrame = true →
        (l.foldl r.scanEntry {}).victimFrame ≠ -1) from h.1
  induction l using List.reverseRecOn with
  | nil => simp
  | append_singleton l e ih =>
    have hl : ∀ e ∈ l, e.1 ≠ -1 := fun x hx => hids x (List.mem_append_left _ hx)
    have he : e.1 ≠ -1 := hids e (by simp)
    obtain ⟨hcases, hinf⟩ := ih hl
    rw [List.foldl_append, List.foldl_cons, List.foldl_nil]
    obtain ⟨hvictim, hinf'⟩ := r.scanEntry_victim (l.foldl r.scanEntry {}) e hinf he
    refine ⟨?_, hinf'⟩
    rcases hvictim with ⟨hsame, hne⟩ | ⟨hnew, hev⟩
    · rcases hcases with ⟨hnone, hall⟩ | ⟨x, hx, hvx, hxev⟩
      · refine .inl ⟨hsame.trans hnone, fun y hy => ?_⟩
        rcases List.mem_append.mp hy with hy | hy
        · exact hall y hy
        · rw [List.mem_singleton.mp hy]
          cases hb : e.2.isEvictable with
          | false => rfl
          | true => exact absurd hnone (hne hb)
      · exact .inr ⟨x, List.mem_append_left _ hx, hsame.trans hvx, hxev⟩
    · exact .inr ⟨e, by simp, hnew, hev⟩

/-- **Spec of `Evict`** on a replacer that tracks no frame `-1`: a victim is a
tracked evictable frame and its entry is dropped; without a victim no tracked
frame is evictable and nothing changes. -/
theorem evict_spec (r : LRUKReplacer) (hids : (-1 : FrameId) ∉ r.entries) :
    (r.evict = (none, r) ∧ ∀ f e, r.entries.lookup f = some e → e.isEvictable = false) ∨
      ∃ f e, r.entries.lookup f = some e ∧ e.isEvictable = true ∧
        r.evict = (some f, { r with
          entries := r.entries.erase f, currSize := r.currSize - 1 }) := by
  have hne : ∀ e ∈ r.entries.entries, e.1 ≠ -1 := by
    rintro ⟨f, e⟩ he rfl
    exact hids (List.mem_keys_of_mem he)
  rcases r.scan_cases r.entries.entries hne with ⟨hnone, hall⟩ | ⟨⟨f, e⟩, he, hvictim, hev⟩
  · refine .inl ⟨?_, fun f e hf => ?_⟩
    · simp only [evict, scan, hnone, if_true]
    · exact hall ⟨f, e⟩ (AList.mem_lookup_iff.mp hf)
  · refine .inr ⟨f, e, AList.mem_lookup_iff.mpr he, hev, ?_⟩
    have hf : f ≠ -1 := hne _ he
    simp only [evict, scan, hvictim]
    rw [if_neg hf]

/-! ## Lookups after the other operations -/

theorem lookup_recordAccess_self (r : LRUKReplacer) (f : FrameId) :
    ∃ e, (r.recordAccess f).entries.lookup f = some e ∧
      e.isEvictable = ((r.entries.lookup f).getD {}).isEvictable :=
  ⟨_, AList.lookup_insert _, rfl⟩

theorem lookup_recordAccess_ne (r : LRUKReplacer) {f g : FrameId} (h : g ≠ f) :
    (r.recordAccess f).entries.lookup g = r.entries.lookup g :=
  AList.lookup_insert_ne h

theorem lookup_setEvictable_self (r : LRUKReplacer) (f : FrameId) (flag : Bool) :
    (r.setEvictable f flag).entries.lookup f =
      (r.entries.lookup f).map fun e => { e with isEvictable := flag } := by
  unfold setEvictable
  cases h : r.entries.lookup f with
  | none => simpa using h
  | some e => simp

theorem lookup_setEvictable_ne (r : LRUKReplacer) {f g : FrameId} (flag : Bool) (h : g ≠ f) :
    (r.setEvictable f flag).entries.lookup g = r.entries.lookup g := by
  unfold setEvictable
  cases r.entries.lookup f with
  | none => rfl
  | some e => exact AList.lookup_insert_ne h

/-- The pair of calls that pins a frame leaves its entry not evictable. -/
theorem lookup_pin_self (r : LRUKReplacer) (f : FrameId) :
    ∃ e, ((r.recordAccess f).setEvictable f false).entries.lookup f = some e ∧
      e.isEvictable = false := by
  obtain ⟨e, he, -⟩ := r.lookup_recordAccess_self f
  exact ⟨{ e with isEvictable := false }, by rw [lookup_setEvictable_self, he]; rfl, rfl⟩

theorem lookup_pin_ne (r : LRUKReplacer) {f g : FrameId} (h : g ≠ f) :
    ((r.recordAccess f).setEvictable f false).entries.lookup g = r.entries.lookup g := by
  rw [lookup_setEvictable_ne _ _ h, lookup_recordAccess_ne _ h]

/-- Removing an evictable frame succeeds and drops its entry only. -/
theorem remove_of_evictable (r : LRUKReplacer) {f : FrameId} {e : FrameEntry}
    (h : r.entries.lookup f = some e) (hev : e.isEvictable = true) :
    r.remove f = .ok { r with currSize := r.currSize - 1, entries := r.entries.erase f } := by
  simp [remove, h, hev]

end LRUKReplacer

end OneBase
