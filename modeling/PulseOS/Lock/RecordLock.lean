import Mathlib.Data.List.Sort
import PulseOS.Errno
import PulseOS.Lib.Loop

/-!
# Record locks of one file

`RecordLockState` of `record_lock.rs`: the list of the locks held on a target, and the functions
that query and change it.  `set` clears the range for its owner, appends the new lock and
coalesces; `clear_owner_range` splits locks in place with `swap_remove` and `push`; `coalesce`
sorts and merges in place.
-/

namespace PulseOS.Lock

open Exec Loop List

inductive RecordLockType where
  | read
  | write
  deriving DecidableEq, Repr

inductive RecordLockOwner where
  | posix (pid : UInt64)
  | ofd (description : UInt64)
  deriving DecidableEq, Repr

/-- A lock of `owner` on the bytes from `start` up to, but not including, `stop`. -/
structure RecordLock where
  owner : RecordLockOwner
  start : Int
  stop : Int
  lockType : RecordLockType
  deriving DecidableEq, Repr

open RecordLock

/-- Position in the derived order of `RecordLockOwner`: every `Posix` before every `Ofd`. -/
def RecordLockOwner.rank : RecordLockOwner → Nat
  | .posix pid => pid.toNat
  | .ofd description => 2 ^ 64 + description.toNat

/-- Position in the derived order of `RecordLockType`. -/
def RecordLockType.rank : RecordLockType → Nat
  | .read => 0
  | .write => 1

theorem RecordLockOwner.rank_inj {a b : RecordLockOwner} (h : a.rank = b.rank) : a = b := by
  cases a with
  | posix p =>
    cases b with
    | posix q => rw [UInt64.toNat_inj.mp h]
    | ofd q =>
      have := p.toNat_lt
      simp only [rank] at h
      omega
  | ofd p =>
    cases b with
    | posix q =>
      have := q.toNat_lt
      simp only [rank] at h
      omega
    | ofd q => rw [UInt64.toNat_inj.mp (Nat.add_left_cancel h)]

theorem RecordLockType.rank_inj {a b : RecordLockType} (h : a.rank = b.rank) : a = b := by
  cases a <;> cases b <;> first | rfl | cases h

def rangesOverlap (aStart aStop bStart bStop : Int) : Bool := aStart < bStop && bStart < aStop

def lockTypesConflict (a b : RecordLockType) : Bool := !(a == .read && b == .read)

def validateRange (start stop : Int) : Except LinuxError Unit :=
  if start < 0 ∨ start ≥ stop then .error .EINVAL else .ok ()

/-! ## The functions of `RecordLockState` -/

/-- `entry` stands in the way of a request. -/
def RecordLock.conflictsWith (entry : RecordLock) (owner : RecordLockOwner) (start stop : Int)
    (lockType : RecordLockType) : Bool :=
  entry.owner != owner && rangesOverlap entry.start entry.stop start stop &&
    lockTypesConflict entry.lockType lockType

/-- `(start, end, owner)` of `a` is smaller. -/
def RecordLock.Before (a b : RecordLock) : Prop :=
  a.start < b.start ∨ a.start = b.start ∧
    (a.stop < b.stop ∨ a.stop = b.stop ∧ a.owner.rank < b.owner.rank)

instance : DecidableRel Before := fun a b => by unfold Before; infer_instance

/-- `min_by_key`, which keeps the first of several smallest elements. -/
def leastByStart : List RecordLock → Option RecordLock
  | [] => none
  | entry :: entries =>
    some (entries.foldl (fun least entry => if entry.Before least then entry else least) entry)

variable (entries : List RecordLock) (owner : RecordLockOwner) (start stop : Int)

def conflict (lockType : RecordLockType) : Option RecordLock :=
  leastByStart (entries.filter (·.conflictsWith owner start stop lockType))

/-- `clear_owner_range` takes `entry` out. -/
def RecordLock.touched (entry : RecordLock) : Bool :=
  entry.owner == owner && rangesOverlap entry.start entry.stop start stop

/-- What is pushed back for a lock that was taken out. -/
def RecordLock.remains (entry : RecordLock) : List RecordLock :=
  (if entry.start < start then [{ entry with stop := start }] else []) ++
    if entry.stop > stop then [{ entry with start := stop }] else []

/-- One round of the loop of `clear_owner_range` over `(entries, index, changed)`. -/
def clearRound : List RecordLock × Nat × Bool →
      Exec Empty ((List RecordLock × Nat × Bool) ⊕ (List RecordLock × Bool))
  | (entries, index, changed) =>
    if index < entries.length then do
      let entry ← Exec.get entries index
      if entry.touched owner start stop then
        let rest ← Exec.swapRemove entries index
        .ok (.inl (rest ++ entry.remains start stop, index, true))
      else .ok (.inl (entries, index + 1, changed))
    else .ok (.inr (entries, changed))

/-- `clear_owner_range`: the locks left and whether any was taken out. -/
def clearOwnerRange : Exec Empty (List RecordLock × Bool) :=
  iter (clearRound owner start stop) (3 * entries.length + 1) (entries, 0, false)

/-- `release_owner`: the locks left and whether any was taken out. -/
def releaseOwner : List RecordLock × Bool :=
  let kept := entries.filter (·.owner != owner)
  (kept, kept.length != entries.length)

/-- The sort key `(owner, lock_type, start, end)` of `a` is at most that of `b`. -/
def RecordLock.Le (a b : RecordLock) : Prop :=
  a.owner.rank < b.owner.rank ∨ a.owner.rank = b.owner.rank ∧
    (a.lockType.rank < b.lockType.rank ∨ a.lockType.rank = b.lockType.rank ∧
      (a.start < b.start ∨ a.start = b.start ∧ a.stop ≤ b.stop))

instance : DecidableRel Le := fun a b => by unfold Le; infer_instance

/-- `entry` is merged into the lock `previous`. -/
def RecordLock.continuedBy (previous entry : RecordLock) : Bool :=
  previous.owner == entry.owner && previous.lockType == entry.lockType &&
    entry.start ≤ previous.stop

/-- One round of the loop of `coalesce` over `(entries, output)`. -/
def coalesceRound (index : Nat) : List RecordLock × Nat → Exec Empty (List RecordLock × Nat)
  | (entries, output) => do
    let entry ← Exec.get entries index
    if output > 0 then
      let previous ← Exec.get entries (output - 1)
      if previous.continuedBy entry then
        let entries ← Exec.set entries (output - 1)
          { previous with stop := max previous.stop entry.stop }
        return (entries, output)
    let entries ← Exec.set entries output entry
    return (entries, output + 1)

def coalesce : Exec Empty (List RecordLock) := do
  let sorted := entries.insertionSort Le
  let (entries, output) ← forUpTo coalesceRound sorted.length (sorted, 0)
  .ok (entries.take output)

/-- `set`: its result and the locks afterwards. -/
def set (lockType : RecordLockType) : Exec Empty (Except LinuxError Unit × List RecordLock) :=
  match validateRange start stop with
  | .error e => .ok (.error e, entries)
  | .ok () =>
    if (conflict entries owner start stop lockType).isSome then .ok (.error .EAGAIN, entries)
    else do
      let (cleared, _) ← clearOwnerRange entries owner start stop
      let coalesced ← coalesce (cleared ++ [⟨owner, start, stop, lockType⟩])
      .ok (.ok (), coalesced)

/-! ## Results of `set` -/

variable {lockType : RecordLockType} {owner : RecordLockOwner} {start stop : Int}
  {entries sorted : List RecordLock} {entry : RecordLock}

theorem set_error {out : List RecordLock} {e : LinuxError}
    (h : set entries owner start stop lockType = .ok (.error e, out)) : out = entries := by
  unfold set at h
  split at h
  · cases h
    rfl
  · split at h
    · cases h
      rfl
    · obtain ⟨r, -, h⟩ := bind_eq_ok.mp h
      obtain ⟨c, -, h⟩ := bind_eq_ok.mp h
      cases h

/-! ## Queries -/

theorem rangesOverlap_iff {aStart aStop bStart bStop : Int} :
    rangesOverlap aStart aStop bStart bStop = true ↔ aStart < bStop ∧ bStart < aStop := by
  simp [rangesOverlap]

theorem validateRange_ok : validateRange start stop = .ok () ↔ 0 ≤ start ∧ start < stop := by
  unfold validateRange
  split
  · constructor
    · intro h
      cases h
    · intro h
      omega
  · simp only [true_iff]
    omega

theorem conflictsWith_iff :
    entry.conflictsWith owner start stop lockType = true ↔ entry.owner ≠ owner ∧
      (entry.start < stop ∧ start < entry.stop) ∧
      lockTypesConflict entry.lockType lockType = true := by
  simp only [conflictsWith, Bool.and_eq_true, bne_iff_ne, rangesOverlap_iff, and_assoc]

theorem leastByStart_isSome (entries : List RecordLock) :
    (leastByStart entries).isSome = true ↔ entries ≠ [] := by
  cases entries <;> simp [leastByStart]

theorem conflict_isSome : (conflict entries owner start stop lockType).isSome = true ↔
      ∃ entry ∈ entries, entry.conflictsWith owner start stop lockType = true := by
  rw [conflict, leastByStart_isSome, ne_eq, filter_eq_nil_iff]
  push Not
  rfl

/-! ## Clearing a range -/

section Clear

variable (owner : RecordLockOwner) (start stop : Int)

/-- What clearing leaves of one lock. -/
def RecordLock.cut (entry : RecordLock) : List RecordLock :=
  if entry.touched owner start stop then entry.remains start stop else [entry]

variable {owner start stop} {entry piece : RecordLock}

theorem mem_remains : piece ∈ entry.remains start stop ↔
      (entry.start < start ∧ piece = { entry with stop := start }) ∨
        (stop < entry.stop ∧ piece = { entry with start := stop }) := by
  unfold remains
  split <;> split <;> simp_all

theorem remains_not_touched (h : piece ∈ entry.remains start stop) :
    piece.touched owner start stop = false := by
  rcases mem_remains.mp h with ⟨-, rfl⟩ | ⟨-, rfl⟩
  · simp [touched, rangesOverlap]
  · simp [touched, rangesOverlap]

theorem cut_of_not_touched (h : entry.touched owner start stop = false) :
    entry.cut owner start stop = [entry] := by
  simp [cut, h]

theorem flatMap_cut_of_not_touched {entries : List RecordLock}
    (h : ∀ entry ∈ entries, entry.touched owner start stop = false) :
    entries.flatMap (cut owner start stop) = entries := by
  rw [flatMap_congr fun entry he => cut_of_not_touched (h entry he)]
  exact flatMap_singleton' entries

/-- Locks taken out are replaced by pieces that stay. -/
theorem remains_flatMap_cut (entry : RecordLock) :
    (entry.remains start stop).flatMap (cut owner start stop) = entry.remains start stop :=
  flatMap_cut_of_not_touched fun _ h => remains_not_touched h

theorem remains_length_le (entry : RecordLock) : (entry.remains start stop).length ≤ 2 := by
  unfold remains
  split <;> split <;> simp

variable (owner start stop)

/-- The loop of `clear_owner_range` before a round: the locks before `index` stay, and cutting
what is there gives what cutting the original locks gives. -/
structure Clearing (original : List RecordLock) (s : List RecordLock × Nat × Bool) : Prop where
  cut_eq : (s.1.flatMap (cut owner start stop)).Perm (original.flatMap (cut owner start stop))
  passed : ∀ entry ∈ s.1.take s.2.1, entry.touched owner start stop = false
  changed : s.2.2 = true → original.any (touched owner start stop) = true
  unchanged : s.2.2 = false → s.1 = original

/-- Rounds still to come, at most. -/
def clearMeasure (s : List RecordLock × Nat × Bool) : Nat :=
  (s.1.length - s.2.1) + 2 * s.1.countP (touched owner start stop)

/-- What the loop leaves. -/
def Cleared (original : List RecordLock) (r : List RecordLock × Bool) : Prop :=
  r.1.Perm (original.flatMap (cut owner start stop)) ∧
    r.2 = original.any (touched owner start stop) ∧ (r.2 = false → r.1 = original)

variable {owner start stop}

theorem clearRound_meets {original : List RecordLock} (s : List RecordLock × Nat × Bool)
    (h : Clearing owner start stop original s) :
    RoundMeets (Clearing owner start stop original) (clearMeasure owner start stop)
      (Cleared owner start stop original) (fun _ => False) (clearRound owner start stop) s := by
  obtain ⟨entries, index, changed⟩ := s
  unfold RoundMeets
  simp only [clearRound]
  split
  · rename_i hlt
    have hget : entries[index]? = some entries[index] := getElem?_eq_getElem hlt
    rw [get_of_lt hlt, ok_bind]
    split
    · -- the lock at `index` is taken out and its pieces are appended
      rename_i ht
      obtain ⟨rest, hrest, hperm, htake⟩ := swapRemove_perm (ε := Empty) hget
      have hlen : entries.length = rest.length + 1 := by simpa using hperm.length_eq.symm
      have hcount := hperm.countP_eq (touched owner start stop)
      rw [countP_cons_of_pos ht] at hcount
      rw [hrest, ok_bind]
      refine ⟨⟨?_, ?_, ?_, nofun⟩, ?_⟩
      · refine Perm.trans ?_ h.cut_eq
        refine Perm.trans ?_ (hperm.flatMap_right _)
        rw [flatMap_append, remains_flatMap_cut, flatMap_cons, cut, if_pos ht]
        exact perm_append_comm
      · intro entry he
        rw [take_append_of_le_length (by simp only; omega), htake] at he
        exact h.passed entry he
      · intro _
        cases changed with
        | true => exact h.changed rfl
        | false =>
          have he : entries = original := h.unchanged rfl
          subst he
          exact any_eq_true.mpr ⟨_, getElem_mem hlt, ht⟩
      · have hpieces : (entries[index].remains start stop).countP
            (touched owner start stop) = 0 :=
          countP_eq_zero.mpr fun p hp => by simp [remains_not_touched hp]
        have hshort : (entries[index].remains start stop).length ≤ 2 := remains_length_le _
        simp only [clearMeasure, length_append, countP_append, hpieces]
        omega
    · rename_i ht
      refine ⟨⟨h.cut_eq, ?_, h.changed, h.unchanged⟩, by simp only [clearMeasure]; omega⟩
      intro entry he
      rw [take_add_one, hget, Option.toList_some] at he
      rcases mem_append.mp he with he | he
      · exact h.passed entry he
      · rw [mem_singleton.mp he]
        simpa using ht
  · rename_i hge
    have hall : ∀ entry ∈ entries, entry.touched owner start stop = false := by
      intro entry he
      refine h.passed entry ?_
      rwa [take_of_length_le (by simp only; omega)]
    refine ⟨?_, ?_, h.unchanged⟩
    · rw [← flatMap_cut_of_not_touched hall]
      exact h.cut_eq
    · cases changed with
      | true => exact (h.changed rfl).symm
      | false =>
        have he : entries = original := h.unchanged rfl
        subst he
        exact (any_eq_false.mpr fun e he => by simp [hall e he]).symm

/-- **Clearing cuts every lock of the owner**; it reports a change exactly when a lock was
touched, and otherwise leaves the locks as they were. -/
theorem clearOwnerRange_spec (entries : List RecordLock) (owner : RecordLockOwner)
    (start stop : Int) :
    ∃ r, clearOwnerRange entries owner start stop = .ok r ∧ Cleared owner start stop entries r := by
  have hstart : Clearing owner start stop entries (entries, 0, false) :=
    ⟨Perm.refl _, by simp, nofun, fun _ => rfl⟩
  have hcount := countP_le_length (p := touched owner start stop) (l := entries)
  have hmeasure : clearMeasure owner start stop (entries, 0, false) < 3 * entries.length + 1 := by
    simp only [clearMeasure]
    omega
  exact (iter_meets clearRound_meets _ _ hstart hmeasure).exists_ok

end Clear

/-! ## Coalescing -/

/-- Add a lock to the locks kept so far, the latest first. -/
def absorb : List RecordLock → RecordLock → List RecordLock
  | [], entry => [entry]
  | previous :: kept, entry =>
    if previous.continuedBy entry then
      { previous with stop := max previous.stop entry.stop } :: kept
    else entry :: previous :: kept

/-- The loop of `coalesce` after `k` rounds: the first `output` places hold the locks kept, and
the places from `k` on are as they were. -/
structure Coalescing (sorted : List RecordLock) (k : Nat) (s : List RecordLock × Nat) : Prop where
  kept : s.1.take s.2 = ((sorted.take k).foldl absorb []).reverse
  output : s.2 = ((sorted.take k).foldl absorb []).length
  output_le : s.2 ≤ k
  ahead : s.1.drop k = sorted.drop k
  length : s.1.length = sorted.length

/-- Writing the next lock kept, at a place that was already read. -/
theorem Coalescing.write {kept : List RecordLock} {k i : Nat}
    (hi : i ≤ k) (hk : k < sorted.length) (hlen : entries.length = sorted.length)
    (hahead : entries.drop k = sorted.drop k) (hkept : entries.take i = kept.reverse)
    (hout : kept.length = i) (hnext : (sorted.take (k + 1)).foldl absorb [] = entry :: kept) :
    Coalescing sorted (k + 1) (entries.set i entry, i + 1) := by
  have hi' : i < entries.length := by omega
  refine ⟨?_, ?_, Nat.succ_le_succ hi, ?_, by simpa using hlen⟩
  · rw [hnext, reverse_cons, ← hkept]
    rw [take_add_one, getElem?_set_self hi', Option.toList_some, take_set,
      set_eq_of_length_le (by simp)]
  · rw [hnext, length_cons, hout]
  · have hdrop := congrArg (drop 1) hahead
    simp only [drop_drop] at hdrop
    rw [drop_set_of_lt (by omega), hdrop]

theorem coalesceRound_spec {k : Nat} (hk : k < sorted.length)
    (s : List RecordLock × Nat) (h : Coalescing sorted k s) :
    ∃ s', coalesceRound k s = .ok s' ∧ Coalescing sorted (k + 1) s' := by
  obtain ⟨entries, output⟩ := s
  obtain ⟨hkept, hout, hle, hahead, hlen⟩ := h
  simp only at hkept hout hle hahead hlen
  have hget : entries[k]? = some sorted[k] := by
    have := congrArg head? hahead
    rwa [head?_drop, head?_drop, getElem?_eq_getElem hk] at this
  have hnext : (sorted.take (k + 1)).foldl absorb [] =
      absorb ((sorted.take k).foldl absorb []) sorted[k] := by
    rw [take_add_one, getElem?_eq_getElem hk, Option.toList_some, foldl_append]
    rfl
  simp only [coalesceRound, get_of_some hget, ok_bind]
  generalize (sorted.take k).foldl absorb [] = acc at hkept hout hnext
  cases acc with
  | nil =>
    -- nothing is kept yet
    cases hout
    refine ⟨_, ?_, Coalescing.write (Nat.zero_le k) hk hlen hahead hkept rfl hnext⟩
    simp [set_of_lt (show 0 < entries.length by omega)]
  | cons previous kept =>
    rw [length_cons] at hout
    have hlast : entries[kept.length]? = some previous := by
      have := congrArg (·[kept.length]?) hkept
      simpa [getElem?_take, hout] using this
    subst hout
    simp only [Nat.add_sub_cancel, get_of_some hlast, ok_bind, gt_iff_lt, Nat.succ_pos, if_true]
    cases hc : previous.continuedBy sorted[k] with
    | true =>
      have hkept' : entries.take kept.length = kept.reverse := by
        have := congrArg (take kept.length) hkept
        simpa [take_take] using this
      have hnext' : (sorted.take (k + 1)).foldl absorb [] =
          { previous with stop := max previous.stop sorted[k].stop } :: kept := by
        rw [hnext, absorb, if_pos hc]
      refine ⟨_, ?_, Coalescing.write (by omega) hk hlen hahead hkept' rfl hnext'⟩
      simp [set_of_lt (show kept.length < entries.length by omega)]
    | false =>
      have hnext' : (sorted.take (k + 1)).foldl absorb [] = sorted[k] :: previous :: kept := by
        rw [hnext, absorb, if_neg (by simp [hc])]
      refine ⟨_, ?_, Coalescing.write hle hk hlen hahead hkept rfl hnext'⟩
      simp [set_of_lt (show kept.length + 1 < entries.length by omega)]

/-- **Coalescing is a fold over the sorted locks.** -/
theorem coalesce_eq (entries : List RecordLock) :
    coalesce entries = .ok (((entries.insertionSort Le).foldl absorb []).reverse) := by
  set sorted := entries.insertionSort Le with hsorted
  have hstart : Coalescing sorted 0 (sorted, 0) := ⟨by simp, by simp, le_rfl, rfl, rfl⟩
  obtain ⟨s, hs, hfinal⟩ := forUpTo_spec hstart sorted.length fun k hk s => coalesceRound_spec hk s
  have hkept := hfinal.kept
  rw [take_length] at hkept
  simp only [coalesce, ← hsorted, hs, ok_bind, hkept]

end PulseOS.Lock
