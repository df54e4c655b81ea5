import PulseOS.Errno

/-!
# The byte ring of a pipe

`PipeRingBuffer` of `fd_table/pipe.rs`.  A slot of the array is `none` until it is written (the
source keeps `MaybeUninit` bytes).  The copies are raw pointer copies, so each one notes whether it
stayed inside the array.  The elements are arbitrary, so that a byte can carry where it comes from.

`Holds r bytes`: the ring holds `bytes`, oldest first.  `readInto_spec`, `writeFrom_spec` and
`resize_spec` say what each operation does to them.
-/

namespace PulseOS.Fd

open List

variable {α : Type}

inductive RingBufferStatus where
  | full
  | empty
  | normal
  deriving DecidableEq, Repr

/-- An array of `size` slots; `fault` once a copy has left it. -/
structure Slots (α : Type) where
  cell : Nat → Option α
  size : Nat
  fault : Bool

namespace Slots

def uninit (size : Nat) (fault : Bool) : Slots α := ⟨fun _ => none, size, fault⟩

/-- `n` slots from `off` on, as `copy_nonoverlapping` reads them. -/
def slice (cell : Nat → Option α) (off n : Nat) : List α :=
  (range n).filterMap fun i => cell (off + i)

/-- The slots from `off` on overwritten by `src`. -/
def store (cell : Nat → Option α) (off : Nat) (src : List α) : Nat → Option α :=
  fun i => if off ≤ i ∧ i < off + src.length then src[i - off]? else cell i

variable (a : Slots α)

def touch (off n : Nat) : Slots α := { a with fault := a.fault || decide (a.size < off + n) }

def read (off n : Nat) : Slots α × List α := (a.touch off n, slice a.cell off n)

def write (off : Nat) (src : List α) : Slots α :=
  { a.touch off src.length with cell := store a.cell off src }

/-- `n` slots from `off` on copied to the slots of `dst` from `dstOff` on. -/
def copyTo (off : Nat) (dst : Slots α) (dstOff n : Nat) : Slots α :=
  { dst.touch dstOff n with
    cell := store dst.cell dstOff (slice a.cell off n)
    fault := (dst.touch dstOff n).fault || decide (a.size < off + n) }

/-! A copy inside the array is its effect on the cells alone. -/

variable {a} {off n : Nat} {src : List α}

theorem touch_inside (h : off + n ≤ a.size) : a.touch off n = a := by
  rw [touch, decide_eq_false (by omega), Bool.or_false]

theorem read_inside (h : off + n ≤ a.size) : a.read off n = (a, slice a.cell off n) := by
  rw [read, touch_inside h]

theorem write_inside (h : off + src.length ≤ a.size) :
    a.write off src = { a with cell := store a.cell off src } := by
  rw [write, touch_inside h]

theorem copyTo_inside (dst : Slots α) {dstOff : Nat} (h : off + n ≤ a.size)
    (hdst : dstOff + n ≤ dst.size) : a.copyTo off dst dstOff n =
      { dst with cell := store dst.cell dstOff (slice a.cell off n) } := by
  rw [copyTo, touch_inside hdst, decide_eq_false (by omega), Bool.or_false]

theorem read_rest (h : n ≤ a.size) :
    (if 0 < n then a.read 0 n else (a, [])) = (a, slice a.cell 0 n) := by
  split
  · exact read_inside (by omega)
  · rename_i hnone
    rw [Nat.eq_zero_of_not_pos hnone]
    rfl

theorem writes_inside {c : Prop} [Decidable c] {rest : List α} (h : off + src.length ≤ a.size)
    (hrest : rest.length ≤ a.size) :
    (if c then (a.write off src).write 0 rest else a.write off src) = { a with
      cell := if c then store (store a.cell off src) 0 rest else store a.cell off src } := by
  rw [write_inside h]
  split
  · exact write_inside (show 0 + rest.length ≤ a.size by omega)
  · rfl

end Slots

open Slots

structure PipeRingBuffer (α : Type) where
  arr : Slots α
  head : Nat
  tail : Nat
  status : RingBufferStatus

namespace PipeRingBuffer

def new (capacity : Nat) : PipeRingBuffer α := ⟨uninit capacity false, 0, 0, .empty⟩

variable (r : PipeRingBuffer α)

def capacity : Nat := r.arr.size

def availableRead : Nat :=
  if r.status = .empty then 0
  else if r.head < r.tail then r.tail - r.head
  else r.tail + r.capacity - r.head

/-- The array of `resize` once the unread bytes are copied to it. -/
def newArr (newCapacity currentUnread : Nat) : Slots α :=
  let newArr : Slots α := uninit newCapacity r.arr.fault
  if 0 < currentUnread then
    if r.head < r.tail then r.arr.copyTo r.head newArr 0 currentUnread
    else
      let firstPart := r.capacity - r.head
      r.arr.copyTo 0 (r.arr.copyTo r.head newArr 0 firstPart) firstPart (currentUnread - firstPart)
  else newArr

def resize (newCapacity : Nat) : Except LinuxError (PipeRingBuffer α) :=
  let currentUnread := r.availableRead
  if newCapacity < currentUnread then .error .EBUSY
  else if newCapacity = r.capacity then .ok r
  else
    .ok {
      arr := r.newArr newCapacity currentUnread
      head := 0
      tail := if currentUnread = newCapacity then 0 else currentUnread
      status :=
        if currentUnread = 0 then .empty
        else if currentUnread = newCapacity then .full
        else .normal }

def readInto (len : Nat) : PipeRingBuffer α × List α :=
  let readLen := min r.availableRead len
  if readLen = 0 then (r, [])
  else
    let firstPart := min readLen (r.capacity - r.head)
    let secondPart := readLen - firstPart
    let head :=
      if 0 < secondPart then secondPart else (r.head + firstPart) % r.capacity
    let first := r.arr.read r.head firstPart
    let second := if 0 < secondPart then first.1.read 0 secondPart else (first.1, [])
    ({ r with arr := second.1, head, status := if head = r.tail then .empty else .normal },
      first.2 ++ second.2)

def writeFrom (src : List α) : PipeRingBuffer α × Nat :=
  let available := r.capacity - r.availableRead
  let writeLen := min available src.length
  if writeLen = 0 then (r, 0)
  else
    let firstPart := min writeLen (r.capacity - r.tail)
    let secondPart := writeLen - firstPart
    let arr := r.arr.write r.tail (src.take firstPart)
    let arr := if 0 < secondPart then arr.write 0 ((src.drop firstPart).take secondPart) else arr
    let tail :=
      if 0 < secondPart then secondPart else (r.tail + firstPart) % r.capacity
    ({ r with arr, tail, status := if tail = r.head then .full else .normal }, writeLen)

/-- The bytes that are published, oldest first. -/
def unread : List α :=
  (range r.availableRead).filterMap fun i => r.arr.cell ((r.head + i) % r.capacity)

/-! ## What the ring holds -/

def statusOf (capacity n : Nat) : RingBufferStatus :=
  if n = 0 then .empty else if n = capacity then .full else .normal

structure Holds (bytes : List α) : Prop where
  pos : 0 < r.capacity
  fits : bytes.length ≤ r.capacity
  head_lt : r.head < r.capacity
  tail_eq : r.tail = (r.head + bytes.length) % r.capacity
  status_eq : r.status = statusOf r.capacity bytes.length
  cells : ∀ i < bytes.length, r.arr.cell ((r.head + i) % r.capacity) = bytes[i]?
  sound : r.arr.fault = false

theorem holds_new {capacity : Nat} (h : 0 < capacity) :
    Holds (new capacity : PipeRingBuffer α) [] :=
  ⟨h, Nat.zero_le _, h, (Nat.zero_mod _).symm, rfl, fun i hi => absurd hi (Nat.not_lt_zero i),
    rfl⟩

variable {i n off : Nat} {bytes src : List α} {r : PipeRingBuffer α}

theorem mod_cases (h : i < 2 * n) : i % n = if i < n then i else i - n := by
  split
  · rename_i hlt
    exact Nat.mod_eq_of_lt hlt
  · rename_i hge
    rw [Nat.mod_eq_sub_mod (by omega), Nat.mod_eq_of_lt (by omega)]

/-- Both branches of a copy leave an index `n` slots further on. -/
theorem advance_eq {a c : Nat} (ha : a < c) (hn : n ≤ c) :
    (if 0 < n - min n (c - a) then n - min n (c - a) else (a + min n (c - a)) % c) =
      (a + n) % c := by
  rw [mod_cases (i := a + n) (by omega)]
  split
  · split <;> omega
  · rw [mod_cases (by omega)]
    split <;> split <;> omega

theorem filterMap_range_getElem? (l : List α) :
    (range l.length).filterMap (fun i => l[i]?) = l := by
  induction l using reverseRecOn with
  | nil => rfl
  | append_singleton l x ih =>
    have hprefix : (range l.length).filterMap (fun i => (l ++ [x])[i]?) =
        (range l.length).filterMap (fun i => l[i]?) := by
      refine filterMap_congr fun i hi => ?_
      rw [getElem?_append_left (mem_range.mp hi)]
    rw [length_append, length_singleton, range_succ, filterMap_append, hprefix, ih]
    simp

theorem filterMap_range_eq_of {f : Nat → Option α} {l : List α} (hn : n = l.length)
    (h : ∀ i < l.length, f i = l[i]?) : (range n).filterMap f = l := by
  subst hn
  have hcongr : (range l.length).filterMap f = (range l.length).filterMap fun i => l[i]? :=
    filterMap_congr fun i hi => h i (mem_range.mp hi)
  rw [hcongr, filterMap_range_getElem?]

theorem Holds.of_capacity {c : Nat} (hcap : r.capacity = c) (pos : 0 < c)
    (fits : bytes.length ≤ c) (head_lt : r.head < c) (tail_eq : r.tail = (r.head + bytes.length) % c)
    (status_eq : r.status = statusOf c bytes.length)
    (cells : ∀ i < bytes.length, r.arr.cell ((r.head + i) % c) = bytes[i]?)
    (sound : r.arr.fault = false) : Holds r bytes := by
  subst hcap
  exact ⟨pos, fits, head_lt, tail_eq, status_eq, cells, sound⟩

section Holds

variable {r : PipeRingBuffer α} {bytes : List α} (h : Holds r bytes)

include h

theorem Holds.availableRead : r.availableRead = bytes.length := by
  have ⟨hpos, hfits, hhead, htail, _, _, _⟩ := h
  rw [mod_cases (by omega)] at htail
  unfold PipeRingBuffer.availableRead
  rw [h.status_eq]
  unfold statusOf
  by_cases hzero : bytes.length = 0
  · simp [hzero]
  · rw [if_neg (by simp only [hzero, if_false]; split <;> simp)]
    split at htail <;> split <;> omega

theorem Holds.unread : r.unread = bytes := by
  unfold PipeRingBuffer.unread
  rw [h.availableRead]
  exact filterMap_range_eq_of rfl h.cells

theorem Holds.self : Holds r r.unread := by
  rw [h.unread]
  exact h

/-- Slots that do not wrap. -/
theorem Holds.slice_head {n : Nat} (hn : n ≤ bytes.length) (hfit : r.head + n ≤ r.capacity) :
    slice r.arr.cell r.head n = bytes.take n := by
  refine filterMap_range_eq_of (by simp [hn]) fun i hi => ?_
  have hi : i < n := by simpa [hn] using hi
  have hcell := h.cells i (by omega)
  rw [Nat.mod_eq_of_lt (by omega)] at hcell
  rw [hcell, getElem?_take_of_lt hi]

/-- Slots after the end of the array. -/
theorem Holds.slice_wrapped {k n : Nat} (hk : r.head + k = r.capacity)
    (hn : k + n ≤ bytes.length) : slice r.arr.cell 0 n = (bytes.drop k).take n := by
  have hfits := h.fits
  refine filterMap_range_eq_of (by simp; omega) fun i hi => ?_
  have hi : i < n := by
    rw [length_take] at hi
    omega
  have hcell := h.cells (k + i) (by omega)
  rw [← Nat.add_assoc, hk, Nat.add_mod_left, Nat.mod_eq_of_lt (by omega)] at hcell
  rw [Nat.zero_add, hcell, getElem?_take_of_lt hi, getElem?_drop]

/-- The two parts of a read. -/
theorem Holds.slices {n : Nat} (hn : n ≤ bytes.length) :
    slice r.arr.cell r.head (min n (r.capacity - r.head)) ++
      slice r.arr.cell 0 (n - min n (r.capacity - r.head)) = bytes.take n := by
  have hhead := h.head_lt
  by_cases hwrap : 0 < n - min n (r.capacity - r.head)
  · have hfirst : min n (r.capacity - r.head) = r.capacity - r.head := by omega
    rw [hfirst, h.slice_head (by omega) (by omega),
      h.slice_wrapped (k := r.capacity - r.head) (by omega) (by omega)]
    have hsum : n = r.capacity - r.head + (n - (r.capacity - r.head)) := by omega
    conv_rhs => rw [hsum, take_add]
  · have hfirst : min n (r.capacity - r.head) = n := by omega
    rw [hfirst, Nat.sub_self, h.slice_head hn (by omega)]
    exact append_nil _

/-- **`read_into` takes the oldest bytes out.** -/
theorem readInto_spec (len : Nat) :
    Holds (r.readInto len).1 (bytes.drop len) ∧ (r.readInto len).2 = bytes.take len ∧
      (r.readInto len).1.capacity = r.capacity := by
  have ⟨hpos, hfits, hhead, _, _, _, _⟩ := h
  unfold readInto
  simp only [h.availableRead]
  split
  · rename_i hzero
    have hempty : bytes.drop len = bytes ∧ bytes.take len = [] := by
      rcases Nat.eq_zero_or_pos len with rfl | hlen
      · simp
      · have : bytes = [] := length_eq_zero_iff.mp (by omega)
        simp [this]
    rw [hempty.1, hempty.2]
    exact ⟨h, rfl, rfl⟩
  · rename_i hsome
    generalize hn : min bytes.length len = n at *
    have hdrop : bytes.drop len = bytes.drop n := by
      rw [drop_eq_drop_min, Nat.min_comm, hn]
    have htake : bytes.take len = bytes.take n := by
      rw [take_eq_take_min, Nat.min_comm, hn]
    rw [hdrop, htake]
    have hnle : n ≤ bytes.length := by omega
    rw [advance_eq hhead (by omega)]
    have htail := h.tail_eq
    rw [read_inside (show r.head + min n (r.capacity - r.head) ≤ r.capacity by omega),
      read_rest (show n - min n (r.capacity - r.head) ≤ r.capacity by omega)]
    refine ⟨.of_capacity (c := r.capacity) rfl hpos ?_ (Nat.mod_lt _ hpos) ?_ ?_ (fun i hi => ?_)
      h.sound, ?_, rfl⟩
    · simp only [length_drop]
      exact (Nat.sub_le _ _).trans hfits
    · simp only [length_drop, Nat.mod_add_mod]
      rw [htail]
      congr 1
      omega
    · simp only [length_drop, statusOf]
      rw [mod_cases (by omega)] at htail
      rw [mod_cases (i := r.head + n) (by omega), htail]
      have hstatus : (if r.head + n < r.capacity then r.head + n else r.head + n - r.capacity) =
          (if r.head + bytes.length < r.capacity then r.head + bytes.length
            else r.head + bytes.length - r.capacity) ↔ bytes.length - n = 0 := by
        split <;> split <;> omega
      simp only [hstatus]
      split
      · rfl
      · rw [if_neg (by omega)]
    · have hi : n + i < bytes.length := by
        simp only [length_drop] at hi
        omega
      simp only [Nat.mod_add_mod]
      rw [Nat.add_assoc, h.cells (n + i) hi, getElem?_drop]
    · exact h.slices hnle

end Holds

theorem store_of_mem (cell : Nat → Option α)
    (h : off ≤ i ∧ i < off + src.length) : store cell off src i = src[i - off]? := if_pos h

theorem store_of_not_mem (cell : Nat → Option α)
    (h : ¬(off ≤ i ∧ i < off + src.length)) : store cell off src i = cell i := if_neg h

/-- The slot `j` places after the start of a write holds byte `j` of the source, all other slots are
kept. -/
theorem stores_cell (cell : Nat → Option α) {t c j : Nat} (ht : t < c) (hn : n ≤ c)
    (hsrc : n ≤ src.length) (hj : j < c) :
    (if 0 < n - min n (c - t) then
        store (store cell t (src.take (min n (c - t)))) 0
          ((src.drop (min n (c - t))).take (n - min n (c - t)))
      else store cell t (src.take (min n (c - t)))) ((t + j) % c) =
      if j < n then src[j]? else cell ((t + j) % c) := by
  rw [mod_cases (i := t + j) (by omega)]
  by_cases hwrap : 0 < n - min n (c - t)
  · rw [if_pos hwrap]
    have hfirst : min n (c - t) = c - t := by omega
    rw [hfirst] at hwrap ⊢
    by_cases hin : t + j < c
    · rw [if_pos hin, if_pos (by omega), store_of_not_mem _ (by simp; omega),
        store_of_mem _ (by simp; omega), getElem?_take_of_lt (by omega)]
      congr 1
      omega
    · rw [if_neg hin]
      by_cases hjn : j < n
      · rw [if_pos hjn, store_of_mem _ (by simp; omega), getElem?_take_of_lt (by omega),
          getElem?_drop]
        congr 1
        omega
      · rw [if_neg hjn, store_of_not_mem _ (by simp; omega),
          store_of_not_mem _ (by simp; omega)]
  · rw [if_neg hwrap]
    have hfirst : min n (c - t) = n := by omega
    rw [hfirst]
    by_cases hjn : j < n
    · rw [if_pos hjn, if_pos (by omega), store_of_mem _ (by simp; omega),
        getElem?_take_of_lt (by omega)]
      congr 1
      omega
    · rw [if_neg hjn]
      split <;> rw [store_of_not_mem _ (by simp; omega)]

/-- **`write_from` publishes what fits.** -/
theorem writeFrom_spec (h : Holds r bytes) (src : List α) :
    Holds (r.writeFrom src).1 (bytes ++ src.take (r.capacity - bytes.length)) ∧
      (r.writeFrom src).2 = min (r.capacity - bytes.length) src.length ∧
      (r.writeFrom src).1.capacity = r.capacity := by
  have ⟨hpos, hfits, hhead, htail, _, _, _⟩ := h
  unfold writeFrom
  simp only [h.availableRead]
  generalize hroom : r.capacity - bytes.length = room at *
  have htake : src.take room = src.take (min room src.length) := take_eq_take_min
  split
  · rename_i hzero
    rw [htake, hzero, take_zero, append_nil]
    exact ⟨h, rfl, rfl⟩
  · rename_i hsome
    rw [htake]
    generalize hn : min room src.length = n at *
    have hnsrc : n ≤ src.length := by omega
    have htail_lt : r.tail < r.capacity := by
      rw [htail]
      exact Nat.mod_lt _ hpos
    have hlen : (src.take n).length = n := by simp [hnsrc]
    rw [advance_eq htail_lt (by omega)]
    have hcell := fun j =>
      stores_cell r.arr.cell (j := j) htail_lt (show n ≤ r.capacity by omega) hnsrc
    have hafter : ∀ j, (r.head + (bytes.length + j)) % r.capacity = (r.tail + j) % r.capacity := by
      intro j
      rw [htail, Nat.mod_add_mod, Nat.add_assoc]
    have hfirst : r.tail + (src.take (min n (r.capacity - r.tail))).length ≤ r.capacity := by
      rw [length_take]
      omega
    have hsecond : ((src.drop (min n (r.capacity - r.tail))).take
        (n - min n (r.capacity - r.tail))).length ≤ r.capacity := by
      rw [length_take]
      omega
    rw [writes_inside hfirst hsecond]
    refine ⟨.of_capacity (c := r.capacity) rfl hpos ?_ hhead ?_ ?_ (fun i hi => ?_) h.sound, rfl, rfl⟩
    · simp only [length_append, hlen]
      omega
    · simp only [length_append, hlen]
      rw [hafter]
    · simp only [length_append, hlen, statusOf]
      rw [if_neg (show ¬bytes.length + n = 0 by omega)]
      have hstatus : (r.tail + n) % r.capacity = r.head ↔ bytes.length + n = r.capacity := by
        rw [← hafter, mod_cases (by omega)]
        split <;> omega
      simp only [hstatus]
    · simp only [length_append, hlen] at hi
      by_cases hold : i < bytes.length
      · rw [getElem?_append_left hold, ← h.cells i hold]
        -- an old byte lies `capacity - length` or more places after the tail
        have hpos' : (r.head + i) % r.capacity =
            (r.tail + (r.capacity - bytes.length + i)) % r.capacity := by
          rw [← hafter, show r.head + (bytes.length + (r.capacity - bytes.length + i)) =
            r.head + i + r.capacity by omega, Nat.add_mod_right]
        simp only [hpos']
        rw [hcell _ (by omega), if_neg (by omega)]
      · obtain ⟨j, rfl⟩ : ∃ j, i = bytes.length + j := ⟨i - bytes.length, by omega⟩
        have hj : j < n := by omega
        simp only [hafter j]
        rw [hcell j (by omega), if_pos hj, getElem?_append_right (by omega),
          Nat.add_sub_cancel_left, getElem?_take_of_lt hj]

theorem newArr_spec (h : Holds r bytes) {newCapacity : Nat} (hroom : bytes.length ≤ newCapacity) :
    ∃ cell, r.newArr newCapacity bytes.length = ⟨cell, newCapacity, r.arr.fault⟩ ∧
      ∀ i < bytes.length, cell i = bytes[i]? := by
  have ⟨hpos, hfits, hhead, htail, _, _, _⟩ := h
  rw [mod_cases (by omega)] at htail
  simp only [newArr]
  split
  · split
    · rename_i hlt
      have hin : r.head + bytes.length ≤ r.capacity := by split at htail <;> omega
      refine ⟨_, copyTo_inside _ hin (show 0 + _ ≤ newCapacity by omega), fun i hi => ?_⟩
      rw [h.slice_head (le_refl _) hin, take_length, store_of_mem _ (by omega), Nat.sub_zero]
    · rename_i hge
      have hwrap : r.capacity - r.head ≤ bytes.length := by split at htail <;> omega
      have hfirst : r.head + (r.capacity - r.head) ≤ r.capacity := by omega
      have hsecond : 0 + (bytes.length - (r.capacity - r.head)) ≤ r.capacity := by omega
      rw [copyTo_inside (uninit newCapacity r.arr.fault) hfirst (show 0 + _ ≤ newCapacity by omega),
        copyTo_inside _ hsecond (show r.capacity - r.head + _ ≤ newCapacity by omega)]
      refine ⟨_, rfl, fun i hi => ?_⟩
      rw [h.slice_head hwrap (by omega),
        h.slice_wrapped (k := r.capacity - r.head) (by omega) (by omega)]
      by_cases hfirst : i < r.capacity - r.head
      · rw [store_of_not_mem _ (by simp; omega)]
        dsimp only
        rw [store_of_mem _ (by simp; omega), Nat.sub_zero, getElem?_take_of_lt hfirst]
      · rw [store_of_mem _ (by simp; omega), getElem?_take_of_lt (by omega), getElem?_drop]
        congr 1
        omega
  · rename_i hnone
    exact ⟨_, rfl, fun i hi => absurd hi (by omega)⟩

/-- **`resize` keeps the bytes, or fails when they do not fit.** -/
theorem resize_spec (h : Holds r bytes)
    {newCapacity : Nat} (hnew : 0 < newCapacity) (hroom : bytes.length ≤ newCapacity) :
    ∃ r', r.resize newCapacity = .ok r' ∧ Holds r' bytes ∧ r'.capacity = newCapacity := by
  obtain ⟨cell, harr, hcell⟩ := newArr_spec h hroom
  unfold resize
  simp only [h.availableRead, harr]
  rw [if_neg (by omega)]
  split
  · rename_i hsame
    exact ⟨r, rfl, h, hsame.symm⟩
  · refine ⟨_, rfl, .of_capacity (c := newCapacity) rfl hnew hroom hnew ?_ rfl (fun i hi => ?_)
      h.sound, rfl⟩
    · simp only [Nat.zero_add]
      split
      · rename_i hfull
        rw [hfull, Nat.mod_self]
      · rw [Nat.mod_eq_of_lt (by omega)]
    · rw [Nat.zero_add, Nat.mod_eq_of_lt (by omega)]
      exact hcell i hi

end PipeRingBuffer

end PulseOS.Fd
