import PulseOS.Fd.PipeRing

/-!
# The ring is a bounded queue

Sequences of `write_from`, `read_into` and `resize` on a ring of any capacity, `0` included, against
a list of bytes with a bound.

* `RingOp.queue` — what an operation does to the list.
* `RingOp.Models.step` — one operation; `ring_is_queue` — every sequence: the ring answers as the
  list does, holds what it holds, and no copy leaves an array.
-/

namespace PulseOS.Fd

open PipeRingBuffer

variable {α : Type}

inductive RingOp (α : Type) where
  | write (src : List α)
  | read (len : Nat)
  | resize (newCapacity : Nat)

inductive RingReply (α : Type) where
  | written (n : Nat)
  | bytes (l : List α)
  | resized (result : Except LinuxError Unit)

namespace RingOp

variable (r : PipeRingBuffer α)

def apply : RingOp α → PipeRingBuffer α × RingReply α
  | .write src => ((r.writeFrom src).1, .written (r.writeFrom src).2)
  | .read len => ((r.readInto len).1, .bytes (r.readInto len).2)
  | .resize newCapacity => match r.resize newCapacity with
    | .ok r' => (r', .resized (.ok ()))
    | .error e => (r, .resized (.error e))

def queue (q : Nat × List α) : RingOp α → (Nat × List α) × RingReply α
  | .write src =>
    let fits := src.take (q.1 - q.2.length)
    ((q.1, q.2 ++ fits), .written fits.length)
  | .read len => ((q.1, q.2.drop len), .bytes (q.2.take len))
  | .resize newCapacity =>
    if newCapacity < q.2.length then (q, .resized (.error .EBUSY))
    else ((newCapacity, q.2), .resized (.ok ()))

/-- The ring stands for the list; without slots it is empty. -/
def Models (q : Nat × List α) : Prop :=
  r.capacity = q.1 ∧ (Holds r q.2 ∨
    q = (0, []) ∧ r.head = 0 ∧ r.tail = 0 ∧ r.status = .empty ∧ r.arr.fault = false)

variable {r} {q : Nat × List α}

theorem Models.availableRead (h : Models r q) : r.availableRead = q.2.length := by
  rcases h.2 with hr | ⟨rfl, -, -, hempty, -⟩
  · exact hr.availableRead
  · exact if_pos hempty

theorem Models.unread (h : Models r q) : r.unread = q.2 := by
  rcases h.2 with hr | ⟨rfl, -⟩
  · exact hr.unread
  · rw [PipeRingBuffer.unread, h.availableRead]
    rfl

theorem Models.sound (h : Models r q) : r.arr.fault = false := by
  rcases h.2 with hr | ⟨-, -, -, -, hsound⟩
  · exact hr.sound
  · exact hsound

theorem Models.empty {c : Nat} (h : r.capacity = c) (hhead : r.head = 0) (htail : r.tail = 0)
    (hstatus : r.status = .empty) (hsound : r.arr.fault = false) : Models r (c, []) := by
  subst h
  refine ⟨rfl, ?_⟩
  rcases Nat.eq_zero_or_pos r.capacity with hzero | hpos
  · exact .inr ⟨by rw [hzero], hhead, htail, hstatus, hsound⟩
  · exact .inl ⟨hpos, Nat.zero_le _, hhead ▸ hpos, by simp [hhead, htail], hstatus, nofun, hsound⟩

theorem Models.resized {n : Nat} (h : Models r q) (hroom : ¬ n < q.2.length) :
    ∃ r', r.resize n = .ok r' ∧ Models r' (n, q.2) := by
  by_cases hq : q.2 = []
  · have hread := h.availableRead
    rw [hq] at hread ⊢
    unfold PipeRingBuffer.resize
    simp only [hread, List.length_nil, Nat.not_lt_zero, if_false]
    split
    · rename_i hsame
      rw [hsame, h.1, ← hq]
      exact ⟨r, rfl, h⟩
    · exact ⟨_, rfl, .empty rfl rfl (ite_self 0) rfl h.sound⟩
  · have hlen := List.length_pos_iff.mpr hq
    rcases h.2 with hr | ⟨rfl, -⟩
    · obtain ⟨r', hok, hr', hcap⟩ := resize_spec hr (show 0 < n by omega) (by omega)
      exact ⟨r', hok, hcap, .inl hr'⟩
    · exact absurd rfl hq

/-- **One operation.** -/
theorem Models.step (h : Models r q) (op : RingOp α) :
    (op.apply r).2 = (op.queue q).2 ∧ Models (op.apply r).1 (op.queue q).1 := by
  have hread := h.availableRead
  cases op with
  | write src =>
    rcases h.2 with hr | ⟨rfl, -⟩
    · obtain ⟨hr', hn, hcap⟩ := writeFrom_spec hr src
      rw [h.1] at hr' hn
      exact ⟨by simp [apply, queue, hn], hcap.trans h.1, .inl hr'⟩
    · have hnone : r.writeFrom src = (r, 0) := by simp [writeFrom, h.1]
      simpa [apply, queue, hnone] using h
  | read len =>
    rcases h.2 with hr | ⟨rfl, -⟩
    · obtain ⟨hr', hbytes, hcap⟩ := readInto_spec hr len
      exact ⟨congrArg _ hbytes, hcap.trans h.1, .inl hr'⟩
    · have hnone : r.readInto len = (r, []) := by simp [readInto, hread]
      simpa [apply, queue, hnone] using h
  | resize newCapacity =>
    simp only [apply, queue]
    by_cases hbusy : newCapacity < q.2.length
    · have hfail : r.resize newCapacity = .error .EBUSY := if_pos (hread ▸ hbusy)
      rw [if_pos hbusy, hfail]
      exact ⟨rfl, h⟩
    · obtain ⟨r', hok, hr'⟩ := h.resized hbusy
      rw [if_neg hbusy, hok]
      exact ⟨rfl, hr'⟩

end RingOp

/-- **The ring is a bounded queue of bytes**, from any capacity and through any operations. -/
theorem ring_is_queue (capacity : Nat) (ops : List (RingOp α)) (op : RingOp α) :
    let r := ops.foldl (fun r op => (op.apply r).1) (PipeRingBuffer.new capacity)
    let q := ops.foldl (fun q op => (op.queue q).1) (capacity, [])
    r.capacity = q.1 ∧ r.unread = q.2 ∧ (op.apply r).2 = (op.queue q).2 ∧
      (op.apply r).1.arr.fault = false := by
  intro r q
  have h : RingOp.Models r q := by
    refine List.foldl_rel (r := RingOp.Models) (.empty rfl rfl rfl rfl rfl) fun op _ r q h => ?_
    exact (h.step op).2
  exact ⟨h.1, h.unread, (h.step op).1, (h.step op).2.sound⟩

end PulseOS.Fd
