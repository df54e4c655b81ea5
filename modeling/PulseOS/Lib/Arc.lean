import Mathlib.Tactic

/-!
# Reference-counted cells

`Heap β` holds the allocations of `Arc<β>`.  The strong count of a cell is the number of its
handles; it is an argument here, because who holds a handle is known to the client.

* `Heap.makeMut` — `Arc::make_mut`: the cell itself for its only handle, else a copy.
* `Heap.edit` — a write through `Arc::make_mut`; `edit_frame` says which cells keep their content.
-/

namespace PulseOS.Arc

open Function

structure Heap (β : Type) where
  mem : Nat → β
  next : Nat

namespace Heap

variable {β : Type} (h : Heap β)

/-- `Arc::new`. -/
def alloc (x : β) : Heap β × Nat :=
  (⟨update h.mem h.next x, h.next + 1⟩, h.next)

def write (a : Nat) (x : β) : Heap β := { h with mem := update h.mem a x }

/-- `Arc::make_mut` of a handle on `a`, of which there are `strong`. -/
def makeMut (strong a : Nat) : Heap β × Nat :=
  if strong = 1 then (h, a) else h.alloc (h.mem a)

/-- `*Arc::make_mut(&mut a) = x`. -/
def edit (strong a : Nat) (x : β) : Heap β × Nat :=
  ((h.makeMut strong a).1.write (h.makeMut strong a).2 x, (h.makeMut strong a).2)

variable (h : Heap β) (strong : Nat) {a b : Nat} (x : β)

@[simp] theorem write_mem_self : (h.write a x).mem a = x := update_self ..

theorem write_mem_of_ne (hb : b ≠ a) : (h.write a x).mem b = h.mem b := update_of_ne hb ..

@[simp] theorem alloc_mem_self : (h.alloc x).1.mem h.next = x := update_self ..

theorem alloc_mem_of_lt (hb : b < h.next) : (h.alloc x).1.mem b = h.mem b :=
  update_of_ne (Nat.ne_of_lt hb) ..

/-- The handle is on its old cell, which it alone holds, or on a fresh one. -/
theorem makeMut_cases : strong = 1 ∧ h.makeMut strong a = (h, a) ∨
      strong ≠ 1 ∧ h.makeMut strong a = h.alloc (h.mem a) := by
  unfold makeMut
  split
  · rename_i hs
    exact .inl ⟨hs, rfl⟩
  · rename_i hs
    exact .inr ⟨hs, rfl⟩

@[simp] theorem makeMut_mem_self : (h.makeMut strong a).1.mem (h.makeMut strong a).2 = h.mem a := by
  rcases h.makeMut_cases strong (a := a) with ⟨-, he⟩ | ⟨-, he⟩
  · rw [he]
  · rw [he]
    exact h.alloc_mem_self _

theorem makeMut_mem_of_lt (hb : b < h.next) : (h.makeMut strong a).1.mem b = h.mem b := by
  rcases h.makeMut_cases strong (a := a) with ⟨-, he⟩ | ⟨-, he⟩
  · rw [he]
  · rw [he]
    exact h.alloc_mem_of_lt _ hb

theorem makeMut_next : h.next ≤ (h.makeMut strong a).1.next := by
  rcases h.makeMut_cases strong (a := a) with ⟨-, he⟩ | ⟨-, he⟩
  · rw [he]
  · rw [he]
    exact Nat.le_succ _

theorem makeMut_lt (ha : a < h.next) : (h.makeMut strong a).2 < (h.makeMut strong a).1.next := by
  rcases h.makeMut_cases strong (a := a) with ⟨-, he⟩ | ⟨-, he⟩
  · rw [he]
    exact ha
  · rw [he]
    exact Nat.lt_succ_self _

/-- A cell that others hold, or another cell, is not the one that may be written. -/
theorem ne_makeMut (hb : b < h.next) (hother : b = a → strong ≠ 1) :
    b ≠ (h.makeMut strong a).2 := by
  rcases h.makeMut_cases strong (a := a) with ⟨hs, he⟩ | ⟨-, he⟩
  · rw [he]
    intro hba
    exact hother hba hs
  · rw [he]
    exact Nat.ne_of_lt hb

@[simp] theorem edit_mem_self : (h.edit strong a x).1.mem (h.edit strong a x).2 = x :=
  write_mem_self ..

/-- **What a write through `make_mut` leaves alone.** -/
theorem edit_frame (hb : b < h.next) (hother : b = a → strong ≠ 1) :
    (h.edit strong a x).1.mem b = h.mem b := by
  unfold edit
  rw [write_mem_of_ne _ _ (h.ne_makeMut strong hb hother), h.makeMut_mem_of_lt strong hb]

theorem edit_next : h.next ≤ (h.edit strong a x).1.next := h.makeMut_next strong

theorem edit_lt (ha : a < h.next) : (h.edit strong a x).2 < (h.edit strong a x).1.next :=
  h.makeMut_lt strong ha

end Heap

/-- A handle counted once in a list stands at one index. -/
theorem index_unique {γ : Type} [BEq γ] [LawfulBEq γ] {l : List γ} {x : γ} {i j : Nat}
    (hi : l[i]? = some x) (hj : l[j]? = some x) (hcount : l.count x ≤ 1) : j = i := by
  induction l generalizing i j with
  | nil => cases hi
  | cons y l ih =>
    have hlater : ∀ {k : Nat}, l[k]? = some x → 0 < l.count x := fun hk =>
      List.count_pos_iff.mpr (List.mem_of_getElem? hk)
    cases i with
    | zero =>
      cases j with
      | zero => rfl
      | succ j =>
        obtain rfl : y = x := by simpa using hi
        have := hlater (by simpa using hj)
        rw [List.count_cons_self] at hcount
        omega
    | succ i =>
      cases j with
      | zero =>
        obtain rfl : y = x := by simpa using hj
        have := hlater (by simpa using hi)
        rw [List.count_cons_self] at hcount
        omega
      | succ j =>
        have hle : l.count x ≤ 1 := (List.count_le_count_cons).trans hcount
        exact congrArg (· + 1) (ih (by simpa using hi) (by simpa using hj) hle)

end PulseOS.Arc
