import Mathlib.Data.List.TakeWhile
import Mathlib.Tactic

/-!
# Ordered collections

A tree ordered by a key, as the list of its elements from the front.  Equal keys keep the order in
which they were inserted.

* `insert` — the new element goes after every element whose key is not larger.
* `transfer` — moves elements from the front of one collection into another, as long as `p` holds.
-/

namespace PulseOS.Ordered

open List

variable {α κ : Type} [LinearOrder κ]

def insert (key : α → κ) (a : α) : List α → List α
  | [] => [a]
  | b :: l => if key a < key b then a :: b :: l else b :: insert key a l

def Sorted (key : α → κ) (l : List α) : Prop := l.Pairwise fun a b => key a ≤ key b

theorem insert_perm (key : α → κ) (a : α) (l : List α) : (insert key a l).Perm (a :: l) := by
  induction l with
  | nil => exact .refl _
  | cons b l ih =>
    unfold insert
    split
    · exact .refl _
    · exact (ih.cons b).trans (.swap a b l)

variable {key : α → κ} {a b : α} {into l : List α}

theorem mem_insert : b ∈ insert key a l ↔ b = a ∨ b ∈ l := by
  rw [(insert_perm key a l).mem_iff, mem_cons]

theorem Sorted.insert (h : Sorted key l) (a : α) : Sorted key (insert key a l) := by
  induction l with
  | nil => exact pairwise_singleton _ _
  | cons b l ih =>
    obtain ⟨hb, hl⟩ := pairwise_cons.mp h
    unfold Ordered.insert
    split
    · rename_i hlt
      refine pairwise_cons.mpr ⟨fun c hc => ?_, h⟩
      rcases mem_cons.mp hc with rfl | hc
      · exact hlt.le
      · exact hlt.le.trans (hb c hc)
    · rename_i hnot
      refine pairwise_cons.mpr ⟨fun c hc => ?_, ih hl⟩
      rcases mem_insert.mp hc with rfl | hc
      · exact not_lt.mp hnot
      · exact hb c hc

/-- The element at the front is a least one. -/
theorem Sorted.head_le (h : Sorted key (a :: l)) (hb : b ∈ a :: l) : key a ≤ key b := by
  rcases mem_cons.mp hb with rfl | hb
  · exact le_refl _
  · exact (pairwise_cons.mp h).1 b hb

theorem Sorted.sublist {l' : List α} (h : Sorted key l) (hs : l'.Sublist l) : Sorted key l' :=
  List.Pairwise.sublist hs h

/-- Only the keys of the elements matter. -/
theorem Sorted.congr {key key' : α → κ} (h : Sorted key l)
    (heq : ∀ a ∈ l, key' a = key a) : Sorted key' l := by
  refine List.Pairwise.imp_of_mem (fun {a b} ha hb hle => ?_) h
  rw [heq a ha, heq b hb]
  exact hle

/-! ## Moving elements from one collection to another -/

def transfer (key : α → κ) (p : α → Bool) : List α → List α → List α × List α
  | [], into => ([], into)
  | a :: l, into => if p a then transfer key p l (insert key a into) else (a :: l, into)

theorem transfer_fst (key : α → κ) (p : α → Bool) (l into : List α) :
    (transfer key p l into).1 = l.dropWhile p := by
  induction l generalizing into with
  | nil => rfl
  | cons a l ih =>
    unfold transfer
    split
    · rename_i hp
      rw [ih, dropWhile_cons_of_pos hp]
    · rename_i hp
      rw [dropWhile_cons_of_neg hp]

theorem transfer_perm (key : α → κ) (p : α → Bool) (l into : List α) :
    (transfer key p l into).2.Perm (l.takeWhile p ++ into) := by
  induction l generalizing into with
  | nil => exact .refl _
  | cons a l ih =>
    unfold transfer
    split
    · rename_i hp
      rw [takeWhile_cons_of_pos hp]
      have hinto : (l.takeWhile p ++ insert key a into).Perm (l.takeWhile p ++ a :: into) :=
        (insert_perm key a into).append_left _
      exact ((ih _).trans hinto).trans perm_middle
    · rename_i hp
      rw [takeWhile_cons_of_neg hp]
      exact .refl _

theorem transfer_sorted (p : α → Bool) (l : List α) (h : Sorted key into) :
    Sorted key (transfer key p l into).2 := by
  induction l generalizing into with
  | nil => exact h
  | cons a l ih =>
    unfold transfer
    split
    · exact ih (h.insert a)
    · exact h

/-- Nothing is lost or duplicated. -/
theorem transfer_append (key : α → κ) (p : α → Bool) (l into : List α) :
    ((transfer key p l into).2 ++ (transfer key p l into).1).Perm (into ++ l) := by
  rw [transfer_fst]
  have hmoved := (transfer_perm key p l into).append_right (l.dropWhile p)
  have hswap : (l.takeWhile p ++ into ++ l.dropWhile p).Perm
      (into ++ l.takeWhile p ++ l.dropWhile p) := perm_append_comm.append_right _
  rw [append_assoc into, takeWhile_append_dropWhile] at hswap
  exact hmoved.trans hswap

theorem mem_transfer {p : α → Bool} (h : a ∈ (transfer key p l into).2) :
    p a = true ∨ a ∈ into := by
  rw [(transfer_perm key p l into).mem_iff, mem_append] at h
  exact h.imp_left mem_takeWhile_imp

end PulseOS.Ordered
