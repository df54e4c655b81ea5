import Mathlib.Tactic

/-!
# Contiguous elements of a list

`Contiguous p l`: whatever stands between two elements with property `p` has it too.  A list that
grows at its end, or between two parts only one of which has such elements, stays contiguous.
-/

namespace PulseOS

open List

variable {α : Type} {p : α → Prop} {l l' ext : List α}

def Contiguous (p : α → Prop) (l : List α) : Prop :=
  ∀ x y z, [x, y, z].Sublist l → p x → p z → p y

namespace Contiguous

theorem of_sublist (h : Contiguous p l) (hsub : l'.Sublist l) : Contiguous p l' :=
  fun x y z hxyz => h x y z (hxyz.trans hsub)

theorem of_none (h : ∀ x ∈ l, ¬p x) : Contiguous p l :=
  fun x _ _ hxyz hx _ => absurd hx (h x (hxyz.subset (by simp)))

/-- Elements without the property at the end. -/
theorem append_none (h : Contiguous p l) (hext : ∀ x ∈ ext, ¬p x) : Contiguous p (l ++ ext) := by
  intro x y z hxyz hx hz
  obtain ⟨l₁, l₂, heq, h₁, h₂⟩ := sublist_append_iff.mp hxyz
  match l₁, l₂, heq with
  | [], _, rfl => exact absurd hx (hext x (h₂.subset (by simp)))
  | [_], _, rfl => exact absurd hz (hext z (h₂.subset (by simp)))
  | [_, _], _, rfl => exact absurd hz (hext z (h₂.subset (by simp)))
  | [_, _, _], [], rfl => exact h x y z h₁ hx hz

/-- Elements without the property at the front. -/
theorem none_append (h : Contiguous p l) (hext : ∀ x ∈ ext, ¬p x) : Contiguous p (ext ++ l) := by
  intro x y z hxyz hx hz
  obtain ⟨l₁, l₂, heq, h₁, h₂⟩ := sublist_append_iff.mp hxyz
  cases l₁ with
  | nil =>
    rw [nil_append] at heq
    exact h x y z (heq ▸ h₂) hx hz
  | cons w rest =>
    obtain ⟨rfl, -⟩ := cons_eq_cons.mp heq
    exact absurd hx (hext x (h₁.subset (by simp)))

/-- Elements with the property after a list without such. -/
theorem append_all (h : ∀ x ∈ l, ¬p x) (hext : ∀ x ∈ ext, p x) : Contiguous p (l ++ ext) := by
  refine none_append (fun x y z hxyz _ _ => hext y (hxyz.subset (by simp))) h

/-- Elements without the property between two parts, of which only one has such elements. -/
theorem insert (h : Contiguous p (l ++ l')) (hext : ∀ x ∈ ext, ¬p x)
    (honly : (∀ x ∈ l, ¬p x) ∨ ∀ x ∈ l', ¬p x) : Contiguous p (l ++ ext ++ l') := by
  rcases honly with hnone | hnone
  · refine none_append (h.of_sublist (sublist_append_right l l')) fun x hx => ?_
    rcases mem_append.mp hx with hx | hx
    · exact hnone x hx
    · exact hext x hx
  · exact (append_none (h.of_sublist (sublist_append_left l l')) hext).append_none hnone

/-- Where both parts have such elements, they meet at the border. -/
theorem border {x z : α} (h : Contiguous p (l ++ l')) (hx : x ∈ l) (hpx : p x) (hz : z ∈ l')
    (hpz : p z) : (∃ y, l.getLast? = some y ∧ p y) ∧ ∃ y, l'.head? = some y ∧ p y := by
  obtain ⟨init, last, rfl⟩ := (eq_nil_or_concat' l).resolve_left (ne_nil_of_mem hx)
  obtain ⟨first, rest, rfl⟩ := exists_cons_of_ne_nil (ne_nil_of_mem hz)
  refine ⟨⟨last, by simp, ?_⟩, ⟨first, rfl, ?_⟩⟩
  · rcases mem_append.mp hx with hinit | hlast
    · refine h x last z ?_ hpx hpz
      exact ((singleton_sublist.mpr hinit).append (List.Sublist.refl [last])).append
        (singleton_sublist.mpr hz)
    · rwa [mem_singleton.mp hlast] at hpx
  · rcases mem_cons.mp hz with rfl | hrest
    · exact hpz
    · refine h x first z ?_ hpx hpz
      exact (singleton_sublist.mpr hx).append ((singleton_sublist.mpr hrest).cons_cons first)

end Contiguous

end PulseOS
