import Mathlib.Tactic

/-!
# Relations whose chains are bounded

Where every chain of a relation has at most `n` elements, the relation has no cycle and no chain
visits an element twice (`ChainsWithin.acyclic`, `ChainsWithin.nodup`).  `chains_of_new_edge`: an
edge out of an element that no edge goes into.
-/

namespace PulseOS

open List Relation

variable {α : Type} {r : α → α → Prop} {n : Nat}

def ChainsWithin (r : α → α → Prop) (n : Nat) : Prop := ∀ l : List α, l.IsChain r → l.length ≤ n

namespace ChainsWithin

theorem mono {r' : α → α → Prop} (h : ChainsWithin r n) (himp : ∀ a b, r' a b → r a b) :
    ChainsWithin r' n :=
  fun l hl => h l (hl.imp fun a b => himp a b)

/-- A path in front of a chain. -/
theorem cons_of_transGen {a b : α} {l : List α} (hab : TransGen r a b)
    (hl : (b :: l).IsChain r) : ∃ l', (a :: l').IsChain r ∧ l.length < l'.length := by
  induction hab using TransGen.head_induction_on with
  | single hab => exact ⟨b :: l, isChain_cons_cons.mpr ⟨hab, hl⟩, Nat.lt_succ_self _⟩
  | @head a c hac _ ih =>
    obtain ⟨l', hl', hlt⟩ := ih
    exact ⟨c :: l', isChain_cons_cons.mpr ⟨hac, hl'⟩, hlt.trans (Nat.lt_succ_self _)⟩

/-- Around a cycle there are chains of any length. -/
theorem acyclic (h : ChainsWithin r n) (a : α) : ¬TransGen r a a := by
  intro hcycle
  have hlong : ∀ k, ∃ l, (a :: l).IsChain r ∧ k ≤ l.length := by
    intro k
    induction k with
    | zero => exact ⟨[], isChain_singleton a, Nat.zero_le _⟩
    | succ k ih =>
      obtain ⟨l, hl, hk⟩ := ih
      obtain ⟨l', hl', hlt⟩ := cons_of_transGen hcycle hl
      exact ⟨l', hl', by omega⟩
  obtain ⟨l, hl, hn⟩ := hlong n
  have hbound := h (a :: l) hl
  simp only [length_cons] at hbound
  omega

theorem nodup (h : ChainsWithin r n) {l : List α} (hl : l.IsChain r) : l.Nodup := by
  have hpairs : l.Pairwise (TransGen r) := (hl.imp fun _ _ => TransGen.single).pairwise
  refine hpairs.imp fun hab heq => ?_
  exact h.acyclic _ (heq ▸ hab)

end ChainsWithin

section NewEdge

variable {r' : α → α → Prop} {a b : α} (hedge : ∀ x y, r' x y → r x y ∨ x = a ∧ y = b)
  (hinto : ∀ x, ¬r x a)

include hedge hinto

/-- A chain that does not start with `a` has old edges only. -/
theorem isChain_of_new_edge : ∀ {l : List α}, l.IsChain r' → (∀ x ∈ l.head?, x ≠ a) → l.IsChain r
  | [], _, _ => List.IsChain.nil
  | [x], _, _ => isChain_singleton x
  | x :: y :: l, hl, hx => by
    obtain ⟨hxy, hl⟩ := isChain_cons_cons.mp hl
    have hx : x ≠ a := hx x rfl
    have hold : r x y := (hedge x y hxy).resolve_right fun h => hx h.1
    have hy : y ≠ a := fun hya => hinto x (hya ▸ hold)
    exact isChain_cons_cons.mpr ⟨hold, isChain_of_new_edge hl fun z hz => by
      cases hz
      exact hy⟩

/-- **The edge `a → b` lengthens no chain beyond the bound** when no edge goes into `a`, and the
chains from `b` have at most `n` elements. -/
theorem chains_of_new_edge (hne : b ≠ a) (h : ChainsWithin r (n + 1))
    (hfrom : ∀ l, (b :: l).IsChain r → (b :: l).length ≤ n) : ChainsWithin r' (n + 1) := by
  intro l hl
  match l, hl with
  | [], _ => simp
  | [x], _ => simp
  | x :: y :: l, hl =>
    obtain ⟨hxy, htail⟩ := isChain_cons_cons.mp hl
    rcases hedge x y hxy with hold | ⟨rfl, rfl⟩
    · have hy : y ≠ a := fun hya => hinto x (hya ▸ hold)
      have htail := isChain_of_new_edge hedge hinto htail fun z hz => by
        cases hz
        exact hy
      exact h _ (isChain_cons_cons.mpr ⟨hold, htail⟩)
    · have htail := isChain_of_new_edge hedge hinto htail fun z hz => by
        cases hz
        exact hne
      have hbound := hfrom l htail
      simp only [length_cons] at hbound ⊢
      omega

end NewEdge

end PulseOS
