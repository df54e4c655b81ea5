import Mathlib.Data.List.AList

/-!
# Finite tables

A map from keys to values, as the standard library's ordered maps are used by the kernel: lookup,
insertion and removal are Mathlib's (`AList`); `filterMap` updates or drops every value in one
pass (`values_mut` followed by `retain`).
-/

namespace PulseOS

variable {κ β : Type}

abbrev Table (κ β : Type) := AList fun _ : κ => β

/-- Update every value, dropping those mapped to `none`. -/
def Table.filterMap (f : κ → β → Option β) (t : Table κ β) : Table κ β where
  entries := t.entries.filterMap fun e => (f e.1 e.2).map (Sigma.mk e.1)
  nodupKeys := by
    have h := List.nodupKeys_iff_pairwise.mp t.nodupKeys
    refine List.nodupKeys_iff_pairwise.mpr (List.pairwise_filterMap.mpr (h.imp ?_))
    intro a b hne x hx y hy
    obtain ⟨_, -, rfl⟩ := Option.map_eq_some_iff.mp hx
    obtain ⟨_, -, rfl⟩ := Option.map_eq_some_iff.mp hy
    exact hne

theorem Table.lookup_filterMap [DecidableEq κ] (f : κ → β → Option β) (t : Table κ β) (k : κ) :
    (t.filterMap f).lookup k = (t.lookup k).bind (f k) := by
  refine Option.ext fun b => ?_
  have hnew : (t.filterMap f).lookup k = some b ↔ ⟨k, b⟩ ∈ (t.filterMap f).entries :=
    AList.mem_lookup_iff
  have hold : ∀ a, t.lookup k = some a ↔ ⟨k, a⟩ ∈ t.entries := fun a => AList.mem_lookup_iff
  rw [hnew, Option.bind_eq_some_iff]
  simp only [Table.filterMap, List.mem_filterMap, Option.map_eq_some_iff, hold]
  constructor
  · rintro ⟨⟨k', a⟩, he, b', hf, heq⟩
    cases heq
    exact ⟨a, he, hf⟩
  · rintro ⟨a, he, hf⟩
    exact ⟨⟨k, a⟩, he, b, hf, rfl⟩

end PulseOS
