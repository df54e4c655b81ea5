import Mathlib.Data.Sum.Basic
import PulseOS.Lib.Loop

/-!
# Two runs of a computation

`Agree R x y` — `x` and `y` end in the same way, with values related by `R`.  The rules follow the
structure of the computations; `agree_slice` and `agree_copyInto` say that a bounds check sees
nothing but lengths.  Loops whose rounds agree run in step (`Reaches.inStep`) and end in the same way
(`iter_eq`).
-/

namespace PulseOS.Exec

variable {ε ε' α α' β β' : Type}

/-- Both return, with related values, or both stop in the same way. -/
inductive Agree (R : α → β → Prop) : Exec ε α → Exec ε β → Prop
  | ok {a : α} {b : β} (related : R a b) : Agree R (.ok a) (.ok b)
  | error {h : Halt ε} : Agree R (.error h) (.error h)

variable {R : α → β → Prop} {S : α' → β' → Prop}

theorem Agree.refl {R : α → α → Prop} (hR : ∀ a, R a a) (x : Exec ε α) : Agree R x x := by
  cases x with
  | ok a => exact .ok (hR a)
  | error h => exact .error

variable {x : Exec ε α} {y : Exec ε β}

theorem Agree.mono {R' : α → β → Prop} (h : Agree R x y) (hR : ∀ a b, R a b → R' a b) :
    Agree R' x y := by
  cases h with
  | ok h => exact .ok (hR _ _ h)
  | error => exact .error

theorem Agree.with_eq (h : Agree R x y) : Agree (fun a b => x = .ok a ∧ R a b) x y := by
  cases h with
  | ok h => exact .ok ⟨rfl, h⟩
  | error => exact .error

theorem Agree.bind {f : α → Exec ε α'} {g : β → Exec ε β'}
    (h : Agree R x y) (hf : ∀ a b, R a b → Agree S (f a) (g b)) : Agree S (x >>= f) (y >>= g) := by
  cases h with
  | ok h => exact hf _ _ h
  | error => exact .error

/-- The same computation goes first. -/
theorem Agree.same {f : α → Exec ε α'} {g : α → Exec ε β'} (hf : ∀ a, Agree S (f a) (g a)) :
    Agree S (x >>= f) (x >>= g) := by
  cases x with
  | ok a => exact hf a
  | error h => exact .error

theorem Agree.ite {c : Prop} [Decidable c] {x x' : Exec ε α} {y y' : Exec ε β}
    (h : c → Agree R x y) (h' : ¬ c → Agree R x' y') :
    Agree R (if c then x else x') (if c then y else y') := by
  split
  · rename_i hc
    exact h hc
  · rename_i hc
    exact h' hc

/-- The same check goes first. -/
theorem Agree.guard {c : Prop} [Decidable c] {e : Halt ε} {x : Exec ε α} {y : Exec ε β}
    (h : ¬ c → Agree R x y) : Agree R (if c then .error e else x) (if c then .error e else y) :=
  .ite (fun _ => .error) h

theorem agree_mapErr (f : ε → ε') (h : Agree R x y) : Agree R (mapErr f x) (mapErr f y) := by
  cases h with
  | ok h => exact .ok h
  | @error h => cases h <;> exact .error

/-- Related results of `attempt`: related values or one error. -/
def SameResult (R : α → β → Prop) : Except ε α → Except ε β → Prop
  | .ok a, .ok b => R a b
  | .error e, .error e' => e = e'
  | _, _ => False

theorem agree_attempt (h : Agree R x y) :
    Agree (SameResult R) (attempt x : Exec ε' (Except ε α)) (attempt y) := by
  cases h with
  | ok h => exact .ok h
  | @error h =>
    cases h with
    | err e => exact .ok rfl
    | panic p | hang => exact .error

theorem agree_okOr (e : ε) {o : Option α} {o' : Option β} (h : Option.Rel R o o') :
    Agree R (okOr e o) (okOr e o') := by
  cases h with
  | some h => exact .ok h
  | none => exact .error

theorem agree_slice {l l' : List α} (h : l.length = l'.length) (a b : Nat) :
    Agree (fun s s' : List α => s.length = s'.length) (slice l a b : Exec ε (List α))
      (slice l' a b) := by
  unfold slice
  rw [h]
  refine .ite (fun _ => .ok ?_) fun _ => .error
  simp [h]

theorem agree_copyInto {l l' src src' : List α} (h : l.length = l'.length)
    (hsrc : src.length = src'.length) (a : Nat) :
    Agree (fun s s' : List α => s.length = s'.length) (copyInto l a src : Exec ε (List α))
      (copyInto l' a src') := by
  unfold copyInto
  rw [h, hsrc]
  refine .ite (fun _ => .ok ?_) fun _ => .error
  simp [h, hsrc]

/-! ## Loops -/

section Loop

open Loop

variable {σ τ ρ : Type} {body : σ → Exec ε (σ ⊕ ρ)} {body' : τ → Exec ε (τ ⊕ ρ)} {R : σ → τ → Prop}
  {s : σ} {t : τ} (hR : R s t)
  (hround : ∀ s' t', Reaches body s s' → R s' t' →
    Agree (Sum.LiftRel R Eq) (body s') (body' t'))

include hR hround

theorem Reaches.inStep {s' : σ} (h : Reaches body s s') : ∃ t', Reaches body' t t' ∧ R s' t' := by
  induction h with
  | refl => exact ⟨t, .refl, hR⟩
  | @tail s₁ s₂ hreach hnext ih =>
    obtain ⟨t₁, ht, hR₁⟩ := ih
    have hnext : body s₁ = .ok (.inl s₂) := hnext
    have hagree := hround s₁ t₁ hreach hR₁
    generalize hb : body' t₁ = r at hagree
    rw [hnext] at hagree
    cases hagree with
    | ok hlift =>
      cases hlift with
      | @inl _ t₂ hR₂ => exact ⟨t₂, ht.tail hb, hR₂⟩

theorem iter_eq (fuel : Nat) : iter body fuel s = iter body' fuel t := by
  induction fuel generalizing s t with
  | zero => rfl
  | succ k ih =>
    have hagree := hround s t .refl hR
    unfold iter
    generalize hb : body s = r, body' t = r' at hagree
    cases hagree with
    | error => rfl
    | ok hlift =>
      cases hlift with
      | inl hR' => exact ih hR' fun s' t' hreach => hround s' t' (.head hb hreach)
      | inr he => rw [he]

end Loop

end PulseOS.Exec
