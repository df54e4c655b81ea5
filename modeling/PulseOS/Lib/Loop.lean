import PulseOS.Lib.Exec

/-!
# Loops

`iter body fuel s` repeats `body` from `s`: a round continues with a new state (`Sum.inl`),
leaves the loop with a result (`Sum.inr`), or ends the computation.

* `iter_meets` — the invariant rule for total correctness: an invariant, a variant below the
  fuel, and a postcondition at the exit.
* `Reaches body s s'` — `s'` is the state before some round of the loop started at `s`;
  `iter_halts_iff` says that the loop ends with a given abort exactly when some such round
  does, and `forall_reaches` runs a loop to check all of them.
* `forUpTo` — a counted loop over a state, with its invariant rule `forUpTo_spec`;
  `foldl_range'_invariant` is the rule for a fold over consecutive numbers.
-/

namespace PulseOS.Loop

open Exec Relation.ReflTransGen

variable {ε σ β : Type} (body : σ → Exec ε (σ ⊕ β))

/-- `loop { body }` with an explicit bound on the number of rounds. -/
def iter : Nat → σ → Exec ε β
  | 0, _ => .error .hang
  | k + 1, s =>
    match body s with
    | .error h => .error h
    | .ok (.inl s') => iter k s'
    | .ok (.inr b) => .ok b

/-- One round that continues. -/
def Next (s s' : σ) : Prop := body s = .ok (.inl s')

/-- `s'` is the state before some round of the loop started at `s`. -/
def Reaches : σ → σ → Prop := Relation.ReflTransGen (Next body)

variable {body : σ → Exec ε (σ ⊕ β)} {I : σ → Prop} {s s' : σ} {P : β → Prop} {f : σ → Nat → σ}

theorem Reaches.invariant (h : Reaches body s s') (hs : I s)
    (hstep : ∀ s s', I s → body s = .ok (.inl s') → I s') : I s' := by
  induction h with
  | refl => exact hs
  | tail _ hn ih => exact hstep _ _ ih hn

/-- The state after `k` rounds that continue. -/
def after (body : σ → Exec ε (σ ⊕ β)) : Nat → σ → Option σ
  | 0, s => some s
  | k + 1, s =>
    match body s with
    | .ok (.inl s') => after body k s'
    | _ => none

theorem reaches_of_after : ∀ {k : Nat} {s s' : σ}, after body k s = some s' → Reaches body s s'
  | 0, s, s', h => by
    cases h
    exact .refl
  | k + 1, s, s', h => by
    unfold after at h
    split at h
    · rename_i s₁ hb
      exact .head hb (reaches_of_after h)
    · cases h

theorem after_succ (hb : body s = .ok (.inl s')) (k : Nat) :
    after body (k + 1) s = after body k s' := by
  rw [after, hb]

/-- A property of the states of a loop that ends, checked state by state. -/
theorem forall_reaches {P : σ → Prop} : ∀ {n : Nat} {s : σ}, after body n s = none →
    (∀ k < n, ∀ s' ∈ after body k s, P s') → ∀ s', Reaches body s s' → P s'
  | 0, _, hn, _, _, _ => by cases hn
  | n + 1, s, hn, h, s', hr => by
    rcases hr.cases_head with rfl | ⟨s₁, hb, hr⟩
    · exact h 0 (by omega) _ rfl
    · rw [after_succ hb] at hn
      refine forall_reaches hn (fun k hk s' hs' => h (k + 1) (by omega) s' ?_) s' hr
      rwa [after_succ hb]

theorem iter_next (h : body s = .ok (.inl s')) (k : Nat) :
    iter body (k + 1) s = iter body k s' := by
  simp [iter, h]

theorem iter_done {b : β} (h : body s = .ok (.inr b)) (k : Nat) : iter body (k + 1) s = .ok b := by
  simp [iter, h]

/-- What a round must establish: the invariant with a smaller variant, the postcondition at
the exit, or an allowed error. -/
def RoundMeets (Inv : σ → Prop) (μ : σ → Nat) (P : β → Prop) (E : ε → Prop)
    (body : σ → Exec ε (σ ⊕ β)) (s : σ) : Prop :=
  Meets (body s) (fun r => match r with
    | .inl s' => Inv s' ∧ μ s' < μ s
    | .inr b => P b) E

/-- **The loop rule.** -/
theorem iter_meets {Inv : σ → Prop} {μ : σ → Nat} {E : ε → Prop}
    (hbody : ∀ s, Inv s → RoundMeets Inv μ P E body s) :
    ∀ (fuel : Nat) (s : σ), Inv s → μ s < fuel → Meets (iter body fuel s) P E := by
  intro fuel
  induction fuel with
  | zero => intro s _ hμ; omega
  | succ k ih =>
    intro s hs hμ
    have hr := hbody s hs
    unfold RoundMeets at hr
    unfold iter
    match hb : body s with
    | .error (.err e) => rw [hb] at hr; exact hr
    | .error (.panic p) => rw [hb] at hr; exact hr.elim
    | .error .hang => rw [hb] at hr; exact hr.elim
    | .ok (.inl s') =>
      rw [hb] at hr
      exact ih s' hr.1 (by have := hr.2; omega)
    | .ok (.inr b) => rw [hb] at hr; exact hr

/-- A loop that returns has a last round, reached from the start. -/
theorem iter_ok_reaches : ∀ {fuel : Nat} {s : σ} {b : β}, iter body fuel s = .ok b →
    ∃ s', Reaches body s s' ∧ body s' = .ok (.inr b)
  | 0, _, _, h => by cases h
  | k + 1, s, b, h => by
    unfold iter at h
    split at h
    · cases h
    · rename_i s' hb
      obtain ⟨s'', hr, he⟩ := iter_ok_reaches h
      exact ⟨s'', head hb hr, he⟩
    · rename_i b' hb
      cases h
      exact ⟨s, refl, hb⟩

theorem iter_halts_reaches : ∀ {fuel : Nat} {s : σ} {h : Halt ε}, h ≠ .hang →
    iter body fuel s = .error h → ∃ s', Reaches body s s' ∧ body s' = .error h
  | 0, _, _, hh, he => by
    cases he
    exact absurd rfl hh
  | k + 1, s, h, hh, he => by
    unfold iter at he
    split at he
    · rename_i h' hb
      cases he
      exact ⟨s, refl, hb⟩
    · rename_i s' hb
      obtain ⟨s'', hr, hb'⟩ := iter_halts_reaches hh he
      exact ⟨s'', head hb hr, hb'⟩
    · cases he

/-- A loop that does not hang has the outcome of every round that ends it. -/
theorem iter_of_reaches {h : Halt ε} (hr : Reaches body s s') (hb : body s' = .error h) :
    ∀ {fuel : Nat}, iter body fuel s ≠ .error .hang → iter body fuel s = .error h := by
  induction hr using head_induction_on with
  | refl =>
    intro fuel hf
    cases fuel with
    | zero => exact absurd rfl hf
    | succ k => simp [iter, hb]
  | head hn _ ih =>
    intro fuel hf
    cases fuel with
    | zero => exact absurd rfl hf
    | succ k =>
      have hn' : body _ = .ok (.inl _) := hn
      simp only [iter, hn'] at hf ⊢
      exact ih hf

/-- **A loop aborts exactly when one of its rounds does.** -/
theorem iter_halts_iff {fuel : Nat} {h : Halt ε} (hh : h ≠ .hang)
    (hf : iter body fuel s ≠ .error .hang) :
    iter body fuel s = .error h ↔ ∃ s', Reaches body s s' ∧ body s' = .error h :=
  ⟨iter_halts_reaches hh, fun ⟨_, hr, hb⟩ => iter_of_reaches hr hb hf⟩

/-! ## Counted loops -/

/-- `for k in 0..n { s = f(k, s) }`. -/
def forUpTo (f : Nat → σ → Exec ε σ) : Nat → σ → Exec ε σ
  | 0, s => .ok s
  | k + 1, s => do
    let s' ← forUpTo f k s
    f k s'

variable {I : Nat → σ → Prop}

/-- **The rule of counted loops**: an invariant indexed by the rounds done. -/
theorem forUpTo_spec {f : Nat → σ → Exec ε σ} (h0 : I 0 s) :
    ∀ n : Nat, (∀ k < n, ∀ s, I k s → ∃ s', f k s = .ok s' ∧ I (k + 1) s') →
      ∃ s', forUpTo f n s = .ok s' ∧ I n s' := by
  intro n
  induction n with
  | zero =>
    intro _
    exact ⟨s, rfl, h0⟩
  | succ n ih =>
    intro hstep
    obtain ⟨s₁, hs₁, hI₁⟩ := ih fun k hk => hstep k (by omega)
    obtain ⟨s₂, hs₂, hI₂⟩ := hstep n (by omega) s₁ hI₁
    exact ⟨s₂, by rw [forUpTo, hs₁, ok_bind, hs₂], hI₂⟩

theorem foldl_range'_invariant :
    ∀ (n a : Nat) (s : σ), I a s → (∀ k, a ≤ k → k < a + n → ∀ s, I k s → I (k + 1) (f s k)) →
      I (a + n) ((List.range' a n).foldl f s) := by
  intro n
  induction n with
  | zero =>
    intro a s h0 _
    exact h0
  | succ n ih =>
    intro a s h0 hstep
    have h1 := ih (a + 1) (f s a) (hstep a (le_refl a) (by omega) s h0)
      fun k hk hlt => hstep k (by omega) (by omega)
    rw [List.range'_succ, List.foldl_cons]
    rwa [Nat.add_right_comm] at h1

theorem foldl_range_invariant (n : Nat) (s : σ)
    (h0 : I 0 s) (hstep : ∀ k < n, ∀ s, I k s → I (k + 1) (f s k)) :
    I n ((List.range n).foldl f s) := by
  have h := foldl_range'_invariant n 0 s h0 fun k _ hk => hstep k (by omega)
  rwa [Nat.zero_add, ← List.range_eq_range'] at h

end PulseOS.Loop
