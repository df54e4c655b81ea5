import Mathlib.Tactic

/-!
# Systems that take step after step

`step s a s'` says that action `a` takes a system from `s` to `s'`.  `Run init step h s` is a run
from an initial state to `s`; its history `h` lists the actions, the latest first.

* `Run.invariant` — a property of the initial states that every step keeps holds after every run.
* `Guarded ok step` — the steps taken where `ok` holds of the state before and the action: a run of
  these is a run of `step` all of whose steps meet the condition.
* `Reachable` — the states at the end of some run.
* `Computed exec` — the steps of a system whose next state is computed; `Reachable.execs` and
  `Reachable.guarded_execs` turn an evaluation of a list of actions into a run.
-/

namespace PulseOS.Transition

variable {σ α : Type}

inductive Run (init : σ → Prop) (step : σ → α → σ → Prop) : List α → σ → Prop
  | init {s : σ} : init s → Run init step [] s
  | step {h : List α} {s : σ} {a : α} {s' : σ} :
      Run init step h s → step s a s' → Run init step (a :: h) s'

def Reachable (init : σ → Prop) (step : σ → α → σ → Prop) (s : σ) : Prop := ∃ h, Run init step h s

/-- The steps taken where `ok` holds. -/
def Guarded (ok : σ → α → Prop) (step : σ → α → σ → Prop) : σ → α → σ → Prop :=
  fun s a s' => ok s a ∧ step s a s'

variable {init : σ → Prop} {step : σ → α → σ → Prop} {I : σ → Prop} {ok : σ → α → Prop} {s : σ}
  {h : List α}

/-- **The invariant rule.** -/
theorem Run.invariant (hrun : Run init step h s) (h0 : ∀ s, init s → I s)
    (hstep : ∀ s a s', I s → step s a s' → I s') : I s := by
  induction hrun with
  | init hi => exact h0 _ hi
  | step _ hs ih => exact hstep _ _ _ ih hs

theorem Reachable.invariant (hr : Reachable init step s) (h0 : ∀ s, init s → I s)
    (hstep : ∀ s a s', I s → step s a s' → I s') : I s := by
  obtain ⟨h, hrun⟩ := hr
  exact hrun.invariant h0 hstep

variable {s s' : σ} {a : α} {p : σ → Bool}

theorem Run.guarded (hr : Run init (Guarded ok step) h s) (hs : step s a s') (hok : ok s a) :
    Run init (Guarded ok step) (a :: h) s' :=
  hr.step ⟨hok, hs⟩

theorem Run.mono {step' : σ → α → σ → Prop} (hr : Run init step h s)
    (himp : ∀ s a s', step s a s' → step' s a s') : Run init step' h s := by
  induction hr with
  | init hi => exact .init hi
  | step _ hs ih => exact ih.step (himp _ _ _ hs)

/-- Steps that meet a condition meet a weaker one. -/
theorem Run.weaken {ok ok' : σ → α → Prop}
    (hr : Run init (Guarded ok step) h s) (himp : ∀ s a, ok s a → ok' s a) :
    Run init (Guarded ok' step) h s :=
  hr.mono fun _ _ _ hs => ⟨himp _ _ hs.1, hs.2⟩

theorem Reachable.start (h : init s) : Reachable init step s := ⟨[], .init h⟩

theorem Reachable.next (hr : Reachable init step s) (hs : step s a s') :
    Reachable init step s' := by
  obtain ⟨h, hrun⟩ := hr
  exact ⟨a :: h, hrun.step hs⟩

theorem Reachable.guarded
    (hr : Reachable init (Guarded ok step) s) (hs : step s a s') (hok : ok s a) :
    Reachable init (Guarded ok step) s' :=
  hr.next ⟨hok, hs⟩

/-! ## Systems whose steps are computed -/

/-- The step relation of `exec`, which is `none` where an action is not possible. -/
def Computed (exec : σ → α → Option σ) : σ → α → σ → Prop := fun s a s' => exec s a = some s'

variable {exec : σ → α → Option σ}

theorem Reachable.foldlM (hr : Reachable init (Computed exec) s) {as : List α}
    (h : as.foldlM exec s = some s') : Reachable init (Computed exec) s' := by
  induction as generalizing s with
  | nil =>
    cases h
    exact hr
  | cons a as ih =>
    rw [List.foldlM_cons] at h
    obtain ⟨t, ht, hrest⟩ := Option.bind_eq_some_iff.mp h
    exact ih (hr.next ht) hrest

/-- Some state with property `p` is what a list of actions leads to. -/
theorem Reachable.execs (h0 : init s) (as : List α) (h : (as.foldlM exec s).any p = true) :
    ∃ s', Reachable init (Computed exec) s' ∧ p s' = true := by
  obtain ⟨s', hs', hp⟩ := (Option.any_eq_true _ _).mp h
  exact ⟨s', (Reachable.start h0).foldlM hs', hp⟩

/-- The same for steps that all meet a condition. -/
theorem Reachable.guarded_execs [∀ s a, Decidable (ok s a)] (h0 : init s) (as : List α)
    (h : (as.foldlM (fun s a => if ok s a then exec s a else none) s).any p = true) :
    ∃ s', Reachable init (Guarded ok (Computed exec)) s' ∧ p s' = true := by
  obtain ⟨s', ⟨acts, hrun⟩, hp⟩ := Reachable.execs h0 as h
  refine ⟨s', ⟨acts, hrun.mono fun s a s' hs => ?_⟩, hp⟩
  simp only [Computed] at hs
  split at hs
  · rename_i hok
    exact ⟨hok, hs⟩
  · cases hs

end PulseOS.Transition
