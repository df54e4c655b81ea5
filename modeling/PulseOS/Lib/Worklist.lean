import PulseOS.Lib.Loop

/-!
# Worklist exploration

`explore` takes states from a queue, skips those it has seen, visits the others and queues what
the visit returns.  Visits share an accumulator and are numbered; a budget bounds the number of
states taken from the queue.
-/

namespace PulseOS.Worklist

open Exec List Loop

variable {ε σ α : Type} [DecidableEq σ]

structure Work (σ α : Type) where
  todo : List σ
  seen : List σ
  count : Nat
  acc : α

open Work

/-- What an exploration is made of. -/
structure Explorer (ε σ α : Type) where
  budget : Nat
  /-- the error of a state beyond the budget -/
  overrun : σ → ε
  /-- the successors of a state, and the accumulator after its visit -/
  visit : Nat → α → σ → Exec ε (List σ × α)

variable (x : Explorer ε σ α)

def round (w : Work σ α) : Exec ε (Work σ α ⊕ (List σ × α)) :=
  match w.todo with
  | [] => .ok (.inr (w.seen, w.acc))
  | s :: rest =>
    let count := w.count + 1
    if count > x.budget then err (x.overrun s)
    else if s ∈ w.seen then .ok (.inl { w with todo := rest, count })
    else do
      let (succs, acc) ← x.visit count w.acc s
      .ok (.inl { todo := rest ++ succs, seen := w.seen ++ [s], count, acc })

def Work.start (s : σ) (a : α) : Work σ α := { todo := [s], seen := [], count := 0, acc := a }

/-- The states seen and the accumulator at the end. -/
def explore (s : σ) (a : α) : Exec ε (List σ × α) :=
  iter (round x) (x.budget + 2) (start s a)

/-- `s` is taken up for its visit, with accumulator `a` and visit number `k`. -/
def Taken (s₀ : σ) (a₀ : α) (k : Nat) (a : α) (s : σ) : Prop :=
  ∃ w, Reaches (round x) (start s₀ a₀) w ∧ ∃ rest, w.todo = s :: rest ∧
    w.count + 1 = k ∧ k ≤ x.budget ∧ s ∉ w.seen ∧ w.acc = a

variable {x} {w : Work σ α}

/-- What one round does. -/
theorem round_cases {r : Work σ α ⊕ (List σ × α)} (h : round x w = .ok r) :
    (w.todo = [] ∧ r = .inr (w.seen, w.acc)) ∨
    ∃ s rest, w.todo = s :: rest ∧ w.count + 1 ≤ x.budget ∧
      ((s ∈ w.seen ∧ r = .inl { w with todo := rest, count := w.count + 1 }) ∨
       (s ∉ w.seen ∧ ∃ succs acc, x.visit (w.count + 1) w.acc s = .ok (succs, acc) ∧
          r = .inl { todo := rest ++ succs, seen := w.seen ++ [s], count := w.count + 1, acc })) := by
  unfold round at h
  split at h
  · rename_i hnil
    cases h
    exact .inl ⟨hnil, rfl⟩
  · rename_i s rest hcons
    simp only at h
    split at h
    · cases h
    · rename_i hb
      split at h
      · rename_i hseen
        cases h
        exact .inr ⟨s, rest, hcons, by omega, .inl ⟨hseen, rfl⟩⟩
      · rename_i hseen
        obtain ⟨⟨succs, acc⟩, hv, hr⟩ := bind_eq_ok.mp h
        cases hr
        exact .inr ⟨s, rest, hcons, by omega, .inr ⟨hseen, succs, acc, hv, rfl⟩⟩

/-- What the rounds maintain: a state that was seen was taken up and visited, with successors that
are seen or queued; `R` relates the accumulators of later visits. -/
structure Closed (R : α → α → Prop) (s₀ : σ) (a₀ : α) (w : Work σ α) : Prop where
  start : s₀ ∈ w.seen ∨ s₀ ∈ w.todo
  visited : ∀ s ∈ w.seen, ∃ k a succs a', Taken x s₀ a₀ k a s ∧ x.visit k a s = .ok (succs, a') ∧
    R a' w.acc ∧ ∀ t ∈ succs, t ∈ w.seen ∨ t ∈ w.todo

section Closure

variable {R : α → α → Prop} (hrefl : ∀ a, R a a) (htrans : ∀ a b c, R a b → R b c → R a c)
  (hvisit : ∀ k a s succs a', x.visit k a s = .ok (succs, a') → R a a')
include hrefl htrans hvisit

variable {s₀ : σ} {a₀ : α}

theorem closed_step {w w' : Work σ α}
    (hw : Reaches (round x) (start s₀ a₀) w) (hc : Closed (x := x) R s₀ a₀ w)
    (h : round x w = .ok (.inl w')) : Closed (x := x) R s₀ a₀ w' := by
  rcases round_cases h with ⟨-, hr⟩ | ⟨s, rest, htodo, hb, ⟨hseen, hr⟩ | ⟨hnew, succs, acc, hv, hr⟩⟩
  · cases hr
  · cases hr
    -- a state that was seen already leaves the queue
    have hmove : ∀ t, t ∈ w.seen ∨ t ∈ w.todo → t ∈ w.seen ∨ t ∈ rest := by
      intro t ht
      rw [htodo] at ht
      rcases ht with ht | ht
      · exact .inl ht
      · rcases mem_cons.mp ht with rfl | ht
        · exact .inl hseen
        · exact .inr ht
    refine ⟨hmove _ hc.start, fun t ht => ?_⟩
    obtain ⟨k, a, succs, a', ha, hv, hR, hs⟩ := hc.visited t ht
    exact ⟨k, a, succs, a', ha, hv, hR, fun u hu => hmove u (hs u hu)⟩
  · cases hr
    have hmove : ∀ t, t ∈ w.seen ∨ t ∈ w.todo → t ∈ w.seen ++ [s] ∨ t ∈ rest ++ succs := by
      intro t ht
      rw [htodo] at ht
      rcases ht with ht | ht
      · exact .inl (mem_append_left _ ht)
      · rcases mem_cons.mp ht with rfl | ht
        · exact .inl (mem_append_right _ (mem_singleton.mpr rfl))
        · exact .inr (mem_append_left _ ht)
    refine ⟨hmove _ hc.start, fun t ht => ?_⟩
    rcases mem_append.mp ht with ht | ht
    · obtain ⟨k, a, succs', a', ha, hv', hR, hs⟩ := hc.visited t ht
      exact ⟨k, a, succs', a', ha, hv', htrans _ _ _ hR (hvisit _ _ _ _ _ hv),
        fun u hu => hmove u (hs u hu)⟩
    · rw [mem_singleton.mp ht]
      exact ⟨w.count + 1, w.acc, succs, acc, ⟨w, hw, rest, htodo, rfl, hb, hnew, rfl⟩, hv, hrefl _,
        fun u hu => .inr (mem_append_right _ hu)⟩

/-- **The states an exploration returns are closed under visits.** -/
theorem explore_closed {seen : List σ} {acc : α} (h : explore x s₀ a₀ = .ok (seen, acc)) :
    s₀ ∈ seen ∧ ∀ s ∈ seen, ∃ k a succs a', Taken x s₀ a₀ k a s ∧
      x.visit k a s = .ok (succs, a') ∧ R a' acc ∧ ∀ t ∈ succs, t ∈ seen := by
  obtain ⟨w, hw, hlast⟩ := iter_ok_reaches h
  have hc : Closed (x := x) R s₀ a₀ w := by
    clear hlast
    induction hw with
    | refl => exact ⟨.inr (mem_singleton.mpr rfl), nofun⟩
    | tail hreach hnext ih => exact closed_step hrefl htrans hvisit hreach ih hnext
  rcases round_cases hlast with ⟨hnil, hr⟩ | ⟨s, rest, -, -, ⟨-, hr⟩ | ⟨-, _, _, -, hr⟩⟩
  · cases hr
    have hseen : ∀ t, t ∈ w.seen ∨ t ∈ w.todo → t ∈ w.seen := by
      intro t ht
      rw [hnil] at ht
      rcases ht with ht | ht
      · exact ht
      · cases ht
    refine ⟨hseen _ hc.start, fun s hs => ?_⟩
    obtain ⟨k, a, succs, a', ha, hv, hR, hsucc⟩ := hc.visited s hs
    exact ⟨k, a, succs, a', ha, hv, hR, fun t ht => hseen t (hsucc t ht)⟩
  · cases hr
  · cases hr

end Closure

variable {s₀ : σ} {a₀ : α}

/-- An invariant of the accumulator that every visit keeps holds at the end. -/
theorem explore_acc {I : α → Prop} {seen : List σ} {acc : α} (h₀ : I a₀)
    (hvisit : ∀ k a s succs a', Taken x s₀ a₀ k a s → I a → x.visit k a s = .ok (succs, a') → I a')
    (h : explore x s₀ a₀ = .ok (seen, acc)) : I acc := by
  obtain ⟨w, hw, hlast⟩ := iter_ok_reaches h
  have hacc : I w.acc := by
    clear hlast
    induction hw with
    | refl => exact h₀
    | tail hreach hnext ih =>
      rcases round_cases hnext with
        ⟨-, hr⟩ | ⟨s, rest, htodo, hb, ⟨-, hr⟩ | ⟨hnew, _, _, hv, hr⟩⟩ <;> cases hr
      · exact ih
      · exact hvisit _ _ _ _ _ ⟨_, hreach, rest, htodo, rfl, hb, hnew, rfl⟩ ih hv
  rcases round_cases hlast with ⟨-, hr⟩ | ⟨_, _, -, -, ⟨-, hr⟩ | ⟨-, _, _, -, hr⟩⟩ <;> cases hr
  exact hacc

/-- The start is taken up first. -/
theorem taken_start (s₀ : σ) (a₀ : α) (h : 0 < x.budget) : Taken x s₀ a₀ 1 a₀ s₀ :=
  ⟨start s₀ a₀, Relation.ReflTransGen.refl, [], rfl, rfl, h, nofun, rfl⟩

/-- A visited state's successors are queued, so an invariant of the start that every visit
hands on holds of every state taken up. -/
theorem Taken.invariant {I : α → σ → Prop} {s₀ s : σ} {a₀ a : α} {k : Nat}
    (h : Taken x s₀ a₀ k a s) (h₀ : I a₀ s₀)
    (hvisit : ∀ k a s succs a', I a s → x.visit k a s = .ok (succs, a') →
      (∀ t, I a t → I a' t) ∧ ∀ t ∈ succs, I a' t) : I a s := by
  obtain ⟨w, hw, rest, htodo, -, -, -, rfl⟩ := h
  have hall : ∀ t ∈ w.todo, I w.acc t := by
    refine Reaches.invariant (I := fun w => ∀ t ∈ w.todo, I w.acc t) hw ?_ ?_
    · intro t ht
      rw [mem_singleton.mp ht]
      exact h₀
    · intro w w' hi hr
      rcases round_cases hr with ⟨-, hr⟩ | ⟨s, rest, htodo, -, ⟨-, hr⟩ | ⟨-, succs, acc, hv, hr⟩⟩
      · cases hr
      · cases hr
        intro t ht
        exact hi t (by rw [htodo]; exact mem_cons_of_mem _ ht)
      · cases hr
        obtain ⟨hkeep, hsucc⟩ := hvisit _ _ _ _ _ (hi s (by rw [htodo]; exact mem_cons_self)) hv
        intro t ht
        rcases mem_append.mp ht with ht | ht
        · exact hkeep t (hi t (by rw [htodo]; exact mem_cons_of_mem _ ht))
        · exact hsucc t ht
  exact hall s (by rw [htodo]; exact mem_cons_self)

/-- A round fails with the budget's error, or with that of the visit of a state taken up. -/
theorem round_error {h : Halt ε}
    (hw : Reaches (round x) (start s₀ a₀) w) (hr : round x w = .error h) :
    (∃ s, h = .err (x.overrun s)) ∨ ∃ k a s, Taken x s₀ a₀ k a s ∧ x.visit k a s = .error h := by
  unfold round at hr
  split at hr
  · cases hr
  · rename_i s rest htodo
    simp only at hr
    split at hr
    · cases hr
      exact .inl ⟨s, rfl⟩
    · rename_i hb
      split at hr
      · cases hr
      · rename_i hseen
        rcases bind_eq_error.mp hr with hv | ⟨_, _, hv⟩
        · exact .inr ⟨_, _, s, ⟨w, hw, rest, htodo, rfl, by omega, hseen, rfl⟩, hv⟩
        · cases hv

section
variable (hvisit : ∀ k a s, Taken x s₀ a₀ k a s → x.visit k a s ≠ .error .hang)
include hvisit

/-- **The budget bounds the rounds.** -/
theorem explore_total : explore x s₀ a₀ ≠ .error .hang := by
  -- the number of states taken from the queue grows in every round
  have hall : ∀ fuel (w : Work σ α), Loop.Reaches (round x) (start s₀ a₀) w →
      w.count ≤ x.budget → x.budget < w.count + fuel →
      Loop.iter (round x) (fuel + 1) w ≠ .error .hang := by
    intro fuel
    induction fuel with
    | zero => intro w _ _ hf; omega
    | succ k ih =>
      intro w hw hcount hf
      rcases hr : round x w with h | w' | b
      · unfold Loop.iter
        rw [hr]
        intro he
        cases he
        rcases round_error hw hr with ⟨_, he⟩ | ⟨k, a, s, ht, hv⟩
        · cases he
        · exact hvisit k a s ht hv
      · rw [Loop.iter_next hr]
        have hc' : w'.count = w.count + 1 ∧ w.count + 1 ≤ x.budget := by
          rcases round_cases hr with ⟨-, he⟩ | ⟨_, _, -, hb, ⟨-, he⟩ | ⟨-, _, _, -, he⟩⟩ <;> cases he
          · exact ⟨rfl, hb⟩
          · exact ⟨rfl, hb⟩
        exact ih w' (hw.tail hr) (by omega) (by omega)
      · rw [Loop.iter_done hr]
        simp
  exact hall (x.budget + 1) (start s₀ a₀) Relation.ReflTransGen.refl (Nat.zero_le _)
    (by simp [start])

/-- **An exploration panics exactly when the visit of a state it takes up does.** -/
theorem explore_panics_iff {f : Fault} : explore x s₀ a₀ = .error (.panic f) ↔
      ∃ k a s, Taken x s₀ a₀ k a s ∧ x.visit k a s = .error (.panic f) := by
  unfold explore
  rw [iter_halts_iff (h := .panic f) (by simp) (explore_total hvisit)]
  constructor
  · rintro ⟨w, hw, hr⟩
    rcases round_error hw hr with ⟨_, he⟩ | htaken
    · cases he
    · exact htaken
  · rintro ⟨k, a, s, ⟨w, hw, rest, htodo, rfl, hb, hseen, rfl⟩, hv⟩
    refine ⟨w, hw, ?_⟩
    unfold round
    simp only [htodo]
    rw [if_neg (by omega), if_neg hseen, hv]
    rfl

end

end PulseOS.Worklist
