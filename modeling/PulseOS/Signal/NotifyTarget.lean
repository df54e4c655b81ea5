import PulseOS.Signal.Notify

/-!
# A thread on its way to every pending signal

* `Covered` — a thread that does not block the signal is due, or every thread blocks it.
* `Telling` — a sender that has still to tell: the threads that it has passed block the signal or
  are due.
* `Kept` — what steps that are no concern of a signal leave of its threads.
* `consumable_of_run` — in every run whose steps meet the condition a pending signal is consumable.
* `left_pending` — without it, a thread that blocks the signal after it was notified leaves the
  signal to a thread that sleeps.
-/

namespace PulseOS.Signal.Notify

open Transition Function Option Bool List

namespace Group

variable (g g' : Group) (sig : Nat)

def Covered : Prop :=
  (∃ t ∈ g.live, g.blocked t sig = false ∧ g.due t sig = true) ∨
    ∀ t ∈ g.live, g.blocked t sig = true

/-- Every thread outside `rest` that does not block the signal is due. -/
def AllDue (rest : List Nat) : Prop :=
  ∀ t ∈ g.live, t ∉ rest → g.blocked t sig = false → g.due t sig = true

/-- No thread of `rest` has exited with the signal unblocked. -/
def Waiting (rest : List Nat) : Prop :=
  ∀ t ∈ rest, t ∈ g.live ∨ g.blocked t sig = true

def Telling : SenderPc → Prop
  | .listThreads s => s = sig
  | .testing s rest _ => s = sig ∧ g.AllDue sig rest ∧ g.Waiting sig rest
  | .notifying s t rest _ => s = sig ∧ g.AllDue sig (t :: rest) ∧ g.Waiting sig rest ∧ t ∈ g.live ∧
    g.blocked t sig = false
  | _ => False

def Target : Prop := g.Covered sig ∨ ∃ c, g.Telling sig (g.senders c)

structure Kept : Prop where
  live : ∀ t ∈ g'.live, t ∈ g.live
  unblocked : ∀ t ∈ g.live, g.blocked t sig = false →
    t ∈ g'.live ∧ g'.blocked t sig = false ∧ (g.due t sig = true → g'.due t sig = true)
  blocked : ∀ t, g.blocked t sig = true →
    g'.blocked t sig = true ∨ t ∈ g'.live ∧ g'.due t sig = true

variable {g g' sig}

namespace Kept

theorem covered (hk : Kept g g' sig) (h : g.Covered sig) : g'.Covered sig := by
  rcases h with ⟨t, ht, hblocked, hdue⟩ | hall
  · obtain ⟨ht', hblocked', hdue'⟩ := hk.unblocked t ht hblocked
    exact .inl ⟨t, ht', hblocked', hdue' hdue⟩
  · by_cases hall' : ∀ t ∈ g'.live, g'.blocked t sig = true
    · exact .inr hall'
    · obtain ⟨t, ht, hblocked⟩ : ∃ t ∈ g'.live, g'.blocked t sig = false := by
        simpa only [not_forall, not_eq_true, exists_prop] using hall'
      rcases hk.blocked t (hall t (hk.live t ht)) with hstill | ⟨-, hdue⟩
      · rw [hstill] at hblocked
        cases hblocked
      · exact .inl ⟨t, ht, hblocked, hdue⟩

variable {rest : List Nat}

section
variable (hk : Kept g g' sig)
include hk

theorem allDue (h : g.AllDue sig rest) : g'.AllDue sig rest := by
  intro t ht hrest hblocked
  cases hold : g.blocked t sig with
  | true =>
    rcases hk.blocked t hold with hstill | ⟨-, hdue⟩
    · rw [hstill] at hblocked
      cases hblocked
    · exact hdue
  | false =>
    have hlive := hk.live t ht
    exact (hk.unblocked t hlive hold).2.2 (h t hlive hrest hold)

theorem waiting (h : g.Waiting sig rest) : g'.Waiting sig rest := by
  intro t ht
  cases hold : g.blocked t sig with
  | true => exact (hk.blocked t hold).symm.imp_left And.left
  | false =>
    rcases h t ht with hlive | hblocked
    · exact .inl (hk.unblocked t hlive hold).1
    · rw [hold] at hblocked
      cases hblocked

theorem telling {pc : SenderPc} (h : g.Telling sig pc) : g'.Telling sig pc := by
  cases pc with
  | listThreads => exact h
  | testing =>
    obtain ⟨hsig, hdue, hwaiting⟩ := h
    exact ⟨hsig, hk.allDue hdue, hk.waiting hwaiting⟩
  | notifying =>
    obtain ⟨hsig, hdue, hwaiting, hlive, hblocked⟩ := h
    obtain ⟨hlive', hblocked', -⟩ := hk.unblocked _ hlive hblocked
    exact ⟨hsig, hk.allDue hdue, hk.waiting hwaiting, hlive', hblocked'⟩
  | idle | put | waiters => exact h

theorem target (hsenders : g'.senders = g.senders) (h : g.Target sig) : g'.Target sig := by
  rcases h with h | ⟨c, h⟩
  · exact .inl (hk.covered h)
  · refine .inr ⟨c, ?_⟩
    rw [hsenders]
    exact hk.telling h

end

theorem of_due (hlive : g'.live = g.live) (hblocked : g'.blocked = g.blocked)
    (hdue : ∀ t, g.due t sig = true → g'.due t sig = true) : Kept g g' sig := by
  refine ⟨fun t ht => hlive ▸ ht, fun t ht hold => ⟨hlive ▸ ht, ?_, hdue t⟩, fun t hold => .inl ?_⟩
  · rw [hblocked]
    exact hold
  · rw [hblocked]
    exact hold

end Kept

theorem telling_setSender (c : Nat) (pc pc' : SenderPc) :
    (g.setSender c pc).Telling sig pc' ↔ g.Telling sig pc' := by
  cases pc' <;> exact Iff.rfl

variable {c s t : Nat} {mask : Nat → Bool}

theorem Target.setSender (h : g.Target sig) {pc : SenderPc}
    (hpc : g.Telling sig (g.senders c) → g.Covered sig ∨ g.Telling sig pc) :
    (g.setSender c pc).Target sig := by
  have hnew (hmove : g.Covered sig ∨ g.Telling sig pc) : (g.setSender c pc).Target sig := by
    refine hmove.imp_right fun htelling => ⟨c, ?_⟩
    have hself : (g.setSender c pc).senders c = pc := update_self ..
    rw [hself, telling_setSender]
    exact htelling
  rcases h with h | ⟨c', h⟩
  · exact .inl h
  · by_cases hc : c' = c
    · subst hc
      exact hnew (hpc h)
    · refine .inr ⟨c', ?_⟩
      have hother : (g.setSender c pc).senders c' = g.senders c' := update_of_ne hc ..
      rw [hother, telling_setSender]
      exact h

theorem mem_signals {sig : Nat} : sig ∈ range' 1 NSIG ↔ 1 ≤ sig ∧ sig ≤ NSIG := by
  rw [mem_range'_1]
  omega

theorem deliverable_iff :
    g.deliverable sig = true ↔ g.pending sig = true ∧ g.ignored sig = false := by
  unfold deliverable
  rw [and_eq_true, not_eq_true']

theorem hasDeliverable_of (hsig : 1 ≤ sig ∧ sig ≤ NSIG) (h : g.deliverable sig = true)
    (hblocked : g.blocked t sig = false) : g.hasDeliverable t = true := by
  refine any_eq_true.mpr ⟨sig, mem_signals.mpr hsig, ?_⟩
  rw [h, hblocked]
  rfl

structure Inv (g : Group) : Prop where
  pending : ∀ sig, g.pending sig = true → 1 ≤ sig ∧ sig ≤ NSIG
  put : ∀ c sig threads, g.senders c = .put sig threads →
    (1 ≤ sig ∧ sig ≤ NSIG) ∧ (g.ignored sig = false → threads = none)
  target : ∀ sig, g.deliverable sig = true → g.Target sig
  awake : ∀ t sig, g.deliverable sig = true → g.blocked t sig = false → g.due t sig = true →
    g.asleep t = false

theorem inv_initial (h : Initial g) : g.Inv := by
  obtain ⟨hsenders, hpending⟩ := h
  have hnone (sig : Nat) : g.deliverable sig ≠ true := by
    rw [deliverable, hpending sig]
    exact false_ne_true
  refine ⟨fun sig h => ?_, fun c sig threads h => ?_, fun sig h => absurd h (hnone sig),
    fun t sig h => absurd h (hnone sig)⟩
  · rw [hpending] at h
    cases h
  · rw [hsenders] at h
    cases h

namespace Inv

theorem setSender (hi : g.Inv) {c : Nat} {pc : SenderPc}
    (hput : ∀ sig threads, pc = .put sig threads →
      (1 ≤ sig ∧ sig ≤ NSIG) ∧ (g.ignored sig = false → threads = none))
    (hpc : ∀ sig, g.deliverable sig = true → g.Telling sig (g.senders c) →
      g.Covered sig ∨ g.Telling sig pc) : (g.setSender c pc).Inv := by
  refine ⟨hi.pending, fun c' sig threads h => ?_,
    fun sig h => (hi.target sig h).setSender (hpc sig h), hi.awake⟩
  change update g.senders c pc c' = _ at h
  rw [update_apply] at h
  split at h
  · exact hput sig threads h
  · exact hi.put c' sig threads h

theorem interrupt (hi : g.Inv) (t : Nat) : (g.interrupt t).Inv := by
  refine ⟨hi.pending, hi.put, fun sig h => ?_, fun t' sig h hblocked hdue => ?_⟩
  · have hkept : Kept g (g.interrupt t) sig := by
      refine .of_due rfl rfl fun t' hdue => ?_
      change update g.due t (fun _ => true) t' sig = true
      rw [update_apply]
      split
      · rfl
      · exact hdue
    exact hkept.target rfl (hi.target sig h)
  · change update g.asleep t false t' = false
    rw [update_apply]
    split
    · rfl
    · rename_i hne
      change update g.due t (fun _ => true) t' sig = true at hdue
      rw [update_of_ne hne] at hdue
      exact hi.awake t' sig h hblocked hdue

theorem notify (hi : g.Inv) (t : Nat) (other : Bool) : (g.notifySignalPending t other).1.Inv := by
  unfold notifySignalPending
  split
  · dsimp only
    split
    · exact hi.interrupt t
    · exact hi
  · exact hi

end Inv

theorem notify_same (t : Nat) (other : Bool) :
    (g.notifySignalPending t other).1.senders = g.senders ∧
      (g.notifySignalPending t other).1.live = g.live ∧
      (g.notifySignalPending t other).1.blocked = g.blocked ∧
      (g.notifySignalPending t other).1.deliverable = g.deliverable := by
  unfold notifySignalPending
  split
  · dsimp only
    split <;> exact ⟨rfl, rfl, rfl, rfl⟩
  · exact ⟨rfl, rfl, rfl, rfl⟩

/-- **A thread that does not block the signal is told of it.** -/
theorem notify_tells (hi : g.Inv) (h : g.deliverable sig = true) (ht : t ∈ g.live)
    (hblocked : g.blocked t sig = false) (other : Bool) :
    (g.notifySignalPending t other).1.Covered sig := by
  have hsig := hi.pending sig (deliverable_iff.mp h).1
  unfold notifySignalPending
  rw [if_pos (by rw [hasDeliverable_of hsig h hblocked, Bool.or_true]), if_pos ht]
  refine .inl ⟨t, ht, hblocked, ?_⟩
  change update g.due t (fun _ => true) t sig = true
  rw [update_self]

theorem testing_nil_covered {threads : List Nat} (h : g.Telling sig (.testing sig [] threads)) :
    g.Covered sig := by
  obtain ⟨-, hdue, -⟩ := h
  by_cases hall : ∀ t ∈ g.live, g.blocked t sig = true
  · exact .inr hall
  · obtain ⟨t, ht, hblocked⟩ : ∃ t ∈ g.live, g.blocked t sig = false := by
      simpa only [not_forall, not_eq_true, exists_prop] using hall
    exact .inl ⟨t, ht, hblocked, hdue t ht not_mem_nil hblocked⟩

/-- The next thread of the list blocks the signal, or it is the one to notify. -/
theorem testing_cons {rest threads : List Nat}
    (h : g.Telling sig (.testing s (t :: rest) threads)) :
    g.Telling sig (if g.blocked t s then .testing s rest threads
      else .notifying s t rest threads) := by
  obtain ⟨rfl, hdue, hwaiting⟩ := h
  have hrest : g.Waiting s rest := fun t' ht' => hwaiting t' (mem_cons_of_mem t ht')
  split
  · rename_i hblocked
    refine ⟨rfl, fun t' ht' hmem hfree => hdue t' ht' (fun hcons => ?_) hfree, hrest⟩
    rcases mem_cons.mp hcons with rfl | hcons
    · rw [hblocked] at hfree
      cases hfree
    · exact hmem hcons
  · rename_i hblocked
    rw [not_eq_true] at hblocked
    refine ⟨rfl, hdue, hrest, (hwaiting t mem_cons_self).resolve_right fun htrue => ?_, hblocked⟩
    rw [hblocked] at htrue
    cases htrue

theorem deliverable_enqueue (hne : sig ≠ s) :
    (g.enqueue s).deliverable sig = g.deliverable sig := by
  exact congrArg (· && !g.ignored sig) (update_of_ne hne ..)

theorem due_enqueue (hne : sig ≠ s) (t : Nat) : (g.enqueue s).due t sig = g.due t sig :=
  update_of_ne hne ..

theorem Inv.put_next (hi : g.Inv) {queued : Bool}
    (h : g.sendNext c (.put queued) = some g') : g'.Inv := by
  unfold sendNext at h
  dsimp only at h
  split at h
  · rename_i s threads hpc
    obtain ⟨hsig, hthreads⟩ := hi.put c s threads hpc
    split at h
    · cases h
      refine ⟨fun sig hsig' => ?_, fun c' sig threads' hpc' => ?_, fun sig hsig' => ?_,
        fun t sig hsig' hblocked hdue => ?_⟩
      · change update g.pending s true sig = true at hsig'
        rw [update_apply] at hsig'
        split at hsig'
        · rename_i heq
          rw [heq]
          exact hsig
        · exact hi.pending sig hsig'
      · change update g.senders c _ c' = _ at hpc'
        rw [update_apply] at hpc'
        split at hpc'
        · split at hpc' <;> cases hpc'
        · exact hi.put c' sig threads' hpc'
      · by_cases heq : sig = s
        · -- the sender is going to tell
          subst heq
          have hnone := hthreads (deliverable_iff.mp hsig').2
          subst hnone
          refine .inr ⟨c, ?_⟩
          have hself : ((g.enqueue sig).setSender c (.listThreads sig)).senders c =
              .listThreads sig := update_self ..
          rw [hself]
          rfl
        · change (g.enqueue s).deliverable sig = true at hsig'
          rw [deliverable_enqueue heq] at hsig'
          have hkept : Kept g (g.enqueue s) sig :=
            .of_due rfl rfl fun t hdue => (due_enqueue heq t).trans hdue
          refine (hkept.target rfl (hi.target sig hsig')).setSender fun htelling => ?_
          change (g.enqueue s).Telling sig (g.senders c) at htelling
          rw [hpc] at htelling
          exact htelling.elim
      · by_cases heq : sig = s
        · change update (g.due t) s false sig = true at hdue
          rw [heq, update_self] at hdue
          cases hdue
        · change (g.enqueue s).deliverable sig = true at hsig'
          rw [deliverable_enqueue heq] at hsig'
          exact hi.awake t sig hsig' hblocked ((due_enqueue heq t).symm.trans hdue)
    · cases h
      refine hi.setSender nofun fun sig _ htelling => ?_
      rw [hpc] at htelling
      exact htelling.elim
  · cases h

theorem Inv.advance_next (hi : g.Inv) {other waits : Bool}
    (h : g.sendNext c (.advance other waits) = some g') : g'.Inv := by
  unfold sendNext at h
  dsimp only at h
  split at h
  · rename_i s hpc
    cases h
    refine hi.setSender nofun fun sig _ htelling => .inr ?_
    rw [hpc] at htelling
    exact ⟨htelling, fun t ht hmem => absurd ht hmem, fun t ht => .inl ht⟩
  · rename_i s t rest threads hpc
    cases h
    refine hi.setSender (fun _ _ heq => ?_) fun sig _ htelling => .inr ?_
    · split at heq <;> cases heq
    · rw [hpc] at htelling
      exact testing_cons htelling
  · rename_i s threads hpc
    cases h
    refine hi.setSender nofun fun sig _ htelling => .inl ?_
    rw [hpc] at htelling
    obtain rfl := htelling.1
    exact testing_nil_covered htelling
  · rename_i s t rest threads hpc
    cases h
    refine (hi.notify t other).setSender (fun _ _ heq => ?_) fun sig hsig htelling => .inl ?_
    · split at heq <;> cases heq
    · obtain ⟨hsenders, hlive, hblocked, hdeliverable⟩ := notify_same (g := g) t other
      rw [hdeliverable] at hsig
      rw [hsenders, hpc] at htelling
      obtain ⟨-, -, -, ht, hfree⟩ := htelling
      rw [hlive] at ht
      rw [hblocked] at hfree
      exact notify_tells hi hsig ht hfree other
  · rename_i s t rest hpc
    cases h
    have hinv : (if waits then (g.notifySignalPending t other).1 else g).Inv := by
      split
      · exact hi.notify t other
      · exact hi
    refine hinv.setSender nofun fun sig _ htelling => ?_
    have hsenders : (if waits then (g.notifySignalPending t other).1 else g).senders =
        g.senders := by
      split
      · exact (notify_same t other).1
      · rfl
    rw [hsenders, hpc] at htelling
    exact htelling.elim
  · rename_i s hpc
    cases h
    refine hi.setSender nofun fun sig _ htelling => ?_
    rw [hpc] at htelling
    exact htelling.elim
  · cases h

/-! ## The threads -/

theorem Inv.of_covered (hi : g.Inv) (hpending : ∀ s, g'.pending s = true → g.pending s = true)
    (hsenders : g'.senders = g.senders) (hignored : g'.ignored = g.ignored)
    (htarget : ∀ s, g'.deliverable s = true → g.deliverable s = true → Kept g g' s ∨ g'.Covered s)
    (hawake : ∀ t s, g'.deliverable s = true → g.deliverable s = true → g'.blocked t s = false →
      g'.due t s = true → g'.asleep t = false) : g'.Inv := by
  have hold {s : Nat} (h : g'.deliverable s = true) : g.deliverable s = true := by
    obtain ⟨hp, hn⟩ := deliverable_iff.mp h
    rw [hignored] at hn
    exact deliverable_iff.mpr ⟨hpending s hp, hn⟩
  refine ⟨fun s h => hi.pending s (hpending s h), fun c s threads h => ?_, fun s h => ?_,
    fun t s h => hawake t s h (hold h)⟩
  · rw [hsenders] at h
    rw [hignored]
    exact hi.put c s threads h
  · rcases htarget s h (hold h) with hkept | hcovered
    · exact hkept.target hsenders (hi.target s (hold h))
    · exact .inl hcovered

/-- A step of the thread `t` leaves the others, and ends with `mask` and `due` for its own. -/
structure Own (g g' : Group) (t : Nat) (mask due : Nat → Bool) : Prop where
  senders : g'.senders = g.senders
  ignored : g'.ignored = g.ignored
  live : g'.live = g.live
  asleep : g'.asleep = g.asleep
  others : ∀ t', t' ≠ t → ∀ s, g'.blocked t' s = g.blocked t' s ∧ g'.due t' s = g.due t' s
  blocked : ∀ s, g'.blocked t s = mask s
  due : ∀ s, g'.due t s = due s

namespace Own

variable {t : Nat} {mask due : Nat → Bool}

theorem of_update (hsenders : g'.senders = g.senders) (hignored : g'.ignored = g.ignored)
    (hlive : g'.live = g.live) (hasleep : g'.asleep = g.asleep)
    (hblocked : g'.blocked = update g.blocked t mask)
    (hdue : g'.due = update g.due t due) : Own g g' t mask due := by
  refine ⟨hsenders, hignored, hlive, hasleep, fun t' hne s => ?_, fun s => ?_, fun s => ?_⟩
  · rw [hblocked, hdue, update_of_ne hne, update_of_ne hne]
    exact ⟨rfl, rfl⟩
  · rw [hblocked, update_self]
  · rw [hdue, update_self]

section
variable (ho : Own g g' t mask due)
include ho

/-- Where the thread blocks the signal in the end, the condition names another thread. -/
theorem covered (hmask : mask sig = true)
    (h : g.OthersBlock t sig ∨ g.OtherDue t sig) : g'.Covered sig := by
  rcases h with hothers | ⟨t', ht', hne, hblocked, hdue⟩
  · refine .inr fun t' ht' => ?_
    by_cases heq : t' = t
    · rw [heq, ho.blocked]
      exact hmask
    · rw [(ho.others t' heq sig).1]
      exact hothers t' (ho.live ▸ ht') heq
  · obtain ⟨hb, hd⟩ := ho.others t' hne sig
    exact .inl ⟨t', ho.live ▸ ht', hb.trans hblocked, hd.trans hdue⟩

theorem covered_other (h : g.OtherDue t sig) : g'.Covered sig := by
  obtain ⟨t', ht', hne, hblocked, hdue⟩ := h
  obtain ⟨hb, hd⟩ := ho.others t' hne sig
  exact .inl ⟨t', ho.live ▸ ht', hb.trans hblocked, hd.trans hdue⟩

theorem kept (ht : t ∈ g.live)
    (hfree : g.blocked t sig = false → mask sig = false ∧ (g.due t sig = true → due sig = true))
    (hblocked : g.blocked t sig = true → mask sig = true ∨ due sig = true) : Kept g g' sig := by
  refine ⟨fun t' ht' => ho.live ▸ ht', fun t' ht' hold => ?_, fun t' hold => ?_⟩
  · refine ⟨ho.live ▸ ht', ?_⟩
    by_cases heq : t' = t
    · rw [heq] at hold ⊢
      rw [ho.blocked, ho.due]
      exact hfree hold
    · obtain ⟨hb, hd⟩ := ho.others t' heq sig
      exact ⟨hb.trans hold, fun hdue => hd.trans hdue⟩
  · by_cases heq : t' = t
    · rw [heq] at hold ⊢
      rw [ho.blocked, ho.due, ho.live]
      exact (hblocked hold).imp_right fun hdue => ⟨ht, hdue⟩
    · exact .inl ((ho.others t' heq sig).1.trans hold)

theorem awake (hi : g.Inv) (ht : g.asleep t = false) {t' : Nat}
    (h : g.deliverable sig = true) (hblocked : g'.blocked t' sig = false)
    (hdue : g'.due t' sig = true) : g'.asleep t' = false := by
  rw [ho.asleep]
  by_cases heq : t' = t
  · rw [heq]
    exact ht
  · obtain ⟨hb, hd⟩ := ho.others t' heq sig
    exact hi.awake t' sig h (hb.symm.trans hblocked) (hd.symm.trans hdue)

end

end Own

theorem Inv.setBlockedMask (hi : g.Inv) (hk : g.KeepsTarget (.thread t (.setBlockedMask mask)))
    (h : g.threadNext t (.setBlockedMask mask) = some g') : g'.Inv := by
  obtain ⟨⟨ht, hawake⟩, heq⟩ := ite_none_right_eq_some.mp h
  have ho : Own g g' t (sanitizeMask mask) fun sig =>
      g.due t sig || (g.blocked t sig && !sanitizeMask mask sig) := by
    cases heq
    exact .of_update rfl rfl rfl rfl rfl rfl
  have hpending : g'.pending = g.pending := by
    cases heq
    rfl
  refine hi.of_covered (fun s h => hpending ▸ h) ho.senders ho.ignored (fun s _ hs => ?_)
    fun t' s _ hs => ho.awake hi hawake hs
  have hsig := mem_signals.mpr (hi.pending s (deliverable_iff.mp hs).1)
  cases hold : g.blocked t s with
  | false =>
    cases hmask : sanitizeMask mask s with
    | true => exact .inr (ho.covered hmask (hk s hsig hs hold hmask))
    | false =>
      refine .inl (ho.kept ht (fun _ => ⟨hmask, fun hdue => ?_⟩) fun htrue => ?_)
      · rw [hdue, Bool.true_or]
      · rw [hold] at htrue
        cases htrue
  | true =>
    refine .inl (ho.kept ht (fun hfalse => ?_) fun _ => ?_)
    · rw [hold] at hfalse
      cases hfalse
    · cases hmask : sanitizeMask mask s with
      | true => exact .inl rfl
      | false =>
        rw [hold]
        exact .inr (Bool.or_true _)

theorem Inv.check (hi : g.Inv) {taken : Option Nat} {left : Bool}
    (hk : g.KeepsTarget (.thread t (.check taken left mask)))
    (h : g.threadNext t (.check taken left mask) = some g') : g'.Inv := by
  obtain ⟨⟨ht, hawake, htaken⟩, heq⟩ := ite_none_right_eq_some.mp h
  have ho : Own g g' t (sanitizeMask mask) fun _ => false := by
    cases heq
    exact .of_update rfl rfl rfl rfl rfl rfl
  have hpending : g'.pending = g.remaining taken left := by
    cases heq
    rfl
  -- what is still pending was pending, and was not taken with its last record
  have hstill (s : Nat) (hs : g'.pending s = true) :
      g.pending s = true ∧ (taken ≠ some s ∨ left = true) := by
    rw [hpending] at hs
    cases taken with
    | none => exact ⟨hs, .inl nofun⟩
    | some sig =>
      change update g.pending sig left s = true at hs
      rw [update_apply] at hs
      split at hs
      · rename_i heq
        simp only [all_some, and_eq_true] at htaken
        rw [heq]
        exact ⟨(deliverable_iff.mp htaken.1.1).1, .inr hs⟩
      · rename_i hne
        exact ⟨hs, .inl fun heq => hne (some.inj heq).symm⟩
  refine hi.of_covered (fun s h => (hstill s h).1) ho.senders ho.ignored (fun s hs' hs => ?_)
    fun t' s _ hs => ho.awake hi hawake hs
  have hsig := mem_signals.mpr (hi.pending s (deliverable_iff.mp hs).1)
  rcases hk s hsig hs (hstill s (deliverable_iff.mp hs').1).2 with ⟨hmask, hold | hothers⟩ | hdue
  · refine .inl (ho.kept ht (fun hfalse => ?_) fun _ => .inl hmask)
    rw [hold] at hfalse
    cases hfalse
  · exact .inr (ho.covered hmask (.inl hothers))
  · exact .inr (ho.covered_other hdue)

theorem Inv.exit (hi : g.Inv) (hk : g.KeepsTarget (.thread t .exit))
    (h : g.threadNext t .exit = some g') : g'.Inv := by
  obtain ⟨-, heq⟩ := ite_none_right_eq_some.mp h
  cases heq
  have hlive {t' : Nat} : t' ∈ g.live.filter (· != t) ↔ t' ∈ g.live ∧ t' ≠ t := by
    rw [mem_filter, bne_iff_ne]
  refine hi.of_covered (fun _ h => h) rfl rfl (fun s _ hs => ?_) fun t' s _ => hi.awake t' s
  have hsig := mem_signals.mpr (hi.pending s (deliverable_iff.mp hs).1)
  cases hold : g.blocked t s with
  | true =>
    refine .inl ⟨fun t' ht' => (hlive.mp ht').1, fun t' ht' hfree => ⟨hlive.mpr ⟨ht', ?_⟩, hfree, id⟩,
      fun _ h => .inl h⟩
    rintro rfl
    rw [hold] at hfree
    cases hfree
  | false =>
    refine .inr ?_
    rcases hk s hsig hs hold with hothers | ⟨t', ht', hne, hfree, hdue⟩
    · exact .inr fun t' ht' => hothers t' (hlive.mp ht').1 (hlive.mp ht').2
    · exact .inl ⟨t', hlive.mpr ⟨ht', hne⟩, hfree, hdue⟩

theorem Inv.step (hi : g.Inv) {a : Action} (hk : g.KeepsTarget a) (h : g.next a = some g') :
    g'.Inv := by
  cases a with
  | send c move =>
    cases move with
    | begin s =>
      obtain ⟨⟨hidle, hlow, hhigh, -⟩, heq⟩ := ite_none_right_eq_some.mp h
      cases heq
      refine hi.setSender (fun sig threads heq => ?_) fun sig _ htelling => ?_
      · cases heq
        exact ⟨⟨hlow, hhigh⟩, fun hn => if_neg (eq_false_iff.mp hn)⟩
      · rw [hidle] at htelling
        exact htelling.elim
    | put queued => exact hi.put_next h
    | advance other waits => exact hi.advance_next h
  | thread t move =>
    cases move with
    | setBlockedMask mask => exact hi.setBlockedMask hk h
    | check taken left mask => exact hi.check hk h
    | sleep =>
      obtain ⟨⟨-, hnone⟩, heq⟩ := ite_none_right_eq_some.mp h
      cases heq
      refine hi.of_covered (fun _ h => h) rfl rfl (fun s _ _ => .inl (.of_due rfl rfl fun _ h => h))
        fun t' s _ hs hblocked hdue => ?_
      change update g.asleep t true t' = false
      rw [update_apply]
      split
      · rename_i heq
        subst heq
        have hsig := hi.pending s (deliverable_iff.mp hs).1
        rw [hasDeliverable_of hsig hs hblocked] at hnone
        cases hnone
      · exact hi.awake t' s hs hblocked hdue
    | wake =>
      cases h
      refine hi.of_covered (fun _ h => h) rfl rfl (fun s _ _ => .inl (.of_due rfl rfl fun _ h => h))
        fun t' s _ hs hblocked hdue => ?_
      change update g.asleep t false t' = false
      rw [update_apply]
      split
      · rfl
      · exact hi.awake t' s hs hblocked hdue
    | exit => exact hi.exit hk h
  | take s =>
    cases h
    refine hi.of_covered (fun sig h => ?_) rfl rfl
      (fun s _ _ => .inl (.of_due rfl rfl fun _ h => h)) fun t' s _ hs => hi.awake t' s hs
    change update g.pending s false sig = true at h
    rw [update_apply] at h
    split at h
    · cases h
    · exact h

/-- **Where no thread turns from a signal that only it was told of, a pending signal has a thread
on its way to it.** -/
theorem consumable_of_run (hr : Reachable Initial (Guarded KeepsTarget (Computed next)) g) :
    g.Consumable := by
  have hi : g.Inv := hr.invariant (fun _ => inv_initial) fun _ _ _ hi hs => hi.step hs.1 hs.2
  rintro sig hpending hignored hidle ⟨t, ht, hfree⟩
  have hsig := deliverable_iff.mpr ⟨hpending, hignored⟩
  rcases hi.target sig hsig with (⟨t', ht', hfree', hdue⟩ | hall) | ⟨c, htelling⟩
  · exact ⟨t', ht', hfree', hdue, hi.awake t' sig hsig hfree' hdue⟩
  · rw [hall t ht] at hfree
    cases hfree
  · rw [hidle c] at htelling
    exact htelling.elim

/-! ## Runs -/

/-- Two threads that block nothing, the second one asleep. -/
def pair : Group :=
  { senders := fun _ => .idle
    live := [0, 1]
    pending := fun _ => false
    ignored := fun _ => false
    blocked := fun _ _ => false
    asleep := fun t => t == 1
    due := fun _ _ => false }

theorem initial_pair : Initial pair := ⟨fun _ => rfl, fun _ => rfl⟩

/-- A send of the signal 10, which notifies the first thread. -/
def sendOne : List Action :=
  [.send 0 (.begin 10), .send 0 (.put true), .send 0 (.advance false false),
    .send 0 (.advance false false), .send 0 (.advance false false)]

/-- A signal is sent, and the first thread is on its way to it. -/
theorem consumable_after_send : ∃ g, Reachable Initial (Guarded KeepsTarget (Computed next)) g ∧
    (g.pending 10 = true ∧ g.due 0 10 = true) ∧ g.Consumable := by
  obtain ⟨g, hr, hg⟩ : ∃ g, Reachable Initial (Guarded KeepsTarget (Computed next)) g ∧
      (g.pending 10 && g.due 0 10) = true :=
    Reachable.guarded_execs initial_pair sendOne (by decide +kernel)
  rw [and_eq_true] at hg
  exact ⟨g, hr, hg, consumable_of_run hr⟩

/-- After the send the first thread blocks the signal. -/
def stranded : Group :=
  ((sendOne ++ [Action.thread 0 (.setBlockedMask fun sig => sig == 10)]).foldlM next pair).getD pair

/-- **The thread that was notified blocks the signal, and the other one sleeps on.** -/
theorem left_pending : Reachable Initial (Computed next) stranded ∧ ¬ stranded.Consumable ∧
    (1 ∈ stranded.live ∧ stranded.blocked 1 10 = false) ∧
    ∀ t ∈ stranded.live, stranded.blocked t 10 = false →
      stranded.asleep t = true ∧ stranded.due t 10 = false := by
  have hr : Reachable Initial (Computed next) stranded := by
    have hrun : (sendOne ++ [Action.thread 0 (.setBlockedMask fun sig => sig == 10)]).foldlM next pair =
        some stranded := rfl
    exact (Reachable.start initial_pair).foldlM hrun
  have hfree : 1 ∈ stranded.live ∧ stranded.blocked 1 10 = false := by decide +kernel
  have hasleep : ∀ t ∈ stranded.live, stranded.blocked t 10 = false →
      stranded.asleep t = true ∧ stranded.due t 10 = false := by decide +kernel
  refine ⟨hr, fun hc => ?_, hfree, hasleep⟩
  have hidle (c : Nat) : stranded.senders c = .idle := by
    cases c with
    | zero | succ c => rfl
  obtain ⟨t, ht, hblocked, hdue, -⟩ := hc 10 rfl rfl hidle ⟨1, hfree⟩
  rw [(hasleep t ht hblocked).2] at hdue
  cases hdue

end Group

end PulseOS.Signal.Notify
