import PulseOS.Bpf.Link

/-!
# The list of active perf events

`ACTIVE_PERF_EVENTS` against what is attached.  A link enters its event into the list and takes it
off again; `PERF_EVENT_IOC_SET_BPF` attaches and leaves the list alone.

* `Consistent` — an event is in the list, once, exactly while a program is attached, and the counts
  of tracepoints count such events.
* `run_consistent` — that is so in every run in which the ioctl attaches nothing.
-/

namespace PulseOS.Bpf

open Transition Function List

namespace Registry

variable {π : Type} [Program π] {r r' : Registry π}

/-- The list holds the events that have a program, and the counts count them. -/
structure Consistent (r : Registry π) : Prop where
  listed : ∀ e event, r.events e = some event → (e ∈ r.active ↔ event.attachedProg.isSome = true)
  sampled : ∀ e event, r.events e = some event → (e ∈ r.ticked ↔ event.attachedProg.isSome = true)
  once : ∀ e, r.active.count e ≤ 1
  counts : ∀ id, r.counts id = r.subscribers id

/-! ## The list of active events -/

/-- Events are in the list, once, while they have a program. -/
structure Listed (r : Registry π) : Prop where
  listed : ∀ e event, r.events e = some event → (e ∈ r.active ↔ event.attachedProg.isSome = true)
  once : r.active.Nodup
  known : ∀ e ∈ r.active, e < r.nextEvent
  size : r.activeCount = r.active.length

/-- A link that was not detached still has its program on its event, as the only one. -/
structure Held (r : Registry π) : Prop where
  fresh : ∀ l, r.nextLink ≤ l → r.links l = none
  held : ∀ l link, r.links l = some link → link.detached = false →
    ∃ event, r.events link.target = some event ∧ event.attachedProg = some link.prog
  single : ∀ l l' link link', r.links l = some link → r.links l' = some link' →
    link.detached = false → link'.detached = false → link.target = link'.target → l = l'

/-- One event changes, and the list with it. -/
theorem Listed.change (hl : Listed r) (e : Nat) (honce : r'.active.Nodup)
    (hknown : ∀ i ∈ r'.active, i < r'.nextEvent) (hsize : r'.activeCount = r'.active.length)
    (hothers : ∀ i, i ≠ e → r'.events i = r.events i)
    (hmem : ∀ i, i ≠ e → r.live i = true → (i ∈ r'.active ↔ i ∈ r.active))
    (hself : ∀ event, r'.events e = some event →
      (e ∈ r'.active ↔ event.attachedProg.isSome = true)) : Listed r' := by
  refine ⟨fun i event hevent => ?_, honce, hknown, hsize⟩
  by_cases hi : i = e
  · subst hi
    exact hself event hevent
  · rw [hothers i hi] at hevent
    rw [hmem i hi (by simp [live, hevent])]
    exact hl.listed i event hevent

/-- Dead events leave the list, and others that have no program. -/
theorem Listed.retain (hl : Listed r) (keep : Nat → Bool)
    (hkeep : ∀ e event, r.events e = some event → event.attachedProg.isSome = true →
      keep e = true) : Listed (r.setActive (r.active.filter keep)) := by
  refine ⟨fun e event hevent => ?_, hl.once.filter _,
    fun e he => hl.known e (mem_filter.mp he).1, rfl⟩
  change e ∈ r.active.filter keep ↔ _
  rw [mem_filter, hl.listed e event hevent]
  exact ⟨fun h => h.1, fun h => ⟨h, hkeep e event hevent h⟩⟩

theorem Listed.create (hl : Listed r) (spec : PerfEventSpec) (now : UInt64) :
    Listed (r.create spec now) := by
  refine hl.change r.nextEvent hl.once (fun i hi => Nat.lt_succ_of_lt (hl.known i hi)) hl.size
    (fun i hi => events_setEvent_of_ne r hi _) (fun i _ _ => Iff.rfl) fun event hevent => ?_
  have hnew : some (.new spec now) = some event := (events_setEvent r _ _).symm.trans hevent
  cases hnew
  have hout : r.nextEvent ∉ r.active := fun h => Nat.lt_irrefl _ (hl.known _ h)
  exact iff_of_false hout (by simp [PerfEvent.new])

theorem Listed.dropEvent (hl : Listed r) (e : Nat) (event : PerfEvent π) :
    Listed (r.dropEvent e event) := by
  have hdropped : Listed (r.setEvent e none) := by
    refine hl.change e hl.once hl.known hl.size (fun i hi => events_setEvent_of_ne r hi _)
      (fun i _ _ => Iff.rfl) fun event hevent => ?_
    rw [events_setEvent] at hevent
    cases hevent
  unfold Registry.dropEvent
  split
  · rw [unregisterProbeOf_eq]
    exact ⟨hdropped.listed, hdropped.once, hdropped.known, hdropped.size⟩
  · exact hdropped

variable {event : PerfEvent π} {prog : π} {e l target : Nat} {link : BpfLink π}

theorem Listed.newLink (hl : Listed r)
    (hevent : r.events target = some event) (hlt : target < r.nextEvent)
    (hnew : r.newLink prog target event = .ok r') : Listed r' := by
  obtain ⟨hidle, event', counts, probes, hattached, rfl⟩ := newLink_eq hnew
  have hout : target ∉ r.active := by
    rw [hl.listed target event hevent, hidle]
    simp
  have hmem : ∀ i, i ∈ r.active.filter (r.setEvent target (some event')).live ++ [target] ↔
      i ∈ r.active ∧ (r.setEvent target (some event')).live i = true ∨ i = target := by
    simp
  refine hl.change target ?_ ?_ rfl (fun i hi => events_setEvent_of_ne r hi _) ?_ ?_
  · exact List.Nodup.append (hl.once.filter _) (nodup_singleton _)
      (disjoint_singleton.mpr fun h => hout (mem_filter.mp h).1)
  · intro i hi
    rcases (hmem i).mp hi with h | rfl
    · exact hl.known i h.1
    · exact hlt
  · intro i hi hlive
    have hlive' : (r.setEvent target (some event')).live i = true := by
      rw [live, events_setEvent_of_ne r hi]
      exact hlive
    refine (hmem i).trans ?_
    simp [hi, hlive']
  · intro event'' hevent''
    have hset : some event' = some event'' := (events_setEvent r _ _).symm.trans hevent''
    cases hset
    exact iff_of_true ((hmem target).mpr (.inr rfl)) (by simp [hattached])

section
variable (hh : Held r)
include hh

theorem Held.of_links_eq (hlinks : r'.links = r.links) (hnext : r'.nextLink = r.nextLink)
    (hevents : ∀ l link, r.links l = some link → link.detached = false →
      r'.events link.target = r.events link.target) : Held r' := by
  refine ⟨fun l hl => ?_, fun l link hlink hdetached => ?_, fun l l' link link' hlink hlink' => ?_⟩
  · rw [hlinks]
    exact hh.fresh l (hnext ▸ hl)
  · rw [hlinks] at hlink
    rw [hevents l link hlink hdetached]
    exact hh.held l link hlink hdetached
  · rw [hlinks] at hlink hlink'
    exact hh.single l l' link link' hlink hlink'

theorem Held.attached (hlink : r.links l = some link) (hevent : r.events link.target = some event)
    (hdetached : link.detached = false) : event.attachedProg = some link.prog := by
  obtain ⟨event', hevent', hattached⟩ := hh.held l link hlink hdetached
  rw [hevent] at hevent'
  cases hevent'
  exact hattached

theorem Held.newLink
    (hevent : r.events target = some event) (hnew : r.newLink prog target event = .ok r') :
    Held r' := by
  obtain ⟨hidle, event', counts, probes, hattached, rfl⟩ := newLink_eq hnew
  -- links that are not detached have other targets: the event had no program
  have hother : ∀ l link, r.links l = some link → link.detached = false → link.target ≠ target := by
    intro l link hlink hdetached heq
    have hfound := hh.attached hlink (heq ▸ hevent) hdetached
    rw [hidle] at hfound
    cases hfound
  have hold : ∀ l link, update r.links r.nextLink (some ⟨prog, target, false⟩) l =
      some link → l = r.nextLink ∧ link = ⟨prog, target, false⟩ ∨ r.links l = some link := by
    intro l link hlink
    by_cases hl : l = r.nextLink
    · subst hl
      rw [update_self] at hlink
      cases hlink
      exact .inl ⟨rfl, rfl⟩
    · rw [update_of_ne hl] at hlink
      exact .inr hlink
  refine ⟨fun l hl => ?_, fun l link hlink hdetached => ?_,
    fun l l' link link' hlink hlink' hdetached hdetached' htarget => ?_⟩
  · change r.nextLink + 1 ≤ l at hl
    change update r.links r.nextLink _ l = none
    rw [update_of_ne (by omega)]
    exact hh.fresh l (by omega)
  · change ∃ event, (r.setEvent target (some event')).events link.target = some event ∧ _
    rcases hold l link hlink with ⟨-, rfl⟩ | hlink
    · exact ⟨event', events_setEvent .., hattached⟩
    · rw [events_setEvent_of_ne r (hother l link hlink hdetached)]
      exact hh.held l link hlink hdetached
  · rcases hold l link hlink with ⟨hl, rfl⟩ | hlink <;>
      rcases hold l' link' hlink' with ⟨hl', rfl⟩ | hlink'
    · exact hl.trans hl'.symm
    · exact absurd htarget.symm (hother l' link' hlink' hdetached')
    · exact absurd htarget (hother l link hlink hdetached)
    · exact hh.single l l' link link' hlink hlink' hdetached hdetached' htarget

/-- A link goes, or is marked as detached. -/
theorem Held.release {y : Option (BpfLink π)} (hl : l < r.nextLink)
    (hlinks : r'.links = update r.links l y)
    (hy : ∀ link, y = some link → link.detached = true) (hnext : r'.nextLink = r.nextLink)
    (hevents : ∀ l' link, l' ≠ l → r.links l' = some link → link.detached = false →
      r'.events link.target = r.events link.target) : Held r' := by
  have hold : ∀ l' link, r'.links l' = some link → link.detached = false →
      l' ≠ l ∧ r.links l' = some link := by
    intro l' link hlink hdetached
    rw [hlinks] at hlink
    by_cases heq : l' = l
    · subst heq
      rw [update_self] at hlink
      rw [hy link hlink] at hdetached
      cases hdetached
    · rw [update_of_ne heq] at hlink
      exact ⟨heq, hlink⟩
  refine ⟨fun l' hl' => ?_, fun l' link hlink hdetached => ?_,
    fun l₁ l₂ link₁ link₂ hlink₁ hlink₂ hdetached₁ hdetached₂ => ?_⟩
  · rw [hlinks, update_of_ne (by omega)]
    exact hh.fresh l' (by omega)
  · obtain ⟨hne, hlink⟩ := hold l' link hlink hdetached
    rw [hevents l' link hne hlink hdetached]
    exact hh.held l' link hlink hdetached
  · exact hh.single l₁ l₂ link₁ link₂ (hold l₁ link₁ hlink₁ hdetached₁).2
      (hold l₂ link₂ hlink₂ hdetached₂).2 hdetached₁ hdetached₂

theorem Held.lt (hlink : r.links l = some link) : l < r.nextLink := by
  by_contra hge
  rw [hh.fresh l (Nat.not_lt.mp hge)] at hlink
  cases hlink

end

/-! ## The condition and the invariant -/

/-- No program is attached by the ioctl, and the calls that enter and remove events agree with what
is attached. -/
def Fitting (r : Registry π) : LinkOp π → Prop
  | .setBpf e prog => ∀ event, r.events e = some event → event.attachedProg.isSome = true ∨
        event.spec.clock.accepts (Program.progType prog) = false
  | .register e => e ∉ r.active ∧ ∀ event, r.events e = some event →
      event.attachedProg.isSome = true
  | .unregister e => ∀ event, r.events e = some event → event.attachedProg = none
  | _ => True

structure Inv (r : Registry π) : Prop where
  counted : r.Counted
  listed : r.Listed
  held : r.Held

/-- The ioctl fails where it is to. -/
theorem Fitting.attach_fails (hok : Fitting r (.setBpf e prog)) (hevent : r.events e = some event) :
    r.attachProgram e event prog ≠ .ok r' := by
  intro hattach
  obtain ⟨hidle, haccepts, -⟩ := attachProgram_ok hattach
  rcases hok event hevent with h | h
  · rw [hidle] at h
    cases h
  · rw [haccepts] at h
    cases h

theorem Listed.unregister (hl : Listed r) (hok : Fitting r (.unregister e)) :
    Listed (r.unregisterActivePerfEvent e) := by
  refine hl.retain _ fun i event hevent hattached => ?_
  have hne : i ≠ e := by
    rintro rfl
    rw [hok event hevent] at hattached
    cases hattached
  simp [live, hevent, hne]

theorem Listed.tick (hl : Listed r) : Listed r.perfEventTick := by
  unfold perfEventTick
  split
  · exact hl
  · exact hl.retain _ fun i event hevent _ => by simp [live, hevent]

theorem Inv.new : Inv (Registry.new : Registry π) := by
  refine ⟨.new, ⟨?_, ?_, ?_, rfl⟩, ⟨fun _ _ => rfl, ?_, ?_⟩⟩
  all_goals intros
  all_goals simp_all [Registry.new]

theorem Inv.consistent (hi : Inv r) : Consistent r := by
  refine ⟨hi.listed.listed, fun e event hevent => ?_,
    fun e => nodup_iff_count_le_one.mp hi.listed.once e, hi.counted.counts⟩
  rw [← hi.listed.listed e event hevent, ticked, hi.listed.size]
  split
  · rename_i hempty
    rw [length_eq_zero_iff.mp hempty]
  · rw [mem_filter]
    simp [live, hevent]

/-! ## Runs -/

section Runs

variable [DecidableEq π] {l : Nat} {link : BpfLink π} {event : PerfEvent π}

theorem detachLink_detached (hdetached : link.detached = true) :
    (r.detachLink l link event).1 = r := by
  unfold detachLink
  rw [if_pos hdetached]

theorem Listed.detachLink (hl : Listed r)
    (hattached : link.detached = false → event.attachedProg = some link.prog) :
    Listed (r.detachLink l link event).1 := by
  by_cases hdetached : link.detached = true
  · rw [detachLink_detached hdetached]
    exact hl
  · rw [Bool.not_eq_true] at hdetached
    obtain ⟨event', counts, probes, hidle, heq⟩ := detachLink_eq (r := r) (l := l) hdetached
      (hattached hdetached)
    rw [heq]
    refine hl.change link.target (hl.once.filter _)
      (fun i hi => hl.known i (mem_filter.mp hi).1) rfl
      (fun i hi => events_setEvent_of_ne r hi _) (fun i hi hlive => ?_) fun event'' hevent'' => ?_
    · change i ∈ r.active.filter _ ↔ _
      simp [mem_filter, hlive, hi]
    · have hset : some event' = some event'' := (events_setEvent r _ _).symm.trans hevent''
      cases hset
      change link.target ∈ r.active.filter _ ↔ _
      simp [mem_filter, hidle]

section
variable (hh : Held r) (hlink : r.links l = some link) (hevent : r.events link.target = some event)
include hh hlink hevent

/-- Detaching ends what the link held, and leaves the targets of other links alone. -/
theorem Held.detachLink : Held (r.detachLink l link event).1 := by
  by_cases hdetached : link.detached = true
  · rw [detachLink_detached hdetached]
    exact hh
  · rw [Bool.not_eq_true] at hdetached
    obtain ⟨event', counts, probes, hidle, heq⟩ := detachLink_eq (r := r) (l := l) hdetached
      (hh.attached hlink hevent hdetached)
    rw [heq]
    refine hh.release (hh.lt hlink) rfl (fun link' hlink' => by cases hlink'; rfl) rfl
      fun l' link' hne hlink' hdetached' => ?_
    refine events_setEvent_of_ne r (fun htarget => hne ?_) _
    exact hh.single l' l link' link hlink' hlink hdetached' hdetached htarget

theorem Held.dropLink : Held (r.dropLink l link event) := by
  have hdetach := hh.detachLink hlink hevent
  have hnext : (r.detachLink l link event).1.nextLink = r.nextLink := by
    by_cases hdetached : link.detached = true
    · rw [detachLink_detached hdetached]
    · rw [Bool.not_eq_true] at hdetached
      obtain ⟨event', counts, probes, -, heq⟩ := detachLink_eq (r := r) (l := l) hdetached
        (hh.attached hlink hevent hdetached)
      rw [heq]
      rfl
  exact hdetach.release (y := none) (by rw [hnext]; exact hh.lt hlink) rfl nofun rfl
    fun _ _ _ _ _ => rfl

end

theorem Inv.listed_step {op : LinkOp π} (hi : Inv r) (hok : Fitting r op)
    (hstep : LinkStep r op r') : Listed r' := by
  have hl := hi.listed
  cases hstep with
  | create spec now => exact hl.create spec now
  | dropEvent => exact hl.dropEvent ..
  | newLink hevent hnew => exact hl.newLink hevent (hi.counted.lt hevent) hnew
  | newLinkFails => exact hl
  | detachLink hlink hevent => exact hl.detachLink (hi.held.attached hlink hevent)
  | @dropLink l link event hlink hevent =>
    have hdetached := hl.detachLink (l := l) (hi.held.attached hlink hevent)
    exact ⟨hdetached.listed, hdetached.once, hdetached.known, hdetached.size⟩
  | setBpf hevent hattach => exact absurd hattach (hok.attach_fails hevent)
  | setBpfFails => exact hl
  | register he =>
    obtain ⟨event, hevent⟩ := Option.isSome_iff_exists.mp he
    exact absurd ((hl.listed _ event hevent).mpr (hok.2 event hevent)) hok.1
  | unregister => exact hl.unregister hok
  | tick => exact hl.tick

theorem Inv.held_step {op : LinkOp π} (hi : Inv r) (hok : Fitting r op)
    (hstep : LinkStep r op r') : Held r' := by
  have hh := hi.held
  cases hstep with
  | create spec now =>
    refine hh.of_links_eq rfl rfl fun l link hlink hdetached => ?_
    obtain ⟨event, hevent, -⟩ := hh.held l link hlink hdetached
    exact events_setEvent_of_ne r (hi.counted.lt hevent).ne _
  | @dropEvent e event hevent hlinks =>
    have hdropped : Held (r.setEvent e none) :=
      hh.of_links_eq rfl rfl fun l link hlink _ => events_setEvent_of_ne r (hlinks l link hlink) _
    unfold dropEvent
    split
    · rw [unregisterProbeOf_eq]
      exact ⟨hdropped.fresh, hdropped.held, hdropped.single⟩
    · exact hdropped
  | newLink hevent hnew => exact hh.newLink hevent hnew
  | newLinkFails => exact hh
  | detachLink hlink hevent => exact hh.detachLink hlink hevent
  | dropLink hlink hevent => exact hh.dropLink hlink hevent
  | setBpf hevent hattach => exact absurd hattach (hok.attach_fails hevent)
  | setBpfFails => exact hh
  | register | unregister => exact hh.of_links_eq rfl rfl fun _ _ _ _ => rfl
  | tick =>
    unfold perfEventTick
    split
    · exact hh
    · exact hh.of_links_eq rfl rfl fun _ _ _ _ => rfl

/-- **Attachments and registries agree in every run in which the ioctl attaches nothing and the list
is entered and left with a program only.** -/
theorem run_consistent {h : List (LinkOp π)}
    (hrun : Run (· = Registry.new) (Guarded Fitting LinkStep) h r) : Consistent r := by
  have hinv : Inv r := by
    refine hrun.invariant (fun s hs => ?_) fun s op s' hs hstep =>
      ⟨hs.counted.step hstep.2, hs.listed_step hstep.1 hstep.2, hs.held_step hstep.1 hstep.2⟩
    rw [hs]
    exact .new
  exact hinv.consistent

end Runs

def switchSpec : PerfEventSpec := ⟨.tracepoint .schedSwitch, .perCpu 0, 1, false⟩

theorem linked_run : ∃ r : Registry VerifiedProgram,
      Run (· = Registry.new) (Guarded Fitting LinkStep)
        [.newLink readLastVerified 0, .create switchSpec 0] r ∧
      r.active = [0] ∧ r.counts .schedSwitch = 1 :=
  ⟨_, .step (.step (.init rfl) ⟨trivial, .create switchSpec 0⟩) ⟨trivial, .newLink rfl rfl⟩,
    rfl, rfl⟩

/-- An event is opened and a link made to it. -/
theorem linked_consistent : ∃ r : Registry VerifiedProgram,
      Run (· = Registry.new) (Guarded Fitting LinkStep)
        [.newLink readLastVerified 0, .create switchSpec 0] r ∧
      r.active = [0] ∧ r.counts .schedSwitch = 1 ∧ r.Consistent := by
  obtain ⟨r, hrun, hactive, hcounts⟩ := linked_run
  exact ⟨r, hrun, hactive, hcounts, run_consistent hrun⟩

def clockSpec : PerfEventSpec := ⟨.cpuClock, .perCpu 0, 1, false⟩

/-- `return 0`. -/
def returnZero : VerifiedProgram :=
  ⟨.perfEvent, [BpfInsn.new 0xb7 0 0 0 0, BpfInsn.new 0x95 0 0 0 0], []⟩

/-- A program attached by the ioctl: the event is not in the list, and no tick samples it. -/
theorem setBpf_not_listed : Accepted returnZero.insns returnZero ∧
    ∃ (r : Registry VerifiedProgram) (event : PerfEvent VerifiedProgram),
      Run (· = Registry.new) LinkStep [.setBpf 0 returnZero, .create clockSpec 0] r ∧
      r.events 0 = some event ∧ event.attachedProg = some returnZero ∧
      r.ticked = [] ∧ ¬ r.Consistent := by
  refine ⟨⟨true, .perfEvent, 0, none, {}, by decide +kernel⟩, _, _,
    .step (.step (.init rfl) (.create clockSpec 0)) (.setBpf rfl rfl), rfl, rfl, rfl, fun hc => ?_⟩
  have hlisted : 0 ∈ ([] : List Nat) := (hc.listed 0 _ rfl).mpr rfl
  cases hlisted

end Registry

end PulseOS.Bpf
