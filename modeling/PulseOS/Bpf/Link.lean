import PulseOS.Bpf.PerfEvent
import PulseOS.Lib.Threads
import PulseOS.Lib.Transition

/-!
# Links and the registries of perf events

A program is attached to a perf event by a link (`BpfLink::new`) or by `PERF_EVENT_IOC_SET_BPF`.
Three registries follow: the program in the event itself, `ACTIVE_PERF_EVENTS` with the events that
ticks sample, and for tracepoints the subscriber counts with the probes they switch.

* `Registry` — live events and links, by their addresses, with the registries; `LinkOp` — the
  operations.
* `run_counted` — in every run the counts are the numbers of attached tracepoint events, and a probe
  is on exactly while its count is not zero.
-/

namespace PulseOS.Bpf

open Transition Finset

structure BpfLink (π : Type) where
  prog : π
  target : Nat
  detached : Bool

/-- `ACTIVE_PERF_EVENTS` holds weak references: an address without a live event does not upgrade.
Fewer than `2 ^ 64` events live, so that a count is an integer. -/
structure Registry (π : Type) [Program π] where
  events : Nat → Option (PerfEvent π)
  active : List Nat
  activeCount : Nat
  counts : TracepointId → Int
  probes : TracepointId → Bool
  links : Nat → Option (BpfLink π)
  nextEvent : Nat
  nextLink : Nat

namespace Registry

variable {π : Type} [Program π]

def new : Registry π where
  events := fun _ => none
  active := []
  activeCount := 0
  counts := fun _ => 0
  probes := fun _ => false
  links := fun _ => none
  nextEvent := 0
  nextLink := 0

variable (r : Registry π) (e : Nat)

def live : Bool := (r.events e).isSome

/-! ## The registries -/

def setActive (active : List Nat) : Registry π :=
  { r with active, activeCount := active.length }

def registerActivePerfEvent : Registry π :=
  r.setActive (r.active.filter r.live ++ [e])

def unregisterActivePerfEvent : Registry π :=
  r.setActive (r.active.filter fun w => r.live w && w != e)

/-- The events that `perf_event_tick` samples where they are of its scope. -/
def ticked : List Nat :=
  if r.activeCount = 0 then [] else r.active.filter r.live

/-- `perf_event_tick`; the samples it takes leave the registries alone. -/
def perfEventTick : Registry π :=
  if r.activeCount = 0 then r else r.setActive (r.active.filter r.live)

def registerTracepointProbe (id : TracepointId) : Registry π :=
  { r with
    counts := Function.update r.counts id (r.counts id + 1)
    probes := if r.counts id = 0 then Function.update r.probes id true else r.probes }

def unregisterTracepointProbe (id : TracepointId) : Registry π :=
  { r with
    counts := Function.update r.counts id (r.counts id - 1)
    probes := if r.counts id = 1 then Function.update r.probes id false else r.probes }

/-- `register_tracepoint_probe` where the event's clock is a tracepoint. -/
def registerProbeOf : PerfEventClock → Registry π
  | .tracepoint id => r.registerTracepointProbe id
  | _ => r

def unregisterProbeOf : PerfEventClock → Registry π
  | .tracepoint id => r.unregisterTracepointProbe id
  | _ => r

/-! ## Operations -/

def setEvent (event : Option (PerfEvent π)) : Registry π :=
  { r with events := Function.update r.events e event }

/-- `attach_program` of the live event at `e`. -/
def attachProgram (event : PerfEvent π) (prog : π) : Except LinuxError (Registry π) := do
  let event' ← event.attachProgram prog
  .ok ((r.setEvent e (some event')).registerProbeOf event.spec.clock)

def create (spec : PerfEventSpec) (now : UInt64) : Registry π :=
  { r.setEvent r.nextEvent (some (.new spec now)) with nextEvent := r.nextEvent + 1 }

/-- `Drop` of a perf event. -/
def dropEvent (event : PerfEvent π) : Registry π :=
  let r := r.setEvent e none
  if event.attachedProg.isSome then r.unregisterProbeOf event.spec.clock else r

/-- `BpfLink::new`. -/
def newLink (prog : π) (target : Nat) (event : PerfEvent π) : Except LinuxError (Registry π) := do
  let r ← r.attachProgram target event prog
  let r := r.registerActivePerfEvent target
  .ok { r with
    links := Function.update r.links r.nextLink (some ⟨prog, target, false⟩)
    nextLink := r.nextLink + 1 }

variable [DecidableEq π] (l : Nat) (link : BpfLink π) (event : PerfEvent π)

/-- `detach_program` of the live event at `e`. -/
def detachProgram (e : Nat) (event : PerfEvent π) (prog : π) : Except LinuxError (Registry π) := do
  let event' ← event.detachProgram prog
  .ok ((r.setEvent e (some event')).unregisterProbeOf event.spec.clock)

/-- `BpfLink::detach`, with the registries as it leaves them. -/
def detachLink : Registry π × Except LinuxError Unit :=
  if link.detached then (r, .error .EINVAL)
  else
    let r := { r with links := Function.update r.links l (some { link with detached := true }) }
    let r := r.unregisterActivePerfEvent link.target
    match r.detachProgram link.target event link.prog with
    | .ok r => (r, .ok ())
    | .error err => (r, .error err)

/-- `Drop` of a link. -/
def dropLink : Registry π :=
  let r := (r.detachLink l link event).1
  { r with links := Function.update r.links l none }

end Registry

inductive LinkOp (π : Type) where
  | create (spec : PerfEventSpec) (now : UInt64)
  | dropEvent (e : Nat)
  | newLink (prog : π) (target : Nat)
  | detachLink (l : Nat)
  | dropLink (l : Nat)
  /-- `PERF_EVENT_IOC_SET_BPF` -/
  | setBpf (e : Nat) (prog : π)
  | register (e : Nat)
  | unregister (e : Nat)
  | tick

variable {π : Type} [Program π]

/-- The steps: an event is dropped with its last reference, and a link holds one. -/
inductive LinkStep [DecidableEq π] : Registry π → LinkOp π → Registry π → Prop
  | create {r : Registry π} (spec : PerfEventSpec) (now : UInt64) :
      LinkStep r (.create spec now) (r.create spec now)
  | dropEvent {r : Registry π} {e : Nat} {event : PerfEvent π} (hevent : r.events e = some event)
      (hlinks : ∀ l link, r.links l = some link → link.target ≠ e) :
      LinkStep r (.dropEvent e) (r.dropEvent e event)
  | newLink {r r' : Registry π} {prog : π} {target : Nat} {event : PerfEvent π}
      (hevent : r.events target = some event) (hnew : r.newLink prog target event = .ok r') :
      LinkStep r (.newLink prog target) r'
  | newLinkFails {r : Registry π} {prog : π} {target : Nat} {event : PerfEvent π} {err : LinuxError}
      (hevent : r.events target = some event) (hnew : r.newLink prog target event = .error err) :
      LinkStep r (.newLink prog target) r
  | detachLink {r : Registry π} {l : Nat} {link : BpfLink π} {event : PerfEvent π}
      (hlink : r.links l = some link) (hevent : r.events link.target = some event) :
      LinkStep r (.detachLink l) (r.detachLink l link event).1
  | dropLink {r : Registry π} {l : Nat} {link : BpfLink π} {event : PerfEvent π}
      (hlink : r.links l = some link) (hevent : r.events link.target = some event) :
      LinkStep r (.dropLink l) (r.dropLink l link event)
  | setBpf {r r' : Registry π} {e : Nat} {prog : π} {event : PerfEvent π}
      (hevent : r.events e = some event) (hattach : r.attachProgram e event prog = .ok r') :
      LinkStep r (.setBpf e prog) r'
  | setBpfFails {r : Registry π} {e : Nat} {prog : π} {event : PerfEvent π} {err : LinuxError}
      (hevent : r.events e = some event) (hattach : r.attachProgram e event prog = .error err) :
      LinkStep r (.setBpf e prog) r
  | register {r : Registry π} {e : Nat} (he : r.live e = true) :
      LinkStep r (.register e) (r.registerActivePerfEvent e)
  | unregister {r : Registry π} {e : Nat} (he : r.live e = true) :
      LinkStep r (.unregister e) (r.unregisterActivePerfEvent e)
  | tick {r : Registry π} : LinkStep r .tick r.perfEventTick

theorem PerfEvent.detachProgram_attached [DecidableEq π] {event : PerfEvent π} {prog : π}
    (h : event.attachedProg = some prog) :
    ∃ event' : PerfEvent π, event'.attachedProg = none ∧ event.detachProgram prog = .ok event' := by
  unfold PerfEvent.detachProgram
  rw [if_pos h]
  exact ⟨_, by rfl, rfl⟩

namespace Registry

variable (r : Registry π) {r' : Registry π}

/-- Whether an event is counted for a tracepoint. -/
def subscribed (id : TracepointId) (x : Option (PerfEvent π)) : Bool :=
  x.any fun event => event.spec.clock == .tracepoint id && event.attachedProg.isSome

/-- The number of live events on the tracepoint that have a program. -/
def subscribers (id : TracepointId) : Nat :=
  ((range r.nextEvent).filter fun e => subscribed id (r.events e) = true).card

/-! ## Counting the subscribers -/

/-- The probes that are on are those with a count. -/
def ProbesFollow : Prop := ∀ id, r.probes id = true ↔ r.counts id ≠ 0

structure Counted : Prop where
  fresh : ∀ e, r.nextEvent ≤ e → r.events e = none
  counts : ∀ id, r.counts id = r.subscribers id
  probes : r.ProbesFollow

variable {r} {event : PerfEvent π} {e : Nat}

theorem Counted.lt (hc : Counted r) (h : r.events e = some event) : e < r.nextEvent := by
  by_contra hge
  rw [hc.fresh e (Nat.not_lt.mp hge)] at h
  cases h

/-- Steps that touch neither events nor counts. -/
theorem Counted.of_eq (hc : Counted r) (hevents : r'.events = r.events)
    (hcounts : r'.counts = r.counts) (hprobes : r'.probes = r.probes)
    (hnext : r'.nextEvent = r.nextEvent) : Counted r' := by
  refine ⟨fun e he => ?_, fun id => ?_, fun id => ?_⟩
  · rw [hevents]
    exact hc.fresh e (hnext ▸ he)
  · rw [hcounts, hc.counts, subscribers, subscribers, hnext, hevents]
  · rw [hcounts, hprobes]
    exact hc.probes id

variable (r)

@[simp]
theorem events_setEvent (e : Nat) (x : Option (PerfEvent π)) : (r.setEvent e x).events e = x :=
  Function.update_self ..

theorem events_setEvent_of_ne {e i : Nat} (h : i ≠ e)
    (x : Option (PerfEvent π)) : (r.setEvent e x).events i = r.events i :=
  Function.update_of_ne h ..

theorem subscribers_setEvent (he : e < r.nextEvent) (x : Option (PerfEvent π)) (id : TracepointId) :
    (r.setEvent e x).subscribers id + (if subscribed id (r.events e) then 1 else 0) =
      r.subscribers id + if subscribed id x then 1 else 0 :=
  Threads.card_filter_update (mem_range.mpr he) (subscribed id) r.events x

variable (clock : PerfEventClock)

theorem registerProbeOf_eq : r.registerProbeOf clock =
      { r with counts := (r.registerProbeOf clock).counts
               probes := (r.registerProbeOf clock).probes } := by
  cases clock <;> rfl

theorem unregisterProbeOf_eq : r.unregisterProbeOf clock =
      { r with counts := (r.unregisterProbeOf clock).counts
               probes := (r.unregisterProbeOf clock).probes } := by
  cases clock <;> rfl

theorem exists_registerProbeOf :
    ∃ counts probes, r.registerProbeOf clock = { r with counts, probes } :=
  ⟨_, _, registerProbeOf_eq r clock⟩

theorem exists_unregisterProbeOf :
    ∃ counts probes, r.unregisterProbeOf clock = { r with counts, probes } :=
  ⟨_, _, unregisterProbeOf_eq r clock⟩

theorem counts_registerProbeOf (id : TracepointId) : (r.registerProbeOf clock).counts id =
      r.counts id + if clock = .tracepoint id then 1 else 0 := by
  unfold registerProbeOf registerTracepointProbe
  cases clock with
  | tracepoint id' =>
    by_cases h : id = id'
    · subst h
      simp
    · simp [h, Ne.symm h]
  | _ => simp

theorem counts_unregisterProbeOf (id : TracepointId) : (r.unregisterProbeOf clock).counts id =
      r.counts id - if clock = .tracepoint id then 1 else 0 := by
  unfold unregisterProbeOf unregisterTracepointProbe
  cases clock with
  | tracepoint id' =>
    by_cases h : id = id'
    · subst h
      simp
    · simp [h, Ne.symm h]
  | _ => simp

variable {r}

/-- One count changes; its probe is switched, or need not be. -/
theorem ProbesFollow.update (h : r.ProbesFollow) (id : TracepointId) {c : Int} {on : Bool}
    {switches : Prop} [Decidable switches] (hswitch : switches → (on = true ↔ c ≠ 0))
    (hkeep : ¬ switches → (r.counts id ≠ 0 ↔ c ≠ 0)) :
    ProbesFollow { r with
      counts := Function.update r.counts id c
      probes := if switches then Function.update r.probes id on else r.probes } := by
  intro id'
  dsimp only
  by_cases hid : id' = id
  · subst hid
    rw [Function.update_self]
    split
    · rename_i hsw
      rw [Function.update_self]
      exact hswitch hsw
    · rename_i hsw
      exact (h id').trans (hkeep hsw)
  · rw [Function.update_of_ne hid, ← h id']
    split
    · rw [Function.update_of_ne hid]
    · rfl

theorem ProbesFollow.registerProbeOf (h : r.ProbesFollow) (hcounts : ∀ id, 0 ≤ r.counts id)
    (clock : PerfEventClock) : (r.registerProbeOf clock).ProbesFollow := by
  cases clock with
  | tracepoint id =>
    have hcount := hcounts id
    exact h.update id (fun _ => by simp; omega) fun _ => by omega
  | _ => exact h

theorem ProbesFollow.unregisterProbeOf (h : r.ProbesFollow) (clock : PerfEventClock)
    (hcounts : ∀ id, clock = .tracepoint id → r.counts id ≠ 0) :
    (r.unregisterProbeOf clock).ProbesFollow := by
  cases clock with
  | tracepoint id =>
    have hcount := hcounts id rfl
    exact h.update id (fun _ => by simp; omega) fun _ => by omega
  | _ => exact h

/-! ## What each step does to the counts -/

section

variable (hc : Counted r)

include hc

theorem Counted.nonneg (id : TracepointId) : 0 ≤ r.counts id := by
  rw [hc.counts]
  exact Int.natCast_nonneg _

theorem Counted.ne_zero {id : TracepointId}
    (hevent : r.events e = some event) (hclock : event.spec.clock = .tracepoint id)
    (hattached : event.attachedProg.isSome = true) : r.counts id ≠ 0 := by
  have hmem : e ∈ (range r.nextEvent).filter fun i => subscribed id (r.events i) = true := by
    rw [mem_filter, mem_range]
    exact ⟨hc.lt hevent, by simp [subscribed, hevent, hclock, hattached]⟩
  have hpos := card_pos.mpr ⟨e, hmem⟩
  rw [hc.counts, subscribers]
  omega

variable {x : Option (PerfEvent π)} {target : Nat}

/-- One event changes, and the counts with it. -/
theorem Counted.change {counts : TracepointId → Int} {probes : TracepointId → Bool}
    (hevent : r.events e = some event)
    (hcounts : ∀ id, counts id + (if subscribed id (r.events e) then 1 else 0) =
      r.counts id + if subscribed id x then 1 else 0)
    (hprobes : ∀ id, probes id = true ↔ counts id ≠ 0) :
    Counted { r.setEvent e x with counts, probes } := by
  have hlt := hc.lt hevent
  refine ⟨fun i hi => ?_, fun id => ?_, hprobes⟩
  · change (r.setEvent e x).events i = none
    rw [events_setEvent_of_ne r (by change r.nextEvent ≤ i at hi; omega)]
    exact hc.fresh i hi
  · change counts id = (r.setEvent e x).subscribers id
    have hsub := subscribers_setEvent r hlt x id
    have hcount := hcounts id
    rw [hc.counts id] at hcount
    split_ifs at hsub hcount <;> omega

/-- An event without a program gets one. -/
theorem Counted.attach {event event' : PerfEvent π}
    (hevent : r.events e = some event) (hidle : event.attachedProg = none)
    (hspec : event'.spec = event.spec) (hattached : event'.attachedProg.isSome = true) :
    Counted ((r.setEvent e (some event')).registerProbeOf event.spec.clock) := by
  have hprobes : (r.setEvent e (some event')).ProbesFollow := hc.probes
  rw [registerProbeOf_eq]
  refine hc.change hevent (fun id => ?_) (hprobes.registerProbeOf hc.nonneg event.spec.clock)
  rw [counts_registerProbeOf]
  simp [subscribed, hevent, hidle, hspec, hattached, setEvent]

section
variable (hevent : r.events e = some event)
include hevent

/-- An event loses its program, and perhaps its life. -/
theorem Counted.detach (hattached : event.attachedProg.isSome = true)
    (hx : ∀ id, subscribed id x = false) :
    Counted ((r.setEvent e x).unregisterProbeOf event.spec.clock) := by
  have hprobes : (r.setEvent e x).ProbesFollow := hc.probes
  rw [unregisterProbeOf_eq]
  refine hc.change hevent (fun id => ?_)
    (hprobes.unregisterProbeOf event.spec.clock fun id hclock =>
      hc.ne_zero hevent hclock hattached)
  rw [counts_unregisterProbeOf, hx, hevent]
  simp [subscribed, hattached, setEvent]

/-- An event without a program is dropped. -/
theorem Counted.dropIdle (hidle : event.attachedProg = none) : Counted (r.setEvent e none) := by
  refine hc.change hevent (fun id => ?_) hc.probes
  simp [subscribed, hevent, hidle]

theorem Counted.dropEvent : Counted (r.dropEvent e event) := by
  unfold Registry.dropEvent
  split
  · rename_i hattached
    exact hc.detach hevent hattached fun _ => rfl
  · rename_i hidle
    exact hc.dropIdle hevent (Option.not_isSome_iff_eq_none.mp hidle)

end

theorem Counted.create (spec : PerfEventSpec) (now : UInt64) : Counted (r.create spec now) := by
  have hothers : ∀ i, i ≠ r.nextEvent → (r.create spec now).events i = r.events i :=
    fun i hi => events_setEvent_of_ne r hi _
  refine ⟨fun i hi => ?_, fun id => ?_, hc.probes⟩
  · change r.nextEvent + 1 ≤ i at hi
    rw [hothers i (by omega)]
    exact hc.fresh i (by omega)
  · have hself : subscribed id ((r.create spec now).events r.nextEvent) = false := by
      unfold Registry.create
      rw [events_setEvent]
      simp [subscribed, PerfEvent.new]
    change r.counts id = _
    rw [hc.counts, subscribers, subscribers]
    change _ = ((((range (r.nextEvent + 1)).filter _).card : Nat) : Int)
    rw [range_add_one, filter_insert, if_neg (by simp [hself])]
    congr 2
    refine filter_congr fun i hi => ?_
    rw [hothers i (mem_range.mp hi).ne]

end

theorem Counted.new : Counted (Registry.new : Registry π) :=
  ⟨fun _ _ => rfl, fun _ => rfl, fun _ => by simp [Registry.new]⟩

/-! ## What attaching and detaching do -/

variable {prog : π}

theorem attachProgram_ok (h : r.attachProgram e event prog = .ok r') :
    event.attachedProg = none ∧ event.spec.clock.accepts (Program.progType prog) = true ∧
      ∃ event' : PerfEvent π, event'.spec = event.spec ∧ event'.attachedProg = some prog ∧
        r' = (r.setEvent e (some event')).registerProbeOf event.spec.clock := by
  unfold attachProgram PerfEvent.attachProgram at h
  split at h
  · cases h
  · rename_i hidle
    split at h
    · rename_i hfits
      cases h
      refine ⟨Option.not_isSome_iff_eq_none.mp hidle, hfits, _, ?_, ?_, rfl⟩
      · rfl
      · rfl
    · cases h

theorem newLink_ok (h : r.newLink prog target event = .ok r') :
    ∃ attached, r.attachProgram target event prog = .ok attached ∧
      r' = { attached.registerActivePerfEvent target with
        links := Function.update attached.links attached.nextLink (some ⟨prog, target, false⟩)
        nextLink := attached.nextLink + 1 } := by
  unfold newLink at h
  cases hattach : r.attachProgram target event prog with
  | error err =>
    rw [hattach] at h
    cases h
  | ok attached =>
    rw [hattach] at h
    cases h
    exact ⟨attached, rfl, rfl⟩

/-- A link puts its program on an event that had none. -/
theorem newLink_eq (h : r.newLink prog target event = .ok r') : event.attachedProg = none ∧
      ∃ (event' : PerfEvent π) (counts : TracepointId → Int) (probes : TracepointId → Bool),
        event'.attachedProg = some prog ∧
        r' = { (r.setEvent target (some event')).registerActivePerfEvent target with
          counts, probes
          links := Function.update r.links r.nextLink (some ⟨prog, target, false⟩)
          nextLink := r.nextLink + 1 } := by
  obtain ⟨attached, hattach, rfl⟩ := newLink_ok h
  obtain ⟨hidle, -, event', -, hattached, rfl⟩ := attachProgram_ok hattach
  obtain ⟨counts, probes, hprobe⟩ :=
    exists_registerProbeOf (r.setEvent target (some event')) event.spec.clock
  refine ⟨hidle, event', counts, probes, hattached, ?_⟩
  rw [hprobe]
  rfl

theorem Counted.attachProgram (hc : Counted r)
    (hevent : r.events e = some event) (h : r.attachProgram e event prog = .ok r') :
    Counted r' := by
  obtain ⟨hidle, -, event', hspec, hattached, rfl⟩ := attachProgram_ok h
  exact hc.attach hevent hidle hspec (by simp [hattached])

section Steps

variable [DecidableEq π]

theorem detachProgram_ok {e : Nat} {prog : π} (h : r.detachProgram e event prog = .ok r') :
    event.attachedProg = some prog ∧ ∃ event' : PerfEvent π, event'.attachedProg = none ∧
        r' = (r.setEvent e (some event')).unregisterProbeOf event.spec.clock := by
  unfold detachProgram PerfEvent.detachProgram at h
  split at h
  · rename_i hattached
    cases h
    exact ⟨hattached, _, rfl, rfl⟩
  · cases h

variable {l : Nat} {link : BpfLink π}

/-- A link that still has its program takes it off its event, and the event off the list. -/
theorem detachLink_eq
    (hdetached : link.detached = false) (hattached : event.attachedProg = some link.prog) :
    ∃ (event' : PerfEvent π) (counts : TracepointId → Int) (probes : TracepointId → Bool),
      event'.attachedProg = none ∧
      r.detachLink l link event = ({ (r.setEvent link.target (some event')).setActive
            (r.active.filter fun w => r.live w && w != link.target) with
          counts, probes
          links := Function.update r.links l (some { link with detached := true }) }, .ok ()) := by
  obtain ⟨event', hidle, hdetach⟩ := PerfEvent.detachProgram_attached hattached
  obtain ⟨counts, probes, hprobe⟩ := exists_unregisterProbeOf
    ((Registry.unregisterActivePerfEvent
      { r with links := Function.update r.links l (some { link with detached := true }) }
      link.target).setEvent link.target (some event')) event.spec.clock
  refine ⟨event', counts, probes, hidle, ?_⟩
  unfold Registry.detachLink detachProgram
  rw [if_neg (by simp [hdetached]), hdetach]
  change ((Registry.unregisterProbeOf _ _), _) = _
  rw [hprobe]
  rfl

theorem Counted.detachLink (hc : Counted r)
    (hevent : r.events link.target = some event) : Counted (r.detachLink l link event).1 := by
  unfold Registry.detachLink
  split
  · exact hc
  · dsimp only
    have hunlisted : Counted (Registry.unregisterActivePerfEvent
        { r with links := Function.update r.links l (some { link with detached := true }) }
        link.target) := hc.of_eq rfl rfl rfl rfl
    split
    · rename_i hdetach
      obtain ⟨hattached, event', hidle, rfl⟩ := detachProgram_ok hdetach
      refine hunlisted.detach hevent (by simp [hattached]) fun id => ?_
      simp [subscribed, hidle]
    · exact hunlisted

theorem Counted.step {op : LinkOp π} (hc : Counted r) (hstep : LinkStep r op r') : Counted r' := by
  cases hstep with
  | create spec now => exact hc.create spec now
  | dropEvent hevent _ => exact hc.dropEvent hevent
  | newLink hevent hnew =>
    obtain ⟨attached, hattach, rfl⟩ := newLink_ok hnew
    exact (hc.attachProgram hevent hattach).of_eq rfl rfl rfl rfl
  | newLinkFails => exact hc
  | detachLink _ hevent => exact hc.detachLink hevent
  | dropLink _ hevent => exact (hc.detachLink hevent).of_eq rfl rfl rfl rfl
  | setBpf hevent hattach => exact hc.attachProgram hevent hattach
  | setBpfFails => exact hc
  | register | unregister => exact hc.of_eq rfl rfl rfl rfl
  | tick =>
    unfold perfEventTick
    split
    · exact hc
    · exact hc.of_eq rfl rfl rfl rfl

/-- **In every run the counts are the numbers of attached events, and the probes follow them.** -/
theorem run_counted {h : List (LinkOp π)} (hrun : Run (· = Registry.new) LinkStep h r) :
    Counted r := by
  refine hrun.invariant (fun s hs => ?_) fun s op s' hs hstep => hs.step hstep
  rw [hs]
  exact .new

end Steps

/-- A tracepoint event with a link to it. -/
theorem linked_counted : ∃ r : Registry VerifiedProgram, r.counts .schedSwitch = 1 ∧ r.Counted := by
  obtain ⟨r, hrun, hcount⟩ : ∃ r : Registry VerifiedProgram, Run (· = Registry.new) LinkStep
      [.newLink readLastVerified 0, .create ⟨.tracepoint .schedSwitch, .perCpu 0, 1, false⟩ 0] r ∧
        r.counts .schedSwitch = 1 :=
    ⟨_, .step (.step (.init rfl) (.create _ 0)) (.newLink rfl rfl), rfl⟩
  exact ⟨r, hcount, run_counted hrun⟩

end Registry

end PulseOS.Bpf
