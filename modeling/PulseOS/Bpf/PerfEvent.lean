import PulseOS.Bpf.Soundness
import PulseOS.Lib.Saturating

/-!
# Perf events

`PerfEvent`: its clock and sampling state, the attached program, and the sample it takes.  A
`PerfEvent` carries that the attached program is one `attach_program` took.

* `attachProgram`, `detachProgram`, `sampleAt`, `advanceAndMaybeSample` — the operations.
* `covered_iff` — no load through the context pointer fails, except for tracepoints: samples come
  with the 48 bytes of a `PerfEventContext`, and tracepoint programs are verified for 80.
-/

namespace PulseOS.Bpf

open Exec Saturating

def BPF_MAX_SAMPLING_CPUS : Nat := 64

inductive TracepointId where
  | taskMetadata
  | schedSwitch
  | taskBlock
  | taskWake
  | taskExit
  | taskEnqueue
  | phaseMarker
  deriving DecidableEq, Repr

inductive PerfEventClock where
  | cpuClock
  | taskClock
  | bpfOutput
  | tracepoint (id : TracepointId)
  deriving DecidableEq, Repr

inductive PerfEventScope where
  | perCpu (cpu : Nat)
  | task (pid : UInt64)
  deriving DecidableEq, Repr

structure PerfEventSpec where
  clock : PerfEventClock
  scope : PerfEventScope
  samplePeriod : UInt64
  disabled : Bool
  deriving DecidableEq, Repr

/-- Handles of loaded programs. -/
class Program (π : Type) where
  progType : π → BpfProgType

instance : Program VerifiedProgram := ⟨VerifiedProgram.progType⟩

/-- The program types `attach_program` takes for a clock. -/
def PerfEventClock.accepts : PerfEventClock → BpfProgType → Bool
  | .cpuClock, progType => progType == .perfEvent
  | .taskClock, progType => progType == .perfEvent
  | .tracepoint _, progType => progType == .tracepoint
  | .bpfOutput, _ => false

structure PerfEventSampleCounters where
  deliveredSamples : UInt64 := 0
  reEntryDrops : UInt64 := 0
  helperFailures : UInt64 := 0
  budgetFailures : UInt64 := 0
  deriving DecidableEq, Repr

structure PerfEvent (π : Type) [Program π] where
  spec : PerfEventSpec
  enabled : Bool
  accumulatedNs : UInt64
  lastEnabledNs : UInt64
  samplePeriod : UInt64
  periodAccumulatedNs : UInt64
  lastSampleNs : UInt64
  attachedProg : Option π
  counters : PerfEventSampleCounters
  fits : ∀ prog, attachedProg = some prog → spec.clock.accepts (Program.progType prog) = true

namespace PerfEvent

variable {π : Type} [Program π]

def new (spec : PerfEventSpec) (now : UInt64) : PerfEvent π where
  spec
  enabled := !spec.disabled
  accumulatedNs := 0
  lastEnabledNs := if spec.disabled then 0 else now
  samplePeriod := spec.samplePeriod
  periodAccumulatedNs := 0
  lastSampleNs := now
  attachedProg := none
  counters := {}
  fits := nofun

section

variable (e : PerfEvent π)

def enableAt (now : UInt64) : PerfEvent π :=
  if e.enabled then e
  else { e with enabled := true, lastEnabledNs := now, lastSampleNs := now,
                periodAccumulatedNs := 0 }

def disableAt (now : UInt64) : PerfEvent π :=
  if e.enabled then
    { e with accumulatedNs := addU64 e.accumulatedNs (subU64 now e.lastEnabledNs),
             enabled := false }
  else e

def resetAt (now : UInt64) : PerfEvent π :=
  { e with accumulatedNs := 0, lastEnabledNs := now, lastSampleNs := now, periodAccumulatedNs := 0 }

def setPeriod (period : UInt64) : PerfEvent π :=
  { e with samplePeriod := period, periodAccumulatedNs := 0 }

/-! ## Attaching -/

def attachProgram (prog : π) : Except LinuxError (PerfEvent π) :=
  if e.attachedProg.isSome then .error .EBUSY
  else if h : e.spec.clock.accepts (Program.progType prog) = true then
    .ok { e with attachedProg := some prog, fits := fun _ hp => by cases hp; exact h }
  else .error .EINVAL

end

/-- Handles are compared as `Arc::ptr_eq` compares. -/
def detachProgram [DecidableEq π] (e : PerfEvent π) (prog : π) : Except LinuxError (PerfEvent π) :=
  if e.attachedProg = some prog then .ok { e with attachedProg := none, fits := nofun }
  else .error .EINVAL

/-! ## Sampling -/

/-- The bytes of `PerfEventContext::new`. -/
def sampleContext (period now : UInt64) (cpu : Nat) (pid tid taskId : UInt64) : Bytes :=
  leBytes 8 period.toNat ++ leBytes 8 0 ++ leBytes 8 now.toNat ++ leBytes 4 cpu ++
    leBytes 4 pid.toNat ++ leBytes 4 tid.toNat ++ leBytes 4 0 ++ leBytes 8 taskId.toNat

theorem sampleContext_length (period now : UInt64) (cpu : Nat) (pid tid taskId : UInt64) :
    (sampleContext period now cpu pid tid taskId).length = PERF_EVENT_CONTEXT_SIZE := by
  simp [sampleContext, PERF_EVENT_CONTEXT_SIZE]

inductive SampleStart (π : Type) where
  | skipped
  | reEntered
  | runs (prog : π) (context : Bytes)

variable (run : π → Bytes → Exec BpfVmError UInt64) (e : PerfEvent π) (inSampling : Nat → Bool)
  (now : UInt64) (cpu : Nat) (pid tid taskId : UInt64)

/-- The tests of `sample_at` before the program runs; `inSampling` are the flags of the CPUs. -/
def sampleStart : SampleStart π :=
  if !e.enabled then .skipped
  else
    match e.attachedProg with
    | none => .skipped
    | some prog =>
      if BPF_MAX_SAMPLING_CPUS ≤ cpu then .skipped
      else if inSampling cpu then .reEntered
      else .runs prog (sampleContext e.samplePeriod now cpu pid tid taskId)

/-- `sample_at`, where `run` is `BpfProgram::run`. -/
def sampleAt : Exec LinuxError (PerfEvent π × Bool) :=
  let c := e.counters
  match e.sampleStart inSampling now cpu pid tid taskId with
  | .skipped => .ok (e, false)
  | .reEntered => .ok ({ e with counters := { c with reEntryDrops := c.reEntryDrops + 1 } }, false)
  | .runs prog context => do
    match ← attempt (run prog context) with
    | .ok _ =>
      .ok ({ e with counters := { c with deliveredSamples := c.deliveredSamples + 1 } }, true)
    | .error .stepLimitExceeded =>
      .ok ({ e with counters := { c with budgetFailures := c.budgetFailures + 1 } }, false)
    | .error .recursionLimitExceeded =>
      .ok ({ e with counters := { c with reEntryDrops := c.reEntryDrops + 1 } }, false)
    | .error (.helperFailed _) =>
      .ok ({ e with counters := { c with helperFailures := c.helperFailures + 1 } }, false)
    | .error (.invalidHelperCall _) =>
      .ok ({ e with counters := { c with helperFailures := c.helperFailures + 1 } }, false)
    | .error _ => .ok (e, false)

/-- The attempts of one tick. -/
def sampleTimes : Nat → PerfEvent π → Exec LinuxError (PerfEvent π × Nat)
  | 0, e => .ok (e, 0)
  | n + 1, e => do
    let (e, delivered) ← e.sampleAt run inSampling now cpu pid tid taskId
    let (e, rest) ← sampleTimes n e
    .ok (e, rest + if delivered then 1 else 0)

def advanceAndMaybeSample : Exec LinuxError (PerfEvent π × Nat) :=
  if !e.enabled || e.samplePeriod == 0 then .ok (e, 0)
  else
    let accumulated := addU64 e.periodAccumulatedNs (subU64 now e.lastSampleNs)
    let e := { e with lastSampleNs := now, periodAccumulatedNs := accumulated }
    if e.samplePeriod ≤ accumulated then
      sampleTimes run inSampling now cpu pid tid taskId (accumulated / e.samplePeriod).toNat
        { e with periodAccumulatedNs := accumulated % e.samplePeriod }
    else .ok (e, 0)

/-- An event that was enabled, given the period `0` and attached to. -/
def sampling (spec : PerfEventSpec) (prog : π)
    (h : spec.clock.accepts (Program.progType prog) = true) : PerfEvent π :=
  { (new spec 0 : PerfEvent π) with
    enabled := true, samplePeriod := 0, attachedProg := some prog
    fits := fun _ hp => by cases hp; exact h }

/-- What a sample runs: the attached program, on a context of the event's layout. -/
theorem sampleStart_eq_runs {e : PerfEvent π} {inSampling : Nat → Bool} {now : UInt64} {cpu : Nat}
    {pid tid taskId : UInt64} {prog : π} {context : Bytes}
    (h : e.sampleStart inSampling now cpu pid tid taskId = .runs prog context) :
    e.attachedProg = some prog ∧ context.length = PERF_EVENT_CONTEXT_SIZE := by
  unfold sampleStart at h
  split at h
  · cases h
  · split at h
    · cases h
    · rename_i attached hattached
      split at h
      · cases h
      · split at h
        · cases h
        · cases h
          exact ⟨hattached, sampleContext_length ..⟩

end PerfEvent

/-! ## The context covers the program -/

/-- `insn` loads through a context pointer. -/
def loadsContext (insn : BpfInsn) (regs : Vector VmValue 11) : Bool :=
  insn.cls == BPF_LDX && regs[insn.srcReg]?.any fun v =>
    match v with
    | .ptrContext _ => true
    | _ => false

theorem loadsContext_through {insn : BpfInsn} {regs : Vector VmValue 11}
    (h : loadsContext insn regs = true) : throughStackOrContext insn regs = true := by
  unfold loadsContext at h
  rw [Bool.and_eq_true, beq_iff_eq] at h
  unfold throughStackOrContext
  rw [if_pos h.1]
  cases hv : regs[insn.srcReg]? with
  | none =>
    rw [hv] at h
    exact absurd h.2 (by simp)
  | some v =>
    rw [hv] at h
    cases v <;> first | rfl | exact absurd h.2 (by simp)

/-- Events of this kind give every program that can be attached to them, and that the verifier took,
the context it was verified for: no load through the context pointer is out of bounds. -/
def PerfEventSpec.Covered (spec : PerfEventSpec) : Prop :=
  ∀ e : PerfEvent VerifiedProgram, e.spec = spec →
  ∀ inSampling now cpu pid tid taskId prog context,
    e.sampleStart inSampling now cpu pid tid taskId = .runs prog context →
  ∀ insns, Accepted insns prog →
  ∀ checks maps env depths, maps.map BpfMap.ref = prog.referencedMaps →
  ∀ vm insn, Running checks prog.insns maps context env depths vm →
    prog.insns[vm.pc]? = some insn → loadsContext insn vm.regs = true →
    step checks prog.insns context env vm ≠ err .outOfBoundsAccess

/-- `return *(u64 *)(ctx + 72)`. -/
def readLast : List BpfInsn := [BpfInsn.new 0x79 0 1 72 0, BpfInsn.new 0x95 0 0 0 0]

def readLastVerified : VerifiedProgram := ⟨.tracepoint, readLast, []⟩

theorem readLast_accepted : Accepted readLast readLastVerified :=
  ⟨true, .tracepoint, 0, none, {}, by decide +kernel⟩

def zeroSample : Bytes := PerfEvent.sampleContext 0 0 0 0 0 0

/-- **The context covers the program exactly for events that are not tracepoints.** -/
theorem covered_iff (spec : PerfEventSpec) : spec.Covered ↔ ∀ id, spec.clock ≠ .tracepoint id := by
  constructor
  · intro hcovered id hclock
    have haccepts : spec.clock.accepts (Program.progType readLastVerified) = true := by
      rw [hclock]
      rfl
    exact hcovered (.sampling spec readLastVerified haccepts) rfl (fun _ => false) 0 0 0 0 0
      readLastVerified zeroSample rfl readLast readLast_accepted true [] quietEnv
      (Vector.replicate _ 0) rfl (Vm.start []) (BpfInsn.new 0x79 0 1 72 0)
      ⟨by decide +kernel, .refl⟩ rfl (by decide +kernel)
      rfl
  · intro hclock e hspec inSampling now cpu pid tid taskId prog context hstart insns haccepted
      checks maps env depths hmaps vm insn hrun hget hload
    obtain ⟨hattached, hlen⟩ := PerfEvent.sampleStart_eq_runs hstart
    have htype : prog.progType = .perfEvent := by
      have hfits := e.fits prog hattached
      rw [hspec] at hfits
      change spec.clock.accepts prog.progType = true at hfits
      cases hkind : spec.clock with
      | cpuClock | taskClock =>
        rw [hkind] at hfits
        exact beq_iff_eq.mp hfits
      | bpfOutput =>
        rw [hkind] at hfits
        cases hfits
      | tracepoint id => exact absurd hkind (hclock id)
    obtain ⟨-, seen, hc⟩ := haccepted.certified
    refine step_inBounds hc hmaps ?_ hrun hget (loadsContext_through hload)
    rw [htype, hlen]
    exact Nat.le_refl _

/-- A tracepoint event, as it is opened and attached to, samples a program that reads the last word
of its context: the read fails. -/
theorem tracepoint_sample_outOfBounds : ∃ e : PerfEvent VerifiedProgram,
      PerfEvent.attachProgram (.new ⟨.tracepoint .schedSwitch, .perCpu 0, 0, false⟩ 0)
        readLastVerified = .ok e ∧
      Accepted readLast readLastVerified ∧
      e.sampleStart (fun _ => false) 0 0 0 0 0 = .runs readLastVerified zeroSample ∧
      execute true readLastVerified.insns [] zeroSample quietEnv (Vector.replicate _ 0) =
        err .outOfBoundsAccess :=
  ⟨_, rfl, readLast_accepted, rfl, by decide +kernel⟩

end PulseOS.Bpf
