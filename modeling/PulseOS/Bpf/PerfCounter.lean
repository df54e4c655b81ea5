import PulseOS.Bpf.PerfEvent
import PulseOS.Lib.Transition

/-!
# The counter of a perf event

`read` on a perf event returns a number of nanoseconds, which the ioctls start, stop and reset.

* `Stopwatch` — what the number means: the time the event has been enabled since it was reset.
* `run_counter_exact` — **what is read is that time**, whatever else is done to the event.
-/

namespace PulseOS.Bpf.PerfEvent

open Exec Saturating Transition

def PERF_EVENT_IOC_ENABLE : UInt32 := 0x2400
def PERF_EVENT_IOC_DISABLE : UInt32 := 0x2401
def PERF_EVENT_IOC_REFRESH : UInt32 := 0x2402
def PERF_EVENT_IOC_RESET : UInt32 := 0x2403
def PERF_EVENT_IOC_PERIOD : UInt32 := 0x40082404

section Calls

variable {π : Type} [Program π] (e : PerfEvent π)

def readCounterAt (now : UInt64) : UInt64 :=
  if e.enabled then addU64 e.accumulatedNs (subU64 now e.lastEnabledNs) else e.accumulatedNs

/-- The buffer after the call, and the bytes read. -/
def readIntoAt (buf : Bytes) (now : UInt64) : Except LinuxError (Bytes × Nat) :=
  if buf.length < 8 then .error .EINVAL
  else .ok (leBytes 8 (e.readCounterAt now).toNat ++ buf.drop 8, 8)

/-- `ioctl_at`, which returns 0 or an error. -/
def ioctlAt (cmd : UInt32) (arg now : UInt64) : Except LinuxError (PerfEvent π) :=
  if cmd = PERF_EVENT_IOC_ENABLE then .ok (e.enableAt now)
  else if cmd = PERF_EVENT_IOC_DISABLE then .ok (e.disableAt now)
  else if cmd = PERF_EVENT_IOC_RESET then .ok (e.resetAt now)
  else if cmd = PERF_EVENT_IOC_REFRESH then .ok (e.enableAt now)
  else if cmd = PERF_EVENT_IOC_PERIOD then .ok (e.setPeriod arg)
  else .error .ENOTTY

/-- The calls that change an event. -/
inductive Call (π : Type) where
  | ioctl (cmd : UInt32) (arg now : UInt64)
  | attach (prog : π)
  | detach (prog : π)
  | advance (inSampling : Nat → Bool) (now : UInt64) (cpu : Nat) (pid tid taskId : UInt64)

/-- A call that succeeds; the state has the time of the last ioctl beside the event.  The times of
samples are of another clock. -/
def Step [DecidableEq π] (run : π → Bytes → Exec BpfVmError UInt64) (s : PerfEvent π × UInt64)
    (call : Call π) (s' : PerfEvent π × UInt64) : Prop :=
  match call with
  | .ioctl cmd arg now => s.2 ≤ now ∧ s.1.ioctlAt cmd arg now = .ok s'.1 ∧ s'.2 = now
  | .attach prog => s.1.attachProgram prog = .ok s'.1 ∧ s'.2 = s.2
  | .detach prog => s.1.detachProgram prog = .ok s'.1 ∧ s'.2 = s.2
  | .advance inSampling now cpu pid tid taskId =>
    (∃ n, s.1.advanceAndMaybeSample run inSampling now cpu pid tid taskId = .ok (s'.1, n)) ∧
      s'.2 = s.2

end Calls

variable {π : Type} [Program π] {run : π → Bytes → Exec BpfVmError UInt64}

/-! ## What the counter means -/

/-- The time for which it was on since it was reset, at `time`. -/
structure Stopwatch where
  on : Bool
  total : Nat
  time : Nat

def Stopwatch.wait (w : Stopwatch) (now : Nat) : Stopwatch :=
  { w with total := w.total + if w.on then now - w.time else 0, time := now }

def Stopwatch.turn (w : Stopwatch) (cmd : UInt32) : Stopwatch :=
  if cmd = PERF_EVENT_IOC_ENABLE ∨ cmd = PERF_EVENT_IOC_REFRESH then { w with on := true }
  else if cmd = PERF_EVENT_IOC_DISABLE then { w with on := false }
  else if cmd = PERF_EVENT_IOC_RESET then { w with total := 0 }
  else w

/-- Only ioctls start, stop or reset it. -/
def Stopwatch.press (w : Stopwatch) : Call π → Stopwatch
  | .ioctl cmd _ now => (w.wait now.toNat).turn cmd
  | _ => w

/-- The stopwatch of an event opened at `t0`, after some calls, the latest first. -/
def stopwatch (spec : PerfEventSpec) (t0 : UInt64) (h : List (Call π)) : Stopwatch :=
  h.foldr (fun call w => w.press call) ⟨!spec.disabled, 0, t0.toNat⟩

/-- The fields the counter is computed from. -/
def timing (e : PerfEvent π) : Bool × UInt64 × UInt64 :=
  (e.enabled, e.accumulatedNs, e.lastEnabledNs)

/-- The event runs with the stopwatch, which is not ahead of the clock. -/
structure Shows (e : PerfEvent π) (w : Stopwatch) : Prop where
  on : e.enabled = w.on
  since : w.on = true → e.lastEnabledNs.toNat ≤ w.time
  total : e.accumulatedNs.toNat + (if w.on then w.time - e.lastEnabledNs.toNat else 0) = w.total
  le : w.total ≤ w.time

variable {e e' : PerfEvent π} {w : Stopwatch} {n cpu : Nat} {inSampling : Nat → Bool}
  {now t0 pid tid taskId : UInt64} {prog : π}

/-! ## Samples and programs leave the counter alone -/

theorem sampleAt_timing {delivered : Bool}
    (h : e.sampleAt run inSampling now cpu pid tid taskId = .ok (e', delivered)) :
    e'.timing = e.timing := by
  unfold sampleAt at h
  split at h
  · cases h
    rfl
  · cases h
    rfl
  · obtain ⟨result, -, h⟩ := bind_eq_ok.mp h
    split at h <;> cases h <;> rfl

theorem sampleTimes_timing {delivered : Nat}
    (h : sampleTimes run inSampling now cpu pid tid taskId n e = .ok (e', delivered)) :
    e'.timing = e.timing := by
  induction n generalizing e delivered with
  | zero =>
    cases h
    rfl
  | succ n ih =>
    obtain ⟨⟨first, d⟩, hfirst, h⟩ := bind_eq_ok.mp h
    obtain ⟨⟨last, rest⟩, hrest, h⟩ := bind_eq_ok.mp h
    cases h
    exact (ih hrest).trans (sampleAt_timing hfirst)

theorem advanceAndMaybeSample_timing {delivered : Nat}
    (h : e.advanceAndMaybeSample run inSampling now cpu pid tid taskId = .ok (e', delivered)) :
    e'.timing = e.timing := by
  unfold advanceAndMaybeSample at h
  split at h
  · cases h
    rfl
  · simp only at h
    split at h
    · exact (sampleTimes_timing h :)
    · cases h
      rfl

theorem attachProgram_timing (h : e.attachProgram prog = .ok e') : e'.timing = e.timing := by
  unfold attachProgram at h
  split_ifs at h
  cases h
  rfl

theorem detachProgram_timing [DecidableEq π] (h : e.detachProgram prog = .ok e') :
    e'.timing = e.timing := by
  unfold detachProgram at h
  split_ifs at h
  cases h
  rfl

/-! ## The counter under the ioctls -/

theorem Shows.wait (hs : Shows e w) (hle : w.time ≤ n) : Shows e (w.wait n) := by
  obtain ⟨on, total, time⟩ := w
  obtain ⟨hon, hsince, htotal, hbelow⟩ := hs
  simp only at hle hbelow
  refine ⟨hon, fun h => (hsince h).trans hle, ?_, ?_⟩
  all_goals
    simp only [Stopwatch.wait]
    cases on <;> simp at hsince htotal ⊢ <;> omega

theorem Shows.of_timing (hs : Shows e w) (heq : e'.timing = e.timing) : Shows e' w := by
  simp only [timing, Prod.mk.injEq] at heq
  obtain ⟨he, hacc, hlast⟩ := heq
  exact ⟨he.trans hs.on, by rw [hlast]; exact hs.since, by rw [hacc, hlast]; exact hs.total, hs.le⟩

variable (hs : Shows e w) (ht : w.time = now.toNat)
include hs ht

/-- The sum does not saturate. -/
theorem Shows.readCounterAt : (e.readCounterAt now).toNat = w.total := by
  have hlt := now.toNat_lt
  have hle := hs.le
  have htotal := hs.total
  rw [PerfEvent.readCounterAt, hs.on]
  split at htotal
  · rename_i hon
    rw [if_pos hon, toNat_addU64, toNat_subU64]
    omega
  · rename_i hoff
    rw [if_neg hoff, ← htotal, Nat.add_zero]

theorem Shows.enableAt : Shows (e.enableAt now) { w with on := true } := by
  obtain ⟨on, total, time⟩ := w
  obtain ⟨hon, hsince, htotal, hbelow⟩ := hs
  simp only at hon ht
  subst hon
  unfold PerfEvent.enableAt
  split
  · rename_i he
    exact ⟨he, fun _ => hsince he, by simpa [he] using htotal, hbelow⟩
  · rename_i he
    exact ⟨rfl, fun _ => ht.ge, by simpa [he, ht] using htotal, hbelow⟩

theorem Shows.disableAt : Shows (e.disableAt now) { w with on := false } := by
  have hread := hs.readCounterAt ht
  unfold PerfEvent.disableAt
  split
  · rename_i he
    rw [PerfEvent.readCounterAt, if_pos he] at hread
    exact ⟨rfl, by simp, hread, hs.le⟩
  · rename_i he
    rw [PerfEvent.readCounterAt, if_neg he] at hread
    exact ⟨by simpa using he, by simp, hread, hs.le⟩

theorem Shows.ioctl {cmd : UInt32} {arg : UInt64} (hio : e.ioctlAt cmd arg now = .ok e') :
    Shows e' (w.turn cmd) := by
  unfold ioctlAt at hio
  split_ifs at hio with henable hdisable hreset hrefresh hperiod <;> cases hio
  · subst henable
    exact hs.enableAt ht
  · subst hdisable
    exact hs.disableAt ht
  · subst hreset
    show Shows _ { w with total := 0 }
    exact ⟨hs.on, fun _ => ht.ge, by simp [resetAt, ht], Nat.zero_le _⟩
  · subst hrefresh
    exact hs.enableAt ht
  · subst hperiod
    exact ⟨hs.on, hs.since, hs.total, hs.le⟩

omit hs ht

/-- An event opened at `t0`. -/
def Opened (spec : PerfEventSpec) (t0 : UInt64) (s : PerfEvent π × UInt64) : Prop :=
  s = (.new spec t0, t0)

variable [DecidableEq π] {s s' : PerfEvent π × UInt64}

theorem Shows.step {call : Call π} (hs : Shows s.1 w) (ht : w.time = s.2.toNat)
    (hstep : Step run s call s') :
    Shows s'.1 (w.press call) ∧ (w.press call).time = s'.2.toNat := by
  cases call with
  | ioctl cmd arg now =>
    obtain ⟨hle, hio, hnow⟩ := hstep
    have hwait := hs.wait (ht.le.trans (UInt64.le_iff_toNat_le.mp hle))
    refine ⟨hwait.ioctl rfl hio, ?_⟩
    rw [hnow, Stopwatch.press, Stopwatch.turn]
    split_ifs <;> rfl
  | attach prog =>
    rw [hstep.2]
    exact ⟨hs.of_timing (attachProgram_timing hstep.1), ht⟩
  | detach prog =>
    rw [hstep.2]
    exact ⟨hs.of_timing (detachProgram_timing hstep.1), ht⟩
  | advance inSampling now cpu pid tid taskId =>
    obtain ⟨⟨n, hadvance⟩, htime⟩ := hstep
    rw [htime]
    exact ⟨hs.of_timing (advanceAndMaybeSample_timing hadvance), ht⟩

variable {spec : PerfEventSpec} {h : List (Call π)}

theorem shows_of_run (hr : Run (Opened spec t0) (Step run) h s) :
    Shows s.1 (stopwatch spec t0 h) ∧ (stopwatch spec t0 h).time = s.2.toNat := by
  induction hr with
  | init hi =>
    subst hi
    cases hd : spec.disabled <;>
      exact ⟨⟨rfl, by simp [new, stopwatch, hd], by simp [new, stopwatch, hd], Nat.zero_le _⟩, rfl⟩
  | step _ hs ih => exact ih.1.step ih.2 hs

/-- **What is read is the time enabled since the last reset**, to the nanosecond, after every
sequence of calls whose ioctls come in the order of time. -/
theorem run_counter_exact (hr : Run (Opened spec t0) (Step run) h s) (hle : s.2 ≤ now)
    (buf : Bytes) (hbuf : 8 ≤ buf.length) :
    ((stopwatch spec t0 h).wait now.toNat).total < 2 ^ 64 ∧ s.1.readIntoAt buf now =
      .ok (leBytes 8 ((stopwatch spec t0 h).wait now.toNat).total ++ buf.drop 8, 8) := by
  obtain ⟨hshows, htime⟩ := shows_of_run hr
  have hwait := hshows.wait (htime.le.trans (UInt64.le_iff_toNat_le.mp hle))
  refine ⟨hwait.le.trans_lt now.toNat_lt, ?_⟩
  rw [readIntoAt, if_neg (by omega), hwait.readCounterAt rfl]

/-- Opened disabled, enabled from 10 to 25 with a sample in between, and read at 40. -/
theorem counter_exact_stopped : ∃ e : PerfEvent VerifiedProgram,
    e.readIntoAt (List.replicate 8 0) 40 = .ok (leBytes 8 15, 8) := by
  obtain ⟨e, hr⟩ : ∃ e : PerfEvent VerifiedProgram,
      Run (Opened ⟨.cpuClock, .perCpu 0, 4, true⟩ 3) (Step fun _ _ => .ok 0)
        [.ioctl 0x2401 0 25, .advance (fun _ => false) 18 0 1 1 1, .ioctl 0x2400 0 10] (e, 25) :=
    ⟨_, .step (s := (_, 10)) (.step (s := (_, 10)) (.step (.init rfl)
      ⟨by decide, rfl, rfl⟩) ⟨⟨_, rfl⟩, rfl⟩) ⟨by decide, rfl, rfl⟩⟩
  have hle : (25 : UInt64) ≤ 40 := by decide
  exact ⟨e, (run_counter_exact hr hle (List.replicate 8 0) (by decide)).2⟩

end PulseOS.Bpf.PerfEvent
