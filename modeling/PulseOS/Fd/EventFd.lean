import PulseOS.Lib.Transition

/-!
# The counter of an eventfd

`EventFdObject::read` and `write` in the steps of their retry loops: a load of the counter, the test
of the value it gave, and a compare-exchange, which may also fail for no reason.  The threads are
arbitrary.

* `exec_cases` — a step moves a thread only, or completes a call on the counter it finds.
* `counts_exact` — so the values of the completed calls account for the counter at every moment.
-/

namespace PulseOS.Fd.EventFd

open Transition

def EVENTFD_COUNTER_MAX : UInt64 := 0xFFFFFFFFFFFFFFFF - 1

def canWrite (counter value : UInt64) : Bool := 0xFFFFFFFFFFFFFFFF - counter > value

theorem le_max_iff {counter : UInt64} :
    counter ≤ EVENTFD_COUNTER_MAX ↔ counter.toNat < 2 ^ 64 - 1 := by
  rw [UInt64.le_iff_toNat_le, Nat.lt_iff_le_pred (by decide)]
  rfl

theorem canWrite_iff {counter value : UInt64} :
    canWrite counter value ↔ counter.toNat + value.toNat < 2 ^ 64 - 1 := by
  have hle : counter ≤ 0xFFFFFFFFFFFFFFFF :=
    UInt64.le_iff_toNat_le.mpr (Nat.le_pred_of_lt counter.toNat_lt)
  simp only [canWrite, decide_eq_true_eq, gt_iff_lt, UInt64.lt_iff_toNat_lt,
    UInt64.toNat_sub_of_le _ _ hle, UInt64.reduceToNat]
  omega

inductive Call where
  | read
  | write (value : UInt64)
  deriving DecidableEq

/-- What the call would take or add; `none` where its test of the loaded counter fails. -/
def Call.amount (semaphore : Bool) (counter : UInt64) : Call → Option UInt64
  | .read => if counter = 0 then none else some (if semaphore then 1 else counter)
  | .write value => if canWrite counter value then some value else none

theorem amount_read {semaphore : Bool} {counter amount : UInt64}
    (h : Call.read.amount semaphore counter = some amount) :
    amount ≤ counter ∧ amount ≠ 0 ∧ (semaphore = true → amount = 1) := by
  simp only [Call.amount] at h
  split at h <;> cases h
  cases semaphore <;> grind

inductive Phase where
  | idle
  | calling (call : Call)
  | loaded (call : Call) (counter : UInt64)

structure System (τ : Type) where
  counter : UInt64
  semaphore : Bool
  phase : τ → Phase
  /-- what the completed reads returned, and the values the completed writes were called with -/
  returned : List UInt64
  added : List UInt64

inductive Action (τ : Type) where
  | call (t : τ) (call : Call)
  | load (t : τ)
  /-- the test fails: the call returns an error, or waits and starts `again` -/
  | refuse (t : τ) (again : Bool)
  | compareExchange (t : τ) (spurious : Bool)

namespace System

variable {τ : Type} (s : System τ)

def Initial (initval : UInt32) : Prop :=
  s.counter = initval.toUInt64 ∧ (∀ t, s.phase t = .idle) ∧ s.returned = [] ∧ s.added = []

def complete (counter amount : UInt64) : Call → System τ
  | .read => { s with counter := counter - amount, returned := amount :: s.returned }
  | .write value => { s with counter := counter + amount, added := value :: s.added }

/-- The counter is the initial value with what was written added and what was read taken away. -/
structure Counts (initval : UInt32) (s : System τ) : Prop where
  bound : s.counter ≤ EVENTFD_COUNTER_MAX
  balance : s.counter.toNat + (s.returned.map UInt64.toNat).sum =
    initval.toNat + (s.added.map UInt64.toNat).sum
  returned : ∀ value ∈ s.returned, value ≠ 0 ∧ (s.semaphore = true → value = 1)

variable {s} {initval : UInt32}

theorem Counts.complete {call : Call} {amount : UInt64} (hc : Counts initval s)
    (h : call.amount s.semaphore s.counter = some amount) :
    Counts initval (s.complete s.counter amount call) := by
  obtain ⟨hbound, hbalance, hreturned⟩ := hc
  rw [le_max_iff] at hbound
  cases call with
  | read =>
    obtain ⟨hle, hvalue⟩ := amount_read h
    have hsub := UInt64.toNat_sub_of_le _ _ hle
    rw [UInt64.le_iff_toNat_le] at hle
    refine ⟨le_max_iff.mpr ?_, ?_, List.forall_mem_cons.mpr ⟨hvalue, hreturned⟩⟩ <;>
      simp only [System.complete, List.map_cons, List.sum_cons] <;> omega
  | write value =>
    simp only [Call.amount] at h
    split at h <;> cases h
    rename_i hroom
    rw [canWrite_iff] at hroom
    have hadd := UInt64.toNat_add s.counter amount
    rw [Nat.mod_eq_of_lt (by omega)] at hadd
    refine ⟨le_max_iff.mpr ?_, ?_, hreturned⟩ <;>
      simp only [System.complete, List.map_cons, List.sum_cons] <;> omega

variable [DecidableEq τ] (s : System τ)

def goto (t : τ) (phase : Phase) : System τ := { s with phase := Function.update s.phase t phase }

def exec : Action τ → Option (System τ)
  | .call t call => match s.phase t with
    -- a write of `u64::MAX` is an error (as is a buffer of the wrong length)
    | .idle => some (s.goto t (if call = .write 0xFFFFFFFFFFFFFFFF then .idle else .calling call))
    | _ => none
  | .load t => match s.phase t with
    | .calling call => some (s.goto t (.loaded call s.counter))
    | _ => none
  | .refuse t again => match s.phase t with
    | .loaded call counter => match call.amount s.semaphore counter with
      | none => some (s.goto t (if again then .calling call else .idle))
      | some _ => none
    | _ => none
  | .compareExchange t spurious => match s.phase t with
    | .loaded call counter => match call.amount s.semaphore counter with
      | none => none
      | some amount =>
        if s.counter = counter ∧ spurious = false then
          some ((s.goto t .idle).complete counter amount call)
        else some (s.goto t (.calling call))
    | _ => none

variable {s} {s' : System τ} {a : Action τ}

theorem exec_cases (h : s.exec a = some s') : (∃ t phase, s' = s.goto t phase) ∨
    ∃ t call amount, call.amount s.semaphore s.counter = some amount ∧
      s' = (s.goto t .idle).complete s.counter amount call := by
  cases a with
  | call | load =>
    simp only [exec] at h
    split at h <;> cases h
    exact .inl ⟨_, _, rfl⟩
  | refuse =>
    simp only [exec] at h
    split at h <;> [split at h <;> cases h; cases h]
    exact .inl ⟨_, _, rfl⟩
  | compareExchange =>
    simp only [exec] at h
    split at h <;> [split at h <;> [cases h; split at h <;> cases h]; cases h]
    · rename_i hamount hsame
      rw [← hsame.1] at hamount ⊢
      exact .inr ⟨_, _, _, hamount, rfl⟩
    · exact .inl ⟨_, _, rfl⟩

/-- **The counter is exact in every interleaving** of the steps of any calls. -/
theorem counts_exact (initval : UInt32) (s : System τ)
    (hr : Reachable (Initial · initval) (Computed exec) s) : Counts initval s := by
  refine hr.invariant (fun s h => ?_) fun s a s' (hc : Counts initval s) hs => ?_
  · obtain ⟨hcounter, -, hreturned, hadded⟩ := h
    have := initval.toNat_lt
    refine ⟨le_max_iff.mpr ?_, by simp [hcounter, hreturned, hadded], by simp [hreturned]⟩
    rw [hcounter, UInt32.toNat_toUInt64]
    omega
  · rcases exec_cases hs with ⟨t, phase, rfl⟩ | ⟨t, call, amount, hamount, rfl⟩
    · exact ⟨hc.bound, hc.balance, hc.returned⟩
    · exact Counts.complete (s := s.goto t .idle) ⟨hc.bound, hc.balance, hc.returned⟩ hamount

/-- A write comes between the load of a read and its compare-exchange. -/
theorem counts_exact_retried : ∃ s : System Bool, (s.returned = [5] ∧ s.added = [2]) ∧
    Counts 3 s := by
  obtain ⟨s, hr, hs⟩ : ∃ s : System Bool, Reachable (Initial · 3) (Computed exec) s ∧
      decide (s.returned = [5] ∧ s.added = [2]) = true :=
    Reachable.execs (s := ⟨3, false, fun _ => .idle, [], []⟩) ⟨rfl, fun _ => rfl, rfl, rfl⟩
      [.call false .read, .load false, .call true (.write 2), .load true,
        .compareExchange true false, .compareExchange false false, .load false,
        .compareExchange false false] (by decide)
  exact ⟨s, of_decide_eq_true hs, counts_exact 3 s hr⟩

end System

end PulseOS.Fd.EventFd
