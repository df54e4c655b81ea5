import PulseOS.Bpf.SimulationStep

/-!
# Runs of accepted programs

A run of an accepted program stays within the states the verifier has seen.

* `step_outcome`, `running_sound` — the invariant `Sound`, over one round and over a run.
* `accepted_memorySafe` — no access to uninitialized, out of range or read-only memory.
* `accepted_executable_iff` — the run fails as an invalid instruction exactly if it comes to an
  instruction the interpreter has no case for.
* `accepted_runsForward` — every round moves forward, so a run has at most as many rounds as the
  program has slots.
-/

namespace PulseOS.Bpf

open Exec BpfInsn BpfMap Vector

variable {checks : Bool} {insns : List BpfInsn} {vp : VerifiedProgram}
  {seen : List (Nat × VerifierState)} {maps : List BpfMap} {context : Bytes} {env : BpfEnv}
  {depths : Vector Nat BPF_MAX_CPUS} {vm : Vm}

/-! ## The invariant -/

/-- The machine is modelled by a certified state, and no instruction was executed twice. -/
structure Sound (vp : VerifiedProgram) (seen : List (Nat × VerifierState)) (vm : Vm) : Prop where
  state : ∃ st, (vm.pc, st) ∈ seen ∧ Models vp.referencedMaps st vm
  steps : vm.steps ≤ vm.pc
  slot : secondSlot vp.insns vm.pc = false

theorem start_sound (hc : Certified vp seen) (hmaps : maps.map ref = vp.referencedMaps) :
    Sound vp seen (Vm.start maps) where
  state := ⟨_, hc.start, by rw [← hmaps]; exact initial_models maps⟩
  steps := Nat.le_refl _
  slot := rfl

/-- A round that continues moves forward to a sound machine. -/
def Advances (vp : VerifiedProgram) (seen : List (Nat × VerifierState)) (vm : Vm) :
    Vm ⊕ UInt64 → Prop
  | .inl vm' => Sound vp seen vm' ∧ vm.pc < vm'.pc ∧ vm'.steps = vm.steps + 1
  | .inr _ => True

theorem Sound.pc_lt (h : Sound vp seen vm) (hc : Certified vp seen) : vm.pc < vp.insns.length := by
  obtain ⟨st, hmem, -⟩ := h.state
  obtain ⟨insn, _, hget, -⟩ := hc.typed _ hmem
  exact (List.getElem?_eq_some_iff.mp hget).1

theorem contextSize_le (progType : BpfProgType) : maxContextSizeForProgType progType ≤ 80 := by
  cases progType <;> decide

theorem Sound.step_eq (h : Sound vp seen vm) (hc : Certified vp seen) {insn : BpfInsn}
    (hget : vp.insns[vm.pc]? = some insn) : step checks vp.insns context env vm =
      stepInsn checks vp.insns context env insn { vm with steps := vm.steps + 1 } := by
  have hpc := h.pc_lt hc
  have hsteps := h.steps
  have hlimit : ¬ vm.steps + 1 > BPF_MAX_STEPS := by
    have hle : vp.insns.length ≤ 4096 := hc.length_le
    have hmax : BPF_MAX_STEPS = 65536 := rfl
    omega
  rw [step, if_pos hpc, if_neg hlimit, get_of_some hget, ok_bind]

section

variable (hc : Certified vp seen)

include hc

/-- **One round.** -/
theorem step_outcome (h : Sound vp seen vm) : ∃ insn, vp.insns[vm.pc]? = some insn ∧
      Outcome (maxContextSizeForProgType vp.progType ≤ context.length) insn vm
        (step checks vp.insns context env vm) (Advances vp seen vm) := by
  have hsteps := h.steps
  obtain ⟨st, hmem, hm⟩ := h.state
  obtain ⟨insn, succs, hget, hst, hrule, hsucc⟩ := hc.typed _ hmem
  refine ⟨insn, hget, ?_⟩
  rw [h.step_eq hc hget]
  have hm' : Models vp.referencedMaps st { vm with steps := vm.steps + 1 } :=
    ⟨hm.regs, hm.stack, hm.maps, hm.keys⟩
  refine Outcome.mono (stepInsn_outcome checks vp.insns context env hm' hst hrule
    (contextSize_le _) id) rfl fun r hr => ?_
  cases r with
  | inr _ => trivial
  | inl vm' =>
    obtain ⟨s, hs, hpc', hmodels, hcount⟩ := hr
    obtain ⟨hseen, hlt, -, hslot⟩ := hsucc s hs
    have hlt' : vm.pc < vm'.pc := by rwa [hpc']
    have hcount' : vm'.steps = vm.steps + 1 := hcount
    refine ⟨⟨⟨s.2, ?_, hmodels⟩, by omega, by rwa [hpc']⟩, hlt', hcount'⟩
    rw [hpc']
    exact hseen

/-- The errors of an accepted program. -/
def RunError : BpfVmError → Prop
  | .recursionLimitExceeded => True
  | .invalidInstruction => True
  | .outOfBoundsAccess => True
  | .divideByZero => True
  | .helperFailed _ => True
  | _ => False

theorem step_meets (h : Sound vp seen vm) :
    Meets (step checks vp.insns context env vm) (Advances vp seen vm) RunError := by
  obtain ⟨insn, -, hout⟩ := step_outcome hc h
  unfold Outcome at hout
  split at hout
  · rw [hout]
    trivial
  · exact hout.mono (fun _ h => h) fun e he => by cases e <;> trivial

variable (hmaps : maps.map ref = vp.referencedMaps)

include hmaps

/-- **A whole run.** -/
theorem running_sound (h : Running checks vp.insns maps context env depths vm) : Sound vp seen vm :=
  h.2.invariant (start_sound hc hmaps) fun _ _ hs hstep => ((step_meets hc hs).value hstep).1

/-! ## The outcome of a run -/

omit hc hmaps in
theorem execute_eq (checks : Bool) (insns : List BpfInsn) (maps : List BpfMap) (context : Bytes)
    (env : BpfEnv) (depths : Vector Nat BPF_MAX_CPUS) :
    execute checks insns maps context env depths =
      if depths.get ⟨(env.getSmpProcessorId 0).toNat % BPF_MAX_CPUS, Nat.mod_lt _ (by decide)⟩ ≥
          BPF_MAX_RECURSION_DEPTH then err .recursionLimitExceeded
      else Loop.iter (step checks insns context env) (BPF_MAX_STEPS + 2) (Vm.start maps) := by
  rw [execute, vget_of_lt (Nat.mod_lt _ (by decide)), ok_bind]
  rfl

/-- **A run of an accepted program ends**, with a value or with one of few errors. -/
theorem execute_meets :
    Meets (execute checks vp.insns maps context env depths) (fun _ => True) RunError := by
  rw [execute_eq]
  refine .ite (fun _ => trivial) fun _ => ?_
  -- the distance to the end of the program decreases with every round
  have hround : ∀ vm, Sound vp seen vm → Loop.RoundMeets (Sound vp seen)
      (fun vm => vp.insns.length - vm.pc) (fun _ => True) RunError
      (step checks vp.insns context env) vm := by
    intro vm hs
    refine (step_meets hc hs).mono (fun r hr => ?_) fun _ he => he
    cases r with
    | inr _ => trivial
    | inl vm' =>
      have hlt := hs.pc_lt hc
      have hadv := hr.2.1
      exact ⟨hr.1, Nat.sub_lt_sub_left hlt hadv⟩
  refine Loop.iter_meets hround _ _ (start_sound hc hmaps) ?_
  have hle : vp.insns.length ≤ 4096 := hc.length_le
  have hmax : BPF_MAX_STEPS = 65536 := rfl
  omega

/-- An error of a run is the error of one of its rounds. -/
theorem execute_error_iff {e : BpfVmError}
    (he : e ≠ .recursionLimitExceeded) :
    execute checks vp.insns maps context env depths = err e ↔
      ∃ vm, Running checks vp.insns maps context env depths vm ∧
        step checks vp.insns context env vm = err e := by
  have hterm : execute checks vp.insns maps context env depths ≠ .error .hang :=
    (execute_meets hc hmaps).not_hang
  rw [execute_eq] at hterm ⊢
  split at hterm
  · rename_i hdeep
    rw [if_pos hdeep]
    refine ⟨fun h => ?_, fun ⟨vm, hrun, _⟩ => absurd hrun.1 (Nat.not_lt.mpr hdeep)⟩
    cases h
    exact absurd rfl he
  · rename_i hdepth
    rw [if_neg hdepth]
    refine (Loop.iter_halts_iff (fun h => by cases h) hterm).trans ?_
    exact exists_congr fun vm => and_congr_left fun _ =>
      ⟨fun h => ⟨Nat.not_le.mp hdepth, h⟩, fun h => h.2⟩

/-! ## A program with a map -/

/-- An array of one 8-byte value, created with `flags` and filled with `fill`. -/
def wordArray (flags : UInt32) (h : BpfMapType.FlagsOk .array flags) (fill : UInt8) : BpfMap where
  id := 1
  spec :=
    { mapType := .array, keySize := 4, valueSize := 8, maxEntries := 1, mapFlags := flags,
      flagsOk := h, keyOk := id rfl, valOk := nofun, entriesOk := id nofun,
      entries_lt := (by decide : 2 ≤ 2 ^ 32), key_le := (by decide : 4 ≤ 512),
      value_le := by decide }
  storage := .array (List.replicate 8 fill)
  wf := ⟨rfl, rfl⟩

/-- `r0 = bpf_map_lookup_elem(map, &0)`, where `map` is the immediate of the first instruction. -/
def lookupZero (map : Int32) : List BpfInsn :=
  [new 0x18 1 1 0 map, new 0 0 0 0 0, new 0x62 10 0 (-4) 0,
   new 0xbf 2 10 0 0, new 0x07 2 0 0 (-4), new 0x85 0 0 0 1]

/-- `r0 = lookup(0); if (r0 == 0) return 0; return *r0`. -/
def loadWord (map : Int32) : List BpfInsn :=
  lookupZero map ++ [new 0x15 0 0 2 0, new 0x79 0 0 0 0, new 0x95 0 0 0 0, new 0x95 0 0 0 0]

/-- `loadWord` of descriptor 3, as the verifier returns it. -/
def loadWordVerified : VerifiedProgram :=
  ⟨.tracepoint, loadWord 0, [(wordArray 0 (by decide) 0).ref]⟩

omit hc hmaps in
theorem loadWord_accepted : Accepted (loadWord 3) loadWordVerified :=
  ⟨true, .tracepoint, 0, some fun _ => .ok (wordArray 0 (by decide) 0).ref, {}, by decide +kernel⟩

/-- A clock at zero, one CPU, and perf events that take every sample. -/
def quietEnv : BpfEnv := ⟨fun _ => 0, fun _ => 0, fun _ _ _ => .ok ()⟩

/-! ## Memory safety -/

/-- The errors that report uninitialized, null, misaligned or read-only memory. -/
def MemoryError : BpfVmError → Prop
  | .uninitializedRegister _ => True
  | .uninitializedStack _ _ => True
  | .nullPointerDereference => True
  | .readOnlyAccess => True
  | .unalignedMemoryAccess => True
  | _ => False

theorem step_inBounds (hctx : maxContextSizeForProgType vp.progType ≤ context.length)
    {insn : BpfInsn} (hrun : Running checks vp.insns maps context env depths vm)
    (hget : vp.insns[vm.pc]? = some insn) (hthrough : throughStackOrContext insn vm.regs = true) :
    step checks vp.insns context env vm ≠ err .outOfBoundsAccess := fun hx => by
  obtain ⟨insn', hget', hout⟩ := step_outcome hc (running_sound hc hmaps hrun)
  rw [hget] at hget'
  cases hget'
  unfold Outcome at hout
  split at hout
  · rw [hx] at hout
    cases hout
  · have hfalse := Meets.error hout hx hctx
    rw [hthrough] at hfalse
    cases hfalse

end

/-- **Accepted programs are memory safe.**  Whatever the maps hold and on any context of the size
the program type promises, a run returns without an index out of range and without a memory
error, and no load or store through a stack or context pointer is out of bounds. -/
theorem accepted_memorySafe (checks : Bool) (h : Accepted insns vp)
    (hmaps : maps.map ref = vp.referencedMaps)
    (hctx : maxContextSizeForProgType vp.progType ≤ context.length) (env : BpfEnv)
    (depths : Vector Nat BPF_MAX_CPUS) :
    Returns (execute checks vp.insns maps context env depths) ∧
    (∀ e, MemoryError e → execute checks vp.insns maps context env depths ≠ err e) ∧
    ∀ vm insn, Running checks vp.insns maps context env depths vm →
      vp.insns[vm.pc]? = some insn → throughStackOrContext insn vm.regs = true →
      step checks vp.insns context env vm ≠ err .outOfBoundsAccess := by
  obtain ⟨-, seen, hc⟩ := h.certified
  refine ⟨(execute_meets hc hmaps).returns, fun e he hx => ?_,
    fun vm insn hrun hget hthrough => step_inBounds hc hmaps hctx hrun hget hthrough⟩
  have hrunError := (execute_meets hc hmaps).error hx
  cases e <;> first | exact he | exact hrunError

theorem accepted_memorySafe_loadWord :
    execute true loadWordVerified.insns [wordArray 0 (by decide) 0] (zeros 80) quietEnv
        (replicate _ 0) ≠ err .nullPointerDereference ∧
      execute true loadWordVerified.insns [wordArray 0 (by decide) 0] (zeros 80) quietEnv
        (replicate _ 0) ≠ err .unalignedMemoryAccess :=
  have h := (accepted_memorySafe true loadWord_accepted rfl (zeros_length 80).ge quietEnv _).2.1
  ⟨h _ trivial, h _ trivial⟩

/-! ## Executability -/

/-- **An accepted program is executable exactly if no run comes to an instruction the interpreter
has no case for.**  No accepted program calls an unknown helper. -/
theorem accepted_executable_iff (checks : Bool) (h : Accepted insns vp)
    (hmaps : maps.map ref = vp.referencedMaps) (context : Bytes) (env : BpfEnv)
    (depths : Vector Nat BPF_MAX_CPUS) :
    (execute checks vp.insns maps context env depths ≠ err .invalidInstruction ∧
      ∀ id, execute checks vp.insns maps context env depths ≠ err (.invalidHelperCall id)) ↔
    ∀ vm insn, Running checks vp.insns maps context env depths vm →
      vp.insns[vm.pc]? = some insn → unexecutable insn vm.regs = false := by
  obtain ⟨-, seen, hc⟩ := h.certified
  have hhelper : ∀ id, execute checks vp.insns maps context env depths ≠
      err (.invalidHelperCall id) := fun id hx => (execute_meets hc hmaps).error hx
  have hstep : ∀ vm insn, Running checks vp.insns maps context env depths vm →
      vp.insns[vm.pc]? = some insn →
      (step checks vp.insns context env vm = err .invalidInstruction ↔
        unexecutable insn vm.regs = true) := by
    intro vm insn hrun hget
    obtain ⟨insn', hget', hout⟩ := step_outcome hc (running_sound hc hmaps hrun)
    rw [hget] at hget'
    cases hget'
    exact hout.invalid_iff
  have hne : BpfVmError.invalidInstruction ≠ .recursionLimitExceeded := nofun
  constructor
  · rintro ⟨hvalid, -⟩ vm insn hrun hget
    rw [← Bool.not_eq_true, ← hstep vm insn hrun hget]
    exact fun hx => hvalid ((execute_error_iff hc hmaps hne).mpr ⟨vm, hrun, hx⟩)
  · refine fun hexec => ⟨fun hx => ?_, hhelper⟩
    obtain ⟨vm, hrun, hx⟩ := (execute_error_iff hc hmaps hne).mp hx
    have hget := List.getElem?_eq_getElem ((running_sound hc hmaps hrun).pc_lt hc)
    have htrue := (hstep vm _ hrun hget).mp hx
    rw [hexec vm _ hrun hget] at htrue
    cases htrue

theorem accepted_executable_iff_loadWord :
    (execute true loadWordVerified.insns [wordArray 0 (by decide) 0] [] quietEnv
        (replicate _ 0) ≠ err .invalidInstruction ∧
      ∀ id, execute true loadWordVerified.insns [wordArray 0 (by decide) 0] [] quietEnv
        (replicate _ 0) ≠ err (.invalidHelperCall id)) ↔
    ∀ vm insn, Running true loadWordVerified.insns [wordArray 0 (by decide) 0] [] quietEnv
        (replicate _ 0) vm →
      loadWordVerified.insns[vm.pc]? = some insn → unexecutable insn vm.regs = false :=
  accepted_executable_iff true loadWord_accepted rfl [] quietEnv _

/-- `*(u64 *)(r10 - 8) = r1; return 0`: the context pointer is spilled to the stack. -/
def spillContext : List BpfInsn :=
  [new 0x7b 10 1 (-8) 0, new 0xb7 0 0 0 0, new 0x95 0 0 0 0]

/-- The verifier accepts the spill of a pointer, the interpreter stores only scalars. -/
theorem spillContext_not_executable : Accepted spillContext ⟨.tracepoint, spillContext, []⟩ ∧
      execute true spillContext [] (zeros 80) quietEnv (replicate _ 0) = err .invalidInstruction :=
  ⟨⟨true, .tracepoint, 0, none, {}, by decide +kernel⟩, by decide +kernel⟩

/-! ## Termination -/

/-- **Accepted programs run forward.**  Every round is at an instruction of the program and goes
on, if at all, to a later one, so there are at most as many rounds as slots; the step limit is
never reached and the loop is never left at its end.  The context may be of any size. -/
theorem accepted_runsForward (checks : Bool) (h : Accepted insns vp)
    (hmaps : maps.map ref = vp.referencedMaps) (context : Bytes) (env : BpfEnv)
    (depths : Vector Nat BPF_MAX_CPUS) :
    vp.insns.length = insns.length ∧ insns.length ≤ 4096 ∧
    (∀ vm, Running checks vp.insns maps context env depths vm →
      vm.pc < insns.length ∧ secondSlot vp.insns vm.pc = false ∧ vm.steps < insns.length ∧
      ∀ vm', step checks vp.insns context env vm = .ok (.inl vm') →
        vm.pc < vm'.pc ∧ vm'.steps = vm.steps + 1) ∧
    execute checks vp.insns maps context env depths ≠ .error .hang ∧
    execute checks vp.insns maps context env depths ≠ err .stepLimitExceeded := by
  obtain ⟨hlen, seen, hc⟩ := h.certified
  refine ⟨hlen, hlen ▸ hc.length_le, fun vm hrun => ?_, (execute_meets hc hmaps).not_hang,
    fun hx => (execute_meets hc hmaps).error hx⟩
  have hs := running_sound hc hmaps hrun
  have hpc := hs.pc_lt hc
  have hsteps := hs.steps
  refine ⟨by omega, hs.slot, by omega, fun vm' hstep => ?_⟩
  exact ((step_meets hc hs).value hstep).2

theorem accepted_runsForward_loadWord :
    execute true loadWordVerified.insns [wordArray 0 (by decide) 0] [] quietEnv
      (replicate _ 0) ≠ err .stepLimitExceeded :=
  (accepted_runsForward true loadWord_accepted rfl [] quietEnv _).2.2.2.2

end PulseOS.Bpf
