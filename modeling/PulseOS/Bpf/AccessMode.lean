import PulseOS.Bpf.Soundness
import PulseOS.Bpf.WronlyMaps

/-!
# Access modes of maps

`BPF_F_RDONLY_PROG` and `BPF_F_WRONLY_PROG` restrict what a program may do with a map.  The
verifier refuses helpers that write a read-only map; it lets a program store through a pointer
into a value of one, and load through a pointer into a value of a write-only one.

* `stepInsn_leaves` — the only map an instruction can change.
* `accepted_accessModes` — the modes hold in every run that makes no such access.
-/

namespace PulseOS.Bpf

open Exec BpfInsn

variable {checks : Bool} {insns : List BpfInsn} {insn : BpfInsn} {context : Bytes} {env : BpfEnv}
  {vm : Vm} {i : Nat}

/-! ## The maps an instruction leaves alone -/

/-- If `x` returns, then with the map at index `i` as it is in `vm`. -/
def Leaves (i : Nat) (vm : Vm) (x : Exec BpfVmError Vm) : Prop :=
  ∀ vm', x = .ok vm' → vm'.maps[i]? = vm.maps[i]?

section Leaves

variable {α : Type} {x : Exec BpfVmError α} {f : α → Exec BpfVmError Vm}

theorem Leaves.bind (h : ∀ a, x = .ok a → Leaves i vm (f a)) : Leaves i vm (x >>= f) := by
  intro vm' hx
  obtain ⟨a, ha, hf⟩ := bind_eq_ok.mp hx
  exact h a ha vm' hf

theorem Leaves.ok {vm' : Vm} (h : vm'.maps[i]? = vm.maps[i]?) : Leaves i vm (.ok vm') := by
  intro vm'' hx
  cases hx
  exact h

theorem Leaves.error {h : Halt BpfVmError} : Leaves i vm (.error h) := nofun

theorem Leaves.ite {c : Prop} [Decidable c] {y z : Exec BpfVmError Vm} (hy : c → Leaves i vm y)
    (hz : ¬ c → Leaves i vm z) : Leaves i vm (if c then y else z) := by
  split
  · rename_i hc
    exact hy hc
  · rename_i hc
    exact hz hc

end Leaves

theorem setReg_leaves (r : Nat) (v : VmValue) (len : Nat) : Leaves i vm (vm.setReg r v len) :=
  .bind fun _ _ => .ok rfl

variable {vm' : Vm} {m : BpfMap} {maps : List MapRef} {st : VerifierState}

theorem callReturn_leaves (h : vm'.maps[i]? = vm.maps[i]?) (v : VmValue) :
    Leaves i vm (vm'.callReturn v) :=
  .bind fun _ _ => .bind fun _ _ => .ok h

theorem setMap_other {mapIdx : Nat} (h : mapIdx ≠ i) (m : BpfMap) :
    (vm.setMap mapIdx m).maps[i]? = vm.maps[i]? :=
  List.getElem?_set_ne h

theorem stepLd_leaves : Leaves i vm (stepLd insns insn vm) :=
  .ite (fun _ => .ite (fun _ => setReg_leaves _ _ _) fun _ => .bind fun _ _ =>
    setReg_leaves _ _ _) fun _ => .error

theorem stepAlu32_leaves : Leaves i vm (stepAlu32 insn vm) :=
  .ite (fun _ => .bind fun _ _ => setReg_leaves _ _ _) fun _ =>
    .bind fun _ _ => .bind fun _ _ => .bind fun _ _ => setReg_leaves _ _ _

theorem scalarAlu64_leaves : Leaves i vm (scalarAlu64 insn vm) :=
  .bind fun _ _ => .bind fun _ _ => .bind fun _ _ => setReg_leaves _ _ _

theorem addSub64_leaves (v : VmValue) : Leaves i vm (addSub64 checks insn vm v) := by
  cases v with
  | ptrStack _ | ptrContext _ | ptrMapValueArray _ _ _ | ptrMapValueHash _ _ _ =>
    exact .bind fun _ _ => setReg_leaves _ _ _
  | _ => exact scalarAlu64_leaves

theorem stepAlu64_leaves : Leaves i vm (stepAlu64 checks insn vm) :=
  .ite (fun _ => .ite (fun _ => setReg_leaves _ _ _) fun _ => .bind fun _ _ =>
    setReg_leaves _ _ _) fun _ => .ite (fun _ => .bind fun _ _ => addSub64_leaves _)
    fun _ => scalarAlu64_leaves

theorem stepLdx_leaves : Leaves i vm (stepLdx checks context insn vm) :=
  .bind fun _ _ => .bind fun _ _ => .bind fun _ _ => setReg_leaves _ _ _

theorem storeThrough_leaves {v : VmValue} (h : valueMap v ≠ some i) (bytes : Bytes) :
    Leaves i vm (storeThrough checks insn vm v bytes) := by
  cases v with
  | ptrStack _ =>
    exact .bind fun _ _ => .bind fun _ _ => .bind fun _ _ => .bind fun _ _ => .ok rfl
  | ptrMapValueArray mapIdx _ _ =>
    have hne : mapIdx ≠ i := fun he => h (congrArg some he)
    exact .bind fun _ _ => .bind fun _ _ => .bind fun m _ => .ok (setMap_other hne m)
  | ptrMapValueHash mapIdx _ _ =>
    have hne : mapIdx ≠ i := fun he => h (congrArg some he)
    exact .bind fun _ _ => .bind fun _ _ => .bind fun _ _ => .bind fun _ _ => .bind fun m _ =>
      .ok (setMap_other hne m)
  | scalar x =>
    unfold storeThrough
    split <;> first | contradiction | exact .error
  | _ => exact .error

theorem stepSt_leaves (h : ∀ v, vm.regs[insn.dstReg]? = some v → valueMap v ≠ some i) :
    Leaves i vm (stepSt checks insn vm) := by
  refine .bind fun _ _ => .bind fun _ _ => .bind fun _ _ => .bind fun v hv => ?_
  obtain ⟨hr, hv⟩ := vget_eq_ok.mp hv
  exact storeThrough_leaves (h v (Vector.getElem?_eq_some_iff.mpr ⟨hr, hv⟩)) _

section Calls

variable (h : vm.regs[BPF_REG_1]? ≠ some (.ptrMap i))

include h

theorem callUpdate_leaves : Leaves i vm (callUpdate checks vm) := by
  refine .bind fun p hp => ?_
  have hne : p.1 ≠ i := fun he => h (he ▸ (helperMap_reg hp).1)
  refine .bind fun _ _ => .bind fun _ _ => .bind fun _ _ => .bind fun _ _ => .bind fun _ _ => ?_
  exact callReturn_leaves (setMap_other hne _) _

theorem callDelete_leaves : Leaves i vm (callDelete checks vm) := by
  refine .bind fun p hp => ?_
  have hne : p.1 ≠ i := fun he => h (he ▸ (helperMap_reg hp).1)
  exact .bind fun _ _ => .bind fun _ _ => callReturn_leaves (setMap_other hne _) _

theorem callRingbufOutput_leaves : Leaves i vm (callRingbufOutput context vm) := by
  refine .bind fun p hp => ?_
  have hne : p.1 ≠ i := fun he => h (he ▸ (helperMap_reg hp).1)
  refine .ite (fun _ => .error) fun _ => .bind fun _ _ => .bind fun _ _ => .bind fun _ _ => ?_
  exact .bind fun _ _ => .bind fun _ _ => callReturn_leaves (setMap_other hne _) _

end Calls

theorem callLookup_leaves : Leaves i vm (callLookup checks vm) :=
  .bind fun _ _ => .bind fun _ _ => .bind fun _ _ => callReturn_leaves rfl _

theorem callPerfEventOutput_leaves : Leaves i vm (callPerfEventOutput context env vm) := by
  refine .bind fun _ _ => .ite (fun _ => .error) fun _ => .bind fun _ _ => ?_
  refine .ite (fun _ => callReturn_leaves rfl _) fun _ => .bind fun _ _ => ?_
  exact .bind fun _ _ => .bind fun _ _ => callReturn_leaves rfl _

/-- The helpers that write the map in R1. -/
def writesMap (helper : Int32) : Bool :=
  helper == BPF_FUNC_MAP_UPDATE_ELEM || helper == BPF_FUNC_MAP_DELETE_ELEM ||
    helper == BPF_FUNC_RINGBUF_OUTPUT

theorem stepCall_leaves (h : writesMap insn.imm = true → vm.regs[BPF_REG_1]? ≠ some (.ptrMap i)) :
    Leaves i vm (stepCall checks context env insn vm) := by
  refine .ite (fun _ => callLookup_leaves) fun _ => ?_
  refine .ite (fun he => callUpdate_leaves (h (by rw [he]; rfl))) fun _ => ?_
  refine .ite (fun he => callDelete_leaves (h (by rw [he]; rfl))) fun _ => ?_
  refine .ite (fun _ => callReturn_leaves rfl _) fun _ => ?_
  refine .ite (fun _ => callReturn_leaves rfl _) fun _ => ?_
  refine .ite (fun _ => callPerfEventOutput_leaves) fun _ => ?_
  refine .ite (fun he => callRingbufOutput_leaves (h (by rw [he]; rfl))) fun _ => ?_
  exact .ite (fun _ => .error) fun _ => .error

/-- **The maps an instruction leaves alone**: all but the one a store goes into or a helper that
writes maps is given. -/
theorem stepInsn_leaves (hstore : insn.cls = BPF_ST ∨ insn.cls = BPF_STX →
      ∀ v, vm.regs[insn.dstReg]? = some v → valueMap v ≠ some i)
    (hcall : insn.isCall = true → writesMap insn.imm = true →
      vm.regs[BPF_REG_1]? ≠ some (.ptrMap i))
    (h : stepInsn checks insns context env insn vm = .ok (.inl vm')) :
    vm'.maps[i]? = vm.maps[i]? := by
  have hcont : ∀ {x : Exec BpfVmError Vm}, Leaves i vm x →
      (x >>= fun vm => .ok (.inl vm) : Exec BpfVmError (Vm ⊕ UInt64)) = .ok (.inl vm') →
      vm'.maps[i]? = vm.maps[i]? := by
    intro x hx he
    obtain ⟨a, ha, he⟩ := bind_eq_ok.mp he
    cases he
    exact hx _ ha
  unfold stepInsn at h
  split at h
  · exact hcont stepLd_leaves h
  split at h
  · exact hcont stepAlu32_leaves h
  split at h
  · exact hcont stepAlu64_leaves h
  split at h
  · exact hcont stepLdx_leaves h
  split at h
  · rename_i hcls
    exact hcont (stepSt_leaves (hstore hcls)) h
  split at h
  · unfold stepJmp at h
    split at h
    · obtain ⟨_, -, h⟩ := bind_eq_ok.mp h
      cases h
    split at h
    · cases h
      rfl
    split at h
    · rename_i hc
      exact hcont (stepCall_leaves (hcall hc)) h
    · refine hcont ?_ h
      exact .bind fun _ _ => .ok rfl
  · cases h

/-! ## Accepted calls do not write read-only maps -/

theorem AbsStep.callOk {limit pc : Nat}
    {succs : List (Nat × VerifierState)} (h : AbsStep maps limit pc insn st succs)
    (hcall : insn.isCall = true) : ∃ r0, CallOk maps st insn.imm r0 := by
  have hcls := isCall_cls hcall
  have hcode : insn.code = BPF_JMP ||| BPF_CALL := beq_iff_eq.mp hcall
  cases h with
  | call _ _ _ ok => exact ⟨_, ok⟩
  | ldMap ld _ _ _ _ | ldImm ld _ _ =>
    exact absurd ((isLdImm64_cls insn ld).symm.trans hcls) (by decide)
  | load cls _ _ _ _ => exact absurd (cls.symm.trans hcls) (by decide)
  | exit exit _ =>
    rw [isExit, hcode] at exit
    exact absurd exit (by decide)
  | ja _ ja =>
    rw [isJa, hcode] at ja
    exact absurd ja (by decide)
  | branch _ _ _ call =>
    rw [hcall] at call
    cases call
  | movImm cls _ _ _ => rcases cls with cls | cls <;> exact absurd (cls.symm.trans hcls) (by decide)
  | movReg cls _ _ _ _ _ | alu cls _ _ _ | move cls _ _ _ _ | store cls _ _ _ _ =>
    rcases cls with cls | cls <;> exact absurd (cls.symm.trans hcls) (by decide)

theorem not_rdonlyProg_ringBuf {spec : BpfMapSpec} (h : spec.mapType = .ringBuf) :
    ¬ spec.RdonlyProg := by
  have hflags := spec.flagsOk.1
  rw [h] at hflags
  have hzero : spec.mapFlags = 0 := by simpa [BpfMapType.allowedFlags] using hflags
  simp [BpfMapSpec.RdonlyProg, hzero]

/-- The map a call may write is not read-only. -/
theorem CallOk.not_rdonly {helper : Int32}
    {r0 : RegType} (h : CallOk maps st helper r0) (hwrites : writesMap helper = true)
    (hm : Models maps st vm) (hreg : vm.regs[BPF_REG_1]? = some (.ptrMap i))
    (hmap : vm.maps[i]? = some m) : ¬ m.spec.RdonlyProg := by
  -- the map the verifier has seen in R1 is the one at run time
  have hsame : ∀ {mapIdx : Nat} {ref : MapRef}, MapIn maps st BPF_REG_1 mapIdx ref →
      ref.spec = m.spec := by
    intro mapIdx ref hin
    obtain ⟨v, hv, hty⟩ := hm.regs _ _ hin.1
    rw [hreg] at hv
    cases hv
    cases hty
    have hget := hin.2
    rw [← hm.maps, List.getElem?_map, hmap] at hget
    cases hget
    rfl
  cases h with
  | update map writable _ _ _ | delete map _ writable _ => exact hsame map ▸ writable
  | ringbufOutput map type _ _ _ => exact hsame map ▸ not_rdonlyProg_ringBuf type
  | _ => exact absurd hwrites (by decide)

/-! ## Runs -/

/-- The instruction respects the access modes: no store goes into a value of a read-only map and
no value of a write-only map is read out. -/
@[mk_iff]
structure RespectsModes (insn : BpfInsn) (vm : Vm) : Prop extends ReadsNoWronly insn vm where
  store : insn.cls = BPF_ST ∨ insn.cls = BPF_STX → ¬ PointsInto BpfMapSpec.RdonlyProg vm insn.dstReg

instance (insn : BpfInsn) (vm : Vm) : Decidable (RespectsModes insn vm) :=
  decidable_of_iff' _ (respectsModes_iff insn vm)

variable {vp : VerifiedProgram} {seen : List (Nat × VerifierState)} {maps : List BpfMap}
  {depths : Vector Nat BPF_MAX_CPUS}

theorem step_leaves_rdonly (hc : Certified vp seen) (hs : Sound vp seen vm)
    (hmodes : ∀ insn, vp.insns[vm.pc]? = some insn → RespectsModes insn vm)
    (hstep : step checks vp.insns context env vm = .ok (.inl vm')) (hmap : vm.maps[i]? = some m)
    (hm : m.spec.RdonlyProg) : vm'.maps[i]? = some m := by
  obtain ⟨st, hmem, hmodels⟩ := hs.state
  obtain ⟨insn, succs, hget, -, hrule, -⟩ := hc.typed _ hmem
  unfold step at hstep
  split at hstep
  swap
  · cases hstep
  split at hstep
  · cases hstep
  rw [get_of_some hget, ok_bind] at hstep
  have hleaves : vm'.maps[i]? = ({ vm with steps := vm.steps + 1 } : Vm).maps[i]? := by
    refine stepInsn_leaves ?_ ?_ hstep
    · intro hcls v hv hvalue
      refine (hmodes insn hget).store hcls ⟨m, ?_, hm⟩
      simp [pointedMap, hv, hvalue, hmap]
    · intro hcall hwrites hreg
      obtain ⟨r0, hok⟩ := hrule.callOk hcall
      exact hok.not_rdonly hwrites hmodels hreg hmap hm
  exact hleaves.trans hmap

/-- The read-only maps at the start stay as they are. -/
theorem running_rdonly (hc : Certified vp seen) (hmaps : maps.map BpfMap.ref = vp.referencedMaps)
    (hmodes : ∀ vm insn, Running checks vp.insns maps context env depths vm →
      vp.insns[vm.pc]? = some insn → RespectsModes insn vm)
    (hrun : Running checks vp.insns maps context env depths vm) (hmap : maps[i]? = some m)
    (hm : m.spec.RdonlyProg) : vm.maps[i]? = some m := by
  -- the invariant carries that the run gets there, for the condition on its next instruction
  refine (Loop.Reaches.invariant
    (I := fun vm => Loop.Reaches (step checks vp.insns context env) (Vm.start maps) vm ∧
      vm.maps[i]? = some m) hrun.2 ⟨.refl, hmap⟩ fun vm vm' hi hstep => ?_).2
  have hrun' : Running checks vp.insns maps context env depths vm := ⟨hrun.1, hi.1⟩
  refine ⟨hi.1.tail hstep, ?_⟩
  exact step_leaves_rdonly hc (running_sound hc hmaps hrun')
    (fun insn hget => hmodes vm insn hrun' hget) hstep hi.2 hm

/-- Two machines with one view take the same step in any environment. -/
theorem SameView.step (h : SameView vm vm')
    (hread : ∀ insn, insns[vm.pc]? = some insn → ReadsNoWronly insn vm) (env : BpfEnv) :
    Agree SameRound (step checks insns context env vm) (step checks insns context env vm') := by
  rw [h.eq]
  exact step_sameView h.maps hread

/-- **Access modes hold in runs that respect them.**  If no instruction a run comes to stores into
a read-only map or reads out of a write-only one, then before every round, the last included, the
read-only maps are as they were at the start; and with other value bytes in the write-only maps the
program returns the same, in rounds that differ in nothing but those bytes and in any environment
end in the same way. -/
theorem accepted_accessModes (checks : Bool) (h : Accepted insns vp)
    (hmaps : maps.map BpfMap.ref = vp.referencedMaps) (context : Bytes) (env : BpfEnv)
    (depths : Vector Nat BPF_MAX_CPUS)
    (hmodes : ∀ vm insn, Running checks vp.insns maps context env depths vm →
      vp.insns[vm.pc]? = some insn → RespectsModes insn vm) :
    (∀ vm, Running checks vp.insns maps context env depths vm →
      ∀ (i : Nat) (m : BpfMap), maps[i]? = some m → m.spec.RdonlyProg → vm.maps[i]? = some m) ∧
    ∀ maps', MapsSimilar maps maps' →
      execute checks vp.insns maps' context env depths =
        execute checks vp.insns maps context env depths ∧
      ∀ vm, Running checks vp.insns maps context env depths vm →
        ∃ vm', Running checks vp.insns maps' context env depths vm' ∧ SameView vm vm' ∧
          ∀ env', Agree SameRound (step checks vp.insns context env' vm)
            (step checks vp.insns context env' vm') := by
  obtain ⟨-, seen, hc⟩ := h.certified
  refine ⟨fun vm hrun i m hmap hm => running_rdonly hc hmaps hmodes hrun hmap hm, ?_⟩
  intro maps' hsim
  have hstart : SameView (Vm.start maps) (Vm.start maps') := ⟨rfl, hsim⟩
  have hstep : ∀ vm vm', Running checks vp.insns maps context env depths vm → SameView vm vm' →
      ∀ env', Agree SameRound (step checks vp.insns context env' vm)
        (step checks vp.insns context env' vm') := fun vm vm' hrun hview =>
    hview.step fun insn hget => (hmodes vm insn hrun hget).toReadsNoWronly
  refine ⟨?_, fun vm hrun => ?_⟩
  · rw [execute_eq, execute_eq]
    split
    · rfl
    · rename_i hdepth
      exact (iter_eq hstart (fun vm vm' hreach hview => hstep vm vm' ⟨not_le.mp hdepth, hreach⟩ hview
        env) _).symm
  · obtain ⟨vm', hreach, hview⟩ := Reaches.inStep hstart (fun vm vm' hreach hview =>
      hstep vm vm' ⟨hrun.1, hreach⟩ hview env) hrun.2
    exact ⟨vm', ⟨hrun.1, hreach⟩, hview, hstep vm vm' hrun hview⟩

/-! ## Programs on restricted maps -/

/-- `wordArray` for programs that only write, or only read. -/
def wronlyArray (fill : UInt8) : BpfMap :=
  { wordArray BPF_F_WRONLY_PROG (by decide) fill with id := 2 }

def rdonlyArray : BpfMap := wordArray BPF_F_RDONLY_PROG (by decide) 0

/-- `r0 = lookup(0); if (r0 == 0) return 0; stack = *r0; update(dst, 0, stack); return 0`. -/
def copyWord (src dst : Int32) : List BpfInsn :=
  lookupZero src ++ [new 0x15 0 0 10 0, new 0x79 6 0 0 0, new 0x7b 10 6 (-16) 0,
    new 0x18 1 1 0 dst, new 0 0 0 0 0, new 0xbf 2 10 0 0, new 0x07 2 0 0 (-4),
    new 0xbf 3 10 0 0, new 0x07 3 0 0 (-16), new 0xb7 4 0 0 0, new 0x85 0 0 0 2,
    new 0xb7 0 0 0 0, new 0x95 0 0 0 0]

def copyWordVerified : VerifiedProgram :=
  ⟨.tracepoint, copyWord 0 1, [rdonlyArray.ref, (wronlyArray 0).ref]⟩

theorem copyWord_accepted : Accepted (copyWord 3 4) copyWordVerified :=
  ⟨true, .tracepoint, 0,
    some fun fd => .ok (if fd = 3 then rdonlyArray.ref else (wronlyArray 0).ref), {},
    by decide +kernel⟩

theorem copyWord_respectsModes (vm : Vm) (insn : BpfInsn)
    (hrun : Running true copyWordVerified.insns [rdonlyArray, wronlyArray 5] [] quietEnv
      (Vector.replicate _ 0) vm) (hget : copyWordVerified.insns[vm.pc]? = some insn) :
    RespectsModes insn vm := by
  refine Loop.forall_reaches (P := fun vm => ∀ insn ∈ copyWordVerified.insns[vm.pc]?,
    RespectsModes insn vm) (n := 17) ?_ ?_ vm hrun.2 insn hget
  · decide +kernel
  · decide +kernel

theorem wronlyArray_similar :
    MapsSimilar [rdonlyArray, wronlyArray 5] [rdonlyArray, wronlyArray 7] := by
  intro i
  match i with
  | 0 => exact .some (.refl _)
  | 1 => exact .some ⟨rfl, fun _ => .array rfl, fun h => absurd (by decide) h⟩
  | _ + 2 => exact .none

/-- A word goes from a read-only into a write-only map, whatever was there. -/
theorem accepted_accessModes_copyWord :
    (∃ vm, Running true copyWordVerified.insns [rdonlyArray, wronlyArray 5] [] quietEnv
        (Vector.replicate _ 0) vm ∧ vm.maps[0]? = some rdonlyArray ∧
      vm.maps[1]?.map (fun m => m.lookup (zeros 4) 8) = some (.ok (zeros 8))) ∧
    execute true copyWordVerified.insns [rdonlyArray, wronlyArray 7] [] quietEnv
        (Vector.replicate _ 0) =
      execute true copyWordVerified.insns [rdonlyArray, wronlyArray 5] [] quietEnv
        (Vector.replicate _ 0) := by
  have hmodes := accepted_accessModes true copyWord_accepted rfl [] quietEnv _
    copyWord_respectsModes
  refine ⟨?_, (hmodes.2 _ wronlyArray_similar).1⟩
  have hrun : (Loop.after (step true copyWordVerified.insns [] quietEnv) 16
      (Vm.start [rdonlyArray, wronlyArray 5])).map
      (fun vm => vm.maps[1]?.map fun m => m.lookup (zeros 4) 8) = some (some (.ok (zeros 8))) := by
    decide +kernel
  obtain ⟨vm, hafter, hvm⟩ := Option.map_eq_some_iff.mp hrun
  have hvm' : Running true copyWordVerified.insns [rdonlyArray, wronlyArray 5] [] quietEnv
      (Vector.replicate _ 0) vm := ⟨by decide, Loop.reaches_of_after hafter⟩
  exact ⟨vm, hvm', hmodes.1 vm hvm' 0 rdonlyArray rfl (by decide), hvm⟩

/-- `r0 = lookup(0); if (r0 == 0) return 0; *r0 = 1; return 0`. -/
def storeWord (map : Int32) : List BpfInsn :=
  lookupZero map ++ [new 0x15 0 0 3 0, new 0x7a 0 0 0 1,
    new 0xb7 0 0 0 0, new 0x95 0 0 0 0, new 0x95 0 0 0 0]

/-- The verifier accepts a program that writes a read-only map and one that returns the value of
a write-only map. -/
theorem accessModes_violated :
    (Accepted (storeWord 3) ⟨.tracepoint, storeWord 0, [rdonlyArray.ref]⟩ ∧
      rdonlyArray.spec.RdonlyProg ∧
      ∃ vm, Running true (storeWord 0) [rdonlyArray] [] quietEnv (Vector.replicate _ 0) vm ∧
        vm.maps[0]?.map (fun m => m.lookup (zeros 4) 8) = some (.ok [1, 0, 0, 0, 0, 0, 0, 0])) ∧
    (Accepted (loadWord 3) ⟨.tracepoint, loadWord 0, [(wronlyArray 7).ref]⟩ ∧
      (wronlyArray 7).spec.WronlyProg ∧
      execute true (loadWord 0) [wronlyArray 7] [] quietEnv (Vector.replicate _ 0) =
        .ok 0x0707070707070707) := by
  refine ⟨⟨⟨true, .tracepoint, 0, some fun _ => .ok rdonlyArray.ref, {}, by decide +kernel⟩,
    by decide, ?_⟩, ⟨true, .tracepoint, 0, some fun _ => .ok (wronlyArray 7).ref, {},
    by decide +kernel⟩, by decide, by decide +kernel⟩
  have hrun : (Loop.after (step true (storeWord 0) [] quietEnv) 8 (Vm.start [rdonlyArray])).map
      (fun vm => vm.maps[0]?.map fun m => m.lookup (zeros 4) 8) =
      some (some (.ok [1, 0, 0, 0, 0, 0, 0, 0])) := by decide +kernel
  obtain ⟨vm, hafter, hvm⟩ := Option.map_eq_some_iff.mp hrun
  exact ⟨vm, ⟨by decide, Loop.reaches_of_after hafter⟩, hvm⟩

end PulseOS.Bpf
