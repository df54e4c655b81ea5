import PulseOS.Bpf.ControlFlow
import PulseOS.Bpf.VerifierRules

/-!
# When the verifier faults

* `verifyProgram_returns_iff` — in a build with overflow checks the verifier returns exactly if
  pass 2 takes up no faulty state.
-/

namespace PulseOS.Bpf

open Exec List BpfInsn VerifierState Worklist

variable {checks : Bool} {config : VerifierConfig} {insns : List BpfInsn}
  {resolver : Option MapResolver} {k pc : Nat} {refs refs' : Refs} {st : VerifierState}
  {insn : BpfInsn}

/-! ## Abstract states move forward -/

theorem not_exit_of_cls (h : insn.cls ≠ BPF_JMP) : insn.isExit = false ∧ insn.isJa = false := by
  revert h
  unfold cls isExit isJa
  generalize insn.code = c
  revert c
  apply UInt8.forall_of_bitVec
  decide

theorem not_exit_of_isLdImm64 (h : insn.isLdImm64 = true) :
    insn.isExit = false ∧ insn.isJa = false := by
  apply not_exit_of_cls
  rw [isLdImm64_cls insn h]
  decide

/-- The slots control can move to from an instruction. -/
def Forward (insns : List BpfInsn) (pc pc' : Nat) : Prop :=
  pc < pc' ∧ pc' < insns.length ∧ secondSlot insns pc' = false

theorem InsnFlows.forward_next (h : InsnFlows insns pc insn) (hget : insns[pc]? = some insn)
    (hpc : secondSlot insns pc = false) (hne : insn.isExit = false ∧ insn.isJa = false) :
    Forward insns pc (nextPc pc insn) :=
  ⟨lt_nextPc pc insn, h.next hne.1 hne.2, secondSlot_nextPc hget hpc⟩

variable {succs : List (Nat × VerifierState)} {s : Nat × VerifierState} {maps : List MapRef}

/-- **Accepted instructions move forward to a first slot.** -/
theorem AbsStep.flows {limit : Nat}
    (h : AbsStep maps limit pc insn st succs) (hget : insns[pc]? = some insn)
    (hpc : secondSlot insns pc = false) (hflow : InsnFlows insns pc insn) :
    ∀ s ∈ succs, Forward insns pc s.1 := by
  have hone : ∀ {pc' : Nat} {st' : VerifierState}, Forward insns pc pc' →
      ∀ s ∈ [(pc', st')], Forward insns pc s.1 := by
    intro pc' st' h' s hs
    rw [mem_singleton.mp hs]
    exact h'
  have hnext : insn.isExit = false ∧ insn.isJa = false → Forward insns pc (nextPc pc insn) :=
    hflow.forward_next hget hpc
  have hother : ∀ {c : UInt8}, insn.cls = c → c ≠ BPF_JMP → Forward insns pc (nextPc pc insn) :=
    fun hc hne => hnext (not_exit_of_cls (hc ▸ hne))
  have halu : insn.cls = BPF_ALU ∨ insn.cls = BPF_ALU64 → Forward insns pc (nextPc pc insn) := by
    rintro (hc | hc) <;> exact hother hc (by decide)
  cases h with
  | ldMap ld | ldImm ld => exact hone (hnext (not_exit_of_isLdImm64 ld))
  | movImm cls | movReg cls | alu cls | move cls => exact hone (halu cls)
  | load cls => exact hone (hother cls (by decide))
  | store cls =>
    rcases cls with hc | hc
    · exact hone (hother hc (by decide))
    · exact hone (hother hc (by decide))
  | exit => nofun
  | ja _ ja => exact hone (hflow.target (isJa_jumps ja))
  | call exit ja => exact hone (hnext ⟨exit, ja⟩)
  | branch cls exit ja call =>
    have hjumps : insn.Jumps := by
      refine ⟨?_, exit, call⟩
      rcases cls with hc | hc
      · exact .inl (by simp [isJmp, hc])
      · exact .inr (by simp [isJmp32, hc])
    intro s hs
    rcases mem_cons.mp hs with rfl | hs
    · exact hnext ⟨exit, ja⟩
    · exact hone (hflow.target hjumps) s hs

/-! ## One visit -/

theorem mapIndex_spec (refs : Refs) (map : MapRef) : refs.maps <+: (refs.mapIndex map).2 ∧
      (refs.mapIndex map).2.findIdx? (fun m => m.id == map.id) = some (refs.mapIndex map).1 := by
  unfold Refs.mapIndex
  split
  · rename_i idx hidx
    exact ⟨prefix_refl _, hidx⟩
  · rename_i hnone
    refine ⟨prefix_append _ _, ?_⟩
    rw [List.findIdx?_append, hnone]
    simp

theorem mapIndex_lt (refs : Refs) (map : MapRef) :
    (refs.mapIndex map).1 < (refs.mapIndex map).2.length := by
  have h := (mapIndex_spec refs map).2
  rw [List.findIdx?_eq_some_iff_getElem] at h
  exact h.1

/-- The relocations behind a `LD_IMM64` of a map. -/
def Refs.relocated (refs : Refs) (pc mapIdx : Nat) : List (Nat × Nat) :=
  if refs.relocations.any (·.1 == pc) then refs.relocations
  else refs.relocations ++ [(pc, mapIdx)]

theorem loadMap_eq_ok {mapIdx : Nat} (h : loadMap resolver k refs pc insn = .ok (mapIdx, refs')) :
    ∃ resolve map, resolver = some resolve ∧ resolve k insn.imm.toUInt32 = .ok map ∧
      mapIdx = (refs.mapIndex map).1 ∧
      refs' = ⟨(refs.mapIndex map).2, refs.relocated pc (refs.mapIndex map).1⟩ := by
  unfold loadMap at h
  simp only at h
  split at h
  · cases h
  · rename_i resolve
    split at h
    · cases h
    · rename_i map hmap
      cases h
      exact ⟨resolve, map, rfl, hmap, rfl, rfl⟩

theorem loadMap_meets : Yields (loadMap resolver k refs pc insn) fun _ => ∃ resolve map,
    resolver = some resolve ∧ resolve k insn.imm.toUInt32 = .ok map := by
  unfold loadMap
  simp only
  split
  · trivial
  · rename_i resolve
    split
    · trivial
    · rename_i map hmap
      exact ⟨resolve, map, rfl, hmap⟩

theorem simulate_cases
    (h : simulate checks config insns resolver k refs (pc, st) = .ok (succs, refs')) :
    ∃ insn, insns[pc]? = some insn ∧
      ((insn.isLdImm64 = true ∧ insn.srcReg = BPF_PSEUDO_MAP_FD ∧ insn.dstReg ≤ 10 ∧
          ∃ mapIdx, loadMap resolver k refs pc insn = .ok (mapIdx, refs') ∧
            succs = [(nextPc pc insn, st.put insn.dstReg (.ptrMap mapIdx))]) ∨
       (insn.isLdImm64 = true ∧ insn.srcReg ≠ BPF_PSEUDO_MAP_FD ∧ insn.dstReg ≤ 10 ∧
          refs' = refs ∧ succs = [(nextPc pc insn, st.put insn.dstReg .scalar)]) ∨
       (insn.isLdImm64 = false ∧ refs' = refs ∧
          simInsn checks config refs.maps pc insn st = .ok succs)) := by
  have hset : ∀ {r : Nat} {t : RegType} {st' : VerifierState}, st.setReg r t = .ok st' →
      r ≤ 10 ∧ st' = st.put r t := by
    intro r t st' hs
    by_cases hr : r ≤ 10
    · rw [st.setReg_eq hr] at hs
      cases hs
      exact ⟨hr, rfl⟩
    · simp [setReg, vset, show ¬ r < 11 by omega] at hs
  obtain ⟨insn, hget, h⟩ := bind_eq_ok.mp h
  refine ⟨insn, get_eq_ok.mp hget, ?_⟩
  split at h
  · rename_i hld
    split at h
    · rename_i hmap
      obtain ⟨⟨mapIdx, refs₁⟩, hload, h⟩ := bind_eq_ok.mp h
      obtain ⟨st', hst', h⟩ := bind_eq_ok.mp h
      obtain ⟨hr, rfl⟩ := hset hst'
      cases h
      exact .inl ⟨hld, hmap, hr, mapIdx, hload, rfl⟩
    · rename_i hmap
      obtain ⟨st', hst', h⟩ := bind_eq_ok.mp h
      obtain ⟨hr, rfl⟩ := hset hst'
      cases h
      exact .inr (.inl ⟨hld, hmap, hr, rfl, rfl⟩)
  · rename_i hld
    obtain ⟨succs', hsim, h⟩ := bind_eq_ok.mp h
    cases h
    exact .inr (.inr ⟨by simpa using hld, rfl, hsim⟩)

/-- An instruction that pass 2 accepts in a well-formed state follows a rule. -/
theorem simInsn_absStep (hst : StateOk maps (maxContextSizeForProgType config.progType) st)
    (hregs : insn.dstReg ≤ 10 ∧ insn.srcReg ≤ 10)
    (h : simInsn checks config maps pc insn st = .ok succs) :
    AbsStep maps (maxContextSizeForProgType config.progType) pc insn st succs := by
  refine (simInsn_meets hst hregs.1 hregs.2 fun hc ho => ?_).value h
  rw [hc, simInsn_overflow ho] at h
  cases h

/-! ## What holds of the states taken up -/

/-- A well-formed state at a first slot of the program. -/
structure PlacedOk (insns : List BpfInsn) (limit : Nat) (refs : Refs) (s : Nat × VerifierState) :
    Prop where
  lt : s.1 < insns.length
  first : secondSlot insns s.1 = false
  state : StateOk refs.maps limit s.2

theorem simulate_maps
    (h : simulate checks config insns resolver k refs (pc, st) = .ok (succs, refs')) :
    refs.maps <+: refs'.maps := by
  obtain ⟨insn, -, ⟨-, -, -, mapIdx, hload, -⟩ | ⟨-, -, -, rfl, -⟩ | ⟨-, rfl, -⟩⟩ :=
    simulate_cases h
  · obtain ⟨_, map, -, -, -, rfl⟩ := loadMap_eq_ok hload
    exact (mapIndex_spec refs map).1
  · exact prefix_refl _
  · exact prefix_refl _

theorem simulate_forward (hflow : WellFlowing insns)
    (hs : PlacedOk insns (maxContextSizeForProgType config.progType) refs s)
    (h : simulate checks config insns resolver k refs s = .ok (succs, refs')) :
    ∀ t ∈ succs, Forward insns s.1 t.1 := by
  obtain ⟨pc, st⟩ := s
  obtain ⟨insn, hget, ⟨hld, -, -, mapIdx, -, rfl⟩ | ⟨hld, -, -, -, rfl⟩ | ⟨hld, rfl, hsim⟩⟩ :=
    simulate_cases h
  all_goals have hin := hflow pc insn hget hs.first
  iterate 2
    · intro t ht
      rw [mem_singleton.mp ht]
      exact hin.forward_next hget hs.first (not_exit_of_isLdImm64 hld)
  · exact (simInsn_absStep hs.state (hin.regs hld) hsim).flows hget hs.first hin

theorem simulate_placedOk (hflow : WellFlowing insns)
    (hs : PlacedOk insns (maxContextSizeForProgType config.progType) refs (pc, st))
    (h : simulate checks config insns resolver k refs (pc, st) = .ok (succs, refs')) :
    ∀ t ∈ succs, PlacedOk insns (maxContextSizeForProgType config.progType) refs' t := by
  have hstate : ∀ t ∈ succs,
      StateOk refs'.maps (maxContextSizeForProgType config.progType) t.2 := by
    have hmaps := simulate_maps h
    obtain ⟨insn, hget, ⟨hld, -, -, mapIdx, hload, rfl⟩ | ⟨hld, -, -, rfl, rfl⟩ |
      ⟨hld, rfl, hsim⟩⟩ := simulate_cases h
    · obtain ⟨_, map, -, -, rfl, rfl⟩ := loadMap_eq_ok hload
      have htype : TypeOk (refs.mapIndex map).2 (maxContextSizeForProgType config.progType)
          (.ptrMap (refs.mapIndex map).1) := mapIndex_lt refs map
      intro t ht
      rw [mem_singleton.mp ht]
      exact (hs.state.mono hmaps).put htype _
    · intro t ht
      rw [mem_singleton.mp ht]
      exact hs.state.put (typeOk_scalar _ _) _
    · have hregs := (hflow pc insn hget hs.first).regs hld
      exact (simInsn_absStep hs.state hregs hsim).stateOk hs.state
  intro t ht
  have hfw := simulate_forward hflow hs h t ht
  exact ⟨hfw.2.1, hfw.2.2, hstate t ht⟩

theorem taken_placedOk (hflow : WellFlowing insns) (hn : insns.length ≠ 0)
    (h : Taken (explorer checks config insns resolver) (0, initial) ⟨[], []⟩ k refs s) :
    PlacedOk insns (maxContextSizeForProgType config.progType) refs s := by
  refine Taken.invariant h ⟨Nat.pos_of_ne_zero hn, rfl, initial_stateOk _ _⟩ ?_
  intro k refs s succs refs' hs hv
  obtain ⟨pc, st⟩ := s
  refine ⟨fun t ht => ⟨ht.lt, ht.first, ht.state.mono (simulate_maps hv)⟩, ?_⟩
  exact simulate_placedOk hflow hs hv

/-! ## Faults -/

/-- The visit of `s` faults: a `LD_IMM64` names a register that does not exist (and its map, if it
names one, is resolved), or the offset of a pointer leaves the range of `i32`. -/
def Faulty (insns : List BpfInsn) (resolver : Option MapResolver) (k : Nat)
    (s : Nat × VerifierState) : Prop :=
  ∃ insn, insns[s.1]? = some insn ∧
    ((insn.isLdImm64 = true ∧ insn.dstReg > 10 ∧ (insn.srcReg = BPF_PSEUDO_MAP_FD →
        ∃ resolve map, resolver = some resolve ∧ resolve k insn.imm.toUInt32 = .ok map)) ∨
     (insn.isLdImm64 = false ∧ AddSubOverflows insn s.2))

theorem simulate_faults (h : Faulty insns resolver k (pc, st)) :
    ∃ f, simulate true config insns resolver k refs (pc, st) = panic f := by
  obtain ⟨insn, hget, ⟨hld, hdst, hmap⟩ | ⟨hld, hover⟩⟩ := h
  · have hset : ∀ t, st.setReg insn.dstReg t = panic .index := by
      intro t
      simp [setReg, vset, show ¬ insn.dstReg < 11 by omega]
    refine ⟨.index, ?_⟩
    by_cases hsrc : insn.srcReg = BPF_PSEUDO_MAP_FD
    · obtain ⟨resolve, map, rfl, hres⟩ := hmap hsrc
      simp [simulate, get_of_some hget, hld, hsrc, loadMap, hres, hset]
    · simp [simulate, get_of_some hget, hld, hsrc, hset]
  · exact ⟨.overflow, by simp [simulate, get_of_some hget, hld, simInsn_overflow hover]⟩

theorem simulate_meets (hflow : WellFlowing insns)
    (hs : PlacedOk insns (maxContextSizeForProgType config.progType) refs (pc, st))
    (h : ¬ Faulty insns resolver k (pc, st)) :
    Returns (simulate true config insns resolver k refs (pc, st)) := by
  obtain ⟨insn, hget⟩ : ∃ insn, insns[pc]? = some insn := ⟨_, List.getElem?_eq_getElem hs.lt⟩
  have hin := hflow pc insn hget hs.first
  unfold simulate
  simp only
  rw [get_of_some hget, ok_bind]
  split
  · rename_i hld
    split
    · refine (loadMap_meets (k := k)).bind fun p hres => ?_
      have hdst : insn.dstReg ≤ 10 := by
        by_contra hgt
        exact h ⟨_, hget, .inl ⟨hld, by omega, fun _ => hres⟩⟩
      rw [st.setReg_eq hdst]
      trivial
    · rename_i hmap
      have hdst : insn.dstReg ≤ 10 := by
        by_contra hgt
        exact h ⟨_, hget, .inl ⟨hld, by omega, fun he => absurd he hmap⟩⟩
      rw [st.setReg_eq hdst]
      trivial
  · rename_i hld
    have hld' : insn.isLdImm64 = false := by simpa using hld
    have hregs := hin.regs hld'
    refine (simInsn_meets hs.state hregs.1 hregs.2 fun _ ho => ?_).bind fun _ _ => trivial
    exact h ⟨_, hget, .inr ⟨hld', ho⟩⟩

/-! ## The whole verifier -/

/-- Pass 2 takes up the abstract state `s`. -/
def Explored (config : VerifierConfig) (insns : List BpfInsn) (resolver : Option MapResolver)
    (k : Nat) (s : Nat × VerifierState) : Prop :=
  insns.length ≠ 0 ∧ insns.length ≤ config.maxInsns ∧ (∃ slot2, pass1 insns = .ok slot2) ∧
    ∃ refs, Taken (explorer true config insns resolver) (0, initial) ⟨[], []⟩ k refs s

theorem relocate_meets : ∀ (relocations : List (Nat × Nat)) (insns : List BpfInsn),
    (∀ p ∈ relocations, p.1 < insns.length) → Returns (relocate insns relocations)
  | [], _, _ => trivial
  | (pc, mapIdx) :: rest, insns, h => by
    have hlt : pc < insns.length := h (pc, mapIdx) mem_cons_self
    unfold relocate
    rw [get_of_lt hlt, ok_bind, set_of_lt hlt, ok_bind]
    refine relocate_meets rest _ fun p hp => ?_
    rw [length_set]
    exact h p (mem_cons_of_mem _ hp)

theorem relocations_lt {seen : List (Nat × VerifierState)}
    (h : explore (explorer checks config insns resolver) (0, initial)
      ⟨[], []⟩ = .ok (seen, refs)) : ∀ p ∈ refs.relocations, p.1 < insns.length := by
  refine explore_acc (I := fun refs => ∀ p ∈ refs.relocations, p.1 < insns.length) nofun
    (fun k refs s succs refs' _ hrefs hv => ?_) h
  obtain ⟨pc, st⟩ := s
  obtain ⟨insn, hget, ⟨-, -, -, mapIdx, hload, -⟩ | ⟨-, -, -, rfl, -⟩ | ⟨-, rfl, -⟩⟩ :=
    simulate_cases hv
  · obtain ⟨_, map, -, -, -, rfl⟩ := loadMap_eq_ok hload
    intro p hp
    simp only [Refs.relocated] at hp
    split at hp
    · exact hrefs p hp
    · rcases mem_append.mp hp with hp | hp
      · exact hrefs p hp
      · rw [mem_singleton.mp hp]
        exact (List.getElem?_eq_some_iff.mp hget).1
  · exact hrefs
  · exact hrefs

theorem pass2_returns_iff (hflow : WellFlowing insns) (hn : insns.length ≠ 0) :
    Returns (pass2 true config insns resolver) ↔
      ∀ k refs s, Taken (explorer true config insns resolver) (0, initial)
        ⟨[], []⟩ k refs s → ¬ Faulty insns resolver k s := by
  have hvisit : ∀ k refs s, Taken (explorer true config insns resolver)
      (0, initial) ⟨[], []⟩ k refs s →
      (Faulty insns resolver k s → ∃ f, simulate true config insns resolver k refs s = panic f) ∧
      (¬ Faulty insns resolver k s → Returns (simulate true config insns resolver k refs s)) :=
    fun k refs s ht => ⟨simulate_faults, simulate_meets hflow (taken_placedOk hflow hn ht)⟩
  have hhang : ∀ k refs s, Taken (explorer true config insns resolver)
      (0, initial) ⟨[], []⟩ k refs s →
      (explorer true config insns resolver).visit k refs s ≠ .error .hang := by
    intro k refs s ht
    by_cases hf : Faulty insns resolver k s
    · obtain ⟨f, hp⟩ := (hvisit k refs s ht).1 hf
      change simulate true config insns resolver k refs s ≠ _
      rw [hp]
      nofun
    · exact ((hvisit k refs s ht).2 hf).not_hang
  unfold pass2
  constructor
  · intro h k refs s ht hf
    obtain ⟨f, hp⟩ := (hvisit k refs s ht).1 hf
    rw [(explore_panics_iff hhang).mpr ⟨k, refs, s, ht, hp⟩] at h
    exact h
  · intro h
    have hexplore : Returns (explore (explorer true config insns resolver)
        (0, initial) ⟨[], []⟩) := by
      refine returns_iff.mpr ⟨explore_total hhang, fun f hp => ?_⟩
      obtain ⟨k, refs, s, ht, hv⟩ := (explore_panics_iff hhang).mp hp
      exact ((hvisit k refs s ht).2 (h k refs s ht)).not_panic f hv
    refine hexplore.with_eq.bind fun p hp => ?_
    exact (relocate_meets _ _ (relocations_lt hp.2)).bind fun _ _ => trivial

theorem checkProgram_returns_iff : Returns (checkProgram true config insns resolver) ↔
      ∀ k s, Explored config insns resolver k s → ¬ Faulty insns resolver k s := by
  unfold checkProgram
  by_cases hn : insns.length = 0
  · rw [if_pos hn]
    exact ⟨fun _ k s h => absurd hn h.1, fun _ => trivial⟩
  rw [if_neg hn]
  by_cases hmax : insns.length > config.maxInsns
  · rw [if_pos hmax]
    exact ⟨fun _ k s h => absurd h.2.1 (Nat.not_le.mpr hmax), fun _ => trivial⟩
  rw [if_neg hmax]
  have hpass1 := pass1_meets hn
  match h1 : pass1 insns with
  | .error (.err e) =>
    refine ⟨fun _ k s h => ?_, fun _ => trivial⟩
    obtain ⟨slot2, hslot2⟩ := h.2.2.1
    rw [h1] at hslot2
    cases hslot2
  | .error (.panic f) => exact absurd h1 (hpass1.not_panic f)
  | .error .hang => exact absurd h1 hpass1.not_hang
  | .ok slot2 =>
    rw [ok_bind, pass2_returns_iff (hpass1.value h1).1 hn]
    constructor
    · rintro h k s ⟨-, -, -, refs, ht⟩
      exact h k refs s ht
    · intro h k refs s ht
      exact h k s ⟨hn, Nat.not_lt.mp hmax, ⟨slot2, h1⟩, refs, ht⟩

theorem verifyProgram_returns (log : VerifierLog) :
    Returns (verifyProgram checks config insns resolver log).1 ↔
      Returns (checkProgram checks config insns resolver) := by
  unfold verifyProgram
  match checkProgram checks config insns resolver with
  | .ok _ => exact Iff.rfl
  | .error (.err _) => exact Iff.rfl
  | .error (.panic _) => exact Iff.rfl
  | .error .hang => exact Iff.rfl

/-- Instructions that no abstract state makes fault: no `LD_IMM64` names a register above 10, and
no constant is added to or subtracted from a register that could move a pointer out of `i32`. -/
def NeverFaults (insn : BpfInsn) : Prop :=
  (insn.isLdImm64 = true → insn.dstReg ≤ 10) ∧
    ((insn.cls = BPF_ALU ∨ insn.cls = BPF_ALU64) → (insn.op = BPF_ADD ∨ insn.op = BPF_SUB) →
      insn.isSrcImm = true → -(2 ^ 31 - 65537) ≤ insn.imm.toInt ∧ insn.imm.toInt ≤ 2 ^ 31 - 65537)

theorem pointerOff_bounds {limit : Nat} (hlimit : limit ≤ 80) {t : RegType}
    {off : Int} (ht : TypeOk maps limit t) (hoff : pointerOff t = some off) :
    -512 ≤ off ∧ off ≤ 65536 := by
  match t, ht, hoff with
  | .ptrStack _, ht, rfl => exact ⟨ht.1, by have := ht.2; omega⟩
  | .ptrContext _, ht, rfl =>
    obtain ⟨h0, h1⟩ := ht
    omega
  | .ptrMapValue _ _ true, ⟨m, _, h0, h1⟩, rfl =>
    have := valueSize_lt m
    omega

theorem not_faulty_of_neverFaults (h : ∀ insn ∈ insns, NeverFaults insn)
    (hs : Explored config insns resolver k s) : ¬ Faulty insns resolver k s := by
  obtain ⟨hn, -, ⟨slot2, h1⟩, refs, ht⟩ := hs
  have hplaced := taken_placedOk ((pass1_meets hn).value h1).1 hn ht
  rintro ⟨insn, hget, ⟨hld, hdst, -⟩ | ⟨-, hcls, hop, t, ht, himm, off, hoff, hout⟩⟩
  · have := (h insn (mem_of_getElem? hget)).1 hld
    omega
  · have hlimit : maxContextSizeForProgType config.progType ≤ 80 := by
      cases config.progType <;> decide
    have hbounds := pointerOff_bounds hlimit (hplaced.state _ _ ht) hoff
    have himm' := (h insn (mem_of_getElem? hget)).2 hcls hop himm
    unfold movedOff at hout
    split at hout <;> omega

/-- **The verifier returns exactly if it takes up no faulty state**, for every program, limits and
resolver, in a build that panics on overflow; so it does on every program without an instruction
that can fault. -/
theorem verifyProgram_returns_iff (config : VerifierConfig) (insns : List BpfInsn)
    (resolver : Option MapResolver) (log : VerifierLog) :
    (Returns (verifyProgram true config insns resolver log).1 ↔
      ∀ k s, Explored config insns resolver k s → ¬ Faulty insns resolver k s) ∧
    ((∀ insn ∈ insns, NeverFaults insn) →
      Returns (verifyProgram true config insns resolver log).1) := by
  have hiff : Returns (verifyProgram true config insns resolver log).1 ↔
      ∀ k s, Explored config insns resolver k s → ¬ Faulty insns resolver k s :=
    (verifyProgram_returns log).trans checkProgram_returns_iff
  exact ⟨hiff, fun h => hiff.mpr fun k s hs => not_faulty_of_neverFaults h hs⟩

/-- `LD_IMM64` into register 11, and an exit. -/
def ldImm64IntoR11 : List BpfInsn :=
  [new 0x18 11 0 0 0, new 0 0 0 0 0, new 0x95 0 0 0 0]

/-- The verifier indexes its 11 registers at 11. -/
theorem not_returns_ldImm64IntoR11 :
    ¬ Returns (verifyProgram true (.new .tracepoint 0) ldImm64IntoR11 none {}).1 := by
  rw [verifyProgram_returns, checkProgram_returns_iff]
  intro h
  refine h 1 (0, initial) ⟨by decide, by decide, ⟨[false, true, false], by decide⟩,
    ⟨[], []⟩, taken_start _ _ (by decide)⟩ ?_
  exact ⟨_, rfl, .inl ⟨by decide, by decide, fun h => absurd h (by decide)⟩⟩

end PulseOS.Bpf
