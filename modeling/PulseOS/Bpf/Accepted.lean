import PulseOS.Bpf.VerifierTotal

/-!
# What acceptance certifies

A program accepted with a resolver that is a function of the descriptor comes with a set of typed
states, closed under the typing rules, in which the program starts (`Certified`).  The rules are
those of the relocated instructions and of the final list of maps.
-/

namespace PulseOS.Bpf

open Exec List Worklist Prod

/-! ## The rules and later maps -/

section Mono

variable {maps maps' : List MapRef} {limit pc : Nat} {insn : BpfInsn} {st : VerifierState}
  (hmaps : maps <+: maps')
include hmaps

variable {t : RegType} {disp : Int} {size : Nat}

theorem Moved.mono {t' : RegType} (h : Moved maps limit insn t t') :
    Moved maps' limit insn t t' := by
  cases h with
  | stack lo hi => exact .stack lo hi
  | context lo hi => exact .context lo hi
  | value map lo hi => exact .value (getElem?_of_isPrefix hmaps map) lo hi

theorem Loadable.mono
    (h : Loadable maps limit st disp size t) : Loadable maps' limit st disp size t := by
  cases h with
  | context lo hi aligned => exact .context lo hi aligned
  | stack bytes => exact .stack bytes
  | value map lo hi => exact .value (getElem?_of_isPrefix hmaps map) lo hi

theorem Stored.mono {st' : VerifierState}
    (h : Stored maps st disp size t st') : Stored maps' st disp size t st' := by
  cases h with
  | stack lo hi init => exact .stack lo hi init
  | value map lo hi => exact .value (getElem?_of_isPrefix hmaps map) lo hi

theorem MapIn.mono {r mapIdx : Nat} {m : MapRef} (h : MapIn maps st r mapIdx m) :
    MapIn maps' st r mapIdx m :=
  ⟨h.1, getElem?_of_isPrefix hmaps h.2⟩

theorem CallOk.mono {helper : Int32} {r0 : RegType} (h : CallOk maps st helper r0) :
    CallOk maps' st helper r0 := by
  cases h with
  | lookup map key => exact .lookup (map.mono hmaps) key
  | update map writable key value flags => exact .update (map.mono hmaps) writable key value flags
  | delete map deletable writable key => exact .delete (map.mono hmaps) deletable writable key
  | ktime => exact .ktime
  | processorId => exact .processorId
  | perfEventOutput map type flags data size =>
    exact .perfEventOutput (map.mono hmaps) type flags data size
  | ringbufOutput map type data size flags =>
    exact .ringbufOutput (map.mono hmaps) type data size flags

theorem AbsStep.mono {succs : List (Nat × VerifierState)}
    (h : AbsStep maps limit pc insn st succs) : AbsStep maps' limit pc insn st succs := by
  cases h with
  | ldMap ld src dst relocated map =>
    exact .ldMap ld src dst relocated (lt_of_lt_of_le map hmaps.length_le)
  | ldImm ld src dst => exact .ldImm ld src dst
  | movImm cls op imm dst => exact .movImm cls op imm dst
  | movReg cls op imm src init dst => exact .movReg cls op imm src init dst
  | alu cls op dst src => exact .alu cls op dst src
  | move cls op imm dst moved => exact .move cls op imm dst (moved.mono hmaps)
  | load cls dst width src loadable => exact .load cls dst width src (loadable.mono hmaps)
  | store cls width dst src stored => exact .store cls width dst src (stored.mono hmaps)
  | exit exit r0 => exact .exit exit r0
  | ja exit ja => exact .ja exit ja
  | call exit ja call ok => exact .call exit ja call (ok.mono hmaps)
  | branch cls exit ja call dst init src => exact .branch cls exit ja call dst init src

end Mono

/-! ## Maps and relocations -/

/-- A resolver that is a function of the descriptor. -/
def fixedResolver (resolve : Option (UInt32 → Except LinuxError MapRef)) : Option MapResolver :=
  resolve.map fun f _ => f

variable {checks : Bool} (insns : List BpfInsn)
  (resolve : Option (UInt32 → Except LinuxError MapRef))

/-- `insns[pc]` loads the map at `mapIdx`. -/
def LoadsMap (maps : List MapRef) (pc mapIdx : Nat) : Prop :=
  ∃ insn f m, insns[pc]? = some insn ∧ insn.isLdImm64 = true ∧ insn.srcReg = BPF_PSEUDO_MAP_FD ∧
    resolve = some f ∧ f insn.imm.toUInt32 = .ok m ∧
    maps.findIdx? (fun r => r.id == m.id) = some mapIdx

/-- What pass 2 keeps about the maps and relocations. -/
structure RefsOk (refs : Refs) : Prop where
  nodup : (refs.relocations.map fst).Nodup
  loads : ∀ p ∈ refs.relocations, LoadsMap insns resolve refs.maps p.1 p.2
  enough : refs.maps.length ≤ refs.relocations.length

variable {insns resolve} {maps maps' : List MapRef} {i k mapIdx pc : Nat} {insn : BpfInsn}
  {progType : BpfProgType} {logLevel : UInt32} {log : VerifierLog}

theorem findIdx?_of_isPrefix (h : maps <+: maps')
    {p : MapRef → Bool} (hi : maps.findIdx? p = some i) : maps'.findIdx? p = some i := by
  obtain ⟨rest, rfl⟩ := h
  rw [List.findIdx?_append, hi]
  rfl

theorem LoadsMap.mono (h : LoadsMap insns resolve maps pc mapIdx) (hmaps : maps <+: maps') :
    LoadsMap insns resolve maps' pc mapIdx := by
  obtain ⟨insn, f, m, hget, hld, hsrc, hf, hm, hidx⟩ := h
  exact ⟨insn, f, m, hget, hld, hsrc, hf, hm, findIdx?_of_isPrefix hmaps hidx⟩

theorem LoadsMap.lt (h : LoadsMap insns resolve maps pc mapIdx) : mapIdx < maps.length := by
  obtain ⟨_, _, _, -, -, -, -, -, hidx⟩ := h
  rw [List.findIdx?_eq_some_iff_getElem] at hidx
  exact hidx.1

theorem refsOk_nil : RefsOk insns resolve ⟨[], []⟩ := ⟨nodup_nil, nofun, Nat.le_refl _⟩

variable {succs : List (Nat × VerifierState)} {s : Nat × VerifierState} {config : VerifierConfig}
  {vp : VerifiedProgram} {resolver : Option MapResolver} {out : List BpfInsn} {refs refs' : Refs}

theorem loadMap_refsOk (hrefs : RefsOk insns resolve refs) (hget : insns[pc]? = some insn)
    (hld : insn.isLdImm64 = true) (hsrc : insn.srcReg = BPF_PSEUDO_MAP_FD)
    (h : loadMap (fixedResolver resolve) k refs pc insn = .ok (mapIdx, refs')) :
    RefsOk insns resolve refs' ∧ (pc, mapIdx) ∈ refs'.relocations := by
  obtain ⟨r, map, hr, hmap, rfl, rfl⟩ := loadMap_eq_ok h
  obtain ⟨f, rfl, rfl⟩ := Option.map_eq_some_iff.mp hr
  change f insn.imm.toUInt32 = .ok map at hmap
  obtain ⟨hpre, hidx⟩ := mapIndex_spec refs map
  by_cases hany : refs.relocations.any (·.1 == pc) = true
  · -- the instruction was relocated before, to the same map
    obtain ⟨p, hp, hpc⟩ := any_eq_true.mp hany
    have hpc' : p.1 = pc := by simpa using hpc
    obtain ⟨insn', f', m, hget', -, -, hf, hm, hidx'⟩ := hrefs.loads p hp
    rw [hpc', hget] at hget'
    cases hget'
    cases hf
    rw [hmap] at hm
    cases hm
    have hmaps : refs.mapIndex map = (p.2, refs.maps) := by simp [Refs.mapIndex, hidx']
    rw [hmaps]
    have hrel : refs.relocated pc p.2 = refs.relocations := by simp only [Refs.relocated, if_pos hany]
    rw [hrel]
    refine ⟨⟨hrefs.nodup, hrefs.loads, hrefs.enough⟩, ?_⟩
    rw [← hpc']
    exact hp
  · have hrel : refs.relocated pc (refs.mapIndex map).1 =
        refs.relocations ++ [(pc, (refs.mapIndex map).1)] := by
      simp only [Refs.relocated, if_neg hany]
    rw [hrel]
    have hnew : pc ∉ refs.relocations.map fst := by
      intro hmem
      obtain ⟨p, hp, rfl⟩ := mem_map.mp hmem
      exact hany (any_eq_true.mpr ⟨p, hp, by simp⟩)
    refine ⟨⟨?_, fun p hp => ?_, ?_⟩, mem_append_right _ (mem_singleton.mpr rfl)⟩
    · simp only [map_append, map_cons, map_nil]
      exact nodup_append.mpr ⟨hrefs.nodup, nodup_singleton _, by
        intro a ha b hb
        rw [mem_singleton.mp hb]
        rintro rfl
        exact hnew ha⟩
    · rcases mem_append.mp hp with hp | hp
      · exact (hrefs.loads p hp).mono hpre
      · rw [mem_singleton.mp hp]
        exact ⟨insn, f, map, hget, hld, hsrc, rfl, hmap, hidx⟩
    · have hlen : (refs.mapIndex map).2.length ≤ refs.maps.length + 1 := by
        unfold Refs.mapIndex
        split <;> simp
      have := hrefs.enough
      simp only [length_append, length_singleton]
      omega

theorem simulate_refsOk (hrefs : RefsOk insns resolve refs)
    (h : simulate checks config insns (fixedResolver resolve) k refs s = .ok (succs, refs')) :
    RefsOk insns resolve refs' := by
  obtain ⟨pc, st⟩ := s
  obtain ⟨insn, hget, ⟨hld, hsrc, -, mapIdx, hload, -⟩ | ⟨-, -, -, rfl, -⟩ | ⟨-, rfl, -⟩⟩ :=
    simulate_cases h
  · exact (loadMap_refsOk hrefs hget hld hsrc hload).1
  · exact hrefs
  · exact hrefs

theorem simulate_relocations
    (h : simulate checks config insns resolver k refs s = .ok (succs, refs')) :
    refs.relocations <+: refs'.relocations := by
  obtain ⟨pc, st⟩ := s
  obtain ⟨insn, -, ⟨-, -, -, mapIdx, hload, -⟩ | ⟨-, -, -, rfl, -⟩ | ⟨-, rfl, -⟩⟩ :=
    simulate_cases h
  · obtain ⟨_, map, -, -, -, rfl⟩ := loadMap_eq_ok hload
    simp only [Refs.relocated]
    split
    · exact prefix_refl _
    · exact prefix_append _ _
  · exact prefix_refl _
  · exact prefix_refl _

theorem RefsOk.maps_le {refs : Refs} (h : RefsOk insns resolve refs) :
    refs.maps.length ≤ insns.length := by
  refine le_trans h.enough ?_
  have hsub : refs.relocations.map fst ⊆ List.range insns.length := by
    intro pc hpc
    obtain ⟨p, hp, rfl⟩ := mem_map.mp hpc
    obtain ⟨_, _, _, hget, -⟩ := h.loads p hp
    exact mem_range.mpr (List.getElem?_eq_some_iff.mp hget).1
  have hle := (h.nodup.subperm hsub).length_le
  rwa [length_map, length_range] at hle

/-! ## Relocation -/

theorem relocate_spec : ∀ (relocations : List (Nat × Nat)) (insns out : List BpfInsn),
    (relocations.map fst).Nodup → relocate insns relocations = .ok out →
    (∀ p ∈ relocations, ∀ insn, insns[p.1]? = some insn →
      out[p.1]? = some { insn with imm := Int32.ofNat p.2 }) ∧
    ∀ i, i ∉ relocations.map fst → out[i]? = insns[i]?
  | [], insns, out, _, h => by
    cases h
    exact ⟨nofun, fun _ _ => rfl⟩
  | (pc, mapIdx) :: rest, insns, out, hnd, h => by
    obtain ⟨insn, hget, h⟩ := bind_eq_ok.mp h
    obtain ⟨insns', hset, h⟩ := bind_eq_ok.mp h
    have hget' := get_eq_ok.mp hget
    have hlt := (List.getElem?_eq_some_iff.mp hget').1
    rw [set_of_lt hlt] at hset
    cases hset
    obtain ⟨hnew, hnd'⟩ := nodup_cons.mp hnd
    change pc ∉ rest.map fst at hnew
    obtain ⟨hin, hout⟩ := relocate_spec rest _ out hnd' h
    have hother : ∀ i, i ≠ pc →
        (insns.set pc { insn with imm := Int32.ofNat mapIdx })[i]? = insns[i]? :=
      fun i hi => List.getElem?_set_ne (Ne.symm hi)
    refine ⟨fun p hp insn' hi => ?_, fun i hi => ?_⟩
    · rcases mem_cons.mp hp with rfl | hrest
      · rw [hout _ hnew, List.getElem?_set_self hlt]
        rw [hget'] at hi
        cases hi
        rfl
      · refine hin p hrest insn' ?_
        have hne : p.1 ≠ pc := by
          intro he
          rw [← he] at hnew
          exact hnew (mem_map_of_mem hrest)
        rw [hother _ hne]
        exact hi
    · rw [map_cons, mem_cons, not_or] at hi
      rw [hout i hi.2, hother i hi.1]

/-- Instructions that differ at most in their immediate. -/
def SameButImm (insn insn' : BpfInsn) : Prop :=
  insn'.code = insn.code ∧ insn'.regs = insn.regs ∧ insn'.off = insn.off

theorem relocate_sameButImm {relocations : List (Nat × Nat)}
    (hnd : (relocations.map fst).Nodup) (h : relocate insns relocations = .ok out)
    (hget : insns[i]? = some insn) : ∃ insn', out[i]? = some insn' ∧ SameButImm insn insn' := by
  obtain ⟨hin, hout⟩ := relocate_spec relocations insns out hnd h
  by_cases hmem : i ∈ relocations.map fst
  · obtain ⟨p, hp, rfl⟩ := mem_map.mp hmem
    exact ⟨_, hin p hp insn hget, rfl, rfl, rfl⟩
  · exact ⟨insn, by rw [hout i hmem]; exact hget, rfl, rfl, rfl⟩

theorem relocate_length : ∀ {relocations : List (Nat × Nat)} {insns out : List BpfInsn},
    relocate insns relocations = .ok out → out.length = insns.length
  | [], _, _, h => by
    cases h
    rfl
  | (pc, _) :: rest, insns, out, h => by
    obtain ⟨insn, hget, h⟩ := bind_eq_ok.mp h
    obtain ⟨insns', hset, h⟩ := bind_eq_ok.mp h
    rw [set_of_lt (List.getElem?_eq_some_iff.mp (get_eq_ok.mp hget)).1] at hset
    cases hset
    rw [relocate_length h, length_set]

theorem SameButImm.isLdImm64_eq {insn' : BpfInsn} (h : SameButImm insn insn') :
    insn'.isLdImm64 = insn.isLdImm64 := by
  unfold BpfInsn.isLdImm64
  rw [h.1]

theorem secondSlot_congr (hlen : out.length = insns.length)
    (h : ∀ (i : Nat) (insn : BpfInsn), insns[i]? = some insn →
      ∃ insn', out[i]? = some insn' ∧ SameButImm insn insn') :
    ∀ i, secondSlot out i = secondSlot insns i
  | 0 => rfl
  | i + 1 => by
    rw [secondSlot, secondSlot, secondSlot_congr hlen h i]
    cases hi : insns[i]? with
    | none =>
      have : out[i]? = none := by
        rw [List.getElem?_eq_none_iff] at hi ⊢
        omega
      rw [this]
    | some insn =>
      obtain ⟨insn', ho, hsame⟩ := h i insn hi
      rw [ho, Option.any_some, Option.any_some, hsame.isLdImm64_eq]

/-! ## Certificates -/

/-- `seen` is a set of typed states of the program, closed under its instructions. -/
structure Certified (vp : VerifiedProgram) (seen : List (Nat × VerifierState)) : Prop where
  length_pos : 0 < vp.insns.length
  length_le : vp.insns.length ≤ BPF_MAXINSNS
  start : (0, VerifierState.initial) ∈ seen
  typed : ∀ s ∈ seen, ∃ insn succs, vp.insns[s.1]? = some insn ∧
    StateOk vp.referencedMaps (maxContextSizeForProgType vp.progType) s.2 ∧
    AbsStep vp.referencedMaps (maxContextSizeForProgType vp.progType) s.1 insn s.2 succs ∧
    ∀ t ∈ succs, t ∈ seen ∧ Forward vp.insns s.1 t.1

theorem visited_typed
    {refs refs' final : Refs} (hflow : WellFlowing insns) (hn : insns.length ≤ BPF_MAXINSNS)
    (hs : PlacedOk insns (maxContextSizeForProgType progType) refs s)
    (hrefs : RefsOk insns resolve refs) (hfinal : RefsOk insns resolve final)
    (hmaps : refs'.maps <+: final.maps) (hrel : refs'.relocations <+: final.relocations)
    (hout : relocate insns final.relocations = .ok out)
    (hv : simulate checks (.new progType logLevel) insns (fixedResolver resolve) k refs s =
      .ok (succs, refs')) :
    ∃ insn, out[s.1]? = some insn ∧
      AbsStep final.maps (maxContextSizeForProgType progType) s.1 insn s.2 succs := by
  obtain ⟨pc, st⟩ := s
  have hpre := (simulate_maps hv).trans hmaps
  obtain ⟨hin, hother⟩ := relocate_spec _ _ _ hfinal.nodup hout
  -- an instruction that is no map load is not relocated
  have hkeep : ∀ {insn : BpfInsn}, insns[pc]? = some insn →
      ¬ (insn.isLdImm64 = true ∧ insn.srcReg = BPF_PSEUDO_MAP_FD) → out[pc]? = some insn := by
    intro insn hget hne
    rw [hother pc ?_, hget]
    intro hmem
    obtain ⟨p, hp, rfl⟩ := mem_map.mp hmem
    obtain ⟨insn', _, _, hget', hld, hsrc, -⟩ := hfinal.loads p hp
    rw [hget] at hget'
    cases hget'
    exact hne ⟨hld, hsrc⟩
  obtain ⟨insn, hget, ⟨hld, hsrc, hdst, mapIdx, hload, rfl⟩ | ⟨hld, hsrc, hdst, rfl, rfl⟩ |
    ⟨hld, rfl, hsim⟩⟩ := simulate_cases hv
  · obtain ⟨-, hmem⟩ := loadMap_refsOk hrefs hget hld hsrc hload
    have hmem' : (pc, mapIdx) ∈ final.relocations := hrel.subset hmem
    have hlt := (hfinal.loads _ hmem').lt
    have hmax : mapIdx < 2 ^ 31 := by
      have hbound : BPF_MAXINSNS < 2 ^ 31 := by decide
      have hle := hfinal.maps_le
      omega
    refine ⟨_, hin _ hmem' insn hget, ?_⟩
    have himm : (Int32.ofNat mapIdx).toInt = mapIdx := Int32.toInt_ofNat_of_lt hmax
    exact .ldMap hld hsrc hdst himm hlt
  · exact ⟨insn, hkeep hget fun h => hsrc h.2, .ldImm hld hsrc hdst⟩
  · refine ⟨insn, hkeep hget fun h => ?_, ?_⟩
    · rw [hld] at h
      cases h.1
    · have hregs := (hflow pc insn hget hs.first).regs hld
      have hstate : StateOk refs'.maps
          (maxContextSizeForProgType (VerifierConfig.new progType logLevel).progType) st := hs.state
      exact (simInsn_absStep hstate hregs hsim).mono hpre

section
variable (h : (verifyProgram checks config insns resolver log).1 = .ok vp)
include h

theorem verifyProgram_eq_ok : checkProgram checks config insns resolver = .ok vp := by
  unfold verifyProgram at h
  split at h
  · cases h
  · rename_i vp' hok
    cases h
    exact hok
  · cases h
  · cases h

/-- The two passes and the relocation of an accepted program. -/
theorem verifyProgram_passes :
    insns.length ≠ 0 ∧ insns.length ≤ config.maxInsns ∧ (∃ slot2, pass1 insns = .ok slot2) ∧
      ∃ seen final out, relocate insns final.relocations = .ok out ∧
        explore (explorer checks config insns resolver) (0, .initial) ⟨[], []⟩ =
          .ok (seen, final) ∧ vp = ⟨config.progType, out, final.maps⟩ := by
  have hcheck := verifyProgram_eq_ok h
  unfold checkProgram at hcheck
  split at hcheck
  · cases hcheck
  rename_i hn
  split at hcheck
  · cases hcheck
  rename_i hmax
  obtain ⟨slot2, h1, h2⟩ := bind_eq_ok.mp hcheck
  obtain ⟨⟨seen, final⟩, hexplore, h2⟩ := bind_eq_ok.mp h2
  obtain ⟨out, hout, h2⟩ := bind_eq_ok.mp h2
  cases h2
  exact ⟨hn, Nat.not_lt.mp hmax, ⟨slot2, h1⟩, seen, final, out, hout, hexplore, rfl⟩

end

theorem explore_refsOk {seen : List (Nat × VerifierState)}
    (h : explore (explorer checks config insns (fixedResolver resolve)) (0, .initial)
      ⟨[], []⟩ = .ok (seen, refs)) : RefsOk insns resolve refs :=
  explore_acc (I := RefsOk insns resolve) refsOk_nil
    (fun _ _ _ _ _ _ hr hv => simulate_refsOk hr hv) h

/-- **Acceptance gives a certificate.** -/
theorem verifyProgram_certified
    (h : (verifyProgram checks (.new progType logLevel) insns (fixedResolver resolve) log).1 =
      .ok vp) :
    vp.progType = progType ∧ vp.insns.length = insns.length ∧ ∃ seen, Certified vp seen := by
  obtain ⟨hn, hle, ⟨slot2, h1⟩, seen, final, out, hout, hexplore, rfl⟩ := verifyProgram_passes h
  have hflow := ((pass1_meets hn).value h1).1
  have hfinal := explore_refsOk hexplore
  obtain ⟨hstart, hseen⟩ := explore_closed
    (R := fun a b : Refs => a.maps <+: b.maps ∧ a.relocations <+: b.relocations)
    (fun a => ⟨prefix_refl _, prefix_refl _⟩)
    (fun a b c hab hbc => ⟨hab.1.trans hbc.1, hab.2.trans hbc.2⟩)
    (fun k a s succs a' hv => ⟨simulate_maps hv, simulate_relocations hv⟩) hexplore
  have hlen := relocate_length hout
  have hslot := secondSlot_congr hlen fun i insn hi => relocate_sameButImm hfinal.nodup hout hi
  refine ⟨rfl, hlen, seen, ?_, ?_, hstart, fun s hs => ?_⟩
  · rw [hlen]
    exact Nat.pos_of_ne_zero hn
  · rw [hlen]
    exact hle
  · obtain ⟨k, refs, succs, refs', htaken, hv, ⟨hmaps, hrel⟩, hsucc⟩ := hseen s hs
    have hplaced := taken_placedOk hflow hn htaken
    have hrefs : RefsOk insns resolve refs := by
      refine Taken.invariant (I := fun refs _ => RefsOk insns resolve refs) htaken
        refsOk_nil fun k refs s succs refs' hr hv => ?_
      exact ⟨fun _ _ => simulate_refsOk hr hv, fun _ _ => simulate_refsOk hr hv⟩
    obtain ⟨insn, hget, hstep⟩ := visited_typed hflow hle hplaced hrefs hfinal hmaps hrel hout hv
    have hsucc' := simulate_forward hflow hplaced hv
    refine ⟨insn, succs, hget, hplaced.state.mono ((simulate_maps hv).trans hmaps), hstep,
      fun t ht => ⟨hsucc t ht, ?_⟩⟩
    obtain ⟨h1, h2, h3⟩ := hsucc' t ht
    exact ⟨h1, by rw [hlen]; exact h2, by rw [hslot]; exact h3⟩

/-- `verify_program` accepts `insns` as the program `vp`, in some build, for some program type and
with some map behind every descriptor. -/
def Accepted (insns : List BpfInsn) (vp : VerifiedProgram) : Prop :=
  ∃ checks progType logLevel resolve log,
    (verifyProgram checks (.new progType logLevel) insns (fixedResolver resolve) log).1 = .ok vp

theorem Accepted.certified (h : Accepted insns vp) :
    vp.insns.length = insns.length ∧ ∃ seen, Certified vp seen := by
  obtain ⟨_, _, _, _, _, h⟩ := h
  exact (verifyProgram_certified h).2

end PulseOS.Bpf
