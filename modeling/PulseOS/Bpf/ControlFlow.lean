import PulseOS.Bpf.Verifier

/-!
# Pass 1 of the verifier

What pass 1 establishes about the instructions it accepts, and that it never faults.
-/

namespace PulseOS.Bpf

open Exec List BpfInsn List

variable {insns : List BpfInsn}

/-- Whether slot `i` is the second slot of a `LD_IMM64`. -/
def secondSlot (insns : List BpfInsn) : Nat → Bool
  | 0 => false
  | i + 1 => !secondSlot insns i && insns[i]?.any isLdImm64

variable {insn : BpfInsn} {slot2 : List Bool} {i : Nat} {r : List Bool}

theorem secondSlot_nextPc (h : insns[i]? = some insn) (hi : secondSlot insns i = false) :
    secondSlot insns (nextPc i insn) = false := by
  unfold nextPc
  split
  · rename_i hld
    simp [secondSlot, h, hi, hld]
  · rename_i hld
    simp [secondSlot, h, hld]

theorem lt_nextPc (i : Nat) (insn : BpfInsn) : i < nextPc i insn := by
  unfold nextPc
  split <;> omega

/-- Jumps with an offset: `JA` and the conditional ones. -/
def BpfInsn.Jumps (insn : BpfInsn) : Prop :=
  (insn.isJmp = true ∨ insn.isJmp32 = true) ∧ insn.isExit = false ∧ insn.isCall = false

theorem isJa_jumps (h : insn.isJa = true) : insn.Jumps := by
  unfold isJa at h
  rw [beq_iff_eq] at h
  unfold BpfInsn.Jumps isJmp isJmp32 cls isExit isCall
  rw [h]
  decide

variable (insns)

/-- What pass 1 establishes about the instruction in first slot `i`. -/
structure InsnFlows (i : Nat) (insn : BpfInsn) : Prop where
  regs : insn.isLdImm64 = false → insn.dstReg ≤ 10 ∧ insn.srcReg ≤ 10
  next : insn.isExit = false → insn.isJa = false → nextPc i insn < insns.length
  target : insn.Jumps → i < jumpTarget i insn ∧ jumpTarget i insn < insns.length ∧
    secondSlot insns (jumpTarget i insn) = false

/-- Every instruction runs forward to a first slot inside the program. -/
def WellFlowing : Prop :=
  ∀ i insn, insns[i]? = some insn → secondSlot insns i = false → InsnFlows insns i insn

/-- One edge of the control-flow graph. -/
def Edge (i t : Nat) : Prop :=
  ∃ insn, insns[i]? = some insn ∧ insn.isExit = false ∧
    (insn.isJa = false ∧ t = nextPc i insn ∨ insn.Jumps ∧ t = jumpTarget i insn)

def Reached : Nat → Prop := Relation.ReflTransGen (Edge insns) 0

variable {insns}

theorem Reached.inside {t : Nat} (hn : insns.length ≠ 0) (hflow : WellFlowing insns)
    (h : Reached insns t) : t < insns.length ∧ secondSlot insns t = false := by
  induction h with
  | refl => exact ⟨Nat.pos_of_ne_zero hn, rfl⟩
  | tail _ hedge ih =>
    obtain ⟨insn, hget, hexit, ⟨hja, rfl⟩ | ⟨hjumps, rfl⟩⟩ := hedge
    · exact ⟨(hflow _ _ hget ih.2).next hexit hja, secondSlot_nextPc hget ih.2⟩
    · exact ((hflow _ _ hget ih.2).target hjumps).2

/-! ## The instruction loop -/

theorem checkInsn_meets (i : Nat) (insn : BpfInsn) :
    Yields (checkInsn i insn) fun _ => insn.dstReg ≤ 10 ∧ insn.srcReg ≤ 10 := by
  unfold checkInsn
  split
  · trivial
  split
  · trivial
  split
  · trivial
  rename_i hregs
  split
  · trivial
  split
  · trivial
  · exact ⟨by omega, by omega⟩

/-- What the instruction loop maintains. -/
structure CheckInv (insns : List BpfInsn) (s : Nat × List Bool) : Prop where
  le : s.1 ≤ insns.length
  first : secondSlot insns s.1 = false
  length : s.2.length = insns.length
  done : ∀ j < s.1, s.2[j]? = some (secondSlot insns j)
  todo : ∀ j, s.1 ≤ j → j < insns.length → s.2[j]? = some false
  regs : ∀ j insn, j < s.1 → secondSlot insns j = false → insns[j]? = some insn →
    insn.isLdImm64 = false → insn.dstReg ≤ 10 ∧ insn.srcReg ≤ 10

theorem checkInv_init : CheckInv insns (0, replicate insns.length false) where
  le := Nat.zero_le _
  first := rfl
  length := length_replicate
  done := nofun
  todo := fun j _ hj => by simp [hj]
  regs := nofun

section
variable (h : CheckInv insns (i, slot2)) (hget : insns[i]? = some insn)
include h hget

theorem checkInv_ldImm64 (hld : insn.isLdImm64 = true)
    (hlt : i + 1 < insns.length) : CheckInv insns (i + 2, slot2.set (i + 1) true) := by
  have hlen := h.length
  have hsecond : secondSlot insns (i + 1) = true := by simp [secondSlot, h.first, hget, hld]
  have hlt' : i + 1 < slot2.length := by rw [hlen]; exact hlt
  refine ⟨hlt, ?_, by simpa using hlen, fun j hj => ?_, fun j hj hjn => ?_, fun j insn' hj hs hg => ?_⟩
  · rw [secondSlot, hsecond]
    rfl
  · rw [getElem?_set]
    by_cases he : i + 1 = j
    · subst he
      simp [hlt', hsecond]
    · rw [if_neg he]
      rcases Nat.lt_or_ge j i with hji | hji
      · exact h.done j hji
      · have hj' : j = i := by simp only at hj; omega
        subst hj'
        rw [h.first]
        exact h.todo j (Nat.le_refl _) (by omega)
  · simp only at hj
    rw [getElem?_set_ne (by omega)]
    exact h.todo j (by simp only; omega) hjn
  · rcases Nat.lt_or_ge j i with hji | hji
    · exact h.regs j insn' hji hs hg
    · rcases Nat.eq_or_lt_of_le hji with rfl | hgt
      · rw [hget] at hg
        cases hg
        simp [hld]
      · have hj' : j = i + 1 := by simp only at hj; omega
        subst hj'
        rw [hsecond] at hs
        cases hs

theorem checkInv_other (hld : insn.isLdImm64 = false)
    (hregs : insn.dstReg ≤ 10 ∧ insn.srcReg ≤ 10) : CheckInv insns (i + 1, slot2) := by
  have hlt : i < insns.length := (List.getElem?_eq_some_iff.mp hget).1
  refine ⟨hlt, ?_, h.length, fun j hj => ?_, fun j hj hjn => ?_, fun j insn' hj hs hg => ?_⟩
  · simp [secondSlot, hget, hld]
  · rcases Nat.lt_succ_iff_lt_or_eq.mp hj with hji | rfl
    · exact h.done j hji
    · rw [h.first]
      exact h.todo _ (Nat.le_refl _) hlt
  · exact h.todo j (Nat.le_of_succ_le hj) hjn
  · rcases Nat.lt_succ_iff_lt_or_eq.mp hj with hji | rfl
    · exact h.regs j insn' hji hs hg
    · rw [hget] at hg
      cases hg
      exact fun _ => hregs

end

/-- The second slots are marked as such, and other instructions name existing registers. -/
structure SlotsMarked (insns : List BpfInsn) (slot2 : List Bool) : Prop where
  length : slot2.length = insns.length
  slots : ∀ j < insns.length, slot2[j]? = some (secondSlot insns j)
  regs : ∀ j insn, secondSlot insns j = false → insns[j]? = some insn →
    insn.isLdImm64 = false → insn.dstReg ≤ 10 ∧ insn.srcReg ≤ 10

theorem checkInsns_meets (insns : List BpfInsn) :
    Yields (checkInsns insns) (SlotsMarked insns) := by
  refine Loop.iter_meets (μ := fun s => insns.length - s.1) (fun s hs => ?_) _ _ checkInv_init
    (by simp)
  obtain ⟨i, slot2⟩ := s
  unfold Loop.RoundMeets checkRound
  simp only
  split
  · rename_i hlt
    have hget := List.getElem?_eq_getElem hlt
    rw [get_of_some hget, ok_bind]
    split
    · rename_i hld
      split
      · trivial
      · rename_i hnext
        rw [get_of_lt (by omega), ok_bind]
        split
        · trivial
        · rw [set_of_lt (by rw [hs.length]; omega), ok_bind, meets_ok]
          exact ⟨checkInv_ldImm64 hs hget hld (by omega), by simp only; omega⟩
    · rename_i hld
      refine (checkInsn_meets i _).bind fun _ hregs => ?_
      exact ⟨checkInv_other hs hget (by simpa using hld) hregs, by simp only; omega⟩
  · rename_i hge
    have hn : i = insns.length := Nat.le_antisymm hs.le (Nat.not_lt.mp hge)
    refine ⟨hs.length, fun j hj => hs.done j (by simp only; omega), fun j insn hsj hg => ?_⟩
    exact hs.regs j insn (by rw [hn]; exact (List.getElem?_eq_some_iff.mp hg).1) hsj hg

/-! ## The edge loop -/

theorem validateJumpTarget_meets (hm : SlotsMarked insns slot2) (i : Nat) (insn : BpfInsn) :
    Yields (validateJumpTarget i insn.off insns.length slot2)
      fun t => t = jumpTarget i insn ∧ i < jumpTarget i insn ∧
        jumpTarget i insn < insns.length ∧ secondSlot insns (jumpTarget i insn) = false := by
  unfold validateJumpTarget
  simp only
  split
  · trivial
  · rename_i hrange
    have hlt : ((i : Int) + 1 + insn.off.toInt).toNat < insns.length := by omega
    have ht : jumpTarget i insn = ((i : Int) + 1 + insn.off.toInt).toNat :=
      isizeAsUsize_of_nonneg (by omega)
    rw [get_of_some (hm.slots _ hlt), ok_bind]
    split
    · trivial
    · rename_i hsecond
      split
      · trivial
      · rw [yields_ok, ht]
        exact ⟨rfl, by omega, hlt, by simpa using hsecond⟩

/-- The successors of an accepted instruction are its edges, and the instruction flows. -/
theorem insnEdges_meets (hm : SlotsMarked insns slot2)
    (hget : insns[i]? = some insn) (hi : secondSlot insns i = false) :
    Yields (insnEdges insns.length slot2 i insn)
      fun succs => (∀ t ∈ succs, Edge insns i t) ∧ InsnFlows insns i insn := by
  have hregs := hm.regs i insn hi hget
  unfold insnEdges
  simp only
  split
  · rename_i hexit
    refine ⟨nofun, hregs, fun he => ?_, fun hj => ?_⟩
    · rw [hexit] at he
      cases he
    · rw [hj.2.1] at hexit
      cases hexit
  rename_i hexit
  have hexit' : insn.isExit = false := by simpa using hexit
  split
  · rename_i hja
    refine (validateJumpTarget_meets hm i insn).bind fun t ht => ?_
    refine ⟨fun u hu => ?_, hregs, fun _ he => ?_, fun _ => ht.2⟩
    · exact ⟨insn, hget, hexit', .inr ⟨isJa_jumps hja, (mem_singleton.mp hu).trans ht.1⟩⟩
    · rw [hja] at he
      cases he
  rename_i hja
  have hnext : Edge insns i (nextPc i insn) := ⟨insn, hget, hexit', .inl ⟨by simpa using hja, rfl⟩⟩
  split
  · rename_i hjmp
    split
    · rename_i hcall
      split
      · trivial
      · refine ⟨fun u hu => mem_singleton.mp hu ▸ hnext, hregs, fun _ _ => by omega, fun hj => ?_⟩
        rw [hj.2.2] at hcall
        cases hcall
    · rename_i hcall
      refine (validateJumpTarget_meets hm i insn).bind fun t ht => ?_
      split
      · trivial
      · refine ⟨fun u hu => ?_, hregs, fun _ _ => by omega, fun _ => ht.2⟩
        rcases mem_cons.mp hu with rfl | hu
        · exact hnext
        · exact ⟨insn, hget, hexit', .inr ⟨⟨hjmp, hexit', by simpa using hcall⟩,
            (mem_singleton.mp hu).trans ht.1⟩⟩
  · rename_i hjmp
    split
    · trivial
    · exact ⟨fun u hu => mem_singleton.mp hu ▸ hnext, hregs, fun _ _ => by omega,
        fun hj => absurd hj.1 hjmp⟩

/-- The successors collected so far are edges of the graph. -/
def EdgesOk (insns : List BpfInsn) (edges : List (List Nat)) : Prop :=
  ∀ i succs, edges[i]? = some succs → ∀ t ∈ succs, Edge insns i t

/-- What the edge loop maintains. -/
structure CfgInv (insns : List BpfInsn) (s : Nat × List (List Nat)) : Prop where
  length : s.2.length = insns.length
  edges : EdgesOk insns s.2
  flows : ∀ j insn, j < s.1 → secondSlot insns j = false → insns[j]? = some insn →
    InsnFlows insns j insn

theorem cfgInv_init : CfgInv insns (0, replicate insns.length []) where
  length := length_replicate
  edges := fun i succs hs t ht => by
    rw [(mem_replicate.mp (mem_of_getElem? hs)).2] at ht
    cases ht
  flows := nofun

theorem eq_of_lt_nextPc {j : Nat} (hget : insns[i]? = some insn)
    (hi : secondSlot insns i = false) (hj : secondSlot insns j = false)
    (hlt : j < nextPc i insn) (hle : i ≤ j) : j = i := by
  unfold nextPc at hlt
  split at hlt
  · rename_i hld
    by_contra hne
    have hj' : j = i + 1 := by omega
    subst hj'
    simp [secondSlot, hi, hget, hld] at hj
  · omega

theorem buildCfg_meets (hm : SlotsMarked insns slot2) : Yields (buildCfg insns slot2)
      fun edges => edges.length = insns.length ∧ EdgesOk insns edges ∧ WellFlowing insns := by
  refine Loop.iter_meets (μ := fun s => insns.length - s.1) (fun s hs => ?_) _ _ cfgInv_init
    (by simp)
  obtain ⟨i, edges⟩ := s
  unfold Loop.RoundMeets cfgRound
  simp only
  split
  · rename_i hlt
    have hget := List.getElem?_eq_getElem hlt
    rw [get_of_some (hm.slots i hlt), ok_bind]
    split
    · rename_i hsecond
      refine ⟨⟨hs.length, hs.edges, fun j insn hj hsj hg => ?_⟩, by simp only; omega⟩
      rcases Nat.lt_succ_iff_lt_or_eq.mp hj with hji | rfl
      · exact hs.flows j insn hji hsj hg
      · rw [hsecond] at hsj
        cases hsj
    · rename_i hsecond
      have hi : secondSlot insns i = false := by simpa using hsecond
      rw [get_of_some hget, ok_bind]
      refine (insnEdges_meets hm hget hi).bind fun succs hsuccs => ?_
      have hlt' : i < edges.length := by rw [hs.length]; exact hlt
      rw [get_of_lt hlt', ok_bind, set_of_lt hlt', ok_bind, meets_ok]
      have hle : i < nextPc i insns[i] := lt_nextPc i _
      -- an exit is no `LD_IMM64`, so both branches go to the next instruction
      have hnext : (if insns[i].isExit = true then i + 1 else nextPc i insns[i]) ≤
          nextPc i insns[i] := by
        split <;> omega
      refine ⟨⟨by simpa using hs.length, fun j ss hj t ht => ?_, fun j insn hj hsj hg => ?_⟩, ?_⟩
      · rw [List.getElem?_set] at hj
        split at hj
        · rename_i he
          subst he
          cases hj
          rcases mem_append.mp ht with ht | ht
          · exact hs.edges _ _ (List.getElem?_eq_getElem hlt') t ht
          · exact hsuccs.1 t ht
        · exact hs.edges j ss hj t ht
      · rcases Nat.lt_or_ge j i with hji | hji
        · exact hs.flows j insn hji hsj hg
        · have hj' := eq_of_lt_nextPc hget hi hsj (lt_of_lt_of_le hj hnext) hji
          subst hj'
          rw [hget] at hg
          cases hg
          exact hsuccs.2
      · simp only
        split <;> omega
  · rename_i hge
    refine ⟨hs.length, hs.edges, fun j insn hg hsj => hs.flows j insn ?_ hsj hg⟩
    have := (List.getElem?_eq_some_iff.mp hg).1
    omega

/-! ## Reachability -/

/-- The instructions not reached yet count twice, so that reaching one and queueing it counts
as progress. -/
def reachMeasure (s : List Bool × List Nat) : Nat := 2 * s.1.count false + s.2.length

theorem count_set_true (h : i < r.length) :
    (r.set i true).count false + (if r[i] then 0 else 1) = r.count false := by
  rw [count_set h]
  have hpos : r[i] = false → 0 < r.count false := fun hf =>
    count_pos_iff.mpr (hf ▸ getElem_mem h)
  cases hr : r[i] with
  | true => simp
  | false =>
    have := hpos hr
    simp
    omega

/-- What the search keeps: queued slots are reached, and marked ones are reached or second. -/
structure ReachInv (insns : List BpfInsn) (s : List Bool × List Nat) : Prop where
  length : s.1.length = insns.length
  queue : ∀ t ∈ s.2, Reached insns t
  marks : ∀ j, s.1[j]? = some true → Reached insns j ∨ secondSlot insns j = true

theorem ReachInv.set {q : List Nat} (h : ReachInv insns (r, q))
    (hi : Reached insns i ∨ secondSlot insns i = true) : ReachInv insns (r.set i true, q) := by
  refine ⟨by simpa using h.length, h.queue, fun j hj => ?_⟩
  rw [getElem?_set] at hj
  split at hj
  · rename_i he
    exact he ▸ hi
  · exact h.marks j hj

section Search

variable (hn : insns.length ≠ 0) (hflow : WellFlowing insns)

include hn hflow

theorem markSuccs_meets : ∀ (succs : List Nat) (s : List Bool × List Nat),
    ReachInv insns s → (∀ t ∈ succs, Reached insns t) →
    Yields (markSuccs succs s) (fun s' => ReachInv insns s' ∧ reachMeasure s' ≤ reachMeasure s)
  | [], s, h, _ => ⟨h, Nat.le_refl _⟩
  | t :: rest, (r, q), h, hsuccs => by
    have ht := hsuccs t mem_cons_self
    have hlt : t < r.length := by rw [h.length]; exact (ht.inside hn hflow).1
    have hrest : ∀ u ∈ rest, Reached insns u := fun u hu => hsuccs u (mem_cons_of_mem _ hu)
    unfold markSuccs
    rw [get_of_lt hlt, ok_bind]
    split
    · exact markSuccs_meets rest (r, q) h hrest
    · rename_i hnew
      rw [set_of_lt hlt, ok_bind]
      have hinv : ReachInv insns (r.set t true, q ++ [t]) := by
        refine { h.set (.inl ht) with queue := fun u hu => ?_ }
        rcases mem_append.mp hu with hu | hu
        · exact h.queue u hu
        · rwa [mem_singleton.mp hu]
      refine (markSuccs_meets rest _ hinv hrest).mono (fun s' hs' => ⟨hs'.1, ?_⟩) fun _ _ => trivial
      have hcount := count_set_true hlt
      rw [if_neg hnew] at hcount
      have := hs'.2
      simp only [reachMeasure, length_append, length_singleton] at this ⊢
      omega

theorem markSlot2_meets {r : List Bool} {q : List Nat} {pc : Nat} (h : ReachInv insns (r, q))
    (hpc : Reached insns pc) (hget : insns[pc]? = some insn) :
    Yields (markSlot2 insns.length insn pc r)
      fun r' => ReachInv insns (r', q) ∧ r'.count false ≤ r.count false := by
  unfold markSlot2
  split
  · rename_i hld
    have hlt : pc + 1 < r.length := by rw [h.length]; exact hld.2
    rw [set_of_lt hlt, yields_ok]
    refine ⟨h.set (.inr ?_), by have := count_set_true hlt; omega⟩
    simp [secondSlot, (hpc.inside hn hflow).2, hget, hld.1]
  · exact ⟨h, Nat.le_refl _⟩

theorem findReachable_meets {edges : List (List Nat)} (hlen : edges.length = insns.length)
    (hedges : EdgesOk insns edges) :
    Yields (findReachable insns edges) fun r => ReachInv insns (r, []) := by
  unfold findReachable
  rw [set_of_lt (by simp; omega), ok_bind]
  have hinit : ReachInv insns ((replicate insns.length false).set 0 true, [0]) := by
    refine ReachInv.set ⟨by simp, fun t ht => ?_, fun j hj => ?_⟩ (.inl .refl)
    · rw [mem_singleton.mp ht]
      exact .refl
    · cases (mem_replicate.mp (mem_of_getElem? hj)).2
  refine Loop.iter_meets (μ := reachMeasure) (fun s hs => ?_) _ _ hinit ?_
  · obtain ⟨r, q⟩ := s
    unfold Loop.RoundMeets reachRound
    match q, hs with
    | [], hs => exact hs
    | pc :: queue, hs =>
      have hreached := hs.queue pc mem_cons_self
      have hpc := (hreached.inside hn hflow).1
      have hrest : ReachInv insns (r, queue) :=
        { hs with queue := fun t ht => hs.queue t (mem_cons_of_mem _ ht) }
      simp only
      rw [get_of_lt hpc, ok_bind]
      refine (markSlot2_meets hn hflow hrest hreached (getElem?_eq_getElem hpc)).bind
        fun r' hr' => ?_
      have hpc' : pc < edges.length := by rw [hlen]; exact hpc
      rw [get_of_lt hpc', ok_bind]
      refine (markSuccs_meets hn hflow _ _ hr'.1 fun t ht => .tail hreached
        (hedges pc _ (getElem?_eq_getElem hpc') t ht)).bind fun s' hs' => ?_
      refine ⟨hs'.1, lt_of_le_of_lt hs'.2 ?_⟩
      have := hr'.2
      simp only [reachMeasure, length_cons] at this ⊢
      omega
  · have hcount := count_le_length (a := false)
      (l := (replicate insns.length false).set 0 true)
    rw [length_set, length_replicate] at hcount
    simp only [reachMeasure, length_singleton]
    omega

end Search

theorem requireReachable_meets {reachable : List Bool} (hm : SlotsMarked insns slot2)
    (hreach : ReachInv insns (reachable, [])) :
    Yields (requireReachable insns.length slot2 reachable)
      fun _ => ∀ i < insns.length, secondSlot insns i = false → Reached insns i := by
  have hlen : reachable.length = insns.length := hreach.length
  refine (forRange_meets (E := fun _ => True) fun i hi => ?_).with_eq.mono
    (fun _ h i hi hfirst => ?_) fun _ _ => trivial
  · rw [get_of_lt (show i < reachable.length by omega), ok_bind]
    split
    · trivial
    · rw [get_of_some (hm.slots i hi), ok_bind]
      split <;> trivial
  · have hround := forRange_eq_ok.mp h.2 i hi
    have hlt : i < reachable.length := by omega
    rw [get_of_lt hlt, ok_bind] at hround
    split at hround
    · rename_i htrue
      have hmark := hreach.marks i (by rw [getElem?_eq_getElem hlt, htrue])
      rw [hfirst] at hmark
      exact hmark.resolve_right nofun
    · rw [get_of_some (hm.slots i hi), ok_bind, hfirst] at hround
      cases hround

/-- **Pass 1 never faults, and what it accepts is well-flowing** and reached from its start. -/
theorem pass1_meets (hn : insns.length ≠ 0) : Yields (pass1 insns) fun _ => WellFlowing insns ∧
      ∀ i < insns.length, secondSlot insns i = false → Reached insns i := by
  refine (checkInsns_meets insns).bind fun slot2 hm => ?_
  refine (buildCfg_meets hm).bind fun edges hedges => ?_
  obtain ⟨hlen, hedges, hflow⟩ := hedges
  refine (findReachable_meets hn hflow hlen hedges).bind fun reachable hreach => ?_
  exact (requireReachable_meets hm hreach).bind fun _ hall => ⟨hflow, hall⟩

end PulseOS.Bpf
