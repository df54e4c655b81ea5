import PulseOS.Ipc.ShmSteps

/-!
# Processes that share a registry

A child cloned with `CLONE_VM` has the registry of its parent, and keeps it when it gets an address
space of its own with `exec`.

* `Sharing` — the users of a registry with a record use one address space; `Sharing.step` keeps it
  where segments are attached through such registries only.
-/

namespace PulseOS.Ipc.Shm

open Transition AList

namespace System

/-- The processes but `pid` that use the registry. -/
def others (s : System) (pid r : Nat) : List Proc :=
  (s.procs.entries.filter fun e => e.1 ≠ pid && e.2.registry = r).map Sigma.snd

/-- Whoever uses the registry of the process uses its address space. -/
def SharesSpace (s : System) (pid : Nat) : Prop :=
  ∀ p ∈ s.procs.lookup pid, ∀ q ∈ s.others pid p.registry, q.aspace = p.aspace

def AttachesShared (s : System) : Action → Prop
  | .shmat pid _ _ _ _ _ => s.SharesSpace pid
  | _ => True

instance (s : System) (pid : Nat) : Decidable (s.SharesSpace pid) := by
  unfold SharesSpace
  infer_instance

instance (s : System) (a : Action) : Decidable (AttachesShared s a) := by
  unfold AttachesShared
  induction a using Action.casesOn <;> infer_instance

variable {s s' : System}

theorem mem_others {pid r : Nat} {q : Proc} :
    q ∈ s.others pid r ↔ ∃ pid', pid' ≠ pid ∧ s.procs.lookup pid' = some q ∧ q.registry = r := by
  unfold others
  rw [List.mem_map]
  constructor
  · rintro ⟨⟨pid', q'⟩, he, rfl⟩
    obtain ⟨hmem, hcond⟩ := List.mem_filter.mp he
    rw [Bool.and_eq_true, decide_eq_true_eq, decide_eq_true_eq] at hcond
    exact ⟨pid', hcond.1, mem_lookup_iff.mpr hmem, hcond.2⟩
  · rintro ⟨pid', hne, hq, hr⟩
    refine ⟨⟨pid', q⟩, List.mem_filter.mpr ⟨mem_lookup_iff.mp hq, ?_⟩, rfl⟩
    rw [Bool.and_eq_true, decide_eq_true_eq, decide_eq_true_eq]
    exact ⟨hne, hr⟩

theorem SharesSpace.same {pid pid' : Nat} {p q : Proc} (h : s.SharesSpace pid)
    (hp : s.Runs pid p) (hq : s.Runs pid' q)
    (hr : q.registry = p.registry) : q.aspace = p.aspace := by
  by_cases hne : pid' = pid
  · subst hne
    rw [Option.some.inj (hq.symm.trans hp)]
  · exact h p hp q (mem_others.mpr ⟨pid', hne, hq, hr⟩)

/-- Who uses a registry uses one address space, or there is nothing recorded; and who uses an
address space uses one registry. -/
structure Sharing (s : System) : Prop where
  shared : ∀ pid p pid' p', s.procs.lookup pid = some p → s.procs.lookup pid' = some p' →
    p.registry = p'.registry → p.aspace = p'.aspace ∨ s.registries p.registry = ∅
  paired : ∀ pid p pid' p', s.procs.lookup pid = some p → s.procs.lookup pid' = some p' →
    p.aspace = p'.aspace → p.registry = p'.registry
  allocated : ∀ pid p, s.procs.lookup pid = some p →
    p.registry < s.nextRegistry ∧ p.aspace < s.nextSpace
  recorded : ∀ r page g, (s.registries r).lookup page = some g → g < s.created

namespace Sharing

variable {child g page pid pid' : Nat} {p q : Proc} {registry : Registry}

section

variable (h : s.Sharing)

include h

/-- The users of a registry that has a record use one address space. -/
theorem same (hp : s.Runs pid p) (hq : s.Runs pid' q)
    (hr : q.registry = p.registry) (hg : (s.registries p.registry).lookup page = some g) :
    q.aspace = p.aspace := by
  rcases h.shared pid' q pid p hq hp hr with haspace | hempty
  · exact haspace
  · rw [← hr, hempty] at hg
    cases hg

theorem frame (hprocs : s'.procs = s.procs)
    (hregistries : s'.registries = s.registries) (hnextRegistry : s'.nextRegistry = s.nextRegistry)
    (hnextSpace : s'.nextSpace = s.nextSpace) (hcreated : s.created ≤ s'.created) : s'.Sharing := by
  refine ⟨?_, ?_, ?_, fun r page g hg => ?_⟩
  · rw [hprocs, hregistries]
    exact h.shared
  · rw [hprocs]
    exact h.paired
  · rw [hprocs, hnextRegistry, hnextSpace]
    exact h.allocated
  · rw [hregistries] at hg
    exact (h.recorded r page g hg).trans_le hcreated

theorem counts (hc : CountsOnly s s') : s'.Sharing :=
  h.frame hc.procs hc.registries hc.nextRegistry hc.nextSpace (Nat.le_of_eq hc.created.symm)

theorem setRegistry {r : Nat} (hsame : registry = ∅ ∨ ∀ pid p pid' p', s.procs.lookup pid = some p →
      s.procs.lookup pid' = some p' → p.registry = r → p'.registry = r → p.aspace = p'.aspace)
    (hrecorded : ∀ page g, registry.lookup page = some g → g < s.created) :
    (s.setRegistry r registry).Sharing := by
  refine ⟨fun pid p pid' p' hp hp' hrr => ?_, h.paired, h.allocated, fun r' page g hg => ?_⟩
  · rw [setRegistry_registries]
    split
    · rename_i hr
      rcases hsame with hempty | hsame
      · exact .inr hempty
      · exact .inl (hsame pid p pid' p' hp hp' hr (hrr ▸ hr))
    · exact h.shared pid p pid' p' hp hp' hrr
  · rw [setRegistry_registries] at hg
    split at hg
    · exact hrecorded page g hg
    · exact h.recorded r' page g hg

theorem clear (r : Nat) : (s.setRegistry r ∅).Sharing :=
  h.setRegistry (.inl rfl) nofun

theorem record (hp : s.Runs pid p) (hshares : s.SharesSpace pid) (hg : g < s.created) (page : Nat) :
    (s.record p g page).Sharing := by
  have hcounts : CountsOnly s (s.setSegment g (s.segments g).attachProcess) := .setSegment rfl
  refine (h.counts hcounts).setRegistry (.inr fun pid' q pid'' q' hq hq' hr hr' => ?_)
    fun k g' hk => ?_
  · exact (hshares.same hp hq hr).trans (hshares.same hp hq' hr').symm
  · by_cases hne : k = page
    · rw [hne, lookup_insert] at hk
      cases hk
      exact hg
    · rw [lookup_insert_ne hne] at hk
      exact h.recorded _ k g' hk

theorem erase (hp : s.Runs pid p) (hg : (s.registries p.registry).lookup page = some g) :
    (s.setRegistry p.registry ((s.registries p.registry).erase page)).Sharing := by
  refine h.setRegistry (.inr fun pid' q pid'' q' hq hq' hr hr' => ?_) fun k g' hk => ?_
  · exact (h.same hp hq hr hg).trans (h.same hp hq' hr' hg).symm
  · by_cases hne : k = page
    · rw [hne, lookup_erase] at hk
      cases hk
    · rw [lookup_erase_ne hne] at hk
      exact h.recorded _ k g' hk

theorem procs (hregistries : s'.registries = s.registries)
    (hnextRegistry : s'.nextRegistry = s.nextRegistry) (hnextSpace : s'.nextSpace = s.nextSpace)
    (hcreated : s'.created = s.created)
    (hprocs : ∀ pid q, s'.procs.lookup pid = some q → ∃ pid' p, s.procs.lookup pid' = some p ∧
      q.registry = p.registry ∧ q.aspace = p.aspace) : s'.Sharing := by
  refine ⟨fun pid q pid' q' hq hq' => ?_, fun pid q pid' q' hq hq' => ?_, fun pid q hq => ?_, ?_⟩
  · obtain ⟨n, p, hp, hr, ha⟩ := hprocs pid q hq
    obtain ⟨n', p', hp', hr', ha'⟩ := hprocs pid' q' hq'
    rw [hr, ha, hr', ha', hregistries]
    exact h.shared n p n' p' hp hp'
  · obtain ⟨n, p, hp, hr, ha⟩ := hprocs pid q hq
    obtain ⟨n', p', hp', hr', ha'⟩ := hprocs pid' q' hq'
    rw [hr, ha, hr', ha']
    exact h.paired n p n' p' hp hp'
  · obtain ⟨pid', p, hp, hr, ha⟩ := hprocs pid q hq
    rw [hr, ha, hnextRegistry, hnextSpace]
    exact h.allocated pid' p hp
  · rw [hregistries, hcreated]
    exact h.recorded

omit h in
theorem lookup_setProc {q' : Proc} (h : (s.procs.insert pid q).lookup pid' = some q') :
    pid' = pid ∧ q' = q ∨ pid' ≠ pid ∧ s.procs.lookup pid' = some q' := by
  by_cases hne : pid' = pid
  · rw [hne, lookup_insert] at h
    cases h
    exact .inl ⟨hne, rfl⟩
  · rw [lookup_insert_ne hne] at h
    exact .inr ⟨hne, h⟩

theorem setProc (hp : s.Runs pid p) (hr : q.registry = p.registry)
    (ha : q.aspace = p.aspace) : (s.setProc child q).Sharing := by
  refine h.procs rfl rfl rfl rfl fun pid' q' hq' => ?_
  rcases lookup_setProc hq' with ⟨-, rfl⟩ | ⟨-, hq'⟩
  · exact ⟨pid, p, hp, hr, ha⟩
  · exact ⟨pid', q', hq', rfl, rfl⟩

theorem newSpace (hprocs : s'.procs = s.procs.insert pid q) (haspace : q.aspace = s.nextSpace)
    (hnextSpace : s'.nextSpace = s.nextSpace + 1)
    (hregistries : ∀ r, s'.registries r = if r = q.registry then registry else s.registries r)
    (hregistry : q.registry = s.nextRegistry ∧ s'.nextRegistry = s.nextRegistry + 1 ∨
      q.registry < s.nextRegistry ∧ s'.nextRegistry = s.nextRegistry ∧ registry = ∅)
    (hcreated : s'.created = s.created)
    (hrecorded : ∀ page g, registry.lookup page = some g → g < s.created) : s'.Sharing := by
  -- who has the registry of the process already finds it empty
  have hshared (pid' : Nat) (p : Proc) (hp : s.Runs pid' p)
      (hr : p.registry = q.registry) : registry = ∅ := by
    rcases hregistry with ⟨hnew, -⟩ | ⟨-, -, hempty⟩
    · have := (h.allocated pid' p hp).1
      omega
    · exact hempty
  refine ⟨fun pid' p pid'' p' hp hp' hrr => ?_, fun pid' p pid'' p' hp hp' haa => ?_,
    fun pid' p hp => ?_, fun r page g hg => ?_⟩
  · rw [hprocs] at hp hp'
    rw [hregistries]
    rcases lookup_setProc hp with ⟨-, rfl⟩ | ⟨-, hold⟩ <;>
      rcases lookup_setProc hp' with ⟨-, rfl⟩ | ⟨-, hold'⟩
    · exact .inl rfl
    · rw [if_pos rfl]
      exact .inr (hshared pid'' p' hold' hrr.symm)
    · rw [if_pos hrr]
      exact .inr (hshared pid' p hold hrr)
    · split
      · rename_i hr
        exact .inr (hshared pid' p hold hr)
      · exact h.shared pid' p pid'' p' hold hold' hrr
  · rw [hprocs] at hp hp'
    rcases lookup_setProc hp with ⟨-, rfl⟩ | ⟨-, hold⟩ <;>
      rcases lookup_setProc hp' with ⟨-, rfl⟩ | ⟨-, hold'⟩
    · rfl
    · have := (h.allocated pid'' p' hold').2
      omega
    · have := (h.allocated pid' p hold).2
      omega
    · exact h.paired pid' p pid'' p' hold hold' haa
  · rw [hprocs] at hp
    rcases lookup_setProc hp with ⟨-, rfl⟩ | ⟨-, hp⟩
    · omega
    · have := h.allocated pid' p hp
      omega
  · rw [hcreated]
    rw [hregistries] at hg
    split at hg
    · exact hrecorded page g hg
    · exact h.recorded r page g hg

theorem exit (pid : Nat) (p : Proc) : (s.exit pid p).Sharing := by
  have hgone : Sharing { s with procs := s.procs.erase pid } := by
    refine h.procs rfl rfl rfl rfl fun pid' q hq => ⟨pid', q, ?_, rfl, rfl⟩
    have hne : pid' ≠ pid := by
      rintro rfl
      rw [lookup_erase] at hq
      cases hq
    rw [lookup_erase_ne hne] at hq
    exact hq
  exact (hgone.counts (.detachEach _ p.registry)).clear p.registry

theorem execve (hp : s.Runs pid p) (image : List Nat) : (s.execve pid p image).Sharing := by
  let moved : System :=
    { s with
      spaces := Function.update s.spaces s.nextSpace fun v =>
        if v ∈ image then some .other else none
      nextSpace := s.nextSpace + 1
      procs := s.procs.insert pid { p with aspace := s.nextSpace } }
  have hcounts : CountsOnly moved (moved.detachEach p.registry) := .detachEach moved p.registry
  have hregistries (r : Nat) : (s.execve pid p image).registries r =
      if r = p.registry then ∅ else s.registries r := by
    have hset : (s.execve pid p image).registries r = if r = p.registry then ∅ else
        (moved.detachEach p.registry).registries r := setRegistry_registries _ _ _ _
    rw [hset, hcounts.registries]
  exact h.newSpace hcounts.procs rfl hcounts.nextSpace hregistries
    (.inr ⟨(h.allocated pid p hp).1, hcounts.nextRegistry, rfl⟩) hcounts.created
    nofun

theorem fork (hp : s.Runs pid p)
    (shareVm succeeds : Bool) : (s.fork p child shareVm succeeds).Sharing := by
  have hcounts := CountsOnly.attachAll s p.registry
  unfold System.fork
  split
  · split
    · exact h.setProc hp rfl rfl
    · exact h
  · dsimp only
    split
    · exact h.newSpace (congrArg (insert child _) hcounts.procs) rfl rfl
        (fun r => Function.update_apply _ _ _ _) (.inl ⟨rfl, rfl⟩) hcounts.created
        (h.recorded p.registry)
    · exact h.counts hcounts

/-- **Every call** keeps it, if segments are attached where the registry is of one address space. -/
theorem step {a : Action} (hm : s.Managed) (hok : AttachesShared s a)
    (hstep : Step s a s') : s'.Sharing := by
  cases hstep with
  | same => exact h
  | make => exact h.frame rfl rfl rfl rfl (Nat.le_succ _)
  | alloc | unmapped | unrecorded | detachFails | marked | removed | set | lock | mapOther
    | unmapOther => exact h.frame rfl rfl rfl rfl (Nat.le_refl _)
  | @attached pid _ g page shmid _ _ _ p _ hp hg =>
    have hmapped (space : Space) :
        ((s.setSegment g (s.segments g).allocPages).setSpace p.aspace space).Sharing :=
      h.frame rfl rfl rfl rfl (Nat.le_refl _)
    exact (hmapped _).record hp hok (hm shmid g hg).1 page
  | detached hp _ hg =>
    refine counts ?_ (.detachOne _ _)
    exact (h.erase hp hg).frame rfl rfl rfl rfl (Nat.le_refl _)
  | fork hp _ => exact h.fork hp _ _
  | execve hp => exact h.execve hp _
  | exit => exact h.exit _ _
  | setCredentials hp => exact h.setProc hp rfl rfl

end

theorem initial (h : Initial s) : s.Sharing := by
  refine ⟨fun pid p pid' p' hp hp' hr => .inr (h.registries _),
    fun pid p pid' p' hp hp' ha => ?_, h.allocated, fun r page g hg => ?_⟩
  · rw [(h.separate pid p hp).1, (h.separate pid' p' hp').1, ← (h.separate pid p hp).2,
      ← (h.separate pid' p' hp').2]
    exact ha
  · rw [h.registries] at hg
    cases hg

end Sharing

end System

end PulseOS.Ipc.Shm
