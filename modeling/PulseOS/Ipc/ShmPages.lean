import PulseOS.Ipc.ShmSharing

/-!
# Frames and the mappings of them

A mapping holds the bare frames of its segment.  What keeps them is the record in the registry of
the process, so the frames are safe as long as every mapped page of a segment lies in the range of a
record for it.

* `PagesRecorded` — the invariant, beside `Sharing`.
* `KeepsRecords`, `pagesHeld_of_run` — mapped frames are kept where no process leaves a registry
  that others still use and no record is overwritten by that of a shorter segment.
* `frames_freed_while_mapped` — a `CLONE_VM` child exits, and the frames of its parent are gone.
-/

namespace PulseOS.Ipc.Shm

open Transition Function AList

namespace System

variable (s : System)

/-- The frames that a process maps through an attachment have not been given back. -/
def PagesHeld : Prop :=
  ∀ pid p, s.procs.lookup pid = some p → ∀ v g i flags,
    s.spaces p.aspace v = some (.shm g i flags) → s.Held g

/-- The process leaves its registry to no other, or leaves it empty. -/
def LeavesAlone (pid : Nat) : Prop :=
  ∀ p ∈ s.procs.lookup pid, s.others pid p.registry = [] ∨ (s.registries p.registry).entries = []

/-- The call maps without faults; whoever uses the registry uses the address space; and a record
that is replaced is not that of a longer segment. -/
def AttachesSafely (pid : Nat) (shmid : Int32) (page : Except LinuxError Nat)
    (faults : Faults) : Prop :=
  (faults.shootdown = true ∧ faults.map = none) ∧ s.SharesSpace pid ∧
    ∀ p ∈ s.procs.lookup pid, ∀ g ∈ s.manager.inners shmid, ∀ n ∈ page.toOption,
      ∀ old ∈ (s.registries p.registry).lookup n, (s.segments old).pageNum ≤ (s.segments g).pageNum

def KeepsRecords : Action → Prop
  | .shmat pid shmid shmaddr shmflg area faults =>
    s.AttachesSafely pid shmid (mapPage shmaddr shmflg area) faults
  | .execve pid _ => s.LeavesAlone pid
  | .exit pid => s.LeavesAlone pid
  | _ => True

instance (pid : Nat) : Decidable (s.LeavesAlone pid) := by
  unfold LeavesAlone
  infer_instance

instance (pid : Nat) (shmid : Int32) (page : Except LinuxError Nat)
    (faults : Faults) : Decidable (s.AttachesSafely pid shmid page faults) := by
  unfold AttachesSafely
  infer_instance

instance (a : Action) : Decidable (KeepsRecords s a) := by
  unfold KeepsRecords
  induction a using Action.casesOn <;> infer_instance

variable {s s' : System}

theorem KeepsRecords.attachesShared {a : Action} (h : KeepsRecords s a) : AttachesShared s a := by
  cases a with
  | shmat => exact h.2.1
  | _ => trivial

/-! ## The invariant -/

/-- A mapped page of a segment lies in the range of a record for it. -/
def PagesRecorded (s : System) : Prop :=
  ∀ pid p, s.procs.lookup pid = some p → ∀ v g i flags,
    s.spaces p.aspace v = some (.shm g i flags) →
      ∃ page, (s.registries p.registry).lookup page = some g ∧ page ≤ v ∧
        v < page + (s.segments g).pageNum

namespace PagesRecorded

theorem pagesHeld (h : s.PagesRecorded) : s.PagesHeld := by
  intro pid p hp v g i flags hv
  obtain ⟨page, hpage, -⟩ := h pid p hp v g i flags hv
  exact Or.inr ⟨pid, p, page, hp, hpage⟩

theorem frame (h : s.PagesRecorded) (hs : s.Sharing) (hprocs : s'.procs = s.procs)
    (hregistries : s'.registries = s.registries)
    (hspaces : ∀ a v g i flags, s'.spaces a v = some (.shm g i flags) →
      s.spaces a v = some (.shm g i flags))
    (hpages : ∀ g < s.created, (s'.segments g).pageNum = (s.segments g).pageNum) :
    s'.PagesRecorded := by
  intro pid p hp v g i flags hv
  rw [hprocs] at hp
  obtain ⟨page, hpage, hrange⟩ := h pid p hp v g i flags (hspaces _ _ _ _ _ hv)
  rw [hregistries, hpages g (hs.recorded _ _ _ hpage)]
  exact ⟨page, hpage, hrange⟩

theorem counts (h : s.PagesRecorded) (hs : s.Sharing) (hc : CountsOnly s s') :
    s'.PagesRecorded := by
  refine h.frame hs hc.procs hc.registries (fun a v g i flags hv => ?_)
    fun g _ => congrArg (fun x => x.2.1) (hc.fixed g)
  rwa [hc.spaces] at hv

end PagesRecorded

theorem unmap_shm {space : Space} {page n v : Nat} {x : Page}
    (h : space.unmap page n v = some x) : space v = some x ∧ ¬ (page ≤ v ∧ v < page + n) := by
  unfold Space.unmap at h
  split at h
  · cases h
  · rename_i hout
    exact ⟨h, hout⟩

theorem setSegment_pageNum {g : Nat} {inner : ShmInner}
    (h : inner.pageNum = (s.segments g).pageNum) (g' : Nat) :
    ((s.setSegment g inner).segments g').pageNum = (s.segments g').pageNum := by
  rw [setSegment_segments]
  split
  · subst g'
    exact h
  · rfl

namespace PagesRecorded

section

variable (h : s.PagesRecorded)

include h

theorem setSpace (hs : s.Sharing) {a : Nat} {space : Space}
    (hspace : ∀ v g i flags, space v = some (.shm g i flags) →
      s.spaces a v = some (.shm g i flags)) : (s.setSpace a space).PagesRecorded := by
  refine h.frame hs rfl rfl (fun a' v g i flags hv => ?_) fun _ _ => rfl
  rw [setSpace_spaces] at hv
  split at hv
  · subst a'
    exact hspace v g i flags hv
  · exact hv

variable {child g page pid : Nat} {p : Proc}

/-- The registry of the processes that use an address space gets the record of what is mapped
there. -/
theorem attach (hs : s.Sharing) {n : Nat}
    {flags : MappingFlags} {space : Space} (hp : s.Runs pid p)
    (hn : (s.segments g).pageNum = n)
    (hspace : ∀ v x, space v = some x → s.spaces p.aspace v = some x) (hshares : s.SharesSpace pid)
    (hold : ∀ old, (s.registries p.registry).lookup page = some old →
      (s.segments old).pageNum ≤ n) :
    ((s.setSpace p.aspace (space.mapSegment page n g flags)).record p g page).PagesRecorded := by
  have hpages (g' : Nat) :
      (((s.setSpace p.aspace (space.mapSegment page n g flags)).record p g page).segments
        g').pageNum = (s.segments g').pageNum :=
    congrArg (fun x => x.2.1) ((Keeps.record _ p g page).fixed g')
  have hregistry (r : Nat) :
      ((s.setSpace p.aspace (space.mapSegment page n g flags)).record p g page).registries r =
        if r = p.registry then (s.registries p.registry).insert page g else s.registries r :=
    setRegistry_registries _ _ _ _
  intro pid' q hq v g' i flags' hv
  rw [hpages, hregistry]
  have hv : (s.setSpace p.aspace (space.mapSegment page n g flags)).spaces q.aspace v =
    some (.shm g' i flags') := hv
  rw [setSpace_spaces] at hv
  by_cases haspace : q.aspace = p.aspace
  · rw [if_pos haspace, Space.mapSegment] at hv
    rw [if_pos (hs.paired pid' q pid p hq hp haspace)]
    split at hv
    · rename_i hrange
      cases hv
      rw [hn]
      exact ⟨page, lookup_insert _, hrange⟩
    · rename_i hout
      -- the page was mapped before, so its record is another than the one that is replaced
      obtain ⟨k, hk, hrange⟩ := h pid p hp v g' i flags' (hspace v _ hv)
      have hne : k ≠ page := by
        rintro rfl
        have hlength := hold g' hk
        omega
      exact ⟨k, by rw [lookup_insert_ne hne]; exact hk, hrange⟩
  · rw [if_neg haspace] at hv
    rw [if_neg fun hr => haspace (hshares.same hp hq hr)]
    exact h pid' q hq v g' i flags' hv

theorem detach (hs : s.Sharing)
    (hp : s.Runs pid p) (hg : (s.registries p.registry).lookup page = some g) :
    ((s.setSpace p.aspace ((s.spaces p.aspace).unmap page (s.segments g).pageNum)).setRegistry
      p.registry ((s.registries p.registry).erase page)).PagesRecorded := by
  intro pid' q hq v g' i flags hv
  rw [setRegistry_registries]
  have hv : (s.setSpace p.aspace ((s.spaces p.aspace).unmap page
    (s.segments g).pageNum)).spaces q.aspace v = some (.shm g' i flags) := hv
  rw [setSpace_spaces] at hv
  by_cases haspace : q.aspace = p.aspace
  · rw [if_pos haspace] at hv
    rw [if_pos (hs.paired pid' q pid p hq hp haspace)]
    obtain ⟨hv, hout⟩ := unmap_shm hv
    obtain ⟨n, hn, hrange⟩ := h pid p hp v g' i flags hv
    have hne : n ≠ page := by
      rintro rfl
      rw [hg] at hn
      cases hn
      exact hout hrange
    exact ⟨n, by rw [lookup_erase_ne hne]; exact hn, hrange⟩
  · rw [if_neg haspace] at hv
    rw [if_neg fun hr => haspace (hs.same hp hq hr hg)]
    exact h pid' q hq v g' i flags hv

theorem setProc {q : Proc} (hp : s.Runs pid p) (hr : q.registry = p.registry)
    (ha : q.aspace = p.aspace) : (s.setProc child q).PagesRecorded := by
  intro pid' q' hq'
  rcases Sharing.lookup_setProc hq' with ⟨-, rfl⟩ | ⟨-, hq'⟩
  · rw [hr, ha]
    exact h pid p hp
  · exact h pid' q' hq'

theorem leave (hs : s.Sharing)
    (hp : s.Runs pid p) (hleaves : s.LeavesAlone pid) {t : System}
    (hsegments : t.segments = s.segments) (hregistries : t.registries = s.registries)
    (hspaces : ∀ a < s.nextSpace, t.spaces a = s.spaces a)
    (hothers : ∀ pid' ≠ pid, t.procs.lookup pid' = s.procs.lookup pid')
    (hself : ∀ q, t.procs.lookup pid = some q → ∀ v g i flags,
      t.spaces q.aspace v ≠ some (.shm g i flags)) :
    (t.detachAllSharedMemory p.registry).PagesRecorded := by
  have hcounts : CountsOnly t (t.detachEach p.registry) := .detachEach t p.registry
  have hpages (g : Nat) : ((t.detachAllSharedMemory p.registry).segments g).pageNum =
      (s.segments g).pageNum := by
    rw [← hsegments]
    exact congrArg (fun x => x.2.1) (hcounts.fixed g)
  intro pid' q hq v g i flags hv
  have hq : (t.detachEach p.registry).procs.lookup pid' = some q := hq
  have hv : (t.detachEach p.registry).spaces q.aspace v = some (.shm g i flags) := hv
  rw [hcounts.procs] at hq
  rw [hcounts.spaces] at hv
  by_cases hne : pid' = pid
  · subst hne
    exact absurd hv (hself q hq v g i flags)
  · rw [hothers pid' hne] at hq
    rw [hspaces _ (hs.allocated pid' q hq).2] at hv
    obtain ⟨page, hpage, hrange⟩ := h pid' q hq v g i flags hv
    refine ⟨page, ?_, by rw [hpages]; exact hrange⟩
    unfold detachAllSharedMemory
    rw [setRegistry_registries, hcounts.registries, hregistries, if_neg]
    · exact hpage
    · -- the registry has a record, so the process has it for itself
      intro hr
      rcases hleaves p hp with hnone | hempty
      · have hmem : q ∈ s.others pid p.registry := mem_others.mpr ⟨pid', hne, hq, hr⟩
        rw [hnone] at hmem
        cases hmem
      · rw [hr, show s.registries p.registry = ∅ from ext hempty] at hpage
        cases hpage

theorem fork (hs : s.Sharing) (hp : s.Runs pid p) (shareVm succeeds : Bool) :
    (s.fork p child shareVm succeeds).PagesRecorded := by
  unfold System.fork
  split
  · split
    · exact h.setProc hp rfl rfl
    · exact h
  · have hcounts := CountsOnly.attachAll s p.registry
    split
    · intro pid' q hq v g i flags hv
      have hq : ((s.attachAll p.registry).procs.insert child _).lookup pid' = some q := hq
      have hpages : ((s.attachAll p.registry).segments g).pageNum = (s.segments g).pageNum :=
        congrArg (fun x => x.2.1) (hcounts.fixed g)
      rw [hcounts.procs] at hq
      dsimp only [System.setProc] at hv ⊢
      rw [hpages]
      rcases Sharing.lookup_setProc hq with ⟨-, rfl⟩ | ⟨-, hq⟩
      · rw [update_self] at hv ⊢
        exact h pid p hp v g i flags hv
      · obtain ⟨hr, ha⟩ := hs.allocated pid' q hq
        rw [update_of_ne (Nat.ne_of_lt ha)] at hv
        rw [update_of_ne (Nat.ne_of_lt hr)]
        exact h pid' q hq v g i flags hv
    · exact h.counts hs hcounts

/-- **Every call** that keeps the records keeps the frames that are mapped. -/
theorem step {a : Action} (hs : s.Sharing) (hok : KeepsRecords s a)
    (hstep : Step s a s') : s'.PagesRecorded := by
  have halloc (g : Nat) : CountsOnly s (s.setSegment g (s.segments g).allocPages) := .setSegment rfl
  cases hstep with
  | same => exact h
  | make =>
    refine h.frame hs rfl rfl (fun _ _ _ _ _ => id) fun g hg => ?_
    exact congrArg ShmInner.pageNum (update_of_ne (Nat.ne_of_lt hg) _ _)
  | alloc => exact h.counts hs (halloc _)
  | unmapped hp hg hpage hspace =>
    refine (h.counts hs (halloc _)).setSpace (hs.counts (halloc _)) fun v g i flags hv => ?_
    rw [hspace] at hv
    exact (unmap_shm hv).1
  | unrecorded hp hg hperm hpage hspace hfault =>
    rcases hfault with hshoot | hmap
    · exact absurd hok.1.1 (by rw [hshoot]; nofun)
    · exact absurd hok.1.2 hmap
  | @attached pid shmaddr g page shmid shmflg area faults p space hp hg hperm hpage hspace hfree =>
    have hpages (g' : Nat) : ((s.setSegment g (s.segments g).allocPages).segments g').pageNum =
        (s.segments g').pageNum := setSegment_pageNum (by rfl) g'
    refine (h.counts hs (halloc g)).attach (hs.counts (halloc g)) hp (hpages g) (fun v x hv => ?_)
      hok.2.1 fun old hlookup => ?_
    · rw [hspace] at hv
      exact (unmap_shm hv).1
    · rw [hpages]
      exact hok.2.2 p hp g hg page (by rw [hpage]; rfl) old hlookup
  | detachFails => exact h.setSpace hs fun v g i flags hv => (unmap_shm hv).1
  | detached hp _ hg =>
    exact (h.detach hs hp hg).counts ((hs.erase hp hg).frame rfl rfl rfl rfl (Nat.le_refl _))
      (.detachOne _ _)
  | marked => exact h.counts hs (.setSegment rfl)
  | @removed _ g =>
    have hmarked : CountsOnly s (s.setSegment g { s.segments g with rmid := true }) :=
      .setSegment rfl
    exact h.counts hs (hmarked.trans (.removeShmid _ _))
  | set | lock =>
    refine h.frame hs rfl rfl (fun _ _ _ _ _ => id) fun g' _ => ?_
    exact setSegment_pageNum (by rfl) g'
  | fork hp _ => exact h.fork hs hp _ _
  | @execve pid image p hp =>
    refine h.leave hs hp hok rfl rfl (fun a ha => ?_) (fun pid' hne => ?_)
      fun q hq v g i flags hv => ?_
    · exact update_of_ne (Nat.ne_of_lt ha) _ _
    · exact lookup_insert_ne hne
    · -- the new image has no segments
      have hself : (s.procs.insert pid { p with aspace := s.nextSpace }).lookup pid = some q := hq
      rw [lookup_insert] at hself
      cases hself
      have himage : update s.spaces s.nextSpace
          (fun v => if v ∈ image then some Page.other else none) s.nextSpace v =
            some (.shm g i flags) := hv
      rw [update_self] at himage
      split at himage <;> cases himage
  | @exit pid p hp =>
    refine h.leave hs hp hok rfl rfl (fun _ _ => rfl) (fun pid' hne => ?_) fun q hq => ?_
    · exact lookup_erase_ne hne
    · have hgone : (s.procs.erase pid).lookup pid = some q := hq
      rw [lookup_erase] at hgone
      cases hgone
  | setCredentials hp => exact h.setProc hp rfl rfl
  | mapOther | unmapOther =>
    refine h.setSpace hs fun v g i flags hv => ?_
    rw [update_apply] at hv
    split at hv
    · cases hv
    · exact hv

end

theorem initial (h : Initial s) : s.PagesRecorded :=
  fun _ _ _ v g i flags hv => absurd hv (h.spaces _ v g i flags)

end PagesRecorded

/-- **Frames outlive their mappings**, where no process leaves a registry that others use, no call
maps without a record, and no record is replaced by that of a shorter segment. -/
theorem pagesHeld_of_run (h : Reachable Initial (Guarded KeepsRecords (Computed next)) s) :
    s.PagesHeld := by
  have hrecorded : s.Managed ∧ s.Sharing ∧ s.PagesRecorded :=
    invariant_of_run (I := fun s => s.Managed ∧ s.Sharing ∧ s.PagesRecorded) h
      (fun s hi => ⟨managed_initial hi, .initial hi, .initial hi⟩)
      fun s a s' hs hok hstep => ⟨hs.1.step hstep, hs.2.1.step hs.1 hok.attachesShared hstep,
        hs.2.2.step hs.2.1 hok hstep⟩
  exact hrecorded.2.2.pagesHeld

def root : Credentials := ⟨0, 0, []⟩

/-- A segment of one page, attached at page 16. -/
def attachOne : List Action :=
  [.shmget 0 IPC_PRIVATE 4096 (IPC_CREAT ||| 0o600), .shmat 0 1 (16 * PAGE_SIZE) 0 none .none]

/-- The page of the segment is mapped in the address space of the process. -/
def mapsSegment (s : System) (pid v g : Nat) : Bool :=
  (s.procs.lookup pid).any fun p => (s.spaces p.aspace v).any fun
    | .shm g' _ _ => g' = g
    | .other => false

/-- A forked child detaches and exits, and the segment is marked for removal. -/
theorem pagesHeld_after_fork : ∃ s : System,
    Reachable Initial (Guarded KeepsRecords (Computed next)) s ∧ s.mapsSegment 0 16 0 = true ∧
      s.PagesHeld := by
  obtain ⟨s, hr, hs⟩ : ∃ s : System,
      Reachable Initial (Guarded KeepsRecords (Computed next)) s ∧ s.mapsSegment 0 16 0 = true :=
    Reachable.guarded_execs (initial_start [root])
      (attachOne ++ [.fork 0 1 false true, .shmdt 1 (16 * PAGE_SIZE) .done, .exit 1, .ipcRmid 0 1])
      (by decide +kernel)
  exact ⟨s, hr, hs, pagesHeld_of_run hr⟩

/-- A child cloned with `CLONE_VM` exits, and the segment is removed: its parent still maps the
frames. -/
theorem frames_freed_while_mapped : ∃ s : System, Reachable Initial (Computed next) s ∧
    s.mapsSegment 0 16 0 = true ∧ ¬ s.Held 0 ∧ ¬ s.PagesHeld := by
  obtain ⟨s, hr, hs⟩ : ∃ s : System, Reachable Initial (Computed next) s ∧
      decide (s.mapsSegment 0 16 0 = true ∧ s.manager.inners (s.segments 0).shmid = none ∧
        ∀ e ∈ s.procs.entries, ∀ r ∈ (s.registries e.2.registry).entries, r.2 ≠ 0) = true :=
    Reachable.execs (initial_start [root])
      (attachOne ++ [.fork 0 1 true true, .exit 1, .ipcRmid 0 1]) (by decide +kernel)
  obtain ⟨hmaps, hgone, hregistries⟩ := of_decide_eq_true hs
  have hheld : ¬ s.Held 0 := by
    rintro (⟨shmid, hshmid⟩ | ⟨pid, p, page, hp, hpage⟩)
    · rw [((managed_of_run hr) shmid 0 hshmid).2, hshmid] at hgone
      cases hgone
    · exact hregistries ⟨pid, p⟩ (mem_lookup_iff.mp hp) ⟨page, 0⟩
        (mem_lookup_iff.mp hpage) rfl
  refine ⟨s, hr, hmaps, hheld, fun hpages => hheld ?_⟩
  obtain ⟨p, hp, hmaps⟩ := (Option.any_eq_true _ _).mp hmaps
  obtain ⟨x, hx, hmaps⟩ := (Option.any_eq_true _ _).mp hmaps
  cases x with
  | shm g i flags =>
    have hg : g = 0 := of_decide_eq_true hmaps
    subst hg
    exact hpages 0 p hp 16 0 i flags hx
  | other => cases hmaps

end System

end PulseOS.Ipc.Shm
