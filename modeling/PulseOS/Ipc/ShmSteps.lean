import PulseOS.Ipc.Shm

/-!
# The effects of the calls on shared memory

* `Step`, `exec_step` — what each call does to the state, said once; `invariant_of_run` is the
  induction over runs.
* `Keeps`, `CountsOnly` — what the loops over a registry leave alone.
-/

namespace PulseOS.Ipc.Shm

open Transition MappingFlags Function Option

namespace System

/-! ## What a call does -/

variable {s s' : System} {r : Except LinuxError Int} {pid : Nat} {caller : Credentials}
  {shmflg : BitVec 32} {shmid : Int32} {p : Proc} {faults : Faults}

/-- `map_linear` and what follows in `shmat` have three outcomes: nothing but the pages that were
taken away first; a mapping without a record; the mapping and its record. -/
theorem attach_cases {g page : Nat} (h : s.attach p g page shmflg faults = (s', r)) :
    ∃ space, space = (s.spaces p.aspace).unmap page (remapPages (s.segments g) shmflg faults) ∧
      (s' = s.setSpace p.aspace space ∨ space.IsFree page (s.segments g).pageNum ∧
          ((∃ n, n ≤ (s.segments g).pageNum ∧ (faults.shootdown = false ∨ faults.map ≠ none) ∧
              s' = s.setSpace p.aspace
                (space.mapSegment page n g (mapFlags (s.segments g) shmflg))) ∨
            s' = (s.setSpace p.aspace (space.mapSegment page (s.segments g).pageNum g
              (mapFlags (s.segments g) shmflg))).record p g page)) := by
  refine ⟨_, rfl, ?_⟩
  unfold attach at h
  dsimp only at h
  rcases Space.mapLinear_cases
    ((s.spaces p.aspace).unmap page (remapPages (s.segments g) shmflg faults)) page
    (s.segments g).pageNum g (mapFlags (s.segments g) shmflg) faults.map with
    ⟨error, hmap⟩ | ⟨hfree, ⟨k, error, hfault, hk, hmap⟩ | hmap⟩
  · rw [hmap] at h
    left
    split at h <;> exact (congrArg Prod.fst h).symm
  · rw [hmap] at h
    refine .inr ⟨hfree, .inl ⟨k, hk, .inr hfault, ?_⟩⟩
    split at h <;> exact (congrArg Prod.fst h).symm
  · rw [hmap] at h
    refine .inr ⟨hfree, ?_⟩
    split at h
    · rename_i hshoot
      exact .inl ⟨_, Nat.le_refl _, .inl hshoot.2, (congrArg Prod.fst h).symm⟩
    · exact .inr (congrArg Prod.fst h).symm

/-- The effects of the calls.  The frames of a segment are allocated at the first `shmat` that is
permitted, whatever becomes of it. -/
inductive Step (s : System) : Action → System → Prop where
  | same (a : Action) : Step s a s
  | make {pid size : Nat} {key : Int32} {shmflg : BitVec 32} (caller : Credentials)
      (hsize : 0 < pagesOf size) :
      Step s (.shmget pid key size shmflg) (s.makeSegment caller key size shmflg)
  | alloc {pid shmaddr g : Nat} {shmid : Int32} {shmflg : BitVec 32} {area : Option Nat}
      {faults : Faults} (hg : s.manager.inners shmid = some g) :
      Step s (.shmat pid shmid shmaddr shmflg area faults)
        (s.setSegment g (s.segments g).allocPages)
  | unmapped {pid shmaddr g page : Nat} {shmid : Int32} {shmflg : BitVec 32} {area : Option Nat}
      {faults : Faults} {p : Proc} {space : Space} (hp : s.procs.lookup pid = some p)
      (hg : s.manager.inners shmid = some g) (hpage : mapPage shmaddr shmflg area = .ok page)
      (hspace : space = (s.spaces p.aspace).unmap page (remapPages (s.segments g) shmflg faults)) :
      Step s (.shmat pid shmid shmaddr shmflg area faults)
        ((s.setSegment g (s.segments g).allocPages).setSpace p.aspace space)
  | unrecorded {pid shmaddr g page n : Nat} {shmid : Int32} {shmflg : BitVec 32}
      {area : Option Nat} {faults : Faults} {p : Proc} {space : Space}
      (hp : s.procs.lookup pid = some p) (hg : s.manager.inners shmid = some g)
      (hperm : ipcHasPermission (s.segments g).perm (reqMode shmflg) p.creds = true)
      (hpage : mapPage shmaddr shmflg area = .ok page)
      (hspace : space = (s.spaces p.aspace).unmap page (remapPages (s.segments g) shmflg faults))
      (hfault : faults.shootdown = false ∨ faults.map ≠ none)
      (hn : n ≤ (s.segments g).pageNum) (hfree : space.IsFree page (s.segments g).pageNum) :
      Step s (.shmat pid shmid shmaddr shmflg area faults)
        ((s.setSegment g (s.segments g).allocPages).setSpace p.aspace
          (space.mapSegment page n g (mapFlags (s.segments g) shmflg)))
  | attached {pid shmaddr g page : Nat} {shmid : Int32} {shmflg : BitVec 32} {area : Option Nat}
      {faults : Faults} {p : Proc} {space : Space} (hp : s.procs.lookup pid = some p)
      (hg : s.manager.inners shmid = some g)
      (hperm : ipcHasPermission (s.segments g).perm (reqMode shmflg) p.creds = true)
      (hpage : mapPage shmaddr shmflg area = .ok page)
      (hspace : space = (s.spaces p.aspace).unmap page (remapPages (s.segments g) shmflg faults))
      (hfree : space.IsFree page (s.segments g).pageNum) :
      Step s (.shmat pid shmid shmaddr shmflg area faults)
        (((s.setSegment g (s.segments g).allocPages).setSpace p.aspace
          (space.mapSegment page (s.segments g).pageNum g
            (mapFlags (s.segments g) shmflg))).record p g page)
  | detachFails {pid shmaddr n page g : Nat} {p : Proc} (hp : s.procs.lookup pid = some p)
      (hpage : page = shmaddr / PAGE_SIZE)
      (hg : (s.registries p.registry).lookup page = some g) :
      Step s (.shmdt pid shmaddr (.fails n)) (s.setSpace p.aspace
        ((s.spaces p.aspace).unmap page (min n (s.segments g).pageNum)))
  | detached {pid shmaddr page g : Nat} {p : Proc} (hp : s.procs.lookup pid = some p)
      (hpage : page = shmaddr / PAGE_SIZE)
      (hg : (s.registries p.registry).lookup page = some g) :
      Step s (.shmdt pid shmaddr .done)
        (((s.setSpace p.aspace
          ((s.spaces p.aspace).unmap page (s.segments g).pageNum)).setRegistry p.registry
            ((s.registries p.registry).erase page)).detachOne g)
  | marked {pid g : Nat} {shmid : Int32} (hg : s.manager.inners shmid = some g)
      (hcount : (s.segments g).nattch ≠ 0) :
      Step s (.ipcRmid pid shmid) (s.setSegment g { s.segments g with rmid := true })
  | removed {pid g : Nat} {shmid : Int32} (hg : s.manager.inners shmid = some g)
      (hcount : (s.segments g).nattch = 0) :
      Step s (.ipcRmid pid shmid) { s.setSegment g { s.segments g with rmid := true } with
        manager := s.manager.removeShmid shmid }
  | set {pid g : Nat} {shmid : Int32} {uid gid : UInt32} {mode : BitVec 16} :
      Step s (.ipcSet pid shmid uid gid mode)
        { s.setSegment g { s.segments g with
            perm := { (s.segments g).perm with uid, gid, mode } } with
          origins := update s.origins g { s.origins g with changed := true } }
  | lock {pid g : Nat} {shmid : Int32} (lock : Bool) :
      Step s (.shmLock pid shmid lock) (s.setSegment g { s.segments g with
        perm := { (s.segments g).perm with
          mode := if lock then (s.segments g).perm.mode ||| SHM_LOCKED
            else (s.segments g).perm.mode &&& ~~~SHM_LOCKED } })
  | fork {pid child : Nat} {shareVm succeeds : Bool} {p : Proc}
      (hp : s.procs.lookup pid = some p) (hchild : s.procs.lookup child = none) :
      Step s (.fork pid child shareVm succeeds) (s.fork p child shareVm succeeds)
  | execve {pid : Nat} {image : List Nat} {p : Proc} (hp : s.procs.lookup pid = some p) :
      Step s (.execve pid image) (s.execve pid p image)
  | exit {pid : Nat} {p : Proc} (hp : s.procs.lookup pid = some p) :
      Step s (.exit pid) (s.exit pid p)
  | setCredentials {pid : Nat} {creds : Credentials} {p : Proc}
      (hp : s.procs.lookup pid = some p) :
      Step s (.setCredentials pid creds) (s.setProc pid { p with creds })
  | mapOther {pid page : Nat} {p : Proc} (hp : s.procs.lookup pid = some p)
      (hfree : s.spaces p.aspace page = none) :
      Step s (.mapOther pid page)
        (s.setSpace p.aspace (update (s.spaces p.aspace) page (some .other)))
  | unmapOther {pid page : Nat} {p : Proc} (hp : s.procs.lookup pid = some p)
      (hother : s.spaces p.aspace page = some .other) :
      Step s (.unmapOther pid page) (s.setSpace p.aspace (update (s.spaces p.aspace) page none))

theorem step_shmget {key : Int32} {size : Nat} {r : Except LinuxError Int32}
    (h : s.shmget p.creds key size shmflg = some (s', r)) :
    Step s (.shmget pid key size shmflg) s' := by
  unfold shmget at h
  split at h
  · cases h
    exact .same _
  split at h
  · split at h
    · cases h
      exact .same _
    · obtain ⟨g, -, h⟩ := bind_eq_some_iff.mp h
      split at h <;> cases h <;> exact .same _
  · have hs : (s.createShm p.creds key size shmflg).1 = s' :=
      congrArg Prod.fst (some.inj h)
    rw [← hs]
    unfold createShm
    split
    · exact .same _
    rename_i hpages
    split
    · split
      · exact .same _
      · split
        · exact .same _
        · split <;> exact .same _
    · exact .make _ (Nat.pos_of_ne_zero hpages)

theorem step_shmat {shmaddr : Nat} {area : Option Nat} (hp : s.Runs pid p)
    (h : s.shmat p shmid shmaddr shmflg area faults = some (s', r)) :
    Step s (.shmat pid shmid shmaddr shmflg area faults) s' := by
  unfold shmat at h
  split at h
  · cases h
    exact .same _
  rename_i g hg
  dsimp only at h
  split at h
  · cases h
    exact .same _
  rename_i hperm
  rw [Bool.not_eq_false] at hperm
  split at h
  · cases h
    exact .same _
  split at h
  · cases h
    exact .alloc hg
  rename_i page hpage
  split at h
  · cases h
  -- the allocation changes neither the length nor the flags of the segment
  have hinner : (s.setSegment g (s.segments g).allocPages).segments g = (s.segments g).allocPages :=
    update_self _ _ _
  obtain ⟨space, hspace, hcases⟩ := attach_cases (some.inj h)
  rw [hinner] at hspace hcases
  rcases hcases with rfl | ⟨hfree, ⟨n, hn, hfault, rfl⟩ | rfl⟩
  · exact .unmapped hp hg hpage hspace
  · exact .unrecorded hp hg hperm hpage hspace hfault hn hfree
  · exact .attached hp hg hperm hpage hspace hfree

theorem step_shmdt {shmaddr : Nat} {unmap : Unmap} (hp : s.Runs pid p) :
    Step s (.shmdt pid shmaddr unmap) (s.shmdt p shmaddr unmap).1 := by
  unfold shmdt
  dsimp only
  split
  · exact .same _
  · rename_i g hg
    have hlookup : (s.registries p.registry).lookup (shmaddr / PAGE_SIZE) = some g := by
      split at hg
      · exact hg
      · cases hg
    cases unmap with
    | fails n => exact .detachFails hp rfl hlookup
    | done => exact .detached hp rfl hlookup

theorem step_ipcRmid : Step s (.ipcRmid pid shmid) (s.ipcRmid caller shmid).1 := by
  unfold ipcRmid
  split
  · exact .same _
  rename_i g hg
  dsimp only
  split
  · exact .same _
  split
  · rename_i hcount
    exact .removed hg hcount
  · rename_i hcount
    exact .marked hg hcount

theorem step_ipcSet {uid gid : UInt32} {mode : BitVec 16} :
    Step s (.ipcSet pid shmid uid gid mode) (s.ipcSet caller shmid uid gid mode).1 := by
  unfold ipcSet
  split
  · exact .same _
  dsimp only
  split
  · exact .same _
  · exact .set

theorem step_shmLock {lock : Bool} :
    Step s (.shmLock pid shmid lock) (s.shmLock caller shmid lock).1 := by
  unfold shmLock
  split
  · exact .same _
  split
  · exact .same _
  · exact .lock lock

/-- **Every call has one of the effects.** -/
theorem exec_step {a : Action} (h : s.exec a = some (s', r)) : Step s a s' := by
  cases a with
  | shmget pid key size shmflg =>
    obtain ⟨p, -, h⟩ := bind_eq_some_iff.mp h
    obtain ⟨⟨s₁, r₁⟩, hget, h⟩ := bind_eq_some_iff.mp h
    cases h
    exact step_shmget hget
  | shmat pid shmid shmaddr shmflg area faults =>
    obtain ⟨p, hp, h⟩ := bind_eq_some_iff.mp h
    exact step_shmat hp h
  | shmdt pid shmaddr unmap =>
    obtain ⟨p, hp, h⟩ := map_eq_some_iff.mp h
    obtain rfl : _ = s' := congrArg Prod.fst h
    exact step_shmdt hp
  | ipcRmid pid shmid =>
    obtain ⟨p, -, h⟩ := map_eq_some_iff.mp h
    obtain rfl : _ = s' := congrArg Prod.fst h
    exact step_ipcRmid
  | ipcSet pid shmid uid gid mode =>
    obtain ⟨p, -, h⟩ := map_eq_some_iff.mp h
    obtain rfl : _ = s' := congrArg Prod.fst h
    exact step_ipcSet
  | shmLock pid shmid lock =>
    obtain ⟨p, -, h⟩ := map_eq_some_iff.mp h
    obtain rfl : _ = s' := congrArg Prod.fst h
    exact step_shmLock
  | fork pid child shareVm succeeds =>
    obtain ⟨p, hp, h⟩ := bind_eq_some_iff.mp h
    split at h
    · cases h
    · rename_i hchild
      cases h
      exact .fork hp (not_isSome_iff_eq_none.mp hchild)
  | execve pid image =>
    obtain ⟨p, hp, h⟩ := map_eq_some_iff.mp h
    cases h
    exact .execve hp
  | exit pid =>
    obtain ⟨p, hp, h⟩ := map_eq_some_iff.mp h
    cases h
    exact .exit hp
  | setCredentials pid creds =>
    obtain ⟨p, hp, h⟩ := map_eq_some_iff.mp h
    cases h
    exact .setCredentials hp
  | mapOther pid page =>
    obtain ⟨p, hp, h⟩ := bind_eq_some_iff.mp h
    split at h
    · rename_i hfree
      cases h
      exact .mapOther hp hfree
    · cases h
  | unmapOther pid page =>
    obtain ⟨p, hp, h⟩ := bind_eq_some_iff.mp h
    split at h
    · rename_i hother
      cases h
      exact .unmapOther hp hother
    · cases h

theorem invariant_of_run {ok : System → Action → Prop} {I : System → Prop}
    (h : Reachable Initial (Guarded ok (Computed next)) s) (h0 : ∀ s, Initial s → I s)
    (hstep : ∀ s a s', I s → ok s a → Step s a s' → I s') : I s := by
  refine h.invariant h0 fun s a s' hs hnext => ?_
  obtain ⟨⟨s₁, r⟩, hexec, rfl⟩ := map_eq_some_iff.mp hnext.2
  exact hstep s a _ hs hnext.1 (exec_step hexec)

/-! ## What the calls keep -/

/-- What is fixed when a segment is made; `perm` but for `shmctl`. -/
def fixed (s : System) (g : Nat) : Int32 × Nat × MappingFlags × IpcPerm :=
  ((s.segments g).shmid, (s.segments g).pageNum, (s.segments g).mappingFlags, (s.segments g).perm)

/-- No segment is made or given other permissions. -/
structure Keeps (s s' : System) : Prop where
  created : s'.created = s.created
  origins : s'.origins = s.origins
  fixed : ∀ g, s'.fixed g = s.fixed g

namespace Keeps

variable {s'' : System}

theorem refl (s : System) : Keeps s s := ⟨rfl, rfl, fun _ => rfl⟩

theorem trans (h : Keeps s s') (h' : Keeps s' s'') : Keeps s s'' :=
  ⟨h'.created.trans h.created, h'.origins.trans h.origins, fun g => (h'.fixed g).trans (h.fixed g)⟩

theorem of_eq (hsegments : s'.segments = s.segments) (hcreated : s'.created = s.created)
    (horigins : s'.origins = s.origins) : Keeps s s' :=
  ⟨hcreated, horigins, fun g => by rw [System.fixed, hsegments]; rfl⟩

theorem setSegment {g : Nat} {inner : ShmInner}
    (h : (inner.shmid, inner.pageNum, inner.mappingFlags, inner.perm) = s.fixed g) :
    Keeps s (s.setSegment g inner) := by
  refine ⟨rfl, rfl, fun g' => ?_⟩
  unfold System.fixed System.setSegment
  dsimp only
  by_cases hg : g' = g
  · subst hg
    rw [update_self]
    exact h
  · rw [update_of_ne hg]

variable (s)

theorem allocPages (g : Nat) : Keeps s (s.setSegment g (s.segments g).allocPages) :=
  .setSegment rfl

theorem attachProcess (g : Nat) : Keeps s (s.setSegment g (s.segments g).attachProcess) :=
  .setSegment rfl

theorem record (p : Proc) (g page : Nat) : Keeps s (s.record p g page) :=
  (attachProcess s g).trans (.of_eq rfl rfl rfl)

end Keeps

/-- Counts change, and segments leave the manager. -/
structure CountsOnly (s s' : System) : Prop extends Keeps s s' where
  registries : s'.registries = s.registries
  nextRegistry : s'.nextRegistry = s.nextRegistry
  spaces : s'.spaces = s.spaces
  nextSpace : s'.nextSpace = s.nextSpace
  procs : s'.procs = s.procs
  inners : ∀ shmid g, s'.manager.inners shmid = some g → s.manager.inners shmid = some g

namespace CountsOnly

variable {s'' : System}

theorem refl (s : System) : CountsOnly s s := ⟨.refl s, rfl, rfl, rfl, rfl, rfl, fun _ _ => id⟩

theorem trans (h : CountsOnly s s') (h' : CountsOnly s' s'') : CountsOnly s s'' :=
  ⟨h.toKeeps.trans h'.toKeeps, h'.registries.trans h.registries,
    h'.nextRegistry.trans h.nextRegistry, h'.spaces.trans h.spaces, h'.nextSpace.trans h.nextSpace,
    h'.procs.trans h.procs, fun shmid g hg => h.inners shmid g (h'.inners shmid g hg)⟩

theorem setSegment {g : Nat} {inner : ShmInner}
    (h : (inner.shmid, inner.pageNum, inner.mappingFlags, inner.perm) = s.fixed g) :
    CountsOnly s (s.setSegment g inner) :=
  ⟨.setSegment h, rfl, rfl, rfl, rfl, rfl, fun _ _ => id⟩

theorem removeShmid (s : System) (shmid : Int32) :
    CountsOnly s { s with manager := s.manager.removeShmid shmid } := by
  refine ⟨.of_eq rfl rfl rfl, rfl, rfl, rfl, rfl, rfl, fun shmid' g hg => ?_⟩
  unfold ShmManager.removeShmid at hg
  dsimp only at hg
  rw [update_apply] at hg
  split at hg
  · cases hg
  · exact hg

theorem detachOne (s : System) (g : Nat) : CountsOnly s (s.detachOne g) := by
  have hset : CountsOnly s (s.setSegment g (s.segments g).detachProcess) := .setSegment rfl
  unfold System.detachOne
  dsimp only
  split
  · exact hset.trans (.removeShmid _ _)
  · exact hset

theorem foldl {α : Type} {f : System → α → System} (hf : ∀ s a, CountsOnly s (f s a))
    (as : List α) (s : System) : CountsOnly s (as.foldl f s) := by
  induction as generalizing s with
  | nil => exact .refl s
  | cons a as ih => exact (hf s a).trans (ih _)

theorem attachAll (s : System) (r : Nat) : CountsOnly s (s.attachAll r) := by
  refine .foldl (fun s record => ?_) _ s
  exact .setSegment rfl

theorem detachEach (s : System) (r : Nat) : CountsOnly s (s.detachEach r) :=
  .foldl (fun s _ => .detachOne s _) _ s

end CountsOnly

namespace Keeps

variable (s)

theorem detachAll (r : Nat) : Keeps s (s.detachAllSharedMemory r) :=
  (CountsOnly.detachEach s r).toKeeps.trans (.of_eq rfl rfl rfl)

theorem fork (p : Proc) (child : Nat) (shareVm succeeds : Bool) :
    Keeps s (s.fork p child shareVm succeeds) := by
  have hcopy := (CountsOnly.attachAll s p.registry).toKeeps
  unfold System.fork
  split
  · split
    · exact .of_eq rfl rfl rfl
    · exact .refl s
  · dsimp only
    split
    · exact hcopy.trans (.of_eq rfl rfl rfl)
    · exact hcopy

theorem execve (pid : Nat) (p : Proc) (image : List Nat) : Keeps s (s.execve pid p image) := by
  refine Keeps.trans ?_ (detachAll _ p.registry)
  exact .of_eq rfl rfl rfl

theorem exit (pid : Nat) (p : Proc) : Keeps s (s.exit pid p) := by
  refine Keeps.trans ?_ (detachAll _ p.registry)
  exact .of_eq rfl rfl rfl

end Keeps

/-! ## The ids of the segments -/

/-- A segment is managed under its own id. -/
def Managed (s : System) : Prop :=
  ∀ shmid g, s.manager.inners shmid = some g → g < s.created ∧ (s.segments g).shmid = shmid

namespace Managed

section
variable (h : s.Managed)
include h

theorem keeps (hk : Keeps s s')
    (hinners : ∀ shmid g, s'.manager.inners shmid = some g → s.manager.inners shmid = some g) :
    s'.Managed := by
  intro shmid g hg
  obtain ⟨hlt, hid⟩ := h shmid g (hinners shmid g hg)
  have hsame : (s'.segments g).shmid = (s.segments g).shmid := congrArg Prod.fst (hk.fixed g)
  exact ⟨by rw [hk.created]; exact hlt, hsame.trans hid⟩

theorem counts (hc : CountsOnly s s') : s'.Managed := h.keeps hc.toKeeps hc.inners

theorem setSegment {g : Nat} {inner : ShmInner}
    (hid : inner.shmid = (s.segments g).shmid) : (s.setSegment g inner).Managed := by
  intro shmid g' hg'
  obtain ⟨hlt, hid'⟩ := h shmid g' hg'
  rw [setSegment_segments]
  split
  · subst g'
    exact ⟨hlt, hid.trans hid'⟩
  · exact ⟨hlt, hid'⟩

theorem make (caller : Credentials) (key : Int32) (size : Nat)
    (shmflg : BitVec 32) : (s.makeSegment caller key size shmflg).Managed := by
  intro shmid g hg
  unfold makeSegment ShmManager.insert at hg ⊢
  dsimp only at hg ⊢
  rw [update_apply] at hg
  split at hg
  · rename_i hid
    cases hg
    rw [update_self]
    exact ⟨Nat.lt_succ_self _, hid.symm⟩
  · obtain ⟨hlt, hid⟩ := h shmid g hg
    rw [update_of_ne (Nat.ne_of_lt hlt)]
    exact ⟨hlt.trans (Nat.lt_succ_self _), hid⟩

theorem fork (p : Proc) (child : Nat) (shareVm succeeds : Bool) :
    (s.fork p child shareVm succeeds).Managed := by
  have hcopy := h.counts (CountsOnly.attachAll s p.registry)
  unfold System.fork
  split
  · split <;> exact h
  · dsimp only
    split <;> exact hcopy

theorem step {a : Action} (hstep : Step s a s') : s'.Managed := by
  cases hstep with
  | same => exact h
  | make => exact h.make _ _ _ _
  | alloc | unmapped | unrecorded | marked | set | lock => exact h.setSegment (by rfl)
  | @attached _ _ g =>
    have halloc : (s.setSegment g (s.segments g).allocPages).Managed := h.setSegment (by rfl)
    exact halloc.setSegment (by rfl)
  | detachFails => exact h
  | detached =>
    refine counts ?_ (.detachOne _ _)
    exact h
  | @removed _ g =>
    have hmarked : (s.setSegment g { s.segments g with rmid := true }).Managed :=
      h.setSegment (by rfl)
    exact hmarked.counts (.removeShmid _ _)
  | fork => exact h.fork _ _ _ _
  | execve | exit =>
    refine (counts ?_ (.detachEach _ _) : Managed _)
    exact h
  | setCredentials | mapOther | unmapOther => exact h

end

end Managed

theorem managed_initial (h : Initial s) : s.Managed := by
  intro shmid g hg
  rw [h.manager] at hg
  cases hg

theorem managed_of_run (h : Reachable Initial (Computed next) s) : s.Managed := by
  refine h.invariant (I := Managed) (fun s => managed_initial) fun s a s' hs hnext => ?_
  obtain ⟨⟨s₁, r⟩, hexec, rfl⟩ := map_eq_some_iff.mp hnext
  exact hs.step (exec_step hexec)

end System

end PulseOS.Ipc.Shm
