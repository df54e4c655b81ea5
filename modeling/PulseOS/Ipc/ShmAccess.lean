import PulseOS.Ipc.ShmSteps

/-!
# Who may attach a segment

`shmget` does not keep the permission bits of its flags.  The mode of a segment is that of its
mapping flags, `0o13`, or `0o17` if the flags have `0o100`, and `shmat` holds its request against
these.

* `Grants` — what the permission bits of the flags say: the triad of the owner, the group or the
  rest.
* `followsMode_iff` — where the two agree.
-/

namespace PulseOS.Ipc.Shm

open Transition MappingFlags Function

/-! ## The permission bits -/

inductive AccessClass where
  | owner
  | group
  | other
  deriving DecidableEq

def classOf (creator caller : Credentials) : AccessClass :=
  if caller.euid = creator.euid then .owner
  else if caller.egid = creator.egid ∨ creator.egid ∈ caller.groups then .group
  else .other

def triad (mode : BitVec 32) : AccessClass → BitVec 32
  | .owner => mode >>> 6 &&& 7
  | .group => mode >>> 3 &&& 7
  | .other => mode &&& 7

variable (o : Origin) (caller : Credentials) (shmflg : BitVec 32)

/-- The triad of the permission bits of a `shmget` that applies to the caller. -/
def Origin.triad : BitVec 32 :=
  Shm.triad (o.shmflg &&& 0o777) (classOf o.creator caller)

def GrantsWrite : Prop := o.triad caller &&& 2 ≠ 0

/-- Read for `SHM_RDONLY`, read and write otherwise. -/
def Grants : Prop :=
  o.triad caller &&& 4 ≠ 0 ∧ (shmflg &&& SHM_RDONLY = 0 → GrantsWrite o caller)

instance : Decidable (GrantsWrite o caller) := by
  unfold GrantsWrite
  infer_instance

instance : Decidable (Grants o caller shmflg) := by
  unfold Grants
  infer_instance

/-! ## The mode of a segment -/

/-- The segment has the permissions it was made with, but for the lock bit. -/
structure AsMade (inner : ShmInner) (o : Origin) : Prop where
  uid : inner.perm.uid = o.creator.euid
  cuid : inner.perm.cuid = o.creator.euid
  gid : inner.perm.gid = o.creator.egid
  cgid : inner.perm.cgid = o.creator.egid
  mode : ∃ lock : Bool, inner.perm.mode =
    (flagsOf o.shmflg).setWidth 16 ||| (if lock then SHM_LOCKED else 0)

def shifted (mode : BitVec 32) : AccessClass → BitVec 32
  | .owner => mode
  | .group => mode <<< 3
  | .other => mode <<< 6

/-- Of the bits of the mapping flags, only those shifted for the rest can grant the request. -/
theorem requested_iff (rdonly x lock : Bool) (c : AccessClass) :
    (if rdonly then 0o400 else 0o600 : BitVec 32) &&& ~~~(shifted
      (((USER ||| READ ||| WRITE ||| (if x then EXECUTE else 0)).setWidth 16 |||
        (if lock then SHM_LOCKED else 0)).setWidth 32) c) &&& 0o777 = 0 ↔
      c = .other ∧ x = true := by
  revert rdonly x lock
  cases c <;> decide

variable {inner : ShmInner} {o : Origin} {caller : Credentials}

/-- **What the check says**: the owner and the group may not attach, the rest may where the flags
have the owner's execute bit. -/
theorem permitted_iff (h : AsMade inner o) (hroot : caller.euid ≠ 0) (shmflg : BitVec 32) :
    ipcHasPermission inner.perm (reqMode shmflg) caller = true ↔
      classOf o.creator caller = .other ∧ o.shmflg &&& 0o100 ≠ 0 := by
  obtain ⟨lock, hmode⟩ := h.mode
  have hrequest := requested_iff (decide (shmflg &&& SHM_RDONLY ≠ 0))
    (decide (o.shmflg &&& 0o100 ≠ 0)) lock (classOf o.creator caller)
  simp only [decide_eq_true_eq] at hrequest
  rw [← hrequest, ipcHasPermission, if_neg hroot, hmode, h.uid, h.cuid, h.gid, h.cgid]
  unfold classOf reqMode flagsOf
  by_cases howner : caller.euid = o.creator.euid
  · simp [howner, shifted]
  · by_cases hgroup : caller.egid = o.creator.egid ∨ o.creator.egid ∈ caller.groups
    · rcases hgroup with hgroup | hgroup <;> simp [howner, hgroup, shifted]
    · rw [not_or] at hgroup
      simp [howner, hgroup.1, hgroup.2, shifted]

theorem AsMade.lock (h : AsMade inner o) (lock : Bool) :
    AsMade { inner with perm := { inner.perm with
      mode := if lock then inner.perm.mode ||| SHM_LOCKED
        else inner.perm.mode &&& ~~~SHM_LOCKED } } o := by
  obtain ⟨locked, hmode⟩ := h.mode
  have hlock (x lock locked : Bool) :
      let bits := (USER ||| READ ||| WRITE ||| (if x then EXECUTE else 0)).setWidth 16
      let mode := bits ||| (if locked then SHM_LOCKED else 0)
      (if lock then mode ||| SHM_LOCKED else mode &&& ~~~SHM_LOCKED) =
        bits ||| (if lock then SHM_LOCKED else 0) := by
    revert x lock locked
    decide
  have hbits := hlock (decide (o.shmflg &&& 0o100 ≠ 0)) lock locked
  simp only [decide_eq_true_eq] at hbits
  refine ⟨h.uid, h.cuid, h.gid, h.cgid, lock, ?_⟩
  rw [hmode]
  exact hbits

namespace System

variable {s s' : System}

/-! ## Every run -/

def AllAsMade (s : System) : Prop :=
  ∀ g < s.created, (s.origins g).changed = false → AsMade (s.segments g) (s.origins g)

theorem AllAsMade.keeps (h : AllAsMade s) (hk : Keeps s s') : AllAsMade s' := by
  intro g hg hchanged
  rw [hk.origins] at hchanged ⊢
  rw [hk.created] at hg
  have hmade := h g hg hchanged
  have hperm : (s'.segments g).perm = (s.segments g).perm :=
    congrArg (fun x => x.2.2.2) (hk.fixed g)
  exact ⟨hperm ▸ hmade.uid, hperm ▸ hmade.cuid, hperm ▸ hmade.gid, hperm ▸ hmade.cgid,
    hperm ▸ hmade.mode⟩

theorem AllAsMade.make (h : AllAsMade s) (caller : Credentials) (key : Int32) (size : Nat)
    (shmflg : BitVec 32) : AllAsMade (s.makeSegment caller key size shmflg) := by
  intro g hg hchanged
  unfold makeSegment at hg hchanged ⊢
  dsimp only at hg hchanged ⊢
  by_cases hlast : g = s.created
  · subst hlast
    rw [update_self, update_self]
    exact ⟨rfl, rfl, rfl, rfl, false, (BitVec.or_zero).symm⟩
  · rw [update_of_ne hlast] at hchanged
    rw [update_of_ne hlast, update_of_ne hlast]
    exact h g (by omega) hchanged

variable {inner : ShmInner} {shmflg : BitVec 32}

/-- Only one segment and its origin change, and it is as made if `IPC_SET` has not changed it. -/
theorem AllAsMade.update (h : AllAsMade s) {g : Nat} {o : Origin}
    (hg : g < s.created → o.changed = false → AsMade inner o) :
    AllAsMade { s with
      segments := update s.segments g inner
      origins := update s.origins g o } := by
  intro g' hg' hchanged
  dsimp only at hg' hchanged ⊢
  by_cases heq : g' = g
  · subst heq
    rw [update_self] at hchanged
    rw [update_self, update_self]
    exact hg hg' hchanged
  · rw [update_of_ne heq] at hchanged
    rw [update_of_ne heq, update_of_ne heq]
    exact h g' hg' hchanged

theorem AllAsMade.step {a : Action} (h : AllAsMade s) (hstep : Step s a s') : AllAsMade s' := by
  cases hstep with
  | same => exact h
  | make caller _ => exact h.make _ _ _ _
  | alloc => exact h.keeps (.allocPages s _)
  | unmapped | unrecorded => exact h.keeps ((Keeps.allocPages s _).trans (.of_eq rfl rfl rfl))
  | attached =>
    refine h.keeps (Keeps.trans ?_ (.record _ _ _ _))
    exact (Keeps.allocPages s _).trans (.of_eq rfl rfl rfl)
  | detachFails | setCredentials | mapOther | unmapOther => exact h.keeps (.of_eq rfl rfl rfl)
  | detached =>
    refine h.keeps (Keeps.trans ?_ (CountsOnly.detachOne _ _).toKeeps)
    exact .of_eq rfl rfl rfl
  | marked => exact h.keeps (.setSegment rfl)
  | @removed _ g =>
    have hmarked : Keeps s (s.setSegment g { s.segments g with rmid := true }) := .setSegment rfl
    exact h.keeps (hmarked.trans (.of_eq rfl rfl rfl))
  | set => exact h.update nofun
  | @lock _ g _ lock =>
    have hupdate := h.update (o := s.origins g) fun hg hchanged => (h g hg hchanged).lock lock
    rw [update_eq_self] at hupdate
    exact hupdate
  | fork => exact h.keeps (.fork s _ _ _ _)
  | execve => exact h.keeps (.execve s _ _ _)
  | exit => exact h.keeps (.exit s _ _)

/-! ## Mappings -/

theorem shmat_mapped {pid : Nat} {p : Proc} {shmid : Int32} {shmaddr : Nat}
    {area : Option Nat} {faults : Faults} (hp : s.Runs pid p)
    (h : Step s (.shmat pid shmid shmaddr shmflg area faults) s') {v g i : Nat}
    {flags : MappingFlags} (hv : s'.spaces p.aspace v = some (.shm g i flags))
    (hnew : s.spaces p.aspace v ≠ some (.shm g i flags)) :
    flags = mapFlags (s.segments g) shmflg ∧
      ipcHasPermission (s.segments g).perm (reqMode shmflg) p.creds = true := by
  -- a page that the mapping did not bring was there before
  have hmapped {q : Proc} {space : Space} {page n k g' : Nat} (hq : s.Runs pid q)
      (hspace : space = (s.spaces q.aspace).unmap page k)
      (hv : update s.spaces q.aspace
        (space.mapSegment page n g' (mapFlags (s.segments g') shmflg)) p.aspace v =
          some (.shm g i flags)) :
      p = q ∧ g = g' ∧ flags = mapFlags (s.segments g') shmflg := by
    have hpq : p = q := Option.some.inj (hp.symm.trans hq)
    rw [← hpq] at hv hspace
    rw [update_self, Space.mapSegment] at hv
    split at hv
    · cases hv
      exact ⟨hpq, rfl, rfl⟩
    · rw [hspace, Space.unmap] at hv
      split at hv
      · cases hv
      · exact absurd hv hnew
  cases h with
  | same | alloc => exact absurd hv hnew
  | unmapped hq _ _ hspace =>
    unfold setSpace at hv
    dsimp only at hv
    rw [← Option.some.inj (hp.symm.trans hq)] at hv hspace
    rw [update_self, hspace, Space.unmap] at hv
    split at hv
    · cases hv
    · exact absurd hv hnew
  | unrecorded hq hg hperm _ hspace _ | attached hq hg hperm _ hspace _ =>
    obtain ⟨rfl, rfl, hflags⟩ := hmapped hq hspace hv
    exact ⟨hflags, hperm⟩

theorem mapFlags_rdonly (h : mapFlags inner shmflg &&& WRITE ≠ 0) : shmflg &&& SHM_RDONLY = 0 := by
  by_contra hrdonly
  rw [mapFlags, if_pos hrdonly, BitVec.and_assoc] at h
  exact h BitVec.and_zero

/-- `shmat` by the caller is permitted exactly as the permission bits of the segment's `shmget` say,
and maps writable only where they grant writing and `SHM_RDONLY` was not asked for. -/
structure FollowsMode (s : System) (g : Nat) (caller : Credentials) (shmflg : BitVec 32) :
    Prop where
  check : ipcHasPermission (s.segments g).perm (reqMode shmflg) caller = true ↔
    Grants (s.origins g) caller shmflg
  writable : ∀ pid p shmid shmaddr area faults s' r, s.procs.lookup pid = some p →
    p.creds = caller → s.exec (.shmat pid shmid shmaddr shmflg area faults) = some (s', r) →
      ∀ v i flags, s'.spaces p.aspace v = some (.shm g i flags) →
        s.spaces p.aspace v ≠ some (.shm g i flags) → flags &&& WRITE ≠ 0 →
          shmflg &&& SHM_RDONLY = 0 ∧ GrantsWrite (s.origins g) caller

/-- The bits grant nothing to the owner and the group, and to the rest what the owner's execute bit
says. -/
def ModeFits (o : Origin) (caller : Credentials) (shmflg : BitVec 32) : Prop :=
  match classOf o.creator caller with
  | .other => Grants o caller shmflg ↔ o.shmflg &&& 0o100 ≠ 0
  | _ => ¬ Grants o caller shmflg

def creator : Credentials := ⟨1000, 1000, []⟩

def stranger : Credentials := ⟨1001, 1001, []⟩

end System

end PulseOS.Ipc.Shm
