import Mathlib.Data.List.AList
import PulseOS.Errno
import PulseOS.Lib.Transition

/-!
# System V shared memory

The segments of `ipc/shm.rs`, `sys_shmget`, `sys_shmat`, `sys_shmdt` and `sys_shmctl`, and what
fork, exec and exit do with the attachments of a process.

A segment (`ShmInner`) is named by its allocation.  The manager and the registries hold it; a
mapping holds the bare frames.  A registry is shared by processes that were cloned with `CLONE_VM`,
and so is an address space.  Attachments are page-aligned, so a registry is keyed by the number of a
page.

* `ipcHasPermission`, `createShm` — the permission check, and what `shmget` makes of its flags.
* `shmat`, `shmdt`, `detachAllSharedMemory` — attaching and detaching; `Faults` says which of the
  memory operations fail.

The counter `shm_nattch` wraps around, as in a build without overflow checks.
-/

namespace PulseOS.Ipc.Shm

open Transition Function
open LinuxError

/-! ## Segments -/

def PAGE_SIZE : Nat := 4096

def USER_SPACE_BASE : Nat := 0x1000

def USER_SPACE_SIZE : Nat := 0x3ffffff000

def IPC_PRIVATE : Int32 := 0

def IPC_CREAT : BitVec 32 := 0o1000

def IPC_EXCL : BitVec 32 := 0o2000

def SHM_RDONLY : BitVec 32 := 0o10000

def SHM_RND : BitVec 32 := 0o20000

def SHM_REMAP : BitVec 32 := 0o40000

def SHM_LOCKED : BitVec 16 := 0o2000

/-- The bits of the `page_table_entry` crate. -/
abbrev MappingFlags := BitVec 64

namespace MappingFlags

def READ : MappingFlags := 1

def WRITE : MappingFlags := 2

def EXECUTE : MappingFlags := 4

def USER : MappingFlags := 8

end MappingFlags

open MappingFlags

structure Credentials where
  euid : UInt32
  egid : UInt32
  groups : List UInt32

structure IpcPerm where
  key : Int32
  uid : UInt32
  gid : UInt32
  cuid : UInt32
  cgid : UInt32
  mode : BitVec 16

def IpcPerm.new (key : Int32) (mode : BitVec 16) (uid gid : UInt32) : IpcPerm :=
  ⟨key, uid, gid, uid, gid, mode⟩

structure ShmInner where
  shmid : Int32
  pageNum : Nat
  /-- `addr` is not 0 -/
  allocated : Bool
  rmid : Bool
  mappingFlags : MappingFlags
  perm : IpcPerm
  segsz : Nat
  nattch : UInt16

def ShmInner.new (key shmid : Int32) (size pageNum : Nat) (mappingFlags : MappingFlags)
    (uid gid : UInt32) : ShmInner :=
  ⟨shmid, pageNum, false, false, mappingFlags, .new key (mappingFlags.setWidth 16) uid gid, size, 0⟩

def ipcHasPermission (perm : IpcPerm) (reqMode : BitVec 32) (caller : Credentials) : Bool :=
  if caller.euid = 0 then true
  else
    let mode := perm.mode.setWidth 32
    let grantedMode :=
      if caller.euid = perm.uid || caller.euid = perm.cuid then mode
      else if caller.egid = perm.gid || caller.egid = perm.cgid || perm.gid ∈ caller.groups ||
          perm.cgid ∈ caller.groups then mode <<< 3
      else mode <<< 6
    reqMode &&& ~~~grantedMode &&& 0o777 = 0

/-- The mapping flags of `create_shm`. -/
def flagsOf (shmflg : BitVec 32) : MappingFlags :=
  USER ||| READ ||| WRITE ||| (if shmflg &&& 0o100 ≠ 0 then EXECUTE else 0)

/-- `align_up_4k(size) / PAGE_SIZE_4K`. -/
def pagesOf (size : Nat) : Nat := (size + (PAGE_SIZE - 1)) % 2 ^ 64 / PAGE_SIZE

variable (inner : ShmInner)

def ShmInner.tryUpdate (size : Nat) (mappingFlags : MappingFlags) : Except LinuxError Int32 :=
  if pagesOf size ≠ inner.pageNum then .error .EINVAL
  else if mappingFlags ≠ inner.mappingFlags then .error .EINVAL
  else .ok inner.shmid

def ShmInner.allocPages : ShmInner := { inner with allocated := true }

def ShmInner.attachProcess : ShmInner :=
  { inner with nattch := inner.nattch + 1 }

/-- `saturating_sub`. -/
def ShmInner.detachProcess : ShmInner :=
  { inner with nattch := if inner.nattch = 0 then 0 else inner.nattch - 1 }

/-! ## Address spaces -/

/-- A page of a segment, by its place in it, or anything else. -/
inductive Page where
  | shm (g i : Nat) (flags : MappingFlags)
  | other

abbrev Space := Nat → Option Page

namespace Space

def containsRange (page n : Nat) : Bool :=
  USER_SPACE_BASE ≤ page * PAGE_SIZE &&
    (page + n) * PAGE_SIZE ≤ USER_SPACE_BASE + USER_SPACE_SIZE

variable (space : Space) (page n : Nat)

def unmap : Space :=
  fun v => if page ≤ v ∧ v < page + n then none else space v

/-- The first `n` pages of a segment at `page`. -/
def mapSegment (g : Nat) (flags : MappingFlags) : Space :=
  fun v => if page ≤ v ∧ v < page + n then some (.shm g (v - page) flags) else space v

def IsFree : Prop := ∀ i < n, space (page + i) = none

instance : Decidable (space.IsFree page n) := by
  unfold IsFree
  infer_instance

/-- `map_linear`; where `fails` is `some k`, the page table has no memory for page `k` and those
before it stay. -/
def mapLinear (g : Nat) (flags : MappingFlags) (fails : Option Nat) :
    Space × Except LinuxError Unit :=
  if containsRange page n = false then (space, .error .EINVAL)
  else if ¬ space.IsFree page n then (space, .error .EEXIST)
  else match fails with
    | some k => (space.mapSegment page (min k n) g flags, .error .EFAULT)
    | none => (space.mapSegment page n g flags, .ok ())

/-- `map_linear` maps nothing, or it maps into a free range, with an error or without. -/
theorem mapLinear_cases (page n g : Nat) (flags : MappingFlags) (fails : Option Nat) :
    (∃ error, space.mapLinear page n g flags fails = (space, .error error)) ∨ space.IsFree page n ∧
        ((∃ k error, fails ≠ none ∧ k ≤ n ∧ space.mapLinear page n g flags fails =
            (space.mapSegment page k g flags, .error error)) ∨
          space.mapLinear page n g flags fails = (space.mapSegment page n g flags, .ok ())) := by
  unfold mapLinear
  split
  · exact Or.inl ⟨_, rfl⟩
  · split
    · exact Or.inl ⟨_, rfl⟩
    · rename_i hfree
      refine Or.inr ⟨of_not_not hfree, ?_⟩
      split
      · exact Or.inl ⟨_, _, by simp, Nat.min_le_right _ _, rfl⟩
      · exact Or.inr rfl

end Space

/-! ## The system -/

/-- `BiBTreeMap` of keys and ids, and the segments by their ids. -/
structure ShmManager where
  forward : Int32 → Option Int32
  reverse : Int32 → Option Int32
  inners : Int32 → Option Nat
  nextShmid : Int32

def ShmManager.removeShmid (m : ShmManager) (shmid : Int32) : ShmManager :=
  { m with
    forward := match m.reverse shmid with
      | some key => update m.forward key none
      | none => m.forward
    reverse := update m.reverse shmid none
    inners := update m.inners shmid none }

def ShmManager.insert (m : ShmManager) (key shmid : Int32) (g : Nat) : ShmManager :=
  ⟨update m.forward key (some shmid), update m.reverse shmid (some key),
    update m.inners shmid (some g), shmid + 1⟩

/-- `IpcContext::shared_memory`: the segment at each page. -/
abbrev Registry := AList fun _ : Nat => Nat

structure Proc where
  creds : Credentials
  registry : Nat
  aspace : Nat

/-- The `shmget` that made a segment, and whether `IPC_SET` has been applied to it since. -/
structure Origin where
  shmflg : BitVec 32
  creator : Credentials
  changed : Bool

structure System where
  manager : ShmManager
  segments : Nat → ShmInner
  created : Nat
  origins : Nat → Origin
  registries : Nat → Registry
  nextRegistry : Nat
  spaces : Nat → Space
  nextSpace : Nat
  /-- the processes that have not exited -/
  procs : AList fun _ : Nat => Proc

/-- How far an `unmap` gets. -/
inductive Unmap where
  | done
  /-- an error, after that many pages -/
  | fails (pages : Nat)

def Unmap.pages (n : Nat) : Unmap → Nat
  | .done => n
  | .fails pages => min pages n

/-- What becomes of the memory operations of a `shmat`. -/
structure Faults where
  /-- `alloc_pages` succeeds -/
  memory : Bool
  unmap : Unmap
  /-- the shootdown after the `unmap` succeeds -/
  shootdown : Bool
  /-- `map_linear` fails at that page -/
  map : Option Nat

def Faults.none : Faults := ⟨true, .done, true, .none⟩

/-- The page at which `shmat` maps. -/
def mapPage (shmaddr : Nat) (shmflg : BitVec 32) (area : Option Nat) : Except LinuxError Nat :=
  if shmaddr ≠ 0 ∧ shmflg &&& SHM_RND ≠ 0 then .ok (shmaddr / PAGE_SIZE)
  else if shmaddr ≠ 0 then
    if shmaddr % PAGE_SIZE ≠ 0 then .error .EINVAL else .ok (shmaddr / PAGE_SIZE)
  else match area with
    | some page => .ok page
    | none => .error .ENOMEM

variable (shmflg : BitVec 32)

def mapFlags : MappingFlags :=
  if shmflg &&& SHM_RDONLY ≠ 0 then inner.mappingFlags &&& ~~~WRITE else inner.mappingFlags

/-- How many pages `SHM_REMAP` takes away first. -/
def remapPages (faults : Faults) : Nat :=
  if shmflg &&& SHM_REMAP ≠ 0 then faults.unmap.pages inner.pageNum else 0

def reqMode : BitVec 32 :=
  if shmflg &&& SHM_RDONLY ≠ 0 then 0o400 else 0o600

/-- The caller is root, or owns or created the segment. -/
def mayControl (caller : Credentials) : Bool :=
  caller.euid = 0 || caller.euid = inner.perm.uid || caller.euid = inner.perm.cuid

inductive Action where
  | shmget (pid : Nat) (key : Int32) (size : Nat) (shmflg : BitVec 32)
  /-- `area`: what `find_free_area` finds -/
  | shmat (pid : Nat) (shmid : Int32) (shmaddr : Nat) (shmflg : BitVec 32) (area : Option Nat)
      (faults : Faults)
  | shmdt (pid : Nat) (shmaddr : Nat) (unmap : Unmap)
  | ipcRmid (pid : Nat) (shmid : Int32)
  | ipcSet (pid : Nat) (shmid : Int32) (uid gid : UInt32) (mode : BitVec 16)
  | shmLock (pid : Nat) (shmid : Int32) (lock : Bool)
  /-- `succeeds`: the rest of `new_child_process` and of the spawning -/
  | fork (pid child : Nat) (shareVm succeeds : Bool)
  /-- the pages of the new image -/
  | execve (pid : Nat) (image : List Nat)
  | exit (pid : Nat)
  | setCredentials (pid : Nat) (creds : Credentials)
  /-- the process maps or unmaps a page that is not of a segment -/
  | mapOther (pid page : Nat)
  | unmapOther (pid page : Nat)

namespace System

variable (s : System) (caller : Credentials)

def setSegment (g : Nat) (inner : ShmInner) : System :=
  { s with segments := update s.segments g inner }

def setSpace (a : Nat) (space : Space) : System :=
  { s with spaces := update s.spaces a space }

def setRegistry (r : Nat) (registry : Registry) : System :=
  { s with registries := update s.registries r registry }

def setProc (pid : Nat) (p : Proc) : System := { s with procs := s.procs.insert pid p }

abbrev Runs (pid : Nat) (p : Proc) : Prop := s.procs.lookup pid = some p

theorem setSegment_segments (g g' : Nat) (inner : ShmInner) :
    (s.setSegment g inner).segments g' = if g' = g then inner else s.segments g' :=
  update_apply _ _ _ _

theorem setSpace_spaces (a a' : Nat) (space : Space) :
    (s.setSpace a space).spaces a' = if a' = a then space else s.spaces a' :=
  update_apply _ _ _ _

theorem setRegistry_registries (r r' : Nat) (registry : Registry) :
    (s.setRegistry r registry).registries r' = if r' = r then registry else s.registries r' :=
  update_apply _ _ _ _

variable (key : Int32) (size : Nat) (shmflg : BitVec 32)

def makeSegment : System :=
  { s with
    manager := s.manager.insert key s.manager.nextShmid s.created
    segments := update s.segments s.created (.new key s.manager.nextShmid size
      (pagesOf size) (flagsOf shmflg) caller.euid caller.egid)
    origins := update s.origins s.created ⟨shmflg, caller, false⟩
    created := s.created + 1 }

/-- `ShmManager::create_shm`. -/
def createShm : System × Except LinuxError Int32 :=
  if pagesOf size = 0 then (s, .error .EINVAL)
  else
    match if key = IPC_PRIVATE then none else s.manager.forward key with
    | some shmid =>
      if shmflg &&& IPC_EXCL ≠ 0 then (s, .error .EEXIST)
      else match s.manager.inners shmid with
        | none => (s, .error .EINVAL)
        | some g =>
          if ipcHasPermission (s.segments g).perm (shmflg &&& 0o777) caller = false then
            (s, .error .EACCES)
          else (s, (s.segments g).tryUpdate size (flagsOf shmflg))
    | none => (s.makeSegment caller key size shmflg, .ok s.manager.nextShmid)

/-- `sys_shmget`; `none` if the look-up of a key panics. -/
def shmget : Option (System × Except LinuxError Int32) :=
  if size = 0 ∧ key ≠ IPC_PRIVATE then some (s, .error .EINVAL)
  else if key ≠ IPC_PRIVATE ∧ shmflg &&& IPC_CREAT = 0 then
    match s.manager.forward key with
    | none => some (s, .error .ENOENT)
    | some shmid => do
      let g ← s.manager.inners shmid
      if ipcHasPermission (s.segments g).perm (shmflg &&& 0o777) caller = false then
        some (s, .error .EACCES)
      else some (s, .ok shmid)
  else some (s.createShm caller key size shmflg)

variable (p : Proc)

/-- The attachment is counted and recorded. -/
def record (g page : Nat) : System :=
  (s.setSegment g (s.segments g).attachProcess).setRegistry p.registry
    ((s.registries p.registry).insert page g)

/-- `sys_shmat` from the mapping on. -/
def attach (g page : Nat) (shmflg : BitVec 32) (faults : Faults) : System × Except LinuxError Int :=
  let inner := s.segments g
  let space := s.spaces p.aspace
  let unmapped := remapPages inner shmflg faults
  let r := (space.unmap page unmapped).mapLinear page inner.pageNum g (mapFlags inner shmflg)
    faults.map
  let s := s.setSpace p.aspace r.1
  if ¬ space.IsFree page unmapped ∧ faults.shootdown = false then (s, .error EIO)
  else match r.2 with
    | .error error => (s, .error error)
    | .ok () => (s.record p g page, .ok (page * PAGE_SIZE))

variable (shmid : Int32)

/-- `sys_shmat`; `none` if `area` is not a free area. -/
def shmat (shmaddr : Nat) (shmflg : BitVec 32)
    (area : Option Nat) (faults : Faults) : Option (System × Except LinuxError Int) :=
  match s.manager.inners shmid with
  | none => some (s, .error .EINVAL)
  | some g =>
    let inner := s.segments g
    if ipcHasPermission inner.perm (reqMode shmflg) p.creds = false then some (s, .error .EACCES)
    else if inner.allocated = false ∧ faults.memory = false then some (s, .error .ENOMEM)
    else
      let s := s.setSegment g inner.allocPages
      match mapPage shmaddr shmflg area with
      | .error error => some (s, .error error)
      | .ok page =>
        if shmaddr = 0 ∧ ¬ (s.spaces p.aspace).IsFree page inner.pageNum then none
        else some (s.attach p g page shmflg faults)

/-- One segment of a detaching process: the count, and the removal where it was the last. -/
def detachOne (g : Nat) : System :=
  let inner := (s.segments g).detachProcess
  let s := s.setSegment g inner
  if inner.rmid && inner.nattch = 0 then
    { s with manager := s.manager.removeShmid inner.shmid }
  else s

def shmdt (shmaddr : Nat) (unmap : Unmap) : System × Except LinuxError Int :=
  let page := shmaddr / PAGE_SIZE
  match if shmaddr % PAGE_SIZE = 0 then (s.registries p.registry).lookup page else none with
  | none => (s, .error .EINVAL)
  | some g =>
    let n := (s.segments g).pageNum
    let s' := s.setSpace p.aspace ((s.spaces p.aspace).unmap page (unmap.pages n))
    match unmap with
    -- the record is put back
    | .fails _ => (s', .error .EFAULT)
    | .done =>
      ((s'.setRegistry p.registry ((s.registries p.registry).erase page)).detachOne g, .ok 0)

/-- The loop of `detach_all_shared_memory` over the registry. -/
def detachEach (r : Nat) : System :=
  (s.registries r).entries.foldl (fun s record => s.detachOne record.2) s

def detachAllSharedMemory (r : Nat) : System := (s.detachEach r).setRegistry r ∅

/-- The loop of `new_child_process` over the registry. -/
def attachAll (r : Nat) : System :=
  (s.registries r).entries.foldl
    (fun s record => s.setSegment record.2 (s.segments record.2).attachProcess) s

/-- `spawn_fork_from_trap_frame` and `spawn_from_trap_frame`. -/
def fork (child : Nat) (shareVm succeeds : Bool) : System :=
  if shareVm then if succeeds then s.setProc child p else s
  else
    let copied := s.attachAll p.registry
    if succeeds then
      ({ copied with
        registries := update s.registries s.nextRegistry (s.registries p.registry)
        nextRegistry := s.nextRegistry + 1
        spaces := update s.spaces s.nextSpace (s.spaces p.aspace)
        nextSpace := s.nextSpace + 1 }).setProc child ⟨p.creds, s.nextRegistry, s.nextSpace⟩
    else copied

/-- The new address space is in place before the attachments of the old one go. -/
def execve (pid : Nat) (p : Proc) (image : List Nat) : System :=
  (({ s with
    spaces := update s.spaces s.nextSpace fun v => if v ∈ image then some .other else none
    nextSpace := s.nextSpace + 1 }).setProc pid
      { p with aspace := s.nextSpace }).detachAllSharedMemory p.registry

def exit (pid : Nat) (p : Proc) : System :=
  ({ s with procs := s.procs.erase pid }).detachAllSharedMemory p.registry

/-- `sys_shmctl` with `IPC_RMID`. -/
def ipcRmid : System × Except LinuxError Int :=
  match s.manager.inners shmid with
  | none => (s, .error .EINVAL)
  | some g =>
    let inner := s.segments g
    if mayControl inner caller = false then (s, .error .EPERM)
    else
      let s := s.setSegment g { inner with rmid := true }
      if inner.nattch = 0 then ({ s with manager := s.manager.removeShmid shmid }, .ok 0)
      else (s, .ok 0)

/-- `sys_shmctl` with `IPC_SET`. -/
def ipcSet (uid gid : UInt32) (mode : BitVec 16) : System × Except LinuxError Int :=
  match s.manager.inners shmid with
  | none => (s, .error .EINVAL)
  | some g =>
    let inner := s.segments g
    if mayControl inner caller = false then (s, .error .EPERM)
    else
      ({ s.setSegment g { inner with perm := { inner.perm with uid, gid, mode } } with
        origins := update s.origins g { s.origins g with changed := true } }, .ok 0)

/-- `sys_shmctl` with `SHM_LOCK` and `SHM_UNLOCK`. -/
def shmLock (lock : Bool) : System × Except LinuxError Int :=
  match s.manager.inners shmid with
  | none => (s, .error .EINVAL)
  | some g =>
    let inner := s.segments g
    if caller.euid ≠ 0 then (s, .error .EPERM)
    else
      let mode := if lock then inner.perm.mode ||| SHM_LOCKED else inner.perm.mode &&& ~~~SHM_LOCKED
      (s.setSegment g { inner with perm := { inner.perm with mode } }, .ok 0)

/-- One call, with its result; `none` when it is not possible. -/
def exec : Action → Option (System × Except LinuxError Int)
  | .shmget pid key size shmflg => do
    let p ← s.procs.lookup pid
    let r ← s.shmget p.creds key size shmflg
    some (r.1, r.2.map Int32.toInt)
  | .shmat pid shmid shmaddr shmflg area faults => do
    let p ← s.procs.lookup pid
    s.shmat p shmid shmaddr shmflg area faults
  | .shmdt pid shmaddr unmap => (s.procs.lookup pid).map fun p => s.shmdt p shmaddr unmap
  | .ipcRmid pid shmid => (s.procs.lookup pid).map fun p => s.ipcRmid p.creds shmid
  | .ipcSet pid shmid uid gid mode =>
    (s.procs.lookup pid).map fun p => s.ipcSet p.creds shmid uid gid mode
  | .shmLock pid shmid lock => (s.procs.lookup pid).map fun p => s.shmLock p.creds shmid lock
  | .fork pid child shareVm succeeds => do
    let p ← s.procs.lookup pid
    if (s.procs.lookup child).isSome then none
    else some (s.fork p child shareVm succeeds, .ok child)
  | .execve pid image => (s.procs.lookup pid).map fun p => (s.execve pid p image, .ok 0)
  | .exit pid => (s.procs.lookup pid).map fun p => (s.exit pid p, .ok 0)
  | .setCredentials pid creds =>
    (s.procs.lookup pid).map fun p => (s.setProc pid { p with creds }, .ok 0)
  | .mapOther pid page => do
    let p ← s.procs.lookup pid
    match s.spaces p.aspace page with
    | none =>
      some (s.setSpace p.aspace (update (s.spaces p.aspace) page (some .other)), .ok 0)
    | some _ => none
  | .unmapOther pid page => do
    let p ← s.procs.lookup pid
    match s.spaces p.aspace page with
    | some .other =>
      some (s.setSpace p.aspace (update (s.spaces p.aspace) page none), .ok 0)
    | _ => none

def next (a : Action) : Option System := (s.exec a).map Prod.fst

/-- Processes without attachments, and no segments. -/
structure Initial : Prop where
  manager : s.manager = ⟨fun _ => none, fun _ => none, fun _ => none, 1⟩
  created : s.created = 0
  registries : ∀ r, s.registries r = ∅
  spaces : ∀ a v g i flags, s.spaces a v ≠ some (.shm g i flags)
  /-- each process has a registry and an address space of its own -/
  separate : ∀ pid p, s.procs.lookup pid = some p → p.registry = pid ∧ p.aspace = pid
  allocated : ∀ pid p, s.procs.lookup pid = some p →
    p.registry < s.nextRegistry ∧ p.aspace < s.nextSpace

/-- A process `pid` for each of the credentials, from 0 on. -/
def startProcs : List Credentials → Nat → AList fun _ : Nat => Proc
  | [], _ => ∅
  | creds :: rest, pid => (startProcs rest (pid + 1)).insert pid ⟨creds, pid, pid⟩

def start (users : List Credentials) : System :=
  { manager := ⟨fun _ => none, fun _ => none, fun _ => none, 1⟩
    segments := fun _ => .new 0 0 0 0 0 0 0
    created := 0
    origins := fun _ => ⟨0, ⟨0, 0, []⟩, false⟩
    registries := fun _ => ∅
    nextRegistry := users.length
    spaces := fun _ _ => none
    nextSpace := users.length
    procs := startProcs users 0 }

theorem startProcs_spec {users : List Credentials} {n pid : Nat} {p : Proc}
    (h : (startProcs users n).lookup pid = some p) :
    p.registry = pid ∧ p.aspace = pid ∧ pid < n + users.length := by
  induction users generalizing n with
  | nil => cases h
  | cons creds rest ih =>
    rw [startProcs] at h
    rw [List.length_cons]
    by_cases hpid : pid = n
    · subst hpid
      rw [AList.lookup_insert] at h
      cases h
      exact ⟨rfl, rfl, by omega⟩
    · rw [AList.lookup_insert_ne hpid] at h
      obtain ⟨hregistry, haspace, hlt⟩ := ih h
      exact ⟨hregistry, haspace, by omega⟩

theorem initial_start (users : List Credentials) : Initial (start users) := by
  refine ⟨rfl, rfl, fun _ => rfl, fun _ _ _ _ _ => nofun, fun pid p hp => ?_, fun pid p hp => ?_⟩
  · obtain ⟨hregistry, haspace, -⟩ := startProcs_spec hp
    exact ⟨hregistry, haspace⟩
  · obtain ⟨hregistry, haspace, hlt⟩ := startProcs_spec hp
    rw [Nat.zero_add] at hlt
    rw [hregistry, haspace]
    exact ⟨hlt, hlt⟩

/-- The manager or the registry of a process holds the segment: its frames are not given back. -/
def Held (g : Nat) : Prop :=
  (∃ shmid, s.manager.inners shmid = some g) ∨
    ∃ pid p page, s.procs.lookup pid = some p ∧ (s.registries p.registry).lookup page = some g

end System

end PulseOS.Ipc.Shm
