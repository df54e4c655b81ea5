import Mathlib.Data.List.GetD
import PulseOS.Fd.Family
import PulseOS.Lib.Chain

/-!
# Nested epoll objects

`sys_epoll_create1` and `sys_epoll_ctl` of `fs/epoll.rs`, with `sys_dup`, `sys_dup3`, `sys_close`
and fork.  An epoll object keeps the descriptors that it watches; which object a descriptor is
depends on the process that looks it up.  Descriptor tables are the maps of `Fd.Family`.

A step is one look-up in a table, one section under the lock of an epoll object, or
`check_epoll_nesting`, which reads the tables and registrations as they are at that step.

* `Watches p a b` — in process `p`, object `a` has a registration whose descriptor is object `b`.
  The locks that `EpollObject::poll` holds at one time are a chain of this relation.
* `nesting_of_run` — these chains stay short in every run that meets `KeepsNesting`;
  `nesting_unbounded` has others.
-/

namespace PulseOS.Fd.Epoll

open Transition Function List Option

/-- An object of a descriptor table: an epoll object by its number, or another one, which epoll can
watch or not. -/
inductive Object where
  | epoll (e : Nat)
  | pollable
  | other
  deriving DecidableEq, Repr

def Object.isPollable : Object → Bool
  | .epoll _ | .pollable => true
  | .other => false

inductive CtlOp where
  | add
  | del
  | mod
  | invalid
  deriving DecidableEq, Repr

/-! ## The check -/

/-- The loop over the registrations of one object. -/
def maxDepth (resolve : Nat → Option Object) (check : Object → Exec LinuxError Nat) :
    List Nat → Nat → Exec LinuxError Nat
  | [], depth => .ok depth
  | fd :: fds, depth =>
    match resolve fd with
    | none => maxDepth resolve check fds depth
    | some object => do
      let d ← check object
      maxDepth resolve check fds (if depth < d then d else depth)

def MAX_NESTING : Nat := 5

/-- `check_epoll_nesting`, with `left = 5 - current_depth`.  The locks of `held` are held by the
calls around this one, so that it does not return when it needs one of them. -/
def checkEpollNesting (resolve : Nat → Option Object) (events : Nat → List Nat) (root : Nat) :
    Nat → List Nat → Object → Exec LinuxError Nat
  | left, held, .epoll e =>
    if e = root then .err .ELOOP
    else match left with
      | 0 => .err .EINVAL
      | left + 1 =>
        if e ∈ held then .error .hang
        else maxDepth resolve (checkEpollNesting resolve events root left (e :: held)) (events e)
          (MAX_NESTING - left)
  | left, _, _ => .ok (MAX_NESTING - left)

def Passes (r : Exec LinuxError Nat) : Prop := ∃ depth, r = .ok depth

instance (r : Exec LinuxError Nat) : Decidable (Passes r) :=
  match r with
  | .ok depth => .isTrue ⟨depth, rfl⟩
  | .error _ => .isFalse fun ⟨_, h⟩ => by cases h

/-! ## The system -/

inductive Phase where
  | idle
  /-- `epoll_ctl` has found its epoll object. -/
  | opened (p e : Nat) (op : CtlOp) (fd : Nat)
  | targeted (p e : Nat) (op : CtlOp) (fd : Nat) (target : Object)
  | checked (e : Nat) (op : CtlOp) (fd : Nat)
  /-- `dup` and `dup3` have found the entry. -/
  | duplicating (p : Nat) (entry : FdEntry Object) (newfd : Option Nat)

structure System (τ : Type) where
  /-- The descriptor table of each process. -/
  tables : List (FdMap Object)
  /-- The keys of `EpollObject::events` of each epoll object, in their order. -/
  events : List (List Nat)
  phase : τ → Phase

inductive Action (τ : Type) where
  | epollCreate1 (p : Nat) (flags : BitVec 64) (limit : Nat)
  | epollCtl (t : τ) (p : Nat) (epfd : Nat) (op : CtlOp) (fd : Nat)
  | ctlTarget (t : τ)
  | ctlCheck (t : τ)
  /-- `readable`: the event can be read from user memory. -/
  | ctlApply (t : τ) (readable : Bool)
  | dup (t : τ) (p fd : Nat)
  | dup3 (t : τ) (p oldfd newfd : Nat) (flags : BitVec 64)
  | install (t : τ) (limit : Nat)
  | close (p fd : Nat)
  | fork (p : Nat)

def EPOLL_CLOEXEC : BitVec 32 := 0x80000

def O_CLOEXEC : BitVec 32 := 0x80000

variable {ω : Type} (limit : Nat) (m : FdMap ω)

/-- `Process::insert_fd_entry`; `limit` is the soft limit of `RLIMIT_NOFILE`. -/
def insertFdEntry (entry : FdEntry ω) : FdMap ω × Except LinuxError Nat :=
  match Spec.leastFree m 0 with
  | none => (m, .error .EMFILE)
  | some fd =>
    let m := update m fd (some entry)
    if limit ≤ fd then (update m fd none, .error .EMFILE) else (m, .ok fd)

def setFdEntry (fd : Nat) (entry : FdEntry ω) : FdMap ω × Except LinuxError Nat :=
  if limit ≤ fd then (m, .error .EBADF)
  else if fd < FD_LIMIT then (update m fd (some entry), .ok fd)
  else (m, .error .EBADF)

namespace System

variable {τ : Type} (s : System τ)

def eventsOf (e : Nat) : List Nat := s.events.getD e []

/-- The object that a descriptor is in process `p`. -/
def resolve (p fd : Nat) : Option Object :=
  (s.tables[p]?.bind (· fd)).map FdEntry.object

/-- `check_epoll_nesting` for a registration in `root`, called in process `p`. -/
def check (p root : Nat) (target : Object) : Exec LinuxError Nat :=
  checkEpollNesting (s.resolve p) s.eventsOf root MAX_NESTING [] target

section Exec

variable [DecidableEq τ] (s : System τ)

def setPhase (t : τ) (phase : Phase) : System τ :=
  { s with phase := update s.phase t phase }

def setTable (p : Nat) (m : FdMap Object) : System τ :=
  { s with tables := s.tables.set p m }

def setEvents (e : Nat) (fds : List Nat) : System τ :=
  { s with events := s.events.set e fds }

/-- One step, with the result of a call that returns; `none` when the step is not possible. -/
def exec : Action τ → Option (System τ × Option (Except LinuxError Nat))
  | .epollCreate1 p flags limit => do
    let m ← s.tables[p]?
    if flags &&& (~~~EPOLL_CLOEXEC).setWidth 64 ≠ 0 then some (s, some (.error .EINVAL))
    else
      let cloexec := flags &&& EPOLL_CLOEXEC.setWidth 64 ≠ 0
      let r := insertFdEntry limit m ⟨.epoll s.events.length, ⟨cloexec, false, false⟩⟩
      some ({ s.setTable p r.1 with events := s.events ++ [[]] }, some r.2)
  | .epollCtl t p epfd op fd =>
    match s.phase t with
    | .idle => do
      let m ← s.tables[p]?
      match m epfd with
      | none => some (s, some (.error .EBADF))
      | some ⟨.epoll e, _⟩ => some (s.setPhase t (.opened p e op fd), none)
      | some _ => some (s, some (.error .EINVAL))
    | _ => none
  | .ctlTarget t =>
    match s.phase t with
    | .opened p e op fd => do
      let m ← s.tables[p]?
      match m fd with
      | none => some (s.setPhase t .idle, some (.error .EBADF))
      | some entry =>
        if entry.object.isPollable then
          some (s.setPhase t (.targeted p e op fd entry.object), none)
        else some (s.setPhase t .idle, some (.error .EPERM))
    | _ => none
  | .ctlCheck t =>
    match s.phase t with
    | .targeted p e op fd target =>
      if op = .add then
        match s.check p e target with
        | .ok _ => some (s.setPhase t (.checked e op fd), none)
        | .error (.err error) => some (s.setPhase t .idle, some (.error error))
        | .error _ => none
      else some (s.setPhase t (.checked e op fd), none)
    | _ => none
  | .ctlApply t readable =>
    match s.phase t with
    | .checked e op fd =>
      let s := s.setPhase t .idle
      if op ≠ .del ∧ readable = false then some (s, some (.error .EFAULT))
      else match op with
        | .add =>
          if fd ∈ s.eventsOf e then some (s, some (.error .EEXIST))
          else some (s.setEvents e ((s.eventsOf e).orderedInsert (· ≤ ·) fd), some (.ok 0))
        | .mod =>
          if fd ∈ s.eventsOf e then some (s, some (.ok 0)) else some (s, some (.error .ENOENT))
        | .del =>
          if fd ∈ s.eventsOf e then some (s.setEvents e ((s.eventsOf e).erase fd), some (.ok 0))
          else some (s, some (.error .ENOENT))
        | .invalid => some (s, some (.error .EINVAL))
    | _ => none
  | .dup t p fd =>
    match s.phase t with
    | .idle => do
      let m ← s.tables[p]?
      match m fd with
      | none => some (s, some (.error .EBADF))
      | some entry =>
        let flags := { entry.flags with cloexec := false }
        some (s.setPhase t (.duplicating p { entry with flags } none), none)
    | _ => none
  | .dup3 t p oldfd newfd flags =>
    match s.phase t with
    | .idle => do
      let m ← s.tables[p]?
      if oldfd = newfd then some (s, some (.error .EINVAL))
      else if flags &&& ~~~(O_CLOEXEC.setWidth 64) ≠ 0 then some (s, some (.error .EINVAL))
      else match m oldfd with
        | none => some (s, some (.error .EBADF))
        | some entry =>
          let fdFlags := { entry.flags with cloexec := flags &&& O_CLOEXEC.setWidth 64 ≠ 0 }
          some (s.setPhase t (.duplicating p { entry with flags := fdFlags } (some newfd)), none)
    | _ => none
  | .install t limit =>
    match s.phase t with
    | .duplicating p entry newfd => do
      let m ← s.tables[p]?
      let r := match newfd with
        | none => insertFdEntry limit m entry
        | some fd => setFdEntry limit m fd entry
      some ((s.setPhase t .idle).setTable p r.1, some r.2)
    | _ => none
  | .close p fd => do
    let m ← s.tables[p]?
    match m fd with
    | none => some (s, some (.error .EBADF))
    | some _ => some (s.setTable p (update m fd none), some (.ok 0))
  | .fork p => do
    let m ← s.tables[p]?
    some ({ s with tables := s.tables ++ [m] }, none)

/-- Processes that have no epoll objects, and no call in progress. -/
def Initial : Prop :=
  s.events = [] ∧ (∀ p fd e, s.resolve p fd ≠ some (.epoll e)) ∧ ∀ t, s.phase t = .idle

def next (a : Action τ) : Option (System τ) := (s.exec a).map Prod.fst

def Step : System τ → Action τ → System τ → Prop := Computed next

end Exec

/-! ## Nesting -/

/-- In process `p`, object `a` has a registration whose descriptor is object `b`. -/
def Watches (p a b : Nat) : Prop :=
  ∃ fd ∈ s.eventsOf a, s.resolve p fd = some (.epoll b)

instance (p a b : Nat) : Decidable (s.Watches p a b) := by
  unfold Watches
  infer_instance

/-- The relation has no cycle and no chain of more than five edges, so that `EpollObject::poll`
locks no object twice and goes at most five levels down. -/
def WellNested : Prop :=
  ∀ p, (∀ e, ¬Relation.TransGen (s.Watches p) e e) ∧
    ∀ locks : List Nat, locks.IsChain (s.Watches p) → locks.Nodup ∧ locks.length ≤ MAX_NESTING + 1

/-- No epoll object has a registration for `fd`. -/
def Unregistered (fd : Nat) : Prop := ∀ fds ∈ s.events, fd ∉ fds

/-- No registration is object `e` in process `p`. -/
def Unwatched (p e : Nat) : Prop :=
  ∀ fds ∈ s.events, ∀ fd ∈ fds, s.resolve p fd ≠ some (.epoll e)

/-- The descriptor that the least free one of process `p` is, is not registered. -/
def FreeUnregistered (p : Nat) : Prop :=
  match s.tables[p]?.bind (Spec.leastFree · 0) with
  | some fd => s.Unregistered fd
  | none => True

/-- Where `fd` is an epoll object in process `p`, no registration is `e` there and the check passes.
-/
def AddKeepsNesting (e fd p : Nat) : Prop :=
  match s.resolve p fd with
  | some (.epoll b) => s.Unwatched p e ∧ Passes (s.check p e (.epoll b))
  | _ => True

/-- A registration is added only where no process that knows its descriptor as an epoll object
watches the object that gets it and the check passes; and a descriptor that becomes an epoll object
is not registered anywhere. -/
def KeepsNesting : Action τ → Prop
  | .ctlApply t _ =>
    match s.phase t with
    | .checked e .add fd => ∀ p < s.tables.length, s.AddKeepsNesting e fd p
    | _ => True
  | .epollCreate1 p _ _ => s.FreeUnregistered p
  | .install t _ =>
    match s.phase t with
    | .duplicating p ⟨.epoll _, _⟩ none => s.FreeUnregistered p
    | .duplicating _ ⟨.epoll _, _⟩ (some fd) => s.Unregistered fd
    | _ => True
  | _ => True

instance (fd : Nat) : Decidable (s.Unregistered fd) := by
  unfold Unregistered
  infer_instance

instance (p e : Nat) : Decidable (s.Unwatched p e) := by
  unfold Unwatched
  infer_instance

instance (p : Nat) : Decidable (s.FreeUnregistered p) := by
  unfold FreeUnregistered
  split <;> infer_instance

instance (e fd p : Nat) : Decidable (s.AddKeepsNesting e fd p) := by
  unfold AddKeepsNesting
  split <;> infer_instance

instance (a : Action τ) : Decidable (KeepsNesting s a) := by
  unfold KeepsNesting
  split
  · split <;> infer_instance
  · infer_instance
  · split <;> infer_instance
  · infer_instance

/-! ## What the check finds -/

/-- The registrations that a check finds. -/
def Finds (resolve : Nat → Option Object) (events : Nat → List Nat) (a b : Nat) : Prop :=
  ∃ fd ∈ events a, resolve fd = some (.epoll b)

variable {m : FdMap Object} {resolve : Nat → Option Object} {d e fd limit p : Nat} {ω : Type}
  {entry : FdEntry Object}

theorem maxDepth_ok {check : Object → Exec LinuxError Nat}
    {fds : List Nat} {depth : Nat} (h : maxDepth resolve check fds depth = .ok d) :
    ∀ fd ∈ fds, ∀ object, resolve fd = some object → ∃ d', check object = .ok d' := by
  induction fds generalizing depth with
  | nil => exact nofun
  | cons fd fds ih =>
    intro fd' hfd' object hobject
    unfold maxDepth at h
    split at h
    · rename_i hnone
      rcases mem_cons.mp hfd' with rfl | hrest
      · rw [hnone] at hobject
        cases hobject
      · exact ih h fd' hrest object hobject
    · rename_i found hfound
      obtain ⟨d', hd', hrest⟩ := Exec.bind_eq_ok.mp h
      rcases mem_cons.mp hfd' with rfl | htail
      · rw [hfound] at hobject
        cases hobject
        exact ⟨d', hd'⟩
      · exact ih hrest fd' htail object hobject

/-- A check that passes with `left` levels left: the object is not the root, and no chain from it
has more than `left` objects. -/
theorem checkEpollNesting_ok {events : Nat → List Nat} {root : Nat} {left : Nat} {held : List Nat}
    (h : checkEpollNesting resolve events root left held (.epoll e) = .ok d) :
    e ≠ root ∧ ∀ l : List Nat, (e :: l).IsChain (Finds resolve events) → (e :: l).length ≤ left := by
  induction left generalizing held e d with
  | zero =>
    unfold checkEpollNesting at h
    split at h <;> cases h
  | succ left ih =>
    unfold checkEpollNesting at h
    split at h
    · cases h
    · rename_i hroot
      refine ⟨hroot, fun l hl => ?_⟩
      simp only at h
      split at h
      · cases h
      · cases l with
        | nil => simp
        | cons b l =>
          obtain ⟨⟨fd, hfd, hb⟩, hl⟩ := isChain_cons_cons.mp hl
          obtain ⟨d', hd'⟩ := maxDepth_ok h fd hfd _ hb
          have hbound := (ih hd').2 l hl
          simp only [length_cons] at hbound ⊢
          omega

/-! ## Steps -/

/-- What a step that meets `KeepsNesting` does to the tables and registrations. -/
inductive Change (s s' : System τ) : Prop where
  | same (htables : s'.tables = s.tables) (hevents : ∀ e, s'.eventsOf e = s.eventsOf e)
  /-- A descriptor `n` becomes the entry `x`. -/
  | table {p n : Nat} {m : FdMap Object} {x : Option (FdEntry Object)}
      (hm : s.tables[p]? = some m) (htables : s'.tables = s.tables.set p (update m n x))
      (hevents : ∀ e, s'.eventsOf e = s.eventsOf e)
      (hx : (∀ e, x.map FdEntry.object ≠ some (.epoll e)) ∨ s.Unregistered n)
  | fork {p : Nat} {m : FdMap Object} (hm : s.tables[p]? = some m)
      (htables : s'.tables = s.tables ++ [m]) (hevents : ∀ e, s'.eventsOf e = s.eventsOf e)
  | del (htables : s'.tables = s.tables) (hevents : ∀ e, s'.eventsOf e ⊆ s.eventsOf e)
  | add (e fd : Nat) (htables : s'.tables = s.tables)
      (hevents : ∀ a fd', fd' ∈ s'.eventsOf a → fd' ∈ s.eventsOf a ∨ a = e ∧ fd' = fd)
      (hok : ∀ p b, s.resolve p fd = some (.epoll b) →
        s.Unwatched p e ∧ Passes (s.check p e (.epoll b)))

variable {s s' : System τ}

theorem resolve_congr (h : s'.tables = s.tables) (p fd : Nat) :
    s'.resolve p fd = s.resolve p fd := by
  unfold resolve
  rw [h]

theorem resolve_set {n : Nat} {x : Option (FdEntry Object)}
    (hm : s.tables[p]? = some m) (h : s'.tables = s.tables.set p (update m n x)) (q fd : Nat) :
    s'.resolve q fd = if q = p ∧ fd = n then x.map FdEntry.object else s.resolve q fd := by
  obtain ⟨hlt, -⟩ := List.getElem?_eq_some_iff.mp hm
  unfold resolve
  rw [h]
  by_cases hq : q = p
  · subst hq
    rw [List.getElem?_set_self hlt, hm]
    by_cases hfd : fd = n <;> simp [hfd]
  · rw [List.getElem?_set_ne (Ne.symm hq), if_neg (by simp [hq])]

theorem mem_events_of_mem (h : fd ∈ s.eventsOf e) : s.eventsOf e ∈ s.events := by
  unfold eventsOf at h ⊢
  by_cases he : e < s.events.length
  · rw [getD_eq_getElem _ _ he]
    exact getElem_mem he
  · rw [getD_eq_default _ _ (by omega)] at h
    cases h

theorem lt_of_resolve {object : Object} (h : s.resolve p fd = some object) :
    p < s.tables.length := by
  by_contra hge
  unfold resolve at h
  rw [getElem?_eq_none (by omega)] at h
  cases h

theorem mem_eventsOf_setEvents {a : Nat} {fds : List Nat}
    (h : fd ∈ (s.setEvents e fds).eventsOf a) : fd ∈ s.eventsOf a ∨ a = e ∧ fd ∈ fds := by
  unfold eventsOf setEvents at h
  simp only [getD_eq_getElem?_getD] at h
  by_cases hae : a = e
  · subst hae
    by_cases hlt : a < s.events.length
    · rw [getElem?_set_self hlt] at h
      exact .inr ⟨rfl, h⟩
    · rw [getElem?_eq_none (by simp; omega)] at h
      cases h
  · rw [getElem?_set_ne (Ne.symm hae)] at h
    exact .inl (by rwa [eventsOf, getD_eq_getElem?_getD])

/-- **A step that meets the condition keeps the chains within their bound.** -/
theorem Change.chains (hc : Change s s')
    (h : ∀ p, ChainsWithin (s.Watches p) (MAX_NESTING + 1)) (p : Nat) :
    ChainsWithin (s'.Watches p) (MAX_NESTING + 1) := by
  cases hc with
  | same htables hevents =>
    refine (h p).mono fun a b ⟨fd, hfd, hb⟩ => ?_
    rw [resolve_congr htables] at hb
    exact ⟨fd, hevents a ▸ hfd, hb⟩
  | del htables hevents =>
    refine (h p).mono fun a b ⟨fd, hfd, hb⟩ => ?_
    rw [resolve_congr htables] at hb
    exact ⟨fd, hevents a hfd, hb⟩
  | table hm htables hevents hx =>
    refine (h p).mono fun a b ⟨fd, hfd, hb⟩ => ?_
    rw [hevents] at hfd
    rw [resolve_set hm htables] at hb
    split at hb
    · rename_i hat
      rcases hx with hnot | hunregistered
      · exact absurd hb (hnot b)
      · exact absurd (hat.2 ▸ hfd) (hunregistered _ (mem_events_of_mem hfd))
    · exact ⟨fd, hfd, hb⟩
  | @fork q m hm htables hevents =>
    -- the new process finds what its parent finds
    have hresolve : (∀ fd, s'.resolve p fd = s.resolve p fd) ∨
        ∀ fd, s'.resolve p fd = s.resolve q fd := by
      unfold resolve
      rw [htables]
      rcases Nat.lt_trichotomy p s.tables.length with hlt | heq | hgt
      · exact .inl fun fd => by rw [getElem?_append_left hlt]
      · exact .inr fun fd => by rw [heq, getElem?_concat_length, hm]
      · refine .inl fun fd => ?_
        rw [getElem?_eq_none (by simp; omega), getElem?_eq_none (by omega)]
    rcases hresolve with hself | hparent
    · refine (h p).mono fun a b ⟨fd, hfd, hb⟩ => ⟨fd, hevents a ▸ hfd, ?_⟩
      rw [← hself, hb]
    · refine (h q).mono fun a b ⟨fd, hfd, hb⟩ => ⟨fd, hevents a ▸ hfd, ?_⟩
      rw [← hparent, hb]
  | add e fd htables hevents hok =>
    have hedge : ∀ a b, s'.Watches p a b → s.Watches p a b ∨
        a = e ∧ s.resolve p fd = some (.epoll b) := by
      rintro a b ⟨fd', hfd', hb⟩
      rw [resolve_congr htables] at hb
      rcases hevents a fd' hfd' with hold | ⟨rfl, rfl⟩
      · exact .inl ⟨fd', hold, hb⟩
      · exact .inr ⟨rfl, hb⟩
    by_cases hepoll : ∃ b, s.resolve p fd = some (.epoll b)
    · obtain ⟨b, hb⟩ := hepoll
      obtain ⟨hunwatched, d, hcheck⟩ := hok p b hb
      obtain ⟨hroot, hbound⟩ := checkEpollNesting_ok hcheck
      refine chains_of_new_edge (fun a c hac => ?_) (fun a hae => ?_) hroot (h p) hbound
      · refine (hedge a c hac).imp id fun ⟨hae, hc⟩ => ⟨hae, ?_⟩
        rw [hb] at hc
        cases hc
        rfl
      · obtain ⟨fd', hfd', he⟩ := hae
        exact hunwatched _ (mem_events_of_mem hfd') fd' hfd' he
    · refine (h p).mono fun a b hab => (hedge a b hab).resolve_right fun hnew => ?_
      exact hepoll ⟨b, hnew.2⟩

theorem leastFree_free {m : FdMap ω} {k : Nat} (h : Spec.leastFree m k = some fd) :
    m fd = none := by
  have hfree := find?_some h
  exact isNone_iff_eq_none.mp hfree

/-- `insert_fd_entry` leaves the table alone or fills the least free descriptor. -/
theorem insertFdEntry_cases (limit : Nat) (m : FdMap ω) (entry : FdEntry ω) :
    (insertFdEntry limit m entry).1 = m ∨ ∃ fd, Spec.leastFree m 0 = some fd ∧
        (insertFdEntry limit m entry).1 = update m fd (some entry) := by
  unfold insertFdEntry
  split
  · exact .inl rfl
  · rename_i fd hfd
    simp only
    split
    · refine .inl ?_
      rw [update_idem, update_eq_self_iff, leastFree_free hfd]
    · exact .inr ⟨fd, hfd, rfl⟩

theorem setFdEntry_cases (limit : Nat) (m : FdMap ω) (fd : Nat) (entry : FdEntry ω) :
    (setFdEntry limit m fd entry).1 = m ∨
      (setFdEntry limit m fd entry).1 = update m fd (some entry) := by
  unfold setFdEntry
  split
  · exact .inl rfl
  · split
    · exact .inr rfl
    · exact .inl rfl

theorem FreeUnregistered.of_leastFree (h : s.FreeUnregistered p)
    (hm : s.tables[p]? = some m) (hfd : Spec.leastFree m 0 = some fd) : s.Unregistered fd := by
  unfold FreeUnregistered at h
  rw [hm, bind_some, hfd] at h
  exact h

section
variable (hm : s.tables[p]? = some m)
include hm

theorem set_same : s.tables.set p m = s.tables := by
  obtain ⟨hlt, hget⟩ := List.getElem?_eq_some_iff.mp hm
  rw [← hget, set_getElem_self]

theorem Change.insert (htables : s'.tables = s.tables.set p (insertFdEntry limit m entry).1)
    (hevents : ∀ e, s'.eventsOf e = s.eventsOf e)
    (hfree : (∀ e, entry.object ≠ .epoll e) ∨ s.FreeUnregistered p) : Change s s' := by
  rcases insertFdEntry_cases limit m entry with hsame | ⟨fd, hfd, hset⟩
  · rw [hsame, set_same hm] at htables
    exact .same htables hevents
  · rw [hset] at htables
    refine .table hm htables hevents (hfree.imp (fun hnot e => ?_) fun hf => hf.of_leastFree hm hfd)
    simpa using hnot e

theorem Change.set (htables : s'.tables = s.tables.set p (setFdEntry limit m fd entry).1)
    (hevents : ∀ e, s'.eventsOf e = s.eventsOf e)
    (hfree : (∀ e, entry.object ≠ .epoll e) ∨ s.Unregistered fd) : Change s s' := by
  rcases setFdEntry_cases limit m fd entry with hsame | hset
  · rw [hsame, set_same hm] at htables
    exact .same htables hevents
  · rw [hset] at htables
    exact .table hm htables hevents (hfree.imp (fun hnot e => by simpa using hnot e) id)

end

variable [DecidableEq τ] {a : Action τ}

theorem exec_change {r : Option (Except LinuxError Nat)} (hok : KeepsNesting s a)
    (h : s.exec a = some (s', r)) : Change s s' := by
  unfold exec at h
  split at h
  case h_1 p flags limit =>
    obtain ⟨m, hm, h⟩ := bind_eq_some_iff.mp h
    split at h
    · cases h
      exact .same rfl fun _ => rfl
    · cases h
      refine .insert hm rfl (fun e => ?_) (.inr hok)
      unfold eventsOf
      rcases Nat.lt_trichotomy e s.events.length with hlt | heq | hgt
      · rw [getD_append _ _ _ _ hlt]
      · rw [getD_append_right _ _ _ _ (by omega), getD_eq_default s.events _ (by omega),
          heq, Nat.sub_self]
        rfl
      · rw [getD_eq_default _ _ (by simp; omega), getD_eq_default _ _ (by omega)]
  case h_2 t p epfd op fd =>
    split at h
    · obtain ⟨m, hm, h⟩ := bind_eq_some_iff.mp h
      split at h <;> cases h <;> exact .same rfl fun _ => rfl
    · cases h
  case h_3 t =>
    split at h
    · obtain ⟨m, hm, h⟩ := bind_eq_some_iff.mp h
      split at h
      · cases h
        exact .same rfl fun _ => rfl
      · split at h <;> cases h <;> exact .same rfl fun _ => rfl
    · cases h
  case h_4 t =>
    split at h
    · split at h
      · split at h <;> cases h <;> exact .same rfl fun _ => rfl
      · cases h
        exact .same rfl fun _ => rfl
    · cases h
  case h_5 t readable =>
    split at h
    · rename_i e op fd hphase
      simp only at h
      split at h
      · cases h
        exact .same rfl fun _ => rfl
      · split at h
        · split at h
          · cases h
            exact .same rfl fun _ => rfl
          · cases h
            refine .add e fd rfl (fun a fd' hfd' => ?_) fun p b hb => ?_
            · rcases mem_eventsOf_setEvents hfd' with hold | ⟨ha, hmem⟩
              · exact .inl hold
              · rcases (mem_orderedInsert _).mp hmem with rfl | hold
                · exact .inr ⟨ha, rfl⟩
                · exact .inl (ha ▸ hold)
            · simp only [KeepsNesting, hphase] at hok
              have hp := hok p (lt_of_resolve hb)
              rw [AddKeepsNesting, hb] at hp
              exact hp
        · split at h <;> cases h <;> exact .same rfl fun _ => rfl
        · split at h
          · cases h
            refine .del rfl fun a fd' hfd' => ?_
            rcases mem_eventsOf_setEvents hfd' with hold | ⟨rfl, hmem⟩
            · exact hold
            · exact mem_of_mem_erase hmem
          · cases h
            exact .same rfl fun _ => rfl
        · cases h
          exact .same rfl fun _ => rfl
    · cases h
  case h_6 t p fd =>
    split at h
    · obtain ⟨m, hm, h⟩ := bind_eq_some_iff.mp h
      split at h <;> cases h <;> exact .same rfl fun _ => rfl
    · cases h
  case h_7 t p oldfd newfd flags =>
    split at h
    · obtain ⟨m, hm, h⟩ := bind_eq_some_iff.mp h
      split at h
      · cases h
        exact .same rfl fun _ => rfl
      · split at h
        · cases h
          exact .same rfl fun _ => rfl
        · split at h <;> cases h <;> exact .same rfl fun _ => rfl
    · cases h
  case h_8 t limit =>
    split at h
    · rename_i p entry newfd hphase
      obtain ⟨m, hm, h⟩ := bind_eq_some_iff.mp h
      simp only [KeepsNesting, hphase] at hok
      have hepoll : (∀ e, entry.object ≠ .epoll e) ∨ ∃ e flags, entry = ⟨.epoll e, flags⟩ := by
        obtain ⟨object, flags⟩ := entry
        cases object with
        | epoll e => exact .inr ⟨e, flags, rfl⟩
        | pollable | other => exact .inl nofun
      cases newfd with
      | none =>
        cases h
        refine .insert hm rfl (fun _ => rfl) (hepoll.imp id ?_)
        rintro ⟨e, flags, rfl⟩
        exact hok
      | some fd =>
        cases h
        refine .set hm rfl (fun _ => rfl) (hepoll.imp id ?_)
        rintro ⟨e, flags, rfl⟩
        exact hok
    · cases h
  case h_9 p fd =>
    obtain ⟨m, hm, h⟩ := bind_eq_some_iff.mp h
    split at h
    · cases h
      exact .same rfl fun _ => rfl
    · cases h
      exact .table hm rfl (fun _ => rfl) (.inl nofun)
  case h_10 p =>
    obtain ⟨m, hm, h⟩ := bind_eq_some_iff.mp h
    cases h
    exact .fork hm rfl fun _ => rfl

theorem Step.change (hok : KeepsNesting s a) (h : Step s a s') : Change s s' := by
  obtain ⟨⟨s₁, r⟩, hexec, rfl⟩ := map_eq_some_iff.mp h
  exact exec_change hok hexec

/-- **Nesting stays acyclic and shallow** in every run that registers epoll objects bottom-up and
gives no registered descriptor another meaning. -/
theorem nesting_of_run (s : System τ) (hr : Reachable Initial (Guarded KeepsNesting Step) s) :
    WellNested s := by
  have hchains : ∀ p, ChainsWithin (s.Watches p) (MAX_NESTING + 1) := by
    refine hr.invariant (I := fun s => ∀ p, ChainsWithin (s.Watches p) (MAX_NESTING + 1)) ?_ ?_
    · rintro s ⟨-, hnone, -⟩ p l hl
      match l, hl with
      | [], _ => simp
      | [x], _ => simp
      | x :: y :: l, hl =>
        obtain ⟨⟨fd, -, hy⟩, -⟩ := isChain_cons_cons.mp hl
        exact absurd hy (hnone p fd y)
    · exact fun s a s' hi hs => (Step.change hs.1 hs.2).chains hi
  exact fun p => ⟨(hchains p).acyclic, fun locks hl => ⟨(hchains p).nodup hl, hchains p locks hl⟩⟩

def oneProcess : System Unit := ⟨[FdMap.empty], [], fun _ => .idle⟩

theorem oneProcess_initial : Initial oneProcess := by
  refine ⟨rfl, fun p fd e h => ?_, fun _ => rfl⟩
  obtain ⟨entry, hentry, -⟩ := map_eq_some_iff.mp h
  obtain ⟨m, hm, hfd⟩ := bind_eq_some_iff.mp hentry
  have hmem := mem_of_getElem? hm
  rw [oneProcess, mem_singleton] at hmem
  rw [hmem] at hfd
  cases hfd

/-- `epoll_ctl(epfd, EPOLL_CTL_ADD, fd)`. -/
def addTo (epfd fd : Nat) : List (Action Unit) :=
  [.epollCtl () 0 epfd .add fd, .ctlTarget (), .ctlCheck (), .ctlApply () true]

/-- New epoll objects at descriptors `0` to `n - 1`. -/
def create (n : Nat) : List (Action Unit) := replicate n (.epollCreate1 0 0 FD_LIMIT)

theorem pair_well_nested : ∃ s : System Unit,
    Reachable Initial (Guarded KeepsNesting Step) s ∧ s.eventsOf 0 = [1] ∧ WellNested s := by
  obtain ⟨s, hr, hs⟩ : ∃ s : System Unit, Reachable Initial (Guarded KeepsNesting Step) s ∧
      decide (s.eventsOf 0 = [1]) = true :=
    Reachable.guarded_execs oneProcess_initial (create 2 ++ addTo 0 1) (by decide +kernel)
  exact ⟨s, hr, of_decide_eq_true hs, nesting_of_run s hr⟩

/-- Objects `0` to `n`, each registered in the one before, from the top down. -/
def topDown (n : Nat) : List (Action Unit) :=
  create (n + 1) ++ (range n).flatMap fun e => addTo e (e + 1)

/-- **Nesting is not bounded, and not acyclic**: a chain built from the top down has six edges, and
a descriptor that `dup3` changes makes an object watch itself. -/
theorem nesting_unbounded : (∃ s : System Unit, Reachable Initial Step s ∧
      [0, 1, 2, 3, 4, 5, 6].IsChain (s.Watches 0) ∧ ¬WellNested s) ∧
    ∃ s : System Unit, Reachable Initial Step s ∧ s.Watches 0 0 0 ∧ ¬WellNested s := by
  constructor
  · obtain ⟨s, hr, hs⟩ : ∃ s : System Unit, Reachable Initial Step s ∧
        decide ([0, 1, 2, 3, 4, 5, 6].IsChain (s.Watches 0)) = true :=
      Reachable.execs oneProcess_initial (topDown 6) (by decide +kernel)
    have hchain := of_decide_eq_true hs
    refine ⟨s, hr, hchain, fun hnested => ?_⟩
    exact absurd ((hnested 0).2 _ hchain).2 (by decide)
  · obtain ⟨s, hr, hs⟩ : ∃ s : System Unit, Reachable Initial Step s ∧
        decide (s.Watches 0 0 0) = true :=
      Reachable.execs oneProcess_initial
        (create 2 ++ addTo 0 1 ++ [.dup3 () 0 0 1 0, .install () FD_LIMIT]) (by decide +kernel)
    have hself := of_decide_eq_true hs
    exact ⟨s, hr, hself, fun hnested => (hnested 0).1 0 (.single hself)⟩

end System

end PulseOS.Fd.Epoll
