import PulseOS.Fd.Epoll
import PulseOS.Fd.EpollScan
import PulseOS.Lib.Ordered

/-!
# Registrations and the files they were made for

The descriptor table of a process, its epoll objects, and the calls that open, duplicate, close and
register descriptors.  A registration is kept under the number of its descriptor; beside it stands
the open file that the number meant when `EPOLL_CTL_ADD` was called.

* `exec` — one call, one pass of an `epoll_wait`, or a change of what `poll` finds at a file.
* `DeletesFirst`, `belongs_of_run` — a registration delivers for its own open file where a number is
  taken out of every epoll object before it is closed or given to another file.
* `registration_outlives_file` — a run in which it does not.
-/

namespace PulseOS.Fd.EpollOwner

open Transition EpollWait Function List Option
open Epoll (CtlOp Object insertFdEntry setFdEntry checkEpollNesting MAX_NESTING O_CLOEXEC)

inductive FileKind where
  | epoll
  | pollable
  | other
  deriving DecidableEq

/-- Open files are numbered in the order in which they are opened. -/
structure System where
  table : FdMap Nat
  kinds : List FileKind
  /-- what `poll`, `poll_event_sequence` and `is_rdhup` find at a file -/
  views : Nat → View
  /-- the registrations of an epoll file, each with the file it was made for -/
  events : Nat → List (Watch Nat)
  /-- the epoll files of the `epoll_wait` calls in progress -/
  waits : List Nat

inductive Action where
  /-- `open` and its like, and `epoll_create1` -/
  | openFile (kind : FileKind) (cloexec : Bool) (limit : Nat)
  | close (fd : Nat)
  /-- `close_range` without flags; `r` is what `remove_range` makes of the bounds -/
  | closeRange (r : FdTable.FdRange)
  /-- `execve`, which closes the descriptors with `FD_CLOEXEC` -/
  | execve
  | dup (fd limit : Nat)
  | dup3 (oldfd newfd : Nat) (flags : BitVec 64) (limit : Nat)
  /-- `event` is absent if it cannot be read from user memory -/
  | epollCtl (epfd : Nat) (op : CtlOp) (fd : Nat) (event : Option EpollEvent)
  | epollWait (epfd : Nat)
  /-- one pass of a call in progress on the file -/
  | pass (e maxevents : Nat)
  | waitEnds (e : Nat)
  | change (file : Nat) (view : View)

namespace System

variable (s : System)

def fileOf (fd : Nat) : Option Nat := (s.table fd).map FdEntry.object

def IsOpen (file : Nat) : Prop := ∃ fd, s.fileOf fd = some file

def object (file : Nat) : Object :=
  match s.kinds[file]? with
  | some .epoll => .epoll file
  | some .pollable => .pollable
  | _ => .other

def resolve (fd : Nat) : Option View := (s.fileOf fd).map s.views

/-- `collect_ready` on the file. -/
def collect (e maxevents : Nat) : List (Watch Nat) × List (Watch Nat × EpollEvent) :=
  collectReady s.resolve (fun owner _ => owner) maxevents (s.events e)

def setEvents (e : Nat) (ws : List (Watch Nat)) : System :=
  { s with events := update s.events e ws }

/-- The part of `sys_epoll_ctl` under the lock, for a descriptor that means `file`. -/
def ctlApply (e : Nat) (op : CtlOp) (fd file : Nat) (event : EpollEvent) :
    System × Except LinuxError Nat :=
  match op with
  | .add =>
    if (s.events e).any (·.fd = fd) then (s, .error .EEXIST)
    else (s.setEvents e (Ordered.insert Watch.fd ⟨fd, .new event, file⟩ (s.events e)), .ok 0)
  | .mod =>
    if (s.events e).any (·.fd = fd) then
      (s.setEvents e ((s.events e).map fun w => if w.fd = fd then { w with reg := .new event } else w),
        .ok 0)
    else (s, .error .ENOENT)
  | .del =>
    if (s.events e).any (·.fd = fd) then
      (s.setEvents e ((s.events e).filter (·.fd ≠ fd)), .ok 0)
    else (s, .error .ENOENT)
  | .invalid => (s, .error .EINVAL)

/-- `check_epoll_nesting` for a registration of `file` at `e`. -/
def nesting (e file : Nat) : Exec LinuxError Nat :=
  checkEpollNesting (fun fd => (s.fileOf fd).map s.object) (fun e => (s.events e).map Watch.fd) e
    MAX_NESTING [] (s.object file)

/-- `sys_epoll_ctl`; `none` if `check_epoll_nesting` does not return. -/
def epollCtl (epfd : Nat) (op : CtlOp) (fd : Nat) (event : Option EpollEvent) :
    Option (System × Except LinuxError Nat) :=
  match s.fileOf epfd with
  | none => some (s, .error .EBADF)
  | some e =>
    match s.object e with
    | .epoll _ =>
      match s.fileOf fd with
      | none => some (s, .error .EBADF)
      | some file =>
        if (s.object file).isPollable = false then some (s, .error .EPERM)
        else
          match if op = .add then s.nesting e file else .ok 0 with
          | .error (.err error) => some (s, .error error)
          | .error _ => none
          | .ok _ =>
            match op, event with
            | .del, _ => some (s.ctlApply e op fd file ⟨0, 0⟩)
            | _, none => some (s, .error .EFAULT)
            | _, some event => some (s.ctlApply e op fd file event)
    | _ => some (s, .error .EINVAL)

def dup3 (oldfd newfd : Nat) (flags : BitVec 64) (limit : Nat) : System × Except LinuxError Nat :=
  if oldfd = newfd then (s, .error .EINVAL)
  else if flags &&& ~~~(O_CLOEXEC.setWidth 64) ≠ 0 then (s, .error .EINVAL)
  else match s.table oldfd with
    | none => (s, .error .EBADF)
    | some entry =>
      let fdFlags := { entry.flags with cloexec := flags &&& O_CLOEXEC.setWidth 64 ≠ 0 }
      let r := setFdEntry limit s.table newfd { entry with flags := fdFlags }
      ({ s with table := r.1 }, r.2)

/-- One step, with the result of a call that returns; `none` when the step is not possible. -/
def exec : Action → Option (System × Option (Except LinuxError Nat))
  | .openFile kind cloexec limit =>
    let r := insertFdEntry limit s.table ⟨s.kinds.length, ⟨cloexec, false, false⟩⟩
    some ({ s with
      table := r.1
      kinds := s.kinds ++ [kind] }, some r.2)
  | .close fd =>
    match s.table fd with
    | none => some (s, some (.error .EBADF))
    | some _ => some ({ s with table := update s.table fd none }, some (.ok 0))
  | .closeRange r => some ({ s with table := Spec.without s.table r.covers }, some (.ok 0))
  | .execve =>
    some ({ s with table := Spec.without s.table fun fd => (s.table fd).any (·.flags.cloexec) },
      none)
  | .dup fd limit =>
    match s.table fd with
    | none => some (s, some (.error .EBADF))
    | some entry =>
      let flags := { entry.flags with cloexec := false }
      let r := insertFdEntry limit s.table { entry with flags }
      some ({ s with table := r.1 }, some r.2)
  | .dup3 oldfd newfd flags limit =>
    let r := s.dup3 oldfd newfd flags limit
    some (r.1, some r.2)
  | .epollCtl epfd op fd event => (s.epollCtl epfd op fd event).map fun r => (r.1, some r.2)
  | .epollWait epfd =>
    match s.fileOf epfd with
    | none => some (s, some (.error .EBADF))
    | some e =>
      match s.object e with
      | .epoll _ => some ({ s with waits := e :: s.waits }, none)
      | _ => some (s, some (.error .EINVAL))
  | .pass e maxevents =>
    if e ∈ s.waits then some (s.setEvents e (s.collect e maxevents).1, none) else none
  | .waitEnds e => some ({ s with waits := s.waits.erase e }, none)
  | .change file view => some ({ s with views := update s.views file view }, none)

def next (a : Action) : Option System := (s.exec a).map Prod.fst

def Initial : Prop :=
  s.table = .empty ∧ s.kinds = [] ∧ s.waits = [] ∧ ∀ e, s.events e = []

/-! ## The property and the condition -/

/-- The epoll file has a descriptor or a call in progress. -/
def InUse (e : Nat) : Prop := s.IsOpen e ∨ e ∈ s.waits

/-- No epoll object in use has a registration under the number. -/
def Unregistered (fd : Nat) : Prop :=
  ∀ e, s.InUse e → ∀ w ∈ s.events e, w.fd ≠ fd

/-- A registration delivers only while its file is open.  A pollable file that is not yet registered
under its descriptor, and whose nesting passes, can be added. -/
structure Belongs : Prop where
  delivers : ∀ e ∈ s.waits, ∀ maxevents, ∀ r ∈ (s.collect e maxevents).2, s.IsOpen r.1.tag
  adds : ∀ epfd fd e file event depth, s.fileOf epfd = some e → s.object e = .epoll e →
    s.fileOf fd = some file → (s.object file).isPollable = true → s.nesting e file = .ok depth →
    (∀ w ∈ s.events e, ¬ (w.fd = fd ∧ w.tag = file)) →
    ∃ s', s.epollCtl epfd .add fd (some event) = some (s', .ok 0) ∧
      ⟨fd, .new event, file⟩ ∈ s'.events e

/-- A number is deleted from the epoll objects before it is closed or given to another file. -/
def DeletesFirst : Action → Prop
  | .close fd => s.Unregistered fd
  | .closeRange r => ∀ fd, r.covers fd = true → s.Unregistered fd
  | .execve => ∀ fd, (s.table fd).any (·.flags.cloexec) = true → s.Unregistered fd
  | .dup3 oldfd newfd _ _ => s.fileOf newfd = s.fileOf oldfd ∨ s.Unregistered newfd
  | _ => True

/-! ## The invariant -/

structure Owned : Prop where
  allocated : ∀ fd file, s.fileOf fd = some file → file < s.kinds.length
  waiting : ∀ e ∈ s.waits, e < s.kinds.length
  fresh : ∀ e, s.kinds.length ≤ e → s.events e = []
  owned : ∀ e, s.InUse e → ∀ w ∈ s.events e, s.fileOf w.fd = some w.tag

variable {s s' : System}

theorem fileOf_update (n : Nat) (x : Option (FdEntry Nat)) (kinds : List FileKind) (fd : Nat) :
    fileOf { s with
      table := update s.table n x
      kinds } fd = if fd = n then x.map FdEntry.object else s.fileOf fd := by
  unfold fileOf
  dsimp only
  rw [update_apply]
  split <;> rfl

theorem setEvents_events (e e' : Nat) (ws : List (Watch Nat)) :
    (s.setEvents e ws).events e' = if e' = e then ws else s.events e' :=
  update_apply _ _ _ _

theorem Owned.table (h : s.Owned) (hevents : s'.events = s.events) (hwaits : s'.waits = s.waits)
    (hkinds : s.kinds.length ≤ s'.kinds.length) (hnew : ∀ fd file, s'.fileOf fd = some file →
      s.IsOpen file ∨ file = s.kinds.length ∧ file < s'.kinds.length)
    (hold : ∀ fd file, s.fileOf fd = some file → s'.fileOf fd = some file ∨ s.Unregistered fd) :
    s'.Owned := by
  refine ⟨fun fd file hfd => ?_, fun e he => ?_, fun e he => ?_, fun e he w hw => ?_⟩
  · rcases hnew fd file hfd with ⟨fd', hfd'⟩ | hlast
    · have := h.allocated fd' file hfd'
      omega
    · exact hlast.2
  · have := h.waiting e (hwaits ▸ he)
    omega
  · rw [hevents]
    exact h.fresh e (by omega)
  · rw [hevents] at hw
    have huse : s.InUse e := by
      rcases he with ⟨fd, hfd⟩ | he
      · rcases hnew fd e hfd with hopen | hlast
        · exact .inl hopen
        · rw [h.fresh e (by omega)] at hw
          cases hw
      · exact .inr (hwaits ▸ he)
    rcases hold w.fd w.tag (h.owned e huse w hw) with hkeep | hnone
    · exact hkeep
    · exact absurd rfl (hnone e huse w hw)

variable {e fd limit : Nat} {entry : FdEntry Nat} {kinds : List FileKind}
  {resolve : Nat → Option Object}

section
variable (h : s.Owned)
include h

theorem Owned.events {ws : List (Watch Nat)} (he : e < s.kinds.length)
    (hws : ∀ w' ∈ ws, s.fileOf w'.fd = some w'.tag ∨
      ∃ w ∈ s.events e, w'.fd = w.fd ∧ w'.tag = w.tag) : (s.setEvents e ws).Owned := by
  refine ⟨h.allocated, h.waiting, fun e' he' => ?_, fun e' huse w' hw' => ?_⟩
  · have hne : e' ≠ e := by
      rintro rfl
      exact absurd he (Nat.not_lt.mpr he')
    rw [setEvents_events, if_neg hne]
    exact h.fresh e' he'
  · rw [setEvents_events] at hw'
    split at hw'
    · subst e'
      rcases hws w' hw' with hfile | ⟨w, hw, hfd, htag⟩
      · exact hfile
      · rw [hfd, htag]
        exact h.owned e huse w hw
    · exact h.owned e' huse w' hw'

theorem Owned.install {n : Nat} (hkinds : s.kinds.length ≤ kinds.length)
    (hentry : s.IsOpen entry.object ∨ entry.object = s.kinds.length ∧ entry.object < kinds.length)
    (hn : s.fileOf n = none ∨ s.fileOf n = some entry.object ∨ s.Unregistered n) : Owned { s with
      table := update s.table n (some entry)
      kinds } := by
  refine h.table rfl rfl hkinds (fun fd file hfd => ?_) fun fd file hfd => ?_
  · rw [fileOf_update] at hfd
    split at hfd
    · cases hfd
      exact hentry
    · exact .inl ⟨fd, hfd⟩
  · rw [fileOf_update]
    split
    · subst fd
      rcases hn with hnone | hsame | hnone
      · rw [hnone] at hfd
        cases hfd
      · exact .inl (hsame.symm.trans hfd)
      · exact .inr hnone
    · exact .inl hfd

theorem Owned.insert (hkinds : s.kinds.length ≤ kinds.length) (hentry : s.IsOpen entry.object ∨
      entry.object = s.kinds.length ∧ entry.object < kinds.length) : Owned { s with
      table := (insertFdEntry limit s.table entry).1
      kinds } := by
  rcases Epoll.System.insertFdEntry_cases limit s.table entry with hsame | ⟨n, hn, hset⟩
  · rw [hsame]
    exact h.table rfl rfl hkinds (fun fd _ hfd => .inl ⟨fd, hfd⟩) fun _ _ hfd => .inl hfd
  · rw [hset]
    refine h.install hkinds hentry (.inl ?_)
    rw [fileOf, Epoll.System.leastFree_free hn]
    rfl

theorem Owned.without {P : Nat → Bool} (hP : ∀ fd, P fd = true → s.Unregistered fd) :
    Owned { s with table := Spec.without s.table P } := by
  refine h.table rfl rfl (Nat.le_refl _) (fun fd file hfd => ?_) fun fd file hfd => ?_
  · unfold fileOf Spec.without at hfd
    dsimp only at hfd
    split at hfd
    · cases hfd
    · exact .inl ⟨fd, hfd⟩
  · unfold fileOf Spec.without
    dsimp only
    split
    · rename_i hp
      exact .inr (hP fd hp)
    · exact .inl hfd

theorem Owned.dup3 {oldfd newfd : Nat} {flags : BitVec 64}
    (hok : s.fileOf newfd = s.fileOf oldfd ∨ s.Unregistered newfd) :
    (s.dup3 oldfd newfd flags limit).1.Owned := by
  unfold System.dup3
  split
  · exact h
  split
  · exact h
  split
  · exact h
  rename_i entry hentry
  have hfile : s.fileOf oldfd = some entry.object := by
    rw [fileOf, hentry]
    rfl
  dsimp only
  rcases Epoll.System.setFdEntry_cases limit s.table newfd { entry with
      flags := { entry.flags with cloexec := flags &&& O_CLOEXEC.setWidth 64 ≠ 0 } }
    with hsame | hset
  · rw [hsame]
    exact h
  · rw [hset]
    exact h.install (Nat.le_refl _) (.inl ⟨oldfd, hfile⟩)
      (.inr (hok.imp_left fun hsame => hsame.trans hfile))

end

/-! ## `epoll_ctl` -/

/-- The call fails early, or reaches the registrations of its epoll object. -/
theorem epollCtl_cases {epfd : Nat} {op : CtlOp} {event : Option EpollEvent}
    {r : Except LinuxError Nat} (h : s.epollCtl epfd op fd event = some (s', r)) :
    s' = s ∨ ∃ e file ev, s.fileOf epfd = some e ∧ s.fileOf fd = some file ∧
      (s', r) = s.ctlApply e op fd file ev := by
  unfold epollCtl at h
  split at h
  · cases h
    exact .inl rfl
  rename_i e he
  split at h
  · split at h
    · cases h
      exact .inl rfl
    rename_i file hfile
    split at h
    · cases h
      exact .inl rfl
    split at h
    · cases h
      exact .inl rfl
    · cases h
    · split at h
      · exact .inr ⟨e, file, _, he, hfile, (some.inj h).symm⟩
      · cases h
        exact .inl rfl
      · exact .inr ⟨e, file, _, he, hfile, (some.inj h).symm⟩
  · cases h
    exact .inl rfl

theorem Owned.ctlApply (h : s.Owned) (he : e < s.kinds.length) (op : CtlOp)
    {file : Nat} (hfile : s.fileOf fd = some file) (event : EpollEvent) :
    (s.ctlApply e op fd file event).1.Owned := by
  cases op with
  | add =>
    rw [System.ctlApply]
    split
    · exact h
    · refine h.events he fun w hw => ?_
      rcases Ordered.mem_insert.mp hw with rfl | hw
      · exact .inl hfile
      · exact .inr ⟨w, hw, rfl, rfl⟩
  | mod =>
    rw [System.ctlApply]
    split
    · refine h.events he fun w' hw' => ?_
      obtain ⟨w, hw, rfl⟩ := mem_map.mp hw'
      refine .inr ⟨w, hw, ?_⟩
      split <;> exact ⟨rfl, rfl⟩
    · exact h
  | del =>
    rw [System.ctlApply]
    split
    · exact h.events he fun w hw => .inr ⟨w, (mem_filter.mp hw).1, rfl, rfl⟩
    · exact h
  | invalid => exact h

theorem Owned.pass (h : s.Owned) (he : e < s.kinds.length) (maxevents : Nat) :
    (s.setEvents e (s.collect e maxevents).1).Owned := by
  refine h.events he fun w' hw' => .inr ?_
  obtain ⟨w, hw, fds, hw'⟩ := collectReady_fst hw'
  refine ⟨w, hw, ?_⟩
  rcases hw' with rfl | rfl
  · exact ⟨Watch.disableIn_fd _ _, Watch.disableIn_tag _ _⟩
  · exact ⟨Watch.disableIn_fd _ _, Watch.disableIn_tag _ _⟩

/-- **Every step** keeps the registrations with their files. -/
theorem Owned.exec {a : Action} {r : Option (Except LinuxError Nat)} (h : s.Owned)
    (hok : DeletesFirst s a) (hstep : s.exec a = some (s', r)) : s'.Owned := by
  cases a with
  | openFile kind cloexec limit =>
    cases hstep
    have hlen : (s.kinds ++ [kind]).length = s.kinds.length + 1 := length_append
    exact h.insert (by omega) (.inr ⟨rfl, by rw [hlen]; exact Nat.lt_succ_self _⟩)
  | close fd =>
    rw [System.exec] at hstep
    split at hstep
    · cases hstep
      exact h
    · cases hstep
      have hwithout := h.without (P := fun n => n = fd) fun n hn => of_decide_eq_true hn ▸ hok
      convert hwithout using 2
      funext n
      rw [update_apply, Spec.without]
      simp
  | closeRange | execve =>
    cases hstep
    exact h.without hok
  | dup fd limit =>
    rw [System.exec] at hstep
    split at hstep
    · cases hstep
      exact h
    · rename_i entry hentry
      cases hstep
      exact h.insert (Nat.le_refl _) (.inl ⟨fd, by rw [fileOf, hentry]; rfl⟩)
  | dup3 oldfd newfd flags limit =>
    cases hstep
    exact h.dup3 hok
  | epollCtl epfd op fd event =>
    obtain ⟨⟨s₁, r₁⟩, hctl, heq⟩ := map_eq_some_iff.mp hstep
    cases heq
    rcases epollCtl_cases hctl with rfl | ⟨e, file, ev, he, hfile, heq⟩
    · exact h
    · have happly := h.ctlApply (h.allocated _ _ he) op hfile ev
      rw [← heq] at happly
      exact happly
  | epollWait epfd =>
    rw [System.exec] at hstep
    split at hstep
    · cases hstep
      exact h
    · rename_i e he
      split at hstep
      · cases hstep
        refine ⟨h.allocated, fun e' he' => ?_, h.fresh, fun e' huse => h.owned e' ?_⟩
        · rcases mem_cons.mp he' with rfl | he'
          · exact h.allocated _ _ he
          · exact h.waiting e' he'
        · rcases huse with hopen | he'
          · exact .inl hopen
          · rcases mem_cons.mp he' with rfl | he'
            · exact .inl ⟨epfd, he⟩
            · exact .inr he'
      · cases hstep
        exact h
  | pass e maxevents =>
    rw [System.exec] at hstep
    split at hstep
    · rename_i he
      cases hstep
      exact h.pass (h.waiting e he) maxevents
    · cases hstep
  | waitEnds e =>
    cases hstep
    exact ⟨h.allocated, fun e' he' => h.waiting e' (mem_of_mem_erase he'), h.fresh,
      fun e' huse => h.owned e' (huse.imp_right mem_of_mem_erase)⟩
  | change file view =>
    cases hstep
    exact ⟨h.allocated, h.waiting, h.fresh, h.owned⟩

theorem Owned.belongs (h : s.Owned) : s.Belongs := by
  refine ⟨fun e he maxevents r hr => ?_, fun epfd fd e file event depth he hepoll hfile hpoll hnest
    hnone => ?_⟩
  · obtain ⟨hw, -⟩ := collectReady_snd hr
    exact ⟨r.1.fd, h.owned e (.inr he) r.1 hw⟩
  · have hany : (s.events e).any (·.fd = fd) = false := by
      refine any_eq_false.mpr fun w hw hfd => hnone w hw ?_
      have hfd := of_decide_eq_true hfd
      have howned := h.owned e (.inl ⟨epfd, he⟩) w hw
      rw [hfd, hfile] at howned
      exact ⟨hfd, (some.inj howned).symm⟩
    simp only [epollCtl, he, hepoll, hfile, hpoll, Bool.true_eq_false, if_false, if_true, hnest,
      System.ctlApply, hany]
    refine ⟨_, rfl, ?_⟩
    rw [setEvents_events, if_pos rfl]
    exact Ordered.mem_insert.mpr (.inl rfl)

theorem owned_initial (h : Initial s) : s.Owned := by
  obtain ⟨htable, -, hwaits, hevents⟩ := h
  refine ⟨fun fd file hfd => ?_, fun e he => ?_, fun e _ => hevents e, fun e _ w hw => ?_⟩
  · rw [fileOf, htable] at hfd
    cases hfd
  · rw [hwaits] at he
    cases he
  · rw [hevents] at hw
    cases hw

theorem owned_of_run (h : Reachable Initial (Guarded DeletesFirst (Computed next)) s) :
    s.Owned := by
  refine h.invariant (I := Owned) (fun s => owned_initial) fun s a s' hs hstep => ?_
  obtain ⟨⟨s₁, r⟩, hexec, rfl⟩ := map_eq_some_iff.mp hstep.2
  exact hs.exec hstep.1 hexec

/-- **A registration belongs to the file it was made for**, where a number is deleted from the epoll
objects before it is closed or given to another file. -/
theorem belongs_of_run (h : Reachable Initial (Guarded DeletesFirst (Computed next)) s) :
    s.Belongs := (owned_of_run h).belongs

def noFiles : System := ⟨.empty, [], fun _ => ⟨none, none, false⟩, fun _ => [], []⟩

theorem initial_noFiles : Initial noFiles := ⟨rfl, rfl, rfl, fun _ => rfl⟩

/-- An epoll object at descriptor 0 watches descriptor 1 with data 7. -/
def watchOne : List Action :=
  [.openFile .epoll false FD_LIMIT, .openFile .pollable false FD_LIMIT,
    .epollCtl 0 .add 1 (some ⟨EPOLLIN, 7⟩)]

/-- The call closes nothing. -/
def opens : Action → Bool
  | .close _ | .closeRange _ | .execve | .dup3 _ _ _ _ => false
  | _ => true

theorem deletesFirst_of_opens {a : Action} (h : opens a = true) : DeletesFirst s a := by
  cases a <;> trivial

theorem Owned.unregistered (h : s.Owned) (hnone : ∀ e < s.kinds.length, s.events e = [])
    (fd : Nat) : s.Unregistered fd := by
  intro e huse w hw
  have hlt : e < s.kinds.length := by
    rcases huse with ⟨n, hn⟩ | he
    · exact h.allocated n e hn
    · exact h.waiting e he
  rw [hnone e hlt] at hw
  cases hw

/-- Descriptor 1 is closed and opened again. -/
def reopened (s : System) : System :=
  (({ s with table := update s.table 1 none } : System).next
    (.openFile .pollable false FD_LIMIT)).getD s

/-- Descriptor 1 is deleted before it is closed, while an `epoll_wait` is in progress; the file that
is opened under its number can be added. -/
theorem belongs_deleted_first : ∃ s, Reachable Initial (Guarded DeletesFirst (Computed next)) s ∧
    s.waits = [0] ∧ s.fileOf 1 = some 2 ∧ s.Belongs ∧
    ∃ s', s.epollCtl 0 .add 1 (some ⟨EPOLLIN, 8⟩) = some (s', .ok 0) := by
  obtain ⟨s, ⟨acts, hrun⟩, hs⟩ : ∃ s,
      Reachable Initial (Guarded (fun _ a => opens a = true) (Computed next)) s ∧
        decide (((∀ e < s.kinds.length, s.events e = []) ∧ (s.table 1).isSome) ∧
          (reopened s).waits = [0] ∧ (reopened s).fileOf 0 = some 0 ∧
          (reopened s).object 0 = .epoll 0 ∧ (reopened s).fileOf 1 = some 2 ∧
          ((reopened s).object 2).isPollable = true ∧ (reopened s).nesting 0 2 = .ok 0 ∧
          (reopened s).events 0 = []) = true :=
    Reachable.guarded_execs initial_noFiles
      (watchOne ++ [.epollWait 0, .pass 0 1, .epollCtl 0 .del 1 none]) (by decide +kernel)
  obtain ⟨⟨hnone, hsome⟩, hwaits, hepfd, hepoll, hfd, hpoll, hnest, hevents⟩ := of_decide_eq_true hs
  obtain ⟨entry, hentry⟩ := isSome_iff_exists.mp hsome
  have hr : Reachable Initial (Guarded DeletesFirst (Computed next)) s :=
    ⟨acts, hrun.weaken fun _ _ => deletesFirst_of_opens⟩
  have hclose : Computed next s (.close 1)
      { s with table := update s.table 1 none } := by
    rw [Computed, next, System.exec, hentry]
    rfl
  have hr' := hr.guarded hclose ((owned_of_run hr).unregistered hnone 1)
  have hopen : Computed next _ (.openFile .pollable false FD_LIMIT) (reopened s) := rfl
  have hbelongs := belongs_of_run (hr'.guarded hopen trivial)
  obtain ⟨s', hadd, -⟩ := hbelongs.adds 0 1 0 2 ⟨EPOLLIN, 8⟩ 0 hepfd hepoll hfd hpoll hnest
    (by simp [hevents])
  exact ⟨_, hr'.guarded hopen trivial, hwaits, hfd, hbelongs, s', hadd⟩

/-- Descriptor 1 is another file than the one that was registered under it. -/
def reused : System :=
  { table := update (update (update (update
      FdMap.empty 0
      (some ⟨0, ⟨false, false, false⟩⟩)) 1 (some ⟨1, ⟨false, false, false⟩⟩)) 1 none) 1
      (some ⟨2, ⟨false, false, false⟩⟩)
    kinds := [.epoll, .pollable, .pollable]
    views := update noFiles.views 2 ⟨some ⟨true, false⟩, none, false⟩
    events := update noFiles.events 0 [⟨1, .new ⟨EPOLLIN, 7⟩, 1⟩]
    waits := [0] }

/-- Descriptor 1 is closed, opened again and becomes readable. -/
def reopenOne : List Action :=
  [.close 1, .openFile .pollable false FD_LIMIT, .change 2 ⟨some ⟨true, false⟩, none, false⟩,
    .epollWait 0]

theorem reachable_reused : Reachable Initial (Computed next) reused := by
  have hrun : (watchOne ++ reopenOne).foldlM next noFiles = some reused := rfl
  exact (Reachable.start initial_noFiles).foldlM hrun

theorem not_isOpen_reused : ¬ reused.IsOpen 1 := by
  rintro ⟨fd, hfd⟩
  unfold fileOf reused at hfd
  simp only [update_apply, FdMap.empty] at hfd
  repeat' split at hfd
  all_goals simp at hfd

/-- A watched file is closed and another is opened, which gets its number: `epoll_wait` delivers the
data of the first, and the second cannot be added. -/
theorem registration_outlives_file :
    Reachable Initial (Computed next) reused ∧ ¬ reused.Belongs ∧ ¬ reused.IsOpen 1 ∧
      reused.fileOf 1 = some 2 ∧
      (∃ r ∈ (reused.collect 0 1).2, r.1.tag = 1 ∧ r.2 = ⟨EPOLLIN, 7⟩) ∧
      (reused.epollCtl 0 .add 1 (some ⟨EPOLLIN, 8⟩)).map Prod.snd = some (.error .EEXIST) := by
  have hdelivers : ∃ r ∈ (reused.collect 0 1).2, r.1.tag = 1 ∧ r.2 = ⟨EPOLLIN, 7⟩ := by
    decide +kernel
  refine ⟨reachable_reused, fun h => ?_, not_isOpen_reused, rfl, hdelivers, by decide +kernel⟩
  obtain ⟨r, hr, htag, -⟩ := hdelivers
  have hopen := h.delivers 0 mem_cons_self 1 r hr
  rw [htag] at hopen
  exact not_isOpen_reused hopen

end System

end PulseOS.Fd.EpollOwner
