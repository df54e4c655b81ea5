import Mathlib.Data.BitVec

/-!
# One pass of `epoll_wait`

`collect_ready` of `EpollFuture::poll`: every registration is held against what its descriptor's
object says at that moment.
-/

namespace PulseOS.Fd.EpollWait

open List

def EPOLLIN : BitVec 32 := 0x1
def EPOLLOUT : BitVec 32 := 0x4
def EPOLLERR : BitVec 32 := 0x8
def EPOLLHUP : BitVec 32 := 0x10
def EPOLLRDHUP : BitVec 32 := 0x2000
def EPOLLONESHOT : BitVec 32 := 0x40000000
def EPOLLET : BitVec 32 := 0x80000000

structure PollState where
  readable : Bool
  writable : Bool
  deriving DecidableEq

structure PollEventSequence where
  readable : UInt64
  writable : UInt64
  deriving DecidableEq

/-- What an object answers; `poll` is `none` where it fails. -/
structure View where
  poll : Option PollState
  sequence : Option PollEventSequence
  rdhup : Bool
  deriving DecidableEq

structure EpollEvent where
  events : BitVec 32
  data : UInt64
  deriving DecidableEq

structure EpollRegistration where
  event : EpollEvent
  reportedIn : Bool
  reportedOut : Bool
  reportedInSequence : Option UInt64
  reportedOutSequence : Option UInt64
  deriving DecidableEq

/-- What `EPOLL_CTL_ADD` inserts and `EPOLL_CTL_MOD` leaves. -/
def EpollRegistration.new (event : EpollEvent) : EpollRegistration :=
  ⟨event, false, false, none, none⟩

namespace EpollRegistration

def wants (reg : EpollRegistration) (mask : BitVec 32) : Bool := reg.event.events &&& mask ≠ 0

/-- `ev.event.events = 0`, for `EPOLLONESHOT`. -/
def disable (reg : EpollRegistration) : EpollRegistration :=
  { reg with event := { reg.event with events := 0 } }

end EpollRegistration

/-! ## One registration -/

/-- One direction of an object, `EPOLLIN` or `EPOLLOUT`: whether the event is reported, and the flag
and the sequence number remembered. -/
def scanEdge (wanted edge ready : Bool) (sequence : Option UInt64) (reported : Bool)
    (last : Option UInt64) : Bool × Bool × Option UInt64 :=
  if ready then
    if wanted then
      if edge then
        if !reported || sequence.any (fun seq => last ≠ some seq) then
          (true, true, sequence.or last)
        else (false, reported, last)
      else (true, reported, last)
    else (false, reported, last)
  else (false, false, last)

variable (view : View) (state : PollState) (reg : EpollRegistration)

def scanIn : Bool × Bool × Option UInt64 :=
  scanEdge (reg.wants EPOLLIN) (reg.wants EPOLLET) state.readable
    (view.sequence.map PollEventSequence.readable) reg.reportedIn reg.reportedInSequence

def scanOut : Bool × Bool × Option UInt64 :=
  scanEdge (reg.wants EPOLLOUT) (reg.wants EPOLLET) state.writable
    (view.sequence.map PollEventSequence.writable) reg.reportedOut reg.reportedOutSequence

/-- `EPOLLRDHUP` shares the flag of `EPOLLIN`, as that is after its part. -/
def scanHup : Bool :=
  reg.wants EPOLLRDHUP && view.rdhup && (!reg.wants EPOLLET || !(scanIn view state reg).2.1)

/-- The registration after the two directions and the hang-up, and `revents`. -/
def scanReady : EpollRegistration × BitVec 32 :=
  let i := scanIn view state reg
  let o := scanOut view state reg
  let hup := scanHup view state reg
  ({ reg with
      reportedIn := i.2.1 || hup && reg.wants EPOLLET
      reportedInSequence := i.2.2
      reportedOut := o.2.1
      reportedOutSequence := o.2.2 },
    (if i.1 then EPOLLIN else 0) ||| (if o.1 then EPOLLOUT else 0) |||
      (if hup then EPOLLRDHUP else 0))

/-- The body of the loop: the registration after it, and the event it pushes. -/
def scan (view : Option View) (reg : EpollRegistration) : EpollRegistration × Option EpollEvent :=
  match view with
  | none =>
    if reg.wants (EPOLLERR ||| EPOLLHUP) then
      (reg, some ⟨reg.event.events &&& (EPOLLERR ||| EPOLLHUP), reg.event.data⟩)
    else (reg, none)
  | some view =>
    match view.poll with
    | none => if reg.wants EPOLLERR then (reg, some ⟨EPOLLERR, reg.event.data⟩) else (reg, none)
    | some state =>
      let (reg', revents) := scanReady view state reg
      (reg', if revents ≠ 0 then some ⟨revents, reg.event.data⟩ else none)

/-- The event has a bit of the mask. -/
def reports (event : Option EpollEvent) (mask : BitVec 32) : Bool :=
  event.any fun e => e.events &&& mask ≠ 0

/-! ## The pass -/

/-- A registration under its descriptor, with what is said about it beside the code. -/
structure Watch (γ : Type) where
  fd : Nat
  reg : EpollRegistration
  tag : γ

section
variable {γ : Type} (resolve : Nat → Option View) (note : γ → Option EpollEvent → γ)

/-- One registration of a pass; `note` keeps what was pushed. -/
def scanWatch (w : Watch γ) : Watch γ × Option EpollEvent :=
  let r := scan (resolve w.fd) w.reg
  (⟨w.fd, r.1, note w.tag r.2⟩, r.2)

def collectLoop (maxevents : Nat) :
    List (Watch γ) → List (Watch γ × EpollEvent) → List (Watch γ) × List (Watch γ × EpollEvent)
  | [], ready => ([], ready)
  | w :: ws, ready =>
    if maxevents ≤ ready.length then (w :: ws, ready)
    else
      let r := scanWatch resolve note w
      let rest := collectLoop maxevents ws (ready ++ (r.2.map fun e => (w, e)).toList)
      (r.1 :: rest.1, rest.2)

/-- `oneshots_to_disable`. -/
def oneshots (ready : List (Watch γ × EpollEvent)) : List Nat :=
  (ready.filter fun r => r.1.reg.wants EPOLLONESHOT).map fun r => r.1.fd

def Watch.disableIn (fds : List Nat) (w : Watch γ) : Watch γ :=
  if w.fd ∈ fds then { w with reg := w.reg.disable } else w

/-- The registrations after a pass, and what it has found, each with its registration. -/
def collectReady (maxevents : Nat) (ws : List (Watch γ)) :
    List (Watch γ) × List (Watch γ × EpollEvent) :=
  let r := collectLoop resolve note maxevents ws []
  (r.1.map (Watch.disableIn (oneshots r.2)), r.2)

@[simp] theorem Watch.disableIn_fd (fds : List Nat) (w : Watch γ) :
    (w.disableIn fds).fd = w.fd := by
  unfold Watch.disableIn
  split <;> rfl

@[simp] theorem Watch.disableIn_tag (fds : List Nat) (w : Watch γ) :
    (w.disableIn fds).tag = w.tag := by
  unfold Watch.disableIn
  split <;> rfl

variable {resolve note} {ws : List (Watch γ)} {ready : List (Watch γ × EpollEvent)}
  {maxevents : Nat} {e : EpollEvent} {w : Watch γ}

theorem collectLoop_fst {w' : Watch γ} (h : w' ∈ (collectLoop resolve note maxevents ws ready).1) :
    ∃ w ∈ ws, w' = w ∨ w' = (scanWatch resolve note w).1 := by
  induction ws generalizing ready with
  | nil => cases h
  | cons w ws ih =>
    rw [collectLoop] at h
    split at h
    · exact ⟨w', h, .inl rfl⟩
    · rcases mem_cons.mp h with rfl | h
      · exact ⟨w, mem_cons_self, .inr rfl⟩
      · obtain ⟨v, hv, heq⟩ := ih h
        exact ⟨v, mem_cons_of_mem _ hv, heq⟩

theorem collectLoop_snd (h : (w, e) ∈ (collectLoop resolve note maxevents ws ready).2) :
    (w, e) ∈ ready ∨ w ∈ ws ∧ (scan (resolve w.fd) w.reg).2 = some e := by
  induction ws generalizing ready with
  | nil => exact .inl h
  | cons v ws ih =>
    rw [collectLoop] at h
    split at h
    · exact .inl h
    · rcases ih h with h | ⟨hw, he⟩
      · rcases mem_append.mp h with h | h
        · exact .inl h
        · obtain ⟨e', he', heq⟩ := Option.map_eq_some_iff.mp (Option.mem_toList.mp h)
          cases heq
          exact .inr ⟨mem_cons_self, he'⟩
      · exact .inr ⟨mem_cons_of_mem _ hw, he⟩

theorem collectLoop_room (h : ready.length + ws.length ≤ maxevents)
    (hw : (w, e) ∈ ready ∨ w ∈ ws ∧ (scan (resolve w.fd) w.reg).2 = some e) :
    (w, e) ∈ (collectLoop resolve note maxevents ws ready).2 := by
  induction ws generalizing ready with
  | nil =>
    rcases hw with hw | ⟨hw, -⟩
    · exact hw
    · cases hw
  | cons v ws ih =>
    rw [length_cons] at h
    have hlen : (ready ++ ((scanWatch resolve note v).2.map fun e => (v, e)).toList).length +
        ws.length ≤ maxevents := by
      have hone : ((scanWatch resolve note v).2.map fun e => (v, e)).toList.length ≤ 1 := by
        cases (scanWatch resolve note v).2 <;> simp
      rw [length_append]
      omega
    rw [collectLoop, if_neg (by omega)]
    refine ih hlen ?_
    rcases hw with hw | ⟨hw, he⟩
    · exact .inl (mem_append_left _ hw)
    · rcases mem_cons.mp hw with rfl | hw
      · have hpush : (scanWatch resolve note w).2 = some e := he
        exact .inl (mem_append_right _ (by rw [hpush]; exact mem_singleton.mpr rfl))
      · exact .inr ⟨hw, he⟩

/-- **A pass** scans a registration or does not reach it, and may then disable it. -/
theorem collectReady_fst {w' : Watch γ} (h : w' ∈ (collectReady resolve note maxevents ws).1) :
    ∃ w ∈ ws, ∃ fds, w' = w.disableIn fds ∨ w' = (scanWatch resolve note w).1.disableIn fds := by
  obtain ⟨v, hv, rfl⟩ := mem_map.mp h
  obtain ⟨w, hw, heq⟩ := collectLoop_fst hv
  rcases heq with rfl | rfl
  · exact ⟨v, hw, _, .inl rfl⟩
  · exact ⟨w, hw, _, .inr rfl⟩

theorem collectReady_snd (h : (w, e) ∈ (collectReady resolve note maxevents ws).2) :
    w ∈ ws ∧ (scan (resolve w.fd) w.reg).2 = some e :=
  (collectLoop_snd h).resolve_left nofun

theorem mem_collectReady (h : ws.length ≤ maxevents) :
    (w, e) ∈ (collectReady resolve note maxevents ws).2 ↔
      w ∈ ws ∧ (scan (resolve w.fd) w.reg).2 = some e :=
  ⟨collectReady_snd, fun hw => collectLoop_room (by rwa [length_nil, Nat.zero_add]) (.inr hw)⟩

end

/-! ## What is reported -/

section
variable {view : View} {state : PollState} {reg : EpollRegistration}

/-- The three bits do not overlap. -/
theorem revents_bits (i o h : Bool) :
    let revents := (if i then EPOLLIN else 0) ||| (if o then EPOLLOUT else 0) |||
      (if h then EPOLLRDHUP else 0)
    decide (revents &&& EPOLLIN ≠ 0) = i ∧ decide (revents &&& EPOLLOUT ≠ 0) = o ∧
      decide (revents &&& EPOLLRDHUP ≠ 0) = h := by
  revert i o h
  decide

section
variable (h : view.poll = some state)
include h

theorem reports_scan (mask : BitVec 32) :
    reports (scan (some view) reg).2 mask = decide ((scanReady view state reg).2 &&& mask ≠ 0) := by
  unfold scan
  dsimp only
  rw [h]
  dsimp only
  split
  · rfl
  · rename_i hzero
    rw [not_not.mp hzero]
    simp [reports]

theorem reports_bits : reports (scan (some view) reg).2 EPOLLIN = (scanIn view state reg).1 ∧
      reports (scan (some view) reg).2 EPOLLOUT = (scanOut view state reg).1 ∧
      reports (scan (some view) reg).2 EPOLLRDHUP = scanHup view state reg := by
  rw [reports_scan h, reports_scan h, reports_scan h]
  exact revents_bits _ _ _

theorem scan_fst : (scan (some view) reg).1 = (scanReady view state reg).1 := by
  unfold scan
  dsimp only
  rw [h]

end

end

end PulseOS.Fd.EpollWait
