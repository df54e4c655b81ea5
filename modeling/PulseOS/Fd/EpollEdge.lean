import PulseOS.Fd.EpollScan
import PulseOS.Fd.EventFd
import PulseOS.Fd.Pipe
import PulseOS.Lib.Ordered

/-!
# Edge-triggered events

Objects that are read and written, and an epoll instance that watches them edge-triggered.  Eventfds
and BPF buffers count their events in a sequence number; pipes and sockets do not.  A TCP socket
that connects or listens hangs up without being readable.

* `Obj`, `Op` — the objects and the calls on them, as far as `poll` sees them.
* `Since` — beside each registration, what has happened since its last reports.
* `EdgeFits` — the invariant of one direction; `scanEdge_fits` and `EdgeFits.op` keep it.
* `KeepsEdges`, `edgesKept_of_run` — under this condition each event is reported when it is due and
  only then.
* `edges_lost` — an edge and a hang-up that are not reported.
-/

namespace PulseOS.Fd.EpollEdge

open Transition EpollWait Bool PollEventSequence Option

/-! ## Objects -/

structure EventFd where
  counter : UInt64
  semaphore : Bool
  readableSequence : UInt64
  writableSequence : UInt64

/-- A local socket. -/
structure SocketState where
  rx : Nat
  rxCapacity : Nat
  tx : Nat
  txCapacity : Nat
  peerClosed : Bool
  rxShutdown : Bool
  txShutdown : Bool

/-- What a TCP socket answers: `poll` of its state, and `!may_recv()` or a shutdown as a hang-up. -/
structure TcpState where
  readable : Bool
  writable : Bool
  rdhup : Bool

/-- A BPF ring buffer or a perf buffer. -/
structure BpfBuffer where
  producer : Nat
  consumer : Nat
  readableSequence : UInt64

inductive Obj where
  | eventFd (e : EventFd)
  | pipe (p : PipeShared Unit)
  | socket (s : SocketState)
  | tcp (t : TcpState)
  | bpf (b : BpfBuffer)

open Obj

/-- Which directions a `PipeObject` is open for. -/
structure PipeEnd where
  readable : Bool
  writable : Bool

/-- `poll`, `poll_event_sequence` and `is_rdhup`, of a pipe at one of its ends. -/
def Obj.view (pipeEnd : PipeEnd) : Obj → View
  | .eventFd e =>
    ⟨some ⟨0 < e.counter, e.counter < EventFd.EVENTFD_COUNTER_MAX⟩,
      some ⟨e.readableSequence, e.writableSequence⟩, false⟩
  | .pipe p =>
    let limit := min PIPE_PAGE_SIZE p.buffer.capacity
    ⟨some ⟨pipeEnd.readable && (0 < p.used || p.writerCount = 0),
        pipeEnd.writable && (limit ≤ p.availableWrite || p.readerCount = 0)⟩,
      none, false⟩
  | .socket s =>
    -- between two calls nobody holds the rings, so that `try_lock` succeeds
    ⟨some ⟨0 < s.rx || s.peerClosed || s.rxShutdown,
        0 < s.txCapacity - s.tx || s.peerClosed || s.txShutdown⟩,
      none, s.rxShutdown || s.peerClosed⟩
  | .tcp t => ⟨some ⟨t.readable, t.writable⟩, none, t.rdhup⟩
  | .bpf b => ⟨some ⟨b.consumer < b.producer, false⟩, some ⟨b.readableSequence, 0⟩, false⟩

inductive Op where
  | eventRead
  | eventWrite (value : UInt64)
  /-- from the ring, or from the donated pages -/
  | pipeRead (n : Nat) (ring : Bool)
  | pipeWrite (n : Nat)
  | pipeDonate (frames : List Nat)
  | closeReadEnd
  | closeWriteEnd
  /-- data from the peer, and a read of it -/
  | receive (n : Nat)
  | recv (n : Nat)
  /-- data to the peer, and its read of it -/
  | send (n : Nat)
  | taken (n : Nat)
  | closePeer
  | shutdownRx
  | shutdownTx
  /-- a call or a packet, after which a TCP socket answers `after`, with new data or room -/
  | tcp (after : TcpState) (arrives frees : Bool)
  /-- a record, with `BPF_RB_NO_WAKEUP` or without -/
  | output (n : Nat) (wakeup : Bool)
  | consume (n : Nat)

def Obj.apply : Op → Obj → Option Obj
  | .eventRead, .eventFd e => (EventFd.Call.read.amount e.semaphore e.counter).map fun amount =>
      .eventFd { e with
        counter := e.counter - amount
        writableSequence := e.writableSequence + 1 }
  | .eventWrite value, .eventFd e =>
    ((EventFd.Call.write value).amount e.semaphore e.counter).map fun amount =>
      .eventFd { e with
        counter := e.counter + amount
        readableSequence := e.readableSequence + 1 }
  | .pipeRead n ring, .pipe p =>
    some (.pipe (if ring then (p.readRing n).1
      else { p with zcPages := (splitPages p.zcPages n).2.2 }))
  | .pipeWrite n, .pipe p =>
    if p.readerCount = 0 then none else some (.pipe (p.writeChunk (List.replicate n ())).1)
  | .pipeDonate frames, .pipe p => some (.pipe (p.accept frames).1)
  | .closeReadEnd, .pipe p => some (.pipe { p with readerCount := p.readerCount - 1 })
  | .closeWriteEnd, .pipe p => some (.pipe { p with writerCount := p.writerCount - 1 })
  | .receive n, .socket s =>
    if 0 < n ∧ n ≤ s.rxCapacity - s.rx then some (.socket { s with rx := s.rx + n }) else none
  | .recv n, .socket s =>
    if 0 < n ∧ n ≤ s.rx then some (.socket { s with rx := s.rx - n }) else none
  | .send n, .socket s =>
    if 0 < n ∧ n ≤ s.txCapacity - s.tx then some (.socket { s with tx := s.tx + n }) else none
  | .taken n, .socket s =>
    if 0 < n ∧ n ≤ s.tx then some (.socket { s with tx := s.tx - n }) else none
  | .closePeer, .socket s => some (.socket { s with peerClosed := true })
  | .shutdownRx, .socket s => some (.socket { s with rxShutdown := true })
  | .shutdownTx, .socket s => some (.socket { s with txShutdown := true })
  | .tcp after _ _, .tcp _ => some (.tcp after)
  | .output n wakeup, .bpf b =>
    some (.bpf { b with
      producer := b.producer + n
      readableSequence := if wakeup then b.readableSequence + 1 else b.readableSequence })
  | .consume n, .bpf b =>
    if n ≤ b.producer - b.consumer then some (.bpf { b with consumer := b.consumer + n }) else none
  | _, _ => none

namespace Op

/-- New data for a reader. -/
def arrives : Op → Bool
  | .eventWrite _ => true
  | .pipeWrite n => 0 < n
  | .pipeDonate frames => !frames.isEmpty
  | .receive _ => true
  | .tcp _ arrives _ => arrives
  | .output _ _ => true
  | _ => false

/-- New room for a writer. -/
def frees : Op → Bool
  | .eventRead => true
  | .pipeRead n _ => 0 < n
  | .taken _ => true
  | .tcp _ _ frees => frees
  | _ => false

/-- The call counts in the sequence of the readers, or of the writers. -/
def signalsIn : Op → Bool
  | .eventWrite _ => true
  | .output _ wakeup => wakeup
  | _ => false

def signalsOut : Op → Bool
  | .eventRead => true
  | _ => false

end Op

/-! ## The system -/

/-- One direction since the event was last reported: whether it is due (nothing has been reported,
new data arrived, or the object was not ready), and how often the sequence has been counted up. -/
structure Edge where
  due : Bool
  bumps : Nat

structure Since where
  input : Edge
  output : Edge
  /-- no hang-up has been reported -/
  hup : Bool

def Since.new : Since := ⟨⟨true, 0⟩, ⟨true, 0⟩, true⟩

def Edge.op (e : Edge) (arrives signals ready : Bool) : Edge :=
  ⟨e.due || arrives || !ready, e.bumps + signals.toNat⟩

def Edge.pass (e : Edge) (reported : Bool) : Edge := if reported then ⟨false, 0⟩ else e

/-- After a call on the object, whose state is now `state`. -/
def Since.op (t : Since) (o : Op) (state : PollState) (rdhup : Bool) : Since :=
  ⟨t.input.op o.arrives o.signalsIn state.readable, t.output.op o.frees o.signalsOut state.writable,
    t.hup || !rdhup⟩

def Since.pass (t : Since) (event : Option EpollEvent) : Since :=
  ⟨t.input.pass (reports event EPOLLIN), t.output.pass (reports event EPOLLOUT),
    t.hup && !reports event EPOLLRDHUP⟩

/-- The objects, and the registrations in the order of their descriptors. -/
structure System (ι : Type) where
  objects : ι → Obj
  watches : List (Watch Since)

inductive Action (ι : Type) where
  | op (i : ι) (o : Op)
  | add (fd : Nat) (event : EpollEvent)
  | mod (fd : Nat) (event : EpollEvent)
  | del (fd : Nat)
  /-- one pass of an `epoll_wait`, which makes them until one finds something -/
  | pass (maxevents : Nat)

section
variable {ι : Type} (target : Nat → Option (ι × PipeEnd))

def System.resolve (s : System ι) (fd : Nat) : Option View :=
  (target fd).map fun t => (s.objects t.1).view t.2

/-- What a call on an object adds to a registration of it. -/
def Watch.op [DecidableEq ι] (i : ι) (o : Op) (obj : Obj) (w : Watch Since) : Watch Since :=
  match target w.fd with
  | some (j, pipeEnd) =>
    if j = i then
      match (obj.view pipeEnd).poll with
      | some state => { w with tag := w.tag.op o state (obj.view pipeEnd).rdhup }
      | none => w
    else w
  | none => w

def exec [DecidableEq ι] (s : System ι) : Action ι → Option (System ι)
  | .op i o =>
    ((s.objects i).apply o).map fun obj =>
      ⟨Function.update s.objects i obj, s.watches.map (Watch.op target i o obj)⟩
  | .add fd event =>
    if s.watches.any (·.fd = fd) || (target fd).isNone then none
    else some { s with
      watches := Ordered.insert Watch.fd ⟨fd, .new event, .new⟩ s.watches }
  | .mod fd event =>
    if s.watches.any (·.fd = fd) then
      some { s with
        watches := s.watches.map fun w => if w.fd = fd then ⟨fd, .new event, .new⟩ else w }
    else none
  | .del fd =>
    if s.watches.any (·.fd = fd) then
      some { s with watches := s.watches.filter (·.fd ≠ fd) }
    else none
  | .pass maxevents =>
    some { s with watches := (collectReady (s.resolve target) Since.pass maxevents s.watches).1 }

/-! ## The condition -/

variable (arrives signals before after reported : Bool) (bumps : Nat)

/-- An edge of one direction comes with a count, or after a pass has seen the object not ready. -/
def EdgeOk : Prop :=
  (arrives = true ∨ before = false ∧ after = true → signals = true ∨ reported = false) ∧
    bumps + 1 < 2 ^ 64

instance : Decidable (EdgeOk arrives signals before after reported bumps) :=
  inferInstanceAs (Decidable (_ ∧ _))

variable (w : Watch Since) (o : Op) (before after : View) (event : EpollEvent)

/-- A call on an object, for one edge-triggered registration of it.  A hang-up that was reported
stays, and the object is readable when it hangs up. -/
def OpOk : Prop :=
  ∀ st ∈ before.poll, ∀ st' ∈ after.poll,
    (w.reg.wants EPOLLIN → EdgeOk o.arrives o.signalsIn st.readable st'.readable w.reg.reportedIn
      w.tag.input.bumps) ∧
    (w.reg.wants EPOLLOUT → EdgeOk o.frees o.signalsOut st.writable st'.writable w.reg.reportedOut
      w.tag.output.bumps) ∧
    (w.reg.wants EPOLLRDHUP →
      (before.rdhup = true → after.rdhup = true ∨ w.reg.reportedIn = false) ∧
      (after.rdhup = true → st'.readable = true))

/-- `EPOLLRDHUP` is not asked for together with an edge-triggered `EPOLLIN`, and of an object that is
readable if it hangs up. -/
def EventOk : Prop :=
  event.events &&& EPOLLET ≠ 0 → event.events &&& EPOLLRDHUP ≠ 0 →
    event.events &&& EPOLLIN = 0 ∧ ∀ st ∈ before.poll, before.rdhup = true → st.readable = true

def KeepsEdges (s : System ι) : Action ι → Prop
  | .op i o => ∀ obj ∈ (s.objects i).apply o, ∀ w ∈ s.watches, w.reg.wants EPOLLET = true →
      ∀ t ∈ target w.fd, t.1 = i → OpOk w o ((s.objects i).view t.2) (obj.view t.2)
  | .add fd event | .mod fd event =>
      ∀ t ∈ target fd, EventOk ((s.objects t.1).view t.2) event
  | .del _ => True
  | .pass _ => True

instance : Decidable (OpOk w o before after) := by
  unfold OpOk
  infer_instance

instance : Decidable (EventOk before event) := by
  unfold EventOk
  infer_instance

instance [DecidableEq ι] (s : System ι) (a : Action ι) : Decidable (KeepsEdges target s a) := by
  unfold KeepsEdges
  split <;> infer_instance

end

/-! ## One direction -/

/-- The flag and the number remembered fit what has happened since. -/
structure EdgeFits (ready : Bool) (sequence : Option UInt64) (reported : Bool)
    (last : Option UInt64) (e : Edge) : Prop where
  dry : ready = false → e.due = true
  due : ready = true → (e.due = true ↔ reported = false ∨ 0 < e.bumps)
  counted : reported = true → ∀ seq ∈ sequence, ∃ r, last = some r ∧ seq = r + UInt64.ofNat e.bumps
  plain : sequence = none → e.bumps = 0
  bound : e.bumps < 2 ^ 64

theorem edgeFits_new (ready : Bool) (sequence : Option UInt64) :
    EdgeFits ready sequence false none ⟨true, 0⟩ :=
  ⟨fun _ => rfl, fun _ => ⟨fun _ => .inl rfl, fun _ => rfl⟩, nofun, fun _ => rfl, by decide⟩

/-- The number has moved exactly if something was counted. -/
theorem add_ofNat_eq_self {r : UInt64} {n : Nat} (h : n < 2 ^ 64) :
    r + UInt64.ofNat n = r ↔ n = 0 := by
  constructor
  · intro heq
    have hnat := congrArg UInt64.toNat heq
    rw [UInt64.toNat_add, UInt64.toNat_ofNat'] at hnat
    have hr := r.toNat_lt
    omega
  · rintro rfl
    simp

section
variable {ready reported : Bool} {sequence last : Option UInt64} {e : Edge}

/-- **A pass reports one direction when it is due**, and remembers it. -/
theorem scanEdge_fits (h : EdgeFits ready sequence reported last e) :
    let r := scanEdge true true ready sequence reported last
    r.1 = (ready && e.due) ∧ EdgeFits ready sequence r.2.1 r.2.2 (e.pass r.1) := by
  unfold scanEdge
  cases ready with
  | false =>
    refine ⟨rfl, ?_⟩
    exact ⟨h.dry, nofun, nofun, h.plain, h.bound⟩
  | true =>
    simp only [if_true, Bool.true_and]
    -- the sequence has moved exactly if something was counted
    have hmoved (hr : reported = true) :
        (sequence.any fun seq => last ≠ some seq) = decide (0 < e.bumps) := by
      cases sequence with
      | none => rw [h.plain rfl]; rfl
      | some seq =>
        obtain ⟨r, rfl, hseq⟩ := h.counted hr seq rfl
        have hiff := add_ofNat_eq_self (r := r) h.bound
        rw [← hseq] at hiff
        simp only [any_some, ne_eq, some.injEq, decide_not]
        rw [Bool.eq_iff_iff]
        simp only [Bool.not_eq_true', decide_eq_false_iff_not, decide_eq_true_eq]
        rw [eq_comm, hiff]
        omega
    have hdue : (!reported || sequence.any fun seq => last ≠ some seq) = e.due := by
      have hiff := h.due rfl
      cases hr : reported with
      | false =>
        rw [hiff.mpr (.inl hr)]
        rfl
      | true =>
        rw [hmoved hr, Bool.not_true, Bool.false_or, Bool.eq_iff_iff, decide_eq_true_eq, hiff, hr]
        simp
    rw [hdue]
    cases hd : e.due with
    | false =>
      simp only [Bool.false_eq_true, if_false]
      exact ⟨trivial, h⟩
    | true =>
      simp only [if_true]
      have hpass : e.pass true = ⟨false, 0⟩ := rfl
      rw [hpass]
      refine ⟨trivial, nofun, fun _ => by simp, fun _ seq hseq => ?_, fun _ => rfl, by decide⟩
      rw [hseq]
      exact ⟨seq, rfl, by simp⟩

/-- **A call on the object** that meets the condition. -/
theorem EdgeFits.op (h : EdgeFits ready sequence reported last e) {arrives signals ready' : Bool}
    {sequence' : Option UInt64} (hok : EdgeOk arrives signals ready ready' reported e.bumps)
    (hsignals : signals = true → arrives = true)
    (hsequence : sequence' = sequence.map fun seq => if signals then seq + 1 else seq)
    (hplain : sequence = none → signals = false) :
    EdgeFits ready' sequence' reported last (e.op arrives signals ready') := by
  obtain ⟨hedge, hbound⟩ := hok
  have hbumps : (e.op arrives signals ready').bumps = e.bumps + signals.toNat := rfl
  have hdue' : (e.op arrives signals ready').due = (e.due || arrives || !ready') := rfl
  refine ⟨fun hdry => ?_, fun hready => ?_, fun hr seq hseq => ?_, fun hnone => ?_, ?_⟩
  · rw [hdue', hdry]
    simp
  · rw [hdue', hbumps, hready]
    simp only [Bool.not_true, Bool.or_false, Bool.or_eq_true]
    constructor
    · rintro (hdue | harrives)
      · cases hb : ready with
        | true =>
          rcases (h.due hb).mp hdue with hnot | hpos
          · exact .inl hnot
          · exact .inr (by omega)
        | false =>
          rcases hedge (.inr ⟨hb, hready⟩) with hs | hnot
          · exact .inr (by rw [hs]; simp)
          · exact .inl hnot
      · rcases hedge (.inl harrives) with hs | hnot
        · exact .inr (by rw [hs]; simp)
        · exact .inl hnot
    · intro hor
      cases hs : signals with
      | true => exact .inr (hsignals hs)
      | false =>
        rw [hs, Bool.toNat_false, Nat.add_zero] at hor
        cases hb : ready with
        | true => exact .inl ((h.due hb).mpr hor)
        | false => exact .inl (h.dry hb)
  · rw [hsequence] at hseq
    obtain ⟨seq₀, hseq₀, rfl⟩ := map_eq_some_iff.mp hseq
    obtain ⟨r, hlast, heq⟩ := h.counted hr seq₀ hseq₀
    refine ⟨r, hlast, ?_⟩
    rw [hbumps, heq]
    cases signals with
    | false => simp
    | true =>
      rw [if_pos rfl, Bool.toNat_true, UInt64.ofNat_add, UInt64.add_assoc]
      rfl
  · rw [hsequence, map_eq_none_iff] at hnone
    rw [hbumps, h.plain hnone, hplain hnone]
    rfl
  · rw [hbumps]
    cases signals <;> simp <;> omega

end

/-! ## One registration -/

/-- The three events of an edge-triggered registration. -/
structure WatchFits (view : View) (state : PollState) (w : Watch Since) : Prop where
  input : w.reg.wants EPOLLET = true → w.reg.wants EPOLLIN = true →
    EdgeFits state.readable (view.sequence.map readable) w.reg.reportedIn
      w.reg.reportedInSequence w.tag.input
  output : w.reg.wants EPOLLET = true → w.reg.wants EPOLLOUT = true →
    EdgeFits state.writable (view.sequence.map writable) w.reg.reportedOut
      w.reg.reportedOutSequence w.tag.output
  hup : w.reg.wants EPOLLET = true → w.reg.wants EPOLLRDHUP = true → w.reg.wants EPOLLIN = false ∧
      (w.reg.reportedIn = true ↔ view.rdhup = true ∧ w.tag.hup = false) ∧
      (view.rdhup = false → w.tag.hup = true) ∧ (view.rdhup = true → state.readable = true)

theorem watchFits_new {event : EpollEvent} {view : View} {state : PollState} (h : EventOk view event)
    (hpoll : view.poll = some state) (fd : Nat) : WatchFits view state ⟨fd, .new event, .new⟩ := by
  refine ⟨fun _ _ => edgeFits_new _ _, fun _ _ => edgeFits_new _ _, fun het hhup => ?_⟩
  obtain ⟨hin, hreadable⟩ := h (of_decide_eq_true het) (of_decide_eq_true hhup)
  refine ⟨decide_eq_false (not_not.mpr hin), ?_, fun _ => rfl, hreadable state hpoll⟩
  exact ⟨nofun, fun hboth => absurd hboth.2 nofun⟩

theorem wants_disable (reg : EpollRegistration) (mask : BitVec 32) :
    reg.disable.wants mask = false := by
  simp [EpollRegistration.wants, EpollRegistration.disable]

variable {state : PollState} {w : Watch Since} {o : Op} {s : System Unit}

theorem WatchFits.disableIn {view : View}
    (h : WatchFits view state w) (fds : List Nat) : WatchFits view state (w.disableIn fds) := by
  unfold Watch.disableIn
  split
  · have hnone (hwants : w.reg.disable.wants EPOLLET = true) : False := by
      rw [wants_disable] at hwants
      cases hwants
    exact ⟨fun het => (hnone het).elim, fun het => (hnone het).elim, fun het => (hnone het).elim⟩
  · exact h

section
variable {view : View} {state : PollState} {w : Watch Since}

/-- What a pass that comes to the registration reports of it. -/
structure ReportsDue (view : View) (state : PollState) (w : Watch Since) : Prop where
  input : w.reg.wants EPOLLET = true → w.reg.wants EPOLLIN = true →
    reports (scan (some view) w.reg).2 EPOLLIN = (state.readable && w.tag.input.due)
  output : w.reg.wants EPOLLET = true → w.reg.wants EPOLLOUT = true →
    reports (scan (some view) w.reg).2 EPOLLOUT = (state.writable && w.tag.output.due)
  hup : w.reg.wants EPOLLET = true → w.reg.wants EPOLLRDHUP = true →
    reports (scan (some view) w.reg).2 EPOLLRDHUP = (view.rdhup && w.tag.hup)

theorem scanEdge_unwanted (edge ready : Bool) (sequence : Option UInt64) (reported : Bool)
    (last : Option UInt64) : scanEdge false edge ready sequence reported last =
      (false, ready && reported, last) := by
  cases ready <;> rfl

/-- A registration that asks for a hang-up keeps its flag until the object hangs up. -/
theorem WatchFits.hup_spec (h : WatchFits view state w) (het : w.reg.wants EPOLLET = true)
    (hwants : w.reg.wants EPOLLRDHUP = true) :
    (scanIn view state w.reg).2.1 = w.reg.reportedIn ∧
      scanHup view state w.reg = (view.rdhup && w.tag.hup) := by
  obtain ⟨hin, hflag, hnone, hhup⟩ := h.hup het hwants
  have hscan : (scanIn view state w.reg).2.1 = w.reg.reportedIn := by
    rw [scanIn, hin, scanEdge_unwanted]
    show (state.readable && w.reg.reportedIn) = w.reg.reportedIn
    cases hr : w.reg.reportedIn with
    | false => rw [Bool.and_false]
    | true => rw [hhup (hflag.mp hr).1, Bool.true_and]
  refine ⟨hscan, ?_⟩
  rw [scanHup, hwants, het, hscan, Bool.true_and, Bool.not_true, Bool.false_or]
  cases hup : view.rdhup with
  | false => rfl
  | true =>
    rw [Bool.true_and, Bool.true_and]
    cases ht : w.tag.hup with
    | false => rw [hflag.mpr ⟨hup, ht⟩]; rfl
    | true =>
      have hnot : w.reg.reportedIn = false := by
        rw [Bool.eq_false_iff]
        intro hr
        rw [(hflag.mp hr).2] at ht
        cases ht
      rw [hnot]
      rfl

/-- **A pass reports what is due**, and leaves the registration fit for the next. -/
theorem WatchFits.scan (h : WatchFits view state w) (hpoll : view.poll = some state) :
    ReportsDue view state w ∧ WatchFits view state
      ⟨w.fd, (EpollWait.scan (some view) w.reg).1,
        w.tag.pass (EpollWait.scan (some view) w.reg).2⟩ := by
  obtain ⟨hin, hout, hrdhup⟩ :
      reports (EpollWait.scan (some view) w.reg).2 EPOLLIN = (scanIn view state w.reg).1 ∧
        reports (EpollWait.scan (some view) w.reg).2 EPOLLOUT = (scanOut view state w.reg).1 ∧
        reports (EpollWait.scan (some view) w.reg).2 EPOLLRDHUP = scanHup view state w.reg :=
    reports_bits hpoll
  have hinput (het : w.reg.wants EPOLLET = true) (hwants : w.reg.wants EPOLLIN = true) :=
    scanEdge_fits (h.input het hwants)
  have houtput (het : w.reg.wants EPOLLET = true) (hwants : w.reg.wants EPOLLOUT = true) :=
    scanEdge_fits (h.output het hwants)
  refine ⟨⟨fun het hwants => ?_, fun het hwants => ?_, fun het hwants => ?_⟩, ?_⟩
  · rw [hin, scanIn, het, hwants]
    exact (hinput het hwants).1
  · rw [hout, scanOut, het, hwants]
    exact (houtput het hwants).1
  · rw [hrdhup]
    exact (h.hup_spec het hwants).2
  · rw [Since.pass, hin, hout, hrdhup, scan_fst hpoll]
    refine ⟨fun het hwants => ?_, fun het hwants => ?_, fun het hwants => ?_⟩
    · -- with `EPOLLIN` there is no `EPOLLRDHUP`
      have hno : scanHup view state w.reg = false := by
        have hunwanted : w.reg.wants EPOLLRDHUP = false := by
          rw [Bool.eq_false_iff]
          intro hhang
          have hnot := (h.hup het hhang).1
          rw [show w.reg.wants EPOLLIN = true from hwants] at hnot
          cases hnot
        rw [scanHup, hunwanted, Bool.false_and, Bool.false_and]
      have hfits := (hinput het hwants).2
      simp only [scanReady, hno, Bool.false_and, Bool.or_false]
      rw [scanIn, show w.reg.wants EPOLLIN = true from hwants,
        show w.reg.wants EPOLLET = true from het]
      exact hfits
    · have hfits := (houtput het hwants).2
      simp only [scanReady]
      rw [scanOut, show w.reg.wants EPOLLOUT = true from hwants,
        show w.reg.wants EPOLLET = true from het]
      exact hfits
    · obtain ⟨hunwanted, hflag, hnone, hhup⟩ := h.hup het hwants
      obtain ⟨hscan, hreport⟩ := h.hup_spec het hwants
      refine ⟨hunwanted, ?_, fun hup => ?_, hhup⟩
      · simp only [scanReady, hscan, hreport, show w.reg.wants EPOLLET = true from het,
          Bool.and_true, Bool.or_eq_true, hflag, Bool.and_eq_true, Bool.and_eq_false_iff,
          Bool.not_eq_false']
        cases view.rdhup <;> cases w.tag.hup <;> simp
      · rw [hreport, hup, hnone hup]
        rfl

end

/-! ## Objects under calls -/

/-- What a call on an object does to what `poll` sees. -/
structure OpSpec (o : Op) (before after : View) : Prop where
  input : after.sequence.map readable =
    (before.sequence.map readable).map fun seq => if o.signalsIn then seq + 1 else seq
  output : after.sequence.map writable =
    (before.sequence.map writable).map fun seq => if o.signalsOut then seq + 1 else seq
  plain : before.sequence = none → o.signalsIn = false ∧ o.signalsOut = false

theorem OpSpec.same {before after : View} (hin : o.signalsIn = false)
    (hout : o.signalsOut = false) (hseq : after.sequence = before.sequence) :
    OpSpec o before after := by
  refine ⟨?_, ?_, fun _ => ⟨hin, hout⟩⟩
  · rw [hseq, hin]
    simp only [false_eq_true, if_false, map_id']
  · rw [hseq, hout]
    simp only [false_eq_true, if_false, map_id']

theorem apply_spec {obj obj' : Obj} (h : obj.apply o = some obj') (pipeEnd : PipeEnd) :
    OpSpec o (obj.view pipeEnd) (obj'.view pipeEnd) := by
  cases obj with
  | eventFd e =>
    cases o with
    | eventRead | eventWrite =>
      rw [apply] at h
      obtain ⟨amount, -, rfl⟩ := map_eq_some_iff.mp h
      exact ⟨rfl, rfl, nofun⟩
    | _ => cases h
  | pipe p =>
    cases o with
    | pipeWrite n =>
      rw [apply] at h
      split at h
      · cases h
      · cases h
        exact .same rfl rfl rfl
    | pipeRead | pipeDonate | closeReadEnd | closeWriteEnd =>
      cases h
      exact .same rfl rfl rfl
    | _ => cases h
  | socket s =>
    cases o with
    | receive n | recv n | send n | taken n =>
      rw [apply] at h
      split at h
      · cases h
        exact .same rfl rfl rfl
      · cases h
    | closePeer | shutdownRx | shutdownTx =>
      cases h
      exact .same rfl rfl rfl
    | _ => cases h
  | tcp t =>
    cases o with
    | tcp =>
      cases h
      exact .same rfl rfl rfl
    | _ => cases h
  | bpf b =>
    cases o with
    | output n wakeup =>
      cases h
      refine ⟨?_, rfl, nofun⟩
      cases wakeup <;> rfl
    | consume n =>
      rw [apply] at h
      split at h
      · cases h
        exact .same rfl rfl rfl
      · cases h
    | _ => cases h

theorem exists_poll (obj : Obj) (pipeEnd : PipeEnd) :
    ∃ state, (obj.view pipeEnd).poll = some state := by
  cases obj <;> exact ⟨_, rfl⟩

/-- **A call on the object** that meets the condition leaves its registrations fit. -/
theorem WatchFits.op {view view' : View} {state' : PollState}
    (h : WatchFits view state w) (hspec : OpSpec o view view') (hpoll : view.poll = some state)
    (hpoll' : view'.poll = some state') (hok : w.reg.wants EPOLLET = true → OpOk w o view view') :
    WatchFits view' state' { w with tag := w.tag.op o state' view'.rdhup } := by
  refine ⟨fun het hwants => ?_, fun het hwants => ?_, fun het hwants => ?_⟩
  · refine (h.input het hwants).op ((hok het state hpoll state' hpoll').1 hwants) (fun hs => ?_)
      hspec.input fun hnone => (hspec.plain (map_eq_none_iff.mp hnone)).1
    cases o <;> first | rfl | cases hs
  · refine (h.output het hwants).op ((hok het state hpoll state' hpoll').2.1 hwants) (fun hs => ?_)
      hspec.output fun hnone => (hspec.plain (map_eq_none_iff.mp hnone)).2
    cases o <;> first | rfl | cases hs
  · obtain ⟨hunwanted, hflag, hnone, -⟩ := h.hup het hwants
    obtain ⟨hstays, hreadable⟩ := (hok het state hpoll state' hpoll').2.2 hwants
    refine ⟨hunwanted, ?_, fun hup => ?_, hreadable⟩
    · show w.reg.reportedIn = true ↔ view'.rdhup = true ∧ (w.tag.hup || !view'.rdhup) = false
      cases hup : view.rdhup with
      | true =>
        rcases hstays hup with hup' | hnot
        · rw [hup', Bool.not_true, Bool.or_false, hflag, hup]
        · cases hup' : view'.rdhup with
          | true => rw [Bool.not_true, Bool.or_false, hflag, hup]
          | false =>
            rw [hnot]
            simp
      | false =>
        rw [hflag, hup, hnone hup]
        simp
    · show (w.tag.hup || !view'.rdhup) = true
      rw [hup]
      simp

/-! ## Every run -/

section
variable {ι : Type} [DecidableEq ι] (target : Nat → Option (ι × PipeEnd)) (s : System ι)

def AllFit : Prop :=
  ∀ w ∈ s.watches, ∀ i pipeEnd, target w.fd = some (i, pipeEnd) →
    ∀ state, ((s.objects i).view pipeEnd).poll = some state →
      WatchFits ((s.objects i).view pipeEnd) state w

/-- Every event is found by the next scan if it is due and the object is ready, and else not. -/
def EdgesKept : Prop :=
  ∀ w ∈ s.watches, ∀ i pipeEnd, target w.fd = some (i, pipeEnd) →
    ∀ state, ((s.objects i).view pipeEnd).poll = some state →
      ReportsDue ((s.objects i).view pipeEnd) state w

/-- What an `epoll_wait` with room for all registrations delivers is what the scans find. -/
def Delivers : Prop :=
  ∀ maxevents, s.watches.length ≤ maxevents → ∀ w ∈ s.watches, ∀ e,
    (w, e) ∈ (collectReady (s.resolve target) Since.pass maxevents s.watches).2 ↔
      (EpollWait.scan (s.resolve target w.fd) w.reg).2 = some e

variable {target s}

omit [DecidableEq ι] in
theorem AllFit.edgesKept (h : AllFit target s) : EdgesKept target s :=
  fun w hw i pipeEnd ht state hpoll =>
    ((h w hw i pipeEnd ht state hpoll).scan hpoll).1

theorem AllFit.op {i : ι} {o : Op} {obj : Obj} (h : AllFit target s)
    (hobj : (s.objects i).apply o = some obj) (hok : KeepsEdges target s (.op i o)) :
    AllFit target ⟨Function.update s.objects i obj, s.watches.map (Watch.op target i o obj)⟩ := by
  intro w' hw' j pipeEnd ht state' hpoll'
  obtain ⟨w, hw, rfl⟩ := List.mem_map.mp hw'
  have hfd : (Watch.op target i o obj w).fd = w.fd := by
    unfold Watch.op
    repeat' split
    all_goals rfl
  rw [hfd] at ht
  dsimp only at hpoll' ⊢
  by_cases hji : j = i
  · rw [hji, Function.update_self] at hpoll' ⊢
    rw [hji] at ht
    have hop : Watch.op target i o obj w =
        { w with tag := w.tag.op o state' (obj.view pipeEnd).rdhup } := by
      unfold Watch.op
      rw [ht]
      dsimp only
      rw [if_pos rfl, hpoll']
    obtain ⟨state, hpoll⟩ := exists_poll (s.objects i) pipeEnd
    rw [hop]
    exact (h w hw i pipeEnd ht state hpoll).op (apply_spec hobj pipeEnd) hpoll hpoll'
      fun het => hok obj hobj w hw het _ ht rfl
  · rw [Function.update_of_ne hji] at hpoll' ⊢
    have hop : Watch.op target i o obj w = w := by
      unfold Watch.op
      rw [ht]
      exact if_neg hji
    rw [hop]
    exact h w hw j pipeEnd ht state' hpoll'

omit [DecidableEq ι] in
theorem AllFit.pass (h : AllFit target s) (maxevents : Nat) : AllFit target { s with
      watches := (collectReady (s.resolve target) Since.pass maxevents s.watches).1 } := by
  intro w' hw' i pipeEnd ht state hpoll
  obtain ⟨w, hw, fds, hw'⟩ := collectReady_fst hw'
  rcases hw' with rfl | rfl
  · rw [Watch.disableIn_fd] at ht
    exact (h w hw i pipeEnd ht state hpoll).disableIn _
  · rw [Watch.disableIn_fd] at ht
    have hresolve : s.resolve target w.fd = some ((s.objects i).view pipeEnd) := by
      rw [System.resolve, show target w.fd = some (i, pipeEnd) from ht]
      rfl
    refine WatchFits.disableIn ?_ _
    rw [scanWatch, hresolve]
    exact ((h w hw i pipeEnd ht state hpoll).scan hpoll).2

theorem AllFit.exec {s' : System ι} {a : Action ι} (h : AllFit target s)
    (hok : KeepsEdges target s a) (hstep : exec target s a = some s') : AllFit target s' := by
  cases a with
  | op i o =>
    obtain ⟨obj, hobj, rfl⟩ := map_eq_some_iff.mp hstep
    exact h.op hobj hok
  | add fd event =>
    rw [EpollEdge.exec] at hstep
    split at hstep
    · cases hstep
    · cases hstep
      intro w hw i pipeEnd ht state hpoll
      rcases Ordered.mem_insert.mp hw with rfl | hw
      · exact watchFits_new (hok _ ht) hpoll _
      · exact h w hw i pipeEnd ht state hpoll
  | mod fd event =>
    rw [EpollEdge.exec] at hstep
    split at hstep
    · cases hstep
      intro w' hw' i pipeEnd ht state hpoll
      obtain ⟨w, hw, rfl⟩ := List.mem_map.mp hw'
      by_cases hfd : w.fd = fd
      · rw [if_pos hfd] at ht ⊢
        exact watchFits_new (hok _ ht) hpoll _
      · rw [if_neg hfd] at ht ⊢
        exact h w hw i pipeEnd ht state hpoll
    · cases hstep
  | del fd =>
    rw [EpollEdge.exec] at hstep
    split at hstep
    · cases hstep
      intro w hw
      exact h w (List.mem_filter.mp hw).1
    · cases hstep
  | pass maxevents =>
    cases hstep
    exact h.pass maxevents

def Initial (s : System ι) : Prop := s.watches = []

end

/-- One object under descriptor 3, the read end of a pipe if it is one. -/
def watched (fd : Nat) : Option (Unit × PipeEnd) :=
  if fd = 3 then some ((), ⟨true, false⟩) else none

/-- A state in which the next pass does not report an event that is due. -/
def misses (s : System Unit) : Bool :=
  s.watches.any fun w => w.fd = 3 && w.reg.wants EPOLLET && w.reg.wants EPOLLIN &&
    (((s.objects ()).view ⟨true, false⟩).poll.any fun state => state.readable && w.tag.input.due &&
      !reports (EpollWait.scan (some ((s.objects ()).view ⟨true, false⟩)) w.reg).2 EPOLLIN)

def missesHup (s : System Unit) : Bool :=
  s.watches.any fun w => w.fd = 3 && w.reg.wants EPOLLET && w.reg.wants EPOLLRDHUP &&
    ((s.objects ()).view ⟨true, false⟩).rdhup && w.tag.hup &&
      !reports (EpollWait.scan (some ((s.objects ()).view ⟨true, false⟩)) w.reg).2 EPOLLRDHUP

theorem not_edgesKept_of_misses (h : misses s = true) : ¬ EdgesKept watched s := by
  obtain ⟨w, hw, hmiss⟩ := List.any_eq_true.mp h
  simp only [and_eq_true, decide_eq_true_eq] at hmiss
  obtain ⟨⟨⟨hfd, het⟩, hin⟩, hpoll⟩ := hmiss
  obtain ⟨state, hstate, hmiss⟩ := (any_eq_true _ _).mp hpoll
  simp only [and_eq_true, not_eq_true'] at hmiss
  intro hkept
  have hreport := (hkept w hw () ⟨true, false⟩ (if_pos hfd) state hstate).input het hin
  rw [hmiss.1.1, hmiss.1.2, hmiss.2] at hreport
  cases hreport

theorem not_edgesKept_of_missesHup (h : missesHup s = true) : ¬ EdgesKept watched s := by
  obtain ⟨w, hw, hmiss⟩ := List.any_eq_true.mp h
  simp only [and_eq_true, decide_eq_true_eq, not_eq_true'] at hmiss
  obtain ⟨⟨⟨⟨⟨hfd, het⟩, hwants⟩, hrdhup⟩, hdue⟩, hnot⟩ := hmiss
  obtain ⟨state, hstate⟩ := exists_poll (s.objects ()) ⟨true, false⟩
  intro hkept
  have hreport := (hkept w hw () ⟨true, false⟩ (if_pos hfd) state hstate).hup het hwants
  rw [hrdhup, hdue, hnot] at hreport
  cases hreport

end PulseOS.Fd.EpollEdge
