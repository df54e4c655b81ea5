import PulseOS.Fd.PipeRing
import PulseOS.Lib.Transition

/-!
# Pipes

`PipeObject` of `fd_table/pipe.rs`.  Bytes wait in a ring, which `write` fills, and in a queue of
donated pages, which `write_zerocopy` fills; `read` and `read_zerocopy` empty both.

The first part has the sections that run under the locks of the pipe, as functions of its state.
The second part is the system of the calls of any number of threads: an action is one section, or a
step outside the locks (pinning, copying, mapping a page), and `Phase` is what a call holds between
its sections.  A call that waits stays in its phase and may try again at any time.  What a donated
frame holds is `content` throughout: no one writes to it while it is in the pipe.

The system also records, without an effect on the pipe: the frame references that donations took,
that readers mapped and that were given back (`donated`, `mapped`, `freed`), the bytes that writers
handed over (`accepted`), the bytes taken out of the pipe in the order of removal (`delivered`), the
bytes of reads that returned them (`returned`), the sizes of all `write` calls (`sizes`), and those
that returned (`writes`).  A `write` call is numbered by its place in `sizes`, and a byte carries
the number of the call it comes from.
-/

namespace PulseOS.Fd

open Transition

def PIPE_PAGE_SIZE : Nat := 4096

def DEFAULT_PIPE_CAPACITY : Nat := 256 * 1024

def MAX_PIPE_CAPACITY : Nat := 1024 * 1024

structure ZeroCopyPage where
  paddr : Nat
  offset : Nat
  len : Nat
  deriving DecidableEq, Repr

def zeroCopyBytes (pages : List ZeroCopyPage) : Nat := (pages.map (·.len)).sum

def pipeAvailableWriteBytes (capacity ringBytes zeroCopyBytes : Nat) : Nat :=
  capacity - (ringBytes + zeroCopyBytes)

/-- The bytes of a page that are still to be read. -/
def ZeroCopyPage.bytes {α : Type} (content : Nat → List α) (page : ZeroCopyPage) : List α :=
  ((content page.paddr).drop page.offset).take page.len

def pageBytes {α : Type} (content : Nat → List α) (pages : List ZeroCopyPage) : List α :=
  pages.flatMap (·.bytes content)

structure PipeShared (α : Type) where
  buffer : PipeRingBuffer α
  zcPages : List ZeroCopyPage
  readerCount : Nat
  writerCount : Nat

/-! ## Sections -/

/-- The front pages that fit into `remaining`, the part of the next page that does, and the pages
that stay. -/
def splitPages :
    List ZeroCopyPage → Nat → List ZeroCopyPage × Option ZeroCopyPage × List ZeroCopyPage
  | [], _ => ([], none, [])
  | page :: zc, remaining =>
    if remaining = 0 then ([], none, page :: zc)
    else if page.len ≤ remaining then
      let r := splitPages zc (remaining - page.len)
      (page :: r.1, r.2.1, r.2.2)
    else
      ([], some { page with len := remaining },
        { page with offset := page.offset + remaining, len := page.len - remaining } :: zc)

/-- Up to `n` whole pages from the front, and the pages that stay. -/
def gatherPages : List ZeroCopyPage → Nat → List ZeroCopyPage × List ZeroCopyPage
  | zc, 0 => ([], zc)
  | [], _ + 1 => ([], [])
  | page :: zc, n + 1 =>
    if page.offset = 0 ∧ page.len = PIPE_PAGE_SIZE then
      let r := gatherPages zc n
      (page :: r.1, r.2)
    else ([], page :: zc)

namespace PipeShared

variable {α : Type}

def new : PipeShared α := ⟨.new DEFAULT_PIPE_CAPACITY, [], 1, 1⟩

def newFifo : PipeShared α := ⟨.new DEFAULT_PIPE_CAPACITY, [], 0, 0⟩

variable (p : PipeShared α)

def used : Nat := p.buffer.availableRead + zeroCopyBytes p.zcPages

def availableWrite : Nat :=
  pipeAvailableWriteBytes p.buffer.capacity p.buffer.availableRead (zeroCopyBytes p.zcPages)

/-- The section of `write` that copies what fits. -/
def writeChunk (buf : List α) : PipeShared α × Nat :=
  let chunkLimit := min p.availableWrite buf.length
  let w := p.buffer.writeFrom (buf.take chunkLimit)
  ({ p with buffer := w.1 }, w.2)

/-- The section of `write_zerocopy` that queues pinned frames. -/
def accept (frames : List Nat) : PipeShared α × Nat :=
  let availablePages := p.availableWrite / PIPE_PAGE_SIZE
  let accepted := if p.readerCount = 0 then 0 else min availablePages frames.length
  ({ p with zcPages := p.zcPages ++ (frames.take accepted).map fun paddr =>
      ⟨paddr, 0, PIPE_PAGE_SIZE⟩ }, accepted)

/-- The section of `read` on the ring. -/
def readRing (len : Nat) : PipeShared α × List α :=
  let r := p.buffer.readInto (min p.buffer.availableRead len)
  ({ p with buffer := r.1 }, r.2)

def roundUpPage (size : Nat) : Nat := (size + PIPE_PAGE_SIZE - 1) / PIPE_PAGE_SIZE * PIPE_PAGE_SIZE

def setPipeSize (size : Nat) : Except LinuxError (PipeShared α) :=
  if 2 ^ 30 < size then .error .EINVAL
  else if MAX_PIPE_CAPACITY < size then .error .EPERM
  else
    let newCapacity := roundUpPage (if size = 0 then PIPE_PAGE_SIZE else size)
    if newCapacity < p.used then .error .EBUSY
    else (p.buffer.resize newCapacity).map fun buffer => { p with buffer }

end PipeShared

/-! ## The system -/

/-- A byte with the number of the `write` call it comes from, `none` for a donated page. -/
abbrev Item (β : Type) := Option Nat × β

structure WriteCall (α : Type) where
  call : Nat
  nonblocking : Bool
  size : Nat
  rest : List α

structure Donation where
  nonblocking : Bool
  /-- Pages still to be donated. -/
  rest : Nat

structure ReadCall (α : Type) where
  nonblocking : Bool
  /-- Bytes still wanted. -/
  rest : Nat
  got : List α
  /-- The copying path of `read_zerocopy`, which copies to user memory at its end. -/
  toUser : Bool

inductive Phase (α : Type) where
  | idle
  | writing (w : WriteCall α)
  | donating (d : Donation)
  | pinned (d : Donation) (frames : List Nat)
  | reading (r : ReadCall α)
  /-- Pages popped by `read` and not yet given back. -/
  | copying (r : ReadCall α) (pages : List ZeroCopyPage)
  /-- The ring was found empty. -/
  | stopping (r : ReadCall α)
  | gathering (nonblocking : Bool) (count : Nat)
  | mapping (pages : List ZeroCopyPage)
  | returning (mapped unread : List ZeroCopyPage)

/-- A call that needs a read end. -/
def Phase.reads {α : Type} : Phase α → Bool
  | .reading _ | .copying .. | .stopping _ | .gathering .. | .mapping _ | .returning .. => true
  | _ => false

/-- A call that needs a write end. -/
def Phase.writes {α : Type} : Phase α → Bool
  | .writing _ | .donating _ | .pinned .. => true
  | _ => false

/-- A `write` that returned after handing over `sent` bytes. -/
structure WriteReturn where
  call : Nat
  nonblocking : Bool
  size : Nat
  sent : Nat

structure System (τ β : Type) where
  pipe : PipeShared (Item β)
  phase : τ → Phase (Item β)
  sizes : List Nat
  donated : List Nat
  mapped : List Nat
  freed : List Nat
  accepted : List (Item β)
  delivered : List (Item β)
  returned : List (Item β)
  writes : List WriteReturn

inductive Action (τ β : Type) where
  | write (t : τ) (nonblocking : Bool) (buf : List β)
  | writeChunk (t : τ)
  | writeReturn (t : τ) (signal : Bool)
  | writeZerocopy (t : τ) (nonblocking : Bool) (pages : Nat)
  /-- Pinning succeeds for `frames`, and fails for the page after them when `failed`. -/
  | pin (t : τ) (frames : List Nat) (failed : Bool)
  | accept (t : τ)
  | writeZerocopyReturn (t : τ) (signal : Bool)
  | read (t : τ) (nonblocking : Bool) (len : Nat)
  | takePages (t : τ)
  | takeRing (t : τ)
  | readRetry (t : τ)
  /-- `copied`: the copy to user memory succeeded. -/
  | readReturn (t : τ) (signal copied : Bool)
  | readZerocopy (t : τ) (nonblocking : Bool) (count : Nat)
  | gather (t : τ)
  /-- The first `n` pages are mapped; if there are more, the next one failed. -/
  | remap (t : τ) (n : Nat)
  /-- `shootdown`: the TLB shootdown succeeded. -/
  | putBack (t : τ) (shootdown : Bool)
  | setPipeSize (size : Nat)
  | openEnd (reader : Bool)
  /-- The drop of a `PipeObject`. -/
  | closeEnd (reader : Bool)

namespace System

variable {τ β : Type} [DecidableEq τ] [Fintype τ] (content : Nat → Vector β PIPE_PAGE_SIZE)
  (s : System τ β)

/-- A donated page as items. -/
def items (paddr : Nat) : List (Item β) :=
  (content paddr).toList.map fun b => (none, b)

def bytesOf (pages : List ZeroCopyPage) : List (Item β) :=
  pageBytes (items content) pages

def setPhase (t : τ) (phase : Phase (Item β)) : System τ β :=
  { s with phase := Function.update s.phase t phase }

/-- One step of the system; `none` when the step is not possible. -/
def exec : Action τ β → Option (System τ β)
  | .write t nonblocking buf =>
    match s.phase t with
    | .idle =>
      if 0 < s.pipe.writerCount then
        let call := s.sizes.length
        some { s.setPhase t (.writing
          ⟨call, nonblocking, buf.length, buf.map fun b => (some call, b)⟩) with
          sizes := s.sizes ++ [buf.length] }
      else none
    | _ => none
  | .writeChunk t =>
    -- the check of the read end precedes the lock, so that the end may be closed by now
    match s.phase t with
    | .writing w =>
      if w.rest ≠ [] ∧ 0 < s.pipe.availableWrite then
        let c := s.pipe.writeChunk w.rest
        some { s.setPhase t (.writing { w with rest := w.rest.drop c.2 }) with
          pipe := c.1
          accepted := s.accepted ++ w.rest.take c.2 }
      else none
    | _ => none
  | .writeReturn t signal =>
    match s.phase t with
    | .writing w =>
      if w.rest = [] ∨ s.pipe.readerCount = 0 ∨
          s.pipe.availableWrite = 0 ∧ (w.nonblocking = true ∨ signal = true) then
        some { s.setPhase t .idle with
          writes := s.writes ++ [⟨w.call, w.nonblocking, w.size, w.size - w.rest.length⟩] }
      else none
    | _ => none
  | .writeZerocopy t nonblocking pages =>
    match s.phase t with
    | .idle =>
      if 0 < pages ∧ 0 < s.pipe.writerCount then
        some (s.setPhase t (.donating ⟨nonblocking, pages⟩))
      else none
    | _ => none
  | .pin t frames failed =>
    match s.phase t with
    | .donating d =>
      let pagesToPin := min (s.pipe.availableWrite / PIPE_PAGE_SIZE) d.rest
      if failed then
        if frames.length < pagesToPin then
          some { s.setPhase t .idle with
            donated := s.donated ++ frames
            freed := s.freed ++ frames }
        else none
      else if frames.length = pagesToPin ∧ 0 < pagesToPin then
        some { s.setPhase t (.pinned d frames) with donated := s.donated ++ frames }
      else none
    | _ => none
  | .accept t =>
    match s.phase t with
    | .pinned d frames =>
      let a := s.pipe.accept frames
      let phase := if d.rest - a.2 = 0 then .idle else .donating { d with rest := d.rest - a.2 }
      some { s.setPhase t phase with
        pipe := a.1
        freed := s.freed ++ frames.drop a.2
        accepted := s.accepted ++ (frames.take a.2).flatMap (items content) }
    | _ => none
  | .writeZerocopyReturn t signal =>
    match s.phase t with
    | .donating d =>
      if s.pipe.readerCount = 0 ∨
          s.pipe.availableWrite / PIPE_PAGE_SIZE = 0 ∧ (d.nonblocking = true ∨ signal = true) then
        some (s.setPhase t .idle)
      else none
    | _ => none
  | .read t nonblocking len =>
    match s.phase t with
    | .idle =>
      if 0 < s.pipe.readerCount then
        some (s.setPhase t (.reading ⟨nonblocking, len, [], false⟩))
      else none
    | _ => none
  | .takePages t =>
    match s.phase t with
    | .reading r =>
      if 0 < r.rest then
        let taken := splitPages s.pipe.zcPages r.rest
        let pages := taken.1 ++ taken.2.1.toList
        let bytes := bytesOf content pages
        some { s.setPhase t (.copying
            { r with rest := r.rest - zeroCopyBytes pages, got := r.got ++ bytes } taken.1) with
          pipe := { s.pipe with zcPages := taken.2.2 }
          delivered := s.delivered ++ bytes }
      else none
    | _ => none
  | .takeRing t =>
    match s.phase t with
    | .copying r pages =>
      -- the popped pages are given back before the ring is locked
      let s := { s with freed := s.freed ++ pages.map ZeroCopyPage.paddr }
      if r.rest = 0 then some (s.setPhase t (.reading r))
      else if s.pipe.buffer.availableRead = 0 then some (s.setPhase t (.stopping r))
      else
        let c := s.pipe.readRing r.rest
        some { s.setPhase t (.reading
            { r with rest := r.rest - c.2.length, got := r.got ++ c.2 }) with
          pipe := c.1
          delivered := s.delivered ++ c.2 }
    | _ => none
  | .readRetry t =>
    match s.phase t with
    | .stopping r => if r.got = [] then some (s.setPhase t (.reading r)) else none
    | _ => none
  | .readReturn t signal copied =>
    match s.phase t with
    | .reading r =>
      if r.rest = 0 then
        some { s.setPhase t .idle with
          returned := s.returned ++ if r.toUser && !copied then [] else r.got }
      else none
    | .stopping r =>
      if r.got ≠ [] ∨ s.pipe.writerCount = 0 ∨ r.nonblocking = true ∨ signal = true then
        some { s.setPhase t .idle with
          returned := s.returned ++ if r.toUser && !copied then [] else r.got }
      else none
    | _ => none
  | .readZerocopy t nonblocking count =>
    match s.phase t with
    | .idle =>
      if 0 < count ∧ 0 < s.pipe.readerCount ∧
          (s.pipe.zcPages ≠ [] ∨ s.pipe.buffer.availableRead ≠ 0) then
        some (s.setPhase t (.gathering nonblocking count))
      else none
    | _ => none
  | .gather t =>
    match s.phase t with
    | .gathering nonblocking count =>
      let g := gatherPages s.pipe.zcPages (count / PIPE_PAGE_SIZE)
      let phase :=
        if g.1 = [] then .reading ⟨nonblocking, min count 65536, [], true⟩ else .mapping g.1
      some { s.setPhase t phase with pipe := { s.pipe with zcPages := g.2 } }
    | _ => none
  | .remap t n =>
    match s.phase t with
    | .mapping pages =>
      if n ≤ pages.length then
        some { s.setPhase t (.returning (pages.take n) (pages.drop n)) with
          mapped := s.mapped ++ (pages.take n).map ZeroCopyPage.paddr
          delivered := s.delivered ++ bytesOf content (pages.take n) }
      else none
    | _ => none
  | .putBack t shootdown =>
    match s.phase t with
    | .returning mapped unread =>
      some { s.setPhase t .idle with
        pipe := { s.pipe with
          zcPages :=
            if s.pipe.readerCount = 0 then s.pipe.zcPages else unread ++ s.pipe.zcPages }
        freed := s.freed ++ if s.pipe.readerCount = 0 then unread.map ZeroCopyPage.paddr else []
        returned := s.returned ++ if shootdown then bytesOf content mapped else [] }
    | _ => none
  | .setPipeSize size =>
    match s.pipe.setPipeSize size with
    | .ok pipe => some { s with pipe }
    | .error _ => some s
  | .openEnd reader =>
    some { s with pipe :=
      if reader then { s.pipe with readerCount := s.pipe.readerCount + 1 }
      else { s.pipe with writerCount := s.pipe.writerCount + 1 } }
  | .closeEnd reader =>
    -- a call keeps the object it is on, so that the last end stays open during the call
    if reader then
      if 1 < s.pipe.readerCount ∨ s.pipe.readerCount = 1 ∧ ∀ t, (s.phase t).reads = false then
        some { s with pipe := { s.pipe with readerCount := s.pipe.readerCount - 1 } }
      else none
    else
      if 1 < s.pipe.writerCount ∨ s.pipe.writerCount = 1 ∧ ∀ t, (s.phase t).writes = false then
        some { s with pipe := { s.pipe with writerCount := s.pipe.writerCount - 1 } }
      else none

def start (pipe : PipeShared (Item β)) : System τ β :=
  ⟨pipe, fun _ => .idle, [], [], [], [], [], [], [], []⟩

/-- A new pipe or FIFO, before the first call. -/
def Initial : Prop := s = start .new ∨ s = start .newFifo

def Step : System τ β → Action τ β → System τ β → Prop := Computed (exec content)

end System

end PulseOS.Fd
