import PulseOS.Errno
import PulseOS.Lib.Arc
import PulseOS.Lib.Bitmap

/-!
# Descriptor tables

`FdTable` of `fd_table/table.rs`.  Descriptor `fd` has slot `fd % 64` of chunk `fd / 64`; beside the
slots the storage keeps a bitmap of the open descriptors and their number.  Storage and chunks are
both behind an `Arc` and copied on write.

`FdTable` here is what one table sees: its storage, whose chunk handles are addresses, and the heap
of chunks.  A function of `&mut self` is split where the source calls `Arc::make_mut` on the
storage: `…Early` is what it decides before (`Except.error` returns at once), the other part runs on
storage that belongs to this table alone.  `others c` is the number of handles on chunk `c` held by
other storages; a chunk is written in place only if this table holds the one handle on it.
-/

namespace PulseOS.Fd

open Arc Bitmap

def FD_LIMIT : Nat := 1048576

def FD_CHUNK_SIZE : Nat := 64

def MAX_CHUNKS : Nat := (FD_LIMIT + FD_CHUNK_SIZE - 1) / FD_CHUNK_SIZE

def USIZE_MAX : Nat := 2 ^ 64 - 1

structure FdFlags where
  cloexec : Bool
  nonblock : Bool
  path : Bool
  deriving DecidableEq, Repr

structure FdEntry (ω : Type) where
  object : ω
  flags : FdFlags
  deriving DecidableEq, Repr

def FdEntry.setCloexec {ω : Type} (entry : FdEntry ω) : FdEntry ω :=
  { entry with flags := { entry.flags with cloexec := true } }

structure FdChunk (ω : Type) where
  entries : Vector (Option (FdEntry ω)) FD_CHUNK_SIZE

/-- The contents of `FdTableStorage`; a chunk handle is the address of its chunk. -/
structure FdTableStorage where
  chunks : List (Option Nat)
  openFds : List (BitVec 64)
  count : Nat
  deriving DecidableEq, Repr

structure FdTable (ω : Type) where
  storage : FdTableStorage
  cells : Heap (FdChunk ω)

variable {ω : Type}

/-! ## Chunks -/

namespace FdChunk

def default : FdChunk ω := ⟨Vector.replicate FD_CHUNK_SIZE none⟩

variable (chunk : FdChunk ω)

def entry (bit : Nat) : Option (FdEntry ω) := chunk.entries[bit]?.join

def set (bit : Nat) (slot : Option (FdEntry ω)) : FdChunk ω :=
  ⟨chunk.entries.setIfInBounds bit slot⟩

def hasCloexec : Bool :=
  chunk.entries.toList.any fun slot => slot.any fun entry => entry.flags.cloexec

end FdChunk

/-! ## Storage -/

namespace FdTableStorage

def default : FdTableStorage := ⟨[], [], 0⟩

variable (s : FdTableStorage)

def isOpen (fd : Nat) : Bool :=
  (s.openFds.getD (fd / FD_CHUNK_SIZE) 0).getLsbD (fd % FD_CHUNK_SIZE)

/-- `while new_chunks_len <= chunk_idx { new_chunks_len = new_chunks_len.saturating_mul(2) }`. -/
def doubled : Nat → Nat → Nat → Nat
  | 0, len, _ => len
  | k + 1, len, chunkIdx =>
    if len ≤ chunkIdx then doubled k (min (len * 2) USIZE_MAX) chunkIdx else len

/-- `Vec::resize`. -/
def resize {α : Type} (l : List α) (len : Nat) (x : α) : List α :=
  l.take len ++ List.replicate (len - l.length) x

variable (chunkIdx : Nat)

/-- Room for `chunk_idx`; `none` is the `EMFILE` of `insert_at`. -/
def reserve : Option FdTableStorage :=
  if s.chunks.length ≤ chunkIdx then
    let len := min (doubled (chunkIdx + 1) (max 1 s.chunks.length) chunkIdx) MAX_CHUNKS
    if len ≤ chunkIdx then none
    else some { s with chunks := resize s.chunks len none, openFds := resize s.openFds len 0 }
  else some s

/-- The books of a slot that was filled. -/
def opened (bit : Nat) : FdTableStorage :=
  { s with
    count := min (s.count + 1) USIZE_MAX
    openFds := s.openFds.modify chunkIdx (· ||| (1#64 <<< bit)) }

/-- The books of a slot that was emptied. -/
def closed (bit : Nat) : FdTableStorage :=
  { s with
    count := s.count - 1
    openFds := s.openFds.modify chunkIdx (· &&& ~~~(1#64 <<< bit)) }

/-- The books of all slots of `mask` that were emptied. -/
def closedMask (mask : BitVec 64) : FdTableStorage :=
  { s with
    count := s.count - countOnes mask
    openFds := s.openFds.modify chunkIdx (· &&& ~~~mask) }

end FdTableStorage

namespace FdTable

/-! ## Lookup and allocation -/

section Lookup

variable (T : FdTable ω)

def get (fd : Nat) : Option (FdEntry ω) :=
  match T.storage.chunks[fd / FD_CHUNK_SIZE]? with
  | some (some c) => (T.cells.mem c).entry (fd % FD_CHUNK_SIZE)
  | _ => none

def len : Nat := T.storage.count

/-- The bitmap word that `next_available_fd` inspects: descriptors below `min_fd` count as open. -/
def searchWord (minFd wordIdx : Nat) : BitVec 64 :=
  let word := T.storage.openFds.getD wordIdx 0
  if wordIdx = minFd / FD_CHUNK_SIZE then word ||| ((1#64 <<< (minFd % FD_CHUNK_SIZE)) - 1#64)
  else word

/-- The search loop of `next_available_fd` over the words that are left. -/
def searchWords (T : FdTable ω) (minFd : Nat) : List Nat → Option Nat
  | [] => none
  | wordIdx :: rest =>
    let word := T.searchWord minFd wordIdx
    if word = BitVec.allOnes 64 then searchWords T minFd rest
    else
      let fd := wordIdx * FD_CHUNK_SIZE + trailingZeros (~~~word)
      if fd < FD_LIMIT then some fd else none

def nextAvailableFd (minFd : Nat) : Except LinuxError Nat :=
  let minWord := minFd / FD_CHUNK_SIZE
  let len := T.storage.openFds.length
  match T.searchWords minFd (List.range' minWord (len - minWord)) with
  | some fd => .ok fd
  | none =>
    let nextFd := max minFd (T.storage.chunks.length * FD_CHUNK_SIZE)
    if FD_LIMIT ≤ nextFd then .error .EMFILE else .ok nextFd

end Lookup

/-! ## Writing a chunk -/

variable (others : Nat → Nat)

/-- `*Arc::make_mut(&mut storage.chunks[chunk_idx]) = chunk`, the handle there being on `c`. -/
def editChunk (T : FdTable ω) (chunkIdx c : Nat) (chunk : FdChunk ω) : FdTable ω :=
  let e := T.cells.edit (others c + T.storage.chunks.count (some c)) c chunk
  { storage := { T.storage with chunks := T.storage.chunks.set chunkIdx (some e.2) }
    cells := e.1 }

/-- The chunk of a slot, allocated if there is none yet. -/
def ensureChunk (T : FdTable ω) (chunkIdx : Nat) : FdTable ω × Nat :=
  match T.storage.chunks[chunkIdx]? with
  | some (some c) => (T, c)
  | _ =>
    let a := T.cells.alloc FdChunk.default
    ({ storage := { T.storage with chunks := T.storage.chunks.set chunkIdx (some a.2) }
       cells := a.1 }, a.2)

/-! ## One descriptor -/

variable (T : FdTable ω) (fd : Nat)

def insertAtEarly : Except LinuxError Unit :=
  if FD_LIMIT ≤ fd then .error .EBADF else .ok ()

def insertAt (entry : FdEntry ω) : FdTable ω × Except LinuxError Unit :=
  let chunkIdx := fd / FD_CHUNK_SIZE
  let bit := fd % FD_CHUNK_SIZE
  match T.storage.reserve chunkIdx with
  | none => (T, .error .EMFILE)
  | some storage =>
    let (T, c) := ensureChunk { T with storage } chunkIdx
    let chunk := T.cells.mem c
    let T :=
      if (chunk.entry bit).isNone then { T with storage := T.storage.opened chunkIdx bit } else T
    (T.editChunk others chunkIdx c (chunk.set bit (some entry)), .ok ())

def removeEarly : Except (Option (FdEntry ω)) Unit :=
  if (T.get fd).isNone then .error none else .ok ()

def remove : FdTable ω × Option (FdEntry ω) :=
  let chunkIdx := fd / FD_CHUNK_SIZE
  let bit := fd % FD_CHUNK_SIZE
  match T.storage.chunks[chunkIdx]? with
  | some (some c) =>
    let chunk := T.cells.mem c
    let res := chunk.entry bit
    let T := T.editChunk others chunkIdx c (chunk.set bit none)
    (if res.isSome then { T with storage := T.storage.closed chunkIdx bit } else T, res)
  | _ => (T, none)

def getMutEarly : Except (Option (FdEntry ω)) Unit :=
  if (T.get fd).isNone then .error none else .ok ()

/-- `get_mut`, through which the caller writes `f` of the entry. -/
def getMut (f : FdEntry ω → FdEntry ω) : FdTable ω × Option (FdEntry ω) :=
  let chunkIdx := fd / FD_CHUNK_SIZE
  let bit := fd % FD_CHUNK_SIZE
  match T.storage.chunks[chunkIdx]? with
  | some (some c) =>
    let chunk := T.cells.mem c
    (T.editChunk others chunkIdx c (chunk.set bit ((chunk.entry bit).map f)), chunk.entry bit)
  | _ => (T, none)

/-! ## Close on exec -/

def takeCloexecEarly : Except (List (FdEntry ω)) Unit :=
  let hasCloexec := T.storage.chunks.any fun slot =>
    slot.any fun c => (T.cells.mem c).hasCloexec
  if hasCloexec then .ok () else .error []

/-- What the loop over the bits of one chunk carries. -/
structure Taking (ω : Type) where
  chunk : FdChunk ω
  storage : FdTableStorage
  removed : List (FdEntry ω)

def takeCloexecBit (chunkIdx : Nat) (st : Taking ω) (bit : Nat) : Taking ω :=
  match st.chunk.entry bit with
  | some entry =>
    if entry.flags.cloexec then
      { chunk := st.chunk.set bit none
        storage := st.storage.closed chunkIdx bit
        removed := st.removed ++ [entry] }
    else st
  | none => st

def takeCloexecChunk (st : FdTable ω × List (FdEntry ω)) (chunkIdx : Nat) :
    FdTable ω × List (FdEntry ω) :=
  let T := st.1
  match T.storage.chunks[chunkIdx]? with
  | some (some c) =>
    if (T.cells.mem c).hasCloexec then
      let taken := (List.range FD_CHUNK_SIZE).foldl (takeCloexecBit chunkIdx)
        ⟨T.cells.mem c, T.storage, st.2⟩
      (editChunk others { T with storage := taken.storage } chunkIdx c taken.chunk, taken.removed)
    else st
  | _ => st

def takeCloexecOnExec : FdTable ω × List (FdEntry ω) :=
  (List.range T.storage.chunks.length).foldl (takeCloexecChunk others) (T, [])

/-! ## Ranges -/

def fdRangeMask (firstBit lastBit : Nat) : BitVec 64 :=
  let fromFirst := BitVec.allOnes 64 <<< firstBit
  let throughLast :=
    if lastBit + 1 = FD_CHUNK_SIZE then BitVec.allOnes 64 else (1#64 <<< (lastBit + 1)) - 1#64
  fromFirst &&& throughLast

/-- The chunks that an inclusive range of descriptors touches. -/
structure FdRange where
  first : Nat
  last : Nat
  firstChunk : Nat
  lastChunk : Nat

/-- The first lines of `remove_range` and `set_cloexec_range`; `none` returns at once. -/
def range (first last : Nat) : Option FdRange :=
  let len := T.storage.chunks.length
  if last < first ∨ FD_LIMIT ≤ first ∨ len = 0 then none
  else
    let last := min last (FD_LIMIT - 1)
    let firstChunk := first / FD_CHUNK_SIZE
    if len ≤ firstChunk then none
    else some ⟨first, last, firstChunk, min (last / FD_CHUNK_SIZE) (len - 1)⟩

variable (r : FdRange)

def FdRange.mask (chunkIdx : Nat) : BitVec 64 :=
  let firstBit := if chunkIdx = r.firstChunk then r.first % FD_CHUNK_SIZE else 0
  let lastBit := if chunkIdx = r.lastChunk then r.last % FD_CHUNK_SIZE else FD_CHUNK_SIZE - 1
  fdRangeMask firstBit lastBit

/-- `first_chunk..=last_chunk`. -/
def FdRange.chunkIdxs : List Nat :=
  List.range' r.firstChunk (r.lastChunk + 1 - r.firstChunk)

def pending (chunkIdx : Nat) : BitVec 64 :=
  T.storage.openFds.getD chunkIdx 0 &&& r.mask chunkIdx

def removeRangeEarly (first last : Nat) : Except (List (FdEntry ω)) FdRange :=
  match T.range first last with
  | none => .error []
  | some r => if r.chunkIdxs.any fun i => T.pending r i != 0 then .ok r else .error []

/-- What the loop over the pending bits of one chunk carries. -/
structure Draining (ω : Type) where
  chunk : FdChunk ω
  removed : List (FdEntry ω)
  removedMask : BitVec 64

def removeBit (st : Draining ω) (bit : Nat) : Draining ω :=
  match st.chunk.entry bit with
  | some entry =>
    { chunk := st.chunk.set bit none
      removed := st.removed ++ [entry]
      removedMask := st.removedMask ||| (1#64 <<< bit) }
  | none => st

def removeRangeChunk (st : FdTable ω × List (FdEntry ω))
    (chunkIdx : Nat) : FdTable ω × List (FdEntry ω) :=
  let T := st.1
  let pending := T.pending r chunkIdx
  if pending = 0 then st
  else
    match T.storage.chunks[chunkIdx]? with
    | some (some c) =>
      let drained := (setBits pending).foldl removeBit ⟨T.cells.mem c, st.2, 0⟩
      let T := T.editChunk others chunkIdx c drained.chunk
      (if drained.removedMask ≠ 0 then
        { T with storage := T.storage.closedMask chunkIdx drained.removedMask } else T,
       drained.removed)
    | _ => st

def removeRange (T : FdTable ω) : FdTable ω × List (FdEntry ω) :=
  r.chunkIdxs.foldl (removeRangeChunk others r) (T, [])

/-- Whether `set_cloexec_range` has a flag to set in one chunk. -/
def changesChunk (chunkIdx : Nat) : Bool :=
  match T.storage.chunks[chunkIdx]? with
  | some (some c) =>
    (setBits (T.pending r chunkIdx)).any fun bit =>
      ((T.cells.mem c).entry bit).any fun entry => !entry.flags.cloexec
  | _ => false

def setCloexecRangeEarly (first last : Nat) : Except Unit FdRange :=
  match T.range first last with
  | none => .error ()
  | some r => if r.chunkIdxs.any (T.changesChunk r) then .ok r else .error ()

def setCloexecBit (chunk : FdChunk ω) (bit : Nat) : FdChunk ω :=
  match chunk.entry bit with
  | some entry => chunk.set bit (some entry.setCloexec)
  | none => chunk

def setCloexecRangeChunk (T : FdTable ω) (chunkIdx : Nat) : FdTable ω :=
  let pending := T.pending r chunkIdx
  if pending = 0 then T
  else
    match T.storage.chunks[chunkIdx]? with
    | some (some c) =>
      T.editChunk others chunkIdx c ((setBits pending).foldl setCloexecBit (T.cells.mem c))
    | _ => T

def setCloexecRange (T : FdTable ω) : FdTable ω :=
  r.chunkIdxs.foldl (setCloexecRangeChunk others r) T

end FdTable

end PulseOS.Fd
