import PulseOS.Fd.Pipe

/-!
# What the steps of a pipe do

`Moves content s a s'` says what action `a` does, with the ring as the list of its bytes.  Every
step from a `Valid` state is such a move and leads to a `Valid` state (`Step.moves`, `Moves.valid`),
so that an invariant of the pipe is a property that moves keep (`Reachable.moves_invariant`).
-/

namespace PulseOS.Fd

open Transition PipeRingBuffer Function ZeroCopyPage

/-! ## Sections -/

@[simp] theorem zeroCopyBytes_nil : zeroCopyBytes [] = 0 := rfl

@[simp] theorem zeroCopyBytes_cons (page : ZeroCopyPage) (pages : List ZeroCopyPage) :
    zeroCopyBytes (page :: pages) = page.len + zeroCopyBytes pages := by
  simp [zeroCopyBytes]

@[simp] theorem zeroCopyBytes_append (pages pages' : List ZeroCopyPage) :
    zeroCopyBytes (pages ++ pages') = zeroCopyBytes pages + zeroCopyBytes pages' := by
  simp [zeroCopyBytes]

variable {α : Type} (content : Nat → List α)

@[simp] theorem pageBytes_nil : pageBytes content [] = [] := rfl

@[simp] theorem pageBytes_cons (page : ZeroCopyPage)
    (pages : List ZeroCopyPage) :
    pageBytes content (page :: pages) = page.bytes content ++ pageBytes content pages := by
  simp [pageBytes]

@[simp] theorem pageBytes_append (pages pages' : List ZeroCopyPage) :
    pageBytes content (pages ++ pages') = pageBytes content pages ++ pageBytes content pages' := by
  simp [pageBytes]

theorem pageBytes_eq_nil {content : Nat → List α} {pages : List ZeroCopyPage}
    (h : zeroCopyBytes pages = 0) : pageBytes content pages = [] := by
  induction pages with
  | nil => rfl
  | cons page pages ih =>
    rw [zeroCopyBytes_cons] at h
    rw [pageBytes_cons, ih (by omega), bytes, show page.len = 0 by omega]
    rfl

theorem ZeroCopyPage.bytes_split (page : ZeroCopyPage) {n : Nat}
    (h : n ≤ page.len) :
    ({ page with len := n } : ZeroCopyPage).bytes content ++
      ({ page with offset := page.offset + n, len := page.len - n } : ZeroCopyPage).bytes content =
      page.bytes content := by
  obtain ⟨k, hk⟩ : ∃ k, page.len = n + k := ⟨page.len - n, by omega⟩
  simp only [bytes, hk, Nat.add_sub_cancel_left, List.take_add, List.drop_drop]

variable (zc : List ZeroCopyPage)

/-- What `splitPages` takes and leaves. -/
structure Split (n : Nat) (popped : List ZeroCopyPage)
    (part : Option ZeroCopyPage) (left : List ZeroCopyPage) : Prop where
  bytes : ∀ {α : Type} (content : Nat → List α),
    pageBytes content (popped ++ part.toList) ++ pageBytes content left = pageBytes content zc
  count : zeroCopyBytes (popped ++ part.toList) + zeroCopyBytes left = zeroCopyBytes zc
  frames : popped.map paddr ++ left.map paddr = zc.map paddr
  exhausted : zeroCopyBytes (popped ++ part.toList) < n → left = []

theorem splitPages_spec (n : Nat) :
    Split zc n (splitPages zc n).1 (splitPages zc n).2.1 (splitPages zc n).2.2 := by
  induction zc generalizing n with
  | nil => exact ⟨fun _ => rfl, rfl, rfl, fun _ => rfl⟩
  | cons page zc ih =>
    unfold splitPages
    split
    · rename_i hzero
      subst hzero
      exact ⟨fun _ => rfl, by simp, rfl, fun h => absurd h (Nat.not_lt_zero _)⟩
    · split
      · rename_i hle
        have hrest := ih (n - page.len)
        refine ⟨fun content => ?_, ?_, ?_, fun hlt => hrest.exhausted ?_⟩
        · rw [pageBytes_cons, ← hrest.bytes content]
          simp
        · have hcount := hrest.count
          simp only [List.cons_append, zeroCopyBytes_cons]
          omega
        · simp only [List.map_cons, List.cons_append, hrest.frames]
        · simp only [List.cons_append, zeroCopyBytes_cons] at hlt
          omega
      · rename_i hlt
        refine ⟨fun content => ?_, ?_, rfl, fun hless => ?_⟩
        · have hsplit := page.bytes_split content (n := n) (by omega)
          simp only [List.nil_append, Option.toList_some, pageBytes_cons, pageBytes_nil,
            List.append_nil, ← hsplit, List.append_assoc]
        · simp only [List.nil_append, Option.toList_some, zeroCopyBytes_cons, zeroCopyBytes_nil]
          omega
        · simp at hless

theorem gatherPages_append (n : Nat) : (gatherPages zc n).1 ++ (gatherPages zc n).2 = zc := by
  induction zc generalizing n with
  | nil => cases n <;> rfl
  | cons page zc ih =>
    cases n with
    | zero => rfl
    | succ n =>
      unfold gatherPages
      split
      · simp only [List.cons_append, ih]
      · rfl

namespace PipeShared

variable {α : Type} {p : PipeShared α}

section

variable (h : Holds p.buffer p.buffer.unread)

include h

theorem availableWrite_eq :
    p.availableWrite = p.buffer.capacity - (p.buffer.unread.length + zeroCopyBytes p.zcPages) := by
  unfold availableWrite pipeAvailableWriteBytes
  rw [h.availableRead]

theorem used_eq : p.used = p.buffer.unread.length + zeroCopyBytes p.zcPages := by
  unfold used
  rw [h.availableRead]

theorem writeChunk_spec (buf : List α) :
    ∃ buffer, p.writeChunk buf = ({ p with buffer }, min p.availableWrite buf.length) ∧
      Holds buffer (p.buffer.unread ++ buf.take (min p.availableWrite buf.length)) ∧
      buffer.capacity = p.buffer.capacity := by
  obtain ⟨hholds, hcount, hcap⟩ := writeFrom_spec h (buf.take (min p.availableWrite buf.length))
  have hroom : min (p.buffer.capacity - p.buffer.unread.length)
      (min p.availableWrite buf.length) = min p.availableWrite buf.length := by
    rw [availableWrite_eq h]
    omega
  rw [List.take_take, hroom] at hholds
  rw [List.length_take, Nat.min_eq_left (Nat.min_le_right _ _), hroom] at hcount
  exact ⟨_, Prod.ext rfl hcount, hholds, hcap⟩

theorem readRing_spec (len : Nat) :
    ∃ buffer, p.readRing len = ({ p with buffer }, p.buffer.unread.take len) ∧
      Holds buffer (p.buffer.unread.drop len) ∧ buffer.capacity = p.buffer.capacity := by
  obtain ⟨hholds, htaken, hcap⟩ := readInto_spec h (min p.buffer.availableRead len)
  have hmin : min p.buffer.availableRead len = min len p.buffer.unread.length := by
    rw [h.availableRead, Nat.min_comm]
  rw [hmin, ← List.drop_eq_drop_min] at hholds
  rw [hmin, ← List.take_eq_take_min] at htaken
  refine ⟨_, Prod.ext ?_ ?_, hholds, by rw [← hcap, hmin]⟩
  · simp only [readRing, hmin]
  · simp only [readRing, hmin, htaken]

omit h in
theorem le_roundUpPage (size : Nat) : size ≤ roundUpPage size := by
  unfold roundUpPage PIPE_PAGE_SIZE
  omega

theorem setPipeSize_spec {size : Nat} {p' : PipeShared α} (hset : p.setPipeSize size = .ok p') :
    ∃ buffer, p' = { p with buffer } ∧ Holds buffer p.buffer.unread ∧
      p.used ≤ buffer.capacity ∧ size ≤ buffer.capacity := by
  unfold setPipeSize at hset
  split at hset
  · cases hset
  · split at hset
    · cases hset
    · have hpos : 0 < if size = 0 then PIPE_PAGE_SIZE else size := by
        unfold PIPE_PAGE_SIZE
        split <;> omega
      have hsize : size ≤ if size = 0 then PIPE_PAGE_SIZE else size := by split <;> omega
      simp only at hset
      generalize (if size = 0 then PIPE_PAGE_SIZE else size) = asked at *
      have hround := le_roundUpPage asked
      split at hset
      · cases hset
      · rename_i hfits
        rw [used_eq h] at hfits
        obtain ⟨buffer, hresize, hholds, hcap⟩ := resize_spec h
          (Nat.lt_of_lt_of_le hpos hround) (show p.buffer.unread.length ≤ _ by omega)
        rw [hresize] at hset
        cases hset
        rw [used_eq h]
        exact ⟨buffer, rfl, hholds, by omega, by omega⟩

end

theorem accept_spec (p : PipeShared α) (frames : List Nat) : (p.accept frames).2 ≤ frames.length ∧
      (p.accept frames).2 * PIPE_PAGE_SIZE ≤ p.availableWrite := by
  unfold accept
  split
  · simp
  · refine ⟨Nat.min_le_right _ _, ?_⟩
    calc min (p.availableWrite / PIPE_PAGE_SIZE) frames.length * PIPE_PAGE_SIZE
        ≤ p.availableWrite / PIPE_PAGE_SIZE * PIPE_PAGE_SIZE :=
          Nat.mul_le_mul_right _ (Nat.min_le_left _ _)
      _ ≤ p.availableWrite := Nat.div_mul_le_self _ _

end PipeShared

namespace System

variable {τ β : Type}

def ring (s : System τ β) : List (Item β) := s.pipe.buffer.unread

structure Valid (s : System τ β) : Prop where
  holds : Holds s.pipe.buffer s.ring
  /-- A read end stays open while it is read from. -/
  reader : ∀ t, (s.phase t).reads = true → 0 < s.pipe.readerCount

theorem Initial.valid {s : System τ β} (h : Initial s) : Valid s := by
  have hnew : Holds (PipeRingBuffer.new DEFAULT_PIPE_CAPACITY : PipeRingBuffer (Item β)) [] :=
    holds_new (by decide)
  rcases h with rfl | rfl
  · exact ⟨hnew.self, nofun⟩
  · exact ⟨hnew.self, nofun⟩

/-- Pages queued by `write_zerocopy`. -/
def donatedPages (frames : List Nat) : List ZeroCopyPage :=
  frames.map fun paddr => ⟨paddr, 0, PIPE_PAGE_SIZE⟩

theorem zeroCopyBytes_donatedPages (frames : List Nat) :
    zeroCopyBytes (donatedPages frames) = frames.length * PIPE_PAGE_SIZE := by
  simp [zeroCopyBytes, donatedPages, Function.comp_def]

variable [DecidableEq τ] (content : Nat → Vector β PIPE_PAGE_SIZE) (s : System τ β)

inductive Moves : Action τ β → System τ β → Prop
  | write {t : τ} {nonblocking : Bool} {buf : List β} (hphase : s.phase t = .idle) :
      Moves (.write t nonblocking buf) { s with
        phase := update s.phase t (.writing
          ⟨s.sizes.length, nonblocking, buf.length, buf.map fun b => (some s.sizes.length, b)⟩)
        sizes := s.sizes ++ [buf.length] }
  | writeChunk {t : τ} {w : WriteCall (Item β)} {n : Nat} {buffer : PipeRingBuffer (Item β)}
      (hphase : s.phase t = .writing w) (hrest : w.rest ≠ []) (hroom : 0 < s.pipe.availableWrite)
      (hn : n = min s.pipe.availableWrite w.rest.length)
      (hring : Holds buffer (s.ring ++ w.rest.take n))
      (hcap : buffer.capacity = s.pipe.buffer.capacity) : Moves (.writeChunk t) { s with
        pipe := { s.pipe with buffer }
        phase := update s.phase t (.writing { w with rest := w.rest.drop n })
        accepted := s.accepted ++ w.rest.take n }
  | writeReturn {t : τ} {signal : Bool} {w : WriteCall (Item β)} (hphase : s.phase t = .writing w) :
      Moves (.writeReturn t signal) { s with
        phase := update s.phase t .idle
        writes := s.writes ++ [⟨w.call, w.nonblocking, w.size, w.size - w.rest.length⟩] }
  | writeZerocopy {t : τ} {nonblocking : Bool} {pages : Nat} (hphase : s.phase t = .idle) :
      Moves (.writeZerocopy t nonblocking pages) { s with
        phase := update s.phase t (.donating ⟨nonblocking, pages⟩) }
  | pinFailed {t : τ} {frames : List Nat} {d : Donation} (hphase : s.phase t = .donating d) :
      Moves (.pin t frames true) { s with
        phase := update s.phase t .idle
        donated := s.donated ++ frames
        freed := s.freed ++ frames }
  | pin {t : τ} {frames : List Nat} {d : Donation} (hphase : s.phase t = .donating d) :
      Moves (.pin t frames false) { s with
        phase := update s.phase t (.pinned d frames)
        donated := s.donated ++ frames }
  | accept {t : τ} {d : Donation} {frames : List Nat} {n : Nat} {phase : Phase (Item β)}
      (hphase : s.phase t = .pinned d frames) (hle : n ≤ frames.length)
      (hroom : n * PIPE_PAGE_SIZE ≤ s.pipe.availableWrite)
      (hnext : phase = .idle ∨ ∃ d', phase = .donating d') : Moves (.accept t) { s with
        pipe := { s.pipe with zcPages := s.pipe.zcPages ++ donatedPages (frames.take n) }
        phase := update s.phase t phase
        freed := s.freed ++ frames.drop n
        accepted := s.accepted ++ (frames.take n).flatMap (items content) }
  | writeZerocopyReturn {t : τ} {signal : Bool} {d : Donation}
      (hphase : s.phase t = .donating d) : Moves (.writeZerocopyReturn t signal) { s with
        phase := update s.phase t .idle }
  | read {t : τ} {nonblocking : Bool} {len : Nat} (hphase : s.phase t = .idle)
      (hopen : 0 < s.pipe.readerCount) : Moves (.read t nonblocking len) { s with
        phase := update s.phase t (.reading ⟨nonblocking, len, [], false⟩) }
  | takePages {t : τ} {r : ReadCall (Item β)} {popped left : List ZeroCopyPage}
      {part : Option ZeroCopyPage} (hphase : s.phase t = .reading r)
      (hsplit : Split s.pipe.zcPages r.rest popped part left) : Moves (.takePages t) { s with
        pipe := { s.pipe with zcPages := left }
        phase := update s.phase t (.copying { r with
            rest := r.rest - zeroCopyBytes (popped ++ part.toList)
            got := r.got ++ bytesOf content (popped ++ part.toList) } popped)
        delivered := s.delivered ++ bytesOf content (popped ++ part.toList) }
  /-- The buffer is full, or the ring is empty. -/
  | leaveRing {t : τ} {r : ReadCall (Item β)} {pages : List ZeroCopyPage} {phase : Phase (Item β)}
      (hphase : s.phase t = .copying r pages)
      (hnext : phase = .reading r ∨ phase = .stopping r) : Moves (.takeRing t) { s with
        phase := update s.phase t phase
        freed := s.freed ++ pages.map paddr }
  | takeRing {t : τ} {r : ReadCall (Item β)} {pages : List ZeroCopyPage}
      {buffer : PipeRingBuffer (Item β)} (hphase : s.phase t = .copying r pages)
      (hrest : r.rest ≠ 0) (hsome : s.ring ≠ [])
      (hring : Holds buffer (s.ring.drop r.rest))
      (hcap : buffer.capacity = s.pipe.buffer.capacity) : Moves (.takeRing t) { s with
        pipe := { s.pipe with buffer }
        phase := update s.phase t (.reading { r with
            rest := r.rest - (s.ring.take r.rest).length
            got := r.got ++ s.ring.take r.rest })
        freed := s.freed ++ pages.map paddr
        delivered := s.delivered ++ s.ring.take r.rest }
  | readRetry {t : τ} {r : ReadCall (Item β)} (hphase : s.phase t = .stopping r) :
      Moves (.readRetry t) { s with
        phase := update s.phase t (.reading r) }
  | readReturn {t : τ} {signal copied : Bool} {r : ReadCall (Item β)}
      (hphase : s.phase t = .reading r ∨ s.phase t = .stopping r) :
      Moves (.readReturn t signal copied) { s with
        phase := update s.phase t .idle
        returned := s.returned ++ if r.toUser && !copied then [] else r.got }
  | readZerocopy {t : τ} {nonblocking : Bool} {count : Nat} (hphase : s.phase t = .idle)
      (hopen : 0 < s.pipe.readerCount) : Moves (.readZerocopy t nonblocking count) { s with
        phase := update s.phase t (.gathering nonblocking count) }
  | gatherNone {t : τ} {nonblocking : Bool} {count : Nat}
      (hphase : s.phase t = .gathering nonblocking count) : Moves (.gather t) { s with
        phase := update s.phase t (.reading ⟨nonblocking, min count 65536, [], true⟩) }
  | gather {t : τ} {nonblocking : Bool} {count : Nat} {pages left : List ZeroCopyPage}
      (hphase : s.phase t = .gathering nonblocking count)
      (hpages : pages ++ left = s.pipe.zcPages) : Moves (.gather t) { s with
        pipe := { s.pipe with zcPages := left }
        phase := update s.phase t (.mapping pages) }
  | remap {t : τ} {n : Nat} {pages : List ZeroCopyPage} (hphase : s.phase t = .mapping pages)
      (hn : n ≤ pages.length) : Moves (.remap t n) { s with
        phase := update s.phase t (.returning (pages.take n) (pages.drop n))
        mapped := s.mapped ++ (pages.take n).map paddr
        delivered := s.delivered ++ bytesOf content (pages.take n) }
  | putBack {t : τ} {shootdown : Bool} {mapped unread : List ZeroCopyPage}
      (hphase : s.phase t = .returning mapped unread) : Moves (.putBack t shootdown) { s with
        pipe := { s.pipe with zcPages := unread ++ s.pipe.zcPages }
        phase := update s.phase t .idle
        returned := s.returned ++ if shootdown then bytesOf content mapped else [] }
  | setPipeSize {size : Nat} {buffer : PipeRingBuffer (Item β)} (hring : Holds buffer s.ring)
      (hcap : s.pipe.used ≤ buffer.capacity) (hsize : size ≤ buffer.capacity) :
      Moves (.setPipeSize size) { s with pipe := { s.pipe with buffer } }
  | setPipeSizeFailed {size : Nat} : Moves (.setPipeSize size) s
  | openEnd {reader : Bool} {readerCount writerCount : Nat}
      (hreaders : s.pipe.readerCount ≤ readerCount) : Moves (.openEnd reader)
        { s with pipe := { s.pipe with readerCount, writerCount } }
  | closeEnd {reader : Bool} {readerCount writerCount : Nat}
      (hreaders : ∀ t, (s.phase t).reads = true → 0 < readerCount) : Moves (.closeEnd reader)
        { s with pipe := { s.pipe with readerCount, writerCount } }

variable {content : Nat → Vector β PIPE_PAGE_SIZE} {s s' : System τ β} {a : Action τ β}

theorem reader_update {readerCount : Nat} {t : τ} {phase : Phase (Item β)}
    (h : ∀ t, (s.phase t).reads = true → 0 < readerCount) (ht : phase.reads = true → 0 < readerCount)
    (u : τ) (hu : (update s.phase t phase u).reads = true) : 0 < readerCount := by
  by_cases hut : u = t
  · rw [hut, update_self] at hu
    exact ht hu
  · rw [update_of_ne hut] at hu
    exact h u hu

theorem Moves.valid (hv : Valid s) (h : Moves content s a s') : Valid s' := by
  have hopen : ∀ {t : τ} {phase : Phase (Item β)}, s.phase t = phase → phase.reads = true →
      0 < s.pipe.readerCount := fun hphase hreads => hv.reader _ (by rw [hphase, hreads])
  cases h with
  | write | writeReturn | writeZerocopy | pinFailed | pin | writeZerocopyReturn | readReturn =>
    exact ⟨hv.holds, reader_update hv.reader nofun⟩
  | writeChunk _ _ _ _ hring =>
    exact ⟨hring.self, reader_update hv.reader nofun⟩
  | accept _ _ _ hnext =>
    refine ⟨hv.holds, reader_update hv.reader fun h => ?_⟩
    rcases hnext with rfl | ⟨d', rfl⟩ <;> cases h
  | read _ hreader | readZerocopy _ hreader =>
    exact ⟨hv.holds, reader_update hv.reader fun _ => hreader⟩
  | takePages hphase | leaveRing hphase | readRetry hphase | gatherNone hphase | gather hphase
  | remap hphase =>
    exact ⟨hv.holds, reader_update hv.reader fun _ => hopen hphase rfl⟩
  | takeRing hphase _ _ hring =>
    exact ⟨hring.self, reader_update hv.reader fun _ => hopen hphase rfl⟩
  | putBack => exact ⟨hv.holds, reader_update hv.reader nofun⟩
  | setPipeSize hring => exact ⟨hring.self, hv.reader⟩
  | setPipeSizeFailed => exact hv
  | openEnd hreaders => exact ⟨hv.holds, fun t ht => Nat.lt_of_lt_of_le (hv.reader t ht) hreaders⟩
  | closeEnd hreaders => exact ⟨hv.holds, hreaders⟩

variable [Fintype τ]

theorem Step.moves (hv : Valid s) (h : Step content s a s') : Moves content s a s' := by
  have hread : s.pipe.buffer.availableRead = s.ring.length := hv.holds.availableRead
  unfold Step Computed exec at h
  split at h
  case h_1 t nonblocking buf =>
    split at h
    · rename_i hphase
      split at h
      · cases h
        exact .write hphase
      · cases h
    · cases h
  case h_2 t =>
    split at h
    · rename_i w hphase
      split at h
      · rename_i hcond
        obtain ⟨buffer, hchunk, hring, hcap⟩ := s.pipe.writeChunk_spec hv.holds w.rest
        rw [hchunk] at h
        cases h
        exact .writeChunk hphase hcond.1 hcond.2 rfl hring hcap
      · cases h
    · cases h
  case h_3 t signal =>
    split at h
    · rename_i w hphase
      split at h
      · cases h
        exact .writeReturn hphase
      · cases h
    · cases h
  case h_4 t nonblocking pages =>
    split at h
    · rename_i hphase
      split at h
      · cases h
        exact .writeZerocopy hphase
      · cases h
    · cases h
  case h_5 t frames failed =>
    split at h
    · rename_i d hphase
      simp only at h
      split at h
      · rename_i hfailed
        subst hfailed
        split at h
        · cases h
          exact .pinFailed hphase
        · cases h
      · rename_i hfailed
        obtain rfl : failed = false := by simpa using hfailed
        split at h
        · cases h
          exact .pin hphase
        · cases h
    · cases h
  case h_6 t =>
    split at h
    · rename_i d frames hphase
      cases h
      obtain ⟨hle, hroom⟩ := s.pipe.accept_spec frames
      refine .accept hphase hle hroom ?_
      split
      · exact .inl rfl
      · exact .inr ⟨_, rfl⟩
    · cases h
  case h_7 t signal =>
    split at h
    · rename_i d hphase
      split at h
      · cases h
        exact .writeZerocopyReturn hphase
      · cases h
    · cases h
  case h_8 t nonblocking len =>
    split at h
    · rename_i hphase
      split at h
      · rename_i hopen
        cases h
        exact .read hphase hopen
      · cases h
    · cases h
  case h_9 t =>
    split at h
    · rename_i r hphase
      split at h
      · cases h
        exact .takePages hphase (splitPages_spec _ _)
      · cases h
    · cases h
  case h_10 t =>
    split at h
    · rename_i r pages hphase
      simp only at h
      split at h
      · cases h
        exact .leaveRing hphase (.inl rfl)
      · rename_i hrest
        split at h
        · cases h
          exact .leaveRing hphase (.inr rfl)
        · rename_i hsome
          obtain ⟨buffer, hchunk, hring, hcap⟩ := s.pipe.readRing_spec hv.holds r.rest
          rw [hchunk] at h
          cases h
          refine .takeRing hphase hrest (fun hnil => hsome ?_) hring hcap
          rw [hread, hnil, List.length_nil]
    · cases h
  case h_11 t =>
    split at h
    · rename_i r hphase
      split at h
      · cases h
        exact .readRetry hphase
      · cases h
    · cases h
  case h_12 t signal copied =>
    split at h
    · rename_i r hphase
      split at h
      · cases h
        exact .readReturn (.inl hphase)
      · cases h
    · rename_i r hphase
      split at h
      · cases h
        exact .readReturn (.inr hphase)
      · cases h
    · cases h
  case h_13 t nonblocking count =>
    split at h
    · rename_i hphase
      split at h
      · rename_i hcond
        cases h
        exact .readZerocopy hphase hcond.2.1
      · cases h
    · cases h
  case h_14 t =>
    split at h
    · rename_i nonblocking count hphase
      have hpages := gatherPages_append s.pipe.zcPages (count / PIPE_PAGE_SIZE)
      simp only at h
      split at h
      · rename_i hnone
        rw [hnone, List.nil_append] at hpages
        rw [hpages] at h
        cases h
        exact .gatherNone hphase
      · cases h
        exact .gather hphase hpages
    · cases h
  case h_15 t n =>
    split at h
    · rename_i pages hphase
      split at h
      · rename_i hn
        cases h
        exact .remap hphase hn
      · cases h
    · cases h
  case h_16 t shootdown =>
    split at h
    · rename_i mapped unread hphase
      have hopen : s.pipe.readerCount ≠ 0 := Nat.ne_of_gt (hv.reader t (by rw [hphase]; rfl))
      rw [if_neg hopen, if_neg hopen, List.append_nil] at h
      cases h
      exact .putBack hphase
    · cases h
  case h_17 size =>
    split at h
    · rename_i pipe hset
      obtain ⟨buffer, rfl, hring, hcap, hsize⟩ := PipeShared.setPipeSize_spec hv.holds hset
      cases h
      exact .setPipeSize hring hcap hsize
    · cases h
      exact .setPipeSizeFailed
  case h_18 reader =>
    cases reader
    · cases h
      exact .openEnd (Nat.le_refl _)
    · cases h
      exact .openEnd (Nat.le_succ _)
  case h_19 reader =>
    cases reader
    · rw [if_neg (by simp)] at h
      split at h
      · cases h
        exact .closeEnd hv.reader
      · cases h
    · rw [if_pos rfl] at h
      split at h
      · rename_i hcond
        cases h
        refine .closeEnd fun t ht => ?_
        rcases hcond with hmany | ⟨_, hnone⟩
        · exact Nat.sub_pos_of_lt hmany
        · rw [hnone t] at ht
          cases ht
      · cases h

/-- **The invariant rule for pipes**: what holds of a new pipe and what moves keep holds throughout
a run. -/
theorem moves_invariant {ok : System τ β → Action τ β → Prop} {I : System τ β → Prop}
    (hr : Reachable Initial (Guarded ok (Step content)) s) (h0 : ∀ s, Initial s → I s)
    (hstep : ∀ s a s', Valid s → I s → ok s a → Moves content s a s' → I s') : Valid s ∧ I s := by
  refine hr.invariant (I := fun s => Valid s ∧ I s) (fun s hs => ⟨hs.valid, h0 s hs⟩) ?_
  intro s a s' hi hs
  have hm := Step.moves hi.1 hs.2
  exact ⟨hm.valid hi.1, hstep s a s' hi.1 hi.2 hs.1 hm⟩

end System

end PulseOS.Fd
