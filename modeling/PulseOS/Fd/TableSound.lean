import PulseOS.Fd.Table

/-!
# A descriptor table is a finite map

`Sound T`: bitmap, counter and slots of a table say the same.  `Frame`: chunks that another storage
holds are left alone.
-/

namespace PulseOS.Fd

open Arc Bitmap List BitVec

variable {ω : Type}

/-! ## Slots and bits -/

namespace FdChunk

@[simp] theorem entry_default (bit : Nat) : (default : FdChunk ω).entry bit = none := by
  unfold entry default
  rw [Vector.getElem?_replicate]
  split <;> rfl

theorem entry_set (chunk : FdChunk ω) {bit : Nat} (hbit : bit < FD_CHUNK_SIZE)
    (slot : Option (FdEntry ω)) (b : Nat) :
    (chunk.set bit slot).entry b = if b = bit then slot else chunk.entry b := by
  unfold entry set
  rw [Vector.getElem?_setIfInBounds]
  split
  · rename_i h
    subst h
    simp
  · rename_i h
    rw [if_neg (Ne.symm h)]

theorem hasCloexec_iff (chunk : FdChunk ω) :
    chunk.hasCloexec = true ↔ ∃ bit, (chunk.entry bit).any (·.flags.cloexec) = true := by
  unfold hasCloexec
  rw [any_eq_true]
  constructor
  · rintro ⟨slot, hmem, hslot⟩
    obtain ⟨bit, hbit⟩ := mem_iff_getElem?.mp hmem
    refine ⟨bit, ?_⟩
    unfold entry
    rw [← Vector.getElem?_toList, hbit]
    exact hslot
  · rintro ⟨bit, hbit⟩
    unfold entry at hbit
    rw [← Vector.getElem?_toList] at hbit
    cases hslot : chunk.entries.toList[bit]? with
    | none =>
      rw [hslot] at hbit
      cases hbit
    | some slot =>
      rw [hslot] at hbit
      exact ⟨slot, mem_of_getElem? hslot, hbit⟩

end FdChunk

theorem mod_lt_chunk (fd : Nat) : fd % FD_CHUNK_SIZE < FD_CHUNK_SIZE := Nat.mod_lt fd (by decide)

namespace FdTableStorage

variable (s : FdTableStorage)

theorem isOpen_modify (chunkIdx count : Nat) (f : BitVec 64 → BitVec 64) (fd : Nat) :
    isOpen { s with openFds := s.openFds.modify chunkIdx f, count } fd =
      if fd / FD_CHUNK_SIZE = chunkIdx ∧ chunkIdx < s.openFds.length then
        (f (s.openFds.getD chunkIdx 0)).getLsbD (fd % FD_CHUNK_SIZE)
      else s.isOpen fd := by
  unfold isOpen
  by_cases hidx : fd / FD_CHUNK_SIZE = chunkIdx
  · subst hidx
    by_cases hlt : fd / FD_CHUNK_SIZE < s.openFds.length
    · simp [hlt]
    · simp [hlt]
  · simp [hidx, Ne.symm hidx]

theorem isOpen_of_ge {s : FdTableStorage} {fd : Nat}
    (h : s.openFds.length ≤ fd / FD_CHUNK_SIZE) : s.isOpen fd = false := by
  simp [isOpen, getD_eq_getElem?_getD, List.getElem?_eq_none h]

theorem isOpen_opened {chunkIdx bit : Nat} (hidx : chunkIdx < s.openFds.length)
    (hbit : bit < FD_CHUNK_SIZE) (fd : Nat) : (s.opened chunkIdx bit).isOpen fd =
      (s.isOpen fd || decide (fd / FD_CHUNK_SIZE = chunkIdx ∧ fd % FD_CHUNK_SIZE = bit)) := by
  unfold opened
  rw [isOpen_modify]
  split
  · rename_i h
    obtain ⟨rfl, -⟩ := h
    rw [getLsbD_set (w := 64) _ hbit]
    simp [isOpen]
  · rename_i h
    have : fd / FD_CHUNK_SIZE ≠ chunkIdx := fun he => h ⟨he, hidx⟩
    simp [this]

theorem isOpen_closedMask (chunkIdx : Nat) (mask : BitVec 64) (fd : Nat) :
    (s.closedMask chunkIdx mask).isOpen fd = (s.isOpen fd &&
        !(decide (fd / FD_CHUNK_SIZE = chunkIdx) && mask.getLsbD (fd % FD_CHUNK_SIZE))) := by
  unfold closedMask
  rw [isOpen_modify]
  split
  · rename_i h
    obtain ⟨rfl, -⟩ := h
    have hlt : fd % FD_CHUNK_SIZE < 64 := mod_lt_chunk fd
    simp [isOpen, hlt]
  · rename_i h
    by_cases hidx : fd / FD_CHUNK_SIZE = chunkIdx
    · rw [isOpen_of_ge (by
        by_contra hlt
        exact h ⟨hidx, by omega⟩)]
      rfl
    · simp [hidx]

theorem isOpen_closed (s : FdTableStorage) (chunkIdx : Nat) {bit : Nat} (hbit : bit < FD_CHUNK_SIZE)
    (fd : Nat) :
    (s.closed chunkIdx bit).isOpen fd =
      (s.isOpen fd && !decide (fd / FD_CHUNK_SIZE = chunkIdx ∧ fd % FD_CHUNK_SIZE = bit)) := by
  have hone := getLsbD_set 0#64 hbit (fd % FD_CHUNK_SIZE)
  rw [zero_or] at hone
  have hmask := s.isOpen_closedMask chunkIdx (1#64 <<< bit) fd
  rw [hone, getLsbD_zero, Bool.false_or, ← Bool.decide_and] at hmask
  exact hmask

end FdTableStorage

namespace FdTable

def isOpen (T : FdTable ω) (fd : Nat) : Bool := T.storage.isOpen fd

/-- The number of descriptors that are mapped. -/
def mapped (T : FdTable ω) : Nat := (List.range FD_LIMIT).countP fun fd => (T.get fd).isSome

/-- The vectors have one length within the bounds, and chunk handles are on allocated chunks. -/
structure Laid (T : FdTable ω) : Prop where
  lengths : T.storage.openFds.length = T.storage.chunks.length
  bounded : T.storage.chunks.length ≤ MAX_CHUNKS
  allocated : ∀ c, some c ∈ T.storage.chunks → c < T.cells.next

/-- Bitmap, counter and slots agree. -/
structure Sound (T : FdTable ω) : Prop extends Laid T where
  bits : ∀ fd, T.isOpen fd = (T.get fd).isSome
  counted : T.storage.count = T.mapped

/-- Chunks that other storages hold are left alone. -/
structure Frame (others : Nat → Nat) (T T' : FdTable ω) : Prop where
  next : T.cells.next ≤ T'.cells.next
  held : ∀ c < T.cells.next, 0 < others c → T'.cells.mem c = T.cells.mem c

theorem Frame.refl (others : Nat → Nat) (T : FdTable ω) : Frame others T T :=
  ⟨le_refl _, fun _ _ _ => rfl⟩

theorem Frame.trans {others : Nat → Nat} {T₁ T₂ T₃ : FdTable ω} (h₁ : Frame others T₁ T₂)
    (h₂ : Frame others T₂ T₃) : Frame others T₁ T₃ :=
  ⟨h₁.next.trans h₂.next, fun c hc ho =>
    (h₂.held c (hc.trans_le h₁.next) ho).trans (h₁.held c hc ho)⟩

/-! ## Lookup -/

variable {T : FdTable ω} {c fd minFd : Nat}

theorem get_of_chunk (h : T.storage.chunks[fd / FD_CHUNK_SIZE]? = some (some c)) :
    T.get fd = (T.cells.mem c).entry (fd % FD_CHUNK_SIZE) := by
  unfold get
  rw [h]

theorem get_of_no_chunk
    (h : ∀ c, T.storage.chunks[fd / FD_CHUNK_SIZE]? ≠ some (some c)) : T.get fd = none := by
  unfold get
  split
  · rename_i c hc
    exact absurd hc (h c)
  · rfl

theorem get_of_ge (h : T.storage.chunks.length ≤ fd / FD_CHUNK_SIZE) : T.get fd = none := by
  refine get_of_no_chunk fun c hc => ?_
  rw [List.getElem?_eq_none h] at hc
  cases hc

theorem Laid.get_limit (hT : Laid T) (h : FD_LIMIT ≤ fd) : T.get fd = none := by
  have hb := hT.bounded
  refine get_of_ge ?_
  unfold MAX_CHUNKS FD_LIMIT FD_CHUNK_SIZE at *
  omega

theorem chunk_of_get (h : T.get fd ≠ none) :
    ∃ c, T.storage.chunks[fd / FD_CHUNK_SIZE]? = some (some c) := by
  by_contra hno
  exact h (get_of_no_chunk fun c hc => hno ⟨c, hc⟩)

theorem Laid.lt_next (hT : Laid T) {i : Nat} (h : T.storage.chunks[i]? = some (some c)) :
    c < T.cells.next :=
  hT.allocated c (mem_of_getElem? h)

/-! ## Writing a chunk -/

section EditChunk

variable (others : Nat → Nat) {T : FdTable ω} {i c : Nat} (hT : Laid T)
  (hc : T.storage.chunks[i]? = some (some c)) (chunk : FdChunk ω)

include hc in
theorem editChunk_chunks (j : Nat) : (T.editChunk others i c chunk).storage.chunks[j]? =
      if j = i then
        some (some (T.cells.edit (others c + T.storage.chunks.count (some c)) c chunk).2)
      else T.storage.chunks[j]? := by
  have hi : i < T.storage.chunks.length := (List.getElem?_eq_some_iff.mp hc).1
  unfold editChunk
  simp only [List.getElem?_set]
  by_cases hj : j = i
  · subst hj
    simp [hi]
  · simp [hj, Ne.symm hj]

include hT hc in
/-- **A write to one chunk changes the descriptors of that chunk only.** -/
theorem editChunk_get (fd : Nat) : (T.editChunk others i c chunk).get fd =
      if fd / FD_CHUNK_SIZE = i then chunk.entry (fd % FD_CHUNK_SIZE) else T.get fd := by
  split
  · rename_i hfd
    have hchunk := editChunk_chunks others hc chunk (fd / FD_CHUNK_SIZE)
    rw [if_pos hfd] at hchunk
    rw [get_of_chunk hchunk]
    exact congrArg (FdChunk.entry · _) (T.cells.edit_mem_self ..)
  · rename_i hfd
    have hchunk := editChunk_chunks others hc chunk (fd / FD_CHUNK_SIZE)
    rw [if_neg hfd] at hchunk
    unfold get
    rw [hchunk]
    split
    · rename_i c' hc'
      -- a chunk counted once is the chunk of one index
      refine congrArg (FdChunk.entry · _) (T.cells.edit_frame _ _ (hT.lt_next hc') ?_)
      intro hsame hone
      subst hsame
      exact hfd (index_unique hc hc' (by omega))
    · rfl

include hT hc in
theorem editChunk_laid : Laid (T.editChunk others i c chunk) := by
  constructor
  · show T.storage.openFds.length = (T.storage.chunks.set i _).length
    rw [length_set, hT.lengths]
  · show (T.storage.chunks.set i _).length ≤ MAX_CHUNKS
    rw [length_set]
    exact hT.bounded
  · intro c' hc'
    rcases mem_or_eq_of_mem_set hc' with hold | hnew
    · exact (hT.allocated c' hold).trans_le (T.cells.edit_next _ _)
    · cases hnew
      exact T.cells.edit_lt _ _ (hT.lt_next hc)

include hc in
theorem editChunk_frame : Frame others T (T.editChunk others i c chunk) := by
  refine ⟨T.cells.edit_next _ _, fun c' hlt hheld => T.cells.edit_frame _ _ hlt ?_⟩
  intro hsame hone
  subst hsame
  have hpos : 0 < T.storage.chunks.count (some c') := count_pos_iff.mpr (mem_of_getElem? hc)
  omega

@[simp] theorem editChunk_isOpen (fd : Nat) :
    (T.editChunk others i c chunk).isOpen fd = T.isOpen fd := rfl

@[simp] theorem editChunk_count :
    (T.editChunk others i c chunk).storage.count = T.storage.count := rfl

@[simp] theorem editChunk_length :
    (T.editChunk others i c chunk).storage.chunks.length = T.storage.chunks.length :=
  length_set

end EditChunk

/-! ## The least free descriptor -/

theorem searchWord_bit (T : FdTable ω) (minFd wordIdx : Nat) {bit : Nat} (hbit : bit < 64) :
    (T.searchWord minFd wordIdx).getLsbD bit = (T.isOpen (wordIdx * FD_CHUNK_SIZE + bit) ||
        decide (wordIdx = minFd / FD_CHUNK_SIZE ∧ bit < minFd % FD_CHUNK_SIZE)) := by
  have hdiv : (wordIdx * FD_CHUNK_SIZE + bit) / FD_CHUNK_SIZE = wordIdx := by
    unfold FD_CHUNK_SIZE
    omega
  have hmod : (wordIdx * FD_CHUNK_SIZE + bit) % FD_CHUNK_SIZE = bit := by
    unfold FD_CHUNK_SIZE
    omega
  have hmin : minFd % FD_CHUNK_SIZE < 64 := mod_lt_chunk minFd
  simp only [searchWord, isOpen, FdTableStorage.isOpen, hdiv, hmod]
  split
  · rename_i h
    rw [getLsbD_or, getLsbD_below hmin hbit]
    simp [h]
  · rename_i h
    simp [h]

/-- `fd` is the least descriptor from `minFd` on that `m` leaves free. -/
structure LeastFree {α : Type} (m : Nat → Option α) (minFd fd : Nat) : Prop where
  from_min : minFd ≤ fd
  below_limit : fd < FD_LIMIT
  free : m fd = none
  least : ∀ fd', minFd ≤ fd' → fd' < fd → (m fd').isSome = true

theorem Sound.searchWords_spec (hT : Sound T) (minFd : Nat) :
    ∀ (n wordIdx : Nat), wordIdx + n ≤ T.storage.chunks.length → minFd / FD_CHUNK_SIZE ≤ wordIdx →
      (∀ fd, minFd ≤ fd → fd < wordIdx * FD_CHUNK_SIZE → (T.get fd).isSome = true) →
      match T.searchWords minFd (List.range' wordIdx n) with
      | some fd => LeastFree T.get minFd fd
      | none => ∀ fd, minFd ≤ fd → fd < (wordIdx + n) * FD_CHUNK_SIZE →
          (T.get fd).isSome = true := by
  intro n
  induction n with
  | zero =>
    intro wordIdx _ _ hbefore
    exact hbefore
  | succ n ih =>
    intro wordIdx hlen hmin hbefore
    have hbounded := hT.bounded
    -- a descriptor of this word is open, or below the bound, exactly where the word has its bit
    have hword : ∀ fd, minFd ≤ fd → fd / FD_CHUNK_SIZE = wordIdx →
        (T.searchWord minFd wordIdx).getLsbD (fd % FD_CHUNK_SIZE) = (T.get fd).isSome := by
      intro fd hfd hdiv
      have heq : wordIdx * FD_CHUNK_SIZE + fd % FD_CHUNK_SIZE = fd := by
        subst hdiv
        unfold FD_CHUNK_SIZE
        omega
      rw [searchWord_bit T minFd wordIdx (mod_lt_chunk fd), heq, hT.bits]
      have hno : ¬(wordIdx = minFd / FD_CHUNK_SIZE ∧ fd % FD_CHUNK_SIZE < minFd % FD_CHUNK_SIZE) := by
        unfold FD_CHUNK_SIZE at *
        omega
      simp [hno]
    rw [List.range'_succ, searchWords]
    by_cases hfull : T.searchWord minFd wordIdx = allOnes 64
    · simp only [hfull, if_true]
      have hnext := ih (wordIdx + 1) (by omega) (by omega) ?_
      · rwa [Nat.add_right_comm] at hnext
      · intro fd hfd hlt
        by_cases hdiv : fd / FD_CHUNK_SIZE = wordIdx
        · rw [← hword fd hfd hdiv, hfull, getLsbD_allOnes]
          exact decide_eq_true (mod_lt_chunk fd)
        · refine hbefore fd hfd ?_
          unfold FD_CHUNK_SIZE at *
          omega
    · simp only [hfull, if_false]
      have hne : ~~~T.searchWord minFd wordIdx ≠ 0 := by
        intro h0
        refine hfull (eq_of_getLsbD_eq fun j hj => ?_)
        have hj0 := congrArg (getLsbD · j) h0
        rw [getLsbD_allOnes]
        simpa [hj] using hj0
      obtain ⟨hset, hlow⟩ := trailingZeros_spec hne
      have hlt := trailingZeros_lt hne
      generalize trailingZeros (~~~T.searchWord minFd wordIdx) = bit at hset hlow hlt ⊢
      have hclear : (T.searchWord minFd wordIdx).getLsbD bit = false := by
        simpa [hlt] using hset
      rw [searchWord_bit T minFd wordIdx hlt, Bool.or_eq_false_iff, decide_eq_false_iff_not] at hclear
      have hbelow : wordIdx * FD_CHUNK_SIZE + bit < FD_LIMIT := by
        unfold MAX_CHUNKS FD_LIMIT FD_CHUNK_SIZE at *
        omega
      rw [if_pos hbelow]
      have hfrom : minFd ≤ wordIdx * FD_CHUNK_SIZE + bit := by
        have := hclear.2
        unfold FD_CHUNK_SIZE at *
        omega
      refine ⟨hfrom, hbelow, ?_, fun fd hfd hlt' => ?_⟩
      · have := hclear.1
        rw [hT.bits] at this
        simpa using this
      · by_cases hdiv : fd / FD_CHUNK_SIZE = wordIdx
        · have hlower : fd % FD_CHUNK_SIZE < bit := by
            unfold FD_CHUNK_SIZE at *
            omega
          have hbit := hlow _ hlower
          rw [← hword fd hfd hdiv]
          simpa [show fd % FD_CHUNK_SIZE < 64 from mod_lt_chunk fd] using hbit
        · refine hbefore fd hfd ?_
          unfold FD_CHUNK_SIZE at *
          omega

theorem Sound.search_spec (hT : Sound T) (minFd : Nat) :
    match T.searchWords minFd (List.range' (minFd / FD_CHUNK_SIZE)
        (T.storage.openFds.length - minFd / FD_CHUNK_SIZE)) with
    | some fd => LeastFree T.get minFd fd
    | none => ∀ fd, minFd ≤ fd → fd < T.storage.chunks.length * FD_CHUNK_SIZE →
        (T.get fd).isSome = true := by
  have hlen := hT.lengths
  by_cases hin : minFd / FD_CHUNK_SIZE ≤ T.storage.openFds.length
  · have hcap : minFd / FD_CHUNK_SIZE +
        (T.storage.openFds.length - minFd / FD_CHUNK_SIZE) = T.storage.chunks.length := by
      omega
    have hspec := hT.searchWords_spec minFd (T.storage.openFds.length - minFd / FD_CHUNK_SIZE)
      (minFd / FD_CHUNK_SIZE) (le_of_eq hcap) (le_refl _) fun fd hfd hlt => by
        unfold FD_CHUNK_SIZE at hlt
        omega
    rwa [hcap] at hspec
  · have hnil : T.storage.openFds.length - minFd / FD_CHUNK_SIZE = 0 := by omega
    rw [hnil]
    intro fd hfd hlt
    unfold FD_CHUNK_SIZE at *
    omega

/-- **Allocation takes the least free descriptor.** -/
theorem Sound.nextAvailableFd_ok (hT : Sound T)
    (h : T.nextAvailableFd minFd = .ok fd) : LeastFree T.get minFd fd := by
  have hsearch := hT.search_spec minFd
  simp only [nextAvailableFd] at h
  split at h
  · rename_i fd' hs
    rw [hs] at hsearch
    cases h
    exact hsearch
  · rename_i hs
    rw [hs] at hsearch
    split at h
    · cases h
    · rename_i hlimit
      cases h
      refine ⟨le_max_left _ _, by omega, get_of_ge ?_, fun fd hfd hlt => hsearch fd hfd (by omega)⟩
      unfold FD_CHUNK_SIZE
      omega

/-- **Allocation fails with `EMFILE`, and only when no descriptor is free.** -/
theorem Sound.nextAvailableFd_error (hT : Sound T) {e : LinuxError}
    (h : T.nextAvailableFd minFd = .error e) :
    e = .EMFILE ∧ ∀ fd, minFd ≤ fd → fd < FD_LIMIT → (T.get fd).isSome = true := by
  have hsearch := hT.search_spec minFd
  simp only [nextAvailableFd] at h
  split at h
  · cases h
  · rename_i hs
    rw [hs] at hsearch
    split at h
    · rename_i hlimit
      cases h
      exact ⟨rfl, fun fd hfd hlt => hsearch fd hfd (by omega)⟩
    · cases h

end FdTable

end PulseOS.Fd
