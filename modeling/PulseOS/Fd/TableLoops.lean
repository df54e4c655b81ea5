import PulseOS.Fd.TableOps
import PulseOS.Lib.Loop

/-!
# Operations on many descriptors

The loops of a descriptor table over its chunks and the bits of a chunk.

* `Removing` — the state of a loop that takes entries out; `Removing.chunk` is one round and
  `Removing.done` the end: the map without the entries, which are returned in the order of their
  descriptors.
* `removeRange_spec`, `setCloexecRange_spec` — the descriptors that `FdRange.covers`, which are
  those that the masks of the source select.
-/

namespace PulseOS.Fd

open Arc Bitmap List Option FdTableStorage FdEntry FdChunk

variable {ω : Type}

namespace FdTable

/-! ## Loops that take entries out -/

/-- Numbers of a range with a value: those that `P` takes out and those that stay. -/
theorem length_filterMap_add_countP {α β : Type} (l : List α) (P : α → Bool) (f : α → Option β) :
    (l.filterMap fun x => if P x then f x else none).length +
      l.countP (fun x => (if P x then none else f x).isSome) = l.countP fun x => (f x).isSome := by
  induction l with
  | nil => rfl
  | cons x l ih =>
    rw [filterMap_cons, countP_cons, countP_cons]
    cases hP : P x with
    | false =>
      simp only [Bool.false_eq_true, if_false]
      omega
    | true =>
      cases hf : f x with
      | none => simpa using ih
      | some y =>
        simp only [if_true, length_cons, isSome_some, isSome_none, if_false, Bool.false_eq_true]
        omega

variable {bit fd k n : Nat} {pending : BitVec 64} {T T' : FdTable ω}

theorem div_chunk (hbit : bit < FD_CHUNK_SIZE) : (k * FD_CHUNK_SIZE + bit) / FD_CHUNK_SIZE = k := by
  unfold FD_CHUNK_SIZE at *
  omega

theorem mod_chunk (hbit : bit < FD_CHUNK_SIZE) :
    (k * FD_CHUNK_SIZE + bit) % FD_CHUNK_SIZE = bit := by
  unfold FD_CHUNK_SIZE at *
  omega

/-- A round changes nothing where it does not act. -/
theorem lt_succ_and_iff {x : Nat} {p : Prop} (h : p → x ≠ k) : x < k + 1 ∧ p ↔ x < k ∧ p :=
  and_congr_left fun hp => by
    have := h hp
    omega

theorem filterMap_range_eq {β : Type} {f : Nat → Option β} {m : Nat} (hnm : n ≤ m)
    (hf : ∀ x, n ≤ x → f x = none) : (List.range m).filterMap f = (List.range n).filterMap f := by
  obtain ⟨k, rfl⟩ := Nat.exists_eq_add_of_le hnm
  have hnil : ((List.range k).map (n + ·)).filterMap f = [] := by
    rw [filterMap_eq_nil_iff]
    intro x hx
    obtain ⟨y, -, rfl⟩ := mem_map.mp hx
    exact hf _ (Nat.le_add_right n y)
  rw [range_add, filterMap_append, hnil, append_nil]

variable (others : Nat → Nat) (T : FdTable ω) (P : Nat → Bool)

/-- The state of a loop over chunks that takes the descriptors of `P` out of `T`, before chunk
`k`. -/
structure Removing (k : Nat) (st : FdTable ω × List (FdEntry ω)) : Prop where
  laid : Laid st.1
  frame : Frame others T st.1
  length : st.1.storage.chunks.length = T.storage.chunks.length
  bits : ∀ fd, st.1.isOpen fd = (st.1.get fd).isSome
  get : ∀ fd, st.1.get fd = if fd / FD_CHUNK_SIZE < k ∧ P fd = true then none else T.get fd
  removed : st.2 = (List.range (k * FD_CHUNK_SIZE)).filterMap fun fd =>
    if P fd then T.get fd else none
  count : st.1.storage.count = T.storage.count - st.2.length

/-- `T'` is `T` without the descriptors of `P`; `removed` lists their entries in order. -/
structure Removed (st : FdTable ω × List (FdEntry ω)) : Prop where
  sound : Sound st.1
  frame : Frame others T st.1
  get : ∀ fd, st.1.get fd = if P fd then none else T.get fd
  removed : st.2 = (List.range FD_LIMIT).filterMap fun fd => if P fd then T.get fd else none

section Removing

variable {others : Nat → Nat} {T : FdTable ω} {P : Nat → Bool} {k : Nat}
  {st : FdTable ω × List (FdEntry ω)}

/-- Before the first chunk that `P` touches. -/
theorem Sound.removing (hT : Sound T) (others : Nat → Nat)
    (hP : ∀ fd, fd / FD_CHUNK_SIZE < k → P fd = false) : Removing others T P k (T, []) := by
  refine ⟨hT.toLaid, Frame.refl .., rfl, hT.bits, fun fd => ?_, ?_, (Nat.sub_zero _).symm⟩
  · rw [if_neg]
    rintro ⟨hlt, hp⟩
    rw [hP fd hlt] at hp
    cases hp
  · symm
    rw [filterMap_eq_nil_iff]
    intro fd hfd
    rw [hP fd (by have := mem_range.mp hfd; unfold FD_CHUNK_SIZE at *; omega)]
    rfl

theorem filterMap_range_chunk {β : Type} (f : Nat → Option β) (k : Nat) :
    (List.range ((k + 1) * FD_CHUNK_SIZE)).filterMap f =
      (List.range (k * FD_CHUNK_SIZE)).filterMap f ++
        (List.range FD_CHUNK_SIZE).filterMap fun bit => f (k * FD_CHUNK_SIZE + bit) := by
  rw [Nat.add_mul, Nat.one_mul, range_add, filterMap_append, filterMap_map]
  rfl

variable {c fd : Nat}

section

variable (h : Removing others T P k st)

include h

theorem Removing.later (hfd : fd / FD_CHUNK_SIZE = k) : st.1.get fd = T.get fd := by
  rw [h.get, if_neg (by omega)]

theorem Removing.slot
    (hc : st.1.storage.chunks[k]? = some (some c)) (hfd : fd / FD_CHUNK_SIZE = k) :
    (st.1.cells.mem c).entry (fd % FD_CHUNK_SIZE) = T.get fd := by
  rw [← h.later hfd, get_of_chunk (by rw [hfd]; exact hc)]

theorem Removing.entry
    (hc : st.1.storage.chunks[k]? = some (some c)) {bit : Nat} (hbit : bit < FD_CHUNK_SIZE) :
    (st.1.cells.mem c).entry bit = T.get (k * FD_CHUNK_SIZE + bit) := by
  rw [← h.slot hc (div_chunk hbit), mod_chunk hbit]

theorem Removing.skip (hnone : ∀ fd, fd / FD_CHUNK_SIZE = k → P fd = true → T.get fd = none) :
    Removing others T P (k + 1) st := by
  refine ⟨h.laid, h.frame, h.length, h.bits, fun fd => ?_, ?_, h.count⟩
  · rw [h.get fd]
    by_cases hk : fd / FD_CHUNK_SIZE = k ∧ P fd = true
    · rw [hnone fd hk.1 hk.2]
      simp
    · exact if_congr (lt_succ_and_iff fun hp he => hk ⟨he, hp⟩).symm rfl rfl
  · rw [filterMap_range_chunk, h.removed]
    symm
    rw [append_right_eq_self, filterMap_eq_nil_iff]
    intro bit hbit
    have hlt : bit < FD_CHUNK_SIZE := mem_range.mp hbit
    split
    · rename_i hp
      exact hnone _ (div_chunk hlt) hp
    · rfl

/-- **One chunk of the loop**: the slots of `P` are emptied, their entries are returned and the
books follow. -/
theorem Removing.chunk
    (hc : st.1.storage.chunks[k]? = some (some c)) (chunk : FdChunk ω) {T' : FdTable ω}
    {removed : List (FdEntry ω)} (hchunk : ∀ bit < FD_CHUNK_SIZE, chunk.entry bit =
      if P (k * FD_CHUNK_SIZE + bit) then none else (st.1.cells.mem c).entry bit)
    (hremoved : removed = st.2 ++ (List.range FD_CHUNK_SIZE).filterMap fun bit =>
      if P (k * FD_CHUNK_SIZE + bit) then (st.1.cells.mem c).entry bit else none)
    (hcells : T'.cells = (st.1.editChunk others k c chunk).cells)
    (hchunks : T'.storage.chunks = (st.1.editChunk others k c chunk).storage.chunks)
    (hlen : T'.storage.openFds.length = st.1.storage.openFds.length)
    (hopen : ∀ fd, T'.isOpen fd = (st.1.isOpen fd && !(decide (fd / FD_CHUNK_SIZE = k) && P fd)))
    (hcount : T'.storage.count = st.1.storage.count - (removed.length - st.2.length)) :
    Removing others T P (k + 1) (T', removed) := by
  have hlaid := editChunk_laid others h.laid hc chunk
  have hframe := editChunk_frame others hc chunk
  have hfd : ∀ fd, fd / FD_CHUNK_SIZE = k → k * FD_CHUNK_SIZE + fd % FD_CHUNK_SIZE = fd := by
    intro fd hdiv
    subst hdiv
    unfold FD_CHUNK_SIZE
    omega
  have hget : ∀ fd, T'.get fd =
      if fd / FD_CHUNK_SIZE < k + 1 ∧ P fd = true then none else T.get fd := by
    intro fd
    have hedit : T'.get fd = (st.1.editChunk others k c chunk).get fd :=
      get_congr hcells (fun j c' => by rw [hchunks]) fd
    rw [hedit, editChunk_get others h.laid hc]
    by_cases hk : fd / FD_CHUNK_SIZE = k
    · rw [if_pos hk, hchunk _ (mod_lt_chunk fd), hfd fd hk, h.slot hc hk]
      refine if_congr ?_ rfl rfl
      simp [hk]
    · rw [if_neg hk, h.get]
      exact if_congr (lt_succ_and_iff fun _ => hk).symm rfl rfl
  refine ⟨⟨?_, ?_, ?_⟩, ?_, ?_, fun fd => ?_, hget, ?_, ?_⟩
  · show T'.storage.openFds.length = T'.storage.chunks.length
    rw [hlen, hchunks]
    exact hlaid.lengths
  · show T'.storage.chunks.length ≤ MAX_CHUNKS
    rw [hchunks]
    exact hlaid.bounded
  · show ∀ c', some c' ∈ T'.storage.chunks → c' < T'.cells.next
    rw [hchunks, hcells]
    exact hlaid.allocated
  · refine h.frame.trans ⟨?_, fun c' hlt ho => ?_⟩
    · show st.1.cells.next ≤ T'.cells.next
      rw [hcells]
      exact hframe.next
    · show T'.cells.mem c' = _
      rw [hcells]
      exact hframe.held c' hlt ho
  · show T'.storage.chunks.length = _
    rw [hchunks]
    exact (editChunk_length others chunk).trans h.length
  · show T'.isOpen fd = (T'.get fd).isSome
    rw [hopen, h.bits, hget, h.get]
    by_cases hk : fd / FD_CHUNK_SIZE = k
    · rw [hk]
      cases P fd <;> simp
    · have hiff : fd / FD_CHUNK_SIZE < k + 1 ↔ fd / FD_CHUNK_SIZE < k := by omega
      simp [hk, hiff]
  · show removed = _
    rw [hremoved, filterMap_range_chunk, ← h.removed]
    congr 1
    refine filterMap_congr fun bit hbit => ?_
    rw [h.entry hc (mem_range.mp hbit)]
  · show T'.storage.count = T.storage.count - removed.length
    have hge : st.2.length ≤ removed.length := by
      rw [hremoved, length_append]
      omega
    rw [hcount, h.count]
    omega

end

/-- After the last chunk that has entries to take out. -/
theorem Removing.done (hT : Sound T) (h : Removing others T P k st) (hk : k ≤ MAX_CHUNKS)
    (hrest : ∀ fd, k ≤ fd / FD_CHUNK_SIZE → P fd = true → T.get fd = none) :
    Removed others T P st := by
  have hget : ∀ fd, st.1.get fd = if P fd then none else T.get fd := by
    intro fd
    rw [h.get]
    by_cases hlt : fd / FD_CHUNK_SIZE < k
    · simp [hlt]
    · cases hp : P fd with
      | false => simp
      | true => simp [hrest fd (by omega) hp]
  have hremoved : st.2 = (List.range FD_LIMIT).filterMap fun fd =>
      if P fd then T.get fd else none := by
    rw [h.removed]
    refine (filterMap_range_eq ?_ fun fd hfd => ?_).symm
    · unfold MAX_CHUNKS FD_LIMIT FD_CHUNK_SIZE at *
      omega
    · split
      · rename_i hp
        refine hrest fd ?_ hp
        unfold FD_CHUNK_SIZE at *
        omega
      · rfl
  refine ⟨⟨h.laid, h.bits, ?_⟩, h.frame, hget, hremoved⟩
  have hsplit := length_filterMap_add_countP (List.range FD_LIMIT) P T.get
  rw [← hremoved] at hsplit
  have hcount := h.count
  rw [hT.counted] at hcount
  unfold mapped at hcount ⊢
  simp only [hget]
  omega

end Removing

/-! ## Close on exec -/

/-- The descriptors that `take_cloexec_on_exec` closes. -/
def closesOnExec (fd : Nat) : Bool := (T.get fd).any (·.flags.cloexec)

/-- The loop over the bits of a chunk that stood as `st₀`, before bit `n`. -/
structure TakenBits (chunkIdx : Nat) (st₀ : Taking ω) (n : Nat) (st : Taking ω) : Prop where
  entry : ∀ bit, st.chunk.entry bit =
    if bit < n ∧ (st₀.chunk.entry bit).any (·.flags.cloexec) = true then none
    else st₀.chunk.entry bit
  removed : st.removed = st₀.removed ++ (List.range n).filterMap fun bit =>
    if (st₀.chunk.entry bit).any (·.flags.cloexec) then st₀.chunk.entry bit else none
  chunks : st.storage.chunks = st₀.storage.chunks
  length : st.storage.openFds.length = st₀.storage.openFds.length
  isOpen : ∀ fd, st.storage.isOpen fd = (st₀.storage.isOpen fd &&
    !decide (fd / FD_CHUNK_SIZE = chunkIdx ∧ fd % FD_CHUNK_SIZE < n ∧
      (st₀.chunk.entry (fd % FD_CHUNK_SIZE)).any (·.flags.cloexec) = true))
  count : st.storage.count = st₀.storage.count - (st.removed.length - st₀.removed.length)

theorem TakenBits.step {chunkIdx : Nat} (hn : n < FD_CHUNK_SIZE) {st₀ st : Taking ω}
    (h : TakenBits chunkIdx st₀ n st) :
    TakenBits chunkIdx st₀ (n + 1) (takeCloexecBit chunkIdx st n) := by
  have hentry : st.chunk.entry n = st₀.chunk.entry n := by
    rw [h.entry, if_neg (by omega)]
  have hge : st₀.removed.length ≤ st.removed.length := by
    rw [h.removed, length_append]
    omega
  by_cases hcl : (st₀.chunk.entry n).any (·.flags.cloexec) = true
  · obtain ⟨entry, he, hflag⟩ := (Option.any_eq_true _ _).mp hcl
    have hstep : takeCloexecBit chunkIdx st n =
        ⟨st.chunk.set n none, st.storage.closed chunkIdx n, st.removed ++ [entry]⟩ := by
      simp [takeCloexecBit, hentry, he, hflag]
    rw [hstep]
    refine ⟨fun bit => ?_, ?_, h.chunks, ?_, fun fd => ?_, ?_⟩
    · rw [entry_set _ hn]
      by_cases hbit : bit = n
      · subst hbit
        rw [if_pos rfl, if_pos ⟨Nat.lt_succ_self _, hcl⟩]
      · rw [if_neg hbit, h.entry]
        exact if_congr (lt_succ_and_iff fun _ => hbit).symm rfl rfl
    · rw [h.removed, range_succ, filterMap_append]
      simp [he, hflag]
    · simpa [closed] using h.length
    · rw [isOpen_closed _ _ hn, h.isOpen]
      by_cases hbit : fd % FD_CHUNK_SIZE = n
      · simp [hbit, hcl]
      · have : fd % FD_CHUNK_SIZE < n + 1 ↔ fd % FD_CHUNK_SIZE < n := by omega
        simp [hbit, this]
    · show st.storage.count - 1 = _
      rw [h.count, length_append, length_singleton]
      omega
  · have hstep : takeCloexecBit chunkIdx st n = st := by
      unfold takeCloexecBit
      rw [hentry]
      cases he : st₀.chunk.entry n with
      | none => rfl
      | some entry =>
        rw [he] at hcl
        exact if_neg hcl
    rw [hstep]
    have hsame : ∀ bit, (bit < n + 1 ∧ (st₀.chunk.entry bit).any (·.flags.cloexec) = true) ↔
        bit < n ∧ (st₀.chunk.entry bit).any (·.flags.cloexec) = true :=
      fun bit => lt_succ_and_iff fun hany hb => hcl (hb ▸ hany)
    refine ⟨fun bit => ?_, ?_, h.chunks, h.length, fun fd => ?_, h.count⟩
    · rw [h.entry]
      exact if_congr (hsame bit).symm rfl rfl
    · rw [h.removed, range_succ, filterMap_append]
      simp [hcl]
    · rw [h.isOpen]
      simp only [hsame]

theorem takeCloexecBits_spec (chunkIdx : Nat) (st₀ : Taking ω) :
    TakenBits chunkIdx st₀ FD_CHUNK_SIZE
      ((List.range FD_CHUNK_SIZE).foldl (takeCloexecBit chunkIdx) st₀) := by
  refine Loop.foldl_range_invariant (I := TakenBits chunkIdx st₀) FD_CHUNK_SIZE st₀ ?_
    fun n hn st h => h.step hn
  exact ⟨by simp, by simp, rfl, rfl, by simp, by simp⟩

variable {T : FdTable ω} {first last : Nat} {r : FdRange} {others : Nat → Nat}
  {st : FdTable ω × List (FdEntry ω)} {removed : List (FdEntry ω)} {k : Nat}

theorem takeCloexecChunk_spec (h : Removing others T T.closesOnExec k st) :
    Removing others T T.closesOnExec (k + 1) (takeCloexecChunk others st k) := by
  unfold takeCloexecChunk
  simp only
  split
  · rename_i c hc
    split
    · have hbits := takeCloexecBits_spec k ⟨st.1.cells.mem c, st.1.storage, st.2⟩
      generalize (List.range FD_CHUNK_SIZE).foldl (takeCloexecBit k)
        ⟨st.1.cells.mem c, st.1.storage, st.2⟩ = taken at hbits ⊢
      refine h.chunk hc taken.chunk (fun bit hbit => ?_) ?_ ?_ ?_ ?_ (fun fd => ?_) ?_
      · rw [hbits.entry]
        simp [hbit, closesOnExec, h.entry hc hbit]
      · rw [hbits.removed]
        congr 1
        refine filterMap_congr fun bit hbit => ?_
        simp [closesOnExec, h.entry hc (mem_range.mp hbit)]
      · simp [editChunk, hbits.chunks]
      · simp [editChunk, hbits.chunks]
      · exact hbits.length
      · rw [editChunk_isOpen]
        show taken.storage.isOpen fd = _
        rw [hbits.isOpen]
        by_cases hk : fd / FD_CHUNK_SIZE = k
        · simp [hk, h.slot hc hk, closesOnExec, mod_lt_chunk, isOpen]
        · simp [hk, isOpen]
      · exact hbits.count
    · rename_i hno
      refine h.skip fun fd hfd hcl => ?_
      refine absurd ((hasCloexec_iff _).mpr ⟨fd % FD_CHUNK_SIZE, ?_⟩) hno
      rw [h.slot hc hfd]
      exact hcl
  · rename_i hno
    refine h.skip fun fd hfd _ => ?_
    rw [← h.later hfd]
    exact get_of_no_chunk fun c hc => hno c (hfd ▸ hc)

/-- **`take_cloexec_on_exec` removes exactly the entries marked close-on-exec.** -/
theorem takeCloexecOnExec_spec (others : Nat → Nat) (hT : Sound T) :
    Removed others T T.closesOnExec (takeCloexecOnExec others T) := by
  have hloop := Loop.foldl_range_invariant (I := Removing others T T.closesOnExec)
    T.storage.chunks.length (T, []) (hT.removing others fun _ hfd => absurd hfd (Nat.not_lt_zero _))
    fun k _ st h => takeCloexecChunk_spec h
  exact hloop.done hT hT.bounded fun fd hfd _ => get_of_ge hfd

theorem takeCloexecEarly_error (h : T.takeCloexecEarly = .error removed) :
    removed = [] ∧ ∀ fd, T.closesOnExec fd = false := by
  simp only [takeCloexecEarly] at h
  split at h
  · cases h
  · rename_i hno
    cases h
    refine ⟨rfl, fun fd => ?_⟩
    by_contra hcl
    have hcl : (T.get fd).any (·.flags.cloexec) = true := by simpa [closesOnExec] using hcl
    have hsome : T.get fd ≠ none := by
      intro hnone
      rw [hnone] at hcl
      cases hcl
    obtain ⟨c, hc⟩ := chunk_of_get hsome
    rw [get_of_chunk hc] at hcl
    refine hno (any_eq_true.mpr ⟨some c, mem_of_getElem? hc, ?_⟩)
    exact (hasCloexec_iff _).mpr ⟨_, hcl⟩

/-! ## Ranges -/

theorem fdRangeMask_bit {firstBit lastBit : Nat} (hfirst : firstBit < 64) (hlast : lastBit < 64)
    (hbit : bit < 64) :
    (fdRangeMask firstBit lastBit).getLsbD bit = decide (firstBit ≤ bit ∧ bit ≤ lastBit) := by
  have hfrom : (BitVec.allOnes 64 <<< firstBit).getLsbD bit = decide (firstBit ≤ bit) := by
    rw [BitVec.getLsbD_shiftLeft, BitVec.getLsbD_allOnes]
    by_cases h : bit < firstBit
    · simp [h]
    · simp [h, hbit]
      omega
  unfold fdRangeMask
  rw [BitVec.getLsbD_and, hfrom, Bool.decide_and]
  congr 1
  split
  · rename_i hfull
    rw [BitVec.getLsbD_allOnes]
    unfold FD_CHUNK_SIZE at hfull
    simp only [decide_eq_decide]
    omega
  · rename_i hpart
    rw [getLsbD_below (by unfold FD_CHUNK_SIZE at hpart; omega) hbit]
    simp only [decide_eq_decide]
    omega

/-- The descriptors that the masks of a range select. -/
def FdRange.covers (r : FdRange) (fd : Nat) : Bool :=
  decide (r.firstChunk ≤ fd / FD_CHUNK_SIZE ∧ fd / FD_CHUNK_SIZE ≤ r.lastChunk) &&
    (r.mask (fd / FD_CHUNK_SIZE)).getLsbD (fd % FD_CHUNK_SIZE)

open FdRange

/-- The descriptors that a range operation of a table acts on. -/
def covered (T : FdTable ω) (first last fd : Nat) : Bool :=
  match T.range first last with
  | some r => r.covers fd
  | none => false

theorem covered_of_range (h : T.range first last = some r) : T.covered first last = r.covers := by
  funext fd
  unfold covered
  rw [h]

theorem FdRange.mask_bit (r : FdRange) (fd : Nat) :
    (r.mask (fd / FD_CHUNK_SIZE)).getLsbD (fd % FD_CHUNK_SIZE) =
      decide ((fd / FD_CHUNK_SIZE = r.firstChunk → r.first % FD_CHUNK_SIZE ≤ fd % FD_CHUNK_SIZE) ∧
        (fd / FD_CHUNK_SIZE = r.lastChunk → fd % FD_CHUNK_SIZE ≤ r.last % FD_CHUNK_SIZE)) := by
  have hfd := mod_lt_chunk fd
  unfold mask
  unfold FD_CHUNK_SIZE at *
  rw [fdRangeMask_bit (by split <;> omega) (by split <;> omega) hfd]
  simp only [decide_eq_decide]
  split <;> split <;> omega

/-- What the bounds of a range are. -/
structure FdRange.Fits (r : FdRange) (T : FdTable ω) (first last : Nat) : Prop where
  first_eq : r.first = first
  last_eq : r.last = min last (FD_LIMIT - 1)
  firstChunk_eq : r.firstChunk = first / FD_CHUNK_SIZE
  lastChunk_eq : r.lastChunk = min (min last (FD_LIMIT - 1) / FD_CHUNK_SIZE)
    (T.storage.chunks.length - 1)
  ordered : first ≤ last
  below_limit : first < FD_LIMIT
  in_table : first / FD_CHUNK_SIZE < T.storage.chunks.length

theorem range_some (h : T.range first last = some r) : r.Fits T first last := by
  simp only [range] at h
  split at h
  · cases h
  · rename_i hin
    split at h
    · cases h
    · rename_i hchunk
      cases h
      simp only [not_or, not_lt, not_le] at hin
      exact ⟨rfl, rfl, rfl, rfl, hin.1, hin.2.1, by omega⟩

theorem range_none (hT : Laid T) (hle : first ≤ last)
    (h : T.range first last = none) (hfd : first ≤ fd) : T.get fd = none := by
  simp only [range] at h
  split at h
  · rename_i hout
    rcases hout with hlt | hlimit | hempty
    · omega
    · exact hT.get_limit (by omega)
    · exact get_of_ge (hempty ▸ Nat.zero_le _)
  · split at h
    · rename_i hchunk
      refine get_of_ge (hchunk.trans ?_)
      exact Nat.div_le_div_right hfd
    · cases h

/-- **The descriptors that a range selects in a table.** -/
theorem FdRange.Fits.covers_iff (h : r.Fits T first last) (fd : Nat) :
    r.covers fd = true ↔ first ≤ fd ∧ fd / FD_CHUNK_SIZE ≤ r.lastChunk ∧
      (fd / FD_CHUNK_SIZE = r.lastChunk →
        fd % FD_CHUNK_SIZE ≤ min last (FD_LIMIT - 1) % FD_CHUNK_SIZE) := by
  unfold covers
  rw [r.mask_bit, ← Bool.decide_and, decide_eq_true_iff, h.first_eq, h.last_eq, h.firstChunk_eq]
  generalize min last (FD_LIMIT - 1) = last'
  unfold FD_CHUNK_SIZE
  omega

theorem FdRange.Fits.firstChunk_le (h : r.Fits T first last) : r.firstChunk ≤ r.lastChunk := by
  have hle : first ≤ min last (FD_LIMIT - 1) := by
    have := h.ordered
    have := h.below_limit
    omega
  have hdiv : first / FD_CHUNK_SIZE ≤ min last (FD_LIMIT - 1) / FD_CHUNK_SIZE :=
    Nat.div_le_div_right hle
  have hin := h.in_table
  rw [h.firstChunk_eq, h.lastChunk_eq]
  omega

theorem FdRange.Fits.lastChunk_lt (h : r.Fits T first last) :
    r.lastChunk < T.storage.chunks.length := by
  have hpos : 0 < T.storage.chunks.length := Nat.lt_of_le_of_lt (Nat.zero_le _) h.in_table
  rw [h.lastChunk_eq]
  omega

theorem FdRange.mem_chunkIdxs {i : Nat} (hle : r.firstChunk ≤ r.lastChunk) :
    i ∈ r.chunkIdxs ↔ r.firstChunk ≤ i ∧ i ≤ r.lastChunk := by
  unfold chunkIdxs
  rw [mem_range'_1]
  omega

theorem pending_bit (r : FdRange) (fd : Nat) :
    (T.pending r (fd / FD_CHUNK_SIZE)).getLsbD (fd % FD_CHUNK_SIZE) =
      (T.isOpen fd && (r.mask (fd / FD_CHUNK_SIZE)).getLsbD (fd % FD_CHUNK_SIZE)) := by
  unfold pending
  rw [BitVec.getLsbD_and]
  rfl

/-! ## Removing a range -/

/-- The loop over the pending bits of a chunk that stood as `st₀`, before bit `n`. -/
structure DrainedBits (pending : BitVec 64) (st₀ : Draining ω) (n : Nat) (st : Draining ω) :
    Prop where
  entry : ∀ bit, st.chunk.entry bit =
    if bit < n ∧ pending.getLsbD bit = true then none else st₀.chunk.entry bit
  removed : st.removed = st₀.removed ++ (List.range n).filterMap fun bit =>
    if pending.getLsbD bit then st₀.chunk.entry bit else none
  mask : ∀ bit, st.removedMask.getLsbD bit =
    (decide (bit < n) && (pending.getLsbD bit && (st₀.chunk.entry bit).isSome))

theorem DrainedBits.step {st₀ st : Draining ω}
    (hn : n < FD_CHUNK_SIZE) (h : DrainedBits pending st₀ n st) :
    DrainedBits pending st₀ (n + 1) (if pending.getLsbD n then removeBit st n else st) := by
  have hentry : st.chunk.entry n = st₀.chunk.entry n := by
    rw [h.entry, if_neg (by omega)]
  have hlt : ∀ bit, bit ≠ n → (bit < n + 1 ↔ bit < n) := by
    intro bit hbit
    omega
  by_cases hp : pending.getLsbD n = true ∧ (st₀.chunk.entry n).isSome = true
  · obtain ⟨hpend, hsome⟩ := hp
    obtain ⟨entry, he⟩ := isSome_iff_exists.mp hsome
    have hstep : removeBit st n =
        ⟨st.chunk.set n none, st.removed ++ [entry], st.removedMask ||| (1#64 <<< n)⟩ := by
      simp [removeBit, hentry, he]
    rw [if_pos hpend, hstep]
    refine ⟨fun bit => ?_, ?_, fun bit => ?_⟩
    · rw [entry_set _ hn, h.entry]
      by_cases hbit : bit = n
      · simp [hbit, hpend]
      · simp [hbit, hlt bit hbit]
    · rw [h.removed, range_succ, filterMap_append]
      simp [hpend, he]
    · rw [getLsbD_set (w := 64) _ hn, h.mask]
      by_cases hbit : bit = n
      · simp [hbit, hpend, he]
      · simp [hbit, hlt bit hbit]
  · -- a bit that is not pending or has no entry
    have hstep : (if pending.getLsbD n then removeBit st n else st) = st := by
      cases he : st₀.chunk.entry n with
      | none => simp [removeBit, hentry, he]
      | some entry => exact if_neg fun hpend => hp ⟨hpend, by rw [he]; rfl⟩
    have hnone : pending.getLsbD n = true → st₀.chunk.entry n = none := fun hpend => by
      simpa [hpend] using hp
    rw [hstep]
    refine ⟨fun bit => ?_, ?_, fun bit => ?_⟩
    · rw [h.entry]
      by_cases hbit : bit = n
      · simp +contextual [hbit, hnone]
      · simp [hlt bit hbit]
    · rw [h.removed, range_succ, filterMap_append]
      simp +contextual [hnone]
    · rw [h.mask]
      by_cases hbit : bit = n
      · simpa [hbit] using hp
      · simp [hlt bit hbit]

theorem drainBits_spec (pending : BitVec 64) (st₀ : Draining ω) (h0 : st₀.removedMask = 0) :
    DrainedBits pending st₀ FD_CHUNK_SIZE ((setBits pending).foldl removeBit st₀) := by
  rw [setBits_eq, foldl_filter]
  refine Loop.foldl_range_invariant (I := DrainedBits pending st₀) FD_CHUNK_SIZE st₀ ?_
    fun n hn st h => h.step hn
  exact ⟨by simp, by simp, by simp [h0]⟩

/-- The mask has a bit for each entry taken out. -/
theorem DrainedBits.countOnes {st₀ st : Draining ω} (h : DrainedBits pending st₀ FD_CHUNK_SIZE st) :
    countOnes st.removedMask = st.removed.length - st₀.removed.length := by
  rw [h.removed, length_append, Nat.add_sub_cancel_left, length_filterMap_eq_countP]
  refine countP_congr fun bit hbit => ?_
  have hlt : bit < FD_CHUNK_SIZE := mem_range.mp hbit
  rw [h.mask]
  cases pending.getLsbD bit <;> simp [hlt]

theorem removeRangeChunk_spec (hfirst : r.firstChunk ≤ k) (hlast : k ≤ r.lastChunk)
    (h : Removing others T r.covers k st) :
    Removing others T r.covers (k + 1) (removeRangeChunk others r st k) := by
  have hcovers : ∀ fd, fd / FD_CHUNK_SIZE = k →
      r.covers fd = (r.mask k).getLsbD (fd % FD_CHUNK_SIZE) := by
    intro fd hfd
    subst hfd
    simp [covers, hfirst, hlast]
  have hpending : ∀ fd, fd / FD_CHUNK_SIZE = k →
      (st.1.pending r k).getLsbD (fd % FD_CHUNK_SIZE) = ((T.get fd).isSome && r.covers fd) := by
    intro fd hfd
    have hbit := pending_bit (T := st.1) r fd
    rw [h.bits, h.later hfd] at hbit
    rw [hcovers fd hfd]
    subst hfd
    exact hbit
  unfold removeRangeChunk
  simp only
  split
  · rename_i hzero
    refine h.skip fun fd hfd hcov => ?_
    have hbit := hpending fd hfd
    rw [hzero, hcov, Bool.and_true] at hbit
    simpa using hbit.symm
  · split
    · rename_i c hc
      have hbits := drainBits_spec (st.1.pending r k) ⟨st.1.cells.mem c, st.2, 0⟩ rfl
      generalize (setBits (st.1.pending r k)).foldl removeBit ⟨st.1.cells.mem c, st.2, 0⟩ =
        drained at hbits ⊢
      have hpend : ∀ bit < FD_CHUNK_SIZE, (st.1.pending r k).getLsbD bit =
          (((st.1.cells.mem c).entry bit).isSome && r.covers (k * FD_CHUNK_SIZE + bit)) := by
        intro bit hbit
        have hfd := hpending (k * FD_CHUNK_SIZE + bit) (div_chunk hbit)
        rw [mod_chunk hbit] at hfd
        rw [hfd, h.entry hc hbit]
      have hcount := hbits.countOnes
      have hmask : ∀ fd, fd / FD_CHUNK_SIZE = k →
          drained.removedMask.getLsbD (fd % FD_CHUNK_SIZE) = (st.1.isOpen fd && r.covers fd) := by
        intro fd hfd
        have hlt := mod_lt_chunk fd
        rw [hbits.mask, hpending fd hfd, h.bits, h.later hfd, h.slot hc hfd]
        cases (T.get fd).isSome <;> simp [hlt]
      -- with an empty mask the books stay, as `closedMask` would leave them
      have hbooks : ∀ {T' : FdTable ω}, T' = (if drained.removedMask ≠ 0 then
          { st.1.editChunk others k c drained.chunk with
            storage := (st.1.editChunk others k c drained.chunk).storage.closedMask k
              drained.removedMask }
          else st.1.editChunk others k c drained.chunk) →
          T'.cells = (st.1.editChunk others k c drained.chunk).cells ∧
          T'.storage.chunks = (st.1.editChunk others k c drained.chunk).storage.chunks ∧
          T'.storage.openFds.length = st.1.storage.openFds.length ∧
          (∀ fd, T'.isOpen fd = (st.1.isOpen fd && !(decide (fd / FD_CHUNK_SIZE = k) &&
              drained.removedMask.getLsbD (fd % FD_CHUNK_SIZE)))) ∧
          T'.storage.count = st.1.storage.count - countOnes drained.removedMask := by
        intro T' hT'
        split at hT'
        · subst hT'
          refine ⟨rfl, rfl, by simp [closedMask, editChunk], fun fd => ?_, rfl⟩
          exact isOpen_closedMask ..
        · rename_i hzero
          subst hT'
          have hz : drained.removedMask = 0 := by simpa using hzero
          refine ⟨rfl, rfl, rfl, fun fd => ?_, ?_⟩
          · simp [hz]
          · simp [hz, countOnes]
      obtain ⟨hcells, hchunks, hlen, hopen, hcnt⟩ := hbooks rfl
      refine h.chunk hc drained.chunk (fun bit hbit => ?_) ?_ hcells hchunks hlen
        (fun fd => ?_) (by rw [hcnt, hcount])
      · rw [hbits.entry, hpend bit hbit]
        cases (st.1.cells.mem c).entry bit <;> simp [hbit]
      · rw [hbits.removed]
        congr 1
        refine filterMap_congr fun bit hbit => ?_
        rw [hpend bit (mem_range.mp hbit)]
        cases (st.1.cells.mem c).entry bit <;> simp
      · rw [hopen]
        by_cases hk : fd / FD_CHUNK_SIZE = k
        · rw [hmask fd hk]
          cases st.1.isOpen fd <;> simp [hk]
        · simp [hk]
    · rename_i hno
      refine h.skip fun fd hfd _ => ?_
      rw [← h.later hfd]
      exact get_of_no_chunk fun c hc => hno c (hfd ▸ hc)

/-- **`remove_range` removes the descriptors that the range covers.** -/
theorem removeRange_spec (others : Nat → Nat) (hT : Sound T) (hr : r.Fits T first last) :
    Removed others T r.covers (removeRange others r T) := by
  have hle := hr.firstChunk_le
  have hlt := hr.lastChunk_lt
  have hbound := hT.bounded
  have hloop := Loop.foldl_range'_invariant (I := Removing others T r.covers)
    (f := removeRangeChunk others r) (r.lastChunk + 1 - r.firstChunk) r.firstChunk (T, [])
    (hT.removing others fun fd hfd => by
      unfold covers
      rw [decide_eq_false (by omega), Bool.false_and])
    fun k hk hk' st h => removeRangeChunk_spec hk (by omega) h
  refine hloop.done hT (by omega) fun fd hfd hcov => ?_
  unfold covers at hcov
  rw [decide_eq_false (by omega), Bool.false_and] at hcov
  cases hcov

theorem removeRangeEarly_error (hT : Sound T) (h : T.removeRangeEarly first last = .error removed) :
    removed = [] ∧ ∀ fd, T.covered first last fd = true → T.get fd = none := by
  unfold removeRangeEarly at h
  unfold covered
  split at h
  · rename_i hr
    cases h
    rw [hr]
    exact ⟨rfl, nofun⟩
  · rename_i r hr
    rw [hr]
    split at h
    · cases h
    · rename_i hno
      cases h
      refine ⟨rfl, fun fd hcov => ?_⟩
      unfold covers at hcov
      rw [Bool.and_eq_true, decide_eq_true_iff] at hcov
      by_contra hsome
      refine hno (any_eq_true.mpr ⟨fd / FD_CHUNK_SIZE,
        (mem_chunkIdxs (range_some hr).firstChunk_le).mpr hcov.1, ?_⟩)
      have hbit := pending_bit (T := T) r fd
      rw [hT.bits, hcov.2, Bool.and_true, isSome_iff_ne_none.mpr hsome] at hbit
      rw [bne_iff_ne]
      intro hzero
      rw [hzero] at hbit
      simp at hbit

theorem removeRangeEarly_ok (h : T.removeRangeEarly first last = .ok r) :
    T.range first last = some r := by
  unfold removeRangeEarly at h
  split at h
  · cases h
  · rename_i r' hr
    split at h
    · cases h
      exact hr
    · cases h

/-! ## Marking a range -/

theorem setCloexecBits_spec (pending : BitVec 64) (chunk : FdChunk ω) (bit : Nat) :
    ((setBits pending).foldl setCloexecBit chunk).entry bit =
      if pending.getLsbD bit then (chunk.entry bit).map setCloexec else chunk.entry bit := by
  have hloop := Loop.foldl_range_invariant
    (f := fun st n => if pending.getLsbD n then setCloexecBit st n else st)
    (I := fun n st => ∀ bit, st.entry bit = if bit < n ∧ pending.getLsbD bit = true then
      (chunk.entry bit).map setCloexec else chunk.entry bit)
    FD_CHUNK_SIZE chunk (fun bit => by simp) ?_
  · rw [setBits_eq, foldl_filter]
    refine (hloop bit).trans (if_congr ⟨fun h => h.2, fun h => ⟨?_, h⟩⟩ rfl rfl)
    by_contra hge
    rw [BitVec.getLsbD_of_ge pending bit (Nat.le_of_not_lt hge)] at h
    cases h
  · intro n hn st h bit
    have hentry : st.entry n = chunk.entry n := by rw [h, if_neg (by omega)]
    have hlt : bit ≠ n → (bit < n + 1 ↔ bit < n) := by omega
    have hset : (setCloexecBit st n).entry bit =
        if bit = n then (chunk.entry n).map setCloexec else st.entry bit := by
      unfold setCloexecBit
      rw [hentry]
      cases he : chunk.entry n with
      | none =>
        by_cases hbit : bit = n
        · simp [hbit, hentry, he]
        · simp [hbit]
      | some entry => simp [entry_set _ hn]
    cases hp : pending.getLsbD n with
    | false =>
      by_cases hbit : bit = n
      · simp [hbit, hp, hentry]
      · simp [hlt hbit, h bit]
    | true =>
      simp only [if_true, hset]
      by_cases hbit : bit = n
      · simp [hbit, hp]
      · simp [hbit, hlt hbit, h bit]

/-- The state of a loop over chunks that marks the descriptors of `P`, before chunk `k`. -/
structure Marking (others : Nat → Nat) (T : FdTable ω) (P : Nat → Bool) (k : Nat)
    (T' : FdTable ω) : Prop where
  laid : Laid T'
  frame : Frame others T T'
  length : T'.storage.chunks.length = T.storage.chunks.length
  isOpen : ∀ fd, T'.isOpen fd = T.isOpen fd
  count : T'.storage.count = T.storage.count
  get : ∀ fd, T'.get fd = if fd / FD_CHUNK_SIZE < k ∧ P fd = true then
    (T.get fd).map setCloexec else T.get fd

theorem Marking.skip {P : Nat → Bool} (h : Marking others T P k T')
    (hnone : ∀ fd, fd / FD_CHUNK_SIZE = k → P fd = true → T.get fd = none) :
    Marking others T P (k + 1) T' := by
  refine ⟨h.laid, h.frame, h.length, h.isOpen, h.count, fun fd => ?_⟩
  rw [h.get]
  by_cases hk : fd / FD_CHUNK_SIZE = k ∧ P fd = true
  · simp [hnone fd hk.1 hk.2]
  · exact if_congr (lt_succ_and_iff fun hp he => hk ⟨he, hp⟩).symm rfl rfl

theorem setCloexecRangeChunk_spec (hT : Sound T)
    (hfirst : r.firstChunk ≤ k) (hlast : k ≤ r.lastChunk) (h : Marking others T r.covers k T') :
    Marking others T r.covers (k + 1) (setCloexecRangeChunk others r T' k) := by
  have hlater : ∀ fd, fd / FD_CHUNK_SIZE = k → T'.get fd = T.get fd := by
    intro fd hfd
    rw [h.get, if_neg (by omega)]
  have hpending : ∀ fd, fd / FD_CHUNK_SIZE = k →
      (T'.pending r k).getLsbD (fd % FD_CHUNK_SIZE) = ((T.get fd).isSome && r.covers fd) := by
    intro fd hfd
    have hbit := pending_bit (T := T') r fd
    rw [h.isOpen, hT.bits] at hbit
    subst hfd
    rw [hbit, covers, decide_eq_true ⟨hfirst, hlast⟩, Bool.true_and]
  unfold setCloexecRangeChunk
  simp only
  split
  · rename_i hzero
    refine h.skip fun fd hfd hcov => ?_
    have hbit := hpending fd hfd
    rw [hzero, hcov, Bool.and_true] at hbit
    simpa using hbit.symm
  · split
    · rename_i c hc
      refine ⟨editChunk_laid others h.laid hc _, h.frame.trans (editChunk_frame others hc _),
        (editChunk_length others _).trans h.length, fun fd => h.isOpen fd, h.count, fun fd => ?_⟩
      rw [editChunk_get others h.laid hc]
      by_cases hk : fd / FD_CHUNK_SIZE = k
      · have hslot : (T'.cells.mem c).entry (fd % FD_CHUNK_SIZE) = T.get fd := by
          rw [← hlater fd hk, get_of_chunk (by rw [hk]; exact hc)]
        rw [if_pos hk, setCloexecBits_spec, hslot, hpending fd hk]
        cases T.get fd <;> simp [hk]
      · rw [if_neg hk, h.get]
        have hlt : fd / FD_CHUNK_SIZE < k + 1 ↔ fd / FD_CHUNK_SIZE < k := by omega
        simp only [hlt]
    · rename_i hno
      refine h.skip fun fd hfd _ => ?_
      rw [← hlater fd hfd]
      exact get_of_no_chunk fun c hc => hno c (hfd ▸ hc)

/-- **`set_cloexec_range` marks the descriptors that the range covers.** -/
theorem setCloexecRange_spec (others : Nat → Nat) (hT : Sound T) (hr : r.Fits T first last) :
    Sound (setCloexecRange others r T) ∧ Frame others T (setCloexecRange others r T) ∧
      ∀ fd, (setCloexecRange others r T).get fd =
        if r.covers fd then (T.get fd).map setCloexec else T.get fd := by
  have hle := hr.firstChunk_le
  have hloop := Loop.foldl_range'_invariant (I := Marking others T r.covers)
    (f := setCloexecRangeChunk others r) (r.lastChunk + 1 - r.firstChunk) r.firstChunk T
    ⟨hT.toLaid, Frame.refl .., rfl, fun _ => rfl, rfl, fun fd => by
      rw [if_neg]
      rintro ⟨hlt, hcov⟩
      unfold covers at hcov
      rw [decide_eq_false (by omega), Bool.false_and] at hcov
      cases hcov⟩
    fun k hk hk' st h => setCloexecRangeChunk_spec hT hk (by omega) h
  have hget : ∀ fd, (setCloexecRange others r T).get fd =
      if r.covers fd then (T.get fd).map setCloexec else T.get fd := by
    intro fd
    refine (hloop.get fd).trans (if_congr ⟨fun h => h.2, fun h => ⟨?_, h⟩⟩ rfl rfl)
    unfold covers at h
    rw [Bool.and_eq_true, decide_eq_true_iff] at h
    omega
  refine ⟨hT.congr hloop.laid hloop.isOpen hloop.count fun fd => ?_, hloop.frame, hget⟩
  rw [hget]
  split
  · exact Option.isSome_map
  · rfl

theorem setCloexecRangeEarly_ok (h : T.setCloexecRangeEarly first last = .ok r) :
    T.range first last = some r := by
  unfold setCloexecRangeEarly at h
  split at h
  · cases h
  · rename_i r' hr
    split at h
    · cases h
      exact hr
    · cases h

theorem setCloexecRangeEarly_error (hT : Sound T)
    (h : T.setCloexecRangeEarly first last = .error ())
    (hcov : T.covered first last fd = true) : (T.get fd).map setCloexec = T.get fd := by
  unfold setCloexecRangeEarly at h
  unfold covered at hcov
  split at h
  · rename_i hr
    rw [hr] at hcov
    cases hcov
  · rename_i r hr
    rw [hr] at hcov
    split at h
    · cases h
    · rename_i hno
      unfold covers at hcov
      rw [Bool.and_eq_true, decide_eq_true_iff] at hcov
      cases he : T.get fd with
      | none => rfl
      | some entry =>
        cases hcl : entry.flags.cloexec with
        | true =>
          have : entry.setCloexec = entry := by
            unfold setCloexec
            rw [← hcl]
          rw [map_some, this]
        | false =>
          refine absurd (any_eq_true.mpr ⟨fd / FD_CHUNK_SIZE,
            (mem_chunkIdxs (range_some hr).firstChunk_le).mpr hcov.1, ?_⟩) hno
          have hsome : T.get fd ≠ none := by
            rw [he]
            exact some_ne_none _
          obtain ⟨c, hc⟩ := chunk_of_get hsome
          unfold changesChunk
          rw [hc]
          refine any_eq_true.mpr ⟨fd % FD_CHUNK_SIZE, mem_setBits.mpr ?_, ?_⟩
          · rw [pending_bit, hcov.2, Bool.and_true, hT.bits, he]
            rfl
          · rw [← get_of_chunk hc, he]
            simp [hcl]

end FdTable

end PulseOS.Fd
