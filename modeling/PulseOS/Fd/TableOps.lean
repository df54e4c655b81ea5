import PulseOS.Fd.TableSound

/-!
# Operations on one descriptor

`insertAt_spec`, `remove_spec`, `getMut_spec`: each operation keeps `Sound`, leaves shared chunks
alone and changes the map at its descriptor only.
-/

namespace PulseOS.Fd

open Arc Bitmap List FdTableStorage List

variable {ω : Type}

/-! ## Growing -/

namespace FdTableStorage

variable {chunkIdx len : Nat}

/-- Doubling ends above the index. -/
theorem doubled_spec (hidx : chunkIdx < USIZE_MAX) : ∀ (k len : Nat), 0 < len → chunkIdx < len + k →
      len ≤ doubled k len chunkIdx ∧ chunkIdx < doubled k len chunkIdx := by
  intro k
  induction k with
  | zero =>
    intro len _ hlt
    exact ⟨le_refl _, hlt⟩
  | succ k ih =>
    intro len hpos hlt
    unfold doubled
    split
    · rename_i hle
      have hgrow : len < min (len * 2) USIZE_MAX := by omega
      obtain ⟨hge, hgt⟩ := ih (min (len * 2) USIZE_MAX) (by omega) (by omega)
      exact ⟨by omega, hgt⟩
    · rename_i hgt
      exact ⟨le_refl _, by omega⟩

theorem getElem?_resize {α : Type} {l : List α} (h : l.length ≤ len) (x : α) (j : Nat) :
    (resize l len x)[j]? = if j < l.length then l[j]? else if j < len then some x else none := by
  unfold resize
  rw [take_of_length_le h, getElem?_append, getElem?_replicate]
  split
  · rfl
  · congr 1
    simp only [eq_iff_iff]
    omega

theorem length_resize {α : Type} {l : List α} (h : l.length ≤ len) (x : α) :
    (resize l len x).length = len := by
  simp [resize, take_of_length_le h, h]

/-- **The vectors grow to hold the index and nothing else changes.** -/
theorem reserve_spec {s : FdTableStorage} (hidx : chunkIdx < MAX_CHUNKS)
    (hlen : s.openFds.length = s.chunks.length) (hbound : s.chunks.length ≤ MAX_CHUNKS) :
    ∃ s', s.reserve chunkIdx = some s' ∧ s'.openFds.length = s'.chunks.length ∧
      s'.chunks.length ≤ MAX_CHUNKS ∧ chunkIdx < s'.chunks.length ∧ s'.count = s.count ∧
      (∀ j c : Nat, s'.chunks[j]? = some (some c) ↔ s.chunks[j]? = some (some c)) ∧
      ∀ fd, s'.isOpen fd = s.isOpen fd := by
  have husize : chunkIdx < USIZE_MAX := hidx.trans (by decide)
  unfold reserve
  split
  · rename_i hshort
    obtain ⟨hge, hgt⟩ := doubled_spec husize (chunkIdx + 1) (max 1 s.chunks.length) (by omega)
      (by omega)
    generalize doubled (chunkIdx + 1) (max 1 s.chunks.length) chunkIdx = len at hge hgt ⊢
    have hfit : s.chunks.length ≤ min len MAX_CHUNKS := by omega
    have hfit' : s.openFds.length ≤ min len MAX_CHUNKS := by omega
    rw [if_neg (by omega)]
    refine ⟨_, rfl, ?_, ?_, ?_, rfl, fun j c => ?_, fun fd => ?_⟩
    · show (resize s.openFds _ 0).length = (resize s.chunks _ none).length
      rw [length_resize hfit', length_resize hfit]
    · show (resize s.chunks _ none).length ≤ MAX_CHUNKS
      rw [length_resize hfit]
      exact min_le_right _ _
    · show chunkIdx < (resize s.chunks _ none).length
      rw [length_resize hfit]
      omega
    · show (resize s.chunks _ none)[j]? = some (some c) ↔ _
      rw [getElem?_resize hfit]
      split
      · rfl
      · rename_i hj
        rw [getElem?_eq_none (Nat.le_of_not_lt hj)]
        split <;> simp
    · simp only [isOpen, getD_eq_getElem?_getD, getElem?_resize hfit']
      split
      · rfl
      · rename_i hj
        rw [getElem?_eq_none (Nat.le_of_not_lt hj)]
        split <;> rfl
  · rename_i hroom
    exact ⟨s, rfl, hlen, hbound, by omega, rfl, fun _ _ => Iff.rfl, fun _ => rfl⟩

end FdTableStorage

/-! ## Counting -/

/-- One more number of a range has a value. -/
theorem countP_isSome_update {β : Type} {f g : Nat → Option β} {k : Nat}
    (hf : f k = none) (hg : (g k).isSome = true) (hfg : ∀ x, x ≠ k → g x = f x) :
    ∀ {n : Nat}, k < n → (range n).countP (fun x => (g x).isSome) =
      (range n).countP (fun x => (f x).isSome) + 1 := by
  intro n
  induction n with
  | zero =>
    intro hk
    omega
  | succ n ih =>
    intro hk
    rw [range_succ, countP_append, countP_append]
    by_cases hkn : k = n
    · subst hkn
      have hsame : (range k).countP (fun x => (g x).isSome) =
          (range k).countP fun x => (f x).isSome := by
        refine countP_congr fun x hx => ?_
        rw [hfg x (by have := mem_range.mp hx; omega)]
      simp [hsame, hf, hg]
    · rw [ih (by omega)]
      simp only [countP_singleton, hfg n (Ne.symm hkn)]
      omega

namespace FdTable

/-! ## One descriptor -/

theorem mapped_le (T : FdTable ω) : T.mapped ≤ FD_LIMIT := countP_le_length.trans (by simp)

variable {c fd i : Nat} {T T' : FdTable ω}

theorem eq_of_div_mod {fd' : Nat} (hdiv : fd' / FD_CHUNK_SIZE = fd / FD_CHUNK_SIZE)
    (hmod : fd' % FD_CHUNK_SIZE = fd % FD_CHUNK_SIZE) : fd' = fd := by
  unfold FD_CHUNK_SIZE at *
  omega

variable {T : FdTable ω}

section

variable (others : Nat → Nat)

include others

/-- `T'` is `T` with one slot of a chunk rewritten. -/
theorem editChunk_set_get (hT : Laid T)
    (hc : T.storage.chunks[fd / FD_CHUNK_SIZE]? = some (some c)) (slot : Option (FdEntry ω))
    (fd' : Nat) :
    (T.editChunk others (fd / FD_CHUNK_SIZE) c
      ((T.cells.mem c).set (fd % FD_CHUNK_SIZE) slot)).get fd' =
        if fd' = fd then slot else T.get fd' := by
  rw [editChunk_get others hT hc]
  by_cases hdiv : fd' / FD_CHUNK_SIZE = fd / FD_CHUNK_SIZE
  · have hget : T.get fd' = (T.cells.mem c).entry (fd' % FD_CHUNK_SIZE) :=
      get_of_chunk (by rw [hdiv]; exact hc)
    rw [if_pos hdiv, FdChunk.entry_set _ (mod_lt_chunk fd), hget]
    by_cases hmod : fd' % FD_CHUNK_SIZE = fd % FD_CHUNK_SIZE
    · rw [if_pos hmod, if_pos (eq_of_div_mod hdiv hmod)]
    · rw [if_neg hmod, if_neg fun h => hmod (by rw [h])]
  · rw [if_neg hdiv, if_neg fun h => hdiv (by rw [h])]

theorem ensureChunk_spec (hT : Laid T) (hi : i < T.storage.chunks.length) :
    Laid (T.ensureChunk i).1 ∧ Frame others T (T.ensureChunk i).1 ∧
      (T.ensureChunk i).1.storage.chunks[i]? = some (some (T.ensureChunk i).2) ∧
      (T.ensureChunk i).1.storage.count = T.storage.count ∧
      (T.ensureChunk i).1.storage.openFds = T.storage.openFds ∧
      ∀ fd, (T.ensureChunk i).1.get fd = T.get fd := by
  unfold ensureChunk
  split
  · rename_i c hc
    exact ⟨hT, Frame.refl .., hc, rfl, rfl, fun _ => rfl⟩
  · rename_i hno
    have hold : ∀ {j c : Nat}, T.storage.chunks[j]? = some (some c) →
        (T.cells.alloc FdChunk.default).1.mem c = T.cells.mem c := fun hc =>
      T.cells.alloc_mem_of_lt _ (hT.lt_next hc)
    refine ⟨⟨?_, ?_, fun c hc => ?_⟩, ⟨Nat.le_succ _, fun c hc _ => ?_⟩, ?_, rfl, rfl, fun fd => ?_⟩
    · show T.storage.openFds.length = (T.storage.chunks.set i _).length
      rw [length_set, hT.lengths]
    · show (T.storage.chunks.set i _).length ≤ MAX_CHUNKS
      rw [length_set]
      exact hT.bounded
    · rcases mem_or_eq_of_mem_set hc with hmem | hnew
      · exact (hT.allocated c hmem).trans (Nat.lt_succ_self _)
      · cases hnew
        exact Nat.lt_succ_self _
    · exact T.cells.alloc_mem_of_lt _ hc
    · simp [hi]
    · by_cases hfd : fd / FD_CHUNK_SIZE = i
      · have hnone : T.get fd = none := get_of_no_chunk fun c hc => hno c (hfd ▸ hc)
        rw [hnone, get_of_chunk (c := T.cells.next) (by
          show (T.storage.chunks.set i _)[fd / FD_CHUNK_SIZE]? = _
          simp [hfd, hi, Heap.alloc])]
        show ((T.cells.alloc FdChunk.default).1.mem T.cells.next).entry _ = none
        rw [T.cells.alloc_mem_self, FdChunk.entry_default]
      · unfold get
        simp only [getElem?_set, Ne.symm hfd, if_false]
        split
        · rename_i c hc
          rw [hold hc]
        · rfl

omit others in
theorem Sound.congr (hT : Sound T) (hlaid : Laid T')
    (hopen : ∀ fd, T'.isOpen fd = T.isOpen fd) (hcount : T'.storage.count = T.storage.count)
    (hget : ∀ fd, (T'.get fd).isSome = (T.get fd).isSome) : Sound T' := by
  refine ⟨hlaid, fun fd => ?_, ?_⟩
  · rw [hopen, hT.bits, hget]
  · rw [hcount, hT.counted]
    unfold mapped
    simp only [hget]

omit others in
theorem get_congr (hcells : T'.cells = T.cells)
    (hchunks : ∀ j c : Nat, T'.storage.chunks[j]? = some (some c) ↔
      T.storage.chunks[j]? = some (some c)) (fd : Nat) : T'.get fd = T.get fd := by
  by_cases h : ∃ c, T.storage.chunks[fd / FD_CHUNK_SIZE]? = some (some c)
  · obtain ⟨c, hc⟩ := h
    rw [get_of_chunk hc, get_of_chunk ((hchunks _ c).mpr hc), hcells]
  · rw [get_of_no_chunk fun c hc => h ⟨c, hc⟩,
      get_of_no_chunk fun c hc => h ⟨c, (hchunks _ c).mp hc⟩]

/-- `T'` is `T` with `x` at `fd`. -/
abbrev Assigned (T T' : FdTable ω) (fd : Nat) (x : Option (FdEntry ω)) : Prop :=
  Sound T' ∧ Frame others T T' ∧ ∀ fd', T'.get fd' = if fd' = fd then x else T.get fd'

section
variable (hT : Sound T)
include hT

/-- Room for a chunk and the chunk itself, before the slot is written. -/
theorem Sound.prepare (hi : i < MAX_CHUNKS) :
    ∃ s U c, T.storage.reserve i = some s ∧ ensureChunk { T with storage := s } i = (U, c) ∧
      Sound U ∧ Frame others T U ∧ U.storage.chunks[i]? = some (some c) ∧
      ∀ fd, U.get fd = T.get fd := by
  obtain ⟨s, hres, hlen, hbound, hroom, hcount, hchunks, hopen⟩ :=
    reserve_spec hi hT.lengths hT.bounded
  have hlaid : Laid { T with storage := s } := ⟨hlen, hbound, fun c hc => by
    obtain ⟨j, hj⟩ := mem_iff_getElem?.mp hc
    exact hT.lt_next ((hchunks j c).mp hj)⟩
  obtain ⟨hlaid', hframe, hc, hcount', hopen', hget⟩ := ensureChunk_spec others hlaid hroom
  have hget' : ∀ fd, (ensureChunk { T with storage := s } i).1.get fd = T.get fd := by
    intro fd
    rw [hget fd]
    exact get_congr (by rfl) hchunks fd
  have hopen'' : ∀ fd, (ensureChunk { T with storage := s } i).1.isOpen fd = T.isOpen fd := by
    intro fd
    rw [isOpen, FdTableStorage.isOpen, hopen']
    exact hopen fd
  exact ⟨s, _, _, hres, rfl, hT.congr hlaid' hopen'' (hcount'.trans hcount) fun fd =>
    congrArg Option.isSome (hget' fd), ⟨hframe.next, hframe.held⟩, hc, hget'⟩

theorem Sound.fill (hfd : fd < FD_LIMIT) (hfree : T.get fd = none)
    (hc : T.storage.chunks[fd / FD_CHUNK_SIZE]? = some (some c)) (entry : FdEntry ω) {U : FdTable ω}
    (hU : U = { T with storage := T.storage.opened (fd / FD_CHUNK_SIZE) (fd % FD_CHUNK_SIZE) })
    (hT' : T' = U.editChunk others (fd / FD_CHUNK_SIZE) c
      ((U.cells.mem c).set (fd % FD_CHUNK_SIZE) (some entry))) :
    Assigned others T T' fd (some entry) := by
  have hcU : U.storage.chunks[fd / FD_CHUNK_SIZE]? = some (some c) := by
    rw [hU]
    exact hc
  have hlaid : Laid U := by
    rw [hU]
    exact ⟨by simpa [opened] using hT.lengths, hT.bounded, hT.allocated⟩
  have hidx : fd / FD_CHUNK_SIZE < T.storage.openFds.length := by
    rw [hT.lengths]
    exact (List.getElem?_eq_some_iff.mp hc).1
  have hget : ∀ fd', T'.get fd' = if fd' = fd then some entry else T.get fd' := by
    intro fd'
    rw [hT', editChunk_set_get others hlaid hcU, hU]
    rfl
  have hframe : Frame others U T' := hT' ▸ editChunk_frame others hcU _
  refine ⟨⟨hT' ▸ editChunk_laid others hlaid hcU _, fun fd' => ?_, ?_⟩, ?_, hget⟩
  · rw [hget, hT', editChunk_isOpen, hU]
    show (T.storage.opened _ _).isOpen fd' = _
    have hbit : T.storage.isOpen fd' = (T.get fd').isSome := hT.bits fd'
    rw [isOpen_opened _ hidx (mod_lt_chunk fd), hbit]
    by_cases he : fd' = fd
    · subst he
      simp
    · have hne : ¬(fd' / FD_CHUNK_SIZE = fd / FD_CHUNK_SIZE ∧
          fd' % FD_CHUNK_SIZE = fd % FD_CHUNK_SIZE) := fun h => he (eq_of_div_mod h.1 h.2)
      simp [he, hne]
  · have hgrow : T'.mapped = T.mapped + 1 :=
      countP_isSome_update hfree (by rw [hget]; simp) (fun x hx => by rw [hget]; simp [hx]) hfd
    have hle := mapped_le T'
    rw [hT', editChunk_count, ← hT', hU, hgrow]
    show min (T.storage.count + 1) USIZE_MAX = _
    rw [hT.counted]
    refine min_eq_left ?_
    rw [hgrow] at hle
    exact hle.trans (by decide)
  · rw [hU] at hframe
    exact ⟨hframe.next, hframe.held⟩

theorem Sound.refill (hfull : (T.get fd).isSome = true)
    (hc : T.storage.chunks[fd / FD_CHUNK_SIZE]? = some (some c)) (entry : FdEntry ω)
    (hT' : T' = T.editChunk others (fd / FD_CHUNK_SIZE) c
      ((T.cells.mem c).set (fd % FD_CHUNK_SIZE) (some entry))) :
    Assigned others T T' fd (some entry) := by
  have hget : ∀ fd', T'.get fd' = if fd' = fd then some entry else T.get fd' := by
    intro fd'
    rw [hT', editChunk_set_get others hT.toLaid hc]
  refine ⟨hT.congr (hT' ▸ editChunk_laid others hT.toLaid hc _) (fun fd' => ?_) ?_ fun fd' => ?_,
    hT' ▸ editChunk_frame others hc _, hget⟩
  · rw [hT', editChunk_isOpen]
  · rw [hT', editChunk_count]
  · rw [hget]
    split
    · rename_i he
      rw [he, hfull]
      rfl
    · rfl

/-- **`insert_at` maps its descriptor and no other.** -/
theorem insertAt_spec (hfd : fd < FD_LIMIT) (entry : FdEntry ω) :
    ∃ T', insertAt others T fd entry = (T', .ok ()) ∧ Assigned others T T' fd (some entry) := by
  have hidx : fd / FD_CHUNK_SIZE < MAX_CHUNKS := by
    unfold MAX_CHUNKS FD_LIMIT FD_CHUNK_SIZE at *
    omega
  obtain ⟨s, U, c, hres, hensure, hU, hframe, hc, hget⟩ := hT.prepare others hidx
  have hslot : (U.cells.mem c).entry (fd % FD_CHUNK_SIZE) = U.get fd := (get_of_chunk hc).symm
  unfold insertAt
  simp only [hres, hensure, hslot]
  split
  · rename_i hfree
    obtain ⟨hsound, hframe', hget'⟩ := hU.fill others hfd (by simpa using hfree) hc entry rfl rfl
    refine ⟨_, rfl, hsound, hframe.trans hframe', fun fd' => ?_⟩
    rw [← hget fd']
    exact hget' fd'
  · rename_i hfull
    obtain ⟨hsound, hframe', hget'⟩ := hU.refill others
      (Option.isSome_iff_ne_none.mpr (by simpa using hfull)) hc entry rfl
    refine ⟨_, rfl, hsound, hframe.trans hframe', fun fd' => ?_⟩
    rw [← hget fd']
    exact hget' fd'

/-- **`remove` unmaps its descriptor and no other.** -/
theorem remove_spec (hfd : T.get fd ≠ none) :
    ∃ T', remove others T fd = (T', T.get fd) ∧ Assigned others T T' fd none := by
  obtain ⟨c, hc⟩ := chunk_of_get hfd
  have hslot : (T.cells.mem c).entry (fd % FD_CHUNK_SIZE) = T.get fd := (get_of_chunk hc).symm
  have hsome : (T.get fd).isSome = true := Option.isSome_iff_ne_none.mpr hfd
  have hlimit : fd < FD_LIMIT := by
    by_contra hge
    exact hfd (hT.get_limit (Nat.le_of_not_lt hge))
  unfold remove
  simp only [hc, hslot, hsome, if_true]
  have hlaid := editChunk_laid others hT.toLaid hc ((T.cells.mem c).set (fd % FD_CHUNK_SIZE) none)
  have hget := editChunk_set_get others hT.toLaid hc none
  have hframe := editChunk_frame others hc ((T.cells.mem c).set (fd % FD_CHUNK_SIZE) none)
  generalize hE : T.editChunk others (fd / FD_CHUNK_SIZE) c
    ((T.cells.mem c).set (fd % FD_CHUNK_SIZE) none) = E at hlaid hget hframe ⊢
  have hEopen : ∀ fd', E.storage.isOpen fd' = (T.get fd').isSome := by
    intro fd'
    rw [← hE]
    exact hT.bits fd'
  have hEcount : E.storage.count = T.mapped := by
    rw [← hE]
    exact hT.counted
  refine ⟨_, rfl, ⟨⟨?_, hlaid.bounded, hlaid.allocated⟩, fun fd' => ?_, ?_⟩,
    ⟨hframe.next, hframe.held⟩, hget⟩
  · simpa [closed] using hlaid.lengths
  · show (E.storage.closed _ _).isOpen fd' = (E.get fd').isSome
    rw [isOpen_closed _ _ (mod_lt_chunk fd), hEopen, hget]
    by_cases he : fd' = fd
    · subst he
      simp
    · have hne : ¬(fd' / FD_CHUNK_SIZE = fd / FD_CHUNK_SIZE ∧
          fd' % FD_CHUNK_SIZE = fd % FD_CHUNK_SIZE) := fun h => he (eq_of_div_mod h.1 h.2)
      simp [he, hne]
  · have hgrow : T.mapped = E.mapped + 1 :=
      countP_isSome_update (by rw [hget]; simp) hsome (fun x hx => by rw [hget]; simp [hx]) hlimit
    show E.storage.count - 1 = E.mapped
    omega

/-- **`get_mut` gives access to one entry.** -/
theorem getMut_spec (hfd : T.get fd ≠ none) (f : FdEntry ω → FdEntry ω) :
    ∃ T', getMut others T fd f = (T', T.get fd) ∧ Assigned others T T' fd ((T.get fd).map f) := by
  obtain ⟨c, hc⟩ := chunk_of_get hfd
  obtain ⟨entry, hentry⟩ := Option.ne_none_iff_exists'.mp hfd
  have hslot : (T.cells.mem c).entry (fd % FD_CHUNK_SIZE) = T.get fd := (get_of_chunk hc).symm
  unfold getMut
  simp only [hc, hslot, hentry, Option.map_some]
  obtain ⟨hsound, hframe, hget⟩ := hT.refill others (by rw [hentry]; rfl) hc (f entry) rfl
  exact ⟨_, rfl, hsound, hframe, hget⟩

end

end

end FdTable

end PulseOS.Fd
