import PulseOS.Fd.PipeMoves
import PulseOS.Lib.Threads

/-!
# Capacity and ownership of donated pages

Any number of threads on one pipe.  `read_zerocopy` takes pages out of the queue, maps them outside
the locks, and puts those that it could not map back; in the meantime the room that they took is
free for `write`, `write_zerocopy` and `set_pipe_size`.

* `run_unreadAtFront` — what a `read_zerocopy` puts back is at the front of the queue, in its
  order.
* `run_bounded` — the pipe never exceeds its capacity in runs that meet `KeepsRoom`, which asks
  for room for the pages that may come back.  `pages_put_back_exceed_capacity` is a run without it.
-/

namespace PulseOS.Fd

open Transition Threads Function ZeroCopyPage PipeShared

/-- The donated frames that a call holds a reference to. -/
def Phase.frames {α : Type} : Phase α → List Nat
  | .pinned _ frames => frames
  | .copying _ pages | .mapping pages => pages.map paddr
  | .returning _ unread => unread.map paddr
  | _ => []

/-- The bytes that a `read_zerocopy` may put back. -/
def Phase.held {α : Type} : Phase α → Nat
  | .mapping pages => zeroCopyBytes pages
  | .returning _ unread => zeroCopyBytes unread
  | _ => 0

def Action.thread {τ β : Type} : Action τ β → Option τ
  | .write t .. | .writeChunk t | .writeReturn t _ | .writeZerocopy t .. | .pin t .. | .accept t
  | .writeZerocopyReturn t _ | .read t .. | .takePages t | .takeRing t | .readRetry t
  | .readReturn t .. | .readZerocopy t .. | .gather t | .remap t _ | .putBack t _ => some t
  | .setPipeSize _ | .openEnd _ | .closeEnd _ => none

namespace System

variable {τ β : Type} [Fintype τ]

/-- Every reference to a donated frame is in exactly one place. -/
def Owned (s : System τ β) : Prop :=
  ∀ frame, s.donated.count frame = (s.pipe.zcPages.map paddr).count frame +
      total (fun phase => phase.frames.count frame) s.phase +
      s.mapped.count frame + s.freed.count frame

def held (s : System τ β) : Nat := total Phase.held s.phase

/-- Room is used only as far as the pages that may come back leave it. -/
def KeepsRoom (s : System τ β) : Action τ β → Prop
  | .writeChunk t =>
    s.held = 0 ∨ match s.phase t with
      | .writing w => s.held + w.rest.length ≤ s.pipe.availableWrite
      | _ => True
  | .accept t =>
    s.held = 0 ∨ match s.phase t with
      | .pinned _ frames => s.held + frames.length * PIPE_PAGE_SIZE ≤ s.pipe.availableWrite
      | _ => True
  | .setPipeSize size => s.held = 0 ∨ s.pipe.used + s.held ≤ size
  | _ => True

instance (s : System τ β) (a : Action τ β) : Decidable (KeepsRoom s a) := by
  unfold KeepsRoom
  split
  · split <;> infer_instance
  · split <;> infer_instance
  · infer_instance
  · infer_instance

variable [DecidableEq τ] {content : Nat → Vector β PIPE_PAGE_SIZE} {s s' : System τ β}
  {a : Action τ β}

/-! ## Ownership -/

/-- The references outside the calls in progress, and those of one phase. -/
def refs (s : System τ β) (phase : Phase (Item β)) (frame : Nat) : Nat :=
  (s.pipe.zcPages.map paddr).count frame + phase.frames.count frame +
    s.mapped.count frame + s.freed.count frame

variable {ok : System τ β → Action τ β → Prop} {x y : Phase (Item β)} {t : τ}

theorem Owned.move (hi : Owned s) (hphase : s.phase t = x)
    (hnext : s'.phase = update s.phase t y)
    (hrefs : ∀ frame, s'.donated.count frame + s.refs x frame =
      s.donated.count frame + s'.refs y frame) : Owned s' := by
  intro frame
  have htotal := total_update (fun phase : Phase (Item β) => phase.frames.count frame) hphase y
  have hframe := hi frame
  have hmove := hrefs frame
  unfold refs at hmove
  rw [hnext]
  omega

theorem Moves.owned (hi : Owned s) (h : Moves content s a s') : Owned s' := by
  cases h with
  | write hphase | writeChunk hphase | writeReturn hphase | writeZerocopy hphase
  | writeZerocopyReturn hphase | read hphase | readRetry hphase | readZerocopy hphase
  | gatherNone hphase =>
    exact hi.move hphase rfl fun frame => by simp [refs, Phase.frames]
  | pinFailed hphase | pin hphase | takeRing hphase =>
    refine hi.move hphase rfl fun frame => ?_
    simp only [refs, Phase.frames, List.count_append, List.count_nil]
    omega
  | accept hphase hle hroom hnext =>
    rename_i t d frames n phase
    refine hi.move hphase rfl fun frame => ?_
    have hframes : phase.frames = [] := by rcases hnext with rfl | ⟨d', rfl⟩ <;> rfl
    have hsplit : frames.count frame = (frames.take n).count frame + (frames.drop n).count frame := by
      rw [← List.count_append, List.take_append_drop]
    have hpages : (donatedPages (frames.take n)).map paddr = frames.take n := by
      simp [donatedPages, Function.comp_def]
    simp only [refs, hframes, List.map_append, hpages, List.count_append, List.count_nil]
    simp only [Phase.frames, hsplit]
    omega
  | takePages hphase hsplit =>
    refine hi.move hphase rfl fun frame => ?_
    simp only [refs, Phase.frames, ← hsplit.frames, List.count_append, List.count_nil]
    omega
  | leaveRing hphase hnext =>
    rcases hnext with rfl | rfl
    all_goals
      refine hi.move hphase rfl fun frame => ?_
      simp only [refs, Phase.frames, List.count_append, List.count_nil]
      omega
  | readReturn hphase =>
    rcases hphase with hphase | hphase
    all_goals exact hi.move hphase rfl fun frame => by simp [refs, Phase.frames]
  | gather hphase hpages =>
    refine hi.move hphase rfl fun frame => ?_
    simp only [refs, Phase.frames, ← hpages, List.map_append, List.count_append, List.count_nil]
    omega
  | remap hphase hn =>
    rename_i t n pages
    refine hi.move hphase rfl fun frame => ?_
    have hsplit : (pages.map paddr).count frame = ((pages.take n).map paddr).count frame +
          ((pages.drop n).map paddr).count frame := by
      rw [← List.count_append, ← List.map_append, List.take_append_drop]
    simp only [refs, Phase.frames, List.count_append, hsplit]
    omega
  | putBack hphase =>
    refine hi.move hphase rfl fun frame => ?_
    simp only [refs, Phase.frames, List.map_append, List.count_append, List.count_nil]
    omega
  | setPipeSize | setPipeSizeFailed | openEnd | closeEnd => exact hi

omit [DecidableEq τ] in
theorem Initial.owned (h : Initial s) : Owned s := by
  rcases h with rfl | rfl <;> exact fun frame => by simp [start, total, Phase.frames, new, newFifo]

/-- **No reference to a donated frame is lost or duplicated**, in any run. -/
theorem run_owned (hr : Reachable Initial (Guarded ok (Step content)) s) : Owned s :=
  (moves_invariant hr (fun _ => Initial.owned) fun _ _ _ _ hi _ hm => hm.owned hi).2

/-! ## Room for the pages that come back -/

/-- What is in the pipe and what may be put back fits. -/
def Bounded (s : System τ β) : Prop := s.pipe.used + s.held ≤ s.pipe.buffer.capacity

/-- A thread that moves on without using room. -/
theorem Bounded.move (hi : Bounded s) (hphase : s.phase t = x)
    (hnext : s'.phase = update s.phase t y)
    (hcap : s'.pipe.buffer.capacity = s.pipe.buffer.capacity)
    (hused : s'.pipe.used + y.held ≤ s.pipe.used + x.held) : Bounded s' := by
  have htotal := total_update Phase.held hphase y
  unfold Bounded held at hi ⊢
  rw [hnext, hcap]
  omega

theorem Bounded.grow {n m : Nat} (hv : Valid s) (hi : Bounded s)
    (hphase : s.phase t = x) (hnext : s'.phase = update s.phase t y)
    (hx : x.held = 0) (hy : y.held = 0) (hcap : s'.pipe.buffer.capacity = s.pipe.buffer.capacity)
    (hused : s'.pipe.used = s.pipe.used + n) (hroom : n ≤ s.pipe.availableWrite) (hle : n ≤ m)
    (hok : s.held = 0 ∨ s.held + m ≤ s.pipe.availableWrite) : Bounded s' := by
  have htotal := total_update Phase.held hphase y
  have hold := used_eq hv.holds
  have hwrite := availableWrite_eq hv.holds
  unfold Bounded held at *
  rw [hnext, hcap]
  omega

theorem Moves.bounded (hv : Valid s) (hi : Bounded s) (hok : KeepsRoom s a)
    (h : Moves content s a s') : Bounded s' := by
  have hused := used_eq hv.holds
  have hused' := used_eq (h.valid hv).holds
  cases h with
  | write hphase | writeReturn hphase | writeZerocopy hphase | pinFailed hphase | pin hphase
  | writeZerocopyReturn hphase | read hphase | readRetry hphase | readZerocopy hphase
  | gatherNone hphase =>
    exact hi.move hphase rfl rfl (Nat.le_refl _)
  | writeChunk hphase hrest hpos hn hring hcap =>
    rename_i t w n buffer
    refine hi.grow hv hphase rfl rfl rfl hcap (n := n) (m := w.rest.length) ?_ (by omega) (by omega) ?_
    · simp only [hring.unread, List.length_append, List.length_take] at hused' ⊢
      unfold ring at hused'
      omega
    · simpa only [KeepsRoom, hphase] using hok
  | accept hphase hle hroom hnext =>
    rename_i t d frames n phase
    have hheld : phase.held = 0 := by rcases hnext with rfl | ⟨d', rfl⟩ <;> rfl
    refine hi.grow hv hphase rfl rfl hheld rfl (n := n * PIPE_PAGE_SIZE)
      (m := frames.length * PIPE_PAGE_SIZE) ?_ hroom (Nat.mul_le_mul_right _ hle) ?_
    · simp only [used, zeroCopyBytes_append, zeroCopyBytes_donatedPages,
        List.length_take, Nat.min_eq_left hle]
      omega
    · simpa only [KeepsRoom, hphase] using hok
  | takePages hphase hsplit =>
    refine hi.move hphase rfl rfl ?_
    have hcount := hsplit.count
    simp only [used, Phase.held]
    omega
  | leaveRing hphase hnext =>
    rcases hnext with rfl | rfl <;> exact hi.move hphase rfl rfl (Nat.le_refl _)
  | takeRing hphase hrest hsome hring hcap =>
    refine hi.move hphase rfl hcap ?_
    simp only [hring.unread, List.length_drop, Phase.held] at hused' ⊢
    unfold ring at hused'
    omega
  | readReturn hphase =>
    rcases hphase with hphase | hphase <;> exact hi.move hphase rfl rfl (Nat.le_refl _)
  | gather hphase hpages =>
    refine hi.move hphase rfl rfl ?_
    simp only [used, Phase.held, ← hpages, zeroCopyBytes_append]
    omega
  | remap hphase hn =>
    rename_i t n pages
    refine hi.move hphase rfl rfl ?_
    have hsplit : zeroCopyBytes pages =
        zeroCopyBytes (pages.take n) + zeroCopyBytes (pages.drop n) := by
      rw [← zeroCopyBytes_append, List.take_append_drop]
    simp only [Phase.held, hsplit]
    omega
  | putBack hphase =>
    refine hi.move hphase rfl rfl ?_
    simp only [used, Phase.held, zeroCopyBytes_append]
    omega
  | setPipeSize hring hcap hsize =>
    unfold Bounded
    simp only [hring.unread] at hused' ⊢
    unfold ring at hused'
    rw [hused', ← hused]
    rcases (hok : _ ∨ _) with hnone | hfits
    · exact (congrArg (s.pipe.used + ·) hnone).trans_le hcap
    · exact hfits.trans hsize
  | setPipeSizeFailed | openEnd | closeEnd => exact hi

omit [DecidableEq τ] in
theorem Initial.bounded (h : Initial s) : Bounded s := by
  rcases h with rfl | rfl <;> simp [Bounded, held, start, total, Phase.held, new,
    newFifo, used, PipeRingBuffer.new, PipeRingBuffer.availableRead]

theorem run_bounded (hr : Reachable Initial (Guarded KeepsRoom (Step content)) s) : Bounded s :=
  (moves_invariant hr (fun _ => Initial.bounded) fun _ _ _ => Moves.bounded).2

/-! ## Pages that come back -/

variable (content)

/-- The steps of the other threads. -/
def Others (t : τ) : System τ β → Action τ β → System τ β → Prop :=
  Guarded (fun _ a => a.thread ≠ some t) (Step content)

/-- From here on, a `read_zerocopy` that gathers `pages`, maps `n` of them and puts the others back
leaves those at the front of the queue, in their order, whatever happens in between. -/
def UnreadAtFront (s₀ : System τ β) : Prop :=
  ∀ (t : τ) (pages : List ZeroCopyPage) (n : Nat) (shootdown : Bool) (s₁ s₂ s₃ s₄ s₅ : System τ β),
    Step content s₀ (.gather t) s₁ → s₁.phase t = .mapping pages →
    Reachable (· = s₁) (Others content t) s₂ → Step content s₂ (.remap t n) s₃ →
    Reachable (· = s₃) (Others content t) s₄ → Step content s₄ (.putBack t shootdown) s₅ →
    s₀.pipe.zcPages = pages ++ s₁.pipe.zcPages ∧
      s₅.pipe.zcPages = pages.drop n ++ s₄.pipe.zcPages ∧ s₅.ring = s₄.ring

variable {content}

omit [Fintype τ] in
theorem Moves.phase_of_ne (h : Moves content s a s') (ha : a.thread ≠ some t) :
    s'.phase t = s.phase t := by
  cases h with
  | setPipeSize | setPipeSizeFailed | openEnd | closeEnd => rfl
  | _ =>
    have hne : t ≠ _ := fun heq => ha (congrArg some heq.symm)
    exact update_of_ne hne _ _

theorem others_phase (hv : Valid s) (hr : Reachable (· = s) (Others content t) s') :
    Valid s' ∧ s'.phase t = s.phase t := by
  refine hr.invariant (I := fun s' => Valid s' ∧ s'.phase t = s.phase t) ?_ ?_
  · rintro s' rfl
    exact ⟨hv, rfl⟩
  · rintro s₁ a s₂ ⟨hv₁, hphase⟩ ⟨hne, hs⟩
    have hm := Step.moves hv₁ hs
    exact ⟨hm.valid hv₁, (hm.phase_of_ne hne).trans hphase⟩

theorem Valid.unreadAtFront {s₀ : System τ β} (hv : Valid s₀) : UnreadAtFront content s₀ := by
  intro t pages n shootdown s₁ s₂ s₃ s₄ s₅ hgather hphase₁ hothers hremap hothers' hback
  have hm₁ := Step.moves hv hgather
  have hv₁ := hm₁.valid hv
  obtain ⟨hv₂, hphase₂⟩ := others_phase hv₁ hothers
  have hm₃ := Step.moves hv₂ hremap
  obtain ⟨hv₄, hphase₄⟩ := others_phase (hm₃.valid hv₂) hothers'
  have hm₅ := Step.moves hv₄ hback
  have hfront : s₀.pipe.zcPages = pages ++ s₁.pipe.zcPages := by
    cases hm₁ with
    | gatherNone => simp at hphase₁
    | gather _ hpages =>
      simp only [update_self, Phase.mapping.injEq] at hphase₁
      rw [← hphase₁, hpages]
  have hphase₃ : s₃.phase t = .returning (pages.take n) (pages.drop n) := by
    rw [hphase₁] at hphase₂
    cases hm₃ with
    | remap hphase hn =>
      rw [hphase₂] at hphase
      cases hphase
      exact update_self ..
  refine ⟨hfront, ?_⟩
  rw [hphase₃] at hphase₄
  cases hm₅ with
  | putBack hphase =>
    rw [hphase₄] at hphase
    cases hphase
    exact ⟨rfl, rfl⟩

theorem run_unreadAtFront (hr : Reachable Initial (Guarded ok (Step content)) s) :
    UnreadAtFront content s :=
  (moves_invariant (I := fun _ => True) hr (fun _ _ => trivial)
    fun _ _ _ _ _ _ _ => trivial).1.unreadAtFront

/-- **Capacity and ownership** in every run that leaves room for the pages that may come back. -/
theorem capacity_and_ownership (content : Nat → Vector β PIPE_PAGE_SIZE) (s : System τ β)
    (hr : Reachable Initial (Guarded KeepsRoom (Step content)) s) :
    s.pipe.used ≤ s.pipe.buffer.capacity ∧ Owned s ∧ UnreadAtFront content s :=
  ⟨(Nat.le_add_right _ _).trans (run_bounded hr), run_owned hr, run_unreadAtFront hr⟩

def zeroPages : Nat → Vector Bool PIPE_PAGE_SIZE := fun _ => Vector.replicate PIPE_PAGE_SIZE false

/-- One thread donates frame 7 to a pipe of one page, another one gathers it. -/
def gatherOne : List (Action Bool Bool) :=
  [.setPipeSize PIPE_PAGE_SIZE, .writeZerocopy false false 1, .pin false [7] false, .accept false,
    .readZerocopy true false PIPE_PAGE_SIZE, .gather true]

/-- The page cannot be mapped. -/
def putOneBack : List (Action Bool Bool) := [.remap true 0, .putBack true true]

theorem page_put_back_in_room : ∃ s : System Bool Bool,
    Reachable Initial (Guarded KeepsRoom (Step zeroPages)) s ∧
      s.pipe.zcPages = [⟨7, 0, PIPE_PAGE_SIZE⟩] ∧
      s.pipe.used ≤ s.pipe.buffer.capacity ∧ Owned s ∧ UnreadAtFront zeroPages s := by
  obtain ⟨s, hr, hs⟩ : ∃ s : System Bool Bool,
      Reachable Initial (Guarded KeepsRoom (Step zeroPages)) s ∧
        decide (s.pipe.zcPages = [⟨7, 0, PIPE_PAGE_SIZE⟩]) = true :=
    Reachable.guarded_execs (.inl rfl) (gatherOne ++ putOneBack) (by decide +kernel)
  exact ⟨s, hr, of_decide_eq_true hs, capacity_and_ownership zeroPages s hr⟩

/-- **A page that is put back can exceed the capacity**: a byte was written to the room that it
left. -/
theorem pages_put_back_exceed_capacity : ∃ s : System Bool Bool,
    Reachable Initial (Step zeroPages) s ∧ s.pipe.buffer.capacity = PIPE_PAGE_SIZE ∧
      s.pipe.used = PIPE_PAGE_SIZE + 1 ∧ ¬s.pipe.used ≤ s.pipe.buffer.capacity := by
  obtain ⟨s, hr, hs⟩ : ∃ s : System Bool Bool, Reachable Initial (Step zeroPages) s ∧
      decide (s.pipe.buffer.capacity = PIPE_PAGE_SIZE ∧ s.pipe.used = PIPE_PAGE_SIZE + 1) = true :=
    Reachable.execs (.inl rfl)
      (gatherOne ++ [.write false false [true], .writeChunk false] ++ putOneBack) (by decide +kernel)
  obtain ⟨hcap, hused⟩ := of_decide_eq_true hs
  exact ⟨s, hr, hcap, hused, by omega⟩

end System

end PulseOS.Fd
