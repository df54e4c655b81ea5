import PulseOS.Lib.Threads
import PulseOS.Lib.Transition

/-!
# The per-CPU page cache

Single pages are allocated from and freed to a small cache of the CPU the caller happens to run
on.  A miss takes a batch from the buddy allocator, keeps one page and puts the rest into the cache
of the CPU it runs on by then; every lock is released in between.  The buddy allocator is a list of
free pages: a batch takes as many as it asks for, or all there are, and which ones is up to it.

* `Order0Pcp` — a cache with its bound; `pushOrDrain_spec` — what a free does to it.
* `pages_conserved` — the two run lemmas, and a drain of its own.
-/

namespace PulseOS.Alloc

open Transition Threads Function List Option

/-- The address of a page. -/
abbrev Page := Nat

def PAGE_SIZE : Nat := 4096
def PCP_CAPACITY : Nat := 64
def PCP_BATCH_SIZE : Nat := 16
def PCP_HIGH_WATERMARK : Nat := 48

/-- The cached pages, the one on top first. -/
structure Order0Pcp where
  pages : List Page
  fits : pages.length ≤ PCP_CAPACITY

namespace Order0Pcp

def new : Order0Pcp := ⟨[], Nat.zero_le _⟩

variable (c : Order0Pcp)

def needsDrain : Bool := PCP_HIGH_WATERMARK ≤ c.pages.length

/-- `pop_batch` with room for `n` pages. -/
def popBatch (n : Nat) : List Page × Order0Pcp :=
  (c.pages.take n, ⟨c.pages.drop n, by rw [length_drop]; exact (Nat.sub_le ..).trans c.fits⟩)

def pop (c : Order0Pcp) : Option (Page × Order0Pcp) :=
  match c.popBatch 1 with
  | ([page], rest) => some (page, rest)
  | _ => none

/-- `none` if the cache is full. -/
def push (page : Page) : Option Order0Pcp :=
  if h : c.pages.length < PCP_CAPACITY then some ⟨page :: c.pages, h⟩ else none

/-- The pages pushed are the first ones there is room for. -/
def pushBatch (pages : List Page) : Order0Pcp where
  pages := (pages.take (PCP_CAPACITY - c.pages.length)).reverse ++ c.pages
  fits := by
    have := c.fits
    rw [length_append, length_reverse, length_take]
    omega

/-- The cache after a push, and the pages drained to make room; an error hands the page back. -/
def pushOrDrain (page : Page) : Order0Pcp × Except Page (Option (List Page)) :=
  match c.push page with
  | some c => if c.needsDrain then
      let (drained, c) := c.popBatch PCP_BATCH_SIZE
      (c, .ok (some drained))
    else (c, .ok none)
  | none =>
    let (drained, c) := c.popBatch PCP_BATCH_SIZE
    match c.push page with
    | some c => (c, .ok (some drained))
    | none => (c, .error page)

variable {c c' : Order0Pcp} {page : Page}

theorem count_popBatch (c : Order0Pcp) (n : Nat) (page : Page) :
    (c.popBatch n).1.count page + (c.popBatch n).2.pages.count page = c.pages.count page := by
  rw [← count_append]
  simp [popBatch]

theorem pop_eq_some (h : c.pop = some (page, c')) : c.pages = page :: c'.pages := by
  unfold pop popBatch at h
  cases hpages : c.pages with
  | nil => simp [hpages] at h
  | cons p rest =>
    simp only [hpages, take_succ_cons, take_zero, drop_succ_cons, drop_zero,
      some.injEq, Prod.mk.injEq] at h
    rw [← h.1, ← h.2]

theorem pages_of_push (h : c.push page = some c') : c'.pages = page :: c.pages := by
  unfold push at h
  split at h
  · cases h
    rfl
  · cases h

theorem count_pushBatch {pages : List Page} (hroom : c.pages.length + pages.length ≤ PCP_CAPACITY)
    (page : Page) :
    (c.pushBatch pages).pages.count page = pages.count page + c.pages.count page := by
  have htake : pages.take (PCP_CAPACITY - c.pages.length) = pages := take_of_length_le (by omega)
  simp [pushBatch, htake]

/-- **A push always succeeds**: draining a batch makes room.  The page and the pages cached are
in the cache or among those drained. -/
theorem pushOrDrain_spec (c : Order0Pcp) (page : Page) :
    ∃ c' drained, c.pushOrDrain page = (c', .ok drained) ∧ ∀ p,
      c'.pages.count p + (drained.getD []).count p = [page].count p + c.pages.count p := by
  unfold pushOrDrain
  cases hpush : c.push page with
  | some c1 =>
    have hpages := pages_of_push hpush
    simp only
    split
    · refine ⟨_, some _, rfl, fun p => ?_⟩
      have hcount := c1.count_popBatch PCP_BATCH_SIZE p
      rw [hpages, ← singleton_append, count_append] at hcount
      rw [getD_some]
      omega
    · refine ⟨_, none, rfl, fun p => ?_⟩
      rw [hpages, getD_none, ← count_append, append_nil, ← count_append]
      rfl
  | none =>
    have hroom : (c.popBatch PCP_BATCH_SIZE).2.pages.length < PCP_CAPACITY := by
      have := c.fits
      simp only [popBatch, length_drop, PCP_BATCH_SIZE]
      unfold PCP_CAPACITY at *
      omega
    cases hagain : (c.popBatch PCP_BATCH_SIZE).2.push page with
    | none => simp [push, hroom] at hagain
    | some c2 =>
      refine ⟨c2, some (c.popBatch PCP_BATCH_SIZE).1, by simp only [hagain], fun p => ?_⟩
      have hcount := c.count_popBatch PCP_BATCH_SIZE p
      rw [pages_of_push hagain, ← singleton_append, count_append, getD_some]
      omega

end Order0Pcp

/-! ## Calls in progress -/

/-- What an allocation is for: one page through the cache, or `len` pages from the buddy allocator
directly. -/
inductive Want where
  | single
  | batch (len : Nat)
  deriving DecidableEq

/-- How many pages the buddy allocator is asked for. -/
def Want.size : Want → Nat
  | .single => PCP_BATCH_SIZE
  | .batch len => len

/-- Which attempt at the buddy allocator comes next: the first, the one after the caches have been
drained, or the one of a reclaim round, with the pages reclaimed in it. -/
inductive Stage where
  | first
  | drained
  | round (i reclaimed : Nat)
  deriving DecidableEq

/-- What follows a drain of all caches. -/
inductive After where
  | done
  | attempt (want : Want) (stage : Stage)
  deriving DecidableEq

/-- Where a thread is between two critical sections, with the pages it carries. -/
inductive Phase where
  | idle
  | attempt (want : Want) (stage : Stage)
  | reclaim (want : Want) (i : Nat)
  | drain (after : After) (cpu total : Nat)
  | flush (after : After) (cpu total : Nat) (pages : List Page)
  | refill (first : Page) (extra : List Page)
  | release (pages : List Page)
  deriving DecidableEq

open Phase

/-- The batch in transit. -/
def Phase.pages : Phase → List Page
  | .flush _ _ _ pages | .release pages => pages
  | .refill first extra => first :: extra
  | _ => []

inductive Reply where
  | page (page : Page)
  | noMemory
  | pages (pages : List Page)
  | drained (total : Nat)
  deriving DecidableEq

inductive Action (τ : Type) (cpus : Nat) where
  | alloc (t : τ) (cpu : Fin cpus)
  | allocBatch (t : τ) (len : Nat)
  /-- The pages the buddy allocator gives are its own choice. -/
  | attempt (t : τ) (pages : List Page)
  /-- What the callback frees are calls of their own. -/
  | reclaim (t : τ) (reclaimed : Nat)
  | drainAll (t : τ)
  | drain (t : τ)
  | flush (t : τ)
  | refill (t : τ) (cpu : Fin cpus)
  | free (t : τ) (pos numPages : Nat) (cpu : Fin cpus)
  | freeBatch (t : τ) (runs : List (Nat × Nat))
  | release (t : τ)

structure System (τ : Type) (cpus : Nat) where
  buddy : List Page
  pcp : Fin cpus → Order0Pcp
  /-- In the hands of the callers. -/
  held : List Page
  phase : τ → Phase

def runPages (run : Nat × Nat) : List Page := (List.range run.2).map fun i => run.1 + i * PAGE_SIZE

/-- The buddy allocator has nothing left: drain the caches, then reclaim at most four times. -/
def Want.onEmpty (want : Want) : Stage → Phase × Option Reply
  | .first => (.drain (.attempt want .drained) 0 0, none)
  | .drained => (.reclaim want 0, none)
  | .round i reclaimed =>
    if reclaimed = 0 ∨ i + 1 = 4 then
      match want with
      | .single => (.idle, some .noMemory)
      | .batch _ => (.idle, some (.pages []))
    else (.reclaim want (i + 1), none)

def After.next (after : After) (total : Nat) : Phase × Option Reply :=
  match after with
  | .done => (.idle, some (.drained total))
  | .attempt want stage => (.attempt want stage, none)

namespace System

variable {τ : Type} [DecidableEq τ] {cpus : Nat} (s : System τ cpus)

def enter (t : τ) (phase : Phase) : System τ cpus :=
  { s with phase := update s.phase t phase }

/-- The next critical section of a call; `none` where the action is not possible. -/
def exec : Action τ cpus → Option (System τ cpus × Option Reply)
  | .alloc t cpu =>
    match s.phase t with
    | .idle => match (s.pcp cpu).pop with
      | some (page, c) => some ({ s.enter t .idle with
          pcp := update s.pcp cpu c, held := page :: s.held }, some (.page page))
      | none => some (s.enter t (.attempt .single .first), none)
    | _ => none
  | .allocBatch t len =>
    match s.phase t with
    | .idle =>
      if len = 0 then some (s.enter t .idle, some (.pages []))
      else some (s.enter t (.attempt (.batch len) .first), none)
    | _ => none
  | .attempt t pages =>
    match s.phase t with
    | .attempt want stage =>
      if pages.length = min want.size s.buddy.length ∧ pages.Subperm s.buddy then
        let s := { s with buddy := s.buddy.diff pages }
        match pages, want with
        | [], want => some (s.enter t (want.onEmpty stage).1, (want.onEmpty stage).2)
        | first :: extra, .single => some (s.enter t (.refill first extra), none)
        | pages, .batch _ =>
          some ({ s.enter t .idle with held := pages ++ s.held }, some (.pages pages))
      else none
    | _ => none
  | .reclaim t reclaimed =>
    match s.phase t with
    | .reclaim want i => some (s.enter t (.drain (.attempt want (.round i reclaimed)) 0 0), none)
    | _ => none
  | .drainAll t =>
    match s.phase t with
    | .idle => some (s.enter t (.drain .done 0 0), none)
    | _ => none
  | .drain t =>
    match s.phase t with
    | .drain after cpu total =>
      if h : cpu < cpus then
        let (pages, c) := (s.pcp ⟨cpu, h⟩).popBatch PCP_CAPACITY
        let s := { s with pcp := update s.pcp ⟨cpu, h⟩ c }
        if pages = [] then some (s.enter t (.drain after (cpu + 1) total), none)
        else some (s.enter t (.flush after cpu (total + pages.length) pages), none)
      else some (s.enter t (after.next total).1, (after.next total).2)
    | _ => none
  | .flush t =>
    match s.phase t with
    | .flush after cpu total pages =>
      some ({ s.enter t (.drain after (cpu + 1) total) with buddy := pages ++ s.buddy }, none)
    | _ => none
  | .refill t cpu =>
    match s.phase t with
    | .refill first extra => some ({ s.enter t .idle with
        -- `push_batch` says how many pages it took; nobody looks
        pcp := update s.pcp cpu ((s.pcp cpu).pushBatch extra)
        held := first :: s.held }, some (.page first))
    | _ => none
  | .free t pos numPages cpu =>
    match s.phase t with
    | .idle =>
      if (runPages (pos, numPages)).Subperm s.held then
        let s := { s with held := s.held.diff (runPages (pos, numPages)) }
        if numPages = 1 ∧ pos % PAGE_SIZE = 0 then
          let (c, result) := (s.pcp cpu).pushOrDrain pos
          let s := { s with pcp := update s.pcp cpu c }
          match result with
          | .ok (some drained) => some (s.enter t (.release drained), none)
          | .ok none => some (s.enter t .idle, none)
          | .error unpushed => some (s.enter t (.release [unpushed]), none)
        else some ({ s.enter t .idle with buddy := runPages (pos, numPages) ++ s.buddy }, none)
      else none
    | _ => none
  | .freeBatch t runs =>
    match s.phase t with
    | .idle =>
      if (runs.flatMap runPages).Subperm s.held then
        some ({ s.enter t .idle with
          held := s.held.diff (runs.flatMap runPages)
          buddy := runs.flatMap runPages ++ s.buddy }, none)
      else none
    | _ => none
  | .release t =>
    match s.phase t with
    | .release pages => some ({ s.enter t .idle with buddy := pages ++ s.buddy }, none)
    | _ => none

/-- The state after a critical section. -/
def next (a : Action τ cpus) : Option (System τ cpus) :=
  (s.exec a).map Prod.fst

/-- Every managed page is with the buddy allocator and no call is in progress. -/
def Initial (managed : List Page) (s : System τ cpus) : Prop :=
  s = ⟨managed, fun _ => .new, [], fun _ => .idle⟩

/-! ## Where the pages are -/

section Places

variable [Fintype τ]

/-- In how many of the buddy allocator, the caches, the callers' hands and the batches in transit
a page is. -/
def places (s : System τ cpus) (page : Page) : Nat :=
  s.buddy.count page + total (fun c => c.pages.count page) s.pcp + s.held.count page +
    total (fun phase => phase.pages.count page) s.phase

/-- The surplus of a refill fits the cache it is put into. -/
def Roomy : Action τ cpus → Prop
  | .refill t cpu => ∀ first extra, s.phase t = .refill first extra →
      (s.pcp cpu).pages.length + extra.length ≤ PCP_CAPACITY
  | _ => True

variable {s s' : System τ cpus} {t : τ} {x y : Phase} {page : Page}

section
variable (hphase : s.phase t = x) (hnext : s'.phase = update s.phase t y)
include hphase hnext

theorem places_move
    (hpcp : s'.pcp = s.pcp) (h : s'.buddy.count page + s'.held.count page + y.pages.count page =
      s.buddy.count page + s.held.count page + x.pages.count page) :
    s'.places page = s.places page := by
  have hphases := total_update (fun phase : Phase => phase.pages.count page) hphase y
  unfold places
  rw [hnext, hpcp]
  omega

theorem places_cache {cpu : Fin cpus} {c : Order0Pcp} (hpcp : s'.pcp = update s.pcp cpu c)
    (h : s'.buddy.count page + s'.held.count page + y.pages.count page + c.pages.count page =
      s.buddy.count page + s.held.count page + x.pages.count page + (s.pcp cpu).pages.count page) :
    s'.places page = s.places page := by
  have hphases := total_update (fun phase : Phase => phase.pages.count page) hphase y
  have hcaches := total_update (fun c : Order0Pcp => c.pages.count page) (rfl : s.pcp cpu = _) c
  unfold places
  rw [hnext, hpcp]
  omega

end

/-- A transfer between two lists. -/
theorem count_diff_add {from_ pages : List Page} (h : pages.Subperm from_) (page : Page) :
    (from_.diff pages).count page + pages.count page = from_.count page := by
  have := h.count_le page
  rw [count_diff]
  omega

theorem pages_onEmpty (want : Want) (stage : Stage) : (want.onEmpty stage).1.pages = [] := by
  unfold Want.onEmpty
  cases stage with
  | first | drained => rfl
  | round i reclaimed =>
    dsimp only
    split
    · cases want <;> rfl
    · rfl

theorem pages_next (after : After) (total : Nat) : (after.next total).1.pages = [] := by
  cases after <;> rfl

/-- **A critical section moves pages and loses none, if a refill finds room.** -/
theorem exec_places {a : Action τ cpus} {reply : Option Reply} (hok : s.Roomy a)
    (h : s.exec a = some (s', reply)) (page : Page) : s'.places page = s.places page := by
  -- an action is possible in one phase only
  cases a with (simp only [exec] at h; split at h; swap; · cases h)
  | alloc t cpu =>
    rename_i hphase
    split at h
    · rename_i p c hpop
      cases h
      refine places_cache hphase rfl rfl ?_
      rw [Order0Pcp.pop_eq_some hpop]
      simp only [enter, count_cons]
      omega
    · cases h
      exact places_move hphase rfl rfl rfl
  | allocBatch t len =>
    rename_i hphase
    split at h
    all_goals
      cases h
      exact places_move hphase rfl rfl rfl
  | attempt t pages =>
    rename_i want stage hphase
    split at h
    swap; · cases h
    rename_i htake
    have hcount := count_diff_add htake.2 page
    split at h
    · cases h
      refine places_move hphase rfl rfl ?_
      rw [pages_onEmpty]
      rfl
    · cases h
      refine places_move hphase rfl rfl ?_
      simp only [enter, Phase.pages, count_nil]
      omega
    · cases h
      refine places_move hphase rfl rfl ?_
      simp only [enter, Phase.pages, count_nil, count_append]
      omega
  | reclaim t reclaimed | drainAll t =>
    rename_i hphase
    cases h
    exact places_move hphase rfl rfl rfl
  | drain t =>
    rename_i after cpu total hphase
    split at h
    · rename_i hcpu
      have hcount := (s.pcp ⟨cpu, hcpu⟩).count_popBatch PCP_CAPACITY page
      split at h
      · rename_i hnone
        cases h
        refine places_cache hphase rfl rfl ?_
        rw [hnone, count_nil] at hcount
        simp only [enter, Phase.pages, count_nil]
        omega
      · cases h
        refine places_cache hphase rfl rfl ?_
        simp only [enter, Phase.pages, count_nil]
        omega
    · cases h
      refine places_move hphase rfl rfl ?_
      rw [pages_next]
      rfl
  | flush t | release t =>
    rename_i hphase
    cases h
    refine places_move hphase rfl rfl ?_
    simp only [enter, Phase.pages, count_append, count_nil]
    omega
  | refill t cpu =>
    rename_i first extra hphase
    cases h
    refine places_cache hphase rfl rfl ?_
    rw [Order0Pcp.count_pushBatch (hok first extra hphase)]
    simp only [enter, Phase.pages, count_cons, count_nil]
    omega
  | free t pos numPages cpu =>
    rename_i hphase
    split at h
    swap; · cases h
    rename_i hheld
    have hcount := count_diff_add hheld page
    split at h
    · rename_i hone
      obtain ⟨c, drained, hpush, hkeep⟩ := (s.pcp cpu).pushOrDrain_spec pos
      have hpages : runPages (pos, numPages) = [pos] := by
        rw [hone.1]
        simp [runPages]
      have hkeep := hkeep page
      rw [hpages] at h hcount
      rw [hpush] at h
      cases drained with
      | some drained =>
        cases h
        refine places_cache hphase rfl rfl ?_
        simp only [enter, Phase.pages, count_nil]
        rw [getD_some] at hkeep
        omega
      | none =>
        cases h
        refine places_cache hphase rfl rfl ?_
        simp only [enter, Phase.pages, count_nil]
        rw [getD_none, count_nil] at hkeep
        omega
    · cases h
      refine places_move hphase rfl rfl ?_
      simp only [enter, Phase.pages, count_append]
      omega
  | freeBatch t runs =>
    rename_i hphase
    split at h
    swap; · cases h
    rename_i hheld
    have hcount := count_diff_add hheld page
    cases h
    refine places_move hphase rfl rfl ?_
    simp only [Phase.pages, count_append]
    omega

/-- Every page is where it was put, in exactly one place. -/
theorem run_places {managed : List Page}
    (hr : Reachable (Initial managed) (Guarded Roomy (Computed next)) s) (page : Page) :
    s.places page = managed.count page := by
  refine hr.invariant (I := fun s => s.places page = managed.count page) ?_ ?_
  · rintro _ rfl
    simp [places, total, Order0Pcp.new, pages]
  · rintro s a s' hi ⟨hok, h⟩
    obtain ⟨⟨s', reply⟩, hexec, rfl⟩ := map_eq_some_iff.mp h
    rw [exec_places hok hexec, hi]

end Places

/-! ## What a drain has passed -/

end System

/-- The caches behind the drain of a single-page allocation that may give up after it. -/
def Phase.passed : Phase → Nat → Bool
  | .drain (.attempt .single (.round ..)) at_ _, cpu => cpu < at_
  | .flush (.attempt .single (.round ..)) at_ _ _, cpu => cpu ≤ at_
  | .attempt .single (.round ..), _ => true
  | _, _ => false

namespace System

variable {τ : Type} [DecidableEq τ] {cpus : Nat}

/-- Nothing is put into a cache that such a drain has passed. -/
def Undisturbed (s : System τ cpus) : Action τ cpus → Prop
  | .refill _ cpu => ∀ u, (s.phase u).passed cpu = false
  | .free _ pos numPages cpu =>
    numPages = 1 ∧ pos % PAGE_SIZE = 0 → ∀ u, (s.phase u).passed cpu = false
  | _ => True

/-- The caches passed are empty. -/
def Swept (s : System τ cpus) : Prop :=
  ∀ t (cpu : Fin cpus), (s.phase t).passed cpu = true → (s.pcp cpu).pages = []

variable {s s' : System τ cpus} {t : τ} {y : Phase}

section
variable (hi : Swept s) (hnext : s'.phase = update s.phase t y)
include hi hnext

/-- A thread moves on; the caches passed before are as they were, and those passed by its move are
empty. -/
theorem Swept.move
    (hkept : ∀ u (cpu : Fin cpus), (s.phase u).passed cpu = true → (s.pcp cpu).pages = [] →
      (s'.pcp cpu).pages = [])
    (hnew : ∀ cpu : Fin cpus, y.passed cpu = true → (s'.pcp cpu).pages = []) : Swept s' := by
  intro u cpu hpassed
  rw [hnext] at hpassed
  by_cases hu : u = t
  · subst hu
    rw [update_self] at hpassed
    exact hnew cpu hpassed
  · rw [update_of_ne hu] at hpassed
    exact hkept u cpu hpassed (hi u cpu hpassed)

/-- As `Swept.move`, for a section that leaves the caches alone. -/
theorem Swept.stay (hpcp : s'.pcp = s.pcp) (hnew : ∀ cpu : Fin cpus, y.passed cpu = true →
      (s.pcp cpu).pages = []) : Swept s' :=
  hi.move hnext (fun _ _ _ hempty => by rw [hpcp]; exact hempty)
    fun cpu hy => by rw [hpcp]; exact hnew cpu hy

/-- A cache that changes was not among the caches passed, or is empty now. -/
theorem Swept.cache {cpu : Fin cpus} {c : Order0Pcp} (hpcp : s'.pcp = update s.pcp cpu c)
    (hc : ∀ u, (s.phase u).passed cpu = true → (s.pcp cpu).pages = [] → c.pages = [])
    (hnew : ∀ cpu' : Fin cpus, y.passed cpu' = true →
      (update s.pcp cpu c cpu').pages = []) : Swept s' := by
  refine hi.move hnext (fun u cpu' hpassed hempty => ?_) fun cpu' hy => by
    rw [hpcp]; exact hnew cpu' hy
  rw [hpcp]
  by_cases h : cpu' = cpu
  · subst h
    rw [update_self]
    exact hc u hpassed hempty
  · rw [update_of_ne h]
    exact hempty

end

theorem passed_onEmpty (want : Want) (stage : Stage) (cpu : Nat) :
    (want.onEmpty stage).1.passed cpu = false := by
  unfold Want.onEmpty
  cases stage with
  | first => cases want <;> rfl
  | drained => rfl
  | round i reclaimed =>
    dsimp only
    split
    · cases want <;> rfl
    · rfl

variable {after : After} {reply : Option Reply}

/-- A drain that goes on to the next cache has passed one more. -/
theorem passed_drain_succ {at_ total total' : Nat} {cpu : Nat}
    (h : (drain after (at_ + 1) total).passed cpu = true) :
    cpu = at_ ∨ (drain after at_ total').passed cpu = true := by
  match after, h with
  | .attempt .single (.round ..), h =>
    simp only [passed, decide_eq_true_eq] at h ⊢
    omega

variable {a : Action τ cpus} {pages : List Page}

/-- A flush has passed what the drain after it has passed. -/
theorem passed_flush {at_ total cpu : Nat} (total' : Nat) :
    (flush after at_ total pages).passed cpu = (drain after (at_ + 1) total').passed cpu := by
  cases after with
  | done => rfl
  | attempt want stage => cases want <;> cases stage <;> simp [passed]

theorem passed_next {at_ total : Nat} {cpu : Fin cpus} (hend : ¬ at_ < cpus)
    (h : (after.next total).1.passed cpu = true) : (drain after at_ total).passed cpu = true := by
  match after, h with
  | .attempt .single (.round ..), _ =>
    simp only [passed, decide_eq_true_eq]
    omega

theorem popBatch_capacity (c : Order0Pcp) : (c.popBatch PCP_CAPACITY).2.pages = [] :=
  drop_eq_nil_of_le c.fits

/-- **What a drain has emptied stays empty while nothing is put in behind it.** -/
theorem exec_swept (hi : Swept s)
    (hok : s.Undisturbed a) (h : s.exec a = some (s', reply)) : Swept s' := by
  -- an action is possible in one phase only
  cases a with (simp only [exec] at h; split at h; swap; · cases h)
  | alloc t cpu =>
    split at h
    · rename_i p c hpop
      cases h
      refine hi.cache rfl rfl (fun u _ hempty => ?_) nofun
      rw [Order0Pcp.pop_eq_some hpop] at hempty
      cases hempty
    · cases h
      exact hi.stay rfl rfl nofun
  | allocBatch t len =>
    split at h
    all_goals
      cases h
      exact hi.stay rfl rfl nofun
  | attempt t pages =>
    rename_i want stage hphase
    split at h
    swap; · cases h
    split at h
    · cases h
      refine hi.stay rfl rfl fun cpu hy => ?_
      rw [passed_onEmpty] at hy
      cases hy
    all_goals
      cases h
      exact hi.stay rfl rfl nofun
  | reclaim t reclaimed =>
    rename_i want i hphase
    cases h
    refine hi.stay rfl rfl fun cpu hy => ?_
    cases want <;> simp [passed] at hy
  | drainAll t | release t =>
    cases h
    exact hi.stay rfl rfl nofun
  | freeBatch t runs =>
    split at h
    · cases h
      exact hi.stay rfl rfl nofun
    · cases h
  | drain t =>
    rename_i after at_ total hphase
    split at h
    · rename_i hcpu
      have hempty := popBatch_capacity (s.pcp ⟨at_, hcpu⟩)
      -- the cache at the drain's position is empty now, those before it were
      have hnew : ∀ cpu : Fin cpus, (cpu : Nat) = at_ ∨ (drain after at_ total).passed cpu = true →
          (update s.pcp ⟨at_, hcpu⟩
            ((s.pcp ⟨at_, hcpu⟩).popBatch PCP_CAPACITY).2 cpu).pages = [] := by
        intro cpu hcase
        by_cases heq : cpu = ⟨at_, hcpu⟩
        · rw [heq, update_self]
          exact hempty
        · rw [update_of_ne heq]
          rcases hcase with hat | hpassed
          · exact absurd (Fin.ext hat) heq
          · exact hi t cpu (by rw [hphase]; exact hpassed)
      split at h
      · cases h
        exact hi.cache rfl rfl (fun _ _ _ => hempty) fun cpu hy => hnew cpu (passed_drain_succ hy)
      · cases h
        refine hi.cache rfl rfl (fun _ _ _ => hempty) fun cpu hy => hnew cpu ?_
        exact passed_drain_succ ((passed_flush total).symm.trans hy)
    · rename_i hend
      cases h
      refine hi.stay rfl rfl fun cpu hy => hi t cpu ?_
      rw [hphase]
      exact passed_next hend hy
  | flush t =>
    rename_i hphase
    cases h
    refine hi.stay rfl rfl fun cpu hy => hi t cpu ?_
    rw [hphase]
    exact (passed_flush _).trans hy
  | refill t cpu =>
    cases h
    refine hi.cache rfl rfl (fun u hpassed _ => ?_) nofun
    rw [hok u] at hpassed
    cases hpassed
  | free t pos numPages cpu =>
    split at h
    swap; · cases h
    split at h
    · rename_i hone
      have hkept : ∀ u, (s.phase u).passed cpu = true → (s.pcp cpu).pages = [] →
          ((s.pcp cpu).pushOrDrain pos).1.pages = [] := by
        intro u hpassed
        rw [hok hone u] at hpassed
        cases hpassed
      split at h
      all_goals
        cases h
        exact hi.cache rfl rfl hkept nofun
    · cases h
      exact hi.stay rfl rfl nofun

theorem run_swept {managed : List Page}
    (hr : Reachable (Initial managed) (Guarded Undisturbed (Computed next)) s) : Swept s := by
  refine hr.invariant ?_ ?_
  · rintro _ rfl
    exact fun _ _ => nofun
  · rintro s a s' hi ⟨hok, h⟩
    obtain ⟨⟨s', reply⟩, hexec, rfl⟩ := map_eq_some_iff.mp h
    exact exec_swept hi hok hexec

/-- An allocation gives up with the buddy allocator and all caches empty. -/
theorem free_of_noMemory (hi : Swept s)
    (h : s.exec a = some (s', some .noMemory)) : s.buddy = [] ∧ ∀ cpu, (s.pcp cpu).pages = [] := by
  cases a with
  | attempt t pages =>
    simp only [exec] at h
    split at h
    swap; · cases h
    rename_i want stage hphase
    split at h
    swap; · cases h
    rename_i htake
    split at h
    · simp only [some.injEq, Prod.mk.injEq] at h
      obtain ⟨i, reclaimed, rfl, rfl⟩ : ∃ i reclaimed, stage = .round i reclaimed ∧
          want = .single := by
        match want, stage with
        | .single, .round i reclaimed => exact ⟨i, reclaimed, rfl, rfl⟩
        | .batch len, .round i reclaimed =>
          simp only [Want.onEmpty] at h
          split at h <;> cases h.2
        | want, .first | want, .drained => cases h.2
      refine ⟨eq_nil_of_length_eq_zero ?_, fun cpu => hi t cpu (by rw [hphase]; rfl)⟩
      have hnone := htake.1
      simp only [length_nil, Want.size, PCP_BATCH_SIZE] at hnone
      omega
    all_goals cases h
  | alloc t cpu | allocBatch t len | reclaim t reclaimed | drainAll t | flush t | refill t cpu
  | free t pos numPages cpu | freeBatch t runs | release t =>
    simp only [exec] at h
    repeat' split at h
    all_goals cases h
  | drain t =>
    simp only [exec] at h
    split at h
    swap; · cases h
    rename_i after at_ total hphase
    repeat' split at h
    · cases h
    · cases h
    · simp only [some.injEq, Prod.mk.injEq] at h
      cases after <;> cases h.2

/-! ## A drain of its own -/

/-- The sections of a drain by `t`, with no other in between. -/
def drainAlone (t : τ) : Nat → System τ cpus → System τ cpus
  | 0, s => s
  | fuel + 1, s =>
    match s.exec (.drain t) <|> s.exec (.flush t) with
    | some (s, _) => drainAlone t fuel s
    | none => s

theorem drainAlone_idle (h : s.phase t = .idle) (fuel : Nat) : drainAlone t fuel s = s := by
  cases fuel with
  | zero => rfl
  | succ fuel => simp [drainAlone, exec, h]

theorem drainAlone_drain {fuel : Nat} (h : s.exec (.drain t) = some (s', reply)) :
    drainAlone t (fuel + 1) s = drainAlone t fuel s' := by
  rw [drainAlone, h]
  rfl

theorem drainAlone_flush {fuel : Nat} (hnot : s.exec (.drain t) = none)
    (h : s.exec (.flush t) = some (s', reply)) :
    drainAlone t (fuel + 1) s = drainAlone t fuel s' := by
  rw [drainAlone, hnot, h]
  rfl

variable [Fintype τ]

/-- The drain empties every cache from its position on, and ends. -/
theorem drainAlone_spec : ∀ (k : Nat) (s : System τ cpus) (at_ total fuel : Nat),
    s.phase t = .drain .done at_ total → cpus - at_ = k → 2 * k < fuel →
    ∃ s', drainAlone t fuel s = s' ∧ s'.phase = update s.phase t .idle ∧
      s'.held = s.held ∧ (∀ cpu : Fin cpus, at_ ≤ cpu ∨ (s.pcp cpu).pages = [] →
        (s'.pcp cpu).pages = []) ∧ ∀ page, s'.places page = s.places page := by
  intro k
  induction k with
  | zero =>
    intro s at_ total fuel hphase hk hfuel
    obtain ⟨fuel, rfl⟩ : ∃ n, fuel = n + 1 := ⟨fuel - 1, by omega⟩
    have hexec : s.exec (.drain t) = some (s.enter t .idle, some (.drained total)) := by
      simp [exec, hphase, show ¬ at_ < cpus by omega, After.next]
    refine ⟨s.enter t .idle, ?_, rfl, rfl, fun cpu hcpu => ?_,
      exec_places (a := .drain t) trivial hexec⟩
    · rw [drainAlone_drain hexec]
      exact drainAlone_idle (update_self ..) fuel
    · exact hcpu.resolve_left (by omega)
  | succ k ih =>
    intro s at_ total fuel hphase hk hfuel
    have hcpu : at_ < cpus := by omega
    obtain ⟨fuel, rfl⟩ : ∃ n, fuel = n + 2 := ⟨fuel - 2, by omega⟩
    set pages := ((s.pcp ⟨at_, hcpu⟩).popBatch PCP_CAPACITY).1 with hpages
    set c := ((s.pcp ⟨at_, hcpu⟩).popBatch PCP_CAPACITY).2 with hc
    set pcp := update s.pcp ⟨at_, hcpu⟩ c with hpcp
    -- whatever the cache held, the drain gets to the next one with this one empty
    obtain ⟨s1, total1, m, hrun, hm, hphase1, hpcp1, hheld1, hplaces1⟩ : ∃ s1 total1 m,
        drainAlone t (fuel + 2) s = drainAlone t m s1 ∧ fuel ≤ m ∧
        s1.phase = update s.phase t (.drain .done (at_ + 1) total1) ∧ s1.pcp = pcp ∧
        s1.held = s.held ∧ ∀ page, s1.places page = s.places page := by
      by_cases hnone : pages = []
      · have hexec : s.exec (.drain t) = some ({ s with pcp := pcp }.enter t
            (.drain .done (at_ + 1) total), none) := by
          simp [exec, hphase, hcpu, ← hpages, hnone, hpcp, hc]
        exact ⟨_, total, fuel + 1, drainAlone_drain hexec, by omega, rfl, rfl, rfl,
          exec_places (a := .drain t) trivial hexec⟩
      · set s0 := { s with pcp := pcp }.enter t (.flush .done at_ (total + pages.length) pages)
          with hs0
        have hexec : s.exec (.drain t) = some (s0, none) := by
          simp [exec, hphase, hcpu, ← hpages, hnone, hpcp, hc, hs0]
        have hphase0 : s0.phase t = .flush .done at_ (total + pages.length) pages := update_self ..
        have hexec0 : s0.exec (.flush t) = some ({ s0.enter t (.drain .done (at_ + 1)
            (total + pages.length)) with buddy := pages ++ s0.buddy }, none) := by
          simp [exec, hphase0]
        have hnot : s0.exec (.drain t) = none := by simp [exec, hphase0]
        refine ⟨{ s0.enter t (.drain .done (at_ + 1) (total + pages.length)) with
          buddy := pages ++ s0.buddy }, total + pages.length, fuel, ?_, le_rfl, ?_, rfl, rfl,
          fun page => ?_⟩
        · rw [drainAlone_drain hexec, drainAlone_flush hnot hexec0]
        · simp [hs0, enter]
        · rw [exec_places (a := .flush t) trivial hexec0, exec_places (a := .drain t) trivial hexec]
    obtain ⟨s', hs', hphase', hheld', hempty', hplaces'⟩ := ih s1 (at_ + 1) total1 m
      (by rw [hphase1]; exact update_self ..) (by omega) (by omega)
    refine ⟨s', by rw [hrun, hs'], ?_, hheld'.trans hheld1, fun cpu hcase => ?_, fun page => ?_⟩
    · rw [hphase', hphase1, update_idem]
    · refine hempty' cpu ?_
      rw [hpcp1, hpcp]
      by_cases heq : cpu = ⟨at_, hcpu⟩
      · refine .inr ?_
        rw [heq, update_self]
        exact popBatch_capacity _
      · rw [update_of_ne heq]
        have hne : (cpu : Nat) ≠ at_ := fun h => heq (Fin.ext h)
        exact hcase.imp (fun h => by omega) id
    · rw [hplaces', hplaces1]

/-- With no call in progress a drain moves every cached page to the buddy allocator. -/
theorem drainAll_spec (hidle : ∀ u, s.phase u = .idle) (t : τ) :
    ∃ s1 fuel s', s.exec (.drainAll t) = some (s1, none) ∧ drainAlone t fuel s1 = s' ∧
      s'.phase t = .idle ∧ (∀ cpu, (s'.pcp cpu).pages = []) ∧ ∀ page,
        s'.buddy.count page = s.buddy.count page + total (fun c => c.pages.count page) s.pcp := by
  have hstart : s.exec (.drainAll t) = some (s.enter t (.drain .done 0 0), none) := by
    simp [exec, hidle t]
  obtain ⟨s', hs', hphase, hheld, hempty, hplaces⟩ := drainAlone_spec (t := t) cpus
    (s.enter t (.drain .done 0 0)) 0 0 (2 * cpus + 1) (update_self ..) rfl (by omega)
  have hidle' : ∀ u, s'.phase u = .idle := by
    intro u
    rw [hphase]
    by_cases hu : u = t
    · rw [hu, update_self]
    · rw [update_of_ne hu]
      simp [enter, update_of_ne hu, hidle u]
  have hnone : ∀ cpu, (s'.pcp cpu).pages = [] := fun cpu => hempty cpu (.inl (Nat.zero_le _))
  refine ⟨_, _, s', hstart, hs', hidle' t, hnone, fun page => ?_⟩
  have hsame := (hplaces page).trans (exec_places (a := .drainAll t) trivial hstart page)
  simp only [places, total, hnone, hidle, hidle', hheld, pages, count_nil,
    Finset.sum_const_zero, enter] at hsame
  simp only [total]
  omega

/-! ## The runs -/

/-- **Physical pages are conserved.**  Where every refill finds room for its surplus, each managed
page is in exactly one place; where nothing is put into a cache behind the drain of an allocation,
an allocation gives up only with nothing free; and a drain of its own empties the caches into the
buddy allocator. -/
theorem pages_conserved {managed : List Page} (hnodup : managed.Nodup) (s : System τ cpus) :
    (Reachable (Initial managed) (Guarded Roomy (Computed next)) s →
      ∀ page, s.places page = if page ∈ managed then 1 else 0) ∧
    (Reachable (Initial managed) (Guarded Undisturbed (Computed next)) s →
      ∀ a s', s.exec a = some (s', some .noMemory) → s.buddy = [] ∧ ∀ cpu, (s.pcp cpu).pages = []) ∧
    (Reachable (Initial managed) (Computed next) s → (∀ u, s.phase u = .idle) → ∀ t : τ,
      ∃ s1 fuel s', s.exec (.drainAll t) = some (s1, none) ∧ drainAlone t fuel s1 = s' ∧
        s'.phase t = .idle ∧ (∀ cpu, (s'.pcp cpu).pages = []) ∧ ∀ page, s'.buddy.count page =
            s.buddy.count page + total (fun c => c.pages.count page) s.pcp) := by
  refine ⟨fun hr page => ?_, fun hr a s' h => free_of_noMemory (run_swept hr) h,
    fun _ hidle t => drainAll_spec hidle t⟩
  rw [run_places hr page]
  split
  · rename_i hmem
    exact count_eq_one_of_mem hnodup hmem
  · rename_i hmem
    exact count_eq_zero_of_not_mem hmem

def numbered (first count : Nat) : List Page := (List.range' first count).map (· * PAGE_SIZE)

/-- The state of an allocator that manages `count` pages, before any call. -/
def fresh (τ : Type) (cpus count : Nat) : System τ cpus :=
  ⟨numbered 0 count, fun _ => .new, [], fun _ => .idle⟩

/-- After a miss one page of the batch is the caller's and the other fills the cache. -/
theorem pages_conserved_miss : ∃ s : System (Fin 2) 1,
    (s.held = [0] ∧ (s.pcp 0).pages = [PAGE_SIZE]) ∧ s.places 0 = 1 ∧ s.places PAGE_SIZE = 1 := by
  have hr : Reachable (Initial (numbered 0 2)) (Guarded Roomy (Computed next))
      (fresh (Fin 2) 1 2) := .start rfl
  have hmiss : (fresh (Fin 2) 1 2).next (.alloc 0 0) = some _ := rfl
  have hr := hr.guarded hmiss trivial
  have hbatch : ((fresh (Fin 2) 1 2).enter 0 (.attempt .single .first)).next
      (.attempt 0 (numbered 0 2)) = some _ := rfl
  have hr := hr.guarded hbatch trivial
  have hr := hr.guarded (a := .refill 0 0) (rfl : next _ _ = some _) (by
    intro first extra hphase
    rw [← (Phase.refill.inj hphase).2]
    decide)
  have hplaces := (pages_conserved (by decide) _).1 hr
  exact ⟨_, ⟨rfl, rfl⟩, hplaces 0, hplaces PAGE_SIZE⟩

/-- Five threads miss the cache of one CPU before any of them refills it. -/
def fiveMisses : List (Action (Fin 5) 1) :=
  (List.finRange 5).map (.alloc · 0) ++
    (List.finRange 5).map (fun t => .attempt t (numbered (16 * t) 16)) ++
      (List.finRange 5).map (.refill · 0)

/-- **The surplus of the fifth does not fit, and eleven pages are nowhere.** -/
theorem surplus_lost :
    ∃ s : System (Fin 5) 1, Reachable (Initial (numbered 0 80)) (Computed next) s ∧
      ∀ page ∈ numbered 69 11, page ∈ numbered 0 80 ∧ s.places page = 0 := by
  have hfresh : Initial (numbered 0 80) (fresh (Fin 5) 1 80) := rfl
  have hrun : (fiveMisses.foldlM next (fresh (Fin 5) 1 80)).any
      (fun s => decide (∀ page ∈ numbered 69 11, s.places page = 0)) = true := by decide +kernel
  obtain ⟨s, hr, hs⟩ := Reachable.execs hfresh fiveMisses hrun
  have hlost := of_decide_eq_true hs
  exact ⟨s, hr, fun page hpage => ⟨by revert page; decide +kernel, hlost page hpage⟩⟩

end System

end PulseOS.Alloc
