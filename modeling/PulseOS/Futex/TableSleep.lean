import PulseOS.Futex.Table

/-!
# Check and sleep

* `Settled` — the invariant: a waiter that has looked its queue up holds it, and a waiter that has
  translated its address and does not sleep yet reads the frame that is still mapped.
* `KeepsPage`, `sleepsInTime_of_run` — no waiter goes to sleep on a word that has changed, where no
  page is replaced under a waiter that is about to sleep.
* `asleep_after_replace` — a waiter sleeps on the old frame, after the wake has come and gone.
-/

namespace PulseOS.FutexTable

open Transition Futex Function AList Option

variable {τ : Type}

/-! ## The table -/

/-- A queue with a handle on it stays where it is. -/
def Tidy (s s' : System τ) : Prop :=
  ∀ key bitset q, s.queueAt key bitset = some q → s.handles q ≠ [] → s'.queueAt key bitset = some q

namespace System

variable (s : System τ) {q : Nat}

theorem not_removable (h : s.handles q ≠ []) : s.removable q = false := by
  rw [removable, strongCount, Bool.and_eq_false_iff, decide_eq_false_iff_not]
  refine Or.inr fun hone => h ?_
  exact List.length_eq_zero_iff.mp (by omega)

variable (key : Key)

theorem queueAt_any : s.queueAt key ANY = s.queues.lookup key := if_pos rfl

variable {byBitset : Table UInt32 Nat} {bitset : UInt32}

theorem queueAt_mask (h : bitset ≠ ANY) : s.queueAt key bitset =
      (s.bitsetQueues.lookup key).bind fun byBitset => byBitset.lookup bitset :=
  if_neg h

section
variable (h : byBitset.lookup bitset = some q) (hq : s.handles q ≠ [])
include h hq

theorem lookup_retainUsed : (s.retainUsed byBitset).lookup bitset = some q := by
  rw [retainUsed, Table.lookup_filterMap, h, bind_some, s.not_removable hq]
  rfl

theorem retainUsed_ne_empty : (s.retainUsed byBitset).entries.isEmpty = false := by
  have hmem := mem_lookup_iff.mp (s.lookup_retainUsed h hq)
  rw [Bool.eq_false_iff]
  intro hempty
  rw [List.isEmpty_iff.mp hempty] at hmem
  cases hmem

end

theorem tidy_removeIfEmpty : Tidy s (s.removeIfEmpty key) := by
  intro key' bitset q hq hhandle
  unfold removeIfEmpty
  split
  · rename_i q' hq'
    split
    · rename_i hremovable
      by_cases hb : bitset = ANY
      · rw [hb, queueAt_any] at hq ⊢
        have hne : key' ≠ key := by
          rintro rfl
          rw [hq] at hq'
          cases hq'
          rw [s.not_removable hhandle] at hremovable
          cases hremovable
        exact (lookup_erase_ne hne).trans hq
      · rw [queueAt_mask _ _ hb] at hq ⊢
        exact hq
    · exact hq
  · exact hq

theorem tidy_removeBitsetIfEmpty : Tidy s (s.removeBitsetIfEmpty key) := by
  intro key' bitset q hq hhandle
  unfold removeBitsetIfEmpty
  split
  · rename_i byBitset hlookup
    by_cases hb : bitset = ANY
    · rw [hb, queueAt_any] at hq ⊢
      exact hq
    · rw [queueAt_mask _ _ hb] at hq ⊢
      by_cases hkey : key' = key
      · rw [hkey, hlookup, bind_some] at hq
        rw [s.retainUsed_ne_empty hq hhandle, if_neg Bool.false_ne_true, hkey,
          lookup_insert, bind_some]
        exact s.lookup_retainUsed hq hhandle
      · split
        · rw [lookup_erase_ne hkey]
          exact hq
        · rw [lookup_insert_ne hkey]
          exact hq
  · exact hq

theorem tidy_pruneEmptyEntries (isPriv : Bool) (shard : Nat) :
    Tidy s (s.pruneEmptyEntries isPriv shard) := by
  intro key bitset q hq hhandle
  by_cases hb : bitset = ANY
  · rw [hb, queueAt_any] at hq ⊢
    rw [pruneEmptyEntries]
    rw [Table.lookup_filterMap, hq, bind_some, s.not_removable hhandle, Bool.and_false]
    rfl
  · rw [queueAt_mask _ _ hb] at hq ⊢
    obtain ⟨byBitset, hlookup, hq⟩ := bind_eq_some_iff.mp hq
    rw [pruneEmptyEntries]
    rw [Table.lookup_filterMap, hlookup, bind_some, s.retainUsed_ne_empty hq hhandle]
    split
    · exact s.lookup_retainUsed hq hhandle
    · exact hq

theorem queueAt_clone (t : τ) (q : Nat) (key : Key) (bitset : UInt32) :
    (s.clone t q).queueAt key bitset = s.queueAt key bitset :=
  rfl

theorem mem_handles_clone (t u : τ) (q q' : Nat) :
    u ∈ (s.clone t q).handles q' ↔ q' = q ∧ u = t ∨ u ∈ s.handles q' := by
  by_cases hq : q' = q
  · have hself : (s.clone t q).handles q = t :: s.handles q := update_self ..
    rw [hq, hself, List.mem_cons]
    simp
  · have hother : (s.clone t q).handles q' = s.handles q' := update_of_ne hq ..
    rw [hother]
    simp [hq]

/-- **The lookup of a waiter**: the queue is in the table, with a handle of the thread on it, and no
other slot has changed. -/
theorem queueMask_spec (t : τ) (key : Key) (bitset : UInt32) :
    (s.queueMask t key bitset).1.queueAt key bitset = some (s.queueMask t key bitset).2 ∧
      t ∈ (s.queueMask t key bitset).1.handles (s.queueMask t key bitset).2 ∧
      (∀ u q, u ∈ s.handles q → u ∈ (s.queueMask t key bitset).1.handles q) ∧
      Tidy s (s.queueMask t key bitset).1 := by
  have hclone (s' : System τ) (q : Nat) (hs : s'.handles = s.handles) :
      t ∈ (s'.clone t q).handles q ∧ ∀ u q', u ∈ s.handles q' → u ∈ (s'.clone t q).handles q' := by
    refine ⟨(s'.mem_handles_clone ..).mpr (Or.inl ⟨rfl, rfl⟩), fun u q' hu => ?_⟩
    rw [mem_handles_clone, hs]
    exact Or.inr hu
  unfold queueMask
  split
  · rename_i q hq
    exact ⟨hq, (hclone s q rfl).1, (hclone s q rfl).2, fun _ _ _ h _ => h⟩
  · rename_i hnone
    by_cases hb : bitset = ANY
    · rw [if_pos hb]
      refine ⟨?_, (hclone _ _ rfl).1, (hclone _ _ rfl).2, fun key' bitset' q hq _ => ?_⟩
      · rw [queueAt_clone, hb, queueAt_any]
        exact lookup_insert _
      · rw [queueAt_clone]
        by_cases hb' : bitset' = ANY
        · rw [hb', queueAt_any] at hq ⊢
          rw [hb, queueAt_any] at hnone
          have hne : key' ≠ key := by
            rintro rfl
            rw [hnone] at hq
            cases hq
          exact (lookup_insert_ne hne).trans hq
        · rw [queueAt_mask _ _ hb'] at hq ⊢
          exact hq
    · rw [if_neg hb]
      refine ⟨?_, (hclone _ _ rfl).1, (hclone _ _ rfl).2, fun key' bitset' q hq _ => ?_⟩
      · rw [queueAt_clone, queueAt_mask _ _ hb]
        rw [lookup_insert, bind_some, lookup_insert]
      · rw [queueAt_clone]
        by_cases hb' : bitset' = ANY
        · rw [hb', queueAt_any] at hq ⊢
          exact hq
        · rw [queueAt_mask _ _ hb'] at hq ⊢
          rw [queueAt_mask _ _ hb] at hnone
          by_cases hkey : key' = key
          · -- another bitset of the same key
            obtain ⟨byBitset, hlookup, hq⟩ := bind_eq_some_iff.mp hq
            rw [hkey] at hlookup
            rw [hlookup, bind_some] at hnone
            have hne : bitset' ≠ bitset := by
              rintro rfl
              rw [hnone] at hq
              cases hq
            rw [hkey, lookup_insert, bind_some, hlookup, getD_some, lookup_insert_ne hne]
            exact hq
          · rw [lookup_insert_ne hkey]
            exact hq

end System

/-! ## The invariant -/

variable (s : System τ) (t : τ)

/-- The table holds the queue, and the thread has a handle on it. -/
def Holds (key : Key) (bitset : UInt32) (q : Nat) : Prop :=
  s.queueAt key bitset = some q ∧ t ∈ s.handles q

/-- What a waiter may rely on at each point. -/
def Fits : Phase τ → Prop
  | .wait w point =>
    match point with
    | .signal frame => s.translate w.addr = some frame
    | .key frame => s.translate w.addr = some frame
    | .lookup frame key =>
      s.translate w.addr = some frame ∧ key = s.futexKey w.addr w.isPrivate
    | .enroll frame key q =>
      s.translate w.addr = some frame ∧ key = s.futexKey w.addr w.isPrivate ∧
        Holds s t key w.bitset q
    | .asleep key q => Holds s t key w.bitset q
    | .cancel key q => Holds s t key w.bitset q
    | .drop key q => Holds s t key w.bitset q
    | _ => True
  | _ => True

def Settled : Prop := ∀ t, Fits s t (s.threads t).phase

/-- The waiter has translated its address and does not sleep yet. -/
def Phase.reads : Phase τ → Option Nat
  | .wait w (.signal _) => some w.addr
  | .wait w (.key _) => some w.addr
  | .wait w (.lookup _ _) => some w.addr
  | .wait w (.enroll _ _ _) => some w.addr
  | _ => none

/-- What a step leaves to a thread. -/
structure Leaves (s s' : System τ) (u : τ) : Prop where
  translate : ∀ addr ∈ (s.threads u).phase.reads, s'.translate addr = s.translate addr
  phase : (s'.threads u).phase = (s.threads u).phase
  tidy : Tidy s s'
  handles : ∀ q, u ∈ s.handles q → u ∈ s'.handles q

variable {s} {s' : System τ}

theorem Holds.leaves {u : τ} {key : Key} {bitset : UInt32} {q : Nat}
    (h : Holds s u key bitset q) (hstep : Leaves s s' u) : Holds s' u key bitset q :=
  ⟨hstep.tidy key bitset q h.1 (List.ne_nil_of_mem h.2), hstep.handles q h.2⟩

theorem System.futexKey_congr {addr : Nat}
    (h : s'.translate addr = s.translate addr) (isPrivate : Bool) :
    s'.futexKey addr isPrivate = s.futexKey addr isPrivate := by
  rw [System.futexKey, System.futexKey, h]

theorem Fits.leaves {u : τ} (h : Fits s u (s.threads u).phase) (hstep : Leaves s s' u) :
    Fits s' u (s'.threads u).phase := by
  have htranslate := hstep.translate
  rw [hstep.phase]
  generalize (s.threads u).phase = phase at h htranslate ⊢
  cases phase with
  | wait w point =>
    cases point with
    | signal frame | key frame => exact (htranslate _ rfl).trans h
    | lookup frame key =>
      exact ⟨(htranslate _ rfl).trans h.1, by rw [System.futexKey_congr (htranslate _ rfl)]; exact h.2⟩
    | enroll frame key q =>
      exact ⟨(htranslate _ rfl).trans h.1,
        by rw [System.futexKey_congr (htranslate _ rfl)]; exact h.2.1, h.2.2.leaves hstep⟩
    | asleep key q | cancel key q | drop key q => exact Holds.leaves h hstep
    | _ => trivial
  | _ => trivial

section
variable [DecidableEq τ]

/-- A step of one thread: the address space stays, and so do the others. -/
structure Own (s s' : System τ) (t : τ) : Prop where
  pages : s'.pages = s.pages
  phase : ∀ u, u ≠ t → (s'.threads u).phase = (s.threads u).phase
  tidy : Tidy s s'
  handles : ∀ u q, u ≠ t → u ∈ s.handles q → u ∈ s'.handles q

open Own

variable {t} {f : Thread τ → Thread τ} {s₁ : System τ} {point : WaitPoint}

theorem Own.settled (h : Own s s' t) (hs : Settled s)
    (hself : Fits s' t (s'.threads t).phase) : Settled s' := by
  intro u
  by_cases hu : u = t
  · rw [hu]
    exact hself
  · refine (hs u).leaves ⟨fun addr _ => ?_, h.phase u hu, h.tidy, fun q => h.handles u q hu⟩
    rw [System.translate, System.translate, h.pages]

namespace System

variable (s)

theorem threads_modify (t : τ) (f : Thread τ → Thread τ) :
    (s.modify t f).threads t = f (s.threads t) :=
  update_self ..

theorem threads_goto (t : τ) (phase : Phase τ) : ((s.goto t phase).threads t).phase = phase := by
  rw [goto, threads_modify]

theorem threads_modify_ne {t u : τ} (h : u ≠ t) (f : Thread τ → Thread τ) :
    (s.modify t f).threads u = s.threads u :=
  update_of_ne h ..

end System

section
omit [DecidableEq τ]

variable (s)

section
variable (t)

theorem Own.refl : Own s s t := ⟨rfl, fun _ _ => rfl, fun _ _ _ h _ => h, fun _ _ _ h => h⟩

theorem Own.queueMask (key : Key) (bitset : UInt32) : Own s (s.queueMask t key bitset).1 t := by
  obtain ⟨-, -, hhandles, htidy⟩ := s.queueMask_spec t key bitset
  have hsame : (s.queueMask t key bitset).1.pages = s.pages ∧
      (s.queueMask t key bitset).1.threads = s.threads := by
    unfold System.queueMask
    split
    · exact ⟨rfl, rfl⟩
    · by_cases hb : bitset = ANY
      · rw [if_pos hb]
        exact ⟨rfl, rfl⟩
      · rw [if_neg hb]
        exact ⟨rfl, rfl⟩
  exact ⟨hsame.1, fun u _ => by rw [hsame.2], htidy, fun u q _ => hhandles u q⟩

theorem Own.clone (q : Nat) : Own s (s.clone t q) t :=
  ⟨rfl, fun _ _ => rfl, fun _ _ _ h _ => h, fun _ _ _ h =>
    (s.mem_handles_clone ..).mpr (Or.inr h)⟩

theorem Own.clones (queues : List Nat) : Own s (queues.foldl (fun s q => s.clone t q) s) t := by
  induction queues generalizing s with
  | nil => exact .refl s t
  | cons q queues ih =>
    have hrest := ih (s.clone t q)
    have hfirst := clone s t q
    refine ⟨hrest.pages, hrest.phase, fun key bitset q' h hne => ?_, fun u q' hu h =>
      hrest.handles u q' hu (hfirst.handles u q' hu h)⟩
    refine hrest.tidy key bitset q' h fun hnil => ?_
    obtain ⟨u, hu⟩ := List.exists_mem_of_ne_nil _ hne
    have hmem := (s.mem_handles_clone t u q q').mpr (Or.inr hu)
    rw [hnil] at hmem
    cases hmem

theorem Own.removeIfEmpty (key : Key) : Own s (s.removeIfEmpty key) t := by
  have hsame : (s.removeIfEmpty key).pages = s.pages ∧ (s.removeIfEmpty key).threads = s.threads ∧
      (s.removeIfEmpty key).handles = s.handles := by
    unfold System.removeIfEmpty
    split
    · split
      · exact ⟨rfl, rfl, rfl⟩
      · exact ⟨rfl, rfl, rfl⟩
    · exact ⟨rfl, rfl, rfl⟩
  exact ⟨hsame.1, fun u _ => by rw [hsame.2.1], s.tidy_removeIfEmpty key,
    fun u q _ h => by rw [hsame.2.2]; exact h⟩

theorem Own.removeBitsetIfEmpty (key : Key) : Own s (s.removeBitsetIfEmpty key) t := by
  have hsame : (s.removeBitsetIfEmpty key).pages = s.pages ∧
      (s.removeBitsetIfEmpty key).threads = s.threads ∧
      (s.removeBitsetIfEmpty key).handles = s.handles := by
    unfold System.removeBitsetIfEmpty
    split
    · exact ⟨rfl, rfl, rfl⟩
    · exact ⟨rfl, rfl, rfl⟩
  exact ⟨hsame.1, fun u _ => by rw [hsame.2.1], s.tidy_removeBitsetIfEmpty key,
    fun u q _ h => by rw [hsame.2.2]; exact h⟩

theorem Own.removeMaskIfEmpty (key : Key) (bitset : UInt32) :
    Own s (s.removeMaskIfEmpty key bitset) t := by
  unfold System.removeMaskIfEmpty
  split
  · exact .removeIfEmpty s t key
  · exact .removeBitsetIfEmpty s t key

theorem Own.setWord (addr : Nat) (value : UInt32) : Own s (s.setWord addr value) t := by
  unfold System.setWord
  split
  · exact ⟨rfl, fun _ _ => rfl, fun _ _ _ h _ => h, fun _ _ _ h => h⟩
  · exact .refl s t

end

end

/-- The thread moves on after a change that is its own. -/
theorem Own.goto (h : Own s s₁ t) (phase : Phase τ) : Own s (s₁.goto t phase) t where
  pages := h.pages
  phase u hu := by
    rw [System.goto, s₁.threads_modify_ne hu]
    exact h.phase u hu
  tidy := h.tidy
  handles := h.handles

/-- Settled after a step that ends in `goto`. -/
theorem Own.settled_goto {phase : Phase τ} (h : Own s s₁ t)
    (hs : Settled s) (hself : Fits s₁ t phase) : Settled (s₁.goto t phase) := by
  refine (h.goto phase).settled hs ?_
  rw [System.threads_goto]
  exact hself

theorem Own.dropHandle (s : System τ) (t : τ) (q : Nat) : Own s (s.dropHandle t q) t := by
  refine ⟨rfl, fun _ _ => rfl, fun _ _ _ h _ => h, fun u q' hu h => ?_⟩
  by_cases hq : q' = q
  · have hself : (s.dropHandle t q).handles q = (s.handles q).erase t := update_self ..
    rw [hq] at h
    rw [hq, hself]
    exact (List.mem_erase_of_ne hu).mpr h
  · have hother : (s.dropHandle t q).handles q' = s.handles q' := update_of_ne hq ..
    rw [hother]
    exact h

theorem Own.cancelEvents (s : System τ) (t : τ) (q : Nat) : Own s (s.cancelEvents t q) t := by
  unfold System.cancelEvents
  split
  · exact ⟨rfl, fun u hu => congrArg Thread.phase (System.threads_modify_ne _ hu _),
      fun _ _ _ h _ => h, fun _ _ _ h => h⟩
  · exact .refl s t

theorem popTask_phase (threads : τ → Thread τ) (l : List τ) (u : τ) :
    ((System.popTask threads l).1 u).phase = (threads u).phase := by
  induction l generalizing threads with
  | nil => rfl
  | cons v l ih =>
    have hunset : (update threads v { threads v with inWaitQueue := false } u).phase =
        (threads u).phase := by
      by_cases huv : u = v
      · rw [huv, update_self]
      · rw [update_of_ne huv]
    rw [System.popTask]
    split
    · rfl
    · split
      · exact hunset
      · exact (ih _).trans hunset
    · exact (ih _).trans hunset

section

variable (hs : Settled s)

include hs

theorem settled_notify (t : τ) (w : Wake) (q : Nat) (again done : WakePoint) :
    Settled (s.notify t w q again done) := by
  have hphase := popTask_phase s.threads (s.waiting q)
  unfold System.notify
  generalize System.popTask s.threads (s.waiting q) = r at hphase
  obtain ⟨threads, queue, popped⟩ := r
  have hown : Own s { s with threads, waiting := update s.waiting q queue } t :=
    ⟨rfl, fun u _ => hphase u, fun _ _ _ h _ => h, fun _ _ _ h => h⟩
  dsimp only
  split
  · exact hown.settled_goto hs trivial
  · exact hown.settled_goto hs trivial
  · exact hown.settled_goto hs trivial

/-- **The steps of a waiter.** -/
theorem settled_stepWait {w : Wait}
    (hphase : (s.threads t).phase = .wait w point) : Settled (s.stepWait t w point) := by
  have hfits := hs t
  rw [hphase] at hfits
  have hrefl := refl s t
  cases point with
  | value =>
    refine hrefl.settled_goto hs ?_
    split <;> trivial
  | translate =>
    rw [System.stepWait]
    split
    · rename_i frame hframe
      exact hrefl.settled_goto hs hframe
    · exact hrefl.settled_goto hs trivial
  | signal frame =>
    refine hrefl.settled_goto hs ?_
    split
    · trivial
    · exact hfits
  | key frame => exact hrefl.settled_goto hs ⟨hfits, rfl⟩
  | lookup frame key =>
    obtain ⟨hat, hmem, -, -⟩ := s.queueMask_spec t key w.bitset
    have hown := queueMask s t key w.bitset
    have htranslate : (s.queueMask t key w.bitset).1.translate w.addr = s.translate w.addr := by
      rw [System.translate, System.translate, hown.pages]
    refine hown.settled_goto hs ⟨htranslate.trans hfits.1, ?_, hat, hmem⟩
    rw [System.futexKey_congr htranslate]
    exact hfits.2
  | enroll frame key q =>
    rw [System.stepWait]
    split
    · exact hrefl.settled_goto hs hfits.2.2
    · split
      · exact hrefl.settled_goto hs hfits.2.2
      · have hown : Own s { s with waiting := update s.waiting q (s.waiting q ++ [t]) } t :=
          ⟨rfl, fun _ _ => rfl, fun _ _ _ h _ => h, fun _ _ _ h => h⟩
        refine settled (s := s) (t := t) ⟨rfl, fun u hu => ?_, hown.tidy, hown.handles⟩ hs ?_
        · rw [System.threads_modify_ne _ hu]
        · rw [System.threads_modify]
          exact hfits.2.2
  | asleep key q => exact hrefl.settled_goto hs hfits
  | cancel key q =>
    refine (cancelEvents s t q).settled_goto hs ?_
    unfold System.cancelEvents
    split
    · exact hfits
    · exact hfits
  | drop key q => exact (dropHandle s t q).settled_goto hs trivial
  | remove key => exact (removeMaskIfEmpty s t key w.bitset).settled_goto hs trivial

/-- **The steps of a waker.** -/
theorem settled_stepWake (t : τ) (w : Wake) (point : WakePoint) :
    Settled (s.stepWake t w point) := by
  have hrefl := refl s t
  cases point with
  | store => exact (setWord s t w.addr w.value).settled_goto hs trivial
  | key => exact hrefl.settled_goto hs trivial
  | lookup key =>
    rw [System.stepWake]
    split
    · exact (clone s t _).settled_goto hs trivial
    · refine hrefl.settled_goto hs ?_
      split <;> trivial
  | notify key q woken =>
    rw [System.stepWake]
    split
    · exact settled_notify hs _ _ _ _ _
    · exact hrefl.settled_goto hs trivial
  | drop key q woken => exact (dropHandle s t q).settled_goto hs trivial
  | remove key woken =>
    refine (removeIfEmpty s t key).settled_goto hs ?_
    split <;> trivial
  | masks key woken =>
    rw [System.stepWake]
    split
    · exact (clones s t _).settled_goto hs trivial
    · exact hrefl.settled_goto hs trivial
  | notifyMask key queues woken =>
    cases queues with
    | nil => exact hrefl.settled_goto hs trivial
    | cons q rest =>
      rw [System.stepWake]
      split
      · exact settled_notify hs _ _ _ _ _
      · exact hrefl.settled_goto hs trivial
  | dropMask key queues woken =>
    cases queues with
    | nil => exact hrefl.settled_goto hs trivial
    | cons q rest => exact (dropHandle s t q).settled_goto hs trivial
  | removeMasks key => exact (removeBitsetIfEmpty s t key).settled_goto hs trivial

/-! ## Every step -/

/-- No page is replaced under a waiter that has translated its address and does not sleep yet. -/
def KeepsPage (s : System τ) : Action τ → Prop
  | .replace page _ => ∀ t, ∀ addr ∈ (s.threads t).phase.reads, addr / PAGE_SIZE ≠ page
  | _ => True

instance [Fintype τ] (s : System τ) (a : Action τ) : Decidable (KeepsPage s a) := by
  unfold KeepsPage
  split <;> infer_instance

omit [DecidableEq τ] in
/-- A change of threads that leaves their phases. -/
theorem Settled.same_phases (hpages : s'.pages = s.pages)
    (hphase : ∀ u, (s'.threads u).phase = (s.threads u).phase) (htidy : Tidy s s')
    (hhandles : s'.handles = s.handles) : Settled s' := by
  intro u
  refine (hs u).leaves ⟨fun addr _ => ?_, hphase u, htidy, fun q h => by rw [hhandles]; exact h⟩
  rw [System.translate, System.translate, hpages]

omit hs in
theorem phase_modify (s : System τ) (t u : τ) (h : ∀ th, (f th).phase = th.phase) :
    ((s.modify t f).threads u).phase = (s.threads u).phase := by
  by_cases hu : u = t
  · rw [hu, System.threads_modify, h]
  · rw [s.threads_modify_ne hu]

theorem Settled.modify (t : τ) (h : ∀ th, (f th).phase = th.phase) : Settled (s.modify t f) :=
  hs.same_phases rfl (fun u => phase_modify s t u h) (fun _ _ _ hq _ => hq) rfl

theorem Settled.unblockTask (t : τ) : Settled (s.unblockTask t) := by
  unfold System.unblockTask
  split
  · exact hs.modify t fun _ => rfl
  · exact hs

theorem Settled.stepThread (h : s.stepThread t = some s') : Settled s' := by
  unfold System.stepThread at h
  split at h
  · cases h
  · rename_i hphase
    cases h
    exact settled_stepWait hs hphase
  · cases h
    exact settled_stepWake hs _ _ _
  · split at h
    · cases h
      exact (refl _ t).settled_goto (hs.unblockTask _) trivial
    · cases h
      exact (refl _ t).settled_goto (hs.modify _ fun _ => rfl) trivial

/-- **The invariant, step by step.** -/
theorem Settled.exec {a : Action τ} (ha : KeepsPage s a) (h : s.exec a = some s') : Settled s' := by
  cases a with
  | call t c =>
    simp only [System.exec] at h
    split at h
    · split at h
      · cases h
        refine (refl s t).settled_goto hs ?_
        cases c <;> trivial
      · cases h
    · cases h
  | step t =>
    rw [System.exec] at h
    split at h
    · exact hs.stepThread h
    · cases h
  | preempt t | schedule t =>
    rw [System.exec] at h
    split at h
    · cases h
      exact hs.modify t fun _ => rfl
    · cases h
  | interrupt t | resume t =>
    cases h
    exact hs.modify t fun _ => rfl
  | rouse t =>
    cases h
    exact hs.unblockTask t
  | store addr value =>
    cases h
    unfold System.setWord
    split
    · exact hs.same_phases rfl (fun _ => rfl) (fun _ _ _ hq _ => hq) rfl
    · exact hs
  | prune isPriv shard =>
    cases h
    exact hs.same_phases rfl (fun _ => rfl) (s.tidy_pruneEmptyEntries isPriv shard) rfl
  | replace page frame =>
    rw [System.exec] at h
    split at h
    · cases h
      refine fun u => (hs u).leaves ⟨fun addr haddr => ?_, rfl, fun _ _ _ hq _ => hq, fun _ hq => hq⟩
      exact update_of_ne (ha u addr haddr) ..
    · cases h

/-! ## Every run -/

/-- No waiter is about to sleep on a word that has changed, and the queue a waiter has looked up is
the one the table holds. -/
structure SleepsInTime (s : System τ) : Prop where
  /-- the step that puts a waiter to sleep finds the expected value in the address space, and the key
  is that of a waker -/
  word : ∀ t w point s' key q, (s.threads t).phase = .wait w point →
    s.exec (.step t) = some s' → (s'.threads t).phase = .wait w (.asleep key q) →
      s.word w.addr = some w.expected ∧ s.futexKey w.addr w.isPrivate = key
  /-- until the waiter drops it -/
  queue : ∀ t w point key q, (s.threads t).phase = .wait w point →
    (∃ frame, point = .enroll frame key q) ∨ point = .asleep key q ∨ point = .cancel key q ∨
      point = .drop key q → s.queueAt key w.bitset = some q

omit hs in
/-- Only the second check puts a waiter to sleep. -/
theorem stepWait_asleep {w : Wait} {key : Key} {q : Nat}
    (h : ((s.stepWait t w point).threads t).phase = .wait w (.asleep key q)) :
    ∃ frame, point = .enroll frame key q ∧ s.frames frame (w.addr % PAGE_SIZE) = w.expected := by
  cases point with
  | enroll frame key' q' =>
    rw [System.stepWait] at h
    split at h
    · rw [System.threads_goto] at h
      cases h
    · split at h
      · rw [System.threads_goto] at h
        cases h
      · rename_i hword
        rw [System.threads_modify] at h
        cases h
        exact ⟨frame, rfl, not_not.mp hword⟩
  | value | signal frame =>
    rw [System.stepWait, System.threads_goto] at h
    split at h <;> cases h
  | translate =>
    rw [System.stepWait] at h
    split at h
    · rw [System.threads_goto] at h
      cases h
    · rw [System.threads_goto] at h
      cases h
  | _ =>
    rw [System.stepWait, System.threads_goto] at h
    cases h

theorem Settled.sleepsInTime : SleepsInTime s := by
  refine ⟨fun t w point s' key q hphase hstep hasleep => ?_, fun t w point key q hphase hpoint => ?_⟩
  · have hs' : s' = s.stepWait t w point := by
      rw [System.exec] at hstep
      split at hstep
      · rw [System.stepThread, hphase] at hstep
        exact (some.inj hstep).symm
      · cases hstep
    rw [hs'] at hasleep
    obtain ⟨frame, rfl, hword⟩ := stepWait_asleep hasleep
    have hfits := hs t
    rw [hphase] at hfits
    refine ⟨?_, hfits.2.1.symm⟩
    rw [System.word, hfits.1, map_some, hword]
  · have hfits := hs t
    rw [hphase] at hfits
    rcases hpoint with ⟨frame, rfl⟩ | rfl | rfl | rfl
    · exact hfits.2.2.1
    · exact hfits.1
    · exact hfits.1
    · exact hfits.1

end

omit [DecidableEq τ] in
theorem Initial.settled (h : Initial s) : Settled s := by
  intro t
  rw [h.idle]
  trivial

/-- **Check and sleep are atomic**, as long as no page is replaced under a waiter that is about to
sleep. -/
theorem sleepsInTime_of_run {s : System τ}
    (h : Reachable Initial (Guarded KeepsPage (Computed System.exec)) s) : SleepsInTime s := by
  have hinv : Settled s := h.invariant (I := Settled) (fun _ hi => hi.settled)
    fun _ _ _ hs hstep => hs.exec hstep.1 hstep.2
  exact hinv.sleepsInTime

/-- A waiter sleeps, and its queue is pruned around it. -/
theorem sleepsInTime_of_sleeper : ∃ s : System (Fin 2),
    Reachable Initial (Guarded KeepsPage (Computed System.exec)) s ∧
      (s.threads 0).phase = .wait ⟨0, 0, true, ANY⟩ (.asleep ⟨0, true⟩ 0) ∧ SleepsInTime s := by
  obtain ⟨s, hr, hs⟩ : ∃ s : System (Fin 2),
      Reachable Initial (Guarded KeepsPage (Computed System.exec)) s ∧
        decide ((s.threads 0).phase = .wait ⟨0, 0, true, ANY⟩ (.asleep ⟨0, true⟩ 0)) = true :=
    Reachable.guarded_execs initial_start
      [.call 0 (.wait ⟨0, 0, true, ANY⟩), .step 0, .step 0, .step 0, .step 0, .step 0,
        .prune true 0, .step 0, .prune true 0] (by decide +kernel)
  exact ⟨s, hr, of_decide_eq_true hs, sleepsInTime_of_run hr⟩

/-- The page of the word is replaced after the waiter has translated its address; the waker stores
to the new frame, finds the queue empty and is done before the waiter goes to sleep. -/
theorem asleep_after_replace : ∃ s s' : System (Fin 2),
    Reachable Initial (Computed System.exec) s ∧ ¬ SleepsInTime s ∧ s.exec (.step 0) = some s' ∧
      (s'.threads 0).phase = .wait ⟨0, 0, true, ANY⟩ (.asleep ⟨0, true⟩ 0) ∧
      s.word 0 = some 1 ∧ (s.threads 1).phase = .idle := by
  obtain ⟨s, hr, hs⟩ : ∃ s : System (Fin 2), Reachable Initial (Computed System.exec) s ∧
      decide ((s.threads 0).phase = .wait ⟨0, 0, true, ANY⟩ (.enroll 0 ⟨0, true⟩ 0) ∧
        s.word 0 = some 1 ∧ (s.threads 1).phase = .idle ∧
        (s.exec (.step 0)).any (fun s' => decide ((s'.threads 0).phase =
          .wait ⟨0, 0, true, ANY⟩ (.asleep ⟨0, true⟩ 0))) = true) = true :=
    Reachable.execs initial_start
      [.call 0 (.wait ⟨0, 0, true, ANY⟩), .step 0, .step 0, .step 0, .step 0, .step 0,
        .replace 0 1, .call 1 (.wake ⟨0, 1, 1, true, ANY, true⟩), .step 1, .step 1, .step 1,
        .step 1, .step 1, .step 1, .step 1, .step 1, .step 1] (by decide +kernel)
  obtain ⟨hphase, hword, hidle, hstep⟩ := of_decide_eq_true hs
  obtain ⟨s', hs', hasleep⟩ := (any_eq_true _ _).mp hstep
  refine ⟨s, s', hr, fun h => ?_, hs', of_decide_eq_true hasleep, hword, hidle⟩
  have hsame := (h.word _ _ _ _ _ _ hphase hs' (of_decide_eq_true hasleep)).1
  rw [hword] at hsame
  cases hsame

end

end PulseOS.FutexTable
