import PulseOS.Errno
import PulseOS.Lib.Transition

/-!
# Writing back the dirty pages of mappings

`FileWritebacks::complete`, which `msync` and the reclaim after `munmap` call: it publishes the
pages whose publication failed before, then its own, and syncs its files if no page failed.  The
retry list `FAILED_FILE_PAGES` is one for all files.

* `errors_own_kept` — where no page of an earlier call fails again, a call reports only errors of
  its own; a page that failed is kept and tried again in any case.
-/

namespace PulseOS.Msync

open Transition List
open LinuxError

/-- A dirty page of a mapping; `record` tells two records of one page apart. -/
structure DirtyFilePage where
  record : Nat
  file : Nat
  pageNumber : Nat
  frame : Nat
  deriving DecidableEq

/-- The pages that stay, the files whose sync is tried, and the first error; `publish` and `sync`
give the error of a page or a file. -/
def completeWritebackRecords {π φ ε : Type} (pages : List π) (files : List φ)
    (publish : π → Option ε) (sync : φ → Option ε) : List π × List φ × Option ε :=
  let kept := pages.filter fun page => (publish page).isSome
  match (pages.filterMap publish).head? with
  | some error => (kept, [], some error)
  | none => (kept, files, (files.filterMap sync).head?)

structure FileWritebacks where
  pages : List DirtyFilePage
  files : List Nat

/-- A call of `complete`, with the errors of its publications and syncs. -/
structure Call extends FileWritebacks where
  publish : DirtyFilePage → Option LinuxError
  sync : Nat → Option LinuxError

structure System where
  /-- `FAILED_FILE_PAGES` -/
  failed : List DirtyFilePage
  /-- the records made so far -/
  records : List DirtyFilePage
  /-- how often each frame is mapped -/
  mapped : Nat → Nat
  /-- the frame table -/
  refs : Nat → Nat

inductive Action where
  /-- page-table entries come and go, as with the references that a reclaim gives back at its end -/
  | remap (mapped : Nat → Nat)
  | complete (call : Call)

def pins (pages : List DirtyFilePage) (frame : Nat) : Nat := pages.countP (·.frame = frame)

namespace System

variable (s : System) (c : Call)

def published : List DirtyFilePage := s.failed ++ c.pages

def complete : List DirtyFilePage × List Nat × Option LinuxError :=
  completeWritebackRecords (s.published c) c.files c.publish c.sync

def exec : Action → Option System
  | .remap mapped => some { s with mapped, refs := fun f => s.refs f - s.mapped f + mapped f }
  | .complete c =>
    -- the records are new, and `from_mapping` finds the frame in use
    if c.pages.Nodup ∧ ∀ page ∈ c.pages, page ∉ s.records ∧ s.refs page.frame ≠ 0 then
      some { s with
        failed := (s.complete c).1
        records := c.pages ++ s.records
        -- the pins of the new records, less those of the pages that are published
        refs := fun f => s.refs f + pins c.pages f -
          pins ((s.published c).filter fun page => !(c.publish page).isSome) f }
    else none

def Initial : Prop := s.failed = [] ∧ ∀ f, s.refs f = s.mapped f

/-- Each record of the retry list is there once, with a reference to its frame. -/
structure Kept : Prop where
  nodup : s.failed.Nodup
  known : s.failed ⊆ s.records
  refs : ∀ f, s.refs f = s.mapped f + pins s.failed f

variable {s} {c} {s' : System}

theorem complete_fst :
    (s.complete c).1 = (s.published c).filter fun page => (c.publish page).isSome := by
  simp only [complete, completeWritebackRecords]
  split <;> rfl

theorem complete_snd (h : ∀ page ∈ s.published c, c.publish page = none) :
    (s.complete c).2 = (c.files, (c.files.filterMap c.sync).head?) := by
  simp only [complete, completeWritebackRecords, filterMap_eq_nil_iff.mpr h, head?_nil]

theorem exec_complete (h : s.exec (.complete c) = some s') (hk : s.Kept) :
    (s.published c).Nodup ∧ s'.failed = (s.complete c).1 ∧ s'.Kept := by
  simp only [exec] at h
  split at h <;> cases h
  rename_i hok
  have hnodup : (s.published c).Nodup :=
    hk.nodup.append hok.1 fun _ hfailed hpage => (hok.2 _ hpage).1 (hk.known hfailed)
  refine ⟨hnodup, rfl, ?_, ?_, fun f => ?_⟩ <;> simp only [complete_fst]
  · exact hnodup.filter _
  · intro page hpage
    obtain hfailed | hown := mem_append.mp (mem_filter.mp hpage).1
    · exact mem_append_right _ (hk.known hfailed)
    · exact mem_append_left _ hown
  · -- the pins of the batch are those of the pages that stay and of those that are published
    have hsplit := countP_eq_countP_filter_add (s.published c) (·.frame = f) (c.publish · |>.isSome)
    have happend : pins (s.published c) f = pins s.failed f + pins c.pages f := countP_append
    simp only [hk.refs, pins] at hsplit happend ⊢
    omega

theorem Kept.reachable (hr : Reachable Initial (Computed exec) s) : s.Kept := by
  refine hr.invariant (fun s ⟨hf, hr⟩ => ⟨by simp [hf], by simp [hf], by simp [hf, hr, pins]⟩)
    fun s a s' hk hs => ?_
  cases a with
  | remap mapped =>
    cases hs
    refine ⟨hk.nodup, hk.known, fun f => ?_⟩
    simp only [hk.refs]
    omega
  | complete c => exact (exec_complete hs hk).2.2

/-- **A call reports only errors of its own** where no page of an earlier call fails again.  A page
that fails is kept once, with its frame pinned, and is published again by the next call. -/
theorem errors_own_kept (hr : Reachable Initial (Computed exec) s)
    (h : s.exec (.complete c) = some s') :
    ((∀ page ∈ s.failed, c.publish page = none) → ((s.complete c).2.2 ≠ none →
        (∃ page ∈ c.pages, c.publish page ≠ none) ∨ ∃ file ∈ c.files, c.sync file ≠ none) ∧
      ((∀ page ∈ c.pages, c.publish page = none) → (s.complete c).2.1 = c.files)) ∧
    (∀ page ∈ s.failed ++ c.pages, (s.published c).count page = 1 ∧
      s'.failed.count page = if c.publish page = none then 0 else 1) ∧
    ∀ page ∈ s'.failed, page ∈ s.failed ++ c.pages ∧ s'.mapped page.frame < s'.refs page.frame := by
  obtain ⟨hnodup, hfailed, hk⟩ := exec_complete h (Kept.reachable hr)
  rw [complete_fst] at hfailed
  refine ⟨fun hretried => ?_, fun page hpage => ?_, fun page hpage => ?_⟩
  · have hown (hpages : ∀ page ∈ c.pages, c.publish page = none) :=
      complete_snd (s := s) fun page hpage =>
        (mem_append.mp hpage).elim (hretried page) (hpages page)
    constructor
    · intro herror
      refine or_iff_not_imp_left.mpr fun hpages => ?_
      rw [hown (by simpa using hpages)] at herror
      simpa using herror
    · intro hpages
      rw [hown hpages]
  · have hone := count_eq_one_of_mem hnodup hpage
    refine ⟨hone, ?_⟩
    rw [hfailed]
    split
    · rename_i hok
      exact count_eq_zero.mpr fun hmem => by simp [hok] at hmem
    · rename_i herror
      rwa [count_filter (p := fun page => (c.publish page).isSome)
        (Option.isSome_iff_ne_none.mpr herror)]
  · have hpin : 0 < pins s'.failed page.frame := countP_pos_iff.mpr ⟨page, hpage, by simp⟩
    have hrefs := hk.refs page.frame
    rw [hfailed, mem_filter] at hpage
    exact ⟨hpage.1, by omega⟩

/-- A call for page and file `n` in which publishing the pages of `file` fails. -/
def call (n file : Nat) : Call :=
  ⟨⟨[⟨n, n, 0, n⟩], [n]⟩, fun page => if page.file = file then some EIO else none, fun _ => none⟩

/-- The page of file 1 has failed. -/
theorem failed_once : Reachable Initial (Computed exec)
    ⟨[⟨1, 1, 0, 1⟩], [⟨1, 1, 0, 1⟩], fun _ => 1, fun f => 1 + pins [⟨1, 1, 0, 1⟩] f⟩ := by
  have h0 : Initial ⟨[], [], fun _ => 1, fun _ => 1⟩ := ⟨rfl, fun _ => rfl⟩
  exact (Reachable.start h0).next (a := .complete (call 1 1)) rfl

theorem errors_own_kept_retry : ∃ s s', Reachable Initial (Computed exec) s ∧ s.failed ≠ [] ∧
    s.exec (.complete (call 2 3)) = some s' ∧
    (s.complete (call 2 3)).2.1 = (call 2 3).files := by
  refine ⟨_, _, failed_once, by simp, rfl, ?_⟩
  exact ((errors_own_kept failed_once (c := call 2 3) rfl).1 (by decide)).2 (by decide)

theorem error_of_another_file : ∃ s s', Reachable Initial (Computed exec) s ∧
    s.exec (.complete (call 2 1)) = some s' ∧
    (s.complete (call 2 1)).2 = ([], (some EIO : Option LinuxError)) ∧
    (∀ page ∈ (call 2 1).pages, (call 2 1).publish page = none) ∧
    ∀ file ∈ (call 2 1).files, (call 2 1).sync file = none :=
  ⟨_, _, failed_once, rfl, rfl, by decide, by decide⟩

end System

end PulseOS.Msync
