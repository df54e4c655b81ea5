import Mathlib.Data.Finset.Card
import PulseOS.Ipc.ShmPages

/-!
# The number of attachments

`shm_nattch` is counted up and down by code of its own, beside the registries whose records it is
meant to count.

* `Exact` — `shm_nattch` is their number, and a segment has left the manager exactly if it is marked
  and has none.
* `KeepsCounts`, `exact_of_run` — the calls that keep it; `counts_diverge` has runs with others.
-/

namespace PulseOS.Ipc.Shm

open Transition Function List AList

/-- The page is the `i`-th of the segment. -/
def Page.isOf (g i : Nat) : Page → Bool
  | .shm g' i' _ => g' = g && i' = i
  | .other => false

namespace System

variable (s : System)

/-- The segment is mapped at the page, with all of its pages. -/
def mapped (a page g : Nat) : Bool :=
  decide (∀ i < (s.segments g).pageNum, (s.spaces a (page + i)).any (Page.isOf g i) = true)

/-- The records that satisfy a condition, by address space and page. -/
def recordsOf (P : Nat → Nat → Nat → Bool) : Finset (Nat × Nat) :=
  (s.procs.entries.flatMap fun e =>
    ((s.registries e.2.registry).entries.filter fun r => P e.2.aspace r.1 r.2).map fun r =>
      (e.2.aspace, r.1)).toFinset

/-- The attachments of a segment that are recorded and mapped. -/
def attachments (g : Nat) : Finset (Nat × Nat) :=
  s.recordsOf fun a page g' => g' = g && s.mapped a page g

def records (g : Nat) : Finset (Nat × Nat) := s.recordsOf fun _ _ g' => g' = g

def InManager (g : Nat) : Prop := ∃ shmid, s.manager.inners shmid = some g

/-- The counts are those of the attachments, and a segment is removed exactly if it is marked and
has none. -/
structure Exact : Prop where
  nattch : ∀ g < s.created, (s.segments g).nattch.toNat = (s.attachments g).card
  removed : ∀ g < s.created,
    ¬ s.InManager g ↔ (s.segments g).rmid = true ∧ (s.segments g).nattch = 0

/-! ## The condition -/

/-- How often a segment is among the records. -/
def count (l : List (Sigma fun _ : Nat => Nat)) (g : Nat) : Nat := l.countP fun r => r.2 = g

/-- The range does not meet that of a record. -/
def AvoidsRecords (registry : Registry) (page n : Nat) : Prop :=
  ∀ r ∈ registry.entries, page + n ≤ r.1 ∨ r.1 + (s.segments r.2).pageNum ≤ page

/-- The registry of an attaching process is of one address space, and `SHM_REMAP` is not laid over
an attachment; detaching does not fail halfway; a fork that fails has nothing to copy; the next id
is free; and there are fewer than 65536 attachments. -/
def KeepsCounts : Action → Prop
  | .shmget _ _ _ _ => s.manager.inners s.manager.nextShmid = none
  | .shmat pid shmid shmaddr shmflg area _ => s.SharesSpace pid ∧ ∀ p ∈ s.procs.lookup pid,
    ∀ g ∈ s.manager.inners shmid, (s.segments g).nattch.toNat + 1 < 2 ^ 16 ∧
      ∀ page ∈ (mapPage shmaddr shmflg area).toOption, shmflg &&& SHM_REMAP ≠ 0 →
        s.AvoidsRecords (s.registries p.registry) page (s.segments g).pageNum
  | .shmdt _ _ (.fails n) => n = 0
  | .fork pid _ shareVm succeeds => shareVm = false → ∀ p ∈ s.procs.lookup pid,
    (succeeds = true ∨ (s.registries p.registry).entries = []) ∧
      ∀ r ∈ (s.registries p.registry).entries,
        (s.segments r.2).nattch.toNat + count (s.registries p.registry).entries r.2 < 2 ^ 16
  | _ => True

instance (registry : Registry) (page n : Nat) : Decidable (s.AvoidsRecords registry page n) := by
  unfold AvoidsRecords
  infer_instance

instance (a : Action) : Decidable (KeepsCounts s a) := by
  unfold KeepsCounts
  split <;> infer_instance

/-! ## Records -/

variable {s} {s' : System} {a g g' i k page : Nat} {flags : MappingFlags}

theorem mem_recordsOf {P : Nat → Nat → Nat → Bool} :
    (a, page) ∈ s.recordsOf P ↔ ∃ pid p g, s.procs.lookup pid = some p ∧ p.aspace = a ∧
      (s.registries p.registry).lookup page = some g ∧ P a page g = true := by
  unfold recordsOf
  rw [mem_toFinset, mem_flatMap]
  constructor
  · rintro ⟨⟨pid, p⟩, he, hr⟩
    obtain ⟨⟨page', g⟩, hfilter, heq⟩ := mem_map.mp hr
    obtain ⟨hmem, hP⟩ := mem_filter.mp hfilter
    cases heq
    exact ⟨pid, p, g, mem_lookup_iff.mpr he, rfl, mem_lookup_iff.mpr hmem, hP⟩
  · rintro ⟨pid, p, g, hp, rfl, hg, hP⟩
    exact ⟨⟨pid, p⟩, mem_lookup_iff.mp hp, mem_map.mpr ⟨⟨page, g⟩,
      mem_filter.mpr ⟨mem_lookup_iff.mp hg, hP⟩, rfl⟩⟩

theorem mem_records :
    (a, page) ∈ s.records g ↔ ∃ pid p, s.procs.lookup pid = some p ∧ p.aspace = a ∧
      (s.registries p.registry).lookup page = some g := by
  unfold records
  rw [mem_recordsOf]
  constructor
  · rintro ⟨pid, p, g', hp, ha, hg, heq⟩
    cases of_decide_eq_true heq
    exact ⟨pid, p, hp, ha, hg⟩
  · rintro ⟨pid, p, hp, ha, hg⟩
    exact ⟨pid, p, g, hp, ha, hg, decide_eq_true rfl⟩

variable {p : Proc} {pid : Nat}

theorem card_records_filter (h : s.Sharing) (hp : s.Runs pid p) (g : Nat) :
    ((s.records g).filter fun x => x.1 = p.aspace).card =
      count (s.registries p.registry).entries g := by
  let pages := ((s.registries p.registry).entries.filter fun r => r.2 = g).map fun r =>
    (p.aspace, r.1)
  have hnodup : pages.Nodup := by
    refine List.Nodup.of_map Prod.snd ?_
    rw [map_map]
    exact (s.registries p.registry).nodupKeys.sublist filter_sublist
  have hpages : (s.records g).filter (fun x => x.1 = p.aspace) = pages.toFinset := by
    ext ⟨a, page⟩
    rw [Finset.mem_filter, mem_records, mem_toFinset, mem_map]
    constructor
    · rintro ⟨⟨pid', q, hq, ha, hg⟩, haspace⟩
      have haspace : a = p.aspace := haspace
      rw [h.paired pid' q pid p hq hp (ha.trans haspace)] at hg
      exact ⟨⟨page, g⟩, mem_filter.mpr ⟨mem_lookup_iff.mp hg, decide_eq_true rfl⟩, by rw [haspace]⟩
    · rintro ⟨⟨page', g'⟩, hfilter, heq⟩
      obtain ⟨hmem, hg⟩ := mem_filter.mp hfilter
      cases of_decide_eq_true hg
      cases heq
      exact ⟨⟨pid, p, hp, rfl, mem_lookup_iff.mpr hmem⟩, rfl⟩
  rw [hpages, toFinset_card_of_nodup hnodup, length_map, count, countP_eq_length_filter]

/-! ## The loops over a registry -/

theorem count_cons (r : Sigma fun _ : Nat => Nat) (l : List (Sigma fun _ : Nat => Nat)) (g : Nat) :
    count (r :: l) g = count l g + if r.2 = g then 1 else 0 := by
  unfold count
  rw [countP_cons]
  simp only [decide_eq_true_eq]

variable {inner : ShmInner} {child : Nat} {space : Space}

theorem toNat_attachProcess (h : inner.nattch.toNat + 1 < 2 ^ 16) :
    inner.attachProcess.nattch.toNat = inner.nattch.toNat + 1 := by
  unfold ShmInner.attachProcess
  rw [UInt16.toNat_add]
  exact Nat.mod_eq_of_lt h

theorem toNat_detachProcess (inner : ShmInner) :
    inner.detachProcess.nattch.toNat = inner.nattch.toNat - 1 := by
  unfold ShmInner.detachProcess
  split
  · rename_i hzero
    rw [hzero]
    rfl
  · rename_i hne
    have hpos : (1 : UInt16) ≤ inner.nattch := by
      rw [UInt16.le_iff_toNat_le]
      have : inner.nattch.toNat ≠ 0 := fun h => hne (UInt16.toNat_inj.mp h)
      exact Nat.one_le_iff_ne_zero.mpr this
    rw [UInt16.toNat_sub_of_le _ _ hpos]
    rfl

theorem foldl_attach_nattch (l : List (Sigma fun _ : Nat => Nat)) (s : System)
    (h : ∀ r ∈ l, (s.segments r.2).nattch.toNat + count l r.2 < 2 ^ 16) (g : Nat) :
    ((l.foldl (fun s r => s.setSegment r.2 (s.segments r.2).attachProcess) s).segments
        g).nattch.toNat = (s.segments g).nattch.toNat + count l g ∧
      ((l.foldl (fun s r => s.setSegment r.2 (s.segments r.2).attachProcess) s).segments g).rmid =
        (s.segments g).rmid := by
  induction l generalizing s with
  | nil => exact ⟨rfl, rfl⟩
  | cons r l ih =>
    rw [foldl_cons]
    have hhead := h r mem_cons_self
    rw [count_cons, if_pos rfl] at hhead
    have hset (g' : Nat) :
        ((s.setSegment r.2 (s.segments r.2).attachProcess).segments g').nattch.toNat =
          (s.segments g').nattch.toNat + (if r.2 = g' then 1 else 0) ∧
        ((s.setSegment r.2 (s.segments r.2).attachProcess).segments g').rmid =
          (s.segments g').rmid := by
      rw [setSegment_segments]
      by_cases hg : g' = r.2
      · rw [if_pos hg, if_pos hg.symm, hg, toNat_attachProcess (by omega)]
        exact ⟨rfl, rfl⟩
      · rw [if_neg hg, if_neg (Ne.symm hg)]
        exact ⟨rfl, rfl⟩
    obtain ⟨hcount, hrmid⟩ := ih _ fun r' hr' => by
      rw [(hset r'.2).1]
      have := h r' (mem_cons_of_mem _ hr')
      rw [count_cons] at this
      omega
    rw [hcount, hrmid, (hset g).1, (hset g).2, count_cons]
    exact ⟨by omega, rfl⟩

/-- What is in the manager is what is not both marked and without attachments. -/
def Kept (s : System) : Prop :=
  ∀ g < s.created, s.InManager g ↔ ¬ ((s.segments g).rmid = true ∧ (s.segments g).nattch.toNat = 0)

theorem Kept.update (hk : s.Kept) (g : Nat) (hcreated : s'.created = s.created)
    (hsegments : ∀ g' ≠ g, s'.segments g' = s.segments g')
    (hinners : ∀ g' ≠ g, s'.InManager g' ↔ s.InManager g')
    (hself : g < s.created → (s'.InManager g ↔
      ¬ ((s'.segments g).rmid = true ∧ (s'.segments g).nattch.toNat = 0))) : s'.Kept := by
  intro g' hg'
  rw [hcreated] at hg'
  by_cases hne : g' = g
  · subst hne
    exact hself hg'
  · rw [hinners g' hne, hsegments g' hne]
    exact hk g' hg'

theorem inManager_removeShmid (hm : s.Managed) {id : Int32}
    (hid : s.manager.inners id = some g) (g' : Nat) :
    InManager { s with manager := s.manager.removeShmid id } g' ↔ g' ≠ g ∧ s.InManager g' := by
  have hinners (id' : Int32) : (s.manager.removeShmid id).inners id' =
      if id' = id then none else s.manager.inners id' := update_apply _ _ _ _
  unfold InManager
  simp only [hinners]
  constructor
  · rintro ⟨id', hid'⟩
    split at hid'
    · cases hid'
    · rename_i hne
      refine ⟨fun heq => hne ?_, id', hid'⟩
      subst heq
      exact (hm id' g' hid').2.symm.trans (hm id g' hid).2
  · rintro ⟨hne, id', hid'⟩
    refine ⟨id', ?_⟩
    rw [if_neg]
    · exact hid'
    · rintro rfl
      rw [hid] at hid'
      exact hne (Option.some.inj hid').symm

/-- **One detachment**: the count goes down, and the last one of a marked segment removes it. -/
theorem detachOne_spec (hm : s.Managed) (hk : s.Kept) (hg : g < s.created)
    (hpos : 0 < (s.segments g).nattch.toNat) :
    (s.detachOne g).Kept ∧ ∀ g', ((s.detachOne g).segments g').nattch.toNat =
        (s.segments g').nattch.toNat - (if g = g' then 1 else 0) := by
  have hset (g' : Nat) : (s.setSegment g (s.segments g).detachProcess).segments g' =
      if g' = g then (s.segments g).detachProcess else s.segments g' := setSegment_segments _ _ _ _
  have hother (g' : Nat) (hne : g' ≠ g) :
      (s.setSegment g (s.segments g).detachProcess).segments g' = s.segments g' := by
    rw [hset, if_neg hne]
  have hnattch (g' : Nat) :
      ((s.setSegment g (s.segments g).detachProcess).segments g').nattch.toNat =
        (s.segments g').nattch.toNat - (if g = g' then 1 else 0) := by
    by_cases hne : g' = g
    · rw [hset, if_pos hne, if_pos hne.symm, hne, toNat_detachProcess]
    · rw [hother g' hne, if_neg (Ne.symm hne), Nat.sub_zero]
  have hmanaged : (s.setSegment g (s.segments g).detachProcess).Managed := hm.setSegment (by rfl)
  obtain ⟨id, hid⟩ : s.InManager g := (hk g hg).mpr fun hmarked => by omega
  have hown : (s.segments g).detachProcess.shmid = id := (hm id g hid).2
  unfold detachOne
  dsimp only
  rw [hown]
  split
  · rename_i hlast
    rw [Bool.and_eq_true, decide_eq_true_eq] at hlast
    have hgone (g' : Nat) := inManager_removeShmid hmanaged hid g'
    refine ⟨hk.update g rfl hother (fun g' hne => (hgone g').trans (and_iff_right hne))
      fun _ => ?_, hnattch⟩
    refine iff_of_false (fun hin => ((hgone g).mp hin).1 rfl) (not_not_intro ?_)
    have hzero := congrArg UInt16.toNat hlast.2
    rw [hset, if_pos rfl]
    exact ⟨hlast.1, hzero⟩
  · rename_i hnot
    refine ⟨hk.update g rfl hother (fun _ _ => Iff.rfl) fun _ => ?_, hnattch⟩
    refine iff_of_true ⟨id, hid⟩ fun hmarked => hnot ?_
    rw [hset, if_pos rfl] at hmarked
    rw [Bool.and_eq_true, decide_eq_true_eq]
    exact ⟨hmarked.1, UInt16.toNat_inj.mp hmarked.2⟩

theorem foldl_detach (l : List (Sigma fun _ : Nat => Nat)) (s : System) (hm : s.Managed)
    (hk : s.Kept) (hlt : ∀ r ∈ l, r.2 < s.created)
    (h : ∀ g, count l g ≤ (s.segments g).nattch.toNat) :
    (l.foldl (fun s r => s.detachOne r.2) s).Kept ∧
      ∀ g, ((l.foldl (fun s r => s.detachOne r.2) s).segments g).nattch.toNat =
        (s.segments g).nattch.toNat - count l g := by
  induction l generalizing s with
  | nil => exact ⟨hk, fun _ => rfl⟩
  | cons r l ih =>
    rw [foldl_cons]
    have hhead := h r.2
    rw [count_cons, if_pos rfl] at hhead
    obtain ⟨hk', hcount⟩ := detachOne_spec hm hk (hlt r mem_cons_self) (by omega)
    have hdetach := CountsOnly.detachOne s r.2
    have hcreated := hdetach.created
    obtain ⟨hk'', hcounts⟩ := ih _ (hm.counts hdetach) hk'
      (fun r' hr' => hcreated ▸ hlt r' (mem_cons_of_mem _ hr')) fun g => by
        have := h g
        rw [count_cons] at this
        rw [hcount]
        omega
    refine ⟨hk'', fun g => ?_⟩
    rw [hcounts, hcount, count_cons]
    omega

/-! ## The invariant -/

/-- Every record is mapped, and the counts are those of the records. -/
structure Tallied (s : System) : Prop where
  kept : s.Kept
  mapped : ∀ pid p, s.procs.lookup pid = some p → ∀ page g,
    (s.registries p.registry).lookup page = some g → s.mapped p.aspace page g = true
  positive : ∀ g < s.created, 0 < (s.segments g).pageNum
  counts : ∀ g < s.created, (s.segments g).nattch.toNat = (s.records g).card

structure Counted (s : System) : Prop where
  managed : s.Managed
  sharing : s.Sharing
  tallied : s.Tallied

theorem mapped_iff : s.mapped a page g = true ↔
    ∀ i < (s.segments g).pageNum, ∃ flags, s.spaces a (page + i) = some (.shm g i flags) := by
  unfold System.mapped
  rw [decide_eq_true_eq]
  refine forall₂_congr fun i _ => ?_
  rw [Option.any_eq_true]
  constructor
  · rintro ⟨x, hx, hof⟩
    cases x with
    | shm g' i' flags =>
      rw [Page.isOf, Bool.and_eq_true, decide_eq_true_eq, decide_eq_true_eq] at hof
      obtain ⟨rfl, rfl⟩ := hof
      exact ⟨flags, hx⟩
    | other => cases hof
  · rintro ⟨flags, hx⟩
    refine ⟨_, hx, ?_⟩
    rw [Page.isOf, Bool.and_eq_true, decide_eq_true_eq, decide_eq_true_eq]
    exact ⟨rfl, rfl⟩

/-- **The counts are exact**, as every record is mapped. -/
theorem Tallied.exact (h : s.Tallied) : s.Exact := by
  refine ⟨fun g hg => ?_, fun g hg => ?_⟩
  · rw [h.counts g hg]
    congr 1
    ext ⟨a, page⟩
    unfold attachments
    rw [mem_records, mem_recordsOf]
    constructor
    · rintro ⟨pid, p, hp, rfl, hlookup⟩
      exact ⟨pid, p, g, hp, rfl, hlookup, by
        rw [Bool.and_eq_true, decide_eq_true_eq]
        exact ⟨rfl, h.mapped pid p hp page g hlookup⟩⟩
    · rintro ⟨pid, p, g', hp, ha, hlookup, hcond⟩
      rw [Bool.and_eq_true, decide_eq_true_eq] at hcond
      exact ⟨pid, p, hp, ha, hcond.1 ▸ hlookup⟩
  · rw [h.kept g hg, not_not]
    exact and_congr_right fun _ => ⟨fun hzero => UInt16.toNat_inj.mp hzero, congrArg UInt16.toNat⟩

theorem records_congr (hprocs : s'.procs = s.procs) (hregistries : s'.registries = s.registries)
    (g : Nat) : s'.records g = s.records g := by
  unfold records recordsOf
  rw [hprocs, hregistries]

theorem Tallied.mapped_of_mem {a : Nat} (h : s.Tallied) (hm : (a, page) ∈ s.records g) :
    s.mapped a page g = true := by
  obtain ⟨pid, p, hp, rfl, hlookup⟩ := mem_records.mp hm
  exact h.mapped pid p hp page g hlookup

/-- The segments keep their lengths, and their records are mapped and counted. -/
theorem Tallied.change (h : s.Tallied) (hcreated : s'.created = s.created)
    (hpages : ∀ g, (s'.segments g).pageNum = (s.segments g).pageNum) (hkept : s'.Kept)
    (hmapped : ∀ g a page, (a, page) ∈ s'.records g → s'.mapped a page g = true)
    (hcounts : ∀ g < s.created, (s'.segments g).nattch.toNat = (s'.records g).card) :
    s'.Tallied := by
  refine ⟨hkept, fun pid p hp page g hlookup => ?_, fun g hg => ?_, fun g hg => ?_⟩
  · exact hmapped g _ page (mem_records.mpr ⟨pid, p, hp, rfl, hlookup⟩)
  · rw [hpages]
    exact h.positive g (hcreated ▸ hg)
  · exact hcounts g (hcreated ▸ hg)

/-- Records, counts and lengths are as they were, and what is recorded is still mapped. -/
theorem Tallied.frame (h : s.Tallied) (hprocs : s'.procs = s.procs)
    (hregistries : s'.registries = s.registries) (hcreated : s'.created = s.created)
    (hkept : s'.Kept) (hpages : ∀ g, (s'.segments g).pageNum = (s.segments g).pageNum)
    (hnattch : ∀ g, (s'.segments g).nattch = (s.segments g).nattch)
    (hmapped : ∀ g a page, (a, page) ∈ s.records g → s.mapped a page g = true →
      s'.mapped a page g = true) : s'.Tallied := by
  have hrecords := records_congr hprocs hregistries
  refine h.change hcreated hpages hkept (fun g a page hm => ?_) fun g hg => ?_
  · rw [hrecords] at hm
    exact hmapped g a page hm (h.mapped_of_mem hm)
  · rw [hnattch, hrecords, h.counts g hg]

theorem Tallied.segment (h : s.Tallied) (hpages : inner.pageNum = (s.segments g).pageNum)
    (hnattch : inner.nattch = (s.segments g).nattch)
    (hsegments : s'.segments = (s.setSegment g inner).segments) (hprocs : s'.procs = s.procs)
    (hregistries : s'.registries = s.registries) (hcreated : s'.created = s.created)
    (hspaces : s'.spaces = s.spaces) (hkept : s'.Kept) : s'.Tallied := by
  have hlength (g' : Nat) : (s'.segments g').pageNum = (s.segments g').pageNum := by
    rw [hsegments]
    exact setSegment_pageNum hpages g'
  refine h.frame hprocs hregistries hcreated hkept hlength (fun g' => ?_)
    fun g' a page _ hmapped => ?_
  · rw [hsegments, setSegment_segments]
    split
    · subst g'
      exact hnattch
    · rfl
  · rw [mapped_iff] at hmapped ⊢
    rw [hlength, hspaces]
    exact hmapped

theorem Kept.segment (hk : s.Kept)
    (hrmid : inner.rmid = (s.segments g).rmid) (hnattch : inner.nattch = (s.segments g).nattch)
    (hsegments : s'.segments = (s.setSegment g inner).segments)
    (hmanager : s'.manager = s.manager) (hcreated : s'.created = s.created) : s'.Kept := by
  have hinners (g' : Nat) : s'.InManager g' ↔ s.InManager g' := by
    unfold InManager
    rw [hmanager]
  refine hk.update g hcreated (fun g' hne => ?_) (fun g' _ => hinners g') fun hg => ?_
  · rw [hsegments, setSegment_segments, if_neg hne]
  · rw [hsegments, setSegment_segments, if_pos rfl, hrmid, hnattch, hinners]
    exact hk g hg

theorem Tallied.setSpace (h : s.Tallied) (hs : s.Sharing) (hp : s.Runs pid p)
    (hspace : ∀ k g i flags, (s.registries p.registry).lookup k = some g →
      s.spaces p.aspace (k + i) = some (.shm g i flags) → i < (s.segments g).pageNum →
        space (k + i) = some (.shm g i flags)) : (s.setSpace p.aspace space).Tallied := by
  refine h.frame rfl rfl rfl h.kept (fun _ => rfl) (fun _ => rfl) fun g a k hm hmapped => ?_
  obtain ⟨pid', q, hq, rfl, hlookup⟩ := mem_records.mp hm
  rw [mapped_iff] at hmapped ⊢
  intro i hi
  obtain ⟨flags, hv⟩ := hmapped i hi
  refine ⟨flags, ?_⟩
  rw [setSpace_spaces]
  split
  · rename_i ha
    rw [ha] at hv
    rw [hs.paired pid' q pid p hq hp ha] at hlookup
    exact hspace k g i flags hlookup hv hi
  · exact hv

theorem Tallied.setProc (h : s.Tallied) {p q : Proc}
    (hp : s.Runs pid p) (hr : q.registry = p.registry) (ha : q.aspace = p.aspace)
    (hold : ∀ q', s.procs.lookup child = some q' →
      q'.registry = p.registry ∧ q'.aspace = p.aspace) : (s.setProc child q).Tallied := by
  have hprocs : (s.setProc child q).procs = s.procs.insert child q := rfl
  have hrecords (g : Nat) : (s.setProc child q).records g = s.records g := by
    ext ⟨a, k⟩
    rw [mem_records, mem_records]
    constructor
    · rintro ⟨pid', q', hq, rfl, hlookup⟩
      rw [hprocs] at hq
      by_cases hne : pid' = child
      · rw [hne, lookup_insert] at hq
        cases hq
        exact ⟨pid, p, hp, ha.symm, by rw [← hr]; exact hlookup⟩
      · rw [lookup_insert_ne hne] at hq
        exact ⟨pid', q', hq, rfl, hlookup⟩
    · rintro ⟨pid', q', hq, rfl, hlookup⟩
      by_cases hne : pid' = child
      · subst hne
        obtain ⟨hreg, haspace⟩ := hold q' hq
        refine ⟨pid', q, lookup_insert _, ha.trans haspace.symm, ?_⟩
        rw [hr, ← hreg]
        exact hlookup
      · exact ⟨pid', q', by rw [hprocs, lookup_insert_ne hne]; exact hq, rfl, hlookup⟩
  refine h.change rfl (fun _ => rfl) h.kept (fun g a k hm => ?_) fun g hg => ?_
  · rw [hrecords] at hm
    exact h.mapped_of_mem hm
  · rw [hrecords]
    exact h.counts g hg

/-! ## The calls that change the records -/

theorem Tallied.make (h : s.Tallied) (hr : s.Sharing)
    (hfresh : s.manager.inners s.manager.nextShmid = none) (caller : Credentials) (key : Int32)
    {size : Nat} (shmflg : BitVec 32) (hsize : 0 < pagesOf size) :
    (s.makeSegment caller key size shmflg).Tallied := by
  have hold (g : Nat) (hg : g < s.created) :
      (s.makeSegment caller key size shmflg).segments g = s.segments g :=
    update_of_ne (Nat.ne_of_lt hg) _ _
  have hnew : (s.makeSegment caller key size shmflg).segments s.created =
      .new key s.manager.nextShmid size (pagesOf size) (flagsOf shmflg) caller.euid caller.egid :=
    update_self _ _ _
  have hinners (shmid : Int32) : (s.makeSegment caller key size shmflg).manager.inners shmid =
      if shmid = s.manager.nextShmid then some s.created else s.manager.inners shmid :=
    update_apply _ _ _ _
  have hrecords (g : Nat) : (s.makeSegment caller key size shmflg).records g = s.records g :=
    records_congr rfl rfl g
  refine ⟨fun g hg => ?_, fun pid p hp page g hlookup => ?_, fun g hg => ?_, fun g hg => ?_⟩
  · rcases Nat.lt_succ_iff_lt_or_eq.mp hg with hlt | rfl
    · rw [hold g hlt, ← h.kept g hlt]
      constructor
      · rintro ⟨shmid, hid⟩
        rw [hinners] at hid
        split at hid
        · cases hid
          exact absurd hlt (Nat.lt_irrefl _)
        · exact ⟨shmid, hid⟩
      · rintro ⟨shmid, hid⟩
        refine ⟨shmid, ?_⟩
        rw [hinners, if_neg]
        · exact hid
        · rintro rfl
          rw [hfresh] at hid
          cases hid
    · rw [hnew]
      exact iff_of_true ⟨s.manager.nextShmid, by rw [hinners, if_pos rfl]⟩ nofun
  · have hmapped := mapped_iff.mp (h.mapped pid p hp page g hlookup)
    rw [mapped_iff, hold g (hr.recorded _ page g hlookup)]
    exact hmapped
  · rcases Nat.lt_succ_iff_lt_or_eq.mp hg with hlt | rfl
    · rw [hold g hlt]
      exact h.positive g hlt
    · rw [hnew]
      exact hsize
  · rw [hrecords]
    rcases Nat.lt_succ_iff_lt_or_eq.mp hg with hlt | rfl
    · rw [hold g hlt]
      exact h.counts g hlt
    · have hnone : s.records s.created = ∅ := by
        refine Finset.eq_empty_of_forall_notMem fun ⟨a, page⟩ hmem => ?_
        obtain ⟨pid, p, -, -, hlookup⟩ := mem_records.mp hmem
        exact absurd (hr.recorded _ page _ hlookup) (Nat.lt_irrefl _)
      rw [hnew, hnone]
      rfl

/-- A new record: the users of the registry use the address space, and it has no record there. -/
theorem records_record (hp : s.Runs pid p)
    (hsame : ∀ pid' q, s.procs.lookup pid' = some q → q.registry = p.registry →
      q.aspace = p.aspace) (hnone : (s.registries p.registry).lookup page = none) (g' : Nat) :
    (s.record p g page).records g' =
      if g' = g then insert (p.aspace, page) (s.records g') else s.records g' := by
  have hregistry (r : Nat) : (s.record p g page).registries r =
      if r = p.registry then (s.registries p.registry).insert page g else s.registries r :=
    setRegistry_registries _ _ _ _
  have hmem (a k : Nat) : (a, k) ∈ (s.record p g page).records g' ↔
      (a, k) ∈ s.records g' ∨ g' = g ∧ (a, k) = (p.aspace, page) := by
    rw [mem_records, mem_records]
    constructor
    · rintro ⟨pid', q, hq, ha, hlookup⟩
      rw [hregistry] at hlookup
      split at hlookup
      · rename_i hreg
        by_cases hk : k = page
        · rw [hk, lookup_insert] at hlookup
          cases hlookup
          refine Or.inr ⟨rfl, ?_⟩
          rw [hk, ← ha, hsame pid' q hq hreg]
        · rw [lookup_insert_ne hk, ← hreg] at hlookup
          exact Or.inl ⟨pid', q, hq, ha, hlookup⟩
      · exact Or.inl ⟨pid', q, hq, ha, hlookup⟩
    · rintro (⟨pid', q, hq, ha, hlookup⟩ | ⟨rfl, heq⟩)
      · refine ⟨pid', q, hq, ha, ?_⟩
        rw [hregistry]
        split
        · rename_i hreg
          rw [hreg] at hlookup
          rw [lookup_insert_ne]
          · exact hlookup
          · rintro rfl
            rw [hnone] at hlookup
            cases hlookup
        · exact hlookup
      · cases heq
        refine ⟨pid, p, hp, rfl, ?_⟩
        rw [hregistry, if_pos rfl, lookup_insert]
  ext ⟨a, k⟩
  rw [hmem]
  split
  · rename_i hg
    rw [Finset.mem_insert, or_comm]
    exact or_congr_left (and_iff_right hg)
  · rename_i hg
    exact or_iff_left fun hself => hg hself.1

theorem Tallied.record (h : s.Tallied) (hp : s.Runs pid p)
    (hg : g < s.created) (hin : s.InManager g)
    (hsame : ∀ pid' q, s.procs.lookup pid' = some q → q.registry = p.registry →
      q.aspace = p.aspace) (hnone : ∀ pid' q, s.procs.lookup pid' = some q → q.aspace = p.aspace →
      (s.registries q.registry).lookup page = none) (hmapped : s.mapped p.aspace page g = true)
    (hroom : (s.segments g).nattch.toNat + 1 < 2 ^ 16) : (s.record p g page).Tallied := by
  have hset (g' : Nat) : (s.record p g page).segments g' =
      if g' = g then (s.segments g).attachProcess else s.segments g' := setSegment_segments _ _ _ _
  have hpages (g' : Nat) : ((s.record p g page).segments g').pageNum = (s.segments g').pageNum :=
    congrArg (fun x => x.2.1) ((Keeps.record s p g page).fixed g')
  have hup := toNat_attachProcess hroom
  have hmap (a k g' : Nat) : (s.record p g page).mapped a k g' = s.mapped a k g' := by
    unfold System.mapped
    rw [hpages]
    rfl
  have hrecords (g' : Nat) := records_record (g := g) hp hsame (hnone pid p hp rfl) g'
  refine h.change rfl hpages (h.kept.update g rfl (fun g' hne => ?_) (fun _ _ => Iff.rfl)
    fun _ => ?_) (fun g' a k hm => ?_) fun g' hg' => ?_
  · rw [hset, if_neg hne]
  · refine iff_of_true hin fun hmarked => ?_
    have hzero := hmarked.2
    rw [hset, if_pos rfl, hup] at hzero
    omega
  · rw [hmap]
    rw [hrecords] at hm
    split at hm
    · subst g'
      rcases Finset.mem_insert.mp hm with heq | hm
      · cases heq
        exact hmapped
      · exact h.mapped_of_mem hm
    · exact h.mapped_of_mem hm
  · rw [hset, hrecords]
    split
    · subst g'
      have hnew : (p.aspace, page) ∉ s.records g := fun hmem => by
        obtain ⟨pid', q, hq, ha, hlookup⟩ := mem_records.mp hmem
        rw [hnone pid' q hq ha] at hlookup
        cases hlookup
      rw [hup, Finset.card_insert_of_notMem hnew, h.counts g hg]
    · exact h.counts g' hg'

theorem records_erase (h : s.Sharing) (hp : s.Runs pid p)
    (hg : (s.registries p.registry).lookup page = some g) (hprocs : s'.procs = s.procs)
    (hregistries : ∀ r, s'.registries r =
      if r = p.registry then (s.registries p.registry).erase page else s.registries r) (g' : Nat) :
    s'.records g' = (s.records g').erase (p.aspace, page) := by
  ext ⟨a, k⟩
  rw [Finset.mem_erase, mem_records, mem_records, hprocs]
  constructor
  · rintro ⟨pid', q, hq, rfl, hlookup⟩
    rw [hregistries] at hlookup
    split at hlookup
    · rename_i hreg
      by_cases hk : k = page
      · rw [hk, lookup_erase] at hlookup
        cases hlookup
      · rw [lookup_erase_ne hk, ← hreg] at hlookup
        exact ⟨fun heq => hk (congrArg Prod.snd heq), pid', q, hq, rfl, hlookup⟩
    · rename_i hreg
      exact ⟨fun heq => hreg (h.paired pid' q pid p hq hp (congrArg Prod.fst heq)), pid', q, hq,
        rfl, hlookup⟩
  · rintro ⟨hne, pid', q, hq, rfl, hlookup⟩
    refine ⟨pid', q, hq, rfl, ?_⟩
    rw [hregistries]
    split
    · rename_i hreg
      have hk : k ≠ page := fun hk => hne (by rw [h.same hp hq hreg hg, hk])
      rw [lookup_erase_ne hk, ← hreg]
      exact hlookup
    · exact hlookup

/-- The pages of another record are not those of the one that is detached: a page knows its place in
the segment. -/
theorem mapped_unmap (h' : s.mapped a k g' = true) (h : s.mapped a page g = true) (hne : k ≠ page)
    (hi : i < (s.segments g').pageNum) :
    ¬ (page ≤ k + i ∧ k + i < page + (s.segments g).pageNum) := by
  rintro ⟨hle, hlt⟩
  obtain ⟨flags', hpage'⟩ := mapped_iff.mp h' i hi
  obtain ⟨flags, hpage⟩ := mapped_iff.mp h (k + i - page) (by omega)
  rw [Nat.add_sub_cancel' hle, hpage'] at hpage
  have hplace : i = k + i - page := by
    injection hpage with hpage
    injection hpage
  omega

theorem Counted.detach (h : s.Counted) (hp : s.Runs pid p)
    (hg : (s.registries p.registry).lookup page = some g) :
    (((s.setSpace p.aspace ((s.spaces p.aspace).unmap page (s.segments g).pageNum)).setRegistry
      p.registry ((s.registries p.registry).erase page)).detachOne g).Tallied := by
  let t := (s.setSpace p.aspace ((s.spaces p.aspace).unmap page (s.segments g).pageNum)).setRegistry
    p.registry ((s.registries p.registry).erase page)
  have hlt := h.sharing.recorded _ page g hg
  have hmem : (p.aspace, page) ∈ s.records g := mem_records.mpr ⟨pid, p, hp, rfl, hg⟩
  have hcount := h.tallied.counts g hlt
  have hcard : 0 < (s.records g).card := Finset.card_pos.mpr ⟨_, hmem⟩
  obtain ⟨hkept, hnattch⟩ : (t.detachOne g).Kept ∧
      ∀ g', ((t.detachOne g).segments g').nattch.toNat =
        (s.segments g').nattch.toNat - (if g = g' then 1 else 0) := by
    refine detachOne_spec (s := t) h.managed h.tallied.kept hlt ?_
    have hpos : 0 < (s.segments g).nattch.toNat := by omega
    exact hpos
  have hcounts : CountsOnly t (t.detachOne g) := .detachOne t g
  have hregistries (r : Nat) : (t.detachOne g).registries r =
      if r = p.registry then (s.registries p.registry).erase page else s.registries r := by
    rw [hcounts.registries]
    exact setRegistry_registries _ _ _ _
  have hpages (g' : Nat) : ((t.detachOne g).segments g').pageNum = (s.segments g').pageNum :=
    congrArg (fun x => x.2.1) (hcounts.fixed g')
  have hrecords (g' : Nat) := records_erase h.sharing hp hg hcounts.procs hregistries g'
  refine h.tallied.change hcounts.created hpages hkept (fun g' a k hm => ?_) fun g' hg' => ?_
  · rw [hrecords, Finset.mem_erase] at hm
    have hmapped := h.tallied.mapped_of_mem hm.2
    rw [mapped_iff, hpages, hcounts.spaces]
    intro i hi
    have hspace : t.spaces a = if a = p.aspace then
        (s.spaces p.aspace).unmap page (s.segments g).pageNum else s.spaces a :=
      setSpace_spaces _ _ _ _
    rw [hspace]
    split
    · rename_i ha
      subst ha
      have hk : k ≠ page := fun hk => hm.1 (by rw [hk])
      rw [Space.unmap, if_neg (mapped_unmap hmapped (h.tallied.mapped_of_mem hmem) hk hi)]
      exact mapped_iff.mp hmapped i hi
    · exact mapped_iff.mp hmapped i hi
  · rw [hnattch, hrecords]
    by_cases hne : g = g'
    · subst g'
      rw [if_pos rfl, Finset.card_erase_of_mem hmem, hcount]
    · rw [if_neg hne, Nat.sub_zero, h.tallied.counts g' hg', Finset.erase_eq_of_notMem]
      intro hrecord
      obtain ⟨pid', q, hq, ha, hlookup⟩ := mem_records.mp hrecord
      rw [h.sharing.paired pid' q pid p hq hp ha, hg] at hlookup
      exact hne (Option.some.inj hlookup)

theorem records_leave (h : s.Sharing) (hp : s.Runs pid p)
    (hothers : ∀ pid' ≠ pid, s'.procs.lookup pid' = s.procs.lookup pid')
    (hself : ∀ q, s'.procs.lookup pid = some q → q.registry = p.registry)
    (hregistries : ∀ r, s'.registries r = if r = p.registry then ∅ else s.registries r) (g : Nat) :
    s'.records g = (s.records g).filter fun x => ¬ x.1 = p.aspace := by
  ext ⟨a, k⟩
  rw [Finset.mem_filter, mem_records, mem_records]
  constructor
  · rintro ⟨pid', q, hq, rfl, hlookup⟩
    rw [hregistries] at hlookup
    split at hlookup
    · cases hlookup
    · rename_i hreg
      have hne : pid' ≠ pid := by
        rintro rfl
        exact hreg (hself q hq)
      rw [hothers pid' hne] at hq
      exact ⟨⟨pid', q, hq, rfl, hlookup⟩, fun ha => hreg (h.paired pid' q pid p hq hp ha)⟩
  · rintro ⟨⟨pid', q, hq, rfl, hlookup⟩, hne⟩
    have hpid : pid' ≠ pid := by
      rintro rfl
      rw [hp] at hq
      cases hq
      exact hne rfl
    refine ⟨pid', q, by rw [hothers pid' hpid]; exact hq, rfl, ?_⟩
    rw [hregistries, if_neg]
    · exact hlookup
    · -- the users of a registry with a record use one address space
      intro hreg
      rw [hreg] at hlookup
      exact hne (h.same hp hq hreg hlookup)

theorem Counted.count_le (h : s.Counted) (hp : s.Runs pid p) (g : Nat) :
    count (s.registries p.registry).entries g ≤ (s.segments g).nattch.toNat := by
  by_cases hg : g < s.created
  · rw [h.tallied.counts g hg, ← card_records_filter h.sharing hp g]
    exact Finset.card_filter_le _ _
  · have hzero : count (s.registries p.registry).entries g = 0 := by
      refine countP_eq_zero.mpr fun r hr heq => hg ?_
      have hlookup : (s.registries p.registry).lookup r.1 = some r.2 := mem_lookup_iff.mpr hr
      rw [← of_decide_eq_true heq]
      exact h.sharing.recorded _ _ _ hlookup
    omega

/-- `exec` and `exit`: `t` has the process gone from its address space. -/
theorem Counted.leave (h : s.Counted) (hp : s.Runs pid p)
    {t : System} (hmanager : t.manager = s.manager) (hsegments : t.segments = s.segments)
    (hcreated : t.created = s.created) (hregistries : t.registries = s.registries)
    (hspaces : ∀ a < s.nextSpace, t.spaces a = s.spaces a)
    (hothers : ∀ pid' ≠ pid, t.procs.lookup pid' = s.procs.lookup pid')
    (hself : ∀ q, t.procs.lookup pid = some q → q.registry = p.registry) :
    (t.detachAllSharedMemory p.registry).Tallied := by
  have hcounts : CountsOnly t (t.detachEach p.registry) := .detachEach t p.registry
  have hreg (r : Nat) : (t.detachAllSharedMemory p.registry).registries r =
      if r = p.registry then ∅ else s.registries r := by
    unfold detachAllSharedMemory
    rw [setRegistry_registries, hcounts.registries, hregistries]
  have hprocs : (t.detachAllSharedMemory p.registry).procs = t.procs := hcounts.procs
  have hpages (g : Nat) : ((t.detachAllSharedMemory p.registry).segments g).pageNum =
      (s.segments g).pageNum := by
    rw [← hsegments]
    exact congrArg (fun x => x.2.1) (hcounts.fixed g)
  have hmade : (t.detachAllSharedMemory p.registry).created = s.created :=
    hcounts.created.trans hcreated
  obtain ⟨hkept, hnattch⟩ : (t.detachEach p.registry).Kept ∧
      ∀ g, ((t.detachEach p.registry).segments g).nattch.toNat =
        (t.segments g).nattch.toNat - count (t.registries p.registry).entries g := by
    refine foldl_detach _ t ?_ ?_ (fun r hr => ?_) fun g => ?_
    · unfold Managed
      rw [hmanager, hcreated, hsegments]
      exact h.managed
    · unfold Kept InManager
      rw [hmanager, hcreated, hsegments]
      exact h.tallied.kept
    · rw [hcreated]
      rw [hregistries] at hr
      exact h.sharing.recorded _ r.1 r.2 (mem_lookup_iff.mpr hr)
    · rw [hregistries, hsegments]
      exact h.count_le hp g
  have hrecords (g : Nat) := records_leave h.sharing hp
    (fun pid' hne => by rw [hprocs]; exact hothers pid' hne)
    (fun q hq => hself q (by rw [← hprocs]; exact hq)) hreg g
  refine h.tallied.change hmade hpages hkept (fun g a k hm => ?_) fun g hg => ?_
  · rw [hrecords, Finset.mem_filter] at hm
    obtain ⟨pid', q, hq, rfl, -⟩ := mem_records.mp hm.1
    have hspace : (t.detachAllSharedMemory p.registry).spaces q.aspace = s.spaces q.aspace :=
      (congrFun hcounts.spaces _).trans (hspaces _ (h.sharing.allocated pid' q hq).2)
    rw [mapped_iff, hpages, hspace]
    exact mapped_iff.mp (h.tallied.mapped_of_mem hm.1)
  · have hdown : ((t.detachAllSharedMemory p.registry).segments g).nattch.toNat =
        (s.segments g).nattch.toNat - count (s.registries p.registry).entries g := by
      rw [← hsegments, ← hregistries]
      exact hnattch g
    have hsplit := Finset.card_filter_add_card_filter_not (s := s.records g)
      (fun x => x.1 = p.aspace)
    rw [card_records_filter h.sharing hp g] at hsplit
    rw [hdown, h.tallied.counts g hg, hrecords]
    omega

/-- The child has the records of its parent, in an address space of its own. -/
theorem records_fork (h : s.Sharing) {p q : Proc}
    (hp : s.Runs pid p) (hchild : s.procs.lookup child = none)
    (hprocs : s'.procs = s.procs.insert child q)
    (hcopy : s'.registries q.registry = s.registries p.registry)
    (hregistries : ∀ r < s.nextRegistry, s'.registries r = s.registries r) (g : Nat) :
    s'.records g = s.records g ∪
      ((s.records g).filter fun x => x.1 = p.aspace).image fun x => (q.aspace, x.2) := by
  have hlookup (pid' : Nat) (hne : pid' ≠ child) : s'.procs.lookup pid' = s.procs.lookup pid' := by
    rw [hprocs, lookup_insert_ne hne]
  have hnew : s'.procs.lookup child = some q := by rw [hprocs, lookup_insert]
  have hold (pid' : Nat) (q' : Proc) (hq : s.Runs pid' q') : pid' ≠ child := by
    rintro rfl
    cases hchild.symm.trans hq
  ext ⟨a, k⟩
  rw [Finset.mem_union, Finset.mem_image, mem_records, mem_records]
  constructor
  · rintro ⟨pid', q', hq, rfl, hg⟩
    by_cases hne : pid' = child
    · rw [hne, hnew] at hq
      cases hq
      rw [hcopy] at hg
      refine Or.inr ⟨(p.aspace, k), Finset.mem_filter.mpr ⟨?_, rfl⟩, rfl⟩
      exact mem_records.mpr ⟨pid, p, hp, rfl, hg⟩
    · rw [hlookup pid' hne] at hq
      rw [hregistries _ (h.allocated pid' q' hq).1] at hg
      exact Or.inl ⟨pid', q', hq, rfl, hg⟩
  · rintro (⟨pid', q', hq, rfl, hg⟩ | ⟨⟨a', k'⟩, hmem, heq⟩)
    · refine ⟨pid', q', (hlookup pid' (hold pid' q' hq)).trans hq, rfl, ?_⟩
      rw [hregistries _ (h.allocated pid' q' hq).1]
      exact hg
    · cases heq
      obtain ⟨hrecord, ha⟩ := Finset.mem_filter.mp hmem
      obtain ⟨pid', q', hq, ha', hg⟩ := mem_records.mp hrecord
      rw [h.paired pid' q' pid p hq hp (ha'.trans ha), ← hcopy] at hg
      exact ⟨child, q, hnew, rfl, hg⟩

theorem Counted.fork (h : s.Counted)
    (hp : s.Runs pid p) (hchild : s.procs.lookup child = none)
    (hroom : ∀ r ∈ (s.registries p.registry).entries,
      (s.segments r.2).nattch.toNat + count (s.registries p.registry).entries r.2 < 2 ^ 16) :
    (s.fork p child false true).Tallied := by
  have hcounts := CountsOnly.attachAll s p.registry
  have hattach (g : Nat) := foldl_attach_nattch _ s hroom g
  have hmade : (s.fork p child false true).created = s.created := hcounts.created
  have hpages (g : Nat) : ((s.fork p child false true).segments g).pageNum =
      (s.segments g).pageNum := congrArg (fun x => x.2.1) (hcounts.fixed g)
  have hinners : (s.fork p child false true).manager.inners = s.manager.inners := by
    have hfold (l : List (Sigma fun _ : Nat => Nat)) (s : System) :
        (l.foldl (fun s r => s.setSegment r.2 (s.segments r.2).attachProcess) s).manager =
          s.manager := by
      induction l generalizing s with
      | nil => rfl
      | cons r l ih => exact ih _
    exact congrArg ShmManager.inners (hfold _ s)
  have hregistries (r : Nat) : (s.fork p child false true).registries r =
      if r = s.nextRegistry then s.registries p.registry else s.registries r :=
    update_apply _ _ _ _
  have hspaces (a : Nat) : (s.fork p child false true).spaces a =
      if a = s.nextSpace then s.spaces p.aspace else s.spaces a := update_apply _ _ _ _
  have hprocs : (s.fork p child false true).procs =
      s.procs.insert child ⟨p.creds, s.nextRegistry, s.nextSpace⟩ :=
    congrArg (insert child _) hcounts.procs
  have hrecords (g : Nat) := records_fork h.sharing hp hchild hprocs (by rw [hregistries, if_pos rfl])
    (fun r hr => by rw [hregistries, if_neg (Nat.ne_of_lt hr)]) g
  refine h.tallied.change hmade hpages (fun g hg => ?_) (fun g a k hm => ?_) fun g hg => ?_
  · rw [hmade] at hg
    unfold InManager
    rw [hinners]
    refine (h.tallied.kept g hg).trans (not_congr ?_)
    have hrmid : ((s.fork p child false true).segments g).rmid = (s.segments g).rmid :=
      (hattach g).2
    have hnattch : ((s.fork p child false true).segments g).nattch.toNat =
        (s.segments g).nattch.toNat + count (s.registries p.registry).entries g := (hattach g).1
    have hle := h.count_le hp g
    rw [hrmid, hnattch]
    refine and_congr_right fun _ => ?_
    omega
  · rw [hrecords, Finset.mem_union, Finset.mem_image] at hm
    rw [mapped_iff, hpages, hspaces]
    rcases hm with hm | ⟨⟨a', k'⟩, hm, heq⟩
    · obtain ⟨pid', q, hq, rfl, -⟩ := mem_records.mp hm
      rw [if_neg (Nat.ne_of_lt (h.sharing.allocated pid' q hq).2)]
      exact mapped_iff.mp (h.tallied.mapped_of_mem hm)
    · cases heq
      obtain ⟨hm, ha⟩ := Finset.mem_filter.mp hm
      rw [if_pos rfl, ← ha]
      exact mapped_iff.mp (h.tallied.mapped_of_mem hm)
  · rw [hrecords, Finset.card_union_of_disjoint, Finset.card_image_of_injOn,
      card_records_filter h.sharing hp g, ← h.tallied.counts g hg]
    · exact (hattach g).1
    · rintro ⟨a, k⟩ hx ⟨a', k'⟩ hx' heq
      have ha : a = p.aspace := (Finset.mem_filter.mp hx).2
      have ha' : a' = p.aspace := (Finset.mem_filter.mp hx').2
      have hk : k = k' := congrArg Prod.snd heq
      rw [ha, ha', hk]
    · refine Finset.disjoint_left.mpr fun x hx hx' => ?_
      obtain ⟨pid', q, hq, ha, -⟩ := mem_records.mp hx
      obtain ⟨y, -, heq⟩ := Finset.mem_image.mp hx'
      have hlt := (h.sharing.allocated pid' q hq).2
      rw [ha, ← heq] at hlt
      exact absurd hlt (Nat.lt_irrefl _)

/-! ## Every run -/

/-- What `SHM_REMAP` takes away is not of an attachment. -/
theorem AvoidsRecords.unmap {shmflg : BitVec 32} {faults : Faults} (h : shmflg &&& SHM_REMAP ≠ 0 →
      s.AvoidsRecords (s.registries p.registry) page (s.segments g).pageNum)
    (hk : (s.registries p.registry).lookup k = some g') (hi : i < (s.segments g').pageNum) :
    (s.spaces p.aspace).unmap page (remapPages (s.segments g) shmflg faults) (k + i) =
      s.spaces p.aspace (k + i) := by
  refine if_neg ?_
  unfold remapPages
  split
  · rename_i hremap
    have hdisjoint := h hremap ⟨k, g'⟩ (mem_lookup_iff.mp hk)
    have hpages : faults.unmap.pages (s.segments g).pageNum ≤ (s.segments g).pageNum := by
      unfold Unmap.pages
      split
      · exact Nat.le_refl _
      · exact Nat.min_le_right _ _
    dsimp only at hdisjoint
    omega
  · omega

theorem Tallied.alloc (h : s.Tallied) (g : Nat) :
    (s.setSegment g (s.segments g).allocPages).Tallied :=
  h.segment (by rfl) (by rfl) rfl rfl rfl rfl rfl (h.kept.segment (by rfl) (by rfl) rfl rfl rfl)

/-- The segment is mapped into a free range, where no attachment has a page. -/
theorem Counted.mapSegment (h : s.Counted) (hp : s.Runs pid p) {n : Nat}
    (hspace : ∀ k g' i, (s.registries p.registry).lookup k = some g' →
      i < (s.segments g').pageNum → space (k + i) = s.spaces p.aspace (k + i))
    (hfree : space.IsFree page (s.segments g).pageNum) (hn : n ≤ (s.segments g).pageNum) :
    ((s.setSegment g (s.segments g).allocPages).setSpace p.aspace
      (space.mapSegment page n g flags)).Tallied := by
  have hlength := setSegment_pageNum (g := g) (by rfl : (s.segments g).allocPages.pageNum = _)
  have hsharing : (s.setSegment g (s.segments g).allocPages).Sharing :=
    h.sharing.counts (.setSegment rfl)
  refine (h.tallied.alloc g).setSpace hsharing hp fun k g' i flags' hlookup hv hi => ?_
  rw [hlength] at hi
  have hkept := hspace k g' i hlookup hi
  have hv : s.spaces p.aspace (k + i) = some (.shm g' i flags') := hv
  rw [Space.mapSegment, if_neg]
  · rw [hkept, hv]
  · rintro ⟨hle, hlt⟩
    have hnone := hfree (k + i - page) (by omega)
    rw [Nat.add_sub_cancel' hle, hkept, hv] at hnone
    cases hnone

theorem Counted.attach (h : s.Counted) (hp : s.Runs pid p)
    {shmid : Int32} (hg : s.manager.inners shmid = some g)
    (hspace : ∀ k g' i, (s.registries p.registry).lookup k = some g' →
      i < (s.segments g').pageNum → space (k + i) = s.spaces p.aspace (k + i))
    (hfree : space.IsFree page (s.segments g).pageNum) (hshares : s.SharesSpace pid)
    (hroom : (s.segments g).nattch.toNat + 1 < 2 ^ 16) :
    (((s.setSegment g (s.segments g).allocPages).setSpace p.aspace
      (space.mapSegment page (s.segments g).pageNum g flags)).record p g page).Tallied := by
  have hlt := (h.managed shmid g hg).1
  have hinner : (s.setSegment g (s.segments g).allocPages).segments g =
      (s.segments g).allocPages := update_self _ _ _
  refine (h.mapSegment hp hspace hfree (Nat.le_refl _)).record hp hlt ⟨shmid, hg⟩
    (fun pid' q hq hr => hshares.same hp hq hr) (fun pid' q hq ha => ?_) ?_ ?_
  · -- a record there would have its first page in the free range
    refine Option.eq_none_iff_forall_ne_some.mpr fun old hold => ?_
    have hrecord : (s.registries p.registry).lookup page = some old := by
      rw [← h.sharing.paired pid' q pid p hq hp ha]
      exact hold
    have hpos := h.tallied.positive old (h.sharing.recorded _ page old hrecord)
    obtain ⟨flags', hfirst⟩ := mapped_iff.mp (h.tallied.mapped pid p hp page old hrecord) 0 hpos
    have hnone := hfree 0 (h.tallied.positive g hlt)
    rw [hspace page old 0 hrecord hpos, hfirst] at hnone
    cases hnone
  · rw [mapped_iff]
    intro i hi
    refine ⟨flags, ?_⟩
    have hi : i < (s.segments g).pageNum := by
      have hlength : ((s.setSegment g (s.segments g).allocPages).segments g).pageNum =
          (s.segments g).pageNum := setSegment_pageNum (by rfl) g
      rw [← hlength]
      exact hi
    rw [setSpace_spaces, if_pos rfl, Space.mapSegment, if_pos (by omega), Nat.add_sub_cancel_left]
  · have hroom' : ((s.setSegment g (s.segments g).allocPages).segments g).nattch.toNat + 1 <
        2 ^ 16 := by
      rw [hinner]
      exact hroom
    exact hroom'

/-- **Every call** that keeps the counts keeps them exact. -/
theorem Counted.step {a : Action} (h : s.Counted) (hok : KeepsCounts s a) (hstep : Step s a s') :
    s'.Tallied := by
  have ht := h.tallied
  cases hstep with
  | same => exact ht
  | make _ hsize => exact ht.make h.sharing hok _ _ _ hsize
  | alloc => exact ht.alloc _
  | @unmapped _ _ g page _ _ _ _ p _ hp hg hpage hspace =>
    refine (ht.alloc g).setSpace (h.sharing.counts (.setSegment rfl)) hp
      fun k g' i flags hlookup hv hi => ?_
    rw [setSegment_pageNum (by rfl)] at hi
    rw [hspace, AvoidsRecords.unmap ((hok.2 p hp g hg).2 page (by rw [hpage]; rfl)) hlookup hi]
    exact hv
  | @unrecorded _ _ g page n _ _ _ _ p _ hp hg hperm hpage hspace hfault hn hfree =>
    refine h.mapSegment hp (fun k g' i hlookup hi => ?_) hfree hn
    rw [hspace, AvoidsRecords.unmap ((hok.2 p hp g hg).2 page (by rw [hpage]; rfl)) hlookup hi]
  | @attached _ _ g page _ _ _ _ p _ hp hg hperm hpage hspace hfree =>
    obtain ⟨hroom, havoids⟩ := hok.2 p hp g hg
    refine h.attach hp hg (fun k g' i hlookup hi => ?_) hfree hok.1 hroom
    rw [hspace, AvoidsRecords.unmap (havoids page (by rw [hpage]; rfl)) hlookup hi]
  | detachFails hp =>
    refine ht.setSpace h.sharing hp fun k g' i flags hlookup hv hi => ?_
    have hzero := hok
    unfold KeepsCounts at hzero
    rw [Space.unmap, if_neg (by omega)]
    exact hv
  | detached hp _ hg => exact h.detach hp hg
  | @marked _ g shmid hg hcount =>
    refine ht.segment (by rfl) (by rfl) rfl rfl rfl rfl rfl ?_
    refine ht.kept.update g rfl (fun g' hne => ?_) (fun _ _ => Iff.rfl) fun _ => ?_
    · rw [setSegment_segments, if_neg hne]
    · refine iff_of_true ⟨shmid, hg⟩ fun hmarked => hcount ?_
      rw [setSegment_segments, if_pos rfl] at hmarked
      exact UInt16.toNat_inj.mp hmarked.2
  | @removed _ g shmid hg hcount =>
    have hgone (g' : Nat) := inManager_removeShmid
      (h.managed.setSegment (g := g) (by rfl : { s.segments g with rmid := true }.shmid = _)) hg g'
    refine ht.segment (by rfl) (by rfl) rfl rfl rfl rfl rfl ?_
    refine ht.kept.update g rfl (fun g' hne => ?_)
      (fun g' hne => (hgone g').trans (and_iff_right hne)) fun _ => ?_
    · exact update_of_ne hne _ _
    · refine iff_of_false (fun hin => ((hgone g).mp hin).1 rfl) (not_not_intro ?_)
      have hinner : (s.setSegment g { s.segments g with rmid := true }).segments g =
          { s.segments g with rmid := true } := update_self _ _ _
      rw [hinner]
      exact ⟨rfl, congrArg UInt16.toNat hcount⟩
  | set | lock =>
    exact ht.segment (by rfl) (by rfl) rfl rfl rfl rfl rfl
      (ht.kept.segment (by rfl) (by rfl) rfl rfl rfl)
  | @fork pid child shareVm succeeds p hp hchild =>
    cases shareVm with
    | true =>
      cases succeeds with
      | true => exact ht.setProc hp rfl rfl fun q hq => by rw [hchild] at hq; cases hq
      | false => exact ht
    | false =>
      obtain ⟨hresult, hroom⟩ := hok rfl p hp
      cases succeeds with
      | true => exact h.fork hp hchild hroom
      | false =>
        have hempty : (s.registries p.registry).entries = [] := hresult.resolve_left nofun
        have hnothing : s.attachAll p.registry = s := by
          unfold attachAll
          rw [hempty]
          rfl
        have hsame : s.fork p child false false = s := hnothing
        rw [hsame]
        exact ht
  | execve hp =>
    refine h.leave hp rfl rfl rfl rfl (fun a ha => ?_) (fun pid' hne => ?_) fun q hq => ?_
    · exact update_of_ne (Nat.ne_of_lt ha) _ _
    · exact lookup_insert_ne hne
    · have hself : lookup _ (insert _ _ s.procs) = some q := hq
      rw [lookup_insert] at hself
      cases hself
      rfl
  | exit hp =>
    refine h.leave hp rfl rfl rfl rfl (fun _ _ => rfl) (fun pid' hne => ?_) fun q hq => ?_
    · exact lookup_erase_ne hne
    · have hself : lookup _ (erase _ s.procs) = some q := hq
      rw [lookup_erase] at hself
      cases hself
  | setCredentials hp =>
    refine ht.setProc hp rfl rfl fun q hq => ?_
    rw [Option.some.inj (hq.symm.trans hp)]
    exact ⟨rfl, rfl⟩
  | mapOther hp hpage | unmapOther hp hpage =>
    refine ht.setSpace h.sharing hp fun k g i flags hlookup hv hi => ?_
    rw [update_of_ne]
    · exact hv
    · rintro rfl
      rw [hpage] at hv
      cases hv

theorem KeepsCounts.attachesShared {a : Action} (h : KeepsCounts s a) : AttachesShared s a := by
  cases a with
  | shmat => exact h.1
  | _ => trivial

theorem tallied_initial (h : Initial s) : s.Tallied := by
  have hnone (g : Nat) : ¬ g < s.created := by
    rw [h.created]
    exact Nat.not_lt_zero g
  refine ⟨fun g hg => absurd hg (hnone g), fun pid p hp page g hlookup => ?_,
    fun g hg => absurd hg (hnone g), fun g hg => absurd hg (hnone g)⟩
  rw [h.registries] at hlookup
  cases hlookup

/-- **`shm_nattch` is exact**, where the records are kept, no attachment is laid over another, and
no call fails halfway. -/
theorem exact_of_run (h : Reachable Initial (Guarded KeepsCounts (Computed next)) s) : s.Exact := by
  have hcounted : s.Counted := invariant_of_run (I := Counted) h
    (fun s hi => ⟨managed_initial hi, .initial hi, tallied_initial hi⟩)
    fun s a s' hs hok hstep => ⟨hs.managed.step hstep,
      hs.sharing.step hs.managed hok.attachesShared hstep, hs.step hok hstep⟩
  exact hcounted.tallied.exact

/-- Attached twice by a parent and its forked child, detached once, marked for removal, and left by
the child: the parent has one attachment less than two. -/
theorem exact_after_fork : ∃ s : System,
    Reachable Initial (Guarded KeepsCounts (Computed next)) s ∧ (s.segments 0).nattch = 1 ∧
      (s.segments 0).rmid = true ∧ s.Exact := by
  obtain ⟨s, hr, hs⟩ : ∃ s : System, Reachable Initial (Guarded KeepsCounts (Computed next)) s ∧
        decide ((s.segments 0).nattch = 1 ∧ (s.segments 0).rmid = true) = true :=
    Reachable.guarded_execs (initial_start [root])
      (attachOne ++ [.shmat 0 1 (32 * PAGE_SIZE) SHM_RDONLY none .none, .fork 0 1 false true,
        .shmdt 0 (16 * PAGE_SIZE) .done, .ipcRmid 0 1, .exit 1])
      (by decide +kernel)
  obtain ⟨hnattch, hrmid⟩ := of_decide_eq_true hs
  exact ⟨s, hr, hnattch, hrmid, exact_of_run hr⟩

/-- The segment is counted another number of times than it is attached. -/
def Miscounted (s : System) (g : Nat) : Prop :=
  g < s.created ∧ (s.segments g).nattch.toNat ≠ (s.attachments g).card

instance (s : System) (g : Nat) : Decidable (s.Miscounted g) := inferInstanceAs (Decidable (_ ∧ _))

/-- An attachment over another with `SHM_REMAP` is counted twice; and where a child cloned with
`CLONE_VM` has gone on with `exec`, an attachment of it at the address of one of its parent takes
the record of that. -/
theorem counts_diverge :
    (∃ s : System, Reachable Initial (Computed next) s ∧ s.attachments 0 = {(0, 16)} ∧
      (s.segments 0).nattch = 2 ∧ ¬ s.Exact) ∧
    ∃ s : System, Reachable Initial (Computed next) s ∧ s.mapsSegment 0 16 0 = true ∧
      s.attachments 0 = ∅ ∧ (s.segments 0).nattch = 1 ∧ ¬ s.Exact := by
  constructor
  · obtain ⟨s, hr, hs⟩ : ∃ s : System, Reachable Initial (Computed next) s ∧
        decide (s.attachments 0 = {(0, 16)} ∧ (s.segments 0).nattch = 2 ∧ s.Miscounted 0) = true :=
      Reachable.execs (initial_start [root])
        (attachOne ++ [.shmat 0 1 (16 * PAGE_SIZE) SHM_REMAP none .none]) (by decide +kernel)
    obtain ⟨hattached, hnattch, hmade, hne⟩ := of_decide_eq_true hs
    exact ⟨s, hr, hattached, hnattch, fun hexact => hne (hexact.nattch 0 hmade)⟩
  · obtain ⟨s, hr, hs⟩ : ∃ s : System, Reachable Initial (Computed next) s ∧
        decide (s.mapsSegment 0 16 0 = true ∧ s.attachments 0 = ∅ ∧ (s.segments 0).nattch = 1 ∧
          s.Miscounted 0) = true :=
      Reachable.execs (initial_start [root])
        ([.fork 0 1 true true, .execve 1 []] ++ attachOne ++
          [.shmget 1 IPC_PRIVATE 4096 (IPC_CREAT ||| 0o600),
            .shmat 1 2 (16 * PAGE_SIZE) 0 none .none]) (by decide +kernel)
    obtain ⟨hmaps, hattached, hnattch, hmade, hne⟩ := of_decide_eq_true hs
    exact ⟨s, hr, hmaps, hattached, hnattch, fun hexact => hne (hexact.nattch 0 hmade)⟩

end System

end PulseOS.Ipc.Shm
