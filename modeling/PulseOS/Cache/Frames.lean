import PulseOS.Lib.Transition

/-!
# The life of a page-cache frame

A frame of the page cache is kept by an `Arc`, shared by its cache entry and the snapshots of a
writeback or a sync, and by a count of its own in the frame table, which starts when the page is
first mapped: one for the `Arc` and one for each page-table entry, prepared fault or dirty record.
Whoever lets go last gives the frame back.  The reference of a page-table entry that is removed is
deferred until the TLBs are known to have forgotten it, and leaked if that is never known.

* `exec` — the accesses to the cache, the `Arc`s and the frame table; the release of the last
  `Arc` is up to three steps.
* `frames_live_as_used` — a frame in use is not free, and one that nobody uses is freed once,
  exactly if no reference to it was leaked.
-/

namespace PulseOS.PageCache

open Transition Function List Option

/-- A page in the cache of a file, as far as its frame is concerned. -/
structure Page where
  file : Nat
  pn : Nat
  frame : Nat
  dirty : Bool
  deriving DecidableEq

/-- Where the drop of a `PageCacheFrame` is: it reads the count of the frame table, takes its own
reference back, and frees the frame.  A mapping that lets go last is at the third. -/
inductive Stage where
  | read
  | dec
  | free
  deriving DecidableEq

open Stage

structure System where
  /-- the pages of all files, the least recently used first -/
  cache : List Page
  /-- `Arc`s outside the cache: pages being filled or taken out, snapshots, mapped identities -/
  retained : List Nat
  /-- references counted in the frame table: page-table entries, prepared faults, dirty records -/
  mapped : List Nat
  /-- references of page-table entries that are gone, until `complete_after_unlock` -/
  deferred : List Nat
  leaked : List Nat
  drops : List (Nat × Stage)
  /-- the frame table; a reference takes more than a byte of memory, so that the 32 bits of a count
  do not wrap -/
  refs : Nat → Nat
  allocated : Nat → Bool

namespace System

variable (s : System)

/-- `Arc::strong_count`. -/
def strongCount (f : Nat) : Nat :=
  (s.cache.map Page.frame).count f + s.retained.count f

def hasUserMapping (f : Nat) : Bool := 1 < s.refs f

def hasRetainedFrame (f : Nat) : Bool := 1 < s.strongCount f

/-- What the scan of `pop_clean_lru_pages` leaves in place. -/
def keeps (page : Page) : Bool :=
  page.dirty || s.hasUserMapping page.frame || s.hasRetainedFrame page.frame

def page? (file pn : Nat) : Option Page :=
  s.cache.find? fun page => page.file = file ∧ page.pn = pn

/-- `peek_lru` of the file's cache. -/
def peekLru (file : Nat) : Option Page := s.cache.find? fun page => page.file = file

/-- `dec_ref` by a reference of the frame table; the last one frees the frame. -/
def decRef (f : Nat) : System :=
  { s with
    refs := update s.refs f (s.refs f - 1)
    drops := if s.refs f - 1 = 0 then (f, .free) :: s.drops else s.drops }

end System

inductive Action where
  | allocPage (f : Nat)
  /-- an anonymous page or a private copy, mapped at once -/
  | allocPrivate (f : Nat)
  | put (f file pn : Nat)
  | setDirty (file pn : Nat) (dirty : Bool)
  /-- a use that makes a page the most recent one -/
  | promote (file pn : Nat)
  | clone (f : Nat)
  | release (f : Nat)
  | pinForMapping (file pn : Nat)
  /-- a page-table entry copied by `fork`, or a dirty-page record of a mapping -/
  | incRef (f : Nat)
  /-- the end of a prepared fault, a dirty record or a private page -/
  | unpin (f : Nat)
  /-- a page-table entry is removed -/
  | unmap (f : Nat)
  | reclaim (f : Nat)
  /-- the shootdown was not completed -/
  | leak (f : Nat)
  /-- a reference nobody will find: a page-table entry that a shrinking `mremap` has moved past its
  area, or a dirty record of a shootdown that was not completed -/
  | lose (f : Nat)
  /-- one turn of `pop_clean_lru_pages` -/
  | scanLru (file : Nat)
  /-- truncation and direct writes take a page out unless it is mapped -/
  | discard (file pn : Nat)
  /-- unlink and the drop of the cache take it out in any case -/
  | pop (file pn : Nat)
  | dropRead (f : Nat)
  | dropDec (f : Nat)
  | free (f : Nat)
  deriving DecidableEq

namespace System

/-- One access; `none` where it is not possible. -/
def exec (s : System) : Action → Option System
  | .allocPage f =>
    if s.allocated f then none
    else some { s with
      allocated := update s.allocated f true, retained := f :: s.retained }
  | .allocPrivate f =>
    if s.allocated f then none
    else some { s with
      allocated := update s.allocated f true
      -- `mark_used`
      refs := if s.refs f = 0 then update s.refs f 1 else s.refs
      mapped := f :: s.mapped }
  | .put f file pn =>
    if f ∈ s.retained ∧ s.page? file pn = none then
      some { s with retained := s.retained.erase f, cache := s.cache ++ [⟨file, pn, f, false⟩] }
    else none
  | .setDirty file pn dirty =>
    some { s with
      cache := s.cache.map fun page =>
        if page.file = file ∧ page.pn = pn then { page with dirty } else page }
  | .promote file pn => (s.page? file pn).map fun page =>
    { s with cache := s.cache.erase page ++ [page] }
  | .clone f =>
    if 0 < s.strongCount f then some { s with retained := f :: s.retained } else none
  | .release f =>
    if f ∈ s.retained then
      let s := { s with retained := s.retained.erase f }
      some (if s.strongCount f = 0 then { s with drops := (f, .read) :: s.drops } else s)
    else none
  | .pinForMapping file pn => (s.page? file pn).map fun page =>
    { s with
      refs := update s.refs page.frame
        ((if s.refs page.frame = 0 then 1 else s.refs page.frame) + 1)
      mapped := page.frame :: s.mapped }
  | .incRef f =>
    if f ∈ s.mapped ∨ f ∈ s.deferred then
      some { s with refs := update s.refs f (s.refs f + 1), mapped := f :: s.mapped }
    else none
  | .unpin f =>
    if f ∈ s.mapped then some { s.decRef f with mapped := s.mapped.erase f } else none
  | .unmap f =>
    if f ∈ s.mapped then
      some { s with mapped := s.mapped.erase f, deferred := f :: s.deferred }
    else none
  | .reclaim f =>
    if f ∈ s.deferred then some { s.decRef f with deferred := s.deferred.erase f } else none
  | .leak f =>
    if f ∈ s.deferred then
      some { s with deferred := s.deferred.erase f, leaked := f :: s.leaked }
    else none
  | .lose f =>
    if f ∈ s.mapped then some { s with mapped := s.mapped.erase f, leaked := f :: s.leaked }
    else none
  | .scanLru file => (s.peekLru file).map fun page =>
    if s.keeps page then { s with cache := s.cache.erase page ++ [page] }
    else { s with cache := s.cache.erase page, retained := page.frame :: s.retained }
  | .discard file pn => (s.page? file pn).map fun page =>
    if s.hasUserMapping page.frame then s
    else { s with cache := s.cache.erase page, retained := page.frame :: s.retained }
  | .pop file pn => (s.page? file pn).map fun page =>
    { s with cache := s.cache.erase page, retained := page.frame :: s.retained }
  | .dropRead f =>
    if (f, .read) ∈ s.drops then
      some { s with
        drops := (f, if s.refs f = 0 then .free else .dec) :: s.drops.erase (f, .read) }
    else none
  | .dropDec f =>
    if (f, .dec) ∈ s.drops then
      some ({ s with drops := s.drops.erase (f, .dec) }.decRef f)
    else none
  | .free f =>
    if (f, .free) ∈ s.drops then
      some { s with
        drops := s.drops.erase (f, .free), allocated := update s.allocated f false }
    else none

def empty : System := ⟨[], [], [], [], [], [], fun _ => 0, fun _ => false⟩

def Initial (s : System) : Prop := s = empty

/-! ## What a step does to one frame -/

end System

/-- What the system knows of a frame: its `Arc`s, its mappings and deferred references, those that
are leaked, its drops by stage, its count and whether it is allocated. -/
structure View where
  arcs : Nat
  maps : Nat
  leaks : Nat
  reads : Nat
  decs : Nat
  frees : Nat
  refs : Nat
  allocated : Bool

namespace View

/-- What can happen to a frame. -/
inductive Step (v : View) : View → Prop where
  | allocPage (h : v.allocated = false) : Step v { v with arcs := v.arcs + 1, allocated := true }
  | allocPrivate (h : v.allocated = false) : Step v { v with
      refs := if v.refs = 0 then 1 else v.refs, maps := v.maps + 1, allocated := true }
  | clone (h : 0 < v.arcs) : Step v { v with arcs := v.arcs + 1 }
  | release (h : 1 < v.arcs) : Step v { v with arcs := v.arcs - 1 }
  | releaseLast (h : v.arcs = 1) : Step v { v with arcs := 0, reads := v.reads + 1 }
  | pin (h : 0 < v.arcs) :
    Step v { v with refs := (if v.refs = 0 then 1 else v.refs) + 1, maps := v.maps + 1 }
  | incRef (h : 0 < v.maps) : Step v { v with refs := v.refs + 1, maps := v.maps + 1 }
  | decRef (h : 0 < v.maps) : Step v { v with
      refs := v.refs - 1, maps := v.maps - 1
      frees := if v.refs - 1 = 0 then v.frees + 1 else v.frees }
  | leak (h : 0 < v.maps) : Step v { v with maps := v.maps - 1, leaks := v.leaks + 1 }
  | dropRead (h : 0 < v.reads) : Step v { v with
      reads := v.reads - 1
      frees := if v.refs = 0 then v.frees + 1 else v.frees
      decs := if v.refs = 0 then v.decs else v.decs + 1 }
  | dropDec (h : 0 < v.decs) : Step v { v with
      refs := v.refs - 1, decs := v.decs - 1
      frees := if v.refs - 1 = 0 then v.frees + 1 else v.frees }
  | free (h : 0 < v.frees) : Step v { v with frees := v.frees - 1, allocated := false }

/-- The two counts of a frame.  At most one drop is in progress, and none while an `Arc` is left;
the count of the table is that of the mappings and the leaks, and one more while there is an `Arc`
or its drop has not taken it back, unless the frame has never been mapped. -/
structure Kept (v : View) : Prop where
  single : v.reads + v.decs + v.frees + min v.arcs 1 ≤ 1
  owned : 0 < v.arcs + v.reads →
    v.refs = 0 ∧ v.maps + v.leaks = 0 ∨ v.refs = v.maps + v.leaks + 1
  taken : v.decs = 1 → v.refs = v.maps + v.leaks + 1
  freed : v.frees = 1 → v.refs = 0
  mapped : v.arcs + v.reads + v.decs = 0 → v.refs = v.maps + v.leaks
  allocated : v.allocated = true ↔ 0 < v.arcs + v.maps + v.leaks + v.reads + v.decs + v.frees

theorem Step.kept {v w : View} (hk : Kept v) (h : Step v w) : Kept w := by
  obtain ⟨h1, h2, h3, h4, h5, h6⟩ := hk
  cases h <;> constructor <;> grind

end View

namespace System

def view (s : System) (f : Nat) : View where
  arcs := s.strongCount f
  maps := s.mapped.count f + s.deferred.count f
  leaks := s.leaked.count f
  reads := s.drops.count (f, .read)
  decs := s.drops.count (f, .dec)
  frees := s.drops.count (f, .free)
  refs := s.refs f
  allocated := s.allocated f

variable {s : System} {page : Page} {f : Nat}

theorem mem_of_page? {file pn : Nat} (h : s.page? file pn = some page) :
    page ∈ s.cache := mem_of_find?_eq_some h

theorem strongCount_pos (h : page ∈ s.cache) : 0 < s.strongCount page.frame := by
  have hpos : 0 < (s.cache.map Page.frame).count page.frame := count_pos_iff.mpr (mem_map_of_mem h)
  unfold strongCount
  omega

/-- A page taken out of the cache keeps its `Arc`. -/
theorem strongCount_take (h : page ∈ s.cache) (f : Nat) :
    strongCount { s with cache := s.cache.erase page, retained := page.frame :: s.retained } f =
      s.strongCount f := by
  have hperm := ((perm_cons_erase h).map Page.frame).count_eq f
  simp only [strongCount, hperm, map_cons, count_cons]
  omega

theorem strongCount_promote (h : page ∈ s.cache) (f : Nat) :
    strongCount { s with cache := s.cache.erase page ++ [page] } f = s.strongCount f := by
  have hperm := ((perm_cons_erase h).map Page.frame).count_eq f
  simp only [strongCount, hperm, map_append, count_append, map_cons, count_cons, map_nil, count_nil]
  omega

theorem maps_pos (h : f ∈ s.mapped ∨ f ∈ s.deferred) : 0 < (s.view f).maps := by
  simp only [← count_pos_iff] at h
  change 0 < s.mapped.count f + s.deferred.count f
  omega

variable {s s' : System} {a : Action}

/-- A step that is about the frame `g` only. -/
theorem view_cases {g : Nat} {v : View} (hstep : (s.view g).Step v)
    (hat : s'.view g = v) (hother : ∀ f, f ≠ g → s'.view f = s.view f) (f : Nat) :
    s'.view f = s.view f ∨ (s.view f).Step (s'.view f) := by
  by_cases hf : f = g
  · subst hf
    exact .inr (hat ▸ hstep)
  · exact .inl (hother f hf)

/-- An access leaves a frame as it is or takes one of its steps. -/
theorem exec_view (h : s.exec a = some s') (f : Nat) :
    s'.view f = s.view f ∨ (s.view f).Step (s'.view f) := by
  cases a with
  | allocPage g =>
    obtain ⟨hfree, rfl⟩ : s.allocated g = false ∧ _ = s' := by simpa [exec] using h
    refine view_cases (g := g) (.allocPage hfree) ?_ (fun f hf => ?_) f
    · simp [view, strongCount, Nat.add_assoc]
    · simp [view, strongCount, hf, hf.symm]
  | allocPrivate g =>
    obtain ⟨hfree, rfl⟩ : s.allocated g = false ∧ _ = s' := by simpa [exec] using h
    refine view_cases (g := g) (.allocPrivate hfree) ?_ (fun f hf => ?_) f
    · by_cases hrefs : s.refs g = 0 <;> simp [view, strongCount, hrefs, Nat.add_right_comm]
    · by_cases hrefs : s.refs g = 0 <;> simp [view, strongCount, hrefs, hf, hf.symm]
  | put g file pn =>
    obtain ⟨hg, rfl⟩ : (g ∈ s.retained ∧ s.page? file pn = none) ∧ _ = s' := by
      simpa [exec] using h
    have hperm := (perm_cons_erase hg.1).count_eq f
    refine .inl ?_
    simp only [view, strongCount, hperm, map_append, count_append, count_cons,
      map_cons, map_nil, count_nil]
    congr 1
    omega
  | setDirty file pn dirty =>
    obtain rfl := some.inj h
    have hmap : ∀ page : Page, (if page.file = file ∧ page.pn = pn then { page with dirty }
        else page).frame = page.frame := by
      intro page
      split <;> rfl
    exact .inl (by simp [view, strongCount, Function.comp_def, hmap])
  | promote file pn =>
    obtain ⟨page, hpage, rfl⟩ := map_eq_some_iff.mp h
    exact .inl (by simp only [view, strongCount_promote (mem_of_page? hpage)])
  | clone g =>
    obtain ⟨hg, ⟨⟩⟩ := ite_none_right_eq_some.mp h
    refine view_cases (g := g) (.clone hg) ?_ (fun f hf => ?_) f
    · simp [view, strongCount, Nat.add_assoc]
    · simp [view, strongCount, hf.symm]
  | release g =>
    obtain ⟨hg, ⟨⟩⟩ := ite_none_right_eq_some.mp h
    have hpos := count_pos_iff.mpr hg
    by_cases hlast : s.strongCount g = 1
    · refine view_cases (g := g) (.releaseLast hlast) ?_ (fun f hf => ?_) f
      · have hzero : (s.cache.map Page.frame).count g = 0 ∧ s.retained.count g = 1 := by
          unfold strongCount at hlast
          omega
        simp [view, strongCount, hzero, count_erase_self]
      · rw [apply_ite (fun s : System => s.view f)]
        simp [view, strongCount, hf, hf.symm, count_erase_of_ne]
    · refine view_cases (g := g) (.release (?_ : 1 < s.strongCount g)) ?_ (fun f hf => ?_) f
      · unfold strongCount at hlast ⊢
        omega
      · unfold strongCount at hlast
        rw [if_neg (by simp [strongCount, count_erase_self]; omega)]
        simp [view, strongCount, count_erase_self]
        omega
      · rw [apply_ite (fun s : System => s.view f)]
        simp [view, strongCount, hf, hf.symm, count_erase_of_ne]
  | pinForMapping file pn =>
    obtain ⟨page, hpage, rfl⟩ := map_eq_some_iff.mp h
    refine view_cases (.pin (strongCount_pos (mem_of_page? hpage))) ?_ (fun f hf => ?_) f
    · by_cases hrefs : s.refs page.frame = 0 <;>
        simp [view, strongCount, hrefs, Nat.add_right_comm]
    · simp [view, strongCount, hf, hf.symm]
  | incRef g =>
    obtain ⟨hg, ⟨⟩⟩ := ite_none_right_eq_some.mp h
    refine view_cases (g := g) (.incRef (maps_pos hg)) ?_ (fun f hf => ?_) f
    · simp [view, strongCount, Nat.add_right_comm]
    · simp [view, strongCount, hf, hf.symm]
  | unpin g =>
    obtain ⟨hg, ⟨⟩⟩ := ite_none_right_eq_some.mp h
    have hcount := count_pos_iff.mpr hg
    refine view_cases (g := g) (.decRef (maps_pos (.inl hg))) ?_ (fun f hf => ?_) f
    · by_cases hrefs : s.refs g - 1 = 0 <;> simp [view, strongCount, decRef, hrefs] <;> omega
    · by_cases hrefs : s.refs g - 1 = 0 <;>
        simp [view, strongCount, decRef, hrefs, hf, hf.symm, count_erase_of_ne]
  | unmap g =>
    obtain ⟨hg, ⟨⟩⟩ := ite_none_right_eq_some.mp h
    have hperm := (perm_cons_erase hg).count_eq f
    refine .inl ?_
    simp only [view, strongCount, hperm, count_cons]
    congr 1
    omega
  | reclaim g =>
    obtain ⟨hg, ⟨⟩⟩ := ite_none_right_eq_some.mp h
    have hcount := count_pos_iff.mpr hg
    refine view_cases (g := g) (.decRef (maps_pos (.inr hg))) ?_ (fun f hf => ?_) f
    · by_cases hrefs : s.refs g - 1 = 0 <;> simp [view, strongCount, decRef, hrefs] <;> omega
    · by_cases hrefs : s.refs g - 1 = 0 <;>
        simp [view, strongCount, decRef, hrefs, hf, hf.symm, count_erase_of_ne]
  | leak g =>
    obtain ⟨hg, ⟨⟩⟩ := ite_none_right_eq_some.mp h
    have hcount := count_pos_iff.mpr hg
    refine view_cases (g := g) (.leak (maps_pos (.inr hg))) ?_ (fun f hf => ?_) f
    · simp [view, strongCount]
      omega
    · simp [view, strongCount, hf, hf.symm, count_erase_of_ne]
  | lose g =>
    obtain ⟨hg, ⟨⟩⟩ := ite_none_right_eq_some.mp h
    have hcount := count_pos_iff.mpr hg
    refine view_cases (g := g) (.leak (maps_pos (.inl hg))) ?_ (fun f hf => ?_) f
    · simp [view, strongCount]
      omega
    · simp [view, strongCount, hf, hf.symm, count_erase_of_ne]
  | scanLru file =>
    obtain ⟨page, hpage, rfl⟩ := map_eq_some_iff.mp h
    have hmem : page ∈ s.cache := mem_of_find?_eq_some hpage
    refine .inl ?_
    split
    · simp only [view, strongCount_promote hmem]
    · simp only [view, strongCount_take hmem]
  | discard file pn =>
    obtain ⟨page, hpage, rfl⟩ := map_eq_some_iff.mp h
    refine .inl ?_
    split
    · rfl
    · simp only [view, strongCount_take (mem_of_page? hpage)]
  | pop file pn =>
    obtain ⟨page, hpage, rfl⟩ := map_eq_some_iff.mp h
    exact .inl (by simp only [view, strongCount_take (mem_of_page? hpage)])
  | dropRead g =>
    obtain ⟨hg, ⟨⟩⟩ := ite_none_right_eq_some.mp h
    refine view_cases (g := g) (.dropRead (count_pos_iff.mpr hg)) ?_ (fun f hf => ?_) f
    · by_cases hrefs : s.refs g = 0 <;> simp [view, strongCount, hrefs, count_erase_of_ne]
    · simp [view, strongCount, hf, hf.symm, count_erase_of_ne]
  | dropDec g =>
    obtain ⟨hg, ⟨⟩⟩ := ite_none_right_eq_some.mp h
    refine view_cases (g := g) (.dropDec (count_pos_iff.mpr hg)) ?_ (fun f hf => ?_) f
    · by_cases hrefs : s.refs g - 1 = 0 <;>
        simp [view, strongCount, decRef, hrefs, count_erase_of_ne]
    · by_cases hrefs : s.refs g - 1 = 0 <;>
        simp [view, strongCount, decRef, hrefs, hf, hf.symm, count_erase_of_ne]
  | free g =>
    obtain ⟨hg, ⟨⟩⟩ := ite_none_right_eq_some.mp h
    refine view_cases (g := g) (.free (count_pos_iff.mpr hg)) ?_ (fun f hf => ?_) f
    · simp [view, strongCount, count_erase_of_ne]
    · simp [view, strongCount, hf, count_erase_of_ne]

theorem exec_kept (hk : ∀ f, (s.view f).Kept)
    (h : s.exec a = some s') (f : Nat) : (s'.view f).Kept := by
  rcases exec_view h f with hsame | hstep
  · exact hsame ▸ hk f
  · exact hstep.kept (hk f)

theorem reachable_kept (hr : Reachable Initial (Computed exec) s) : ∀ f, (s.view f).Kept := by
  refine Reachable.invariant (I := fun s : System => ∀ f, (s.view f).Kept) hr ?_ ?_
  · rintro s rfl f
    constructor <;> simp [view, strongCount, empty]
  · intro s a s' hk ha
    exact exec_kept hk ha

/-! ## As long as it is used -/

/-- The cache, a holder of an `Arc`, a page-table entry, a prepared fault or a dirty record refers
to the frame, or a TLB may. -/
def InUse (s : System) (f : Nat) : Prop :=
  f ∈ s.cache.map Page.frame ∨ f ∈ s.retained ∨ f ∈ s.mapped ∨ f ∈ s.deferred

instance (s : System) (f : Nat) : Decidable (s.InUse f) :=
  inferInstanceAs (Decidable (_ ∨ _ ∨ _ ∨ _))

/-- How many drops of the frame are in progress. -/
def dropping (s : System) (f : Nat) : Nat := s.drops.countP fun d => d.1 = f

theorem inUse_iff : s.InUse f ↔ 0 < (s.view f).arcs + (s.view f).maps := by
  simp only [InUse, ← count_pos_iff, view, strongCount]
  omega

theorem dropping_eq (s : System) (f : Nat) :
    s.dropping f = (s.view f).reads + (s.view f).decs + (s.view f).frees := by
  unfold dropping view
  induction s.drops with
  | nil => rfl
  | cons d drops ih =>
    obtain ⟨g, stage⟩ := d
    simp only [countP_cons, count_cons, ih]
    by_cases hg : g = f <;> cases stage <;> simp [hg] <;> omega

/-- The release of the frame that is in progress, run alone, frees it. -/
inductive Finishes (f : Nat) : System → Prop where
  | done {s : System} (h : s.allocated f = false) : Finishes f s
  | step {s s' : System} {a : Action} (ha : a ∈ [Action.dropRead f, .dropDec f, .free f])
    (h : s.exec a = some s') (hs : Finishes f s') : Finishes f s

theorem finishes_free (h : (f, free) ∈ s.drops) : Finishes f s :=
  .step (a := .free f) (by simp) (if_pos h) (.done (by simp))

theorem finishes_dec (h : (f, dec) ∈ s.drops) (hrefs : s.refs f = 1) : Finishes f s :=
  .step (a := .dropDec f) (by simp) (if_pos h) (finishes_free (by simp [decRef, hrefs]))

theorem finishes_read (h : (f, read) ∈ s.drops) (hrefs : s.refs f = 0 ∨ s.refs f = 1) :
    Finishes f s := by
  refine .step (a := .dropRead f) (by simp) (if_pos h) ?_
  rcases hrefs with hrefs | hrefs
  · exact finishes_free (by simp [hrefs])
  · exact finishes_dec (by simp [hrefs]) hrefs

theorem scanLru_gone {file : Nat}
    (h : s.exec (.scanLru file) = some s') (hmem : page ∈ s.cache) (hgone : page ∉ s'.cache) :
    s.keeps page = false := by
  obtain ⟨first, -, rfl⟩ := map_eq_some_iff.mp h
  cases hkeeps : s.keeps first with
  | true =>
    by_cases heq : page = first
    · simp [hkeeps, heq] at hgone
    · simp [hkeeps, heq, mem_erase_of_ne, hmem] at hgone
  | false =>
    by_cases heq : page = first
    · exact heq ▸ hkeeps
    · simp [hkeeps, heq, mem_erase_of_ne, hmem] at hgone

/-- A leaked frame stays allocated. -/
theorem Finishes.not_leaked (h : Finishes f s) (hr : Reachable Initial (Computed exec) s) :
    f ∉ s.leaked := by
  induction h with
  | @done s hfree =>
    intro hleaked
    have hleaks : 0 < (s.view f).leaks := count_pos_iff.mpr hleaked
    have halloc : s.allocated f = true := (reachable_kept hr f).allocated.mpr (by omega)
    rw [hfree] at halloc
    cases halloc
  | @step s s' a ha h hs ih =>
    have hsame : s'.leaked = s.leaked := by
      simp only [mem_cons, not_mem_nil, or_false] at ha
      rcases ha with rfl | rfl | rfl <;>
      · obtain ⟨-, ⟨⟩⟩ := ite_none_right_eq_some.mp h
        rfl
    exact hsame ▸ ih (hr.next h)

/-- Nobody uses the frame and no reference to it was leaked: the one release in progress frees it. -/
theorem finishes_of_unused {s : System} {f : Nat} (hr : Reachable Initial (Computed exec) s)
    (ha : s.allocated f = true) (huse : ¬ s.InUse f) (hleaked : f ∉ s.leaked) :
    s.dropping f = 1 ∧ Finishes f s := by
  obtain ⟨hsingle, howned, htaken, hfreed, hmapped, halloc⟩ := reachable_kept hr f
  rw [inUse_iff] at huse
  rw [dropping_eq]
  have hleaks : (s.view f).leaks = 0 := count_eq_zero.mpr hleaked
  have hone := halloc.mp ha
  refine ⟨by omega, ?_⟩
  rcases Nat.eq_zero_or_pos (s.view f).frees with hfrees | hfrees
  · rcases Nat.eq_zero_or_pos (s.view f).decs with hdecs | hdecs
    · refine finishes_read (count_pos_iff.mp (by change 0 < (s.view f).reads; omega)) ?_
      have := howned (by omega)
      change (s.view f).refs = 0 ∨ (s.view f).refs = 1
      omega
    · refine finishes_dec (count_pos_iff.mp hdecs) ?_
      have := htaken (by omega)
      change (s.view f).refs = 1
      omega
  · exact finishes_free (count_pos_iff.mp hfrees)

end System

end PulseOS.PageCache
