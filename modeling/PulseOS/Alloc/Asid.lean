import PulseOS.Errno
import PulseOS.Lib.Transition

/-!
# Address-space identifiers

`AsidAllocator`, as `AddrSpace::new_empty` and the drop of an address space use it.  A clone is a
creation, and a drop of the new address space if its areas cannot be copied.

* `search` — the ring search of `alloc`; `search_found` — it finds an ASID if one is free.
* `System.stale` — what the processors may still hold of an ASID: one of its shootdowns did not
  complete, and no later one of the whole ASID has.
* `Sound` — an ASID has at most one owner, and none if it is not in use; every step keeps this.
* `asids_unique` — so live address spaces have different ASIDs, and none is reused too early.
-/

namespace PulseOS.Asid

open Transition Function List

/-- `next` moves on, past 0. -/
def advance (next : Nat) : Nat := if (next + 1) % 1024 = 0 then 1 else (next + 1) % 1024

/-- The loop of `alloc`; it panics (`some none`) where it is back at its start. -/
def search (used : Nat → Bool) (start : Nat) : Nat → Nat → Option (Option Nat)
  | 0, _ => none
  | fuel + 1, next =>
    if used next = false then some (some next)
    else if advance next = start then some none
    else search used start fuel (advance next)

structure System where
  /-- `ASID_ALLOCATOR` -/
  used : Nat → Bool
  next : Nat
  live : List Nat
  /-- of address spaces that did not retire -/
  retained : List Nat
  /-- whether the address space with the ASID has areas -/
  mapped : Nat → Bool
  /-- whether a translation of the ASID may have outlived its mapping -/
  stale : Nat → Bool

/-- How the drop of an address space goes. -/
structure Retirement where
  pendingEmpty : Bool
  /-- whether the shootdown of the ASID completes, if there is one -/
  shootdown : Bool
  /-- for each chunk of the areas, whether its pages were published and unmapped -/
  chunks : List (Bool × Bool)

/-- `retirement_completed`, for an address space with or without areas. -/
def Retirement.completed (r : Retirement) (mapped : Bool) : Bool :=
  r.pendingEmpty && (!mapped || r.shootdown) && r.chunks.all fun c => c.1 && c.2

inductive Action where
  /-- `new_empty`, with or without memory for the page table -/
  | create (pageTable : Bool)
  | map (asid : Nat)
  /-- pages are unmapped, and `all` areas with them; the shootdown is of the `whole` ASID or of the
  pages, and completes or not -/
  | unmap (asid : Nat) (all whole shootdown : Bool)
  | drop (asid : Nat) (retirement : Retirement)

namespace System

def new : System := ⟨fun asid => asid = 0, 1, [], [], fun _ => false, fun _ => false⟩

variable (s : System)

def free (asid : Nat) : System :=
  if 0 < asid ∧ asid < 1024 then { s with used := update s.used asid false } else s

/-- The state after an action, and the result of a creation that does not panic. -/
def exec : Action → Option (System × Option (Except LinuxError Nat))
  | .create pageTable =>
    match search s.used s.next 1024 s.next with
    | none => none
    | some none => some (s, none)
    | some (some asid) =>
      let s := { s with used := update s.used asid true, next := advance asid }
      if pageTable then
        some ({ s with live := asid :: s.live, mapped := update s.mapped asid false },
          some (.ok asid))
      else some (s, some (.error .ENOMEM))
  | .map asid =>
    if asid ∈ s.live then some ({ s with mapped := update s.mapped asid true }, none) else none
  | .unmap asid all whole shootdown =>
    if asid ∈ s.live ∧ s.mapped asid = true then
      let stale := !shootdown || !whole && s.stale asid
      some ({ s with
        mapped := update s.mapped asid (!all)
        stale := update s.stale asid stale }, none)
    else none
  | .drop asid r =>
    if asid ∈ s.live then
      -- without areas there is no shootdown
      let stale := if r.pendingEmpty && s.mapped asid then !r.shootdown else s.stale asid
      let s := { s with live := s.live.erase asid, stale := update s.stale asid stale }
      if r.completed (s.mapped asid) then some (s.free asid, none)
      else some ({ s with retained := asid :: s.retained }, none)
    else none

def nextState (a : Action) : Option System := (s.exec a).map Prod.fst

/-- The condition on a step: an address space whose areas are all gone is dropped only if its
shootdowns have completed. -/
def Flushes : Action → Prop
  | .drop asid _ => s.mapped asid = false → s.stale asid = false
  | _ => True

instance (a : Action) : Decidable (s.Flushes a) := by
  unfold Flushes
  cases a <;> infer_instance

structure Sound : Prop where
  owned : ∀ x, s.live.count x + s.retained.count x ≤ if s.used x = true ∧ x ≠ 0 then 1 else 0
  next : 0 < s.next ∧ s.next < 1024

end System

theorem advance_lt (next : Nat) : 0 < advance next ∧ advance next < 1024 := by
  unfold advance
  split <;> omega

/-- The rounds from `next` to `asid`. -/
def distance (next asid : Nat) : Nat := if next ≤ asid then asid - next else asid + 1023 - next

section

variable {used : Nat → Bool} {start fuel next asid : Nat} (hnext : 0 < next ∧ next < 1024)
include hnext

theorem distance_advance (hasid : 0 < asid ∧ asid < 1024) (hne : next ≠ asid) :
    distance (advance next) asid + 1 = distance next asid := by
  have hstep : advance next = if next = 1023 then 1 else next + 1 := by
    unfold advance
    grind
  unfold distance
  grind

theorem search_free (h : search used start fuel next = some (some asid)) :
    used asid = false ∧ 0 < asid := by
  induction fuel generalizing next with
  | zero => cases h
  | succ fuel ih =>
    unfold search at h
    split at h
    · rename_i hfree
      cases h
      exact ⟨hfree, hnext.1⟩
    · split at h
      · cases h
      · exact ih (advance_lt next) h

/-- **A free ASID is found.** -/
theorem search_found (hfree : used asid = false) (hasid : 0 < asid ∧ asid < 1024)
    (hle : distance next asid ≤ distance start asid) (hfuel : distance next asid < fuel) :
    ∃ found, search used start fuel next = some (some found) := by
  induction fuel generalizing next with
  | zero => omega
  | succ fuel ih =>
    unfold search
    split
    · exact ⟨next, rfl⟩
    · rename_i hused
      -- every round comes closer, so the start is not met before the free ASID
      have hcloser := distance_advance hnext hasid (by rintro rfl; exact hused hfree)
      split
      · rename_i hstart
        rw [hstart] at hcloser
        omega
      · exact ih (advance_lt next) (by omega) (by omega)

end

namespace System

variable {s s' : System} {asid : Nat} {pageTable : Bool}

theorem exec_create (h : s.Sound) (hs : s.exec (.create pageTable) = some (s', some (.ok asid))) :
    s.used asid = false := by
  simp only [exec] at hs
  split at hs
  · cases hs
  · cases hs
  · rename_i hsearch
    split at hs <;> cases hs
    exact (search_free h.next hsearch).1

theorem Sound.step {a : Action} (h : s.Sound) (hs : s.nextState a = some s') : s'.Sound := by
  obtain ⟨⟨s', result⟩, hexec, rfl⟩ := Option.map_eq_some_iff.mp hs
  have howned := h.owned
  cases a with
  | create pageTable =>
    simp only [exec] at hexec
    split at hexec
    · cases hexec
    · cases hexec
      exact h
    · rename_i asid hsearch
      obtain ⟨hfree, hpos⟩ := search_free h.next hsearch
      split at hexec
      · cases hexec
        refine ⟨fun x => ?_, advance_lt asid⟩
        have hx := howned x
        simp only [update_apply, count_cons]
        grind
      · cases hexec
        refine ⟨fun x => ?_, advance_lt asid⟩
        have hx := howned x
        simp only [update_apply]
        grind
  | map | unmap =>
    obtain ⟨-, heq⟩ := Option.ite_none_right_eq_some.mp hexec
    cases heq
    exact ⟨howned, h.next⟩
  | drop asid r =>
    simp only [exec] at hexec
    split at hexec
    · rename_i hlive
      have hcount := count_pos_iff.mpr hlive
      split at hexec
      · cases hexec
        unfold free
        split
        · refine ⟨fun x => ?_, h.next⟩
          have hx := howned x
          simp only [update_apply, count_erase]
          grind
        · refine ⟨fun x => ?_, h.next⟩
          have hx := howned x
          simp only [count_erase]
          grind
      · cases hexec
        refine ⟨fun x => ?_, h.next⟩
        have hx := howned x
        simp only [count_erase, count_cons]
        grind
    · cases hexec

theorem Sound.reachable (hr : Reachable (· = new) (Computed nextState) s) : s.Sound := by
  refine hr.invariant (fun s hs => ?_) fun _ _ _ h hs => h.step hs
  subst hs
  exact ⟨by simp [new], by decide⟩

theorem Sound.live_used (h : s.Sound) (hlive : asid ∈ s.live) : s.used asid = true := by
  have hx := h.owned asid
  have hcount := count_pos_iff.mpr hlive
  split at hx
  · rename_i hused
    exact hused.1
  · omega

theorem free_stale : (s.free asid).stale = s.stale := by
  unfold free
  split <;> rfl

theorem free_used {x : Nat} (hx : x ≠ asid) : (s.free asid).used x = s.used x := by
  unfold free
  split
  · exact update_of_ne hx _ _
  · rfl

/-- What the processors may still hold belongs to ASIDs in use. -/
theorem stale_step {a : Action} (h : s.Sound) (hstale : ∀ x, s.stale x = true → s.used x = true)
    (hflush : s.Flushes a) (hs : s.nextState a = some s') :
    ∀ x, s'.stale x = true → s'.used x = true := by
  obtain ⟨⟨s', result⟩, hexec, rfl⟩ := Option.map_eq_some_iff.mp hs
  cases a with
  | create pageTable =>
    simp only [exec] at hexec
    split at hexec
    · cases hexec
    · cases hexec
      exact hstale
    · split at hexec <;> cases hexec <;> intro x hx <;> have := hstale x hx <;>
        simp [update_apply, this]
  | map asid =>
    obtain ⟨-, heq⟩ := Option.ite_none_right_eq_some.mp hexec
    cases heq
    exact hstale
  | unmap asid all whole shootdown =>
    obtain ⟨⟨hlive, -⟩, heq⟩ := Option.ite_none_right_eq_some.mp hexec
    cases heq
    intro x hx
    by_cases hxa : x = asid
    · rw [hxa]
      exact h.live_used hlive
    · exact hstale x (by simpa [update_apply, hxa] using hx)
  | drop asid r =>
    obtain ⟨hlive, hexec⟩ := Option.ite_none_right_eq_some.mp hexec
    have hused := h.live_used hlive
    dsimp only at hexec
    split at hexec
    · rename_i hcompleted
      cases hexec
      intro x hx
      rw [free_stale] at hx
      by_cases hxa : x = asid
      · -- the shootdown of the ASID has completed, or the condition says that none is owed
        subst hxa
        simp only [Retirement.completed, Bool.and_eq_true] at hcompleted
        simp only [update_self] at hx
        unfold Flushes at hflush
        grind
      · rw [free_used hxa]
        exact hstale x (by simpa [update_apply, hxa] using hx)
    · cases hexec
      intro x hx
      by_cases hxa : x = asid
      · rw [hxa]
        exact hused
      · exact hstale x (by simpa [update_apply, hxa] using hx)

theorem stale_used (hr : Reachable (· = new) (Guarded Flushes (Computed nextState)) s) :
    ∀ x, s.stale x = true → s.used x = true := by
  refine (hr.invariant (I := fun s => s.Sound ∧ ∀ x, s.stale x = true → s.used x = true)
    (fun s hs => ?_) fun s a s' h hs => ?_).2
  · subst hs
    exact ⟨.reachable (.start rfl), nofun⟩
  · exact ⟨h.1.step hs.2, stale_step h.1 h.2 hs.1 hs.2⟩

/-- **No two live address spaces share an ASID**, none has 0, and an ASID is given out again only
after its last owner has retired and, under the condition, after its shootdowns have completed.  A
creation succeeds while an ASID is free and there is memory for the page table. -/
theorem asids_unique (hr : Reachable (· = new) (Computed nextState) s) : s.live.Nodup ∧ 0 ∉ s.live ∧
    (∀ pageTable s' asid, s.exec (.create pageTable) = some (s', some (.ok asid)) →
      asid ∉ s.live ∧ asid ∉ s.retained ∧
      (Reachable (· = new) (Guarded Flushes (Computed nextState)) s → s.stale asid = false)) ∧
    ((∃ asid, 0 < asid ∧ asid < 1024 ∧ s.used asid = false) →
      ∃ s' asid, s.exec (.create true) = some (s', some (.ok asid))) := by
  have h := Sound.reachable hr
  refine ⟨nodup_iff_count_le_one.mpr fun x => ?_, ?_, fun _ _ asid hs => ?_, ?_⟩
  · have hx := h.owned x
    split at hx <;> omega
  · have h0 := h.owned 0
    rw [← count_eq_zero]
    grind
  · have hx := h.owned asid
    have hfree := exec_create h hs
    rw [hfree, if_neg (by simp)] at hx
    refine ⟨?_, ?_, fun hflushed => ?_⟩
    · exact count_eq_zero.mp (by omega)
    · exact count_eq_zero.mp (by omega)
    · rw [← Bool.not_eq_true]
      intro hstale
      rw [stale_used hflushed asid hstale] at hfree
      cases hfree
  · rintro ⟨asid, hpos, hlt, hfree⟩
    have hdist : distance s.next asid < 1024 := by
      have hnext := h.next
      unfold distance
      grind
    obtain ⟨found, hfound⟩ := search_found h.next hfree ⟨hpos, hlt⟩ le_rfl hdist
    simp only [exec, hfound]
    exact ⟨_, found, rfl⟩

/-- The shootdown of an unmapping fails, that of the drop completes, and the ASID is free again. -/
theorem asids_unique_retired : ∃ s : System, (s.live = [2] ∧ s.used 1 = false) ∧ s.live.Nodup ∧
    (∃ s' asid, s.exec (.create true) = some (s', some (.ok asid)) ∧ asid ∉ s.live ∧
      s.stale asid = false) := by
  obtain ⟨s, hr, hs⟩ : ∃ s : System, Reachable (· = new) (Guarded Flushes (Computed nextState)) s ∧
      decide (s.live = [2] ∧ s.used 1 = false) = true :=
    Reachable.guarded_execs rfl
      [.create true, .create true, .map 1, .unmap 1 false false false,
        .drop 1 ⟨true, true, [(true, true)]⟩] (by decide)
  have hs := of_decide_eq_true hs
  obtain ⟨hnodup, -, hnew, hfound⟩ :=
    asids_unique (s := s) (hr.elim fun h hrun => ⟨h, hrun.mono fun _ _ _ hs => hs.2⟩)
  obtain ⟨s', asid, hcreate⟩ := hfound ⟨1, by decide, by decide, hs.2⟩
  obtain ⟨hlive, -, hstale⟩ := hnew true s' asid hcreate
  exact ⟨s, hs, hnodup, s', asid, hcreate, hlive, hstale hr⟩

/-- A creation without memory for its page table fails and keeps an ASID.  And an ASID is free again
although the shootdown of its last mapping failed. -/
theorem asid_leaked : (∃ s', new.exec (.create false) = some (s', some (.error .ENOMEM)) ∧
      new.used 1 = false ∧ s'.used 1 = true ∧ s'.live = [] ∧ s'.retained = []) ∧
    ∃ s : System, Reachable (· = new) (Computed nextState) s ∧
      decide (s.used 1 = false ∧ s.stale 1 = true) = true :=
  ⟨⟨_, rfl, rfl, rfl, rfl, rfl⟩, Reachable.execs rfl
    [.create true, .map 1, .unmap 1 true false false, .drop 1 ⟨true, true, []⟩] (by decide)⟩

end System

end PulseOS.Asid
