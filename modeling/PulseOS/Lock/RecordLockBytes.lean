import PulseOS.Lib.Transition
import PulseOS.Lock.RecordLock

/-!
# Record locks, byte by byte

What a list of record locks means: the type each owner holds on each byte.  Calls of `set`,
`clear_owner_range` and `release_owner` from an empty list change it as a table of one type per
owner and byte would.

* `typeAt entries owner byte` — the type held, computed from the list; `Holds` is its relational
  form.
* `holds_cleared` — splitting changes no byte it should not; `coalesce_spec` — nor does merging.
* `Consistent` — the invariant: one type per owner and byte, no write lock under another owner's
  lock, no two locks of one owner that overlap.
* `reachable_oneTypePerByte` — the table reading of every state that calls with ordered ranges
  reach.  A range that is cleared backwards splits a lock into two that overlap
  (`clear_backwards_overlaps`).
-/

namespace PulseOS.Lock

open Exec Transition List RecordLock

/-! ## The meaning of a list of locks -/

def RecordLock.covers (entry : RecordLock) (owner : RecordLockOwner) (byte : Int) : Bool :=
  entry.owner == owner && (entry.start ≤ byte && byte < entry.stop)

open RecordLock

variable (entries : List RecordLock) (owner : RecordLockOwner) (byte : Int)

def typeAt : Option RecordLockType :=
  (entries.find? (·.covers owner byte)).map (·.lockType)

def Holds (lockType : RecordLockType) : Prop :=
  ∃ entry ∈ entries, entry.covers owner byte = true ∧ entry.lockType = lockType

section Meaning

variable {entries entries' : List RecordLock} {owner o : RecordLockOwner} {start stop byte : Int}
  {lockType t : RecordLockType} {entry : RecordLock}

theorem covers_iff :
    entry.covers owner byte = true ↔ entry.owner = owner ∧ entry.start ≤ byte ∧ byte < entry.stop := by
  simp [covers]

theorem holds_perm (h : entries.Perm entries') :
    Holds entries o byte t ↔ Holds entries' o byte t := by
  simp only [Holds, h.mem_iff]

theorem holds_append : Holds (entries ++ entries') o byte t ↔
    Holds entries o byte t ∨ Holds entries' o byte t := by
  simp only [Holds, mem_append, or_and_right, exists_or]

theorem holds_singleton :
    Holds [entry] o byte t ↔ entry.covers o byte = true ∧ entry.lockType = t := by
  simp [Holds]

theorem holds_cons : Holds (entry :: entries) o byte t ↔
    (entry.covers o byte = true ∧ entry.lockType = t) ∨ Holds entries o byte t := by
  simp [Holds]

theorem not_holds_nil : ¬ Holds [] o byte t := by simp [Holds]

theorem holds_cut (entry : RecordLock) : Holds (entry.cut owner start stop) o byte t ↔
      (entry.covers o byte = true ∧ entry.lockType = t) ∧
        ¬ (o = owner ∧ start ≤ byte ∧ byte < stop) := by
  unfold cut
  split
  · rename_i ht
    simp only [touched, Bool.and_eq_true, beq_iff_eq, rangesOverlap_iff] at ht
    obtain ⟨hown, hs, he⟩ := ht
    constructor
    · rintro ⟨piece, hp, hc, rfl⟩
      rw [covers_iff] at hc
      rcases mem_remains.mp hp with ⟨hlt, rfl⟩ | ⟨hlt, rfl⟩
      all_goals
        obtain ⟨rfl, h1, h2⟩ := hc
        simp only at h1 h2
        exact ⟨⟨covers_iff.mpr ⟨rfl, by omega, by omega⟩, rfl⟩, by omega⟩
    · rintro ⟨⟨hc, rfl⟩, hout⟩
      obtain ⟨rfl, h1, h2⟩ := covers_iff.mp hc
      -- the byte lies before the range or behind it
      rcases lt_or_ge byte start with hlt | hge
      · exact ⟨{ entry with stop := start }, mem_remains.mpr (.inl ⟨by omega, rfl⟩),
          covers_iff.mpr ⟨rfl, h1, hlt⟩, rfl⟩
      · have hge' : stop ≤ byte := by
          by_contra hlt
          exact hout ⟨hown, hge, by omega⟩
        exact ⟨{ entry with start := stop }, mem_remains.mpr (.inr ⟨by omega, rfl⟩),
          covers_iff.mpr ⟨rfl, hge', h2⟩, rfl⟩
  · rename_i ht
    rw [holds_singleton]
    refine ⟨fun h => ⟨h, ?_⟩, fun h => h.1⟩
    rintro ⟨rfl, h1, h2⟩
    obtain ⟨hown, h3, h4⟩ := covers_iff.mp h.1
    refine ht ?_
    simp only [touched, Bool.and_eq_true, beq_iff_eq, rangesOverlap_iff]
    exact ⟨hown, by omega, by omega⟩

/-- **Clearing takes exactly the bytes of the range from the owner.** -/
theorem holds_cleared {r : List RecordLock × Bool} (h : Cleared owner start stop entries r) :
    Holds r.1 o byte t ↔ Holds entries o byte t ∧ ¬ (o = owner ∧ start ≤ byte ∧ byte < stop) := by
  rw [holds_perm h.1]
  constructor
  · rintro ⟨piece, hp, hc⟩
    obtain ⟨entry, he, hpe⟩ := mem_flatMap.mp hp
    obtain ⟨hold, hout⟩ := (holds_cut entry).mp ⟨piece, hpe, hc⟩
    exact ⟨⟨entry, he, hold⟩, hout⟩
  · rintro ⟨⟨entry, he, hold⟩, hout⟩
    obtain ⟨piece, hpe, hc⟩ := (holds_cut entry).mpr ⟨hold, hout⟩
    exact ⟨piece, mem_flatMap.mpr ⟨entry, he, hpe⟩, hc⟩

theorem holds_released :
    Holds (releaseOwner entries owner).1 o byte t ↔ Holds entries o byte t ∧ o ≠ owner := by
  simp only [releaseOwner, Holds, mem_filter, bne_iff_ne, covers_iff]
  constructor
  · rintro ⟨entry, ⟨he, hne⟩, ⟨rfl, hb⟩, ht⟩
    exact ⟨⟨entry, he, ⟨rfl, hb⟩, ht⟩, hne⟩
  · rintro ⟨⟨entry, he, ⟨rfl, hb⟩, ht⟩, hne⟩
    exact ⟨entry, ⟨he, hne⟩, ⟨rfl, hb⟩, ht⟩

end Meaning

/-! ## Merging sorted locks -/

/-- The order of the sort, without the ends. -/
def RecordLock.Starts (a b : RecordLock) : Prop :=
  a.owner.rank < b.owner.rank ∨ a.owner.rank = b.owner.rank ∧ (a.lockType.rank < b.lockType.rank ∨
      a.lockType.rank = b.lockType.rank ∧ a.start ≤ b.start)

instance : Std.Total Le := ⟨fun a b => by unfold Le; omega⟩

instance : IsTrans RecordLock Le :=
  ⟨fun a b c hab hbc => by unfold Le at *; omega⟩

theorem RecordLock.Le.starts {a b : RecordLock} (h : a.Le b) : a.Starts b := by
  unfold Le Starts at *
  omega

/-- How a later lock kept lies to an earlier one: behind it, and apart from it when the two could
be merged. -/
structure Behind (later earlier : RecordLock) : Prop where
  starts : earlier.Starts later
  apart : later.owner = earlier.owner → later.lockType = earlier.lockType →
    earlier.stop < later.start

variable {entries} {previous entry : RecordLock} {kept rest : List RecordLock}

theorem continuedBy_iff : previous.continuedBy entry = true ↔
      (previous.owner = entry.owner ∧ previous.lockType = entry.lockType) ∧
        entry.start ≤ previous.stop := by
  simp [continuedBy]

/-- A lock that is not merged into the latest one is behind all that were kept. -/
theorem behind_of_not_continued {kept : List RecordLock}
    (hkept : (previous :: kept).Pairwise Behind) (hs : ∀ p ∈ previous :: kept, p.Starts entry)
    (hc : previous.continuedBy entry = false) : ∀ p ∈ previous :: kept, Behind entry p := by
  have hlast : Behind entry previous := by
    refine ⟨hs _ mem_cons_self, fun ho ht => ?_⟩
    by_contra hle
    exact absurd (continuedBy_iff.mpr ⟨⟨ho.symm, ht.symm⟩, by omega⟩) (by simp [hc])
  intro p hp
  rcases mem_cons.mp hp with rfl | hp
  · exact hlast
  · refine ⟨hs p (mem_cons_of_mem _ hp), fun ho ht => ?_⟩
    -- `previous` lies between `p` and `entry`, so it is of the same owner and type
    have hb := (pairwise_cons.mp hkept).1 p hp
    have h1 := hb.starts
    have h2 := hlast.starts
    unfold Starts at h1 h2
    rw [ho, ht] at h2
    have ho' : previous.owner = p.owner := RecordLockOwner.rank_inj (by omega)
    have ht' : previous.lockType = p.lockType := RecordLockType.rank_inj (by omega)
    have hap := hb.apart ho' ht'
    rw [ho', ht'] at h2
    omega

/-- Locks kept and locks still to come. -/
structure Merging (kept rest : List RecordLock) : Prop where
  apart : kept.Pairwise Behind
  starts : ∀ p ∈ kept, ∀ e ∈ rest, p.Starts e
  sorted : rest.Pairwise Starts
  nonempty : ∀ e ∈ kept ++ rest, e.start < e.stop

variable {entry : RecordLock}

theorem Merging.absorb (h : Merging kept (entry :: rest)) : Merging (absorb kept entry) rest := by
  obtain ⟨hentry, hsorted⟩ := pairwise_cons.mp h.sorted
  cases kept with
  | nil =>
    refine ⟨pairwise_singleton _ _, ?_, hsorted, fun e he => h.nonempty e he⟩
    intro p hp e he
    rw [mem_singleton.mp hp]
    exact hentry e he
  | cons previous kept =>
    have hs : ∀ p ∈ previous :: kept, p.Starts entry := fun p hp =>
      h.starts p hp entry mem_cons_self
    have hnext : ∀ p ∈ previous :: kept, ∀ e ∈ rest, p.Starts e := fun p hp e he =>
      h.starts p hp e (mem_cons_of_mem _ he)
    have hne : ∀ e ∈ previous :: kept ++ rest, e.start < e.stop := by
      intro e he
      refine h.nonempty e ?_
      rcases mem_append.mp he with he | he
      · exact mem_append_left _ he
      · exact mem_append_right _ (mem_cons_of_mem _ he)
    simp only [Lock.absorb]
    cases hc : previous.continuedBy entry with
    | true =>
      -- the latest lock only grows at its end
      obtain ⟨hfirst, hpair⟩ := pairwise_cons.mp h.apart
      refine ⟨pairwise_cons.mpr ⟨fun p hp => ⟨(hfirst p hp).starts, (hfirst p hp).apart⟩,
        hpair⟩, ?_, hsorted, ?_⟩
      · intro p hp e he
        rcases mem_cons.mp hp with rfl | hp
        · exact hnext previous mem_cons_self e he
        · exact hnext p (mem_cons_of_mem _ hp) e he
      · intro e he
        rcases mem_cons.mp he with rfl | he
        · have := hne previous mem_cons_self
          simp only
          omega
        · exact hne e (mem_cons_of_mem _ he)
    | false =>
      refine ⟨pairwise_cons.mpr ⟨behind_of_not_continued h.apart hs hc, h.apart⟩, ?_, hsorted, ?_⟩
      · intro p hp e he
        rcases mem_cons.mp hp with rfl | hp
        · exact hentry e he
        · exact hnext p hp e he
      · intro e he
        rcases mem_cons.mp he with rfl | he
        · exact h.nonempty e (mem_append_right _ mem_cons_self)
        · exact hne e he

theorem Merging.holds_absorb
    (h : Merging kept (entry :: rest)) {o : RecordLockOwner} {byte : Int} {t : RecordLockType} :
    Holds (Lock.absorb kept entry) o byte t ↔ Holds (entry :: kept) o byte t := by
  cases kept with
  | nil => rfl
  | cons previous kept =>
    simp only [Lock.absorb]
    cases hc : previous.continuedBy entry with
    | false => rfl
    | true =>
      obtain ⟨⟨ho, ht⟩, hle⟩ := continuedBy_iff.mp hc
      have hs := h.starts previous mem_cons_self entry mem_cons_self
      unfold Starts at hs
      rw [ho, ht] at hs
      simp only [if_true, holds_cons, covers_iff, ho, ht, ← or_assoc]
      refine or_congr_left ?_
      constructor
      · rintro ⟨⟨ho', h1, h2⟩, ht'⟩
        rcases lt_or_ge byte entry.start with hlt | hge
        · exact .inr ⟨⟨ho', h1, by omega⟩, ht'⟩
        · rcases lt_or_ge byte entry.stop with hlt' | hge'
          · exact .inl ⟨⟨ho', hge, hlt'⟩, ht'⟩
          · exact .inr ⟨⟨ho', h1, by omega⟩, ht'⟩
      · rintro (⟨⟨ho', h1, h2⟩, ht'⟩ | ⟨⟨ho', h1, h2⟩, ht'⟩)
        · exact ⟨⟨ho', by omega, by omega⟩, ht'⟩
        · exact ⟨⟨ho', by omega, by omega⟩, ht'⟩

theorem Merging.foldl : ∀ {rest kept : List RecordLock}, Merging kept rest →
    Merging (rest.foldl Lock.absorb kept) [] ∧ ∀ o byte t,
      Holds (rest.foldl Lock.absorb kept) o byte t ↔ Holds (kept ++ rest) o byte t
  | [], kept, h => ⟨h, fun o byte t => by rw [foldl_nil, append_nil]⟩
  | entry :: rest, kept, h => by
    obtain ⟨hm, hh⟩ := Merging.foldl h.absorb
    refine ⟨hm, fun o byte t => ?_⟩
    rw [foldl_cons, hh, holds_append, h.holds_absorb, holds_append, holds_cons, holds_cons]
    tauto

/-- **Coalescing keeps the meaning**, and the locks it leaves that could be merged are apart. -/
theorem coalesce_spec (hne : ∀ e ∈ entries, e.start < e.stop) :
    ∃ r, coalesce entries = .ok r ∧ (∀ o byte t, Holds r o byte t ↔ Holds entries o byte t) ∧
      (∀ e ∈ r, e.start < e.stop) ∧ r.Pairwise fun a b => Behind b a := by
  have hperm := perm_insertionSort Le entries
  have hm : Merging [] (entries.insertionSort Le) := by
    refine ⟨List.Pairwise.nil, nofun, ?_, ?_⟩
    · exact (pairwise_insertionSort Le entries).imp Le.starts
    · intro e he
      exact hne e (hperm.mem_iff.mp he)
  obtain ⟨hmerged, hholds⟩ := hm.foldl
  refine ⟨_, coalesce_eq entries, fun o byte t => ?_, ?_, pairwise_reverse.mpr hmerged.apart⟩
  · rw [holds_perm (reverse_perm _), hholds, nil_append, holds_perm hperm]
  · intro e he
    exact hmerged.nonempty e (mem_append_left _ (mem_reverse.mp he))

/-! ## The invariant -/

variable (entries)

def NoOverlap : Prop :=
  entries.Pairwise fun a b =>
    a.owner = b.owner → rangesOverlap a.start a.stop b.start b.stop = false

/-- No write lock overlaps a lock of another owner. -/
def WriteAlone : Prop :=
  ∀ a ∈ entries, ∀ b ∈ entries, a.owner ≠ b.owner →
    rangesOverlap a.start a.stop b.start b.stop = true → a.lockType = .read

structure Consistent : Prop where
  nonempty : ∀ e ∈ entries, e.start < e.stop
  oneType : ∀ o byte t t', Holds entries o byte t → Holds entries o byte t' → t = t'
  writeAlone : ∀ o o' byte t t', o ≠ o' → Holds entries o byte t → Holds entries o' byte t' →
    t = .read
  noOverlap : NoOverlap entries

theorem Consistent.nil : Consistent [] :=
  ⟨nofun, fun _ _ _ _ h => absurd h not_holds_nil, fun _ _ _ _ _ _ h => absurd h not_holds_nil,
    List.Pairwise.nil⟩

section Consistent

variable {entries : List RecordLock} {owner o : RecordLockOwner} {start stop byte : Int}
  {lockType t : RecordLockType}

theorem shared_byte {a b : RecordLock} (ha : a.start < a.stop) (hb : b.start < b.stop)
    (h : rangesOverlap a.start a.stop b.start b.stop = true) :
    ∃ byte, a.covers a.owner byte = true ∧ b.covers b.owner byte = true := by
  rw [rangesOverlap_iff] at h
  refine ⟨max a.start b.start, covers_iff.mpr ⟨rfl, ?_, ?_⟩, covers_iff.mpr ⟨rfl, ?_, ?_⟩⟩ <;> omega

section

variable (h : Consistent entries)

include h

theorem Consistent.writeAlone_entries : WriteAlone entries := by
  intro a ha b hb hne hov
  obtain ⟨byte, hca, hcb⟩ := shared_byte (h.nonempty a ha) (h.nonempty b hb) hov
  exact h.writeAlone _ _ byte _ _ hne ⟨a, ha, hca, rfl⟩ ⟨b, hb, hcb, rfl⟩

theorem Consistent.typeAt_eq_some : typeAt entries o byte = some t ↔ Holds entries o byte t := by
  unfold typeAt
  constructor
  · intro hm
    obtain ⟨entry, hf, ht⟩ := Option.map_eq_some_iff.mp hm
    have hcov : entry.covers o byte = true := by simpa using List.find?_some hf
    exact ⟨entry, mem_of_find?_eq_some hf, hcov, ht⟩
  · rintro ⟨entry, he, hc, rfl⟩
    cases hf : entries.find? (·.covers o byte) with
    | none => exact absurd hc (List.find?_eq_none.mp hf entry he)
    | some found =>
      have hcov : found.covers o byte = true := by simpa using List.find?_some hf
      have hheld : Holds entries o byte found.lockType :=
        ⟨found, mem_of_find?_eq_some hf, hcov, rfl⟩
      rw [Option.map_some, h.oneType o byte _ _ hheld ⟨entry, he, hc, rfl⟩]

variable {entries' : List RecordLock} {r : List RecordLock × Bool}

theorem typeAt_eq_of_holds
    (h' : Consistent entries') (hh : ∀ t, Holds entries' o byte t ↔ Holds entries o byte t) :
    typeAt entries' o byte = typeAt entries o byte := by
  refine Option.ext fun t => ?_
  rw [h'.typeAt_eq_some, h.typeAt_eq_some, hh]

theorem typeAt_eq_none (hh : ∀ t, ¬ Holds entries o byte t) : typeAt entries o byte = none := by
  cases ht : typeAt entries o byte with
  | none => rfl
  | some t => exact absurd (h.typeAt_eq_some.mp ht) (hh t)

theorem consistent_released (owner : RecordLockOwner) :
    Consistent (releaseOwner entries owner).1 := by
  refine ⟨fun e he => h.nonempty e (mem_of_mem_filter he), ?_, ?_,
    h.noOverlap.sublist filter_sublist⟩
  · intro o byte t t' ht ht'
    exact h.oneType o byte t t' (holds_released.mp ht).1 (holds_released.mp ht').1
  · intro o o' byte t t' hne ht ht'
    exact h.writeAlone o o' byte t t' hne (holds_released.mp ht).1 (holds_released.mp ht').1

end

variable {entry piece : RecordLock}

theorem cut_within (h : piece ∈ entry.cut owner start stop) :
    piece.owner = entry.owner ∧ entry.start ≤ piece.start ∧ piece.stop ≤ entry.stop := by
  unfold cut at h
  split at h
  · rename_i ht
    simp only [touched, Bool.and_eq_true, beq_iff_eq, rangesOverlap_iff] at ht
    rcases mem_remains.mp h with ⟨-, rfl⟩ | ⟨-, rfl⟩
    · exact ⟨rfl, le_rfl, by simp only; omega⟩
    · exact ⟨rfl, by simp only; omega, le_rfl⟩
  · rw [mem_singleton.mp h]
    exact ⟨rfl, le_rfl, le_rfl⟩

theorem cut_nonempty (hne : entry.start < entry.stop)
    (h : piece ∈ entry.cut owner start stop) : piece.start < piece.stop := by
  unfold cut at h
  split at h
  · rcases mem_remains.mp h with ⟨hlt, rfl⟩ | ⟨hlt, rfl⟩
    · exact hlt
    · exact hlt
  · rw [mem_singleton.mp h]
    exact hne

theorem cut_noOverlap (hle : start ≤ stop) (entry : RecordLock) :
    NoOverlap (entry.cut owner start stop) := by
  unfold NoOverlap cut
  split
  · unfold remains
    refine pairwise_append.mpr ⟨by split <;> simp, by split <;> simp, ?_⟩
    intro a ha b hb _
    have ha' : a.stop = start := by
      split at ha
      · rw [mem_singleton.mp ha]
      · cases ha
    have hb' : b.start = stop := by
      split at hb
      · rw [mem_singleton.mp hb]
      · cases hb
    simp only [rangesOverlap, Bool.and_eq_false_iff, decide_eq_false_iff_not]
    omega
  · exact pairwise_singleton _ _

theorem rangesOverlap_comm (a b : RecordLock) :
    rangesOverlap a.start a.stop b.start b.stop = rangesOverlap b.start b.stop a.start a.stop :=
  Bool.and_comm _ _

theorem noOverlap_cleared (h : NoOverlap entries)
    (hle : start ≤ stop) (hr : Cleared owner start stop entries r) : NoOverlap r.1 := by
  refine (hr.1.pairwise_iff fun {a b} hab ho => ?_).mpr ?_
  · rw [rangesOverlap_comm]
    exact hab ho.symm
  refine pairwise_flatMap.mpr ⟨fun e _ => cut_noOverlap hle e, h.imp ?_⟩
  intro a b hab x hx y hy ho
  obtain ⟨hxo, hxs, hxe⟩ := cut_within hx
  obtain ⟨hyo, hys, hye⟩ := cut_within hy
  have := hab (hxo.symm.trans (ho.trans hyo))
  simp only [rangesOverlap, Bool.and_eq_false_iff, decide_eq_false_iff_not] at this ⊢
  omega

theorem consistent_cleared (h : Consistent entries)
    (hle : start ≤ stop) (hr : Cleared owner start stop entries r) : Consistent r.1 := by
  refine ⟨?_, ?_, ?_, noOverlap_cleared h.noOverlap hle hr⟩
  · intro piece hp
    obtain ⟨entry, he, hpe⟩ := mem_flatMap.mp (hr.1.mem_iff.mp hp)
    exact cut_nonempty (h.nonempty entry he) hpe
  · intro o byte t t' ht ht'
    exact h.oneType o byte t t' ((holds_cleared hr).mp ht).1 ((holds_cleared hr).mp ht').1
  · intro o o' byte t t' hne ht ht'
    exact h.writeAlone o o' byte t t' hne ((holds_cleared hr).mp ht).1 ((holds_cleared hr).mp ht').1

/-- What `set` leaves when it succeeds. -/
structure WasSet (entries : List RecordLock) (owner : RecordLockOwner) (start stop : Int)
    (lockType : RecordLockType) (entries' : List RecordLock) : Prop where
  holds : ∀ o byte t, Holds entries' o byte t ↔
    (o = owner ∧ start ≤ byte ∧ byte < stop) ∧ t = lockType ∨
      Holds entries o byte t ∧ ¬ (o = owner ∧ start ≤ byte ∧ byte < stop)
  nonempty : ∀ e ∈ entries', e.start < e.stop
  apart : entries'.Pairwise fun a b => Behind b a

/-- **`set` returns**: with an error it leaves the locks, otherwise it writes its type over the
range. -/
theorem set_spec (hne : ∀ e ∈ entries, e.start < e.stop) (owner : RecordLockOwner)
    (start stop : Int) (lockType : RecordLockType) :
    (∃ e, set entries owner start stop lockType = .ok (.error e, entries)) ∨
      ∃ entries', set entries owner start stop lockType = .ok (.ok (), entries') ∧
        (0 ≤ start ∧ start < stop) ∧
        (conflict entries owner start stop lockType).isSome = false ∧
        WasSet entries owner start stop lockType entries' := by
  cases hv : validateRange start stop with
  | error e => exact .inl ⟨e, by simp [set, hv]⟩
  | ok _ =>
    cases hc : (conflict entries owner start stop lockType).isSome with
    | true => exact .inl ⟨.EAGAIN, by simp [set, hv, hc]⟩
    | false =>
      have hrange := validateRange_ok.mp hv
      obtain ⟨r, hr, hcleared⟩ := clearOwnerRange_spec entries owner start stop
      have hne' : ∀ e ∈ r.1 ++ [⟨owner, start, stop, lockType⟩], e.start < e.stop := by
        intro e he
        rcases mem_append.mp he with he | he
        · obtain ⟨entry, hm, hpe⟩ := mem_flatMap.mp (hcleared.1.mem_iff.mp he)
          exact cut_nonempty (hne entry hm) hpe
        · rw [mem_singleton.mp he]
          exact hrange.2
      obtain ⟨out, hout, hholds, hnout, hapart⟩ := coalesce_spec hne'
      refine .inr ⟨out, by simp [set, hv, hc, hr, hout], hrange, rfl, ?_, hnout, hapart⟩
      intro o byte t
      rw [hholds, holds_append, holds_cleared hcleared, holds_singleton, covers_iff,
        eq_comm (a := owner), eq_comm (a := lockType)]
      tauto

theorem consistent_set (h : Consistent entries)
    (hc : (conflict entries owner start stop lockType).isSome = false)
    (hs : WasSet entries owner start stop lockType entries') : Consistent entries' := by
  have hone : ∀ o byte t t', Holds entries' o byte t → Holds entries' o byte t' → t = t' := by
    intro o byte t t' ht ht'
    rcases (hs.holds o byte t).mp ht with ⟨hin, rfl⟩ | ⟨ht, hout⟩
    · rcases (hs.holds o byte t').mp ht' with ⟨-, rfl⟩ | ⟨-, hout⟩
      · rfl
      · exact absurd hin hout
    · rcases (hs.holds o byte t').mp ht' with ⟨hin, -⟩ | ⟨ht', -⟩
      · exact absurd hin hout
      · exact h.oneType o byte t t' ht ht'
  -- no other owner holds a byte of the range in a conflicting type
  have hfree : ∀ o byte t, o ≠ owner → start ≤ byte → byte < stop → Holds entries o byte t →
      t = .read ∧ lockType = .read := by
    rintro o byte t hne h1 h2 ⟨entry, he, hcov, rfl⟩
    obtain ⟨rfl, h3, h4⟩ := covers_iff.mp hcov
    have hno : entry.conflictsWith owner start stop lockType = false := by
      by_contra hyes
      rw [Bool.not_eq_false] at hyes
      rw [conflict_isSome.mpr ⟨entry, he, hyes⟩] at hc
      cases hc
    have hov : rangesOverlap entry.start entry.stop start stop = true :=
      rangesOverlap_iff.mpr ⟨by omega, by omega⟩
    simpa [conflictsWith, hne, hov, lockTypesConflict] using hno
  refine ⟨hs.nonempty, hone, ?_, ?_⟩
  · intro o o' byte t t' hne ht ht'
    rcases (hs.holds o byte t).mp ht with ⟨⟨rfl, h1, h2⟩, rfl⟩ | ⟨ht, -⟩
    · rcases (hs.holds o' byte t').mp ht' with ⟨⟨rfl, -⟩, -⟩ | ⟨ht', -⟩
      · exact absurd rfl hne
      · exact (hfree o' byte t' hne.symm h1 h2 ht').2
    · rcases (hs.holds o' byte t').mp ht' with ⟨⟨rfl, h1, h2⟩, rfl⟩ | ⟨ht', -⟩
      · exact (hfree o byte t hne h1 h2 ht).1
      · exact h.writeAlone o o' byte t t' hne ht ht'
  · -- locks of one owner: of one type they are apart, of two types they would share a byte
    refine hs.apart.imp_of_mem fun {a b} ha hb hab ho => ?_
    by_contra hov
    rw [Bool.not_eq_false] at hov
    obtain ⟨byte, hca, hcb⟩ := shared_byte (hs.nonempty a ha) (hs.nonempty b hb) hov
    have ht := hone a.owner byte _ _ ⟨a, ha, hca, rfl⟩ ⟨b, hb, ho ▸ hcb, rfl⟩
    have := hab.apart ho.symm ht.symm
    rw [rangesOverlap_iff] at hov
    omega

end Consistent

/-! ## Sequences of calls -/

inductive Op where
  | set (owner : RecordLockOwner) (start stop : Int) (lockType : RecordLockType)
  | clearOwnerRange (owner : RecordLockOwner) (start stop : Int)
  | releaseOwner (owner : RecordLockOwner)

/-- The locks after a call. -/
def Op.apply : Op → Exec Empty (List RecordLock)
  | .set owner start stop lockType => do
    let (_, entries') ← Lock.set entries owner start stop lockType
    .ok entries'
  | .clearOwnerRange owner start stop => do
    let (entries', _) ← Lock.clearOwnerRange entries owner start stop
    .ok entries'
  | .releaseOwner owner => .ok (Lock.releaseOwner entries owner).1

def Calls (op : Op) (entries' : List RecordLock) : Prop :=
  op.apply entries = .ok entries'

/-- The callers of `clear_owner_range` have checked that the range is not backwards. -/
def Op.Ordered : Op → Prop
  | .clearOwnerRange _ start stop => start ≤ stop
  | _ => True

/-- Some calls lead from no locks to `entries`. -/
abbrev Reached : Prop := Reachable (· = []) Calls entries

/-- Some calls with ordered ranges lead from no locks to `entries`. -/
abbrev ReachedOrdered : Prop :=
  Reachable (· = []) (Guarded (fun _ op => op.Ordered) Calls) entries

variable {entries}

theorem Op.apply_consistent (h : Consistent entries) (op : Op) (hop : op.Ordered) :
    ∃ entries', op.apply entries = .ok entries' ∧ Consistent entries' := by
  cases op with
  | set owner start stop lockType =>
    rcases set_spec h.nonempty owner start stop lockType with ⟨e, hs⟩ | ⟨out, hs, -, hc, hset⟩
    · exact ⟨entries, by simp [Op.apply, hs], h⟩
    · exact ⟨out, by simp [Op.apply, hs], consistent_set h hc hset⟩
  | clearOwnerRange owner start stop =>
    obtain ⟨r, hr, hcleared⟩ := clearOwnerRange_spec entries owner start stop
    exact ⟨r.1, by simp [Op.apply, hr], consistent_cleared h hop hcleared⟩
  | releaseOwner owner => exact ⟨_, rfl, consistent_released h owner⟩

theorem ReachedOrdered.consistent (h : ReachedOrdered entries) : Consistent entries := by
  refine h.invariant (fun _ he => by rw [he]; exact .nil) ?_
  rintro s op s' hs ⟨hop, hcall⟩
  obtain ⟨s'', hs'', hc⟩ := op.apply_consistent hs hop
  rw [Calls, hs''] at hcall
  cases hcall
  exact hc

/-- The list of locks is a table of one type per owner and byte. -/
structure OneTypePerByte (entries : List RecordLock) : Prop where
  /-- A successful `set` writes its type over the range, and nothing else. -/
  set_ok : ∀ owner start stop lockType entries',
    set entries owner start stop lockType = .ok (.ok (), entries') → ∀ o byte,
      typeAt entries' o byte =
        if o = owner ∧ start ≤ byte ∧ byte < stop then some lockType else typeAt entries o byte
  /-- Clearing unlocks the range for the owner, and nothing else. -/
  clear_ok : ∀ owner start stop entries' changed, start ≤ stop →
    clearOwnerRange entries owner start stop = .ok (entries', changed) → ∀ o byte,
      typeAt entries' o byte =
        if o = owner ∧ start ≤ byte ∧ byte < stop then none else typeAt entries o byte
  noOverlap : NoOverlap entries
  writeAlone : WriteAlone entries
  set_error : ∀ owner start stop lockType entries' e,
    set entries owner start stop lockType = .ok (.error e, entries') → entries' = entries
  /-- A conflict is reported exactly when another owner holds a byte in a conflicting type. -/
  conflict_iff : ∀ owner start stop lockType, start < stop →
    ((conflict entries owner start stop lockType).isSome = true ↔
      ∃ o byte t, (o ≠ owner ∧ start ≤ byte ∧ byte < stop) ∧ typeAt entries o byte = some t ∧
        lockTypesConflict t lockType = true)
  /-- Every call returns. -/
  returns : ∀ op : Op, ∃ entries', op.apply entries = .ok entries'

section OneTypePerByte

variable {entries : List RecordLock} {owner : RecordLockOwner} {entries' : List RecordLock}
  {start stop : Int} {lockType : RecordLockType}

section
variable (h : Consistent entries)
include h

theorem Consistent.set_ok
    (hs : set entries owner start stop lockType = .ok (.ok (), entries')) (o : RecordLockOwner)
    (byte : Int) : typeAt entries' o byte =
      if o = owner ∧ start ≤ byte ∧ byte < stop then some lockType else typeAt entries o byte := by
  rcases set_spec h.nonempty owner start stop lockType with ⟨e, he⟩ | ⟨out, hout, -, hc, hset⟩
  · rw [he] at hs
    cases hs
  · rw [hout] at hs
    cases hs
    have h' := consistent_set h hc hset
    split
    · rename_i hin
      exact h'.typeAt_eq_some.mpr ((hset.holds o byte lockType).mpr (.inl ⟨hin, rfl⟩))
    · rename_i hin
      refine typeAt_eq_of_holds h h' fun t => ?_
      rw [hset.holds]
      tauto

theorem Consistent.clear_ok {changed : Bool} (hle : start ≤ stop)
    (hs : clearOwnerRange entries owner start stop = .ok (entries', changed))
    (o : RecordLockOwner) (byte : Int) : typeAt entries' o byte =
      if o = owner ∧ start ≤ byte ∧ byte < stop then none else typeAt entries o byte := by
  obtain ⟨r, hr, hcleared⟩ := clearOwnerRange_spec entries owner start stop
  rw [hr] at hs
  cases hs
  have h' := consistent_cleared h hle hcleared
  split
  · rename_i hin
    exact typeAt_eq_none h' fun t ht => ((holds_cleared hcleared).mp ht).2 hin
  · rename_i hin
    refine typeAt_eq_of_holds h h' fun t => ?_
    rw [holds_cleared hcleared]
    tauto

theorem Consistent.conflict_iff (hlt : start < stop) :
    (conflict entries owner start stop lockType).isSome = true ↔
      ∃ o byte t, (o ≠ owner ∧ start ≤ byte ∧ byte < stop) ∧ typeAt entries o byte = some t ∧
        lockTypesConflict t lockType = true := by
  rw [conflict_isSome]
  constructor
  · rintro ⟨entry, he, hcw⟩
    obtain ⟨hne, ⟨h1, h2⟩, ht⟩ := conflictsWith_iff.mp hcw
    have hpos := h.nonempty entry he
    refine ⟨entry.owner, max entry.start start, entry.lockType, ⟨hne, by omega, by omega⟩, ?_, ht⟩
    exact h.typeAt_eq_some.mpr ⟨entry, he, covers_iff.mpr ⟨rfl, by omega, by omega⟩, rfl⟩
  · rintro ⟨o, byte, t, ⟨hne, h1, h2⟩, hat, ht⟩
    obtain ⟨entry, he, hc, rfl⟩ := h.typeAt_eq_some.mp hat
    obtain ⟨rfl, h3, h4⟩ := covers_iff.mp hc
    exact ⟨entry, he, conflictsWith_iff.mpr ⟨hne, ⟨by omega, by omega⟩, ht⟩⟩

theorem Consistent.oneTypePerByte : OneTypePerByte entries where
  set_ok _ _ _ _ _ hs := h.set_ok hs
  clear_ok _ _ _ _ _ hle hs := h.clear_ok hle hs
  noOverlap := h.noOverlap
  writeAlone := h.writeAlone_entries
  set_error _ _ _ _ _ _ hs := Lock.set_error hs
  conflict_iff _ _ _ _ hlt := h.conflict_iff hlt
  returns op := by
    cases op with
    | clearOwnerRange owner start stop =>
      obtain ⟨r, hr, -⟩ := clearOwnerRange_spec entries owner start stop
      exact ⟨r.1, by simp [Op.apply, hr]⟩
    | set owner start stop lockType =>
      obtain ⟨out, hout, -⟩ := Op.apply_consistent h (.set owner start stop lockType) trivial
      exact ⟨out, hout⟩
    | releaseOwner owner => exact ⟨_, rfl⟩

end

end OneTypePerByte

/-- **Record locks are one type per owner and byte** in every state that calls reach, as long as
no range is cleared backwards. -/
theorem reachable_oneTypePerByte (entries : List RecordLock) (h : ReachedOrdered entries) :
    OneTypePerByte entries :=
  h.consistent.oneTypePerByte

/-- A lock split in two by unlocking its middle. -/
theorem reachable_oneTypePerByte_split :
    OneTypePerByte [⟨.posix 1, 0, 20, .write⟩, ⟨.posix 1, 80, 100, .write⟩] := by
  have hempty : ReachedOrdered [] := .start rfl
  have hset : ReachedOrdered [⟨.posix 1, 0, 100, .write⟩] :=
    hempty.next (a := Op.set (.posix 1) 0 100 .write) ⟨trivial, rfl⟩
  have hclear : ReachedOrdered [⟨.posix 1, 0, 20, .write⟩, ⟨.posix 1, 80, 100, .write⟩] :=
    hset.next (a := Op.clearOwnerRange (.posix 1) 20 80) ⟨by simp [Op.Ordered], rfl⟩
  exact reachable_oneTypePerByte _ hclear

/-- A range cleared backwards splits a lock into two that overlap, and a query over no byte at all
reports a conflict. -/
theorem clear_backwards_overlaps : (∃ entries, Reached entries ∧ ¬ NoOverlap entries) ∧
      ∃ entries, Reached entries ∧ (conflict entries (.posix 2) 50 50 .write).isSome = true := by
  have hempty : Reached [] := .start rfl
  have hset : Reached [⟨.posix 1, 0, 100, .write⟩] :=
    hempty.next (a := Op.set (.posix 1) 0 100 .write) rfl
  have hclear : Reached [⟨.posix 1, 0, 60, .write⟩, ⟨.posix 1, 40, 100, .write⟩] :=
    hset.next (a := Op.clearOwnerRange (.posix 1) 60 40) rfl
  exact ⟨⟨_, hclear, by simp [NoOverlap, rangesOverlap]⟩, ⟨_, hset, rfl⟩⟩

end PulseOS.Lock
