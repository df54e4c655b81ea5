import PulseOS.Fd.FamilyRefines

/-!
# Ranges of descriptors

`remove_range` and `set_cloexec_range` clamp the last chunk to the chunks that are allocated, but
take the last bit from the bound that is not clamped.  When the bound lies beyond the allocated
chunks, the descriptors of the last chunk above that bit are missed.

* `RangeExact` — both operations act on exactly the open descriptors of the range, and
  `close_range` leaves none of them open.
* `rangeExact_iff` — so they do exactly when `MasksReach`: the bound lies within the allocated
  chunks, or nothing is open in the last chunk above its bit.
-/

namespace PulseOS.Fd

open Transition Spec Option Family Family.Reached

variable {ω : Type}

def CLOSE_RANGE_UNSHARE : BitVec 32 := 1 <<< 1

def CLOSE_RANGE_CLOEXEC : BitVec 32 := 1 <<< 2

def parseCloseRange (first last flags : BitVec 64) : Except LinuxError (Nat × Nat × BitVec 32) :=
  let first := (first.setWidth 32).toNat
  let last := (last.setWidth 32).toNat
  let flags := flags.setWidth 32
  if last < first ∨ flags &&& ~~~(CLOSE_RANGE_UNSHARE ||| CLOSE_RANGE_CLOEXEC) ≠ 0 then
    .error .EINVAL
  else .ok (first, last, flags)

/-- `unshare_files` of a process whose table is `t`: the process moves to a copy.  The old table
stays with those who share it, and its drop is a step of its own. -/
def unshareFiles (fam : Family ω) (t : Nat) : Option (Family ω × Nat) :=
  (fam.exec (.cloneForFork t)).map fun r => (r.1, fam.tables.length)

/-- `sys_close_range` of a process whose table is `t`: the family after it, the table of the process
after it and the value returned. -/
def sysCloseRange (fam : Family ω) (t : Nat) (first last flags : BitVec 64) :
    Option (Family ω × Nat × Int) :=
  match parseCloseRange first last flags with
  | .error e => some (fam, t, -e.code)
  | .ok (first, last, flags) =>
    let c : Call ω :=
      if flags &&& CLOSE_RANGE_CLOEXEC ≠ 0 then .setCloexecRange first last
      else .removeRange first last
    (if flags &&& CLOSE_RANGE_UNSHARE ≠ 0 then unshareFiles fam t else some (fam, t)).bind
      fun p => (p.1.exec (.call p.2 c)).map fun r => (r.1, p.2, 0)

/-- The operations on a range touch exactly the range. -/
structure RangeExact (fam : Family ω) (t first last : Nat) : Prop where
  removes : fam.Refines (.call t (.removeRange first last))
  marks : fam.Refines (.call t (.setCloexecRange first last))
  closes : ∀ (flags : BitVec 64) (fam' : Family ω) (t' : Nat) (T' : FdTable ω), last < 2 ^ 32 →
    flags.setWidth 32 &&& CLOSE_RANGE_CLOEXEC = 0 →
    sysCloseRange fam t (BitVec.ofNat 64 first) (BitVec.ofNat 64 last) flags = some (fam', t', 0) →
    fam'.table t' = some T' → ∀ fd, first ≤ fd → fd ≤ last → T'.get fd = none

/-- The bound lies within the allocated chunks, or no descriptor of the last chunk is open above the
bit that the bound has in its own chunk. -/
def MasksReach (T : FdTable ω) (first last : Nat) : Prop :=
  min last (FD_LIMIT - 1) / FD_CHUNK_SIZE < T.storage.chunks.length ∨
    ∀ fd, T.isOpen fd = true → first ≤ fd → fd / FD_CHUNK_SIZE = T.storage.chunks.length - 1 →
      fd % FD_CHUNK_SIZE ≤ min last (FD_LIMIT - 1) % FD_CHUNK_SIZE

/-! ## The masks and the range -/

section Masks

variable {T : FdTable ω} (hT : T.Sound) {first last : Nat} (hle : first ≤ last)

include hT in
theorem get_bounds {fd : Nat} (hfd : T.get fd ≠ none) :
    fd / FD_CHUNK_SIZE < T.storage.chunks.length ∧ fd < FD_LIMIT := by
  refine ⟨?_, ?_⟩
  · by_contra hge
    exact hfd (FdTable.get_of_ge (Nat.le_of_not_lt hge))
  · by_contra hge
    exact hfd (hT.get_limit (Nat.le_of_not_lt hge))

include hT hle in
/-- On open descriptors the masks are those of the range exactly when they reach it. -/
theorem covered_eq_within_iff :
    (∀ fd, T.get fd ≠ none → T.covered first last fd = within first last fd) ↔
      MasksReach T first last := by
  unfold FdTable.covered
  cases hr : T.range first last with
  | none =>
    have hnone : ∀ {fd : Nat}, first ≤ fd → T.get fd = none := FdTable.range_none hT.toLaid hle hr
    refine ⟨fun _ => .inr fun fd hopen hfd => ?_, fun _ fd hfd => ?_⟩
    · rw [hT.bits, hnone hfd] at hopen
      cases hopen
    · symm
      refine decide_eq_false fun hwithin => ?_
      exact hfd (hnone hwithin.1)
  | some r =>
    have hfits := FdTable.range_some hr
    have hcov := hfits.covers_iff
    have hlast := hfits.lastChunk_eq
    refine ⟨fun hexact => ?_, fun hreach fd hfd => ?_⟩
    · refine or_iff_not_imp_left.mpr fun hout fd hopen hfirst hchunk => ?_
      have hfd : T.get fd ≠ none := by
        rw [hT.bits] at hopen
        exact isSome_iff_ne_none.mp hopen
      obtain ⟨hin, hlimit⟩ := get_bounds hT hfd
      have hwithin : within first last fd = true := by
        refine decide_eq_true ⟨hfirst, ?_⟩
        unfold FD_LIMIT FD_CHUNK_SIZE at *
        omega
      refine ((hcov fd).mp ((hexact fd hfd).trans hwithin)).2.2 ?_
      omega
    · obtain ⟨hin, hlimit⟩ := get_bounds hT hfd
      have hbound : fd ≤ last ↔ fd ≤ min last (FD_LIMIT - 1) := by omega
      rw [Bool.eq_iff_iff, hcov fd, within, decide_eq_true_iff, hbound, hlast]
      have hopen : T.isOpen fd = true := by
        rw [hT.bits]
        exact isSome_iff_ne_none.mpr hfd
      rcases hreach with hwhole | hclear
      · generalize min last (FD_LIMIT - 1) = last' at *
        unfold FD_CHUNK_SIZE at *
        omega
      · have hclear := hclear fd hopen
        generalize min last (FD_LIMIT - 1) = last' at *
        unfold FD_CHUNK_SIZE at *
        omega

end Masks

/-! ## The operations and the range -/

variable {fam fam' : Family ω} {a fd t : Nat} {first flags last : BitVec 64} {T' : FdTable ω}

/-- A call refines the maps when its map and its result are those of the specification. -/
theorem refines_call_iff (ht : fam.tables[t]? = some (some a))
    {c : Call ω} {m : FdMap ω} (hc : fam.Changed t m (fam.run t a c).1) :
    fam.Refines (.call t c) ↔ m = (Spec.run (fam.seen a).get c).1 ∧
      (fam.run t a c).2 = (Spec.run (fam.seen a).get c).2 := by
  have hlt : t < fam.maps.length := by
    simpa [maps] using (List.getElem?_eq_some_iff.mp ht).1
  have hset : ∀ m₁ m₂ : FdMap ω, fam.maps.set t (some m₁) = fam.maps.set t (some m₂) ↔ m₁ = m₂ := by
    intro m₁ m₂
    refine ⟨fun h => ?_, fun h => by rw [h]⟩
    have ht := congrArg (·[t]?) h
    simpa [hlt] using ht
  unfold Family.Refines
  simp only [Family.exec, Spec.exec, Family.maps_join, Family.handle_eq_some.mpr ht,
    map_some, some.injEq, Prod.mk.injEq]
  rw [hc.maps ht, hset]

/-- Taking out the descriptors of two sets is the same when the sets agree on the mapped ones. -/
theorem without_eq_iff {m : FdMap ω} {P Q : Nat → Bool} :
    (without m P = without m Q ∧ entriesOf m P = entriesOf m Q) ↔
      ∀ fd, m fd ≠ none → P fd = Q fd := by
  constructor
  · rintro ⟨hmap, -⟩ fd hfd
    have h := congrFun hmap fd
    unfold without at h
    cases hP : P fd <;> cases hQ : Q fd <;> simp_all
  · intro h
    refine ⟨funext fun fd => ?_, ?_⟩
    · unfold without
      by_cases hfd : m fd = none
      · simp [hfd]
      · rw [h fd hfd]
    · unfold entriesOf
      refine List.filterMap_congr fun fd _ => ?_
      by_cases hfd : m fd = none
      · simp [hfd]
      · rw [h fd hfd]

theorem parseCloseRange_error {e : LinuxError}
    (h : parseCloseRange first last flags = .error e) : e = .EINVAL := by
  simp only [parseCloseRange] at h
  split at h
  · cases h
    rfl
  · cases h

theorem parseCloseRange_ok {r : Nat × Nat × BitVec 32}
    (h : parseCloseRange first last flags = .ok r) :
    r = ((first.setWidth 32).toNat, (last.setWidth 32).toNat, flags.setWidth 32) := by
  simp only [parseCloseRange] at h
  split at h
  · cases h
  · cases h
    rfl

/-- The table of the process sees the same before and after it is unshared. -/
theorem unshareFiles_spec (hfam : fam.Sound)
    (ht : fam.tables[t]? = some (some a)) {p : Family ω × Nat} (h : unshareFiles fam t = some p) :
    p.1.Sound ∧ p.1.tables[p.2]? = some (some a) ∧ p.1.seen a = fam.seen a := by
  obtain ⟨r, hr, rfl⟩ := map_eq_some_iff.mp h
  refine ⟨hfam.exec hr, ?_⟩
  simp only [Family.exec, Family.handle_eq_some.mpr ht, map_some, some.injEq] at hr
  subst hr
  exact ⟨by simp, rfl⟩

variable {first last : Nat}

theorem removeRange_closes (hfam : fam.Sound) (ht : fam.tables[t]? = some (some a)) {out : Out ω}
    (hexact : ∀ fd, (fam.seen a).get fd ≠ none →
      (fam.seen a).covered first last fd = within first last fd)
    (h : fam.exec (.call t (.removeRange first last)) = some (fam', out))
    (hT' : fam'.table t = some T') (hfirst : first ≤ fd) (hlast : fd ≤ last) :
    T'.get fd = none := by
  obtain ⟨hchanged, -⟩ := Family.removeRange_changed hfam ht first last
  simp only [Family.exec, Family.handle_eq_some.mpr ht, map_some, some.injEq,
    Prod.mk.injEq, Family.run] at h
  rw [h.1] at hchanged
  obtain ⟨a', htables, hget⟩ := hchanged.table
  have hlt : t < fam.tables.length := (List.getElem?_eq_some_iff.mp ht).1
  have hseen : T' = fam'.seen a' := by
    unfold table handle at hT'
    rw [htables] at hT'
    simp only [List.getElem?_set_self hlt, join_some, map_some, some.injEq] at hT'
    exact hT'.symm
  rw [hseen, hget]
  unfold without
  by_cases hnone : (fam.seen a).get fd = none
  · simp [hnone]
  · rw [hexact fd hnone]
    simp [within, hfirst, hlast]

theorem sysCloseRange_closes (hfam : fam.Sound) {t' : Nat}
    (ht : fam.tables[t]? = some (some a)) (hle : first ≤ last)
    (hlast : last < 2 ^ 32) (hexact : ∀ fd, (fam.seen a).get fd ≠ none →
      (fam.seen a).covered first last fd = within first last fd)
    (hflags : flags.setWidth 32 &&& CLOSE_RANGE_CLOEXEC = 0)
    (h : sysCloseRange fam t (BitVec.ofNat 64 first) (BitVec.ofNat 64 last) flags =
      some (fam', t', 0)) (hT' : fam'.table t' = some T')
    (hfirst : first ≤ fd) (hfd : fd ≤ last) : T'.get fd = none := by
  have htrunc : ∀ n < 2 ^ 32, ((BitVec.ofNat 64 n).setWidth 32).toNat = n := by
    intro n hn
    rw [BitVec.toNat_setWidth, BitVec.toNat_ofNat]
    omega
  unfold sysCloseRange at h
  split at h
  · rename_i e he
    rw [parseCloseRange_error he] at h
    simp [LinuxError.code] at h
  · rename_i first' last' flags' hp
    have hr := parseCloseRange_ok hp
    rw [htrunc first (by omega), htrunc last hlast] at hr
    cases hr
    simp only [hflags, ne_eq, not_true_eq_false, if_false] at h
    obtain ⟨p, hp, he⟩ := bind_eq_some_iff.mp h
    obtain ⟨r, hr, he⟩ := map_eq_some_iff.mp he
    obtain ⟨rfl, rfl, -⟩ := he
    -- with or without the copy, the range is removed from a table that sees the same
    have hunshared : p.1.Sound ∧ p.1.tables[p.2]? = some (some a) ∧ p.1.seen a = fam.seen a := by
      split at hp
      · exact unshareFiles_spec hfam ht hp
      · cases hp
        exact ⟨hfam, ht, rfl⟩
    obtain ⟨hsound, htable, hseen⟩ := hunshared
    exact removeRange_closes hsound htable (hseen.symm ▸ hexact) hr hT' hfirst hfd

/-- **The operations on a range are exact when, and only when, the masks reach.** -/
theorem rangeExact_iff {fam : Family ω} (h : fam.Reached) {t : Nat} {T : FdTable ω}
    (ht : fam.table t = some T) {first last : Nat} (hle : first ≤ last) :
    RangeExact fam t first last ↔ MasksReach T first last := by
  have hfam := sound h
  obtain ⟨a, ha, rfl⟩ := map_eq_some_iff.mp ht
  have ha := Family.handle_eq_some.mp ha
  have hT := hfam.seen a (held ha)
  obtain ⟨hremove, hremoved⟩ := Family.removeRange_changed hfam ha first last
  have hmark := setCloexecRange_changed hfam ha first last
  have hremoves : fam.Refines (.call t (.removeRange first last)) ↔ MasksReach (fam.seen a) first
      last := by
    rw [refines_call_iff ha hremove, ← covered_eq_within_iff hT hle, ← without_eq_iff]
    simp only [Family.run, Spec.run, hremoved, Out.entries.injEq]
  refine ⟨fun hexact => hremoves.mp hexact.removes, fun hreach => ?_⟩
  have hexact := (covered_eq_within_iff hT hle).mpr hreach
  refine ⟨hremoves.mpr hreach, ?_, fun flags fam' t' T' hlast hflags hsys hT' fd hfirst hfd => ?_⟩
  · rw [refines_call_iff ha hmark]
    refine ⟨funext fun fd => ?_, rfl⟩
    by_cases hnone : (fam.seen a).get fd = none
    · simp [Spec.run, hnone]
    · simp only [Spec.run]
      rw [hexact fd hnone]
  · exact sysCloseRange_closes hfam ha hle hlast hexact hflags hsys hT' hfirst hfd

/-- Descriptors 0 and 1, in one chunk. -/
def twoDescriptors : List (Op Nat) :=
  [.new, .call 0 (.insertAt 0 ⟨7, ⟨false, false, false⟩⟩),
    .call 0 (.insertAt 1 ⟨8, ⟨false, false, false⟩⟩)]

theorem range_of_one_chunk_exact :
    ∃ (fam : Family Nat) (T : FdTable Nat), fam.Reached ∧ fam.table 0 = some T ∧
      RangeExact fam 0 0 63 := by
  have hrun : (empty.execs twoDescriptors).any (fun fam =>
      (fam.table 0).any fun T => T.storage.chunks.length == 1) = true := by decide +kernel
  obtain ⟨fam, hfam, hcheck⟩ := (any_eq_true _ _).mp hrun
  obtain ⟨T, hT, hlen⟩ := (any_eq_true _ _).mp hcheck
  have hreached : fam.Reached := execs (Reachable.start rfl) hfam
  refine ⟨fam, T, hreached, hT, (rangeExact_iff hreached hT (by decide)).mpr (.inl ?_)⟩
  rw [eq_of_beq hlen]
  decide

/-- `close_range(0, 64)` leaves descriptor 1 open in a table of one chunk. -/
theorem close_range_misses_descriptor :
    ∃ fam : Family Nat, fam.Reached ∧ ¬RangeExact fam 0 0 64 := by
  have hrun : (empty.execs twoDescriptors).any (fun fam =>
      (sysCloseRange fam 0 0 64 0).any fun r => r.2 == (0, 0) &&
        (r.1.table 0).any fun T => (T.get 1).isSome) = true := by decide +kernel
  obtain ⟨fam, hfam, hcheck⟩ := (any_eq_true _ _).mp hrun
  obtain ⟨⟨fam', r⟩, hsys, hcheck⟩ := (any_eq_true _ _).mp hcheck
  rw [Bool.and_eq_true] at hcheck
  obtain ⟨hret, hcheck⟩ := hcheck
  obtain ⟨T, hT, hopen⟩ := (any_eq_true _ _).mp hcheck
  obtain rfl : r = (0, 0) := eq_of_beq hret
  refine ⟨fam, execs (Reachable.start rfl) hfam, fun hexact => ?_⟩
  have hnone := hexact.closes 0 fam' 0 T (by decide) (by decide) hsys hT 1 (by decide) (by decide)
  rw [hnone] at hopen
  cases hopen

end PulseOS.Fd
