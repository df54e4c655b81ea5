import PulseOS.Fd.Family

/-!
# Descriptor tables refine finite maps

Every call on a table of a family has the effect and the result that `Spec.run` gives it, and leaves
the maps of all other tables alone.  `removeRange_changed` and `setCloexecRange_changed` say the
same of the range operations, with the descriptors that they do act on in place of those of the
range.

* `reached_refines` — the tables of such a family are maps below the limit whose bitmap and
  counter are exact, and every operation other than those on ranges refines the maps.
-/

namespace PulseOS.Fd.Family

open Arc Transition Function List FdTable Spec FdTableStorage Option Family

variable {ω : Type}

/-! ## Calls -/

section Calls

variable {fam : Family ω} (hfam : fam.Sound) {t a : Nat} (ht : fam.tables[t]? = some (some a))

include ht in
theorem held : a ∈ fam.holders := mem_holders.mpr (.inl ⟨t, ht⟩)

include hfam ht in
theorem insertAt_changed {fd : Nat} (hfd : fd < FD_LIMIT) (entry : FdEntry ω) :
    Changed fam t (update (fam.seen a).get fd (some entry)) (fam.insertAt t a fd entry).1 ∧
      (fam.insertAt t a fd entry).2 = .ok () := by
  refine mutate_spec hfam ht (fun r h => ?_) fun _ _ others => ?_
  · simp only [insertAtEarly, if_neg (Nat.not_le.mpr hfd)] at h
    cases h
  · obtain ⟨T, hrun, hsound, hframe, hget⟩ :=
      insertAt_spec others (hfam.seen a (held ht)) hfd entry
    refine ⟨T, hrun, hsound, hframe, funext fun fd' => ?_⟩
    rw [hget, update_apply]

include hfam ht in
theorem insertAt_limit {fd : Nat} (hfd : FD_LIMIT ≤ fd) (entry : FdEntry ω) :
    Changed fam t (fam.seen a).get (fam.insertAt t a fd entry).1 ∧
      (fam.insertAt t a fd entry).2 = .error .EBADF := by
  refine mutate_spec hfam ht (fun r h => ?_) fun k h => ?_
  · simp only [insertAtEarly, if_pos hfd] at h
    cases h
    exact ⟨rfl, rfl⟩
  · simp only [insertAtEarly, if_pos hfd] at h
    cases h

variable {m : FdMap ω} {P : Nat → Bool}

theorem leastFree_some {minFd fd : Nat} (h : FdTable.LeastFree m minFd fd) :
    leastFree m minFd = some fd := by
  have hfrom := h.from_min
  have hlimit := h.below_limit
  unfold leastFree
  rw [find?_range'_eq_some]
  refine ⟨by simp [h.free], ?_, fun fd' hmin hlt => ?_⟩
  · rw [mem_range'_1]
    omega
  · have := h.least fd' hmin hlt
    cases hm : m fd' with
    | none =>
      rw [hm] at this
      cases this
    | some _ => rfl

theorem leastFree_none {minFd : Nat} (h : ∀ fd, minFd ≤ fd → fd < FD_LIMIT → (m fd).isSome = true) :
    leastFree m minFd = none := by
  unfold leastFree
  rw [find?_eq_none]
  intro fd hfd
  rw [mem_range'_1] at hfd
  have := h fd hfd.1 (by omega)
  cases hm : m fd with
  | none =>
    rw [hm] at this
    cases this
  | some _ => simp

include hfam ht in
theorem insertFrom_changed (minFd : Nat) (entry : FdEntry ω) :
    Changed fam t (Spec.insertFrom (fam.seen a).get minFd entry).1
        (fam.insertFrom t a minFd entry).1 ∧
      Out.fd (fam.insertFrom t a minFd entry).2 =
        (Spec.insertFrom (fam.seen a).get minFd entry).2 := by
  have hT := hfam.seen a (held ht)
  cases hnext : (fam.seen a).nextAvailableFd minFd with
  | ok fd =>
    have hleast := hT.nextAvailableFd_ok hnext
    have hfd := hleast.below_limit
    unfold Spec.insertFrom
    rw [leastFree_some hleast]
    have h : Changed fam t (update (fam.seen a).get fd (some entry))
        (fam.insertFrom t a minFd entry).1 ∧ (fam.insertFrom t a minFd entry).2 = .ok fd := by
      refine mutate_spec hfam ht (fun r h => ?_) fun k h others => ?_
      · simp only [hnext, insertAtEarly, if_neg (Nat.not_le.mpr hfd)] at h
        cases h
      · simp only [hnext, insertAtEarly, if_neg (Nat.not_le.mpr hfd)] at h
        cases h
        obtain ⟨T, hrun, hsound, hframe, hget⟩ := insertAt_spec others hT hfd entry
        refine ⟨T, by rw [hrun]; rfl, hsound, hframe, funext fun fd' => ?_⟩
        rw [hget, update_apply]
    exact ⟨h.1, by rw [h.2]⟩
  | error e =>
    obtain ⟨rfl, hfull⟩ := hT.nextAvailableFd_error hnext
    unfold Spec.insertFrom
    rw [leastFree_none hfull]
    have h : Changed fam t (fam.seen a).get (fam.insertFrom t a minFd entry).1 ∧
        (fam.insertFrom t a minFd entry).2 = .error .EMFILE := by
      refine mutate_spec hfam ht (fun r h => ?_) fun k h => ?_
      · simp only [hnext] at h
        cases h
        exact ⟨rfl, rfl⟩
      · simp only [hnext] at h
        cases h
    exact ⟨h.1, by rw [h.2]⟩

include hfam ht in
theorem remove_changed (fd : Nat) :
    Changed fam t (update (fam.seen a).get fd none) (fam.remove t a fd).1 ∧
      (fam.remove t a fd).2 = (fam.seen a).get fd := by
  refine mutate_spec hfam ht (fun r h => ?_) fun k h others => ?_
  · simp only [removeEarly] at h
    split at h
    · rename_i hnone
      cases h
      have hnone : (fam.seen a).get fd = none := by simpa using hnone
      exact ⟨hnone.symm, (update_eq_self_iff.mpr hnone.symm).symm⟩
    · cases h
  · simp only [removeEarly] at h
    split at h
    · cases h
    · rename_i hsome
      have hsome : (fam.seen a).get fd ≠ none := by simpa using hsome
      obtain ⟨T, hrun, hsound, hframe, hget⟩ := remove_spec others (hfam.seen a (held ht)) hsome
      refine ⟨T, hrun, hsound, hframe, funext fun fd' => ?_⟩
      rw [hget, update_apply]

include hfam ht in
theorem getMut_changed (fd : Nat) (f : FdEntry ω → FdEntry ω) :
    Changed fam t (update (fam.seen a).get fd (((fam.seen a).get fd).map f))
        (fam.getMut t a fd f).1 ∧
      (fam.getMut t a fd f).2 = (fam.seen a).get fd := by
  refine mutate_spec hfam ht (fun r h => ?_) fun k h others => ?_
  · simp only [getMutEarly] at h
    split at h
    · rename_i hnone
      cases h
      have hnone : (fam.seen a).get fd = none := by simpa using hnone
      refine ⟨hnone.symm, (update_eq_self_iff.mpr ?_).symm⟩
      rw [hnone]
      rfl
    · cases h
  · simp only [getMutEarly] at h
    split at h
    · cases h
    · rename_i hsome
      have hsome : (fam.seen a).get fd ≠ none := by simpa using hsome
      obtain ⟨T, hrun, hsound, hframe, hget⟩ := getMut_spec others (hfam.seen a (held ht)) hsome f
      refine ⟨T, hrun, hsound, hframe, funext fun fd' => ?_⟩
      rw [hget, update_apply]

theorem without_eq_self (h : ∀ fd, P fd = true → m fd = none) :
    without m P = m ∧ entriesOf m P = [] := by
  refine ⟨funext fun fd => ?_, ?_⟩
  · unfold without
    split
    · rename_i hP
      exact (h fd hP).symm
    · rfl
  · unfold entriesOf
    rw [filterMap_eq_nil_iff]
    intro fd _
    split
    · rename_i hP
      exact h fd hP
    · rfl

theorem removed_eq {others : Nat → Nat} {T : FdTable ω}
    {st : FdTable ω × List (FdEntry ω)} (h : FdTable.Removed others T P st) :
    st = (st.1, entriesOf T.get P) := by
  unfold entriesOf
  rw [← h.removed]

include hfam ht in
theorem takeCloexecOnExec_changed :
    Changed fam t (without (fam.seen a).get (fam.seen a).closesOnExec)
        (fam.takeCloexecOnExec t a).1 ∧
      (fam.takeCloexecOnExec t a).2 = entriesOf (fam.seen a).get (fam.seen a).closesOnExec := by
  refine mutate_spec hfam ht (fun r h => ?_) fun k h others => ?_
  · obtain ⟨rfl, hnone⟩ := takeCloexecEarly_error h
    obtain ⟨hmap, hentries⟩ := without_eq_self (m := (fam.seen a).get)
      (P := (fam.seen a).closesOnExec) fun fd hfd => by rw [hnone fd] at hfd; cases hfd
    exact ⟨hentries.symm, hmap.symm⟩
  · have hremoved := takeCloexecOnExec_spec others (hfam.seen a (held ht))
    exact ⟨_, removed_eq hremoved, hremoved.sound, hremoved.frame, funext hremoved.get⟩

include hfam ht in
theorem removeRange_changed (first last : Nat) :
    Changed fam t (without (fam.seen a).get ((fam.seen a).covered first last))
        (fam.removeRange t a first last).1 ∧
      (fam.removeRange t a first last).2 =
        entriesOf (fam.seen a).get ((fam.seen a).covered first last) := by
  have hT := hfam.seen a (held ht)
  refine mutate_spec hfam ht (fun r h => ?_) fun r h others => ?_
  · obtain ⟨rfl, hnone⟩ := removeRangeEarly_error hT h
    obtain ⟨hmap, hentries⟩ := without_eq_self hnone
    exact ⟨hentries.symm, hmap.symm⟩
  · have hr := removeRangeEarly_ok h
    have hremoved := removeRange_spec others hT (range_some hr)
    rw [covered_of_range hr]
    exact ⟨_, removed_eq hremoved, hremoved.sound, hremoved.frame, funext hremoved.get⟩

include hfam ht in
theorem setCloexecRange_changed (first last : Nat) :
    Changed fam t (fun fd => if (fam.seen a).covered first last fd then
        ((fam.seen a).get fd).map FdEntry.setCloexec else (fam.seen a).get fd)
      (fam.setCloexecRange t a first last).1 := by
  have hT := hfam.seen a (held ht)
  refine (mutate_spec (r := ()) hfam ht (fun r h => ?_) fun r h others => ?_).1
  · refine ⟨rfl, funext fun fd => ?_⟩
    split
    · rename_i hcov
      exact (setCloexecRangeEarly_error hT h hcov).symm
    · rfl
  · have hr := setCloexecRangeEarly_ok h
    obtain ⟨hsound, hframe, hget⟩ := setCloexecRange_spec others hT (range_some hr)
    rw [covered_of_range hr]
    exact ⟨_, rfl, hsound, hframe, funext hget⟩

theorem sound_default (cells : Heap (FdChunk ω)) : FdTable.Sound ⟨default, cells⟩ ∧
      get ⟨default, cells⟩ = FdMap.empty := by
  have hget : get ⟨default, cells⟩ = FdMap.empty :=
    funext fun fd => get_of_ge (Nat.zero_le _)
  refine ⟨⟨⟨rfl, Nat.zero_le _, nofun⟩, fun fd => ?_, ?_⟩, hget⟩
  · rw [hget]
    exact isOpen_of_ge (Nat.zero_le _)
  · show 0 = mapped _
    symm
    unfold mapped
    rw [hget, countP_eq_zero]
    intro fd _
    exact Bool.false_ne_true

theorem seen_alloc {fam : Family ω} (hfam : fam.Sound) {b : Nat} (hb : b ∈ fam.holders)
    (s : FdTableStorage) : (fam.storages.alloc s).1.mem b = fam.storages.mem b :=
  fam.storages.alloc_mem_of_lt _ (hfam.allocated b hb)

include hfam ht in
theorem drainAll_changed : Changed fam t .empty (fam.drainAll t a) := by
  obtain ⟨hdefault, hempty⟩ := sound_default fam.chunks
  have hbeside : ∀ b, b ∈ (fam.drainAll t a).holders → b = fam.storages.next ∨ b ∈ fam.holders := by
    intro b hb
    rcases mem_holders.mp hb with ⟨t', ht'⟩ | hd
    · simp only [drainAll, getElem?_set] at ht'
      split at ht'
      · split at ht'
        · cases ht'
          exact .inl rfl
        · cases ht'
      · exact .inr (mem_holders.mpr (.inl ⟨t', ht'⟩))
    · rcases mem_cons.mp hd with rfl | hd
      · exact .inr (held ht)
      · exact .inr (mem_holders.mpr (.inr hd))
  refine ⟨⟨fun b hb => ?_, fun b hb => ?_⟩, ⟨fam.storages.next, rfl, ?_⟩, fun b hb => ?_⟩
  · rcases hbeside b hb with rfl | hb
    · exact Nat.lt_succ_self _
    · exact (hfam.allocated b hb).trans (Nat.lt_succ_self _)
  · rcases hbeside b hb with rfl | hb
    · simpa [drainAll, seen] using hdefault
    · simp only [drainAll, seen, seen_alloc hfam hb]
      exact hfam.seen b hb
  · simpa [drainAll, seen] using hempty
  · simp only [drainAll, seen, seen_alloc hfam hb.mem]

include hfam ht in
/-- **A call has the effect and the result that it has on the map of its table.** -/
theorem run_changed (c : Call ω) (hc : c.onRange = false) :
    Changed fam t (Spec.run (fam.seen a).get c).1 (fam.run t a c).1 ∧
      (fam.run t a c).2 = (Spec.run (fam.seen a).get c).2 := by
  cases c with
  | insertAt fd entry =>
    simp only [run, Spec.run]
    split
    · rename_i hfd
      obtain ⟨hchanged, hr⟩ := insertAt_changed hfam ht hfd entry
      exact ⟨hchanged, congrArg Out.result hr⟩
    · rename_i hfd
      obtain ⟨hchanged, hr⟩ := insertAt_limit hfam ht (Nat.le_of_not_lt hfd) entry
      exact ⟨hchanged, congrArg Out.result hr⟩
  | insertFrom minFd entry => exact insertFrom_changed hfam ht minFd entry
  | insertNext entry => exact insertFrom_changed hfam ht 0 entry
  | remove fd =>
    obtain ⟨hchanged, hr⟩ := remove_changed hfam ht fd
    exact ⟨hchanged, congrArg Out.entry hr⟩
  | getMut fd f =>
    obtain ⟨hchanged, hr⟩ := getMut_changed hfam ht fd f
    exact ⟨hchanged, congrArg Out.entry hr⟩
  | takeCloexecOnExec =>
    obtain ⟨hchanged, hr⟩ := takeCloexecOnExec_changed hfam ht
    exact ⟨hchanged, congrArg Out.entries hr⟩
  | drainAll => exact ⟨drainAll_changed hfam ht, rfl⟩
  | removeRange first last | setCloexecRange first last => cases hc

include hfam ht in
/-- A call on a range too changes one table. -/
theorem run_changed_some (c : Call ω) : ∃ m, Changed fam t m (fam.run t a c).1 := by
  cases hc : c.onRange with
  | false => exact ⟨_, (run_changed hfam ht c hc).1⟩
  | true =>
    cases c with
    | removeRange first last => exact ⟨_, (removeRange_changed hfam ht first last).1⟩
    | setCloexecRange first last => exact ⟨_, setCloexecRange_changed hfam ht first last⟩
    | _ => cases hc

end Calls

/-! ## Runs -/

theorem sound_empty : (empty : Family ω).Sound :=
  ⟨fun _ ha => (not_mem_nil ha).elim, fun _ ha => (not_mem_nil ha).elim⟩

variable {fam : Family ω}

theorem Sound.of_holders (hfam : fam.Sound) {tables : List (Option Nat)} {drained : List Nat}
    (h : ∀ b, b ∈ holders { fam with tables, drained } → b ∈ fam.holders) :
    Sound { fam with tables, drained } :=
  ⟨fun b hb => hfam.allocated b (h b hb), fun b hb => hfam.seen b (h b hb)⟩

theorem Sound.new (hfam : fam.Sound) : Family.Sound { fam with
      storages := (fam.storages.alloc .default).1
      tables := fam.tables ++ [some fam.storages.next] } := by
  obtain ⟨hdefault, -⟩ := sound_default fam.chunks
  have hholders : ∀ b, b ∈ Family.holders { fam with
      storages := (fam.storages.alloc .default).1
      tables := fam.tables ++ [some fam.storages.next] } →
      b = fam.storages.next ∨ b ∈ fam.holders := by
    intro b hb
    simp only [holders, reduceOption_append, mem_append] at hb ⊢
    rcases hb with (hb | hb) | hb
    · exact .inr (.inl hb)
    · simp only [reduceOption_singleton, toList_some, mem_singleton] at hb
      exact .inl hb
    · exact .inr (.inr hb)
  refine ⟨fun b hb => ?_, fun b hb => ?_⟩
  · rcases hholders b hb with rfl | hb
    · exact Nat.lt_succ_self _
    · exact (hfam.allocated b hb).trans (Nat.lt_succ_self _)
  · rcases hholders b hb with rfl | hb
    · simpa [Family.seen] using hdefault
    · simp only [Family.seen, seen_alloc hfam hb]
      exact hfam.seen b hb

variable {fam fam' : Family ω}

theorem Sound.exec (hfam : fam.Sound) {op : Op ω} {out : Out ω}
    (h : fam.exec op = some (fam', out)) : fam'.Sound := by
  cases op with
  | new =>
    cases h
    exact hfam.new
  | cloneForFork t =>
    obtain ⟨a, ht, he⟩ := map_eq_some_iff.mp h
    cases he
    refine hfam.of_holders fun b hb => ?_
    simp only [holders, reduceOption_append, mem_append] at hb ⊢
    rcases hb with (hb | hb) | hb
    · exact .inl hb
    · simp only [reduceOption_singleton, toList_some, mem_singleton] at hb
      subst hb
      exact mem_append.mp (held (handle_eq_some.mp ht))
    · exact .inr hb
  | drop t =>
    obtain ⟨a, -, he⟩ := map_eq_some_iff.mp h
    cases he
    refine hfam.of_holders fun b hb => ?_
    rcases mem_holders.mp hb with ⟨t', ht'⟩ | hd
    · simp only [getElem?_set] at ht'
      split at ht'
      · split at ht' <;> cases ht'
      · exact mem_holders.mpr (.inl ⟨t', ht'⟩)
    · exact mem_holders.mpr (.inr hd)
  | dropDrained i =>
    cases h
    refine hfam.of_holders fun b hb => ?_
    rcases mem_holders.mp hb with ht | hd
    · exact mem_holders.mpr (.inl ht)
    · exact mem_holders.mpr (.inr (mem_of_mem_eraseIdx hd))
  | call t c =>
    obtain ⟨a, ht, he⟩ := map_eq_some_iff.mp h
    obtain ⟨m, hchanged⟩ := run_changed_some hfam (handle_eq_some.mp ht) c
    rw [he] at hchanged
    exact hchanged.sound

/-- **Every family that operations lead to is sound.** -/
theorem Reached.sound (h : Reached fam) : fam.Sound :=
  Reachable.invariant h (fun _ he => he ▸ sound_empty) fun _ _ _ hs ⟨_, he⟩ => hs.exec he

theorem maps_join (fam : Family ω) (t : Nat) :
    fam.maps[t]?.join = (fam.handle t).map fun a => (fam.seen a).get := by
  unfold maps handle
  rw [getElem?_map]
  cases fam.tables[t]? with
  | none | some slot => rfl

theorem maps_new (hfam : fam.Sound) : maps { fam with
      storages := (fam.storages.alloc .default).1
      tables := fam.tables ++ [some fam.storages.next] } = fam.maps ++ [some .empty] := by
  obtain ⟨-, hempty⟩ := sound_default fam.chunks
  unfold maps
  rw [map_append]
  congr 1
  · refine map_congr_left fun slot hslot => ?_
    cases slot with
    | none => rfl
    | some b =>
      have hb : b ∈ fam.holders := mem_holders.mpr (.inl (mem_iff_getElem?.mp hslot))
      simp only [Option.map_some, seen, seen_alloc hfam hb]
  · simp only [map_cons, map_nil, Option.map_some, seen, Heap.alloc_mem_self, hempty]

/-- **Operations on one descriptor, on all, and on the family refine the maps.** -/
theorem exec_refines (hfam : fam.Sound) (op : Op ω) (hop : op.onRange = false) :
    fam.Refines op := by
  unfold Refines
  cases op with
  | new =>
    simp only [exec, Spec.exec, Option.map_some, Option.some.injEq, Prod.mk.injEq]
    exact ⟨maps_new hfam, by simp [maps]⟩
  | cloneForFork t =>
    simp only [exec, Spec.exec, maps_join]
    cases ht : fam.handle t with
    | none => rfl
    | some a => simp [maps, seen]
  | drop t =>
    simp only [exec, Spec.exec, maps_join]
    cases ht : fam.handle t with
    | none => rfl
    | some a => simp [maps, seen, map_set]
  | dropDrained i => rfl
  | call t c =>
    simp only [exec, Spec.exec, maps_join]
    cases ht : fam.handle t with
    | none => rfl
    | some a =>
      have ht := handle_eq_some.mp ht
      obtain ⟨hchanged, hout⟩ := run_changed hfam ht c hop
      simp only [Option.map_some]
      rw [hchanged.maps ht, hout]

theorem Changed.maps_of_ne {t a : Nat}
    (ht : fam.tables[t]? = some (some a)) {m : FdMap ω} (h : Changed fam t m fam') {t' : Nat}
    (hne : t ≠ t') : fam'.maps[t']? = fam.maps[t']? := by
  rw [h.maps ht, getElem?_set_ne hne]

/-- **An operation changes the map of no other table.** -/
theorem exec_isolated (hfam : fam.Sound) {op : Op ω} {out : Out ω}
    (h : fam.exec op = some (fam', out)) {t : Nat} (ht : t < fam.tables.length)
    (hne : op.target ≠ some t) : fam'.maps[t]? = fam.maps[t]? := by
  have hlen : t < fam.maps.length := by simpa [maps] using ht
  cases op with
  | call u c =>
    obtain ⟨a, hu, he⟩ := map_eq_some_iff.mp h
    have hu := handle_eq_some.mp hu
    obtain ⟨m, hchanged⟩ := run_changed_some hfam hu c
    rw [he] at hchanged
    exact hchanged.maps_of_ne hu fun hut => hne (congrArg some hut)
  | new =>
    cases h
    exact (congrArg (·[t]?) (maps_new hfam)).trans (getElem?_append_left hlen)
  | cloneForFork u =>
    obtain ⟨a, -, he⟩ := map_eq_some_iff.mp h
    cases he
    simp only [maps, map_append]
    exact getElem?_append_left hlen
  | drop u =>
    obtain ⟨a, -, he⟩ := map_eq_some_iff.mp h
    cases he
    simp only [maps, map_set]
    exact getElem?_set_ne fun hut => hne (congrArg some hut)
  | dropDrained i =>
    cases h
    rfl

/-- **Descriptor tables are finite maps with least-free allocation, and forks are isolated.** -/
theorem reached_refines {fam : Family ω} (h : Reached fam) : (∀ t T, fam.table t = some T →
      (∀ fd, FD_LIMIT ≤ fd → T.get fd = none) ∧
      (∀ fd, T.isOpen fd = (T.get fd).isSome) ∧
      T.len = (range FD_LIMIT).countP fun fd => (T.get fd).isSome) ∧
    (∀ op, op.onRange = false → fam.Refines op) ∧
    ∀ op fam' out, fam.exec op = some (fam', out) →
      ∀ t < fam.tables.length, op.target ≠ some t → fam'.maps[t]? = fam.maps[t]? := by
  have hfam := h.sound
  refine ⟨fun t T ht => ?_, exec_refines hfam, fun op fam' out he t => exec_isolated hfam he⟩
  obtain ⟨a, ha, rfl⟩ := map_eq_some_iff.mp ht
  have hT := hfam.seen a (held (handle_eq_some.mp ha))
  exact ⟨fun fd => hT.get_limit, hT.bits, hT.counted⟩

/-- A descriptor removed after a fork stays open in the other table. -/
theorem forked_table_refines : ∃ fam : Family Nat, Reached fam ∧
      (fam.table 0).any (fun T => (T.get 0).isSome) = true ∧
      (fam.table 1).any (fun T => (T.get 0).isNone) = true ∧
      fam.Refines (.call 1 (.insertNext ⟨9, ⟨true, false, false⟩⟩)) := by
  have hrun : (empty.execs [.new, .call 0 (.insertNext ⟨7, ⟨false, false, false⟩⟩),
      .cloneForFork 0, .call 1 (.remove 0)]).any (fun fam : Family Nat =>
        (fam.table 0).any (fun T => (T.get 0).isSome) &&
          (fam.table 1).any fun T => (T.get 0).isNone) = true := by decide +kernel
  obtain ⟨fam, hfam, hget⟩ := (any_eq_true _ _).mp hrun
  have hreached : Reached fam := Reached.execs (Reachable.start rfl) hfam
  rw [Bool.and_eq_true] at hget
  exact ⟨fam, hreached, hget.1, hget.2, (reached_refines hreached).2.1 _ rfl⟩

end PulseOS.Fd.Family
