import PulseOS.Ipc.Sem

/-!
# Semaphore operations as transactions

A round of `sys_semtimedop` either commits the operations or leaves every `semval`, `sempid` and
undo entry as it was.  What a commit means is said over the integers: `Satisfiable` runs the
operations in order, and `total i` is the sum of those addressed to semaphore `i`.

* `applyOps_spec` — after `check_ops` has passed, `apply_ops` neither panics nor underflows; the
  new values never exceed the exact ones, and they are the exact ones just when no addition
  reached past `65535`, where the code saturates.
* `semtimedop_transaction_iff` — the round is an exact transaction if and only if no addition of
  an accepted list of operations saturates.
* `wakeSection_keeps` — the section after a wait changes none of it.
-/

namespace PulseOS.Ipc

open Saturating Function List

/-! ## Operations over the integers -/

def value (sems : List Sem) (i : Nat) : Int :=
  ((sems[i]?).map fun sem => (sem.semval.toNat : Int)).getD 0

def step (v : Nat → Int) (op : SemBuf) : Nat → Int :=
  update v op.index (v op.index + op.amount)

/-- Every operation can be done when its turn comes. -/
def Satisfiable : (Nat → Int) → List SemBuf → Prop
  | _, [] => True
  | v, op :: ops =>
    (op.amount < 0 → 0 ≤ v op.index + op.amount) ∧ (op.amount = 0 → v op.index = 0) ∧
      Satisfiable (step v op) ops

/-- No increment takes a semaphore past `bound`. -/
def Fits (bound : Int) : (Nat → Int) → List SemBuf → Prop
  | _, [] => True
  | v, op :: ops =>
    (0 < op.amount → v op.index + op.amount ≤ bound) ∧ Fits bound (step v op) ops

/-- The sum of the operations addressed to semaphore `i`. -/
def total (i : Nat) (sops : List SemBuf) : Int :=
  (sops.map fun op => if op.index = i then op.amount else 0).sum

theorem total_cons (i : Nat) (op : SemBuf) (ops : List SemBuf) :
    total i (op :: ops) = (if op.index = i then op.amount else 0) + total i ops := by
  simp [total]

theorem step_apply (v : Nat → Int) (op : SemBuf) (i : Nat) :
    step v op i = v i + if op.index = i then op.amount else 0 := by
  by_cases h : op.index = i
  · subst h
    simp [step]
  · simp [step, h, update_of_ne (Ne.symm h)]

/-- No subtraction of `apply_ops` goes below zero. -/
def NoUnderflow (pid : Int32) : List Sem → List SemBuf → Prop
  | _, [] => True
  | sems, op :: ops =>
    ∀ sem, sems[op.index]? = some sem →
      sem.underflows op = false ∧ NoUnderflow pid (sems.set op.index (sem.apply pid op)) ops

/-! ## The two passes agree -/

variable {checks : Bool} {sems : List Sem} {op : SemBuf} {sem : Sem} {i : Nat} {α β : Type}
  {f : α → β}

theorem value_of_getElem? (h : sems[i]? = some sem) : value sems i = sem.semval.toNat := by
  simp [value, h]

theorem value_set (new : Sem) (h : sems[i]? = some sem) :
    value (sems.set i new) = update (value sems) i new.semval.toNat := by
  funext j
  have hi : i < sems.length := (List.getElem?_eq_some_iff.mp h).1
  by_cases hj : j = i
  · subst hj
    simp [value, hi]
  · rw [update_of_ne hj, value, value, List.getElem?_set_ne (Ne.symm hj)]

/-- What `check_ops` has seen of the first operation when it passes. -/
structure Passes (checks : Bool) (sem : Sem) (op : SemBuf) : Prop where
  noOverflow : negOverflows checks op.semOp = false
  noUnderflow : sem.underflows op = false
  zero : op.amount = 0 → sem.semval.toNat = 0

theorem passes_of_pos (h : 0 < op.amount) : Passes checks sem op := by
  have hne : op.semOp.toInt ≠ -32768 := by
    unfold SemBuf.amount at h
    omega
  refine ⟨by simp [negOverflows, hne], ?_, fun h0 => by omega⟩
  simp only [Sem.underflows, Bool.and_eq_false_iff, decide_eq_false_iff_not]
  omega

theorem passes_of_zero (h : op.amount = 0) (hval : sem.semval = 0) : Passes checks sem op := by
  have hne : op.semOp.toInt ≠ -32768 := by
    unfold SemBuf.amount at h
    omega
  exact ⟨by simp [negOverflows, hne], by simp [Sem.underflows, h], fun _ => by simp [hval]⟩

theorem checkOps_cons {ops : List SemBuf}
    (pid : Int32) (h : checkOps checks (sems.map (·.semval)) (op :: ops) = .pass) :
    ∃ sem, sems[op.index]? = some sem ∧ Passes checks sem op ∧
      checkOps checks ((sems.set op.index (sem.apply pid op)).map (·.semval)) ops = .pass := by
  rw [checkOps, List.getElem?_map] at h
  cases hs : sems[op.index]? with
  | none => simp [hs] at h
  | some sem =>
    have hnext : (sems.set op.index (sem.apply pid op)).map (·.semval) =
        (sems.map (·.semval)).set op.index (nextVal sem.semval op.semOp) := by
      rw [map_set]
      rfl
    rw [hs, Option.map_some] at h
    refine ⟨sem, rfl, ?_⟩
    rw [hnext]
    dsimp only at h
    split at h
    · rename_i hpos
      exact ⟨passes_of_pos hpos, h⟩
    · split at h
      · rename_i hzero
        split at h
        · cases h
        · rename_i hval
          refine ⟨passes_of_zero hzero (not_not.mp hval), ?_⟩
          -- a zero test leaves the temporary values alone
          have hsame : nextVal sem.semval op.semOp = sem.semval := by
            unfold SemBuf.amount at hzero
            simp [nextVal, hzero]
          obtain ⟨hi, rfl⟩ := List.getElem?_eq_some_iff.mp hs
          rw [hsame, ← map_set, set_getElem_self]
          exact h
      · rename_i hzero
        split at h
        · cases h
        · rename_i hover
          split at h
          · cases h
          · rename_i hunder
            refine ⟨⟨by simpa using hover, ?_, fun h0 => absurd h0 hzero⟩, h⟩
            simp only [Sem.underflows, Bool.and_eq_false_iff, decide_eq_false_iff_not]
            exact Or.inr hunder

/-- The value after an accepted operation is exact unless the addition saturates. -/
theorem nextVal_spec (h : Passes checks sem op) :
    ((nextVal sem.semval op.semOp).toNat : Int) = min (sem.semval.toNat + op.amount) 65535 := by
  have hbound := toNat_bound sem.semval
  unfold nextVal SemBuf.amount
  split
  · rename_i hpos
    have hcast := toNat_toUInt16_of_nonneg (a := op.semOp) (by omega)
    rw [toNat_addU16]
    omega
  · split
    · rename_i hneg
      have hcast := toNat_neg_toUInt16 hneg
      have hle : (-op.semOp).toUInt16 ≤ sem.semval := by
        have hunder := h.noUnderflow
        simp only [Sem.underflows, Bool.and_eq_false_iff, decide_eq_false_iff_not] at hunder
        exact UInt16.not_lt.mp (hunder.resolve_left (not_not.mpr hneg))
      have hnat := UInt16.le_iff_toNat_le.mp hle
      rw [UInt16.toNat_sub_of_le _ _ hle]
      omega
    · omega

section
variable (pid : Int32) (hs : sems[op.index]? = some sem) (h : Passes checks sem op)
include hs h

theorem value_apply : value (sems.set op.index (sem.apply pid op)) =
      update (value sems) op.index (min (value sems op.index + op.amount) 65535) := by
  rw [value_set _ hs, value_of_getElem? hs, ← nextVal_spec h]
  rfl

theorem value_apply_le (i : Nat) :
    value (sems.set op.index (sem.apply pid op)) i ≤ step (value sems) op i := by
  rw [value_apply pid hs h]
  unfold step
  by_cases hi : i = op.index
  · subst hi
    simp only [update_self]
    omega
  · simp only [update_of_ne hi]
    exact le_refl _

theorem value_apply_eq_iff : value (sems.set op.index (sem.apply pid op)) = step (value sems) op ↔
      (0 < op.amount → value sems op.index + op.amount ≤ 65535) := by
  have hbound := toNat_bound sem.semval
  have hval := value_of_getElem? hs
  rw [value_apply pid hs h]
  constructor
  · intro heq _
    have hi := congrFun heq op.index
    simp only [step, update_self] at hi
    omega
  · intro hfits
    have hmin : min (value sems op.index + op.amount) 65535 = value sems op.index + op.amount := by
      by_cases hpos : 0 < op.amount
      · have := hfits hpos
        omega
      · omega
    rw [hmin, step]

end

/-- What `apply_ops` does once `check_ops` has passed. -/
structure Applied (checks : Bool) (pid : Int32) (sems : List Sem) (sops : List SemBuf) : Prop where
  returns : (applyOps checks pid sems sops).2 = false
  noUnderflow : NoUnderflow pid sems sops
  atMost : ∀ i, value (applyOps checks pid sems sops).1 i ≤ value sems i + total i sops
  exact_iff : (∀ i, value (applyOps checks pid sems sops).1 i = value sems i + total i sops) ↔
    Fits 65535 (value sems) sops
  satisfiable : Fits 65535 (value sems) sops → Satisfiable (value sems) sops

variable {sops : List SemBuf}

theorem applyOps_spec (pid : Int32) (h : checkOps checks (sems.map (·.semval)) sops = .pass) :
    Applied checks pid sems sops := by
  induction sops generalizing sems with
  | nil =>
    exact ⟨rfl, trivial, by simp [applyOps, total], by simp [applyOps, total, Fits],
      fun _ => trivial⟩
  | cons op ops ih =>
    obtain ⟨sem, hs, hpass, hrest⟩ := checkOps_cons pid h
    have happly : applyOps checks pid sems (op :: ops) =
        applyOps checks pid (sems.set op.index (sem.apply pid op)) ops := by
      rw [applyOps, hs]
      simp [hpass.noOverflow, hpass.noUnderflow]
    have htail := ih hrest
    have hle := value_apply_le pid hs hpass
    have heq := value_apply_eq_iff pid hs hpass
    have htotal : ∀ i, value sems i + total i (op :: ops) =
        step (value sems) op i + total i ops := by
      intro i
      rw [total_cons, step_apply]
      ring
    refine ⟨by rw [happly]; exact htail.returns, ?_, fun i => ?_, ?_, fun hfits => ?_⟩
    · intro sem' hs'
      rw [hs] at hs'
      cases hs'
      exact ⟨hpass.noUnderflow, htail.noUnderflow⟩
    · have hstep := hle i
      have hrun := htail.atMost i
      rw [happly, htotal]
      omega
    · simp only [happly, htotal]
      constructor
      · -- a value once below the exact one stays below it
        intro hexact
        have hfirst : value (sems.set op.index (sem.apply pid op)) = step (value sems) op := by
          funext i
          have hstep := hle i
          have hrun := htail.atMost i
          have := hexact i
          omega
        refine ⟨heq.mp hfirst, ?_⟩
        rw [← hfirst]
        exact htail.exact_iff.mp fun i => by rw [hfirst]; exact hexact i
      · intro hfits i
        have hfirst := heq.mpr hfits.1
        rw [← hfirst]
        exact htail.exact_iff.mpr (by rw [hfirst]; exact hfits.2) i
    · have hfirst := heq.mpr hfits.1
      have hval := value_of_getElem? hs
      refine ⟨fun _ => ?_, fun h0 => ?_, ?_⟩
      · have hi := congrFun (value_apply pid hs hpass) op.index
        rw [value_set _ hs, update_self, update_self] at hi
        omega
      · rw [hval, hpass.zero h0]
        rfl
      · rw [← hfirst]
        exact htail.satisfiable (by rw [hfirst]; exact hfits.2)

/-! ## A round of `sys_semtimedop` -/

/-- The value of a semaphore and who changed it last. -/
def Sem.mark (sem : Sem) : UInt16 × Int32 := (sem.semval, sem.sempid)

def SemSetInner.marks (set : SemSetInner) : List (UInt16 × Int32) := set.sems.map Sem.mark

/-- A commit did exactly the operations; anything else changed nothing. -/
def Transaction (pid : Int32) (sops : List SemBuf) (set : SemSetInner)
    (undos : List SemUndoEntry) (o : Outcome) : Prop :=
  match o.result with
  | .committed =>
    Satisfiable (value set.sems) sops ∧
      (∀ i, value o.set.sems i = value set.sems i + total i sops) ∧ NoUnderflow pid set.sems sops
  | _ => o.set.marks = set.marks ∧ o.undos = undos

/-- No addition of an accepted list of operations saturates. -/
def Unsaturated (checks : Bool) (sops : List SemBuf) (set : SemSetInner) : Prop :=
  set.removed = false → checkOps checks set.values sops = .pass → Fits 65535 (value set.sems) sops

theorem map_set_of_eq {xs : List α} {x y : α}
    (hx : xs[i]? = some x) (hf : f y = f x) : (xs.set i y).map f = xs.map f := by
  obtain ⟨hi, rfl⟩ := List.getElem?_eq_some_iff.mp hx
  rw [map_set, hf, ← map_set, set_getElem_self]

theorem map_modify_of_eq {g : α → α} (hf : ∀ x, f (g x) = f x)
    (xs : List α) (i : Nat) : (xs.modify i g).map f = xs.map f := by
  refine ext_getElem? fun j => ?_
  rw [List.getElem?_map, List.getElem?_map, List.getElem?_modify]
  cases xs[j]? with
  | none => rfl
  | some x =>
    simp only [Option.map_eq_map, Option.map_some]
    split
    · rw [hf]
    · rfl

theorem countWaits_marks (checks : Bool) (sems : List Sem) (sops : List SemBuf) :
    (countWaits checks sems sops).1.map Sem.mark = sems.map Sem.mark := by
  induction sops generalizing sems with
  | nil => rfl
  | cons op ops ih =>
    unfold countWaits
    split
    · exact ih sems
    · rename_i sem hs
      split <;> split
      · rfl
      · rw [ih]
        exact map_set_of_eq hs rfl
      · rfl
      · rw [ih]
        exact map_set_of_eq hs rfl

theorem mark_uncount (op : SemBuf) (sem : Sem) : (Sem.uncount op sem).mark = sem.mark := by
  unfold Sem.uncount
  split <;> rfl

theorem uncountWaits_marks (sems : List Sem) (sops : List SemBuf) :
    (uncountWaits sems sops).map Sem.mark = sems.map Sem.mark := by
  unfold uncountWaits
  induction sops generalizing sems with
  | nil => rfl
  | cons op ops ih => rw [foldl_cons, ih, map_modify_of_eq (mark_uncount op)]

/-- An accepted operation addresses a semaphore of the set and its negation does not overflow. -/
theorem checkOps_mem (h : checkOps checks (sems.map (·.semval)) sops = .pass) (hop : op ∈ sops) :
    op.index < sems.length ∧ negOverflows checks op.semOp = false := by
  induction sops generalizing sems with
  | nil => cases hop
  | cons op' ops ih =>
    -- the process identifier plays no part in the check
    obtain ⟨sem, hs, hpass, hrest⟩ := checkOps_cons 0 h
    cases hop with
    | head => exact ⟨(List.getElem?_eq_some_iff.mp hs).1, hpass.noOverflow⟩
    | tail _ hop =>
      have hmem := ih hrest hop
      rwa [length_set] at hmem

theorem recordUndos_returns (semid : Int32)
    (undos : List SemUndoEntry) (h : ∀ op ∈ sops, negOverflows checks op.semOp = false) :
    (recordUndos checks semid undos sops).2 = false := by
  induction sops generalizing undos with
  | nil => rfl
  | cons op ops ih =>
    have htail : ∀ op ∈ ops, negOverflows checks op.semOp = false :=
      fun o ho => h o (mem_cons_of_mem _ ho)
    unfold recordUndos
    split
    · split
      · exact ih _ htail
      · rw [h op mem_cons_self]
        exact ih _ htail
    · exact ih _ htail

section

variable (checks : Bool) (semid pid : Int32) (sops : List SemBuf) (set : SemSetInner)
  (undos : List SemUndoEntry)

/-- How a round ends: it commits what `check_ops` accepted, or it leaves the values alone. -/
inductive Round : Outcome → Prop
  | commits : set.removed = false → checkOps checks set.values sops = .pass →
      Round ⟨.committed, set.applied checks pid sops, (recordUndos checks semid undos sops).1⟩
  | keeps {o : Outcome} : (set.removed = false → checkOps checks set.values sops ≠ .pass) →
      o.result ≠ .committed → (o.result = .waits → set.removed = false) →
      o.set.marks = set.marks → o.set.removed = set.removed → o.undos = undos →
      Round o

end

theorem semopSection_spec (checks : Bool) (semid pid : Int32) (expired : Bool)
    (sops : List SemBuf) (set : SemSetInner) (undos : List SemUndoEntry) :
    Round checks semid pid sops set undos
      (semopSection checks semid pid expired sops set undos) := by
  unfold semopSection
  cases hlive : set.removed with
  | true => exact .keeps (by simp [hlive]) (by simp) (by simp) rfl rfl rfl
  | false =>
    rw [if_neg Bool.false_ne_true]
    cases hcheck : checkOps checks set.values sops with
    | pass =>
      have hrange : (sops.any fun op => decide (set.nsems ≤ op.index)) = false := by
        rw [any_eq_false]
        intro op hop
        have hlt := (checkOps_mem hcheck hop).1
        rw [set.size] at hlt
        simpa using hlt
      have happly := (applyOps_spec pid hcheck).returns
      have hrecord := recordUndos_returns semid undos fun op hop => (checkOps_mem hcheck hop).2
      simp only [hrange, happly, hrecord, Bool.false_eq_true, if_false]
      exact .commits hlive hcheck
    | fail =>
      have hnot : set.removed = false → checkOps checks set.values sops ≠ .pass := by simp [hcheck]
      split
      · exact .keeps hnot (by simp) (by simp) rfl rfl rfl
      · dsimp only
        split
        · exact .keeps hnot (by simp) (by simp) rfl rfl rfl
        · split
          · exact .keeps hnot (by simp) (by simp) rfl rfl rfl
          · refine .keeps hnot ?_ (fun _ => hlive) (countWaits_marks checks set.sems sops) rfl rfl
            split <;> simp
    | panic =>
      have hnot : set.removed = false → checkOps checks set.values sops ≠ .pass := by simp [hcheck]
      split
      · exact .keeps hnot (by simp) (by simp) rfl rfl rfl
      · exact .keeps hnot (by simp) (by simp) rfl rfl rfl

theorem wakeSection_keeps (sops : List SemBuf) (set : SemSetInner) (signal timedOut : Bool) :
    (wakeSection sops set signal timedOut).2.marks = set.marks :=
  uncountWaits_marks set.sems sops

/-- **A round of `sys_semtimedop` is an exact transaction just when no accepted addition
saturates**; the section after the wait is always neutral. -/
theorem semtimedop_transaction_iff (checks : Bool) (semid pid : Int32) (expired : Bool)
    (sops : List SemBuf) (set woken : SemSetInner) (undos : List SemUndoEntry) :
    (Transaction pid sops set undos (semopSection checks semid pid expired sops set undos) ∧
        ∀ signal timedOut, (wakeSection sops woken signal timedOut).2.marks = woken.marks) ↔
      Unsaturated checks sops set := by
  rw [and_iff_left (wakeSection_keeps sops woken)]
  have hround := semopSection_spec checks semid pid expired sops set undos
  generalize semopSection checks semid pid expired sops set undos = o at hround ⊢
  cases hround with
  | commits hlive hpass =>
    have hspec := applyOps_spec pid hpass
    constructor
    · rintro ⟨-, hexact, -⟩ _ _
      exact hspec.exact_iff.mp hexact
    · intro hfits
      have hfits := hfits hlive hpass
      exact ⟨hspec.satisfiable hfits, hspec.exact_iff.mpr hfits, hspec.noUnderflow⟩
  | keeps hnot hresult _ hmarks _ hundos =>
    constructor
    · intro _ hlive hpass
      exact absurd hpass (hnot hlive)
    · intro _
      unfold Transaction
      split
      · rename_i hcommitted
        exact absurd hcommitted hresult
      · exact ⟨hmarks, hundos⟩

def fullSet : SemSetInner := ⟨1, [⟨65535, 0, 0, 0⟩], false, rfl⟩

/-- An increment of a full semaphore is committed and changes nothing. -/
theorem semopSection_saturates :
    (semopSection false 1 7 false [⟨0, 1, 0⟩] fullSet []).result = .committed ∧
      value (semopSection false 1 7 false [⟨0, 1, 0⟩] fullSet []).set.sems 0 = 65535 ∧
      ¬ Transaction 7 [⟨0, 1, 0⟩] fullSet []
        (semopSection false 1 7 false [⟨0, 1, 0⟩] fullSet []) := by
  refine ⟨by decide +kernel, by decide +kernel, fun h => ?_⟩
  have hexact := h.2.1 0
  revert hexact
  decide +kernel

end PulseOS.Ipc
