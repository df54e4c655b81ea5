import PulseOS.Ipc.SemTransaction
import PulseOS.Lib.Transition

/-!
# `SEM_UNDO`

Processes create sets, run `semop` and `semctl` on them and exit; an exit applies the undo entries
of the process.  `owed` reads the history: the sum of the operations a process applied to a
semaphore under `SEM_UNDO` since it started.

* `Tame` — the steps on which the 16-bit arithmetic is exact: operations end at no more than
  `32767`, the amounts recorded fit `i16`, an exit leaves no semaphore below zero, and no
  identifier is given out again while an entry names it.
* `run_undo_restores` — in a run of such steps every exit restores what the process did, and no
  semaphore passes `32767` unless a caller set it there.
* `exit_wraps` — without them an exit takes a semaphore from `0` to `65535`.
-/

namespace PulseOS.Ipc

open Saturating Transition Function List SemUndoEntry Option SemSetInner

/-! ## Processes and sets -/

structure State where
  sets : Sets
  undos : Int32 → List SemUndoEntry
  /-- `next_semid` -/
  nextSemid : Int32

inductive Event where
  | create (pid semid : Int32) (nsems : Nat)
  /-- one round of `sys_semtimedop` and how it ended -/
  | semop (pid semid : Int32) (sops : List SemBuf) (result : Attempt)
  | wake (semid : Int32) (sops : List SemBuf)
  | semctl (pid semid semnum : Int32) (cmd : Command)
  /-- `remove_semid`, after `IPC_RMID` has dropped the lock of the set -/
  | forget (semid : Int32)
  | exit (pid : Int32)

inductive Step (checks : Bool) (s : State) : Event → State → Prop
  | create {pid : Int32} {nsems : Nat} : 0 < nsems → nsems ≤ 250 →
      Step checks s (.create pid s.nextSemid nsems)
        { s with
          sets := s.sets.insert s.nextSemid (.new nsems pid)
          nextSemid := s.nextSemid + 1 }
  | semop {pid semid : Int32} {sops : List SemBuf} {set : SemSetInner} {o : Outcome}
      {expired : Bool} :
      s.sets.lookup semid = some set →
      semopSection checks semid pid expired sops set (s.undos pid) = o → o.result ≠ .panicked →
      Step checks s (.semop pid semid sops o.result)
        { s with
          sets := s.sets.insert semid o.set
          undos := update s.undos pid o.undos }
  | wake {semid : Int32} {sops : List SemBuf} {set : SemSetInner} {signal timedOut : Bool} :
      s.sets.lookup semid = some set →
      Step checks s (.wake semid sops)
        { s with sets := s.sets.insert semid (wakeSection sops set signal timedOut).2 }
  | semctl {pid semid semnum : Int32} {cmd : Command} {set : SemSetInner} :
      s.sets.lookup semid = some set →
      Step checks s (.semctl pid semid semnum cmd)
        { s with sets := s.sets.insert semid (semctl pid semnum set cmd).set }
  | forget {semid : Int32} {set : SemSetInner} :
      s.sets.lookup semid = some set → set.removed = true →
      Step checks s (.forget semid) { s with sets := s.sets.erase semid }
  | exit {pid : Int32} : Step checks s (.exit pid)
        { s with
          sets := exitSemUndos pid (s.undos pid) s.sets
          undos := update s.undos pid [] }

open Step

def Initial (s : State) : Prop := s = ⟨∅, fun _ => [], 1⟩

/-- Semaphore `i` of set `semid`. -/
def semAt (sets : Sets) (semid : Int32) (i : Nat) : Option Sem :=
  (sets.lookup semid).bind (·.sems[i]?)

/-! ## What a process owes -/

/-- The sum of the operations on semaphore `i` under `SEM_UNDO`. -/
def undoTotal (i : Nat) (sops : List SemBuf) : Int := total i (sops.filter (·.undo))

/-- What process `pid` applied to semaphore `i` of the set now called `semid` under `SEM_UNDO`. -/
def owed (pid semid : Int32) (i : Nat) : List Event → Int
  | [] => 0
  | .create _ semid' _ :: h => if semid' = semid then 0 else owed pid semid i h
  | .semop pid' semid' sops .committed :: h =>
    owed pid semid i h + if pid' = pid ∧ semid' = semid then undoTotal i sops else 0
  | .exit pid' :: h => if pid' = pid then 0 else owed pid semid i h
  | _ :: h => owed pid semid i h

variable (undos : List SemUndoEntry) (semid : Int32) (i : Nat)

/-- A caller gave semaphore `i` of `semid` the value `val`. -/
def Event.Assigns (val : UInt16) : Event → Prop
  | .semctl _ semid' semnum (.setVal arg) =>
    semid' = semid ∧ semnum.toInt = i ∧ arg.toInt = val.toNat
  | .semctl _ semid' _ (.setAll (some vals)) => semid' = semid ∧ vals i = val
  | _ => False

def entryFor : Option SemUndoEntry :=
  undos.find? fun entry => entry.semid == semid && entry.semNum.toNat == i

def recorded : Int :=
  ((entryFor undos semid i).map fun entry => entry.undoVal.toInt).getD 0

/-! ## When the arithmetic is exact -/

/-- Every operation that changes a semaphore leaves it at `bound` or below. -/
def Lands (bound : Int) : (Nat → Int) → List SemBuf → Prop
  | _, [] => True
  | v, op :: ops =>
    (op.amount ≠ 0 → v op.index + op.amount ≤ bound) ∧ Lands bound (step v op) ops

/-- The recorded amounts stay within `i16`. -/
def Recordable : (Nat → Int) → List SemBuf → Prop
  | _, [] => True
  | r, op :: ops =>
    if op.undo then
      -32768 ≤ r op.index - op.amount ∧ r op.index - op.amount ≤ 32767 ∧
        Recordable (update r op.index (r op.index - op.amount)) ops
    else Recordable r ops

instance Lands.decidable (bound : Int) : ∀ v sops, Decidable (Lands bound v sops)
  | _, [] => inferInstanceAs (Decidable True)
  | v, op :: ops =>
    have := Lands.decidable bound (step v op) ops
    inferInstanceAs (Decidable (_ ∧ _))

instance Recordable.decidable : ∀ r sops, Decidable (Recordable r sops)
  | _, [] => inferInstanceAs (Decidable True)
  | r, op :: ops =>
    have := Recordable.decidable (update r op.index (r op.index - op.amount)) ops
    have := Recordable.decidable r ops
    inferInstanceAs (Decidable (if op.undo then _ else _))

/-- The steps on which nothing saturates or wraps. -/
def Tame (checks : Bool) (s : State) : Event → Prop
  | .create _ semid _ => ∀ pid, ∀ entry ∈ s.undos pid, entry.semid ≠ semid
  | .semop pid semid sops _ =>
    ∀ set, s.sets.lookup semid = some set → checkOps checks set.values sops = .pass →
      Lands 32767 (value set.sems) sops ∧ Recordable (recorded (s.undos pid) semid) sops
  | .exit pid =>
    (∀ semid i sem, semAt s.sets semid i = some sem → sem.semval.toNat ≤ 32767) ∧
      ∀ entry ∈ s.undos pid, ∀ sem, semAt s.sets entry.semid entry.semNum.toNat = some sem →
        0 ≤ sem.semval.toNat + entry.undoVal.toInt
  | _ => True

/-! ## The operations -/

variable {undos : List SemUndoEntry} {semid : Int32} {h : List Event} {sops : List SemBuf}
  {set : SemSetInner} {checks : Bool} {i : Nat} {s s' : State} {v : Nat → Int}

theorem Lands.fits {bound : Int} (hb : bound ≤ 65535) (h : Lands bound v sops) :
    Fits 65535 v sops := by
  induction sops generalizing v with
  | nil => trivial
  | cons op ops ih =>
    refine ⟨fun hpos => ?_, ih h.2⟩
    have hle := h.1 (by omega)
    omega

theorem Lands.bounded {bound : Int} (h : Lands bound v sops) (i : Nat) :
    total i sops = 0 ∨ v i + total i sops ≤ bound := by
  induction sops generalizing v with
  | nil => exact .inl rfl
  | cons op ops ih =>
    have hstep := step_apply v op i
    rw [total_cons]
    by_cases hi : op.index = i
    · rw [if_pos hi] at hstep ⊢
      by_cases h0 : op.amount = 0
      · rcases ih h.2 with ht | ht <;> omega
      · have hle := h.1 h0
        rw [hi] at hle
        rcases ih h.2 with ht | ht <;> omega
    · rw [if_neg hi] at hstep ⊢
      rcases ih h.2 with ht | ht <;> omega

theorem undoTotal_cons (i : Nat) (op : SemBuf) (ops : List SemBuf) : undoTotal i (op :: ops) =
      (if op.undo ∧ op.index = i then op.amount else 0) + undoTotal i ops := by
  unfold undoTotal
  rw [filter_cons]
  by_cases hu : op.undo
  · simp only [hu, if_true, true_and]
    exact total_cons i op _
  · simp [hu]

/-! ## Undo entries -/

def SemUndoEntry.key (entry : SemUndoEntry) : Int32 × Nat := (entry.semid, entry.semNum.toNat)

/-- The entries of a process name each semaphore once. -/
def Distinct (undos : List SemUndoEntry) : Prop := (undos.map key).Nodup

variable {entry : SemUndoEntry} {s : State}

theorem isFor_iff {semNum : UInt16} :
    entry.isFor semid semNum = true ↔ entry.key = (semid, semNum.toNat) := by
  simp [isFor, key, UInt16.toNat_inj]

theorem entryFor_cons (entry : SemUndoEntry) (undos : List SemUndoEntry) (semid : Int32) (i : Nat) :
    entryFor (entry :: undos) semid i =
      if entry.key = (semid, i) then some entry else entryFor undos semid i := by
  unfold entryFor
  rw [find?_cons]
  split
  · rename_i h
    rw [if_pos (by simpa [key] using h)]
  · rename_i h
    rw [if_neg (by simpa [key] using h)]

theorem entryFor_eq_none : entryFor undos semid i = none ↔ (semid, i) ∉ undos.map key := by
  simp [entryFor, key]

theorem entryFor_mem (h : entryFor undos semid i = some entry) :
    entry ∈ undos ∧ entry.semid = semid ∧ entry.semNum.toNat = i := by
  have hkey := find?_some h
  simp only [Bool.and_eq_true, beq_iff_eq] at hkey
  exact ⟨mem_of_find?_eq_some h, hkey⟩

theorem entryFor_modify {semNum : UInt16} {j : Nat}
    {f : SemUndoEntry → SemUndoEntry} (hf : ∀ entry, (f entry).key = entry.key)
    (hj : undos.findIdx? (·.isFor semid semNum) = some j) (semid' : Int32) (i : Nat) :
    entryFor (undos.modify j f) semid' i =
      if (semid', i) = (semid, semNum.toNat) then (entryFor undos semid' i).map f
      else entryFor undos semid' i := by
  induction undos generalizing j with
  | nil => simp at hj
  | cons entry undos ih =>
    rw [findIdx?_cons] at hj
    split at hj
    · rename_i hfor
      have hkey := isFor_iff.mp hfor
      cases hj
      rw [modify_zero_cons, entryFor_cons, entryFor_cons, hf, hkey]
      by_cases h : (semid', i) = (semid, semNum.toNat)
      · rw [if_pos h, if_pos h.symm, if_pos h.symm, map_some]
      · rw [if_neg h, if_neg (Ne.symm h), if_neg (Ne.symm h)]
    · rename_i hfor
      have hkey : entry.key ≠ (semid, semNum.toNat) := fun h => hfor (isFor_iff.mpr h)
      obtain ⟨k, hk, rfl⟩ := map_eq_some_iff.mp hj
      rw [modify_succ_cons, entryFor_cons, entryFor_cons, ih hk]
      by_cases h : (semid', i) = (semid, semNum.toNat)
      · rw [if_pos h, if_pos h, h, if_neg hkey, if_neg hkey]
      · rw [if_neg h, if_neg h]

theorem entryFor_push {new : SemUndoEntry}
    (hnew : new.key ∉ undos.map key) (semid : Int32) (i : Nat) :
    entryFor (undos ++ [new]) semid i =
      if (semid, i) = new.key then some new else entryFor undos semid i := by
  induction undos with
  | nil =>
    rw [nil_append, entryFor_cons]
    simp only [eq_comm]
  | cons entry undos ih =>
    rw [map_cons, mem_cons, not_or] at hnew
    rw [cons_append, entryFor_cons, entryFor_cons, ih hnew.2]
    by_cases h : (semid, i) = new.key
    · rw [if_pos h, if_pos h, if_neg (h ▸ Ne.symm hnew.1)]
    · rw [if_neg h, if_neg h]

theorem recorded_of_entryFor (h : entryFor undos semid i = some entry) :
    recorded undos semid i = entry.undoVal.toInt := by
  simp [recorded, h]

theorem recorded_of_none (h : entryFor undos semid i = none) : recorded undos semid i = 0 := by
  simp [recorded, h]

/-- The entries after one operation under `SEM_UNDO`. -/
structure Recorded (semid : Int32) (op : SemBuf) (undos undos' : List SemUndoEntry) : Prop where
  distinct : Distinct undos'
  amount : ∀ semid' i, recorded undos' semid' i =
    recorded undos semid' i - if semid = semid' ∧ op.index = i then op.amount else 0

theorem recorded_modify {op : SemBuf} {j : Nat}
    (hj : undos.findIdx? (·.isFor semid op.semNum) = some j) (hdistinct : Distinct undos)
    (hlo : -32768 ≤ recorded undos semid op.index - op.amount)
    (hhi : recorded undos semid op.index - op.amount ≤ 32767) :
    Recorded semid op undos (undos.modify j (·.lower op)) := by
  have hkeys : ∀ entry : SemUndoEntry, (entry.lower op).key = entry.key := fun _ => rfl
  refine ⟨?_, fun semid' i => ?_⟩
  · unfold Distinct
    rw [map_modify_of_eq hkeys]
    exact hdistinct
  · have hentry := entryFor_modify hkeys hj semid' i
    by_cases hkey : semid = semid' ∧ op.index = i
    · obtain ⟨rfl, rfl⟩ := hkey
      have hsome : entryFor undos semid op.index ≠ none := by
        intro hnone
        have hmem := entryFor_eq_none.mp hnone
        obtain ⟨hlt, hfor, -⟩ := findIdx?_eq_some_iff_getElem.mp hj
        refine hmem ?_
        rw [SemBuf.index, ← isFor_iff.mp hfor]
        exact mem_map_of_mem (getElem_mem hlt)
      obtain ⟨entry, hfound⟩ := ne_none_iff_exists'.mp hsome
      rw [if_pos (by rfl), hfound, map_some] at hentry
      rw [recorded_of_entryFor hfound] at hlo hhi ⊢
      rw [recorded_of_entryFor hentry, lower, toInt_subI16, if_pos ⟨rfl, rfl⟩]
      exact clamp_of_mem hlo hhi
    · have hne : (semid', i) ≠ (semid, op.semNum.toNat) := by
        intro h
        cases h
        exact hkey ⟨rfl, rfl⟩
      rw [if_neg hne] at hentry
      rw [if_neg hkey, sub_zero, recorded, recorded, hentry]

theorem recorded_push {op : SemBuf}
    (hnone : undos.findIdx? (·.isFor semid op.semNum) = none) (hdistinct : Distinct undos)
    (hhi : recorded undos semid op.index - op.amount ≤ 32767) :
    Recorded semid op undos (undos ++ [⟨semid, op.semNum, -op.semOp⟩]) := by
  have hnew : (semid, op.index) ∉ undos.map key := by
    intro hmem
    obtain ⟨entry, hentry, hkey⟩ := mem_map.mp hmem
    have hfor := isFor_iff.mpr hkey
    rw [findIdx?_eq_none_iff.mp hnone entry hentry] at hfor
    cases hfor
  have hentry : ∀ semid' i, entryFor (undos ++ [⟨semid, op.semNum, -op.semOp⟩]) semid' i =
      if (semid', i) = (semid, op.index) then some ⟨semid, op.semNum, -op.semOp⟩
      else entryFor undos semid' i := entryFor_push hnew
  refine ⟨?_, fun semid' i => ?_⟩
  · unfold Distinct
    rw [map_append, nodup_append]
    refine ⟨hdistinct, nodup_singleton _, fun a ha b hb => ?_⟩
    rw [map_singleton, mem_singleton] at hb
    rintro rfl
    rw [hb] at ha
    exact hnew ha
  · by_cases hkey : semid = semid' ∧ op.index = i
    · obtain ⟨rfl, rfl⟩ := hkey
      have hold := recorded_of_none (entryFor_eq_none.mpr hnew)
      have hfound := hentry semid op.index
      rw [if_pos (by rfl)] at hfound
      rw [hold] at hhi
      unfold SemBuf.amount at hhi ⊢
      rw [recorded_of_entryFor hfound, hold, if_pos ⟨rfl, rfl⟩, toInt_neg (by omega), zero_sub]
    · have hne : (semid', i) ≠ (semid, op.index) := by
        intro h
        cases h
        exact hkey ⟨rfl, rfl⟩
      have hfound := hentry semid' i
      rw [if_neg hne] at hfound
      rw [if_neg hkey, sub_zero, recorded, recorded, hfound]

/-- **The recorded amounts go down by what was applied under `SEM_UNDO`.** -/
theorem recordUndos_spec (hret : (recordUndos checks semid undos sops).2 = false)
    (hdistinct : Distinct undos) (hfits : Recordable (recorded undos semid) sops) :
    Distinct (recordUndos checks semid undos sops).1 ∧ ∀ semid' i,
      recorded (recordUndos checks semid undos sops).1 semid' i =
        recorded undos semid' i - if semid = semid' then undoTotal i sops else 0 := by
  induction sops generalizing undos with
  | nil => exact ⟨hdistinct, fun _ _ => by simp [recordUndos, undoTotal, total]⟩
  | cons op ops ih =>
    unfold Recordable at hfits
    unfold recordUndos at hret ⊢
    simp only [undoTotal_cons]
    by_cases hundo : op.undo
    · simp only [hundo, if_true, true_and] at hfits hret ⊢
      -- what one recorded operation and the rest of the list do together
      have hrest : ∀ undos', Recorded semid op undos undos' →
          (recordUndos checks semid undos' ops).2 = false →
          Distinct (recordUndos checks semid undos' ops).1 ∧ ∀ semid' i,
            recorded (recordUndos checks semid undos' ops).1 semid' i = recorded undos semid' i -
                if semid = semid' then (if op.index = i then op.amount else 0) + undoTotal i ops
                else 0 := by
        intro undos' hone hret'
        have hupdate : recorded undos' semid = update (recorded undos semid) op.index
              (recorded undos semid op.index - op.amount) := by
          funext i
          rw [hone.amount]
          by_cases hi : op.index = i
          · subst hi
            simp
          · rw [update_of_ne (Ne.symm hi), if_neg (fun h => hi h.2), sub_zero]
        obtain ⟨hd, hr⟩ := ih hret' hone.distinct (by rw [hupdate]; exact hfits.2.2)
        refine ⟨hd, fun semid' i => ?_⟩
        rw [hr, hone.amount]
        by_cases hs : semid = semid'
        · simp only [hs, true_and, if_true]
          ring
        · simp [hs]
      split
      · rename_i j hj
        rw [hj] at hret
        exact hrest _ (recorded_modify hj hdistinct hfits.1 hfits.2.1) hret
      · rename_i hnone
        rw [hnone] at hret
        dsimp only at hret
        split at hret
        · cases hret
        · rename_i hover
          rw [if_neg hover]
          exact hrest _ (recorded_push hnone hdistinct hfits.2.1) hret
    · simp only [hundo] at hfits hret ⊢
      simpa using ih (by simpa using hret) hdistinct (by simpa using hfits)

/-! ## Exit -/

theorem semAt_insert (sets : Sets) (semid : Int32) (set : SemSetInner) (semid' : Int32) (i : Nat) :
    semAt (sets.insert semid set) semid' i =
      if semid = semid' then set.sems[i]? else semAt sets semid' i := by
  unfold semAt
  by_cases h : semid = semid'
  · subst h
    rw [AList.lookup_insert, if_pos rfl, bind_some]
  · rw [AList.lookup_insert_ne (Ne.symm h), if_neg h]

theorem semAt_exitSemUndo (pid : Int32) (sets : Sets) (entry : SemUndoEntry) (semid : Int32)
    (i : Nat) :
    semAt (exitSemUndo pid sets entry) semid i =
      if entry.key = (semid, i) then (semAt sets semid i).map (Sem.revert pid entry.undoVal)
      else semAt sets semid i := by
  unfold exitSemUndo key
  split
  · rename_i set hl
    rw [semAt_insert]
    by_cases hs : entry.semid = semid
    · subst hs
      have hsems : (set.revert pid entry).sems[i]? =
          (fun sem => if entry.semNum.toNat = i then Sem.revert pid entry.undoVal sem else sem) <$>
            set.sems[i]? :=
        getElem?_modify ..
      rw [if_pos rfl, hsems, semAt, hl, bind_some]
      by_cases hi : entry.semNum.toNat = i
      · simp [hi]
      · simp [hi]
    · simp [hs]
  · rename_i hl
    by_cases hs : entry.semid = semid
    · subst hs
      simp [semAt, hl]
    · simp [hs]

/-- **An exit adds the amount of each entry to its semaphore, once.** -/
theorem exitSemUndos_spec (pid : Int32) (hdistinct : Distinct undos)
    (sets : Sets) (semid : Int32) (i : Nat) :
    semAt (exitSemUndos pid undos sets) semid i = match entryFor undos semid i with
      | some entry => (semAt sets semid i).map (Sem.revert pid entry.undoVal)
      | none => semAt sets semid i := by
  unfold exitSemUndos
  induction undos generalizing sets with
  | nil => rfl
  | cons entry undos ih =>
    obtain ⟨hnew, hrest⟩ := nodup_cons.mp hdistinct
    rw [foldl_cons, ih hrest, semAt_exitSemUndo, entryFor_cons]
    by_cases h : entry.key = (semid, i)
    · rw [h] at hnew
      rw [entryFor_eq_none.mpr hnew, if_pos h, if_pos h]
    · rw [if_neg h, if_neg h]

variable {sem sem' : Sem}

theorem revert_semval {pid : Int32} {undoVal : Int16} (hsem : sem.semval.toNat ≤ 32767)
    (h : 0 ≤ sem.semval.toNat + undoVal.toInt) :
    ((Sem.revert pid undoVal sem).semval.toNat : Int) =
      clamp 0 32767 (sem.semval.toNat + undoVal.toInt) := by
  have hadd := toInt_addI16 sem.semval.toInt16 undoVal
  rw [toInt_toInt16 hsem] at hadd
  have hclamp : clamp (-32768) 32767 (sem.semval.toNat + undoVal.toInt) =
      clamp 0 32767 (sem.semval.toNat + undoVal.toInt) := by
    unfold clamp
    omega
  have hnonneg : 0 ≤ (addI16 sem.semval.toInt16 undoVal).toInt := by
    rw [hadd, hclamp]
    exact le_max_left _ _
  rw [Sem.revert, toNat_toUInt16_of_nonneg hnonneg, hadd, hclamp]

/-! ## Runs -/

/-- A value within `0..=32767`, or one a caller set. -/
def Bounded (h : List Event) (semid : Int32) (i : Nat) (sem : Sem) : Prop :=
  sem.semval.toNat ≤ 32767 ∨ ∃ e ∈ h, e.Assigns semid i sem.semval

/-- The exit of `pid` takes back what it applied under `SEM_UNDO`. -/
def Restores (h : List Event) (pid : Int32) (s s' : State) : Prop :=
  ∀ semid i sem, semAt s.sets semid i = some sem → ∃ sem', semAt s'.sets semid i = some sem' ∧
      (sem'.semval.toNat : Int) = clamp 0 32767 (sem.semval.toNat - owed pid semid i h)

/-- The invariant: the entries hold what is owed. -/
structure Ledger (h : List Event) (s : State) : Prop where
  distinct : ∀ pid, Distinct (s.undos pid)
  amounts : ∀ pid semid i, recorded (s.undos pid) semid i = -owed pid semid i h
  bounded : ∀ semid i sem, semAt s.sets semid i = some sem → Bounded h semid i sem

theorem Bounded.later (e : Event) (hb : Bounded h semid i sem) (hval : sem'.semval = sem.semval) :
    Bounded (e :: h) semid i sem' := by
  unfold Bounded
  rw [hval]
  refine hb.imp_right fun ⟨e', he', ha⟩ => ⟨e', mem_cons_of_mem _ he', ha⟩

theorem bounded_insert {sets : Sets}
    (e : Event) (hold : ∀ semid i sem, semAt sets semid i = some sem → Bounded h semid i sem)
    (hset : ∀ i sem, set.sems[i]? = some sem → Bounded (e :: h) semid i sem) (semid' : Int32)
    (i : Nat) (sem : Sem) (hs : semAt (sets.insert semid set) semid' i = some sem) :
    Bounded (e :: h) semid' i sem := by
  rw [semAt_insert] at hs
  split at hs
  · rename_i heq
    subst heq
    exact hset i sem hs
  · exact (hold semid' i sem hs).later e rfl

theorem semAt_of_lookup {sets : Sets} (hl : sets.lookup semid = some set) (i : Nat) :
    semAt sets semid i = set.sems[i]? := by
  rw [semAt, hl, bind_some]

theorem marks_getElem? {set set' : SemSetInner} (h : set'.marks = set.marks)
    (hs : set'.sems[i]? = some sem') :
    ∃ sem, set.sems[i]? = some sem ∧ sem'.semval = sem.semval := by
  have hi : (set.marks)[i]? = some sem'.mark := by
    rw [← h, marks, getElem?_map, hs, map_some]
  rw [marks, getElem?_map] at hi
  obtain ⟨sem, hsem, hmark⟩ := map_eq_some_iff.mp hi
  exact ⟨sem, hsem, (congrArg Prod.fst hmark).symm⟩

theorem exit_restores (hl : Ledger h s) {pid : Int32}
    (hok : Tame checks s (.exit pid)) (hs : Step checks s (.exit pid) s') :
    Restores h pid s s' := by
  cases hs
  intro semid i sem hsem
  have hrec := hl.amounts pid semid i
  have hspec := exitSemUndos_spec pid (hl.distinct pid) s.sets semid i
  cases hentry : entryFor (s.undos pid) semid i with
  | none =>
    have hle := hok.1 semid i sem hsem
    rw [recorded_of_none hentry] at hrec
    rw [hentry, hsem] at hspec
    refine ⟨sem, hspec, ?_⟩
    rw [clamp_of_mem] <;> omega
  | some entry =>
    obtain ⟨hmem, rfl, rfl⟩ := entryFor_mem hentry
    have hpos := hok.2 entry hmem sem hsem
    rw [recorded_of_entryFor hentry] at hrec
    rw [hentry, hsem] at hspec
    refine ⟨_, hspec, ?_⟩
    rw [revert_semval (hok.1 _ _ _ hsem) hpos]
    congr 1
    omega

theorem owed_semop {result : Attempt} (hresult : result ≠ .committed)
    (pid pid' semid semid' : Int32) (i : Nat) (sops : List SemBuf) (h : List Event) :
    owed pid semid i (.semop pid' semid' sops result :: h) = owed pid semid i h := by
  cases result with
  | committed => exact absurd rfl hresult
  | returned _ | waits | panicked => rfl

theorem Ledger.idle (hl : Ledger h s) {pid semid : Int32}
    {o : Outcome} (hlook : s.sets.lookup semid = some set)
    (hresult : o.result ≠ .committed) (hmarks : o.set.marks = set.marks)
    (hundos : o.undos = s.undos pid) :
    Ledger (.semop pid semid sops o.result :: h) { s with
        sets := s.sets.insert semid o.set
        undos := update s.undos pid o.undos } := by
  have hsame : update s.undos pid o.undos = s.undos := by
    rw [hundos, update_eq_self]
  refine ⟨fun p => ?_, fun p semid' i => ?_, bounded_insert _ hl.bounded fun i sem hi => ?_⟩
  · dsimp only
    rw [hsame]
    exact hl.distinct p
  · dsimp only
    rw [hsame, owed_semop hresult]
    exact hl.amounts p semid' i
  · obtain ⟨sem', hsem', hval⟩ := marks_getElem? hmarks hi
    exact (hl.bounded semid i sem' ((semAt_of_lookup hlook i).trans hsem')).later _ hval

theorem Ledger.commit (hl : Ledger h s) {pid semid : Int32}
    (hlook : s.sets.lookup semid = some set) (hpass : checkOps checks set.values sops = .pass)
    (hlands : Lands 32767 (value set.sems) sops)
    (hfits : Recordable (recorded (s.undos pid) semid) sops) :
    Ledger (.semop pid semid sops .committed :: h) { s with
        sets := s.sets.insert semid (set.applied checks pid sops)
        undos := update s.undos pid (recordUndos checks semid (s.undos pid) sops).1 } := by
  have hreturns := recordUndos_returns semid (s.undos pid) fun op hop => (checkOps_mem hpass hop).2
  obtain ⟨hdistinct, hrecorded⟩ := recordUndos_spec hreturns (hl.distinct pid) hfits
  have happlied := applyOps_spec pid hpass
  have hexact := happlied.exact_iff.mpr (hlands.fits (by decide))
  refine ⟨fun p => ?_, fun p semid' i => ?_, bounded_insert _ hl.bounded fun i sem' hi => ?_⟩
  · dsimp only
    by_cases hp : p = pid
    · subst hp
      rw [update_self]
      exact hdistinct
    · rw [update_of_ne hp]
      exact hl.distinct p
  · dsimp only
    by_cases hp : p = pid
    · subst hp
      rw [update_self, hrecorded, hl.amounts, owed]
      simp only [true_and]
      omega
    · rw [update_of_ne hp, hl.amounts, owed, if_neg (fun h => hp h.1.symm), add_zero]
  · -- the semaphore ends where it was, or at most at 32767
    have hval := value_of_getElem? hi
    have hnew := hexact i
    have hlen : i < set.sems.length := by
      have := (List.getElem?_eq_some_iff.mp hi).1
      rwa [applied, withSems, length_applyOps] at this
    have hold := List.getElem?_eq_getElem hlen
    have hvalOld := value_of_getElem? hold
    rcases hlands.bounded i with h0 | hle
    · have hb := hl.bounded semid i _ ((semAt_of_lookup hlook i).trans hold)
      refine hb.later _ (UInt16.toNat_inj.mp ?_)
      have : value (set.applied checks pid sops).sems i = value set.sems i + total i sops := hnew
      omega
    · have : value (set.applied checks pid sops).sems i = value set.sems i + total i sops := hnew
      exact .inl (by omega)

theorem setVal_semval {pid semnum : Int32} {j i : Nat}
    {val : UInt16} (hsel : set.select semnum = some (j, sem))
    (hi : (set.setVal pid j sem val).sems[i]? = some sem') :
    (∃ sem, set.sems[i]? = some sem ∧ sem'.semval = sem.semval) ∨
      (semnum.toInt = i ∧ sem'.semval = val) := by
  unfold select at hsel
  split at hsel
  · cases hsel
  · rename_i hnum
    obtain ⟨sem₀, hsem, heq⟩ := map_eq_some_iff.mp hsel
    cases heq
    have hlt := (List.getElem?_eq_some_iff.mp hsem).1
    rw [setVal, withSems] at hi
    by_cases hij : semnum.toInt.toNat = i
    · subst hij
      rw [List.getElem?_set_self hlt] at hi
      cases hi
      exact .inr ⟨by omega, rfl⟩
    · rw [List.getElem?_set_ne hij] at hi
      exact .inl ⟨sem', hi, rfl⟩

theorem semctl_semval (pid semid semnum : Int32) (set : SemSetInner) (cmd : Command)
    (hi : (semctl pid semnum set cmd).set.sems[i]? = some sem') :
    (∃ sem, set.sems[i]? = some sem ∧ sem'.semval = sem.semval) ∨
      (Event.semctl pid semid semnum cmd).Assigns semid i sem'.semval := by
  have hget : ∀ field, (set.get semnum field).set = set := by
    intro field
    unfold SemSetInner.get
    split <;> rfl
  unfold semctl at hi
  split at hi
  · exact .inl ⟨sem', hi, rfl⟩
  · cases cmd with
    | rmid => exact .inl ⟨sem', hi, rfl⟩
    | getVal => exact .inl ⟨sem', by rwa [hget] at hi, rfl⟩
    | getPid => exact .inl ⟨sem', by rwa [hget] at hi, rfl⟩
    | getNcnt => exact .inl ⟨sem', by rwa [hget] at hi, rfl⟩
    | getZcnt => exact .inl ⟨sem', by rwa [hget] at hi, rfl⟩
    | setVal arg =>
      dsimp only at hi
      split at hi
      · exact .inl ⟨sem', hi, rfl⟩
      · rename_i j sem hsel
        split at hi
        · exact .inl ⟨sem', hi, rfl⟩
        · rename_i hrange
          exact (setVal_semval hsel hi).imp_right fun ⟨hnum, hval⟩ => ⟨rfl, hnum, by
            rw [hval, UInt16.toNat_ofNat', Nat.mod_eq_of_lt (by omega)]
            omega⟩
    | setAll array =>
      cases array with
      | none => exact .inl ⟨sem', hi, rfl⟩
      | some vals =>
        have hmap : (set.setAll pid vals).sems[i]? = some sem' := hi
        rw [setAll, SemSetInner.withSems, getElem?_mapIdx] at hmap
        obtain ⟨sem, -, rfl⟩ := map_eq_some_iff.mp hmap
        exact .inr ⟨rfl, rfl⟩

theorem Ledger.step {e : Event} (hl : Ledger h s)
    (hok : Tame checks s e) (hs : Step checks s e s') : Ledger (e :: h) s' := by
  cases hs with
  | @create pid nsems _ _ =>
    refine ⟨hl.distinct, fun p semid i => ?_, bounded_insert _ hl.bounded fun i sem hi => ?_⟩
    · rw [owed]
      split
      · rename_i heq
        subst heq
        refine recorded_of_none (entryFor_eq_none.mpr fun hmem => ?_)
        obtain ⟨entry, hentry, hkey⟩ := mem_map.mp hmem
        exact hok p entry hentry (congrArg Prod.fst hkey)
      · exact hl.amounts p semid i
    · have hnew := eq_of_mem_replicate (mem_of_getElem? hi)
      subst hnew
      exact .inl (Nat.zero_le _)
  | @semop pid semid sops set o expired hlook ho hnot =>
    subst ho
    have hround := semopSection_spec checks semid pid expired sops set (s.undos pid)
    generalize semopSection checks semid pid expired sops set (s.undos pid) = o at hround ⊢
    cases hround with
    | commits _ hpass =>
      obtain ⟨hlands, hfits⟩ := hok set hlook hpass
      exact hl.commit hlook hpass hlands hfits
    | keeps _ hresult _ hmarks _ hundos => exact hl.idle hlook hresult hmarks hundos
  | @wake semid sops set signal timedOut hlook =>
    refine ⟨hl.distinct, hl.amounts, bounded_insert _ hl.bounded fun i sem hi => ?_⟩
    obtain ⟨sem', hsem', hval⟩ := marks_getElem? (wakeSection_keeps sops set signal timedOut) hi
    exact (hl.bounded semid i sem' ((semAt_of_lookup hlook i).trans hsem')).later _ hval
  | @semctl pid semid semnum cmd set hlook =>
    refine ⟨hl.distinct, hl.amounts, bounded_insert _ hl.bounded fun i sem hi => ?_⟩
    rcases semctl_semval pid semid semnum set cmd hi with ⟨sem', hsem', hval⟩ | hassigns
    · exact (hl.bounded semid i sem' ((semAt_of_lookup hlook i).trans hsem')).later _ hval
    · exact .inr ⟨_, mem_cons_self, hassigns⟩
  | @forget semid set _ _ =>
    refine ⟨hl.distinct, hl.amounts, fun semid' i sem hi => ?_⟩
    have hne : semid' ≠ semid := by
      rintro rfl
      rw [semAt, AList.lookup_erase] at hi
      cases hi
    rw [semAt, AList.lookup_erase_ne hne] at hi
    exact (hl.bounded semid' i sem hi).later _ rfl
  | @exit pid =>
    have hrestores := exit_restores hl hok (@exit checks s pid)
    refine ⟨fun p => ?_, fun p semid i => ?_, fun semid i sem' hi => ?_⟩
    · dsimp only
      by_cases hp : p = pid
      · subst hp
        rw [update_self]
        exact nodup_nil
      · rw [update_of_ne hp]
        exact hl.distinct p
    · dsimp only
      rw [owed]
      by_cases hp : p = pid
      · subst hp
        rw [update_self, if_pos rfl]
        rfl
      · rw [update_of_ne hp, if_neg (Ne.symm hp)]
        exact hl.amounts p semid i
    · have hspec := exitSemUndos_spec pid (hl.distinct pid) s.sets semid i
      cases hsem : semAt s.sets semid i with
      | none =>
        rw [hi, hsem] at hspec
        split at hspec <;> cases hspec
      | some sem =>
        obtain ⟨sem'', hs'', hval⟩ := hrestores semid i sem hsem
        rw [hi] at hs''
        cases hs''
        unfold clamp at hval
        exact .inl (by omega)

theorem run_ledger (hrun : Run Initial (Guarded (Tame checks) (Step checks)) h s) : Ledger h s := by
  induction hrun with
  | init hi =>
    cases hi
    exact ⟨fun _ => nodup_nil, fun _ _ _ => rfl, nofun⟩
  | step _ hs ih => exact ih.step hs.1 hs.2

/-- **`SEM_UNDO` restores what the process did**, and no semaphore passes `32767` unless a caller
set it there. -/
theorem run_undo_restores (checks : Bool) (h : List Event) (s : State)
    (hrun : Run Initial (Guarded (Tame checks) (Step checks)) h s) :
    (∀ semid i sem, semAt s.sets semid i = some sem → Bounded h semid i sem) ∧
      ∀ pid s', Tame checks s (.exit pid) → Step checks s (.exit pid) s' → Restores h pid s s' := by
  have hl := run_ledger hrun
  exact ⟨hl.bounded, fun pid s' hok hs => exit_restores hl hok hs⟩

theorem Restores.semval_le {pid : Int32} (hr : Restores h pid s s')
    {val val' : UInt16} (hs : (semAt s.sets semid i).map (·.semval) = some val)
    (hs' : (semAt s'.sets semid i).map (·.semval) = some val') : val'.toNat ≤ 32767 := by
  obtain ⟨sem, hsem, -⟩ := map_eq_some_iff.mp hs
  obtain ⟨sem', hsem', hval⟩ := hr semid i sem hsem
  rw [hsem', map_some] at hs'
  cases hs'
  unfold clamp at hval
  omega

def up : SemBuf := ⟨0, 1, 0x1000⟩

def down : SemBuf := ⟨0, -1, 0⟩

/-- Processes 7 and 8 increment a semaphore under `SEM_UNDO`; the exit of 7 takes its own
increment back. -/
theorem up_up_restores : ∃ h s s', Run Initial (Guarded (Tame false) (Step false)) h s ∧
      Step false s (.exit 7) s' ∧ (semAt s.sets 1 0).map (·.semval) = some 2 ∧
      (semAt s'.sets 1 0).map (·.semval) = some 1 ∧
      (∀ semid i sem, semAt s.sets semid i = some sem → Bounded h semid i sem) ∧
      Restores h 7 s s' := by
  have hstart : Run Initial (Guarded (Tame false) (Step false)) [] ⟨∅, fun _ => [], 1⟩ := .init rfl
  have hcreate := hstart.guarded (@create _ _ 7 1 (by decide) (by decide)) nofun
  have hfirst := hcreate.guarded (@semop _ _ 7 1 [up] _ _ false rfl rfl (by decide +kernel))
    (fun _ h _ => by cases h; decide +kernel)
  have hsecond := hfirst.guarded
    (@semop _ _ 8 1 [up] _ _ false rfl rfl (by decide +kernel))
    (fun _ h _ => by cases h; decide +kernel)
  obtain ⟨hbounded, hrestores⟩ := run_undo_restores _ _ _ hsecond
  refine ⟨_, _, _, hsecond, .exit, by decide +kernel, by decide +kernel, hbounded,
    hrestores 7 _ ⟨fun semid i sem hi => ?_, fun entry hentry sem hi => ?_⟩ .exit⟩
  · simp only [semAt_insert] at hi
    split at hi
    · cases i with
      | zero =>
        cases hi
        decide +kernel
      | succ i => cases hi
    · cases hi
  · cases hentry with
    | head =>
      cases hi
      decide +kernel
    | tail _ h => cases h

/-- Process 7 increments a semaphore under `SEM_UNDO`, process 8 takes it down to zero, and the
exit of process 7 wraps it to `65535`. -/
theorem exit_wraps : ∃ h s s', Run Initial (Step false) h s ∧ Step false s (.exit 7) s' ∧
      (semAt s.sets 1 0).map (·.semval) = some 0 ∧
      (semAt s'.sets 1 0).map (·.semval) = some 65535 ∧ ¬ Restores h 7 s s' := by
  have hstart : Run Initial (Step false) [] ⟨∅, fun _ => [], 1⟩ := .init rfl
  have hcreate := hstart.step (@create _ _ 7 1 (by decide) (by decide))
  have hup := hcreate.step (@semop _ _ 7 1 [up] _ _ false rfl rfl (by decide +kernel))
  have hdown := hup.step (@semop _ _ 8 1 [down] _ _ false rfl rfl (by decide +kernel))
  refine ⟨_, _, _, hdown, .exit, by decide +kernel, by decide +kernel, fun h => ?_⟩
  exact absurd (@Restores.semval_le 1 _ 0 _ _ _ h _ _ rfl rfl) (by decide +kernel)

end PulseOS.Ipc
