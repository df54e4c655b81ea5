import Mathlib.Data.List.ReduceOption
import PulseOS.Fd.TableLoops
import PulseOS.Lib.Transition

/-!
# Families of descriptor tables

Tables related by `clone_for_fork` share storage, and copies of a storage share chunks.  `Family`
holds both heaps and who has a handle on which storage: the tables, and `DrainedFdEntries` until
they are dropped.  The strong count of a storage is the number of its holders; the strong count of a
chunk is the number of its handles in the storages that have a holder.

* `Spec.exec` — what the operations are for: each table is a finite map from descriptors to
  entries, allocation takes the least free descriptor, and an operation changes one map.
* `exec_refines` — the family does what the maps do.
-/

namespace PulseOS.Fd

open Arc Transition List

variable {ω : Type}

inductive Call (ω : Type) where
  | insertAt (fd : Nat) (entry : FdEntry ω)
  | insertFrom (minFd : Nat) (entry : FdEntry ω)
  | insertNext (entry : FdEntry ω)
  | remove (fd : Nat)
  | getMut (fd : Nat) (f : FdEntry ω → FdEntry ω)
  | takeCloexecOnExec
  | drainAll
  | removeRange (first last : Nat)
  | setCloexecRange (first last : Nat)

inductive Op (ω : Type) where
  | new
  | cloneForFork (t : Nat)
  | drop (t : Nat)
  /-- The drop of a `DrainedFdEntries`. -/
  | dropDrained (i : Nat)
  | call (t : Nat) (c : Call ω)

/-- The operations on ranges of descriptors. -/
def Call.onRange : Call ω → Bool
  | .removeRange .. | .setCloexecRange .. => true
  | _ => false

def Op.onRange : Op ω → Bool
  | .call _ c => c.onRange
  | _ => false

def Op.target : Op ω → Option Nat
  | .drop t | .call t _ => some t
  | _ => none

inductive Out (ω : Type) where
  | unit
  | table (t : Nat)
  | result (r : Except LinuxError Unit)
  | fd (r : Except LinuxError Nat)
  | entry (entry : Option (FdEntry ω))
  | entries (removed : List (FdEntry ω))

structure Family (ω : Type) where
  storages : Heap FdTableStorage
  chunks : Heap (FdChunk ω)
  /-- The handle of each table, `none` once the table is dropped. -/
  tables : List (Option Nat)
  drained : List Nat

namespace Family

def empty : Family ω := ⟨⟨fun _ => .default, 0⟩, ⟨fun _ => .default, 0⟩, [], []⟩

variable (fam : Family ω)

def holders : List Nat := fam.tables.reduceOption ++ fam.drained

/-- The handles on chunk `c` in the storages other than `a` that are held. -/
def others (a c : Nat) : Nat :=
  ∑ b ∈ fam.holders.toFinset.erase a, (fam.storages.mem b).chunks.count (some c)

/-- What a handle on storage `a` sees. -/
def seen (a : Nat) : FdTable ω := ⟨fam.storages.mem a, fam.chunks⟩

/-- The handle of a table, if there is such a table. -/
def handle (t : Nat) : Option Nat := fam.tables[t]?.join

def table (t : Nat) : Option (FdTable ω) := (fam.handle t).map fam.seen

/-- A function of `&mut self`: the early part, `Arc::make_mut` on the storage, the rest. -/
def mutate {κ ρ : Type} (fam : Family ω) (t a : Nat) (early : FdTable ω → Except ρ κ)
    (body : κ → (Nat → Nat) → FdTable ω → FdTable ω × ρ) : Family ω × ρ :=
  match early (fam.seen a) with
  | .error r => (fam, r)
  | .ok k =>
    let m := fam.storages.makeMut (fam.holders.count a) a
    let fam := { fam with storages := m.1, tables := fam.tables.set t (some m.2) }
    let out := body k (fam.others m.2) (fam.seen m.2)
    ({ fam with storages := fam.storages.write m.2 out.1.storage, chunks := out.1.cells }, out.2)

def insertAt (t a fd : Nat) (entry : FdEntry ω) : Family ω × Except LinuxError Unit :=
  fam.mutate t a (fun _ => (FdTable.insertAtEarly fd).mapError .error)
    fun _ others T => T.insertAt others fd entry

def insertFrom (t a minFd : Nat) (entry : FdEntry ω) : Family ω × Except LinuxError Nat :=
  fam.mutate t a
    (fun T => match T.nextAvailableFd minFd with
      | .error e => .error (.error e)
      | .ok fd => match FdTable.insertAtEarly fd with
        | .error e => .error (.error e)
        | .ok _ => .ok fd)
    fun fd others T => let r := T.insertAt others fd entry; (r.1, r.2.map fun _ => fd)

def remove (t a fd : Nat) : Family ω × Option (FdEntry ω) :=
  fam.mutate t a (·.removeEarly fd) fun _ others T => T.remove others fd

def getMut (t a fd : Nat) (f : FdEntry ω → FdEntry ω) : Family ω × Option (FdEntry ω) :=
  fam.mutate t a (·.getMutEarly fd) fun _ others T => T.getMut others fd f

def takeCloexecOnExec (t a : Nat) : Family ω × List (FdEntry ω) :=
  fam.mutate t a (·.takeCloexecEarly) fun _ others T => T.takeCloexecOnExec others

def removeRange (t a first last : Nat) : Family ω × List (FdEntry ω) :=
  fam.mutate t a (·.removeRangeEarly first last) fun r others T => T.removeRange others r

def setCloexecRange (t a first last : Nat) : Family ω × Unit :=
  fam.mutate t a (·.setCloexecRangeEarly first last) fun r others T =>
    (T.setCloexecRange others r, ())

/-- `core::mem::replace(&mut self.storage, Arc::new(FdTableStorage::default()))`. -/
def drainAll (t a : Nat) : Family ω :=
  let n := fam.storages.alloc .default
  { fam with storages := n.1, tables := fam.tables.set t (some n.2), drained := a :: fam.drained }

/-- A call on table `t`, whose handle is on `a`. -/
def run (t a : Nat) : Call ω → Family ω × Out ω
  | .insertAt fd entry => let r := fam.insertAt t a fd entry; (r.1, .result r.2)
  | .insertFrom minFd entry => let r := fam.insertFrom t a minFd entry; (r.1, .fd r.2)
  | .insertNext entry => let r := fam.insertFrom t a 0 entry; (r.1, .fd r.2)
  | .remove fd => let r := fam.remove t a fd; (r.1, .entry r.2)
  | .getMut fd f => let r := fam.getMut t a fd f; (r.1, .entry r.2)
  | .takeCloexecOnExec => let r := fam.takeCloexecOnExec t a; (r.1, .entries r.2)
  | .drainAll => (fam.drainAll t a, .unit)
  | .removeRange first last => let r := fam.removeRange t a first last; (r.1, .entries r.2)
  | .setCloexecRange first last => ((fam.setCloexecRange t a first last).1, .unit)

/-- `none` when the table does not exist. -/
def exec : Op ω → Option (Family ω × Out ω)
  | .new =>
    let n := fam.storages.alloc .default
    some ({ fam with storages := n.1, tables := fam.tables ++ [some n.2] },
      .table fam.tables.length)
  | .cloneForFork t => (fam.handle t).map fun a =>
    ({ fam with tables := fam.tables ++ [some a] }, .table fam.tables.length)
  | .drop t => (fam.handle t).map fun _ => ({ fam with tables := fam.tables.set t none }, .unit)
  | .dropDrained i => some ({ fam with drained := fam.drained.eraseIdx i }, .unit)
  | .call t c => (fam.handle t).map fun a => fam.run t a c

def Step (op : Op ω) (fam' : Family ω) : Prop :=
  ∃ out, fam.exec op = some (fam', out)

abbrev Reached : Prop := Reachable (· = empty) Step fam

def execs (fam : Family ω) : List (Op ω) → Option (Family ω)
  | [] => some fam
  | op :: ops => (fam.exec op).bind fun r => execs r.1 ops

theorem Reached.execs : ∀ {ops : List (Op ω)} {fam fam' : Family ω}, Reached fam →
    fam.execs ops = some fam' → Reached fam'
  | [], _, _, h, he => by
    cases he
    exact h
  | op :: ops, fam, fam', h, he => by
    obtain ⟨r, hr, he⟩ := Option.bind_eq_some_iff.mp he
    exact Reached.execs (Reachable.next h ⟨r.2, hr⟩) he

end Family

/-! ## Tables as maps -/

/-- What a table is for: a partial function from descriptors to entries. -/
abbrev FdMap (ω : Type) := Nat → Option (FdEntry ω)

def FdMap.empty : FdMap ω := fun _ => none

namespace Spec

variable (m : FdMap ω)

/-- The least free descriptor from `minFd` on. -/
def leastFree (minFd : Nat) : Option Nat :=
  (List.range' minFd (FD_LIMIT - minFd)).find? fun fd => (m fd).isNone

/-- The entries at the descriptors of `P`, in the order of the descriptors. -/
def entriesOf (P : Nat → Bool) : List (FdEntry ω) :=
  (List.range FD_LIMIT).filterMap fun fd => if P fd then m fd else none

def without (P : Nat → Bool) : FdMap ω := fun fd => if P fd then none else m fd

def within (first last fd : Nat) : Bool := decide (first ≤ fd ∧ fd ≤ last)

def insertFrom (minFd : Nat) (entry : FdEntry ω) : FdMap ω × Out ω :=
  match leastFree m minFd with
  | some fd => (Function.update m fd (some entry), .fd (.ok fd))
  | none => (m, .fd (.error .EMFILE))

def run : Call ω → FdMap ω × Out ω
  | .insertAt fd entry =>
    if fd < FD_LIMIT then (Function.update m fd (some entry), .result (.ok ()))
    else (m, .result (.error .EBADF))
  | .insertFrom minFd entry => insertFrom m minFd entry
  | .insertNext entry => insertFrom m 0 entry
  | .remove fd => (Function.update m fd none, .entry (m fd))
  | .getMut fd f => (Function.update m fd ((m fd).map f), .entry (m fd))
  | .takeCloexecOnExec =>
    let marked := fun fd => (m fd).any (·.flags.cloexec)
    (without m marked, .entries (entriesOf m marked))
  | .drainAll => (.empty, .unit)
  | .removeRange first last =>
    (without m (within first last), .entries (entriesOf m (within first last)))
  | .setCloexecRange first last =>
    (fun fd => if within first last fd then (m fd).map FdEntry.setCloexec else m fd, .unit)

/-- One operation on a family of maps. -/
def exec (maps : List (Option (FdMap ω))) : Op ω → Option (List (Option (FdMap ω)) × Out ω)
  | .new => some (maps ++ [some .empty], .table maps.length)
  | .cloneForFork t => maps[t]?.join.map fun m => (maps ++ [some m], .table maps.length)
  | .drop t => maps[t]?.join.map fun _ => (maps.set t none, .unit)
  | .dropDrained _ => some (maps, .unit)
  | .call t c => maps[t]?.join.map fun m => (maps.set t (some (run m c).1), (run m c).2)

end Spec

namespace Family

def maps (fam : Family ω) : List (Option (FdMap ω)) :=
  fam.tables.map (·.map fun a => (fam.seen a).get)

/-- The operation does to the family what it does to the maps. -/
def Refines (fam : Family ω) (op : Op ω) : Prop :=
  (fam.exec op).map (fun r => (r.1.maps, r.2)) = Spec.exec fam.maps op

/-! ## Isolation -/

theorem count_reduceOption {α : Type} [DecidableEq α] (l : List (Option α)) (a : α) :
    l.reduceOption.count a = l.count (some a) := by
  induction l with
  | nil => rfl
  | cons x l ih =>
    cases x with
    | none => simpa [reduceOption_cons_of_none] using ih
    | some b =>
      rw [reduceOption_cons_of_some, count_cons, count_cons, ih]
      simp

variable {fam : Family ω} {a t : Nat}

theorem handle_eq_some :
    fam.handle t = some a ↔ fam.tables[t]? = some (some a) := Option.join_eq_some_iff

theorem mem_holders :
    a ∈ fam.holders ↔ (∃ t : Nat, fam.tables[t]? = some (some a)) ∨ a ∈ fam.drained := by
  unfold holders
  rw [mem_append, reduceOption_mem_iff, mem_iff_getElem?]

/-- Held storages are allocated, and what is seen through them is sound. -/
structure Sound (fam : Family ω) : Prop where
  allocated : ∀ a ∈ fam.holders, a < fam.storages.next
  seen : ∀ a ∈ fam.holders, (fam.seen a).Sound

/-- Storage `b` is held by something other than table `t`. -/
def HeldBeside (fam : Family ω) (t b : Nat) : Prop :=
  (∃ t' : Nat, t' ≠ t ∧ fam.tables[t']? = some (some b)) ∨ b ∈ fam.drained

theorem HeldBeside.mem {b : Nat} (h : fam.HeldBeside t b) : b ∈ fam.holders := by
  rcases h with ⟨t', -, ht'⟩ | hd
  · exact mem_holders.mpr (.inl ⟨t', ht'⟩)
  · exact mem_holders.mpr (.inr hd)

theorem HeldBeside.strong (ht : fam.tables[t]? = some (some a))
    (h : fam.HeldBeside t a) : fam.holders.count a ≠ 1 := by
  have htable : 0 < fam.tables.count (some a) := count_pos_iff.mpr (mem_of_getElem? ht)
  unfold holders
  rw [count_append, count_reduceOption]
  rcases h with ⟨t', hne, ht'⟩ | hd
  · intro hone
    exact hne (index_unique ht ht' (by omega))
  · have := count_pos_iff.mpr hd
    omega

/-- What a storage sees survives changes to chunks that it has no handle on. -/
theorem seen_frame {s : FdTableStorage} {cells cells' : Heap (FdChunk ω)}
    (hs : FdTable.Sound ⟨s, cells⟩) (hnext : cells.next ≤ cells'.next)
    (hmem : ∀ c, some c ∈ s.chunks → cells'.mem c = cells.mem c) :
    FdTable.Sound ⟨s, cells'⟩ ∧ FdTable.get ⟨s, cells'⟩ = FdTable.get ⟨s, cells⟩ := by
  have hget : FdTable.get ⟨s, cells'⟩ = FdTable.get ⟨s, cells⟩ := by
    funext fd
    unfold FdTable.get
    simp only
    split
    · rename_i c hc
      rw [hmem c (mem_of_getElem? hc)]
    · rfl
  refine ⟨hs.congr ⟨hs.lengths, hs.bounded, fun c hc => ?_⟩ (fun _ => rfl) rfl fun fd => ?_, hget⟩
  · exact (hs.allocated c hc).trans_le hnext
  · rw [hget]

/-- `fam'` is `fam` after a change of table `t`, which is the map `m` now; every other holder sees
what it saw. -/
structure Changed (fam : Family ω) (t : Nat) (m : FdMap ω) (fam' : Family ω) : Prop where
  sound : fam'.Sound
  table : ∃ a', fam'.tables = fam.tables.set t (some a') ∧ (fam'.seen a').get = m
  beside : ∀ b, fam.HeldBeside t b → (fam'.seen b).get = (fam.seen b).get

theorem Sound.unchanged (hfam : fam.Sound) (ht : fam.tables[t]? = some (some a)) :
    Changed fam t (fam.seen a).get fam := by
  refine ⟨hfam, ⟨a, ?_, rfl⟩, fun _ _ => rfl⟩
  obtain ⟨hlt, hget⟩ := List.getElem?_eq_some_iff.mp ht
  rw [← hget, set_getElem_self]

variable {κ ρ : Type} {early : FdTable ω → Except ρ κ}
  {body : κ → (Nat → Nat) → FdTable ω → FdTable ω × ρ} {m : FdMap ω}

/-- **A change made through `make_mut` reaches one table only.** -/
theorem mutate_changed (hfam : fam.Sound) (ht : fam.tables[t]? = some (some a)) {k : κ}
    (hearly : early (fam.seen a) = .ok k) {r : ρ}
    (hbody : ∀ others, ∃ T, body k others (fam.seen a) = (T, r) ∧ T.Sound ∧
      FdTable.Frame others (fam.seen a) T ∧ T.get = m) :
    Changed fam t m (fam.mutate t a early body).1 ∧ (fam.mutate t a early body).2 = r := by
  have ha : a ∈ fam.holders := mem_holders.mpr (.inl ⟨t, ht⟩)
  have halloc := hfam.allocated a ha
  have htlen : t < fam.tables.length := (List.getElem?_eq_some_iff.mp ht).1
  unfold mutate
  simp only [hearly]
  -- the storage that is written
  have hself := fam.storages.makeMut_mem_self (fam.holders.count a) (a := a)
  have hlt := fam.storages.makeMut_lt (fam.holders.count a) halloc
  have hnext := fam.storages.makeMut_next (fam.holders.count a) (a := a)
  have hold : ∀ b < fam.storages.next,
      (fam.storages.makeMut (fam.holders.count a) a).1.mem b = fam.storages.mem b := fun b hb =>
    fam.storages.makeMut_mem_of_lt _ hb
  have hne : ∀ b, fam.HeldBeside t b → b ≠ (fam.storages.makeMut (fam.holders.count a) a).2 := by
    intro b hb
    refine fam.storages.ne_makeMut _ (hfam.allocated b hb.mem) fun hba => ?_
    subst hba
    exact hb.strong ht
  generalize fam.storages.makeMut (fam.holders.count a) a = made at hself hlt hnext hold hne ⊢
  obtain ⟨h, a'⟩ := made
  simp only at hself hlt hnext hold hne ⊢
  have hseen : Family.seen { fam with storages := h, tables := fam.tables.set t (some a') } a' =
      fam.seen a := by
    simp only [Family.seen, hself]
  rw [hseen]
  generalize hothers : Family.others { fam with storages := h, tables := fam.tables.set t (some a') }
    a' = others
  obtain ⟨T, hrun, hT, hframe, hget⟩ := hbody others
  rw [hrun]
  -- who else holds a storage
  have hholders : ∀ b, b ∈ Family.holders { fam with
      storages := h.write a' T.storage, chunks := T.cells,
      tables := fam.tables.set t (some a') } → b = a' ∨ fam.HeldBeside t b := by
    intro b hb
    rcases mem_holders.mp hb with ⟨t', ht'⟩ | hd
    · simp only [List.getElem?_set] at ht'
      split at ht'
      · simp only [Option.some.injEq] at ht'
        exact .inl ht'.symm
      · rename_i hne'
        exact .inr (.inl ⟨t', Ne.symm hne', ht'⟩)
    · exact .inr (.inr hd)
  have hcells : ∀ b, fam.HeldBeside t b → ∀ c, some c ∈ (fam.storages.mem b).chunks →
      T.cells.mem c = fam.chunks.mem c := by
    intro b hb c hc
    refine hframe.held c ((hfam.seen b hb.mem).allocated c hc) ?_
    rw [← hothers]
    refine Finset.sum_pos_iff.mpr ⟨b, ?_, ?_⟩
    · rw [Finset.mem_erase, mem_toFinset]
      refine ⟨hne b hb, mem_holders.mpr ?_⟩
      rcases hb with ⟨t', hne', ht'⟩ | hd
      · exact .inl ⟨t', by simpa [List.getElem?_set, Ne.symm hne'] using ht'⟩
      · exact .inr hd
    · rw [hold b (hfam.allocated b hb.mem)]
      exact count_pos_iff.mpr hc
  have hbeside : ∀ b, fam.HeldBeside t b → (h.write a' T.storage).mem b = fam.storages.mem b := by
    intro b hb
    rw [Heap.write_mem_of_ne _ _ (hne b hb), hold b (hfam.allocated b hb.mem)]
  have hframed : ∀ b, fam.HeldBeside t b → FdTable.Sound ⟨fam.storages.mem b, T.cells⟩ ∧
      FdTable.get ⟨fam.storages.mem b, T.cells⟩ = (fam.seen b).get := fun b hb =>
    seen_frame (hfam.seen b hb.mem) hframe.next (hcells b hb)
  refine ⟨⟨⟨fun b hb => ?_, fun b hb => ?_⟩, ⟨a', rfl, ?_⟩, fun b hb => ?_⟩, rfl⟩
  · rcases hholders b hb with rfl | hb'
    · exact hlt
    · exact (hfam.allocated b hb'.mem).trans_le hnext
  · rcases hholders b hb with rfl | hb'
    · simpa [Family.seen] using hT
    · simp only [Family.seen, hbeside b hb']
      exact (hframed b hb').1
  · rw [← hget]
    simp [Family.seen]
  · simp only [Family.seen, hbeside b hb]
    exact (hframed b hb).2

/-- A function of `&mut self` that returns early without an effect, or else does `m` and returns
`r`. -/
theorem mutate_spec (hfam : fam.Sound) (ht : fam.tables[t]? = some (some a)) {r : ρ}
    (herror : ∀ r', early (fam.seen a) = .error r' → r' = r ∧ (fam.seen a).get = m)
    (hok : ∀ k, early (fam.seen a) = .ok k → ∀ others, ∃ T, body k others (fam.seen a) = (T, r) ∧
      T.Sound ∧ FdTable.Frame others (fam.seen a) T ∧ T.get = m) :
    Changed fam t m (fam.mutate t a early body).1 ∧ (fam.mutate t a early body).2 = r := by
  cases he : early (fam.seen a) with
  | error r' =>
    obtain ⟨rfl, rfl⟩ := herror r' he
    unfold mutate
    rw [he]
    exact ⟨hfam.unchanged ht, rfl⟩
  | ok k => exact mutate_changed hfam ht he (hok k he)

theorem Changed.maps {fam fam' : Family ω} (ht : fam.tables[t]? = some (some a))
    (h : Changed fam t m fam') : fam'.maps = fam.maps.set t (some m) := by
  obtain ⟨a', htables, ha'⟩ := h.table
  have hlt : t < fam.tables.length := (List.getElem?_eq_some_iff.mp ht).1
  refine ext_getElem? fun i => ?_
  unfold Family.maps
  rw [List.getElem?_map, htables, List.getElem?_set, List.getElem?_set, List.getElem?_map]
  by_cases hi : t = i
  · subst hi
    simp [hlt, ha']
  · rw [if_neg hi, if_neg hi]
    cases hslot : fam.tables[i]? with
    | none => rfl
    | some slot =>
      cases slot with
      | none => rfl
      | some b =>
        simp only [Option.map_some]
        rw [h.beside b (.inl ⟨i, Ne.symm hi, hslot⟩)]

end Family

end PulseOS.Fd
