import PulseOS.Signal.FrameReturn

/-!
# Nested handlers and `siglongjmp`

* `Thread` — the kernel's side of a thread with the handlers that are active in user mode, and which
  delivery each saved context belongs to.
* `Op.longjmp` — user code goes back to an older frame: the handlers above it are abandoned, and the
  kernel does not learn of it.
* `returns_own` — a handler in which no `siglongjmp` has landed returns to its own frame.
* `returns_abandoned` — one in which a `siglongjmp` has landed returns to the frame of the handler
  that was abandoned.
-/

namespace PulseOS.Signal.Frame.Nesting

open Transition List Machine

/-- An active handler: its delivery, where its `ucontext` was written, and whether a `siglongjmp` out
of a handler that interrupted it has landed in it. -/
structure Handler where
  id : Nat
  ucontext : Nat
  landed : Bool
  deriving DecidableEq

/-- What a saved context belongs to. -/
structure Context where
  id : Nat
  ucontext : Nat
  /-- The handlers that were active when the signal was delivered. -/
  resumes : List Handler

structure Thread where
  machine : Machine
  /-- The innermost one first. -/
  active : List Handler
  contexts : List Context
  deliveries : Nat

inductive Act where
  /-- What neither delivers to a handler nor returns from one. -/
  | other (op : Op)
  | exec
  | deliver (sig : Nat) (act : SigAction) (trampoline : Usize) (written : Bool)
  | sigreturn (mem : Memory)
  /-- Leaves the `abandoned` innermost handlers. -/
  | longjmp (abandoned : Nat)

def isOther : Op → Bool
  | .deliverHandler _ _ _ _ | .sigreturn _ | .exec => false
  | _ => true

/-- The handler in which a `siglongjmp` lands. -/
def land : List Handler → List Handler
  | [] => []
  | h :: rest => { h with landed := true } :: rest

namespace Thread

variable (arch : Arch) (kernelAspaceBase : Nat) (t : Thread)

def Initial : Prop := t.machine.signal = .new ∧ t.active = [] ∧ t.contexts = []

def next : Act → Option Thread
  | .other op =>
    if isOther op then some { t with machine := t.machine.apply arch kernelAspaceBase op }
    else none
  | .exec => some
      { t with
        machine := t.machine.apply arch kernelAspaceBase .exec
        active := []
        contexts := [] }
  | .deliver sig act trampoline written =>
    let machine := t.machine.deliverHandler arch sig act trampoline written
    match t.machine.frameUcontext arch act written with
    | some ucontext => some
        { machine
          active := ⟨t.deliveries, ucontext, false⟩ :: t.active
          contexts := ⟨t.deliveries, ucontext, t.active⟩ :: t.contexts
          deliveries := t.deliveries + 1 }
    | none => some { t with machine }
  | .sigreturn mem =>
    match t.active, t.contexts, t.machine.restoreFromSigreturn arch kernelAspaceBase mem with
    | _ :: _, context :: contexts, (.ok _, machine) =>
      some { t with machine, contexts, active := context.resumes }
    | _ :: _, _, (.error _, machine) => some { t with machine }
    | _, _, _ => none
  | .longjmp abandoned =>
    if 0 < abandoned ∧ abandoned ≤ t.active.length then
      some { t with active := land (t.active.drop abandoned) }
    else none

/-- The condition on a step: no `siglongjmp` has landed in a handler that returns. -/
def KeepsNesting : Act → Prop
  | .sigreturn _ => ∀ h ∈ t.active.head?, h.landed = false
  | _ => True

/-- `rt_sigreturn` takes the context of the handler's own delivery. -/
def Owns (h : Handler) : Prop :=
  ∃ context contexts, t.contexts = context :: contexts ∧ context.id = h.id

/-- The last saved context is the one of the handler's `ucontext`.  Whatever is in memory, the call
succeeds exactly if the reads there do, and then restores the registers and the mask they give. -/
def Restores (h : Handler) : Prop :=
  ∃ saved rest, t.machine.signal.savedCtx = saved :: rest ∧ saved.userUcontext = some h.ucontext ∧
    ∀ mem,
      (∀ tf mask altstack fp,
        readUserSignalContext arch kernelAspaceBase mem saved h.ucontext =
          .ok (tf, mask, altstack) → restoreUserSignalFpState arch mem saved = .ok fp →
        ∃ value machine, t.machine.restoreFromSigreturn arch kernelAspaceBase mem =
            (.ok value, machine) ∧ machine.tf = tf ∧ machine.fp = fp ∧
          readUserSignalMask mem 2 h.ucontext = .ok mask ∧
          machine.signal.blocked = sanitizeMask mask ∧ machine.signal.savedCtx = rest) ∧
      ∀ value machine, t.machine.restoreFromSigreturn arch kernelAspaceBase mem =
          (.ok value, machine) → ∃ tf mask altstack fp,
        readUserSignalContext arch kernelAspaceBase mem saved h.ucontext =
          .ok (tf, mask, altstack) ∧ restoreUserSignalFpState arch mem saved = .ok fp

end Thread

/-- The saved contexts are those of the active handlers; above the context of a handler are those of
handlers that interrupted it and were abandoned. -/
inductive Matches : List Handler → List Context → Prop
  | outside {contexts : List Context} : Matches [] contexts
  | inside {h : Handler} {rest : List Handler} {context : Context} {contexts : List Context}
      (stale : List Context) : context.id = h.id → context.ucontext = h.ucontext →
      context.resumes = rest → (h.landed = false ↔ stale = []) → Matches rest contexts →
      Matches (h :: rest) (stale ++ context :: contexts)

namespace Matches

variable {contexts : List Context} {h : Handler} {rest : List Handler}

theorem tail (hm : Matches (h :: rest) contexts) : Matches (land rest) contexts := by
  cases hm with
  | @inside _ _ context contexts stale _ _ _ _ hm =>
    cases hm with
    | outside => exact .outside
    | @inside h' rest' context' contexts' stale' hid hucontext hresumes _ hm =>
      have hcontexts : stale ++ context :: (stale' ++ context' :: contexts') =
          (stale ++ context :: stale') ++ context' :: contexts' := by
        rw [append_assoc, cons_append]
      rw [hcontexts]
      refine .inside _ hid hucontext hresumes ⟨nofun, fun hnil => ?_⟩ hm
      exact absurd hnil (append_ne_nil_of_right_ne_nil stale (cons_ne_nil _ _))

theorem drop {active : List Handler} (hm : Matches active contexts) (abandoned : Nat) :
    Matches (land (active.drop (abandoned + 1))) contexts := by
  induction abandoned with
  | zero =>
    cases active with
    | nil => exact .outside
    | cons h rest => exact hm.tail
  | succ abandoned ih =>
    rw [← drop_drop]
    cases hrest : active.drop (abandoned + 1) with
    | nil => exact .outside
    | cons h rest =>
      rw [hrest] at ih
      exact ih.tail

/-- The context on top is the handler's own exactly where nothing was abandoned above it. -/
theorem top_own (hm : Matches (h :: rest) contexts) (hids : (contexts.map (·.id)).Nodup) :
    ((∃ context tail, contexts = context :: tail ∧ context.id = h.id) ↔ h.landed = false) ∧
      (h.landed = false → ∃ tail, contexts = ⟨h.id, h.ucontext, rest⟩ :: tail ∧
        Matches rest tail) := by
  cases hm with
  | @inside _ _ context contexts stale hid hucontext hresumes hstale hm =>
    constructor
    · rw [hstale]
      constructor
      · rintro ⟨top, tail, heq, htop⟩
        cases stale with
        | nil => rfl
        | cons first stale =>
          cases heq
          rw [cons_append, map_cons, nodup_cons] at hids
          refine absurd (mem_map.mpr ⟨context, ?_, hid.trans htop.symm⟩) hids.1
          exact mem_append_right stale mem_cons_self
      · intro hnil
        rw [hnil]
        exact ⟨context, contexts, rfl, hid⟩
    · intro hlanded
      rw [hstale.mp hlanded]
      refine ⟨contexts, ?_, hm⟩
      rw [← hid, ← hucontext, ← hresumes]
      rfl

end Matches

namespace Thread

variable {arch : Arch} {kernelAspaceBase : Nat} {t t' : Thread}

structure Inv (t : Thread) : Prop where
  frames : t.machine.signal.savedCtx.map (·.userUcontext) =
    t.contexts.map fun context => some context.ucontext
  fresh : ∀ context ∈ t.contexts, context.id < t.deliveries
  ids : (t.contexts.map (·.id)).Nodup
  nested : Matches t.active t.contexts

theorem apply_savedCtx (m : Machine) {op : Op} (h : isOther op = true) :
    (m.apply arch kernelAspaceBase op).signal.savedCtx = m.signal.savedCtx := by
  cases op with
  | trap | setBlockedMask | beginSigsuspend | setAltstack => rfl
  | deliverDefault =>
    unfold apply ThreadSignal.maybeRestoreSigsuspendMask
    dsimp only
    split <;> rfl
  | forceSignal =>
    unfold apply ThreadSignal.prepareForForcedSignal
    dsimp only
    split <;> rfl
  | deliverHandler | exec | sigreturn => cases h

theorem Inv.step (hi : t.Inv) {a : Act} (hk : t.KeepsNesting a)
    (h : t.next arch kernelAspaceBase a = some t') : t'.Inv := by
  cases a with
  | other op =>
    obtain ⟨hop, heq⟩ := Option.ite_none_right_eq_some.mp h
    cases heq
    refine ⟨?_, hi.fresh, hi.ids, hi.nested⟩
    rw [apply_savedCtx _ hop]
    exact hi.frames
  | exec =>
    cases h
    exact ⟨rfl, fun _ h => absurd h not_mem_nil, nodup_nil, .outside⟩
  | deliver sig act trampoline written =>
    unfold next at h
    dsimp only at h
    have hsaved := deliverHandler_savedCtx arch t.machine sig act trampoline written
    split at h
    · rename_i ucontext hucontext
      cases h
      rw [hucontext] at hsaved
      refine ⟨?_, fun context hmem => ?_, ?_, .inside [] rfl rfl rfl ⟨fun _ => rfl, fun _ => rfl⟩
        hi.nested⟩
      · dsimp only
        rw [hsaved, map_cons, map_cons, hi.frames]
      · rcases mem_cons.mp hmem with rfl | hmem
        · exact Nat.lt_succ_self _
        · exact Nat.lt_succ_of_lt (hi.fresh context hmem)
      · refine nodup_cons.mpr ⟨fun hmem => ?_, hi.ids⟩
        obtain ⟨context, hcontext, heq⟩ := mem_map.mp hmem
        exact absurd (hi.fresh context hcontext) (by rw [heq]; exact Nat.lt_irrefl _)
    · rename_i hucontext
      cases h
      rw [hucontext] at hsaved
      refine ⟨?_, hi.fresh, hi.ids, hi.nested⟩
      rw [hsaved]
      exact hi.frames
  | sigreturn mem =>
    unfold next at h
    dsimp only at h
    split at h
    · rename_i handler rest context contexts value machine hactive hcontexts hrestore
      cases h
      have hnested := hi.nested
      have hids := hi.ids
      have hframes := hi.frames
      have hlanded : handler.landed = false := by
        refine hk handler ?_
        rw [hactive]
        rfl
      rw [hactive] at hnested
      obtain ⟨tail, heq, htail⟩ := (hnested.top_own hids).2 hlanded
      rw [hcontexts] at heq hids hframes
      cases heq
      rcases restoreFromSigreturn_cases arch kernelAspaceBase t.machine mem with
        ⟨e, heq⟩ | ⟨saved, rest', tf, mask, altstack, fp, m', hsaved, -, heq, -, -, -, hrest⟩
      · rw [hrestore] at heq
        cases heq
      · rw [hrestore] at heq
        cases heq
        rw [hsaved, map_cons, map_cons] at hframes
        refine ⟨?_, fun context hmem => ?_, (nodup_cons.mp hids).2, htail⟩
        · dsimp only
          rw [hrest]
          exact (List.cons.inj hframes).2
        · exact hi.fresh context (hcontexts ▸ mem_cons_of_mem _ hmem)
    · rename_i handler rest contexts e machine hactive hrestore
      cases h
      rcases restoreFromSigreturn_cases arch kernelAspaceBase t.machine mem with
        ⟨e, heq⟩ | ⟨saved, rest', tf, mask, altstack, fp, m', -, -, heq, -⟩
      · rw [hrestore] at heq
        cases heq
        exact hi
      · rw [hrestore] at heq
        cases heq
    · cases h
  | longjmp abandoned =>
    obtain ⟨⟨hpos, -⟩, heq⟩ := Option.ite_none_right_eq_some.mp h
    cases heq
    obtain ⟨n, rfl⟩ := Nat.exists_eq_succ_of_ne_zero (Nat.ne_of_gt hpos)
    exact ⟨hi.frames, hi.fresh, hi.ids, hi.nested.drop n⟩

theorem Inv.restores (hi : t.Inv) {h : Handler} {rest : List Handler} (hactive : t.active = h :: rest)
    (hlanded : h.landed = false) : t.Restores arch kernelAspaceBase h := by
  have hnested := hi.nested
  have hframes := hi.frames
  rw [hactive] at hnested
  obtain ⟨tail, hcontexts, -⟩ := (hnested.top_own hi.ids).2 hlanded
  rw [hcontexts, map_cons] at hframes
  obtain ⟨saved, saveds, hsaved, hucontext, -⟩ := map_eq_cons_iff.mp hframes
  refine ⟨saved, saveds, hsaved, hucontext, fun mem => ?_⟩
  have hcontext : restoreUserSignalContext arch kernelAspaceBase mem saved =
      readUserSignalContext arch kernelAspaceBase mem saved h.ucontext := by
    rw [restoreUserSignalContext, hucontext]
  rw [← hcontext]
  simp only [restoreFromSigreturn, hsaved]
  constructor
  · intro tf mask altstack fp hread hfp
    rw [hread, hfp]
    exact ⟨_, _, rfl, rfl, rfl, (readUserSignalContext_ok (hcontext ▸ hread)).2.2.2.2, rfl, rfl⟩
  · intro value machine hrestore
    split at hrestore
    · cases hrestore
    · rename_i tf mask altstack hread
      split at hrestore
      · cases hrestore
      · rename_i fp hfp
        exact ⟨tf, mask, altstack, fp, hread, hfp⟩

/-- **A handler returns to its own frame exactly where no `siglongjmp` has landed in it.** -/
theorem returns_own {h : Handler} {rest : List Handler}
    (hr : Reachable Initial (Guarded KeepsNesting (Computed (next arch kernelAspaceBase))) t)
    (hactive : t.active = h :: rest) :
    (t.Owns h ↔ h.landed = false) ∧ (h.landed = false → t.Restores arch kernelAspaceBase h) := by
  have hi : t.Inv := by
    refine hr.invariant (fun t hinit => ?_) fun t a t' hi hs => hi.step hs.1 hs.2
    obtain ⟨hsignal, hactive, hcontexts⟩ := hinit
    refine ⟨?_, ?_, ?_, ?_⟩
    · rw [hsignal, hcontexts]
      rfl
    · rw [hcontexts]
      exact fun _ h => absurd h not_mem_nil
    · rw [hcontexts]
      exact nodup_nil
    · rw [hactive]
      exact .outside
  have hnested := hi.nested
  rw [hactive] at hnested
  exact ⟨(hnested.top_own hi.ids).1, hi.restores hactive⟩

/-! ## Runs -/

def KERNEL_ASPACE_BASE : Nat := 0xffffffc000000000

def start : Thread := ⟨.fresh .riscv64 0x10000, [], [], 0⟩

/-- A handler for signal 10 at `0x1000` that blocks what `mask` says. -/
def handle (mask : BitVec 64) : Act := .deliver 10 ⟨0x1000, SA_NODEFER, mask⟩ 0x2000 true

instance (t : Thread) (a : Act) : Decidable (t.KeepsNesting a) := by
  unfold KeepsNesting
  cases a <;> infer_instance

/-- A handler that was interrupted by another one returns to its own frame. -/
theorem returns_own_nested : ∃ t h rest,
    Reachable Initial (Guarded KeepsNesting (Computed (next .riscv64 KERNEL_ASPACE_BASE))) t ∧
      t.active = h :: rest ∧ h.landed = false ∧ t.Owns h ∧
      t.Restores .riscv64 KERNEL_ASPACE_BASE h ∧
      (t.machine.restoreFromSigreturn .riscv64 KERNEL_ASPACE_BASE fun _ _ => some 0).1.isOk := by
  obtain ⟨t, hr, ht⟩ : ∃ t,
      Reachable Initial (Guarded KeepsNesting (Computed (next .riscv64 KERNEL_ASPACE_BASE))) t ∧
        (t.active.head?.any (fun h => !h.landed) && (t.machine.restoreFromSigreturn .riscv64
          KERNEL_ASPACE_BASE fun _ _ => some 0).1.isOk) = true :=
    Reachable.guarded_execs (s := start) ⟨rfl, rfl, rfl⟩
      [handle 4, handle 0, .sigreturn fun _ _ => some 0] (by decide +kernel)
  rw [Bool.and_eq_true] at ht
  obtain ⟨h, hhead, hlanded⟩ := (Option.any_eq_true _ _).mp ht.1
  obtain ⟨rest, hactive⟩ := List.head?_eq_some_iff.mp hhead
  rw [Bool.not_eq_true'] at hlanded
  obtain ⟨howns, hrestores⟩ := returns_own hr hactive
  exact ⟨t, h, rest, hr, hactive, hlanded, howns.mpr hlanded, hrestores hlanded, ht.2⟩

/-- The inner of two handlers is left by `siglongjmp` to the outer one. -/
def jumped : Thread :=
  ([handle 4, handle 0, .longjmp 1].foldlM (next .riscv64 KERNEL_ASPACE_BASE) start).getD start

/-- User memory in which every mask is empty but that of the inner frame, which is as the kernel
wrote it. -/
def memory : Memory := fun _ addr =>
  some (if addr = 0xf700 + SIGINFO_FRAME_SIZE + UCONTEXT_SIGMASK_OFFSET then 4 else 0)

/-- **The outer handler returns, and the frame of the inner one is restored.** -/
theorem returns_abandoned : Reachable Initial (Computed (next .riscv64 KERNEL_ASPACE_BASE)) jumped ∧
      (∃ h, jumped.active = [h] ∧ readUserSignalMask memory 2 h.ucontext = .ok 0) ∧
      (jumped.machine.restoreFromSigreturn .riscv64 KERNEL_ASPACE_BASE memory).1.isOk ∧
      (jumped.machine.restoreFromSigreturn .riscv64 KERNEL_ASPACE_BASE memory).2.signal.blocked =
        4 := by
  have hrun : [handle 4, handle 0, .longjmp 1].foldlM (next .riscv64 KERNEL_ASPACE_BASE) start =
      some jumped := by
    have hsome : ([handle 4, handle 0, .longjmp 1].foldlM (next .riscv64 KERNEL_ASPACE_BASE)
        start).isSome = true := by decide +kernel
    obtain ⟨t, ht⟩ := Option.isSome_iff_exists.mp hsome
    unfold jumped
    rw [ht]
    rfl
  have hstart : Reachable Initial (Computed (next .riscv64 KERNEL_ASPACE_BASE)) start :=
    .start ⟨rfl, rfl, rfl⟩
  refine ⟨hstart.foldlM hrun, ⟨⟨0, 0xfc00, true⟩, by decide +kernel, rfl⟩, by decide +kernel,
    by decide +kernel⟩

end Thread

end PulseOS.Signal.Frame.Nesting
