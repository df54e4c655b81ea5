import PulseOS.Signal.Frame
import PulseOS.Lib.Transition

/-!
# What a user frame can change

* `Op` — what happens to a thread: user code runs, signals are delivered, masks are set, and
  `rt_sigreturn` reads whatever is in user memory.
* `readUserSignalContext_ok` — registers that are accepted stay below the kernel, and the status
  words are the saved ones.
* `confined` — in every state that a thread can reach, `rt_sigreturn` does nothing or gives a
  confined frame, and the mask leaves `SIGKILL` and `SIGSTOP` alone.
-/

namespace PulseOS.Signal.Frame

open Transition ThreadSignal

inductive Op where
  /-- User code has run and traps. -/
  | trap (tf : TrapFrame) (fp : FpState)
  | setBlockedMask (mask : BitVec 64)
  | beginSigsuspend (mask : BitVec 64)
  | deliverDefault
  | deliverHandler (sig : Nat) (act : SigAction) (trampoline : Usize) (written : Bool)
  | forceSignal (sig : Nat)
  | setAltstack (stack : SignalAltStack)
  | exec
  | sigreturn (mem : Memory)

namespace Machine

variable (arch : Arch) (kernelAspaceBase : Nat) (m : Machine)

def apply : Op → Machine
  | .trap tf fp => { m with tf, fp }
  | .setBlockedMask mask => { m with signal := m.signal.setBlockedMask mask }
  | .beginSigsuspend mask => { m with signal := m.signal.beginSigsuspend mask }
  | .deliverDefault => { m with signal := m.signal.maybeRestoreSigsuspendMask }
  | .deliverHandler sig act trampoline written => m.deliverHandler arch sig act trampoline written
  | .forceSignal sig => { m with signal := m.signal.prepareForForcedSignal sig }
  | .setAltstack stack => { m with signal := m.signal.setAltstack stack }
  | .exec => { m with signal := m.signal.resetRuntimeOnExec }
  | .sigreturn mem => (m.restoreFromSigreturn arch kernelAspaceBase mem).2

def Initial : Prop := m.signal = .new

def Step (op : Op) (m' : Machine) : Prop := m' = m.apply arch kernelAspaceBase op

/-- What `rt_sigreturn` may do to a thread. -/
def Returns : Except AxError Usize × Machine → Prop
  | (.error _, m') => m' = m
  | (.ok _, m') => ∃ saved rest, m.signal.savedCtx = saved :: rest ∧
      m'.tf.status = saved.tf.status ∧ m'.tf.pad = saved.tf.pad ∧
      m'.tf.pc.toNat < kernelAspaceBase ∧ (m'.tf.regs arch.sp).toNat < kernelAspaceBase

structure Confined : Prop where
  sigreturn : ∀ mem, m.Returns arch kernelAspaceBase (m.restoreFromSigreturn arch kernelAspaceBase mem)
  sigkill : m.signal.blocked.getLsbD (SIGKILL - 1) = false
  sigstop : m.signal.blocked.getLsbD (SIGSTOP - 1) = false

end Machine

theorem bind_eq_ok {α β : Type} {x : Except AxError α} {f : α → Except AxError β} {b : β} :
    x >>= f = .ok b ↔ ∃ a, x = .ok a ∧ f a = .ok b := by
  cases x with
  | error e => exact ⟨nofun, nofun⟩
  | ok a => exact ⟨fun h => ⟨a, rfl, h⟩, fun ⟨_, ha, h⟩ => by cases ha; exact h⟩

section Reads

variable {arch : Arch} {kernelAspaceBase : Nat} {mem : Memory} {saved : SavedSignalContext}
  {ucontext : Nat}

/-- **What is accepted as registers.** -/
theorem readUserSignalContext_ok {tf : TrapFrame} {mask : BitVec 64}
    {altstack : Option SignalAltStack}
    (h : readUserSignalContext arch kernelAspaceBase mem saved ucontext = .ok (tf, mask, altstack)) :
    tf.status = saved.tf.status ∧ tf.pad = saved.tf.pad ∧ tf.pc.toNat < kernelAspaceBase ∧
      (tf.regs arch.sp).toNat < kernelAspaceBase ∧ readUserSignalMask mem 2 ucontext = .ok mask := by
  obtain ⟨gregsAddr, -, h⟩ := bind_eq_ok.mp h
  obtain ⟨gregs, -, h⟩ := bind_eq_ok.mp h
  dsimp only at h
  split at h
  · cases h
  rename_i hsp
  obtain ⟨-, -, h⟩ := bind_eq_ok.mp h
  obtain ⟨pc, -, h⟩ := bind_eq_ok.mp h
  split at h
  · cases h
  rename_i hpc
  obtain ⟨-, -, h⟩ := bind_eq_ok.mp h
  obtain ⟨mask', hmask, h⟩ := bind_eq_ok.mp h
  obtain ⟨altstack', -, h⟩ := bind_eq_ok.mp h
  cases h
  exact ⟨rfl, rfl, Nat.lt_of_not_le hpc, Nat.lt_of_not_le hsp, hmask⟩

end Reads

variable (mask : BitVec 64)

theorem sanitizeMask_sigkill : (sanitizeMask mask).getLsbD (SIGKILL - 1) = false := by
  simp [sanitizeMask, sigBit, SIGKILL, SIGSTOP, NSIG]

theorem sanitizeMask_sigstop : (sanitizeMask mask).getLsbD (SIGSTOP - 1) = false := by
  simp [sanitizeMask, sigBit, SIGKILL, SIGSTOP, NSIG]

/-- The mask leaves the two signals alone. -/
def Sane : Prop :=
  mask.getLsbD (SIGKILL - 1) = false ∧ mask.getLsbD (SIGSTOP - 1) = false

theorem sane_sanitizeMask : Sane (sanitizeMask mask) :=
  ⟨sanitizeMask_sigkill mask, sanitizeMask_sigstop mask⟩

theorem Sane.and {mask : BitVec 64} (h : Sane mask) (bits : BitVec 64) : Sane (mask &&& bits) := by
  unfold Sane
  rw [BitVec.getLsbD_and, BitVec.getLsbD_and, h.1, h.2]
  exact ⟨rfl, rfl⟩

namespace Machine

variable {arch : Arch} {kernelAspaceBase : Nat} {m m' : Machine}

/-- Every saved context has a frame in user memory. -/
structure Inv (m : Machine) : Prop where
  blocked : Sane m.signal.blocked
  framed : ∀ saved ∈ m.signal.savedCtx, ∃ ucontext, saved.userUcontext = some ucontext

theorem enterAltstack_blocked (s : ThreadSignal) :
    s.enterAltstack.blocked = s.blocked ∧ s.enterAltstack.savedCtx = s.savedCtx := by
  unfold enterAltstack
  split
  · exact ⟨rfl, rfl⟩
  · split
    · exact ⟨rfl, rfl⟩
    · exact ⟨rfl, rfl⟩

/-- Where a delivery writes the `ucontext`, if it can. -/
def frameUcontext (m : Machine) (arch : Arch) (act : SigAction) (written : Bool) : Option Nat :=
  match signalFrameBase (m.tf.regs arch.sp) act.flags m.signal.altstack
      (SIGINFO_FRAME_SIZE + UCONTEXT_FRAME_SIZE), written with
  | .ok (frameBase, _), true => some (frameBase + SIGINFO_FRAME_SIZE)
  | _, _ => none

section
variable (arch : Arch) (m : Machine) (sig : Nat) (act : SigAction) (trampoline : Usize)
  (written : Bool)

theorem deliverHandler_savedCtx :
    (m.deliverHandler arch sig act trampoline written).signal.savedCtx =
      match m.frameUcontext arch act written with
      | some ucontext =>
        ⟨m.tf, m.signal.sigsuspendRestore.getD m.signal.blocked, some ucontext, m.fp⟩ ::
          m.signal.savedCtx
      | none => m.signal.savedCtx := by
  unfold deliverHandler frameUcontext
  dsimp only
  rcases signalFrameBase (m.tf.regs arch.sp) act.flags m.signal.altstack
    (SIGINFO_FRAME_SIZE + UCONTEXT_FRAME_SIZE) with e | ⟨frameBase, usedAltstack⟩
  · rfl
  · cases written with
    | false => rfl
    | true =>
      dsimp only
      unfold setBlockedMask
      split
      · rw [(enterAltstack_blocked _).2]
      · rfl

theorem deliverHandler_blocked :
    ∃ mask, (m.deliverHandler arch sig act trampoline written).signal.blocked =
      sanitizeMask mask := by
  unfold deliverHandler
  dsimp only
  split
  · exact ⟨_, rfl⟩
  · exact ⟨_, rfl⟩

end

theorem restoreFromSigreturn_cases (arch : Arch) (kernelAspaceBase : Nat) (m : Machine)
    (mem : Memory) :
    (∃ e, m.restoreFromSigreturn arch kernelAspaceBase mem = (.error e, m)) ∨
      ∃ saved rest tf mask altstack fp m', m.signal.savedCtx = saved :: rest ∧
        restoreUserSignalContext arch kernelAspaceBase mem saved = .ok (tf, mask, altstack) ∧
        m.restoreFromSigreturn arch kernelAspaceBase mem = (.ok (tf.regs arch.a0), m') ∧
        m'.tf = tf ∧ m'.fp = fp ∧ m'.signal.blocked = sanitizeMask mask ∧
        m'.signal.savedCtx = rest := by
  unfold restoreFromSigreturn
  split
  · exact .inl ⟨_, rfl⟩
  · rename_i saved rest hsaved
    split
    · exact .inl ⟨_, rfl⟩
    · rename_i tf mask altstack hcontext
      split
      · exact .inl ⟨_, rfl⟩
      · rename_i fp _
        exact .inr ⟨saved, rest, tf, mask, altstack, fp, _, hsaved, hcontext, rfl, rfl, rfl, rfl, rfl⟩

theorem Inv.step (hi : m.Inv) (op : Op) : (m.apply arch kernelAspaceBase op).Inv := by
  cases op with
  | trap | setAltstack => exact ⟨hi.blocked, hi.framed⟩
  | setBlockedMask mask | beginSigsuspend mask => exact ⟨sane_sanitizeMask mask, hi.framed⟩
  | deliverDefault =>
    unfold apply maybeRestoreSigsuspendMask
    dsimp only
    split
    · exact ⟨sane_sanitizeMask _, hi.framed⟩
    · exact hi
  | deliverHandler sig act trampoline written =>
    refine ⟨?_, ?_⟩
    · obtain ⟨mask, hmask⟩ := deliverHandler_blocked arch m sig act trampoline written
      change Sane (m.deliverHandler arch sig act trampoline written).signal.blocked
      rw [hmask]
      exact sane_sanitizeMask mask
    · intro saved hsaved
      change saved ∈ (m.deliverHandler arch sig act trampoline written).signal.savedCtx at hsaved
      rw [deliverHandler_savedCtx] at hsaved
      split at hsaved
      · rename_i ucontext _
        rcases List.mem_cons.mp hsaved with rfl | hsaved
        · exact ⟨ucontext, rfl⟩
        · exact hi.framed saved hsaved
      · exact hi.framed saved hsaved
  | forceSignal sig =>
    unfold apply prepareForForcedSignal
    dsimp only
    split
    · exact hi
    · refine ⟨?_, hi.framed⟩
      split
      · exact hi.blocked.and _
      · exact hi.blocked
  | exec => exact ⟨hi.blocked, fun saved hsaved => absurd hsaved List.not_mem_nil⟩
  | sigreturn mem =>
    unfold apply
    dsimp only
    rcases restoreFromSigreturn_cases arch kernelAspaceBase m mem with
      ⟨e, heq⟩ | ⟨saved, rest, tf, mask, altstack, fp, m', hsaved, -, heq, -, -, hblocked, hrest⟩
    · rw [heq]
      exact hi
    · rw [heq]
      refine ⟨hblocked ▸ sane_sanitizeMask mask, fun saved' hsaved' => ?_⟩
      rw [hrest] at hsaved'
      exact hi.framed saved' (hsaved ▸ List.mem_cons_of_mem saved hsaved')

theorem Inv.returns (hi : m.Inv) (mem : Memory) :
    m.Returns arch kernelAspaceBase (m.restoreFromSigreturn arch kernelAspaceBase mem) := by
  rcases restoreFromSigreturn_cases arch kernelAspaceBase m mem with
    ⟨e, heq⟩ | ⟨saved, rest, tf, mask, altstack, fp, m', hsaved, hcontext, heq, htf, -⟩
  · rw [heq]
    rfl
  · rw [heq]
    obtain ⟨ucontext, hucontext⟩ := hi.framed saved (hsaved ▸ List.mem_cons_self)
    unfold restoreUserSignalContext at hcontext
    rw [hucontext] at hcontext
    obtain ⟨hstatus, hpad, hpc, hsp, -⟩ := readUserSignalContext_ok hcontext
    rw [← htf] at hstatus hpad hpc hsp
    exact ⟨saved, rest, hsaved, hstatus, hpad, hpc, hsp⟩

/-- **A user frame cannot raise privilege.** -/
theorem confined (hr : Reachable Initial (Step arch kernelAspaceBase) m) :
    m.Confined arch kernelAspaceBase := by
  have hi : m.Inv := by
    refine hr.invariant (fun m h => ?_) fun m op m' hi hs => ?_
    · rw [Initial] at h
      refine ⟨?_, ?_⟩
      · rw [h]
        exact ⟨rfl, rfl⟩
      · rw [h]
        exact fun saved hsaved => absurd hsaved List.not_mem_nil
    · rw [hs]
      exact hi.step op
  exact ⟨hi.returns, hi.blocked.1, hi.blocked.2⟩

/-- A thread that has not run yet, with its stack at `sp`. -/
def fresh (arch : Arch) (sp : Usize) : Machine :=
  ⟨⟨fun i => if i = arch.sp then sp else 0, 0, 0, (0, 0)⟩, .default, .new⟩

/-- A thread in a handler. -/
theorem confined_in_handler : ∃ m,
    Reachable Initial (Step .riscv64 0xffffffc000000000) m ∧ m.signal.savedCtx ≠ [] ∧
      m.Confined .riscv64 0xffffffc000000000 := by
  have hstart : Reachable Initial (Step .riscv64 0xffffffc000000000) (fresh .riscv64 0x10000) :=
    .start rfl
  have hr : Reachable Initial (Step .riscv64 0xffffffc000000000)
      ((fresh .riscv64 0x10000).deliverHandler .riscv64 10 ⟨0x1000, 0, 0⟩ 0x2000 true) :=
    hstart.next (a := .deliverHandler 10 ⟨0x1000, 0, 0⟩ 0x2000 true) rfl
  refine ⟨_, hr, ?_, confined hr⟩
  rw [← List.length_pos_iff]
  decide +kernel

end Machine

end PulseOS.Signal.Frame
