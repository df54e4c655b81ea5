import PulseOS.Lib.Bytes
import PulseOS.Lib.Exec

/-!
# Decoders of untrusted bytes

A decoder walks a byte slice with a running offset.  It returns, fails or aborts, and it may
reserve room for a vector before it has seen the elements.

* `Metered ε α` — an outcome together with the reservations made on the way; `Safe` says that
  the computation returned and reserved nothing the input could not fill (`safe_bind`).
* `Cursor ε α` — a decoder as a function of the slice and the offset: `need`, `take`, `u32`,
  `u64`, `iterate`.
* `Reads d e a` — wherever `e` stands in a slice, `d` decodes it to `a` and stops behind it
  (`Reads.bind`, `reads_iterate`): the decoder inverts the encoder.
* `Total d P` — from every offset inside a slice `d` returns inside it, with a value that
  satisfies `P` (`Total.bind`, `total_iterate`).
* `Consumes n d` — whatever `d` decodes takes at least `n` bytes.
* `Modest d` — `d` reserves no vector its slice could not fill (`modest_need_reserve`).
-/

namespace PulseOS

open List Except

/-- `isize::MAX`, the size limit of an allocation and of a slice. -/
def ISIZE_MAX : Nat := 2 ^ 63 - 1

/-- A vector reserved for `count` elements, none of which takes fewer than `width` bytes of the
input. -/
structure Reservation where
  count : Nat
  width : Nat
  deriving DecidableEq, Repr

/-- The outcome of a computation and the vectors it reserved. -/
structure Metered (ε α : Type) where
  reserved : List Reservation
  outcome : Exec ε α

namespace Metered

variable {ε α β : Type}

def bind (x : Metered ε α) (f : α → Metered ε β) : Metered ε β :=
  match x.outcome with
  | .ok a => ⟨x.reserved ++ (f a).reserved, (f a).outcome⟩
  | .error h => ⟨x.reserved, .error h⟩

instance : Monad (Metered ε) where
  pure a := ⟨[], .ok a⟩
  bind := bind

/-- `return Err(e)`. -/
def err (e : ε) : Metered ε α := ⟨[], Exec.err e⟩

def panic (f : Fault) : Metered ε α := ⟨[], Exec.panic f⟩

/-- A loop that has used up the rounds it was given. -/
def hang : Metered ε α := ⟨[], .error .hang⟩

/-- `a + b` of type `usize`, in a build with overflow checks. -/
def add (a b : Nat) : Metered ε Nat := if a + b < 2 ^ 64 then pure (a + b) else panic .overflow

/-- `l[a..b]`. -/
def slice (l : List α) (a b : Nat) : Metered ε (List α) :=
  if a ≤ b ∧ b ≤ l.length then pure ((l.drop a).take (b - a)) else panic .index

/-- `Vec::with_capacity(count)`. -/
def reserve (count width : Nat) : Metered ε Unit := ⟨[⟨count, width⟩], .ok ()⟩

/-- `if c { return Err(e) }`. -/
def refuse (c : Prop) [Decidable c] (e : ε) : Metered ε Unit := if c then err e else pure ()

/-- The `?` of a `Result` that holds no decoder. -/
def ofExcept : Except ε α → Metered ε α
  | .ok a => pure a
  | .error e => err e

@[simp] theorem outcome_ofExcept_ok (a : α) :
    (ofExcept (.ok a) : Metered ε α).outcome = .ok a := rfl

@[simp] theorem outcome_ofExcept_error (e : ε) :
    (ofExcept (.error e) : Metered ε α).outcome = Exec.err e := rfl

@[simp] theorem outcome_pure (a : α) : (pure a : Metered ε α).outcome = .ok a := rfl

@[simp] theorem reserved_pure (a : α) : (pure a : Metered ε α).reserved = [] := rfl

@[simp] theorem outcome_err (e : ε) : (err e : Metered ε α).outcome = Exec.err e := rfl

@[simp] theorem reserved_err (e : ε) : (err e : Metered ε α).reserved = [] := rfl

@[simp] theorem outcome_reserve (n w : Nat) : (reserve n w : Metered ε Unit).outcome = .ok () := rfl

@[simp] theorem reserved_reserve (n w : Nat) :
    (reserve n w : Metered ε Unit).reserved = [⟨n, w⟩] := rfl

@[simp] theorem outcome_bind (x : Metered ε α) (f : α → Metered ε β) :
    (x >>= f).outcome = x.outcome >>= fun a => (f a).outcome := by
  change (bind x f).outcome = _
  unfold bind
  cases x.outcome <;> rfl

variable {f : α → Metered ε β} {x : Metered ε α}

theorem bind_eq_ok {b : β} :
    (x >>= f).outcome = .ok b ↔ ∃ a, x.outcome = .ok a ∧ (f a).outcome = .ok b := by
  rw [outcome_bind, Exec.bind_eq_ok]

theorem bind_of_ok {a : α} (h : x.outcome = .ok a) : (x >>= f).outcome = (f a).outcome := by
  rw [outcome_bind, h, Exec.ok_bind]

theorem reserved_bind_of_ok {a : α} (h : x.outcome = .ok a) :
    (x >>= f).reserved = x.reserved ++ (f a).reserved := by
  change (bind x f).reserved = _
  simp [bind, h]

theorem reserved_bind_of_error {h : Halt ε} (he : x.outcome = .error h) :
    (x >>= f).reserved = x.reserved := by
  change (bind x f).reserved = _
  simp [bind, he]

variable {a b : Nat}

theorem outcome_add_of_lt (h : a + b < 2 ^ 64) :
    (add a b : Metered ε Nat).outcome = .ok (a + b) := by
  rw [add, if_pos h, outcome_pure]

theorem outcome_slice_of_le {l : List α} (hab : a ≤ b) (hb : b ≤ l.length) :
    (slice l a b : Metered ε (List α)).outcome = .ok ((l.drop a).take (b - a)) := by
  simp [slice, hab, hb]

theorem add_eq_ok {c : Nat} :
    (add a b : Metered ε Nat).outcome = .ok c ↔ a + b < 2 ^ 64 ∧ c = a + b := by
  unfold add
  split
  · rename_i h
    simp only [outcome_pure, ok.injEq]
    exact ⟨fun hc => ⟨h, hc.symm⟩, fun hc => hc.2.symm⟩
  · rename_i h
    exact ⟨fun hc => absurd hc (Exec.panic_ne_ok _ _), fun hc => absurd hc.1 h⟩

theorem slice_eq_ok {l r : List α} : (slice l a b : Metered ε (List α)).outcome = .ok r ↔
      a ≤ b ∧ b ≤ l.length ∧ r = (l.drop a).take (b - a) := by
  unfold slice
  split
  · rename_i h
    simp only [outcome_pure, ok.injEq]
    exact ⟨fun hr => ⟨h.1, h.2, hr.symm⟩, fun hr => hr.2.2.symm⟩
  · rename_i h
    exact ⟨fun hr => absurd hr (Exec.panic_ne_ok _ _), fun hr => absurd ⟨hr.1, hr.2.1⟩ h⟩

theorem refuse_eq_ok {c : Prop} [Decidable c] {e : ε} {u : Unit} :
    (refuse c e).outcome = .ok u ↔ ¬ c := by
  unfold refuse
  split
  · rename_i h
    exact ⟨fun hc => absurd hc (Exec.err_ne_ok _ _), fun hc => absurd h hc⟩
  · rename_i h
    exact ⟨fun _ => h, fun _ => rfl⟩

theorem ofExcept_eq_ok {r : Except ε α} {a : α} : (ofExcept r).outcome = .ok a ↔ r = .ok a := by
  cases r with
  | ok b | error e => simp

/-! ## Computations that return and reserve with measure -/

/-- Every vector reserved could be filled from `limit` bytes of input. -/
def Within (limit : Nat) (x : Metered ε α) : Prop :=
  ∀ r ∈ x.reserved, r.count * r.width ≤ limit

/-- The computation ends with `Ok` or `Err`, and every vector it reserved could be filled from
`limit` bytes of input. -/
def Safe (limit : Nat) (x : Metered ε α) : Prop := Exec.Returns x.outcome ∧ x.Within limit

section Safe

variable {limit : Nat} {x : Metered ε α} {f : α → Metered ε β}

theorem returns_bind : Exec.Returns (x >>= f).outcome ↔
    Exec.Returns x.outcome ∧ ∀ a, x.outcome = .ok a → Exec.Returns (f a).outcome := by
  rw [outcome_bind]
  match x.outcome with
  | .ok a => simp [Exec.Returns]
  | .error (.err e) => simp [Exec.Returns, Exec.Meets]
  | .error (.panic p) => simp [Exec.Returns, Exec.Meets]
  | .error .hang => simp [Exec.Returns, Exec.Meets]

theorem within_bind : (x >>= f).Within limit ↔
    x.Within limit ∧ ∀ a, x.outcome = .ok a → (f a).Within limit := by
  unfold Within
  cases hx : x.outcome with
  | ok a =>
    rw [reserved_bind_of_ok hx]
    simp only [mem_append, ok.injEq, forall_eq']
    exact ⟨fun h => ⟨fun r hr => h r (.inl hr), fun r hr => h r (.inr hr)⟩,
      fun h r hr => hr.elim (h.1 r) (h.2 r)⟩
  | error e =>
    rw [reserved_bind_of_error hx]
    simp

/-- **A sequence is safe when its first part is, and the second is at the value it gets.** -/
theorem safe_bind : (x >>= f).Safe limit ↔
    x.Safe limit ∧ ∀ a, x.outcome = .ok a → (f a).Safe limit := by
  unfold Safe
  rw [returns_bind, within_bind]
  constructor
  · rintro ⟨⟨hr, hf⟩, hw, hg⟩
    exact ⟨⟨hr, hw⟩, fun a ha => ⟨hf a ha, hg a ha⟩⟩
  · rintro ⟨⟨hr, hw⟩, h⟩
    exact ⟨⟨hr, fun a ha => (h a ha).1⟩, hw, fun a ha => (h a ha).2⟩

@[simp] theorem safe_pure (a : α) : (pure a : Metered ε α).Safe limit := ⟨trivial, by simp [Within]⟩

@[simp] theorem safe_err (e : ε) : (err e : Metered ε α).Safe limit := ⟨trivial, by simp [Within]⟩

theorem safe_add {a b : Nat} : (add a b : Metered ε Nat).Safe limit ↔ a + b < 2 ^ 64 := by
  unfold add
  split
  · rename_i h
    exact iff_of_true (safe_pure _) h
  · rename_i h
    exact ⟨fun hs => hs.1.elim, fun hs => absurd hs h⟩

theorem safe_slice {l : List α} {a b : Nat} :
    (slice l a b : Metered ε (List α)).Safe limit ↔ a ≤ b ∧ b ≤ l.length := by
  unfold slice
  split
  · rename_i h
    simp [h]
  · rename_i h
    exact ⟨fun hs => hs.1.elim, fun hs => absurd hs h⟩

theorem safe_reserve {n w : Nat} : (reserve n w : Metered ε Unit).Safe limit ↔ n * w ≤ limit := by
  constructor
  · intro h
    exact h.2 ⟨n, w⟩ (mem_singleton.mpr rfl)
  · intro h
    refine ⟨trivial, fun r hr => ?_⟩
    rw [mem_singleton.mp hr]
    exact h

@[simp] theorem safe_refuse {c : Prop} [Decidable c] {e : ε} : (refuse c e).Safe limit := by
  unfold refuse
  split
  · exact safe_err e
  · exact safe_pure ()

@[simp] theorem safe_ofExcept {r : Except ε α} : (ofExcept r).Safe limit := by
  cases r with
  | ok a => exact safe_pure a
  | error e => exact safe_err e

theorem Within.mono {limit' : Nat} (h : x.Within limit) (hl : limit ≤ limit') : x.Within limit' :=
  fun r hr => (h r hr).trans hl

end Safe

end Metered

open Metered

/-! ## Cursors -/

/-- A decoder: reads the slice from the offset on and returns the offset behind what it read. -/
def Cursor (ε α : Type) := Bytes → Nat → Metered ε (α × Nat)

namespace Cursor

variable {ε α β σ : Type}

instance : Monad (Cursor ε) where
  pure a := fun _ off => pure (a, off)
  bind d f := fun s off => d s off >>= fun p => f p.1 s p.2

/-- `return Err(e)`. -/
def fail (e : ε) : Cursor ε α := fun _ _ => err e

/-- `if c { return Err(e) }`. -/
def refuse (c : Prop) [Decidable c] (e : ε) : Cursor ε Unit := if c then fail e else pure ()

/-- `if slice.len() < offset + n { return Err(e) }`. -/
def need (n : Nat) (e : ε) : Cursor ε Unit := fun s off => do
  let stop ← add off n
  if s.length < stop then err e else pure ((), off)

/-- `slice[offset..offset + n]`, then `offset += n`. -/
def take (n : Nat) : Cursor ε Bytes := fun s off => do
  let stop ← add off n
  let b ← slice s off stop
  pure (b, stop)

def u32 : Cursor ε UInt32 := do
  let b ← take 4
  pure (UInt32.ofNat (leNat b))

def u64 : Cursor ε UInt64 := do
  let b ← take 8
  pure (UInt64.ofNat (leNat b))

/-- `Vec::with_capacity(count)`. -/
def reserve (count width : Nat) : Cursor ε Unit := fun _ off => do
  Metered.reserve count width
  pure ((), off)

variable (d : Cursor ε α)

/-- Decoding from the start of a slice. -/
def start (s : Bytes) : Metered ε α := do
  let p ← d s 0
  pure p.1

/-- `for _ in 0..n { s = body(s)? }`. -/
def iterate (body : σ → Cursor ε σ) : Nat → σ → Cursor ε σ
  | 0, s => pure s
  | n + 1, s => body s >>= iterate body n

theorem pure_apply (a : α) (s : Bytes) (off : Nat) :
    (pure a : Cursor ε α) s off = pure (a, off) := rfl

theorem bind_apply (f : α → Cursor ε β) (s : Bytes) (off : Nat) :
    (d >>= f) s off = d s off >>= fun p => f p.1 s p.2 := rfl

variable {s : Bytes} {n off : Nat}

theorem bind_eq_ok {d : Cursor ε α} {f : α → Cursor ε β} {off' : Nat} {b : β} :
    ((d >>= f) s off).outcome = .ok (b, off') ↔
      ∃ a mid, (d s off).outcome = .ok (a, mid) ∧ (f a s mid).outcome = .ok (b, off') := by
  rw [bind_apply, Metered.bind_eq_ok, Prod.exists]

theorem outcome_need {e : ε} (h : off + n < 2 ^ 64) :
    (need n e s off).outcome = if s.length < off + n then Exec.err e else .ok ((), off) := by
  unfold need
  rw [bind_of_ok (outcome_add_of_lt h)]
  split <;> rfl

theorem outcome_take (hadd : off + n < 2 ^ 64) (h : off + n ≤ s.length) :
    (take n s off : Metered ε _).outcome = .ok ((s.drop off).take n, off + n) := by
  unfold take
  rw [bind_of_ok (outcome_add_of_lt hadd),
    bind_of_ok (outcome_slice_of_le (by omega) h), Nat.add_sub_cancel_left]
  rfl

/-! ## Decoding what was encoded -/

/-- Wherever `e` stands in a slice, `d` decodes it to `a` and stops behind it. -/
def Reads (e : Bytes) (a : α) : Prop :=
  ∀ pre post, (pre ++ e ++ post).length ≤ ISIZE_MAX →
    (d (pre ++ e ++ post) pre.length).outcome = .ok (a, pre.length + e.length)

section Reads

variable {d : Cursor ε α} {e e' : Bytes} {a : α} {b : β}

theorem reads_pure (a : α) : Reads (pure a : Cursor ε α) [] a := by
  intro pre post _
  simp [pure_apply]

variable {f : α → Cursor ε β}

theorem Reads.bind (h : Reads d e a) (hf : Reads (f a) e' b) : Reads (d >>= f) (e ++ e') b := by
  intro pre post hlen
  have hd := h pre (e' ++ post) (by simpa using hlen)
  have hb := hf (pre ++ e) post (by simpa using hlen)
  simp only [append_assoc, length_append] at hd hb ⊢
  rw [bind_apply, bind_of_ok hd, hb, Nat.add_assoc]

/-- The last field of a record. -/
theorem Reads.last (h : Reads d e a) (hf : f a = pure b) : Reads (d >>= f) e b := by
  rw [← append_nil e]
  exact h.bind (hf ▸ reads_pure b)

variable {k : Unit → Cursor ε β}

/-- A bounds check passes when the bytes that follow are there. -/
theorem reads_need {n : Nat} {err : ε} (h : Reads (k ()) e b) (hn : n ≤ e.length) :
    Reads (need n err >>= k) e b := by
  intro pre post hlen
  have hk := h pre post hlen
  unfold ISIZE_MAX at hlen
  simp only [length_append] at hlen
  have hadd : pre.length + n < 2 ^ 64 := by omega
  have hneed : (need n err (pre ++ e ++ post) pre.length).outcome = .ok ((), pre.length) := by
    rw [outcome_need hadd, if_neg (by simp; omega)]
  rw [bind_apply, bind_of_ok hneed, hk]

theorem reads_refuse {c : Prop} [Decidable c] {err : ε} (h : Reads (k ()) e b) (hc : ¬ c) :
    Reads (refuse c err >>= k) e b := by
  intro pre post hlen
  unfold refuse
  rw [if_neg hc]
  exact h pre post hlen

theorem reads_take {n : Nat} (h : e.length = n) : Reads (take n : Cursor ε Bytes) e e := by
  subst h
  intro pre post hlen
  unfold ISIZE_MAX at hlen
  simp only [length_append] at hlen
  rw [outcome_take (by omega) (by simp)]
  simp

theorem reads_u32 (x : UInt32) : Reads (u32 : Cursor ε UInt32) (leBytes 4 x.toNat) x := by
  refine (reads_take (leBytes_length 4 x.toNat)).last ?_
  have hx : x.toNat < 256 ^ 4 := x.toNat_lt
  rw [leNat_leBytes, Nat.mod_eq_of_lt hx, UInt32.ofNat_toNat]

theorem reads_u64 (x : UInt64) : Reads (u64 : Cursor ε UInt64) (leBytes 8 x.toNat) x := by
  refine (reads_take (leBytes_length 8 x.toNat)).last ?_
  have hx : x.toNat < 256 ^ 8 := x.toNat_lt
  rw [leNat_leBytes, Nat.mod_eq_of_lt hx, UInt64.ofNat_toNat]

theorem reads_reserve {n w : Nat} (h : Reads (k ()) e b) : Reads (reserve n w >>= k) e b := by
  intro pre post hlen
  exact h pre post hlen

theorem Reads.start (h : Reads d e a) (post : Bytes) (hlen : (e ++ post).length ≤ ISIZE_MAX) :
    (d.start (e ++ post)).outcome = .ok a := by
  have h0 := h [] post hlen
  rw [nil_append, length_nil, Nat.zero_add] at h0
  unfold Cursor.start
  rw [bind_of_ok h0, outcome_pure]

/-- A loop over the encodings of `xs` folds `xs`. -/
theorem reads_iterate (body : σ → Cursor ε σ) (g : σ → α → σ) (enc : α → Bytes) :
    ∀ (xs : List α), (∀ s, ∀ x ∈ xs, Reads (body s) (enc x) (g s x)) →
      ∀ s, Reads (iterate body xs.length s) (xs.flatMap enc) (xs.foldl g s)
  | [], _, s => reads_pure s
  | x :: xs, h, s =>
    (h s x (mem_cons_self ..)).bind
      (reads_iterate body g enc xs (fun s y hy => h s y (mem_cons_of_mem _ hy)) (g s x))

end Reads

/-! ## Decoding anything -/

/-- From every offset with `room` bytes behind it `d` returns; if with a value, then the value
satisfies `P` and the new offset is not before the old one and has `left` bytes behind it. -/
def Total (room left : Nat) (d : Cursor ε α) (P : α → Prop) : Prop :=
  ∀ s off, s.length ≤ ISIZE_MAX → off + room ≤ s.length →
    Exec.Meets (d s off).outcome (fun p => off ≤ p.2 ∧ p.2 + left ≤ s.length ∧ P p.1) fun _ => True

section Total

variable {d : Cursor ε α} {P Q : α → Prop} {R : β → Prop} {n m k : Nat}

theorem total_pure {a : α} (h : P a) : Total n n (pure a : Cursor ε α) P :=
  fun _ _ _ hoff => ⟨le_rfl, hoff, h⟩

theorem total_fail (e : ε) : Total n m (fail e : Cursor ε α) P := fun _ _ _ _ => trivial

theorem Total.mono (h : Total n m d P) (hpq : ∀ a, P a → Q a) : Total n m d Q :=
  fun s off hlen hoff =>
    (h s off hlen hoff).mono (fun _ hp => ⟨hp.1, hp.2.1, hpq _ hp.2.2⟩) fun _ _ => trivial

theorem Total.bind {f : α → Cursor ε β} (h : Total n m d P) (hf : ∀ a, P a → Total m k (f a) R) :
    Total n k (d >>= f) R := by
  intro s off hlen hoff
  rw [bind_apply, outcome_bind]
  refine (h s off hlen hoff).bind fun p hp => ?_
  refine (hf p.1 hp.2.2 s p.2 hlen hp.2.1).mono (fun q hq => ?_) fun _ _ => trivial
  exact ⟨hp.1.trans hq.1, hq.2⟩

theorem total_need (e : ε) (hk : k < 2 ^ 63) :
    Total n k (need k e : Cursor ε Unit) fun _ => True := by
  intro s off hlen hoff
  unfold ISIZE_MAX at hlen
  rw [outcome_need (by omega)]
  split
  · exact trivial
  · exact ⟨le_rfl, by omega, trivial⟩

theorem Total.need {e : ε} (hk : k < 2 ^ 63) (hd : Total k m d P) :
    Total n m (need k e >>= fun _ => d) P :=
  (total_need e hk).bind fun _ _ => hd

theorem total_refuse {c : Prop} [Decidable c] (e : ε) : Total n n (refuse c e) fun _ => ¬ c := by
  unfold refuse
  split
  · exact total_fail e
  · rename_i hc
    exact total_pure hc

theorem total_take (hk : m + k = n) :
    Total n m (take k : Cursor ε Bytes) fun b => b.length = k := by
  intro s off hlen hoff
  unfold ISIZE_MAX at hlen
  rw [outcome_take (by omega) (by omega)]
  refine ⟨by simp, ?_, ?_⟩
  · change off + k + m ≤ s.length
    omega
  · dsimp only
    rw [length_take, length_drop]
    omega

theorem total_u32 : Total (m + 4) m (u32 : Cursor ε UInt32) fun _ => True :=
  (total_take rfl).bind fun _ _ => total_pure trivial

theorem total_u64 : Total (m + 8) m (u64 : Cursor ε UInt64) fun _ => True :=
  (total_take rfl).bind fun _ _ => total_pure trivial

theorem total_reserve (count width : Nat) :
    Total n n (reserve count width : Cursor ε Unit) fun _ => True :=
  fun _ _ _ hoff => ⟨le_rfl, hoff, trivial⟩

/-- A loop keeps the invariant its rounds keep; the last `k` rounds start with `room k` bytes. -/
theorem total_iterate (room : Nat → Nat) (body : σ → Cursor ε σ) (I : Nat → σ → Prop)
    (hbody : ∀ k i s, I i s → Total (room (k + 1)) (room k) (body s) (I (i + 1))) :
    ∀ (rounds i : Nat) (s : σ), I i s →
      Total (room rounds) (room 0) (iterate body rounds s) (I (i + rounds))
  | 0, _, _, h => total_pure h
  | rounds + 1, i, s, h => by
    refine (hbody rounds i s h).bind fun s' hs' => ?_
    rw [Nat.add_comm rounds 1, ← Nat.add_assoc]
    exact total_iterate room body I hbody rounds (i + 1) s' hs'

end Total

/-! ## Decoders that move on -/

/-- Whatever `d` decodes takes at least `n` bytes. -/
def Consumes (n : Nat) (d : Cursor ε α) : Prop :=
  ∀ s off a next, (d s off).outcome = .ok (a, next) → off + n ≤ next

section Consumes

variable {d : Cursor ε α} {n m : Nat}

theorem consumes_pure (a : α) : Consumes 0 (pure a : Cursor ε α) := by
  intro s off b next h
  obtain ⟨-, rfl⟩ := Prod.mk.inj (ok.inj h)
  exact le_rfl

theorem Consumes.bind {f : α → Cursor ε β} (h : Consumes n d) (hf : ∀ a, Consumes m (f a)) :
    Consumes (n + m) (d >>= f) := by
  intro s off b next hb
  obtain ⟨a, mid, ha, hb⟩ := bind_eq_ok.mp hb
  have h1 := h s off a mid ha
  have h2 := hf a s mid b next hb
  omega

theorem consumes_need (k : Nat) (e : ε) : Consumes 0 (need k e) := by
  intro s off b next h
  obtain ⟨stop, -, h⟩ := Metered.bind_eq_ok.mp h
  split at h
  · exact absurd h (Exec.err_ne_ok _ _)
  · obtain ⟨-, rfl⟩ := Prod.mk.inj (ok.inj h)
    exact le_rfl

theorem consumes_take (k : Nat) : Consumes k (take k : Cursor ε Bytes) := by
  intro s off b next h
  obtain ⟨stop, hadd, h⟩ := Metered.bind_eq_ok.mp h
  obtain ⟨r, -, h⟩ := Metered.bind_eq_ok.mp h
  obtain ⟨-, rfl⟩ := Metered.add_eq_ok.mp hadd
  obtain ⟨-, rfl⟩ := Prod.mk.inj (ok.inj h)
  exact le_rfl

theorem consumes_u32 : Consumes 4 (u32 : Cursor ε UInt32) :=
  (consumes_take 4).bind fun _ => consumes_pure _

theorem consumes_u64 : Consumes 8 (u64 : Cursor ε UInt64) :=
  (consumes_take 8).bind fun _ => consumes_pure _

end Consumes

/-! ## Decoders that reserve with measure -/

/-- `d` reserves no vector its slice could not fill. -/
def Modest : Prop := ∀ s off, (d s off).Within s.length

section Modest

variable {d : Cursor ε α}

theorem modest_pure (a : α) : Modest (pure a : Cursor ε α) := fun _ _ => nofun

theorem modest_fail (e : ε) : Modest (fail e : Cursor ε α) := fun _ _ => nofun

theorem Modest.bind {f : α → Cursor ε β} (h : Modest d) (hf : ∀ a, Modest (f a)) :
    Modest (d >>= f) := by
  intro s off
  rw [bind_apply, within_bind]
  exact ⟨h s off, fun p _ => hf p.1 s p.2⟩

variable {a b limit : Nat}

theorem within_add : (add a b : Metered ε Nat).Within limit := by
  unfold add
  split <;> exact nofun

theorem within_slice {l : List α} : (slice l a b : Metered ε (List α)).Within limit := by
  unfold slice
  split <;> exact nofun

theorem modest_need (n : Nat) (e : ε) : Modest (need n e) := by
  intro s off
  unfold need
  rw [within_bind]
  refine ⟨within_add, fun stop _ => ?_⟩
  split <;> exact nofun

theorem modest_refuse {c : Prop} [Decidable c] (e : ε) : Modest (refuse c e) := by
  unfold refuse
  split
  · exact modest_fail e
  · exact modest_pure ()

theorem modest_take (n : Nat) : Modest (take n : Cursor ε Bytes) := by
  intro s off
  unfold take
  simp only [within_bind]
  exact ⟨within_add, fun _ _ => ⟨within_slice, fun _ _ => nofun⟩⟩

theorem modest_u32 : Modest (u32 : Cursor ε UInt32) := (modest_take 4).bind fun _ => modest_pure _

theorem modest_u64 : Modest (u64 : Cursor ε UInt64) := (modest_take 8).bind fun _ => modest_pure _

/-- A reservation for as many elements as the bounds check before it has found room for. -/
theorem modest_need_reserve {n w : Nat} {e : ε} {k : Unit → Cursor ε β} (hk : Modest (k ())) :
    Modest (need (n * w) e >>= fun _ => reserve n w >>= k) := by
  intro s off
  rw [bind_apply, Metered.within_bind]
  refine ⟨modest_need _ _ s off, fun p hp => ?_⟩
  have hroom : n * w ≤ s.length := by
    obtain ⟨stop, hadd, hp⟩ := Metered.bind_eq_ok.mp hp
    obtain ⟨-, rfl⟩ := Metered.add_eq_ok.mp hadd
    split at hp
    · exact absurd hp (Exec.err_ne_ok _ _)
    · omega
  rw [bind_apply, Metered.within_bind]
  refine ⟨fun r hr => ?_, fun q _ => hk s q.2⟩
  obtain rfl : r = ⟨n, w⟩ := by simpa [reserve, Metered.reserved_bind_of_ok] using hr
  exact hroom

theorem modest_iterate {body : σ → Cursor ε σ} (h : ∀ s, Modest (body s)) :
    ∀ (n : Nat) (s : σ), Modest (iterate body n s)
  | 0, s => modest_pure s
  | n + 1, s => (h s).bind fun s' => modest_iterate h n s'

end Modest

end Cursor

end PulseOS
