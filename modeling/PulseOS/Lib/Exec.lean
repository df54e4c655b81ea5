import Mathlib.Tactic

/-!
# Computations that return, fail or abort

`Exec ε α` is the outcome of a Rust computation of type `Result<α, ε>`: it returns a value,
returns an error, panics, or uses up the iterations its loops were given.

* `Meets x P E` — total correctness: `x` returns a value satisfying `P` or an error
  satisfying `E`; it neither panics nor hangs.  `Meets.bind`, `Meets.mono` and the rules of
  the primitive operations compose such facts.
* `bind_eq_ok` — inversion of a successful sequence.
* indexing (`get`, `set`, `vget`, `vset`, `slice`, `copyInto`, `fillRange`) panics out of
  range, as slices and arrays do.
-/

namespace PulseOS

/-- Why a computation aborts without returning. -/
inductive Fault where
  /-- slice or array index out of range -/
  | index
  /-- arithmetic overflow in a build with overflow checks -/
  | overflow
  /-- raw-pointer access outside its allocation -/
  | memory
  deriving DecidableEq, Repr

inductive Halt (ε : Type) where
  | err (e : ε)
  | panic (f : Fault)
  | hang
  deriving DecidableEq, Repr

/-- Outcome of a computation of type `Result<α, ε>`. -/
abbrev Exec (ε α : Type) := Except (Halt ε) α

namespace Exec

variable {ε ε' α β : Type}

/-- `return Err(e)`. -/
def err (e : ε) : Exec ε α := .error (.err e)

def panic (f : Fault) : Exec ε α := .error (.panic f)

def mapErr (f : ε → ε') : Exec ε α → Exec ε' α
  | .ok a => .ok a
  | .error (.err e) => .error (.err (f e))
  | .error (.panic p) => .error (.panic p)
  | .error .hang => .error .hang

/-- The `Result` of a computation, as a value. -/
def attempt : Exec ε α → Exec ε' (Except ε α)
  | .ok a => .ok (.ok a)
  | .error (.err e) => .ok (.error e)
  | .error (.panic p) => .error (.panic p)
  | .error .hang => .error .hang

def okOr (e : ε) : Option α → Exec ε α
  | some a => .ok a
  | none => err e

@[simp] theorem ok_bind (a : α) (f : α → Exec ε β) : (Except.ok a >>= f : Exec ε β) = f a := rfl

@[simp] theorem error_bind (h : Halt ε) (f : α → Exec ε β) :
    (Except.error h >>= f : Exec ε β) = .error h := rfl

@[simp] theorem err_bind (e : ε) (f : α → Exec ε β) : (err e >>= f : Exec ε β) = err e := rfl

@[simp] theorem panic_bind (p : Fault) (f : α → Exec ε β) :
    (panic p >>= f : Exec ε β) = panic p := rfl

@[simp] theorem err_ne_ok (e : ε) (a : α) : (err e : Exec ε α) ≠ .ok a := nofun

@[simp] theorem panic_ne_ok (p : Fault) (a : α) : (panic p : Exec ε α) ≠ .ok a := nofun

variable {x : Exec ε α} {n : Nat} {v : Vector α n} {a : α} {f : α → Exec ε β} {E : ε → Prop}

theorem bind_eq_ok {b : β} : (x >>= f) = .ok b ↔ ∃ a, x = .ok a ∧ f a = .ok b := by
  cases x with
  | error h | ok a => simp

theorem bind_eq_error {h : Halt ε} :
    (x >>= f) = .error h ↔ x = .error h ∨ ∃ a, x = .ok a ∧ f a = .error h := by
  cases x with
  | error h' | ok a => simp

theorem okOr_eq_ok {e : ε} {o : Option α} : okOr e o = .ok a ↔ o = some a := by
  cases o <;> simp [okOr]

/-! ## Total correctness -/

/-- `x` returns a value satisfying `P` or an error satisfying `E`. -/
def Meets (x : Exec ε α) (P : α → Prop) (E : ε → Prop) : Prop :=
  match x with
  | .ok a => P a
  | .error (.err e) => E e
  | .error _ => False

/-- `x` returns a value satisfying `P` or some error. -/
abbrev Yields (x : Exec ε α) (P : α → Prop) : Prop := Meets x P fun _ => True

section Meets

variable {x : Exec ε α} {P Q : α → Prop} {E F : ε → Prop}

@[simp] theorem meets_ok {a : α} : Meets (.ok a : Exec ε α) P E ↔ P a := Iff.rfl

theorem yields_ok {a : α} : Yields (.ok a : Exec ε α) P ↔ P a := Iff.rfl

variable {E' : ε' → Prop} {e : ε}

section
variable (h : Meets x P E)
include h

theorem Meets.mono (hp : ∀ a, P a → Q a) (he : ∀ e, E e → F e) : Meets x Q F := by
  match x, h with
  | .ok a, h => exact hp a h
  | .error (.err e), h => exact he e h

theorem Meets.bind {f : α → Exec ε β} {R : β → Prop}
    (hf : ∀ a, P a → Meets (f a) R E) : Meets (x >>= f) R E := by
  match x, h with
  | .ok a, h => exact hf a h
  | .error (.err e), h => exact h

theorem Meets.value {a : α} (hx : x = .ok a) : P a := by
  rw [hx] at h; exact h

theorem Meets.error (hx : x = .error (.err e)) : E e := by
  rw [hx] at h; exact h

theorem Meets.not_panic (p : Fault) : x ≠ .error (.panic p) := by
  intro hx; rw [hx] at h; exact h

theorem Meets.not_hang : x ≠ .error .hang := by
  intro hx; rw [hx] at h; exact h

end

/-- A computation without errors returns. -/
theorem Meets.exists_ok (h : Meets x P fun _ => False) : ∃ a, x = .ok a ∧ P a := by
  match x, h with
  | .ok a, h => exact ⟨a, rfl, h⟩

theorem Meets.ite {c : Prop} [Decidable c] {y : Exec ε α} (hx : c → Meets x P E)
    (hy : ¬ c → Meets y P E) : Meets (if c then x else y) P E := by
  split
  · rename_i hc
    exact hx hc
  · rename_i hc
    exact hy hc

/-- The values of a computation that meets anything can be strengthened by what its own
equation says. -/
theorem Meets.with_eq (h : Meets x P E) : Meets x (fun a => P a ∧ x = .ok a) E := by
  match x, h with
  | .ok a, h => exact ⟨h, rfl⟩
  | .error (.err e), h => exact h

theorem meets_mapErr {f : ε → ε'} (h : Meets x P (fun e => E' (f e))) :
    Meets (mapErr f x) P E' := by
  match x, h with
  | .ok a, h => exact h
  | .error (.err e), h => exact h

theorem meets_attempt (h : Meets x P E) :
    Meets (attempt x : Exec ε' (Except ε α)) (fun r => match r with
        | .ok a => P a
        | .error e => E e) E' := by
  match x, h with
  | .ok a, h => exact h
  | .error (.err e), h => exact h

theorem meets_okOr {o : Option α} (hs : ∀ a, o = some a → P a) (hn : o = none → E e) :
    Meets (okOr e o) P E := by
  cases o with
  | some a => exact hs a rfl
  | none => exact hn rfl

theorem meets_okOr_bind {o : Option α} {f : α → Exec ε β} {R : β → Prop}
    (hs : ∀ a, o = some a → Meets (f a) R E) (hn : E e) : Meets (okOr e o >>= f) R E :=
  (meets_okOr (fun _ h => h) fun _ => hn).bind hs

end Meets

/-- `x` ends with `Ok` or `Err`. -/
def Returns (x : Exec ε α) : Prop := Meets x (fun _ => True) (fun _ => True)

theorem Meets.returns {P : α → Prop} (h : Meets x P E) : Returns x :=
  h.mono (fun _ _ => trivial) fun _ _ => trivial

/-- What does not return panics or hangs. -/
theorem returns_iff : Returns x ↔ x ≠ .error .hang ∧ ∀ f, x ≠ .error (.panic f) := by
  constructor
  · intro h
    exact ⟨h.not_hang, h.not_panic⟩
  · rintro ⟨hh, hp⟩
    match x, hh, hp with
    | .ok _, _, _ => trivial
    | .error (.err _), _, _ => trivial
    | .error (.panic f), _, hp => exact absurd rfl (hp f)
    | .error .hang, hh, _ => exact absurd rfl hh

/-! ## Indexing -/

section
variable (l : List α) {n : Nat} (v : Vector α n) (i : Nat)

/-- `l[i]`. -/
def get : Exec ε α :=
  match l[i]? with
  | some a => .ok a
  | none => panic .index

/-- `l[i] = a`. -/
def set (a : α) : Exec ε (List α) :=
  if i < l.length then .ok (l.set i a) else panic .index

/-- `v[i]` of an array. -/
def vget : Exec ε α :=
  if h : i < n then .ok v[i] else panic .index

/-- `v[i] = a` of an array. -/
def vset (a : α) : Exec ε (Vector α n) :=
  if h : i < n then .ok (v.set i a) else panic .index

/-- `l[a..b]`. -/
def slice (a b : Nat) : Exec ε (List α) :=
  if a ≤ b ∧ b ≤ l.length then .ok ((l.drop a).take (b - a)) else panic .index

/-- `l[a..a + src.len()].copy_from_slice(src)`. -/
def copyInto (a : Nat) (src : List α) : Exec ε (List α) :=
  if a + src.length ≤ l.length then .ok (l.take a ++ src ++ l.drop (a + src.length))
  else panic .index

/-- `v[a..b]` of an array. -/
def vslice (a b : Nat) : Exec ε (List α) := slice v.toList a b

/-- `v[a..a + src.len()].copy_from_slice(src)` of an array. -/
def vcopy (a : Nat) (src : List α) : Exec ε (Vector α n) :=
  if h : a + src.length ≤ n then
    .ok ⟨(v.toList.take a ++ src ++ v.toList.drop (a + src.length)).toArray, by simp; omega⟩
  else panic .index

/-- `for b in 0..len { v[start + b] = a }`, which is also `v[start..start + len].fill(a)`. -/
def fillRange (start : Nat) (a : α) : Nat → Exec ε (Vector α n)
  | 0 => .ok v
  | k + 1 => do
    let w ← fillRange start a k
    vset w (start + k) a

/-- `l.swap_remove(i)`: the last element takes the place of the removed one. -/
def swapRemove : Exec ε (List α) :=
  match l.getLast? with
  | some last => if i < l.length then .ok (l.set i last).dropLast else panic .index
  | none => panic .index

end

/-- `for i in 0..n { f(i)? }`. -/
def forRange (f : Nat → Exec ε Unit) : Nat → Exec ε Unit
  | 0 => .ok ()
  | k + 1 => do
    forRange f k
    f k

variable {l : List α} {i : Nat}

theorem get_of_some (h : l[i]? = some a) : (get l i : Exec ε α) = .ok a := by
  simp [get, h]

theorem get_eq_ok : (get l i : Exec ε α) = .ok a ↔ l[i]? = some a := by
  unfold get
  split <;> simp_all

theorem get_of_lt (h : i < l.length) : (get l i : Exec ε α) = .ok l[i] :=
  get_of_some (List.getElem?_eq_getElem h)

theorem set_of_lt (h : i < l.length) (a : α) : (set l i a : Exec ε (List α)) = .ok (l.set i a) := by
  simp [set, h]

theorem vget_of_lt (h : i < n) : (vget v i : Exec ε α) = .ok v[i] := by
  simp [vget, h]

theorem vget_eq_ok : (vget v i : Exec ε α) = .ok a ↔ ∃ h : i < n, v[i] = a := by
  unfold vget
  split <;> simp_all

theorem vset_of_lt (h : i < n) (a : α) : (vset v i a : Exec ε (Vector α n)) = .ok (v.set i a) := by
  simp [vset, h]

theorem slice_of_le {a b : Nat} (hab : a ≤ b) (hb : b ≤ l.length) :
    (slice l a b : Exec ε (List α)) = .ok ((l.drop a).take (b - a)) := by
  simp [slice, hab, hb]

theorem copyInto_of_le {l src : List α} {a : Nat} (h : a + src.length ≤ l.length) :
    (copyInto l a src : Exec ε (List α)) = .ok (l.take a ++ src ++ l.drop (a + src.length)) := by
  simp [copyInto, h]

/-- A fill inside the array succeeds and sets exactly the cells of its range. -/
theorem fillRange_spec (v : Vector α n) (start : Nat) (a : α) :
    ∀ len, start + len ≤ n → ∃ w, (fillRange v start a len : Exec ε (Vector α n)) = .ok w ∧
      ∀ i (hi : i < n), w[i] = if start ≤ i ∧ i < start + len then a else v[i]
  | 0, _ => ⟨v, rfl, fun i hi => by rw [if_neg (by omega)]⟩
  | k + 1, h => by
    obtain ⟨w, hw, hget⟩ := fillRange_spec v start a k (by omega)
    refine ⟨w.set (start + k) a (by omega), ?_, fun i hi => ?_⟩
    · simp [fillRange, hw, vset_of_lt (show start + k < n by omega)]
    · rw [Vector.getElem_set, hget i hi]
      by_cases he : start + k = i
      · rw [if_pos he, if_pos (by omega)]
      · rw [if_neg he]
        by_cases hr : start ≤ i ∧ i < start + k
        · rw [if_pos hr, if_pos (by omega)]
        · rw [if_neg hr, if_neg (by omega)]

/-- `swap_remove` takes out one element, up to order, and leaves the places before it alone. -/
theorem swapRemove_perm (h : l[i]? = some a) :
    ∃ r, (swapRemove l i : Exec ε (List α)) = .ok r ∧ (a :: r).Perm l ∧ r.take i = l.take i := by
  obtain ⟨hi, rfl⟩ := List.getElem?_eq_some_iff.mp h
  obtain ⟨init, last, rfl⟩ := (List.eq_nil_or_concat' l).resolve_left (by rintro rfl; simp at hi)
  refine ⟨((init ++ [last]).set i last).dropLast, ?_, ?_, ?_⟩
  · simp only [swapRemove, List.getLast?_append, List.getLast?_singleton, Option.some_or, if_pos hi]
  · rcases Nat.lt_or_ge i init.length with hlt | hge
    · rw [List.set_append_left _ _ hlt, List.dropLast_concat, List.getElem_append_left hlt]
      have hset := List.set_perm_cons_eraseIdx hlt last
      have hget := List.getElem_cons_eraseIdx_perm hlt
      exact (hset.cons _).trans ((List.Perm.swap _ _ _).trans
        ((hget.cons _).trans (List.perm_append_singleton _ _).symm))
    · have hlast : i = init.length := by simp at hi; omega
      subst hlast
      simp [List.perm_append_singleton _ _ |>.symm]
  · rw [List.dropLast_eq_take, List.take_take, List.length_set, List.take_set]
    rw [Nat.min_eq_left (by omega), List.set_eq_of_length_le (by simp)]

theorem forRange_eq_ok {f : Nat → Exec ε Unit} :
    ∀ {n : Nat}, forRange f n = .ok () ↔ ∀ i < n, f i = .ok ()
  | 0 => by simp [forRange]
  | k + 1 => by
    rw [forRange, bind_eq_ok]
    constructor
    · rintro ⟨_, hk, hf⟩ i hi
      rcases Nat.lt_succ_iff_lt_or_eq.mp hi with hlt | rfl
      · exact forRange_eq_ok.mp hk i hlt
      · exact hf
    · intro h
      exact ⟨(), forRange_eq_ok.mpr fun i hi => h i (by omega), h k (by omega)⟩

/-- A loop whose rounds all meet the empty postcondition meets it. -/
theorem forRange_meets {f : Nat → Exec ε Unit} :
    ∀ {n : Nat}, (∀ i < n, Meets (f i) (fun _ => True) E) → Meets (forRange f n) (fun _ => True) E
  | 0, _ => trivial
  | k + 1, h =>
    (forRange_meets fun i hi => h i (by omega)).bind fun _ _ => h k (by omega)

/-! ## Machine arithmetic -/

/-- The integer types whose arithmetic can overflow. -/
inductive IntTy where
  | i32
  | i64
  | usize
  deriving DecidableEq, Repr

def IntTy.lo : IntTy → Int
  | .i32 => -2 ^ 31
  | .i64 => -2 ^ 63
  | .usize => 0

/-- One above the largest value. -/
def IntTy.hi : IntTy → Int
  | .i32 => 2 ^ 31
  | .i64 => 2 ^ 63
  | .usize => 2 ^ 64

/-- Two's-complement wrap-around. -/
def IntTy.wrap : IntTy → Int → Int
  | .i32, r => Int.bmod r (2 ^ 32)
  | .i64, r => Int.bmod r (2 ^ 64)
  | .usize, r => r % 2 ^ 64

/-- The result `r` of an arithmetic operation of type `t`: out of range it panics in a build
with overflow checks and wraps around in one without. -/
def arith (checks : Bool) (t : IntTy) (r : Int) : Exec ε Int :=
  if t.lo ≤ r ∧ r < t.hi then .ok r
  else if checks then panic .overflow else .ok (t.wrap r)

theorem arith_of_fits {checks : Bool} {t : IntTy} {r : Int} (h : t.lo ≤ r ∧ r < t.hi) :
    (arith checks t r : Exec ε Int) = .ok r := by
  simp [arith, h]

/-- `r as usize` of a signed value. -/
def asUsize (r : Int) : Nat := (r % 2 ^ 64).toNat

theorem asUsize_of_nonneg {r : Int} (h0 : 0 ≤ r) (h1 : r < 2 ^ 64) : asUsize r = r.toNat := by
  unfold asUsize
  rw [Int.emod_eq_of_lt h0 h1]

theorem asUsize_natCast (h : n < 2 ^ 64) : asUsize n = n := by
  rw [asUsize_of_nonneg (by omega) (by omega), Int.toNat_natCast]

/-- `t as usize` of an `isize`. -/
def isizeAsUsize (t : Int) : Nat := if 0 ≤ t then t.toNat else (t + 2 ^ 64).toNat

theorem isizeAsUsize_of_nonneg {t : Int} (h : 0 ≤ t) : isizeAsUsize t = t.toNat := if_pos h

/-- `n as i32` of an unsigned value. -/
def asI32 (n : Nat) : Int := Int.bmod n (2 ^ 32)

theorem asI32_of_lt (h : n < 2 ^ 31) : asI32 n = n := by
  unfold asI32
  rw [Int.bmod_def]
  omega

/-- `a + b` of type `usize`. -/
def addUsize (checks : Bool) (a b : Nat) : Exec ε Nat := do
  let r ← arith checks .usize (a + b : Nat)
  .ok r.toNat

theorem addUsize_of_lt {checks : Bool} {a b : Nat} (h : a + b < 2 ^ 64) :
    (addUsize checks a b : Exec ε Nat) = .ok (a + b) := by
  rw [addUsize, arith_of_fits (by simp only [IntTy.lo, IntTy.hi]; omega), ok_bind, Int.toNat_natCast]

def checkedAdd (a b : Nat) : Option Nat := if a + b < 2 ^ 64 then some (a + b) else none

def checkedAddSigned (n : Nat) (d : Int) : Option Nat :=
  if 0 ≤ (n : Int) + d ∧ (n : Int) + d < 2 ^ 64 then some ((n : Int) + d).toNat else none

end Exec

end PulseOS
