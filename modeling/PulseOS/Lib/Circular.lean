import PulseOS.Lib.Exec

/-!
# Circular memory

A list of `n` cells addressed by unbounded positions modulo `n`.

* `window d p len` — the `len` cells from position `p` on.
* `put d p b` — `d` with `b` stored from position `p` on.
* `window_put_self`, `window_put_ahead` — a window of what was just stored, and a window that
  ends before it; `window_append` splits a window; positions matter only modulo `n`
  (`window_mod`).
* `Queue d cons prod bytes` — the memory between two wrapping 64-bit positions holds `bytes`;
  `Queue.push` and `Queue.pop` move the positions, `Queue.read` reads inside.
* `copyOut`, `copyIn` — raw copies from and to a contiguous range; `copyOut_split` and
  `copyIn_split` identify the usual pair of copies around the end with `window` and `put`.
* `Area d size` — the data area of a buffer; `Area.copyOut_eq` and `Area.copyIn_eq` are the copies
  at a position that is reduced modulo the size.
-/

namespace PulseOS.Circular

open Exec List

variable {ε α : Type}

/-- The `len` cells from position `p` on. -/
def window (d : List α) (p len : Nat) : List α :=
  (range len).filterMap fun i => d[(p + i) % d.length]?

/-- `d` with `b` stored from position `p` on. -/
def put (d : List α) (p : Nat) : List α → List α
  | [] => d
  | x :: b => put (d.set (p % d.length) x) (p + 1) b

@[simp] theorem put_length (b : List α) :
    ∀ (d : List α) (p : Nat), (put d p b).length = d.length := by
  induction b with
  | nil => intro d p; rfl
  | cons x b ih => intro d p; simp [put, ih]

variable {d : List α}

theorem mod_lt_length (hd : d ≠ []) (p : Nat) : p % d.length < d.length :=
  Nat.mod_lt _ (length_pos_iff.mpr hd)

theorem window_eq_map (hd : d ≠ []) (p len : Nat) :
    window d p len = (range len).map fun i => d.get ⟨(p + i) % d.length, mod_lt_length hd _⟩ := by
  unfold window
  rw [← filterMap_eq_map]
  congr 1
  funext i
  simp [getElem?_eq_getElem (mod_lt_length hd (p + i))]

theorem window_length (hd : d ≠ []) (p len : Nat) : (window d p len).length = len := by
  simp [window_eq_map hd]

theorem window_getElem? (hd : d ≠ []) (p : Nat) {len i : Nat} (hi : i < len) :
    (window d p len)[i]? = d[(p + i) % d.length]? := by
  rw [window_eq_map hd, getElem?_map, getElem?_range hi, Option.map_some,
    getElem?_eq_getElem (mod_lt_length hd (p + i))]
  rfl

variable {d b : List α}

/-- A list is a window as soon as it has the window's cells. -/
theorem eq_window (hd : d ≠ []) {p : Nat} (h : ∀ i < b.length, d[(p + i) % d.length]? = b[i]?) :
    window d p b.length = b := by
  apply ext_getElem?
  intro i
  by_cases hi : i < b.length
  · rw [window_getElem? hd p hi, h i hi]
  · rw [getElem?_eq_none (by rw [window_length hd]; omega), getElem?_eq_none (by omega)]

theorem window_append (hd : d ≠ []) (p a b : Nat) :
    window d p (a + b) = window d p a ++ window d (p + a) b := by
  simp only [window_eq_map hd, range_add, map_append, map_map]
  congr 1
  apply map_congr_left
  intro i _
  simp only [Function.comp_apply, Nat.add_assoc]

/-- A window that is known as a whole is known in its parts. -/
theorem window_split {d a b : List α} (hd : d ≠ []) {p : Nat}
    (hw : window d p (a ++ b).length = a ++ b) :
    window d p a.length = a ∧ window d (p + a.length) b.length = b := by
  rw [length_append, window_append hd] at hw
  exact append_inj hw (window_length hd _ _)

theorem window_mod (d : List α) (p len : Nat) : window d (p % d.length) len = window d p len := by
  simp [window]

theorem window_congr {p q : Nat} (h : p % d.length = q % d.length) (len : Nat) :
    window d p len = window d q len := by
  rw [← window_mod d p, h, window_mod]

theorem put_congr (b : List α) : ∀ {d : List α} {p q : Nat}, p % d.length = q % d.length →
    put d p b = put d q b := by
  induction b with
  | nil => intro d p q _; rfl
  | cons x b ih =>
    intro d p q h
    simp only [put, h]
    apply ih
    rw [length_set]
    exact Nat.ModEq.add_right 1 h

/-- The cells before and behind the stored range keep their contents. -/
theorem put_getElem?_other (b : List α) : ∀ {d : List α} {p k : Nat}, b.length ≤ k →
    k < d.length → (put d p b)[(p + k) % d.length]? = d[(p + k) % d.length]? := by
  induction b with
  | nil => intro d p k _ _; rfl
  | cons x b ih =>
    intro d p k hk hn
    simp only [length_cons] at hk
    have hne : p % d.length ≠ (p + k) % d.length := by
      intro he
      have hdvd := (Nat.modEq_iff_dvd' (Nat.le_add_right p k)).mp he
      rw [Nat.add_sub_cancel_left] at hdvd
      have := Nat.eq_zero_of_dvd_of_lt hdvd hn
      omega
    have := ih (d := d.set (p % d.length) x) (p := p + 1) (k := k - 1) (by omega)
      (by simp only [length_set]; omega)
    simp only [length_set, show p + 1 + (k - 1) = p + k by omega] at this
    rw [put, this, getElem?_set_ne hne]

theorem put_getElem?_self (b : List α) : ∀ {d : List α} {p i : Nat}, b.length ≤ d.length →
    i < b.length → (put d p b)[(p + i) % d.length]? = b[i]? := by
  induction b with
  | nil => intro d p i _ hi; simp at hi
  | cons x b ih =>
    intro d p i hn hi
    simp only [length_cons] at hn hi
    cases i with
    | zero =>
      -- position `p` comes around again only after a full turn
      have hother := put_getElem?_other b (d := d.set (p % d.length) x) (p := p + 1)
        (k := d.length - 1) (by omega) (by simp only [length_set]; omega)
      simp only [length_set, show p + 1 + (d.length - 1) = p + d.length by omega,
        Nat.add_mod_right] at hother
      rw [put, show p + 0 = p from rfl, hother, getElem?_set_self (Nat.mod_lt _ (by omega))]
      rfl
    | succ i =>
      have := ih (d := d.set (p % d.length) x) (p := p + 1) (i := i)
        (by simp only [length_set]; omega) (by omega)
      simp only [length_set, show p + 1 + i = p + (i + 1) by omega] at this
      rw [put, this]
      rfl

theorem put_ne_nil (hd : d ≠ []) (p : Nat) (b : List α) : put d p b ≠ [] := by
  rw [← length_pos_iff] at hd ⊢
  rwa [put_length]

/-- **What was stored is read back.** -/
theorem window_put_self (hd : d ≠ []) (p : Nat) (hb : b.length ≤ d.length) :
    window (put d p b) p b.length = b := by
  apply eq_window (put_ne_nil hd p b)
  intro i hi
  rw [put_length]
  exact put_getElem?_self b hb hi

/-- **A window that ends before the stored range, less than a turn earlier, is unchanged.** -/
theorem window_put_ahead (hd : d ≠ []) {p k len : Nat} (hlen : len ≤ k)
    (hk : k + b.length ≤ d.length) : window (put d (p + k) b) p len = window d p len := by
  have hput := put_ne_nil hd (p + k) b
  apply ext_getElem?
  intro i
  by_cases hi : i < len
  · rw [window_getElem? hput p hi, window_getElem? hd p hi, put_length]
    -- position `p + i` is `d.length - (k - i)` cells behind the start of the stored range
    have hother := put_getElem?_other b (d := d) (p := p + k) (k := d.length - (k - i))
      (by omega) (by omega)
    rw [show p + k + (d.length - (k - i)) = p + i + d.length by omega, Nat.add_mod_right] at hother
    exact hother
  · rw [getElem?_eq_none (by rw [window_length hput]; omega),
      getElem?_eq_none (by rw [window_length hd]; omega)]

/-- Two memories agree when they agree all around from some position. -/
theorem ext_from {d e : List α} (p : Nat) (hlen : d.length = e.length)
    (h : ∀ k < d.length, d[(p + k) % d.length]? = e[(p + k) % d.length]?) : d = e := by
  apply ext_getElem?
  intro j
  by_cases hj : j < d.length
  · have hp := Nat.mod_lt p (show 0 < d.length by omega)
    -- cell `j` is `(j + n - p % n) % n` cells after position `p`
    have hk := h ((j + (d.length - p % d.length)) % d.length) (Nat.mod_lt _ (by omega))
    have hpos : (p + (j + (d.length - p % d.length)) % d.length) % d.length = j := by
      rw [Nat.add_mod_mod, ← Nat.mod_add_mod,
        show p % d.length + (j + (d.length - p % d.length)) = j + d.length by omega,
        Nat.add_mod_right, Nat.mod_eq_of_lt hj]
    rwa [hpos] at hk
  · rw [getElem?_eq_none (by omega), getElem?_eq_none (by omega)]

/-- Storing over the beginning of what was stored. -/
theorem put_overwrite {d a b r : List α} (p : Nat) (hab : a.length = b.length)
    (hlen : (a ++ r).length ≤ d.length) : put (put d p (a ++ r)) p b = put d p (b ++ r) := by
  simp only [length_append] at hlen
  apply ext_from p (by simp only [put_length])
  intro k hk
  simp only [put_length] at hk ⊢
  by_cases hb : k < b.length
  · have h1 := put_getElem?_self b (d := put d p (a ++ r)) (p := p) (by rw [put_length]; omega) hb
    have h2 := put_getElem?_self (b ++ r) (d := d) (p := p) (i := k)
      (by simp only [length_append]; omega) (by simp only [length_append]; omega)
    rw [put_length] at h1
    rw [h1, h2, getElem?_append_left hb]
  · have h1 := put_getElem?_other b (d := put d p (a ++ r)) (p := p) (k := k) (by omega)
      (by rw [put_length]; exact hk)
    rw [put_length] at h1
    rw [h1]
    by_cases hr : k < b.length + r.length
    · rw [put_getElem?_self (a ++ r) (by simp only [length_append]; omega)
          (by simp only [length_append]; omega),
        put_getElem?_self (b ++ r) (by simp only [length_append]; omega)
          (by simp only [length_append]; omega),
        getElem?_append_right (by omega), getElem?_append_right (by omega), hab]
    · rw [put_getElem?_other (a ++ r) (by simp only [length_append]; omega) hk,
        put_getElem?_other (b ++ r) (by simp only [length_append]; omega) hk]

theorem put_append (a b : List α) : ∀ (d : List α) (p : Nat),
    put d p (a ++ b) = put (put d p a) (p + a.length) b := by
  induction a with
  | nil => intro d p; rfl
  | cons x a ih =>
    intro d p
    simp only [cons_append, put, ih, length_cons]
    rw [show p + 1 + a.length = p + (a.length + 1) by omega]

/-! ## Queues -/

/-- What is left to consume after `n` of it. -/
theorem left_advance {prod cons : UInt64} {n : Nat} (h : n ≤ (prod - cons).toNat) :
    (prod - (cons + UInt64.ofNat n)).toNat = (prod - cons).toNat - n := by
  have := prod.toNat_lt
  have := cons.toNat_lt
  simp only [UInt64.toNat_sub, UInt64.toNat_add, UInt64.toNat_ofNat'] at h ⊢
  omega

/-- The cells from the wrapping position `cons` up to the wrapping position `prod` hold
`bytes`. -/
structure Queue (d : List α) (cons prod : UInt64) (bytes : List α) : Prop where
  ne_nil : d ≠ []
  length_lt : d.length < 2 ^ 64
  length_dvd : d.length ∣ 2 ^ 64
  used_eq : (prod - cons).toNat = bytes.length
  used_le : bytes.length ≤ d.length
  region : window d cons.toNat bytes.length = bytes

namespace Queue

variable {d : List α} {cons prod : UInt64} {a b bytes : List α}

/-- The producer is `bytes.length` cells ahead of the consumer. -/
theorem prod_mod (h : Queue d cons prod bytes) :
    prod.toNat % d.length = (cons.toNat + bytes.length) % d.length := by
  have hp : prod.toNat = (cons.toNat + bytes.length) % 2 ^ 64 := by
    have := prod.toNat_lt
    have := cons.toNat_lt
    rw [← h.used_eq, UInt64.toNat_sub]
    omega
  rw [hp, Nat.mod_mod_of_dvd _ h.length_dvd]

/-- Storing behind the queue extends it. -/
theorem push (h : Queue d cons prod bytes) (hb : bytes.length + b.length ≤ d.length) :
    Queue (put d prod.toNat b) cons (prod + UInt64.ofNat b.length) (bytes ++ b) := by
  have hput : put d prod.toNat b = put d (cons.toNat + bytes.length) b := put_congr b h.prod_mod
  have hlt := h.length_lt
  refine ⟨put_ne_nil h.ne_nil _ _, by rwa [put_length], by rw [put_length]; exact h.length_dvd,
    ?_, by rwa [put_length, length_append], ?_⟩
  · have hu := h.used_eq
    rw [UInt64.toNat_sub] at hu
    have := prod.toNat_lt
    have := cons.toNat_lt
    simp only [UInt64.toNat_sub, UInt64.toNat_add, UInt64.toNat_ofNat', length_append]
    omega
  · rw [hput, length_append, window_append (put_ne_nil h.ne_nil _ _),
      window_put_self h.ne_nil _ (by omega), window_put_ahead h.ne_nil le_rfl hb, h.region]

/-- The front of the queue, and what follows it, are windows. -/
theorem read (h : Queue d cons prod (a ++ b)) :
    window d cons.toNat a.length = a ∧ window d (cons.toNat + a.length) b.length = b :=
  window_split h.ne_nil h.region

/-- Moving the consumer over the front shortens the queue. -/
theorem pop (h : Queue d cons prod (a ++ b)) : Queue d (cons + UInt64.ofNat a.length) prod b := by
  have hle := h.used_le
  have hlt := h.length_lt
  rw [length_append] at hle
  have hcons : (cons + UInt64.ofNat a.length).toNat % d.length =
      (cons.toNat + a.length) % d.length := by
    rw [UInt64.toNat_add, UInt64.toNat_ofNat', Nat.mod_mod_of_dvd _ h.length_dvd, Nat.add_mod,
      Nat.mod_mod_of_dvd _ h.length_dvd, ← Nat.add_mod]
  refine ⟨h.ne_nil, hlt, h.length_dvd, ?_, by omega, ?_⟩
  · have hu := h.used_eq
    rw [length_append] at hu
    rw [left_advance (by omega), hu, Nat.add_sub_cancel_left]
  · rw [window_congr hcons, h.read.2]

end Queue

/-! ## Raw copies -/

/-- `copy_nonoverlapping` out of the cells `off .. off + len`. -/
def copyOut (d : List α) (off len : Nat) : Exec ε (List α) :=
  if off + len ≤ d.length then .ok ((d.drop off).take len) else panic .memory

/-- `copy_nonoverlapping` of `b` into the cells `off .. off + b.len()`. -/
def copyIn (d : List α) (off : Nat) (b : List α) : Exec ε (List α) :=
  if off + b.length ≤ d.length then .ok (d.take off ++ b ++ d.drop (off + b.length))
  else panic .memory

theorem window_of_le (hd : d ≠ []) {off len : Nat} (h : off + len ≤ d.length) :
    window d off len = (d.drop off).take len := by
  have hlen : ((d.drop off).take len).length = len := by simp; omega
  have heq : window d off ((d.drop off).take len).length = (d.drop off).take len := by
    apply eq_window hd
    intro i hi
    rw [hlen] at hi
    rw [getElem?_take_of_lt hi, getElem?_drop, Nat.mod_eq_of_lt (by omega)]
  rwa [hlen] at heq

theorem put_of_le (b : List α) : ∀ {d : List α} {off : Nat}, off + b.length ≤ d.length →
    put d off b = d.take off ++ b ++ d.drop (off + b.length) := by
  induction b with
  | nil => intro d off _; simp [put]
  | cons x b ih =>
    intro d off h
    simp only [length_cons] at h
    rw [put, Nat.mod_eq_of_lt (by omega), ih (by simp only [length_set]; omega)]
    rw [take_set, drop_set_of_lt (by omega), take_add_one, getElem?_eq_getElem (by omega)]
    rw [set_append_right _ _ (by simp), length_take, Nat.min_eq_left (by omega)]
    simp [show off + 1 + b.length = off + (b.length + 1) by omega]

theorem copyOut_length {off len : Nat} {b : List α}
    (h : (copyOut d off len : Exec ε (List α)) = .ok b) : b.length = len := by
  unfold copyOut at h
  split at h
  · cases h
    rw [List.length_take, List.length_drop]
    omega
  · cases h

/-- The two copies around the end read a window. -/
theorem copyOut_split (hd : d ≠ []) (off len : Nat) (hoff : off < d.length)
    (hlen : len ≤ d.length) :
    (if len ≤ d.length - off then (copyOut d off len : Exec ε (List α)) else do
       let a ← copyOut d off (d.length - off)
       let b ← copyOut d 0 (len - (d.length - off))
       .ok (a ++ b)) = .ok (window d off len) := by
  split
  · rename_i h
    rw [copyOut, if_pos (by omega), window_of_le hd (by omega)]
  · rename_i h
    rw [copyOut, if_pos (by omega), copyOut, if_pos (by omega)]
    have hsplit : len = (d.length - off) + (len - (d.length - off)) := by omega
    have hwin : window d off len = window d off (d.length - off) ++
        window d 0 (len - (d.length - off)) := by
      conv_lhs => rw [hsplit]
      rw [window_append hd, show off + (d.length - off) = d.length by omega,
        ← window_mod d d.length, Nat.mod_self]
    rw [hwin, window_of_le hd (by omega), window_of_le hd (by omega)]
    rfl

/-- The two copies around the end store a range. -/
theorem copyIn_split (off : Nat) (hoff : off < d.length) (hlen : b.length ≤ d.length) :
    (if b.length ≤ d.length - off then (copyIn d off b : Exec ε (List α)) else do
       let d' ← copyIn d off (b.take (d.length - off))
       copyIn d' 0 (b.drop (d.length - off))) = .ok (put d off b) := by
  split
  · rename_i h
    rw [copyIn, if_pos (by omega), put_of_le b (by omega)]
  · rename_i h
    have hta : (b.take (d.length - off)).length = d.length - off := by simp; omega
    have hdr : (b.drop (d.length - off)).length = b.length - (d.length - off) := by simp
    rw [copyIn, if_pos (by omega), ← put_of_le _ (by omega), ok_bind, copyIn,
      if_pos (by rw [put_length]; omega), ← put_of_le _ (by rw [put_length]; omega)]
    conv_rhs => rw [← take_append_drop (d.length - off) b, put_append, hta]
    congr 1
    apply put_congr
    rw [put_length, show off + (d.length - off) = d.length by omega, Nat.mod_self, Nat.zero_mod]

/-! ## Data areas -/

/-- `d` is a data area of `size` cells, around which wrapping 64-bit positions go evenly. -/
structure Area (d : List α) (size : Nat) : Prop where
  size_pos : 0 < size
  size_lt : size < 2 ^ 64
  size_dvd : size ∣ 2 ^ 64
  length_eq : d.length = size

namespace Area

variable {size : Nat}

theorem ne_nil (h : Area d size) : d ≠ [] := by
  rw [← length_pos_iff, h.length_eq]
  exact h.size_pos

theorem stored (h : Area d size) (pos : Nat) (b : List α) : Area (put d pos b) size :=
  ⟨h.size_pos, h.size_lt, h.size_dvd, (put_length _ _ _).trans h.length_eq⟩

theorem queue_nil (h : Area d size) (pos : UInt64) : Queue d pos pos [] :=
  ⟨h.ne_nil, h.length_eq ▸ h.size_lt, h.length_eq ▸ h.size_dvd, by simp, Nat.zero_le _, rfl⟩

theorem offset_le (h : Area d size) (pos : Nat) : ¬ size < pos % size :=
  (Nat.mod_lt _ h.size_pos).not_gt

theorem copyOut_eq (h : Area d size) (pos : Nat) {len : Nat} (hlen : len ≤ size) :
    (if len ≤ size - pos % size then (copyOut d (pos % size) len : Exec ε (List α)) else do
       let a ← copyOut d (pos % size) (size - pos % size)
       let b ← copyOut d 0 (len - (size - pos % size))
       .ok (a ++ b)) = .ok (window d pos len) := by
  obtain rfl := h.length_eq
  rw [copyOut_split h.ne_nil _ _ (mod_lt_length h.ne_nil pos) hlen, window_mod]

theorem copyIn_eq (h : Area d size) (pos : Nat) (hlen : b.length ≤ size) :
    (if b.length ≤ size - pos % size then (copyIn d (pos % size) b : Exec ε (List α)) else do
       let d' ← copyIn d (pos % size) (b.take (size - pos % size))
       copyIn d' 0 (b.drop (size - pos % size))) = .ok (put d pos b) := by
  obtain rfl := h.length_eq
  rw [copyIn_split _ (mod_lt_length h.ne_nil pos) hlen, put_congr b (Nat.mod_mod _ _)]

end Area

end PulseOS.Circular
