import PulseOS.Bpf.PerfBuffer

/-!
# The perf buffer on hostile shared memory

Header page and data area are mapped writable into user space, so the consumer starts from any
content of them.

* `Modest` — the samples that the consumer accepts claim no more bytes than the data area has.
* `parseRound_parsing` — what a round keeps; `consumer_safe` — so the consumer stays inside, and if
  some sample claims more it does not.
* `boasting_out_of_bounds` — a sample that claims more is read past the end.
-/

namespace PulseOS.Bpf.PerfBuffer

open Exec Circular

variable (pb : PerfBuffer)

def typeAt (pos : UInt64) : UInt32 :=
  UInt32.ofNat (leNat ((window pb.data pos.toNat 8).take 4))

/-- The `raw_len` of a sample at `pos`. -/
def rawLenAt (pos : UInt64) : UInt32 :=
  UInt32.ofNat (leNat (window pb.data (pos.toNat + 8) 4))

/-- `s` is the state before some round of `parse_records`. -/
def Visits (s : ParseState) : Prop :=
  Loop.Reaches (parseRound pb.dataHead : ParseState → Exec Empty _) ⟨pb, [], 0⟩ s

/-- The size in the header at `pos`. -/
def sizeAt (pos : UInt64) : Nat :=
  (UInt16.ofNat (leNat ((window pb.data pos.toNat 8).drop 6))).toNat

/-- A sample at `pos` that passes the checks of `parse_records` on the size of a record. -/
def AcceptsSample (pos : UInt64) : Prop :=
  (pb.dataHead - pos).toNat ≠ 0 ∧
    ¬ (pb.sizeAt pos < 8 ∨ pb.sizeAt pos > pb.dataSize ∨
      pb.sizeAt pos > (pb.dataHead - pos).toNat) ∧ pb.typeAt pos = PERF_RECORD_SAMPLE

/-- Head and tail are further apart than the data area, or no accepted sample claims more bytes than
it has. -/
def Modest : Prop := (pb.dataHead - pb.dataTail).toNat ≤ pb.dataSize → ∀ s, pb.Visits s →
  pb.AcceptsSample s.pb.dataTail → (pb.rawLenAt s.pb.dataTail).toNat ≤ pb.dataSize

def allocated : PerfRecord → Nat
  | .sample _ data => data.length
  | .lost _ _ => 0

/-- Only the tail has moved, and no record is longer than the data area. -/
structure Parsing (s : ParseState) : Prop where
  eq : s.pb = { pb with dataTail := s.pb.dataTail }
  short : ∀ r ∈ s.records, allocated r ≤ pb.dataSize

/-- The consumer returns without an access outside the data area, and no record that it collects has
more bytes than it. -/
def Safe : Prop :=
  Meets (pb.parseRecords : Exec Empty _) (fun _ => True) (fun _ => False) ∧
    ((pb.dataHead - pb.dataTail).toNat ≤ pb.dataSize →
      ∀ s, pb.Visits s → ∀ r ∈ s.records, allocated r ≤ pb.dataSize)

variable {pb : PerfBuffer} {s : ParseState}

theorem Parsing.wf (hs : pb.Parsing s) (h : pb.Wf) : s.pb.Wf := by
  rw [hs.eq]
  exact h

theorem readRecord_short (h : pb.Wf) (hsize : 16 ≤ pb.dataSize) (pos : UInt64) (lostCount : UInt64)
    (hraw : pb.typeAt pos = PERF_RECORD_SAMPLE → (pb.rawLenAt pos).toNat ≤ pb.dataSize) :
    Meets (pb.readRecord (pos.toNat % pb.dataSize) (pb.typeAt pos) lostCount : Exec Empty _)
      (fun p => ∀ r ∈ p.1, allocated r ≤ pb.dataSize) (fun _ => False) := by
  unfold readRecord
  split
  · rename_i htype
    have hle : (UInt32.ofNat (leNat (window pb.data (pos.toNat + 8) 4))).toNat ≤ pb.dataSize :=
      hraw htype
    rw [Nat.mod_add_mod, Nat.mod_add_mod, readCircular_eq h _ (by omega), ok_bind]
    simp only
    rw [readCircular_eq h _ hle, ok_bind, meets_ok]
    simpa [allocated, window_length h.ne_nil] using hle
  · split
    · rw [Nat.mod_add_mod, Nat.mod_add_mod, readCircular_eq h _ (by omega), ok_bind,
        readCircular_eq h _ (by omega), ok_bind, meets_ok]
      simp [allocated]
    · simp

theorem parseRound_parsing (h : pb.Wf) (hsize : 16 ≤ pb.dataSize) (hs : pb.Parsing s)
    (hraw : pb.AcceptsSample s.pb.dataTail → (pb.rawLenAt s.pb.dataTail).toNat ≤ pb.dataSize) :
    Meets (parseRound pb.dataHead s : Exec Empty _) (fun
      | .inl s' => pb.Parsing s' ∧
          (pb.dataHead - s'.pb.dataTail).toNat < (pb.dataHead - s.pb.dataTail).toNat
      | .inr _ => True) (fun _ => False) := by
  have hwf := hs.wf h
  have hdata : s.pb.dataSize = pb.dataSize := by rw [hs.eq]
  unfold parseRound
  simp only
  split
  · trivial
  rename_i hleft
  rw [readCircular_eq hwf _ (by omega), ok_bind]
  split
  · trivial
  rename_i hfits
  have hread := readRecord_short hwf (by omega) s.pb.dataTail s.lostCount
    (by rw [hs.eq] at hleft hfits ⊢; exact fun htype => hraw ⟨hleft, hfits, htype⟩)
  refine hread.bind fun p hp => ⟨⟨by rw [hs.eq], fun r hr => ?_⟩, ?_⟩
  · rcases List.mem_append.mp hr with hr | hr
    · exact hs.short r hr
    · exact hdata ▸ hp r hr
  · simp only
    rw [left_advance (by omega)]
    omega

theorem visits_parsing (h : pb.Wf) (hsize : 16 ≤ pb.dataSize)
    (hm : ∀ s, pb.Visits s → pb.AcceptsSample s.pb.dataTail →
      (pb.rawLenAt s.pb.dataTail).toNat ≤ pb.dataSize) (hv : pb.Visits s) : pb.Parsing s := by
  induction hv with
  | refl => exact ⟨rfl, nofun⟩
  | tail hv hn hs => exact ((parseRound_parsing h hsize hs (hm _ hv)).value hn).1

theorem Modest.safe (h : pb.Wf) (hsize : 16 ≤ pb.dataSize) (hm : pb.Modest) : pb.Safe := by
  refine ⟨?_, fun hused s hv => (visits_parsing h hsize (hm hused) hv).short⟩
  unfold parseRecords
  simp only
  split
  · trivial
  rename_i hused
  have hm := hm (Nat.le_of_not_lt hused)
  have hloop : ∀ s, pb.Visits s → Loop.RoundMeets pb.Visits
      (fun s => (pb.dataHead - s.pb.dataTail).toNat) (fun _ => True)
      (fun _ : Empty => False) (parseRound pb.dataHead) s := by
    intro s hv
    have hround := parseRound_parsing h hsize (visits_parsing h hsize hm hv) (hm s hv)
    refine hround.with_eq.mono (fun r hr => ?_) fun _ he => he
    rcases r with s' | r
    · exact ⟨hv.tail hr.2, hr.1.2⟩
    · trivial
  exact Loop.iter_meets hloop _ _ .refl (Nat.lt_succ_self _)

/-- Whatever the consumer has collected, only the tail has moved. -/
theorem parseRound_pb {s' : ParseState} {head : UInt64}
    (h : (parseRound head s : Exec Empty _) = .ok (.inl s')) :
    s'.pb = { s.pb with dataTail := s'.pb.dataTail } := by
  unfold parseRound at h
  simp only at h
  split at h
  · cases h
  obtain ⟨_, -, h⟩ := bind_eq_ok.mp h
  split at h
  · cases h
  obtain ⟨_, -, h⟩ := bind_eq_ok.mp h
  cases h
  rfl

theorem Visits.eq (hv : pb.Visits s) : s.pb = { pb with dataTail := s.pb.dataTail } := by
  induction hv with
  | refl => rfl
  | tail _ hn ih => rw [parseRound_pb hn, ih]

theorem readCircular_length {off len : Nat} {b : Bytes}
    (h : (pb.readCircular off len : Exec Empty _) = .ok b) : b.length = len := by
  unfold readCircular at h
  split at h
  · cases h
  simp only at h
  split at h
  · exact copyOut_length h
  · obtain ⟨a, ha, h⟩ := bind_eq_ok.mp h
    obtain ⟨b, hb, h⟩ := bind_eq_ok.mp h
    cases h
    rw [List.length_append, copyOut_length ha, copyOut_length hb]
    omega

/-- An accepted sample makes the round fail, or is collected with all the bytes that it claims. -/
theorem parseRound_sample (h : pb.Wf) (hsize : 16 ≤ pb.dataSize) (hv : pb.Visits s)
    (hsample : pb.AcceptsSample s.pb.dataTail) :
    (∃ halt, (parseRound pb.dataHead s : Exec Empty _) = .error halt) ∨
      ∃ s' rawLen data, (parseRound pb.dataHead s : Exec Empty _) = .ok (.inl s') ∧
        .sample rawLen data ∈ s'.records ∧ data.length = (pb.rawLenAt s.pb.dataTail).toNat := by
  obtain ⟨hleft, hfits, htype⟩ := hsample
  have heq := hv.eq
  have hwf : s.pb.Wf := by
    rw [heq]
    exact h
  have hdata : s.pb.dataSize = pb.dataSize := by rw [heq]
  have hraw : UInt32.ofNat (leNat (window s.pb.data (s.pb.dataTail.toNat + 8) 4)) =
      pb.rawLenAt s.pb.dataTail := by rw [heq]; rfl
  unfold parseRound
  simp only
  rw [if_neg hleft, readCircular_eq hwf _ (by omega), ok_bind, if_neg (by rw [heq]; exact hfits)]
  unfold readRecord
  rw [if_pos (by rw [heq]; exact htype), Nat.mod_add_mod, Nat.mod_add_mod,
    readCircular_eq hwf _ (by omega), ok_bind]
  simp only [hraw]
  cases hread : (s.pb.readCircular ((s.pb.dataTail.toNat + 12) % s.pb.dataSize)
      (pb.rawLenAt s.pb.dataTail).toNat : Exec Empty _) with
  | error halt => exact .inl ⟨halt, rfl⟩
  | ok data =>
    exact .inr ⟨_, _, data, rfl, List.mem_append_right _ List.mem_cons_self,
      readCircular_length hread⟩

/-- **The consumer of a perf buffer is safe on shared memory if and only if its samples are
modest.** -/
theorem consumer_safe {n : Nat} (pb : PerfBuffer) (hpages : PagesAccepted n)
    (hsize : pb.dataSize = n * 4096) (hlen : pb.data.length = pb.dataSize) :
    pb.Safe ↔ pb.Modest := by
  have hwf := hpages.wf hsize hlen
  have hpage : 16 ≤ pb.dataSize := by
    have := hpages.1
    omega
  refine ⟨fun hsafe hused s hv hsample => ?_, Modest.safe hwf hpage⟩
  rcases parseRound_sample hwf hpage hv hsample with
    ⟨halt, hround⟩ | ⟨s', rawLen, data, hround, hmem, hdata⟩
  · have hmeets := hsafe.1
    unfold parseRecords at hmeets
    simp only [if_neg (Nat.not_lt.mpr hused)] at hmeets
    have hnot : Loop.iter (parseRound pb.dataHead) ((pb.dataHead - pb.dataTail).toNat + 1)
        ⟨pb, [], 0⟩ ≠ (.error .hang : Exec Empty ParseResult) := by
      intro hhang
      rw [hhang] at hmeets
      exact hmeets
    rw [Loop.iter_of_reaches hv hround hnot] at hmeets
    rcases halt with e | p | _
    · exact e.elim
    · exact hmeets.elim
    · exact hmeets.elim
  · rw [← hdata]
    exact hsafe.2 hused s' (hv.tail hround) _ hmem

/-- A page with a sample that claims `2 ^ 32 - 1` bytes. -/
def boasting (head : UInt64) : PerfBuffer :=
  ⟨4096, headerBytes PERF_RECORD_SAMPLE 16 ++ leBytes 4 0xffffffff ++ zeros 4084, head, 0, 0, 0, 0,
    0⟩

/-- A sample of four bytes is collected, and the claim behind the head is not looked at. -/
def restrained : PerfBuffer :=
  ⟨4096, headerBytes PERF_RECORD_SAMPLE 16 ++ leBytes 4 4 ++ zeros 4 ++
    headerBytes PERF_RECORD_SAMPLE 0 ++ leBytes 4 0xffffffff ++ zeros 4068, 32, 0, 0, 0, 0, 0⟩

theorem consumer_safe_restrained : restrained.Modest ∧ restrained.Safe := by
  have hm : restrained.Modest := by
    intro _ s hv
    refine Loop.forall_reaches (P := fun s => restrained.AcceptsSample s.pb.dataTail →
      (restrained.rawLenAt s.pb.dataTail).toNat ≤ restrained.dataSize) (n := 2) ?_ ?_ s hv
    · have hend : (Loop.after (parseRound restrained.dataHead : ParseState → Exec Empty _) 2
          ⟨restrained, [], 0⟩).isNone = true := by decide +kernel
      exact Option.isNone_iff_eq_none.mp hend
    · unfold AcceptsSample
      decide +kernel
  exact ⟨hm, (consumer_safe (n := 1) restrained (by decide) rfl (by decide +kernel)).mpr hm⟩

/-- The consumer reads past the data area. -/
theorem boasting_out_of_bounds : ((boasting 16).parseRecords : Exec Empty _) = panic .memory := by
  decide +kernel

end PulseOS.Bpf.PerfBuffer
