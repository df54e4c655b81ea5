import PulseOS.Bpf.PerfBuffer

/-!
# The perf buffer returns the samples it accepted

Calls of `outputSampleWithId` and `parseRecords` on one buffer, against the queue of records
that were stored and not yet returned.

* `Holds pb pending` — the bytes between tail and head are exactly the records `pending`, each
  short enough for the 16-bit size of its header.
* `call_holds` and `run_holds` — one call, and every sequence of calls, move records as a queue
  does.
* `roundTrip_iff` — so the samples come back at page counts whose records all have a size below
  `2 ^ 16`.
-/

namespace PulseOS.Bpf.PerfBuffer

open Exec List Circular UInt32

/-! ## Calls -/

inductive Op where
  | output (id : UInt64) (data : Bytes)
  | parseRecords

inductive Event where
  | output (data : Bytes) (result : Except LinuxError Unit)
  | parseRecords (result : Except ConsumerErrorCounters (List PerfRecord × UInt64))

open Event

def call (pb : PerfBuffer) : Op → Exec Empty (Event × PerfBuffer)
  | .output id data => do
    let (r, pb') ← pb.outputSampleWithId id data
    .ok (.output data r, pb')
  | .parseRecords => do
    let (r, pb') ← pb.parseRecords
    .ok (.parseRecords r, pb')

def run (pb : PerfBuffer) : List Op → Exec Empty (List Event × PerfBuffer)
  | [] => .ok ([], pb)
  | op :: ops => do
    let (e, pb') ← pb.call op
    let (es, pb'') ← run pb' ops
    .ok (e :: es, pb'')

/-- The payloads of the samples among `records`. -/
def samples (records : List PerfRecord) : List Bytes :=
  records.flatMap fun
    | .sample _ data => [data]
    | .lost _ _ => []

/-- Payloads of the output calls that returned `Ok`. -/
def Event.accepted : Event → List Bytes
  | .output data (.ok ()) => [data]
  | _ => []

/-- Sample payloads that `parse_records` returned. -/
def Event.returned : Event → List Bytes
  | .parseRecords (.ok (records, _)) => samples records
  | _ => []

def Event.Parsed : Event → Prop
  | .parseRecords (.error _) => False
  | _ => True

/-- The calls `ops` on `pb` and one more `parse_records` return the accepted samples. -/
def RoundTrip (pb : PerfBuffer) (ops : List Op) : Prop :=
  ∃ events pb₁ records lost pb₂, pb.run ops = .ok (events, pb₁) ∧
    (pb₁.parseRecords : Exec Empty ParseResult) = .ok (.ok (records, lost), pb₂) ∧
    (∀ e ∈ events, e.Parsed) ∧
    events.flatMap returned ++ samples records = events.flatMap accepted

/-! ## The invariant -/

def encode : PerfRecord → Bytes
  | .sample _ data => sampleRecord data
  | .lost id lost => lostRecord id lost

/-- The record's size and length fields hold its size and length. -/
def Short : PerfRecord → Prop
  | .sample rawLen data => sampleRecSize data.length < 2 ^ 16 ∧ rawLen = ofNat data.length
  | .lost _ _ => True

/-- The bytes between tail and head are the records `pending`. -/
structure Holds (pb : PerfBuffer) (pending : List PerfRecord) : Prop where
  wf : pb.Wf
  queue : Queue pb.data pb.dataTail pb.dataHead (pending.flatMap encode)
  short : ∀ r ∈ pending, Short r

variable {pb : PerfBuffer} {pending : List PerfRecord}

theorem Holds.used_eq (h : pb.Holds pending) :
    pb.used = (pending.flatMap encode).length := h.queue.used_eq

theorem Holds.used_le (h : pb.Holds pending) : pb.used ≤ pb.dataSize := by
  rw [h.used_eq, ← h.wf.length_eq]
  exact h.queue.used_le

variable {n : Nat} {r : PerfRecord} {data : Bytes}

theorem new_holds (h : new n = .ok pb) : pb.Holds [] := by
  obtain ⟨hwf, -, -, hhead, htail, -⟩ := new_fresh h
  refine ⟨hwf, ?_, nofun⟩
  rw [hhead, htail]
  exact hwf.queue_nil 0

theorem pushed_wf (h : pb.Wf) (bytes : Bytes) : (pb.pushed bytes).Wf :=
  Area.stored h _ _

theorem pushed_queue {q : Bytes}
    (hq : Queue pb.data pb.dataTail pb.dataHead q) (bytes : Bytes)
    (hfits : q.length + bytes.length ≤ pb.data.length) :
    Queue (pb.pushed bytes).data (pb.pushed bytes).dataTail (pb.pushed bytes).dataHead
      (q ++ bytes) :=
  hq.push hfits

theorem pushed_holds (h : pb.Holds pending) (new : List PerfRecord)
    (hfits : pb.used + (new.flatMap encode).length ≤ pb.dataSize) (hnew : ∀ r ∈ new, Short r) :
    (pb.pushed (new.flatMap encode)).Holds (pending ++ new) := by
  rw [h.used_eq, ← h.wf.length_eq] at hfits
  refine ⟨pushed_wf h.wf _, ?_, ?_⟩
  · rw [flatMap_append]
    exact pushed_queue h.queue _ hfits
  · intro r hr
    rcases mem_append.mp hr with hr | hr
    · exact h.short r hr
    · exact hnew r hr

/-- The loss counters are no part of the invariant. -/
theorem Holds.lose (h : pb.Holds pending) : pb.lose.Holds pending :=
  ⟨h.wf, h.queue, h.short⟩

theorem Holds.resetLost (h : pb.Holds pending) : pb.resetLost.Holds pending :=
  ⟨h.wf, h.queue, h.short⟩

/-! ## The consumer -/

theorem headerBytes_type (ty : UInt32) (size : UInt16) :
    UInt32.ofNat (leNat ((headerBytes ty size).take 4)) = ty := by
  have hlt := ty.toNat_lt
  rw [headerBytes, take_append_of_le_length (by simp), take_of_length_le (by simp),
    leNat_leBytes, Nat.mod_eq_of_lt (by omega), UInt32.ofNat_toNat]

theorem headerBytes_size (ty : UInt32) (size : UInt16) :
    UInt16.ofNat (leNat ((headerBytes ty size).drop 6)) = size := by
  have hlt := size.toNat_lt
  have hdrop : (headerBytes ty size).drop 6 = leBytes 2 size.toNat := by
    rw [headerBytes, ← append_assoc, drop_append_of_le_length (by simp),
      drop_of_length_le (by simp), nil_append]
  rw [hdrop, leNat_leBytes, Nat.mod_eq_of_lt (by omega), UInt16.ofNat_toNat]

/-- `pb` after one record of `size` bytes was consumed. -/
def advance (pb : PerfBuffer) (size : Nat) : PerfBuffer :=
  { pb with dataTail := pb.dataTail + UInt64.ofNat size }

theorem advance_holds (h : pb.Holds (r :: pending)) :
    (pb.advance (encode r).length).Holds pending := by
  have hq := h.queue
  rw [flatMap_cons] at hq
  exact ⟨h.wf, hq.pop,
    fun q hq => h.short q (mem_cons_of_mem _ hq)⟩

theorem readRecord_encode (h : pb.Wf) (hr : Short r) (hle : (encode r).length ≤ pb.dataSize)
    (hw : window pb.data pb.dataTail.toNat (encode r).length = encode r) (lostCount : UInt64) :
    ∃ ty size lostCount' rest, encode r = headerBytes ty size ++ rest ∧
      size.toNat = (encode r).length ∧
      (pb.readRecord (pb.dataTail.toNat % pb.dataSize) ty lostCount : Exec Empty _) =
        .ok ([r], lostCount') := by
  cases r with
  | sample rawLen data =>
    obtain ⟨hsize, rfl⟩ := hr
    have hb := sampleRecSize_bounds data.length
    have hlen : (ofNat data.length).toNat = data.length := by
      rw [toNat_ofNat', Nat.mod_eq_of_lt (by omega)]
    simp only [encode, sampleRecord_length] at hle
    obtain ⟨-, hbody⟩ := window_split h.ne_nil hw
    obtain ⟨hraw, hrest⟩ := window_split h.ne_nil hbody
    obtain ⟨hdata, -⟩ := window_split h.ne_nil hrest
    simp only [headerBytes_length, leBytes_length, Nat.add_assoc, Nat.reduceAdd] at hraw hdata
    have hdecode : ofNat (leNat (leBytes 4 (ofNat data.length).toNat)) = ofNat data.length := by
      rw [leNat_leBytes, hlen, Nat.mod_eq_of_lt (by omega)]
    refine ⟨PERF_RECORD_SAMPLE, UInt16.ofNat (sampleRecSize data.length), lostCount, _, rfl, ?_, ?_⟩
    · rw [encode, sampleRecord_length, UInt16.toNat_ofNat', Nat.mod_eq_of_lt (by omega)]
    · rw [readRecord, if_pos rfl, Nat.mod_add_mod, Nat.mod_add_mod,
        readCircular_eq h _ (by omega), ok_bind, hraw]
      simp only [hdecode]
      rw [readCircular_eq h _ (by rw [hlen]; omega), ok_bind, hlen, hdata]
  | lost id lost =>
    simp only [encode, lostRecord_length, lostRecSize] at hle
    obtain ⟨-, hbody⟩ := window_split h.ne_nil hw
    obtain ⟨hid, hlost⟩ := window_split h.ne_nil hbody
    simp only [headerBytes_length, leBytes_length, Nat.add_assoc, Nat.reduceAdd] at hid hlost
    have hdecode : ∀ v : UInt64, UInt64.ofNat (leNat (leBytes 8 v.toNat)) = v := by
      intro v
      have := v.toNat_lt
      rw [leNat_leBytes, Nat.mod_eq_of_lt (by omega), UInt64.ofNat_toNat]
    refine ⟨PERF_RECORD_LOST, UInt16.ofNat lostRecSize, Saturating.addU64 lostCount lost, _, rfl, ?_, ?_⟩
    · rw [encode, lostRecord_length]
      rfl
    · rw [readRecord, if_neg (by decide), if_pos rfl, Nat.mod_add_mod, Nat.mod_add_mod,
        readCircular_eq h _ (by omega), ok_bind, readCircular_eq h _ (by omega), ok_bind, hid,
        hlost]
      simp only [hdecode]

/-- One round of the consumer takes the oldest record. -/
theorem parseRound_record {s : ParseState} (h : s.pb.Holds (r :: pending)) :
    ∃ lostCount, (parseRound s.pb.dataHead s : Exec Empty _) =
      .ok (.inl ⟨s.pb.advance (encode r).length, s.records ++ [r], lostCount⟩) := by
  have hq := h.queue
  have hused := h.used_eq
  have hle := h.used_le
  rw [flatMap_cons] at hq hused
  rw [length_append] at hused
  obtain ⟨ty, size, lostCount', rest, henc, hsize, hread⟩ := readRecord_encode h.wf
    (h.short r mem_cons_self) (by omega) hq.read.1 s.lostCount
  have hlen : 8 ≤ (encode r).length := by
    rw [henc, length_append, headerBytes_length]
    omega
  have hhead := hq.read.1
  rw [henc] at hhead
  obtain ⟨hhdr, -⟩ := window_split h.wf.ne_nil hhead
  rw [headerBytes_length] at hhdr
  have hleft : (s.pb.dataHead - s.pb.dataTail).toNat = s.pb.used := rfl
  refine ⟨lostCount', ?_⟩
  unfold parseRound
  simp only [hleft]
  rw [if_neg (by omega), readCircular_eq h.wf _ (by omega), ok_bind, hhdr, headerBytes_type,
    headerBytes_size, hsize, if_neg (by omega), hread, ok_bind]
  rfl

/-- **`parse_records` returns all pending records, oldest first.** -/
theorem parseRecords_holds (h : pb.Holds pending) :
    ∃ lost pb', (pb.parseRecords : Exec Empty ParseResult) = .ok (.ok (pending, lost), pb') ∧
      pb'.Holds [] ∧ pb'.dataSize = pb.dataSize := by
  -- the invariant: the records so far and those still in the buffer make up `pending`
  let Inv : ParseState → Prop := fun s => ∃ rest, s.pb.Holds rest ∧ s.records ++ rest = pending ∧
    s.pb.dataHead = pb.dataHead ∧ s.pb.dataSize = pb.dataSize
  have hround : ∀ s, Inv s → Loop.RoundMeets Inv (fun s => s.pb.used)
      (fun r => ∃ lost pb', r = (.ok (pending, lost), pb') ∧ pb'.Holds [] ∧
        pb'.dataSize = pb.dataSize)
      (fun _ : Empty => True) (parseRound pb.dataHead) s := by
    rintro s ⟨rest, hs, hrecs, hhead, hsize⟩
    unfold Loop.RoundMeets
    cases rest with
    | nil =>
      have hzero : (pb.dataHead - s.pb.dataTail).toNat = 0 := by
        have := hs.used_eq
        rw [used, hhead] at this
        exact this
      rw [append_nil] at hrecs
      simp only [parseRound, hzero, if_true, meets_ok]
      exact ⟨s.lostCount, s.pb, by rw [hrecs], hs, hsize⟩
    | cons r rest =>
      obtain ⟨lostCount, hround⟩ := parseRound_record hs
      have hused := hs.used_eq
      have hused' := (advance_holds hs).used_eq
      have hpos : 0 < (encode r).length := by
        cases r with
        | sample _ data =>
          have := sampleRecSize_bounds data.length
          rw [encode, sampleRecord_length]
          omega
        | lost id lost => rw [encode, lostRecord_length]; decide
      rw [flatMap_cons, length_append] at hused
      rw [← hhead, hround, meets_ok]
      refine ⟨⟨rest, advance_holds hs, ?_, hhead, hsize⟩, ?_⟩
      · rw [← hrecs]
        simp
      · simp only
        omega
  have hloop := Loop.iter_meets hround (pb.used + 1) ⟨pb, [], 0⟩
    ⟨pending, h, rfl, rfl, rfl⟩ (Nat.lt_succ_self _)
  have hparse : (pb.parseRecords : Exec Empty ParseResult) =
      Loop.iter (parseRound pb.dataHead) (pb.used + 1) ⟨pb, [], 0⟩ := by
    unfold parseRecords
    have := h.used_le
    unfold used at this
    rw [if_neg (by omega)]
    rfl
  rw [← hparse] at hloop
  generalize (pb.parseRecords : Exec Empty ParseResult) = x at hloop ⊢
  rcases x with (e | _ | _) | r
  · exact e.elim
  · exact hloop.elim
  · exact hloop.elim
  · obtain ⟨lost, pb', rfl, hrest⟩ := hloop
    exact ⟨lost, pb', rfl, hrest⟩

/-! ## Runs -/

/-- The call stores no record of `2 ^ 16` bytes or more: the payload is short, or there is no
room for it. -/
def Fits (pb : PerfBuffer) : Op → Prop
  | .output _ data =>
    data.length ≤ 65516 ∨ pb.dataSize < pb.used + sampleRecSize data.length
  | .parseRecords => True

/-- Every call of the run does. -/
def RunFits (pb : PerfBuffer) : List Op → Prop
  | [] => True
  | op :: ops => pb.Fits op ∧ ∀ e pb', pb.call op = .ok (e, pb') → RunFits pb' ops

theorem call_holds (h : pb.Holds pending) (op : Op) (hop : pb.Fits op) :
    ∃ e pb' pending', pb.call op = .ok (e, pb') ∧ pb'.Holds pending' ∧ e.Parsed ∧
      e.returned ++ samples pending' = samples pending ++ e.accepted ∧
      pb'.dataSize = pb.dataSize := by
  cases op with
  | output id data =>
    have hb := sampleRecSize_bounds data.length
    have hshort : pb.used + sampleRecSize data.length ≤ pb.dataSize →
        Short (.sample (ofNat data.length) data) := by
      intro hfits
      have hlen : data.length ≤ 65516 := by
        rcases hop with hop | hop
        · exact hop
        · omega
      refine ⟨?_, rfl⟩
      omega
    rcases outputSampleWithId_cases (ε := Empty) h.wf id data with
      ⟨err, hout, -⟩ | ⟨hout, -⟩ | ⟨hout, hfits⟩ | ⟨hout, -, hfits⟩
    · refine ⟨.output data (.error err), pb, pending, by simp [call, hout], h, trivial, ?_, rfl⟩
      simp [returned, accepted]
    · refine ⟨.output data (.error .ENOSPC), pb.lose, pending, by simp [call, hout], h.lose,
        trivial, ?_, rfl⟩
      simp [returned, accepted]
    · have hpush := pushed_holds h [.sample (ofNat data.length) data]
        (by simpa [encode] using hfits) (by simpa using hshort hfits)
      simp only [flatMap_singleton, encode] at hpush
      refine ⟨.output data (.ok ()), pb.pushed (sampleRecord data), _,
        by simp only [call, hout, ok_bind], hpush, trivial, ?_, rfl⟩
      simp [returned, accepted, samples]
    · have hpush := pushed_holds h
        [.lost id pb.lostCount, .sample (ofNat data.length) data]
        (by simpa [encode] using hfits)
        (by
          intro r hr
          rcases mem_cons.mp hr with rfl | hr
          · trivial
          · rw [mem_singleton.mp hr]
            exact hshort (by omega))
      simp only [flatMap_cons, flatMap_nil, append_nil, encode] at hpush
      refine ⟨.output data (.ok ()), _, _, by simp only [call, hout, ok_bind], hpush.resetLost,
        trivial, ?_, rfl⟩
      simp [returned, accepted, samples]
  | parseRecords =>
    obtain ⟨lost, pb', hparse, hrest, hsize⟩ := parseRecords_holds h
    refine ⟨.parseRecords (.ok (pending, lost)), pb', [], by simp [call, hparse], hrest, trivial,
      ?_, hsize⟩
    simp [returned, accepted, samples]

theorem run_holds : ∀ (ops : List Op) {pb : PerfBuffer} {pending : List PerfRecord},
    pb.Holds pending → pb.RunFits ops →
    ∃ events pb' pending', pb.run ops = .ok (events, pb') ∧ pb'.Holds pending' ∧
      (∀ e ∈ events, e.Parsed) ∧
      events.flatMap returned ++ samples pending' = samples pending ++ events.flatMap accepted
  | [], pb, pending, h, _ => ⟨[], pb, pending, rfl, h, nofun, by simp⟩
  | op :: ops, pb, pending, h, hfits => by
    obtain ⟨e, pb₁, pending₁, hcall, h₁, hparsed, hmove, -⟩ := call_holds h op hfits.1
    obtain ⟨es, pb₂, pending₂, hrun, h₂, hall, hmoves⟩ := run_holds ops h₁ (hfits.2 e pb₁ hcall)
    refine ⟨e :: es, pb₂, pending₂, by simp [run, hcall, hrun], h₂, ?_, ?_⟩
    · intro e' he'
      rcases mem_cons.mp he' with rfl | he'
      · exact hparsed
      · exact hall e' he'
    · rw [flatMap_cons, flatMap_cons, append_assoc, hmoves, ← append_assoc, hmove, append_assoc]

theorem roundTrip_of_fits (h : new n = .ok pb) {ops : List Op} (hfits : pb.RunFits ops) :
    pb.RoundTrip ops := by
  obtain ⟨events, pb₁, pending, hrun, h₁, hparsed, hmoves⟩ := run_holds ops (new_holds h) hfits
  obtain ⟨lost, pb₂, hparse, -⟩ := parseRecords_holds h₁
  exact ⟨events, pb₁, pending, lost, pb₂, hrun, hparse, hparsed, by simpa [samples] using hmoves⟩

/-- In a buffer of at most eight pages every record that has room is short. -/
theorem runFits_of_small : ∀ (ops : List Op) {pb : PerfBuffer} {pending : List PerfRecord},
    pb.Holds pending → pb.dataSize ≤ 32768 → pb.RunFits ops
  | [], _, _, _, _ => trivial
  | op :: ops, pb, pending, h, hsize => by
    have hop : pb.Fits op := by
      cases op with
      | output id data =>
        have hb := sampleRecSize_bounds data.length
        by_cases hlen : data.length ≤ 65516
        · exact .inl hlen
        · exact .inr (by omega)
      | parseRecords => trivial
    refine ⟨hop, fun e pb' hcall => ?_⟩
    obtain ⟨e₁, pb₁, pending₁, hcall₁, h₁, -, -, hsize₁⟩ := call_holds h op hop
    rw [hcall₁] at hcall
    cases hcall
    exact runFits_of_small ops h₁ (by omega)

/-! ## Records that outgrow the size field -/

/-- The shortest payload whose record has `2 ^ 16` bytes. -/
@[irreducible] def longSample : Bytes := zeros 65517

theorem longSample_length : longSample.length = 65517 := by
  unfold longSample
  exact zeros_length 65517

/-- A record of `2 ^ 16` bytes is stored with size zero, at which the consumer gives up. -/
theorem parseRecords_long (h : pb.Wf) (hlen : data.length = 65517)
    (hq : Queue pb.data pb.dataTail pb.dataHead (sampleRecord data)) :
    ∃ c pb', (pb.parseRecords : Exec Empty ParseResult) = .ok (.error c, pb') := by
  have hrec : sampleRecSize data.length = 65536 := by
    rw [hlen]
    decide
  have hused := hq.used_eq
  have hle := hq.used_le
  rw [sampleRecord_length, hrec] at hused
  rw [sampleRecord_length, hrec, h.length_eq] at hle
  have hhdr := hq.read.1
  rw [headerBytes_length, hrec] at hhdr
  have hround : (parseRound pb.dataHead ⟨pb, [], 0⟩ : Exec Empty _) =
      .ok (.inr (.error pb.corrupt.consumerErrorCounters, pb.corrupt)) := by
    unfold parseRound
    simp only [hused]
    rw [if_neg (by omega), readCircular_eq h _ (by omega), ok_bind, hhdr, headerBytes_size,
      if_pos (.inl (by decide))]
  refine ⟨pb.corrupt.consumerErrorCounters, pb.corrupt, ?_⟩
  unfold parseRecords
  simp only
  rw [hused, if_neg (by omega), Loop.iter_done hround]

theorem not_roundTrip_of_lt (h : new n = .ok pb) (hn : 8 < n)
    (hlen : data.length = 65517) : ¬ pb.RoundTrip [.output 0 data] := by
  obtain ⟨hwf, haccepted, hsize, -, -, hzero⟩ := new_fresh h
  have hbig : 16 ≤ n := by
    obtain ⟨k, hk⟩ := haccepted.2.1
    rw [hk] at hn ⊢
    have hlt : 3 < k := (Nat.pow_lt_pow_iff_right (a := 2) (by norm_num)).mp hn
    exact Nat.pow_le_pow_right (n := 2) (by norm_num) hlt
  have hrec : sampleRecSize data.length = 65536 := by
    rw [hlen]
    decide
  have hempty := new_holds h
  have hused := hempty.used_eq
  simp only [flatMap_nil, length_nil] at hused
  have hq := pushed_queue hempty.queue (sampleRecord data)
    (by rw [sampleRecord_length, hwf.length_eq, hrec]; simp; omega)
  rw [flatMap_nil, nil_append] at hq
  rintro ⟨events, pb₁, records, lost, pb₂, hrun, hparse, -, -⟩
  have hout : (pb.outputSampleWithId 0 data : Exec Empty _) =
      .ok (.ok (), pb.pushed (sampleRecord data)) := by
    rcases outputSampleWithId_cases (ε := Empty) hwf 0 data with
      ⟨err, -, hbad | hbad⟩ | ⟨-, hbad⟩ | ⟨hout, -⟩ | ⟨-, hlost, -⟩
    · omega
    · omega
    · omega
    · exact hout
    · rw [hzero] at hlost
      exact absurd hlost (by decide)
  simp only [run, call, hout, ok_bind, Except.ok.injEq, Prod.mk.injEq] at hrun
  obtain ⟨-, rfl⟩ := hrun
  obtain ⟨c, pb', hfail⟩ := parseRecords_long (pushed_wf hwf _) hlen hq
  rw [hfail] at hparse
  cases hparse

/-- **The perf buffer returns its samples in every run whose stored records have a size below
`2 ^ 16`, and in all runs exactly up to eight data pages.** -/
theorem roundTrip_iff {n : Nat} {pb : PerfBuffer} (h : new n = .ok pb) :
    (∀ ops, pb.RunFits ops → pb.RoundTrip ops) ∧ ((∀ ops, pb.RoundTrip ops) ↔ n ≤ 8) := by
  refine ⟨fun ops hfits => roundTrip_of_fits h hfits, fun hall => ?_, fun hn ops => ?_⟩
  · by_contra hn
    exact not_roundTrip_of_lt h (by omega) longSample_length (hall _)
  · obtain ⟨-, -, hsize, -⟩ := new_fresh h
    exact roundTrip_of_fits h (runFits_of_small ops (new_holds h) (by omega))

theorem roundTrip_one_page : ∃ pb, new 1 = .ok pb ∧ ∀ ops, pb.RoundTrip ops := by
  obtain ⟨pb, h⟩ := new_of_accepted (n := 1) (by decide)
  exact ⟨pb, h, (roundTrip_iff h).2.mpr (by norm_num)⟩

theorem not_roundTrip_sixteen_pages :
    ∃ pb, new 16 = .ok pb ∧ ¬ pb.RoundTrip [.output 0 longSample] := by
  obtain ⟨pb, h⟩ := new_of_accepted (n := 16) (by decide)
  exact ⟨pb, h, not_roundTrip_of_lt h (by norm_num) longSample_length⟩

end PulseOS.Bpf.PerfBuffer
