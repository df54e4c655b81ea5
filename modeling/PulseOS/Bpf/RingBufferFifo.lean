import Mathlib.Data.Nat.Bitwise
import PulseOS.Bpf.RingBuffer

/-!
# The ring buffer is a bounded FIFO

Calls of `output` and `parseRecords` on one buffer, against the queue of payloads that were
accepted and not yet returned.

* `Holds rb pending` — the bytes between the two positions are exactly the records of the
  payloads `pending`.
* `call_holds` — one call keeps it, and moves payloads as a queue does.
* `losslessFifo_iff` — a fresh buffer loses nothing exactly up to `2 ^ 30` bytes of data: from
  there on a payload length can set the discard bit of the 32-bit header.
-/

namespace PulseOS.Bpf.BpfRingBuf

open Exec List Circular

variable (rb : BpfRingBuf)

def used : Nat := (rb.producerPos - rb.consumerPos).toNat

/-! ## Calls -/

inductive Op where
  | output (data : Bytes) (flags : UInt64)
  | parseRecords

inductive Event where
  | output (data : Bytes) (result : Except LinuxError Unit)
  | parseRecords (result : Except LinuxError (List RingBufRecord × RingBufConsumerCounters))

open Event

def call : Op → Exec Empty (Event × BpfRingBuf)
  | .output data flags => do
    let (r, rb') ← rb.output data flags
    .ok (.output data r, rb')
  | .parseRecords => do
    let (r, rb') ← rb.parseRecords
    .ok (.parseRecords r, rb')

def run (rb : BpfRingBuf) : List Op → Exec Empty (List Event × BpfRingBuf)
  | [] => .ok ([], rb)
  | op :: ops => do
    let (e, rb') ← rb.call op
    let (es, rb'') ← run rb' ops
    .ok (e :: es, rb'')

/-- Payloads of the `output` calls that returned `Ok`. -/
def Event.accepted : Event → List Bytes
  | .output data (.ok ()) => [data]
  | _ => []

/-- Payloads that `parse_records` returned. -/
def Event.returned : Event → List Bytes
  | .parseRecords (.ok (records, _)) => records.map (·.data)
  | _ => []

/-- `output` calls that returned `EAGAIN`. -/
def Event.lost : Event → Nat
  | .output _ (.error .EAGAIN) => 1
  | _ => 0

def Event.Parsed : Event → Prop
  | .parseRecords (.error _) => False
  | _ => True

/-- Every sequence of calls on `rb` and one more `parse_records` behave as a bounded queue that
loses nothing. -/
def LosslessFifo : Prop :=
  ∀ ops, ∃ events rb₁ records counters rb₂, rb.run ops = .ok (events, rb₁) ∧
    (rb₁.parseRecords : Exec Empty ParseResult) = .ok (.ok (records, counters), rb₂) ∧
    (∀ e ∈ events, e.Parsed) ∧
    events.flatMap returned ++ records.map (·.data) = events.flatMap accepted ∧
    rb₁.used ≤ rb.dataSize ∧ rb₂.used ≤ rb.dataSize ∧
    rb₁.ringbufLost = UInt64.ofNat (events.map lost).sum

/-! ## The invariant -/

/-- The bytes between the two positions are the records of `pending`. -/
structure Holds (pending : List Bytes) : Prop where
  wf : rb.Wf
  queue : Queue rb.data rb.consumerPos rb.producerPos (pending.flatMap record)
  short : ∀ p ∈ pending, p.length < 2 ^ 30

variable {rb : BpfRingBuf} {pending : List Bytes}

theorem Holds.used_eq (h : rb.Holds pending) :
    rb.used = (pending.flatMap record).length := h.queue.used_eq

theorem Holds.used_le (h : rb.Holds pending) : rb.used ≤ rb.dataSize := by
  rw [h.used_eq, ← h.wf.length_eq]
  exact h.queue.used_le

variable {s : ParseState} {n : Nat}

theorem new_fresh (h : new n = .ok rb) :
    rb.dataSize = n ∧ SizeAccepted n ∧ rb.producerPos = 0 ∧ rb.consumerPos = 0 ∧
      rb.ringbufLost = 0 := by
  unfold new at h
  split at h
  · rename_i hs
    cases h
    exact ⟨rfl, hs, rfl, rfl, rfl⟩
  · cases h

theorem new_holds (h : new n = .ok rb) : rb.Holds [] := by
  obtain ⟨-, -, hprod, hcons, -⟩ := new_fresh h
  have hwf := new_wf h
  refine ⟨hwf, ?_, nofun⟩
  rw [hprod, hcons]
  exact hwf.queue_nil 0

theorem stored_wf (h : rb.Wf) (data : Bytes) (seq : UInt64) : (rb.stored data seq).Wf :=
  Area.stored h _ _

variable {data p : Bytes}

theorem stored_queue (h : rb.Wf) {bytes : Bytes}
    (hq : Queue rb.data rb.consumerPos rb.producerPos bytes) (hfits : rb.Fits data) (seq : UInt64) :
    Queue (rb.stored data seq).data rb.consumerPos (rb.stored data seq).producerPos
      (bytes ++ record data) := by
  unfold Fits at hfits
  rw [hq.used_eq, ← h.length_eq] at hfits
  have hpush := hq.push (b := record data) (by rw [record_length]; exact hfits)
  rwa [record_length] at hpush

theorem stored_holds (h : rb.Holds pending)
    (hfits : rb.Fits data) (hshort : data.length < 2 ^ 30) (seq : UInt64) :
    (rb.stored data seq).Holds (pending ++ [data]) := by
  refine ⟨stored_wf h.wf data seq, ?_, ?_⟩
  · rw [flatMap_append, flatMap_singleton]
    exact stored_queue h.wf h.queue hfits seq
  · intro p hp
    rcases mem_append.mp hp with hp | hp
    · exact h.short p hp
    · rw [mem_singleton.mp hp]
      exact hshort

/-! ## The consumer -/

theorem flags_clear (len : UInt32) (h : len.toNat < 2 ^ 30) :
    len &&& BPF_RINGBUF_BUSY_BIT = 0 ∧ len &&& BPF_RINGBUF_DISCARD_BIT = 0 ∧
      (len &&& BPF_RINGBUF_LEN_MASK).toNat = len.toNat := by
  have hbit : ∀ i, 30 ≤ i → len.toNat &&& 2 ^ i = 0 := by
    intro i hi
    have hlt : len.toNat < 2 ^ i := lt_of_lt_of_le h (Nat.pow_le_pow_right (by norm_num) hi)
    rw [Nat.and_two_pow, Nat.testBit_lt_two_pow hlt, Bool.toNat_false, Nat.zero_mul]
  refine ⟨UInt32.toNat_inj.mp ?_, UInt32.toNat_inj.mp ?_, ?_⟩
  · rw [UInt32.toNat_and]
    exact hbit 31 (by norm_num)
  · rw [UInt32.toNat_and]
    exact hbit 30 le_rfl
  · rw [UInt32.toNat_and, show BPF_RINGBUF_LEN_MASK.toNat = 2 ^ 30 - 1 from rfl,
      Nat.and_two_pow_sub_one_eq_mod, Nat.mod_eq_of_lt h]

theorem hdrBytes_decode (len : UInt32) : UInt32.ofNat (leNat ((hdrBytes len).take 4)) = len := by
  have htake : (hdrBytes len).take 4 = leBytes 4 len.toNat := by
    rw [hdrBytes, take_append_of_le_length (by simp), take_of_length_le (by simp)]
  have hlt := len.toNat_lt
  rw [htake, leNat_leBytes, Nat.mod_eq_of_lt (by omega), UInt32.ofNat_toNat]

/-- `rb` after one record of `size` bytes was consumed. -/
def advance (rb : BpfRingBuf) (size : Nat) : BpfRingBuf :=
  { rb with consumerPos := rb.consumerPos + UInt64.ofNat size }

theorem advance_holds (h : rb.Holds (p :: pending)) :
    (rb.advance (recSize p.length)).Holds pending := by
  have hq := h.queue
  rw [flatMap_cons] at hq
  have hpop := hq.pop
  rw [record_length] at hpop
  exact ⟨h.wf, hpop,
    fun q hq => h.short q (mem_cons_of_mem _ hq)⟩

theorem parseRound_record (h : s.rb.Holds (p :: pending)) :
    (parseRound s.rb.producerPos s : Exec Empty _) =
      .ok (.inl ⟨s.rb.advance (recSize p.length), s.records ++ [⟨p⟩]⟩) := by
  have hb := recSize_bounds p.length
  have hhdr : BPF_RINGBUF_HDR_SZ = 8 := rfl
  have hused := h.used_eq
  have hle := h.used_le
  have hq := h.queue
  rw [flatMap_cons, length_append, record_length] at hused
  rw [flatMap_cons] at hq
  obtain ⟨hhead, htail⟩ := window_split h.wf.ne_nil hq.read.1
  obtain ⟨hpay, -⟩ := window_split h.wf.ne_nil htail
  rw [hdrBytes_length] at hhead hpay
  have hshort := h.short p mem_cons_self
  have hlen : (UInt32.ofNat p.length).toNat = p.length := by
    rw [UInt32.toNat_ofNat', Nat.mod_eq_of_lt (by omega)]
  obtain ⟨hbusy, hdisc, hmask⟩ := flags_clear (UInt32.ofNat p.length) (by omega)
  rw [hlen] at hmask
  have hleft : (s.rb.producerPos - s.rb.consumerPos).toNat = s.rb.used := rfl
  unfold parseRound
  simp only [hleft]
  rw [if_neg (by omega), readCircular_eq h.wf _ (by omega), ok_bind, hhead, hdrBytes_decode,
    if_neg (by rw [hbusy]; simp), hmask, if_neg (by omega), if_neg (by rw [hdisc]; simp),
    Nat.mod_add_mod, readCircular_eq h.wf _ (by omega), ok_bind, hpay]
  rfl

/-- **`parse_records` returns all pending payloads, oldest first.** -/
theorem parseRecords_holds (h : rb.Holds pending) :
    ∃ rb', (rb.parseRecords : Exec Empty ParseResult) =
        .ok (.ok (pending.map RingBufRecord.mk, rb'.counters), rb') ∧
      rb'.Holds [] ∧ rb'.ringbufLost = rb.ringbufLost ∧ rb'.dataSize = rb.dataSize := by
  -- the invariant: the records so far and the payloads still in the buffer make up `pending`
  let Inv : ParseState → Prop := fun s => ∃ rest, s.rb.Holds rest ∧
    s.records ++ rest.map RingBufRecord.mk = pending.map RingBufRecord.mk ∧
    s.rb.producerPos = rb.producerPos ∧ s.rb.ringbufLost = rb.ringbufLost ∧
    s.rb.dataSize = rb.dataSize
  have hround : ∀ s, Inv s → Loop.RoundMeets Inv (fun s => s.rb.used)
      (fun r => ∃ rb', r = (.ok (pending.map RingBufRecord.mk, rb'.counters), rb') ∧
        rb'.Holds [] ∧ rb'.ringbufLost = rb.ringbufLost ∧ rb'.dataSize = rb.dataSize)
      (fun _ : Empty => True) (parseRound rb.producerPos) s := by
    rintro s ⟨rest, hs, hrecs, hprod, hlost, hdata⟩
    unfold Loop.RoundMeets
    cases rest with
    | nil =>
      have hzero : (rb.producerPos - s.rb.consumerPos).toNat < BPF_RINGBUF_HDR_SZ := by
        have := hs.used_eq
        rw [used, hprod] at this
        simp [this, BPF_RINGBUF_HDR_SZ]
      simp only [parseRound, hzero, if_true, meets_ok]
      refine ⟨s.rb, ?_, hs, hlost, hdata⟩
      rw [← hrecs]
      simp
    | cons p rest =>
      have hsize := recSize_bounds p.length
      have hhdr : BPF_RINGBUF_HDR_SZ = 8 := rfl
      have hused := hs.used_eq
      rw [flatMap_cons, length_append, record_length] at hused
      rw [← hprod, parseRound_record hs, meets_ok]
      refine ⟨⟨rest, advance_holds hs, ?_, hprod, hlost, hdata⟩, ?_⟩
      · rw [← hrecs]
        simp
      · have hused' := (advance_holds hs).used_eq
        simp only
        omega
  have hloop := Loop.iter_meets hround (rb.used + 1) ⟨rb, []⟩
    ⟨pending, h, rfl, rfl, rfl, rfl⟩ (Nat.lt_succ_self _)
  have hparse : (rb.parseRecords : Exec Empty ParseResult) =
      Loop.iter (parseRound rb.producerPos) (rb.used + 1) ⟨rb, []⟩ := by
    unfold parseRecords
    have := h.used_le
    unfold used at this
    rw [if_neg (by omega)]
    rfl
  rw [← hparse] at hloop
  match hres : (rb.parseRecords : Exec Empty ParseResult), hloop with
  | .ok r, ⟨rb', hr, hrest⟩ => exact ⟨rb', by rw [hr], hrest⟩
  | .error (.err e), _ => exact e.elim

/-! ## Runs -/

/-- What a call does to the queue: it returns payloads from the front and accepts one at the
back. -/
def Moves (rb rb' : BpfRingBuf) (pending pending' : List Bytes) (e : Event) : Prop :=
  rb'.Holds pending' ∧ e.Parsed ∧ e.returned ++ pending' = pending ++ e.accepted ∧
    rb'.ringbufLost = rb.ringbufLost + UInt64.ofNat e.lost ∧ rb'.dataSize = rb.dataSize

theorem call_holds (h : rb.Holds pending) (hsize : rb.dataSize ≤ 2 ^ 30) (op : Op) :
    ∃ e rb' pending', rb.call op = .ok (e, rb') ∧ Moves rb rb' pending pending' e := by
  cases op with
  | output data flags =>
    rcases output_cases (ε := Empty) h.wf data flags with
      ⟨err, hout, hne, -⟩ | ⟨hout, -⟩ | ⟨seq, hout, hfits⟩
    · refine ⟨.output data (.error err), rb, pending, by simp [call, hout], h, trivial, ?_, ?_, rfl⟩
      · simp [Event.returned, Event.accepted]
      · have hlost : (Event.output data (.error err)).lost = 0 := by
          unfold Event.lost
          split
          · rename_i heq
            cases heq
            exact absurd rfl hne
          · rfl
        simp [hlost]
    · have hlose : rb.lose.Holds pending :=
        ⟨h.wf, h.queue, h.short⟩
      refine ⟨.output data (.error .EAGAIN), rb.lose, pending, by simp [call, hout], hlose, trivial,
        ?_, rfl, rfl⟩
      simp [Event.returned, Event.accepted]
    · have hfits' : rb.used + recSize data.length ≤ rb.dataSize := hfits
      have hb := recSize_bounds data.length
      have hhdr : BPF_RINGBUF_HDR_SZ = 8 := rfl
      refine ⟨.output data (.ok ()), rb.stored data seq, pending ++ [data], by simp [call, hout],
        stored_holds h hfits (by omega) seq, trivial, ?_, ?_, rfl⟩
      · simp [Event.returned, Event.accepted]
      · simp [Event.lost, stored]
  | parseRecords =>
    obtain ⟨rb', hparse, hrest, hlost, hdata⟩ := parseRecords_holds h
    refine ⟨.parseRecords (.ok (pending.map RingBufRecord.mk, rb'.counters)), rb', [],
      by simp [call, hparse], hrest, trivial, ?_, ?_, hdata⟩
    · simp [Event.returned, Event.accepted, Function.comp_def]
    · simp [Event.lost, hlost]

theorem run_holds : ∀ (ops : List Op) {rb : BpfRingBuf} {pending : List Bytes},
    rb.Holds pending → rb.dataSize ≤ 2 ^ 30 →
    ∃ events rb' pending', rb.run ops = .ok (events, rb') ∧ rb'.Holds pending' ∧
      (∀ e ∈ events, e.Parsed) ∧
      events.flatMap returned ++ pending' = pending ++ events.flatMap accepted ∧
      rb'.ringbufLost = rb.ringbufLost + UInt64.ofNat (events.map lost).sum ∧
      rb'.dataSize = rb.dataSize
  | [], rb, pending, h, _ => ⟨[], rb, pending, rfl, h, nofun, by simp, by simp, rfl⟩
  | op :: ops, rb, pending, h, hsize => by
    obtain ⟨e, rb₁, pending₁, hcall, h₁, hparsed, hmove, hlost, hdata⟩ := call_holds h hsize op
    obtain ⟨es, rb₂, pending₂, hrun, h₂, hall, hmoves, hlosts, hdata₂⟩ :=
      run_holds ops h₁ (by rw [hdata]; exact hsize)
    refine ⟨e :: es, rb₂, pending₂, by simp [run, hcall, hrun], h₂, ?_, ?_, ?_, by rw [hdata₂, hdata]⟩
    · intro e' he'
      rcases mem_cons.mp he' with rfl | he'
      · exact hparsed
      · exact hall e' he'
    · rw [flatMap_cons, flatMap_cons, append_assoc, hmoves, ← append_assoc, hmove, append_assoc]
    · rw [hlosts, hlost, map_cons, sum_cons, UInt64.ofNat_add, UInt64.add_assoc]

theorem losslessFifo_of_le (h : new n = .ok rb) (hn : n ≤ 2 ^ 30) : rb.LosslessFifo := by
  obtain ⟨hsize, -, -, -, hzero⟩ := new_fresh h
  intro ops
  obtain ⟨events, rb₁, pending, hrun, h₁, hparsed, hmoves, hlost, hdata⟩ :=
    run_holds ops (new_holds h) (by omega)
  obtain ⟨rb₂, hparse, h₂, -, hdata₂⟩ := parseRecords_holds h₁
  refine ⟨events, rb₁, pending.map RingBufRecord.mk, rb₂.counters, rb₂, hrun, hparse, hparsed,
    ?_, ?_, ?_, ?_⟩
  · simpa [Function.comp_def] using hmoves
  · rw [← hdata]
    exact h₁.used_le
  · rw [← hdata, ← hdata₂]
    exact h₂.used_le
  · rw [hlost, hzero, UInt64.zero_add]

/-! ## Lengths that reach the flag bits -/

/-- There is a payload of `2 ^ 30` bytes whose first word, taken as a header, is busy. -/
theorem exists_longPayload : ∃ payload rest, payload = hdrBytes BPF_RINGBUF_BUSY_BIT ++ rest ∧
      payload.length = 2 ^ 30 := by
  refine ⟨_, zeros (2 ^ 30 - BPF_RINGBUF_HDR_SZ), rfl, ?_⟩
  simp only [length_append, zeros_length, hdrBytes_length, BPF_RINGBUF_HDR_SZ]
  norm_num

theorem parseRound_busy (prod : UInt64) {len : UInt32} (h : s.rb.Wf)
    (hsize : BPF_RINGBUF_HDR_SZ ≤ s.rb.dataSize)
    (hleft : BPF_RINGBUF_HDR_SZ ≤ (prod - s.rb.consumerPos).toNat)
    (hhdr : window s.rb.data s.rb.consumerPos.toNat BPF_RINGBUF_HDR_SZ = hdrBytes len)
    (hbusy : len &&& BPF_RINGBUF_BUSY_BIT ≠ 0) :
    (parseRound prod s : Exec Empty _) = .ok (.inr (.ok (s.records, s.rb.counters), s.rb)) := by
  unfold parseRound
  simp only
  rw [if_neg (by omega), readCircular_eq h _ hsize, ok_bind, hhdr, hdrBytes_decode, if_pos hbusy]

/-- `rb` after a header that is only the discard bit. -/
def skip (rb : BpfRingBuf) : BpfRingBuf :=
  { rb.advance BPF_RINGBUF_HDR_SZ with
    consumerDiscardedRecords := rb.consumerDiscardedRecords + 1 }

theorem parseRound_discard (prod : UInt64) (h : s.rb.Wf)
    (hsize : BPF_RINGBUF_HDR_SZ ≤ s.rb.dataSize)
    (hleft : BPF_RINGBUF_HDR_SZ ≤ (prod - s.rb.consumerPos).toNat)
    (hhdr : window s.rb.data s.rb.consumerPos.toNat BPF_RINGBUF_HDR_SZ =
      hdrBytes BPF_RINGBUF_DISCARD_BIT) :
    (parseRound prod s : Exec Empty _) = .ok (.inl ⟨s.rb.skip, s.records⟩) := by
  have hrec : recSize (BPF_RINGBUF_DISCARD_BIT &&& BPF_RINGBUF_LEN_MASK).toNat =
      BPF_RINGBUF_HDR_SZ := by decide
  unfold parseRound
  simp only
  rw [if_neg (by omega), readCircular_eq h _ hsize, ok_bind, hhdr, hdrBytes_decode,
    if_neg (by decide), hrec, if_neg (by omega), if_pos (by decide)]
  rfl

theorem parseRecords_long (h : rb.Wf) {payload rest : Bytes}
    (hpayload : payload = hdrBytes BPF_RINGBUF_BUSY_BIT ++ rest) (hlen : payload.length = 2 ^ 30)
    (hq : Queue rb.data rb.consumerPos rb.producerPos (record payload)) :
    ∃ c rb', (rb.parseRecords : Exec Empty ParseResult) = .ok (.ok ([], c), rb') := by
  have hb := recSize_bounds payload.length
  have hhdr : BPF_RINGBUF_HDR_SZ = 8 := rfl
  have hle := hq.used_le
  have hused := hq.used_eq
  rw [record_length, h.length_eq] at hle
  rw [record_length] at hused
  -- the first header is the discard bit alone, the second one is the front of the payload
  have hrec : record payload = hdrBytes (UInt32.ofNat (2 ^ 30)) ++ (hdrBytes BPF_RINGBUF_BUSY_BIT ++
      (rest ++ zeros (recSize payload.length - (BPF_RINGBUF_HDR_SZ + payload.length)))) := by
    rw [record, hlen, hpayload, append_assoc]
  rw [hrec] at hq
  have hhead := hq.read.1
  have hnext := hq.pop
  rw [hdrBytes_length] at hhead hnext
  have hround := parseRound_discard (s := ⟨rb, []⟩) rb.producerPos h
    (show _ ≤ rb.dataSize by omega) (by rw [hused]; omega) hhead
  have hround' := parseRound_busy (s := ⟨rb.skip, []⟩) rb.producerPos
    h (show _ ≤ rb.dataSize by omega)
    (show _ ≤ (rb.producerPos - (rb.consumerPos + _)).toNat by
      rw [hnext.used_eq, length_append, hdrBytes_length]; omega)
    (by have := hnext.read.1; rwa [hdrBytes_length] at this) (by decide)
  refine ⟨rb.skip.counters, rb.skip, ?_⟩
  obtain ⟨k, hk⟩ : ∃ k, recSize payload.length = k + 1 := ⟨recSize payload.length - 1, by omega⟩
  unfold parseRecords
  simp only
  rw [hused, if_neg (by omega), hk, Loop.iter_next hround, Loop.iter_done hround']

theorem not_losslessFifo_of_lt (h : new n = .ok rb) (hn : 2 ^ 30 < n) : ¬ rb.LosslessFifo := by
  have hwf := new_wf h
  obtain ⟨hsize, haccepted, -⟩ := new_fresh h
  have hbig : 2 ^ 31 ≤ n := by
    obtain ⟨k, rfl⟩ := haccepted.2.2.1
    exact Nat.pow_le_pow_right (by norm_num) ((Nat.pow_lt_pow_iff_right (by norm_num)).mp hn)
  obtain ⟨payload, rest, hpayload, hlen⟩ := exists_longPayload
  have hb := recSize_bounds payload.length
  have hhdr : BPF_RINGBUF_HDR_SZ = 8 := rfl
  have hq := (new_holds h).queue
  have hfits : rb.Fits payload := by
    unfold Fits
    rw [hq.used_eq, flatMap_nil, length_nil]
    omega
  intro hfifo
  obtain ⟨events, rb₁, records, c, rb₂, hrun, hparse, -, hmoves, -⟩ := hfifo [.output payload 0]
  rcases output_cases (ε := Empty) hwf payload 0 with
    ⟨e, -, -, hbad | hbad⟩ | ⟨-, hno⟩ | ⟨seq, hout, -⟩
  · exact hbad (by decide)
  · omega
  · exact hno hfits
  · simp only [run, call, hout, ok_bind, Except.ok.injEq, Prod.mk.injEq] at hrun
    obtain ⟨rfl, rfl⟩ := hrun
    obtain ⟨c', rb', hnone⟩ := parseRecords_long (stored_wf hwf payload seq) hpayload hlen
      (stored_queue hwf hq hfits seq)
    rw [hnone] at hparse
    obtain ⟨⟨rfl, -⟩, -⟩ := hparse
    simp [returned, accepted] at hmoves

/-- **A fresh ring buffer is a lossless bounded FIFO exactly up to `2 ^ 30` bytes.** -/
theorem losslessFifo_iff {n : Nat} {rb : BpfRingBuf} (h : new n = .ok rb) :
    rb.LosslessFifo ↔ n ≤ 2 ^ 30 := by
  refine ⟨fun hfifo => ?_, losslessFifo_of_le h⟩
  by_contra hn
  exact not_losslessFifo_of_lt h (by omega) hfifo

theorem losslessFifo_one_page : ∃ rb, new 4096 = .ok rb ∧ rb.LosslessFifo := by
  obtain ⟨rb, h⟩ := new_of_accepted (n := 4096) (by decide)
  exact ⟨rb, h, (losslessFifo_iff h).mpr (by norm_num)⟩

theorem not_losslessFifo_two_gib : ∃ rb, new (2 ^ 31) = .ok rb ∧ ¬ rb.LosslessFifo := by
  obtain ⟨rb, h⟩ := new_of_accepted (n := 2 ^ 31) (by decide)
  exact ⟨rb, h, not_losslessFifo_of_lt h (by norm_num)⟩

end PulseOS.Bpf.BpfRingBuf
