import PulseOS.Fd.PipeCapacity
import PulseOS.Lib.Contiguous

/-!
# Atomicity of small writes

`PipeObject::write` copies what fits, drops the locks and waits for more room, whatever the size of
its buffer, so that the bytes of two writes of at most `PIPE_PAGE_SIZE` bytes can be mixed, and a
non-blocking one can be cut short.  Donated pages, which `read` takes first, can also come between
the parts of a write that was read in part.

`small_writes_atomic` says that small writes are atomic in every run that meets `KeepsAtomic`;
`small_writes_interleave` is a run of two writers that does not.
-/

namespace PulseOS.Fd

open Transition Threads Function Phase Prod

namespace System

variable {τ β : Type} [Fintype τ] (s : System τ β)

/-- Call `c` is a `write` of at most a page. -/
def Small (c : Nat) : Prop := ∃ n, s.sizes[c]? = some n ∧ n ≤ PIPE_PAGE_SIZE

def OfCall (c : Nat) (x : Item β) : Prop := x.1 = some c

/-- The bytes of every small write are contiguous in what readers got, and a non-blocking small
write hands over all of its bytes or none. -/
def AtomicWrites : Prop :=
  (∀ c, Small s c → Contiguous (OfCall c) s.delivered) ∧
    ∀ w ∈ s.writes, w.nonblocking = true → w.size ≤ PIPE_PAGE_SIZE → w.sent = w.size ∨ w.sent = 0

/-- The last byte that left the pipe and the first one in the ring belong to one `write`. -/
def PartlyRead : Prop :=
  s.delivered.getLast?.bind fst ≠ none ∧ s.delivered.getLast?.bind fst = s.ring.head?.bind fst

instance : Decidable (PartlyRead s) := by
  unfold PartlyRead
  infer_instance

/-- The bytes of pages that go before the ring, in the queue or gathered. -/
def pagesAhead : Nat := zeroCopyBytes s.pipe.zcPages + s.held

/-- A small write finds room for all of its bytes, no page is queued before the rest of a write, and
the ring is read only when no pages go before it. -/
def KeepsAtomic : Action τ β → Prop
  | .writeChunk t =>
    match s.phase t with
    | .writing w => PIPE_PAGE_SIZE < w.size ∨ w.rest.length ≤ s.pipe.availableWrite
    | _ => True
  | .accept _ => ¬PartlyRead s ∨ s.pipe.availableWrite < PIPE_PAGE_SIZE
  | .takeRing t =>
    match s.phase t with
    | .copying r _ => r.rest = 0 ∨ s.pipe.buffer.availableRead = 0 ∨ s.pagesAhead = 0
    | _ => True
  | _ => True

instance (a : Action τ β) : Decidable (KeepsAtomic s a) := by
  unfold KeepsAtomic
  induction a using Action.casesOn with
  | writeChunk t | takeRing t =>
    dsimp only
    generalize s.phase t = p
    induction p using Phase.casesOn <;> infer_instance
  | _ => infer_instance

/-! ## The invariant -/

structure Atomic : Prop where
  known : ∀ x ∈ s.delivered ++ s.ring, ∀ c, OfCall c x → c < s.sizes.length
  active : ∀ t w, s.phase t = .writing w →
    s.sizes[w.call]? = some w.size ∧ (∀ x ∈ w.rest, OfCall w.call x)
  unique : ∀ t t' w w', s.phase t = .writing w → s.phase t' = .writing w' →
    w.call = w'.call → t = t'
  /-- A small write has handed over all of its bytes or none. -/
  whole : ∀ t w, s.phase t = .writing w → w.size ≤ PIPE_PAGE_SIZE →
    w.rest = [] ∨ w.rest.length = w.size ∧ ∀ x ∈ s.delivered ++ s.ring, ¬OfCall w.call x
  contiguous : ∀ c, Small s c → Contiguous (OfCall c) (s.delivered ++ s.ring)
  /-- No pages go before the rest of a small write. -/
  ahead : ∀ c, Small s c → (∃ x ∈ s.delivered, OfCall c x) → (∃ x ∈ s.ring, OfCall c x) →
    s.pagesAhead = 0
  sent : ∀ w ∈ s.writes, w.size ≤ PIPE_PAGE_SIZE → w.sent = w.size ∨ w.sent = 0

variable {s s' : System τ β}

/-- A step that may take out bytes of pages, or bytes of the ring, and leaves the writers alone. -/
theorem Atomic.flow {ext : List (Item β)} (hi : Atomic s)
    (hbytes : s'.delivered ++ s'.ring = s.delivered ++ ext ++ s.ring)
    (hext : ∀ x ∈ ext, x.1 = none) (hnone : s.pagesAhead = 0 → ext = [])
    (hahead : ∀ c, Small s c → (∃ x ∈ s'.delivered, OfCall c x) → (∃ x ∈ s'.ring, OfCall c x) →
      s'.pagesAhead = 0)
    (hphase : ∀ t w, s'.phase t = .writing w → s.phase t = .writing w)
    (hsizes : s'.sizes = s.sizes)
    (hsent : ∀ w ∈ s'.writes, w.size ≤ PIPE_PAGE_SIZE → w.sent = w.size ∨ w.sent = 0) :
    Atomic s' := by
  have hpage : ∀ c, ∀ x ∈ ext, ¬OfCall c x := by
    intro c x hx hc
    rw [OfCall, hext x hx] at hc
    cases hc
  have hold : ∀ x ∈ s'.delivered ++ s'.ring, ∀ c, OfCall c x → x ∈ s.delivered ++ s.ring := by
    intro x hx c hc
    rw [hbytes, List.append_assoc] at hx
    rcases List.mem_append.mp hx with hx | hx
    · exact List.mem_append_left _ hx
    · rcases List.mem_append.mp hx with hx | hx
      · exact absurd hc (hpage c x hx)
      · exact List.mem_append_right _ hx
  have hsmall : ∀ c, Small s' c → Small s c := fun c hc => by rwa [Small, hsizes] at hc
  refine ⟨fun x hx c hc => ?_, fun t w hw => ?_, fun t t' w w' hw hw' => ?_, fun t w hw hsize => ?_,
    fun c hc => ?_, fun c hc => hahead c (hsmall c hc), hsent⟩
  · rw [hsizes]
    exact hi.known x (hold x hx c hc) c hc
  · rw [hsizes]
    exact hi.active t w (hphase t w hw)
  · exact hi.unique t t' w w' (hphase t w hw) (hphase t' w' hw')
  · refine (hi.whole t w (hphase t w hw) hsize).imp id fun h => ⟨h.1, fun x hx hc => ?_⟩
    exact h.2 x (hold x hx _ hc) hc
  · rw [hbytes]
    have hcontiguous := hi.contiguous c (hsmall c hc)
    by_cases hboth : (∃ x ∈ s.delivered, OfCall c x) ∧ ∃ x ∈ s.ring, OfCall c x
    · rw [hnone (hi.ahead c (hsmall c hc) hboth.1 hboth.2), List.append_nil]
      exact hcontiguous
    · refine hcontiguous.insert (hpage c) ?_
      by_contra hneither
      push Not at hneither
      exact hboth hneither

/-- A step that keeps the bytes and adds no pages. -/
theorem Atomic.keep (hi : Atomic s) (hdelivered : s'.delivered = s.delivered)
    (hring : s'.ring = s.ring) (hpages : s.pagesAhead = 0 → s'.pagesAhead = 0)
    (hphase : ∀ t w, s'.phase t = .writing w → s.phase t = .writing w)
    (hsizes : s'.sizes = s.sizes)
    (hsent : ∀ w ∈ s'.writes, w.size ≤ PIPE_PAGE_SIZE → w.sent = w.size ∨ w.sent = 0) :
    Atomic s' := by
  have hbytes : s'.delivered ++ s'.ring = s.delivered ++ [] ++ s.ring := by
    rw [hdelivered, hring, List.append_nil]
  refine hi.flow hbytes nofun (fun _ => rfl) (fun c hc hd hr => ?_) hphase hsizes
    hsent
  rw [hdelivered] at hd
  rw [hring] at hr
  exact hpages (hi.ahead c hc hd hr)

variable {content : Nat → Vector β PIPE_PAGE_SIZE}

omit [Fintype τ] in
theorem bytesOf_untagged {pages : List ZeroCopyPage} {x : Item β} (hx : x ∈ bytesOf content pages) :
    x.1 = none := by
  obtain ⟨page, -, hpage⟩ := List.mem_flatMap.mp hx
  have hitem := List.mem_of_mem_drop (List.mem_of_mem_take hpage)
  obtain ⟨b, -, rfl⟩ := List.mem_map.mp hitem
  rfl

theorem Atomic.pages (hi : Atomic s) (pages : List ZeroCopyPage)
    (hdelivered : s'.delivered = s.delivered ++ bytesOf content pages) (hring : s'.ring = s.ring)
    (hcount : zeroCopyBytes pages + s'.pagesAhead = s.pagesAhead)
    (hphase : ∀ t w, s'.phase t = .writing w → s.phase t = .writing w)
    (hsizes : s'.sizes = s.sizes) (hwrites : s'.writes = s.writes) : Atomic s' := by
  refine hi.flow (by rw [hdelivered, hring]) (fun x => bytesOf_untagged)
    (fun hzero => pageBytes_eq_nil (by omega)) (fun c hc hd hr => ?_) hphase hsizes
    (hwrites ▸ hi.sent)
  obtain ⟨x, hx, hcall⟩ := hd
  rw [hdelivered] at hx
  rw [hring] at hr
  rcases List.mem_append.mp hx with hx | hx
  · have hzero := hi.ahead c hc ⟨x, hx, hcall⟩ hr
    omega
  · rw [OfCall, bytesOf_untagged hx] at hcall
    cases hcall

variable [DecidableEq τ] {a : Action τ β}

omit [Fintype τ] in
theorem writing_of_update {t u : τ} {y : Phase (Item β)} {w : WriteCall (Item β)}
    (hy : ∀ w, y ≠ .writing w) (h : update s.phase t y u = .writing w) :
    s.phase u = .writing w := by
  by_cases hut : u = t
  · rw [hut, update_self] at h
    exact absurd h (hy w)
  · rwa [update_of_ne hut] at h

variable {x y : Phase (Item β)} {t : τ}

theorem pagesAhead_move (hphase : s.phase t = x) (hnext : s'.phase = update s.phase t y) :
    s'.pagesAhead + (zeroCopyBytes s.pipe.zcPages + x.held) =
      s.pagesAhead + (zeroCopyBytes s'.pipe.zcPages + y.held) := by
  have htotal := total_update Phase.held hphase y
  unfold pagesAhead held
  rw [hnext]
  omega

theorem pagesAhead_zero (hzero : s.pagesAhead = 0)
    (hphase : s.phase t = x) (hnext : s'.phase = update s.phase t y)
    (hpages : s'.pipe.zcPages = s.pipe.zcPages) (hheld : y.held = x.held) : s'.pagesAhead = 0 := by
  have hmove := pagesAhead_move hphase hnext
  rw [hpages] at hmove
  omega

theorem Atomic.quiet (hi : Atomic s) (hphase : s.phase t = x)
    (hnext : s'.phase = update s.phase t y) (hy : ∀ w, y ≠ .writing w)
    (hdelivered : s'.delivered = s.delivered) (hring : s'.ring = s.ring)
    (hpages : zeroCopyBytes s'.pipe.zcPages + y.held = zeroCopyBytes s.pipe.zcPages + x.held)
    (hsizes : s'.sizes = s.sizes) (hwrites : s'.writes = s.writes) : Atomic s' := by
  have hmove := pagesAhead_move hphase hnext
  refine hi.keep hdelivered hring (by omega) (fun u w h => ?_) hsizes (hwrites ▸ hi.sent)
  rw [hnext] at h
  exact writing_of_update hy h

theorem Atomic.write {nonblocking : Bool} {buf : List β} (hi : Atomic s)
    (hphase : s.phase t = .idle) :
    Atomic { s with
      phase := update s.phase t (.writing
        ⟨s.sizes.length, nonblocking, buf.length, buf.map fun b => (some s.sizes.length, b)⟩)
      sizes := s.sizes ++ [buf.length] } := by
  have hlt : ∀ u w, s.phase u = .writing w → w.call < s.sizes.length := fun u w hw =>
    (List.getElem?_eq_some_iff.mp (hi.active u w hw).1).1
  have hnew : ∀ x ∈ s.delivered ++ s.ring, ¬OfCall s.sizes.length x := fun x hx hc =>
    Nat.lt_irrefl _ (hi.known x hx _ hc)
  have hsmall : ∀ c n, (s.sizes ++ [buf.length])[c]? = some n → n ≤ PIPE_PAGE_SIZE →
      c = s.sizes.length ∨ Small s c := by
    intro c n hc hn
    rcases Nat.lt_trichotomy c s.sizes.length with hlt | heq | hgt
    · rw [List.getElem?_append_left hlt] at hc
      exact .inr ⟨n, hc, hn⟩
    · exact .inl heq
    · rw [List.getElem?_append_right (by omega), List.getElem?_eq_none (by simp; omega)] at hc
      cases hc
  refine ⟨fun x hx c hc => ?_, fun u w hw => ?_, fun u u' w w' hw hw' hcall => ?_,
    fun u w hw hsize => ?_, fun c ⟨n, hc, hn⟩ => ?_, fun c ⟨n, hc, hn⟩ hd hr => ?_, hi.sent⟩
  · have hknown := hi.known x hx c hc
    simp only [List.length_append]
    omega
  · by_cases hut : u = t
    · simp only [hut, update_self, writing.injEq] at hw
      subst hw
      refine ⟨by simp, fun x hx => ?_⟩
      obtain ⟨b, -, rfl⟩ := List.mem_map.mp hx
      rfl
    · simp only [update_of_ne hut] at hw
      obtain ⟨hget, htags⟩ := hi.active u w hw
      exact ⟨by rw [List.getElem?_append_left (hlt u w hw), hget], htags⟩
  · by_cases hut : u = t
    · by_cases hut' : u' = t
      · rw [hut, hut']
      · simp only [hut, update_self, writing.injEq] at hw
        simp only [update_of_ne hut'] at hw'
        have hcall' := hlt u' w' hw'
        rw [← hcall, ← hw] at hcall'
        exact absurd hcall' (Nat.lt_irrefl _)
    · simp only [update_of_ne hut] at hw
      by_cases hut' : u' = t
      · simp only [hut', update_self, writing.injEq] at hw'
        have hcall' := hlt u w hw
        rw [hcall, ← hw'] at hcall'
        exact absurd hcall' (Nat.lt_irrefl _)
      · simp only [update_of_ne hut'] at hw'
        exact hi.unique u u' w w' hw hw' hcall
  · by_cases hut : u = t
    · simp only [hut, update_self, writing.injEq] at hw
      subst hw
      exact .inr ⟨List.length_map _, hnew⟩
    · simp only [update_of_ne hut] at hw
      exact hi.whole u w hw hsize
  · rcases hsmall c n hc hn with rfl | hold
    · exact .of_none hnew
    · exact hi.contiguous c hold
  · rcases hsmall c n hc hn with rfl | hold
    · obtain ⟨x, hx, hcall⟩ := hd
      exact absurd hcall (hnew x (List.mem_append_left _ hx))
    · exact pagesAhead_zero (hi.ahead c hold hd hr) hphase rfl rfl rfl

theorem Atomic.writeChunk {w : WriteCall (Item β)} {n : Nat}
    {buffer : PipeRingBuffer (Item β)} {accepted : List (Item β)} (hi : Atomic s)
    (hphase : s.phase t = .writing w) (hrest : w.rest ≠ [])
    (hwhole : w.size ≤ PIPE_PAGE_SIZE → n = w.rest.length)
    (hring : buffer.unread = s.ring ++ w.rest.take n) :
    Atomic { s with
      pipe := { s.pipe with buffer }
      phase := update s.phase t (.writing { w with rest := w.rest.drop n })
      accepted := accepted } := by
  obtain ⟨hget, htags⟩ := hi.active t w hphase
  have hchunk : ∀ x ∈ w.rest.take n, OfCall w.call x := fun x hx =>
    htags x (List.mem_of_mem_take hx)
  -- a small write that still has bytes to hand over has not handed over any
  have hfirst : w.size ≤ PIPE_PAGE_SIZE → ∀ x ∈ s.delivered ++ s.ring, ¬OfCall w.call x :=
    fun hsize => ((hi.whole t w hphase hsize).resolve_left hrest).2
  have hother : ∀ c, c ≠ w.call → ∀ x ∈ w.rest.take n, ¬OfCall c x := by
    intro c hne x hx hc
    have hcall := hchunk x hx
    rw [OfCall] at hc hcall
    rw [hcall] at hc
    exact hne (Option.some.inj hc).symm
  have hsmall : Small s w.call → w.size ≤ PIPE_PAGE_SIZE := by
    rintro ⟨n, hn, hle⟩
    rw [hget] at hn
    cases hn
    exact hle
  have hcalls : ∀ u v, update s.phase t (.writing { w with rest := w.rest.drop n }) u =
      .writing v → ∃ y, s.phase u = .writing y ∧ y.call = v.call := by
    intro u v hv
    by_cases hut : u = t
    · simp only [hut, update_self, writing.injEq] at hv
      exact ⟨w, by rw [hut, hphase], by rw [← hv]⟩
    · exact ⟨v, by rwa [update_of_ne hut] at hv, rfl⟩
  have hmem : ∀ x ∈ s.delivered ++ buffer.unread,
      x ∈ s.delivered ++ s.ring ∨ x ∈ w.rest.take n := by
    intro x hx
    rw [hring, ← List.append_assoc] at hx
    exact List.mem_append.mp hx
  refine ⟨fun x hx c hc => ?_, fun u v hv => ?_, fun u u' v v' hv hv' hcall => ?_,
    fun u v hv hsize => ?_, fun c hc => ?_, fun c hc hd hr => ?_, hi.sent⟩
  · rcases hmem x hx with hold | hnew
    · exact hi.known x hold c hc
    · have hcall : c = w.call := by_contra fun hne => hother c hne x hnew hc
      rw [hcall]
      exact (List.getElem?_eq_some_iff.mp hget).1
  · by_cases hut : u = t
    · simp only [hut, update_self, writing.injEq] at hv
      subst hv
      exact ⟨hget, fun x hx => htags x (List.mem_of_mem_drop hx)⟩
    · simp only [update_of_ne hut] at hv
      exact hi.active u v hv
  · obtain ⟨y, hy, hycall⟩ := hcalls u v hv
    obtain ⟨y', hy', hycall'⟩ := hcalls u' v' hv'
    exact hi.unique u u' y y' hy hy' (by rw [hycall, hycall', hcall])
  · by_cases hut : u = t
    · simp only [hut, update_self, writing.injEq] at hv
      subst hv
      exact .inl (by simp [hwhole hsize])
    · simp only [update_of_ne hut] at hv
      refine (hi.whole u v hv hsize).imp id fun h => ⟨h.1, fun x hx => ?_⟩
      rcases hmem x hx with hold | hnew
      · exact h.2 x hold
      · exact hother v.call (fun hcall => hut (hi.unique u t v w hv hphase hcall)) x hnew
  · show Contiguous _ (s.delivered ++ buffer.unread)
    rw [hring, ← List.append_assoc]
    by_cases hcall : c = w.call
    · subst hcall
      exact .append_all (hfirst (hsmall hc)) hchunk
    · exact (hi.contiguous c hc).append_none (hother c hcall)
  · obtain ⟨x, hx, hxc⟩ := hr
    simp only [ring, hring] at hx
    rcases List.mem_append.mp hx with hold | hnew
    · exact pagesAhead_zero (hi.ahead c hc hd ⟨x, hold, hxc⟩) hphase rfl rfl rfl
    · have hcall : c = w.call := by_contra fun hne => hother c hne x hnew hxc
      subst hcall
      obtain ⟨y, hy, hyc⟩ := hd
      exact absurd hyc (hfirst (hsmall hc) y (List.mem_append_left _ hy))

theorem Moves.atomic (hv : Valid s) (hi : Atomic s) (hok : KeepsAtomic s a)
    (h : Moves content s a s') : Atomic s' := by
  have hmove := @pagesAhead_move τ β _ s s' _
  cases h with
  | writeZerocopy hphase | pinFailed hphase | pin hphase | writeZerocopyReturn hphase | read hphase
  | readRetry hphase | readZerocopy hphase | gatherNone hphase =>
    exact hi.quiet hphase rfl (by simp) rfl rfl rfl rfl rfl
  | write hphase => exact hi.write hphase
  | writeReturn hphase =>
    rename_i t signal w
    refine hi.keep rfl rfl (fun hzero => pagesAhead_zero hzero hphase rfl rfl rfl)
      (fun u w h => writing_of_update (fun w h => by cases h) h) rfl fun r hr hsize => ?_
    rcases List.mem_append.mp hr with hr | hr
    · exact hi.sent r hr hsize
    · obtain rfl := List.mem_singleton.mp hr
      rcases hi.whole t w hphase hsize with hdone | ⟨hall, -⟩
      · exact .inl (by simp [hdone])
      · exact .inr (by simp [hall])
  | writeChunk hphase hrest hpos hn hring hcap =>
    refine hi.writeChunk hphase hrest (fun hsize => ?_) hring.unread
    simp only [KeepsAtomic, hphase] at hok
    omega
  | accept hphase hle hroom hnext =>
    rename_i t d frames n phase
    have hwriting : ∀ w, phase ≠ .writing w := by
      rcases hnext with rfl | ⟨d', rfl⟩ <;> simp
    rcases (hok : _ ∨ _) with hnot | hfull
    · refine hi.flow (show s.delivered ++ s.ring = s.delivered ++ [] ++ s.ring by simp)
        (by simp) (fun _ => rfl) (fun c hc hd hr => ?_)
        (fun u w h => writing_of_update hwriting h) rfl hi.sent
      obtain ⟨x, hx, hxc⟩ := hd
      obtain ⟨z, hz, hzc⟩ := hr
      obtain ⟨⟨y, hlast, hy⟩, y', hhead, hy'⟩ := (hi.contiguous c hc).border hx hxc hz hzc
      refine absurd ⟨?_, ?_⟩ hnot
      · simp [hlast, show y.1 = some c from hy]
      · simp [hlast, hhead, show y.1 = some c from hy, show y'.1 = some c from hy']
    · have hzero : n = 0 := by
        unfold PIPE_PAGE_SIZE at hfull hroom
        omega
      have hheld : phase.held = 0 := by rcases hnext with rfl | ⟨d', rfl⟩ <;> rfl
      refine hi.quiet hphase rfl hwriting rfl rfl ?_ rfl rfl
      rw [hheld]
      simp [hzero, donatedPages, Phase.held]
  | takePages hphase hsplit =>
    have hsame := hmove hphase rfl
    have hcount := hsplit.count
    refine hi.pages _ rfl rfl ?_ (fun u w h => writing_of_update (fun w h => by cases h) h) rfl rfl
    simp only [Phase.held] at hsame ⊢
    omega
  | leaveRing hphase hnext =>
    rcases hnext with rfl | rfl
    all_goals exact hi.quiet hphase rfl (by simp) rfl rfl rfl rfl rfl
  | takeRing hphase hrest hsome hring hcap =>
    rename_i t r pages buffer
    have hbytes : s.delivered ++ s.ring.take r.rest ++ buffer.unread = s.delivered ++ [] ++ s.ring := by
      rw [hring.unread, List.append_assoc, List.take_append_drop, List.append_nil]
    have hzero : s.pagesAhead = 0 := by
      simp only [KeepsAtomic, hphase, hv.holds.availableRead, List.length_eq_zero_iff] at hok
      exact (hok.resolve_left hrest).resolve_left hsome
    exact hi.flow hbytes (by simp) (fun _ => rfl)
      (fun _ _ _ _ => pagesAhead_zero hzero hphase rfl rfl rfl)
      (fun u w h => writing_of_update (fun w h => by cases h) h) rfl hi.sent
  | readReturn hphase =>
    rcases hphase with hphase | hphase
    all_goals exact hi.quiet hphase rfl (by simp) rfl rfl rfl rfl rfl
  | gather hphase hpages =>
    refine hi.quiet hphase rfl (by simp) rfl rfl ?_ rfl rfl
    simp only [← hpages, zeroCopyBytes_append, Phase.held]
    omega
  | remap hphase hn =>
    rename_i t n pages
    have hsame := hmove hphase rfl
    have hsplit : zeroCopyBytes pages =
        zeroCopyBytes (pages.take n) + zeroCopyBytes (pages.drop n) := by
      rw [← zeroCopyBytes_append, List.take_append_drop]
    refine hi.pages _ rfl rfl ?_ (fun u w h => writing_of_update (fun w h => by cases h) h) rfl rfl
    simp only [Phase.held] at hsame ⊢
    omega
  | putBack hphase =>
    refine hi.quiet hphase rfl (by simp) rfl rfl ?_ rfl rfl
    simp only [zeroCopyBytes_append, Phase.held]
    omega
  | setPipeSize hring => exact hi.keep rfl hring.unread id (fun _ _ => id) rfl hi.sent
  | setPipeSizeFailed => exact hi
  | openEnd | closeEnd => exact hi.keep rfl rfl id (fun _ _ => id) rfl hi.sent

omit [DecidableEq τ] in
theorem Initial.atomic (h : Initial s) : Atomic s := by
  have hnew : (PipeRingBuffer.new DEFAULT_PIPE_CAPACITY : PipeRingBuffer (Item β)).unread = [] :=
    (PipeRingBuffer.holds_new (by decide)).unread
  have hempty : s.delivered ++ s.ring = [] := by rcases h with rfl | rfl <;> exact hnew
  have hring : s.ring = [] := (List.append_eq_nil_iff.mp hempty).2
  refine ⟨?_, ?_, ?_, ?_, ?_, ?_, ?_⟩
  · simp [hempty]
  · rcases h with rfl | rfl <;> exact nofun
  · rcases h with rfl | rfl <;> exact nofun
  · rcases h with rfl | rfl <;> exact nofun
  · intro c _
    rw [hempty]
    exact .of_none nofun
  · simp [hring]
  · rcases h with rfl | rfl <;> exact nofun

/-- **Small writes are atomic** in every run in which each of them finds room for all of its bytes
and no page gets between the parts of a write. -/
theorem small_writes_atomic (content : Nat → Vector β PIPE_PAGE_SIZE) (s : System τ β)
    (hr : Reachable Initial (Guarded KeepsAtomic (Step content)) s) : AtomicWrites s := by
  obtain ⟨-, hi⟩ := moves_invariant hr (fun _ => Initial.atomic) fun _ _ _ => Moves.atomic
  exact ⟨fun c hc => (hi.contiguous c hc).of_sublist (List.sublist_append_left _ _),
    fun w hw _ => hi.sent w hw⟩

/-- A `write` of one byte, handed over at once. -/
def writeOne (t : Bool) : List (Action Bool Bool) :=
  [.write t false [t], .writeChunk t, .writeReturn t false]

/-- A `read` of `n` bytes that are there. -/
def readBytes (t : Bool) (n : Nat) : List (Action Bool Bool) :=
  [.read t false n, .takePages t, .takeRing t, .readReturn t false true]

theorem whole_writes_atomic : ∃ s : System Bool Bool,
    Reachable Initial (Guarded KeepsAtomic (Step zeroPages)) s ∧
      s.delivered.map fst = [some 0, some 1] ∧ AtomicWrites s := by
  obtain ⟨s, hr, hs⟩ : ∃ s : System Bool Bool,
      Reachable Initial (Guarded KeepsAtomic (Step zeroPages)) s ∧
        decide (s.delivered.map fst = [some 0, some 1]) = true :=
    Reachable.guarded_execs (.inl rfl) (writeOne false ++ writeOne true ++ readBytes true 2)
      (by decide +kernel)
  exact ⟨s, hr, of_decide_eq_true hs, small_writes_atomic zeroPages s hr⟩

/-- A pipe of one page that is full but for one byte. -/
def roomForOne : List (Action Bool Bool) :=
  [.setPipeSize PIPE_PAGE_SIZE, .writeZerocopy false false 1, .pin false [7] false, .accept false] ++
    readBytes true 1

/-- **Small writes are mixed and cut short**: a byte of another `write` gets between the two bytes
of a blocking one, and a non-blocking one hands over one byte of two. -/
theorem small_writes_interleave :
    (∃ s : System Bool Bool, Reachable Initial (Step zeroPages) s ∧ s.sizes = [2, 1] ∧
      (s.delivered.map fst).drop PIPE_PAGE_SIZE = [some 0, some 1, some 0] ∧
      ¬AtomicWrites s) ∧
    ∃ s : System Bool Bool, Reachable Initial (Step zeroPages) s ∧
      (∃ w ∈ s.writes, w.nonblocking = true ∧ w.size = 2 ∧ w.sent = 1) ∧ ¬AtomicWrites s := by
  constructor
  · obtain ⟨s, hr, hs⟩ : ∃ s : System Bool Bool, Reachable Initial (Step zeroPages) s ∧
        decide (s.sizes = [2, 1] ∧
          (s.delivered.map fst).drop PIPE_PAGE_SIZE = [some 0, some 1, some 0]) = true :=
      Reachable.execs (.inl rfl)
        (roomForOne ++ [.write false false [false, false], .writeChunk false] ++
          readBytes true 1 ++ writeOne true ++ readBytes true 1 ++ [.writeChunk false] ++
          readBytes true PIPE_PAGE_SIZE) (by decide +kernel)
    obtain ⟨hsizes, hbytes⟩ := of_decide_eq_true hs
    refine ⟨s, hr, hsizes, hbytes, fun hatomic => ?_⟩
    have hcall : Contiguous (OfCall 0) (s.delivered.drop PIPE_PAGE_SIZE) :=
      (hatomic.1 0 ⟨2, by rw [hsizes]; rfl, by decide⟩).of_sublist (List.drop_sublist _ _)
    rw [← List.map_drop] at hbytes
    obtain ⟨x, rest, hlast, hx, hrest⟩ := List.map_eq_cons_iff.mp hbytes
    obtain ⟨y, rest', rfl, hy, hrest'⟩ := List.map_eq_cons_iff.mp hrest
    obtain ⟨z, rest'', rfl, hz, -⟩ := List.map_eq_cons_iff.mp hrest'
    have hmiddle : y.1 = some 0 := by
      refine hcall x y z ?_ hx hz
      rw [hlast]
      exact List.sublist_append_left [x, y, z] rest''
    rw [hy] at hmiddle
    cases hmiddle
  · obtain ⟨s, hr, hs⟩ : ∃ s : System Bool Bool, Reachable Initial (Step zeroPages) s ∧
        decide (∃ w ∈ s.writes, w.nonblocking = true ∧ w.size = 2 ∧ w.sent = 1) = true :=
      Reachable.execs (.inl rfl)
        (roomForOne ++ [.write false true [false, false], .writeChunk false, .writeReturn false false])
        (by decide +kernel)
    obtain ⟨w, hw, hnonblocking, hsize, hsent⟩ := of_decide_eq_true hs
    refine ⟨s, hr, ⟨w, hw, hnonblocking, hsize, hsent⟩, fun hatomic => ?_⟩
    have hall := hatomic.2 w hw hnonblocking (by rw [hsize]; decide)
    omega

end System

end PulseOS.Fd
