import Csics.Queue.Invariant

/-!
# The steps keep the invariant

`fill`, `commit_write` and `commit_read` keep the invariant without a condition,
`acquire_write` under `System.Fits` (`InvAt.acquireWrite_step`), and `acquire_read` unless
the reader is already past the open slot and the raw indices hide it.
-/

namespace Csics.Queue

open Base
open QueueSlotHeader (sizeof)

variable {c : Config} {s t : System} {a b : Nat}

/-- The slot header as `acquire_read` reads it. -/
theorem Placed.headerAt_header {q : SPSCQueue} {i : Nat} {g : Grant} (h : Placed c q.buffer i g) :
    q.headerAt g.header = .make false (.ofNat g.size) := by
  rw [SPSCQueue.headerAt, show sizeof.toNat = 8 from rfl, h.header,
    QueueSlotHeader.ofBytes_toBytes_make]

/-- `acquire_read` changes nothing the open slot depends on. -/
theorem OpenAt.reread {queue queue' : SPSCQueue} {writing : Option Writing}
    {reading reading' : Option Slot} {unread : List Message} {w : Writing}
    (h : OpenAt c ⟨queue, writing, reading, unread⟩ a b w) (hb : queue'.buffer = queue.buffer)
    (hw : queue'.writeIndex = queue.writeIndex) :
    OpenAt c ⟨queue', writing, reading', unread⟩ a b w where
  placed := hb ▸ h.placed
  slot_eq := h.slot_eq
  writeIndex_eq := hw ▸ h.writeIndex_eq
  disjoint := h.disjoint
  stop_lt := h.stop_lt

namespace InvAt

/-! ## `fill` and `commit_write` -/

/-- Bytes of the payload are away from both headers and from the unread messages. -/
theorem payload_store (h : InvAt c s a b) {w : Writing} (hw : s.writing = some w) {i : Nat}
    {bs : List UInt8} (hi : i + bs.length ≤ w.grant.size) :
    InvAt c { s with queue := { s.queue with
      buffer := s.queue.buffer.store (w.grant.header + 8 + i) bs } } a b := by
  have ho := h.opened w hw
  have hpay : ∀ r : Region, r.Disjoint w.grant.payload →
      (s.queue.buffer.store (w.grant.header + 8 + i) bs).load r.pos r.len =
        s.queue.buffer.load r.pos r.len := by
    intro r hr
    apply Mem.load_store_of_disjoint
    refine (Region.Disjoint.sub hr.symm ?_ ?_).symm
    · exact Nat.le_add_right _ _
    · show w.grant.header + 8 + i + bs.length ≤ w.grant.header + 8 + w.grant.size
      omega
  have hsep := ho.placed.separated
  refine ⟨h.capacity_eq, h.aligned, ?_, h.lt, h.idle, ?_, h.reader⟩
  · exact h.laid.frame fun m hm r hr =>
      hpay r (ho.disjoint m hm r hr _ (Grant.mem_regions.mpr (Or.inr (Or.inr rfl))))
  · intro w' hw'
    cases hw.symm.trans hw'
    refine ⟨⟨ho.placed.toFitted, ?_, ?_⟩, ho.slot_eq, ho.writeIndex_eq, ho.disjoint, ho.stop_lt⟩
    · exact (hpay ⟨w.grant.header, 8⟩ (Or.inl le_rfl)).trans ho.placed.header
    · intro p hp
      refine (hpay ⟨p, 8⟩ ?_).trans (ho.placed.padHeader p hp)
      simp only [Grant.Separated, Grant.regions, Option.mem_def.mp hp] at hsep
      exact (List.pairwise_cons.mp hsep).1 _ (List.mem_cons_of_mem _ List.mem_cons_self)

theorem fill_step (h : InvAt c s a b) {i : Nat} {x : UInt8} (ht : s.fill i x = some t) :
    InvAt c t a b := by
  unfold System.fill at ht
  split at ht
  · cases ht
  rename_i w hw
  have ho := h.opened w hw
  simp only [ho.slot_eq, ho.placed.toNat_size] at ht
  split at ht
  · rename_i hi
    cases ht
    have hinside : i + [x].length ≤ w.grant.size := hi
    exact h.payload_store hw hinside
  · cases ht

/-- A slot that is committed ends the unread messages, unless it is already released. -/
theorem commitWrite_step (h : InvAt c s a b) (ht : s.commitWrite c.kCacheLineSize = some t) :
    ∃ w, s.writing = some w ∧
      InvAt c t (if w.released then stopIndex c b w.grant else a) (stopIndex c b w.grant) := by
  obtain ⟨queue, writing, reading, unread⟩ := s
  cases writing with
  | none => cases ht
  | some w =>
  cases ht
  refine ⟨w, rfl, ?_⟩
  have ho := h.opened w rfl
  have hqueue : queue.commitWrite c.kCacheLineSize w.slot =
      { queue with
        writeIndex := SPSCQueue.indexAfter c.kCacheLineSize queue.writeIndex w.slot } := by
    rw [ho.slot_eq]
    exact SPSCQueue.commitWrite_of_ne ho.placed.ofNat_size_ne
  have hindex : (SPSCQueue.indexAfter c.kCacheLineSize queue.writeIndex w.slot).toNat =
      stopIndex c b w.grant % 2 ^ 64 := by
    rw [c.toNat_indexAfter ho.writeIndex_eq, ho.slot_eq, ho.placed.toNat_size]
    rfl
  have hlaid := h.laid
  obtain ⟨r, hr, hread⟩ := h.reader
  dsimp only at hr hlaid hread ⊢
  rw [hqueue]
  cases hr with
  | idle hrel =>
    simp only [hrel w rfl, Bool.false_eq_true, if_false]
    refine ⟨h.capacity_eq, dvd_roundUp _ _, ?_, ho.stop_lt, fun _ => hindex, by rintro w' ⟨⟩, a,
      .idle (by rintro w' ⟨⟩), hread⟩
    exact hlaid.concat ho.placed rfl
  | holding m rest hu hrel =>
    simp only [hrel w rfl, Bool.false_eq_true, if_false]
    refine ⟨h.capacity_eq, dvd_roundUp _ _, ?_, ho.stop_lt, fun _ => hindex, by rintro w' ⟨⟩, _, ?_,
      hread⟩
    · exact hlaid.concat ho.placed rfl
    · simp only [hu]
      exact .holding m _ rfl (by rintro w' ⟨⟩)
  | early w' hu hw hp hrel =>
    -- the consumer's slot is the message that is committed now
    cases hw
    subst hu
    have hab : a = b := hlaid
    simp only [hrel, Bool.false_eq_true, if_false]
    refine ⟨h.capacity_eq, dvd_roundUp _ _, ?_, ho.stop_lt, fun _ => hindex, by rintro w' ⟨⟩, _, ?_,
      hread⟩
    · exact hlaid.concat ho.placed rfl
    · rw [List.nil_append]
      rw [ho.slot_eq, ← hab]
      exact .holding _ [] rfl (by rintro w' ⟨⟩)
  | ahead w' hu hw hp hrel =>
    -- the consumer is already past the slot
    cases hw
    subst hu
    simp only [hrel, if_true]
    exact ⟨h.capacity_eq, dvd_roundUp _ _, rfl, by omega, fun _ => hindex, by rintro w' ⟨⟩, _,
      .idle (by rintro w' ⟨⟩), hread⟩

/-! ## `acquire_read` and `commit_read` -/

/-- The reader at the start of a placed message gets its slot, and `read_index_` skips the
padding. -/
theorem acquireRead_of_placed {q : SPSCQueue} {i : Nat} {g : Grant} (slot : Slot)
    (hcap : q.capacity = c.capacity) (hg : Placed c q.buffer i g)
    (hindex : q.readIndex.toNat = i % 2 ^ 64) (hlt : ¬ q.readIndex ≥ q.writeIndex) :
    ∃ r : UInt64, q.acquireRead slot =
        (.none, ⟨some (g.header + 8), .ofNat g.size⟩, { q with readIndex := r }) ∧
      r.toNat = bodyIndex c i g % 2 ^ 64 := by
  have hmod : q.readModIndex.toNat = i % c.size := by
    rw [SPSCQueue.readModIndex, hcap, toNat_and_pred c.capacity_eq, hindex]
    exact c.mod_word_mod i
  have hheader := hg.headerAt_header
  have hsize := hg.toFitted.ofNat_make_size false
  cases hp : g.pad with
  | none =>
    have hpos : g.header = i % c.size := by rw [hg.header_eq, headerIndex, hp]
    refine ⟨q.readIndex, ?_, by simpa [bodyIndex, hp] using hindex⟩
    rw [hpos] at hheader
    simp only [SPSCQueue.acquireRead, hlt, if_false, hmod, hheader, hsize, hpos]
    rfl
  | some p =>
    have hpi := hg.pad_eq p hp
    have hpad : q.headerAt p = .make true (c.capacity - .ofNat p + sizeof) := by
      rw [SPSCQueue.headerAt, show sizeof.toNat = 8 from rfl, hg.padHeader p hp,
        QueueSlotHeader.ofBytes_toBytes_make]
    have hlt' := Nat.mod_lt i c.size_pos
    have htoNat := c.toNat_pad (hpi ▸ hlt')
    have hzero := hg.toFitted.header_of_pad hp
    rw [← hpi] at hmod
    rw [hzero] at hheader
    refine ⟨q.readIndex + (.ofNat (QueueSlotHeader.make true
      (c.capacity - .ofNat p + sizeof)).size + sizeof), ?_, ?_⟩
    · simp only [SPSCQueue.acquireRead, hlt, if_false, hmod, hpad, QueueSlotHeader.make_padded,
        if_true, hzero, hheader, hsize]
      rfl
    · -- `read_index_` lands 16 bytes into the next lap, where `write_index_` was
      have hlap := lapEnd_eq c.size_pos i
      have h8 : sizeof.toNat = 8 := rfl
      have hc := c.size_le
      have hbefore := hg.before_pad p hp
      have hpos := hg.size_pos
      simp only [QueueSlotHeader.make, bodyIndex, hp, UInt64.toNat_add, UInt64.toNat_ofNat', htoNat,
        hindex, h8]
      omega

/-- The consumer's first slot: the oldest unread message, or the open slot when nothing is
unread and it wraps. -/
theorem acquireRead_idle (h : InvAt c s a b) (hread : s.queue.readIndex.toNat = a % 2 ^ 64)
    (hlt : ¬ s.queue.readIndex ≥ s.queue.writeIndex) :
    (∃ m rest, s.unread = m :: rest ∧ Placed c s.queue.buffer a m.grant) ∨
      ∃ w, s.unread = [] ∧ a = b ∧ s.writing = some w ∧ w.grant.pad.isSome ∧
        OpenAt c s a b w := by
  have hlaid := h.laid
  cases hu : s.unread with
  | cons m rest =>
    rw [hu] at hlaid
    exact Or.inl ⟨m, rest, rfl, hlaid.1⟩
  | nil =>
    rw [hu] at hlaid
    have hab : a = b := hlaid
    have hne : s.queue.readIndex ≠ s.queue.writeIndex := fun he => hlt (he ▸ UInt64.le_refl _)
    cases hw : s.writing with
    | none =>
      refine absurd (UInt64.toNat.inj ?_) hne
      rw [hread, h.idle hw, hab]
    | some w =>
      have ho := h.opened w hw
      refine Or.inr ⟨w, rfl, hab, rfl, ?_, ho⟩
      cases hp : w.grant.pad with
      | some p => rfl
      | none =>
        refine absurd (UInt64.toNat.inj ?_) hne
        rw [hread, ho.writeIndex_eq, bodyIndex, hp, hab]

theorem acquireRead_step (h : InvAt c s a b) (ht : s.acquireRead = some t)
    (hahead : s.unread = [] → ∀ w ∈ s.writing, w.grant.pad.isSome → w.released = true →
      s.queue.readIndex ≥ s.queue.writeIndex) :
    InvAt c t a b := by
  obtain ⟨queue, writing, reading, unread⟩ := s
  cases reading with
  | some slot => cases ht
  | none =>
  by_cases hlt : queue.readIndex ≥ queue.writeIndex
  · simp only [System.acquireRead, SPSCQueue.acquireRead, hlt, if_true, Option.some.injEq] at ht
    subst ht
    exact h
  obtain ⟨r, hr, hread⟩ := h.reader
  dsimp only at hr hread hahead
  cases hr with
  | ahead w hu hw hp hrel => exact absurd (hahead hu w hw hp hrel) hlt
  | idle hrel =>
    rcases h.acquireRead_idle hread hlt with
      ⟨m, rest, hu, hm⟩ | ⟨w, hu, hab, hw, hp, ho⟩
    · obtain ⟨r, hacq, hr⟩ := acquireRead_of_placed .init h.capacity_eq hm hread hlt
      simp only [System.acquireRead, hacq, Option.some.injEq] at ht
      subst ht
      exact ⟨h.capacity_eq, h.aligned, h.laid, h.lt, h.idle,
        fun w hw => (h.opened w hw).reread rfl rfl, _, .holding m rest hu hrel, hr⟩
    · obtain ⟨r, hacq, hr⟩ := acquireRead_of_placed .init h.capacity_eq
        (hab ▸ ho.placed) hread hlt
      simp only [System.acquireRead, hacq, Option.some.injEq] at ht
      subst ht
      refine ⟨h.capacity_eq, h.aligned, h.laid, h.lt, h.idle,
        fun w hw => (h.opened w hw).reread rfl rfl, _, ?_, hr⟩
      rw [← ho.slot_eq, hab]
      exact .early w hu hw hp (hrel w hw)

/-- The first unread message is released. -/
theorem commitRead_step (h : InvAt c s a b) (ht : s.commitRead c.kCacheLineSize = some t) :
    ∃ a', InvAt c t a' b ∧ ∀ m ∈ s.unread.head?, a' = stopIndex c a m.grant := by
  obtain ⟨queue, writing, reading, unread⟩ := s
  have hlaid := h.laid
  obtain ⟨r, hr, hread⟩ := h.reader
  dsimp only at hr hlaid hread
  cases hr with
  | idle hrel => cases ht
  | ahead w hu hw hp hrel => cases ht
  | holding m rest hu hrel =>
    subst hu
    cases ht
    have hle := bodyIndex_lt_stop (c := c) (b := a) (g := m.grant)
    have hle' := begin_le_body (c := c) (b := a) (g := m.grant)
    have hlt := h.lt
    refine ⟨stopIndex c a m.grant, ?_, by rintro m' ⟨⟩; rfl⟩
    rw [Message.slot, SPSCQueue.commitRead_of_ne hlaid.1.ofNat_size_ne]
    refine ⟨h.capacity_eq, h.aligned, hlaid.2.2, by omega, h.idle, ?_, _, .idle hrel, ?_⟩
    · intro w hw
      have ho := h.opened w hw
      have hstop := ho.stop_lt
      exact ⟨ho.placed, ho.slot_eq, ho.writeIndex_eq,
        fun m' hm' => ho.disjoint m' (List.mem_cons_of_mem _ hm'), by omega⟩
    · rw [c.toNat_indexAfter hread, hlaid.1.toNat_size]
      rfl
  | early w hu hw hp hrel =>
    subst hu hw
    cases ht
    have ho := h.opened w rfl
    refine ⟨a, ?_, by rintro m' ⟨⟩⟩
    rw [ho.slot_eq, SPSCQueue.commitRead_of_ne ho.placed.ofNat_size_ne]
    refine ⟨h.capacity_eq, h.aligned, hlaid, h.lt, by rintro ⟨⟩, ?_, _,
      .ahead { w with released := true } rfl rfl hp rfl, ?_⟩
    · rintro w' ⟨⟩
      exact ⟨ho.placed, ho.slot_eq, ho.writeIndex_eq, ho.disjoint, ho.stop_lt⟩
    · rw [c.toNat_indexAfter hread, ho.placed.toNat_size]
      rfl

/-! ## A call and its commit -/

/-- A granted request is filled and committed. -/
theorem exists_acquireWrite {q : SPSCQueue} {unread : List Message} {size : UInt64}
    (hinv : InvAt c ⟨q, none, none, unread⟩ a b) (hg : Granted ⟨q, none, none, unread⟩ size)
    {data : List UInt8} (hdata : data.length = size.toNat) :
    ∃ q', q.acquireWrite .init size = (.none, ⟨some ((q.grant size).header + 8), size⟩, q') ∧
      InvAt c ⟨({ q' with
          buffer := q'.buffer.store ((q.grant size).header + 8) data }).commitWrite
            c.kCacheLineSize ⟨some ((q.grant size).header + 8), size⟩,
        none, none, unread ++ [⟨q.grant size, data⟩]⟩ a (stopIndex c b (q.grant size)) := by
  have hstep := hinv.acquireWrite_step hg (acquireWrite_granted hg)
  have hlength : data.length = (q.grant size).size := by
    rw [hdata]
    exact (hinv.grant_size hg).symm
  obtain ⟨q₁, hq₁, hinv₁⟩ : ∃ q₁,
      q.acquireWrite .init size = (.none, ⟨some ((q.grant size).header + 8), size⟩, q₁) ∧
        InvAt c ⟨q₁, some ⟨⟨some ((q.grant size).header + 8), size⟩, q.grant size, false⟩, none,
          unread⟩ a b :=
    ⟨_, SPSCQueue.acquireWrite_of_accepted (fun hgt => hg.accepted (Or.inl hgt))
      (fun hge => hg.accepted (Or.inr hge)), hstep⟩
  have hinside : 0 + data.length ≤ (q.grant size).size := by
    rw [Nat.zero_add]
    exact hlength.le
  have hinv₂ := hinv₁.payload_store rfl hinside
  obtain ⟨w, hw, hinv₃⟩ := hinv₂.commitWrite_step rfl
  cases hw
  have hload : (q₁.buffer.store ((q.grant size).header + 8 + 0) data).load
      (q.grant size).payload.pos (q.grant size).payload.len = data :=
    Mem.load_store_of_length hlength
  simp only [Bool.false_eq_true, if_false, hload] at hinv₃
  exact ⟨_, hq₁, hinv₃⟩

/-- The oldest message is read and released. -/
theorem exists_acquireRead {q : SPSCQueue} {m : Message} {rest : List Message}
    (hinv : InvAt c ⟨q, none, none, m :: rest⟩ a b) (hlt : ¬ q.readIndex ≥ q.writeIndex) :
    ∃ q', q.acquireRead .init = (.none, m.slot, q') ∧
      q'.buffer.load (m.grant.header + 8) m.grant.size = m.data ∧
      InvAt c ⟨q'.commitRead c.kCacheLineSize m.slot, none, none, rest⟩
        (stopIndex c a m.grant) b := by
  obtain ⟨hplaced, hload, -⟩ := hinv.laid
  have hread : q.readIndex.toNat = a % 2 ^ 64 := hinv.toNat_readIndex rfl rfl
  obtain ⟨r, hacquire, -⟩ := acquireRead_of_placed .init hinv.capacity_eq hplaced hread hlt
  have hstep : InvAt c ⟨{ q with readIndex := r }, none, some m.slot, m :: rest⟩ a b := by
    apply hinv.acquireRead_step
    · simp only [System.acquireRead, hacquire]
      rfl
    · rintro ⟨⟩
  obtain ⟨a', hinv', ha'⟩ := hstep.commitRead_step rfl
  rw [ha' m rfl] at hinv'
  exact ⟨_, hacquire, hload, hinv'⟩

end InvAt

end Csics.Queue
