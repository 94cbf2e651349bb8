import Csics.Queue.Lifetimes

/-!
# What a ring holds

The objects in the memory of one message queue. `Ring.At` says that the unread messages are the
items of a list, and that the items are the objects that lie there: no slot is given out again
before its object is destroyed. `Ring.Holds` is the invariant that survives a move.

`Holds.tryPush_cases` and `Holds.tryPop_cases` say what the two calls do, and `Holds.destruct` that
the destructor destroys what is held.
-/

namespace Csics.Queue

open Base
open QueueSlotHeader (sizeof)

/-! ## Conditions on a request -/

namespace SPSCQueue

/-- The size test or the fullness test turns the request down. -/
def TurnsDown (q : SPSCQueue) (size : UInt64) : Prop :=
  size > q.capacity ∨ q.writeIndex - q.readIndex + (size + sizeof) ≥ q.capacity

/-- Where `write_index_` would be behind the next slot if it were not reduced modulo `2^64`. -/
def nextWriteIndex (kCacheLineSize : UInt64) (q : SPSCQueue) (size : UInt64) : Nat :=
  if q.capacity.toNat < q.writeModIndex.toNat + size.toNat + 8 then
    roundUp kCacheLineSize.toNat
      (lapEnd q.capacity.toNat q.writeIndex.toNat + 16 + size.toNat + 8)
  else roundUp kCacheLineSize.toNat (q.writeIndex.toNat + size.toNat + 8)

instance (q : SPSCQueue) (size : UInt64) : Decidable (q.TurnsDown size) :=
  inferInstanceAs (Decidable (_ ∨ _))

end SPSCQueue

variable {c : Config} {size : UInt64} {r : Ring size} {m : Item size} {items : List (Item size)}
  {unread : List Message} {i j : Nat}

/-! ## One ring -/

namespace Ring

/-- The messages of the ring are the items, in the blocks from `i` to `j`, and the items are the
objects that lie there. -/
structure At (c : Config) (r : Ring size) (items : List (Item size)) (unread : List Message)
    (i j : Nat) : Prop where
  count : i + items.length = j
  near : blockIndex c size.toNat j ≤ blockIndex c size.toNat i + c.size + c.line
  inv : InvAt c ⟨r.queue.queue, none, none, unread⟩ (blockIndex c size.toNat i)
    (blockIndex c size.toNat j)
  data : unread.map Message.data = items.map fun m => m.value.bytes
  regular : ∀ m ∈ unread, m.grant.Regular c size.toNat
  objects : (unread.map fun m => r.objects (m.grant.header + 8)) = items.map fun m => some m.id

theorem tryPush_of_acquireWrite {line : UInt64} {pos id : Nat} {q : SPSCQueue}
    {value : Object size}
    (h : r.queue.queue.acquireWrite .init size = (.none, ⟨some pos, size⟩, q)) :
    r.tryPush line id value =
      (.none, ⟨⟨({ q with buffer := q.buffer.store pos value.bytes }).commitWrite line
        ⟨some pos, size⟩⟩, Function.update r.objects pos (some id)⟩) := by
  simp only [tryPush, SPSCMessageQueue.tryPush, h, SPSCQueue.construct, Option.elim_some]

theorem tryPop_of_acquireRead (line : UInt64) {slot : Slot} {pos : Nat} {q : SPSCQueue}
    (h : r.queue.queue.acquireRead .init = (.none, slot, q)) (hpos : slot.data = some pos) :
    r.tryPop line =
      (.none, some ⟨r.objects pos, ⟨q.buffer.load pos size.toNat, Mem.length_load _ _ _⟩⟩,
        ⟨⟨q.commitRead line slot⟩, r.objects⟩) := by
  simp only [tryPop, SPSCMessageQueue.tryPop, h, hpos, Option.map_some, Option.bind_some]

/-- A request that is turned down changes nothing. -/
theorem tryPush_of_turnsDown (h : r.queue.queue.TurnsDown size) (line : UInt64) (m : Item size) :
    ∃ err, err ≠ .none ∧ r.tryPush line m.id m.value = (err, r) := by
  have hrejected : (⟨r.queue.queue, none, none, []⟩ : System).Rejected size := h
  obtain ⟨err, herr, hacquire⟩ := System.acquireWrite_of_rejected hrejected .init
  have hacquire' : r.queue.queue.acquireWrite .init size = (err, .init, r.queue.queue) := hacquire
  refine ⟨err, herr, ?_⟩
  simp only [tryPush, SPSCMessageQueue.tryPush, hacquire']

theorem tryPop_of_ge {line : UInt64}
    (h : r.queue.queue.readIndex ≥ r.queue.queue.writeIndex) :
    r.tryPop line = (.empty, none, r) := by
  simp only [tryPop, SPSCMessageQueue.tryPop_of_ge h, Option.map_none]

/-- A destructor that finds the indices out of order destroys nothing. -/
theorem destruct_of_ge {line : UInt64}
    (h : r.queue.queue.readIndex ≥ r.queue.queue.writeIndex) : r.destruct line = some [] := by
  unfold destruct
  split
  · rfl
  · rw [drain, tryPop_of_ge h]

namespace At

theorem messages (h : r.At c items unread i j) :
    Messages.At c ⟨r.queue, items.map Item.value⟩ i j where
  count := by
    rw [List.length_map]
    exact h.count
  near := h.near
  inv := ⟨unread, h.inv, by rw [h.data, List.map_map]; rfl, h.regular⟩

theorem length_unread (h : r.At c items unread i j) : unread.length = items.length := by
  have hlength := congrArg List.length h.data
  rwa [List.length_map, List.length_map] at hlength

theorem make {line capacity : UInt64}
    (hcapacity : c.capacity = SPSCMessageQueue.ringCapacity line size capacity) (buffer : Mem) :
    (Ring.make line capacity buffer : Ring size).At c [] [] 0 0 := by
  have hat : Messages.At c (.init line capacity buffer : Messages size) 0 0 :=
    .init hcapacity buffer
  obtain ⟨unread, hinv, hdata, -⟩ := hat.inv
  have hnil : unread = [] := List.map_eq_nil_iff.mp hdata
  subst hnil
  exact ⟨rfl, hat.near, hinv, rfl, fun m hm => absurd hm List.not_mem_nil, rfl⟩

theorem turnsDown_iff (hptr : c.size < 2 ^ 63) (h : r.At c items unread i j) :
    r.queue.queue.TurnsDown size ↔ ¬ Accepts c size.toNat i j :=
  h.messages.rejected_iff hptr unread

theorem nextWriteIndex_eq (hline : 16 ≤ c.line) (h : r.At c items unread i j)
    (haccepts : Accepts c size.toNat i j) (hword : blockIndex c size.toNat j < 2 ^ 64) :
    r.queue.queue.nextWriteIndex c.kCacheLineSize size = blockIndex c size.toNat (j + 1) := by
  have hslot : size.toNat + 8 ≤ c.size := by
    unfold Accepts at haccepts
    omega
  have hmod : r.queue.queue.writeModIndex.toNat = _ := h.inv.toNat_writeModIndex rfl
  have hindex : r.queue.queue.writeIndex.toNat = _ := h.inv.idle rfl
  have hcapacity : r.queue.queue.capacity = _ := h.inv.capacity_eq
  rw [Nat.mod_eq_of_lt hword] at hindex
  rw [SPSCQueue.nextWriteIndex, hmod, hindex, hcapacity, ← nextIndex_blockIndex hline hslot]
  rfl

/-- A message that leaves a byte free is stored. -/
theorem tryPush (hline : 16 ≤ c.line) (hptr : c.size < 2 ^ 63) (hsize : size ≠ 0)
    (h : r.At c items unread i j) (haccepts : Accepts c size.toNat i j) (m : Item size) :
    ∃ r' unread', r.tryPush c.kCacheLineSize m.id m.value = (.none, r') ∧
      r'.At c (items ++ [m]) unread' i (j + 1) := by
  have hg := h.messages.granted hline hptr hsize haccepts h.inv
  have hstop := h.messages.stopIndex_grant hline hptr hsize haccepts h.inv
  obtain ⟨q, hacquire, hinv⟩ := h.inv.exists_acquireWrite hg m.value.length_eq
  rw [hstop] at hinv
  refine ⟨_, _, tryPush_of_acquireWrite hacquire, ?_, ?_, hinv, ?_, ?_, ?_⟩
  · rw [List.length_append, List.length_singleton, ← Nat.add_assoc, h.count]
  · exact h.messages.near_succ hline haccepts h.inv
  · rw [List.map_append, List.map_append, h.data]
    rfl
  · intro m' hm'
    rcases List.mem_append.mp hm' with hm' | hm'
    · exact h.regular m' hm'
    · rw [List.mem_singleton.mp hm']
      exact grant_regular h.inv hg
  · rw [List.map_append, List.map_append, ← h.objects]
    congr 1
    · -- the slot of an unread message is elsewhere
      apply List.map_congr_left
      intro m' hm'
      apply Function.update_of_ne
      intro heq
      have hdisj := h.inv.laid.disjoint (h.inv.grant_fitted hg) (h.inv.end_le hg) hm'
      have hpay := hdisj _ (Grant.mem_regions.mpr (Or.inr (Or.inr rfl))) _
        (Grant.mem_regions.mpr (Or.inr (Or.inr rfl)))
      have hpos := (h.inv.grant_fitted hg).size_pos
      obtain ⟨b', -, -, hplaced⟩ := h.inv.laid.placed_of_mem hm'
      have hpos' := hplaced.toFitted.size_pos
      have h8 : sizeof.toNat = 8 := rfl
      unfold Region.Disjoint Grant.payload at hpay
      dsimp only at hpay hpos heq
      omega
    · exact congrArg (fun id => [id]) (Function.update_self _ _ _)

/-- The oldest object is returned and destroyed. -/
theorem tryPop (hline : 16 ≤ c.line) (h : r.At c (m :: items) unread i j)
    (hword : blockIndex c size.toNat j < 2 ^ 64) :
    ∃ r' unread', r.tryPop c.kCacheLineSize = (.none, some m.destroyed, r') ∧
      r'.At c items unread' (i + 1) j := by
  have hcount := h.count
  rw [List.length_cons] at hcount
  have hlt := h.messages.readIndex_lt (by omega) hword
  obtain ⟨message, rest, hunread, hdata, hrest⟩ := List.map_eq_cons_iff.mp h.data
  subst hunread
  have hobjects := h.objects
  rw [List.map_cons, List.map_cons, List.cons.injEq] at hobjects
  have hm := h.regular message List.mem_cons_self
  have hstop := stopIndex_blockIndex hline h.inv.laid.1.toFitted hm
  obtain ⟨q, hacquire, hload, hinv⟩ := h.inv.exists_acquireRead hlt
  rw [hstop] at hinv
  have hbody := begin_le_body (c := c) (b := blockIndex c size.toNat i) (g := message.grant)
  have hadd := bodyIndex_lt_stop (c := c) (b := blockIndex c size.toNat i) (g := message.grant)
  have hle : blockIndex c size.toNat (i + 1) ≤ blockIndex c size.toNat j := hinv.laid.le
  have hnear := h.near
  have hslot : message.slot.data = some (message.grant.header + 8) := rfl
  have hvalue : message.data = m.value.bytes := hdata
  have hpop := tryPop_of_acquireRead c.kCacheLineSize hacquire hslot
  have hdestroyed : (⟨r.objects (message.grant.header + 8),
      ⟨q.buffer.load (message.grant.header + 8) size.toNat, Mem.length_load _ _ _⟩⟩ :
      Destroyed size) = m.destroyed := by
    apply Destroyed.ext
    · exact hobjects.1
    · apply Object.ext
      show q.buffer.load (message.grant.header + 8) size.toNat = m.value.bytes
      rw [← hvalue, ← hload, hm.size_eq]
  rw [hdestroyed] at hpop
  refine ⟨_, rest, hpop, by omega, by omega, hinv, hrest, ?_, hobjects.2⟩
  intro m' hm'
  exact h.regular m' (List.mem_cons_of_mem _ hm')

theorem drain (hline : 16 ≤ c.line) (h : r.At c items unread i j)
    (hword : blockIndex c size.toNat j < 2 ^ 64) {n : Nat} (hn : items.length < n) :
    r.drain c.kCacheLineSize n = some (items.map Item.destroyed) := by
  induction items generalizing r unread i n with
  | nil =>
    obtain ⟨n, rfl⟩ := Nat.exists_eq_succ_of_ne_zero (Nat.ne_of_gt hn)
    have hnil : unread = [] := List.eq_nil_of_length_eq_zero h.length_unread
    subst hnil
    have hread : r.queue.queue.readIndex.toNat = _ := h.inv.toNat_readIndex rfl rfl
    have hwrite : r.queue.queue.writeIndex.toNat = _ := h.inv.idle rfl
    have hab : blockIndex c size.toNat i = blockIndex c size.toNat j := h.inv.laid
    have hge : r.queue.queue.readIndex ≥ r.queue.queue.writeIndex := by
      rw [ge_iff_le, UInt64.le_iff_toNat_le, hread, hwrite, hab]
    rw [Ring.drain, tryPop_of_ge hge]
    rfl
  | cons m items ih =>
    obtain ⟨n, rfl⟩ := Nat.exists_eq_succ_of_ne_zero (Nat.ne_zero_of_lt hn)
    obtain ⟨r', unread', hpop, h'⟩ := h.tryPop hline hword
    rw [List.length_cons] at hn
    rw [Ring.drain, hpop]
    show (r'.drain c.kCacheLineSize n).map _ = _
    rw [ih h' (by omega)]
    rfl

end At

/-! ## What a ring holds -/

/-- The ring is what a move leaves of one, or its items lie in blocks below index `2 ^ 64`. -/
def Holds (line : UInt64) (r : Ring size) (items : List (Item size)) : Prop :=
  (r.queue.queue.capacity = 0 ∧ r.queue.queue.Empty ∧ items = []) ∨
    ∃ (c : Config) (unread : List Message) (i j : Nat), c.kCacheLineSize = line ∧ 16 ≤ c.line ∧
      c.size < 2 ^ 63 ∧ r.At c items unread i j ∧ blockIndex c size.toNat j < 2 ^ 64

namespace At

theorem toNat_readIndex (h : r.At c items unread i j)
    (hword : blockIndex c size.toNat i < 2 ^ 64) :
    r.queue.queue.readIndex.toNat = blockIndex c size.toNat i := by
  have hread : r.queue.queue.readIndex.toNat = _ := h.inv.toNat_readIndex rfl rfl
  rwa [Nat.mod_eq_of_lt hword] at hread

theorem empty_iff (h : r.At c items unread i j) (hword : blockIndex c size.toNat j < 2 ^ 64) :
    r.queue.queue.Empty ↔ items = [] := by
  have hle : blockIndex c size.toNat i ≤ blockIndex c size.toNat j := h.inv.laid.le
  have hread := h.toNat_readIndex (hle.trans_lt hword)
  have hwrite : r.queue.queue.writeIndex.toNat = _ := h.inv.idle rfl
  rw [Nat.mod_eq_of_lt hword] at hwrite
  have hlength : _ + unread.length ≤ _ := h.inv.laid.length_le
  rw [h.length_unread] at hlength
  constructor
  · intro hempty
    rw [hempty, hwrite] at hread
    exact List.eq_nil_of_length_eq_zero (by omega)
  · rintro rfl
    have hcount := h.count
    have hij : i = j := hcount
    exact UInt64.toNat_inj.mp (hread.trans (hij ▸ hwrite.symm))

theorem destruct (hline : 16 ≤ c.line) (h : r.At c items unread i j)
    (hword : blockIndex c size.toNat j < 2 ^ 64) :
    r.destruct c.kCacheLineSize = some (items.map Item.destroyed) := by
  have hle : blockIndex c size.toNat i ≤ blockIndex c size.toNat j := h.inv.laid.le
  have hread := h.toNat_readIndex (hle.trans_lt hword)
  have hwrite : r.queue.queue.writeIndex.toNat = _ := h.inv.idle rfl
  have hlength : _ + unread.length ≤ _ := h.inv.laid.length_le
  rw [h.length_unread] at hlength
  unfold Ring.destruct
  by_cases hempty : r.queue.queue.Empty
  · rw [if_pos hempty, (h.empty_iff hword).mp hempty]
    rfl
  · rw [if_neg hempty]
    apply h.drain hline hword
    rw [UInt64.toNat_sub, hread, hwrite]
    omega

/-- Behind `2 ^ 64` the indices are out of order. -/
theorem destruct_of_wrapped (h : r.At c items unread i j)
    (hword : blockIndex c size.toNat i < 2 ^ 64)
    (hwrapped : ¬ blockIndex c size.toNat j < 2 ^ 64) (line : UInt64) :
    r.destruct line = some [] := by
  have hread := h.toNat_readIndex hword
  have hwrite : r.queue.queue.writeIndex.toNat = _ := h.inv.idle rfl
  have hlt := h.inv.lt
  apply destruct_of_ge
  rw [ge_iff_le, UInt64.le_iff_toNat_le, hread, hwrite]
  omega

end At

namespace Holds

variable {line : UInt64}

theorem make {k : Nat} (hline : line.toNat = 2 ^ k) (hk : 4 ≤ k) {capacity : UInt64}
    (hptr : (SPSCMessageQueue.ringCapacity line size capacity).toNat < 2 ^ 63) (buffer : Mem) :
    (Ring.make line capacity buffer : Ring size).Holds line [] := by
  obtain ⟨c, rfl, hring⟩ := exists_config hline (by omega)
    (capacity * SPSCMessageQueue.readSize line size)
  have hcapacity : c.capacity =
      SPSCMessageQueue.ringCapacity c.kCacheLineSize size capacity := hring
  have hlines : 16 ≤ c.line := by
    rw [Config.line, hline]
    exact Nat.pow_le_pow_right (show 0 < 2 by omega) hk
  refine Or.inr ⟨c, [], 0, 0, rfl, hlines, ?_, At.make hcapacity buffer, ?_⟩
  · rw [Config.size, hcapacity]
    exact hptr
  · rw [blockIndex_first (Nat.zero_le _)]
    omega

theorem null (objects : Nat → Option Nat) : (⟨⟨.null⟩, objects⟩ : Ring size).Holds line [] :=
  Or.inl ⟨rfl, rfl, rfl⟩

theorem destruct (h : r.Holds line items) :
    r.destruct line = some (items.map Item.destroyed) := by
  rcases h with ⟨-, hempty, rfl⟩ | ⟨c, unread, i, j, rfl, hlines, -, hat, hword⟩
  · exact if_pos hempty
  · exact hat.destruct hlines hword

theorem empty_iff (h : r.Holds line items) : r.queue.queue.Empty ↔ items = [] := by
  rcases h with ⟨-, hempty, rfl⟩ | ⟨c, unread, i, j, rfl, -, -, hat, hword⟩
  · exact iff_of_true hempty rfl
  · exact hat.empty_iff hword

/-- A message is turned down, or it is stored. If the index behind it is not below `2 ^ 64`, the
destructor misses everything that is stored. -/
theorem tryPush_cases (hsize : size ≠ 0) (h : r.Holds line items) (m : Item size) :
    (r.queue.queue.TurnsDown size ∧
        ∃ err, err ≠ .none ∧ r.tryPush line m.id m.value = (err, r)) ∨
      ¬ r.queue.queue.TurnsDown size ∧ ∃ r', r.tryPush line m.id m.value = (.none, r') ∧
        if r.queue.queue.nextWriteIndex line size < 2 ^ 64 then r'.Holds line (items ++ [m])
        else r'.destruct line = some [] := by
  by_cases hdown : r.queue.queue.TurnsDown size
  · exact Or.inl ⟨hdown, tryPush_of_turnsDown hdown line m⟩
  refine Or.inr ⟨hdown, ?_⟩
  rcases h with ⟨hzero, -, -⟩ | ⟨c, unread, i, j, rfl, hlines, hptr, hat, hword⟩
  · -- no request is small enough for a queue without memory
    apply absurd _ hdown
    left
    rw [hzero]
    exact UInt64.pos_iff_ne_zero.mpr hsize
  · rw [hat.turnsDown_iff hptr, not_not] at hdown
    obtain ⟨r', unread', hpush, hat'⟩ := hat.tryPush hlines hptr hsize hdown m
    have hle : blockIndex c size.toNat i ≤ blockIndex c size.toNat j := hat.inv.laid.le
    refine ⟨r', hpush, ?_⟩
    rw [hat.nextWriteIndex_eq hlines hdown hword]
    split
    · rename_i hnext
      exact Or.inr ⟨c, unread', i, j + 1, rfl, hlines, hptr, hat', hnext⟩
    · rename_i hnext
      exact hat'.destruct_of_wrapped (hle.trans_lt hword) hnext _

/-- The oldest item is returned, if there is one. -/
theorem tryPop_cases (h : r.Holds line items) :
    (items = [] ∧ r.tryPop line = (.empty, none, r)) ∨
      ∃ m rest r', items = m :: rest ∧ r.tryPop line = (.none, some m.destroyed, r') ∧
        r'.Holds line rest := by
  cases items with
  | nil =>
    have hempty : r.queue.queue.Empty := h.empty_iff.mpr rfl
    have hge : r.queue.queue.readIndex ≥ r.queue.queue.writeIndex := UInt64.le_of_eq hempty.symm
    exact Or.inl ⟨rfl, tryPop_of_ge hge⟩
  | cons m rest =>
    rcases h with ⟨-, -, hnil⟩ | ⟨c, unread, i, j, rfl, hlines, hptr, hat, hword⟩
    · cases hnil
    · obtain ⟨r', unread', hpop, hat'⟩ := hat.tryPop hlines hword
      exact Or.inr ⟨m, rest, r', rfl, hpop, Or.inr
        ⟨c, unread', i + 1, j, rfl, hlines, hptr, hat', hword⟩⟩

end Holds

end Ring

end Csics.Queue
