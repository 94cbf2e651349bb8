import Csics.Base.Run
import Csics.Queue.MessageQueue

/-!
# Does a message queue hold its capacity

`read_size` is meant to make room for the number of messages that the constructor is given. It
leaves out the header of a message, the bytes at the end of the ring that a wrap skips, and the byte
that must stay free. Whether there is room nevertheless is decided by the three sizes alone
(`RoomFor`), and where it says no, some run reaches a queue that turns a message down too early
(`holdsCapacity_iff`).

For the one direction the blocks in use are never further apart than `blockIndex_add_le` allows. For
the other one, messages are pushed and popped until the blocks of the stored ones lie on both sides
of the end of the ring.

Blocks that fill the ring make the queue a bounded FIFO (`run_tryPush_iff`, `run_tryPop_cases`).
-/

namespace Csics.Queue

open Base

/-! ## The property and the condition -/

/-- In every state that the two calls reach, with fewer than `capacity` messages stored, `try_push`
returns `None`. -/
def HoldsCapacity (kCacheLineSize size capacity : UInt64) : Prop :=
  ∀ (buffer : Mem) (ops : List (MessageOp size)) (s : Messages size) (value : Object size),
    run (Messages.step kCacheLineSize) (.init kCacheLineSize capacity buffer) ops = some s →
      s.stored.length < capacity.toNat → (s.queue.tryPush kCacheLineSize value).1 = .none

/-- The messages before the last one take `message` bytes each, and the first one behind the end of
the ring takes what the end leaves over and `wrapped` bytes. Behind them there is room for one more
slot, and a byte stays free. -/
def RoomFor (kCacheLineSize size capacity ringSize : Nat) : Prop :=
  let message := roundUp kCacheLineSize (size + 8)
  let wrapped := roundUp kCacheLineSize (size + 24)
  let gap := if capacity < 2 ∨ ringSize % message = 0 then 0
    else ringSize % message + (wrapped - message)
  (capacity - 1) * message + gap + size + 8 < ringSize

instance (kCacheLineSize size capacity ringSize : Nat) :
    Decidable (RoomFor kCacheLineSize size capacity ringSize) :=
  inferInstanceAs (Decidable (_ < _))

variable {c : Config} {size : UInt64} {capacity i j : Nat}

theorem roomFor_one : RoomFor c.line size.toNat 1 c.size ↔ size.toNat + 8 < c.size := by
  unfold RoomFor
  simp

theorem roomFor_of_two_le (h : 2 ≤ capacity) : RoomFor c.line size.toNat capacity c.size ↔
    (capacity - 1) * blockSize c size.toNat + lapGap c size.toNat + size.toNat + 8 < c.size := by
  have hnot : ¬ capacity < 2 := Nat.not_lt.mpr h
  unfold RoomFor
  simp only [hnot, false_or]
  rfl

/-! ## The condition suffices -/

/-- Fewer messages than the capacity leave room for another one. -/
theorem RoomFor.accepts (hline : 16 ≤ c.line) (hroom : RoomFor c.line size.toNat capacity c.size)
    (hle : i ≤ j) (hlt : j - i < capacity) : Accepts c size.toNat i j := by
  unfold Accepts
  by_cases htwo : 2 ≤ capacity
  · have hmul := Nat.mul_le_mul_right (blockSize c size.toNat)
      (show j - i ≤ capacity - 1 by omega)
    rw [roomFor_of_two_le htwo] at hroom
    have hfit : j - i ≤ perLap c size.toNat := by
      unfold perLap
      rw [Nat.le_div_iff_mul_le (blockSize_pos c size.toNat)]
      omega
    have hadd := blockIndex_add_le hline (by omega) hfit i
    rw [Nat.add_sub_cancel' hle] at hadd
    omega
  · obtain rfl : capacity = 1 := by omega
    obtain rfl : i = j := by omega
    rw [roomFor_one] at hroom
    omega

/-! ## The condition is necessary -/

/-- Some run stores the messages of the blocks from `i` to `j`. -/
def Reachable (c : Config) (size capacity : UInt64) (i j : Nat) : Prop :=
  ∃ (ops : List (MessageOp size)) (s : Messages size),
    run (Messages.step c.kCacheLineSize) (.init c.kCacheLineSize capacity fun _ => 0) ops = some s ∧
      s.At c i j

namespace Reachable

variable {count : UInt64}

theorem step {op : MessageOp size} {ops : List (MessageOp size)} {s t : Messages size}
    (hrun : run (Messages.step c.kCacheLineSize) (.init c.kCacheLineSize count fun _ => 0) ops =
      some s) (ht : s.step c.kCacheLineSize op = some t) (h : t.At c i j) :
    Reachable c size count i j := by
  refine ⟨ops ++ [op], t, ?_, h⟩
  rw [run_append, hrun]
  show run _ s [op] = some t
  rw [run_cons, ht]
  rfl

/-- Where the queue holds its capacity, it lets a message in while fewer are stored. -/
theorem push (hline : 16 ≤ c.line) (hptr : c.size < 2 ^ 63) (hsize : size ≠ 0)
    (hholds : HoldsCapacity c.kCacheLineSize size count) (h : Reachable c size count i j)
    (hlt : j - i < count.toNat) : Accepts c size.toNat i j ∧ Reachable c size count i (j + 1) := by
  obtain ⟨ops, s, hrun, hat⟩ := h
  have hcount := hat.count
  have hnone := hholds _ ops s (.replicate size 0) hrun (by omega)
  have haccepts := (hat.tryPush_eq_none_iff hline hptr hsize _).mp hnone
  obtain ⟨q, hpush, hat'⟩ := hat.tryPush_of_accepts hline hptr hsize haccepts (.replicate size 0)
  have hstep : s.step c.kCacheLineSize (.tryPush (.replicate size 0)) =
      some ⟨q, s.stored ++ [.replicate size 0]⟩ := by
    rw [Messages.step, hpush]
  exact ⟨haccepts, step hrun hstep hat'⟩

theorem pop (hline : 16 ≤ c.line) (h : Reachable c size count i j) (hlt : i < j)
    (hword : blockIndex c size.toNat j < 2 ^ 64) : Reachable c size count (i + 1) j := by
  obtain ⟨ops, s, hrun, hat⟩ := h
  have hindices := hat.readIndex_lt hlt hword
  obtain ⟨value, rest, q, hstored, hpop, hat'⟩ := hat.tryPop_of_lt hline hindices
  have hstep : s.step c.kCacheLineSize .tryPop = some ⟨q, rest⟩ := by
    rw [Messages.step, hpop, hstored]
    rfl
  exact step hrun hstep hat'

section

variable (hline : 16 ≤ c.line) (hptr : c.size < 2 ^ 63) (hsize : size ≠ 0)
  (hholds : HoldsCapacity c.kCacheLineSize size count)

include hline hptr hsize hholds

/-- A message after the other goes through the first lap. -/
theorem drained (hpos : 0 < count.toNat) (h : Reachable c size count 0 0)
    (hi : i ≤ perLap c size.toNat) : Reachable c size count i i := by
  induction i with
  | zero => exact h
  | succ i ih =>
    obtain ⟨-, hpushed⟩ := (ih (by omega)).push hline hptr hsize hholds (by omega)
    refine hpushed.pop hline (Nat.lt_succ_self i) ?_
    have hmul := Nat.mul_le_mul_right (blockSize c size.toNat) hi
    have hlap := perLap_mul_add c size.toNat
    rw [blockIndex_first hi]
    omega

/-- The queue is filled from there. -/
theorem filled {n : Nat} (h : Reachable c size count i i) (hn : n ≤ count.toNat) :
    Reachable c size count i (i + n) := by
  induction n with
  | zero => exact h
  | succ n ih => exact ((ih (by omega)).push hline hptr hsize hholds (by omega)).2

/-- A queue that holds its capacity has room for it. -/
theorem roomFor (hpos : 0 < count.toNat) (h : Reachable c size count 0 0) :
    RoomFor c.line size.toNat count.toNat c.size := by
  have haccepts {i n : Nat} (hi : i ≤ perLap c size.toNat) (hn : n < count.toNat) :
      Accepts c size.toNat i (i + n) :=
    (((h.drained hline hptr hsize hholds hpos hi).filled hline hptr hsize hholds hn.le).push hline
      hptr hsize hholds (by omega)).1
  by_cases htwo : 2 ≤ count.toNat
  · -- the blocks that fill the first lap leave no room for another slot
    have hfit : count.toNat - 1 ≤ perLap c size.toNat := by
      by_contra hlt
      have hfirst := haccepts (i := 0) (n := perLap c size.toNat) (Nat.zero_le _) (by omega)
      have hlap := perLap_mul_add c size.toNat
      have hrest := lapRest_lt_slot c size.toNat
      unfold Accepts at hfirst
      rw [Nat.zero_add, blockIndex_first le_rfl, blockIndex_first (Nat.zero_le _)] at hfirst
      omega
    obtain ⟨i, hi, hgap⟩ := exists_gap (by omega) hfit
    have hlast := haccepts (i := i) (n := count.toNat - 1) (by omega) (by omega)
    unfold Accepts at hlast
    rw [hgap] at hlast
    rw [roomFor_of_two_le htwo]
    omega
  · have hone : count.toNat = 1 := by omega
    have hfirst := haccepts (i := 0) (n := 0) (Nat.zero_le _) hpos
    unfold Accepts at hfirst
    rw [hone, roomFor_one]
    omega

end

end Reachable

/-! ## Whole runs -/

section

variable {kCacheLineSize size capacity : UInt64} {k : Nat} {buffer : Mem}
  {ops : List (MessageOp size)} {s : Messages size}

/-- The constants of a message queue. -/
theorem exists_messageConfig (hline : kCacheLineSize.toNat = 2 ^ k) (hk : 4 ≤ k)
    (size capacity : UInt64) : ∃ c : Config, c.kCacheLineSize = kCacheLineSize ∧
      c.capacity = SPSCMessageQueue.ringCapacity kCacheLineSize size capacity ∧ 16 ≤ c.line := by
  obtain ⟨c, rfl, hring⟩ := exists_config hline (by omega)
    (capacity * SPSCMessageQueue.readSize kCacheLineSize size)
  refine ⟨c, rfl, hring, ?_⟩
  rw [Config.line, hline]
  exact Nat.pow_le_pow_right (show 0 < 2 by omega) hk

/-- In every run the stored objects lie in blocks. -/
theorem exists_at_of_run (hline : 16 ≤ c.line) (hptr : c.size < 2 ^ 63) (hsize : size ≠ 0)
    (hring : c.capacity = SPSCMessageQueue.ringCapacity c.kCacheLineSize size capacity)
    (hrun : run (Messages.step c.kCacheLineSize) (.init c.kCacheLineSize capacity buffer) ops =
      some s) : ∃ i j, s.At c i j := by
  refine run_preserves (I := fun s => ∃ i j, Messages.At c s i j) ?_
    ⟨0, 0, .init hring buffer⟩ hrun
  rintro s op t ⟨i, j, hat⟩ ht
  exact hat.step hline hptr hsize ht

/-- Where whole blocks fill the ring and a byte of each stays free, the queue is a bounded FIFO: it
takes a message exactly if fewer than the blocks are stored. -/
theorem run_tryPush_iff (hline : kCacheLineSize.toNat = 2 ^ k) (hk : 4 ≤ k) (hsize : size ≠ 0)
    (hptr : (SPSCMessageQueue.ringCapacity kCacheLineSize size capacity).toNat < 2 ^ 63)
    (hfills : roundUp kCacheLineSize.toNat (size.toNat + 8) ∣
      (SPSCMessageQueue.ringCapacity kCacheLineSize size capacity).toNat)
    (hfree : size.toNat + 8 < roundUp kCacheLineSize.toNat (size.toNat + 8))
    (hrun : run (Messages.step kCacheLineSize) (.init kCacheLineSize capacity buffer) ops = some s)
    (value : Object size) : (s.queue.tryPush kCacheLineSize value).1 = .none ↔
      s.stored.length < (SPSCMessageQueue.ringCapacity kCacheLineSize size capacity).toNat /
        roundUp kCacheLineSize.toNat (size.toNat + 8) := by
  obtain ⟨c, rfl, hring, hlines⟩ := exists_messageConfig hline hk size capacity
  rw [← hring] at hptr hfills ⊢
  obtain ⟨i, j, hat⟩ := exists_at_of_run hlines hptr hsize hring hrun
  have hrest : lapRest c size.toNat = 0 := Nat.mod_eq_zero_of_dvd hfills
  have hcount := hat.count
  have hlap := perLap_mul_add c size.toNat
  rw [hat.tryPush_eq_none_iff hlines hptr hsize]
  unfold Accepts
  rw [blockIndex_of_lapRest hlines hrest, blockIndex_of_lapRest hlines hrest, ← hcount,
    Nat.add_mul, Nat.add_sub_cancel_left]
  show _ ↔ s.stored.length < perLap c size.toNat
  constructor
  · intro hlt
    by_contra hge
    have hmul := Nat.mul_le_mul_right (blockSize c size.toNat) (Nat.not_lt.mp hge)
    omega
  · intro hlt
    have hmul := Nat.mul_le_mul_right (blockSize c size.toNat) (Nat.succ_le_of_lt hlt)
    have hfree' : size.toNat + 8 < blockSize c size.toNat := hfree
    rw [Nat.succ_mul] at hmul
    omega

/-- What is popped is the oldest object, as it was pushed. -/
theorem run_tryPop_cases (hline : kCacheLineSize.toNat = 2 ^ k) (hk : 4 ≤ k) (hsize : size ≠ 0)
    (hptr : (SPSCMessageQueue.ringCapacity kCacheLineSize size capacity).toNat < 2 ^ 63)
    (hrun : run (Messages.step kCacheLineSize) (.init kCacheLineSize capacity buffer) ops =
      some s) : s.queue.tryPop kCacheLineSize = (.empty, none, s.queue) ∨
      ∃ value rest q, s.stored = value :: rest ∧
        s.queue.tryPop kCacheLineSize = (.none, some value, q) := by
  obtain ⟨c, rfl, hring, hlines⟩ := exists_messageConfig hline hk size capacity
  rw [← hring] at hptr
  obtain ⟨i, j, hat⟩ := exists_at_of_run hlines hptr hsize hring hrun
  by_cases hge : s.queue.queue.readIndex ≥ s.queue.queue.writeIndex
  · exact Or.inl (SPSCMessageQueue.tryPop_of_ge hge)
  · obtain ⟨value, rest, q, hstored, hpop, -⟩ := hat.tryPop_of_lt hlines hge
    exact Or.inr ⟨value, rest, q, hstored, hpop⟩

end

/-! ## The capacity -/

/-- The queue holds its capacity exactly if there is room for it. A cache line has 16 bytes or more,
since `hardware_destructive_interference_size` is not below the fundamental alignments, and
`operator new` does not give `2 ^ 63` bytes. -/
theorem holdsCapacity_iff {kCacheLineSize size capacity : UInt64} {k : Nat}
    (hline : kCacheLineSize.toNat = 2 ^ k) (hk : 4 ≤ k) (hsize : size ≠ 0)
    (hcapacity : capacity ≠ 0)
    (hptr : (SPSCMessageQueue.ringCapacity kCacheLineSize size capacity).toNat < 2 ^ 63) :
    HoldsCapacity kCacheLineSize size capacity ↔
      RoomFor kCacheLineSize.toNat size.toNat capacity.toNat
        (SPSCMessageQueue.ringCapacity kCacheLineSize size capacity).toNat := by
  obtain ⟨c, rfl, hring, hlines⟩ := exists_messageConfig hline hk size capacity
  have hpos : 0 < capacity.toNat := UInt64.pos_iff_ne_zero.mpr hcapacity
  rw [← hring] at hptr ⊢
  constructor
  · intro hholds
    exact Reachable.roomFor hlines hptr hsize hholds hpos
      ⟨[], _, rfl, .init hring fun _ => 0⟩
  · intro hroom buffer ops s value hrun hlt
    obtain ⟨i, j, hat⟩ := exists_at_of_run hlines hptr hsize hring hrun
    have hcount := hat.count
    rw [hat.tryPush_eq_none_iff hlines hptr hsize]
    exact hroom.accepts hlines (by omega) (by omega)

/-- Three objects of 40 bytes. -/
theorem holdsCapacity_iff_three : HoldsCapacity 64 40 3 :=
  (holdsCapacity_iff (k := 6) rfl (by omega) (by decide) (by decide) (by decide)).mpr (by decide)

/-- A queue for one object of 64 bytes turns it down. -/
theorem not_holdsCapacity_line : ¬ HoldsCapacity 64 64 1 := by
  intro h
  have hpush := h (fun _ => 0) [] _ (.replicate 64 0) rfl (by decide)
  exact absurd hpush (by decide)

end Csics.Queue
