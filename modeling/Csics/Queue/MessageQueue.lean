import Csics.Queue.Blocks
import Csics.Queue.Capacity
import Csics.Queue.Steps

/-!
# The message queue

`SPSCMessageQueue` of `queue/SPSCMessageQueue.hpp`: an `SPSCQueue` whose messages are objects of one
type `T`. An object is its object representation, `sizeof(T)` bytes. `try_push` constructs a copy in
the slot it acquires, and `try_pop` moves the object out of its slot and destroys it.

A `Messages` is a queue with the objects that were pushed and not popped. They lie in consecutive
blocks of the same size (`Messages.At`), so the place of the next one is known. `tryPush_cases` and
`tryPop_cases` say what the two calls do.
-/

namespace Csics.Queue

open Base
open QueueSlotHeader (sizeof)

/-! ## Objects -/

/-- An object of a type with `sizeof(T) = size`. -/
@[ext]
structure Object (size : UInt64) where
  bytes : List UInt8
  length_eq : bytes.length = size.toNat

/-- The object whose bytes are all the same. -/
def Object.replicate (size : UInt64) (x : UInt8) : Object size :=
  ⟨List.replicate size.toNat x, List.length_replicate⟩

/-- `new (slot.data) T(value)`. -/
def SPSCQueue.construct {size : UInt64} (q : SPSCQueue) (slot : Slot) (value : Object size) :
    SPSCQueue :=
  match slot.data with
  | some pos => { q with buffer := q.buffer.store pos value.bytes }
  | none => q

/-! ## The queue -/

/-- `SPSCMessageQueue<T>` with `sizeof(T) = size`. -/
structure SPSCMessageQueue (size : UInt64) where
  queue : SPSCQueue

namespace SPSCMessageQueue

/-- `read_size`. -/
def readSize (kCacheLineSize size : UInt64) : UInt64 :=
  if size > kCacheLineSize then size + (kCacheLineSize - size % kCacheLineSize)
  else kCacheLineSize

/-- The `capacity_` of the queue for `capacity` messages. -/
def ringCapacity (kCacheLineSize size capacity : UInt64) : UInt64 :=
  max kCacheLineSize (getNextPowerOfTwo (capacity * readSize kCacheLineSize size))

/-- `SPSCMessageQueue(capacity)`. -/
def make (kCacheLineSize size capacity : UInt64) (buffer : Mem) : SPSCMessageQueue size :=
  ⟨.make kCacheLineSize (capacity * readSize kCacheLineSize size) buffer⟩

variable {size : UInt64}

/-- `try_push(value)`. The two overloads differ in how they construct the object only. -/
def tryPush (kCacheLineSize : UInt64) (q : SPSCMessageQueue size) (value : Object size) :
    SPSCError × SPSCMessageQueue size :=
  match q.queue.acquireWrite .init size with
  | (.none, slot, queue) => (.none, ⟨(queue.construct slot value).commitWrite kCacheLineSize slot⟩)
  | (ret, _, queue) => (ret, ⟨queue⟩)

/-- `try_pop(msg)`, with the object that is moved to `msg`. -/
def tryPop (kCacheLineSize : UInt64) (q : SPSCMessageQueue size) :
    SPSCError × Option (Object size) × SPSCMessageQueue size :=
  match q.queue.acquireRead .init with
  | (.none, slot, queue) =>
    (.none, slot.data.map fun pos => ⟨queue.buffer.load pos size.toNat, Mem.length_load _ _ _⟩,
      ⟨queue.commitRead kCacheLineSize slot⟩)
  | (ret, _, queue) => (ret, none, ⟨queue⟩)

/-- Without a message the queue stays as it is. -/
theorem tryPop_of_ge {kCacheLineSize : UInt64} {q : SPSCMessageQueue size}
    (hge : q.queue.readIndex ≥ q.queue.writeIndex) :
    q.tryPop kCacheLineSize = (.empty, none, q) := by
  unfold tryPop SPSCQueue.acquireRead
  rw [if_pos hge]

end SPSCMessageQueue

/-- A queue with the objects that were pushed and not popped, the oldest one first. -/
structure Messages (size : UInt64) where
  queue : SPSCMessageQueue size
  stored : List (Object size)

/-- The two calls. -/
inductive MessageOp (size : UInt64) where
  | tryPush (value : Object size)
  | tryPop

namespace Messages

variable {size : UInt64}

/-- The state after the constructor. -/
def init (kCacheLineSize capacity : UInt64) (buffer : Mem) : Messages size :=
  ⟨.make kCacheLineSize size capacity buffer, []⟩

/-- One call. -/
def step (kCacheLineSize : UInt64) (s : Messages size) : MessageOp size → Option (Messages size)
  | .tryPush value =>
    match s.queue.tryPush kCacheLineSize value with
    | (.none, queue) => some ⟨queue, s.stored ++ [value]⟩
    | (_, queue) => some ⟨queue, s.stored⟩
  | .tryPop =>
    match s.queue.tryPop kCacheLineSize with
    | (.none, _, queue) => some ⟨queue, s.stored.tail⟩
    | (_, _, queue) => some ⟨queue, s.stored⟩

end Messages

/-! ## The blocks of the messages -/

variable {c : Config} {size : UInt64} {s : Messages size} {i j : Nat}

/-- The grant is for an object of `size` bytes, and has a pad header exactly if the slot would run
over the end of the ring. -/
structure Grant.Regular (c : Config) (size : Nat) (g : Grant) : Prop where
  size_eq : g.size = size
  pad_iff : g.pad.isSome ↔ c.size < g.begin.toNat % c.size + size + 8

theorem stopIndex_of_regular {g : Grant} {n b : Nat} (hfit : Fitted c b g) (h : g.Regular c n) :
    stopIndex c b g = nextIndex c n b := by
  have hiff := h.pad_iff
  rw [hfit.begin_eq, c.mod_word_mod] at hiff
  unfold stopIndex nextIndex bodyIndex
  rw [h.size_eq]
  cases hpad : g.pad with
  | none =>
    rw [hpad] at hiff
    rw [if_neg fun hlt => absurd (hiff.mpr hlt) (by decide)]
  | some p =>
    rw [hpad] at hiff
    rw [if_pos (hiff.mp rfl)]

/-- A message that begins with a block ends with it. -/
theorem stopIndex_blockIndex {g : Grant} {n : Nat} (hline : 16 ≤ c.line)
    (hfit : Fitted c (blockIndex c n i) g) (h : g.Regular c n) :
    stopIndex c (blockIndex c n i) g = blockIndex c n (i + 1) := by
  have hslot : n + 8 ≤ c.size := h.size_eq ▸ hfit.size_lt
  rw [← nextIndex_blockIndex hline hslot]
  exact stopIndex_of_regular hfit h

theorem grant_regular {s : System} {a b : Nat} (h : InvAt c s a b) {size : UInt64}
    (hg : InvAt.Granted s size) : (s.queue.grant size).Regular c size.toNat := by
  have hbegin : (s.queue.grant size).begin.toNat % c.size = b % c.size := by
    rw [(h.grant_fitted hg).begin_eq, c.mod_word_mod]
  refine ⟨h.grant_size hg, ?_⟩
  rw [hbegin, h.grant_eq hg]
  split
  · rename_i hwrap
    exact iff_of_true rfl hwrap
  · rename_i hfit
    exact iff_of_false Bool.false_ne_true hfit

/-- The queue as a system between two calls. -/
def Messages.system (s : Messages size) (unread : List Message) : System :=
  ⟨s.queue.queue, none, none, unread⟩

/-- The stored objects are in the blocks from `i` on, and the next one goes to block `j`. -/
structure Messages.At (c : Config) (s : Messages size) (i j : Nat) : Prop where
  count : i + s.stored.length = j
  near : blockIndex c size.toNat j ≤ blockIndex c size.toNat i + c.size + c.line
  inv : ∃ unread,
    InvAt c (s.system unread) (blockIndex c size.toNat i) (blockIndex c size.toNat j) ∧
    unread.map Message.data = s.stored.map Object.bytes ∧
    ∀ m ∈ unread, m.grant.Regular c size.toNat

/-- A granted request is filled with the object and committed. -/
theorem tryPush_of_granted {q : SPSCQueue} {unread : List Message} {a b : Nat}
    (hinv : InvAt c ⟨q, none, none, unread⟩ a b)
    (hg : InvAt.Granted ⟨q, none, none, unread⟩ size) (value : Object size) :
    ∃ q', SPSCMessageQueue.tryPush c.kCacheLineSize ⟨q⟩ value = (.none, ⟨q'⟩) ∧
      InvAt c ⟨q', none, none, unread ++ [⟨q.grant size, value.bytes⟩]⟩ a
        (stopIndex c b (q.grant size)) := by
  obtain ⟨q₁, hacquire, hinv'⟩ := hinv.exists_acquireWrite hg value.length_eq
  refine ⟨_, ?_, hinv'⟩
  unfold SPSCMessageQueue.tryPush
  rw [hacquire]
  rfl

/-- The oldest message is moved out and released. -/
theorem tryPop_of_laid {q : SPSCQueue} {m : Message} {rest : List Message} {a b : Nat}
    (hinv : InvAt c ⟨q, none, none, m :: rest⟩ a b) (hlt : ¬ q.readIndex ≥ q.writeIndex)
    (hsize : m.grant.size = size.toNat) {value : Object size} (hvalue : value.bytes = m.data) :
    ∃ q', SPSCMessageQueue.tryPop c.kCacheLineSize ⟨q⟩ = (.none, some value, ⟨q'⟩) ∧
      InvAt c ⟨q', none, none, rest⟩ (stopIndex c a m.grant) b := by
  obtain ⟨q₁, hacquire, hload, hinv'⟩ := hinv.exists_acquireRead hlt
  refine ⟨_, ?_, hinv'⟩
  have hobject : (⟨q₁.buffer.load (m.grant.header + 8) size.toNat, Mem.length_load _ _ _⟩ :
      Object size) = value := by
    apply Object.ext
    show q₁.buffer.load (m.grant.header + 8) size.toNat = value.bytes
    rw [hvalue, ← hload, hsize]
  unfold SPSCMessageQueue.tryPop
  rw [hacquire, ← hobject]
  rfl

/-- The bytes in use and the next slot leave a byte of the ring free. -/
def Accepts (c : Config) (size i j : Nat) : Prop :=
  blockIndex c size j - blockIndex c size i + size + 8 < c.size

namespace Messages.At

theorem init {kCacheLineSize capacity : UInt64}
    (hcapacity : c.capacity = SPSCMessageQueue.ringCapacity kCacheLineSize size capacity)
    (buffer : Mem) :
    Messages.At c (.init kCacheLineSize capacity buffer : Messages size) 0 0 := by
  have hinv := init_inv c buffer
  have hzero : blockIndex c size.toNat 0 = 0 := by
    rw [blockIndex_first (Nat.zero_le _), Nat.zero_mul]
  refine ⟨rfl, by omega, [], ?_, rfl, fun m hm => absurd hm List.not_mem_nil⟩
  rw [hzero]
  rw [hcapacity] at hinv
  exact hinv

section

variable (hptr : c.size < 2 ^ 63) (h : s.At c i j)

include h

theorem le : blockIndex c size.toNat i ≤ blockIndex c size.toNat j := by
  obtain ⟨unread, hinv, -⟩ := h.inv
  exact hinv.laid.le

include hptr

/-- The queue turns the next message down when it would not leave a byte free. -/
theorem rejected_iff (unread : List Message) :
    (s.system unread).Rejected size ↔ ¬ Accepts c size.toNat i j := by
  obtain ⟨_, hinv, -⟩ := h.inv
  have hle := h.le
  have hnear := h.near
  have hlt := hinv.lt
  have hcap := c.size_le_of_lt hptr
  have hline := Nat.le_of_dvd c.size_pos c.line_dvd
  have hread : s.queue.queue.readIndex.toNat = _ := hinv.toNat_readIndex rfl rfl
  have hwrite : s.queue.queue.writeIndex.toNat = _ := hinv.idle rfl
  have hsub : (s.queue.queue.writeIndex - s.queue.queue.readIndex).toNat =
      blockIndex c size.toNat j - blockIndex c size.toNat i := by
    rw [UInt64.toNat_sub, hread, hwrite]
    omega
  have hcapacity : s.queue.queue.capacity.toNat = c.size := congrArg _ hinv.capacity_eq
  have h8 : sizeof.toNat = 8 := rfl
  unfold System.Rejected Accepts
  rw [gt_iff_lt, ge_iff_le, UInt64.lt_iff_toNat_lt, UInt64.le_iff_toNat_le, UInt64.toNat_add,
    UInt64.toNat_add]
  show s.queue.queue.capacity.toNat < size.toNat ∨ s.queue.queue.capacity.toNat ≤
    ((s.queue.queue.writeIndex - s.queue.queue.readIndex).toNat + _) % _ ↔ _
  rw [hsub, hcapacity, h8]
  by_cases hsize : c.size < size.toNat
  · exact iff_of_true (Or.inl hsize) (by omega)
  · rw [or_iff_right hsize, Nat.mod_eq_of_lt (by omega), Nat.mod_eq_of_lt (by omega)]
    omega

end

section

variable (hline : 16 ≤ c.line) (h : s.At c i j)

include hline h

/-- A message that the fullness test lets through has room behind a wrap too. -/
theorem fits (haccepts : Accepts c size.toNat i j) {unread : List Message}
    (hinv : InvAt c (s.system unread) (blockIndex c size.toNat i) (blockIndex c size.toNat j)) :
    (s.system unread).Fits size := by
  unfold Accepts at haccepts
  have hle := h.le
  have hslot : size.toNat + 8 ≤ c.size := by omega
  have hblock := le_blockSize c size.toNat
  rw [hinv.fits_iff rfl size]
  split
  · -- the oldest message is in the lap that ends here, behind its first slot
    have hi := Nat.div_add_mod (blockIndex c size.toNat j) c.size
    have hmod : blockIndex c size.toNat i % c.size =
        blockIndex c size.toNat j % c.size -
          (blockIndex c size.toNat j - blockIndex c size.toNat i) := by
      have hlt := Nat.mod_lt (blockIndex c size.toNat j) c.size_pos
      rw [show blockIndex c size.toNat i = c.size * (blockIndex c size.toNat j / c.size) +
        (blockIndex c size.toNat j % c.size -
          (blockIndex c size.toNat j - blockIndex c size.toNat i)) by omega, Nat.mul_add_mod]
      rw [Nat.mod_eq_of_lt (by omega)]
      omega
    rcases blockIndex_mod hline hslot i with hzero | hge <;> omega
  · omega

/-- The next block begins where the message ends, and within one revolution and a line. -/
theorem near_succ (haccepts : Accepts c size.toNat i j) {unread : List Message}
    (hinv : InvAt c (s.system unread) (blockIndex c size.toNat i) (blockIndex c size.toNat j)) :
    blockIndex c size.toNat (j + 1) ≤ blockIndex c size.toNat i + c.size + c.line := by
  have hfits := (hinv.fits_iff rfl size).mp (h.fits hline haccepts hinv)
  have hle := h.le
  have hslot : size.toNat + 8 ≤ c.size := by
    unfold Accepts at haccepts
    omega
  have hdvd : c.line ∣ blockIndex c size.toNat i + c.size + c.line :=
    Nat.dvd_add (Nat.dvd_add (dvd_blockIndex c size.toNat i) c.line_dvd) (Nat.dvd_refl _)
  rw [← nextIndex_blockIndex hline hslot j]
  unfold nextIndex
  split
  · rename_i hwrap
    have hlap := lapEnd_eq c.size_pos (blockIndex c size.toNat j)
    rw [if_pos hwrap] at hfits
    exact roundUp_le c.line_pos hdvd (by omega)
  · exact roundUp_le c.line_pos hdvd (by omega)

end

section

variable (hline : 16 ≤ c.line) (hptr : c.size < 2 ^ 63) (hsize : size ≠ 0) (h : s.At c i j)

include hline hptr hsize h

/-- The request for a message that leaves a byte free is granted. -/
theorem granted (haccepts : Accepts c size.toNat i j) {unread : List Message}
    (hinv : InvAt c (s.system unread) (blockIndex c size.toNat i) (blockIndex c size.toNat j)) :
    InvAt.Granted (s.system unread) size := by
  have haccepted : ¬ (s.system unread).Rejected size := by
    rw [h.rejected_iff hptr, not_not]
    exact haccepts
  exact ⟨rfl, hsize, haccepted, h.fits hline haccepts hinv⟩

theorem stopIndex_grant (haccepts : Accepts c size.toNat i j) {unread : List Message}
    (hinv : InvAt c (s.system unread) (blockIndex c size.toNat i) (blockIndex c size.toNat j)) :
    stopIndex c (blockIndex c size.toNat j) (s.queue.queue.grant size) =
      blockIndex c size.toNat (j + 1) := by
  have hg := h.granted hline hptr hsize haccepts hinv
  exact stopIndex_blockIndex hline (hinv.grant_fitted hg) (grant_regular hinv hg)

/-- A message that leaves a byte free is stored. -/
theorem tryPush_of_accepts (haccepts : Accepts c size.toNat i j) (value : Object size) :
    ∃ q, s.queue.tryPush c.kCacheLineSize value = (.none, q) ∧
      Messages.At c ⟨q, s.stored ++ [value]⟩ i (j + 1) := by
  obtain ⟨unread, hinv, hdata, hregular⟩ := h.inv
  have hg := h.granted hline hptr hsize haccepts hinv
  have hstop := h.stopIndex_grant hline hptr hsize haccepts hinv
  obtain ⟨q, hpush, hinv'⟩ := tryPush_of_granted hinv hg value
  have hcount := h.count
  refine ⟨⟨q⟩, hpush, ?_, h.near_succ hline haccepts hinv,
    unread ++ [⟨s.queue.queue.grant size, value.bytes⟩], hstop ▸ hinv', ?_, ?_⟩
  · rw [List.length_append, List.length_singleton, ← Nat.add_assoc, hcount]
  · rw [List.map_append, List.map_append, hdata]
    rfl
  · intro m hm
    rcases List.mem_append.mp hm with hm | hm
    · exact hregular m hm
    · rw [List.mem_singleton.mp hm]
      exact grant_regular hinv hg

end

/-- Any other message is turned down. -/
theorem tryPush_of_not_accepts (hptr : c.size < 2 ^ 63) (h : s.At c i j)
    (hnot : ¬ Accepts c size.toNat i j) (kCacheLineSize : UInt64) (value : Object size) :
    ∃ err, err ≠ .none ∧ s.queue.tryPush kCacheLineSize value = (err, s.queue) := by
  have hrejected := (h.rejected_iff hptr []).mpr hnot
  obtain ⟨err, herr, hacquire⟩ := System.acquireWrite_of_rejected hrejected .init
  have hacquire' : s.queue.queue.acquireWrite .init size = (err, .init, s.queue.queue) := hacquire
  refine ⟨err, herr, ?_⟩
  unfold SPSCMessageQueue.tryPush
  rw [hacquire']
  cases err with
  | none => exact absurd rfl herr
  | full | empty | tooBig => rfl

theorem tryPush_eq_none_iff (hline : 16 ≤ c.line) (hptr : c.size < 2 ^ 63) (hsize : size ≠ 0)
    (h : s.At c i j) (value : Object size) :
    (s.queue.tryPush c.kCacheLineSize value).1 = .none ↔ Accepts c size.toNat i j := by
  constructor
  · intro hnone
    by_contra hnot
    obtain ⟨err, herr, hpush⟩ := h.tryPush_of_not_accepts hptr hnot c.kCacheLineSize value
    rw [hpush] at hnone
    exact herr hnone
  · intro haccepts
    obtain ⟨q, hpush, -⟩ := h.tryPush_of_accepts hline hptr hsize haccepts value
    rw [hpush]

/-- The indices tell that an object is stored, as long as they have not wrapped around. -/
theorem readIndex_lt (h : s.At c i j) (hlt : i < j)
    (hword : blockIndex c size.toNat j < 2 ^ 64) :
    ¬ s.queue.queue.readIndex ≥ s.queue.queue.writeIndex := by
  obtain ⟨unread, hinv, hdata, -⟩ := h.inv
  have hread : s.queue.queue.readIndex.toNat = _ := hinv.toNat_readIndex rfl rfl
  have hwrite : s.queue.queue.writeIndex.toNat = _ := hinv.idle rfl
  have hcount := h.count
  have hlength := congrArg List.length hdata
  rw [List.length_map, List.length_map] at hlength
  cases unread with
  | nil =>
    rw [List.length_nil] at hlength
    omega
  | cons m rest =>
    have hlaid : Laid c _ _ (m :: rest) _ := hinv.laid
    have hbody := begin_le_body (c := c) (b := blockIndex c size.toNat i) (g := m.grant)
    have hstop := bodyIndex_lt_stop (c := c) (b := blockIndex c size.toNat i) (g := m.grant)
    have hle := hlaid.2.2.le
    rw [ge_iff_le, UInt64.le_iff_toNat_le, hread, hwrite]
    omega

/-- The oldest object is popped, when the indices tell that there is one. -/
theorem tryPop_of_lt (hline : 16 ≤ c.line) (h : s.At c i j)
    (hlt : ¬ s.queue.queue.readIndex ≥ s.queue.queue.writeIndex) :
    ∃ value rest q, s.stored = value :: rest ∧
      s.queue.tryPop c.kCacheLineSize = (.none, some value, q) ∧
      Messages.At c ⟨q, rest⟩ (i + 1) j := by
  obtain ⟨unread, hinv, hdata, hregular⟩ := h.inv
  have hread : s.queue.queue.readIndex.toNat = _ := hinv.toNat_readIndex rfl rfl
  rcases hinv.acquireRead_idle hread hlt with ⟨m, rest, hunread, hplaced⟩ | ⟨w, -, -, hw, -⟩
  · have hu : unread = m :: rest := hunread
    subst hu
    have hm := hregular m List.mem_cons_self
    have hstop := stopIndex_blockIndex hline hplaced.toFitted hm
    obtain ⟨value, stored, hstored, hvalue, hrest⟩ := List.map_eq_cons_iff.mp hdata.symm
    obtain ⟨q, hpop, hinv'⟩ := tryPop_of_laid hinv hlt hm.size_eq hvalue
    rw [hstop] at hinv'
    have hcount := h.count
    have hle := hinv'.laid.le
    have hnear := h.near
    refine ⟨value, stored, ⟨q⟩, hstored, hpop, ?_, ?_, rest, hinv', hrest.symm, ?_⟩
    · rw [hstored, List.length_cons] at hcount
      show i + 1 + stored.length = j
      omega
    · have hadd := bodyIndex_lt_stop (c := c) (b := blockIndex c size.toNat i) (g := m.grant)
      have hbody := begin_le_body (c := c) (b := blockIndex c size.toNat i) (g := m.grant)
      omega
    · intro m' hm'
      exact hregular m' (List.mem_cons_of_mem _ hm')
  · cases hw

/-- Every call moves the stored objects along their blocks. -/
theorem step (hline : 16 ≤ c.line) (hptr : c.size < 2 ^ 63) (hsize : size ≠ 0) {t : Messages size}
    {op : MessageOp size} (h : s.At c i j) (ht : s.step c.kCacheLineSize op = some t) :
    ∃ i' j', t.At c i' j' := by
  cases op with
  | tryPush value =>
    by_cases haccepts : Accepts c size.toNat i j
    · obtain ⟨q, hpush, h'⟩ := h.tryPush_of_accepts hline hptr hsize haccepts value
      rw [Messages.step, hpush] at ht
      cases ht
      exact ⟨i, j + 1, h'⟩
    · obtain ⟨err, herr, hpush⟩ := h.tryPush_of_not_accepts hptr haccepts c.kCacheLineSize value
      rw [Messages.step, hpush] at ht
      cases err with
      | none => exact absurd rfl herr
      | full | empty | tooBig =>
        cases ht
        exact ⟨i, j, h⟩
  | tryPop =>
    by_cases hge : s.queue.queue.readIndex ≥ s.queue.queue.writeIndex
    · rw [Messages.step, SPSCMessageQueue.tryPop_of_ge hge] at ht
      cases ht
      exact ⟨i, j, h⟩
    · obtain ⟨value, rest, q, hstored, hpop, h'⟩ := h.tryPop_of_lt hline hge
      rw [Messages.step, hpop, hstored] at ht
      cases ht
      exact ⟨i + 1, j, h'⟩

end Messages.At

end Csics.Queue
