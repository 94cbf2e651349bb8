import Csics.Queue.MessageQueue
import Csics.Queue.Safety

/-!
# One message after the other

A single thread that writes a message to an `SPSCQueue`, reads it back and releases it before it
writes the next one. Its queue is drained between two messages, so a message of at most half the
capacity always has room: where it would run over the end of the ring, more than half of the ring
lies before it.

Both indices go through `nextIndex`. `deliver_intact` is one message and `rounds_intact` any number
of them, as long as the indices do not wrap around.
-/

namespace Csics.Queue

open Base
open QueueSlotHeader (sizeof)

/-! ## The thread -/

/-- What the thread sees of one message: the answers of the two calls, the slot that it reads and
the queue that it leaves behind. -/
structure Delivery where
  written : SPSCError
  read : SPSCError
  size : UInt64
  data : List UInt8
  queue : SPSCQueue

namespace SPSCQueue

/-- `memcpy(slot.data, data, size)`. -/
def fill (q : SPSCQueue) (slot : Slot) (data : List UInt8) : SPSCQueue :=
  match slot.data with
  | some pos => { q with buffer := q.buffer.store pos data }
  | none => q

/-- The bytes of a slot. -/
def load (q : SPSCQueue) (slot : Slot) : List UInt8 :=
  match slot.data with
  | some pos => q.buffer.load pos slot.size.toNat
  | none => []

/-- A message is acquired, filled and committed, and then acquired and released by the reader. -/
def deliver (kCacheLineSize : UInt64) (q : SPSCQueue) (data : List UInt8) : Delivery :=
  let (written, ws, q) := q.acquireWrite .init (.ofNat data.length)
  let q := (q.fill ws data).commitWrite kCacheLineSize ws
  let (read, rs, q) := q.acquireRead .init
  ⟨written, read, rs.size, q.load rs, q.commitRead kCacheLineSize rs⟩

theorem deliver_of_none {line : UInt64} {q q₁ q₂ : SPSCQueue} {ws rs : Slot} {data : List UInt8}
    (hwrite : q.acquireWrite .init (.ofNat data.length) = (.none, ws, q₁))
    (hread : ((q₁.fill ws data).commitWrite line ws).acquireRead .init = (.none, rs, q₂)) :
    q.deliver line data = ⟨.none, .none, rs.size, q₂.load rs, q₂.commitRead line rs⟩ := by
  simp only [deliver, hwrite, hread]

/-- The messages in order. -/
def rounds (kCacheLineSize : UInt64) (q : SPSCQueue) : List (List UInt8) → List Delivery
  | [] => []
  | data :: rest =>
    let d := q.deliver kCacheLineSize data
    d :: d.queue.rounds kCacheLineSize rest

end SPSCQueue

/-! ## What a round is to do -/

/-- The message arrives, and the queue is empty again and begins at a cache line. -/
structure Delivery.Intact (kCacheLineSize : UInt64) (data : List UInt8) (d : Delivery) : Prop where
  written : d.written = .none
  read : d.read = .none
  size_eq : d.size.toNat = data.length
  data_eq : d.data = data
  drained : d.queue.readIndex = d.queue.writeIndex
  aligned : kCacheLineSize.toNat ∣ d.queue.readIndex.toNat

/-- The index behind messages of these sizes, the first of which begins at index `b`. It is the
value of both indices after the rounds when they are not reduced modulo `2^64`. -/
def endIndex (c : Config) (b : Nat) (sizes : List Nat) : Nat :=
  sizes.foldl (fun b size => nextIndex c size b) b

variable {c : Config} {q : SPSCQueue} {size : UInt64} {data : List UInt8} {b n : Nat}

theorem le_nextIndex : b ≤ nextIndex c n b := by
  unfold nextIndex
  split
  · have hup := le_roundUp c.line_pos (lapEnd c.size b + 16 + n + 8)
    have hlap := lapEnd_eq c.size_pos b
    omega
  · have hup := le_roundUp c.line_pos (b + n + 8)
    omega

theorem le_endIndex (sizes : List Nat) : b ≤ endIndex c b sizes := by
  induction sizes generalizing b with
  | nil => exact le_rfl
  | cons n sizes ih => exact le_nextIndex.trans ih

/-! ## One round -/

/-- A drained queue has room for a message of half its capacity. -/
theorem granted_of_half (hinv : InvAt c ⟨q, none, none, []⟩ b b) (hsize : size ≠ 0)
    (hhalf : size.toNat + 8 ≤ c.size / 2) : InvAt.Granted ⟨q, none, none, []⟩ size := by
  have hc := c.size_le
  have hpos := c.size_pos
  have h8 : sizeof.toNat = 8 := rfl
  have hcap : q.capacity = c.capacity := hinv.capacity_eq
  have hread : q.readIndex.toNat = b % 2 ^ 64 := hinv.toNat_readIndex rfl rfl
  have hwrite : q.writeIndex.toNat = b % 2 ^ 64 := hinv.idle rfl
  have hindices : q.writeIndex = q.readIndex := UInt64.toNat_inj.mp (hwrite.trans hread.symm)
  refine ⟨rfl, hsize, ?_, ?_⟩
  · rintro (hgt | hge)
    · have hlt : c.size < size.toNat := by
        have hlt := UInt64.lt_iff_toNat_lt.mp hgt
        rwa [hcap] at hlt
      omega
    · have hle : c.size ≤ (size.toNat + 8) % 2 ^ 64 := by
        have hle := UInt64.le_iff_toNat_le.mp hge
        rwa [hcap, hindices, UInt64.sub_self, UInt64.zero_add, UInt64.toNat_add, h8] at hle
      omega
  · -- a slot that wraps begins in the second half of the ring
    have hmod := Nat.mod_lt b hpos
    rw [hinv.fits_iff rfl]
    split <;> omega

/-- One message goes through a drained queue. -/
theorem deliver_intact (hinv : InvAt c ⟨q, none, none, []⟩ b b) (hone : 1 ≤ data.length)
    (hhalf : data.length + 8 ≤ c.size / 2) (hword : nextIndex c data.length b < 2 ^ 64) :
    (q.deliver c.kCacheLineSize data).Intact c.kCacheLineSize data ∧
      InvAt c ⟨(q.deliver c.kCacheLineSize data).queue, none, none, []⟩
        (nextIndex c data.length b) (nextIndex c data.length b) := by
  have hc := c.size_le
  have htoNat : (UInt64.ofNat data.length).toNat = data.length := by
    rw [UInt64.toNat_ofNat']
    exact Nat.mod_eq_of_lt (by omega)
  have hne : UInt64.ofNat data.length ≠ 0 := by
    intro hzero
    rw [hzero, UInt64.toNat_zero] at htoNat
    omega
  have hg := granted_of_half hinv hne (htoNat.symm ▸ hhalf)
  have hfitted : Fitted c b (q.grant (.ofNat data.length)) := hinv.grant_fitted hg
  have hsize : (q.grant (.ofNat data.length)).size = data.length :=
    (hinv.grant_size hg).trans htoNat
  have hstop : stopIndex c b (q.grant (.ofNat data.length)) = nextIndex c data.length b := by
    have hregular := stopIndex_of_regular hfitted (grant_regular hinv hg)
    rwa [htoNat] at hregular
  -- the message is written
  obtain ⟨q₁, hwrite, hinv₁⟩ := hinv.exists_acquireWrite hg htoNat.symm
  rw [hstop, List.nil_append] at hinv₁
  generalize hq₂ : SPSCQueue.commitWrite c.kCacheLineSize _ _ = q₂ at hinv₁
  have hindices : ¬ q₂.readIndex ≥ q₂.writeIndex := by
    have hread : q₂.readIndex.toNat = b % 2 ^ 64 := hinv₁.toNat_readIndex rfl rfl
    have hwrite : q₂.writeIndex.toNat = nextIndex c data.length b % 2 ^ 64 := hinv₁.idle rfl
    have hbody := begin_le_body (c := c) (b := b) (g := q.grant (.ofNat data.length))
    have hlt := bodyIndex_lt_stop (c := c) (b := b) (g := q.grant (.ofNat data.length))
    rw [ge_iff_le, UInt64.le_iff_toNat_le, hread, hwrite]
    omega
  -- and read
  obtain ⟨q₃, hread, hload, hinv₃⟩ := hinv₁.exists_acquireRead hindices
  rw [hstop] at hinv₃
  subst hq₂
  have hseen : q₃.load (Message.slot ⟨q.grant (.ofNat data.length), data⟩) = data := by
    show q₃.buffer.load _ (UInt64.ofNat (q.grant (.ofNat data.length)).size).toNat = data
    rw [hfitted.toNat_size]
    exact hload
  have hslot : (Message.slot ⟨q.grant (.ofNat data.length), data⟩).size.toNat = data.length :=
    hfitted.toNat_size.trans hsize
  have hdeliver := SPSCQueue.deliver_of_none hwrite hread
  rw [hdeliver]
  have hidle : (q₃.commitRead c.kCacheLineSize (Message.slot
      ⟨q.grant (.ofNat data.length), data⟩)).writeIndex.toNat = _ := hinv₃.idle rfl
  have hreader : (q₃.commitRead c.kCacheLineSize (Message.slot
      ⟨q.grant (.ofNat data.length), data⟩)).readIndex.toNat = _ := hinv₃.toNat_readIndex rfl rfl
  refine ⟨⟨rfl, rfl, hslot, hseen, UInt64.toNat_inj.mp (hreader.trans hidle.symm), ?_⟩, hinv₃⟩
  rw [hreader, Nat.mod_eq_of_lt hword]
  exact hinv₃.aligned

/-! ## Any number of rounds -/

theorem rounds_intact_from {messages : List (List UInt8)}
    (hinv : InvAt c ⟨q, none, none, []⟩ b b)
    (hsizes : ∀ data ∈ messages, 1 ≤ data.length ∧ data.length + 8 ≤ c.size / 2)
    (hword : endIndex c b (messages.map List.length) < 2 ^ 64) :
    List.Forall₂ (Delivery.Intact c.kCacheLineSize) messages
      (q.rounds c.kCacheLineSize messages) := by
  induction messages generalizing q b with
  | nil => exact .nil
  | cons data rest ih =>
    obtain ⟨hone, hhalf⟩ := hsizes data List.mem_cons_self
    have hnext : nextIndex c data.length b < 2 ^ 64 :=
      (le_endIndex (rest.map List.length)).trans_lt hword
    obtain ⟨hintact, hinv'⟩ := deliver_intact hinv hone hhalf hnext
    exact .cons hintact (ih hinv' (fun d hd => hsizes d (List.mem_cons_of_mem _ hd)) hword)

/-- Messages of at most half the capacity that are written and read one after the other arrive. -/
theorem rounds_intact (c : Config) (buffer : Mem) (messages : List (List UInt8))
    (hsizes : ∀ data ∈ messages, 1 ≤ data.length ∧ data.length + 8 ≤ c.size / 2)
    (hword : endIndex c 0 (messages.map List.length) < 2 ^ 64) :
    List.Forall₂ (Delivery.Intact c.kCacheLineSize) messages
      ((SPSCQueue.init c.capacity buffer).rounds c.kCacheLineSize messages) :=
  rounds_intact_from (init_inv c buffer) hsizes hword

/-- The last message wraps. -/
theorem rounds_intact_wrap :
    List.Forall₂ (Delivery.Intact 64) ([100, 120, 50, 120, 120].map fun n => List.replicate n 7)
      ((SPSCQueue.init 256 fun _ => 0).rounds 64
        ([100, 120, 50, 120, 120].map fun n => List.replicate n 7)) :=
  rounds_intact fourLines (fun _ => 0) _ (by decide +kernel) (by decide +kernel)

end Csics.Queue
