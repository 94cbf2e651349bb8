import Csics.Queue.Rows
import Csics.Radio.Stopping
import Csics.Radio.Stream

/-!
# Which streams are intact

The blocks of a stream have one size. Where their slots fill the ring without a rest none of them
wraps, and whatever the parties do, the consumer receives what was sent (`run_intact`).

`Following` is the invariant. It holds up to the first slot that runs over the end of the ring.
-/

namespace Csics.Radio

open Base Queue

/-! ## The invariant -/

/-- Memory with these bytes holds the block. -/
def Holds (data : List UInt8) (block : SampleBlock) : Prop :=
  ∀ (mem : Mem) p, mem.load p data.length = data → SampleBlock.ofMem mem p (p + 280) = block

theorem holds_of_load {mem : Mem} {p n : Nat} {blk : Block} {md : Metadata} {now : UInt64}
    {flags : UInt32} {samples : List (UInt16 × UInt16)}
    (hheader : mem.load p 28 = blk.headerBytes md now flags)
    (hsamples : mem.load (p + 280) (4 * samples.length) = samples.flatMap sampleBytes)
    (hlength : blk.numSamples = samples.length) (hlt : samples.length < 2 ^ 64)
    (hn : 280 + 4 * samples.length ≤ n) :
    Holds (mem.load p n) ⟨now, md.timestampHw, .ofNat samples.length, flags, samples⟩ := by
  intro mem' p' heq
  rw [Mem.length_load] at heq
  have hheader' : mem'.load p' 28 = mem.load p 28 := Mem.load_sub (i := 0) heq (by omega)
  have hsamples' := Mem.load_sub (i := 280) heq hn
  exact SampleBlock.ofMem_eq (hheader'.trans hheader) (hsamples'.trans hsamples) hlength hlt

/-- The slot that the loop fills, with the samples that have arrived. -/
inductive Filling (blockLen : UInt64) (mem : Mem) (arrived : List (UInt16 × UInt16)) :
    Rx → Option Writing → Prop where
  | checking : Filling blockLen mem arrived .checking none
  | acquiring : Filling blockLen mem arrived .acquiring none
  | returned : Filling blockLen mem arrived .returned none
  | filling (b : Block) (w : Writing) (hslot : b.slot = w.slot) (hhdr : b.hdr = w.grant.header + 8)
      (hbase : b.base = w.grant.header + 8 + 280) (hlength : b.numSamples = arrived.length)
      (hle : arrived.length ≤ blockLen.toNat)
      (hload : mem.load b.base (4 * arrived.length) = arrived.flatMap sampleBytes) :
      Filling blockLen mem arrived (.receiving b) (some w)

/-- The unread messages are the blocks that are sent and not received. -/
structure Following (c : Config) (blockLen : UInt64) (s : Stream) (writing : Option Writing)
    (unread : List Message) (a b : Nat) : Prop where
  row : Row c (bufferSize blockLen).toNat ⟨s.state.queue, writing, s.state.reading, unread⟩ a b
  filling : Filling blockLen s.state.queue.buffer s.arrived s.state.rx writing
  blocks : ∃ blocks, s.sent = s.received ++ blocks ∧
    List.Forall₂ (fun m block => Holds m.data block) unread blocks

/-- The queue is made for four blocks. -/
structure Sized (c : Config) (blockLen : UInt64) : Prop where
  toNat_eq : (bufferSize blockLen).toNat = 4 * blockLen.toNat + 280
  four_le : 4 * (bufferSize blockLen).toNat ≤ c.size

variable {c : Config} {blockLen : UInt64} {s t : Stream} {writing : Option Writing}
  {unread : List Message} {a b : Nat}

namespace Following

/-- What the consumer holds is the first block that it has not received. -/
theorem block (h : Following c blockLen s writing unread a b) {slot : Slot}
    (hslot : s.state.reading = some slot) : ∃ block,
      blockAt s.state.queue.buffer slot = some block ∧ s.sent[s.received.length]? = some block := by
  obtain ⟨m, rest, hu, rfl⟩ := h.row.reader.2.2 slot hslot
  dsimp only at hu
  subst hu
  obtain ⟨blocks, hsent, hblocks⟩ := h.blocks
  cases hblocks with
  | @cons _ block _ blocks hm _ =>
    have hlaid := h.row.inv.laid
    have hload : s.state.queue.buffer.load (m.grant.header + 8) m.data.length = m.data := by
      have hdata := hlaid.2.1
      have hlength := congrArg List.length hdata
      rw [Mem.length_load] at hlength
      rw [← hlength]
      exact hdata
    refine ⟨block, ?_, ?_⟩
    · show some (SampleBlock.ofMem _ (m.grant.header + 8) (m.grant.header + 8 + 280)) = _
      rw [hm _ _ hload]
    · rw [hsent, List.getElem?_append_right le_rfl, Nat.sub_self]
      rfl

theorem intact (h : Following c blockLen s writing unread a b) : s.Intact := by
  obtain ⟨blocks, hsent, -⟩ := h.blocks
  refine ⟨hsent ▸ List.prefix_append _ _, ?_⟩
  intro slot hslot
  exact h.block hslot

/-! ## The loop -/

/-- A loop that waits for a slot goes on to wait, or gets one in the row. -/
theorem acquire {u : State} (hsized : Sized c blockLen)
    (h : Following c blockLen s writing unread a b)
    (hover : b % c.size + (bufferSize blockLen).toNat + 8 ≤ c.size)
    (hu : s.state.acquire blockLen = some u) :
    ∃ writing', Following c blockLen { s with state := u, arrived := [] } writing' unread a b := by
  obtain ⟨⟨queue, reading, stop, flags, locked, rx⟩, arrived, sent, received⟩ := s
  have hfilling := h.filling
  dsimp only at hu hfilling
  cases hfilling with
  | checking | returned | filling => cases hu
  | acquiring =>
    by_cases hdown : queue.TurnsDown (bufferSize blockLen)
    · cases (State.acquire_of_turnsDown rfl hdown).symm.trans hu
      exact ⟨none, h.row, .acquiring, h.blocks⟩
    · have hsize := hsized.toNat_eq
      have hfour := hsized.four_le
      have hg := h.row.granted rfl rfl (by omega) (by omega) hover hdown
      have hrow := h.row.acquireWrite_step rfl hover hg (InvAt.acquireWrite_granted hg)
      obtain ⟨hle, hfull⟩ := not_or.mp hdown
      have heq := @SPSCQueue.acquireWrite_of_accepted queue .init _ hle hfull
      simp only [State.acquire] at hu
      rw [heq] at hu
      cases hu
      refine ⟨_, hrow, ?_, h.blocks⟩
      exact .filling _ _ rfl rfl rfl rfl (Nat.zero_le _) rfl

/-- Samples arrive. -/
theorem recv {u : State} {samples : List (UInt16 × UInt16)} (hsized : Sized c blockLen)
    (h : Following c blockLen s writing unread a b)
    (hu : s.state.recv blockLen samples = some u) :
    Following c blockLen { s with state := u, arrived := s.arrived ++ samples } writing unread
      a b := by
  obtain ⟨⟨queue, reading, stop, flags, locked, rx⟩, arrived, sent, received⟩ := s
  have hfilling := h.filling
  dsimp only at hu hfilling
  cases hfilling with
  | checking | acquiring | returned => cases hu
  | filling blk w hslot hhdr hbase hlength hle hload =>
    simp only [State.recv] at hu
    split at hu
    · rename_i hroom
      obtain ⟨-, -, hroom⟩ := hroom
      have hfour : sizeofSDRRawSample.toNat = 4 := rfl
      have hsize := hsized.toNat_eq
      have hcursor : blk.base + blk.numSamples * sizeofSDRRawSample.toNat =
          w.grant.header + 8 + (280 + 4 * arrived.length) := by
        rw [hbase, hlength, hfour]
        omega
      have hbytes := length_flatMap_sampleBytes samples
      have hinside : 280 + 4 * arrived.length + (samples.flatMap sampleBytes).length ≤
          (bufferSize blockLen).toNat := by
        rw [hbytes]
        omega
      have hrow := h.row.payload_store rfl hinside
      rw [← hcursor] at hrow
      cases hu
      refine ⟨hrow, ?_, h.blocks⟩
      refine .filling _ w hslot hhdr hbase ?_ ?_ ?_
      · rw [List.length_append, ← hlength]
      · dsimp only
        rw [List.length_append]
        omega
      · -- the samples before are below the cursor
        show (queue.buffer.store _ _).load blk.base _ = _
        rw [List.length_append, Nat.mul_add, Mem.load_add, List.flatMap_append]
        congr 1
        · refine (Mem.load_store_of_disjoint (Or.inl ?_)).trans hload
          dsimp only
          omega
        · rw [show blk.base + 4 * arrived.length =
            blk.base + blk.numSamples * sizeofSDRRawSample.toNat by omega]
          exact Mem.load_store_of_length hbytes
    · cases hu

/-- A block that is complete is behind the unread ones. -/
theorem finish {u : State} {md : Metadata} {now : UInt64} (hsized : Sized c blockLen)
    (h : Following c blockLen s writing unread a b)
    (hu : s.state.finish c.kCacheLineSize blockLen md now = some u) :
    ∃ unread', Following c blockLen { s with state := u, sent := s.sent ++ s.finished md now } none
      unread' a (b + blockSize c (bufferSize blockLen).toNat) := by
  obtain ⟨⟨queue, reading, stop, flags, locked, rx⟩, arrived, sent, received⟩ := s
  have hfilling := h.filling
  dsimp only at hu hfilling
  cases hfilling with
  | checking | acquiring | returned => cases hu
  | filling blk w hslot hhdr hbase hlength hle hload =>
    simp only [State.finish] at hu
    split at hu
    · cases hu
    · rename_i hfull
      have hsize := hsized.toNat_eq
      have hinside : 0 + (blk.headerBytes md now (blk.flags ||| md.errorCode.flag)).length ≤
          (bufferSize blockLen).toNat := by
        rw [length_headerBytes]
        omega
      have hrow := h.row.payload_store rfl hinside
      rw [Nat.add_zero, ← hhdr] at hrow
      obtain ⟨hcommit, hunread⟩ := hrow.commitWrite_step rfl rfl
      cases hu
      obtain ⟨blocks, hsent, hblocks⟩ := h.blocks
      dsimp only at hsent hunread
      rw [hslot]
      refine ⟨_, hcommit, .checking,
        blocks ++ Stream.finished ⟨⟨queue, reading, stop, flags, locked, .receiving blk⟩, arrived,
          sent, received⟩ md now, ?_, ?_⟩
      · rw [hsent, List.append_assoc]
      · rw [hunread]
        refine List.rel_append hblocks (.cons ?_ .nil)
        have hword := blockLen.toNat_lt
        have hlt : arrived.length < 2 ^ 64 := by omega
        have hgrant := (h.row.writing w rfl).size_eq
        have hn : 280 + 4 * arrived.length ≤ w.grant.size := by omega
        have hpay : w.grant.payload = ⟨w.grant.header + 8, w.grant.size⟩ := rfl
        have hdisj : Region.Disjoint ⟨blk.base, 4 * arrived.length⟩ ⟨blk.hdr,
            (blk.headerBytes md now (blk.flags ||| md.errorCode.flag)).length⟩ := by
          rw [length_headerBytes]
          refine Or.inr ?_
          dsimp only
          omega
        rw [hpay]
        refine holds_of_load ?_ ?_ hlength hlt hn
        · rw [hhdr]
          exact Mem.load_store_of_length (by simp)
        · rw [← hbase]
          exact (Mem.load_store_of_disjoint hdisj).trans hload

/-! ## The consumer -/

theorem acquireRead {u : State} (h : Following c blockLen s writing unread a b)
    (hu : s.state.acquireRead = some u) :
    Following c blockLen { s with state := u } writing unread a b := by
  obtain ⟨⟨queue, reading, stop, flags, locked, rx⟩, arrived, sent, received⟩ := s
  cases reading with
  | some slot => cases hu
  | none =>
    have hbuffer := queue.buffer_acquireRead .init
    cases heq : queue.acquireRead .init with
    | mk err rest =>
      obtain ⟨slot, queue'⟩ := rest
      rw [heq] at hbuffer
      have hsys : ∃ reading, System.acquireRead ⟨queue, writing, none, unread⟩ =
            some ⟨queue', writing, reading, unread⟩ ∧
          u = ⟨queue', reading, stop, flags, locked, rx⟩ := by
        simp only [State.acquireRead, heq] at hu
        simp only [System.acquireRead, heq]
        cases err with
        | none =>
          cases hu
          exact ⟨_, rfl, rfl⟩
        | full | empty | tooBig =>
          cases hu
          exact ⟨_, rfl, rfl⟩
      obtain ⟨reading, hread, rfl⟩ := hsys
      have hfilling := h.filling
      rw [← hbuffer] at hfilling
      exact ⟨h.row.acquireRead_step hread, hfilling, h.blocks⟩

theorem commitRead {u : State} (h : Following c blockLen s writing unread a b)
    (hu : s.state.commitRead c.kCacheLineSize = some u) :
    ∃ unread', Following c blockLen { s with state := u, received := s.received ++ s.released }
      writing unread' (a + blockSize c (bufferSize blockLen).toNat) b := by
  obtain ⟨slot, hslot, rfl⟩ := Option.map_eq_some_iff.mp hu
  obtain ⟨block, hblock, hsent⟩ := h.block hslot
  obtain ⟨m, rest, hunread, -⟩ := h.row.reader.2.2 slot hslot
  dsimp only at hunread
  subst hunread
  obtain ⟨blocks, happend, hblocks⟩ := h.blocks
  have hreleased : s.released = [block] := by
    rw [Stream.released, hslot]
    exact congrArg Option.toList hblock
  have hsys : System.commitRead c.kCacheLineSize
      ⟨s.state.queue, writing, s.state.reading, m :: rest⟩ =
        some ⟨s.state.queue.commitRead c.kCacheLineSize slot, writing, none, rest⟩ := by
    simp only [System.commitRead, hslot]
  obtain ⟨hrow, -, -⟩ := h.row.commitRead_step hslot hsys
  cases hblocks with
  | @cons _ block' _ blocks _ hrest =>
    rw [happend, List.getElem?_append_right le_rfl, Nat.sub_self] at hsent
    cases hsent
    refine ⟨rest, hrow, ?_, blocks, ?_, hrest⟩
    · have hbuffer := s.state.queue.buffer_commitRead slot c.kCacheLineSize
      show Filling blockLen (s.state.queue.commitRead c.kCacheLineSize slot).buffer _ _ _
      rw [hbuffer]
      exact h.filling
    · rw [happend, hreleased, List.append_assoc]
      rfl

/-! ## A step of any party -/

/-- The signal, the flags and the state of the oscillator say nothing about the queue. -/
theorem of_queue_eq {u : State} (h : Following c blockLen s writing unread a b)
    (hqueue : u.queue = s.state.queue) (hreading : u.reading = s.state.reading)
    (hrx : u.rx = s.state.rx) : Following c blockLen { s with state := u } writing unread a b := by
  obtain ⟨queue, reading, stop, flags, locked, rx⟩ := u
  cases hqueue
  cases hreading
  cases hrx
  exact ⟨h.row, h.filling, h.blocks⟩

theorem check {u : State} (h : Following c blockLen s writing unread a b)
    (hu : s.state.check = some u) :
    Following c blockLen { s with state := u } writing unread a b := by
  obtain ⟨⟨queue, reading, stop, flags, locked, rx⟩, arrived, sent, received⟩ := s
  have hfilling := h.filling
  dsimp only at hu hfilling
  cases hfilling with
  | acquiring | returned | filling => cases hu
  | checking =>
    cases hu
    refine ⟨h.row, ?_, h.blocks⟩
    cases stop with
    | false => exact .acquiring
    | true => exact .returned

/-- A step keeps the row while the next slot does not run over the end of the ring. -/
theorem step {action : Action} (hsized : Sized c blockLen)
    (h : Following c blockLen s writing unread a b)
    (hover : b % c.size + (bufferSize blockLen).toNat + 8 ≤ c.size)
    (ht : s.step c.kCacheLineSize blockLen action = some t) :
    ∃ writing' unread' a' b', Following c blockLen t writing' unread' a' b' := by
  obtain ⟨u, hu, rfl⟩ := Option.map_eq_some_iff.mp ht
  cases action with
  | rx step =>
    cases step with
    | check => exact ⟨_, _, _, _, h.check hu⟩
    | acquire =>
      obtain ⟨writing', h'⟩ := h.acquire hsized hover hu
      exact ⟨_, _, _, _, h'⟩
    | recv samples => exact ⟨_, _, _, _, h.recv hsized hu⟩
    | finish md now =>
      obtain ⟨unread', h'⟩ := h.finish hsized hu
      exact ⟨_, _, _, _, h'⟩
  | acquireRead => exact ⟨_, _, _, _, h.acquireRead hu⟩
  | commitRead =>
    obtain ⟨unread', h'⟩ := h.commitRead hu
    exact ⟨_, _, _, _, h'⟩
  | tune | lock | stop =>
    cases hu
    exact ⟨_, _, _, _, h.of_queue_eq rfl rfl rfl⟩

end Following

/-- A new stream. -/
theorem following_init {line : UInt64} {buffer : Mem} {flags : UInt32} {locked : Bool}
    (hline : c.kCacheLineSize = line) (hcapacity : c.capacity = State.capacity line blockLen) :
    Following c blockLen (.init line blockLen buffer flags locked) none [] 0 0 where
  row := by
    subst hline
    have hrow := Row.init c (bufferSize blockLen).toNat buffer
    rw [hcapacity] at hrow
    exact hrow
  filling := .checking
  blocks := ⟨[], rfl, .nil⟩

/-- Where the blocks fill the laps, every run is intact. -/
theorem run_intact {as : List Action} (hsized : Sized c blockLen)
    (hrest : lapRest c (bufferSize blockLen).toNat = 0)
    (h : Following c blockLen s writing unread a b)
    (hrun : run (Stream.step c.kCacheLineSize blockLen) s as = some t) : t.Intact := by
  have hfollowing : ∃ writing unread a b, Following c blockLen t writing unread a b := by
    refine run_preserves (I := fun s => ∃ writing unread a b,
      Following c blockLen s writing unread a b) ?_ ⟨_, _, _, _, h⟩ hrun
    rintro s action s' ⟨writing, unread, a, b, h⟩ hstep
    exact h.step hsized (not_over_of_lapRest hrest h.row.dvd) hstep
  obtain ⟨writing, unread, a, b, h⟩ := hfollowing
  exact h.intact

end Csics.Radio
