import Mathlib.Data.Nat.Prime.Basic
import Csics.Queue.Rounds
import Csics.Radio.Integrity

/-!
# The first slot that wraps

A consumer that keeps up with the loop brings the indices of the queue to any block of the first lap
(`exists_round`). Where the slots leave a rest of the ring, the slot behind the last of them wraps,
and `acquire_write` moves `write_index_` past the padding before a sample has arrived. The consumer
then acquires a block that is not sent (`exists_torn`).
-/

namespace Csics.Radio

open Base Queue

variable {c : Config} {blockLen : UInt64} {s t : Stream} {unread : List Message} {a b : Nat}

/-- Every block is received, and the loop is about to look at the signal, which is not set. -/
structure Drained (c : Config) (blockLen : UInt64) (s : Stream) (b : Nat) : Prop where
  following : Following c blockLen s none [] b b
  rx : s.state.rx = .checking
  reading : s.state.reading = none
  stopSignal : s.state.stopSignal = false

/-! ## A round -/

/-- A queue whose two indices are equal grants the request. -/
theorem Drained.granted (hsized : Sized c blockLen) (h : Drained c blockLen s b) :
    InvAt.Granted ⟨s.state.queue, none, none, []⟩ (bufferSize blockLen) := by
  have hsize := hsized.toNat_eq
  have hfour := hsized.four_le
  have hinv := h.following.row.inv
  rw [h.reading] at hinv
  refine granted_of_half hinv ?_ (by omega)
  intro hzero
  rw [hzero, UInt64.toNat_zero] at hsize
  omega

/-- The loop gets a slot. -/
theorem Drained.exists_acquire (hsized : Sized c blockLen) (h : Drained c blockLen s b) :
    ∃ u blk, run (Stream.step c.kCacheLineSize blockLen) s [.rx .check, .rx .acquire] =
        some { s with state := u, arrived := [] } ∧
      State.acquire blockLen { s.state with rx := .acquiring } = some u ∧
      u.queue = (s.state.queue.acquireWrite .init (bufferSize blockLen)).2.2 ∧
      u.rx = .receiving blk ∧ blk.numSamples = 0 ∧ u.reading = none ∧ u.stopSignal = false := by
  have haccepted := (h.granted hsized).accepted
  obtain ⟨⟨queue, reading, stop, flags, locked, rx⟩, arrived, sent, received⟩ := s
  obtain ⟨-, hrx, hreading, hstop⟩ := h
  dsimp only at hrx hreading hstop haccepted
  subst hrx hreading hstop
  obtain ⟨hle, hfull⟩ := not_or.mp haccepted
  have heq := @SPSCQueue.acquireWrite_of_accepted queue .init _ hle hfull
  obtain ⟨u, blk, hacquire, hu⟩ : ∃ u blk,
      State.acquire blockLen ⟨queue, none, false, flags, locked, .acquiring⟩ = some u ∧
        u.queue = (queue.acquireWrite .init (bufferSize blockLen)).2.2 ∧
        u.rx = .receiving blk ∧ blk.numSamples = 0 ∧ u.reading = none ∧ u.stopSignal = false := by
    simp only [State.acquire]
    rw [heq]
    exact ⟨_, _, rfl, rfl, rfl, rfl, rfl, rfl⟩
  refine ⟨u, blk, ?_, hacquire, hu⟩
  simp only [run, Stream.step, State.step, State.rxStep, State.check, Option.map_some,
    Option.bind_some, Bool.false_eq_true, if_false, hacquire]

/-- The driver fills the slot. -/
theorem Following.exists_recv {writing : Option Writing} {blk : Block} (hsized : Sized c blockLen)
    (h : Following c blockLen s writing unread a b) (hrx : s.state.rx = .receiving blk)
    (hnum : blk.numSamples = 0) :
    ∃ as t blk', run (Stream.step c.kCacheLineSize blockLen) s as = some t ∧
      Following c blockLen t writing unread a b ∧ t.state.rx = .receiving blk' ∧
      ¬ blk'.numSamples < blockLen.toNat ∧ t.state.reading = s.state.reading ∧
      t.state.stopSignal = s.state.stopSignal := by
  rcases Nat.eq_zero_or_pos blockLen.toNat with hzero | hpos
  · exact ⟨[], s, blk, rfl, h, hrx, by omega, rfl, rfl⟩
  · obtain ⟨u, hu, hrx', hreading, hstop⟩ : ∃ u,
        s.state.recv blockLen (List.replicate blockLen.toNat (0, 0)) = some u ∧
          u.rx = .receiving { blk with numSamples := blk.numSamples + blockLen.toNat } ∧
          u.reading = s.state.reading ∧ u.stopSignal = s.state.stopSignal := by
      have hroom : blk.numSamples < blockLen.toNat ∧
          0 < (List.replicate blockLen.toNat ((0 : UInt16), (0 : UInt16))).length ∧
          (List.replicate blockLen.toNat ((0 : UInt16), (0 : UInt16))).length ≤
            blockLen.toNat - blk.numSamples := by
        rw [List.length_replicate]
        omega
      simp only [State.recv, hrx]
      rw [if_pos hroom, List.length_replicate]
      exact ⟨_, rfl, rfl, rfl, rfl⟩
    refine ⟨[.rx (.recv (List.replicate blockLen.toNat (0, 0)))], _, _, ?_, h.recv hsized hu, hrx',
      ?_, hreading, hstop⟩
    · simp only [run, Stream.step, State.step, State.rxStep, hu]
      rfl
    · dsimp only
      omega

/-- A block is sent. -/
theorem Drained.exists_sent (hsized : Sized c blockLen) (h : Drained c blockLen s b)
    (hover : b % c.size + (bufferSize blockLen).toNat + 8 ≤ c.size) :
    ∃ as t unread, run (Stream.step c.kCacheLineSize blockLen) s as = some t ∧
      Following c blockLen t none unread b (b + blockSize c (bufferSize blockLen).toNat) ∧
      t.state.rx = .checking ∧ t.state.reading = none ∧ t.state.stopSignal = false := by
  obtain ⟨u, blk, hrun, hacquire, -, hrx, hnum, hreading, hstop⟩ := h.exists_acquire hsized
  have hwaiting : Following c blockLen { s with state := { s.state with rx := .acquiring } } none []
      b b := ⟨h.following.row, .acquiring, h.following.blocks⟩
  obtain ⟨writing, hfollowing⟩ := hwaiting.acquire hsized hover hacquire
  obtain ⟨as, t, blk', hrecv, hfollowing', hrx', hfull, hreading', hstop'⟩ :=
    hfollowing.exists_recv hsized hrx hnum
  obtain ⟨v, hv, hrx'', hreading'', hstop''⟩ : ∃ v,
      t.state.finish c.kCacheLineSize blockLen ⟨0, .none⟩ 0 = some v ∧ v.rx = .checking ∧
        v.reading = t.state.reading ∧ v.stopSignal = t.state.stopSignal := by
    simp only [State.finish, hrx', if_neg hfull]
    exact ⟨_, rfl, rfl, rfl, rfl⟩
  obtain ⟨unread, hsent⟩ := hfollowing'.finish hsized hv
  refine ⟨[.rx .check, .rx .acquire] ++ (as ++ [.rx (.finish ⟨0, .none⟩ 0)]), _, unread, ?_, hsent,
    hrx'', hreading''.trans (hreading'.trans hreading), hstop''.trans (hstop'.trans hstop)⟩
  rw [run_append, hrun, Option.bind_some, run_append, hrecv, Option.bind_some]
  simp only [run, Stream.step, State.step, State.rxStep, hv]
  rfl

/-- And received. -/
theorem Following.exists_received (h : Following c blockLen s none unread a b) (hlt : a < b)
    (hb : b = a + blockSize c (bufferSize blockLen).toNat) (hword : b < 2 ^ 64)
    (hreading : s.state.reading = none) :
    ∃ as t, run (Stream.step c.kCacheLineSize blockLen) s as = some t ∧
      Following c blockLen t none [] b b ∧ t.state.rx = s.state.rx ∧ t.state.reading = none ∧
      t.state.stopSignal = s.state.stopSignal := by
  obtain ⟨⟨queue, reading, stop, flags, locked, rx⟩, arrived, sent, received⟩ := s
  dsimp only at hreading
  subst hreading
  have hread : queue.readIndex.toNat = a % 2 ^ 64 := h.row.reader.1
  have hwrite : queue.writeIndex.toNat = b % 2 ^ 64 := h.row.inv.idle rfl
  have hindices : ¬ queue.readIndex ≥ queue.writeIndex := by
    rw [ge_iff_le, UInt64.le_iff_toNat_le, hread, hwrite]
    omega
  obtain ⟨m, rest, hunread⟩ : ∃ m rest, unread = m :: rest := by
    apply List.exists_cons_of_ne_nil
    rintro rfl
    exact hlt.ne h.row.inv.laid
  subst hunread
  have hplaced : Placed c queue.buffer a m.grant := h.row.inv.laid.1
  obtain ⟨r, hacquire, -⟩ := InvAt.acquireRead_of_placed .init h.row.inv.capacity_eq hplaced hread
    hindices
  obtain ⟨u, hu, hslot, hrx, hstop⟩ : ∃ u,
      State.acquireRead ⟨queue, none, stop, flags, locked, rx⟩ = some u ∧
        u.reading.isSome ∧ u.rx = rx ∧ u.stopSignal = stop := by
    simp only [State.acquireRead, hacquire]
    exact ⟨_, rfl, rfl, rfl, rfl⟩
  obtain ⟨slot, hslot⟩ := Option.isSome_iff_exists.mp hslot
  obtain ⟨v, hv, hrx', hreading', hstop'⟩ : ∃ v, u.commitRead c.kCacheLineSize = some v ∧
      v.rx = u.rx ∧ v.reading = none ∧ v.stopSignal = u.stopSignal := by
    simp only [State.commitRead, hslot]
    exact ⟨_, rfl, rfl, rfl, rfl⟩
  obtain ⟨unread', hreceived⟩ := (h.acquireRead hu).commitRead hv
  rw [← hb] at hreceived
  have hnil : unread' = [] := by
    have hlength : b + unread'.length ≤ b := hreceived.row.inv.laid.length_le
    exact List.eq_nil_of_length_eq_zero (by omega)
  subst hnil
  refine ⟨[.acquireRead, .commitRead], _, ?_, hreceived, hrx'.trans hrx, hreading',
    hstop'.trans hstop⟩
  simp only [run, Stream.step, State.step, hu, Option.map_some, Option.bind_some, hv]

/-- The indices move to the next block. -/
theorem Drained.exists_round (hsized : Sized c blockLen) (h : Drained c blockLen s b)
    (hover : b % c.size + (bufferSize blockLen).toNat + 8 ≤ c.size)
    (hword : b + blockSize c (bufferSize blockLen).toNat < 2 ^ 64) :
    ∃ as t, run (Stream.step c.kCacheLineSize blockLen) s as = some t ∧
      Drained c blockLen t (b + blockSize c (bufferSize blockLen).toNat) := by
  have hpos := blockSize_pos c (bufferSize blockLen).toNat
  obtain ⟨as, t, unread, hsend, hsent, hrx, hreading, hstop⟩ := h.exists_sent hsized hover
  obtain ⟨bs, u, hreceive, hreceived, hrx', hreading', hstop'⟩ :=
    hsent.exists_received (by omega) rfl hword hreading
  refine ⟨as ++ bs, u, ?_, hreceived, hrx'.trans hrx, hreading', hstop'.trans hstop⟩
  rw [run_append, hsend, Option.bind_some, hreceive]

/-- Every block of the first lap can be the next one. -/
theorem Drained.exists_lap (hsized : Sized c blockLen) (h : Drained c blockLen s 0) {n : Nat}
    (hn : n ≤ perLap c (bufferSize blockLen).toNat) :
    ∃ as t, run (Stream.step c.kCacheLineSize blockLen) s as = some t ∧
      Drained c blockLen t (n * blockSize c (bufferSize blockLen).toNat) := by
  induction n with
  | zero => exact ⟨[], s, rfl, by rwa [Nat.zero_mul]⟩
  | succ n ih =>
    obtain ⟨as, t, hrun, hdrained⟩ := ih (Nat.le_of_succ_le hn)
    have hc := c.size_le
    have hlap := perLap_mul_add c (bufferSize blockLen).toNat
    have hslot := le_blockSize c (bufferSize blockLen).toNat
    have hmul := Nat.mul_le_mul_right (blockSize c (bufferSize blockLen).toNat) hn
    rw [Nat.succ_mul] at hmul
    have hmod : n * blockSize c (bufferSize blockLen).toNat % c.size =
        n * blockSize c (bufferSize blockLen).toNat := Nat.mod_eq_of_lt (by omega)
    obtain ⟨bs, u, hround, hdrained'⟩ := hdrained.exists_round hsized (by omega) (by omega)
    refine ⟨as ++ bs, u, ?_, by rwa [Nat.succ_mul]⟩
    rw [run_append, hrun, Option.bind_some, hround]

/-! ## The wrap -/

/-- The consumer gets the slot of a block that has not begun to arrive. -/
theorem Drained.exists_torn (hsized : Sized c blockLen) (h : Drained c blockLen s b)
    (hb : b < c.size) (hover : c.size < b + (bufferSize blockLen).toNat + 8) :
    ∃ as t, run (Stream.step c.kCacheLineSize blockLen) s as = some t ∧ ¬ t.Intact := by
  have hg := h.granted hsized
  have hinv := h.following.row.inv
  rw [h.reading] at hinv
  obtain ⟨u, blk, hrun, -, hqueue, -, -, hreading, -⟩ := h.exists_acquire hsized
  have hc := c.size_le
  obtain ⟨q, w, hq, hindex, hgrant, hinv'⟩ := hinv.exists_open hg
  rw [hq] at hqueue
  have hopen := hinv'.opened w rfl
  -- `write_index_` is behind the padding, and the reader is before it
  have hpad : w.grant.pad = some b := by
    have heq := hinv.grant_eq hg
    rw [Nat.mod_eq_of_lt hb, if_pos (by omega)] at heq
    rw [hgrant]
    exact congrArg Grant.pad heq
  have hbody : bodyIndex c b w.grant = c.size + 16 := by
    have hlap := lapEnd_eq c.size_pos b
    rw [Nat.mod_eq_of_lt hb] at hlap
    simp only [bodyIndex, hpad]
    omega
  have hwrite : q.writeIndex.toNat = (c.size + 16) % 2 ^ 64 := by
    rw [← hbody]
    exact hopen.writeIndex_eq
  have hread : q.readIndex.toNat = b % 2 ^ 64 := by
    rw [hindex]
    exact hinv.toNat_readIndex rfl rfl
  have hindices : ¬ q.readIndex ≥ q.writeIndex := by
    rw [ge_iff_le, UInt64.le_iff_toNat_le, hread, hwrite]
    omega
  obtain ⟨r, hacquire, -⟩ := InvAt.acquireRead_of_placed .init hinv'.capacity_eq hopen.placed hread
    hindices
  obtain ⟨v, slot, hv, hslot⟩ : ∃ v slot, u.acquireRead = some v ∧ v.reading = some slot := by
    simp only [State.acquireRead, hreading, hqueue, hacquire]
    exact ⟨_, _, rfl, rfl⟩
  refine ⟨[.rx .check, .rx .acquire] ++ [.acquireRead], ⟨v, [], s.sent, s.received⟩, ?_, ?_⟩
  · rw [run_append, hrun, Option.bind_some]
    simp only [run, Stream.step, State.step, hv]
    rfl
  · -- but no block is on its way
    rintro ⟨-, hnext⟩
    obtain ⟨block, -, hblock⟩ := hnext slot hslot
    obtain ⟨blocks, hsent, hblocks⟩ := h.following.blocks
    cases hblocks
    rw [List.append_nil] at hsent
    dsimp only at hblock
    rw [hsent, List.getElem?_eq_none le_rfl] at hblock
    cases hblock

/-! ## All block lengths -/

theorem blockSize_isPowerOfTwo_iff {size : Nat} (h : size + 8 ≤ c.size) :
    lapRest c size = 0 ↔ (blockSize c size).isPowerOfTwo := by
  have hle := blockSize_le h
  have hcap : c.size = 2 ^ c.capacityLog := c.capacity_eq
  constructor
  · intro hrest
    have hdvd : blockSize c size ∣ 2 ^ c.capacityLog := by
      rw [← hcap]
      exact Nat.dvd_of_mod_eq_zero hrest
    obtain ⟨k, -, hk⟩ := (Nat.dvd_prime_pow Nat.prime_two).mp hdvd
    exact ⟨k, hk⟩
  · rintro ⟨k, hk⟩
    apply Nat.mod_eq_zero_of_dvd
    rw [hk, hcap] at hle ⊢
    exact Nat.pow_dvd_pow 2 ((Nat.pow_le_pow_iff_right (by omega)).mp hle)

/-- The queue of a receiver has room for four blocks, unless the product wraps around. -/
theorem exists_sized {line : UInt64} (hline : line.toNat.isPowerOfTwo) (hge : 8 ≤ line.toNat)
    (hlen : (4 * blockLen.toNat + 280) * 4 ≤ 2 ^ 63) :
    ∃ c : Config, c.kCacheLineSize = line ∧ c.capacity = State.capacity line blockLen ∧
      Sized c blockLen := by
  obtain ⟨k, hk⟩ := hline
  have hthree : 3 ≤ k := (Nat.pow_le_pow_iff_right (show 1 < 2 by omega)).mp (hk ▸ hge)
  have h4 : sizeofSDRRawSample.toNat = 4 := rfl
  have h280 : sizeofBlockHeader.toNat = 280 := rfl
  have hsize : (bufferSize blockLen).toNat = 4 * blockLen.toNat + 280 := by
    rw [bufferSize, UInt64.toNat_add, UInt64.toNat_mul, h4, h280]
    omega
  have hrequest : (bufferSize blockLen * 4).toNat = 4 * (bufferSize blockLen).toNat := by
    rw [UInt64.toNat_mul, hsize, show UInt64.toNat 4 = 4 from rfl]
    omega
  obtain ⟨c, hline', hcap⟩ := exists_config hk hthree (bufferSize blockLen * 4)
  refine ⟨c, hline', hcap, hsize, ?_⟩
  have hleast := isLeast_getNextPowerOfTwo (v := bufferSize blockLen * 4) (by omega) (by omega)
  have hmax := toNat_max line (getNextPowerOfTwo (bufferSize blockLen * 4))
  rw [← hcap] at hmax
  have hge' := hleast.1.2
  change c.size = _ at hmax
  omega

/-- A stream is intact in every state of every run if and only if the slots of its blocks, in whole
cache lines, are a power of two. -/
theorem Stream.intact_iff {line : UInt64} (hline : line.toNat.isPowerOfTwo) (hge : 8 ≤ line.toNat)
    (hlen : (4 * blockLen.toNat + 280) * 4 ≤ 2 ^ 63) (buffer : Mem) (flags : UInt32)
    (locked : Bool) :
    (∀ as s, run (step line blockLen) (init line blockLen buffer flags locked) as = some s →
        s.Intact) ↔
      (roundUp line.toNat (4 * blockLen.toNat + 288)).isPowerOfTwo := by
  obtain ⟨c, rfl, hcap, hsized⟩ := exists_sized hline hge hlen
  have hsize := hsized.toNat_eq
  have hfour := hsized.four_le
  have hblock : roundUp c.kCacheLineSize.toNat (4 * blockLen.toNat + 288) =
      blockSize c (bufferSize blockLen).toNat := by
    rw [blockSize, hsize]
    rfl
  have hinit : Following c blockLen (init c.kCacheLineSize blockLen buffer flags locked) none [] 0
      0 := following_init rfl hcap
  rw [hblock, ← blockSize_isPowerOfTwo_iff (by omega)]
  constructor
  · intro hall
    by_contra hrest
    have hlap := perLap_mul_add c (bufferSize blockLen).toNat
    have hslot := lapRest_lt_slot c (bufferSize blockLen).toNat
    have hdrained : Drained c blockLen (init c.kCacheLineSize blockLen buffer flags locked) 0 :=
      ⟨hinit, rfl, rfl, rfl⟩
    obtain ⟨as, s, hrun, hlast⟩ := hdrained.exists_lap hsized le_rfl
    obtain ⟨bs, t, htorn, hnot⟩ := hlast.exists_torn hsized (by omega) (by omega)
    refine hnot (hall (as ++ bs) t ?_)
    rw [run_append, hrun, Option.bind_some, htorn]
  · intro hrest as s hrun
    exact run_intact hsized hrest hinit hrun

/-- The slots of 184 samples take 1024 bytes each, and those of 1024 samples take 4416. -/
theorem Stream.intact_iff_lengths :
    (∀ as s, run (step 64 184) (init 64 184 (fun _ => 0) 0 true) as = some s → s.Intact) ∧
      ¬ ∀ as s, run (step 64 1024) (init 64 1024 (fun _ => 0) 0 true) as = some s → s.Intact :=
  ⟨(intact_iff ⟨6, rfl⟩ (by decide) (by decide) (fun _ => 0) 0 true).mpr ⟨10, rfl⟩,
    fun hall => absurd
      ((intact_iff ⟨6, rfl⟩ (by decide) (by decide) (fun _ => 0) 0 true).mp hall) (by decide)⟩

end Csics.Radio
