import Csics.Queue.Drained
import Csics.Queue.Holdings
import Csics.Radio.RxLoop

/-!
# Stopping the receiver

Behind `stop_signal_` the loop ends with the block it is at. It does not get there while it waits
for a slot: the loop around `acquire_write` does not look at the signal, and a queue that turns the
request down goes on to do so as long as the consumer releases nothing. Then the `join` of
`stop_stream` does not return (`endsIn_iff`).

`Next` is what a step of the loop can do. Of its steps only `retry` leads nowhere.
-/

namespace Csics.Radio

open Base Queue
open QueueSlotHeader (sizeof)

namespace State

variable {line blockLen : UInt64} {s t : State}

/-! ## The loop around `acquire_write` -/

/-- A request that is turned down leaves everything as it is. -/
theorem acquire_of_turnsDown (hrx : s.rx = .acquiring)
    (hdown : s.queue.TurnsDown (bufferSize blockLen)) : s.acquire blockLen = some s := by
  obtain ⟨err, hne, heq⟩ :=
    System.acquireWrite_of_rejected (s := ⟨s.queue, none, none, []⟩) hdown .init
  obtain ⟨queue, reading, stopSignal, flags, locked, rx⟩ := s
  dsimp only at hrx heq
  subst hrx
  simp only [acquire, heq]

/-- A request that is granted leads to the driver. -/
theorem acquire_of_not_turnsDown (hrx : s.rx = .acquiring)
    (hdown : ¬ s.queue.TurnsDown (bufferSize blockLen)) :
    ∃ t b, s.acquire blockLen = some t ∧ t.stopSignal = s.stopSignal ∧
      t.queue.capacity = s.queue.capacity ∧ t.rx = .receiving b ∧ b.numSamples = 0 := by
  obtain ⟨hsize, hfull⟩ := not_or.mp hdown
  have heq := @SPSCQueue.acquireWrite_of_accepted s.queue .init _ hsize hfull
  unfold acquire
  rw [hrx]
  dsimp only
  rw [heq]
  exact ⟨_, _, rfl, rfl, rfl, rfl, rfl⟩

/-! ## The loop -/

/-- Where a step of the loop leads, with the signal set or not and with a request that is turned
down or not. -/
inductive Next (blockLen : UInt64) (stop : Bool) (down : Prop) : Rx → Rx → Prop where
  | leave (h : stop = true) : Next blockLen stop down .checking .returned
  | enter (h : stop = false) : Next blockLen stop down .checking .acquiring
  | retry (h : down) : Next blockLen stop down .acquiring .acquiring
  | grant (b : Block) (h : ¬ down) (hb : b.numSamples = 0) :
      Next blockLen stop down .acquiring (.receiving b)
  | recv (b b' : Block) (h : b.numSamples < blockLen.toNat) (hb : b.numSamples < b'.numSamples) :
      Next blockLen stop down (.receiving b) (.receiving b')
  | commit (b : Block) : Next blockLen stop down (.receiving b) .checking

/-- A step of the loop leads on, and changes neither the signal nor the capacity. -/
theorem next_of_rxStep {step : RxStep} (h : s.rxStep line blockLen step = some t) :
    t.stopSignal = s.stopSignal ∧ t.queue.capacity = s.queue.capacity ∧
      Next blockLen s.stopSignal (s.queue.TurnsDown (bufferSize blockLen)) s.rx t.rx := by
  cases step with
  | check =>
    simp only [rxStep, check] at h
    split at h
    · rename_i hrx
      cases h
      refine ⟨rfl, rfl, ?_⟩
      rw [hrx]
      cases hstop : s.stopSignal with
      | true => exact .leave rfl
      | false => exact .enter rfl
    · cases h
  | acquire =>
    cases hrx : s.rx with
    | acquiring =>
      by_cases hdown : s.queue.TurnsDown (bufferSize blockLen)
      · cases (acquire_of_turnsDown hrx hdown).symm.trans h
        rw [hrx]
        exact ⟨rfl, rfl, .retry hdown⟩
      · obtain ⟨u, b, hu, hstop, hcap, hrx', hb⟩ := acquire_of_not_turnsDown hrx hdown
        cases hu.symm.trans h
        rw [hrx']
        exact ⟨hstop, hcap, .grant b hdown hb⟩
    | checking | receiving b | returned =>
      simp only [rxStep, acquire, hrx] at h
      cases h
  | recv samples =>
    simp only [rxStep, recv] at h
    split at h
    · rename_i b hrx
      split at h
      · rename_i hcursor
        cases h
        rw [hrx]
        exact ⟨rfl, rfl, .recv _ _ hcursor.1 (Nat.lt_add_of_pos_right hcursor.2.1)⟩
      · cases h
    · cases h
  | finish md now =>
    simp only [rxStep, finish] at h
    split at h
    · rename_i b hrx
      split at h
      · cases h
      · cases h
        rw [hrx]
        exact ⟨rfl, SPSCQueue.capacity_commitWrite _ _ line, .commit b⟩
    · cases h

/-- Steps that are left at most, behind the signal. -/
def rank (blockLen : UInt64) : Rx → Nat
  | .returned => 0
  | .checking => 1
  | .receiving b => blockLen.toNat - b.numSamples + 2
  | .acquiring => blockLen.toNat + 3

/-- Behind the signal, only a request that is turned down does not bring the loop to its end. -/
theorem Next.rank_lt {stop : Bool} {down : Prop} {rx rx' : Rx} (h : Next blockLen stop down rx rx')
    (hstop : stop = true) (hdown : rx = .acquiring → ¬ down) :
    rx' ≠ .acquiring ∧ rank blockLen rx' < rank blockLen rx := by
  cases h with
  | leave => exact ⟨nofun, Nat.zero_lt_one⟩
  | enter h => exact absurd (hstop.symm.trans h) nofun
  | retry h => exact absurd h (hdown rfl)
  | grant b _ hb =>
    refine ⟨nofun, ?_⟩
    simp only [rank, hb]
    omega
  | recv b b' h hb =>
    refine ⟨nofun, ?_⟩
    simp only [rank]
    omega
  | commit b =>
    refine ⟨nofun, ?_⟩
    simp only [rank]
    omega

/-- The signal is set, and a request that the loop waits for is granted. -/
structure Leaving (blockLen : UInt64) (s : State) : Prop where
  stopSignal_eq : s.stopSignal = true
  granted : s.rx = .acquiring → ¬ s.queue.TurnsDown (bufferSize blockLen)

/-- Then each step leads on to the end of the loop. -/
theorem Leaving.step {step : RxStep} (h : Leaving blockLen s)
    (ht : s.rxStep line blockLen step = some t) :
    Leaving blockLen t ∧ rank blockLen t.rx < rank blockLen s.rx := by
  obtain ⟨hstop, -, hnext⟩ := next_of_rxStep ht
  obtain ⟨hne, hlt⟩ := hnext.rank_lt h.stopSignal_eq h.granted
  exact ⟨⟨hstop.trans h.stopSignal_eq, fun hrx => absurd hrx hne⟩, hlt⟩

/-- A loop that has not returned has a step. -/
theorem exists_rxStep (hrx : s.rx ≠ .returned) :
    ∃ step t, s.rxStep line blockLen step = some t := by
  cases hrx' : s.rx with
  | checking =>
    refine ⟨.check, ?_⟩
    simp only [rxStep, check, hrx']
    exact ⟨_, rfl⟩
  | acquiring =>
    refine ⟨.acquire, ?_⟩
    by_cases hdown : s.queue.TurnsDown (bufferSize blockLen)
    · exact ⟨s, acquire_of_turnsDown hrx' hdown⟩
    · obtain ⟨t, -, ht, -⟩ := acquire_of_not_turnsDown hrx' hdown
      exact ⟨t, ht⟩
  | receiving b =>
    by_cases hcursor : b.numSamples < blockLen.toNat
    · refine ⟨.recv [(0, 0)], ?_⟩
      have hone : b.numSamples < blockLen.toNat ∧ 0 < [((0 : UInt16), (0 : UInt16))].length ∧
          [((0 : UInt16), (0 : UInt16))].length ≤ blockLen.toNat - b.numSamples := by
        rw [List.length_singleton]
        omega
      simp only [rxStep, recv, hrx', if_pos hone]
      exact ⟨_, rfl⟩
    · refine ⟨.finish ⟨0, .none⟩ 0, ?_⟩
      simp only [rxStep, finish, hrx', if_neg hcursor]
      exact ⟨_, rfl⟩
  | returned => exact absurd hrx' hrx

/-! ## The queue -/

/-- The capacity that the constructor gives to the queue. -/
def capacity (kCacheLineSize blockLen : UInt64) : UInt64 :=
  max kCacheLineSize (getNextPowerOfTwo ((blockLen * sizeofSDRRawSample + sizeofBlockHeader) * 4))

theorem capacity_step {a : Action} (h : s.step line blockLen a = some t) :
    t.queue.capacity = s.queue.capacity := by
  cases a with
  | rx step => exact (next_of_rxStep h).2.1
  | acquireRead =>
    have hcap := s.queue.capacity_acquireRead .init
    simp only [step, acquireRead] at h
    split at h
    · cases h
    split at h
    all_goals
      rename_i heq
      rw [heq] at hcap
      cases h
      exact hcap
  | commitRead =>
    obtain ⟨slot, -, rfl⟩ := Option.map_eq_some_iff.mp h
    exact s.queue.capacity_commitRead slot line
  | tune | lock | stop =>
    cases h
    rfl

/-- The queue keeps the capacity that it was made with. -/
theorem capacity_of_run {buffer : Mem} {flags : UInt32} {locked : Bool} {as : List Action}
    (hrun : run (step line blockLen) (init line blockLen buffer flags locked) as = some s) :
    s.queue.capacity = capacity line blockLen :=
  run_preserves (I := fun s => s.queue.capacity = capacity line blockLen)
    (fun _ _ _ hs ht => (capacity_step ht).trans hs) rfl hrun

/-! ## The end of the loop -/

/-- The loop is at the calls of `acquire_write`, and the queue turns its request down. -/
def Blocked (kCacheLineSize blockLen : UInt64) (s : State) : Prop :=
  s.rx = .acquiring ∧ (bufferSize blockLen > capacity kCacheLineSize blockLen ∨
    s.queue.writeIndex - s.queue.readIndex + (bufferSize blockLen + sizeof) ≥
      capacity kCacheLineSize blockLen)

instance (line blockLen : UInt64) (s : State) : Decidable (s.Blocked line blockLen) :=
  inferInstanceAs (Decidable (_ ∧ _))

/-- Behind the signal, and with no further step of the consumer, every run of the loop ends and the
`join` returns, if and only if the loop is not blocked. -/
theorem endsIn_iff (line blockLen : UInt64) (buffer : Mem) (flags : UInt32) (locked : Bool)
    (as : List Action)
    (hrun : run (step line blockLen) (init line blockLen buffer flags locked) as = some s)
    (hstop : s.stopSignal = true) :
    EndsIn (rxStep line blockLen) (fun t => t.rx = .returned) s ↔ ¬ s.Blocked line blockLen := by
  have hblocked : s.Blocked line blockLen ↔
      s.rx = .acquiring ∧ s.queue.TurnsDown (bufferSize blockLen) := by
    rw [Blocked, SPSCQueue.TurnsDown, capacity_of_run hrun]
  rw [hblocked]
  constructor
  · intro h hdown
    have hself : s.rxStep line blockLen .acquire = some s := acquire_of_turnsDown hdown.1 hdown.2
    exact not_ends_of_self hself h.1
  · intro h
    have hleaving : Leaving blockLen s := ⟨hstop, fun hrx hdown => h ⟨hrx, hdown⟩⟩
    have hends : Ends (rxStep line blockLen) s :=
      ends_of_lt (m := fun s => rank blockLen s.rx) (fun _ _ _ => Leaving.step) hleaving
    refine ⟨hends, ?_⟩
    intro steps t _ hnone
    by_contra hrx
    obtain ⟨step, u, hu⟩ := @exists_rxStep line blockLen t hrx
    cases (hnone step).symm.trans hu

/-- A block of 55 samples, as the thread writes it. -/
def blockSteps : List Action :=
  [.rx .check, .rx .acquire, .rx (.recv (List.replicate 55 (0, 0))), .rx (.finish ⟨0, .none⟩ 0)]

/-- Four blocks that nobody reads, and the signal while the thread waits for a fifth slot. -/
def unreadSteps : List Action :=
  blockSteps ++ blockSteps ++ blockSteps ++ blockSteps ++ [.rx .check, .rx .acquire, .stop]

/-- The signal during the first block. -/
theorem endsIn_first : ∃ s, run (step 64 55) (init 64 55 (fun _ => 0) 0 true)
      [.rx .check, .rx .acquire, .stop] = some s ∧
    EndsIn (rxStep 64 55) (fun t => t.rx = .returned) s :=
  ⟨_, rfl, (endsIn_iff 64 55 (fun _ => 0) 0 true [.rx .check, .rx .acquire, .stop] rfl rfl).mpr
    (by decide +kernel)⟩

/-- The consumer has stopped reading when the stream is stopped. -/
theorem not_endsIn_full :
    ∃ s, run (step 64 55) (init 64 55 (fun _ => 0) 0 true) unreadSteps = some s ∧
      s.stopSignal = true ∧ s.reading = none ∧
      ¬ EndsIn (rxStep 64 55) (fun t => t.rx = .returned) s := by
  refine ⟨_, rfl, rfl, rfl, ?_⟩
  intro hends
  refine (endsIn_iff 64 55 (fun _ => 0) 0 true unreadSteps rfl rfl).mp hends ?_
  decide +kernel

end State

end Csics.Radio
