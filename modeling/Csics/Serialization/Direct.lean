import Csics.Base.Parser
import Csics.Base.Word
import Csics.Serialization.View

/-!
# Direct serialization

`DirectSerializer` and `DirectDeserializer` of
`include/csics/serialization/DirectSerializer.hpp`: object representations are copied
to and from a buffer.

A `serialize_wire` function takes the cursor `bv` of its caller, copies it to `bv_`, writes
through `bv_` and returns the part of `bv` that it has written. `record` is that frame, its
statements are a list, and the status of a statement is dropped, as in the source.
`Writes`, `WritesAll` and `Emits` say what a statement, a list of
them and a function write when there is room.
-/

namespace Csics.Serialization

open Base

/-! ## Writing -/

/-- The variables of a `serialize_wire` function, and the memory. -/
structure Frame where
  mem : Mem
  bv : View
  bv_ : View

/-- A statement of a `serialize_wire` function. -/
abbrev Stmt := Frame → SerializationStatus × Frame

/-- A `serialize_wire` function applied to its object. -/
abbrev Wire := Mem → View → SerializationResult × Mem

section

variable {α : Type} [Word α]

/-- `std::memcpy` of the bytes to a view, if they fit. -/
def View.write (mem : Mem) (v : View) (bs : List UInt8) : SerializationStatus × Mem × View :=
  if bs.length > v.size then (.bufferFull, mem, v)
  else (.ok, mem.store v.data bs, v.advance bs.length)

/-- `s.write(bv_, x)`. -/
def write (host : Endian) (x : α) : Stmt := fun fr =>
  match fr.bv_.write fr.mem (Word.bytes host x) with
  | (status, mem, bv_) => (status, { fr with mem := mem, bv_ := bv_ })

/-- `s.pad(bv_, n)`. -/
def pad (n : Nat) : Stmt := fun fr =>
  match fr.bv_.write fr.mem (List.replicate n 0) with
  | (status, mem, bv_) => (status, { fr with mem := mem, bv_ := bv_ })

/-- `s.pad(bv, n)`: the padding goes to the cursor of the caller. -/
def padCaller (n : Nat) : Stmt := fun fr =>
  match fr.bv.write fr.mem (List.replicate n 0) with
  | (status, mem, bv) => (status, { fr with mem := mem, bv := bv })

/-- `bv_ += serialize_wire(s, bv_, x).written_view.size()`. -/
def nested (f : Wire) : Stmt := fun fr =>
  match f fr.mem fr.bv_ with
  | (res, mem) => (res.status, { fr with mem := mem, bv_ := fr.bv_.advance res.writtenView.size })

/-- The statements in order; their statuses are dropped. -/
def runStmts (stmts : List Stmt) (fr : Frame) : Frame := stmts.foldl (fun fr stmt => (stmt fr).2) fr

/-- `auto bv_ = bv; …; return {bv(0, bv.size() - bv_.size()), SerializationStatus::Ok}`. -/
def record (stmts : List Stmt) : Wire := fun mem bv =>
  let fr := runStmts stmts ⟨mem, bv, bv⟩
  (⟨fr.bv.subview 0 (fr.bv.size - fr.bv_.size), .ok⟩, fr.mem)

/-- The `serialize_wire` of a record of big-endian words. -/
def writeWords (host : Endian) (xs : List α) : Wire :=
  record (xs.map fun x => write host (be host x))

end

/-- The bytes of the returned view. -/
def writtenBytes (r : SerializationResult × Mem) : List UInt8 :=
  r.2.load r.1.writtenView.data r.1.writtenView.size

/-! ### What is written when there is room -/

/-- With room for `bs`, the statement puts them at `bv_` and moves `bv_` behind them. -/
def Writes (stmt : Stmt) (bs : List UInt8) : Prop :=
  ∀ fr : Frame, bs.length ≤ fr.bv_.size →
    (stmt fr).2 = { fr with mem := fr.mem.store fr.bv_.data bs, bv_ := fr.bv_.advance bs.length }

/-- The same for statements that are performed in order. -/
def WritesAll (stmts : List Stmt) (bs : List UInt8) : Prop :=
  ∀ fr : Frame, bs.length ≤ fr.bv_.size →
    runStmts stmts fr =
      { fr with mem := fr.mem.store fr.bv_.data bs, bv_ := fr.bv_.advance bs.length }

/-- With room for `bs`, the function writes them and returns the view of them. -/
def Emits (f : Wire) (bs : List UInt8) : Prop :=
  ∀ mem bv, bs.length ≤ bv.size →
    f mem bv = (⟨bv.subview 0 bs.length, .ok⟩, mem.store bv.data bs)

section

variable {α β : Type} [Word α] {bs cs : List UInt8} {f : Wire} {stmt : Stmt}
  {stmts stmts' : List Stmt}

theorem runStmts_cons (fr : Frame) : runStmts (stmt :: stmts) fr = runStmts stmts (stmt fr).2 := rfl

theorem runStmts_append (fr : Frame) :
    runStmts (stmts ++ stmts') fr = runStmts stmts' (runStmts stmts fr) := List.foldl_append

theorem View.write_of_le {mem : Mem} {v : View} (h : bs.length ≤ v.size) :
    v.write mem bs = (.ok, mem.store v.data bs, v.advance bs.length) := if_neg (Nat.not_lt.mpr h)

theorem writes_write (host : Endian) (x : α) : Writes (write host x) (Word.bytes host x) := by
  intro fr h
  rw [write, View.write_of_le h]

theorem writes_byte (host : Endian) (x : UInt8) : Writes (write host x) [x] := by
  rw [← Word.bytes_uint8 host x]
  exact writes_write host x

theorem writes_be (host : Endian) (x : α) : Writes (write host (be host x)) (Word.beBytes x) := by
  rw [← Be.bytes_fromNative host]
  exact writes_write host _

theorem writes_pad (n : Nat) : Writes (pad n) (List.replicate n 0) := by
  intro fr h
  rw [pad, View.write_of_le h]

theorem writes_nested (h : Emits f bs) : Writes (nested f) bs := by
  intro fr hsize
  rw [nested, h _ _ hsize]
  dsimp only
  rw [View.size_subview_zero hsize]

namespace WritesAll

theorem nil : WritesAll [] [] := fun fr _ => by simp [runStmts]

theorem cons (h : Writes stmt bs) (hs : WritesAll stmts cs) :
    WritesAll (stmt :: stmts) (bs ++ cs) := by
  intro fr hsize
  rw [List.length_append] at hsize ⊢
  have hle : bs.length ≤ fr.bv_.size := by omega
  have hadv := View.advance_of_le hle
  rw [runStmts_cons, h fr hle, hs _ (by rw [hadv]; dsimp only; omega)]
  dsimp only
  rw [View.advance_advance (by omega), hadv, Mem.store_append]

theorem append (h : WritesAll stmts bs) (h' : WritesAll stmts' cs) :
    WritesAll (stmts ++ stmts') (bs ++ cs) := by
  intro fr hsize
  rw [List.length_append] at hsize ⊢
  have hle : bs.length ≤ fr.bv_.size := by omega
  have hadv := View.advance_of_le hle
  rw [runStmts_append, h fr hle,
    h' _ (by rw [hadv]; dsimp only; omega)]
  dsimp only
  rw [View.advance_advance (by omega), hadv, Mem.store_append]

/-- A loop over `xs`. -/
theorem flatMap {body : β → List Stmt} {enc : β → List UInt8} {xs : List β}
    (h : ∀ x ∈ xs, WritesAll (body x) (enc x)) : WritesAll (xs.flatMap body) (xs.flatMap enc) := by
  induction xs with
  | nil => exact nil
  | cons x xs ih =>
    rw [List.flatMap_cons, List.flatMap_cons]
    exact (h x List.mem_cons_self).append (ih fun y hy => h y (List.mem_cons_of_mem _ hy))

/-- A loop over `xs` with one statement in its body. -/
theorem map {body : β → Stmt} {enc : β → List UInt8} {xs : List β}
    (h : ∀ x ∈ xs, Writes (body x) (enc x)) : WritesAll (xs.map body) (xs.flatMap enc) := by
  rw [← List.flatMap_pure_eq_map]
  apply flatMap
  intro x hx
  show WritesAll [body x] (enc x)
  rw [← List.append_nil (enc x)]
  exact cons (h x hx) nil

theorem map_byte (host : Endian) (xs : List UInt8) :
    WritesAll (xs.map fun byte => write host byte) xs := by
  have h := map fun x (_ : x ∈ xs) => writes_byte host x
  rwa [List.flatMap_singleton'] at h

end WritesAll

/-- A record writes the bytes of its statements. -/
theorem emits_record (h : WritesAll stmts bs) : Emits (record stmts) bs := by
  intro mem bv hsize
  rw [record, h _ hsize]
  dsimp only
  rw [View.advance_of_le hsize]
  congr 3
  dsimp only
  omega

theorem emits_writeWords (host : Endian) (xs : List α) :
    Emits (writeWords host xs) (xs.flatMap Word.beBytes) :=
  emits_record (.map fun x _ => writes_be host x)

theorem Emits.writtenBytes_eq (h : Emits f bs) (mem : Mem) {bv : View} (hsize : bs.length ≤ bv.size)
    (hpos : 0 < bs.length) : writtenBytes (f mem bv) = bs := by
  rw [writtenBytes, h mem bv hsize]
  dsimp only
  rw [View.subview_zero_of_pos hsize hpos]
  exact Mem.load_store _ _ _

theorem record_status {mem : Mem} {bv : View} : (record stmts mem bv).1.status = .ok := rfl

end

/-! ### What does not depend on the host -/

section

variable {α : Type} [Word α] (host host' : Endian)

theorem write_congr {x y : α} (h : Word.bytes host x = Word.bytes host' y) :
    write host x = write host' y := by
  ext fr : 1
  rw [write, write, h]

theorem write_be_host (x : α) : write host (be host x) = write host' (be host' x) :=
  write_congr host host' (by rw [Be.bytes_fromNative, Be.bytes_fromNative])

theorem write_byte_host (x : UInt8) : write host x = write host' x :=
  write_congr host host' (by rw [Word.bytes_uint8, Word.bytes_uint8])

theorem write_of_byteswap {x : α} (h : Word.byteswap x = x) :
    write host x = write host' x := by
  have hbytes := Word.bytes_eq_iff.mpr h
  apply write_congr
  cases host with
  | little =>
    cases host' with
    | little => rfl
    | big => exact hbytes
  | big =>
    cases host' with
    | little => exact hbytes.symm
    | big => rfl

theorem writeWords_host (xs : List α) : writeWords host xs = writeWords host' xs := by
  simp only [writeWords, write_be_host host host']

end

/-! ### Where the cursors go -/

/-- With room for them, the statements move `bv_` by `m` bytes and the cursor of the caller by
`k`, and write nothing below both. -/
def Shifts (stmts : List Stmt) (m k : Nat) : Prop :=
  ∀ fr : Frame, m ≤ fr.bv_.size → k ≤ fr.bv.size →
    (runStmts stmts fr).bv_ = fr.bv_.advance m ∧ (runStmts stmts fr).bv = fr.bv.advance k ∧
      ∀ a, a < fr.bv_.data → a < fr.bv.data → (runStmts stmts fr).mem a = fr.mem a

namespace Shifts

variable {α : Type} {stmts stmts' : List Stmt} {bs : List UInt8} {m k m' k' : Nat}

theorem of_writesAll (h : WritesAll stmts bs) : Shifts stmts bs.length 0 := by
  intro fr hm _
  rw [h fr hm]
  exact ⟨rfl, rfl, fun a ha _ => Mem.store_apply_of_lt ha⟩

theorem padCaller (n : Nat) : Shifts [padCaller n] 0 n := by
  intro fr _ hk
  have hrun : runStmts [Serialization.padCaller n] fr =
      { fr with mem := fr.mem.store fr.bv.data (List.replicate n 0), bv := fr.bv.advance n } := by
    have hlen : (List.replicate n (0 : UInt8)).length ≤ fr.bv.size := by
      rwa [List.length_replicate]
    rw [runStmts_cons, runStmts, List.foldl_nil, Serialization.padCaller, View.write_of_le hlen,
      List.length_replicate]
  rw [hrun]
  exact ⟨rfl, rfl, fun a _ ha => Mem.store_apply_of_lt ha⟩

theorem append (h : Shifts stmts m k) (h' : Shifts stmts' m' k') :
    Shifts (stmts ++ stmts') (m + m') (k + k') := by
  intro fr hm hk
  obtain ⟨hbv_, hbv, hmem⟩ := h fr (by omega) (by omega)
  have hadv_ := View.advance_of_le (show m ≤ fr.bv_.size by omega)
  have hadv := View.advance_of_le (show k ≤ fr.bv.size by omega)
  have hm' : m' ≤ (runStmts stmts fr).bv_.size := by
    rw [hbv_, hadv_]
    dsimp only
    omega
  have hk' : k' ≤ (runStmts stmts fr).bv.size := by
    rw [hbv, hadv]
    dsimp only
    omega
  obtain ⟨hbv_', hbv', hmem'⟩ := h' _ hm' hk'
  rw [runStmts_append, hbv_', hbv', hbv_, hbv, View.advance_advance hm, View.advance_advance hk]
  refine ⟨rfl, rfl, ?_⟩
  intro a ha_ ha
  rw [hmem' a, hmem a ha_ ha]
  · rw [hbv_, hadv_]
    dsimp only
    omega
  · rw [hbv, hadv]
    dsimp only
    omega

theorem flatMap {body : α → List Stmt} {m k : α → Nat} (h : ∀ x, Shifts (body x) (m x) (k x))
    (xs : List α) : Shifts (xs.flatMap body) (xs.map m).sum (xs.map k).sum := by
  induction xs with
  | nil => exact of_writesAll .nil
  | cons x xs ih =>
    rw [List.flatMap_cons, List.map_cons, List.map_cons, List.sum_cons, List.sum_cons]
    exact (h x).append ih

end Shifts

/-! ## Reading -/

/-- Undefined behaviour of a decoder: an access to the value of an `Expected` that holds an
error. -/
inductive Fault where
  | emptyExpected
  deriving DecidableEq, Repr

/-- `expected<T, DeserializationStatus>`. -/
abbrev Expected (α : Type) := Except DeserializationStatus α

/-- `unexpect` leaves the error at its default. -/
def unexpect {α : Type} : Expected α := .error .ok

def Expected.hasValue {α : Type} : Expected α → Bool
  | .ok _ => true
  | .error _ => false

/-- A function of `DirectDeserializer`; the state is what is left of `bv_`. -/
abbrev Get (α : Type) := Parser Fault α

/-- `operator*` and `operator->`. -/
def deref {α : Type} : Expected α → Get α
  | .ok x => pure x
  | .error _ => throw .emptyExpected

/-- `d.read<T>()`. -/
def read (α : Type) [Word α] (host : Endian) : Get (Expected α) := fun bv_ =>
  if Word.width α > bv_.length then .ok (.error .bufferEmpty, bv_)
  else .ok (.ok (Word.ofBytes host (bv_.take (Word.width α))), bv_.drop (Word.width α))

/-- `d.skip(n)`. -/
def skip (n : Nat) : Get (Expected Unit) := fun bv_ =>
  if n > bv_.length then .ok (.error .bufferEmpty, bv_) else .ok (.ok (), bv_.drop n)

/-- The `deserialize_direct` of a record of big-endian words: the values are looked at only when
all of them are read. -/
def readWords (α : Type) [Word α] (host : Endian) : Nat → Get (Expected (List α))
  | 0 => return .ok []
  | n + 1 => do
    let x ← read (Be α) host
    let xs ← readWords α host n
    if !x.hasValue || !xs.hasValue then
      return unexpect
    return .ok ((← deref x).native host :: (← deref xs))

@[simp] theorem hasValue_ok {α : Type} (x : α) : Expected.hasValue (.ok x) = true := rfl

@[simp] theorem deref_ok {α : Type} (x : α) : deref (.ok x) = pure x := rfl

theorem runs_return {α : Type} (x : α) : Runs (pure (.ok x) : Get (Expected α)) [] (.ok x) :=
  Runs.pure _

theorem runs_read {α : Type} [Word α] (host : Endian) {bs : List UInt8}
    (h : bs.length = Word.width α) :
    Runs (read α host) bs (.ok (Word.ofBytes host bs)) := by
  intro rest
  have hlen : ¬ Word.width α > (bs ++ rest).length := by simp [h]
  show read α host (bs ++ rest) = _
  rw [read, if_neg hlen, ← h, List.take_left, List.drop_left]

theorem runs_read_bytes {α : Type} [Word α] (host : Endian) (x : α) :
    Runs (read α host) (Word.bytes host x) (.ok x) := by
  have h := runs_read (α := α) host (Word.length_bytes host x)
  rwa [Word.ofBytes_bytes] at h

theorem runs_read_byte (host : Endian) (x : UInt8) : Runs (read UInt8 host) [x] (.ok x) := by
  rw [← Word.bytes_uint8 host x]
  exact runs_read_bytes host x

theorem run_read_cons (host : Endian) (b : UInt8) (bs : List UInt8) :
    (read UInt8 host).run (b :: bs) = .ok (.ok b, bs) := runs_read_byte host b bs

theorem drop_eq_getD_cons {bs : List UInt8} {n : Nat} (h : n < bs.length) :
    bs.drop n = bs.getD n 0 :: bs.drop (n + 1) := by
  rw [List.getD_eq_getElem?_getD, List.getElem?_eq_getElem h]
  exact List.drop_eq_getElem_cons h

theorem run_read_byte_at (host : Endian) {bs : List UInt8} {n : Nat} (h : n < bs.length) :
    (read UInt8 host).run (bs.drop n) = .ok (.ok (bs.getD n 0), bs.drop (n + 1)) := by
  rw [drop_eq_getD_cons h]
  exact run_read_cons host _ _

theorem runs_read_be {α : Type} [Word α] (host : Endian) (x : α) :
    Runs (read (Be α) host) (Word.beBytes x) (.ok (be host x)) := by
  rw [← Be.bytes_fromNative host]
  exact runs_read_bytes host _

theorem runs_readWords {α : Type} [Word α] (host : Endian) (xs : List α) :
    Runs (readWords α host xs.length) (xs.flatMap Word.beBytes) (.ok xs) := by
  induction xs with
  | nil => exact runs_return []
  | cons x xs ih =>
    rw [List.flatMap_cons, ← List.append_nil (xs.flatMap _)]
    refine (runs_read_be host x).bind <| ih.bind ?_
    simpa using runs_return (x :: xs)

theorem runs_skip_of_length {n : Nat} {bs : List UInt8} (h : bs.length = n) :
    Runs (skip n) bs (.ok ()) := by
  intro rest
  have hle : ¬ n > (bs ++ rest).length := by
    rw [List.length_append]
    omega
  show skip n (bs ++ rest) = _
  rw [skip, if_neg hle, List.drop_left' h]

/-- The padding that `pad` writes is skipped. -/
theorem runs_skip (n : Nat) : Runs (skip n) (List.replicate n 0) (.ok ()) :=
  runs_skip_of_length List.length_replicate

/-- A big-endian word in the middle of a string. -/
theorem run_read_be_at (α : Type) [Word α] (host : Endian) {bs : List UInt8} {n : Nat}
    (h : n + Word.width α ≤ bs.length) :
    (read (Be α) host).run (bs.drop n) =
      .ok (.ok (be host (Word.beAt α bs n)), bs.drop (n + Word.width α)) := by
  have hlen : ((bs.drop n).take (Word.width α)).length = Word.width α := by
    rw [List.length_take, List.length_drop]
    omega
  have hbytes := Word.beBytes_ofBytes (α := α) hlen
  have hrun := runs_read_be host (Word.beAt α bs n) ((bs.drop n).drop (Word.width α))
  rwa [Word.beAt, hbytes, List.take_append_drop, List.drop_drop] at hrun

theorem run_skip_drop {bs : List UInt8} {m n : Nat} (h : m + n ≤ bs.length) :
    (skip n).run (bs.drop m) = .ok (.ok (), bs.drop (m + n)) := by
  have hle : ¬ n > (bs.drop m).length := by
    rw [List.length_drop]
    omega
  show skip n (bs.drop m) = _
  rw [skip, if_neg hle, List.drop_drop]

/-! ### What a value tells -/

theorem takes_read {α : Type} [Word α] {host : Endian} : Takes (read α host) (Word.width α) := by
  intro bs rest x h
  change read α host bs = _ at h
  rw [read] at h
  split at h
  · cases h
  · cases h
    rw [List.length_drop]
    omega

theorem run_read_byte {host : Endian} {bs rest : List UInt8} {b : UInt8}
    (h : (read UInt8 host).run bs = .ok (.ok b, rest)) : bs = b :: rest := by
  have hlen := takes_read h
  obtain ⟨c, bs, rfl⟩ : ∃ c cs, bs = c :: cs :=
    List.exists_cons_of_length_pos (by rw [hlen, Word.width_uint8]; omega)
  have hrun := runs_read_byte host c bs
  rw [List.singleton_append, h] at hrun
  cases hrun
  rfl

theorem run_read_of_lt {α : Type} [Word α] (host : Endian) {bs : List UInt8}
    (h : bs.length < Word.width α) : (read α host).run bs = .ok (.error .bufferEmpty, bs) := by
  show read α host bs = _
  rw [read, if_pos h]

theorem run_read_skipped (α : Type) [Word α] (host : Endian) (bs : List UInt8) :
    ∃ r, (read α host).run bs = .ok (r, skipped (Word.width α) bs) := by
  show ∃ r, read α host bs = _
  rw [read, skipped, leave]
  by_cases h : Word.width α ≤ bs.length
  · rw [if_neg (Nat.not_lt.mpr h), if_pos h]
    exact ⟨_, rfl⟩
  · rw [if_pos (Nat.not_le.mp h), if_neg h]
    exact ⟨_, rfl⟩

theorem run_skip_skipped (n : Nat) (bs : List UInt8) :
    ∃ r, (skip n).run bs = .ok (r, skipped n bs) := by
  show ∃ r, skip n bs = _
  rw [skip, skipped, leave]
  by_cases h : n ≤ bs.length
  · rw [if_neg (Nat.not_lt.mpr h), if_pos h]
    exact ⟨_, rfl⟩
  · rw [if_pos (Nat.not_le.mp h), if_neg h]
    exact ⟨_, rfl⟩

/-- A read whose result is dropped takes its bytes or finds fewer of them. -/
theorem length_of_read {α : Type} [Word α] {host : Endian} {bs rest : List UInt8} {r : Expected α}
    (h : (read α host).run bs = .ok (r, rest)) :
    r.hasValue ∧ bs.length = Word.width α + rest.length ∨
      rest = bs ∧ bs.length < Word.width α := by
  change read α host bs = _ at h
  rw [read] at h
  split at h
  · cases h
    exact Or.inr ⟨rfl, by assumption⟩
  · cases h
    refine Or.inl ⟨rfl, ?_⟩
    rw [List.length_drop]
    omega

theorem length_of_skip {n : Nat} {bs rest : List UInt8} {r : Expected Unit}
    (h : (skip n).run bs = .ok (r, rest)) :
    bs.length = n + rest.length ∨ rest = bs ∧ bs.length < n := by
  change skip n bs = _ at h
  rw [skip] at h
  split at h
  · cases h
    exact Or.inr ⟨rfl, by assumption⟩
  · cases h
    rw [List.length_drop]
    omega

theorem not_hasValue_eq_false {α : Type} {r : Expected α} :
    (!r.hasValue) = false ↔ ∃ x, r = .ok x := by
  cases r with
  | error e => simp [Expected.hasValue]
  | ok x => simp [Expected.hasValue]

theorem run_unexpect_ne_ok {α : Type} {bs rest : List UInt8} {x : α} :
    ¬ (pure unexpect : Get (Expected α)).run bs = .ok (.ok x, rest) := by
  rw [Parser.run_pure_eq_ok]
  exact fun h => nomatch h.1

/-- Behind the check of a decoder all the checked results have values. -/
theorem run_check_eq_ok {α : Type} {c : Bool} {k : Get (Expected α)} {bs rest : List UInt8}
    {x : α} :
    (if c = true then pure unexpect else k).run bs = .ok (.ok x, rest) ↔
      c = false ∧ k.run bs = .ok (.ok x, rest) := by
  cases c with
  | false => simp
  | true => exact ⟨fun h => absurd h run_unexpect_ne_ok, fun h => nomatch h.1⟩

theorem takes_readWords {α : Type} [Word α] {host : Endian} {n : Nat} :
    Takes (readWords α host n) (n * Word.width α) := by
  induction n with
  | zero =>
    intro bs rest xs h
    rw [readWords, Parser.run_pure_eq_ok] at h
    rw [h.2, Nat.zero_mul, Nat.zero_add]
  | succ n ih =>
    intro bs rest xs h
    simp only [readWords, Parser.run_bind_eq_ok, run_check_eq_ok, Bool.or_eq_false_iff,
      not_hasValue_eq_false] at h
    obtain ⟨_, _, hx, _, _, hxs, ⟨⟨_, rfl⟩, _, rfl⟩, h⟩ := h
    simp only [deref_ok, Parser.run_pure_eq_ok, and_assoc, exists_and_left, exists_eq_left'] at h
    obtain ⟨-, rfl⟩ := h
    rw [takes_read hx, ih hxs, Nat.succ_mul, Be.width_be]
    omega

/-! ### Decoders without faults -/

/-- What a decoder may return: a value, or `unexpect`. -/
def Reported {α : Type} (r : Expected α) : Prop := r = unexpect ∨ ∃ x, r = .ok x

theorem reported_unexpect {α : Type} : Reported (unexpect : Expected α) := Or.inl rfl

theorem reported_ok {α : Type} (x : α) : Reported (.ok x) := Or.inr ⟨x, rfl⟩

theorem returns_read (α : Type) [Word α] (host : Endian) :
    Returns (read α host) fun _ => True := by
  intro bs
  show ∃ r rest, read α host bs = _ ∧ _
  rw [read]
  split
  · exact ⟨_, _, rfl, trivial⟩
  · exact ⟨_, _, rfl, trivial⟩

theorem returns_skip (n : Nat) : Returns (skip n) fun _ => True := by
  intro bs
  show ∃ r rest, skip n bs = _ ∧ _
  rw [skip]
  split
  · exact ⟨_, _, rfl, trivial⟩
  · exact ⟨_, _, rfl, trivial⟩

/-- Behind the check of a decoder the checked results may be looked at. -/
theorem returns_check {α : Type} {c : Bool} {k : Get (Expected α)}
    (h : c = false → Returns k Reported) :
    Returns (if c = true then pure unexpect else k) Reported := by
  cases c with
  | false => simpa using h rfl
  | true => exact returns_pure reported_unexpect

/-! ### How far a reader gets -/

/-- The reader takes at least `n` bytes, or leaves fewer than eight of them: a word that cannot
be read is at most eight bytes wide. -/
def Drains {α : Type} (g : Get α) (n : Nat) : Prop :=
  ∀ bs, ∃ a rest, g.run bs = .ok (a, rest) ∧ rest.length ≤ bs.length ∧
    (n + rest.length ≤ bs.length ∨ rest.length < 8)

/-- On fewer than `n` bytes the decoder reports an error. -/
def Starved {α : Type} (g : Get (Expected α)) (n : Nat) : Prop :=
  ∀ bs, bs.length < n → ∃ rest, g.run bs = .ok (unexpect, rest)

/-- Where there are `n` bytes the reader takes them and has a value. -/
def Reads {α : Type} (g : Get (Expected α)) (n : Nat) : Prop :=
  ∀ bs, n ≤ bs.length → ∃ x, g.run bs = .ok (.ok x, bs.drop n)

section

variable {α β : Type} {m n : Nat}

theorem Drains.returns {g : Get α} (h : Drains g n) : Returns g fun _ => True := by
  intro bs
  obtain ⟨a, rest, hrun, _⟩ := h bs
  exact ⟨a, rest, hrun, trivial⟩

theorem Drains.bind {g : Get α} {f : α → Get β} (hle : n ≤ m) (hg : Drains g n)
    (hf : ∀ a, Drains (f a) (m - n)) : Drains (g >>= f) m := by
  intro bs
  obtain ⟨a, mid, hrun, hle, htaken⟩ := hg bs
  obtain ⟨b, rest, hrun', hle', htaken'⟩ := hf a mid
  exact ⟨b, rest, (Parser.run_bind_of_ok hrun).trans hrun', by omega, by omega⟩

theorem drains_pure (a : α) : Drains (pure a) 0 :=
  fun bs => ⟨a, bs, rfl, Nat.le_refl _, Or.inl (Nat.le_of_eq (Nat.zero_add _))⟩

theorem drains_check {c : Bool} {k : Get (Expected α)} (h : c = false → Drains k 0) :
    Drains (if c = true then pure unexpect else k) 0 := by
  cases c with
  | false => simpa using h rfl
  | true => exact drains_pure _

theorem drains_read (α : Type) [Word α] (host : Endian) (h : Word.width α ≤ 8) :
    Drains (read α host) (Word.width α) := by
  intro bs
  show ∃ r rest, read α host bs = _ ∧ _
  rw [read]
  split
  · rename_i hlt
    exact ⟨_, _, rfl, Nat.le_refl _, Or.inr (by omega)⟩
  · refine ⟨_, _, rfl, ?_, ?_⟩
    · rw [List.length_drop]
      omega
    · rw [List.length_drop]
      omega

/-- A reader in front of a decoder that needs eight bytes or more. -/
theorem Starved.bind {g : Get α} {f : α → Get (Expected β)} (hle : n + 8 ≤ m) (hg : Drains g n)
    (hf : ∀ a, Starved (f a) (m - n)) : Starved (g >>= f) m := by
  intro bs hlen
  obtain ⟨a, mid, hrun, hmid, htaken⟩ := hg bs
  obtain ⟨rest, hrun'⟩ := hf a mid (by omega)
  exact ⟨rest, (Parser.run_bind_of_ok hrun).trans hrun'⟩

theorem Reads.bind {g : Get (Expected α)} {f : Expected α → Get (Expected β)} (hle : n ≤ m)
    (hg : Reads g n) (hf : ∀ x, Reads (f (.ok x)) (m - n)) : Reads (g >>= f) m := by
  intro bs hlen
  obtain ⟨x, hrun⟩ := hg bs (by omega)
  obtain ⟨y, hrun'⟩ := hf x (bs.drop n) (by rw [List.length_drop]; omega)
  rw [List.drop_drop, Nat.add_sub_cancel' hle] at hrun'
  exact ⟨y, (Parser.run_bind_of_ok hrun).trans hrun'⟩

theorem Reads.run_drop {g : Get (Expected α)} (hg : Reads g n) {bs : List UInt8}
    (h : m + n ≤ bs.length) : ∃ x, g.run (bs.drop m) = .ok (.ok x, bs.drop (m + n)) := by
  obtain ⟨x, hrun⟩ := hg (bs.drop m) (by rw [List.length_drop]; omega)
  rw [List.drop_drop] at hrun
  exact ⟨x, hrun⟩

theorem Reads.run_many {g : Get (Expected α)} (hg : Reads g m) {bs : List UInt8}
    (h : n * m ≤ bs.length) :
    ∃ xs, xs.length = n ∧ (Parser.many g n).run bs = .ok (some xs, bs.drop (n * m)) := by
  induction n generalizing bs with
  | zero => exact ⟨[], rfl, by rw [Nat.zero_mul]; rfl⟩
  | succ n ih =>
    rw [Nat.succ_mul] at h
    have hdrop : (bs.drop m).length = bs.length - m := List.length_drop
    obtain ⟨x, hx⟩ := hg bs (by omega)
    obtain ⟨xs, hlen, hxs⟩ := ih (show n * m ≤ (bs.drop m).length by omega)
    refine ⟨x :: xs, by rw [List.length_cons, hlen], ?_⟩
    rw [Parser.many, Parser.run_bind_of_ok hx]
    show (Parser.many g n >>= _).run _ = _
    rw [Parser.run_bind_of_ok hxs, List.drop_drop, Nat.succ_mul, Nat.add_comm m]
    rfl

/-- A continuation that may return early, when the first reader has no value. -/
theorem Drains.bind_of_reads {g : Get (Expected α)} {f : Expected α → Get β} (hg : Drains g n)
    (hr : Reads g n) (hle : n ≤ m) (hok : ∀ x, Drains (f (.ok x)) (m - n))
    (herror : ∀ e, Drains (f (.error e)) 0) : Drains (g >>= f) m := by
  intro bs
  by_cases hlen : n ≤ bs.length
  · obtain ⟨x, hrun⟩ := hr bs hlen
    obtain ⟨b, rest, hrun', hle', htaken⟩ := hok x (bs.drop n)
    rw [List.length_drop] at hle' htaken
    exact ⟨b, rest, (Parser.run_bind_of_ok hrun).trans hrun', by omega, by omega⟩
  · obtain ⟨r, mid, hrun, hmid, htaken⟩ := hg bs
    obtain ⟨b, rest, hrun', hrest⟩ : ∃ b rest, (f r).run mid = .ok (b, rest) ∧
        rest.length ≤ mid.length := by
      cases r with
      | ok x =>
        obtain ⟨b, rest, hrun', hle', _⟩ := hok x mid
        exact ⟨b, rest, hrun', hle'⟩
      | error e =>
        obtain ⟨b, rest, hrun', hle', _⟩ := herror e mid
        exact ⟨b, rest, hrun', hle'⟩
    exact ⟨b, rest, (Parser.run_bind_of_ok hrun).trans hrun', by omega, by omega⟩

theorem reads_return (x : α) : Reads (pure (.ok x)) 0 := fun _ _ => ⟨x, rfl⟩

theorem reads_read (α : Type) [Word α] (host : Endian) : Reads (read α host) (Word.width α) := by
  intro bs h
  refine ⟨Word.ofBytes host (bs.take (Word.width α)), ?_⟩
  show read α host bs = _
  rw [read, if_neg (Nat.not_lt.mpr h)]

/-- A decoder of a fixed size. -/
theorem Reads.leaves {g : Get (Expected α)} (hg : Reads g n) (ht : Takes g n) :
    Leaves g (leave n) := by
  intro bs rest
  rw [leave_eq_some]
  constructor
  · intro ⟨x, hrun⟩
    have hlen := ht hrun
    have hle : n ≤ bs.length := by omega
    obtain ⟨y, hread⟩ := hg bs hle
    rw [hrun] at hread
    cases hread
    exact ⟨hle, rfl⟩
  · rintro ⟨hle, rfl⟩
    exact hg bs hle

/-- A decoder that goes on behind a list. -/
theorem run_many_bind_eq_ok {g : Get (Expected α)} {f : Option (List α) → Get (Expected β)}
    {bs rest : List UInt8} {y : β} (hnone : f none = pure unexpect) :
    (Parser.many g n >>= f).run bs = .ok (.ok y, rest) ↔
      ∃ xs mid, (Parser.many g n).run bs = .ok (some xs, mid) ∧
        (f (some xs)).run mid = .ok (.ok y, rest) := by
  constructor
  · intro h
    obtain ⟨xs, mid, hxs, h⟩ := Parser.run_bind_eq_ok.mp h
    cases xs with
    | none =>
      rw [hnone] at h
      exact absurd h run_unexpect_ne_ok
    | some xs => exact ⟨xs, mid, hxs, h⟩
  · intro ⟨xs, mid, hxs, h⟩
    rwa [Parser.run_bind_of_ok hxs]

/-- The end of a decoder that collects a list. -/
theorem run_many_iff {g : Get (Expected α)} {cut : List UInt8 → Option (List UInt8)}
    (hg : Leaves g cut) {f : Option (List α) → Get (Expected β)} {bs rest : List UInt8}
    (hnone : f none = pure unexpect) (hsome : ∀ xs, ∃ y, f (some xs) = pure (.ok y)) :
    (∃ x, (Parser.many g n >>= f).run bs = .ok (.ok x, rest)) ↔
      leaveMany cut n bs = some rest := by
  simp only [← hg.many, run_many_bind_eq_ok hnone]
  constructor
  · intro ⟨x, xs, mid, hxs, h⟩
    obtain ⟨y, hy⟩ := hsome xs
    rw [hy] at h
    obtain ⟨-, rfl⟩ := Parser.run_pure_eq_ok.mp h
    exact ⟨xs, hxs⟩
  · intro ⟨xs, hxs⟩
    obtain ⟨y, hy⟩ := hsome xs
    exact ⟨y, xs, rest, hxs, by rw [hy]; rfl⟩

/-- The same where a decoder goes on; `P` says on which strings it has a value there. -/
theorem run_many_bind_iff {g : Get (Expected α)} {cut : List UInt8 → Option (List UInt8)}
    (hg : Leaves g cut) {f : Option (List α) → Get (Expected β)} {bs : List UInt8}
    {P : List UInt8 → Prop} (hnone : f none = pure unexpect)
    (hsome : ∀ xs mid, (∃ x rest, (f (some xs)).run mid = .ok (.ok x, rest)) ↔ P mid) :
    (∃ x rest, (Parser.many g n >>= f).run bs = .ok (.ok x, rest)) ↔
      ∃ mid, leaveMany cut n bs = some mid ∧ P mid := by
  simp only [← hg.many, run_many_bind_eq_ok hnone]
  constructor
  · intro ⟨x, rest, xs, mid, hxs, h⟩
    exact ⟨mid, ⟨xs, hxs⟩, (hsome xs mid).mp ⟨x, rest, h⟩⟩
  · intro ⟨mid, ⟨xs, hxs⟩, hP⟩
    obtain ⟨x, rest, h⟩ := (hsome xs mid).mpr hP
    exact ⟨x, rest, xs, mid, hxs, h⟩

theorem run_many_isSome_iff {g : Get (Expected α)} {cut : List UInt8 → Option (List UInt8)}
    (hg : Leaves g cut) {f : Option (List α) → Get (Expected β)} {bs : List UInt8}
    (hnone : f none = pure unexpect) (hsome : ∀ xs, ∃ y, f (some xs) = pure (.ok y)) :
    (∃ x rest, (Parser.many g n >>= f).run bs = .ok (.ok x, rest)) ↔
      (leaveMany cut n bs).isSome := by
  rw [exists_comm, Option.isSome_iff_exists]
  exact exists_congr fun rest => run_many_iff hg hnone hsome

theorem drains_readWords (α : Type) [Word α] (host : Endian) (h : Word.width α ≤ 8) :
    Drains (readWords α host n) (n * Word.width α) := by
  induction n with
  | zero =>
    rw [Nat.zero_mul]
    exact drains_pure _
  | succ n ih =>
    have hhead : Drains (read (Be α) host) (Word.width α) := drains_read (Be α) host h
    have hsize : (n + 1) * Word.width α - Word.width α = n * Word.width α := by
      rw [Nat.succ_mul, Nat.add_sub_cancel]
    apply Drains.bind (by rw [Nat.succ_mul]; omega) hhead
    intro x
    rw [hsize]
    apply ih.bind (Nat.le_refl _)
    intro xs
    rw [Nat.sub_self]
    apply drains_check
    intro h
    simp only [Bool.or_eq_false_iff, not_hasValue_eq_false] at h
    obtain ⟨⟨x, rfl⟩, xs, rfl⟩ := h
    exact drains_pure _

theorem run_readWords {α : Type} [Word α] (host : Endian) {bs : List UInt8}
    (h : n * Word.width α ≤ bs.length) :
    ∃ xs : List α, xs.length = n ∧
      (readWords α host n).run bs = .ok (.ok xs, bs.drop (n * Word.width α)) := by
  induction n generalizing bs with
  | zero => exact ⟨[], rfl, by rw [Nat.zero_mul]; rfl⟩
  | succ n ih =>
    rw [Nat.succ_mul] at h
    obtain ⟨x, hx⟩ := reads_read (Be α) host bs (by rw [Be.width_be]; omega)
    rw [Be.width_be] at hx
    obtain ⟨xs, hlen, hxs⟩ := ih (show n * Word.width α ≤ (bs.drop (Word.width α)).length by
      rw [List.length_drop]
      omega)
    have hdrop : (bs.drop (Word.width α)).drop (n * Word.width α) =
        bs.drop ((n + 1) * Word.width α) := by
      rw [List.drop_drop, Nat.succ_mul, Nat.add_comm]
    refine ⟨x.native host :: xs, by rw [List.length_cons, hlen], ?_⟩
    rw [readWords, Parser.run_bind_of_ok hx, Parser.run_bind_of_ok hxs, hdrop]
    rfl

end

end Csics.Serialization
