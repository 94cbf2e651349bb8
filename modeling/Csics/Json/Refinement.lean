import Csics.Json.Emission

/-!
# The serializer refines its emissions

While the serializer runs, the buffer starts with the text that is written so far and the
cursor stands behind it. `Appends` says that an operation appends a string if it fits and
leaves the buffer otherwise, `Refines` that an operation follows an emission.
-/

namespace Csics.Json

open Base Serialization

/-! ## The text in the buffer -/

/-- The cursor behind `n` bytes. -/
def cursor (buf : View) (n : Nat) : View := ⟨buf.data + n, buf.size - n⟩

/-- The buffer starts with the text. -/
structure Holds (buf : View) (text : List UInt8) (mem : Mem) : Prop where
  le : text.length ≤ buf.size
  load : mem.load buf.data text.length = text

section

variable {buf : View} {text bs cs : List UInt8} {mem : Mem}

@[simp] theorem size_cursor (buf : View) (n : Nat) : (cursor buf n).size = buf.size - n := rfl

theorem cursor_advance {m n : Nat} (h : m + n ≤ buf.size) :
    (cursor buf m).advance n = cursor buf (m + n) := by
  rw [View.advance_of_le (by dsimp only [cursor]; omega), cursor, cursor]
  dsimp only
  rw [Nat.add_assoc, Nat.sub_sub]

/-- The cursor moves behind what is appended. -/
theorem Holds.cursor_advance (h : Holds buf (text ++ bs) mem) {n : Nat} (hn : bs.length = n) :
    (cursor buf text.length).advance n = cursor buf (text ++ bs).length := by
  have hle := h.le
  rw [List.length_append] at hle ⊢
  rw [← hn]
  exact Json.cursor_advance hle

theorem Holds.nil (buf : View) (mem : Mem) : Holds buf [] mem := ⟨Nat.zero_le _, rfl⟩

/-- Bytes behind the text do not matter. -/
theorem Holds.store (h : Holds buf text mem) (bs : List UInt8) :
    Holds buf text (mem.store (buf.data + text.length) bs) := by
  refine ⟨h.le, ?_⟩
  rw [Mem.load_store_of_disjoint (Or.inl (Nat.le_refl _)), h.load]

/-- Bytes that are stored behind the text extend it. -/
theorem Holds.append (h : Holds buf text mem) (hle : text.length + bs.length ≤ buf.size) :
    Holds buf (text ++ bs) (mem.store (buf.data + text.length) bs) := by
  refine ⟨by rwa [List.length_append], ?_⟩
  rw [List.length_append, Mem.load_add, (h.store bs).load, Mem.load_store]

theorem Holds.of_append (h : Holds buf (text ++ bs) mem) : Holds buf text mem := by
  have hle := h.le
  have hload := h.load
  rw [List.length_append] at hle hload
  rw [Mem.load_add] at hload
  exact ⟨by omega, List.append_inj_left hload (Mem.length_load _ _ _)⟩

theorem Holds.last {c : UInt8} (h : Holds buf (text ++ [c]) mem) :
    mem (buf.data + text.length) = c := by
  have hload := h.load
  rw [List.length_append, Mem.load_add, List.length_singleton] at hload
  have hlast := List.append_inj_right hload (Mem.length_load _ _ _)
  rw [Mem.load_succ, Mem.load_zero] at hlast
  exact (List.cons.inj hlast).1

end

/-! ## Operations that append -/

/-- From the text the operation goes on to `text ++ bs` if this fits, and faults otherwise; `f`
says what it returns at a cursor. -/
def Appends {α : Type} (buf : View) (text bs : List UInt8) (stack : List JSONState) (f : View → α)
    (r : Option (α × State)) : Prop :=
  if text.length + bs.length ≤ buf.size then
    ∃ mem, r = some (f (cursor buf (text.length + bs.length)), ⟨mem, stack⟩) ∧
      Holds buf (text ++ bs) mem
  else r = none

section

variable {α β : Type} {buf : View} {text bs cs : List UInt8} {mem : Mem}
  {stack stack' : List JSONState} {f : View → α} {g : View → β}

theorem run_bind_some {x : Ser α} {k : α → Ser β} {s s' : State} {a : α}
    (h : x.run s = some (a, s')) : (x >>= k).run s = (k a).run s' := by
  rw [StateT.run_bind, h]
  rfl

theorem run_bind_none {x : Ser α} {k : α → Ser β} {s : State} (h : x.run s = none) :
    (x >>= k).run s = none := by
  rw [StateT.run_bind, h]
  rfl

theorem run_put (h : Holds buf text mem) (bs : List UInt8) (stack : List JSONState) :
    (put buf (cursor buf text.length) bs).run ⟨mem, stack⟩ =
      if text.length + bs.length ≤ buf.size then
        some ((), ⟨mem.store (buf.data + text.length) bs, stack⟩) else none := by
  show put buf (cursor buf text.length) bs ⟨mem, stack⟩ = _
  have hle := h.le
  have hiff : (bs = [] ∨ buf.data ≤ (cursor buf text.length).data ∧
      (cursor buf text.length).data + bs.length ≤ buf.data + buf.size) ↔
      text.length + bs.length ≤ buf.size := by
    dsimp only [cursor]
    refine ⟨?_, fun hfits => Or.inr (by omega)⟩
    rintro (rfl | hfits)
    · exact hle
    · omega
  simp only [put, hiff]
  rfl

theorem appends_put (h : Holds buf text mem) :
    Appends buf text bs stack (fun _ => ())
      ((put buf (cursor buf text.length) bs).run ⟨mem, stack⟩) := by
  rw [Appends, run_put h bs stack]
  by_cases hle : text.length + bs.length ≤ buf.size
  · rw [if_pos hle, if_pos hle]
    exact ⟨_, rfl, h.append hle⟩
  · rw [if_neg hle, if_neg hle]

namespace Appends

theorem bind {x : Ser α} {k : α → Ser β} {s : State}
    (hx : Appends buf text bs stack f (x.run s))
    (hk : ∀ mem, Holds buf (text ++ bs) mem →
      Appends buf (text ++ bs) cs stack' g
        ((k (f (cursor buf (text ++ bs).length))).run ⟨mem, stack⟩)) :
    Appends buf text (bs ++ cs) stack' g ((x >>= k).run s) := by
  unfold Appends at hx ⊢
  by_cases hle : text.length + bs.length ≤ buf.size
  · rw [if_pos hle] at hx
    obtain ⟨mem, hrun, hmem⟩ := hx
    have hk := hk mem hmem
    rw [run_bind_some hrun, ← List.length_append]
    unfold Appends at hk
    rw [List.append_assoc] at hk
    simpa only [List.length_append, Nat.add_assoc] using hk
  · rw [if_neg hle] at hx
    rw [List.length_append, if_neg (by omega)]
    exact run_bind_none hx

theorem pure (h : Holds buf text mem) :
    Appends buf text [] stack f
      ((Pure.pure (f (cursor buf text.length)) : Ser α).run ⟨mem, stack⟩) := by
  rw [Appends, List.length_nil, Nat.add_zero, if_pos h.le, List.append_nil]
  exact ⟨mem, rfl, h⟩

/-- A continuation that only returns a cursor. -/
theorem bind_return {x : Ser α} {k : α → Ser β} {s : State}
    (hx : Appends buf text bs stack f (x.run s))
    (hk : text.length + bs.length ≤ buf.size →
      k (f (cursor buf (text.length + bs.length))) =
        Pure.pure (g (cursor buf (text.length + bs.length)))) :
    Appends buf text bs stack g ((x >>= k).run s) := by
  unfold Appends at hx ⊢
  by_cases hle : text.length + bs.length ≤ buf.size
  · rw [if_pos hle] at hx ⊢
    obtain ⟨mem, hrun, hmem⟩ := hx
    rw [run_bind_some hrun, hk hle]
    exact ⟨mem, rfl, hmem⟩
  · rw [if_neg hle] at hx ⊢
    exact run_bind_none hx

/-- Storing bytes and returning the cursor behind them. -/
theorem put_advance (h : Holds buf text mem) :
    Appends buf text bs stack f ((do
      put buf (cursor buf text.length) bs
      return f ((cursor buf text.length).advance bs.length) : Ser α).run ⟨mem, stack⟩) :=
  (appends_put h).bind_return fun hle => by rw [cursor_advance hle]

end Appends

theorem appends_escapeChar (p : Platform) (h : Holds buf text mem) (c : UInt8) :
    Appends buf text (escape p c) stack id
      ((escapeChar p buf (cursor buf text.length) c).run ⟨mem, stack⟩) := by
  unfold escapeChar escape
  split
  · exact Appends.put_advance h
  · split
    · cases shortEscape c with
      | some e => exact Appends.put_advance h
      | none => exact Appends.put_advance h
    · apply (appends_put h).bind_return
      intro hle
      rw [List.length_singleton] at hle ⊢
      rw [View.increment, cursor, if_neg (by dsimp only; omega), cursor]
      dsimp only
      rw [Nat.add_assoc, Nat.sub_sub]
      rfl

theorem appends_escapeString (p : Platform) (h : Holds buf text mem) (str : List UInt8) :
    Appends buf text (str.flatMap (escape p)) stack id
      ((str.foldlM (escapeChar p buf) (cursor buf text.length)).run ⟨mem, stack⟩) := by
  induction str generalizing text mem with
  | nil => exact Appends.pure h
  | cons c str ih =>
    rw [List.flatMap_cons, List.foldlM_cons]
    exact (appends_escapeChar p h c).bind fun mem' h' => ih h'

theorem appends_finish (h : Holds buf text mem) {n : Nat} (hn : text.length = bs.length + n) :
    Appends buf text [comma] stack (Prod.mk .ok)
      ((finish buf (cursor buf bs.length) n).run ⟨mem, stack⟩) := by
  have hle := h.le
  rw [finish, cursor_advance (by omega), ← hn]
  exact Appends.put_advance h

theorem run_peek {c : UInt8} (h : Holds buf (text ++ [c]) mem) :
    (peek buf (cursor buf (text.length + 1))).run ⟨mem, stack⟩ = some (c, ⟨mem, stack⟩) := by
  have hle := h.le
  rw [List.length_append, List.length_singleton] at hle
  have hlast : mem ((cursor buf (text.length + 1)).data - 1) = c := by
    rw [← h.last]
    congr 1
  show peek buf (cursor buf (text.length + 1)) ⟨mem, stack⟩ = _
  rw [peek, if_pos (by dsimp only [cursor]; omega)]
  dsimp only
  rw [hlast]

/-- What a key follows: not a closing brace or bracket. -/
def keyFollows : List UInt8 := [lbrace, lbracket, comma, colon]

theorem appends_key (p : Platform) (h : Holds buf text mem) (hends : EndsIn keyFollows text)
    (name : List UInt8) :
    Appends buf text (keyText p name) stack (Prod.mk .ok)
      ((key p buf (cursor buf text.length) name).run ⟨mem, stack⟩) := by
  obtain ⟨init, c, rfl, hmem⟩ := hends
  have hc : ¬ (c = rbrace ∨ c = rbracket) := by
    rintro (rfl | rfl) <;> revert hmem <;> decide
  have hlen : (init ++ [c]).length = init.length + 1 := List.length_append
  rw [key, hlen, run_bind_some (run_peek h), ← hlen]
  simp only [if_neg hc]
  have htext : keyText p name = [quote] ++ (name.flatMap (escape p) ++ [quote, colon]) := by
    simp [keyText, quoted]
  rw [htext]
  apply (appends_put h).bind
  intro mem' h'
  rw [h'.cursor_advance List.length_singleton]
  apply (appends_escapeString p h' name).bind
  intro mem' h'
  exact Appends.put_advance h'

/-! ## Operations that follow an emission -/

/-- From the text the operation goes on as the emission says; `f` says what it returns for a
status and at a cursor. -/
def Refines {α : Type} (buf : View) (text : List UInt8) (stack : List JSONState)
    (f : SerializationStatus → View → α) (e : Option Emission) (r : Option (α × State)) : Prop :=
  match e with
  | none => r = none
  | some e => ∃ mem, r = some (f e.status (cursor buf (text.length + e.out.length)),
      ⟨mem, e.leftover ++ stack⟩) ∧ Holds buf (text ++ e.out) mem

theorem Refines.bind {x : Ser α} {k : α → Ser β} {s : State} {f : SerializationStatus → View → α}
    {g : SerializationStatus → View → β} {e : Option Emission} {c : Emission → Option Emission}
    {text' : List UInt8} (hx : Refines buf text stack f e (x.run s))
    (hk : ∀ m mem, e = some m → Holds buf (text ++ m.out) mem →
      Refines buf text' stack' g (c m)
        ((k (f m.status (cursor buf (text ++ m.out).length))).run ⟨mem, m.leftover ++ stack⟩)) :
    Refines buf text' stack' g (e.bind c) ((x >>= k).run s) := by
  cases e with
  | none => exact run_bind_none hx
  | some m =>
    obtain ⟨mem, hrun, hmem⟩ := hx
    rw [← List.length_append] at hrun
    rw [run_bind_some hrun]
    exact hk m mem rfl hmem

/-- A continuation that only returns. -/
theorem Refines.bind_return {x : Ser α} {k : α → Ser β} {s : State}
    {f : SerializationStatus → View → α} {g : SerializationStatus → View → β}
    {e : Option Emission} (hx : Refines buf text stack f e (x.run s))
    (hk : ∀ m bv, e = some m → k (f m.status bv) = Pure.pure (g m.status bv)) :
    Refines buf text stack g e ((x >>= k).run s) := by
  cases e with
  | none => exact run_bind_none hx
  | some m =>
    obtain ⟨mem, hrun, hmem⟩ := hx
    refine ⟨mem, ?_, hmem⟩
    rw [run_bind_some hrun, hk m _ rfl]
    rfl

/-- The text and the stack of an emission, seen from further back. -/
theorem Refines.after {f : SerializationStatus → View → α} {e : Option Emission}
    {r : Option (α × State)} {leftover : List JSONState}
    (h : Refines buf (text ++ bs) (leftover ++ stack) f e r) :
    Refines buf text stack f (e.map (.after bs leftover)) r := by
  cases e with
  | none => exact h
  | some m =>
    obtain ⟨mem, hrun, hmem⟩ := h
    refine ⟨mem, ?_, ?_⟩
    · rw [hrun]
      simp only [Emission.after, List.length_append, List.append_assoc, Nat.add_assoc]
    · rwa [Emission.after, ← List.append_assoc]

theorem Appends.bind_refines {x : Ser α} {k : α → Ser β} {s : State}
    {g : SerializationStatus → View → β} {e : Option Emission} {text' : List UInt8} {room : Nat}
    {stack'' : List JSONState} (hx : Appends buf text bs stack f (x.run s))
    (hroom : text.length + room = buf.size)
    (hk : ∀ mem, Holds buf (text ++ bs) mem →
      Refines buf text' stack'' g e
        ((k (f (cursor buf (text ++ bs).length))).run ⟨mem, stack⟩)) :
    Refines buf text' stack'' g (if room < bs.length then none else e) ((x >>= k).run s) := by
  unfold Appends at hx
  by_cases hlt : room < bs.length
  · rw [if_neg (by omega)] at hx
    rw [if_pos hlt]
    exact run_bind_none hx
  · rw [if_pos (by omega)] at hx
    obtain ⟨mem, hrun, hmem⟩ := hx
    rw [← List.length_append] at hrun
    rw [if_neg hlt, run_bind_some hrun]
    exact hk mem hmem

/-- A value with its comma. -/
theorem Appends.refines {f : View → α} {g : SerializationStatus → View → α}
    {r : Option (α × State)} {room : Nat} (h : Appends buf text (bs ++ [comma]) stack f r)
    (hf : f = g .ok) (hroom : text.length + room = buf.size) :
    Refines buf text stack g (emitText room bs) r := by
  subst hf
  rw [Appends, List.length_append, List.length_singleton] at h
  rw [emitText]
  by_cases hlt : bs.length < room
  · rw [if_pos (by omega)] at h
    rw [if_pos hlt]
    obtain ⟨mem, hrun, hmem⟩ := h
    exact ⟨mem, by rw [hrun, List.length_append]; rfl, hmem⟩
  · rw [if_neg (by omega)] at h
    rw [if_neg hlt]
    exact h

/-- A value that does not fit may change the bytes behind the cursor. -/
theorem refines_full {g : SerializationStatus → View → α} {mem : Mem} (h : Holds buf text mem) :
    Refines buf text stack g (some .full)
      (some (g .bufferFull (cursor buf text.length), ⟨mem, stack⟩)) :=
  ⟨mem, rfl, by rwa [Emission.full, List.append_nil]⟩

theorem appends_token (h : Holds buf text mem) (token : List UInt8) :
    Appends buf text (token ++ [comma]) stack (Prod.mk .ok) ((do
      put buf (cursor buf text.length) token
      finish buf (cursor buf text.length) token.length).run ⟨mem, stack⟩) :=
  (appends_put h).bind fun _ h' => appends_finish h' List.length_append

/-- `snprintf` stores a token that fits, with a null byte behind it. -/
theorem appends_snprintf (h : Holds buf text mem) {token : List UInt8}
    (hlt : token.length < buf.size - text.length) :
    Appends buf text token stack (fun _ => ())
      ((put buf (cursor buf text.length) (snprintf token (buf.size - text.length))).run
        ⟨mem, stack⟩) := by
  have hsn : snprintf token (buf.size - text.length) = token ++ [0] := by
    rw [snprintf, if_neg (by omega), List.take_of_length_le (by omega)]
  have hle : text.length + (token ++ [0]).length ≤ buf.size := by
    rw [List.length_append, List.length_singleton]
    omega
  rw [Appends, if_pos (by omega), hsn, run_put h _ stack, if_pos hle]
  have hmem := h.append hle
  rw [← List.append_assoc] at hmem
  exact ⟨_, rfl, hmem.of_append⟩

theorem length_snprintf_le (token : List UInt8) (size : Nat) :
    (snprintf token size).length ≤ size := by
  unfold snprintf
  split
  · exact Nat.zero_le _
  · rw [List.length_append, List.length_take, List.length_singleton]
    omega

theorem appends_string (p : Platform) (h : Holds buf text mem) (str : List UInt8) :
    Appends buf text (quoted p str ++ [comma]) stack (Prod.mk .ok) ((do
      put buf (cursor buf text.length) [quote]
      let bv ← str.foldlM (escapeChar p buf) ((cursor buf text.length).advance 1)
      put buf bv [quote]
      finish buf bv 1).run ⟨mem, stack⟩) := by
  have htext : quoted p str ++ [comma] =
      [quote] ++ (str.flatMap (escape p) ++ ([quote] ++ [comma])) := by simp [quoted]
  rw [htext]
  apply (appends_put h).bind
  intro mem' h'
  rw [h'.cursor_advance List.length_singleton]
  apply (appends_escapeString p h' str).bind
  intro mem' h'
  exact (appends_put h').bind fun _ h' => appends_finish h' List.length_append

theorem refines_value (p : Platform) (h : Holds buf text mem) (x : Primitive) :
    Refines buf text stack Prod.mk (emitPrimitive p (buf.size - text.length) x)
      ((value p buf (cursor buf text.length) x).run ⟨mem, stack⟩) := by
  have hroom : text.length + (buf.size - text.length) = buf.size := by
    have hle := h.le
    omega
  rw [emitPrimitive]
  cases x with
  | null =>
    rw [value, writeNull, size_cursor]
    by_cases hstop : Stops p (buf.size - text.length) .null
    · have hfull : 4 ≥ buf.size - text.length := hstop
      rw [if_pos hstop, if_pos hfull]
      exact refines_full h
    · have hfull : ¬ 4 ≥ buf.size - text.length := hstop
      rw [if_neg hstop, if_neg hfull]
      exact (appends_token h nullStr).refines rfl hroom
  | bool value =>
    have htoken : (if value = true then trueStr else falseStr) = token p (.bool value) := rfl
    rw [Json.value, writeBool, size_cursor, htoken]
    by_cases hstop : Stops p (buf.size - text.length) (.bool value)
    · have hfull : (token p (.bool value)).length ≥ buf.size - text.length := hstop
      rw [if_pos hstop, if_pos hfull]
      exact refines_full h
    · have hfull : ¬ (token p (.bool value)).length ≥ buf.size - text.length := hstop
      rw [if_neg hstop, if_neg hfull]
      exact (appends_token h _).refines rfl hroom
  | int num =>
    rw [value, writeInt, size_cursor]
    by_cases hstop : Stops p (buf.size - text.length) (.int num)
    · have hput := run_put h (snprintf (decimal num.toInt) (buf.size - text.length)) stack
      have hle := length_snprintf_le (decimal num.toInt) (buf.size - text.length)
      rw [if_pos (by omega)] at hput
      have hfull : (decimal num.toInt).length ≥ buf.size - text.length := hstop
      rw [if_pos hstop, run_bind_some hput, if_pos hfull]
      exact refines_full (h.store _)
    · have hfull : ¬ (decimal num.toInt).length ≥ buf.size - text.length := hstop
      rw [if_neg hstop, if_neg hfull]
      refine Appends.refines (f := Prod.mk .ok) ?_ rfl hroom
      exact (appends_snprintf h (Nat.lt_of_not_le hstop)).bind fun _ h' =>
        appends_finish h' List.length_append
  | double num =>
    rw [value, writeNumber, size_cursor]
    by_cases hstop : Stops p (buf.size - text.length) (.double num)
    · have hput := run_put h (p.spill num (buf.size - text.length)) stack
      have hle := p.length_spill_le num (buf.size - text.length)
      rw [if_pos (by omega)] at hput
      have hfull : (p.toChars num).length > buf.size - text.length := hstop
      rw [if_pos hstop, if_pos hfull, run_bind_some hput]
      exact refines_full (h.store _)
    · have hfull : ¬ (p.toChars num).length > buf.size - text.length := hstop
      rw [if_neg hstop, if_neg hfull]
      exact (appends_token h _).refines rfl hroom
  | string str =>
    rw [value, writeString, size_cursor]
    by_cases hstop : Stops p (buf.size - text.length) (.string str)
    · have hfull : buf.size - text.length < 2 := hstop
      rw [if_pos hstop, if_pos hfull]
      exact refines_full h
    · have hfull : ¬ buf.size - text.length < 2 := hstop
      rw [if_neg hstop, if_neg hfull]
      exact (appends_string p h str).refines rfl hroom

/-! ## Containers -/

theorem appends_beginWith (h : Holds buf text mem) (opening : UInt8) (state : JSONState) :
    Appends buf text [opening] (state :: stack) (Prod.mk .ok)
      ((beginWith buf (cursor buf text.length) opening state).run ⟨mem, stack⟩) := by
  rw [← List.append_nil [opening]]
  apply (appends_put h).bind
  intro mem' h'
  rw [h'.cursor_advance List.length_singleton]
  exact Appends.pure h'

theorem appends_putClosing (h : Holds buf text mem) (closing : UInt8) :
    Appends buf text (closing :: if !stack.isEmpty then [comma] else []) stack (Prod.mk .ok)
      ((putClosing buf (cursor buf text.length) closing).run ⟨mem, stack⟩) := by
  rw [← List.singleton_append]
  apply (appends_put h).bind
  intro mem' h'
  have hempty : stackEmpty.run ⟨mem', stack⟩ = some (stack.isEmpty, ⟨mem', stack⟩) := rfl
  rw [h'.cursor_advance List.length_singleton, run_bind_some hempty]
  cases stack.isEmpty with
  | true => exact Appends.pure h'
  | false => exact Appends.put_advance h'

/-- What is closed behind `inner` is an emission of `inner` and the closing. -/
theorem Appends.refines_after {f : View → α} {g : SerializationStatus → View → α}
    {inner : List UInt8} {leftover : List JSONState} {r : Option (α × State)} {room : Nat}
    (h : Appends buf (text ++ inner) bs (leftover ++ stack) f r) (hf : f = g .ok)
    (hroom : text.length + room = buf.size) :
    Refines buf text stack g
      (if (inner ++ bs).length ≤ room then some ⟨.ok, inner ++ bs, leftover⟩ else none) r := by
  subst hf
  rw [Appends, List.length_append] at h
  rw [List.length_append]
  by_cases hle : inner.length + bs.length ≤ room
  · rw [if_pos (by omega)] at h
    rw [if_pos hle]
    obtain ⟨mem, hrun, hmem⟩ := h
    refine ⟨mem, ?_, by rwa [← List.append_assoc]⟩
    rw [hrun, List.length_append, Nat.add_assoc]
  · rw [if_neg (by omega)] at h
    rw [if_neg hle]
    exact h

theorem refines_endWith {opening closing : UInt8} {body : List UInt8} {leftover : List JSONState}
    {state : JSONState} (h : Holds buf (text ++ opening :: body) mem)
    (hbody : body = [] ∨ ∃ init c, body = init ++ [c] ∧ c ≠ opening) :
    Refines buf text stack Prod.mk
      (emitClose (!stack.isEmpty) (buf.size - text.length) opening closing body
        (leftover ++ [state]).tail)
      ((endWith buf (cursor buf (text ++ opening :: body).length) opening closing).run
        ⟨mem, leftover ++ state :: stack⟩) := by
  have hle := h.le
  rw [List.length_append] at hle
  have hstack : leftover ++ state :: stack = (leftover ++ [state]) ++ stack := by simp
  have hpop : pop.run ⟨mem, leftover ++ state :: stack⟩ =
      some ((), ⟨mem, (leftover ++ [state]).tail ++ stack⟩) := by
    rw [hstack]
    cases leftover with
    | nil => rfl
    | cons hd tl => rfl
  have hcomma : (if !stack.isEmpty || !(leftover ++ [state]).tail.isEmpty then [comma] else []) =
      if !((leftover ++ [state]).tail ++ stack).isEmpty then [comma] else [] := by
    cases (leftover ++ [state]).tail <;> cases stack <;> rfl
  have hroom : text.length + (buf.size - text.length) = buf.size := by omega
  rw [endWith, run_bind_some hpop, emitClose, closeText, hcomma]
  rcases hbody with rfl | ⟨init, c, rfl, hc⟩
  · have hlen : (text ++ [opening]).length = text.length + 1 := List.length_append
    rw [if_pos rfl, hlen, run_bind_some (run_peek h), if_neg (not_not.mpr rfl), ← hlen]
    exact (appends_putClosing h closing).refines_after rfl hroom
  · have hsplit : text ++ opening :: (init ++ [c]) = (text ++ opening :: init) ++ [c] := by simp
    have hlen : (text ++ opening :: (init ++ [c])).length =
        (text ++ opening :: init).length + 1 := by
      rw [hsplit, List.length_append, List.length_singleton]
    have hback : (⟨(cursor buf ((text ++ opening :: init).length + 1)).data - 1,
        (cursor buf ((text ++ opening :: init).length + 1)).size + 1⟩ : View) =
        cursor buf (text ++ opening :: init).length := by
      rw [← List.length_append, hlen] at hle
      dsimp only [cursor]
      congr 1
      omega
    have hne : init ++ [c] ≠ [] := by simp
    rw [hsplit] at h
    rw [if_neg hne, List.dropLast_concat, hlen, run_bind_some (run_peek h), if_pos hc, hback]
    exact (appends_putClosing h.of_append closing).refines_after rfl hroom

theorem status_written (bv bv_ : View) (status : SerializationStatus) :
    (written bv bv_ status).status = status := rfl

theorem advance_written (h : Holds buf (text ++ bs) mem) (status : SerializationStatus) :
    (cursor buf text.length).advance
      (written (cursor buf text.length) (cursor buf (text ++ bs).length) status).writtenView.size =
        cursor buf (text ++ bs).length := by
  have hle := h.le
  rw [List.length_append] at hle
  have hsize : (cursor buf text.length).size - (cursor buf (text ++ bs).length).size =
      bs.length := by
    rw [size_cursor, size_cursor, List.length_append]
    omega
  rw [written, hsize, View.size_subview_zero (by rw [size_cursor]; omega)]
  exact h.cursor_advance rfl

end

/-! ## `serializer::apply` -/

/-- Behind a key and a value the next key may stand. -/
theorem keyFollows_append (p : Platform) (text name : List UInt8) {out : List UInt8}
    (h : out = [] ∨ EndsIn [comma, colon, lbracket] out) :
    EndsIn keyFollows (text ++ keyText p name ++ out) := by
  rcases h with rfl | hends
  · rw [List.append_nil]
    exact ((keyText_endsIn p name).append_left text).mono (by decide)
  · exact (hends.append_left _).mono (by decide)

theorem EndsIn.ne {cs bs : List UInt8} (h : EndsIn cs bs) {c : UInt8} (hc : c ∉ cs) :
    ∃ init last, bs = init ++ [last] ∧ last ≠ c := by
  obtain ⟨init, last, rfl, hlast⟩ := h
  exact ⟨init, last, rfl, fun heq => hc (heq ▸ hlast)⟩

theorem isEmpty_append_eq_false (leftover : List JSONState) {stack : List JSONState}
    (h : stack.isEmpty = false) : (leftover ++ stack).isEmpty = false := by
  cases leftover with
  | nil => exact h
  | cons state leftover => rfl

/-- A loop that returns a status which is not all right. -/
theorem refines_stop {buf : View} {text out : List UInt8} {mem : Mem} (status : SerializationStatus)
    (stack leftover : List JSONState) (h : Holds buf (text ++ out) mem) :
    Refines buf text stack Prod.mk (some ⟨status, out, leftover⟩)
      ((pure (status, cursor buf (text ++ out).length) : Ser (SerializationStatus × View)).run
        ⟨mem, leftover ++ stack⟩) := by
  refine ⟨mem, ?_, h⟩
  rw [List.length_append]
  rfl

/-- The members of a container, and its end if they are all right. -/
theorem refines_container {α : Type} {buf : View} {text : List UInt8} {stack : List JSONState}
    {opening closing : UInt8} {state : JSONState} {members : Option Emission}
    {f : SerializationStatus → View → α} {x : Ser α} {tail : α → Ser SerializationResult}
    {s : State}
    (hx : Refines buf (text ++ [opening]) (state :: stack) f members (x.run s))
    (hbody : ∀ e, members = some e → e.status = .ok →
      e.out = [] ∨ ∃ init c, e.out = init ++ [c] ∧ c ≠ opening)
    (hstop : ∀ e bv_, members = some e → e.status ≠ .ok →
      tail (f e.status bv_) = pure (written (cursor buf text.length) bv_ e.status))
    (hok : ∀ bv_, tail (f .ok bv_) = endWith buf bv_ opening closing >>= fun res =>
      pure (written (cursor buf text.length) res.2 .ok)) :
    Refines buf text stack (fun status bv_ => written (cursor buf text.length) bv_ status)
      (emitContainer (buf.size - text.length) opening closing state (!stack.isEmpty) members)
      ((x >>= tail).run s) := by
  apply hx.bind
  intro e mem he h
  have hsplit : text ++ [opening] ++ e.out = text ++ opening :: e.out := by simp
  rw [hsplit] at h ⊢
  by_cases hstatus : e.status = .ok
  · rw [if_neg (not_not.mpr hstatus), hstatus, hok]
    exact (refines_endWith h (hbody e he hstatus)).bind_return fun m bv_ hm => by
      rw [emitClose_ok hm]
  · rw [if_pos hstatus, hstop e _ he hstatus]
    refine ⟨mem, ?_, h⟩
    rw [List.append_assoc, ← List.length_append]
    rfl

mutual

theorem refines_apply (p : Platform) (buf : View) (v : Value) {text : List UInt8} {mem : Mem}
    (stack : List JSONState) (h : Holds buf text mem) :
    Refines buf text stack (fun status bv_ => written (cursor buf text.length) bv_ status)
      (emit p (!stack.isEmpty) (buf.size - text.length) v)
      ((apply p buf v (cursor buf text.length)).run ⟨mem, stack⟩) := by
  have hroom : text.length + (buf.size - text.length) = buf.size := by
    have hle := h.le
    omega
  have hzero (opening : UInt8) :
      buf.size - text.length = 0 ↔ buf.size - text.length < [opening].length := by
    rw [List.length_singleton, Nat.lt_one_iff]
  have hopen {opening : UInt8} {mem₁ : Mem} (h₁ : Holds buf (text ++ [opening]) mem₁) :
      buf.size - text.length - 1 = buf.size - (text ++ [opening]).length := by
    rw [List.length_append, List.length_singleton, Nat.sub_sub]
  cases v with
  | primitive x =>
    rw [apply, emit]
    exact (refines_value p h x).bind_return fun e bv_ he => rfl
  | struct fields =>
    rw [apply, emit, if_congr (hzero lbrace) rfl rfl]
    apply (appends_beginWith h lbrace .object).bind_refines hroom
    intro mem₁ h₁
    rw [hopen h₁]
    refine refines_container (refines_applyFields p buf fields (.object :: stack) h₁ ?_ rfl) ?_ ?_
      fun bv_ => rfl
    · exact ⟨text, lbrace, rfl, by decide⟩
    · intro e he hok
      exact (emitFields_endsIn he).imp_right fun hends => hends.ne (by decide)
    · intro e bv_ he hne
      exact absurd (emitFields_ok he) hne
  | range items =>
    rw [apply, emit, if_congr (hzero lbracket) rfl rfl]
    apply (appends_beginWith h lbracket .array).bind_refines hroom
    intro mem₁ h₁
    rw [hopen h₁]
    refine refines_container (refines_applyItems p buf items (.array :: stack) h₁ rfl) ?_ ?_
      fun bv_ => rfl
    · intro e he hok
      exact (emitItems_endsIn he).imp_right fun hends => hends.ne (by decide)
    · intro e bv_ he hne
      exact if_pos hne
  | map entries =>
    rw [apply, emit, if_congr (hzero lbrace) rfl rfl]
    apply (appends_beginWith h lbrace .object).bind_refines hroom
    intro mem₁ h₁
    rw [hopen h₁]
    refine refines_container (refines_applyEntries p buf entries (.object :: stack) h₁ ?_ rfl) ?_ ?_
      fun bv_ => rfl
    · exact ⟨text, lbrace, rfl, by decide⟩
    · intro e he hok
      refine (emitEntries_endsIn he).imp And.left fun hends => hends.ne (by decide)
    · intro e bv_ he hne
      exact if_pos hne

theorem refines_applyFields (p : Platform) (buf : View) (fields : List (List UInt8 × Value))
    {text : List UInt8} {mem : Mem} (stack : List JSONState) (h : Holds buf text mem)
    (hends : EndsIn keyFollows text) (hstack : stack.isEmpty = false) :
    Refines buf text stack (fun _ bv_ => bv_) (emitFields p (buf.size - text.length) fields)
      ((applyFields p buf fields (cursor buf text.length)).run ⟨mem, stack⟩) := by
  have hroom : text.length + (buf.size - text.length) = buf.size := by
    have hle := h.le
    omega
  cases fields with
  | nil => exact ⟨mem, rfl, by rwa [List.append_nil]⟩
  | cons field fields =>
    obtain ⟨name, field⟩ := field
    rw [applyFields, emitFields]
    apply (appends_key p h hends name).bind_refines hroom
    intro mem₁ h₁
    have hfield := refines_apply p buf field stack h₁
    rw [hstack, List.length_append, ← Nat.sub_sub, ← List.length_append] at hfield
    apply hfield.bind
    intro e mem₂ he h₂
    rw [advance_written h₂]
    have hends₂ := keyFollows_append p text name (emit_endsIn he)
    have hrest := refines_applyFields p buf fields (e.leftover ++ stack) h₂ hends₂
      (isEmpty_append_eq_false e.leftover hstack)
    rw [List.append_assoc] at hrest ⊢
    rw [Nat.sub_sub, Nat.sub_sub, ← List.length_append, ← List.length_append]
    exact hrest.after

theorem refines_applyItems (p : Platform) (buf : View) (items : List Value)
    {text : List UInt8} {mem : Mem} (stack : List JSONState) (h : Holds buf text mem)
    (hstack : stack.isEmpty = false) :
    Refines buf text stack Prod.mk (emitItems p (buf.size - text.length) items)
      ((applyItems p buf items (cursor buf text.length)).run ⟨mem, stack⟩) := by
  cases items with
  | nil => exact ⟨mem, rfl, by rwa [List.append_nil]⟩
  | cons item items =>
    rw [applyItems, emitItems]
    have hitem := refines_apply p buf item stack h
    rw [hstack] at hitem
    apply hitem.bind
    intro e mem₁ he h₁
    rw [advance_written h₁, status_written]
    by_cases hstatus : e.status = .ok
    · have hrest := refines_applyItems p buf items (e.leftover ++ stack) h₁
        (isEmpty_append_eq_false e.leftover hstack)
      rw [if_neg (not_not.mpr hstatus), if_neg (not_not.mpr hstatus), Nat.sub_sub,
        ← List.length_append]
      exact hrest.after
    · rw [if_pos hstatus, if_pos hstatus]
      have hnil : text ++ [] = text := List.append_nil text
      have hstop := refines_stop e.status stack e.leftover (hnil ▸ h₁.of_append)
      rwa [hnil] at hstop

theorem refines_applyEntries (p : Platform) (buf : View) (entries : List (List UInt8 × Value))
    {text : List UInt8} {mem : Mem} (stack : List JSONState) (h : Holds buf text mem)
    (hends : EndsIn keyFollows text) (hstack : stack.isEmpty = false) :
    Refines buf text stack Prod.mk (emitEntries p (buf.size - text.length) entries)
      ((applyEntries p buf entries (cursor buf text.length)).run ⟨mem, stack⟩) := by
  have hroom : text.length + (buf.size - text.length) = buf.size := by
    have hle := h.le
    omega
  cases entries with
  | nil => exact ⟨mem, rfl, by rwa [List.append_nil]⟩
  | cons entry entries =>
    obtain ⟨name, entry⟩ := entry
    rw [applyEntries, emitEntries]
    apply (appends_key p h hends name).bind_refines hroom
    intro mem₁ h₁
    have hentry := refines_apply p buf entry stack h₁
    rw [hstack, List.length_append, ← Nat.sub_sub, ← List.length_append] at hentry
    apply hentry.bind
    intro e mem₂ he h₂
    rw [advance_written h₂, status_written]
    have hends₂ := keyFollows_append p text name (emit_endsIn he)
    by_cases hstatus : e.status = .ok
    · have hrest := refines_applyEntries p buf entries (e.leftover ++ stack) h₂ hends₂
        (isEmpty_append_eq_false e.leftover hstack)
      rw [if_neg (not_not.mpr hstatus), if_neg (not_not.mpr hstatus)]
      rw [List.append_assoc] at hrest ⊢
      rw [Nat.sub_sub, Nat.sub_sub, ← List.length_append, ← List.length_append]
      exact hrest.after
    · rw [if_pos hstatus, if_pos hstatus]
      exact refines_stop e.status stack e.leftover h₂.of_append

end

end Csics.Json
