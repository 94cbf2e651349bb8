import Csics.Json.Serializer

/-!
# What the JSON serializer appends

The serializer seen as a function of the room that is left: `emit` gives the bytes that a
value appends to the text before it, or `none` if it accesses a byte outside of the buffer.
A container that closes replaces the comma of its last member; a struct whose last member
stopped for want of room replaces the last byte of that, and goes on.
-/

namespace Csics.Json

open Serialization

/-! ## Texts -/

/-- The bytes that `escape_char` appends. -/
def escape (p : Platform) (c : UInt8) : List UInt8 :=
  if c = backslash ∨ c = quote then [backslash, c]
  else if p.isControl c then
    match shortEscape c with
    | some e => [backslash, e]
    | none => longEscape c
  else [c]

/-- A string between its quotes. -/
def quoted (p : Platform) (str : List UInt8) : List UInt8 :=
  quote :: str.flatMap (escape p) ++ [quote]

def keyText (p : Platform) (name : List UInt8) : List UInt8 := quoted p name ++ [colon]

/-! ## Emissions -/

/-- The status of a value, the bytes that it appends, and what it leaves on the stack. -/
structure Emission where
  status : SerializationStatus
  out : List UInt8
  leftover : List JSONState
  deriving DecidableEq

/-- A value that does not fit and appends nothing. -/
def Emission.full : Emission := ⟨.bufferFull, [], []⟩

/-- A value with its comma, if it fits. -/
def emitText (room : Nat) (text : List UInt8) : Option Emission :=
  if text.length < room then some ⟨.ok, text ++ [comma], []⟩ else none

/-- The text of a primitive. -/
def token (p : Platform) : Primitive → List UInt8
  | .null => nullStr
  | .bool value => if value then trueStr else falseStr
  | .int num => decimal num.toInt
  | .double num => p.toChars num
  | .string str => quoted p str

/-- The room check of a primitive fails. -/
def Stops (p : Platform) (room : Nat) : Primitive → Prop
  | .double num => room < (p.toChars num).length
  | .string _ => room < 2
  | x => room ≤ (token p x).length

instance (p : Platform) (room : Nat) : (x : Primitive) → Decidable (Stops p room x)
  | .null => Nat.decLe _ _
  | .bool _ => Nat.decLe _ _
  | .int _ => Nat.decLe _ _
  | .double _ => Nat.decLt _ _
  | .string _ => Nat.decLt _ _

def emitPrimitive (p : Platform) (room : Nat) (x : Primitive) : Option Emission :=
  if Stops p room x then some .full else emitText room (token p x)

/-- A container that closes with `body` behind its opening byte. -/
def closeText (outer : Bool) (opening closing : UInt8) (body : List UInt8)
    (leftover : List JSONState) : List UInt8 :=
  (if body = [] then [opening] else opening :: body.dropLast) ++
    closing :: if outer || !leftover.isEmpty then [comma] else []

def emitClose (outer : Bool) (room : Nat) (opening closing : UInt8) (body : List UInt8)
    (leftover : List JSONState) : Option Emission :=
  if (closeText outer opening closing body leftover).length ≤ room then
    some ⟨.ok, closeText outer opening closing body leftover, leftover⟩
  else none

/-- An emission with `out` before it and `leftover` below it. -/
def Emission.after (out : List UInt8) (leftover : List JSONState) (e : Emission) : Emission :=
  ⟨e.status, out ++ e.out, e.leftover ++ leftover⟩

/-- A container; `close` is its end if its members were all right. -/
def emitContainer (room : Nat) (opening closing : UInt8) (state : JSONState) (outer : Bool)
    (members : Option Emission) : Option Emission :=
  members.bind fun e =>
    if e.status ≠ .ok then some ⟨e.status, opening :: e.out, e.leftover ++ [state]⟩
    else emitClose outer room opening closing e.out (e.leftover ++ [state]).tail

mutual

/-- `outer` says whether the stack is not empty. -/
def emit (p : Platform) (outer : Bool) (room : Nat) : Value → Option Emission
  | .primitive x => emitPrimitive p room x
  | .struct fields =>
    if room = 0 then none
    else emitContainer room lbrace rbrace .object outer (emitFields p (room - 1) fields)
  | .range items =>
    if room = 0 then none
    else emitContainer room lbracket rbracket .array outer (emitItems p (room - 1) items)
  | .map entries =>
    if room = 0 then none
    else emitContainer room lbrace rbrace .object outer (emitEntries p (room - 1) entries)

/-- The fields; a field that stops is dropped over. -/
def emitFields (p : Platform) (room : Nat) : List (List UInt8 × Value) → Option Emission
  | [] => some ⟨.ok, [], []⟩
  | (name, field) :: fields =>
    if room < (keyText p name).length then none
    else (emit p true (room - (keyText p name).length) field).bind fun e =>
      (emitFields p (room - (keyText p name).length - e.out.length) fields).map
        (.after (keyText p name ++ e.out) e.leftover)

def emitItems (p : Platform) (room : Nat) : List Value → Option Emission
  | [] => some ⟨.ok, [], []⟩
  | item :: items =>
    (emit p true room item).bind fun e =>
      if e.status ≠ .ok then some ⟨e.status, [], e.leftover⟩
      else (emitItems p (room - e.out.length) items).map (.after e.out e.leftover)

def emitEntries (p : Platform) (room : Nat) : List (List UInt8 × Value) → Option Emission
  | [] => some ⟨.ok, [], []⟩
  | (name, entry) :: entries =>
    if room < (keyText p name).length then none
    else (emit p true (room - (keyText p name).length) entry).bind fun e =>
      if e.status ≠ .ok then some ⟨e.status, keyText p name, e.leftover⟩
      else (emitEntries p (room - (keyText p name).length - e.out.length) entries).map
        (.after (keyText p name ++ e.out) e.leftover)

end

/-! ## Last bytes -/

/-- The string ends in one of the bytes. -/
def EndsIn (cs bs : List UInt8) : Prop := ∃ init c, bs = init ++ [c] ∧ c ∈ cs

section

variable {cs cs' bs : List UInt8} {p : Platform} {room : Nat} {e : Emission}

theorem EndsIn.append_left (h : EndsIn cs bs) (as : List UInt8) : EndsIn cs (as ++ bs) := by
  obtain ⟨init, c, rfl, hc⟩ := h
  exact ⟨as ++ init, c, (List.append_assoc _ _ _).symm, hc⟩

theorem EndsIn.mono (h : EndsIn cs bs) (hsub : cs ⊆ cs') : EndsIn cs' bs := by
  obtain ⟨init, c, rfl, hc⟩ := h
  exact ⟨init, c, rfl, hsub hc⟩

theorem keyText_endsIn (p : Platform) (name : List UInt8) : EndsIn [colon] (keyText p name) :=
  ⟨quoted p name, colon, rfl, List.mem_singleton_self _⟩

theorem emitText_endsIn {text : List UInt8} (h : emitText room text = some e) :
    EndsIn [comma] e.out := by
  unfold emitText at h
  split at h
  · cases h
    exact ⟨text, comma, rfl, List.mem_singleton_self _⟩
  · cases h

theorem emitPrimitive_endsIn {x : Primitive} (h : emitPrimitive p room x = some e) :
    e = .full ∨ EndsIn [comma] e.out := by
  unfold emitPrimitive at h
  split at h
  · exact Or.inl (Option.some.inj h).symm
  · exact Or.inr (emitText_endsIn h)

theorem emitClose_ok {outer : Bool} {opening closing : UInt8} {body : List UInt8}
    {leftover : List JSONState} (h : emitClose outer room opening closing body leftover = some e) :
    e.status = .ok := by
  unfold emitClose at h
  split at h
  · cases h
    rfl
  · cases h

theorem emitClose_endsIn {opening closing : UInt8} {body : List UInt8} {leftover : List JSONState}
    (h : emitClose true room opening closing body leftover = some e) :
    EndsIn [comma] e.out := by
  unfold emitClose at h
  split at h
  · cases h
    refine EndsIn.append_left ?_ _
    exact ⟨[closing], comma, rfl, List.mem_singleton_self _⟩
  · cases h

theorem emitContainer_endsIn {opening closing : UInt8} {state : JSONState}
    {members : Option Emission}
    (h : emitContainer room opening closing state true members = some e) :
    EndsIn [comma] e.out ∧ e.status = .ok ∨
      ∃ m, members = some m ∧ m.status ≠ .ok ∧ e.status = m.status ∧ e.out = opening :: m.out := by
  obtain ⟨m, hm, h⟩ := Option.bind_eq_some_iff.mp h
  split at h
  · cases h
    exact Or.inr ⟨m, hm, by assumption, rfl, rfl⟩
  · exact Or.inl ⟨emitClose_endsIn h, emitClose_ok h⟩

/-- A value that is all right ends in its comma. -/
theorem emit_ok_endsIn {v : Value} (h : emit p true room v = some e) (hok : e.status = .ok) :
    EndsIn [comma] e.out := by
  have hcontainer {opening closing : UInt8} {state : JSONState} {members : Option Emission}
      (h : (if room = 0 then none
        else emitContainer room opening closing state true members) = some e) :
      EndsIn [comma] e.out := by
    split at h
    · cases h
    · rcases emitContainer_endsIn h with ⟨hends, -⟩ | ⟨m, -, hne, hm, -⟩
      · exact hends
      · exact absurd (hm.symm.trans hok) hne
  cases v with
  | primitive x =>
    rw [emit] at h
    rcases emitPrimitive_endsIn h with rfl | hends
    · cases hok
    · exact hends
  | struct fields => rw [emit] at h; exact hcontainer h
  | range items => rw [emit] at h; exact hcontainer h
  | map entries => rw [emit] at h; exact hcontainer h

theorem emitItems_endsIn {items : List Value} (h : emitItems p room items = some e) :
    e.out = [] ∨ EndsIn [comma] e.out := by
  induction items generalizing room e with
  | nil =>
    rw [emitItems] at h
    cases h
    exact Or.inl rfl
  | cons item items ih =>
    rw [emitItems] at h
    obtain ⟨first, hfirst, h⟩ := Option.bind_eq_some_iff.mp h
    split at h
    · cases h
      exact Or.inl rfl
    · rename_i hok
      obtain ⟨rest, hrest, rfl⟩ := Option.map_eq_some_iff.mp h
      have hends := emit_ok_endsIn hfirst (not_not.mp hok)
      rw [Emission.after]
      rcases ih hrest with hnil | hends'
      · rw [hnil, List.append_nil]
        exact Or.inr hends
      · exact Or.inr (hends'.append_left _)

theorem emitEntries_endsIn {entries : List (List UInt8 × Value)}
    (h : emitEntries p room entries = some e) :
    e.out = [] ∧ e.status = .ok ∨ EndsIn [comma, colon] e.out := by
  induction entries generalizing room e with
  | nil =>
    rw [emitEntries] at h
    cases h
    exact Or.inl ⟨rfl, rfl⟩
  | cons entry entries ih =>
    obtain ⟨name, entry⟩ := entry
    rw [emitEntries] at h
    split at h
    · cases h
    · obtain ⟨first, hfirst, h⟩ := Option.bind_eq_some_iff.mp h
      split at h
      · cases h
        exact Or.inr ((keyText_endsIn p name).mono (by simp))
      · rename_i hok
        obtain ⟨rest, hrest, rfl⟩ := Option.map_eq_some_iff.mp h
        have hends := emit_ok_endsIn hfirst (not_not.mp hok)
        rw [Emission.after]
        rcases ih hrest with ⟨hnil, -⟩ | hends'
        · rw [hnil, List.append_nil]
          exact Or.inr ((hends.append_left _).mono (by simp))
        · exact Or.inr (hends'.append_left _)

theorem emitFields_ok {fields : List (List UInt8 × Value)}
    (h : emitFields p room fields = some e) : e.status = .ok := by
  induction fields generalizing room e with
  | nil =>
    rw [emitFields] at h
    cases h
    rfl
  | cons field fields ih =>
    obtain ⟨name, field⟩ := field
    rw [emitFields] at h
    split at h
    · cases h
    · obtain ⟨first, -, h⟩ := Option.bind_eq_some_iff.mp h
      obtain ⟨rest, hrest, rfl⟩ := Option.map_eq_some_iff.mp h
      have hok := ih hrest
      exact hok

/-- What a value leaves behind, all right or not. -/
theorem emit_endsIn {v : Value} (h : emit p true room v = some e) :
    e.out = [] ∨ EndsIn [comma, colon, lbracket] e.out := by
  cases v with
  | primitive x =>
    rw [emit] at h
    rcases emitPrimitive_endsIn h with rfl | hends
    · exact Or.inl rfl
    · exact Or.inr (hends.mono (by simp))
  | struct fields =>
    rw [emit] at h
    split at h
    · cases h
    · rcases emitContainer_endsIn h with ⟨hends, -⟩ | ⟨m, hm, hne, -, -⟩
      · exact Or.inr (hends.mono (by simp))
      · exact absurd (emitFields_ok hm) hne
  | range items =>
    rw [emit] at h
    split at h
    · cases h
    · rcases emitContainer_endsIn h with ⟨hends, -⟩ | ⟨m, hm, -, -, hout⟩
      · exact Or.inr (hends.mono (by simp))
      · rw [hout]
        rcases emitItems_endsIn hm with hnil | hends
        · rw [hnil]
          exact Or.inr ⟨[], lbracket, rfl, by simp⟩
        · exact Or.inr ((hends.append_left [lbracket]).mono (by simp))
  | map entries =>
    rw [emit] at h
    split at h
    · cases h
    · rcases emitContainer_endsIn h with ⟨hends, -⟩ | ⟨m, hm, hne, -, hout⟩
      · exact Or.inr (hends.mono (by simp))
      · rw [hout]
        rcases emitEntries_endsIn hm with ⟨-, hok⟩ | hends
        · exact absurd hok hne
        · exact Or.inr ((hends.append_left [lbrace]).mono (by simp))

theorem emitFields_endsIn {fields : List (List UInt8 × Value)}
    (h : emitFields p room fields = some e) :
    e.out = [] ∨ EndsIn [comma, colon, lbracket] e.out := by
  induction fields generalizing room e with
  | nil =>
    rw [emitFields] at h
    cases h
    exact Or.inl rfl
  | cons field fields ih =>
    obtain ⟨name, field⟩ := field
    rw [emitFields] at h
    split at h
    · cases h
    · obtain ⟨first, hfirst, h⟩ := Option.bind_eq_some_iff.mp h
      obtain ⟨rest, hrest, rfl⟩ := Option.map_eq_some_iff.mp h
      rw [Emission.after]
      rcases ih hrest with hnil | hends
      · rw [hnil, List.append_nil]
        rcases emit_endsIn hfirst with hnil' | hends
        · rw [hnil', List.append_nil]
          exact Or.inr ((keyText_endsIn p name).mono (by simp))
        · exact Or.inr (hends.append_left _)
      · exact Or.inr (hends.append_left _)

end

end Csics.Json
