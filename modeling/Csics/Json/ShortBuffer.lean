import Csics.Json.Text

/-!
# Buffers that are too short

Only the room checks of primitives give a status, and a struct drops it. So the serializer
fails without touching a byte behind the buffer exactly where the buffer ends in a primitive
whose check sees it, with nothing but ranges and maps around.
-/

namespace Csics.Json

open Base Serialization

/-! ## Where a short buffer is noticed -/

/-- No byte outside of the buffer is accessed, and the status is not `Ok`. -/
def FailsCleanly (p : Platform) (buf : View) (v : Value) (mem : Mem) : Prop :=
  ∃ r, serialize p buf v mem = some r ∧ r.1.status ≠ .ok

mutual

/-- `room` ends in a primitive whose check fails, and no struct is around it; all that is before
it fits. -/
def CutIn (p : Platform) (room : Nat) : Value → Prop
  | .primitive x => Stops p room x
  | .struct _ => False
  | .range items => 1 ≤ room ∧ CutInItems p (room - 1) items
  | .map entries => 1 ≤ room ∧ CutInEntries p (room - 1) entries

def CutInItems (p : Platform) (room : Nat) : List Value → Prop
  | [] => False
  | item :: items =>
    CutIn p room item ∨
      (text p item).length + 1 ≤ room ∧ CutInItems p (room - ((text p item).length + 1)) items

def CutInEntries (p : Platform) (room : Nat) : List (List UInt8 × Value) → Prop
  | [] => False
  | (name, entry) :: entries =>
    (keyText p name).length ≤ room ∧
      (CutIn p (room - (keyText p name).length) entry ∨
        (keyText p name).length + ((text p entry).length + 1) ≤ room ∧
          CutInEntries p (room - (keyText p name).length - ((text p entry).length + 1)) entries)

end

/-! ## Types -/

/-- What the type of a value says of its members: those of a range or of a map all have one
type. -/
inductive Shape where
  | primitive
  | struct
  | members (of : Shape)

def Value.HasShape : Value → Shape → Prop
  | .primitive _, .primitive => True
  | .struct _, .struct => True
  | .range items, .members shape => ∀ item ∈ items, item.HasShape shape
  | .map entries, .members shape => ∀ entry ∈ entries, entry.2.HasShape shape
  | _, _ => False

theorem Value.HasShape.primitive_cases {v : Value} (h : v.HasShape .primitive) :
    ∃ x, v = .primitive x := by
  cases v with
  | primitive x => exact ⟨x, rfl⟩
  | struct fields => exact h.elim
  | range items => exact h.elim
  | map entries => exact h.elim

theorem Value.HasShape.struct_cases {v : Value} (h : v.HasShape .struct) :
    ∃ fields, v = .struct fields := by
  cases v with
  | primitive x => exact h.elim
  | struct fields => exact ⟨fields, rfl⟩
  | range items => exact h.elim
  | map entries => exact h.elim

theorem Value.HasShape.members_cases {v : Value} {shape : Shape} (h : v.HasShape (.members shape)) :
    (∃ items, v = .range items ∧ ∀ item ∈ items, item.HasShape shape) ∨
      ∃ entries, v = .map entries ∧ ∀ entry ∈ entries, entry.2.HasShape shape := by
  cases v with
  | primitive x => exact h.elim
  | struct fields => exact h.elim
  | range items => exact Or.inl ⟨items, rfl, h⟩
  | map entries => exact Or.inr ⟨entries, rfl, h⟩

section

variable {p : Platform} {outer : Bool} {room : Nat} {e : Emission}

/-! ## A cut in a primitive is noticed -/

theorem emitContainer_stops {opening closing : UInt8} {state : JSONState} {m : Emission}
    (hm : m.status ≠ .ok) :
    emitContainer room opening closing state outer (some m) =
      some ⟨m.status, opening :: m.out, m.leftover ++ [state]⟩ := if_pos hm

end

mutual

theorem emit_of_cutIn (p : Platform) (outer : Bool) (room : Nat) (v : Value)
    (h : CutIn p room v) : ∃ e, emit p outer room v = some e ∧ e.status ≠ .ok := by
  cases v with
  | primitive x =>
    have hstop : Stops p room x := h
    refine ⟨.full, ?_, nofun⟩
    rw [emit, emitPrimitive, if_pos hstop]
  | struct fields => exact h.elim
  | range items =>
    obtain ⟨hroom, hitems⟩ := h
    obtain ⟨m, hm, hstatus⟩ := emitItems_of_cutIn p (room - 1) items hitems
    rw [emit, if_neg (Nat.one_le_iff_ne_zero.mp hroom), hm, emitContainer_stops hstatus]
    exact ⟨_, rfl, hstatus⟩
  | map entries =>
    obtain ⟨hroom, hentries⟩ := h
    obtain ⟨m, hm, hstatus⟩ := emitEntries_of_cutIn p (room - 1) entries hentries
    rw [emit, if_neg (Nat.one_le_iff_ne_zero.mp hroom), hm, emitContainer_stops hstatus]
    exact ⟨_, rfl, hstatus⟩

theorem emitItems_of_cutIn (p : Platform) (room : Nat) (items : List Value)
    (h : CutInItems p room items) : ∃ e, emitItems p room items = some e ∧ e.status ≠ .ok := by
  cases items with
  | nil => exact h.elim
  | cons item items =>
    rw [emitItems]
    rcases h with hitem | ⟨hfits, hitems⟩
    · obtain ⟨e, he, hstatus⟩ := emit_of_cutIn p true room item hitem
      rw [he, Option.bind_some, if_pos hstatus]
      exact ⟨_, rfl, hstatus⟩
    · have hlen : (text p item ++ [comma]).length = (text p item).length + 1 := List.length_append
      obtain ⟨e, he, hstatus⟩ := emitItems_of_cutIn p _ items hitems
      rw [emit_of_fits p room item (by omega), Option.bind_some, if_neg (not_not.mpr rfl), hlen, he]
      exact ⟨_, rfl, hstatus⟩

theorem emitEntries_of_cutIn (p : Platform) (room : Nat) (entries : List (List UInt8 × Value))
    (h : CutInEntries p room entries) :
    ∃ e, emitEntries p room entries = some e ∧ e.status ≠ .ok := by
  cases entries with
  | nil => exact h.elim
  | cons entry entries =>
    obtain ⟨name, entry⟩ := entry
    obtain ⟨hkey, h⟩ := h
    rw [emitEntries, if_neg (Nat.not_lt.mpr hkey)]
    rcases h with hentry | ⟨hfits, hentries⟩
    · obtain ⟨e, he, hstatus⟩ := emit_of_cutIn p true _ entry hentry
      rw [he, Option.bind_some, if_pos hstatus]
      exact ⟨_, rfl, hstatus⟩
    · have hlen : (text p entry ++ [comma]).length = (text p entry).length + 1 :=
        List.length_append
      obtain ⟨e, he, hstatus⟩ := emitEntries_of_cutIn p _ entries hentries
      rw [emit_of_fits p _ entry (by omega), Option.bind_some, if_neg (not_not.mpr rfl), hlen, he]
      exact ⟨_, rfl, hstatus⟩

end

/-! ## Nothing else is noticed -/

/-- The value has status `Ok` wherever it does not fault. -/
def AlwaysOk (p : Platform) (v : Value) : Prop :=
  ∀ outer room e, emit p outer room v = some e → e.status = .ok

/-- The value has status `Ok` only where it fits. -/
def OkIfFits (p : Platform) (v : Value) : Prop :=
  ∀ room e, emit p true room v = some e → e.status = .ok → (text p v ++ [comma]).length ≤ room

/-- The value has another status only where it is cut in a primitive. -/
def NoticesCuts (p : Platform) (v : Value) : Prop :=
  ∀ outer room e, emit p outer room v = some e → e.status ≠ .ok → CutIn p room v

section

variable {p : Platform} {outer : Bool} {room : Nat} {e : Emission}

theorem emitContainer_status {opening closing : UInt8} {state : JSONState}
    {members : Option Emission}
    (h : emitContainer room opening closing state outer members = some e) :
    ∃ m, members = some m ∧ e.status = m.status := by
  obtain ⟨m, hm, h⟩ := Option.bind_eq_some_iff.mp h
  refine ⟨m, hm, ?_⟩
  split at h
  · cases h
    rfl
  · rename_i hok
    rw [emitClose_ok h, not_not.mp hok]

theorem struct_alwaysOk (p : Platform) (fields : List (List UInt8 × Value)) :
    AlwaysOk p (.struct fields) := by
  intro outer room e h
  rw [emit] at h
  split at h
  · cases h
  · obtain ⟨m, hm, hstatus⟩ := emitContainer_status h
    rw [hstatus, emitFields_ok hm]

theorem emitItems_alwaysOk {items : List Value} (hitems : ∀ item ∈ items, AlwaysOk p item)
    (h : emitItems p room items = some e) : e.status = .ok := by
  induction items generalizing room e with
  | nil =>
    rw [emitItems] at h
    cases h
    rfl
  | cons item items ih =>
    obtain ⟨hhead, htail⟩ := List.forall_mem_cons.mp hitems
    rw [emitItems] at h
    obtain ⟨first, hfirst, h⟩ := Option.bind_eq_some_iff.mp h
    rw [if_neg (not_not.mpr (hhead true _ first hfirst))] at h
    obtain ⟨rest, hrest, rfl⟩ := Option.map_eq_some_iff.mp h
    have hok := ih htail hrest
    exact hok

theorem emitEntries_alwaysOk {entries : List (List UInt8 × Value)}
    (hentries : ∀ entry ∈ entries, AlwaysOk p entry.2)
    (h : emitEntries p room entries = some e) : e.status = .ok := by
  induction entries generalizing room e with
  | nil =>
    rw [emitEntries] at h
    cases h
    rfl
  | cons entry entries ih =>
    obtain ⟨hhead, htail⟩ := List.forall_mem_cons.mp hentries
    obtain ⟨name, entry⟩ := entry
    rw [emitEntries] at h
    split at h
    · cases h
    · obtain ⟨first, hfirst, h⟩ := Option.bind_eq_some_iff.mp h
      rw [if_neg (not_not.mpr (hhead true _ first hfirst))] at h
      obtain ⟨rest, hrest, rfl⟩ := Option.map_eq_some_iff.mp h
      have hok := ih htail hrest
      exact hok

theorem emitItems_ok_exact {items : List Value} (hitems : ∀ item ∈ items, OkIfFits p item)
    (h : emitItems p room items = some e) (hok : e.status = .ok) :
    e = ⟨.ok, trailed (itemTexts p items), []⟩ := by
  induction items generalizing room e with
  | nil =>
    rw [emitItems] at h
    cases h
    rfl
  | cons item items ih =>
    obtain ⟨hhead, htail⟩ := List.forall_mem_cons.mp hitems
    rw [emitItems] at h
    obtain ⟨first, hfirst, h⟩ := Option.bind_eq_some_iff.mp h
    split at h
    · rename_i hstatus
      cases h
      exact absurd hok hstatus
    · rename_i hstatus
      obtain ⟨rest, hrest, rfl⟩ := Option.map_eq_some_iff.mp h
      have hfits := hhead room first hfirst (not_not.mp hstatus)
      rw [emit_of_fits p room item hfits] at hfirst
      cases hfirst
      rw [ih htail hrest hok, itemTexts, trailed_cons, after_ok]

theorem emitEntries_ok_exact {entries : List (List UInt8 × Value)}
    (hentries : ∀ entry ∈ entries, OkIfFits p entry.2)
    (h : emitEntries p room entries = some e) (hok : e.status = .ok) :
    e = ⟨.ok, trailed (fieldTexts p entries), []⟩ := by
  induction entries generalizing room e with
  | nil =>
    rw [emitEntries] at h
    cases h
    rfl
  | cons entry entries ih =>
    obtain ⟨hhead, htail⟩ := List.forall_mem_cons.mp hentries
    obtain ⟨name, entry⟩ := entry
    rw [emitEntries] at h
    split at h
    · cases h
    · obtain ⟨first, hfirst, h⟩ := Option.bind_eq_some_iff.mp h
      split at h
      · rename_i hstatus
        cases h
        exact absurd hok hstatus
      · rename_i hstatus
        obtain ⟨rest, hrest, rfl⟩ := Option.map_eq_some_iff.mp h
        have hfits := hhead _ first hfirst (not_not.mp hstatus)
        rw [emit_of_fits p _ entry hfits] at hfirst
        cases hfirst
        rw [ih htail hrest hok, fieldTexts, trailed_cons, after_ok,
          List.append_assoc (keyText p name) (text p entry)]

/-- A container of members that are written whole has room for its brackets. -/
theorem emitContainer_ok_fits {opening closing : UInt8} {state : JSONState}
    {texts : List (List UInt8)}
    (h : emitContainer room opening closing state true (some ⟨.ok, trailed texts, []⟩) = some e) :
    (enclosed opening closing texts ++ [comma]).length ≤ room := by
  have hclose := closeText_trailed true opening closing texts
  rw [emitContainer, Option.bind_some, if_neg (not_not.mpr rfl)] at h
  unfold emitClose at h
  split at h
  · rename_i hle
    exact hclose ▸ hle
  · cases h

/-- A container that is begun has room for its opening bracket, and reports the status of its
members. -/
theorem container_members {opening closing : UInt8} {state : JSONState}
    {members : Option Emission}
    (h : (if room = 0 then none else emitContainer room opening closing state outer members) =
      some e) :
    ∃ m, members = some m ∧ e.status = m.status ∧ 1 ≤ room ∧
      emitContainer room opening closing state outer (some m) = some e := by
  split at h
  · cases h
  · rename_i hroom
    obtain ⟨m, hm, hstatus⟩ := emitContainer_status h
    exact ⟨m, hm, hstatus, Nat.one_le_iff_ne_zero.mpr hroom, hm ▸ h⟩

theorem range_members {items : List Value} (h : emit p outer room (.range items) = some e) :
    ∃ m, emitItems p (room - 1) items = some m ∧ e.status = m.status ∧ 1 ≤ room ∧
      emitContainer room lbracket rbracket .array outer (some m) = some e := by
  rw [emit] at h
  exact container_members h

theorem map_members {entries : List (List UInt8 × Value)}
    (h : emit p outer room (.map entries) = some e) :
    ∃ m, emitEntries p (room - 1) entries = some m ∧ e.status = m.status ∧ 1 ≤ room ∧
      emitContainer room lbrace rbrace .object outer (some m) = some e := by
  rw [emit] at h
  exact container_members h

theorem primitive_okIfFits (p : Platform) (x : Primitive) : OkIfFits p (.primitive x) := by
  intro room e h hok
  rw [emit, emitPrimitive] at h
  split at h
  · cases h
    cases hok
  · unfold emitText at h
    split at h
    · rename_i hlt
      rwa [List.length_append, List.length_singleton]
    · cases h

theorem members_alwaysOk {shape : Shape}
    (ih : ∀ v : Value, v.HasShape shape → AlwaysOk p v) {v : Value}
    (hv : v.HasShape (.members shape)) : AlwaysOk p v := by
  intro outer room e h
  rcases hv.members_cases with ⟨items, rfl, hitems⟩ | ⟨entries, rfl, hentries⟩
  · obtain ⟨m, hm, hstatus, -⟩ := range_members h
    rw [hstatus, emitItems_alwaysOk (fun item hitem => ih item (hitems item hitem)) hm]
  · obtain ⟨m, hm, hstatus, -⟩ := map_members h
    rw [hstatus, emitEntries_alwaysOk (fun entry hentry => ih entry.2 (hentries entry hentry)) hm]

theorem members_okIfFits {shape : Shape}
    (ih : ∀ v : Value, v.HasShape shape → OkIfFits p v) {v : Value}
    (hv : v.HasShape (.members shape)) : OkIfFits p v := by
  intro room e h hok
  rcases hv.members_cases with ⟨items, rfl, hitems⟩ | ⟨entries, rfl, hentries⟩
  · obtain ⟨m, hm, hstatus, -, hclose⟩ := range_members h
    rw [emitItems_ok_exact (fun item hitem => ih item (hitems item hitem)) hm (hstatus ▸ hok)]
      at hclose
    exact emitContainer_ok_fits hclose
  · obtain ⟨m, hm, hstatus, -, hclose⟩ := map_members h
    rw [emitEntries_ok_exact (fun entry hentry => ih entry.2 (hentries entry hentry)) hm
      (hstatus ▸ hok)] at hclose
    exact emitContainer_ok_fits hclose

/-- Of one type either all values are always `Ok`, since they end in structs, or each is `Ok`
only if it fits. -/
theorem alwaysOk_or_okIfFits (p : Platform) (shape : Shape) :
    (∀ v : Value, v.HasShape shape → AlwaysOk p v) ∨
      ∀ v : Value, v.HasShape shape → OkIfFits p v := by
  induction shape with
  | primitive =>
    apply Or.inr
    intro v hv
    obtain ⟨x, rfl⟩ := hv.primitive_cases
    exact primitive_okIfFits p x
  | struct =>
    apply Or.inl
    intro v hv
    obtain ⟨fields, rfl⟩ := hv.struct_cases
    exact struct_alwaysOk p fields
  | members shape ih =>
    exact ih.imp (fun ih v hv => members_alwaysOk ih hv) fun ih v hv => members_okIfFits ih hv

theorem cutInItems_of_emitItems {items : List Value} (hfits : ∀ item ∈ items, OkIfFits p item)
    (hcuts : ∀ item ∈ items, NoticesCuts p item) (h : emitItems p room items = some e)
    (hstatus : e.status ≠ .ok) : CutInItems p room items := by
  induction items generalizing room e with
  | nil =>
    rw [emitItems] at h
    cases h
    exact absurd rfl hstatus
  | cons item items ih =>
    obtain ⟨hfit, hfits⟩ := List.forall_mem_cons.mp hfits
    obtain ⟨hcut, hcuts⟩ := List.forall_mem_cons.mp hcuts
    rw [emitItems] at h
    obtain ⟨first, hfirst, h⟩ := Option.bind_eq_some_iff.mp h
    split at h
    · rename_i hne
      exact Or.inl (hcut true room first hfirst hne)
    · rename_i hok
      obtain ⟨rest, hrest, rfl⟩ := Option.map_eq_some_iff.mp h
      have hle := hfit room first hfirst (not_not.mp hok)
      rw [emit_of_fits p room item hle] at hfirst
      cases hfirst
      rw [List.length_append, List.length_singleton] at hle hrest
      exact Or.inr ⟨hle, ih hfits hcuts hrest hstatus⟩

theorem cutInEntries_of_emitEntries {entries : List (List UInt8 × Value)}
    (hfits : ∀ entry ∈ entries, OkIfFits p entry.2)
    (hcuts : ∀ entry ∈ entries, NoticesCuts p entry.2) (h : emitEntries p room entries = some e)
    (hstatus : e.status ≠ .ok) : CutInEntries p room entries := by
  induction entries generalizing room e with
  | nil =>
    rw [emitEntries] at h
    cases h
    exact absurd rfl hstatus
  | cons entry entries ih =>
    obtain ⟨hfit, hfits'⟩ := List.forall_mem_cons.mp hfits
    obtain ⟨hcut, hcuts'⟩ := List.forall_mem_cons.mp hcuts
    obtain ⟨name, entry⟩ := entry
    rw [emitEntries] at h
    split at h
    · cases h
    · rename_i hkey
      refine ⟨Nat.le_of_not_lt hkey, ?_⟩
      obtain ⟨first, hfirst, h⟩ := Option.bind_eq_some_iff.mp h
      split at h
      · rename_i hne
        exact Or.inl (hcut true _ first hfirst hne)
      · rename_i hok
        obtain ⟨rest, hrest, rfl⟩ := Option.map_eq_some_iff.mp h
        have hle := hfit _ first hfirst (not_not.mp hok)
        rw [emit_of_fits p _ entry hle] at hfirst
        cases hfirst
        rw [List.length_append, List.length_singleton] at hle hrest
        have hroom : (keyText p name).length + ((text p entry).length + 1) ≤ room := by
          dsimp only at hle
          omega
        exact Or.inr ⟨hroom, ih hfits' hcuts' hrest hstatus⟩

theorem noticesCuts (p : Platform) {shape : Shape} {v : Value} (hv : v.HasShape shape) :
    NoticesCuts p v := by
  induction shape generalizing v with
  | primitive =>
    intro outer room e h hstatus
    obtain ⟨x, rfl⟩ := hv.primitive_cases
    rw [emit, emitPrimitive] at h
    split at h
    · assumption
    · unfold emitText at h
      split at h
      · cases h
        exact absurd rfl hstatus
      · cases h
  | struct =>
    intro outer room e h hstatus
    obtain ⟨fields, rfl⟩ := hv.struct_cases
    exact absurd (struct_alwaysOk p fields outer room e h) hstatus
  | members shape ih =>
    intro outer room e h hstatus
    rcases alwaysOk_or_okIfFits p shape with hok | hfits
    · exact absurd (members_alwaysOk hok hv outer room e h) hstatus
    · rcases hv.members_cases with ⟨items, rfl, hitems⟩ | ⟨entries, rfl, hentries⟩
      · obtain ⟨m, hm, hm', hroom, -⟩ := range_members h
        exact ⟨hroom, cutInItems_of_emitItems (fun item hitem => hfits item (hitems item hitem))
          (fun item hitem => ih (hitems item hitem)) hm (hm' ▸ hstatus)⟩
      · obtain ⟨m, hm, hm', hroom, -⟩ := map_members h
        exact ⟨hroom, cutInEntries_of_emitEntries
          (fun entry hentry => hfits entry.2 (hentries entry hentry))
          (fun entry hentry => ih (hentries entry hentry)) hm (hm' ▸ hstatus)⟩

end

/-! ## Whole runs -/

theorem failsCleanly_iff_emit (p : Platform) (buf : View) (v : Value) (mem : Mem) :
    FailsCleanly p buf v mem ↔ ∃ e, emit p false buf.size v = some e ∧ e.status ≠ .ok := by
  have hrun := refines_serialize p buf v mem
  constructor
  · rintro ⟨r, hr, hstatus⟩
    rw [hr] at hrun
    cases he : emit p false buf.size v with
    | none =>
      rw [he] at hrun
      cases hrun
    | some e =>
      rw [he] at hrun
      obtain ⟨mem', heq, -⟩ := hrun
      refine ⟨e, rfl, ?_⟩
      rw [Option.some.inj heq] at hstatus
      exact hstatus
  · rintro ⟨e, he, hstatus⟩
    rw [he] at hrun
    obtain ⟨mem', heq, -⟩ := hrun
    exact ⟨_, heq, hstatus⟩

theorem not_failsCleanly_struct (p : Platform) (buf : View) (fields : List (List UInt8 × Value))
    (mem : Mem) : ¬ FailsCleanly p buf (.struct fields) mem := by
  rw [failsCleanly_iff_emit]
  rintro ⟨e, he, hstatus⟩
  exact hstatus (struct_alwaysOk p fields false buf.size e he)

/-- A value fails cleanly exactly in the buffers that end in a primitive whose check fails, below
ranges and maps only. -/
theorem failsCleanly_iff (p : Platform) (buf : View) {v : Value} {shape : Shape} (mem : Mem)
    (hv : v.HasShape shape) : FailsCleanly p buf v mem ↔ CutIn p buf.size v := by
  rw [failsCleanly_iff_emit]
  constructor
  · rintro ⟨e, he, hstatus⟩
    exact noticesCuts p hv false buf.size e he hstatus
  · exact emit_of_cutIn p false buf.size v

/-- `[true,false]`. -/
def flags : Value := .range [.primitive (.bool true), .primitive (.bool false)]

theorem failsCleanly_iff_flags :
    8 < (text onePointFive flags).length ∧
      FailsCleanly onePointFive ⟨4096, 8⟩ flags fun _ => 0 := by
  have hshape : flags.HasShape (.members .primitive) := by
    simp [flags, Value.HasShape]
  have hstop : Stops onePointFive 2 (.bool false) := by decide
  have hcut : CutIn onePointFive 8 flags := ⟨by decide, Or.inr ⟨by decide, Or.inl hstop⟩⟩
  exact ⟨by decide, (failsCleanly_iff onePointFive ⟨4096, 8⟩ (fun _ => 0) hshape).mpr hcut⟩

/-- `{"a":7}` is cut to `{"a"}` with status `Ok` in six bytes, and in three bytes the second
quote is written behind the buffer. -/
def record : Value := .struct [([0x61], .primitive (.int 7))]

theorem record_not_failsCleanly :
    6 < (text onePointFive record).length ∧
      (¬ FailsCleanly onePointFive ⟨4096, 6⟩ record fun _ => 0) ∧
      (serialize onePointFive ⟨4096, 6⟩ record fun _ => 0).map (·.1) = some ⟨⟨4096, 5⟩, .ok⟩ ∧
      (serialize onePointFive ⟨4096, 3⟩ record fun _ => 0).isNone :=
  ⟨by decide, not_failsCleanly_struct _ _ _ _, by decide, by decide⟩

end Csics.Json
