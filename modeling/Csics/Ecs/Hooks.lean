import Csics.Base.Traverse
import Csics.Ecs.Builder

/-!
# Hooks stay with their layers

A hook belongs to the layer that was added last. `Attached` says so of the slots of a builder, and
every call keeps it (`Attached.step`). The padding puts the hook to the end of the hooks of the
layers before, `build` fills the rest, and `run` calls each hook behind its layer
(`schedule_build`).
-/

namespace Csics.Ecs

open Base

variable {L K H : Type*}

/-- The layers that the calls add. -/
def addedLayers (calls : List (BuilderCall L K H)) : List L := calls.filterMap BuilderCall.layer?

/-- Slot `i` has the hooks that were added between layer `i` and the next one. -/
structure Attached (calls : List (BuilderCall L K H)) (slots : List (Option H)) : Prop where
  length_eq : slots.length = (addedLayers calls).length
  hook_iff : ∀ i hook, slots[i]? = some (some hook) ↔
    ∃ before after, calls = before ++ .addHook hook :: after ∧ (addedLayers before).length = i + 1

namespace Attached

variable {calls : List (BuilderCall L K H)} {c : BuilderCall L K H} {slots slots' : List (Option H)}

theorem nil : Attached ([] : List (BuilderCall L K H)) [] := by
  refine ⟨rfl, ?_⟩
  intro i hook
  constructor
  · intro h
    cases h
  · intro h
    obtain ⟨before, after, hsplit, -⟩ := h
    exact absurd hsplit.symm (List.append_ne_nil_of_right_ne_nil _ (List.cons_ne_nil _ _))

/-- The hook is the last call or one of the calls before it. -/
theorem split_concat_iff {hook : H} {i : Nat} :
    (∃ before after, calls ++ [c] = before ++ .addHook hook :: after ∧
        (addedLayers before).length = i) ↔
      (∃ before after, calls = before ++ .addHook hook :: after ∧
        (addedLayers before).length = i) ∨
      c = .addHook hook ∧ (addedLayers calls).length = i := by
  constructor
  · intro h
    obtain ⟨before, after, hsplit, hi⟩ := h
    rcases List.eq_nil_or_concat after with rfl | ⟨after, d, rfl⟩
    · obtain ⟨rfl, hc⟩ := List.append_inj' hsplit rfl
      exact Or.inr ⟨(List.cons.inj hc).1, hi⟩
    · have hsplit' : calls ++ [c] = (before ++ .addHook hook :: after) ++ [d] := by
        rw [hsplit, List.concat_eq_append, List.append_assoc, List.cons_append]
      obtain ⟨rfl, -⟩ := List.append_inj' hsplit' rfl
      exact Or.inl ⟨before, after, rfl, hi⟩
  · intro h
    rcases h with ⟨before, after, rfl, hi⟩ | ⟨rfl, hi⟩
    · exact ⟨before, after ++ [c], by rw [List.append_assoc, List.cons_append], hi⟩
    · exact ⟨calls, [], rfl, hi⟩

theorem addedLayers_concat (calls : List (BuilderCall L K H)) (c : BuilderCall L K H) :
    addedLayers (calls ++ [c]) = addedLayers calls ++ c.layer?.toList := by
  rw [addedLayers, List.filterMap_append, List.filterMap_cons]
  cases c.layer? with
  | none => rfl
  | some systems => rfl

/-- A call that is no hook leaves the slots there are as they are. -/
theorem of_ne_addHook (h : Attached calls slots) (hc : ∀ hook, c ≠ .addHook hook)
    (hlength : slots'.length = (addedLayers (calls ++ [c])).length)
    (hsame : ∀ (i : Nat) (hook : H), slots'[i]? = some (some hook) ↔ slots[i]? = some (some hook)) :
    Attached (calls ++ [c]) slots' := by
  refine ⟨hlength, ?_⟩
  intro i hook
  rw [hsame, h.hook_iff, split_concat_iff]
  constructor
  · exact Or.inl
  · intro hsplit
    exact hsplit.resolve_right fun hlast => hc hook hlast.1

/-- Every call keeps the hooks at their layers. -/
theorem step (h : Attached calls slots) (hc : c.attach slots = some slots') :
    Attached (calls ++ [c]) slots' := by
  cases c with
  | addLayer systems =>
    cases hc
    apply h.of_ne_addHook
    · intro hook hne
      cases hne
    · rw [addedLayers_concat, List.length_append, List.length_append, h.length_eq]
      rfl
    · intro i hook
      rw [getElem?_concat_eq_some_iff, or_iff_left]
      intro hlast
      cases hlast.2
  | addComponent d | addComponents ds | build =>
    cases hc
    apply h.of_ne_addHook
    · intro hook hne
      cases hne
    · rw [addedLayers_concat, h.length_eq]
      exact congrArg List.length (List.append_nil _).symm
    · exact fun i hook => Iff.rfl
  | addHook d =>
    rcases List.eq_nil_or_concat slots with rfl | ⟨slots, slot, rfl⟩
    · cases hc
    rw [List.concat_eq_append] at h hc
    rw [BuilderCall.attach, List.getLast?_concat, List.dropLast_concat] at hc
    -- only an empty last slot takes the hook
    cases slot with
    | some e => cases hc
    | none =>
      cases hc
      have hlength : (addedLayers calls).length = slots.length + 1 := by
        rw [← h.length_eq, List.length_append]
        rfl
      constructor
      · rw [addedLayers_concat, List.length_append, List.length_append, hlength]
        rfl
      · intro i hook
        have hiff := h.hook_iff i hook
        rw [getElem?_concat_eq_some_iff,
          or_iff_left fun hlast => (Option.some_ne_none hook).symm hlast.2] at hiff
        rw [getElem?_concat_eq_some_iff, split_concat_iff, ← hiff, hlength]
        apply or_congr_right
        constructor
        · intro hlast
          obtain ⟨rfl, hhook⟩ := hlast
          cases hhook
          exact ⟨rfl, rfl⟩
        · intro hlast
          obtain ⟨hhook, hi⟩ := hlast
          cases hhook
          exact ⟨(Nat.add_right_cancel hi).symm, rfl⟩

end Attached

namespace StaticWorldBuilder

variable {calls : List (BuilderCall L K H)} {b : StaticWorldBuilder L K H}

/-- What the calls leave behind. -/
theorem attached_of_run (hrun : run call init calls = some b) :
    b.layers = addedLayers calls ∧ Attached calls b.slots := by
  induction calls using List.reverseRecOn generalizing b with
  | nil =>
    cases hrun
    exact ⟨rfl, .nil⟩
  | append_singleton calls c ih =>
    rw [run_append] at hrun
    obtain ⟨b₁, hrun₁, hrest⟩ := Option.bind_eq_some_iff.mp hrun
    obtain ⟨b', hcall, hnil⟩ := run_cons_eq_some.mp hrest
    cases hnil
    obtain ⟨hlayers, hattached⟩ := ih hrun₁
    obtain ⟨hlayers', hattach⟩ := slots_of_call hcall
    refine ⟨?_, hattached.step hattach⟩
    rw [hlayers', hlayers, Attached.addedLayers_concat]

/-- There is a hook for each layer, and `run` calls it behind the layer. -/
theorem schedule_build (b : StaticWorldBuilder L K H) :
    b.build.schedule = some (b.layers.zip b.build.hooks) := by
  have hlength : b.build.hooks.length = b.layers.length := by
    rw [build, makePaddedHook_eq]
    exact b.length_slots
  rw [StaticWorld.schedule, mapM_eq_some_iff, List.forall₂_iff_get]
  have hzip : (b.layers.zip b.build.hooks).length = b.layers.length := by
    rw [List.length_zip, hlength, Nat.min_self]
  refine ⟨List.length_range.trans hzip.symm, ?_⟩
  intro i hi hi'
  have hlayer : i < b.layers.length := hzip ▸ hi'
  have hhook : i < b.build.hooks.length := hlength ▸ hlayer
  rw [List.get_eq_getElem, List.get_eq_getElem, List.getElem_range, List.getElem_zip,
    List.getElem?_eq_getElem hhook]
  show (b.layers[i]?).bind _ = _
  rw [List.getElem?_eq_getElem hlayer]
  rfl

/-- After any calls the world has a hook for each layer: the one that was added behind it, or the
empty one. -/
theorem hooks_of_run (hrun : run call init calls = some b) :
    b.build.hooks.length = (addedLayers calls).length ∧
      (∀ before hook after k, calls = before ++ .addHook hook :: after →
        (addedLayers before).length = k →
          1 ≤ k ∧ b.build.hooks[k - 1]? = some (some hook)) ∧
      (∀ i < (addedLayers calls).length, (∀ before hook after,
        calls = before ++ .addHook hook :: after → (addedLayers before).length ≠ i + 1) →
          b.build.hooks[i]? = some none) ∧
      b.build.schedule = some ((addedLayers calls).zip b.build.hooks) := by
  obtain ⟨hlayers, hattached⟩ := attached_of_run hrun
  have hhooks : b.build.hooks = b.slots := b.makePaddedHook_eq
  rw [schedule_build, hhooks, hlayers]
  refine ⟨hattached.length_eq, ?_, ?_, rfl⟩
  · intro before hook after k hsplit hk
    have hpos : 0 < k := by
      by_contra hzero
      rw [hsplit, run_append] at hrun
      obtain ⟨b₁, hrun₁, hrest⟩ := Option.bind_eq_some_iff.mp hrun
      obtain ⟨b', hcall, -⟩ := run_cons_eq_some.mp hrest
      -- no hook is added before the first layer
      have hmissing := (slots_of_addHook hcall).1
      rw [(attached_of_run hrun₁).1, hk] at hmissing
      omega
    refine ⟨hpos, (hattached.hook_iff _ _).mpr ⟨before, after, hsplit, ?_⟩⟩
    rw [hk, Nat.sub_add_cancel hpos]
  · intro i hi hnone
    rw [← hattached.length_eq] at hi
    cases hslot : b.slots[i] with
    | none => rw [List.getElem?_eq_getElem hi, hslot]
    | some hook =>
      have hget : b.slots[i]? = some (some hook) := by
        rw [List.getElem?_eq_getElem hi, hslot]
      obtain ⟨before, after, hsplit, hbefore⟩ := (hattached.hook_iff i hook).mp hget
      exact absurd hbefore (hnone before hook after hsplit)

/-- A world of three layers whose second one has no hook. -/
theorem hooks_of_run_three : ∃ b : StaticWorldBuilder Nat Unit Char,
    run call init [.addLayer 1, .addHook 'a', .addLayer 2, .addComponent (), .addLayer 3,
      .addHook 'b', .build] = some b ∧
      b.build.hooks = [some 'a', none, some 'b'] ∧
      b.build.schedule = some ([1, 2, 3].zip b.build.hooks) :=
  ⟨_, rfl, rfl, (@hooks_of_run Nat Unit Char [.addLayer 1, .addHook 'a', .addLayer 2,
    .addComponent (), .addLayer 3, .addHook 'b', .build] _ rfl).2.2.2⟩

/-- The world runs its layers as `World.run` does, each with the hook of its slot. -/
theorem run_build {κ : Type*} {C : κ → Type*} [DecidableEq κ]
    {calls : List (BuilderCall (List (List (Call κ C))) K (List (WorldOp κ C)))}
    {b : StaticWorldBuilder (List (List (Call κ C))) K (List (WorldOp κ C))}
    (hrun : run call init calls = some b) (w : World κ C) :
    b.build.run w = w.run (((addedLayers calls).zip b.slots).map fun (systems, hook) =>
      ⟨systems, hook.getD []⟩) := by
  rw [StaticWorld.run, schedule_build, (attached_of_run hrun).1]
  show World.run w (((addedLayers calls).zip b.makePaddedHook).map _) = _
  rw [makePaddedHook_eq]

end StaticWorldBuilder

end Csics.Ecs
