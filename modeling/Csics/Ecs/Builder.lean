import Csics.Ecs.World

/-!
# The builder of a world

`StaticWorldBuilder` of `include/csics/sim/ecs/World.hpp`. The layers, the components and the hooks
of a world are packs of types, and every call gives a builder of a new type. A call is `none` where
a static assertion fails.

The hooks are kept in a tuple that may be shorter than the one of the layers. `slots` is the tuple
filled up: one place for each layer, empty or with the hook of this layer. A call of the builder
does to the slots what `BuilderCall.attach` says (`slots_of_call`).
-/

namespace Csics.Ecs

open Base

/-- A builder. A hook is `none` if it is one of the lambdas without a body that
`make_empty_hooks_tuple` makes. -/
structure StaticWorldBuilder (L K H : Type*) where
  layers : List L
  components : List K
  hooks : List (Option H)
  /-- `static_assert(sizeof...(Hooks) <= sizeof...(Layers))` of the class. -/
  hooks_le : hooks.length ≤ layers.length
  /-- The length of a pack is a `size_t`. -/
  layers_lt : layers.length < 2 ^ 64

/-- The members of `StaticWorld` that the builder gives to it. -/
structure StaticWorld (L K H : Type*) where
  layers : List L
  components : List K
  hooks : List (Option H)

/-- The calls of a builder. -/
inductive BuilderCall (L K H : Type*) where
  | addLayer (systems : L)
  | addComponent (c : K)
  | addComponents (cs : List K)
  | addHook (hook : H)
  | build

variable {L K H : Type*}

/-! ## The calls -/

namespace StaticWorldBuilder

/-- The builder of these packs, if its class can be instantiated. -/
def ofPacks (layers : List L) (components : List K) (hooks : List (Option H)) :
    Option (StaticWorldBuilder L K H) :=
  if h : hooks.length ≤ layers.length ∧ layers.length < 2 ^ 64 then
    some ⟨layers, components, hooks, h.1, h.2⟩
  else none

/-- `StaticWorldBuilder()`. -/
def init : StaticWorldBuilder L K H := ⟨[], [], [], Nat.le_refl 0, Nat.two_pow_pos 64⟩

/-- `sizeof...(Layers)`. -/
def sizeofLayers (b : StaticWorldBuilder L K H) : UInt64 := .ofNat b.layers.length

/-- `sizeof...(Hooks)`. -/
def sizeofHooks (b : StaticWorldBuilder L K H) : UInt64 := .ofNat b.hooks.length

/-- `required_padding`. -/
def requiredPadding (b : StaticWorldBuilder L K H) : UInt64 := b.sizeofLayers - b.sizeofHooks - 1

/-- `make_empty_hooks_tuple<N>()`. -/
def makeEmptyHooksTuple (N : UInt64) : List (Option H) := List.replicate N.toNat none

/-- `make_padded_hook()`. -/
def makePaddedHook (b : StaticWorldBuilder L K H) : List (Option H) :=
  b.hooks ++ makeEmptyHooksTuple (b.requiredPadding + 1)

/-- `make_padded_hook(hook)`. -/
def makePaddedHookWith (b : StaticWorldBuilder L K H) (hook : H) : List (Option H) :=
  b.hooks ++ makeEmptyHooksTuple b.requiredPadding ++ [some hook]

/-- `add_layer(systems...)`. -/
def addLayer (b : StaticWorldBuilder L K H) (systems : L) : Option (StaticWorldBuilder L K H) :=
  ofPacks (b.layers ++ [systems]) b.components b.hooks

/-- `add_component<C>()`. -/
def addComponent (b : StaticWorldBuilder L K H) (c : K) : Option (StaticWorldBuilder L K H) :=
  ofPacks b.layers (b.components ++ [c]) b.hooks

/-- `add_components<Cs...>()`. -/
def addComponents (b : StaticWorldBuilder L K H) (cs : List K) :
    Option (StaticWorldBuilder L K H) :=
  ofPacks b.layers (b.components ++ cs) b.hooks

/-- `add_hook(hook)`, with its two assertions. -/
def addHook (b : StaticWorldBuilder L K H) (hook : H) : Option (StaticWorldBuilder L K H) :=
  if b.sizeofHooks ≤ b.sizeofLayers ∧ b.sizeofLayers > 0 then
    ofPacks b.layers b.components (b.makePaddedHookWith hook)
  else none

/-- `build()`. -/
def build (b : StaticWorldBuilder L K H) : StaticWorld L K H :=
  ⟨b.layers, b.components, b.makePaddedHook⟩

/-- The builder for the next call; `build` leaves this one as it is. -/
def call (b : StaticWorldBuilder L K H) : BuilderCall L K H → Option (StaticWorldBuilder L K H)
  | .addLayer systems => b.addLayer systems
  | .addComponent c => b.addComponent c
  | .addComponents cs => b.addComponents cs
  | .addHook hook => b.addHook hook
  | .build => some b

end StaticWorldBuilder

/-! ## What a run does with the hooks -/

namespace StaticWorld

/-- What `run` goes through: the systems of each layer and, right behind them,
`std::get<Is>(hooks_)`, which does not compile for a tuple that is too short. -/
def schedule (world : StaticWorld L K H) : Option (List (L × Option H)) :=
  (List.range world.layers.length).mapM fun i =>
    world.layers[i]?.bind fun systems => world.hooks[i]?.map fun hook => (systems, hook)

/-- `run(dt)`, for systems and hooks that are given by what they do. -/
def run {κ : Type*} {C : κ → Type*} [DecidableEq κ]
    (world : StaticWorld (List (List (Call κ C))) K (List (WorldOp κ C))) (w : World κ C) :
    Option (World κ C) :=
  world.schedule.bind fun layers =>
    w.run (layers.map fun (systems, hook) => ⟨systems, hook.getD []⟩)

end StaticWorld

/-! ## Slots -/

namespace BuilderCall

/-- The layer that the call adds. -/
def layer? : BuilderCall L K H → Option L
  | addLayer systems => some systems
  | _ => none

/-- What the call does to the slots: a layer comes with an empty one, and a hook takes the last
one, which must be empty. -/
def attach (slots : List (Option H)) : BuilderCall L K H → Option (List (Option H))
  | addLayer _ => some (slots ++ [none])
  | addHook hook =>
    match slots.getLast? with
    | some none => some (slots.dropLast ++ [some hook])
    | _ => none
  | _ => some slots

end BuilderCall

namespace StaticWorldBuilder

variable {b b' : StaticWorldBuilder L K H} {c : BuilderCall L K H} {layers : List L}
  {components : List K} {hooks : List (Option H)}

/-- One place for each layer. -/
def slots (b : StaticWorldBuilder L K H) : List (Option H) :=
  b.hooks ++ List.replicate (b.layers.length - b.hooks.length) none

theorem length_slots (b : StaticWorldBuilder L K H) : b.slots.length = b.layers.length := by
  have hle := b.hooks_le
  rw [slots, List.length_append, List.length_replicate]
  omega

theorem ofPacks_eq_some (h : ofPacks layers components hooks = some b) :
    b.layers = layers ∧ b.components = components ∧ b.hooks = hooks := by
  unfold ofPacks at h
  split at h
  · cases h
    exact ⟨rfl, rfl, rfl⟩
  · cases h

theorem ofPacks_isSome_iff : (ofPacks layers components hooks).isSome ↔
    hooks.length ≤ layers.length ∧ layers.length < 2 ^ 64 := by
  unfold ofPacks
  split
  · exact iff_of_true rfl ‹_›
  · exact iff_of_false Bool.false_ne_true ‹_›

theorem toNat_sizeofLayers (b : StaticWorldBuilder L K H) :
    b.sizeofLayers.toNat = b.layers.length :=
  UInt64.toNat_ofNat_of_lt' b.layers_lt

theorem toNat_sizeofHooks (b : StaticWorldBuilder L K H) : b.sizeofHooks.toNat = b.hooks.length :=
  UInt64.toNat_ofNat_of_lt' (Nat.lt_of_le_of_lt b.hooks_le b.layers_lt)

/-- The one is added to what it has been taken from. -/
theorem toNat_requiredPadding_add_one (b : StaticWorldBuilder L K H) :
    (b.requiredPadding + 1).toNat = b.layers.length - b.hooks.length := by
  have hle : b.sizeofHooks ≤ b.sizeofLayers := by
    rw [UInt64.le_iff_toNat_le, toNat_sizeofHooks, toNat_sizeofLayers]
    exact b.hooks_le
  rw [requiredPadding, UInt64.sub_add_cancel, UInt64.toNat_sub_of_le _ _ hle, toNat_sizeofLayers,
    toNat_sizeofHooks]

theorem toNat_requiredPadding (h : b.hooks.length < b.layers.length) :
    b.requiredPadding.toNat = b.layers.length - b.hooks.length - 1 := by
  have hsucc := b.toNat_requiredPadding_add_one
  have hone : 1 ≤ b.requiredPadding + 1 := by
    rw [UInt64.le_iff_toNat_le, hsucc, UInt64.toNat_one]
    omega
  rw [← hsucc, ← UInt64.add_sub_cancel b.requiredPadding 1, UInt64.toNat_sub_of_le _ _ hone,
    UInt64.sub_add_cancel]
  rfl

/-- With a hook in every layer, the subtraction wraps around. -/
theorem toNat_requiredPadding_of_eq (h : b.hooks.length = b.layers.length) :
    b.requiredPadding.toNat = 2 ^ 64 - 1 := by
  have heq : b.sizeofLayers = b.sizeofHooks := by
    apply UInt64.toNat.inj
    rw [toNat_sizeofLayers, toNat_sizeofHooks, h]
  rw [requiredPadding, heq, UInt64.sub_self]
  rfl

/-- The world has the slots as its hooks. -/
theorem makePaddedHook_eq (b : StaticWorldBuilder L K H) : b.makePaddedHook = b.slots := by
  rw [makePaddedHook, makeEmptyHooksTuple, toNat_requiredPadding_add_one]
  rfl

/-- A hook is added where one is missing, and nowhere else: the wrapped number of empty hooks is
more than the class allows. -/
theorem addHook_isSome_iff (b : StaticWorldBuilder L K H) (hook : H) :
    (b.addHook hook).isSome ↔ b.hooks.length < b.layers.length := by
  have hle := b.hooks_le
  have hlt := b.layers_lt
  have hlength : (b.makePaddedHookWith hook).length =
      b.hooks.length + b.requiredPadding.toNat + 1 := by
    rw [makePaddedHookWith, makeEmptyHooksTuple, List.length_append, List.length_append,
      List.length_replicate]
    rfl
  unfold addHook
  constructor
  · intro hsome
    by_contra hnot
    have heq : b.hooks.length = b.layers.length := by omega
    split at hsome
    · have hfits := (ofPacks_isSome_iff.mp hsome).1
      rw [hlength, toNat_requiredPadding_of_eq heq] at hfits
      omega
    · cases hsome
  · intro hmissing
    have hassert : b.sizeofHooks ≤ b.sizeofLayers ∧ b.sizeofLayers > 0 := by
      rw [gt_iff_lt, UInt64.lt_iff_toNat_lt, UInt64.le_iff_toNat_le, toNat_sizeofHooks,
        toNat_sizeofLayers, UInt64.toNat_zero]
      omega
    rw [if_pos hassert, ofPacks_isSome_iff, hlength, toNat_requiredPadding hmissing]
    omega

/-- The hook is the last one then, and its place is the one of the last layer. -/
theorem slots_of_addHook {hook : H} (h : b.addHook hook = some b') :
    b.hooks.length < b.layers.length ∧ b'.layers = b.layers ∧
      b'.slots = b.slots.dropLast ++ [some hook] := by
  have hmissing := (b.addHook_isSome_iff hook).mp (by rw [h]; rfl)
  obtain ⟨n, hn⟩ : ∃ n, b.layers.length - b.hooks.length = n + 1 :=
    ⟨b.layers.length - b.hooks.length - 1, by omega⟩
  unfold addHook at h
  split at h
  · obtain ⟨hlayers, -, hhooks⟩ := ofPacks_eq_some h
    rw [makePaddedHookWith, makeEmptyHooksTuple, toNat_requiredPadding hmissing, hn,
      Nat.add_sub_cancel] at hhooks
    have hfull : b'.layers.length - b'.hooks.length = 0 := by
      rw [hlayers, hhooks, List.length_append, List.length_append, List.length_replicate,
        List.length_singleton]
      omega
    refine ⟨hmissing, hlayers, ?_⟩
    rw [slots, hfull, List.replicate_zero, List.append_nil, hhooks, slots, hn,
      List.replicate_succ', ← List.append_assoc, List.dropLast_concat]
  · cases h

/-- Each call does to the slots what it is for. -/
theorem slots_of_call (h : b.call c = some b') :
    b'.layers = b.layers ++ c.layer?.toList ∧ c.attach b.slots = some b'.slots := by
  have hle := b.hooks_le
  cases c with
  | addLayer systems =>
    obtain ⟨hlayers, -, hhooks⟩ := ofPacks_eq_some h
    refine ⟨hlayers, ?_⟩
    have hsucc : (b.layers ++ [systems]).length - b.hooks.length =
        b.layers.length - b.hooks.length + 1 := by
      rw [List.length_append, List.length_singleton]
      omega
    rw [slots, slots, hlayers, hhooks, hsucc, List.replicate_succ', ← List.append_assoc]
    rfl
  | addComponent c =>
    obtain ⟨hlayers, -, hhooks⟩ := ofPacks_eq_some h
    refine ⟨hlayers.trans (List.append_nil _).symm, ?_⟩
    rw [slots, slots, hlayers, hhooks]
    rfl
  | addComponents cs =>
    obtain ⟨hlayers, -, hhooks⟩ := ofPacks_eq_some h
    refine ⟨hlayers.trans (List.append_nil _).symm, ?_⟩
    rw [slots, slots, hlayers, hhooks]
    rfl
  | addHook hook =>
    obtain ⟨hmissing, hlayers, hslots⟩ := slots_of_addHook h
    refine ⟨hlayers.trans (List.append_nil _).symm, ?_⟩
    obtain ⟨n, hn⟩ : ∃ n, b.layers.length - b.hooks.length = n + 1 :=
      ⟨b.layers.length - b.hooks.length - 1, by omega⟩
    have hlast : b.slots.getLast? = some none := by
      rw [slots, hn, List.replicate_succ', ← List.append_assoc, List.getLast?_concat]
    rw [BuilderCall.attach, hlast, hslots]
  | build =>
    cases h
    exact ⟨(List.append_nil _).symm, rfl⟩

end StaticWorldBuilder

end Csics.Ecs
