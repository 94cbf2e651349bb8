import Csics.Base.Run
import Csics.Ecs.View

/-!
# The world

`StaticWorld` of `include/csics/sim/ecs/World.hpp` over a family `C k` of component
types. `WorldOp` lists what user code can do to a world, and `World.step` performs one
operation; it is `none` where an assertion of the source fails or an access is undefined.

`World.run` runs the layers: first every system of a layer, each with a `WorldContext`
that records its calls, then the hook of the layer, then the recorded operations. What the
systems and hooks are is not fixed, so a layer is given by the calls they make.
-/

namespace Csics.Ecs

open Base

/-- The default `N` of `SparseSet`. -/
def maxEntities : Nat := 1000

/-- The members of `StaticWorld` but the layers, the hooks and the executor. -/
structure World (κ : Type*) (C : κ → Type*) where
  components : ∀ k, SparseSet (C k) maxEntities
  entities : List Entity
  deadEntities : List UInt32
  generations : List UInt32

/-- A value of some component type. -/
abbrev Component (κ : Type*) (C : κ → Type*) := Σ k, C k

/-- The operations on a world; `setComponent` is a write through the reference that
`get_component` or a view returns. -/
inductive WorldOp (κ : Type*) (C : κ → Type*) where
  | addEntity
  | addComponent (e : Entity) (c : Component κ C)
  | setComponent (e : Entity) (c : Component κ C)
  | removeComponent (k : κ) (e : Entity)
  | removeEntity (e : Entity)

variable {κ : Type*} {C : κ → Type*}

namespace World

/-- A world as the constructor leaves it. -/
def init : World κ C := ⟨fun _ => .init, [], [], []⟩

/-- `add_entity()`. -/
def addEntity (w : World κ C) : Option (Entity × World κ C) :=
  match w.deadEntities.getLast? with
  | some id =>
    -- `e.generation = generations_[e.id]++` takes the value before the increment
    w.generations[id.toNat]?.map fun generation =>
      let e : Entity := ⟨id, generation⟩
      (e, { w with
        deadEntities := w.deadEntities.dropLast
        generations := w.generations.set id.toNat (generation + 1)
        entities := w.entities ++ [e] })
  | none =>
    let e : Entity := ⟨.ofNat w.entities.length, 0⟩
    some (e, { w with generations := w.generations ++ [0], entities := w.entities ++ [e] })

/-- `has_entity(e)`. -/
def hasEntity (w : World κ C) (e : Entity) : Bool := w.entities.any fun entity => entity.id = e.id

/-- `remove_entity(e)`. `std::make_tuple` copies the sets, and the entity is removed from
the copies. -/
def removeEntity (w : World κ C) (e : Entity) : Option (World κ C) :=
  if w.hasEntity e then
    let _copies := fun k => (w.components k).remove e
    some { w with
      deadEntities := w.deadEntities ++ [e.id]
      entities := w.entities.eraseP fun entity => entity.id = e.id }
  else none

variable [DecidableEq κ]

/-- Replace the set of one component type. -/
def setSparseSet (w : World κ C) (k : κ) (s : SparseSet (C k) maxEntities) : World κ C :=
  { w with components := Function.update w.components k s }

/-- `add_component(e, component)`, for a component that lies outside the set. -/
def addComponent (w : World κ C) (e : Entity) (c : Component κ C) : Option (World κ C) :=
  ((w.components c.1).insert e c.2).map (w.setSparseSet c.1)

/-- A write to `get_component(e)`. -/
def setComponent (w : World κ C) (e : Entity) (c : Component κ C) : Option (World κ C) :=
  match (w.components c.1).at? e with
  | some (some _) => w.addComponent e c
  | _ => none

/-- `remove_component(e)`. -/
def removeComponent (w : World κ C) (k : κ) (e : Entity) : Option (World κ C) :=
  ((w.components k).remove e).map (w.setSparseSet k)

/-- One operation. -/
def step (w : World κ C) : WorldOp κ C → Option (World κ C)
  | .addEntity => w.addEntity.map Prod.snd
  | .addComponent e c => w.addComponent e c
  | .setComponent e c => w.setComponent e c
  | .removeComponent k e => w.removeComponent k e
  | .removeEntity e => w.removeEntity e

end World

/-! ## The deferred operations of a system -/

structure DeferredEntity (κ : Type*) (C : κ → Type*) where
  entity : Entity
  components : List (Component κ C)

/-- `DeferredAction`: the alternatives of `std::variant`. -/
inductive DeferredAction (κ : Type*) (C : κ → Type*) where
  | addComponent (e : Entity) (c : Component κ C)
  | removeComponent (k : κ) (e : Entity)
  | destroyEntity (e : Entity)

structure WorldContext (κ : Type*) (C : κ → Type*) where
  deferredActions : List (DeferredAction κ C)
  deferredEntities : List (DeferredEntity κ C)

/-- What a system does while it runs: the four calls of its context, and writes to the
components its view yields. -/
inductive Call (κ : Type*) (C : κ → Type*) where
  | addEntity
  | addComponent (e : Entity) (c : Component κ C)
  | removeComponent (k : κ) (e : Entity)
  | destroyEntity (e : Entity)
  | setComponent (e : Entity) (c : Component κ C)

namespace WorldContext

def init : WorldContext κ C := ⟨[], []⟩

/-- `add_entity()`: the entity is added at once, its components later. -/
def addEntity (ctx : WorldContext κ C) (w : World κ C) : Option (World κ C × WorldContext κ C) :=
  w.addEntity.map fun (deferred, w) =>
    (w, { ctx with deferredEntities := ctx.deferredEntities ++ [⟨deferred, []⟩] })

/-- The component is recorded with the first deferred entity of that id. -/
def emplaceDeferred (e : Entity) (c : Component κ C) :
    List (DeferredEntity κ C) → Option (List (DeferredEntity κ C))
  | [] => none
  | d :: ds =>
    if d.entity.id = e.id then some ({ d with components := d.components ++ [c] } :: ds)
    else (emplaceDeferred e c ds).map (d :: ·)

/-- Record an action on an entity that must be in the world. -/
def record (ctx : WorldContext κ C) (w : World κ C) (e : Entity) (action : DeferredAction κ C) :
    Option (World κ C × WorldContext κ C) :=
  if w.hasEntity e then
    some (w, { ctx with deferredActions := ctx.deferredActions ++ [action] })
  else none

/-- `add_component(e, args...)`, where `c` is the component that is recorded. -/
def addComponent (ctx : WorldContext κ C) (w : World κ C) (e : Entity) (c : Component κ C) :
    Option (World κ C × WorldContext κ C) :=
  match emplaceDeferred e c ctx.deferredEntities with
  | some ds => some (w, { ctx with deferredEntities := ds })
  | none => ctx.record w e (.addComponent e c)

/-- `remove_component(e)`. -/
def removeComponent (ctx : WorldContext κ C) (w : World κ C) (k : κ) (e : Entity) :
    Option (World κ C × WorldContext κ C) :=
  ctx.record w e (.removeComponent k e)

/-- `destroy_entity(e)`. -/
def destroyEntity (ctx : WorldContext κ C) (w : World κ C) (e : Entity) :
    Option (World κ C × WorldContext κ C) :=
  ctx.record w e (.destroyEntity e)

/-- The operation that `run` performs for a recorded action. -/
def flushAction : DeferredAction κ C → WorldOp κ C
  | .addComponent e c => .addComponent e c
  | .removeComponent k e => .removeComponent k e
  | .destroyEntity e => .removeEntity e

/-- The operations that `run` performs for a context: the components of the deferred
entities first, then the deferred actions. -/
def flush (ctx : WorldContext κ C) : List (WorldOp κ C) :=
  (ctx.deferredEntities.flatMap fun d => d.components.map (.addComponent d.entity)) ++
    ctx.deferredActions.map flushAction

variable [DecidableEq κ]

/-- One call of a system. -/
def call : World κ C × WorldContext κ C → Call κ C → Option (World κ C × WorldContext κ C)
  | (w, ctx), .addEntity => ctx.addEntity w
  | (w, ctx), .addComponent e c => ctx.addComponent w e c
  | (w, ctx), .removeComponent k e => ctx.removeComponent w k e
  | (w, ctx), .destroyEntity e => ctx.destroyEntity w e
  | (w, ctx), .setComponent e c => (w.setComponent e c).map (·, ctx)

end WorldContext

/-! ## `run` -/

/-- What the systems of a layer and its hook do in one run. -/
structure Layer (κ : Type*) (C : κ → Type*) where
  systems : List (List (Call κ C))
  hook : List (WorldOp κ C)

namespace World

variable [DecidableEq κ]

/-- The systems of a layer, one after the other, each with a context of its own. -/
def runSystems : World κ C → List (List (Call κ C)) → Option (World κ C × List (WorldContext κ C))
  | w, [] => some (w, [])
  | w, calls :: systems =>
    (Base.run WorldContext.call (w, .init) calls).bind fun (w, ctx) =>
      (runSystems w systems).map fun (w, ctxs) => (w, ctx :: ctxs)

/-- One layer: its systems, its hook, and the flush of the contexts in order. -/
def runLayer (w : World κ C) (layer : Layer κ C) : Option (World κ C) :=
  (w.runSystems layer.systems).bind fun (w, ctxs) =>
    (Base.run step w layer.hook).bind fun w =>
      Base.run step w (ctxs.flatMap WorldContext.flush)

/-- `run(dt)`. -/
def run (w : World κ C) (layers : List (Layer κ C)) : Option (World κ C) :=
  Base.run runLayer w layers

end World

end Csics.Ecs
