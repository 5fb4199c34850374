/-
Pools that hand values out again.

Values of several types may share a kind, and the pool keeps one stack for each
kind.  A value is reset when it is handed out, not when it is freed.
-/

namespace VirtualHosts

/-- Types whose values can be handed out again.  `τ` names the types. -/
structure Recycling (τ : Type) where
  Item : τ → Type
  kind : τ → String
  fresh : (type : τ) → Item type
  reset : (type : τ) → Item type → Item type

namespace Recycling

variable {τ : Type}

structure Typed (types : Recycling τ) where
  type : τ
  value : types.Item type

end Recycling

/-- The free values of each kind, the latest first. -/
structure Pool {τ : Type} (types : Recycling τ) where
  free : String → List types.Typed

namespace Pool

variable {τ : Type} {types : Recycling τ}

def empty : Pool types :=
  ⟨fun _ => []⟩

def available (pool : Pool types) (kind : String) : Nat :=
  (pool.free kind).length

def withFree (pool : Pool types) (kind : String) (values : List types.Typed) : Pool types :=
  ⟨fun other => if other = kind then values else pool.free other⟩

def release (pool : Pool types) (freed : types.Typed) : Pool types :=
  let kind := types.kind freed.type
  pool.withFree kind (freed :: pool.free kind)

/-- A value that was popped, as one of the wanted type: reset if it has that
type, and a fresh value if it has another, or if nothing was popped. -/
def recycle [DecidableEq τ] (type : τ) : Option types.Typed → types.Item type
  | none => types.fresh type
  | some popped =>
      if same : popped.type = type then types.reset type (same ▸ popped.value)
      else types.fresh type

/-- Hands out a value of a type.  The latest value freed under its kind leaves the
pool, also when it has another type and is lost. -/
def acquire [DecidableEq τ] (pool : Pool types) (type : τ) : types.Item type × Pool types :=
  let values := pool.free (types.kind type)
  (recycle type values.head?, pool.withFree (types.kind type) values.tail)

end Pool

/-! ### Use of a pool -/

structure PoolUse {τ : Type} (types : Recycling τ) where
  pool : Pool types := .empty
  held : List (String × types.Typed) := []

namespace PoolUse

variable {τ : Type} {types : Recycling τ}

inductive Step (types : Recycling τ) where
  /-- Takes a value; one that the slot already holds is dropped. -/
  | acquire (slot : String) (type : τ)
  | change (slot : String) (change : (type : τ) → types.Item type → types.Item type)
  | free (slot : String)
  | drop (slot : String)
  | detach (slot : String)

def without (held : List (String × types.Typed)) (slot : String) :
    List (String × types.Typed) :=
  held.filter (·.1 != slot)

/-- Makes a step, and gives the value that it is about.  There is none if the
slot holds nothing; then nothing changes. -/
def step [DecidableEq τ] (use : PoolUse types) : Step types → Option types.Typed × PoolUse types
  | .acquire slot type =>
      let (value, pool) := use.pool.acquire type
      (some ⟨type, value⟩, ⟨pool, (slot, ⟨type, value⟩) :: without use.held slot⟩)
  | .change slot change =>
      match use.held.lookup slot with
      | none => (none, use)
      | some ⟨type, value⟩ =>
          let changed : types.Typed := ⟨type, change type value⟩
          (some changed, { use with held := (slot, changed) :: without use.held slot })
  | .free slot =>
      match use.held.lookup slot with
      | none => (none, use)
      | some value => (some value, ⟨use.pool.release value, without use.held slot⟩)
  | .drop slot | .detach slot =>
      (use.held.lookup slot, { use with held := without use.held slot })

end PoolUse

end VirtualHosts
