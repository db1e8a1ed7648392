import Illuminator.Model.Arena
import Mathlib.Logic.Function.Basic

/-! # Interning

Batches copy strings into arenas, which they may share. The standard leaves open what an
`unordered_map` answers once one of its keys has changed, so that answer is an input of the call.
-/

namespace Illuminator

namespace Interning

open Regions
open Arena (View)

/-- An entry of `intern_cache_`: one view is key and value. `hashed` is what it read when it was inserted. -/
structure Entry where
  interned : View
  hashed : Bytes
  deriving DecidableEq

structure Batch (A : Type*) where
  arena_ : A
  intern_cache_ : List Entry := []

/-- A view that `InternString` has returned. -/
structure Returned where
  source : Bytes
  view : View
  deriving DecidableEq

/-- The batches and their arenas in one memory. For each batch `returned` lists the views returned and
`copied` the strings copied since its last `Clear`. -/
structure World (A B : Type*) where
  memory : Memory UInt8
  arenas : A → Arena
  batches : B → Batch A
  returned : B → List Returned
  copied : B → List Bytes

/-- What the map answers when a key no longer reads what it was inserted with. -/
structure Undefined where
  find : Option View := none
  emplace : Bool := true

/-- Every key reads what it was inserted with. -/
def Intact (memory : Memory UInt8) (cache : List Entry) : Prop := ∀ e ∈ cache, memory.read e.interned = e.hashed

instance (memory : Memory UInt8) (cache : List Entry) : Decidable (Intact memory cache) :=
  inferInstanceAs (Decidable (∀ e ∈ cache, _))

def find (memory : Memory UInt8) (cache : List Entry) (s : Bytes) (undefined : Undefined) : Option View :=
  if Intact memory cache then
    (cache.find? fun e => decide (memory.read e.interned = s)).map Entry.interned
  else undefined.find

/-- A key that is equal to one in the map is not inserted. -/
def emplace (memory : Memory UInt8) (cache : List Entry) (interned : View) (undefined : Undefined) : List Entry :=
  let s := memory.read interned
  if Intact memory cache then
    if cache.any fun e => decide (memory.read e.interned = s) then cache else ⟨interned, s⟩ :: cache
  else if undefined.emplace then ⟨interned, s⟩ :: cache else cache

section

variable {A B : Type*} [DecidableEq A] [DecidableEq B]

def InternString (w : World A B) (b : B) (s : Bytes) (malloc : Malloc) (undefined : Undefined) :
    Option (View × World A B) :=
  let batch := w.batches b
  if s.isEmpty then some (⟨0, 0⟩, w)
  else
    match find w.memory batch.intern_cache_ s undefined with
    | some it => some (it, w)
    | none =>
      ((w.arenas batch.arena_).CopyString w.memory s malloc).map fun (interned, memory, arena) =>
        (interned,
          { w with
            memory
            arenas := Function.update w.arenas batch.arena_ arena
            batches := Function.update w.batches b
              { batch with intern_cache_ := emplace memory batch.intern_cache_ interned undefined }
            copied := Function.update w.copied b (s :: w.copied b) })

def Clear (w : World A B) (b : B) : World A B :=
  let batch := w.batches b
  { w with
    arenas := Function.update w.arenas batch.arena_ (w.arenas batch.arena_).Reset
    batches := Function.update w.batches b { batch with intern_cache_ := [] }
    returned := Function.update w.returned b []
    copied := Function.update w.copied b [] }

inductive Operation (B : Type*) where
  | InternString (batch : B) (s : Bytes)
  | Clear (batch : B)

def World.step (w : World A B) (malloc : Malloc) (undefined : Undefined) : Operation B → Option (World A B)
  | .InternString b s =>
    (InternString w b s malloc undefined).map fun (view, next) =>
      { next with returned := Function.update next.returned b (⟨s, view⟩ :: next.returned b) }
  | .Clear b => some (Clear w b)

end

end Interning

end Illuminator
