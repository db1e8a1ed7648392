import Illuminator.Model.FlameGraph
import Mathlib.Data.Rat.Defs

/-! # The comparison of two profiles

The page has its own copy of `convertToFlameNode`, the same as the flame graph's. `computeDiff` compares two trees by
the names in them, and `buildDiffFlame` colours the second one. A `Map` is the list of its entries in their order.
-/

namespace Illuminator

namespace DiffView

open FlameGraph (JsString FlameNode literal)

/-- `map.set`: an entry keeps its place. -/
def mapSet (map : List (JsString × ℕ)) (key : JsString) (value : ℕ) : List (JsString × ℕ) :=
  match map with
  | [] => [(key, value)]
  | entry :: rest => if entry.1 = key then (key, value) :: rest else entry :: mapSet rest key value

/-- `map.get(key) || 0`. -/
def mapGet (map : List (JsString × ℕ)) (key : JsString) : ℕ :=
  ((map.find? fun entry => entry.1 = key).map Prod.snd).getD 0

mutual

/-- `walk`, which adds to the map that `aggregateFunctions` returns. -/
def walk (map : List (JsString × ℕ)) : FlameNode → List (JsString × ℕ)
  | .node name value children => walkAll (mapSet map name (mapGet map name + value)) children

def walkAll (map : List (JsString × ℕ)) : List FlameNode → List (JsString × ℕ)
  | [] => map
  | child :: rest => walkAll (walk map child) rest

end

def aggregateFunctions (node : FlameNode) : List (JsString × ℕ) := walk [] node

structure DiffEntry where
  name : JsString
  baseValue : ℕ
  compValue : ℕ
  deriving DecidableEq

def computeDiff (base comp : FlameNode) : List DiffEntry :=
  let baseMap := aggregateFunctions base
  let compMap := aggregateFunctions comp
  let allNames := (baseMap.map Prod.fst ++ compMap.map Prod.fst).eraseDups.filter (· ≠ literal "root")
  allNames.map fun name => { name, baseValue := mapGet baseMap name, compValue := mapGet compMap name }

structure DiffLabel where
  value : ℕ
  delta : ℚ
  deriving DecidableEq

abbrev DiffFlameNode := NamedTree JsString DiffLabel

/-- The `delta` of `annotate`. -/
def change (bv cv : ℕ) : ℚ := if 0 < bv then ((cv : ℚ) - bv) / bv else if 0 < cv then 1 else 0

/-- What `annotate` puts at a node. -/
def annotate (baseMap compMap : List (JsString × ℕ)) (name : JsString) (value : ℕ) : DiffLabel where
  value
  delta := change (mapGet baseMap name) (mapGet compMap name)

def buildDiffFlame (base comp : FlameNode) : DiffFlameNode :=
  let children := comp.children.map (NamedTree.map (annotate (aggregateFunctions base) (aggregateFunctions comp)))
  .node (literal "root") { value := (children.map fun child => child.label.value).sum, delta := 0 } children

end DiffView

end Illuminator
