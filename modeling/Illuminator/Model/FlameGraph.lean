import Illuminator.ToMathlib.NamedTrees
import Mathlib.Data.UInt

/-! # The flame graph

`convertToFlameNode` makes the tree that the pages draw from the samples of a profile. A string of the pages is the
list of its UTF-16 code units, and their numbers are natural ones, which a double holds exactly up to 2^53.
-/

namespace Illuminator

namespace FlameGraph

abbrev JsString := List UInt16

/-- A literal of the source, all of whose characters are ASCII. -/
def literal (text : String) : JsString := text.toList.map fun c => UInt16.ofNat c.toNat

structure StackFrame where
  function_name : Option JsString
  deriving DecidableEq

structure StackSample where
  comm : Option JsString := none
  user_stack : Option (List StackFrame) := none
  kernel_stack : Option (List StackFrame) := none
  duration_ns : Option ℕ := none
  count : Option ℕ := none
  deriving DecidableEq

/-- Its `value` is the label. -/
abbrev FlameNode := NamedTree JsString ℕ

/-- `text || other`. -/
def textOr (text : Option JsString) (other : JsString) : JsString :=
  if text.getD [] = [] then other else text.getD []

/-- `[${comm}]`. -/
def bracketed (comm : JsString) : JsString := literal "[" ++ comm ++ literal "]"

/-- The `frames` of a sample. -/
def frames (sample : StackSample) : List JsString :=
  let comm := textOr sample.comm (literal "unknown")
  let user := (sample.user_stack.getD []).reverse.map fun f =>
    if (literal "[0x").isPrefixOf (f.function_name.getD []) then bracketed comm
    else textOr f.function_name (bracketed comm)
  let kernel := (sample.kernel_stack.getD []).reverse.map fun f => textOr f.function_name (literal "[kernel]")
  let frames := comm :: (user ++ kernel)
  if frames.length = 1 then frames ++ [literal "[no stack]"] else frames

/-- The `weight` of a sample. -/
def weight (isOffCpu : Bool) (sample : StackSample) : ℕ :=
  let duration_ns := sample.duration_ns.getD 0
  if isOffCpu ∧ duration_ns ≠ 0 then max 1 ((duration_ns + 500) / 1000)
  else if sample.count.getD 0 = 0 then 1
  else sample.count.getD 0

/-- The first child of the first frame's name, or a new one behind the others, gains the count, and the rest goes on
below it. -/
def insertStack (node : FlameNode) (frames : List JsString) (count : ℕ) : FlameNode := node.insert frames count

/-- `stack_samples` may be missing. -/
def convertToFlameNode (stack_samples : Option (List StackSample)) (isOffCpu : Bool) : FlameNode :=
  let samples := stack_samples.getD []
  let root := samples.foldl (fun root sample => insertStack root (frames sample) (weight isOffCpu sample))
    (.node (literal "root") 0 [])
  .node root.name (root.children.map NamedTree.label).sum root.children

theorem frames_ne_nil (sample : StackSample) : frames sample ≠ [] := by
  rw [frames]
  split_ifs
  · exact List.append_ne_nil_of_right_ne_nil _ (List.cons_ne_nil _ _)
  · exact List.cons_ne_nil _ _

theorem weight_pos (isOffCpu : Bool) (sample : StackSample) : 0 < weight isOffCpu sample := by
  rw [weight]
  split_ifs <;> omega

end FlameGraph

end Illuminator
