import Illuminator.Model.Strings
import Mathlib.Data.List.AList

/-! # Configuration values

`core/common/config.h` keeps a configuration as one table of strings, in which a nested key is written
with dots, and reads a nested value by the prefix of its keys. `core/config/yaml_config_loader.h`
flattens a parsed YAML node into such a table. A node is what yaml-cpp has parsed, with the entries of
a map in the order of the document and every scalar as its text.
-/

namespace Illuminator

structure ConfigValue where
  values_ : AList fun _ : Bytes => Bytes

namespace ConfigValue

def empty : ConfigValue := ⟨∅⟩

def Set (c : ConfigValue) (key value : Bytes) : ConfigValue := ⟨c.values_.insert key value⟩

/-- The key of `nested` below `key`, where the empty key names `key` itself. -/
def fullKey (key nested : Bytes) : Bytes := if nested = [] then key else key ++ 0x2E :: nested

/-- The loop that copies `nested.Raw()` below a key. -/
def SetNested (c : ConfigValue) (key : Bytes) (nested : ConfigValue) : ConfigValue :=
  nested.values_.entries.foldl (fun c entry => c.Set (fullKey key entry.1) entry.2) c

/-- The child with the value of the key itself, if it has one. -/
def child (c : ConfigValue) (key : Bytes) : ConfigValue :=
  match c.values_.lookup key with
  | some value => empty.Set [] value
  | none => empty

/-- `operator[]`. -/
def subscript (c : ConfigValue) (key : Bytes) : ConfigValue :=
  let keyPrefix := key ++ [0x2E]
  c.values_.entries.foldl
    (fun child entry =>
      if entry.1.take keyPrefix.length = keyPrefix then child.Set (entry.1.drop keyPrefix.length) entry.2 else child)
    (c.child key)

def IsNull (c : ConfigValue) : Bool := c.values_.entries.isEmpty

def AsString (c : ConfigValue) (default : Bytes) : Bytes := (c.values_.lookup []).getD default

def AsList (c : ConfigValue) : List Bytes :=
  match c.values_.lookup (ascii "_size") with
  | none =>
    match c.values_.lookup [] with
    | some text => if text = [] then [] else [text]
    | none => []
  | some size =>
    match stoull size with
    | none => []
    | some n => (List.range n).filterMap fun i => c.values_.lookup (to_string i)

end ConfigValue

namespace YAML

inductive Node where
  | null
  | scalar (text : Bytes)
  | sequence (items : List Node)
  | map (entries : List (Bytes × Node))

/-- The variables of the loop of `ParseSequenceInto`. -/
structure Items where
  cv : ConfigValue
  joined : Bytes
  all_scalar : Bool

/-- The key of an item, or of the size, of the sequence at `pre`. -/
def below (pre key : Bytes) : Bytes := if pre = [] then key else pre ++ 0x2E :: key

/-- `ParseSequenceInto` after its loop. -/
def finish (pre : Bytes) (size : ℕ) (loop : Items) : ConfigValue :=
  let cv := loop.cv.Set (below pre (ascii "_size")) (to_string size)
  if loop.all_scalar ∧ pre ≠ [] then cv.Set pre loop.joined else cv

mutual

def ParseConfigValue : Node → ConfigValue
  | .null => .empty
  | .map entries => ParseEntries .empty entries
  | .scalar text => ConfigValue.empty.Set [] text
  | .sequence items => finish [] items.length (ParseItems [] 0 ⟨.empty, [], true⟩ items)

/-- The loop over the entries of a map. -/
def ParseEntries (cv : ConfigValue) : List (Bytes × Node) → ConfigValue
  | [] => cv
  | (key, child) :: rest =>
    ParseEntries (match child with
      | .scalar text => cv.Set key text
      | .sequence items => finish key items.length (ParseItems key 0 ⟨cv, [], true⟩ items)
      | .map entries => cv.SetNested key (ParseConfigValue (.map entries))
      | .null => cv) rest

/-- The loop of `ParseSequenceInto` from its item `i`. -/
def ParseItems (pre : Bytes) (i : ℕ) (loop : Items) : List Node → Items
  | [] => loop
  | item :: rest =>
    let idx := below pre (to_string i)
    ParseItems pre (i + 1) (match item with
      | .scalar text =>
        { loop with
          cv := loop.cv.Set idx text
          joined := (if 0 < i then loop.joined ++ [0x2C] else loop.joined) ++ text }
      | .map entries =>
        { loop with
          all_scalar := false
          cv := loop.cv.SetNested idx (ParseConfigValue (.map entries)) }
      | .sequence items =>
        { loop with
          all_scalar := false
          cv := finish idx items.length (ParseItems idx 0 ⟨loop.cv, [], true⟩ items) }
      | .null => loop) rest

end

/-- `ParseSequenceInto`. -/
def ParseSequenceInto (cv : ConfigValue) (pre : Bytes) (seq : List Node) : ConfigValue :=
  finish pre seq.length (ParseItems pre 0 ⟨cv, [], true⟩ seq)

/-- What either loop stores for a child at its key. -/
def Store (cv : ConfigValue) (key : Bytes) : Node → ConfigValue
  | .scalar text => cv.Set key text
  | .sequence items => ParseSequenceInto cv key items
  | .map entries => cv.SetNested key (ParseConfigValue (.map entries))
  | .null => cv

theorem ParseEntries_cons (cv : ConfigValue) (key : Bytes) (child : Node) (rest : List (Bytes × Node)) :
    ParseEntries cv ((key, child) :: rest) = ParseEntries (Store cv key child) rest := by
  cases child <;> rfl

/-- The loop variables that one item leaves. -/
def Items.next (pre : Bytes) (i : ℕ) (loop : Items) (item : Node) : Items where
  cv := Store loop.cv (below pre (to_string i)) item
  joined := match item with
    | .scalar text => (if 0 < i then loop.joined ++ [0x2C] else loop.joined) ++ text
    | _ => loop.joined
  all_scalar := match item with
    | .map _ | .sequence _ => false
    | _ => loop.all_scalar

theorem ParseItems_cons (pre : Bytes) (i : ℕ) (loop : Items) (item : Node) (rest : List Node) :
    ParseItems pre i loop (item :: rest) = ParseItems pre (i + 1) (loop.next pre i item) rest := by
  cases item <;> rfl

end YAML

end Illuminator
