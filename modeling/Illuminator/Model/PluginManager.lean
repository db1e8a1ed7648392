import Illuminator.Model.Status
import Illuminator.Model.Strings
import Mathlib.Data.List.AList
import Mathlib.Logic.Function.Basic

/-! # Loading plugins

`PluginManager` scans directories for shared libraries, `SoLoader` opens those that resolve to a file below one of the
directories, and what a library describes is registered beside the built-in plugins. What the file system and the
dynamic linker show is an input of each attempt. An exception of the directory iteration leaves the scan, and nothing
is registered then. A library describes its plugin with a name when its version is not the host's.
-/

namespace Illuminator

namespace PluginManager

/-- What a library describes. `create` is the function's result, if there is a function. -/
structure IlPluginDescriptor (P : Type) where
  api_version : UInt32
  name : Option Bytes
  type : UInt32
  create : Option (Option P)

inductive PluginType where
  | kSource
  | kProcessor
  | kAggregator
  | kSink
  deriving DecidableEq

/-- The enumerator of a number, if it is one. -/
def PluginType.of (type : UInt32) : Option PluginType :=
  if type = 0 then some .kSource
  else if type = 1 then some .kProcessor
  else if type = 2 then some .kAggregator
  else if type = 3 then some .kSink
  else none

variable {P : Type}

/-- A string's bytes as characters. -/
def shown (text : Bytes) : String := String.ofList (text.map fun byte => Char.ofNat byte.toNat)

/-! ## The registry -/

/-- A factory of a built-in plugin, or one that calls a library. -/
inductive Factory (P : Type) where
  | builtin (plugin : P)
  | bridged (desc : IlPluginDescriptor P)

def Factory.call : Factory P → Option P
  | .builtin plugin => some plugin
  | .bridged desc => desc.create.join

/-- The maps `sources_`, `processors_`, `aggregators_` and `sinks_`, by the type of their plugins. -/
structure PluginRegistry (P : Type) where
  factories : PluginType → AList fun _ : Bytes => Factory P := fun _ => ∅

namespace PluginRegistry

def Register (type : PluginType) (reg : PluginRegistry P) (name : Bytes) (factory : Factory P) : PluginRegistry P :=
  ⟨Function.update reg.factories type ((reg.factories type).insert name factory)⟩

def RegisterSource : PluginRegistry P → Bytes → Factory P → PluginRegistry P := Register .kSource
def RegisterProcessor : PluginRegistry P → Bytes → Factory P → PluginRegistry P := Register .kProcessor
def RegisterAggregator : PluginRegistry P → Bytes → Factory P → PluginRegistry P := Register .kAggregator
def RegisterSink : PluginRegistry P → Bytes → Factory P → PluginRegistry P := Register .kSink

def Create (type : PluginType) (reg : PluginRegistry P) (name : Bytes) : Option P :=
  ((reg.factories type).lookup name).bind Factory.call

def CreateSource : PluginRegistry P → Bytes → Option P := Create .kSource
def CreateProcessor : PluginRegistry P → Bytes → Option P := Create .kProcessor
def CreateAggregator : PluginRegistry P → Bytes → Option P := Create .kAggregator
def CreateSink : PluginRegistry P → Bytes → Option P := Create .kSink

end PluginRegistry

def BridgeDescriptorToRegistry (desc : IlPluginDescriptor P) (reg : PluginRegistry P) : PluginRegistry P :=
  match desc.create, desc.name with
  | some _, some name =>
    match PluginType.of desc.type with
    | some .kSource => reg.RegisterSource name (.bridged desc)
    | some .kProcessor => reg.RegisterProcessor name (.bridged desc)
    | some .kAggregator => reg.RegisterAggregator name (.bridged desc)
    | some .kSink => reg.RegisterSink name (.bridged desc)
    | none => reg
  | _, _ => reg

/-! ## Opening libraries -/

/-- What the system shows during one attempt: where a path leads, the handle of a library, and what the library's
function describes, if there is such a function and it does not return null. -/
structure System (P : Type) where
  realpath : Bytes → Option Bytes
  dlopen : Bytes → Except String ℕ
  describe : ℕ → Option (Option (IlPluginDescriptor P))

inductive DlCall where
  | dlopen (handle : ℕ)
  | dlclose (handle : ℕ)
  deriving DecidableEq

structure SoLoader (P : Type) where
  handles_ : List ℕ := []
  descriptors_ : List (IlPluginDescriptor P) := []
  allowed_dirs_ : List Bytes := []

def IL_PLUGIN_API_VERSION : UInt32 := 1

def SoLoader.SetAllowedDirs (loader : SoLoader P) (dirs : List Bytes) : SoLoader P :=
  { loader with allowed_dirs_ := dirs }

def SoLoader.IsPathAllowed (loader : SoLoader P) (system : System P) (path : Bytes) : Bool :=
  if loader.allowed_dirs_.isEmpty then true
  else
    match system.realpath path with
    | none => false
    | some abs_path =>
      loader.allowed_dirs_.any fun dir =>
        match system.realpath dir with
        | none => false
        | some dir_resolved =>
          (if dir_resolved.getLast? = some 0x2F then dir_resolved else dir_resolved ++ [0x2F]).isPrefixOf abs_path

/-- The loader after an attempt, the calls on the dynamic linker that succeed, and the status. -/
def SoLoader.LoadPlugin (loader : SoLoader P) (system : System P) (path : Bytes) :
    SoLoader P × List DlCall × Status :=
  if loader.IsPathAllowed system path = false then
    (loader, [], .Error .kPermissionDenied ("Plugin path '" ++ shown path ++
      "' is not under any allowed plugin directory"))
  else
    match system.dlopen path with
    | .error dlerror => (loader, [], .Error .kInternal ("dlopen failed: " ++ dlerror))
    | .ok handle =>
      match system.describe handle with
      | none =>
        (loader, [.dlopen handle, .dlclose handle],
          .Error .kInvalidArgument ("Symbol not found: " ++ "illuminator_plugin_describe"))
      | some none =>
        (loader, [.dlopen handle, .dlclose handle], .Error .kInternal "Plugin describe() returned null")
      | some (some desc) =>
        if desc.api_version ≠ IL_PLUGIN_API_VERSION then
          (loader, [.dlopen handle, .dlclose handle],
            .Error .kInvalidArgument ("Plugin '" ++ shown (desc.name.getD []) ++ "' API version " ++
              toString desc.api_version.toNat ++ " != host version " ++ toString IL_PLUGIN_API_VERSION.toNat))
        else
          ({ loader with handles_ := loader.handles_ ++ [handle], descriptors_ := loader.descriptors_ ++ [desc] },
            [.dlopen handle], .Ok)

/-! ## Scanning directories -/

/-- What a scan finds of a directory: whether it exists, its entries with what the system shows when each is tried, and
whether an exception ends the iteration after them. `exists` may throw as well. -/
structure Directory (P : Type) where
  exists_ : Option Bool
  entries : List (Bytes × System P)
  throws : Bool

/-- `path::extension`, of a file name. -/
def extension (name : Bytes) : Bytes :=
  if name = ascii "." ∨ name = ascii ".." ∨ 0x2E ∉ name.tail then []
  else 0x2E :: (name.reverse.takeWhile (· != 0x2E)).reverse

/-- `dir / name`. -/
def inside (dir name : Bytes) : Bytes := if dir.getLast? = some 0x2F then dir ++ name else dir ++ 0x2F :: name

/-- The loop over a directory's entries. -/
def loadEntries (dir : Bytes) : List (Bytes × System P) → SoLoader P → SoLoader P × List DlCall
  | [], loader => (loader, [])
  | (name, system) :: rest, loader =>
    if extension name = ascii ".so" then
      let tried := loader.LoadPlugin system (inside dir name)
      let later := loadEntries dir rest tried.1
      (later.1, tried.2.1 ++ later.2)
    else loadEntries dir rest loader

/-- The loop over the directories, and whether an exception has left it. -/
def loadDirs : List (Bytes × Directory P) → SoLoader P → SoLoader P × List DlCall × Bool
  | [], loader => (loader, [], false)
  | (dir, found) :: rest, loader =>
    match found.exists_ with
    | none => (loader, [], true)
    | some false => loadDirs rest loader
    | some true =>
      let here := loadEntries dir found.entries loader
      if found.throws then (here.1, here.2, true)
      else
        let later := loadDirs rest here.1
        (later.1, here.2 ++ later.2.1, later.2.2)

end PluginManager

/-- The loader, the registry, and the calls that were made on the dynamic linker. -/
structure PluginManager (P : Type) where
  so_loader_ : PluginManager.SoLoader P := {}
  registry : PluginManager.PluginRegistry P := {}
  calls : List PluginManager.DlCall := []

namespace PluginManager

variable {P : Type}

/-- The manager and the status, unless an exception leaves the scan. -/
def LoadPluginsFromDirs (m : PluginManager P) (dirs : List (Bytes × Directory P)) : PluginManager P × Option Status :=
  if dirs.isEmpty then (m, some .Ok)
  else
    let before_count := m.so_loader_.descriptors_.length
    let (loader, calls, threw) := loadDirs dirs (m.so_loader_.SetAllowedDirs (dirs.map Prod.fst))
    if threw then (⟨loader, m.registry, m.calls ++ calls⟩, none)
    else
      (⟨loader, (loader.descriptors_.drop before_count).foldl (fun reg desc => BridgeDescriptorToRegistry desc reg)
        m.registry, m.calls ++ calls⟩, some .Ok)

/-- The static initializer of a built-in plugin, or a scan. -/
inductive Action (P : Type) where
  | register (type : PluginType) (name : Bytes) (plugin : P)
  | load (dirs : List (Bytes × Directory P))

def act (m : PluginManager P) : Action P → PluginManager P
  | .register type name plugin => { m with registry := m.registry.Register type name (.builtin plugin) }
  | .load dirs => (m.LoadPluginsFromDirs dirs).1

end PluginManager

end Illuminator
