import Illuminator.Model.PluginManager
import Illuminator.ToMathlib.SeparatedPaths

/-! # The plugins that can be created

Built-in plugins are registered and directories are scanned, in any order and whatever the scans meet. The loader then
keeps open just the libraries that resolved below a scanned directory and described a plugin of the host's version;
every other library that was opened has been closed. A plugin is created by what was registered last under its type and
name, and a library whose function is called for it is still open.
-/

namespace Illuminator

namespace PluginManager

open SeparatedPaths

variable {P : Type}

/-! ## Where a path leads -/

/-- A resolved path. -/
def absolute (parts : List Bytes) : Bytes := 0x2F :: joined 0x2F parts

/-- The documented behaviour of `realpath`: what it returns starts with a slash, and no part is empty. -/
def Resolves (system : System P) : Prop :=
  ∀ path resolved, system.realpath path = some resolved →
    ∃ parts, (∀ part ∈ parts, SeparatedPaths.Part 0x2F part) ∧ resolved = absolute parts

/-- A path leads below one of the directories. -/
def Below (allowed : List Bytes) (system : System P) (path : Bytes) : Prop :=
  ∃ dir ∈ allowed, ∃ parts more, (∀ part ∈ parts ++ more, SeparatedPaths.Part 0x2F part) ∧
    system.realpath dir = some (absolute parts) ∧ system.realpath path = some (absolute (parts ++ more)) ∧
    (parts ≠ [] → more ≠ [])

theorem absolute_inj {parts others : List Bytes} (clean : ∀ part ∈ parts, SeparatedPaths.Part 0x2F part)
    (othersClean : ∀ part ∈ others, SeparatedPaths.Part 0x2F part) (same : absolute parts = absolute others) :
    parts = others := by
  rw [← segments_joined clean, ← segments_joined othersClean, (List.cons.inj same).2]

private theorem isPrefixOf_absolute {parts whole : List Bytes} (clean : ∀ part ∈ parts, SeparatedPaths.Part 0x2F part)
    (wholeClean : ∀ part ∈ whole, SeparatedPaths.Part 0x2F part) :
    ((if (absolute parts).getLast? = some 0x2F then absolute parts else absolute parts ++ [0x2F]).isPrefixOf
      (absolute whole)) = true ↔ ∃ more, whole = parts ++ more ∧ (parts ≠ [] → more ≠ []) := by
  rw [List.isPrefixOf_iff_prefix]
  by_cases root : parts = []
  · subst root
    change [0x2F] <+: absolute whole ↔ _
    exact iff_of_true (List.prefix_append [0x2F] _) ⟨whole, rfl, fun other => absurd rfl other⟩
  · have last : (absolute parts).getLast? ≠ some 0x2F := by
      have present : joined 0x2F parts ≠ [] := joined_ne_nil root (nil_notMem_of_parts clean)
      rw [absolute, List.getLast?_cons_of_ne_nil present]
      exact getLast?_joined clean
    rw [if_neg last, absolute, absolute, List.cons_append, List.cons_prefix_cons,
      joined_prefix_iff root clean wholeClean]
    constructor
    · rintro ⟨-, ⟨more, rfl⟩, apart⟩
      refine ⟨more, rfl, ?_⟩
      rintro - rfl
      exact apart (List.append_nil parts).symm
    · rintro ⟨more, rfl, below⟩
      exact ⟨rfl, List.prefix_append _ _, fun same => below root (List.self_eq_append_right.mp same)⟩

theorem IsPathAllowed_iff {loader : SoLoader P} (some_ : loader.allowed_dirs_ ≠ []) {system : System P}
    (resolves : Resolves system) (path : Bytes) :
    loader.IsPathAllowed system path = true ↔ Below loader.allowed_dirs_ system path := by
  have present : loader.allowed_dirs_.isEmpty = false := List.isEmpty_eq_false_iff.mpr some_
  unfold SoLoader.IsPathAllowed Below
  rw [present]
  simp only [Bool.false_eq_true, if_false]
  cases found : system.realpath path with
  | none => simp
  | some abs_path =>
    obtain ⟨whole, wholeClean, rfl⟩ := resolves path abs_path found
    simp only [List.any_eq_true]
    refine exists_congr fun dir => and_congr_right fun _ => ?_
    cases led : system.realpath dir with
    | none => simp
    | some dir_resolved =>
      obtain ⟨parts, clean, rfl⟩ := resolves dir dir_resolved led
      simp only [isPrefixOf_absolute clean wholeClean, Option.some.injEq]
      constructor
      · rintro ⟨more, rfl, below⟩
        exact ⟨parts, more, wholeClean, rfl, rfl, below⟩
      · rintro ⟨others, more, othersClean, same, rest, below⟩
        obtain rfl := absolute_inj clean (fun part member => othersClean part (List.mem_append_left _ member)) same
        exact ⟨more, absolute_inj wholeClean othersClean rest, below⟩

/-! ## One scan -/

/-- The library and what it describes, when an attempt keeps it open. -/
def admitted (allowed : List Bytes) (system : System P) (path : Bytes) : Option (ℕ × IlPluginDescriptor P) :=
  if ({ allowed_dirs_ := allowed } : SoLoader P).IsPathAllowed system path then
    match system.dlopen path with
    | .error _ => none
    | .ok handle =>
      match system.describe handle with
      | some (some desc) => if desc.api_version = IL_PLUGIN_API_VERSION then some (handle, desc) else none
      | _ => none
  else none

/-- The loader keeps the libraries in `found` and has closed all others that it opened. -/
structure Grown (before after : SoLoader P) (calls : List DlCall) (found : List (ℕ × IlPluginDescriptor P)) : Prop where
  handles : after.handles_ = before.handles_ ++ found.map Prod.fst
  descriptors : after.descriptors_ = before.descriptors_ ++ found.map Prod.snd
  allowed : after.allowed_dirs_ = before.allowed_dirs_
  balanced : ∀ h, calls.count (.dlopen h) = calls.count (.dlclose h) + (found.map Prod.fst).count h

theorem Grown.refl (loader : SoLoader P) : Grown loader loader [] [] where
  handles := (List.append_nil _).symm
  descriptors := (List.append_nil _).symm
  allowed := rfl
  balanced _ := rfl

theorem Grown.trans {first second third : SoLoader P} {calls others : List DlCall}
    {found more : List (ℕ × IlPluginDescriptor P)} (left : Grown first second calls found)
    (right : Grown second third others more) : Grown first third (calls ++ others) (found ++ more) where
  handles := by rw [right.handles, left.handles, List.map_append, List.append_assoc]
  descriptors := by rw [right.descriptors, left.descriptors, List.map_append, List.append_assoc]
  allowed := right.allowed.trans left.allowed
  balanced h := by
    rw [List.count_append, List.count_append, List.map_append, List.count_append, left.balanced, right.balanced]
    omega

theorem LoadPlugin_grown (loader : SoLoader P) (system : System P) (path : Bytes) :
    Grown loader (loader.LoadPlugin system path).1 (loader.LoadPlugin system path).2.1
      (admitted loader.allowed_dirs_ system path).toList := by
  have closed (handle : ℕ) : Grown loader loader [.dlopen handle, .dlclose handle] [] :=
    ⟨(List.append_nil _).symm, (List.append_nil _).symm, rfl, fun h => by simp [List.count_cons]⟩
  unfold SoLoader.LoadPlugin admitted
  change Grown _ _ _ (Option.toList (if loader.IsPathAllowed system path = true then _ else _))
  cases permitted : loader.IsPathAllowed system path with
  | false => exact .refl loader
  | true =>
    simp only [Bool.true_eq_false, if_false, if_true]
    cases system.dlopen path with
    | error dlerror => exact .refl loader
    | ok handle =>
      cases described : system.describe handle with
      | none =>
        simp only [described]
        exact closed handle
      | some result =>
        cases result with
        | none =>
          simp only [described]
          exact closed handle
        | some desc =>
          simp only [described]
          by_cases current : desc.api_version = IL_PLUGIN_API_VERSION
          · simp only [current, ne_eq, not_true_eq_false, if_false, if_true]
            exact ⟨rfl, rfl, rfl, fun h => by simp [List.count_cons]⟩
          · simp only [current, ne_eq, not_false_eq_true, if_true, if_false]
            exact closed handle

/-- The shared objects among a directory's entries, with what the system shows when each is tried. -/
def sharedObjects (dir : Bytes) (entries : List (Bytes × System P)) : List (Bytes × System P) :=
  (entries.filter fun entry => extension entry.1 = ascii ".so").map fun entry => (inside dir entry.1, entry.2)

/-- The shared objects that a scan comes to. -/
def visited : List (Bytes × Directory P) → List (Bytes × System P)
  | [] => []
  | (dir, found) :: rest =>
    match found.exists_ with
    | none => []
    | some false => visited rest
    | some true => sharedObjects dir found.entries ++ if found.throws then [] else visited rest

def interrupted : List (Bytes × Directory P) → Bool
  | [] => false
  | (_, found) :: rest =>
    match found.exists_ with
    | none => true
    | some false => interrupted rest
    | some true => found.throws || interrupted rest

theorem loadEntries_grown (dir : Bytes) (entries : List (Bytes × System P)) (loader : SoLoader P) :
    Grown loader (loadEntries dir entries loader).1 (loadEntries dir entries loader).2
      ((sharedObjects dir entries).flatMap fun tried => (admitted loader.allowed_dirs_ tried.2 tried.1).toList) := by
  induction entries generalizing loader with
  | nil => exact .refl loader
  | cons entry rest ih =>
    obtain ⟨name, system⟩ := entry
    rw [loadEntries, sharedObjects]
    by_cases shared : extension name = ascii ".so"
    · have one := LoadPlugin_grown loader system (inside dir name)
      have later := ih (loader.LoadPlugin system (inside dir name)).1
      rw [one.allowed] at later
      rw [List.filter_cons_of_pos (by simpa using shared), List.map_cons, List.flatMap_cons, if_pos shared]
      exact one.trans later
    · rw [List.filter_cons_of_neg (by simpa using shared), if_neg shared]
      exact ih loader

theorem loadDirs_grown (dirs : List (Bytes × Directory P)) (loader : SoLoader P) :
    (loadDirs dirs loader).2.2 = interrupted dirs ∧
      Grown loader (loadDirs dirs loader).1 (loadDirs dirs loader).2.1
        ((visited dirs).flatMap fun tried => (admitted loader.allowed_dirs_ tried.2 tried.1).toList) := by
  induction dirs generalizing loader with
  | nil => exact ⟨rfl, .refl loader⟩
  | cons entry rest ih =>
    obtain ⟨dir, found⟩ := entry
    unfold loadDirs visited interrupted
    cases there : found.exists_ with
    | none => exact ⟨rfl, .refl loader⟩
    | some present =>
      cases present with
      | false => exact ih loader
      | true =>
        have here := loadEntries_grown dir found.entries loader
        cases throws : found.throws with
        | true =>
          refine ⟨rfl, ?_⟩
          simp only [if_true, List.append_nil]
          exact here
        | false =>
          obtain ⟨ends, later⟩ := ih (loadEntries dir found.entries loader).1
          rw [here.allowed] at later
          refine ⟨ends, ?_⟩
          simp only [Bool.false_eq_true, if_false, List.flatMap_append]
          exact here.trans later

/-! ## Registrations -/

/-- What a descriptor is registered as. -/
def offer (desc : IlPluginDescriptor P) : Option (PluginType × Bytes × Factory P) :=
  match desc.create, desc.name with
  | some _, some name => (PluginType.of desc.type).map fun type => (type, name, .bridged desc)
  | _, _ => none

/-- The last factory under a type and a name. -/
def lastOffer (offered : List (PluginType × Bytes × Factory P)) (type : PluginType) (name : Bytes) : Option (Factory P) :=
  (offered.filter fun o => o.1 = type ∧ o.2.1 = name).getLast?.map fun o => o.2.2

def Registered (reg : PluginRegistry P) (offered : List (PluginType × Bytes × Factory P)) : Prop :=
  ∀ type name, (reg.factories type).lookup name = lastOffer offered type name

theorem Registered.register {reg : PluginRegistry P} {offered : List (PluginType × Bytes × Factory P)}
    (registered : Registered reg offered) (type : PluginType) (name : Bytes) (factory : Factory P) :
    Registered (reg.Register type name factory) (offered ++ [(type, name, factory)]) := by
  intro other key
  unfold lastOffer PluginRegistry.Register
  rw [List.filter_append]
  by_cases sameType : type = other
  · subst sameType
    simp only [Function.update_self]
    by_cases sameName : name = key
    · subst sameName
      rw [AList.lookup_insert, List.filter_cons_of_pos (by simp), List.filter_nil, List.getLast?_concat, Option.map_some]
    · rw [AList.lookup_insert_ne (Ne.symm sameName), List.filter_cons_of_neg (by simp [sameName]), List.filter_nil,
        List.append_nil]
      exact registered type key
  · simp only [Function.update_of_ne (Ne.symm sameType)]
    rw [List.filter_cons_of_neg (by simp [sameType]), List.filter_nil,
      List.append_nil]
    exact registered other key

theorem Registered.bridge {reg : PluginRegistry P} {offered : List (PluginType × Bytes × Factory P)}
    (registered : Registered reg offered) (desc : IlPluginDescriptor P) :
    Registered (BridgeDescriptorToRegistry desc reg) (offered ++ (offer desc).toList) := by
  have ignored : Registered reg (offered ++ []) := by
    rw [List.append_nil]
    exact registered
  unfold BridgeDescriptorToRegistry offer
  cases desc.create with
  | none => exact ignored
  | some create =>
    cases desc.name with
    | none => exact ignored
    | some name =>
      cases PluginType.of desc.type with
      | none => exact ignored
      | some type =>
        cases type with
        | kSource => exact registered.register .kSource name (.bridged desc)
        | kProcessor => exact registered.register .kProcessor name (.bridged desc)
        | kAggregator => exact registered.register .kAggregator name (.bridged desc)
        | kSink => exact registered.register .kSink name (.bridged desc)

theorem Registered.bridgeEach {reg : PluginRegistry P} {offered : List (PluginType × Bytes × Factory P)}
    (registered : Registered reg offered) (descriptors : List (IlPluginDescriptor P)) :
    Registered (descriptors.foldl (fun reg desc => BridgeDescriptorToRegistry desc reg) reg)
      (offered ++ descriptors.flatMap fun desc => (offer desc).toList) := by
  induction descriptors generalizing reg offered with
  | nil =>
    rw [List.flatMap_nil, List.append_nil]
    exact registered
  | cons desc rest ih =>
    rw [List.foldl_cons, List.flatMap_cons, ← List.append_assoc]
    exact ih (registered.bridge desc)

/-! ## Whole runs -/

/-- The libraries that an action keeps open. -/
def loaded : Action P → List (ℕ × IlPluginDescriptor P)
  | .register _ _ _ => []
  | .load dirs => (visited dirs).flatMap fun tried => (admitted (dirs.map Prod.fst) tried.2 tried.1).toList

/-- What an action registers. -/
def offers : Action P → List (PluginType × Bytes × Factory P)
  | .register type name plugin => [(type, name, .builtin plugin)]
  | .load dirs =>
    if interrupted dirs then [] else ((loaded (.load dirs)).map Prod.snd).flatMap fun desc => (offer desc).toList

structure Kept (history : List (Action P)) (m : PluginManager P) : Prop where
  handles : m.so_loader_.handles_ = (history.flatMap loaded).map Prod.fst
  descriptors : m.so_loader_.descriptors_ = (history.flatMap loaded).map Prod.snd
  balanced : ∀ h, m.calls.count (.dlopen h) = m.calls.count (.dlclose h) + m.so_loader_.handles_.count h
  registered : Registered m.registry (history.flatMap offers)

theorem LoadPluginsFromDirs_eq (m : PluginManager P) {dirs : List (Bytes × Directory P)} (some_ : dirs ≠ []) :
    (m.LoadPluginsFromDirs dirs).1 =
      let scanned := loadDirs dirs (m.so_loader_.SetAllowedDirs (dirs.map Prod.fst))
      ⟨scanned.1, if scanned.2.2 then m.registry
        else (scanned.1.descriptors_.drop m.so_loader_.descriptors_.length).foldl
          (fun reg desc => BridgeDescriptorToRegistry desc reg) m.registry, m.calls ++ scanned.2.1⟩ := by
  unfold LoadPluginsFromDirs
  rw [List.isEmpty_eq_false_iff.mpr some_]
  generalize loadDirs dirs (m.so_loader_.SetAllowedDirs (dirs.map Prod.fst)) = scanned
  obtain ⟨loader, calls, threw⟩ := scanned
  cases threw <;> rfl

theorem kept_act {history : List (Action P)} {m : PluginManager P} (kept : Kept history m) (action : Action P) :
    Kept (history ++ [action]) (act m action) := by
  obtain ⟨handles, descriptors, balanced, registered⟩ := kept
  have loads : (history ++ [action]).flatMap loaded = history.flatMap loaded ++ loaded action := by
    rw [List.flatMap_append, List.flatMap_singleton]
  have registers : (history ++ [action]).flatMap offers = history.flatMap offers ++ offers action := by
    rw [List.flatMap_append, List.flatMap_singleton]
  cases action with
  | register type name plugin =>
    refine ⟨?_, ?_, balanced, ?_⟩
    · rw [loads, loaded, List.append_nil]
      exact handles
    · rw [loads, loaded, List.append_nil]
      exact descriptors
    · rw [registers]
      exact registered.register type name (.builtin plugin)
  | load dirs =>
    by_cases nothing : dirs = []
    · subst nothing
      refine ⟨?_, ?_, balanced, ?_⟩
      · rw [loads]
        exact handles.trans (by rw [loaded, visited, List.flatMap_nil, List.append_nil])
      · rw [loads]
        exact descriptors.trans (by rw [loaded, visited, List.flatMap_nil, List.append_nil])
      · rw [registers]
        change Registered m.registry (history.flatMap offers ++ [])
        rw [List.append_nil]
        exact registered
    · obtain ⟨ends, grown⟩ := loadDirs_grown dirs (m.so_loader_.SetAllowedDirs (dirs.map Prod.fst))
      change Grown _ _ _ (loaded (.load dirs)) at grown
      rw [act, LoadPluginsFromDirs_eq m nothing]
      generalize loadDirs dirs (m.so_loader_.SetAllowedDirs (dirs.map Prod.fst)) = scanned at ends grown
      dsimp only
      rw [ends]
      obtain ⟨opens, describes, -, balances⟩ := grown
      change _ = m.so_loader_.handles_ ++ _ at opens
      change _ = m.so_loader_.descriptors_ ++ _ at describes
      refine ⟨?_, ?_, fun h => ?_, ?_⟩
      · rw [loads, List.map_append, ← handles]
        exact opens
      · rw [loads, List.map_append, ← descriptors]
        exact describes
      · change (m.calls ++ scanned.2.1).count _ = (m.calls ++ scanned.2.1).count _ + scanned.1.handles_.count h
        rw [List.count_append, List.count_append, opens, List.count_append, balanced, balances]
        omega
      · rw [registers, offers]
        cases cut : interrupted dirs with
        | true =>
          simp only [if_true, List.append_nil]
          exact registered
        | false =>
          simp only [Bool.false_eq_true, if_false]
          rw [describes, List.drop_left]
          exact registered.bridgeEach _

theorem kept_run {history : List (Action P)} {m : PluginManager P} (kept : Kept history m) (actions : List (Action P)) :
    Kept (history ++ actions) (actions.foldl act m) := by
  induction actions generalizing history m with
  | nil =>
    rw [List.append_nil]
    exact kept
  | cons action later ih =>
    rw [List.append_cons]
    exact ih (kept_act kept action)

/-! ## What is created -/

/-- A library that an action keeps open was opened from below a scanned directory and described a plugin of the host's
version. -/
structure Admitted (dirs : List (Bytes × Directory P)) (handle : ℕ) (desc : IlPluginDescriptor P)
    (tried : Bytes × System P) : Prop where
  came : tried ∈ visited dirs
  below : Below (dirs.map Prod.fst) tried.2 tried.1
  opened : tried.2.dlopen tried.1 = .ok handle
  described : tried.2.describe handle = some (some desc)
  version : desc.api_version = IL_PLUGIN_API_VERSION

theorem admitted_of_loaded {dirs : List (Bytes × Directory P)} (resolves : ∀ tried ∈ visited dirs, Resolves tried.2)
    {handle : ℕ} {desc : IlPluginDescriptor P} (member : (handle, desc) ∈ loaded (.load dirs)) :
    ∃ tried, Admitted dirs handle desc tried := by
  obtain ⟨tried, came, kept⟩ := List.mem_flatMap.mp member
  have some_ : dirs.map Prod.fst ≠ [] := by
    intro nothing
    rw [List.map_eq_nil_iff.mp nothing] at came
    exact absurd came List.not_mem_nil
  rw [Option.mem_toList] at kept
  unfold admitted at kept
  split_ifs at kept with permitted
  have below := (IsPathAllowed_iff some_ (resolves tried came) tried.1).mp permitted
  cases opened : tried.2.dlopen tried.1 with
  | error dlerror =>
    rw [opened] at kept
    cases kept
  | ok found =>
    rw [opened] at kept
    cases described : tried.2.describe found with
    | none => simp [described] at kept
    | some result =>
      cases result with
      | none => simp [described] at kept
      | some other =>
        simp only [described, Option.ite_none_right_eq_some, Option.some.injEq, Prod.mk.injEq] at kept
        obtain ⟨version, rfl, rfl⟩ := kept
        exact ⟨tried, came, below, opened, described, version⟩

/-- The loader, the registry and the plugins it creates after a run. -/
structure Trusted (history : List (Action P)) (m : PluginManager P) : Prop where
  kept : Kept history m
  admitted : ∀ dirs, .load dirs ∈ history → ∀ entry ∈ loaded (.load dirs), ∃ tried, Admitted dirs entry.1 entry.2 tried
  created : ∀ type name plugin, m.registry.Create type name = some plugin →
    .register type name plugin ∈ history ∨
      ∃ entry ∈ m.so_loader_.handles_.zip m.so_loader_.descriptors_, PluginType.of entry.2.type = some type ∧
        entry.2.name = some name ∧ entry.2.create = some (some plugin)

theorem offer_eq_some {desc : IlPluginDescriptor P} {type : PluginType} {name : Bytes} {factory : Factory P}
    (offered : offer desc = some (type, name, factory)) :
    PluginType.of desc.type = some type ∧ desc.name = some name ∧ factory = .bridged desc := by
  unfold offer at offered
  split at offered
  · rename_i create named made called
    obtain ⟨found, known, same⟩ := Option.map_eq_some_iff.mp offered
    obtain ⟨rfl, rfl, rfl⟩ := same
    exact ⟨known, called, rfl⟩
  · cases offered

theorem created_of_kept {history : List (Action P)} {m : PluginManager P} (kept : Kept history m) {type : PluginType}
    {name : Bytes} {plugin : P} (created : m.registry.Create type name = some plugin) :
    .register type name plugin ∈ history ∨
      ∃ entry ∈ m.so_loader_.handles_.zip m.so_loader_.descriptors_, PluginType.of entry.2.type = some type ∧
        entry.2.name = some name ∧ entry.2.create = some (some plugin) := by
  obtain ⟨factory, found, called⟩ := Option.bind_eq_some_iff.mp created
  rw [kept.registered] at found
  obtain ⟨⟨_, _, _⟩, last, rfl⟩ := Option.map_eq_some_iff.mp found
  obtain ⟨member, named⟩ := List.mem_filter.mp (List.mem_of_getLast? last)
  obtain ⟨rfl, rfl⟩ := of_decide_eq_true named
  obtain ⟨action, taken, offered⟩ := List.mem_flatMap.mp member
  cases action with
  | register other key made =>
    cases List.mem_singleton.mp offered
    cases called
    exact Or.inl taken
  | load dirs =>
    change _ ∈ if interrupted dirs then [] else _ at offered
    split_ifs at offered
    · exact absurd offered List.not_mem_nil
    · obtain ⟨desc, among, shape⟩ := List.mem_flatMap.mp offered
      obtain ⟨entry, library, rfl⟩ := List.mem_map.mp among
      obtain ⟨kind, title, rfl⟩ := offer_eq_some (Option.mem_toList.mp shape)
      refine Or.inr ⟨entry, ?_, kind, title, ?_⟩
      · rw [kept.handles, kept.descriptors, List.zip_map', List.map_id']
        exact List.mem_flatMap.mpr ⟨_, taken, library⟩
      · exact Option.join_eq_some_iff.mp called

/-- After any registrations and scans, whatever the scans meet: the libraries that the loader keeps are just those of
the successful attempts, each was opened from below a scanned directory and every other one opened was closed as often,
the registry holds what was offered last under each type and name, and what is created comes from a built-in plugin or
from a library that is still open. -/
theorem plugins_trusted (history : List (Action P))
    (resolves : ∀ dirs, .load dirs ∈ history → ∀ tried ∈ visited dirs, Resolves tried.2) :
    Trusted history (history.foldl act {}) := by
  have empty : Kept ([] : List (Action P)) {} := ⟨rfl, rfl, fun _ => rfl, fun _ _ => rfl⟩
  have kept : Kept history (history.foldl act {}) := kept_run empty history
  refine ⟨kept, fun dirs taken entry member => admitted_of_loaded (resolves dirs taken) member, ?_⟩
  exact fun type name plugin created => created_of_kept kept created

def exporter : IlPluginDescriptor ℕ := ⟨1, some (ascii "file"), 3, some (some 7)⟩

/-- A directory with a library of its own and a link that leads out of it. -/
def linked : System ℕ where
  realpath path :=
    if path = ascii "plugins" then some (ascii "/opt/plugins")
    else if path = ascii "plugins/a.so" then some (ascii "/opt/plugins/a.so")
    else if path = ascii "plugins/b.so" then some (ascii "/opt/plugins-old/b.so")
    else none
  dlopen path := if path = ascii "plugins/a.so" then .ok 1 else .ok 2
  describe _ := some (some exporter)

theorem linked_resolves : Resolves linked := by
  intro path resolved found
  change (if _ then _ else _) = _ at found
  split_ifs at found
  · cases found
    exact ⟨[ascii "opt", ascii "plugins"], by unfold SeparatedPaths.Part; decide, by decide⟩
  · cases found
    exact ⟨[ascii "opt", ascii "plugins", ascii "a.so"], by unfold SeparatedPaths.Part; decide, by decide⟩
  · cases found
    exact ⟨[ascii "opt", ascii "plugins-old", ascii "b.so"], by unfold SeparatedPaths.Part; decide, by decide⟩

/-- A built-in sink is registered, and the directory is scanned. -/
def replaced : List (Action ℕ) :=
  [.register .kSink (ascii "file") 3,
    .load [(ascii "plugins",
      ⟨some true, [(ascii "b.so", linked), (ascii "a.so", linked), (ascii "c.txt", linked)], false⟩)]]

theorem plugins_trusted_replaced : Trusted replaced (replaced.foldl act {}) ∧
    (replaced.foldl act {}).so_loader_.handles_ = [1] ∧
    (replaced.foldl act {}).registry.CreateSink (ascii "file") = some 7 := by
  refine ⟨plugins_trusted replaced ?_, by decide, by decide⟩
  intro dirs taken tried came
  rcases List.mem_cons.mp taken with other | only
  · cases other
  · cases List.mem_singleton.mp only
    obtain ⟨entry, member, rfl⟩ := List.mem_map.mp ((List.mem_append.mp came).resolve_right List.not_mem_nil)
    have among := (List.mem_filter.mp member).1
    simp only [List.mem_cons, List.not_mem_nil, or_false] at among
    rcases among with rfl | rfl | rfl <;> exact linked_resolves

end PluginManager

end Illuminator
