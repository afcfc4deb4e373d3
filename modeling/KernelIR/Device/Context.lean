import KernelIR.Device.Driver
import KernelIR.Log

/-!
# Device contexts

A device context hands out handles for the modules loaded and the functions resolved through it, and
sees to it that the driver is never asked about a module after its release. Handles are issued in
order and not used again. Whatever is still loaded when a context is closed is released then, the
last module first.
-/

namespace KernelIR

/-! ## Handles and errors -/

/-- Names a module loaded through a context. -/
structure ModuleId where
  index : Nat
deriving DecidableEq, Repr

/-- Names a function resolved through a context. -/
structure FunctionId where
  index : Nat
deriving DecidableEq, Repr

instance : ToString ModuleId := ⟨fun m => "module" ++ toString m.index⟩

instance : ToString FunctionId := ⟨fun f => "func" ++ toString f.index⟩

/-- Why an operation of a context failed; `cause` is the text of the driver. -/
inductive DeviceError where
  | compile (cause : String)
  | missingFunction (module : ModuleId) (name cause : String)
  | launch (name cause : String)
  | unload (module : ModuleId) (cause : String)
  /-- The handle was never issued, or its module has been released. -/
  | unknownModule (module : ModuleId)
  | unknownFunction (function : FunctionId)
deriving DecidableEq, Repr

namespace DeviceError

def message : DeviceError → String
  | .compile cause => "failed to compile device module: " ++ cause
  | .missingFunction module name cause =>
    s!"entry point `{name}` not found in {module}: " ++ cause
  | .launch name cause => s!"failed to launch `{name}`: " ++ cause
  | .unload module cause => s!"failed to unload {module}: " ++ cause
  | .unknownModule module => s!"{module} is not loaded"
  | .unknownFunction function => s!"{function} is not a resolved function"

/-- The error of the driver behind this one, if there is one. -/
def cause? : DeviceError → Option String
  | .compile cause | .missingFunction _ _ cause | .launch _ cause | .unload _ cause => some cause
  | .unknownModule _ | .unknownFunction _ => none

end DeviceError

/-! ## Events -/

/-- What a context reports. -/
inductive DeviceEvent where
  | loaded (module : ModuleId) (bytes : Nat)
  | resolved (module : ModuleId) (function : FunctionId) (name : String)
  | launching (name : String) (size : LaunchSize)
  | unloaded (module : ModuleId)
  /-- The driver failed to release a module when the context was closed. -/
  | stuck (module : ModuleId) (cause : String)
deriving DecidableEq, Repr

def DeviceEvent.entry : DeviceEvent → Entry
  | .loaded module bytes =>
    ⟨.debug, "loaded device module", [("module", toString module), ("bytes", toString bytes)]⟩
  | .resolved module function name =>
    ⟨.trace, "resolved entry point",
      [("module", toString module), ("func", toString function), ("name", name)]⟩
  | .launching name size =>
    ⟨.trace, "launching kernel",
      [("name", name), ("grid_dim", toString size.grid.toNat),
        ("block_dim", toString size.block.toNat)]⟩
  | .unloaded module => ⟨.debug, "unloaded device module", [("module", toString module)]⟩
  | .stuck module cause =>
    ⟨.warn, "failed to unload device module at teardown",
      [("module", toString module), ("err", cause)]⟩

/-! ## Contexts -/

variable {δ μ φ : Type}

/-- A function as the driver knows it, with the module that it came from. -/
structure ResolvedFunction (φ : Type) where
  module : ModuleId
  name : String
  raw : φ
deriving Repr

/-- A driver with everything loaded through it. -/
structure DeviceContext (δ μ φ : Type) where
  driver : Driver δ μ φ
  device : δ
  /-- The loaded modules; `none` once a module has been released. -/
  modules : Array (Option μ)
  functions : Array (ResolvedFunction φ)

/-- What an operation of a context answers and reports, with the context after it. -/
structure DeviceContext.Reply (δ μ φ α : Type) where
  result : Except DeviceError α
  events : List DeviceEvent
  context : DeviceContext δ μ φ

namespace DeviceContext

/-- A context with nothing loaded. -/
def start (driver : Driver δ μ φ) (device : δ) : DeviceContext δ μ φ :=
  ⟨driver, device, #[], #[]⟩

/-- The module behind a handle, while it is loaded. -/
def module? (c : DeviceContext δ μ φ) (m : ModuleId) : Option μ :=
  c.modules[m.index]?.join

def isLoaded (c : DeviceContext δ μ φ) (m : ModuleId) : Bool :=
  (c.module? m).isSome

/-- How many modules are loaded. -/
def loadedCount (c : DeviceContext δ μ φ) : Nat :=
  c.modules.countP Option.isSome

/-- Loads a module of device code. -/
def compile (c : DeviceContext δ μ φ) (code : String) : Reply δ μ φ ModuleId :=
  match c.driver.load c.device code with
  | (.error cause, device) => ⟨.error (.compile cause), [], { c with device }⟩
  | (.ok raw, device) =>
    let m : ModuleId := ⟨c.modules.size⟩
    ⟨.ok m, [.loaded m code.utf8ByteSize],
      { c with device, modules := c.modules.push (some raw) }⟩

/-- Finds an entry point in a loaded module. -/
def getFunction (c : DeviceContext δ μ φ) (m : ModuleId) (name : String) :
    Reply δ μ φ FunctionId :=
  match c.module? m with
  | none => ⟨.error (.unknownModule m), [], c⟩
  | some raw =>
    match c.driver.resolve c.device raw name with
    | (.error cause, device) => ⟨.error (.missingFunction m name cause), [], { c with device }⟩
    | (.ok found, device) =>
      let f : FunctionId := ⟨c.functions.size⟩
      ⟨.ok f, [.resolved m f name],
        { c with device, functions := c.functions.push ⟨m, name, found⟩ }⟩

/-- Launches a function whose module is still loaded. -/
def launch (c : DeviceContext δ μ φ) (f : FunctionId) (args : Arguments) (size : LaunchSize) :
    Reply δ μ φ Unit :=
  match c.functions[f.index]? with
  | none => ⟨.error (.unknownFunction f), [], c⟩
  | some function =>
    if c.isLoaded function.module then
      let (result, device) := c.driver.launch c.device function.raw args size
      ⟨result.mapError (.launch function.name), [.launching function.name size],
        { c with device }⟩
    else
      ⟨.error (.unknownModule function.module), [], c⟩

/-- Releases a loaded module. Its handle is retired even if the driver fails. -/
def unload (c : DeviceContext δ μ φ) (m : ModuleId) : Reply δ μ φ Unit :=
  match c.module? m with
  | none => ⟨.error (.unknownModule m), [], c⟩
  | some raw =>
    let modules := c.modules.setIfInBounds m.index none
    match c.driver.unload c.device raw with
    | (.error cause, device) => ⟨.error (.unload m cause), [], { c with device, modules }⟩
    | (.ok (), device) => ⟨.ok (), [.unloaded m], { c with device, modules }⟩

/-! ## Closing -/

/-- The loaded modules with their handles, the last loaded first. -/
def remaining (c : DeviceContext δ μ φ) : List (ModuleId × μ) :=
  (c.modules.toList.zipIdx.filterMap fun (slot, i) => slot.map fun raw => (⟨i⟩, raw)).reverse

/-- Releases modules one after another, going on when the driver fails. -/
def releaseAll (driver : Driver δ μ φ) : δ → List (ModuleId × μ) → List DeviceEvent × δ
  | device, [] => ([], device)
  | device, (m, raw) :: rest =>
    let (result, device) := driver.unload device raw
    let (events, device) := releaseAll driver device rest
    match result with
    | .ok () => (events, device)
    | .error cause => (.stuck m cause :: events, device)

/-- Releases everything still loaded and gives back the state of the driver. -/
def close (c : DeviceContext δ μ φ) : List DeviceEvent × δ :=
  releaseAll c.driver c.device c.remaining

end DeviceContext

end KernelIR
