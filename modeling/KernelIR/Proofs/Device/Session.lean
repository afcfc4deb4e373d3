import KernelIR.Device.Session
import Mathlib.Data.List.Nodup

/-!
# What sessions keep account of

A request has one of ten effects on a context. Seen from the modules of a session these are three:
one is loaded, one is released, or all stay as they are; seen from its functions two. Each keeps the
accounts, which say of every slot of the tables which call of the driver it comes from.
-/

namespace KernelIR

variable {δ μ φ : Type}

/-! ## Effects of a request -/

/-- What a request can do: its answer, the calls that it takes and the context that it leaves. -/
inductive Request.Effect (c : DeviceContext δ μ φ) :
    Request → Except DeviceError Request.Answer → List (DriverCall μ φ) → DeviceContext δ μ φ → Prop
  where
  | compiled {code : String} {raw : μ} {device : δ}
      (load : c.driver.load c.device code = (.ok raw, device)) :
      Effect c (.compile code) (.ok (.module ⟨c.modules.size⟩)) [.load code (.ok raw)]
        { c with device, modules := c.modules.push (some raw) }
  | notCompiled {code cause : String} {device : δ}
      (load : c.driver.load c.device code = (.error cause, device)) :
      Effect c (.compile code) (.error (.compile cause)) [.load code (.error cause)]
        { c with device }
  | resolved {m : ModuleId} {name : String} {raw : μ} {found : φ} {device : δ}
      (named : c.module? m = some raw)
      (resolve : c.driver.resolve c.device raw name = (.ok found, device)) :
      Effect c (.getFunction m name) (.ok (.function ⟨c.functions.size⟩))
        [.resolve raw name (.ok found)]
        { c with device, functions := c.functions.push ⟨m, name, found⟩ }
  | notResolved {m : ModuleId} {name cause : String} {raw : μ} {device : δ}
      (named : c.module? m = some raw)
      (resolve : c.driver.resolve c.device raw name = (.error cause, device)) :
      Effect c (.getFunction m name) (.error (.missingFunction m name cause))
        [.resolve raw name (.error cause)] { c with device }
  | resolveUnknown {m : ModuleId} {name : String} (unknown : c.module? m = none) :
      Effect c (.getFunction m name) (.error (.unknownModule m)) [] c
  | launched {f : FunctionId} {args : Arguments} {size : LaunchSize}
      {function : ResolvedFunction φ} {raw : μ} {answer : Except String Unit} {device : δ}
      (function_eq : c.functions[f.index]? = some function)
      (named : c.module? function.module = some raw)
      (launch : c.driver.launch c.device function.raw args size = (answer, device)) :
      Effect c (.launch f args size)
        ((answer.mapError (.launch function.name)).map fun _ => .done)
        [.launch function.raw args size answer] { c with device }
  | launchReleased {f : FunctionId} {args : Arguments} {size : LaunchSize}
      {function : ResolvedFunction φ} (function_eq : c.functions[f.index]? = some function)
      (unknown : c.module? function.module = none) :
      Effect c (.launch f args size) (.error (.unknownModule function.module)) [] c
  | launchUnknown {f : FunctionId} {args : Arguments} {size : LaunchSize}
      (unknown : c.functions[f.index]? = none) :
      Effect c (.launch f args size) (.error (.unknownFunction f)) [] c
  | unloaded {m : ModuleId} {raw : μ} {answer : Except String Unit} {device : δ}
      (named : c.module? m = some raw)
      (unload : c.driver.unload c.device raw = (answer, device)) :
      Effect c (.unload m) ((answer.mapError (.unload m)).map fun _ => .done)
        [.unload raw answer]
        { c with device, modules := c.modules.setIfInBounds m.index none }
  | unloadUnknown {m : ModuleId} (unknown : c.module? m = none) :
      Effect c (.unload m) (.error (.unknownModule m)) [] c

namespace Request

/-- A request has one of the effects, and the same one over the recorded driver, which keeps its
calls. -/
theorem exists_effect (c : DeviceContext δ μ φ) (r : Request) :
    ∃ answer events calls after, Effect c r answer calls after ∧
      r.apply c = ⟨answer, events, after⟩ ∧
      r.apply (c.recorded []) = ⟨answer, events, after.recorded calls⟩ := by
  cases r with
  | compile code =>
    rcases load : c.driver.load c.device code with ⟨cause | raw, device⟩
    · refine ⟨_, [], _, _, .notCompiled load, ?_, ?_⟩ <;>
        simp [apply, DeviceContext.compile, DeviceContext.Reply.map, Except.map, load,
          Driver.load_recorded load]
    · refine ⟨_, [.loaded ⟨c.modules.size⟩ code.utf8ByteSize], _, _, .compiled load, ?_, ?_⟩ <;>
        simp [apply, DeviceContext.compile, DeviceContext.Reply.map, Except.map, load,
          Driver.load_recorded load]
  | getFunction m name =>
    rcases named : c.module? m with _ | raw
    · refine ⟨_, [], _, _, .resolveUnknown named, ?_, ?_⟩ <;>
        simp [apply, DeviceContext.getFunction, DeviceContext.Reply.map, Except.map, named]
    rcases resolve : c.driver.resolve c.device raw name with ⟨cause | found, device⟩
    · refine ⟨_, [], _, _, .notResolved named resolve, ?_, ?_⟩ <;>
        simp [apply, DeviceContext.getFunction, DeviceContext.Reply.map, Except.map, named,
          resolve, Driver.resolve_recorded resolve]
    · refine ⟨_, [.resolved m ⟨c.functions.size⟩ name], _, _, .resolved named resolve, ?_, ?_⟩ <;>
        simp [apply, DeviceContext.getFunction, DeviceContext.Reply.map, Except.map, named,
          resolve, Driver.resolve_recorded resolve]
  | launch f args size =>
    rcases function_eq : c.functions[f.index]? with _ | function
    · refine ⟨_, [], _, _, .launchUnknown function_eq, ?_, ?_⟩ <;>
        simp [apply, DeviceContext.launch, DeviceContext.Reply.map, Except.map, function_eq]
    rcases named : c.module? function.module with _ | raw
    · refine ⟨_, [], _, _, .launchReleased function_eq named, ?_, ?_⟩ <;>
        simp [apply, DeviceContext.launch, DeviceContext.isLoaded, DeviceContext.Reply.map,
          Except.map, function_eq, named]
    rcases launch : c.driver.launch c.device function.raw args size with ⟨answer, device⟩
    refine ⟨_, [.launching function.name size], _, _, .launched function_eq named launch, ?_, ?_⟩ <;>
      simp [apply, DeviceContext.launch, DeviceContext.isLoaded, DeviceContext.Reply.map,
        function_eq, named, launch, Driver.launch_recorded launch]
  | unload m =>
    rcases named : c.module? m with _ | raw
    · refine ⟨_, [], _, _, .unloadUnknown named, ?_, ?_⟩ <;>
        simp [apply, DeviceContext.unload, DeviceContext.Reply.map, Except.map, named]
    rcases unload : c.driver.unload c.device raw with ⟨cause | ⟨⟩, device⟩
    · refine ⟨_, [], _, _, .unloaded named unload, ?_, ?_⟩ <;>
        simp [apply, DeviceContext.unload, DeviceContext.Reply.map, Except.map, Except.mapError,
          named, unload, Driver.unload_recorded unload]
    · refine ⟨_, [.unloaded m], _, _, .unloaded named unload, ?_, ?_⟩ <;>
        simp [apply, DeviceContext.unload, DeviceContext.Reply.map, Except.map, Except.mapError,
          named, unload, Driver.unload_recorded unload]

/-- Recording changes neither what a request is answered with nor what it leaves. -/
theorem apply_recorded (c : DeviceContext δ μ φ) (r : Request) :
    r.apply (c.recorded []) =
      ⟨(r.apply c).result, (r.apply c).events, (r.apply c).context.recorded (r.calls c)⟩ := by
  obtain ⟨answer, events, calls, after, -, plain, recorded⟩ := exists_effect c r
  simp [Request.calls, plain, recorded]

theorem effect (c : DeviceContext δ μ φ) (r : Request) :
    Effect c r (r.apply c).result (r.calls c) (r.apply c).context := by
  obtain ⟨answer, events, calls, after, effect, plain, recorded⟩ := exists_effect c r
  simpa [Request.calls, plain, recorded] using effect

end Request

/-! ## Slots -/

namespace DeviceContext

variable {c c' : DeviceContext δ μ φ}

theorem module?_of_push {raw : μ} (h : c'.modules = c.modules.push (some raw)) (m : ModuleId) :
    c'.module? m = if m.index = c.modules.size then some raw else c.module? m := by
  simp only [module?, h, Array.getElem?_push]
  split <;> rfl

theorem module?_of_retire {m : ModuleId}
    (h : c'.modules = c.modules.setIfInBounds m.index none) (n : ModuleId) :
    c'.module? n = if n = m then none else c.module? n := by
  simp only [module?, h, Array.getElem?_setIfInBounds]
  by_cases hn : n = m
  · subst hn
    simp only [if_true]
    split <;> rfl
  · have : m.index ≠ n.index := fun e => hn (by cases m; cases n; simp_all)
    simp [hn, this]

end DeviceContext

namespace Session

variable {s s' : Session δ μ φ}

/-! ## Steps -/

/-- What one request does to the modules of a session and to what is known of them. -/
inductive ModuleStep (s s' : Session δ μ φ) : Prop where
  | load (raw : μ) (modules : s'.context.modules = s.context.modules.push (some raw))
      (loaded : s'.loaded = s.loaded ++ [raw]) (released : s'.released = s.released)
      (retired : s'.retired = s.retired)
      (compiled : s'.compiled = s.compiled ++ [.module ⟨s.context.modules.size⟩])
  | release (m : ModuleId) (raw : μ) (named : s.context.module? m = some raw)
      (modules : s'.context.modules = s.context.modules.setIfInBounds m.index none)
      (loaded : s'.loaded = s.loaded) (released : s'.released = s.released ++ [raw])
      (retired : s'.retired = s.retired ++ [m]) (compiled : s'.compiled = s.compiled)
  | keep (modules : s'.context.modules = s.context.modules) (loaded : s'.loaded = s.loaded)
      (released : s'.released = s.released) (retired : s'.retired = s.retired)
      (compiled : s'.compiled = s.compiled)

theorem ModuleStep.of_effect {r : Request} {answer : Except DeviceError Request.Answer}
    {calls : List (DriverCall μ φ)} {after : DeviceContext δ μ φ}
    (h : Request.Effect s.context r answer calls after) :
    ModuleStep s (s.record after ⟨r, answer, calls⟩) := by
  cases h with
  | @compiled code raw => exact .load raw rfl (by simp) (by simp) (by simp) (by simp)
  | @unloaded m raw answer device named =>
    exact .release m raw named rfl (by simp) (by simp)
      (by cases answer <;> simp [Except.map, Except.mapError]) (by simp)
  | _ => exact .keep rfl (by simp) (by simp) (by simp) (by simp)

/-- What one request does to the functions of a session and to what is known of them. -/
inductive FunctionStep (s s' : Session δ μ φ) : Prop where
  | resolve (m : ModuleId) (name : String) (raw : μ) (found : φ)
      (named : s.context.module? m = some raw)
      (functions : s'.context.functions = s.context.functions.push ⟨m, name, found⟩)
      (exchanges : s'.exchanges = s.exchanges ++
        [⟨.getFunction m name, .ok (.function ⟨s.context.functions.size⟩),
          [.resolve raw name (.ok found)]⟩])
      (resolved : s'.resolved = s.resolved ++ [.function ⟨s.context.functions.size⟩])
  | keep (functions : s'.context.functions = s.context.functions)
      (exchanges : s.exchanges ⊆ s'.exchanges) (resolved : s'.resolved = s.resolved)

theorem FunctionStep.of_effect {r : Request} {answer : Except DeviceError Request.Answer}
    {calls : List (DriverCall μ φ)} {after : DeviceContext δ μ φ}
    (h : Request.Effect s.context r answer calls after) :
    FunctionStep s (s.record after ⟨r, answer, calls⟩) := by
  cases h with
  | @resolved m name raw found device named =>
    exact .resolve m name raw found named rfl rfl (by simp)
  | _ => exact .keep rfl (by simp) (by simp)

/-! ## Accounts -/

/-- The slot of a handle holds the module loaded for it until the handle is retired. -/
structure ModuleAccounts (s : Session δ μ φ) : Prop where
  size : s.loaded.length = s.context.modules.size
  module? : ∀ m, s.context.module? m = if m ∈ s.retired then none else s.moduleOf? m
  nodup : s.retired.Nodup
  issued : ∀ m ∈ s.retired, m.index < s.loaded.length
  released : s.released = s.retired.filterMap s.moduleOf?
  compiled : s.compiled = (List.range s.loaded.length).map fun k => .module ⟨k⟩

/-- Every function was found in a module loaded for the handle that is kept with it. -/
structure FunctionAccounts (s : Session δ μ φ) : Prop where
  resolved : s.resolved = (List.range s.context.functions.size).map fun k => .function ⟨k⟩
  origin : ∀ (f : FunctionId) (function : ResolvedFunction φ),
    s.context.functions[f.index]? = some function →
      ∃ raw, s.moduleOf? function.module = some raw ∧
        ⟨.getFunction function.module function.name, .ok (.function f),
          [.resolve raw function.name (.ok function.raw)]⟩ ∈ s.exchanges

theorem ModuleAccounts.of_module? (h : ModuleAccounts s) {m : ModuleId} {raw : μ}
    (named : s.context.module? m = some raw) : m ∉ s.retired ∧ s.moduleOf? m = some raw := by
  rw [h.module?] at named
  split at named
  · cases named
  · exact ⟨‹_›, named⟩

/-! ## Keeping the accounts -/

theorem lt_of_moduleOf? {m : ModuleId} {raw : μ} (known : s.moduleOf? m = some raw) :
    m.index < s.loaded.length :=
  (List.getElem?_eq_some_iff.mp known).1

theorem moduleOf?_congr (h : s'.loaded = s.loaded) : s'.moduleOf? = s.moduleOf? := by
  funext m
  rw [moduleOf?, moduleOf?, h]

theorem moduleOf?_of_load {raw : μ} (h : s'.loaded = s.loaded ++ [raw]) (m : ModuleId) :
    s'.moduleOf? m = if m.index = s.loaded.length then some raw else s.moduleOf? m := by
  simp only [moduleOf?, h]
  grind

theorem ModuleStep.moduleOf?_eq (h : ModuleStep s s') {m : ModuleId}
    (issued : m.index < s.loaded.length) : s'.moduleOf? m = s.moduleOf? m := by
  cases h with
  | load raw modules loaded => rw [moduleOf?_of_load loaded, if_neg (Nat.ne_of_lt issued)]
  | release m' raw named modules loaded => rw [moduleOf?_congr loaded]
  | keep modules loaded => rw [moduleOf?_congr loaded]

theorem ModuleAccounts.step (accounts : ModuleAccounts s) (h : ModuleStep s s') :
    ModuleAccounts s' := by
  -- A new load changes no handle that was issued before, and only such handles are retired.
  have old := fun m (hm : m ∈ s.retired) => h.moduleOf?_eq (accounts.issued m hm)
  cases h with
  | load raw modules loaded released retired compiled =>
    have length : s'.loaded.length = s.loaded.length + 1 := by simp [loaded]
    constructor
    case size => simp [length, modules, accounts.size]
    case module? =>
      intro m
      rw [DeviceContext.module?_of_push modules, moduleOf?_of_load loaded, retired, ← accounts.size,
        accounts.module?]
      split
      · have fresh : m ∉ s.retired := fun hr => absurd (accounts.issued m hr) (by omega)
        rw [if_neg fresh]
      · rfl
    case nodup => rw [retired]; exact accounts.nodup
    case issued =>
      intro m hm
      have := accounts.issued m (retired ▸ hm)
      omega
    case released =>
      rw [released, retired, accounts.released]
      exact List.filterMap_congr fun m hm => (old m hm).symm
    case compiled =>
      simp [compiled, accounts.compiled, length, List.range_succ, accounts.size]
  | release m raw named modules loaded released retired compiled =>
    obtain ⟨live, known⟩ := accounts.of_module? named
    have same : s'.moduleOf? = s.moduleOf? := moduleOf?_congr loaded
    constructor
    case size => simp [loaded, modules, accounts.size]
    case module? =>
      intro n
      rw [DeviceContext.module?_of_retire modules, retired, same, accounts.module?]
      by_cases hn : n = m <;> simp [hn]
    case nodup =>
      rw [retired]
      exact List.nodup_append.mpr ⟨accounts.nodup, List.nodup_singleton m,
        fun n hn n' hn' => List.mem_singleton.mp hn' ▸ fun same => live (same ▸ hn)⟩
    case issued =>
      rw [retired, loaded]
      intro n hn
      rcases List.mem_append.mp hn with hn | hn
      · exact accounts.issued n hn
      · rw [List.mem_singleton.mp hn]
        exact lt_of_moduleOf? known
    case released => simp [released, retired, same, accounts.released, known]
    case compiled => rw [compiled, loaded, accounts.compiled]
  | keep modules loaded released retired compiled =>
    have same : s'.moduleOf? = s.moduleOf? := moduleOf?_congr loaded
    constructor
    case size => rw [loaded, modules, accounts.size]
    case module? =>
      intro m
      rw [retired, same, ← accounts.module? m, DeviceContext.module?, DeviceContext.module?,
        modules]
    case nodup => rw [retired]; exact accounts.nodup
    case issued => rw [retired, loaded]; exact accounts.issued
    case released => rw [released, retired, same, accounts.released]
    case compiled => rw [compiled, loaded, accounts.compiled]

theorem FunctionAccounts.step (accounts : FunctionAccounts s) (modules : ModuleAccounts s)
    (hm : ModuleStep s s') (hf : FunctionStep s s') : FunctionAccounts s' := by
  have still : ∀ {m : ModuleId} {raw : μ}, s.moduleOf? m = some raw → s'.moduleOf? m = some raw :=
    fun known => (hm.moduleOf?_eq (lt_of_moduleOf? known)).trans known
  cases hf with
  | resolve m name raw found named functions exchanges resolved =>
    constructor
    case resolved => simp [resolved, functions, accounts.resolved, List.range_succ]
    case origin =>
      intro f function known
      rw [functions, Array.getElem?_push] at known
      split at known
      · rename_i last
        cases known
        refine ⟨raw, still (modules.of_module? named).2, ?_⟩
        rw [exchanges, ← last]
        exact List.mem_append_right _ (List.mem_singleton_self _)
      · obtain ⟨raw', known', mem⟩ := accounts.origin f function known
        exact ⟨raw', still known', exchanges ▸ List.mem_append_left _ mem⟩
  | keep functions exchanges resolved =>
    constructor
    case resolved => rw [resolved, functions, accounts.resolved]
    case origin =>
      intro f function known
      obtain ⟨raw, known', mem⟩ := accounts.origin f function (functions ▸ known)
      exact ⟨raw, still known', exchanges mem⟩

/-! ## Runs -/

theorem ModuleAccounts.start (driver : Driver δ μ φ) (device : δ) :
    ModuleAccounts (start driver device) := by
  constructor <;> simp [Session.start, DeviceContext.start, DeviceContext.module?, moduleOf?,
    Session.loaded, Session.retired, Session.released, Session.compiled, Session.calls]

theorem FunctionAccounts.start (driver : Driver δ μ φ) (device : δ) :
    FunctionAccounts (start driver device) := by
  constructor <;> simp [Session.start, DeviceContext.start, Session.resolved]

theorem moduleStep_ask (s : Session δ μ φ) (r : Request) : ModuleStep s (s.ask r) :=
  .of_effect (r.effect s.context)

theorem ModuleAccounts.ask (accounts : ModuleAccounts s) (r : Request) :
    ModuleAccounts (s.ask r) :=
  accounts.step (moduleStep_ask s r)

theorem FunctionAccounts.ask (accounts : FunctionAccounts s) (modules : ModuleAccounts s)
    (r : Request) : FunctionAccounts (s.ask r) :=
  accounts.step modules (moduleStep_ask s r) (.of_effect (r.effect s.context))

theorem ModuleAccounts.serve (accounts : ModuleAccounts s) (requests : List Request) :
    ModuleAccounts (s.serve requests) := by
  induction requests generalizing s with
  | nil => exact accounts
  | cons r rest ih => exact ih (accounts.ask r)

theorem FunctionAccounts.serve (accounts : FunctionAccounts s) (modules : ModuleAccounts s)
    (requests : List Request) : FunctionAccounts (s.serve requests) := by
  induction requests generalizing s with
  | nil => exact accounts
  | cons r rest ih => exact ih (accounts.ask modules r) (modules.ask r)

end Session

end KernelIR
