import KernelIR.Device.Context

/-!
# Sessions

What can be asked of a device context, as data, and what the driver is called with meanwhile. A
recorded driver answers as the driver does and keeps its calls with their answers. A session is what
comes of a sequence of requests: the context that they leave and, for each of them, the answer and
the calls that it took.
-/

namespace KernelIR

variable {δ μ φ : Type}

/-! ## Calls of a driver -/

/-- A call of a driver with its answer. -/
inductive DriverCall (μ φ : Type) where
  | load (code : String) (answer : Except String μ)
  | resolve (module : μ) (name : String) (answer : Except String φ)
  | launch (function : φ) (args : Arguments) (size : LaunchSize) (answer : Except String Unit)
  | unload (module : μ) (answer : Except String Unit)

namespace DriverCall

/-- The module that a call loaded. -/
@[simp] def loaded? : DriverCall μ φ → Option μ
  | .load _ (.ok raw) => some raw
  | _ => none

/-- The module that the driver was called to release, whether it did or failed. -/
@[simp] def released? : DriverCall μ φ → Option μ
  | .unload raw _ => some raw
  | _ => none

/-- The modules loaded by a sequence of calls, in order. -/
def loaded (calls : List (DriverCall μ φ)) : List μ :=
  calls.filterMap loaded?

/-- The modules that a sequence of calls was to release, in order. -/
def released (calls : List (DriverCall μ φ)) : List μ :=
  calls.filterMap released?

variable (call : DriverCall μ φ) (calls rest : List (DriverCall μ φ))

@[simp] theorem loaded_nil : loaded ([] : List (DriverCall μ φ)) = [] := rfl

@[simp] theorem released_nil : released ([] : List (DriverCall μ φ)) = [] := rfl

@[simp] theorem loaded_cons : loaded (call :: calls) = call.loaded?.toList ++ loaded calls := by
  rw [loaded, List.filterMap_cons]
  cases call.loaded? <;> rfl

@[simp] theorem released_cons :
    released (call :: calls) = call.released?.toList ++ released calls := by
  rw [released, List.filterMap_cons]
  cases call.released? <;> rfl

@[simp] theorem loaded_append : loaded (calls ++ rest) = loaded calls ++ loaded rest :=
  List.filterMap_append

@[simp] theorem released_append : released (calls ++ rest) = released calls ++ released rest :=
  List.filterMap_append

end DriverCall

namespace Driver

variable (driver : Driver δ μ φ)

/-- The driver with a record of its calls in its state. -/
def recorded : Driver (δ × List (DriverCall μ φ)) μ φ where
  load st code :=
    let (answer, device) := driver.load st.1 code
    (answer, (device, st.2 ++ [.load code answer]))
  resolve st raw name :=
    let (answer, device) := driver.resolve st.1 raw name
    (answer, (device, st.2 ++ [.resolve raw name answer]))
  launch st raw args size :=
    let (answer, device) := driver.launch st.1 raw args size
    (answer, (device, st.2 ++ [.launch raw args size answer]))
  unload st raw :=
    let (answer, device) := driver.unload st.1 raw
    (answer, (device, st.2 ++ [.unload raw answer]))

variable {driver} {device device' : δ} {calls : List (DriverCall μ φ)}

theorem load_recorded {code : String} {answer : Except String μ}
    (h : driver.load device code = (answer, device')) :
    driver.recorded.load (device, calls) code = (answer, device', calls ++ [.load code answer]) := by
  simp [recorded, h]

theorem resolve_recorded {raw : μ} {name : String} {answer : Except String φ}
    (h : driver.resolve device raw name = (answer, device')) :
    driver.recorded.resolve (device, calls) raw name =
      (answer, device', calls ++ [.resolve raw name answer]) := by
  simp [recorded, h]

theorem launch_recorded {raw : φ} {args : Arguments} {size : LaunchSize}
    {answer : Except String Unit} (h : driver.launch device raw args size = (answer, device')) :
    driver.recorded.launch (device, calls) raw args size =
      (answer, device', calls ++ [.launch raw args size answer]) := by
  simp [recorded, h]

theorem unload_recorded {raw : μ} {answer : Except String Unit}
    (h : driver.unload device raw = (answer, device')) :
    driver.recorded.unload (device, calls) raw =
      (answer, device', calls ++ [.unload raw answer]) := by
  simp [recorded, h]

end Driver

namespace DeviceContext

/-- The context over the recorded driver, with some calls recorded. -/
def recorded (c : DeviceContext δ μ φ) (calls : List (DriverCall μ φ)) :
    DeviceContext (δ × List (DriverCall μ φ)) μ φ :=
  ⟨c.driver.recorded, (c.device, calls), c.modules, c.functions⟩

@[simp] theorem recorded_mk (driver : Driver δ μ φ) (device : δ) (modules : Array (Option μ))
    (functions : Array (ResolvedFunction φ)) (calls : List (DriverCall μ φ)) :
    (mk driver device modules functions).recorded calls =
      ⟨driver.recorded, (device, calls), modules, functions⟩ := rfl

variable (c : DeviceContext δ μ φ) (calls : List (DriverCall μ φ))

@[simp] theorem driver_recorded : (c.recorded calls).driver = c.driver.recorded := rfl

@[simp] theorem device_recorded : (c.recorded calls).device = (c.device, calls) := rfl

@[simp] theorem modules_recorded : (c.recorded calls).modules = c.modules := rfl

@[simp] theorem functions_recorded : (c.recorded calls).functions = c.functions := rfl

@[simp] theorem module?_recorded (m : ModuleId) :
    (c.recorded calls).module? m = c.module? m := rfl

/-- The calls that closing a context takes. -/
def closingCalls : List (DriverCall μ φ) :=
  (c.recorded []).close.2.2

end DeviceContext

/-! ## Requests -/

/-- An operation of a context. -/
inductive Request where
  | compile (code : String)
  | getFunction (module : ModuleId) (name : String)
  | launch (function : FunctionId) (args : Arguments) (size : LaunchSize)
  | unload (module : ModuleId)
deriving DecidableEq, Repr

/-- What a request that succeeds is answered with. -/
inductive Request.Answer where
  | module (module : ModuleId)
  | function (function : FunctionId)
  | done
deriving DecidableEq, Repr

def DeviceContext.Reply.map {α β : Type} (f : α → β) (reply : Reply δ μ φ α) : Reply δ μ φ β :=
  ⟨reply.result.map f, reply.events, reply.context⟩

namespace Request

/-- Carries a request out. -/
def apply (c : DeviceContext δ μ φ) : Request → DeviceContext.Reply δ μ φ Answer
  | .compile code => (c.compile code).map .module
  | .getFunction m name => (c.getFunction m name).map .function
  | .launch f args size => (c.launch f args size).map fun _ => .done
  | .unload m => (c.unload m).map fun _ => .done

/-- The calls that a request takes. -/
def calls (c : DeviceContext δ μ φ) (r : Request) : List (DriverCall μ φ) :=
  (r.apply (c.recorded [])).context.device.2

end Request

/-! ## Sessions -/

/-- A request with its answer and the calls that it took. -/
structure Exchange (μ φ : Type) where
  request : Request
  answer : Except DeviceError Request.Answer
  calls : List (DriverCall μ φ)

namespace Exchange

/-- The module whose handle was retired: the driver was called to release it, and failure does not
bring it back. -/
@[simp] def retired? (e : Exchange μ φ) : Option ModuleId :=
  match e.request, e.answer with
  | .unload m, .ok _ => some m
  | .unload m, .error (.unload _ _) => some m
  | _, _ => none

/-- What device code that compiled was answered with. -/
@[simp] def compiled? (e : Exchange μ φ) : Option Request.Answer :=
  match e.request, e.answer with
  | .compile _, .ok answer => some answer
  | _, _ => none

/-- What an entry point that was found was answered with. -/
@[simp] def resolved? (e : Exchange μ φ) : Option Request.Answer :=
  match e.request, e.answer with
  | .getFunction _ _, .ok answer => some answer
  | _, _ => none

end Exchange

/-- What requests have come to so far. -/
structure Session (δ μ φ : Type) where
  context : DeviceContext δ μ φ
  /-- In the order of the requests. -/
  exchanges : List (Exchange μ φ)

namespace Session

/-- Nothing has been asked yet. -/
def start (driver : Driver δ μ φ) (device : δ) : Session δ μ φ :=
  ⟨DeviceContext.start driver device, []⟩

/-- The session with one more exchange, which leaves a context. -/
def record (s : Session δ μ φ) (after : DeviceContext δ μ φ) (x : Exchange μ φ) : Session δ μ φ :=
  ⟨after, s.exchanges ++ [x]⟩

/-- What comes of one more request. -/
def exchange (s : Session δ μ φ) (r : Request) : Exchange μ φ :=
  ⟨r, (r.apply s.context).result, r.calls s.context⟩

/-- Carries out one more request. -/
def ask (s : Session δ μ φ) (r : Request) : Session δ μ φ :=
  s.record (r.apply s.context).context (s.exchange r)

/-- Carries out requests in order. -/
def serve (s : Session δ μ φ) (requests : List Request) : Session δ μ φ :=
  requests.foldl ask s

/-- The calls of the driver so far. -/
def calls (s : Session δ μ φ) : List (DriverCall μ φ) :=
  s.exchanges.flatMap Exchange.calls

/-- The modules loaded so far, in order. -/
def loaded (s : Session δ μ φ) : List μ :=
  DriverCall.loaded s.calls

/-- The modules that the driver was called to release so far, in order. -/
def released (s : Session δ μ φ) : List μ :=
  DriverCall.released s.calls

/-- The handles retired so far, in the order of the requests. -/
def retired (s : Session δ μ φ) : List ModuleId :=
  s.exchanges.filterMap Exchange.retired?

/-- The answers to the compilations so far that succeeded, in order. -/
def compiled (s : Session δ μ φ) : List Request.Answer :=
  s.exchanges.filterMap Exchange.compiled?

/-- The answers to the searches for entry points so far that succeeded, in order. -/
def resolved (s : Session δ μ φ) : List Request.Answer :=
  s.exchanges.filterMap Exchange.resolved?

/-- The module that a handle is for, counting the loads; it may have been released since. -/
def moduleOf? (s : Session δ μ φ) (m : ModuleId) : Option μ :=
  s.loaded[m.index]?

section Record

variable (s : Session δ μ φ) (after : DeviceContext δ μ φ) (x : Exchange μ φ)

@[simp] theorem context_record : (s.record after x).context = after := rfl

@[simp] theorem exchanges_record : (s.record after x).exchanges = s.exchanges ++ [x] := rfl

@[simp] theorem loaded_record : (s.record after x).loaded = s.loaded ++ DriverCall.loaded x.calls := by
  simp [loaded, calls]

@[simp] theorem released_record :
    (s.record after x).released = s.released ++ DriverCall.released x.calls := by
  simp [released, calls]

@[simp] theorem retired_record : (s.record after x).retired = s.retired ++ x.retired?.toList := by
  rw [retired, exchanges_record, List.filterMap_append, List.filterMap_cons]
  cases x.retired? <;> rfl

@[simp] theorem compiled_record :
    (s.record after x).compiled = s.compiled ++ x.compiled?.toList := by
  rw [compiled, exchanges_record, List.filterMap_append, List.filterMap_cons]
  cases x.compiled? <;> rfl

@[simp] theorem resolved_record :
    (s.record after x).resolved = s.resolved ++ x.resolved?.toList := by
  rw [resolved, exchanges_record, List.filterMap_append, List.filterMap_cons]
  cases x.resolved? <;> rfl

end Record

end Session

end KernelIR
