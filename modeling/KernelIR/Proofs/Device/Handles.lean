import KernelIR.Proofs.Device.Release
import Mathlib.Data.List.Perm.Subperm

/-!
# What handles stand for

A handle is issued once. A function outlives the module that it was found in, so that what a launch
may use is decided by two tables: the function's entry names a handle, and the slot of this handle
says whether the module is still there. What the driver is asked about is therefore always loaded,
and a request that fails leaves both tables as they are, but for the slot of a module whose release
failed.
-/

namespace KernelIR

variable {δ μ φ : Type}

/-! ## What a request asks of the driver -/

namespace Request.Effect

variable {c after : DeviceContext δ μ φ} {r : Request}
  {answer : Except DeviceError Request.Answer} {calls : List (DriverCall μ φ)}

theorem of_resolve (h : Effect c r answer calls after) {raw : μ} {name : String}
    {found : Except String φ} (mem : .resolve raw name found ∈ calls) :
    ∃ m, r = .getFunction m name ∧ c.module? m = some raw := by
  cases h with
  | @resolved m _ _ _ _ named | @notResolved m _ _ _ _ named =>
    cases List.mem_singleton.mp mem
    exact ⟨m, rfl, named⟩
  | _ => simp at mem

theorem of_launch (h : Effect c r answer calls after) {found : φ} {args : Arguments}
    {size : LaunchSize} {done : Except String Unit} (mem : .launch found args size done ∈ calls) :
    ∃ f function raw, r = .launch f args size ∧ c.functions[f.index]? = some function ∧
      function.raw = found ∧ c.module? function.module = some raw := by
  cases h with
  | @launched f _ _ function raw _ _ function_eq named =>
    cases List.mem_singleton.mp mem
    exact ⟨f, function, raw, rfl, function_eq, rfl, named⟩
  | _ => simp at mem

/-- An error that the driver is not behind comes up before the driver is called. -/
theorem calls_of_cause?_eq_none (h : Effect c r answer calls after) {e : DeviceError}
    (failed : answer = .error e) (own : e.cause? = none) : calls = [] := by
  cases h with
  | resolveUnknown | launchReleased | launchUnknown | unloadUnknown => rfl
  | compiled | resolved => cases failed
  | notCompiled | notResolved =>
    cases failed
    cases own
  | @launched _ _ _ _ _ answer | @unloaded _ _ answer =>
    rcases answer with cause | _
    · cases failed
      cases own
    · cases failed

/-- A request that fails leaves the tables as they are, but for a module whose release failed. -/
theorem of_error (h : Effect c r answer calls after) {e : DeviceError}
    (failed : answer = .error e) :
    after.functions = c.functions ∧ after.modules.size = c.modules.size ∧
      ∀ m, after.module? m =
        if (Exchange.mk r answer calls).retired? = some m then none else c.module? m := by
  cases h with
  | compiled | resolved => cases failed
  | @unloaded m raw answer =>
    rcases answer with cause | _
    · refine ⟨rfl, by simp, fun n => ?_⟩
      rw [DeviceContext.module?_of_retire rfl n]
      simp [Except.map, Except.mapError, eq_comm]
    · cases failed
  | _ => exact ⟨rfl, rfl, fun n => (if_neg (by simp)).symm⟩

end Request.Effect

namespace Session

variable {s : Session δ μ φ}

/-! ## Modules held -/

/-- Whether a module is loaded and not released: with all that was released before, it is still
among the modules loaded, each load counted. -/
def Holds (s : Session δ μ φ) (raw : μ) : Prop :=
  (raw :: s.released).Subperm s.loaded

theorem Holds.not_mem_released {raw : μ} (h : s.Holds raw) (distinct : s.loaded.Nodup) :
    raw ∉ s.released := by
  obtain ⟨l, perm, sub⟩ := h
  exact (List.nodup_cons.mp (perm.nodup_iff.mp (distinct.sublist sub))).1

theorem ModuleAccounts.holds (accounts : ModuleAccounts s) {m : ModuleId} {raw : μ}
    (named : s.context.module? m = some raw) : s.Holds raw := by
  obtain ⟨live, known⟩ := accounts.of_module? named
  have handles : (m :: s.retired).Subperm s.handles := by
    refine (List.nodup_cons.mpr ⟨live, accounts.nodup⟩).subperm fun n hn => mem_handles.mpr ?_
    rcases List.mem_cons.mp hn with rfl | hn
    · exact lt_of_moduleOf? known
    · exact accounts.issued n hn
  obtain ⟨l, perm, sub⟩ := handles
  refine ⟨l.filterMap s.moduleOf?, ?_, ?_⟩
  · have := perm.filterMap s.moduleOf?
    rwa [List.filterMap_cons_some known, ← accounts.released] at this
  · have := sub.filterMap s.moduleOf?
    rwa [filterMap_moduleOf?_handles] at this

/-! ## Safety -/

/-- The driver is asked about loaded modules only, and about a function only as it was found in one.
Requests that it is not behind leave it alone, failures leave the tables alone, and each handle is
issued once. -/
theorem handles_safe (driver : Driver δ μ φ) (device : δ) (before : List Request) (r : Request) :
    let s := (start driver device).serve before
    let x := s.exchange r
    let after := s.ask r
    (∀ raw name found, .resolve raw name found ∈ x.calls →
        (∃ m, r = .getFunction m name ∧ m ∉ s.retired ∧ s.moduleOf? m = some raw) ∧
          s.Holds raw ∧ (s.loaded.Nodup → raw ∉ s.released)) ∧
      (∀ found args size done, .launch found args size done ∈ x.calls →
        ∃ f m name raw, r = .launch f args size ∧
          ⟨.getFunction m name, .ok (.function f), [.resolve raw name (.ok found)]⟩ ∈ s.exchanges ∧
          m ∉ s.retired ∧ s.moduleOf? m = some raw ∧
          s.Holds raw ∧ (s.loaded.Nodup → raw ∉ s.released)) ∧
      (∀ m, x.answer = .error (.unknownModule m) → x.calls = []) ∧
      (∀ f, x.answer = .error (.unknownFunction f) → x.calls = []) ∧
      (∀ e, x.answer = .error e →
        after.context.functions = s.context.functions ∧
          after.context.modules.size = s.context.modules.size ∧
          ∀ m, after.context.module? m =
            if x.retired? = some m then none else s.context.module? m) ∧
      (∀ (k : Nat) answer, after.compiled[k]? = some answer → answer = .module ⟨k⟩) ∧
      (∀ (k : Nat) answer, after.resolved[k]? = some answer → answer = .function ⟨k⟩) ∧
      ∀ call ∈ after.context.closingCalls, ∃ raw done, call = .unload raw done := by
  intro s x after
  have modules : ModuleAccounts s := (ModuleAccounts.start driver device).serve before
  have functions : FunctionAccounts s :=
    (FunctionAccounts.start driver device).serve (ModuleAccounts.start driver device) before
  have effect : Request.Effect s.context r x.answer x.calls after.context := r.effect s.context
  refine ⟨?resolve, ?launch, ?unknownModule, ?unknownFunction, ?error, ?compiled, ?resolved,
    fun call mem => after.context.closing.2.2 call mem⟩
  case resolve =>
    intro raw name found mem
    obtain ⟨m, ask, named⟩ := effect.of_resolve mem
    have held := modules.holds named
    exact ⟨⟨m, ask, modules.of_module? named⟩, held, held.not_mem_released⟩
  case launch =>
    intro found args size done mem
    obtain ⟨f, function, raw, ask, entry, rfl, named⟩ := effect.of_launch mem
    obtain ⟨live, known⟩ := modules.of_module? named
    obtain ⟨raw', known', source⟩ := functions.origin f function entry
    obtain rfl : raw' = raw := Option.some.inj (known'.symm.trans known)
    have held := modules.holds named
    exact ⟨f, function.module, function.name, raw', ask, source, live, known, held,
      held.not_mem_released⟩
  case unknownModule => exact fun m unknown => effect.calls_of_cause?_eq_none unknown rfl
  case unknownFunction => exact fun f unknown => effect.calls_of_cause?_eq_none unknown rfl
  case error => exact fun e failed => effect.of_error failed
  case compiled =>
    intro k answer got
    rw [(modules.ask r).compiled] at got
    grind
  case resolved =>
    intro k answer got
    rw [(functions.ask modules r).resolved] at got
    grind

/-- Two modules with an entry point each. -/
def twoModules : List Request :=
  [.compile "a", .getFunction ⟨0⟩ "f", .compile "b", .getFunction ⟨1⟩ "g"]

theorem handles_safe_two_modules :
    let s := (start countingDriver 0).serve twoModules
    let gone := (start countingDriver 0).serve (twoModules ++ [.unload ⟨1⟩])
    let launch := Request.launch ⟨1⟩ none ⟨1, 1⟩
    (.resolve 1 "h" (.ok 10) ∈ (s.exchange (.getFunction ⟨1⟩ "h")).calls ∧
        s.Holds 1 ∧ s.loaded.Nodup ∧ 1 ∉ s.released) ∧
      (.launch 10 none ⟨1, 1⟩ (.ok ()) ∈ (s.exchange launch).calls ∧
        ∃ f m name raw, launch = .launch f none ⟨1, 1⟩ ∧
          ⟨.getFunction m name, .ok (.function f), [.resolve raw name (.ok 10)]⟩ ∈ s.exchanges ∧
          s.moduleOf? m = some raw ∧ s.Holds raw) ∧
      ((gone.exchange launch).answer = .error (.unknownModule ⟨1⟩) ∧
        (gone.exchange launch).calls = []) ∧
      ((s.exchange (.unload ⟨1⟩)).answer = .error (.unload ⟨1⟩ "busy") ∧
        (s.ask (.unload ⟨1⟩)).context.module? ⟨1⟩ = none ∧
        (s.ask (.unload ⟨1⟩)).context.module? ⟨0⟩ = some 0) ∧
      (gone.compiled[1]? = some (.module ⟨1⟩) ∧
        ∀ answer, (gone.ask (.compile "c")).compiled[2]? = some answer → answer = .module ⟨2⟩) := by
  intro s gone launch
  have distinct : s.loaded.Nodup := by decide +kernel
  have resolves : .resolve 1 "h" (.ok 10) ∈ (s.exchange (.getFunction ⟨1⟩ "h")).calls := .head _
  have launches : .launch 10 none ⟨1, 1⟩ (.ok ()) ∈ (s.exchange launch).calls := .head _
  have unknown : (gone.exchange launch).answer = .error (.unknownModule ⟨1⟩) := rfl
  have failed : (s.exchange (.unload ⟨1⟩)).answer = .error (.unload ⟨1⟩ "busy") := rfl
  obtain ⟨resolve, -⟩ := handles_safe countingDriver 0 twoModules (.getFunction ⟨1⟩ "h")
  obtain ⟨-, held, released⟩ := resolve _ _ _ resolves
  obtain ⟨-, launch', -⟩ := handles_safe countingDriver 0 twoModules launch
  obtain ⟨f, m, name, raw, ask, source, -, known, heldToo, -⟩ := launch' _ _ _ _ launches
  obtain ⟨-, -, unknownModule, -⟩ :=
    handles_safe countingDriver 0 (twoModules ++ [.unload ⟨1⟩]) launch
  obtain ⟨-, -, -, -, error, -⟩ := handles_safe countingDriver 0 twoModules (.unload ⟨1⟩)
  obtain ⟨-, -, slots⟩ := error _ failed
  obtain ⟨-, -, -, -, -, compiled, -⟩ :=
    handles_safe countingDriver 0 (twoModules ++ [.unload ⟨1⟩]) (.compile "c")
  exact ⟨⟨resolves, held, distinct, released distinct⟩,
    ⟨launches, f, m, name, raw, ask, source, known, heldToo⟩,
    ⟨unknown, unknownModule _ unknown⟩,
    ⟨failed, slots ⟨1⟩, slots ⟨0⟩⟩, rfl, compiled 2⟩

end Session

end KernelIR
