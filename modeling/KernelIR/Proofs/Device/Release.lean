import KernelIR.Proofs.Device.Session
import Mathlib.Data.List.Perm.Basic
import Mathlib.Data.List.Range

/-!
# Releasing modules

Each module that is loaded through a context is released once. What the requests release comes
first, in their order, and closing the context goes through the rest from the last load to the first.
A handle stands for one load, so it is handles that are counted, and the modules follow them.
-/

namespace KernelIR

variable {δ μ φ : Type}

/-! ## Closing -/

namespace DeviceContext

/-- Every module of the list is released, whatever the driver answers, and nothing else is asked. -/
theorem exists_calls_releaseAll (driver : Driver δ μ φ) (modules : List (ModuleId × μ)) (device : δ)
    (before : List (DriverCall μ φ)) :
    ∃ calls, releaseAll driver.recorded (device, before) modules =
        ((releaseAll driver device modules).1, (releaseAll driver device modules).2,
          before ++ calls) ∧
      DriverCall.released calls = modules.map Prod.snd ∧
      ∀ call ∈ calls, ∃ raw answer, call = .unload raw answer := by
  induction modules generalizing device before with
  | nil => exact ⟨[], by simp [releaseAll], rfl, by simp⟩
  | cons entry rest ih =>
    obtain ⟨m, raw⟩ := entry
    rcases unload : driver.unload device raw with ⟨answer, device'⟩
    obtain ⟨calls, record, released, only⟩ := ih device' (before ++ [.unload raw answer])
    refine ⟨.unload raw answer :: calls, ?_, by simp [released], ?_⟩
    · simp only [releaseAll, unload, Driver.unload_recorded unload, record]
      cases answer <;> simp
    · intro call mem
      rcases List.mem_cons.mp mem with rfl | mem
      · exact ⟨raw, answer, rfl⟩
      · exact only call mem

/-- Closing a context releases what remains in it and asks nothing else of the driver. Recording
changes neither what it reports nor where it leaves the driver. -/
theorem closing (c : DeviceContext δ μ φ) :
    (c.recorded []).close = (c.close.1, c.close.2, c.closingCalls) ∧
      DriverCall.released c.closingCalls = c.remaining.map Prod.snd ∧
      ∀ call ∈ c.closingCalls, ∃ raw answer, call = .unload raw answer := by
  obtain ⟨calls, record, spec⟩ := exists_calls_releaseAll c.driver c.remaining c.device []
  have close : (c.recorded []).close = (c.close.1, c.close.2, calls) := record
  have calls_eq : c.closingCalls = calls := by rw [closingCalls, close]
  exact calls_eq ▸ ⟨close, spec⟩

theorem loaded_closingCalls (c : DeviceContext δ μ φ) : DriverCall.loaded c.closingCalls = [] := by
  refine List.filterMap_eq_nil_iff.mpr fun call mem => ?_
  obtain ⟨raw, answer, rfl⟩ := c.closing.2.2 call mem
  rfl

theorem map_snd_remaining (c : DeviceContext δ μ φ) :
    c.remaining.map Prod.snd = (c.modules.toList.filterMap id).reverse := by
  have slot : ∀ entry : Option μ × Nat,
      (entry.1.map fun raw => ((⟨entry.2⟩, raw) : ModuleId × μ)).map Prod.snd = entry.1 := by
    rintro ⟨_ | raw, i⟩ <;> rfl
  calc c.remaining.map Prod.snd
      = (c.modules.toList.zipIdx.filterMap Prod.fst).reverse := by
        simp only [remaining, List.map_reverse, List.map_filterMap, slot]
    _ = ((c.modules.toList.zipIdx.map Prod.fst).filterMap id).reverse := by
        rw [List.filterMap_map, Function.id_comp]
    _ = (c.modules.toList.filterMap id).reverse := by rw [List.zipIdx_map_fst]

end DeviceContext

namespace Session

variable {s : Session δ μ φ}

/-! ## Handles -/

/-- The handles of the modules loaded so far, in the order of the loads. -/
def handles (s : Session δ μ φ) : List ModuleId :=
  (List.range s.loaded.length).map ModuleId.mk

theorem mem_handles {m : ModuleId} : m ∈ s.handles ↔ m.index < s.loaded.length := by
  simp only [handles, List.mem_map, List.mem_range]
  exact ⟨fun ⟨k, hk, e⟩ => e ▸ hk, fun h => ⟨m.index, h, rfl⟩⟩

theorem nodup_handles (s : Session δ μ φ) : s.handles.Nodup :=
  List.nodup_range.map fun _ _ => ModuleId.mk.inj

theorem filterMap_moduleOf?_handles (s : Session δ μ φ) :
    s.handles.filterMap s.moduleOf? = s.loaded := by
  have each : s.handles.map s.moduleOf? = s.loaded.map some :=
    List.ext_getElem (by simp [handles]) fun i h h' => by simp [handles, moduleOf?]
  calc s.handles.filterMap s.moduleOf?
      = (s.handles.map s.moduleOf?).filterMap id := by rw [List.filterMap_map, Function.id_comp]
    _ = s.loaded := by rw [each, List.filterMap_map, Function.id_comp, List.filterMap_some]

theorem moduleOf?_inj (distinct : s.loaded.Nodup) {m n : ModuleId} {raw : μ}
    (hm : s.moduleOf? m = some raw) (hn : s.moduleOf? n = some raw) : m = n := by
  have index_lt : m.index < s.loaded.length := lt_of_moduleOf? hm
  have index_eq : m.index = n.index := (List.getElem?_inj index_lt distinct).mp (hm.trans hn.symm)
  cases m
  cases n
  exact congrArg ModuleId.mk index_eq

namespace ModuleAccounts

theorem slots (accounts : ModuleAccounts s) :
    s.context.modules.toList = s.handles.map s.context.module? := by
  refine List.ext_getElem (by simp [handles, accounts.size]) fun i h h' => ?_
  have inside : i < s.context.modules.size := h
  simp [handles, DeviceContext.module?, inside]

/-- The handles in use and those retired are all handles, each of them once. -/
theorem perm_handles (accounts : ModuleAccounts s) :
    (s.retired ++ s.handles.filter (· ∉ s.retired)).Perm s.handles := by
  have apart : ∀ m ∈ s.retired, ∀ n ∈ s.handles.filter (· ∉ s.retired), m ≠ n := by
    rintro m hm _ hn rfl
    exact of_decide_eq_true (List.mem_filter.mp hn).2 hm
  have nodup : (s.retired ++ s.handles.filter (· ∉ s.retired)).Nodup :=
    List.nodup_append.mpr ⟨accounts.nodup, s.nodup_handles.filter _, apart⟩
  refine (List.perm_ext_iff_of_nodup nodup s.nodup_handles).mpr fun m => ?_
  have := accounts.issued m
  rw [List.mem_append, List.mem_filter, decide_eq_true_iff, mem_handles]
  tauto

theorem remaining (accounts : ModuleAccounts s) :
    s.context.remaining.map Prod.snd =
      ((s.handles.filter (· ∉ s.retired)).filterMap s.moduleOf?).reverse := by
  rw [DeviceContext.map_snd_remaining, accounts.slots, List.filterMap_map, Function.id_comp,
    List.filterMap_filter]
  congr 1
  refine List.filterMap_congr fun m _ => ?_
  rw [accounts.module?]
  by_cases hm : m ∈ s.retired <;> simp [hm]

/-- What was released and what remains are the modules loaded, also where loads cannot be told
apart. -/
theorem perm_loaded (accounts : ModuleAccounts s) :
    (s.released ++ s.context.remaining.map Prod.snd).Perm s.loaded := by
  let inUse := s.handles.filter (· ∉ s.retired)
  calc List.Perm
        (s.released ++ s.context.remaining.map Prod.snd)
        (s.released ++ inUse.filterMap s.moduleOf?) := by
        rw [accounts.remaining]
        exact (List.reverse_perm _).append_left _
    _ = (s.retired ++ inUse).filterMap s.moduleOf? := by
        rw [accounts.released, List.filterMap_append]
    List.Perm _ (s.handles.filterMap s.moduleOf?) := accounts.perm_handles.filterMap _
    _ = s.loaded := filterMap_moduleOf?_handles s

theorem mem_released_iff (accounts : ModuleAccounts s) (distinct : s.loaded.Nodup) {m : ModuleId}
    {raw : μ} (known : s.moduleOf? m = some raw) : raw ∈ s.released ↔ m ∈ s.retired := by
  rw [accounts.released, List.mem_filterMap]
  constructor
  · rintro ⟨n, hn, same⟩
    exact moduleOf?_inj distinct same known ▸ hn
  · exact fun hm => ⟨m, hm, known⟩

/-- If loads are told apart, what remains is what was loaded and not released. -/
theorem remaining_of_nodup [DecidableEq μ] (accounts : ModuleAccounts s)
    (distinct : s.loaded.Nodup) :
    s.context.remaining.map Prod.snd = (s.loaded.filter (· ∉ s.released)).reverse := by
  rw [accounts.remaining]
  congr 1
  have each : ∀ m, (if m ∉ s.retired then s.moduleOf? m else none) =
      (s.moduleOf? m).filter (· ∉ s.released) := by
    intro m
    rcases known : s.moduleOf? m with _ | raw
    · simp
    · simp [Option.filter, accounts.mem_released_iff distinct known]
  calc (s.handles.filter (· ∉ s.retired)).filterMap s.moduleOf?
      = s.handles.filterMap fun m => (s.moduleOf? m).filter (· ∉ s.released) := by
        simp only [List.filterMap_filter, decide_eq_true_iff, each]
    _ = s.loaded.filter (· ∉ s.released) := by
        rw [← List.filter_filterMap, filterMap_moduleOf?_handles]

end ModuleAccounts

/-! ## Releases -/

/-- Each module loaded is released once, whatever the driver answers: first those whose handles the
requests retire, in that order, then on closing the others, the last loaded first. -/
theorem released_once [DecidableEq μ] (driver : Driver δ μ φ) (device : δ)
    (requests : List Request)
    (distinct : ((start driver device).serve requests).loaded.Nodup) :
    let s := (start driver device).serve requests
    let calls := s.calls ++ s.context.closingCalls
    s.released = s.retired.filterMap s.moduleOf? ∧
      DriverCall.released calls =
        s.released ++ ((DriverCall.loaded calls).filter (· ∉ s.released)).reverse ∧
      (DriverCall.released calls).Perm (DriverCall.loaded calls) ∧
      (DriverCall.released calls).Nodup := by
  intro s calls
  have accounts : ModuleAccounts s := (ModuleAccounts.start driver device).serve requests
  have loaded : DriverCall.loaded calls = s.loaded := by
    rw [DriverCall.loaded_append, DeviceContext.loaded_closingCalls, List.append_nil, Session.loaded]
  have released : DriverCall.released calls = s.released ++ s.context.remaining.map Prod.snd := by
    rw [DriverCall.released_append, s.context.closing.2.1, Session.released]
  have perm : (DriverCall.released calls).Perm (DriverCall.loaded calls) := by
    rw [released, loaded]
    exact accounts.perm_loaded
  exact ⟨accounts.released, by rw [released, loaded, accounts.remaining_of_nodup distinct], perm,
    perm.nodup_iff.mpr (loaded ▸ distinct)⟩

/-- A driver that counts its loads. It loads no empty code and finds no nameless entry point, and it
fails to release its second module. -/
def countingDriver : Driver Nat Nat Nat where
  load n code := if code = "" then (.error "no code", n) else (.ok n, n + 1)
  resolve n raw name := if name = "" then (.error "no name", n) else (.ok (10 * raw), n)
  launch n _ _ _ := (.ok (), n)
  unload n raw := if raw = 1 then (.error "busy", n) else (.ok (), n)

/-- Four modules, of which the second is asked to be released twice. -/
def fourModules : List Request :=
  [.compile "a", .compile "", .compile "b", .unload ⟨1⟩, .compile "c", .unload ⟨9⟩, .compile "d",
    .unload ⟨1⟩, .unload ⟨0⟩]

theorem released_once_four_modules :
    let s := (start countingDriver 0).serve fourModules
    let calls := s.calls ++ s.context.closingCalls
    s.loaded = [0, 1, 2, 3] ∧ s.loaded.Nodup ∧ s.retired = [⟨1⟩, ⟨0⟩] ∧
      DriverCall.released calls = [1, 0, 3, 2] ∧
      (DriverCall.released calls).Perm (DriverCall.loaded calls) ∧
      (DriverCall.released calls).Nodup := by
  intro s calls
  have loaded : s.loaded = [0, 1, 2, 3] := by decide +kernel
  have distinct : s.loaded.Nodup := by rw [loaded]; decide
  obtain ⟨-, order, perm, nodup⟩ := released_once countingDriver 0 fourModules distinct
  exact ⟨loaded, distinct, by decide +kernel, order.trans (by decide +kernel), perm, nodup⟩

end Session

end KernelIR
