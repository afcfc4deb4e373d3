import KernelIR.Log
import Mathlib.Data.List.Basic

/-!
# Computations that may fault

The operations of an arena are computations that end in a value or a fault. This module takes such
computations apart: a sequence ends in a value exactly if each of its steps does, and a descent that
asks for a list at each place of a list (`gather`) collects the answers in order.
-/

namespace KernelIR

variable {α β γ : Type}

/-! ## Sequences -/

theorem bind_eq_ok {x : Except Fault α} {f : α → Except Fault β} {b : β} :
    x >>= f = .ok b ↔ ∃ a, x = .ok a ∧ f a = .ok b := by
  cases x with
  | error fault => simp [bind, Except.bind]
  | ok a => simp [bind, Except.bind]

/-- A sequence has the fault of the first of its steps that does not end in a value. -/
theorem bind_eq_error {x : Except Fault α} {f : α → Except Fault β} {fault : Fault} :
    x >>= f = .error fault ↔ x = .error fault ∨ ∃ a, x = .ok a ∧ f a = .error fault := by
  cases x with
  | error fault => simp [bind, Except.bind]
  | ok a => simp [bind, Except.bind]

@[simp] theorem ok_bind (a : α) (f : α → Except Fault β) : (.ok a : Except Fault α) >>= f = f a :=
  rfl

@[simp] theorem throw_bind (fault : Fault) (f : α → Except Fault β) :
    (throw fault : Except Fault α) >>= f = .error fault :=
  rfl

@[simp] theorem pure_eq_ok (a b : α) : (pure a : Except Fault α) = .ok b ↔ a = b := by
  simp [pure, Except.pure]

/-! ## Logged sequences -/

namespace Logged

theorem result_bind (x : Logged α) (f : α → Logged β) :
    (x >>= f).result = x.result >>= fun a => (f a).result := by
  cases h : x.result with
  | error fault => rw [bind_of_error h]; rfl
  | ok a => rw [bind_of_ok h]; rfl

theorem result_bind_eq_ok {x : Logged α} {f : α → Logged β} {b : β} :
    (x >>= f).result = .ok b ↔ ∃ a, x.result = .ok a ∧ (f a).result = .ok b := by
  rw [result_bind, bind_eq_ok]

theorem bind_pure_eq (x : Logged α) (f : α → β) :
    (x >>= fun a => pure (f a)) = ⟨x.log, x.result.map f⟩ := by
  cases h : x.result with
  | error fault => rw [bind_of_error h]; rfl
  | ok a =>
      rw [bind_of_ok h]
      exact congrArg (Logged.mk · _) (List.append_nil _)

/-- What follows a computation matters only for the values that it ends in. -/
theorem bind_congr_of_ok {x : Logged α} {f g : α → Logged β}
    (h : ∀ a, x.result = .ok a → f a = g a) : x >>= f = x >>= g := by
  cases hx : x.result with
  | error fault => rw [bind_of_error hx, bind_of_error hx]
  | ok a => rw [bind_of_ok hx, bind_of_ok hx, h a hx]

@[simp] theorem result_pure_eq_ok (a b : α) : (pure a : Logged α).result = .ok b ↔ a = b := by
  show Except.ok a = Except.ok b ↔ a = b
  simp

@[simp] theorem result_lift (x : Except Fault α) : (liftM x : Logged α).result = x := rfl

@[simp] theorem result_emit (e : Event) : (emit e).result = .ok () := rfl

theorem log_bind_of_ok {x : Logged α} {a : α} (h : x.result = .ok a) (f : α → Logged β) :
    (x >>= f).log = x.log ++ (f a).log := by
  rw [bind_of_ok h]

@[simp] theorem log_pure (a : α) : (pure a : Logged α).log = [] := rfl

@[simp] theorem log_lift (x : Except Fault α) : (liftM x : Logged α).log = [] := rfl

@[simp] theorem log_emit (e : Event) : (emit e).log = [⟨[], e⟩] := rfl

end Logged

/-! ## Gathering -/

/-- The answers of `f` along a list, one after another. -/
def gather (f : α → Except Fault (List β)) (xs : List α) : Except Fault (List β) :=
  return (← xs.mapM f).flatten

@[simp] theorem gather_nil (f : α → Except Fault (List β)) : gather f [] = .ok [] := rfl

theorem gather_cons (f : α → Except Fault (List β)) (x : α) (xs : List α) :
    gather f (x :: xs) =
      f x >>= fun here => gather f xs >>= fun rest => pure (here ++ rest) := by
  simp [gather, List.mapM_cons]

theorem gather_cons_eq_ok {f : α → Except Fault (List β)} {x : α} {xs : List α} {ys : List β} :
    gather f (x :: xs) = .ok ys ↔
      ∃ here, f x = .ok here ∧ ∃ rest, gather f xs = .ok rest ∧ here ++ rest = ys := by
  simp only [gather_cons, bind_eq_ok, pure_eq_ok]

theorem gather_append (f : α → Except Fault (List β)) (xs ys : List α) :
    gather f (xs ++ ys) =
      gather f xs >>= fun front => gather f ys >>= fun back => pure (front ++ back) := by
  induction xs with
  | nil =>
      rw [List.nil_append, gather_nil, ok_bind]
      exact (bind_pure _).symm
  | cons x xs ih =>
      simp only [List.cons_append, gather_cons, ih, bind_assoc, pure_bind, List.append_assoc]

/-- A fault along the list is the fault of `f` at one of its places. -/
theorem exists_of_gather_eq_error {f : α → Except Fault (List β)} {xs : List α} {fault : Fault}
    (h : gather f xs = .error fault) : ∃ x ∈ xs, f x = .error fault := by
  induction xs with
  | nil => cases h
  | cons x xs ih =>
      simp only [gather_cons, bind_eq_error] at h
      rcases h with hx | ⟨here, _, hxs | ⟨rest, _, hdone⟩⟩
      · exact ⟨x, List.mem_cons_self, hx⟩
      · rcases ih hxs with ⟨y, hy, hfault⟩
        exact ⟨y, List.mem_cons_of_mem x hy, hfault⟩
      · cases hdone

/-- If `f` never faults, its answers are put together. -/
theorem gather_eq_ok {f : α → Except Fault (List β)} {g : α → List β} {xs : List α}
    (h : ∀ x ∈ xs, f x = .ok (g x)) : gather f xs = .ok (xs.flatMap g) := by
  induction xs with
  | nil => rfl
  | cons x xs ih =>
      have hrest := ih fun y hy => h y (List.mem_cons_of_mem x hy)
      exact gather_cons_eq_ok.2 ⟨g x, h x List.mem_cons_self, _, hrest, rfl⟩

/-- What `f` answers at each place is found in the whole. -/
theorem exists_ok_of_mem_of_gather {f : α → Except Fault (List β)} {xs : List α} {ys : List β}
    (h : gather f xs = .ok ys) {x : α} (hx : x ∈ xs) : ∃ here, f x = .ok here ∧ here ⊆ ys := by
  induction xs generalizing ys with
  | nil => cases hx
  | cons z zs ih =>
      rcases gather_cons_eq_ok.1 h with ⟨here, hz, rest, hzs, rfl⟩
      rcases List.mem_cons.1 hx with rfl | hx
      · exact ⟨here, hz, List.subset_append_left here rest⟩
      · rcases ih hzs hx with ⟨there, hx', hsub⟩
        exact ⟨there, hx', List.Subset.trans hsub (List.subset_append_right here rest)⟩

/-! ## Testing -/

/-- No place passes a test exactly if every place fails it. -/
theorem anyM_eq_ok_false {f : α → Except Fault Bool} {xs : List α} :
    xs.anyM f = .ok false ↔ ∀ x ∈ xs, f x = .ok false := by
  induction xs with
  | nil => simp [List.anyM, pure, Except.pure]
  | cons x xs ih =>
      rw [List.anyM_cons, bind_eq_ok, List.forall_mem_cons, ← ih]
      constructor
      · rintro ⟨passed, hx, hrest⟩
        cases passed with
        | true => cases hrest
        | false => exact ⟨hx, hrest⟩
      · rintro ⟨hx, hrest⟩
        exact ⟨false, hx, hrest⟩

/-! ## Filtering -/

/-- A filter that never faults keeps what passes, and makes of each what it makes of it. -/
theorem filterMapM_eq_ok {f : α → Except Fault (Option β)} (keep : α → Bool) (make : α → β)
    {xs : List α} (h : ∀ x ∈ xs, f x = .ok (if keep x then some (make x) else none)) :
    xs.filterMapM f = .ok ((xs.filter keep).map make) := by
  induction xs with
  | nil => rfl
  | cons x xs ih =>
      have hrest := ih fun y hy => h y (List.mem_cons_of_mem x hy)
      rw [List.filterMapM_cons, h x List.mem_cons_self, ok_bind, hrest]
      cases hx : keep x with
      | true => simp [hx]
      | false => simp [hx]

theorem exists_ok_of_filterMapM {f : α → Except Fault (Option β)} {xs : List α} {ys : List β}
    (h : xs.filterMapM f = .ok ys) : ∀ x ∈ xs, ∃ y, f x = .ok y := by
  induction xs generalizing ys with
  | nil =>
      intro x hx
      cases hx
  | cons x xs ih =>
      rw [List.filterMapM_cons, bind_eq_ok] at h
      rcases h with ⟨y, hy, h⟩
      have hrest : ∃ zs, xs.filterMapM f = .ok zs := by
        cases y with
        | none => exact ⟨ys, h⟩
        | some y =>
            rcases bind_eq_ok.1 h with ⟨zs, hzs, _⟩
            exact ⟨zs, hzs⟩
      rcases hrest with ⟨zs, hzs⟩
      intro z hz
      rcases List.mem_cons.1 hz with rfl | hz
      · exact ⟨y, hy⟩
      · exact ih hzs z hz

end KernelIR
