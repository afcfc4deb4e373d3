import KernelIR.Proofs.Fallible
import KernelIR.Proofs.Visits
import Mathlib.Data.Finset.Card

/-!
# Descents through a bounded number of levels

The descents of an arena are functions of the number of levels that they may go down, and a descent
that needs more is a fault. `Descends` says that such a function carries out a descent; it then
answers exactly what the descent meets, if it answers at all. A descent that ends needs at most one
level more than there are blocks on the way, because no block is entered inside itself.
-/

namespace KernelIR

/-- `within depth` carries out, through `depth` levels, the descent that enters the places `enter`
and goes on to the places `below`. -/
structure Descends {α : Type} (within : Nat → α → Except Fault (List α)) (enter : α → Prop)
    (below : α → List α) : Prop where
  zero : ∀ x ss, within 0 x ≠ .ok ss
  succ : ∀ depth x ss, within (depth + 1) x = .ok ss ↔
    enter x ∧ ∃ inner, gather (within depth) (below x) = .ok inner ∧ ss = x :: inner

namespace Descends

variable {α : Type} {within : Nat → α → Except Fault (List α)} {enter : α → Prop}
  {below : α → List α} {depth : Nat} {x : α} {xs ss : List α}

/-! ## What is answered is what is met -/

theorem visits (hd : Descends within enter below) (h : within depth x = .ok ss) :
    Visits enter below [x] ss := by
  induction depth generalizing x ss with
  | zero => exact absurd h (hd.zero x ss)
  | succ depth ih =>
      rcases (hd.succ depth x ss).1 h with ⟨henter, inner, hinner, rfl⟩
      -- The induction on the levels gives the descent of each place below `x`, joined in order.
      have hbelow : Visits enter below (below x) inner := by
        clear h
        generalize below x = ys at hinner
        induction ys generalizing inner with
        | nil =>
            cases hinner
            exact .nil
        | cons y ys ihYs =>
            rcases gather_cons_eq_ok.1 hinner with ⟨here, hy, rest, hys, rfl⟩
            exact (ih hy).append (ihYs rest hys)
      exact Visits.singleton_iff.2 ⟨henter, inner, hbelow, rfl⟩

theorem visits_gather (hd : Descends within enter below) (h : gather (within depth) xs = .ok ss) :
    Visits enter below xs ss := by
  induction xs generalizing ss with
  | nil =>
      cases h
      exact .nil
  | cons x xs ih =>
      rcases gather_cons_eq_ok.1 h with ⟨here, hx, rest, hxs, rfl⟩
      exact (hd.visits hx).append (ih hxs)

/-! ## What is met is answered -/

/-- The descents of the places of a list make up the descent of the list. -/
theorem gather_eq_ok_of_forall {f : α → Except Fault (List α)} (h : Visits enter below xs ss)
    (hf : ∀ y ∈ xs, ∀ here, Visits enter below [y] here → here ⊆ ss → f y = .ok here) :
    gather f xs = .ok ss := by
  induction xs generalizing ss with
  | nil =>
      cases h
      rfl
  | cons x xs ih =>
      have hsplit : Visits enter below ([x] ++ xs) ss := h
      rcases hsplit.of_append with ⟨here, rest, hhere, hrest, rfl⟩
      refine gather_cons_eq_ok.2 ⟨here, ?_, rest, ?_, rfl⟩
      · exact hf x List.mem_cons_self here hhere (List.subset_append_left here rest)
      · refine ih hrest fun y hy there hthere hsub => ?_
        exact hf y (List.mem_cons_of_mem x hy) there hthere
          (List.Subset.trans hsub (List.subset_append_right here rest))

/-- Through more levels a descent answers the same. -/
theorem mono (hd : Descends within enter below) {deeper : Nat} (hle : depth ≤ deeper)
    (h : within depth x = .ok ss) : within deeper x = .ok ss := by
  induction depth generalizing x ss deeper with
  | zero => exact absurd h (hd.zero x ss)
  | succ depth ih =>
      rcases deeper with _ | deeper
      · omega
      · rcases (hd.succ depth x ss).1 h with ⟨henter, inner, hinner, rfl⟩
        refine (hd.succ deeper x _).2 ⟨henter, inner, ?_, rfl⟩
        have hbelow := hd.visits_gather hinner
        refine gather_eq_ok_of_forall hbelow fun y hy here hhere _ => ?_
        rcases exists_ok_of_mem_of_gather hinner hy with ⟨here', hy', _⟩
        have hsame : here' = here := (hd.visits hy').unique hhere
        exact hsame ▸ ih (by omega) hy'

variable {β : Type} (held : α → List β) (listed : β → List α)

/-- A block that leads to `x` is not held by anything that the descent from `x` meets. -/
theorem not_mem_held (hbelow : ∀ y, below y = (held y).flatMap listed)
    (h : Visits enter below [x] ss) {b : β} (hx : x ∈ listed b) {t : α} (ht : t ∈ ss) :
    b ∉ held t := by
  intro hb
  have hxt : x ∈ below t := by
    rw [hbelow]
    exact List.mem_flatMap.2 ⟨b, hb, hx⟩
  rcases Visits.singleton_iff.1 h with ⟨_, inner, hinner, rfl⟩
  have hnot := Visits.not_mem_below hinner
  rcases List.mem_cons.1 ht with rfl | ht
  · exact hnot (hinner.roots_subset hxt)
  · exact hnot (hinner.below_subset ht hxt)

/-- A descent that ends is carried out through one level more than there are blocks on its way. -/
theorem eq_ok_of_visits [DecidableEq β] (hd : Descends within enter below)
    (hbelow : ∀ y, below y = (held y).flatMap listed) {blocks : Finset β}
    (h : Visits enter below [x] ss) (hheld : ∀ t ∈ ss, ∀ b ∈ held t, b ∈ blocks)
    (hcard : blocks.card ≤ depth) : within (depth + 1) x = .ok ss := by
  induction depth generalizing x ss blocks with
  | zero =>
      -- Without a block there is nothing below `x`.
      rcases Visits.singleton_iff.1 h with ⟨henter, inner, hinner, rfl⟩
      have hempty : blocks = ∅ := Finset.card_eq_zero.1 (Nat.le_zero.1 hcard)
      have hnone : below x = [] := by
        rw [hbelow]
        refine List.flatMap_eq_nil_iff.2 fun b hb => ?_
        have hmem := hheld x List.mem_cons_self b hb
        rw [hempty] at hmem
        exact absurd hmem (Finset.notMem_empty b)
      rw [hnone] at hinner
      cases hinner
      exact (hd.succ 0 x _).2 ⟨henter, [], by rw [hnone]; rfl, rfl⟩
  | succ depth ih =>
      rcases Visits.singleton_iff.1 h with ⟨henter, inner, hinner, rfl⟩
      refine (hd.succ (depth + 1) x _).2 ⟨henter, inner, ?_, rfl⟩
      refine gather_eq_ok_of_forall hinner fun y hy here hhere hsub => ?_
      rw [hbelow] at hy
      rcases List.mem_flatMap.1 hy with ⟨b, hb, hyb⟩
      have hbBlocks : b ∈ blocks := hheld x List.mem_cons_self b hb
      -- `b` led to `y`, so it is not on the way any more below `y`, and one block fewer is left.
      have hrest : ∀ t ∈ here, ∀ c ∈ held t, c ∈ blocks.erase b := by
        intro t ht c hc
        refine Finset.mem_erase.2 ⟨?_, hheld t (List.mem_cons_of_mem x (hsub ht)) c hc⟩
        rintro rfl
        exact not_mem_held held listed hbelow hhere hyb ht hc
      refine ih hhere hrest ?_
      rw [Finset.card_erase_of_mem hbBlocks]
      omega

end Descends

end KernelIR
