import KernelIR.Proofs.Arena.Erasure
import Mathlib.Logic.Relation

/-!
# Arenas that arise

Every edit that is carried out without a fault is a sequence of steps of the view, so what holds of
the empty view and is kept by each step holds of every arena that arises. The first such fact is
that the index of uses is exact; it is what the steps of redirecting and erasing rest on.
-/

namespace KernelIR

/-- Steps in a row. -/
abbrev View.Steps : View → View → Prop := Relation.ReflTransGen View.Step

theorem View.Indexed.steps {v v' : View} (h : v.Indexed) (hsteps : View.Steps v v') :
    v'.Indexed := by
  induction hsteps with
  | refl => exact h
  | tail _ hstep ih => exact ih.step hstep

theorem View.indexed_empty : Arena.empty.view.Indexed := by
  rw [Arena.view_empty]
  refine ⟨?_, ?_, ?_, ?_⟩ <;> simp [View.reading?, View.operands]

namespace Arena

variable {a a' : Arena}

/-! ## Replacing is three steps -/

theorem steps_settle {old new : StmtId} (hne : old ≠ new) (hnew : a.view.Placeable new)
    (hplace : ∀ b, a.view.parent? old = some b → a.view.HasBlock b ∧ old ∈ a.view.listed b) :
    View.Steps a.view (a.view.settle old new) := by
  have hredirect : View.Steps a.view (a.view.redirect old new) := .single (.redirect hne)
  simp only [View.settle]
  cases hp : a.view.parent? old with
  | none => exact hredirect
  | some b =>
      refine hredirect.tail (.exchange ?_ hp (hplace b hp).2 hne)
      exact ⟨hnew.hasStmt, hnew.live, hnew.detached⟩

theorem steps_of_replace (h : a.view.Indexed) {old new : StmtId} {e : Erasure}
    (hreplace : a.replace old new = .ok e) : View.Steps a.view e.arena.view := by
  rcases of_replace h hreplace with ⟨hne, hnew, _, hplace, a₂, hview₂, herase⟩
  have hsettle := steps_settle hne hnew hplace
  have h₂ : a₂.view.Indexed := hview₂ ▸ h.steps hsettle
  rcases of_erase h₂ herase with ⟨hdetached, doomed, howns, hunread, hview, _⟩
  rw [hview]
  rw [← hview₂] at hsettle
  exact hsettle.tail (.erase hdetached howns hunread)

end Arena

/-! ## Edits are steps -/

namespace Edit

variable {a a' : Arena} {answer : Answer}

theorem apply_createBlock_eq_ok : (createBlock.apply a).result = .ok (answer, a') ↔
    answer = .block a.createBlock.1 ∧ a' = a.createBlock.2 := by
  simp only [apply, Logged.result_pure_eq_ok, Prod.mk.injEq]
  constructor
  · rintro ⟨rfl, rfl⟩
    exact ⟨rfl, rfl⟩
  · rintro ⟨rfl, rfl⟩
    exact ⟨rfl, rfl⟩

theorem apply_createStmt_eq_ok {k : Kind} {ty : ScalarType} :
    ((createStmt k ty).apply a).result = .ok (answer, a') ↔
      ∃ s, a.createStmt k ty = .ok (s, a') ∧ answer = .stmt s := by
  simp only [apply, Logged.result_bind_eq_ok, Logged.result_lift, Logged.result_pure_eq_ok,
    Prod.mk.injEq, Prod.exists]
  constructor
  · rintro ⟨s, a₁, h, rfl, rfl⟩
    exact ⟨s, h, rfl⟩
  · rintro ⟨s, h, rfl⟩
    exact ⟨s, a', h, rfl, rfl⟩

theorem apply_push_eq_ok {b : BlockId} {s : StmtId} :
    ((push b s).apply a).result = .ok (answer, a') ↔ answer = .done ∧ a.push b s = .ok a' := by
  simp only [apply, Logged.result_bind_eq_ok, Logged.result_lift, Logged.result_pure_eq_ok,
    Prod.mk.injEq]
  constructor
  · rintro ⟨a₁, h, rfl, rfl⟩
    exact ⟨rfl, h⟩
  · rintro ⟨rfl, h⟩
    exact ⟨a', h, rfl, rfl⟩

theorem apply_insertBefore_eq_ok {b : BlockId} {before s : StmtId} :
    ((insertBefore b before s).apply a).result = .ok (answer, a') ↔
      answer = .done ∧ a.insertBefore b before s = .ok a' := by
  simp only [apply, Logged.result_bind_eq_ok, Logged.result_lift, Logged.result_pure_eq_ok,
    Prod.mk.injEq]
  constructor
  · rintro ⟨a₁, h, rfl, rfl⟩
    exact ⟨rfl, h⟩
  · rintro ⟨rfl, h⟩
    exact ⟨a', h, rfl, rfl⟩

theorem apply_remove_eq_ok {b : BlockId} {s : StmtId} :
    ((remove b s).apply a).result = .ok (answer, a') ↔ answer = .done ∧ a.remove b s = .ok a' := by
  simp only [apply, Logged.result_bind_eq_ok, Logged.result_lift, Logged.result_pure_eq_ok,
    Prod.mk.injEq]
  constructor
  · rintro ⟨a₁, h, rfl, rfl⟩
    exact ⟨rfl, h⟩
  · rintro ⟨rfl, h⟩
    exact ⟨a', h, rfl, rfl⟩

theorem apply_detachBlock_eq_ok {b : BlockId} :
    ((detachBlock b).apply a).result = .ok (answer, a') ↔
      ∃ former, a.detachBlock b = .ok (former, a') ∧ answer = .owner former := by
  simp only [apply, Logged.result_bind_eq_ok, Logged.result_lift, Logged.result_pure_eq_ok,
    Prod.mk.injEq, Prod.exists]
  constructor
  · rintro ⟨former, a₁, h, rfl, rfl⟩
    exact ⟨former, h, rfl⟩
  · rintro ⟨former, h, rfl⟩
    exact ⟨former, a', h, rfl, rfl⟩

theorem apply_erase_eq_ok {s : StmtId} :
    ((erase s).apply a).result = .ok (answer, a') ↔
      answer = .done ∧ ∃ e, a.erase s = .ok e ∧ e.arena = a' := by
  simp only [apply, Logged.result_bind_eq_ok, Logged.result_lift, Logged.result_emit,
    Logged.result_pure_eq_ok, Prod.mk.injEq]
  constructor
  · rintro ⟨e, h, _, _, rfl, rfl⟩
    exact ⟨rfl, e, h, rfl⟩
  · rintro ⟨rfl, e, h, rfl⟩
    exact ⟨e, h, (), trivial, rfl, rfl⟩

theorem apply_redirect_eq_ok {old new : StmtId} :
    ((redirect old new).apply a).result = .ok (answer, a') ↔
      answer = .done ∧ a.redirect old new = .ok a' := by
  simp only [apply, Logged.result_bind_eq_ok, Logged.result_lift, Logged.result_pure_eq_ok,
    Prod.mk.injEq]
  constructor
  · rintro ⟨a₁, h, rfl, rfl⟩
    exact ⟨rfl, h⟩
  · rintro ⟨rfl, h⟩
    exact ⟨a', h, rfl, rfl⟩

theorem apply_replace_eq_ok {old new : StmtId} :
    ((replace old new).apply a).result = .ok (answer, a') ↔
      answer = .done ∧ ∃ e, a.replace old new = .ok e ∧ e.arena = a' := by
  simp only [apply, Logged.result_bind_eq_ok, Logged.result_lift, Logged.result_emit,
    Logged.result_pure_eq_ok, Prod.mk.injEq]
  constructor
  · rintro ⟨e, h, _, _, rfl, rfl⟩
    exact ⟨rfl, e, h, rfl⟩
  · rintro ⟨rfl, e, h, rfl⟩
    exact ⟨e, h, (), trivial, rfl, rfl⟩

/-- An edit that does not fault is a sequence of steps. -/
theorem steps_of_apply (h : a.view.Indexed) {e : Edit}
    (happly : (e.apply a).result = .ok (answer, a')) : View.Steps a.view a'.view := by
  cases e with
  | createBlock =>
      rw [(apply_createBlock_eq_ok.1 happly).2, Arena.view_createBlock]
      exact .single (.createBlock a.view)
  | createStmt k ty =>
      rcases apply_createStmt_eq_ok.1 happly with ⟨s, hcreate, _⟩
      rcases Arena.of_createStmt hcreate with ⟨_, hlive, hnodup, hfree, hview⟩
      exact hview ▸ .single (.createStmt ty hlive hnodup hfree)
  | push b s =>
      rcases Arena.of_push (apply_push_eq_ok.1 happly).2 with ⟨hs, hb, hview⟩
      exact hview ▸ .single (.insert hs hb (Nat.le_refl _))
  | insertBefore b before s =>
      rcases Arena.of_insertBefore (apply_insertBefore_eq_ok.1 happly).2 with ⟨hs, hb, _, hview⟩
      exact hview ▸ .single (.insert hs hb List.idxOf_le_length)
  | remove b s =>
      rcases Arena.of_remove (apply_remove_eq_ok.1 happly).2 with ⟨hb, hs, hview⟩
      exact hview ▸ .single (.remove hb hs)
  | detachBlock b =>
      rcases apply_detachBlock_eq_ok.1 happly with ⟨former, hdetach, _⟩
      rcases Arena.of_detachBlock hdetach with ⟨hb, _, hview⟩
      exact hview ▸ .single (.release hb)
  | erase s =>
      rcases apply_erase_eq_ok.1 happly with ⟨_, e, herase, rfl⟩
      rcases Arena.of_erase h herase with ⟨hdetached, doomed, howns, hunread, hview, _⟩
      exact hview ▸ .single (.erase hdetached howns hunread)
  | redirect old new =>
      have hredirect := (apply_redirect_eq_ok.1 happly).2
      -- Redirecting a statement to itself is no step at all.
      by_cases hne : old = new
      · simp only [Arena.redirect, if_pos hne, pure_eq_ok] at hredirect
        exact hredirect ▸ .refl
      · have hview := Arena.of_redirect h hne hredirect
        exact hview ▸ .single (.redirect hne)
  | replace old new =>
      rcases apply_replace_eq_ok.1 happly with ⟨_, e, hreplace, rfl⟩
      exact Arena.steps_of_replace h hreplace

theorem steps_of_applyAll {edits : List Edit} (h : a.view.Indexed)
    (happly : (applyAll a edits).result = .ok a') : View.Steps a.view a'.view := by
  induction edits generalizing a with
  | nil =>
      have hsame : a = a' := by simpa [applyAll] using happly
      exact hsame ▸ .refl
  | cons e edits ih =>
      simp only [applyAll, Logged.result_bind_eq_ok, Prod.exists] at happly
      rcases happly with ⟨answer, a₁, hfirst, hrest⟩
      have hsteps := steps_of_apply h hfirst
      exact hsteps.trans (ih (h.steps hsteps) hrest)

theorem applyAll_append_eq_ok {front back : List Edit} :
    (applyAll a (front ++ back)).result = .ok a' ↔
      ∃ a₁, (applyAll a front).result = .ok a₁ ∧ (applyAll a₁ back).result = .ok a' := by
  induction front generalizing a with
  | nil => simp [applyAll]
  | cons e front ih =>
      simp only [List.cons_append, applyAll, Logged.result_bind_eq_ok, Prod.exists, ih]
      constructor
      · rintro ⟨answer, a₁, hfirst, a₂, hfront, hback⟩
        exact ⟨a₂, ⟨answer, a₁, hfirst, hfront⟩, hback⟩
      · rintro ⟨a₂, ⟨answer, a₁, hfirst, hfront⟩, hback⟩
        exact ⟨answer, a₁, hfirst, a₂, hfront, hback⟩

end Edit

/-! ## Invariants -/

namespace Arena.Arises

variable {a a' : Arena}

theorem steps (h : a.Arises) : View.Steps Arena.empty.view a.view := by
  rcases h with ⟨edits, hedits⟩
  exact Edit.steps_of_applyAll View.indexed_empty hedits

theorem indexed (h : a.Arises) : a.view.Indexed :=
  View.indexed_empty.steps h.steps

/-- What holds of the empty view and is kept by every step holds of all arenas that arise. -/
theorem invariant {P : View → Prop} (h : a.Arises) (hempty : P Arena.empty.view)
    (hstep : ∀ v v', v.Indexed → P v → View.Step v v' → P v') : P a.view := by
  have hsteps := h.steps
  -- Some steps keep `P` only in a view with an exact index, so both are kept at once.
  have hboth : a.view.Indexed ∧ P a.view := by
    generalize a.view = v at hsteps
    induction hsteps with
    | refl => exact ⟨View.indexed_empty, hempty⟩
    | tail _ hlast ih => exact ⟨ih.1.step hlast, hstep _ _ ih.1 ih.2 hlast⟩
  exact hboth.2

theorem applyAll (h : a.Arises) {edits : List Edit}
    (hedits : (Edit.applyAll a edits).result = .ok a') : a'.Arises := by
  rcases h with ⟨before, hbefore⟩
  exact ⟨before ++ edits, Edit.applyAll_append_eq_ok.2 ⟨a, hbefore, hedits⟩⟩

theorem apply (h : a.Arises) {e : Edit} {answer : Edit.Answer}
    (happly : (e.apply a).result = .ok (answer, a')) : a'.Arises := by
  have hall : (Edit.applyAll a [e]).result = .ok a' := by
    simp only [Edit.applyAll, Logged.result_bind_eq_ok, Prod.exists, Logged.result_pure_eq_ok]
    exact ⟨answer, a', happly, rfl⟩
  exact h.applyAll hall

theorem replaced (h : a.Arises) {old new : StmtId} {e : Erasure}
    (hreplace : a.replace old new = .ok e) : e.arena.Arises :=
  h.apply (Edit.apply_replace_eq_ok.2 ⟨rfl, e, hreplace, rfl⟩)

end Arena.Arises

/-! ## Arenas made by given edits -/

/-- The arena that a sequence of edits makes, or the empty one if an edit faults. -/
@[irreducible] def Arena.ofEdits (edits : List Edit) : Arena :=
  (Edit.applyAll empty edits).result.toOption.getD empty

theorem Arena.arises_ofEdits (edits : List Edit) : (ofEdits edits).Arises := by
  cases h : (Edit.applyAll empty edits).result with
  | error fault =>
      refine ⟨[], ?_⟩
      simp [ofEdits, h, Edit.applyAll, Except.toOption]
  | ok a =>
      refine ⟨edits, ?_⟩
      simp [ofEdits, h, Except.toOption]

end KernelIR
