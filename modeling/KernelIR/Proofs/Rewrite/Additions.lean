import KernelIR.Proofs.Arena.Exactness
import KernelIR.Rewrite.Rule

/-!
# Added statements

A statement that holds no blocks can be created without any effect on what is there already: it is
detached, nothing is below it, and nobody reads it. It can only be noticed as a reader. So what a
statement owns, and what is below it, is as it was, but what was unread may have a new reader.
-/

namespace KernelIR

namespace View

variable {v v₁ w : View} {s t : StmtId} {b : BlockId} {doomed : List StmtId} {k : Kind}

/-- The view `w` is `v` with new statements, which hold nothing and are in no block. -/
structure Adds (v w : View) : Prop where
  stmtCount_le : v.stmtCount ≤ w.stmtCount
  blockCount : w.blockCount = v.blockCount
  kind? : ∀ t, v.HasStmt t → w.kind? t = v.kind? t
  type? : ∀ t, v.HasStmt t → w.type? t = v.type? t
  children : ∀ t, w.children t = v.children t
  parent? : w.parent? = v.parent?
  listed : w.listed = v.listed
  owner? : w.owner? = v.owner?
  erased : w.erased = v.erased
  /-- The new uses are by new statements, and behind those that were there. -/
  uses : ∀ t, ∃ added, w.uses t = v.uses t ++ added ∧ ∀ u ∈ added, ¬ v.HasStmt u.user

/-- A new statement of `w` reads something that goes with `s`, and not only `s` itself. -/
def ReadByNew (v w : View) (s : StmtId) (doomed : List StmtId) : Prop :=
  ∃ t x, ¬ v.HasStmt t ∧ x ∈ w.operands t ∧ x ∈ doomed ∧ x ≠ s

namespace Adds

theorem refl (v : View) : v.Adds v where
  stmtCount_le := Nat.le_refl _
  blockCount := rfl
  kind? _ _ := rfl
  type? _ _ := rfl
  children _ := rfl
  parent? := rfl
  listed := rfl
  owner? := rfl
  erased := rfl
  uses _ := ⟨[], (List.append_nil _).symm, fun _ hu => nomatch hu⟩

theorem hasStmt (h : v.Adds w) (ht : v.HasStmt t) : w.HasStmt t :=
  Nat.lt_of_lt_of_le ht h.stmtCount_le

theorem hasBlock (h : v.Adds w) (hb : v.HasBlock b) : w.HasBlock b := by
  rwa [HasBlock, h.blockCount]

theorem trans (h : v.Adds v₁) (h' : v₁.Adds w) : v.Adds w where
  stmtCount_le := h.stmtCount_le.trans h'.stmtCount_le
  blockCount := h'.blockCount.trans h.blockCount
  kind? t ht := (h'.kind? t (h.hasStmt ht)).trans (h.kind? t ht)
  type? t ht := (h'.type? t (h.hasStmt ht)).trans (h.type? t ht)
  children t := (h'.children t).trans (h.children t)
  parent? := h'.parent?.trans h.parent?
  listed := h'.listed.trans h.listed
  owner? := h'.owner?.trans h.owner?
  erased := h'.erased.trans h.erased
  uses t := by
    rcases h.uses t with ⟨first, hfirst, hnew⟩
    rcases h'.uses t with ⟨second, hsecond, hnew'⟩
    refine ⟨first ++ second, by rw [hsecond, hfirst, List.append_assoc], ?_⟩
    intro u hu
    rcases List.mem_append.1 hu with hu | hu
    · exact hnew u hu
    · exact fun hold => hnew' u hu (h.hasStmt hold)

theorem operands (h : v.Adds w) (ht : v.HasStmt t) : w.operands t = v.operands t := by
  rw [View.operands, View.operands, h.kind? t ht]

theorem below (h : v.Adds w) (s : StmtId) : w.below s = v.below s := by
  rw [View.below, View.below, h.children, h.listed]

theorem ownedBelow (h : v.Adds w) (s : StmtId) : w.ownedBelow s = v.ownedBelow s := by
  simp only [View.ownedBelow, View.ownedChildren, h.children, h.listed, h.owner?]

theorem resolves (h : v.Adds w) (hs : v.Resolves s) : w.Resolves s := by
  refine ⟨h.hasStmt hs.1, fun b hb => h.hasBlock (hs.2 b ?_)⟩
  rwa [← h.children]

theorem meetsFrom (h : v.Adds w) {root : Node} {ss : List StmtId} (hmeets : v.MeetsFrom root ss) :
    w.MeetsFrom root ss := by
  have htops : w.tops root = v.tops root := by
    cases root with
    | block b => exact congrFun h.listed b
    | stmt s => rfl
  refine ⟨fun b hb => h.hasBlock (hmeets.1 b hb), ?_⟩
  rw [htops]
  exact Visits.congr hmeets.2 (fun _ ht => h.resolves (hmeets.2.enter_of_mem ht))
    fun t _ => h.below t

theorem owns (h : v.Adds w) (howns : v.Owns s doomed) : w.Owns s doomed :=
  Visits.congr howns (fun _ ht => h.resolves (howns.enter_of_mem ht)) fun t _ => h.ownedBelow t

/-- Of the readers of what goes with `s` those that matter afterwards are those that mattered before
and the new ones. -/
theorem unreadBut_iff (h : v.Adds w) (hindexed : v.Indexed) (howns : v.Owns s doomed) :
    w.UnreadBut s doomed ↔ v.UnreadBut s doomed ∧ ¬ v.ReadByNew w s doomed := by
  rw [View.unreadBut_iff, View.unreadBut_iff, ← not_or]
  refine not_congr ⟨?_, ?_⟩
  · rintro ⟨t, x, hlive, ht, hread, hx, hne⟩
    by_cases hissued : v.HasStmt t
    · rw [h.erased] at hlive
      rw [h.operands hissued] at hread
      exact .inl ⟨t, x, hlive, ht, hread, hx, hne⟩
    · exact .inr ⟨t, x, hissued, hread, hx, hne⟩
  · rintro (⟨t, x, hlive, ht, hread, hx, hne⟩ | ⟨t, x, hnew, hread, hx, hne⟩)
    · have hissued : v.HasStmt t := by
        by_contra hnot
        rw [hindexed.operands_of_not_hasStmt hnot] at hread
        cases hread
      rw [← h.erased] at hlive
      rw [← h.operands hissued] at hread
      exact ⟨t, x, hlive, ht, hread, hx, hne⟩
    · -- A new statement is live, and no one owns it.
      have hlive : w.erased t = false := by
        rw [h.erased]
        exact hindexed.live_of_not_hasStmt hnew
      exact ⟨t, x, hlive, fun hmem => hnew (howns.hasStmt hmem), hread, hx, hne⟩

end Adds

/-- Only statements that were created read anything, so there are finitely many to look at. -/
theorem Indexed.not_readByNew (h : w.Indexed)
    (hnew : ∀ i < w.stmtCount, v.stmtCount ≤ i → ∀ x ∈ w.operands ⟨i⟩, x ∈ doomed → x = s) :
    ¬ v.ReadByNew w s doomed := by
  rintro ⟨⟨i⟩, x, hfresh, hread, hx, hne⟩
  have hissued : w.HasStmt ⟨i⟩ := by
    by_contra hnot
    rw [h.operands_of_not_hasStmt hnot] at hread
    cases hread
  exact hne (hnew i hissued (Nat.le_of_not_lt hfresh) x hread hx)

theorem Indexed.adds_createStmt (h : v.Indexed) (hk : k.children = []) (ty : ScalarType) :
    v.Adds (v.createStmt k ty) where
  stmtCount_le := Nat.le_succ _
  blockCount := rfl
  kind? t ht := by
    refine Function.update_of_ne ?_ _ _
    rintro rfl
    exact Nat.lt_irrefl _ ht
  type? t ht := by
    refine Function.update_of_ne ?_ _ _
    rintro rfl
    exact Nat.lt_irrefl _ ht
  children t := by
    by_cases ht : t = ⟨v.stmtCount⟩
    · subst ht
      rw [h.children_of_not_hasStmt (Nat.lt_irrefl _)]
      simp [View.children, View.createStmt, hk]
    · simp [View.children, View.createStmt, ht]
  parent? := rfl
  listed := rfl
  owner? := by
    funext c
    simp [View.createStmt, hk]
  erased := rfl
  uses t := by
    refine ⟨usesBy ⟨v.stmtCount⟩ k t, rfl, fun u hu => ?_⟩
    rw [(mem_usesBy.1 hu).1]
    exact Nat.lt_irrefl _

end View

namespace Arena

variable {a a' : Arena}

/-- What creating statements that hold no blocks can make of `a`. -/
inductive Adds (a : Arena) : Arena → Prop
  | start : Adds a a
  | create {now next : Arena} {k : Kind} {ty : ScalarType} {r : StmtId} :
      Adds a now → k.children = [] → now.createStmt k ty = .ok (r, next) → Adds a next

namespace Adds

theorem arises (h : a.Adds a') (ha : a.Arises) : a'.Arises := by
  induction h with
  | start => exact ha
  | create _ _ hcreate ih => exact ih.apply (Edit.apply_createStmt_eq_ok.2 ⟨_, hcreate, rfl⟩)

theorem view (h : a.Adds a') (ha : a.Arises) : a.view.Adds a'.view := by
  induction h with
  | start => exact .refl _
  | create hbefore hk hcreate ih =>
      rcases of_createStmt hcreate with ⟨_, _, _, _, hview⟩
      have hindexed := (hbefore.arises ha).indexed
      exact hview ▸ ih.trans (hindexed.adds_createStmt hk _)

end Adds

end Arena

/-- The generator makes nothing but statements without blocks, whether it then answers with a
replacement or with an error. -/
def Rule.AddsOnly {σ : Type} (rule : Rule σ) : Prop :=
  ∀ a st answer a' st', ((rule.generate a).run st).result = .ok ((answer, a'), st') → a.Adds a'

end KernelIR
