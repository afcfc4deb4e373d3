import KernelIR.Proofs.Tree.Pruning
import KernelIR.Rewrite.Rule

/-!
# Walks that look for a statement

A walk that stops at the first statement to pass a test, and goes on below every other, is a search
through the list of what the descent meets: nothing is left out of the pre-order before the search
is over.
-/

namespace KernelIR

variable {σ : Type}

/-! ## Searching a list -/

/-- The first of `ss` that passes the test, or what is done after them if none does. -/
def scan (test : StmtId → StateT σ (Except Fault) Bool) (ss : List StmtId)
    (rest : StateT σ (Except Fault) (Option StmtId)) : StateT σ (Except Fault) (Option StmtId) :=
  ss.foldr (fun s rest => do if ← test s then return some s else rest) rest

section Scan

variable {test : StmtId → StateT σ (Except Fault) Bool} {s : StmtId} {ss : List StmtId}

theorem scan_cons (rest : StateT σ (Except Fault) (Option StmtId)) :
    scan test (s :: ss) rest =
      test s >>= fun found => if found then pure (some s) else scan test ss rest :=
  rfl

theorem mem_of_scan {st st' : σ} (h : (scan test ss (pure none)).run st = .ok (some s, st')) :
    s ∈ ss := by
  induction ss generalizing st with
  | nil => cases h
  | cons t ss ih =>
      have hopen : ((test t).run st >>= fun r =>
          (if r.1 then pure (some t) else scan test ss (pure none) : StateT σ (Except Fault) _).run
            r.2) = .ok (some s, st') := h
      rcases bind_eq_ok.1 hopen with ⟨⟨found, st₁⟩, _, hrest⟩
      cases found with
      | true =>
          cases hrest
          exact List.mem_cons_self
      | false => exact List.mem_cons_of_mem t (ih hrest)

/-- A search does not depend on what the test does elsewhere. -/
theorem scan_congr {test' : StmtId → StateT σ (Except Fault) Bool}
    (h : ∀ s ∈ ss, test' s = test s) (rest : StateT σ (Except Fault) (Option StmtId)) :
    scan test' ss rest = scan test ss rest := by
  induction ss with
  | nil => rfl
  | cons s ss ih =>
      rcases List.forall_mem_cons.1 h with ⟨hs, hss⟩
      rw [scan_cons, scan_cons, hs, ih hss]

/-- A test that leaves the state as it is makes a search that does so too. -/
theorem scan_run {p : StmtId → Except Fault Bool}
    (hpure : ∀ s st, (test s).run st = (p s).map fun found => (found, st)) (ss : List StmtId)
    (st : σ) :
    (scan test ss (pure none)).run st = (ss.findM? p).map fun found => (found, st) := by
  induction ss with
  | nil => rfl
  | cons s ss ih =>
      rw [scan_cons, StateT.run_bind, hpure, List.findM?]
      cases p s with
      | error fault => rfl
      | ok found =>
          cases found with
          | true => rfl
          | false => exact ih

end Scan

section FindM

variable {test : StmtId → Except Fault Bool} {s : StmtId} {ss : List StmtId}

/-- What a search finds is the first that passes. -/
theorem findM?_eq_ok_some : ss.findM? test = .ok (some s) ↔
    ∃ front back, ss = front ++ s :: back ∧ (∀ t ∈ front, test t = .ok false) ∧
      test s = .ok true := by
  induction ss with
  | nil => simp [List.findM?, pure, Except.pure]
  | cons t ss ih =>
      rw [List.findM?, bind_eq_ok]
      constructor
      · rintro ⟨found, ht, hfound⟩
        cases found with
        | true =>
            cases hfound
            exact ⟨[], ss, rfl, by simp, ht⟩
        | false =>
            rcases ih.1 hfound with ⟨front, back, rfl, hfront, hs⟩
            exact ⟨t :: front, back, rfl, List.forall_mem_cons.2 ⟨ht, hfront⟩, hs⟩
      · rintro ⟨front, back, hss, hfront, hs⟩
        cases front with
        | nil =>
            cases hss
            exact ⟨true, hs, rfl⟩
        | cons u front =>
            cases hss
            rcases List.forall_mem_cons.1 hfront with ⟨hu, hfront⟩
            exact ⟨false, hu, ih.2 ⟨front, back, rfl, hfront, hs⟩⟩

theorem findM?_eq_ok_none : ss.findM? test = .ok none ↔ ∀ t ∈ ss, test t = .ok false := by
  induction ss with
  | nil => simp [List.findM?, pure, Except.pure]
  | cons t ss ih =>
      rw [List.findM?, bind_eq_ok, List.forall_mem_cons, ← ih]
      constructor
      · rintro ⟨found, ht, hfound⟩
        cases found with
        | true => cases hfound
        | false => exact ⟨ht, hfound⟩
      · rintro ⟨ht, hss⟩
        exact ⟨false, ht, hss⟩

end FindM

/-! ## Searching a tree -/

namespace Arena

/-- The visitor of a walk that looks for the first statement to pass a test. -/
def seek (test : StmtId → StateT σ (Except Fault) Bool) (s : StmtId) :
    StateT σ (Except Fault) (Verdict StmtId) := do
  return if ← test s then .stop s else .advance

variable {a : Arena} {ss : List StmtId} {test : StmtId → StateT σ (Except Fault) Bool}

theorem passage_seek (below : StmtId → Nat) (ss : List StmtId) :
    passage (seek test) below ss = scan test ss (pure none) := by
  induction ss with
  | nil =>
      rw [passage]
      rfl
  | cons s ss ih =>
      simp only [passage_cons, seek, bind_assoc, pure_bind]
      rw [scan_cons]
      refine congrArg _ (funext fun found => ?_)
      cases found with
      | true => rfl
      | false => exact ih

/-- Where the descent ends, the walk finds what a search of its list finds. -/
theorem walk_seek {root : Node} (h : a.view.MeetsFrom root ss) :
    a.walk (seek test) root = scan test ss (pure none) := by
  rw [walk_eq_passage (collect_eq_ok.2 h), passage_seek]

end Arena

namespace Rule

variable {rule : Rule σ} {a : Arena} {root : Node} {ss : List StmtId}

theorem findMatch_eq_scan (h : a.view.MeetsFrom root ss) :
    rule.findMatch a root = scan (rule.test a) ss (pure none) :=
  Arena.walk_seek h

/-- The test is asked of nothing but what the descent from the root meets: what it would do
elsewhere makes no difference, not even a fault. -/
theorem findMatch_congr {other : Rule σ} (h : a.view.MeetsFrom root ss)
    (htest : ∀ s ∈ ss, other.test a s = rule.test a s) :
    other.findMatch a root = rule.findMatch a root := by
  rw [findMatch_eq_scan h, findMatch_eq_scan h, scan_congr htest]

/-- What a traversal finds is in the tree, whatever the test does. -/
theorem mem_of_findMatch (h : a.view.MeetsFrom root ss) {st st' : σ} {s : StmtId}
    (hfind : (rule.findMatch a root).run st = .ok (some s, st')) : s ∈ ss := by
  rw [findMatch_eq_scan h] at hfind
  exact mem_of_scan hfind

end Rule

end KernelIR
