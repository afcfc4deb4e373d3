import KernelIR.Proofs.Arena.Reach
import KernelIR.Proofs.Rewrite.Counting
import KernelIR.Proofs.Tree.Scan

/-!
# Fixed points

What a run has done when it ends, for a rule whose test is a function of the arena and the
statement. Every match is the first statement of the current tree that passes; a run that ends well
has left none, has made one more traversal than replacements, and would do nothing if it were made
again. The generator was called once for every replacement, and once more if the run failed after
calling it.
-/

namespace KernelIR

namespace Rule

variable {σ : Type} {rule : Rule σ} {test : Arena → StmtId → Except Fault Bool}
  {options : RunOptions} {x y : Position σ} {out : Outcome σ RewriteError Summary}

/-- The test of the rule looks at the arena and the statement only, and leaves the state as it
is. -/
def TestsBy (rule : Rule σ) (test : Arena → StmtId → Except Fault Bool) : Prop :=
  ∀ a s st, (rule.test a s).run st = (test a s).map fun found => (found, st)

theorem TestsBy.counted (h : rule.TestsBy test) : rule.counted.TestsBy test := by
  intro a s st
  show ((rule.test a s).run st.1 >>= _) = _
  rw [h]
  cases test a s <;> rfl

/-- Where the descent ends, a traversal searches what the descent meets. -/
theorem findMatch_run (h : rule.TestsBy test) {a : Arena} {root : Node} {ss : List StmtId}
    (hmeets : a.view.MeetsFrom root ss) (st : σ) :
    (rule.findMatch a root).run st = (ss.findM? (test a)).map fun found => (found, st) := by
  rw [findMatch_eq_scan hmeets]
  exact scan_run (h a) ss st

/-- What a traversal finds is the first statement of the tree that passes. -/
theorem findMatch_eq_some (h : rule.TestsBy test) {a : Arena} {root : Node} {ss : List StmtId}
    (hmeets : a.view.MeetsFrom root ss) {st st' : σ} {s : StmtId}
    (hfind : (rule.findMatch a root).run st = .ok (some s, st')) :
    ∃ front back, a.collect root = .ok (front ++ s :: back) ∧
      (∀ t ∈ front, test a t = .ok false) ∧ test a s = .ok true := by
  rw [findMatch_run h hmeets] at hfind
  cases hsearch : ss.findM? (test a) with
  | error fault =>
      rw [hsearch] at hfind
      cases hfind
  | ok found =>
      rw [hsearch] at hfind
      cases hfind
      rcases findM?_eq_ok_some.1 hsearch with ⟨front, back, rfl, hfront, hs⟩
      exact ⟨front, back, Arena.collect_eq_ok.2 hmeets, hfront, hs⟩

theorem findMatch_eq_none (h : rule.TestsBy test) {a : Arena} {root : Node} {ss : List StmtId}
    (hmeets : a.view.MeetsFrom root ss) {st st' : σ} :
    (rule.findMatch a root).run st = .ok (none, st') ↔
      st = st' ∧ ∀ t ∈ ss, test a t = .ok false := by
  rw [findMatch_run h hmeets, ← findM?_eq_ok_none]
  cases ss.findM? (test a) with
  | error fault => simp [Except.map]
  | ok found => simp [Except.map, and_comm]

/-- A round settles exactly if no statement of the tree passes. -/
theorem roundAt_settled_iff (h : rule.TestsBy test) {ss : List StmtId}
    (hmeets : x.arena.view.MeetsFrom x.root ss) {st : σ} :
    rule.roundAt options x = .ok (.settled st) ↔
      x.state = st ∧ ∀ t ∈ ss, test x.arena t = .ok false := by
  rw [← findMatch_eq_none h hmeets, roundAt_eq_settled]

/-- The accounts of a run: where it ended, what its counters say, and how often its generator was
called. -/
theorem run_accounts (htest : rule.TestsBy test) {a : Arena} {st : σ} {root : Node}
    (hrun : (rule.run options a st root).result = .ok out)
    (hfinite : ∀ x, rule.Reaches options (start a st root) x →
      ∃ ss, x.arena.view.MeetsFrom x.root ss) :
    (∀ x s st', rule.Reaches options (start a st root) x →
      (rule.findMatch x.arena x.root).run x.state = .ok (some s, st') →
        ∃ front back, x.arena.collect x.root = .ok (front ++ s :: back) ∧
          (∀ t ∈ front, test x.arena t = .ok false) ∧ test x.arena s = .ok true) ∧
      ∃ last calls, rule.Reaches options (start a st root) last ∧ rule.Ends options last out ∧
        (rule.counted.run options a (st, 0) root).result =
          .ok ⟨out.result, out.arena, (out.state, calls)⟩ ∧
        match out.result with
        | .ok summary =>
          summary.replacements = last.replacements ∧
            summary.traversals = summary.replacements + 1 ∧
            calls = summary.replacements ∧
            (∃ ss, out.arena.collect summary.root = .ok ss ∧
              ∀ t ∈ ss, test out.arena t = .ok false) ∧
            (rule.counted.run options out.arena (out.state, calls) summary.root).result =
              .ok ⟨.ok ⟨0, 1, summary.root⟩, out.arena, (out.state, calls)⟩
        | .error error =>
          (∃ st', (rule.findMatch last.arena last.root).run last.state =
              .ok (some error.stmt, st')) ∧
            match error with
            | .nonConvergent limit _ => calls = last.replacements ∧ last.replacements = limit
            | .generator _ _ | .refused _ _ _ => calls = last.replacements + 1 := by
  constructor
  · intro x s st' hreach hfind
    rcases hfinite x hreach with ⟨ss, hmeets⟩
    exact findMatch_eq_some htest hmeets hfind
  · rcases run_eq_ok.1 hrun with ⟨last, hreach, hbudget, hends⟩
    have hcounted : (rule.counted.run options a (st, 0) root).result =
        .ok ⟨out.result, out.arena, (out.state, last.replacements + out.lastCalls)⟩ :=
      run_eq_ok.2 ⟨last.counted, hreach.counted, hbudget, hends.counted⟩
    refine ⟨last, _, hreach, hends, hcounted, ?_⟩
    cases hends with
    | @settled st' hround =>
        rcases hfinite last hreach with ⟨ss, hmeets⟩
        have hnone := ((roundAt_settled_iff htest hmeets).1 hround).2
        refine ⟨rfl, rfl, rfl, ⟨ss, Arena.collect_eq_ok.2 hmeets, hnone⟩, ?_⟩
        -- The second run is at its end where it starts.
        refine run_eq_ok.2 ⟨_, .refl, ?_, .settled ?_⟩
        · exact Nat.lt_of_le_of_lt (Nat.zero_le _) hbudget
        · exact (roundAt_settled_iff htest.counted hmeets).2 ⟨rfl, hnone⟩
    | @failed error a' st' hround =>
        refine ⟨(of_failed hround).finds, ?_⟩
        cases error with
        | nonConvergent limit s =>
            rcases of_nonConvergent hround with ⟨hbound, hle, _⟩
            have hge := hreach.le_limit hbound (Nat.zero_le _)
            exact ⟨rfl, Nat.le_antisymm hge hle⟩
        | generator s reason => rfl
        | refused s replacement reason => rfl

/-! ## A run with one replacement -/

/-- Whether a statement is a stack slot. -/
def isAlloca (a : Arena) (s : StmtId) : Except Fault Bool := do
  return (← a.kind s) = .alloca

/-- Stack slots become constants. -/
def constForAlloca : Rule Unit where
  test a s := (isAlloca a s : Except Fault Bool)
  generate a := do
    let (s, a) ← (a.createStmt (.const (.int 0)) .i32 : Except Fault _)
    return (.ok s, a)

/-- A loop with a constant and a stack slot in its body. -/
def slotInLoop : List Edit :=
  [.createBlock, .createBlock, .createStmt (.whileLoop ⟨1⟩) .void, .push ⟨0⟩ ⟨0⟩,
    .createStmt (.const (.int 1)) .i32, .push ⟨1⟩ ⟨1⟩, .createStmt .alloca .i32, .push ⟨1⟩ ⟨2⟩]

/-- The same with the slot replaced. -/
def constInLoop : List Edit :=
  slotInLoop ++ [.createStmt (.const (.int 0)) .i32, .replace ⟨2⟩ ⟨3⟩]

theorem run_accounts_in_loop :
    (∃ front back, (Arena.ofEdits slotInLoop).collect (.block ⟨0⟩) = .ok (front ++ ⟨2⟩ :: back) ∧
        (∀ t ∈ front, isAlloca (Arena.ofEdits slotInLoop) t = .ok false) ∧
        isAlloca (Arena.ofEdits slotInLoop) ⟨2⟩ = .ok true) ∧
      (constForAlloca.run ⟨none, 5⟩ (Arena.ofEdits slotInLoop) () (.block ⟨0⟩)).result =
        .ok ⟨.ok ⟨1, 2, .block ⟨0⟩⟩, Arena.ofEdits constInLoop, ()⟩ ∧
      (constForAlloca.counted.run ⟨none, 5⟩ (Arena.ofEdits slotInLoop) ((), 0) (.block ⟨0⟩)).result =
        .ok ⟨.ok ⟨1, 2, .block ⟨0⟩⟩, Arena.ofEdits constInLoop, ((), 1)⟩ ∧
      ∃ ss, (Arena.ofEdits constInLoop).collect (.block ⟨0⟩) = .ok ss ∧
        ∀ t ∈ ss, isAlloca (Arena.ofEdits constInLoop) t = .ok false := by
  have htest : constForAlloca.TestsBy isAlloca := by
    intro a s st
    show (liftM (isAlloca a s) : StateT Unit (Except Fault) Bool).run st = _
    cases isAlloca a s <;> rfl
  have hrun : (constForAlloca.run ⟨none, 5⟩ (Arena.ofEdits slotInLoop) () (.block ⟨0⟩)).result =
      .ok ⟨.ok ⟨1, 2, .block ⟨0⟩⟩, Arena.ofEdits constInLoop, ()⟩ := by decide +kernel
  have hfirst : constForAlloca.roundAt ⟨none, 5⟩ (start (Arena.ofEdits slotInLoop) () (.block ⟨0⟩)) =
      .ok (.replaced ⟨2⟩ ⟨3⟩ (Arena.ofEdits constInLoop) ()) := by decide +kernel
  have hsecond : constForAlloca.roundAt ⟨none, 5⟩ ⟨1, Arena.ofEdits constInLoop, (), .block ⟨0⟩⟩ =
      .ok (.settled ()) := by decide +kernel
  have hfinite : ∀ x, constForAlloca.Reaches ⟨none, 5⟩
      (start (Arena.ofEdits slotInLoop) () (.block ⟨0⟩)) x → ∃ ss, x.arena.view.MeetsFrom x.root ss := by
    intro x hx
    rcases hx.cases_of_replaced hfirst with rfl | hx
    · exact ⟨[⟨0⟩, ⟨1⟩, ⟨2⟩], Arena.collect_eq_ok.1 (by decide +kernel)⟩
    · cases hx.eq_of_settled hsecond
      exact ⟨[⟨0⟩, ⟨1⟩, ⟨3⟩], Arena.collect_eq_ok.1 (by decide +kernel)⟩
  have hmatch : (constForAlloca.findMatch (Arena.ofEdits slotInLoop) (.block ⟨0⟩)).run () =
      .ok (some ⟨2⟩, ()) := by decide +kernel
  rcases run_accounts htest hrun hfinite with ⟨hmatches, last, calls, _, _, hcounted, haccounts⟩
  rcases haccounts with ⟨_, _, hcalls, hnone, _⟩
  have hmatched := hmatches (start (Arena.ofEdits slotInLoop) () (.block ⟨0⟩)) ⟨2⟩ () .refl hmatch
  rw [hcalls] at hcounted
  exact ⟨hmatched, hrun, hcounted, hnone⟩

end Rule

end KernelIR
