import KernelIR.Proofs.Rewrite.Bounds
import KernelIR.Proofs.Rewrite.FixedPoint

/-!
# Truncated runs

A bound only cuts a run off. If the run without a bound ends well, a bound that allows its
replacements changes nothing, and a smaller one stops it at the match that it would have replaced
next, in the arena that it had then. A run that was stopped by its bound can be taken up again from
a block: two runs in a row do what one run does under the sum of their bounds.

A traversal that finds a match asks the test about statements that the next run asks it about again.
So runs compose only if the test does not change its state.
-/

namespace KernelIR

variable {σ α β : Type}

/-! ## Traversals that leave the state as it is -/

/-- Where the computation ends in a value, the state is the one it started in. -/
def KeepsState (x : StateT σ (Except Fault) α) : Prop :=
  ∀ st answer st', x.run st = .ok (answer, st') → st' = st

namespace KeepsState

theorem pure (answer : α) : KeepsState (pure answer : StateT σ (Except Fault) α) := by
  intro st answer' st' h
  cases h
  rfl

theorem lift (x : Except Fault α) : KeepsState (liftM x : StateT σ (Except Fault) α) := by
  intro st answer st' h
  cases x <;> cases h
  rfl

theorem bind {x : StateT σ (Except Fault) α} {f : α → StateT σ (Except Fault) β}
    (hx : KeepsState x) (hf : ∀ answer, KeepsState (f answer)) : KeepsState (x >>= f) := by
  intro st answer st' h
  rcases bind_eq_ok.1 h with ⟨⟨first, st₁⟩, hfirst, hrest⟩
  rw [hf first st₁ answer st' hrest, hx st first st₁ hfirst]

theorem foldr {step : α → StateT σ (Except Fault) β → StateT σ (Except Fault) β}
    (hstep : ∀ a rest, KeepsState rest → KeepsState (step a rest)) (as : List α)
    {rest : StateT σ (Except Fault) β} (hrest : KeepsState rest) :
    KeepsState (as.foldr step rest) := by
  induction as with
  | nil => exact hrest
  | cons a as ih => exact hstep a _ ih

end KeepsState

namespace Arena

variable {a : Arena} {visit : StmtId → StateT σ (Except Fault) (Verdict β)}

theorem keepsState_walkWithin (hvisit : ∀ s, KeepsState (visit s)) (depth : Nat) (s : StmtId)
    (rest : StateT σ (Except Fault) (Option β)) (hrest : KeepsState rest) :
    KeepsState (a.walkWithin visit depth s rest) := by
  induction depth generalizing s rest with
  | zero => exact KeepsState.lift _
  | succ depth ih =>
      rw [walkWithin]
      refine (hvisit s).bind fun verdict => ?_
      cases verdict with
      | stop value => exact KeepsState.pure _
      | skip => exact hrest
      | advance =>
          refine (KeepsState.lift _).bind fun k => KeepsState.foldr (fun b rest hrest => ?_) _ hrest
          exact (KeepsState.lift _).bind fun ss => KeepsState.foldr ih ss hrest

theorem keepsState_walk (hvisit : ∀ s, KeepsState (visit s)) (root : Node) :
    KeepsState (a.walk visit root) := by
  cases root with
  | stmt s => exact keepsState_walkWithin hvisit _ s _ (KeepsState.pure _)
  | block b =>
      refine (KeepsState.lift _).bind fun ss => ?_
      exact KeepsState.foldr (keepsState_walkWithin hvisit _) ss (KeepsState.pure _)

end Arena

namespace Rule

variable {rule : Rule σ} {test : Arena → StmtId → Except Fault Bool}

theorem TestsBy.keepsState_findMatch (h : rule.TestsBy test) (a : Arena) (root : Node) :
    KeepsState (rule.findMatch a root) := by
  have htest : ∀ s, KeepsState (rule.test a s) := by
    intro s st found st' hrun
    rw [h] at hrun
    cases hfound : test a s <;> rw [hfound] at hrun <;> cases hrun
    rfl
  exact Arena.keepsState_walk (fun s => (htest s).bind fun found => KeepsState.pure _) root

end Rule

/-! ## Runs counted from later on -/

/-- An error under a bound that is larger by `m`. -/
def RewriteError.shift (m : Nat) : RewriteError → RewriteError
  | .nonConvergent limit s => .nonConvergent (m + limit) s
  | .generator s reason => .generator s reason
  | .refused s r reason => .refused s r reason

/-- A summary of a run that had made `m` replacements before. -/
def Summary.shift (m : Nat) (summary : Summary) : Summary :=
  ⟨m + summary.replacements, m + summary.traversals, summary.root⟩

/-- What a run comes to that had made `m` replacements before. -/
def Outcome.shift (m : Nat) (out : Outcome σ RewriteError Summary) :
    Outcome σ RewriteError Summary :=
  { out with result := (out.result.map (Summary.shift m)).mapError (RewriteError.shift m) }

/-- What a round comes to that comes `m` replacements later. -/
def Round.shift (m : Nat) : Round σ → Round σ
  | .settled st => .settled st
  | .failed error a st => .failed (error.shift m) a st
  | .replaced s r a st => .replaced s r a st

namespace Rule

variable {rule : Rule σ} {options options' : RunOptions} {x y : Position σ}
  {out : Outcome σ RewriteError Summary} {test : Arena → StmtId → Except Fault Bool} {m n : Nat}

/-- Below the bound a round does not give up, so nothing in what it comes to depends on the
bound. -/
theorem shift_of_allows {round : Round σ} (h : rule.roundAt options x = .ok round)
    (hallows : options.Allows x.replacements) : round.shift m = round := by
  cases round with
  | settled _ => rfl
  | replaced _ _ _ _ => rfl
  | failed error a st =>
      cases error with
      | nonConvergent limit s =>
          rcases of_nonConvergent h with ⟨hlimit, hle, _⟩
          exact absurd (hallows limit hlimit) (by omega)
      | generator _ _ => rfl
      | refused _ _ _ => rfl

theorem round_shift {k : Nat} (h : options.maxRestarts = some n)
    (h' : options'.maxRestarts = some (m + n)) (a : Arena) (st : σ) (root : Node) :
    (rule.round options' (m + k) a st root).result =
      (rule.round options k a st root).result.map (Round.shift m) := by
  rcases Nat.lt_or_ge k n with hk | hk
  · have hallows : options.Allows k := (allows_iff_lt h).2 hk
    have hallows' : options'.Allows (m + k) := (allows_iff_lt h').2 (by omega)
    rw [round_of_allows hallows', ← round_of_allows hallows]
    cases hround : (rule.round options k a st root).result with
    | error fault => rfl
    | ok round =>
        have hsame := shift_of_allows (m := m) (x := ⟨k, a, st, root⟩) hround hallows
        rw [Except.map, hsame]
  · rw [result_round_of_limit h hk, result_round_of_limit h' (by omega)]
    cases (rule.findMatch a root).run st with
    | error fault => rfl
    | ok found => rcases found with ⟨_ | s, st'⟩ <;> rfl

/-- A run under the larger bound, after `m` replacements, does what a run under the smaller one does
from its beginning. -/
theorem rounds_shift (h : options.maxRestarts = some n)
    (h' : options'.maxRestarts = some (m + n)) (budget k traversals : Nat) (a : Arena) (st : σ)
    (root : Node) :
    (rule.rounds options' budget (m + k) (m + traversals) a st root).result =
      (rule.rounds options budget k traversals a st root).result.map (Outcome.shift m) := by
  induction budget generalizing k traversals a st root with
  | zero => rfl
  | succ budget ih =>
      rw [rounds, rounds, Logged.result_bind, Logged.result_bind, round_shift h h']
      cases (rule.round options k a st root).result with
      | error fault => rfl
      | ok round =>
          cases round with
          | settled _ => rfl
          | failed _ _ _ => rfl
          | replaced s r a' st' => exact ih (k + 1) (traversals + 1) a' st' _

/-! ## Stopping and going on -/

/-- A run that ends well does so under every bound that allows its replacements. -/
theorem run_of_allows {a : Arena} {st : σ} {root : Node} {summary : Summary}
    (hrun : (rule.run options a st root).result = .ok out) (hok : out.result = .ok summary)
    (hallows : ∀ k < summary.replacements, options'.Allows k)
    (hbudget : summary.replacements < options'.budget) :
    (rule.run options' a st root).result = .ok out := by
  rcases run_eq_ok.1 hrun with ⟨y, hreach, _, hends⟩
  rw [hends.replacements hok] at hallows hbudget
  exact run_eq_ok.2 ⟨y, hreach.congr hallows, hbudget, hends.congr hok⟩

/-- At its bound a run stops at the statement that would have been replaced next. -/
theorem ends_of_limit (htest : rule.TestsBy test) {s r : StmtId} {a' : Arena} {st' : σ}
    (hround : rule.roundAt options x = .ok (.replaced s r a' st'))
    (hlimit : options'.maxRestarts = some x.replacements) :
    rule.Ends options' x ⟨.error (.nonConvergent x.replacements s), x.arena, x.state⟩ := by
  rcases (of_replaced hround).2 with ⟨st₀, _, hfind, _⟩
  have hstate : st₀ = x.state := htest.keepsState_findMatch _ _ _ _ _ hfind
  subst hstate
  refine .failed ?_
  rw [roundAt, result_round_of_limit hlimit (Nat.le_refl _), hfind]
  rfl

/-- A run that its bound has stopped goes on, started again from the same block, as the run under
the sum of the bounds. -/
theorem run_of_nonConvergent (htest : rule.TestsBy test) {a a₁ : Arena} {st st₁ : σ} {b : BlockId}
    {limit : Nat} {s : StmtId} {budget budget₁ : Nat}
    (hrun : (rule.run ⟨some m, budget₁⟩ a st (.block b)).result =
      .ok ⟨.error (.nonConvergent limit s), a₁, st₁⟩) :
    (rule.run ⟨some (m + n), budget + m⟩ a st (.block b)).result =
      (rule.run ⟨some n, budget⟩ a₁ st₁ (.block b)).result.map (Outcome.shift m) := by
  rcases run_eq_ok.1 hrun with ⟨y, hreach, _, hends⟩
  cases hends with
  | failed hround =>
      rcases of_nonConvergent hround with ⟨hlimit, hge, rfl, hfind⟩
      cases hlimit
      have hle : y.replacements ≤ m := hreach.le_limit rfl (Nat.zero_le _)
      have hcount : y.replacements = m := Nat.le_antisymm hle hge
      have hroot : y.root = .block b := hreach.root_eq_block rfl
      have hstate : st₁ = y.state := htest.keepsState_findMatch _ _ _ _ _ hfind
      subst hcount hstate
      -- The run under the sum comes by the place where the first one stopped.
      have hreach' : rule.Reaches ⟨some (y.replacements + n), budget + y.replacements⟩
          (start a st (.block b)) y :=
        hreach.congr fun k hk => (allows_iff_lt rfl).2 (Nat.lt_add_right n hk)
      calc (rule.run ⟨some (y.replacements + n), budget + y.replacements⟩ a st (.block b)).result
          = (rule.rounds ⟨some (y.replacements + n), budget + y.replacements⟩ budget
              y.replacements y.replacements y.arena y.state y.root).result :=
            rounds_eq_of_reaches hreach' budget
        _ = (rule.rounds ⟨some n, budget⟩ budget 0 0 y.arena y.state y.root).result.map
              (Outcome.shift y.replacements) :=
            rounds_shift rfl rfl budget 0 0 y.arena y.state y.root
        _ = (rule.run ⟨some n, budget⟩ y.arena y.state (.block b)).result.map
              (Outcome.shift y.replacements) := by
            rw [hroot]
            rfl

/-- What a bound does to a run. If the run without a bound ends well, a bound of at least its
replacements changes nothing; a smaller one of `n` makes the run call its generator `n` times and
give up at the statement that the run without a bound replaces next, in the arena of that moment.
Whatever the rule, a run with the bound `n` is the same however many traversals beyond `n + 1` it is
granted, and whether or not its generator can be called more than `n` times. And a run that the
bound `m` has stopped, followed by a run with the bound `n` from the same block, is one run with the
bound `m + n`, whose limit, replacements and traversals are larger by `m` than those of the second
one. -/
theorem run_of_bound (rule : Rule σ) (a : Arena) (st : σ) (root : Node) :
    (∀ test, rule.TestsBy test → ∀ budget out summary,
      (rule.run ⟨none, budget⟩ a st root).result = .ok out → out.result = .ok summary →
        ∀ n budget', min n summary.replacements < budget' →
          (summary.replacements ≤ n →
            (rule.run ⟨some n, budget'⟩ a st root).result = .ok out) ∧
          (n < summary.replacements → ∃ x s r a' st',
            rule.Reaches ⟨none, budget⟩ (start a st root) x ∧ x.replacements = n ∧
            rule.roundAt ⟨none, budget⟩ x = .ok (.replaced s r a' st') ∧
            (rule.run ⟨some n, budget'⟩ a st root).result =
              .ok ⟨.error (.nonConvergent n s), x.arena, x.state⟩ ∧
            (rule.counted.run ⟨some n, budget'⟩ a (st, 0) root).result =
              .ok ⟨.error (.nonConvergent n s), x.arena, (x.state, n)⟩)) ∧
      (∀ n budget,
        (n < budget →
          rule.run ⟨some n, budget⟩ a st root = rule.run ⟨some n, n + 1⟩ a st root) ∧
        (rule.metered n).run ⟨some n, budget⟩ a (st, 0) root =
          rule.counted.run ⟨some n, budget⟩ a (st, 0) root ∧
        ∀ out, (rule.run ⟨some n, budget⟩ a st root).result = .ok out → ∃ calls ≤ n,
          (rule.counted.run ⟨some n, budget⟩ a (st, 0) root).result =
            .ok ⟨out.result, out.arena, (out.state, calls)⟩) ∧
      ∀ test, rule.TestsBy test → ∀ b m n budget₁ limit s a₁ st₁,
        (rule.run ⟨some m, budget₁⟩ a st (.block b)).result =
            .ok ⟨.error (.nonConvergent limit s), a₁, st₁⟩ →
          ∀ budget, (rule.run ⟨some (m + n), budget + m⟩ a st (.block b)).result =
            (rule.run ⟨some n, budget⟩ a₁ st₁ (.block b)).result.map (Outcome.shift m) := by
  refine ⟨?_, ?_, ?_⟩
  · intro test htest budget out summary hrun hok n budget' hbudget
    constructor
    · intro hle
      exact run_of_allows hrun hok (fun k hk => (allows_iff_lt rfl).2 (by omega))
        (Nat.lt_of_le_of_lt (Nat.le_min.2 ⟨hle, Nat.le_refl _⟩) hbudget)
    · intro hlt
      rcases run_eq_ok.1 hrun with ⟨y, hreach, _, hends⟩
      rw [hends.replacements hok] at hlt hbudget
      rcases hreach.exists_next (Nat.zero_le n) hlt with
        ⟨x, w, hreachX, rfl, s, r, hround, _⟩
      have hreachX' : rule.Reaches ⟨some x.replacements, budget'⟩ (start a st root) x :=
        hreachX.congr fun k hk => (allows_iff_lt rfl).2 hk
      have hends' : rule.Ends ⟨some x.replacements, budget'⟩ x _ :=
        ends_of_limit htest hround rfl
      have hbudgetX : x.replacements < budget' :=
        Nat.lt_of_le_of_lt (Nat.le_min.2 ⟨Nat.le_refl _, hlt.le⟩) hbudget
      exact ⟨x, s, r, _, _, hreachX, rfl, hround, run_eq_ok.2 ⟨x, hreachX', hbudgetX, hends'⟩,
        run_eq_ok.2 ⟨x.counted, hreachX'.counted, hbudgetX, hends'.counted⟩⟩
  · intro n budget
    refine ⟨fun hlt => run_of_budget hlt a st root, run_metered rule n budget a st root, ?_⟩
    intro out hrun
    rcases run_eq_ok.1 hrun with ⟨y, hreach, hbudget, hends⟩
    have hle : y.replacements ≤ n := hreach.le_limit rfl (Nat.zero_le n)
    exact ⟨_, hends.calls_le rfl hle,
      run_eq_ok.2 ⟨y.counted, hreach.counted, hbudget, hends.counted⟩⟩
  · intro test htest b m n budget₁ limit s a₁ st₁ hrun budget
    exact run_of_nonConvergent htest hrun

/-! ## A run in two halves -/

/-- Stack slots become constants, numbered in the order in which they are replaced. -/
def numberSlots : Rule Nat where
  test a s := (isAlloca a s : Except Fault Bool)
  generate a := do
    let n ← get
    let (s, a) ← (a.createStmt (.const (.int (Int64.ofNat n))) .i32 : Except Fault _)
    set (n + 1)
    return (.ok s, a)

/-- A slot, a loop with another one in its body, and a third one after the loop. -/
def threeSlots : List Edit :=
  [.createBlock, .createBlock, .createStmt .alloca .i32, .push ⟨0⟩ ⟨0⟩,
    .createStmt (.whileLoop ⟨1⟩) .void, .push ⟨0⟩ ⟨1⟩, .createStmt .alloca .i32, .push ⟨1⟩ ⟨2⟩,
    .createStmt .alloca .i32, .push ⟨0⟩ ⟨3⟩]

/-- The first slot is replaced. -/
def twoSlots : List Edit :=
  threeSlots ++ [.createStmt (.const (.int 0)) .i32, .replace ⟨0⟩ ⟨4⟩]

/-- All slots are replaced. -/
def noSlots : List Edit :=
  twoSlots ++ [.createStmt (.const (.int 1)) .i32, .replace ⟨2⟩ ⟨5⟩,
    .createStmt (.const (.int 2)) .i32, .replace ⟨3⟩ ⟨6⟩]

theorem run_of_bound_three_slots :
    (numberSlots.run ⟨none, 9⟩ (Arena.ofEdits threeSlots) 0 (.block ⟨0⟩)).result =
        .ok ⟨.ok ⟨3, 4, .block ⟨0⟩⟩, Arena.ofEdits noSlots, 3⟩ ∧
      (numberSlots.run ⟨some 3, 4⟩ (Arena.ofEdits threeSlots) 0 (.block ⟨0⟩)).result =
        .ok ⟨.ok ⟨3, 4, .block ⟨0⟩⟩, Arena.ofEdits noSlots, 3⟩ ∧
      (∃ (x : Position Nat) (s : StmtId), x.replacements = 2 ∧
        (numberSlots.run ⟨some 2, 3⟩ (Arena.ofEdits threeSlots) 0 (.block ⟨0⟩)).result =
          .ok ⟨.error (.nonConvergent 2 s), x.arena, x.state⟩) ∧
      (numberSlots.run ⟨some 2, 9⟩ (Arena.ofEdits threeSlots) 0 (.block ⟨0⟩)) =
        numberSlots.run ⟨some 2, 3⟩ (Arena.ofEdits threeSlots) 0 (.block ⟨0⟩) ∧
      (numberSlots.run ⟨some 1, 2⟩ (Arena.ofEdits threeSlots) 0 (.block ⟨0⟩)).result =
        .ok ⟨.error (.nonConvergent 1 ⟨2⟩), Arena.ofEdits twoSlots, 1⟩ ∧
      (numberSlots.run ⟨some 2, 3⟩ (Arena.ofEdits twoSlots) 1 (.block ⟨0⟩)).result =
        .ok ⟨.ok ⟨2, 3, .block ⟨0⟩⟩, Arena.ofEdits noSlots, 3⟩ ∧
      (numberSlots.run ⟨some (1 + 2), 3 + 1⟩ (Arena.ofEdits threeSlots) 0 (.block ⟨0⟩)).result =
        .ok ⟨.ok ⟨1 + 2, 1 + 3, .block ⟨0⟩⟩, Arena.ofEdits noSlots, 3⟩ := by
  have htest : numberSlots.TestsBy isAlloca := by
    intro a s st
    show (liftM (isAlloca a s) : StateT Nat (Except Fault) Bool).run st = _
    cases isAlloca a s <;> rfl
  have hrun : (numberSlots.run ⟨none, 9⟩ (Arena.ofEdits threeSlots) 0 (.block ⟨0⟩)).result =
      .ok ⟨.ok ⟨3, 4, .block ⟨0⟩⟩, Arena.ofEdits noSlots, 3⟩ := by
    decide +kernel
  have hfirst : (numberSlots.run ⟨some 1, 2⟩ (Arena.ofEdits threeSlots) 0 (.block ⟨0⟩)).result =
      .ok ⟨.error (.nonConvergent 1 ⟨2⟩), Arena.ofEdits twoSlots, 1⟩ := by
    decide +kernel
  have hsecond : (numberSlots.run ⟨some 2, 3⟩ (Arena.ofEdits twoSlots) 1 (.block ⟨0⟩)).result =
      .ok ⟨.ok ⟨2, 3, .block ⟨0⟩⟩, Arena.ofEdits noSlots, 3⟩ := by
    decide +kernel
  rcases run_of_bound numberSlots (Arena.ofEdits threeSlots) 0 (.block ⟨0⟩) with
    ⟨htruncates, hbounded, hcompose⟩
  have hsame := (htruncates _ htest _ _ _ hrun rfl 3 4 (by decide)).1 (by decide)
  rcases (htruncates _ htest _ _ _ hrun rfl 2 3 (by decide)).2 (by decide) with
    ⟨x, s, _, _, _, _, hcount, _, hstopped, _⟩
  have hboth := hcompose _ htest ⟨0⟩ 1 2 2 _ _ _ _ hfirst 3
  rw [hsecond] at hboth
  exact ⟨hrun, hsame, ⟨x, s, hcount, hstopped⟩, (hbounded 2 9).1 (by decide), hfirst, hsecond,
    hboth⟩

end Rule

end KernelIR
