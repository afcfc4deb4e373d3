import KernelIR.Proofs.Rewrite.Counting

/-!
# Bounds of runs

Below its bound a round does not depend on the bound, nor on what was done before it; at the bound it
only looks for a match. So a run with a bound goes the way of the run without one for as many
replacements as the bound allows, and it needs no more than one traversal and no more than one call
of its generator for each of them, besides the traversal that ends it.
-/

namespace KernelIR

variable {σ : Type}

/-- A match after `k` replacements may be replaced. -/
def RunOptions.Allows (options : RunOptions) (k : Nat) : Prop :=
  ∀ limit, options.maxRestarts = some limit → k < limit

/-- What a traversal comes to once the bound is reached. -/
def Round.atLimit (limit : Nat) (a : Arena) : Option StmtId × σ → Round σ
  | (none, st) => .settled st
  | (some s, st) => .failed (.nonConvergent limit s) a st

namespace Rule

variable {rule : Rule σ} {options options' : RunOptions} {x y : Position σ}
  {out : Outcome σ RewriteError Summary} {limit k : Nat}

/-! ## Rounds below the bound and at it -/

theorem allows_iff_lt (h : options.maxRestarts = some limit) : options.Allows k ↔ k < limit := by
  constructor
  · exact fun hallows => hallows limit h
  · intro hlt limit' hlimit'
    rw [h] at hlimit'
    cases hlimit'
    exact hlt

theorem round_of_allows (h : options.Allows k) (a : Arena) (st : σ) (root : Node) :
    rule.round options k a st root = rule.round ⟨none, 0⟩ 0 a st root := by
  refine bind_congr fun r => ?_
  rcases r with ⟨found, st'⟩
  cases found with
  | none => rfl
  | some s =>
      cases hbound : options.maxRestarts with
      | none => rfl
      | some limit => simp only [ge_iff_le, Nat.not_le.2 (h limit hbound), if_false]

theorem result_round_of_limit (hlimit : options.maxRestarts = some limit) (hle : limit ≤ k)
    (a : Arena) (st : σ) (root : Node) :
    (rule.round options k a st root).result =
      ((rule.findMatch a root).run st).map (Round.atLimit limit a) := by
  rw [round, Logged.result_bind, Logged.result_lift]
  cases (rule.findMatch a root).run st with
  | error fault => rfl
  | ok found =>
      rcases found with ⟨found, st'⟩
      cases found with
      | none => rfl
      | some s =>
          simp only [ok_bind, hlimit, ge_iff_le, hle, if_true]
          rfl

theorem roundAt_congr (h : options.Allows x.replacements) (h' : options'.Allows x.replacements) :
    rule.roundAt options x = rule.roundAt options' x := by
  rw [roundAt, roundAt, round_of_allows h, round_of_allows h']

/-- A round that replaces something replaces it under every bound that allows it. -/
theorem Next.congr (h : rule.Next options x y) (hallows : options'.Allows x.replacements) :
    rule.Next options' x y := by
  rcases h with ⟨s, r, hround, hrest⟩
  have hallowed : options.Allows x.replacements := (of_replaced hround).1
  exact ⟨s, r, roundAt_congr hallowed hallows ▸ hround, hrest⟩

/-- Where a run comes to, it comes to under every bound that allows as many replacements. -/
theorem Reaches.congr (h : rule.Reaches options x y)
    (hallows : ∀ k < y.replacements, options'.Allows k) : rule.Reaches options' x y := by
  induction h with
  | refl => exact .refl
  | tail _ hlast ih =>
      have hnext := hlast
      rcases hnext with ⟨_, _, _, hcount, _⟩
      refine .tail (ih fun k hk => hallows k (by omega)) (hlast.congr (hallows _ (by omega)))

/-- On its way a run comes by every number of replacements. -/
theorem Reaches.exists_next (h : rule.Reaches options x y) (hle : x.replacements ≤ k)
    (hlt : k < y.replacements) :
    ∃ z w, rule.Reaches options x z ∧ z.replacements = k ∧ rule.Next options z w := by
  induction h with
  | refl => omega
  | @tail z w hbefore hlast ih =>
      rcases Nat.lt_or_ge k z.replacements with hk | hk
      · exact ih hk
      · have hnext := hlast
        rcases hnext with ⟨_, _, _, hcount, _⟩
        exact ⟨z, w, hbefore, by omega, hlast⟩

theorem Ends.replacements {summary : Summary} (h : rule.Ends options x out)
    (hok : out.result = .ok summary) : summary.replacements = x.replacements := by
  cases h with
  | settled _ =>
      cases hok
      rfl
  | failed _ => cases hok

/-- Where nothing matches, a run ends well under every bound. -/
theorem Ends.congr {summary : Summary} (h : rule.Ends options x out)
    (hok : out.result = .ok summary) : rule.Ends options' x out := by
  cases h with
  | settled hround => exact .settled (roundAt_eq_settled.2 (roundAt_eq_settled.1 hround))
  | failed _ => cases hok

/-! ## Traversals -/

/-- A run with a bound is not helped by traversals beyond one more than the replacements that are
left to it. -/
theorem rounds_of_budget (hlimit : options.maxRestarts = some limit)
    (hlimit' : options'.maxRestarts = some limit) {budget budget' traversals : Nat} {a : Arena}
    {st : σ} {root : Node} (hle : k ≤ limit) (hlt : limit < k + budget)
    (hlt' : limit < k + budget') :
    rule.rounds options budget k traversals a st root =
      rule.rounds options' budget' k traversals a st root := by
  induction budget generalizing budget' k traversals a st root with
  | zero => omega
  | succ budget ih =>
      obtain ⟨left, rfl⟩ : ∃ left, budget' = left + 1 := ⟨budget' - 1, by omega⟩
      have hsame : rule.round options' k a st root = rule.round options k a st root := by
        refine bind_congr fun r => ?_
        rw [hlimit, hlimit']
      rw [rounds, rounds, hsame]
      refine Logged.bind_congr_of_ok fun round hround => ?_
      cases round with
      | settled _ => rfl
      | failed _ _ _ => rfl
      | replaced s r a' st' =>
          have hbelow : k < limit := (of_replaced (x := ⟨k, a, st, root⟩) hround).1 limit hlimit
          exact ih hbelow (by omega) (by omega)

/-- One traversal more than its bound is all that a run needs. -/
theorem run_of_budget {n budget : Nat} (h : n < budget) (a : Arena) (st : σ) (root : Node) :
    rule.run ⟨some n, budget⟩ a st root = rule.run ⟨some n, n + 1⟩ a st root :=
  congrArg (Logged.within (.rewriting root))
    (rounds_of_budget (k := 0) rfl rfl (Nat.zero_le n) (by simpa using h) (by simp))

/-! ## Calls of the generator -/

/-- The rule with a count of the calls of its generator, which faults when it is called more than
`n` times. -/
def metered (rule : Rule σ) (n : Nat) : Rule (σ × Nat) where
  test := rule.counted.test
  generate a := fun st =>
    if st.2 < n then (rule.counted.generate a).run st else (throw .budgetSpent : Except Fault _)

theorem substitute_metered {n : Nat} {st : σ × Nat} (h : st.2 < n) (a : Arena) (s : StmtId) :
    (rule.metered n).substitute a st s = rule.counted.substitute a st s := by
  have hgenerate :
      ((rule.metered n).generate a).run st = (rule.counted.generate a).run st := if_pos h
  rw [substitute, substitute, hgenerate]

/-- A traversal calls no generator. -/
theorem count_of_findMatch {a : Arena} {root : Node} {st st' : σ × Nat} {found : Option StmtId}
    (h : (rule.counted.findMatch a root).run st = .ok (found, st')) : st'.2 = st.2 := by
  rw [findMatch_counted] at h
  rcases bind_eq_ok.1 h with ⟨answer, _, hdone⟩
  cases hdone
  rfl

theorem round_metered (hlimit : options.maxRestarts = some limit) (a : Arena) (st : σ)
    (root : Node) :
    (rule.metered limit).round options k a (st, k) root =
      rule.counted.round options k a (st, k) root := by
  refine Logged.bind_congr_of_ok fun r hfind => ?_
  rcases r with ⟨found, st'⟩
  cases found with
  | none => rfl
  | some s =>
      simp only [hlimit]
      split
      · rfl
      · next hbelow =>
          have hcount : st'.2 = k := count_of_findMatch hfind
          exact bind_congr fun _ => substitute_metered (by omega) a s

theorem rounds_metered (hlimit : options.maxRestarts = some limit) (budget traversals : Nat)
    (a : Arena) (st : σ) (root : Node) :
    (rule.metered limit).rounds options budget k traversals a (st, k) root =
      rule.counted.rounds options budget k traversals a (st, k) root := by
  induction budget generalizing k traversals a st root with
  | zero => rfl
  | succ budget ih =>
      rw [rounds, rounds, round_metered hlimit]
      refine Logged.bind_congr_of_ok fun round hround => ?_
      cases round with
      | settled _ => rfl
      | failed _ _ _ => rfl
      | replaced s r a' st' =>
          -- The count has gone up with the replacements.
          rw [round_counted] at hround
          rcases hplain : (rule.round options k a st root).result with _ | _ | _ | ⟨_, _, _, st₁⟩ <;>
            rw [hplain] at hround <;> cases hround
          exact ih _ _ _ _

/-- A run with a bound calls its generator at most as many times. -/
theorem run_metered (rule : Rule σ) (n budget : Nat) (a : Arena) (st : σ) (root : Node) :
    (rule.metered n).run ⟨some n, budget⟩ a (st, 0) root =
      rule.counted.run ⟨some n, budget⟩ a (st, 0) root :=
  congrArg (Logged.within (.rewriting root)) (rounds_metered rfl budget 0 a st root)

/-- A round that fails at the bound has given up, without a call of the generator. -/
theorem calls_of_limit (hlimit : options.maxRestarts = some limit) (hle : limit ≤ x.replacements)
    {error : RewriteError} {a : Arena} {st : σ}
    (hround : rule.roundAt options x = .ok (.failed error a st)) : error.calls = 0 := by
  rw [roundAt, result_round_of_limit hlimit hle] at hround
  cases hfind : (rule.findMatch x.arena x.root).run x.state with
  | error fault =>
      rw [hfind] at hround
      cases hround
  | ok found =>
      rw [hfind] at hround
      rcases found with ⟨_ | s, st'⟩ <;> cases hround
      rfl

/-- The calls that a run with a bound has counted when it ends are within the bound. -/
theorem Ends.calls_le (h : rule.Ends options x out) (hlimit : options.maxRestarts = some limit)
    (hle : x.replacements ≤ limit) : x.replacements + out.lastCalls ≤ limit := by
  cases h with
  | settled _ => exact hle
  | @failed error a st hround =>
      show x.replacements + error.calls ≤ limit
      rcases Nat.lt_or_ge x.replacements limit with hlt | hge
      · have hone : error.calls ≤ 1 := by cases error <;> simp [RewriteError.calls]
        omega
      · rw [calls_of_limit hlimit hge hround]
        exact hle

end Rule

end KernelIR
