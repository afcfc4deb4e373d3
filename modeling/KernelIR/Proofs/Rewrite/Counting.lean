import KernelIR.Proofs.Rewrite.Rounds

/-!
# Counting the calls of a generator

A rule whose state also counts the calls of its generator makes the same run as the rule itself. At
every position that a run reaches there has been one call for each replacement, and a round that
fails adds one more unless it gave up before it asked for a replacement.
-/

namespace KernelIR

variable {σ α β : Type}

/-! ## Carrying a count along -/

/-- Does `x`, and leaves the count as it is. -/
def carry (x : StateT σ (Except Fault) α) : StateT (σ × Nat) (Except Fault) α := fun st => do
  let (answer, next) ← x.run st.1
  return (answer, (next, st.2))

theorem carry_lift (x : Except Fault α) :
    carry (liftM x : StateT σ (Except Fault) α) = liftM x := by
  funext st
  cases x <;> rfl

theorem carry_bind (x : StateT σ (Except Fault) α) (f : α → StateT σ (Except Fault) β) :
    carry (x >>= f) = carry x >>= fun answer => carry (f answer) := by
  funext st
  show (x st.1 >>= fun r => (f r.1) r.2) >>= _ = (x st.1 >>= _) >>= _
  cases x st.1 <;> rfl

namespace Arena

variable (a : Arena) (visit : StmtId → StateT σ (Except Fault) (Verdict β))

/-- A walk carries the count along if its visitor does. -/
theorem walkWithin_carry (depth : Nat) (s : StmtId) (rest : StateT σ (Except Fault) (Option β)) :
    a.walkWithin (fun s => carry (visit s)) depth s (carry rest) =
      carry (a.walkWithin visit depth s rest) := by
  induction depth generalizing s rest with
  | zero => rfl
  | succ depth ih =>
      -- Within one level the walk goes along the statements of a block, and along the blocks.
      have hlisted : ∀ (ss : List StmtId) (rest : StateT σ (Except Fault) (Option β)),
          ss.foldr (a.walkWithin (fun s => carry (visit s)) depth) (carry rest) =
            carry (ss.foldr (a.walkWithin visit depth) rest) := by
        intro ss rest
        induction ss with
        | nil => rfl
        | cons s ss ihSs => rw [List.foldr_cons, List.foldr_cons, ihSs, ih]
      have hblocks : ∀ bs : List BlockId,
          bs.foldr (fun b rest => do
              (← a.listing b).foldr (a.walkWithin (fun s => carry (visit s)) depth) rest)
            (carry rest) =
          carry (bs.foldr (fun b rest => do (← a.listing b).foldr (a.walkWithin visit depth) rest)
            rest) := by
        intro bs
        induction bs with
        | nil => rfl
        | cons b bs ihBs =>
            rw [List.foldr_cons, List.foldr_cons, ihBs, carry_bind, carry_lift]
            exact congrArg _ (funext fun ss => hlisted ss _)
      rw [walkWithin, walkWithin, carry_bind]
      refine congrArg _ (funext fun verdict => ?_)
      cases verdict with
      | stop value => rfl
      | skip => rfl
      | advance => simp only [carry_bind, carry_lift, hblocks]

theorem walk_carry (root : Node) :
    a.walk (fun s => carry (visit s)) root = carry (a.walk visit root) := by
  cases root with
  | stmt s => exact a.walkWithin_carry visit a.walkDepth s (pure none)
  | block b =>
      rw [walk, walk, carry_bind, carry_lift]
      refine congrArg _ (funext fun ss => ?_)
      induction ss with
      | nil => rfl
      | cons s ss ih => rw [List.foldr_cons, List.foldr_cons, ih, walkWithin_carry]

end Arena

/-! ## Counting -/

/-- The calls of the generator in a round that failed: giving up comes before the call. -/
def RewriteError.calls : RewriteError → Nat
  | .nonConvergent _ _ => 0
  | .generator _ _ | .refused _ _ _ => 1

/-- The calls of the generator in the last round of a run. -/
def Outcome.lastCalls (out : Outcome σ RewriteError Summary) : Nat :=
  match out.result with
  | .ok _ => 0
  | .error error => error.calls

/-- What a round comes to if `n` calls were counted before it. -/
def Round.count (n : Nat) : Round σ → Round (σ × Nat)
  | .settled st => .settled (st, n)
  | .failed error a st => .failed error a (st, n + error.calls)
  | .replaced s replacement a st => .replaced s replacement a (st, n + 1)

/-- A position with the calls counted so far, one for each replacement. -/
def Position.counted (x : Position σ) : Position (σ × Nat) :=
  ⟨x.replacements, x.arena, (x.state, x.replacements), x.root⟩

namespace Rule

/-- The rule, with a count of the calls of its generator in its state. -/
def counted (rule : Rule σ) : Rule (σ × Nat) where
  test a s := carry (rule.test a s)
  generate a := fun st => do
    let (answer, next) ← (rule.generate a).run st.1
    return (answer, (next, st.2 + 1))

variable {rule : Rule σ} {options : RunOptions} {x y : Position σ}
  {out : Outcome σ RewriteError Summary}

theorem findMatch_counted (rule : Rule σ) (a : Arena) (root : Node) :
    rule.counted.findMatch a root = carry (rule.findMatch a root) := by
  rw [findMatch, findMatch, ← Arena.walk_carry]
  refine congrArg (fun visit => a.walk visit root) (funext fun s => ?_)
  rw [carry_bind]
  refine congrArg _ (funext fun found => ?_)
  cases found <;> rfl

theorem substitute_counted (rule : Rule σ) (a : Arena) (st : σ) (n : Nat) (s : StmtId) :
    (rule.counted.substitute a (st, n) s).result =
      (rule.substitute a st s).result.map (Round.count n) := by
  have hgenerate : ((rule.counted.generate a).run (st, n)).result =
      ((rule.generate a).run st).result.map fun r => (r.1, (r.2, n + 1)) := by
    show (((rule.generate a).run st) >>= _).result = _
    rw [Logged.result_bind]
    cases ((rule.generate a).run st).result <;> rfl
  rw [substitute, substitute, Logged.result_bind, Logged.result_bind, hgenerate]
  -- Once the generator has answered, the state is only handed on.
  cases ((rule.generate a).run st).result with
  | error fault => rfl
  | ok generated =>
      rcases generated with ⟨⟨answer, a'⟩, st'⟩
      cases answer with
      | error reason => rfl
      | ok replacement =>
          simp only [Except.map, ok_bind, Logged.result_bind, Logged.result_lift]
          cases a'.refusal? s replacement with
          | error fault => rfl
          | ok reason =>
              cases reason with
              | some reason => rfl
              | none =>
                  simp only [ok_bind, Logged.result_bind]
                  cases ((Edit.replace s replacement).apply a').result <;> rfl

theorem round_counted (rule : Rule σ) (options : RunOptions) (k : Nat) (a : Arena) (st : σ)
    (n : Nat) (root : Node) :
    (rule.counted.round options k a (st, n) root).result =
      (rule.round options k a st root).result.map (Round.count n) := by
  have hfind : ((rule.counted.findMatch a root).run (st, n) : Except Fault _) =
      ((rule.findMatch a root).run st).map fun r => (r.1, (r.2, n)) := by
    rw [findMatch_counted]
    show ((rule.findMatch a root).run st >>= _) = _
    cases (rule.findMatch a root).run st <;> rfl
  rw [round, round, Logged.result_bind, Logged.result_bind, Logged.result_lift, Logged.result_lift,
    hfind]
  cases (rule.findMatch a root).run st with
  | error fault => rfl
  | ok found =>
      rcases found with ⟨found, st'⟩
      cases found with
      | none => rfl
      | some s =>
          have hsubstitute :
              (reportMatch a s >>= fun _ => rule.counted.substitute a (st', n) s).result =
                (reportMatch a s >>= fun _ => rule.substitute a st' s).result.map
                  (Round.count n) := by
            rw [Logged.result_bind, Logged.result_bind]
            cases (reportMatch a s).result with
            | error fault => rfl
            | ok _ => exact substitute_counted rule a st' n s
          cases hbound : options.maxRestarts with
          | none => simpa [Except.map, hbound] using hsubstitute
          | some limit =>
              by_cases hlimit : k ≥ limit
              · simp only [Except.map, ok_bind, hlimit, if_true]
                rfl
              · simpa [Except.map, hbound, hlimit] using hsubstitute

theorem roundAt_counted (x : Position σ) :
    rule.counted.roundAt options x.counted =
      (rule.roundAt options x).map (Round.count x.replacements) :=
  round_counted rule options x.replacements x.arena x.state x.replacements x.root

theorem Reaches.counted (h : rule.Reaches options x y) :
    rule.counted.Reaches options x.counted y.counted := by
  induction h with
  | refl => exact .refl
  | @tail y z _ hnext ih =>
      refine .tail ih ?_
      rcases hnext with ⟨s, replacement, hround, hcount, hroot⟩
      refine ⟨s, replacement, ?_, hcount, hroot⟩
      rw [roundAt_counted, hround]
      simp only [Except.map, Round.count, Position.counted, hcount]

theorem Ends.counted (h : rule.Ends options x out) :
    rule.counted.Ends options x.counted
      ⟨out.result, out.arena, (out.state, x.replacements + out.lastCalls)⟩ := by
  cases h with
  | settled hround =>
      refine .settled (x := x.counted) ?_
      rw [roundAt_counted, hround]
      rfl
  | failed hround =>
      refine .failed ?_
      rw [roundAt_counted, hround]
      rfl

end Rule

end KernelIR
