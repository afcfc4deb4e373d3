import KernelIR.Proofs.Rewrite.Sequence

/-!
# Checking after every pass

A check reads the tree and nothing else. So a pipeline that checks the tree after every pass goes
the way of the one that does not, until a check finds something: there it stops, and the other one
goes on from the same arena.
-/

namespace KernelIR

namespace Pipeline

variable {σ : Type} {bound : Option Nat} {options : RunOptions} {pass : Pass σ}
  {passes xs ys : List (Pass σ)} {a a' : Arena} {st st' : σ} {root : Node}

/-! ## One pass -/

/-- The result is no finding of a check. -/
def Unrefuted {α : Type} (result : Except PassError α) : Prop :=
  ∀ name found, result ≠ .error ⟨name, .invalid found⟩

theorem runPass_unchecked {out : Outcome σ PassError PassReport}
    (h : (PipelineConfig.runPass ⟨true, bound⟩ pass options a st root).result = .ok out)
    (hunrefuted : Unrefuted out.result) :
    PipelineConfig.runPass ⟨false, bound⟩ pass options a st root =
      PipelineConfig.runPass ⟨true, bound⟩ pass options a st root := by
  rcases PipelineConfig.result_runPass_eq_ok.1 h with ⟨ran, concluded, hrun, hends, rfl⟩
  rw [PipelineConfig.runPass_eq, PipelineConfig.runPass_eq]
  -- The two differ only after the run of the rule, and only there where it did not fail.
  refine Logged.bind_congr_of_ok fun ran' hrun' => ?_
  cases hrun.symm.trans hrun'
  rcases ran with ⟨result, a', st'⟩
  cases hends with
  | failed _ => rfl
  | done hvalid => simp only [PipelineConfig.conclude_of_passes (hvalid rfl)]
  | invalid _ _ _ => exact absurd rfl (hunrefuted _ _)

theorem runPass_unchecked_of_invalid {name : String} {found : Report}
    (h : (PipelineConfig.runPass ⟨true, bound⟩ pass options a st root).result =
      .ok ⟨.error ⟨name, .invalid found⟩, a', st'⟩) :
    name = pass.name ∧ ∃ summary,
      PipelineConfig.runPass ⟨false, bound⟩ pass options a st root =
        ⟨(PipelineConfig.runPass ⟨true, bound⟩ pass options a st root).log ++
            [⟨[], .passFinished summary.replacements summary.traversals⟩],
          .ok ⟨.ok ⟨name, summary⟩, a', st'⟩⟩ ∧
      a'.validate summary.root = .ok found ∧ found.isOk = false := by
  rcases PipelineConfig.result_runPass_eq_ok.1 h with ⟨⟨result, _, _⟩, concluded, hrun, hends, hout⟩
  cases hout
  cases hends with
  | invalid _ hfound hdefects =>
      refine ⟨rfl, _, ?_, hfound, hdefects⟩
      rw [PipelineConfig.runPass_of_ok ⟨true, bound⟩ hrun,
        PipelineConfig.runPass_of_ok ⟨false, bound⟩ hrun,
        PipelineConfig.conclude_of_defects hfound hdefects, PipelineConfig.conclude_unchecked,
        List.append_nil]
      rfl

/-! ## All passes -/

theorem run_one_unchecked {out : Outcome σ PassError PipelineReport}
    (h : ((mk ⟨true, bound⟩ [pass]).run options a st root).result = .ok out)
    (hunrefuted : Unrefuted out.result) :
    (mk ⟨false, bound⟩ [pass]).run options a st root =
      (mk ⟨true, bound⟩ [pass]).run options a st root := by
  rw [run_one, Logged.result_bind_eq_ok] at h
  rcases h with ⟨⟨result, a', st'⟩, hpass, hout⟩
  cases hout
  have hpassed : Unrefuted result := by
    rintro name found rfl
    exact hunrefuted name found rfl
  rw [run_one, run_one, runPass_unchecked hpass hpassed]

theorem run_one_unchecked_of_invalid {name : String} {found : Report}
    (h : ((mk ⟨true, bound⟩ [pass]).run options a st root).result =
      .ok ⟨.error ⟨name, .invalid found⟩, a', st'⟩) :
    name = pass.name ∧ ∃ summary,
      (mk ⟨false, bound⟩ [pass]).run options a st root =
        ⟨((mk ⟨true, bound⟩ [pass]).run options a st root).log ++
            [⟨[.pass name], .passFinished summary.replacements summary.traversals⟩],
          .ok ⟨.ok ⟨[⟨name, summary⟩]⟩, a', st'⟩⟩ ∧
      a'.validate summary.root = .ok found ∧ found.isOk = false := by
  rw [run_one, Logged.result_bind_eq_ok] at h
  rcases h with ⟨⟨result, _, _⟩, hpass, hout⟩
  cases result with
  | ok report => cases hout
  | error e =>
      cases hout
      rcases runPass_unchecked_of_invalid hpass with ⟨rfl, summary, hplain, hfound, hdefects⟩
      refine ⟨rfl, summary, ?_, hfound, hdefects⟩
      rw [run_one, run_one, hplain, Logged.bind_pure_eq, Logged.bind_pure_eq]
      simp [Logged.within, Except.map]

/-- Unless a check finds something, the pipeline that does not check goes the same way. -/
theorem run_unchecked {out : Outcome σ PassError PipelineReport}
    (h : ((mk ⟨true, bound⟩ passes).run options a st root).result = .ok out)
    (hunrefuted : Unrefuted out.result) :
    (mk ⟨false, bound⟩ passes).run options a st root =
      (mk ⟨true, bound⟩ passes).run options a st root := by
  induction passes generalizing a st root out with
  | nil => rfl
  | cons pass passes ih =>
      rcases (result_run_append_eq_ok [pass] passes).1 h with ⟨⟨result, a₁, st₁⟩, hfirst, hrest⟩
      have hcons : ∀ config : PipelineConfig, (mk config (pass :: passes)).run options a st root =
          (mk config [pass]).run options a st root >>= config.resume options passes root :=
        fun config => run_append [pass] passes a st root
      -- If the first pass fails, no other runs in either mode; else the rest goes the same way.
      cases result with
      | error e =>
          cases hrest
          rw [hcons, hcons, run_one_unchecked hfirst hunrefuted]
          refine Logged.bind_congr_of_ok fun first hfirst' => ?_
          cases hfirst.symm.trans hfirst'
          rfl
      | ok before =>
          rcases Logged.result_bind_eq_ok.1 hrest with ⟨second, hsecond, hout⟩
          cases hout
          rw [hcons, hcons, run_one_unchecked hfirst nofun]
          refine Logged.bind_congr_of_ok fun first hfirst' => ?_
          cases hfirst.symm.trans hfirst'
          have hsame := ih hsecond fun name found hinvalid =>
            hunrefuted name found (by simp only [hinvalid]; rfl)
          simp only [PipelineConfig.resume, hsame]

/-- Every pass of a pipeline that checks and ends well has left a tree in order. -/
theorem passes_of_run {report : PipelineReport}
    (h : ((mk ⟨true, bound⟩ (xs ++ pass :: ys)).run options a st root).result =
      .ok ⟨.ok report, a', st'⟩) :
    ∃ before a₁ st₁,
      ((mk ⟨true, bound⟩ (xs ++ [pass])).run options a st root).result =
        .ok ⟨.ok before, a₁, st₁⟩ ∧
      a₁.Passes (before.endRoot root) := by
  rw [← List.singleton_append, ← List.append_assoc] at h
  rcases (run_append_eq_ok (xs ++ [pass]) ys).1 h with ⟨before, _, a₁, st₁, hupto, _⟩
  rcases (run_append_eq_ok xs [pass]).1 hupto with ⟨front, last, a₀, st₀, _, hlast, rfl⟩
  rcases result_run_one_eq_ok.1 hlast with ⟨⟨result, _, _⟩, concluded, _, hends, hout⟩
  refine ⟨_, a₁, st₁, hupto, ?_⟩
  rw [PipelineReport.endRoot_append]
  cases hends with
  | failed _ => cases hout
  | invalid _ _ _ => cases hout
  | done hvalid =>
      cases hout
      exact hvalid rfl

/-- Checking the tree after every pass changes nothing but where the pipeline stops. If the checks
find nothing, then the pipeline that does not check does the same, report and log included, and
every pass left a tree in order. If a rule fails, it does the same as well. And if a check finds
something, then the pipeline that does not check comes by the same arena after the same pass, with
the same events up to there and the one that says that the pass has finished, and goes on from
there; what the check found is what is wrong with that arena at the root that the pass ended at. -/
theorem run_checked (bound : Option Nat) (passes : List (Pass σ)) (options : RunOptions) (a : Arena)
    (st : σ) (root : Node) :
    (∀ report a' st',
      ((mk ⟨true, bound⟩ passes).run options a st root).result = .ok ⟨.ok report, a', st'⟩ →
        (mk ⟨false, bound⟩ passes).run options a st root =
          (mk ⟨true, bound⟩ passes).run options a st root ∧
        ∀ xs pass ys, passes = xs ++ pass :: ys → ∃ before a₁ st₁,
          ((mk ⟨false, bound⟩ (xs ++ [pass])).run options a st root).result =
            .ok ⟨.ok before, a₁, st₁⟩ ∧
          a₁.Passes (before.endRoot root)) ∧
    (∀ name error text a' st',
      ((mk ⟨true, bound⟩ passes).run options a st root).result =
          .ok ⟨.error ⟨name, .rewrite error text⟩, a', st'⟩ →
        (mk ⟨false, bound⟩ passes).run options a st root =
          (mk ⟨true, bound⟩ passes).run options a st root) ∧
    ∀ name found a' st',
      ((mk ⟨true, bound⟩ passes).run options a st root).result =
          .ok ⟨.error ⟨name, .invalid found⟩, a', st'⟩ →
        ∃ xs pass ys, ∃ (before : PipelineReport) (summary : Summary),
          passes = xs ++ pass :: ys ∧ name = pass.name ∧
          (mk ⟨false, bound⟩ (xs ++ [pass])).run options a st root =
            ⟨((mk ⟨true, bound⟩ passes).run options a st root).log ++
                [⟨[.pass name], .passFinished summary.replacements summary.traversals⟩],
              .ok ⟨.ok (before.append ⟨[⟨name, summary⟩]⟩), a', st'⟩⟩ ∧
          (mk ⟨false, bound⟩ passes).run options a st root =
            (mk ⟨false, bound⟩ (xs ++ [pass])).run options a st root >>=
              PipelineConfig.resume ⟨false, bound⟩ options ys root ∧
          a'.validate summary.root = .ok found ∧ found.isOk = false := by
  refine ⟨?_, ?_, ?_⟩
  · intro report a' st' hrun
    refine ⟨run_unchecked hrun nofun, ?_⟩
    rintro xs pass ys rfl
    rcases passes_of_run hrun with ⟨before, a₁, st₁, hupto, hpasses⟩
    exact ⟨before, a₁, st₁, by rw [run_unchecked hupto nofun, hupto], hpasses⟩
  · intro name error text a' st' hrun
    exact run_unchecked hrun nofun
  · intro name found a' st' hrun
    rcases exists_failing_of_run hrun with ⟨xs, pass, ys, before, a₁, st₁, rfl, hbefore, hfails⟩
    -- Up to the failing pass no check found anything, so both came to it in the same state.
    rcases run_one_unchecked_of_invalid hfails with ⟨rfl, summary, hplain, hfound, hdefects⟩
    refine ⟨xs, pass, ys, before, summary, rfl, rfl, ?_, ?_, hfound, hdefects⟩
    · rw [((run_of_failing hbefore hfails).2 ys).1, run_append, run_append,
        run_unchecked hbefore nofun, Logged.bind_of_ok hbefore, Logged.bind_of_ok hbefore]
      simp only [PipelineConfig.resume, hplain, Logged.bind_pure_eq]
      simp [Except.map]
    · rw [← run_append, List.append_assoc, List.singleton_append]

/-! ## A pass that breaks the tree -/

/-- Replaces the constant one, and releases a block that a loop still names. -/
def releaseBody : Pass Unit where
  name := "release body"
  rule :=
    { test := fun a s => (do return (← a.kind s) = .const (.int 1) : Except Fault Bool)
      generate := fun a => do
        let (_, a) ← (a.detachBlock ⟨1⟩ : Except Fault _)
        let (s, a) ← (a.createStmt (.const (.int 2)) .i32 : Except Fault _)
        return (.ok s, a) }
  maxRestarts := none

/-- The loop after both of its statements were replaced, without its block. -/
def releasedBody : List Edit :=
  Rule.constInLoop ++ [.detachBlock ⟨1⟩, .createStmt (.const (.int 2)) .i32, .replace ⟨1⟩ ⟨4⟩]

theorem run_checked_released :
    ((mk ⟨false, none⟩ [oneSlot]).run ⟨none, 5⟩ (Arena.ofEdits Rule.slotInLoop) ()
        (.block ⟨0⟩)).result =
      .ok ⟨.ok ⟨[⟨"one slot", 1, 2, .block ⟨0⟩⟩]⟩, Arena.ofEdits Rule.constInLoop, ()⟩ ∧
    (mk ⟨false, none⟩ [oneSlot, keepContainers]).run ⟨none, 5⟩ (Arena.ofEdits Rule.slotInLoop) ()
        (.block ⟨0⟩) =
      (mk ⟨true, none⟩ [oneSlot, keepContainers]).run ⟨none, 5⟩ (Arena.ofEdits Rule.slotInLoop) ()
        (.block ⟨0⟩) ∧
    ((mk ⟨true, none⟩ [oneSlot, releaseBody, keepContainers]).run ⟨none, 5⟩
        (Arena.ofEdits Rule.slotInLoop) () (.block ⟨0⟩)).result =
      .ok ⟨.error ⟨"release body", .invalid ⟨[.strayOwner ⟨1⟩ ⟨0⟩ none], [], [], []⟩⟩,
        Arena.ofEdits releasedBody, ()⟩ ∧
    ∃ xs report, ((mk ⟨false, none⟩ xs).run ⟨none, 5⟩ (Arena.ofEdits Rule.slotInLoop) ()
        (.block ⟨0⟩)).result = .ok ⟨.ok report, Arena.ofEdits releasedBody, ()⟩ := by
  have hok : ((mk ⟨true, none⟩ [oneSlot]).run ⟨none, 5⟩ (Arena.ofEdits Rule.slotInLoop) ()
      (.block ⟨0⟩)).result =
      .ok ⟨.ok ⟨[⟨"one slot", 1, 2, .block ⟨0⟩⟩]⟩, Arena.ofEdits Rule.constInLoop, ()⟩ := by
    decide +kernel
  have hfails : ((mk ⟨true, none⟩ [oneSlot, keepContainers]).run ⟨none, 5⟩
      (Arena.ofEdits Rule.slotInLoop) () (.block ⟨0⟩)).result =
      .ok ⟨.error ⟨"keep containers", .rewrite (.generator ⟨0⟩ "containers stay")
        "%0 = while \x7b\n  %1 = const 1 : i32\n  %2 = const 0 : i32\n\x7d"⟩,
        Arena.ofEdits Rule.constInLoop, ()⟩ := by
    decide +kernel
  have hinvalid : ((mk ⟨true, none⟩ [oneSlot, releaseBody, keepContainers]).run ⟨none, 5⟩
      (Arena.ofEdits Rule.slotInLoop) () (.block ⟨0⟩)).result =
      .ok ⟨.error ⟨"release body", .invalid ⟨[.strayOwner ⟨1⟩ ⟨0⟩ none], [], [], []⟩⟩,
        Arena.ofEdits releasedBody, ()⟩ := by
    decide +kernel
  have hchecked := fun passes =>
    run_checked none passes ⟨none, 5⟩ (Arena.ofEdits Rule.slotInLoop) () (.block ⟨0⟩)
  have hsame := ((hchecked [oneSlot]).1 _ _ _ hok).1
  rcases (hchecked _).2.2 _ _ _ _ hinvalid with
    ⟨xs, pass, _, before, summary, _, _, hplain, _, _, _⟩
  exact ⟨by rw [hsame, hok], (hchecked _).2.1 _ _ _ _ _ hfails, hinvalid, xs ++ [pass], _,
    by rw [hplain]⟩

end Pipeline

end KernelIR
