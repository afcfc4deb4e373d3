import KernelIR.Proofs.Fallible
import KernelIR.Proofs.Rewrite.FixedPoint
import KernelIR.Proofs.Tree.Valid
import KernelIR.Rewrite.Pipeline
import Mathlib.Algebra.GroupWithZero.Nat

/-!
# Pipelines as sequences

What a pipeline does is said by its passes: it may be cut anywhere, and the second part then runs
where the first one ended, or not at all if the first one failed. That is an equation between
computations, so it covers their faults and their logs as well.
-/

namespace KernelIR

variable {σ : Type}

/-! ## One pass -/

/-- The bound that a pass runs with: its own one, or else that of the pipeline, if it has one. -/
def Pass.boundOr (pass : Pass σ) (ofPipeline : Option Nat) : Option Nat :=
  match pass.maxRestarts with
  | some bound => some bound
  | none => ofPipeline

/-- What becomes of the result of a run of its rule, which left `a`, as the result of a pass. -/
inductive Pass.Concludes (config : PipelineConfig) (pass : Pass σ) (a : Arena) :
    Except RewriteError Summary → Except PassError PassReport → Prop where
  | done {summary : Summary}
      (hvalid : config.verifyEach = true → a.Passes summary.root) :
      Concludes config pass a (.ok summary) (.ok ⟨pass.name, summary⟩)
  | failed {error : RewriteError} {text : String}
      (htext : PipelineConfig.excerpt a error.stmt = .ok text) :
      Concludes config pass a (.error error) (.error ⟨pass.name, .rewrite error text⟩)
  | invalid {summary : Summary} {found : Report} (hverify : config.verifyEach = true)
      (hfound : a.validate summary.root = .ok found) (hdefects : found.isOk = false) :
      Concludes config pass a (.ok summary) (.error ⟨pass.name, .invalid found⟩)

namespace PipelineConfig

variable {config : PipelineConfig} {options : RunOptions} {pass : Pass σ} {a : Arena} {st : σ}
  {root : Node}

theorem conclude_unchecked (bound : Option Nat) (name : String) (a : Arena) (summary : Summary) :
    conclude ⟨false, bound⟩ name a summary =
      ⟨[⟨[], .passFinished summary.replacements summary.traversals⟩], .ok (.ok ⟨name, summary⟩)⟩ :=
  rfl

theorem conclude_of_passes {bound : Option Nat} {summary : Summary} (h : a.Passes summary.root)
    (name : String) :
    conclude ⟨true, bound⟩ name a summary = conclude ⟨false, bound⟩ name a summary := by
  rcases h with ⟨found, hfound, hok⟩
  show liftM (a.validate summary.root) >>= _ = _
  rw [Logged.bind_of_ok (x := liftM (a.validate summary.root)) hfound]
  simp only [hok]
  rfl

theorem conclude_of_defects {bound : Option Nat} {summary : Summary} {found : Report}
    (hfound : a.validate summary.root = .ok found) (hdefects : found.isOk = false)
    (name : String) :
    conclude ⟨true, bound⟩ name a summary = ⟨[], .ok (.error ⟨name, .invalid found⟩)⟩ := by
  show liftM (a.validate summary.root) >>= _ = _
  rw [Logged.bind_of_ok (x := liftM (a.validate summary.root)) hfound]
  simp only [hdefects]
  rfl

theorem result_conclude_eq_ok {summary : Summary} {result : Except PassError PassReport} :
    (config.conclude pass.name a summary).result = .ok result ↔
      pass.Concludes config a (.ok summary) result := by
  rcases config with ⟨verifyEach, bound⟩
  constructor
  · intro h
    cases verifyEach with
    | false =>
        cases h
        exact .done nofun
    | true =>
        rcases Logged.result_bind_eq_ok.1 h with ⟨found, hfound, _⟩
        cases hok : found.isOk with
        | true =>
            rw [conclude_of_passes ⟨found, hfound, hok⟩] at h
            cases h
            exact .done fun _ => ⟨found, hfound, hok⟩
        | false =>
            rw [conclude_of_defects hfound hok] at h
            cases h
            exact .invalid rfl hfound hok
  · intro h
    cases h with
    | done hvalid =>
        cases verifyEach with
        | false => rfl
        | true =>
            rw [conclude_of_passes (hvalid rfl)]
            rfl
    | invalid hverify hfound hdefects =>
        cases hverify
        rw [conclude_of_defects hfound hdefects]

theorem runPass_eq (config : PipelineConfig) (pass : Pass σ) (options : RunOptions) (a : Arena)
    (st : σ) (root : Node) :
    config.runPass pass options a st root =
      pass.rule.run ⟨pass.boundOr config.maxRestarts, options.budget⟩ a st root >>= fun ran =>
        match ran.result with
        | .error error => do
          let text ← excerpt ran.arena error.stmt
          return ⟨.error ⟨pass.name, .rewrite error text⟩, ran.arena, ran.state⟩
        | .ok summary => do
          let result ← config.conclude pass.name ran.arena summary
          return ⟨result, ran.arena, ran.state⟩ := by
  rcases pass with ⟨name, rule, maxRestarts⟩
  cases maxRestarts <;> rfl

theorem runPass_of_ok (config : PipelineConfig) {summary : Summary} {a' : Arena} {st' : σ}
    (hrun : (pass.rule.run ⟨pass.boundOr config.maxRestarts, options.budget⟩ a st root).result =
      .ok ⟨.ok summary, a', st'⟩) :
    config.runPass pass options a st root =
      ⟨(pass.rule.run ⟨pass.boundOr config.maxRestarts, options.budget⟩ a st root).log ++
          (config.conclude pass.name a' summary).log,
        (config.conclude pass.name a' summary).result.map fun result => ⟨result, a', st'⟩⟩ := by
  rw [runPass_eq, Logged.bind_of_ok hrun]
  simp only [Logged.bind_pure_eq]

theorem result_runPass_eq_ok {out : Outcome σ PassError PassReport} :
    (config.runPass pass options a st root).result = .ok out ↔
      ∃ ran concluded,
        (pass.rule.run ⟨pass.boundOr config.maxRestarts, options.budget⟩ a st root).result =
          .ok ran ∧
        pass.Concludes config ran.arena ran.result concluded ∧
        out = ⟨concluded, ran.arena, ran.state⟩ := by
  rw [runPass_eq, Logged.result_bind_eq_ok]
  refine exists_congr fun ran => ?_
  rcases ran with ⟨result, a', st'⟩
  cases result with
  | error error =>
      constructor
      · rintro ⟨hrun, h⟩
        rcases Logged.result_bind_eq_ok.1 h with ⟨text, htext, h⟩
        cases h
        exact ⟨_, hrun, .failed htext, rfl⟩
      · rintro ⟨_, hrun, hends, rfl⟩
        cases hends with
        | failed htext => exact ⟨hrun, Logged.result_bind_eq_ok.2 ⟨_, htext, rfl⟩⟩
  | ok summary =>
      constructor
      · rintro ⟨hrun, h⟩
        rcases Logged.result_bind_eq_ok.1 h with ⟨concluded, hconcluded, h⟩
        cases h
        exact ⟨concluded, hrun, result_conclude_eq_ok.1 hconcluded, rfl⟩
      · rintro ⟨concluded, hrun, hends, rfl⟩
        exact ⟨hrun, Logged.result_bind_eq_ok.2 ⟨concluded, result_conclude_eq_ok.2 hends, rfl⟩⟩

end PipelineConfig

/-! ## Cutting a pipeline -/

namespace PipelineReport

/-- The root that the last pass ended at, or that of the pipeline if there was no pass. -/
def endRoot (r : PipelineReport) (root : Node) : Node :=
  r.passes.getLast?.elim root (·.summary.root)

/-- The reports of one pipeline and then those of another. -/
def append (r r' : PipelineReport) : PipelineReport :=
  ⟨r.passes ++ r'.passes⟩

theorem endRoot_append (r r' : PipelineReport) (root : Node) :
    (r.append r').endRoot root = r'.endRoot (r.endRoot root) := by
  simp only [endRoot, append, List.getLast?_append]
  cases r'.passes.getLast? <;> rfl

theorem endRoot_cons (report : PassReport) (reports : List PassReport) (root : Node) :
    endRoot ⟨report :: reports⟩ root = endRoot ⟨reports⟩ report.summary.root :=
  endRoot_append ⟨[report]⟩ ⟨reports⟩ root

end PipelineReport

namespace PipelineConfig

variable {config : PipelineConfig} {options : RunOptions}

theorem runPasses_append (xs ys : List (Pass σ)) (a : Arena) (st : σ) (root : Node) :
    config.runPasses options (xs ++ ys) a st root =
      config.runPasses options xs a st root >>= fun first =>
        match first.result with
        | .error _ => pure first
        | .ok reports =>
          config.runPasses options ys first.arena first.state
              (PipelineReport.endRoot ⟨reports⟩ root) >>= fun second =>
            pure { second with result := second.result.map (reports ++ ·) } := by
  induction xs generalizing a st root with
  | nil =>
      have hsame : ∀ out : Outcome σ PassError (List PassReport),
          { out with result := out.result.map ([] ++ ·) } = out := by
        rintro ⟨result, a, st⟩
        cases result <;> rfl
      calc config.runPasses options ys a st root
          = config.runPasses options ys a st root >>= pure := (bind_pure _).symm
        _ = _ := bind_congr fun second => congrArg pure (hsame second).symm
  | cons pass xs ih =>
      -- Both sides run the first pass; the rest is cut where the induction hypothesis cuts it.
      rw [List.cons_append, runPasses, runPasses, bind_assoc]
      refine bind_congr fun outcome => ?_
      rcases outcome with ⟨result, a', st'⟩
      cases result with
      | error e => rfl
      | ok report =>
          simp only [ih, bind_assoc]
          refine bind_congr fun first => ?_
          rcases first with ⟨result, a₁, st₁⟩
          cases result with
          | error e => rfl
          | ok reports =>
              simp only [bind_assoc, pure_bind, Except.map, PipelineReport.endRoot_cons]
              refine bind_congr fun second => ?_
              rcases second with ⟨result, a₂, st₂⟩
              cases result <;> rfl

/-- What a pipeline from `root` comes to with the passes `ys`, when those before came to `first`. -/
def resume (config : PipelineConfig) (options : RunOptions) (ys : List (Pass σ)) (root : Node)
    (first : Outcome σ PassError PipelineReport) : Logged (Outcome σ PassError PipelineReport) :=
  match first.result with
  | .error _ => return first
  | .ok before => do
    let second ← (Pipeline.mk config ys).run options first.arena first.state (before.endRoot root)
    return { second with result := second.result.map before.append }

end PipelineConfig

namespace Pipeline

variable {config : PipelineConfig} {options : RunOptions} {pass : Pass σ} {xs ys : List (Pass σ)}
  {a a' : Arena} {st st' : σ} {root : Node}

/-- A pipeline may be cut anywhere. -/
theorem run_append (xs ys : List (Pass σ)) (a : Arena) (st : σ) (root : Node) :
    (mk config (xs ++ ys)).run options a st root =
      (mk config xs).run options a st root >>= config.resume options ys root := by
  simp only [run, PipelineConfig.runPasses_append, bind_assoc, pure_bind]
  refine bind_congr fun first => ?_
  rcases first with ⟨result, a₁, st₁⟩
  cases result with
  | error e => rfl
  | ok reports =>
      simp only [PipelineConfig.resume, run, Except.map, bind_assoc, pure_bind]
      refine bind_congr fun second => ?_
      rcases second with ⟨result, a₂, st₂⟩
      cases result <;> rfl

theorem result_run_append_eq_ok (xs ys : List (Pass σ)) {out : Outcome σ PassError PipelineReport} :
    ((mk config (xs ++ ys)).run options a st root).result = .ok out ↔
      ∃ first, ((mk config xs).run options a st root).result = .ok first ∧
        (config.resume options ys root first).result = .ok out := by
  rw [run_append, Logged.result_bind_eq_ok]

theorem run_append_eq_ok (xs ys : List (Pass σ)) {report : PipelineReport} :
    ((mk config (xs ++ ys)).run options a st root).result = .ok ⟨.ok report, a', st'⟩ ↔
      ∃ before after a₁ st₁,
        ((mk config xs).run options a st root).result = .ok ⟨.ok before, a₁, st₁⟩ ∧
        ((mk config ys).run options a₁ st₁ (before.endRoot root)).result =
          .ok ⟨.ok after, a', st'⟩ ∧
        report = before.append after := by
  rw [result_run_append_eq_ok]
  constructor
  · rintro ⟨⟨result, a₁, st₁⟩, hfirst, hrest⟩
    cases result with
    | error e => cases hrest
    | ok before =>
        rcases Logged.result_bind_eq_ok.1 hrest with ⟨⟨result, a₂, st₂⟩, hsecond, h⟩
        cases result with
        | error e => cases h
        | ok after =>
            cases h
            exact ⟨before, after, a₁, st₁, hfirst, hsecond, rfl⟩
  · rintro ⟨before, after, a₁, st₁, hfirst, hsecond, rfl⟩
    exact ⟨_, hfirst, Logged.result_bind_eq_ok.2 ⟨_, hsecond, rfl⟩⟩

theorem run_append_eq_error (xs ys : List (Pass σ)) {e : PassError} :
    ((mk config (xs ++ ys)).run options a st root).result = .ok ⟨.error e, a', st'⟩ ↔
      ((mk config xs).run options a st root).result = .ok ⟨.error e, a', st'⟩ ∨
      ∃ before a₁ st₁,
        ((mk config xs).run options a st root).result = .ok ⟨.ok before, a₁, st₁⟩ ∧
        ((mk config ys).run options a₁ st₁ (before.endRoot root)).result =
          .ok ⟨.error e, a', st'⟩ := by
  rw [result_run_append_eq_ok]
  constructor
  · rintro ⟨⟨result, a₁, st₁⟩, hfirst, hrest⟩
    cases result with
    | error e =>
        cases hrest
        exact .inl hfirst
    | ok before =>
        rcases Logged.result_bind_eq_ok.1 hrest with ⟨⟨result, a₂, st₂⟩, hsecond, h⟩
        cases result with
        | ok after => cases h
        | error e =>
            cases h
            exact .inr ⟨before, a₁, st₁, hfirst, hsecond⟩
  · rintro (hfirst | ⟨before, a₁, st₁, hfirst, hsecond⟩)
    · exact ⟨_, hfirst, rfl⟩
    · exact ⟨_, hfirst, Logged.result_bind_eq_ok.2 ⟨_, hsecond, rfl⟩⟩

/-- A pipeline of one pass, with the report of that pass. -/
theorem run_one (pass : Pass σ) (a : Arena) (st : σ) (root : Node) :
    (mk config [pass]).run options a st root =
      (config.runPass pass options a st root).within (.pass pass.name) >>= fun out =>
        pure ⟨out.result.map fun report => ⟨[report]⟩, out.arena, out.state⟩ := by
  rw [run, PipelineConfig.runPasses, bind_assoc]
  refine bind_congr fun out => ?_
  rcases out with ⟨result, a', st'⟩
  cases result <;> rfl

/-- A pipeline of one pass runs the rule of that pass and concludes. -/
theorem result_run_one_eq_ok {out : Outcome σ PassError PipelineReport} :
    ((mk config [pass]).run options a st root).result = .ok out ↔
      ∃ ran concluded,
        (pass.rule.run ⟨pass.boundOr config.maxRestarts, options.budget⟩ a st root).result =
          .ok ran ∧
        pass.Concludes config ran.arena ran.result concluded ∧
        out = ⟨concluded.map fun report => ⟨[report]⟩, ran.arena, ran.state⟩ := by
  rw [run_one, Logged.result_bind_eq_ok]
  constructor
  · rintro ⟨out', hpass, h⟩
    cases h
    rcases PipelineConfig.result_runPass_eq_ok.1 hpass with ⟨ran, concluded, hrun, hends, rfl⟩
    exact ⟨ran, concluded, hrun, hends, rfl⟩
  · rintro ⟨ran, concluded, hrun, hends, rfl⟩
    exact ⟨_, PipelineConfig.result_runPass_eq_ok.2 ⟨ran, concluded, hrun, hends, rfl⟩, rfl⟩

/-! ## The passes of a pipeline in turn -/

/-- Passes whose rules run one by one, each from where the one before ended, and all end well: from
`a`, `st` and `root` to the last arena, state and root. -/
inductive InTurn (config : PipelineConfig) (options : RunOptions) :
    List (Pass σ) → Arena → σ → Node → List Summary → Arena → σ → Node → Prop where
  | nil {a : Arena} {st : σ} {root : Node} : InTurn config options [] a st root [] a st root
  | cons {pass : Pass σ} {passes : List (Pass σ)} {a a₁ a' : Arena} {st st₁ st' : σ}
      {root root' : Node} {summary : Summary} {summaries : List Summary}
      (hrun : (pass.rule.run ⟨pass.boundOr config.maxRestarts, options.budget⟩ a st root).result =
        .ok ⟨.ok summary, a₁, st₁⟩)
      (hrest : InTurn config options passes a₁ st₁ summary.root summaries a' st' root') :
      InTurn config options (pass :: passes) a st root (summary :: summaries) a' st' root'

/-- The passes of a pipeline that ends well have run in turn. -/
theorem inTurn_of_run {report : PipelineReport}
    (h : ((mk config xs).run options a st root).result = .ok ⟨.ok report, a', st'⟩) :
    InTurn config options xs a st root (report.passes.map (·.summary)) a' st'
        (report.endRoot root) ∧
      report.passes.map (·.name) = xs.map (·.name) := by
  induction xs generalizing a st root report with
  | nil =>
      cases h
      exact ⟨.nil, rfl⟩
  | cons pass xs ih =>
      -- The pipeline is cut after its first pass, and only a report lets the rest run.
      rcases (run_append_eq_ok [pass] xs).1 h with
        ⟨before, after, a₁, st₁, hfirst, hrest, rfl⟩
      rcases result_run_one_eq_ok.1 hfirst with ⟨⟨result, _, _⟩, concluded, hrun, hends, hout⟩
      cases hends with
      | failed _ => cases hout
      | invalid _ _ _ => cases hout
      | done _ =>
          cases hout
          rcases ih hrest with ⟨hturn, hnames⟩
          rw [PipelineReport.endRoot_append]
          exact ⟨.cons hrun hturn, congrArg (pass.name :: ·) hnames⟩

/-- A pipeline fails in one of its passes, after those before it have ended well. -/
theorem exists_failing_of_run {e : PassError}
    (h : ((mk config xs).run options a st root).result = .ok ⟨.error e, a', st'⟩) :
    ∃ front pass back before a₁ st₁, xs = front ++ pass :: back ∧
      ((mk config front).run options a st root).result = .ok ⟨.ok before, a₁, st₁⟩ ∧
      ((mk config [pass]).run options a₁ st₁ (before.endRoot root)).result =
        .ok ⟨.error e, a', st'⟩ := by
  induction xs generalizing a st root with
  | nil => cases h
  | cons pass xs ih =>
      -- Either the first pass fails, or it is one more of those in front of the failing one.
      rcases (run_append_eq_error [pass] xs).1 h with hfirst | ⟨first, a₀, st₀, hfirst, hrest⟩
      · exact ⟨[], pass, xs, ⟨[]⟩, a, st, rfl, rfl, hfirst⟩
      · rcases ih hrest with ⟨front, failing, back, before, a₁, st₁, rfl, hfront, hfails⟩
        refine ⟨pass :: front, failing, back, first.append before, a₁, st₁, rfl, ?_, ?_⟩
        · exact (run_append_eq_ok [pass] front).2 ⟨first, before, a₀, st₀, hfirst, hfront, rfl⟩
        · rw [PipelineReport.endRoot_append]
          exact hfails

/-- A pass that fails ends the pipeline, whatever would have followed. -/
theorem run_of_failing {before : PipelineReport} {a₁ : Arena} {st₁ : σ} {e : PassError}
    (hbefore : ((mk config xs).run options a st root).result = .ok ⟨.ok before, a₁, st₁⟩)
    (hfails : ((mk config [pass]).run options a₁ st₁ (before.endRoot root)).result =
      .ok ⟨.error e, a', st'⟩) :
    e.pass = pass.name ∧ ∀ ys,
      (mk config (xs ++ pass :: ys)).run options a st root =
        (mk config (xs ++ [pass])).run options a st root ∧
      ((mk config (xs ++ pass :: ys)).run options a st root).result = .ok ⟨.error e, a', st'⟩ := by
  have hupto : ((mk config (xs ++ [pass])).run options a st root).result =
      .ok ⟨.error e, a', st'⟩ :=
    (run_append_eq_error xs [pass]).2 (.inr ⟨before, a₁, st₁, hbefore, hfails⟩)
  have hsame : ∀ ys, (mk config (xs ++ pass :: ys)).run options a st root =
      (mk config (xs ++ [pass])).run options a st root := by
    intro ys
    calc (mk config (xs ++ pass :: ys)).run options a st root
        = (mk config (xs ++ [pass])).run options a st root >>= config.resume options ys root := by
          rw [← run_append, List.append_assoc, List.singleton_append]
      _ = (mk config (xs ++ [pass])).run options a st root >>= pure := by
          refine Logged.bind_congr_of_ok fun first hfirst => ?_
          cases hupto.symm.trans hfirst
          rfl
      _ = (mk config (xs ++ [pass])).run options a st root := bind_pure _
  refine ⟨?_, fun ys => ⟨hsame ys, hsame ys ▸ hupto⟩⟩
  -- Both kinds of failure carry the name of the pass.
  rcases result_run_one_eq_ok.1 hfails with ⟨ran, concluded, _, hends, hout⟩
  cases concluded with
  | ok report => cases hout
  | error e' =>
      cases hout
      generalize ran.result = result at hends
      cases hends <;> rfl

/-- A pipeline is its passes in sequence. It may be cut anywhere: the second part runs where the
first one ended, from the root that the last pass ended at, and its reports follow those of the
first; if the first part failed or faulted, the second does not run. A pass runs its rule under its
own bound, else that of the pipeline, else none. If all passes end well, their rules have run in
turn, and the replacements of the pipeline are those of the passes together. If not, then one pass
failed where those before it had ended: its error names it, what it left is left, and all is as if
no other passes followed. -/
theorem run_sequential (config : PipelineConfig) (options : RunOptions) (a : Arena) (st : σ)
    (root : Node) :
    (∀ xs ys, (mk config (xs ++ ys)).run options a st root =
      (mk config xs).run options a st root >>= config.resume options ys root) ∧
    (∀ pass out, ((mk config [pass]).run options a st root).result = .ok out ↔
      ∃ ran concluded,
        (pass.rule.run ⟨pass.boundOr config.maxRestarts, options.budget⟩ a st root).result =
          .ok ran ∧
        pass.Concludes config ran.arena ran.result concluded ∧
        out = ⟨concluded.map fun report => ⟨[report]⟩, ran.arena, ran.state⟩) ∧
    (∀ passes report a' st',
      ((mk config passes).run options a st root).result = .ok ⟨.ok report, a', st'⟩ →
        ∃ summaries, InTurn config options passes a st root summaries a' st' (report.endRoot root) ∧
          report.passes.map (·.name) = passes.map (·.name) ∧
          report.passes.map (·.summary) = summaries ∧
          report.totalReplacements = (summaries.map (·.replacements)).sum) ∧
    (∀ passes e a' st',
      ((mk config passes).run options a st root).result = .ok ⟨.error e, a', st'⟩ →
        ∃ xs pass ys before a₁ st₁, passes = xs ++ pass :: ys ∧
          ((mk config xs).run options a st root).result = .ok ⟨.ok before, a₁, st₁⟩ ∧
          ((mk config [pass]).run options a₁ st₁ (before.endRoot root)).result =
            .ok ⟨.error e, a', st'⟩) ∧
    ∀ xs pass before a₁ st₁ e a' st',
      ((mk config xs).run options a st root).result = .ok ⟨.ok before, a₁, st₁⟩ →
      ((mk config [pass]).run options a₁ st₁ (before.endRoot root)).result =
        .ok ⟨.error e, a', st'⟩ →
      e.pass = pass.name ∧ ∀ ys,
        (mk config (xs ++ pass :: ys)).run options a st root =
          (mk config (xs ++ [pass])).run options a st root ∧
        ((mk config (xs ++ pass :: ys)).run options a st root).result =
          .ok ⟨.error e, a', st'⟩ := by
  refine ⟨fun xs ys => run_append xs ys a st root, fun pass out => result_run_one_eq_ok, ?_, ?_, ?_⟩
  · intro passes report a' st' hrun
    rcases inTurn_of_run hrun with ⟨hturn, hnames⟩
    refine ⟨_, hturn, hnames, rfl, ?_⟩
    rw [PipelineReport.totalReplacements, List.map_map]
    rfl
  · intro passes e a' st' hrun
    exact exists_failing_of_run hrun
  · intro xs pass before a₁ st₁ e a' st' hbefore hfails
    exact run_of_failing hbefore hfails

/-! ## A pipeline that stops in the middle -/

/-- Stack slots become constants, at most one of them. -/
def oneSlot : Pass Unit :=
  ⟨"one slot", Rule.constForAlloca, some 1⟩

/-- Has no replacement for containers. -/
def keepContainers : Pass Unit where
  name := "keep containers"
  rule :=
    { test := fun a s => (do return (← a.kind s).isContainer : Except Fault Bool)
      generate := fun a => return (.error "containers stay", a) }
  maxRestarts := none

/-- Faults when it is asked anything. -/
def unasked : Pass Unit where
  name := "unasked"
  rule :=
    { test := fun _ _ => (throw .budgetSpent : Except Fault Bool)
      generate := fun _ => (throw .budgetSpent : Except Fault _) }
  maxRestarts := none

theorem run_sequential_stopped :
    ((mk ⟨true, some 5⟩ [oneSlot]).run ⟨none, 5⟩ (Arena.ofEdits Rule.slotInLoop) ()
        (.block ⟨0⟩)).result =
      .ok ⟨.ok ⟨[⟨"one slot", 1, 2, .block ⟨0⟩⟩]⟩, Arena.ofEdits Rule.constInLoop, ()⟩ ∧
    InTurn ⟨true, some 5⟩ ⟨none, 5⟩ [oneSlot] (Arena.ofEdits Rule.slotInLoop) () (.block ⟨0⟩)
      [⟨1, 2, .block ⟨0⟩⟩] (Arena.ofEdits Rule.constInLoop) () (.block ⟨0⟩) ∧
    ((mk ⟨true, some 5⟩ [oneSlot, keepContainers, unasked]).run ⟨none, 5⟩
        (Arena.ofEdits Rule.slotInLoop) () (.block ⟨0⟩)).result =
      .ok ⟨.error ⟨"keep containers", .rewrite (.generator ⟨0⟩ "containers stay")
        "%0 = while \x7b\n  %1 = const 1 : i32\n  %2 = const 0 : i32\n\x7d"⟩,
        Arena.ofEdits Rule.constInLoop, ()⟩ := by
  have hone : ((mk ⟨true, some 5⟩ [oneSlot]).run ⟨none, 5⟩ (Arena.ofEdits Rule.slotInLoop) ()
      (.block ⟨0⟩)).result =
      .ok ⟨.ok ⟨[⟨"one slot", 1, 2, .block ⟨0⟩⟩]⟩, Arena.ofEdits Rule.constInLoop, ()⟩ := by
    decide +kernel
  have hfails : ((mk ⟨true, some 5⟩ [keepContainers]).run ⟨none, 5⟩
      (Arena.ofEdits Rule.constInLoop) () (.block ⟨0⟩)).result =
      .ok ⟨.error ⟨"keep containers", .rewrite (.generator ⟨0⟩ "containers stay")
        "%0 = while \x7b\n  %1 = const 1 : i32\n  %2 = const 0 : i32\n\x7d"⟩,
        Arena.ofEdits Rule.constInLoop, ()⟩ := by
    decide +kernel
  rcases run_sequential ⟨true, some 5⟩ ⟨none, 5⟩ (Arena.ofEdits Rule.slotInLoop) ()
      (.block ⟨0⟩) with ⟨_, _, hturn, _, hstops⟩
  rcases hturn _ _ _ _ hone with ⟨_, hrules, _, rfl, _⟩
  exact ⟨hone, hrules, ((hstops _ _ _ _ _ _ _ _ hone hfails).2 [unasked]).2⟩

end Pipeline

end KernelIR
