import KernelIR.Rewrite.Run
import KernelIR.Tree.Listing
import KernelIR.Tree.Validity

/-!
# Pipelines

A pipeline runs named rules one after another over one tree, each until nothing matches. The root
that one pass ends at is where the next one starts. The first failure ends the pipeline; its report
shows the text of the statement concerned, since a handle means nothing to a reader.
-/

namespace KernelIR

/-- A rule with a name and, if it has one, a bound of its own. -/
structure Pass (σ : Type) where
  name : String
  rule : Rule σ
  maxRestarts : Option Nat

/-- A run of the pass alone. -/
def Pass.run {σ : Type} (pass : Pass σ) (options : RunOptions) (a : Arena) (st : σ) (root : Node) :
    Logged (Outcome σ RewriteError Summary) :=
  pass.rule.run { options with maxRestarts := pass.maxRestarts } a st root

/-- What a pass of a pipeline achieved. -/
structure PassReport where
  name : String
  summary : Summary
deriving DecidableEq, Repr

/-- What the passes of a pipeline achieved, in order. -/
structure PipelineReport where
  passes : List PassReport
deriving DecidableEq, Repr

namespace PipelineReport

def totalReplacements (r : PipelineReport) : Nat :=
  (r.passes.map (·.summary.replacements)).foldr (· + ·) 0

/-- The summary of the first pass of that name. -/
def get? (r : PipelineReport) (name : String) : Option Summary :=
  (r.passes.find? (·.name == name)).map (·.summary)

end PipelineReport

/-! ## Failures -/

inductive PassFailure where
  /-- The run failed; `text` shows the statement that it was at. -/
  | rewrite (error : RewriteError) (text : String)
  /-- The tree was not valid after the run. -/
  | invalid (report : Report)
deriving DecidableEq, Repr

structure PassError where
  pass : String
  failure : PassFailure
deriving DecidableEq, Repr

namespace PassFailure

def message : PassFailure → String
  | .rewrite error text => error.message ++ "\n  at: " ++ text
  | .invalid report => "IR validation failed:\n" ++ report.text

end PassFailure

namespace PassError

def message (e : PassError) : String :=
  s!"pass `{e.pass}` failed: " ++ e.failure.message

/-- The statement that the failed run was at. -/
def stmt? (e : PassError) : Option StmtId :=
  match e.failure with
  | .rewrite error _ => some error.stmt
  | .invalid _ => none

/-- The error that caused this one, if there is one. -/
def cause? (e : PassError) : Option String :=
  match e.failure with
  | .rewrite error _ => some error.message
  | .invalid _ => none

end PassError

/-! ## Running -/

structure PipelineConfig where
  /-- Whether the tree is checked after every pass. -/
  verifyEach : Bool := true
  /-- The bound of passes that have none of their own. -/
  maxRestarts : Option Nat := none
deriving DecidableEq, Repr

structure Pipeline (σ : Type) where
  config : PipelineConfig
  passes : List (Pass σ)

namespace PipelineConfig

variable {σ : Type}

/-- The lines of a statement, without a break after the last. -/
def excerpt (a : Arena) (s : StmtId) : Except Fault String :=
  return String.intercalate "\n" (← a.lines (.stmt s))

/-- The report of a finished pass, or what the check afterwards found. -/
def conclude (config : PipelineConfig) (name : String) (a : Arena) (summary : Summary) :
    Logged (Except PassError PassReport) := do
  if config.verifyEach then
    let report ← a.validate summary.root
    if !report.isOk then
      return .error ⟨name, .invalid report⟩
  Logged.emit (.passFinished summary.replacements summary.traversals)
  return .ok ⟨name, summary⟩

/-- Runs one pass, with its own bound or else that of the pipeline, and checks the tree. -/
def runPass (config : PipelineConfig) (pass : Pass σ) (options : RunOptions) (a : Arena) (st : σ)
    (root : Node) : Logged (Outcome σ PassError PassReport) := do
  let bound := pass.maxRestarts <|> config.maxRestarts
  let outcome ← pass.rule.run { options with maxRestarts := bound } a st root
  match outcome.result with
  | .error error =>
    let text ← excerpt outcome.arena error.stmt
    return ⟨.error ⟨pass.name, .rewrite error text⟩, outcome.arena, outcome.state⟩
  | .ok summary =>
    let result ← config.conclude pass.name outcome.arena summary
    return ⟨result, outcome.arena, outcome.state⟩

/-- Runs passes in order until one fails. -/
def runPasses (config : PipelineConfig) (options : RunOptions) :
    List (Pass σ) → Arena → σ → Node → Logged (Outcome σ PassError (List PassReport))
  | [], a, st, _ => return ⟨.ok [], a, st⟩
  | pass :: passes, a, st, root => do
    let outcome ← (config.runPass pass options a st root).within (.pass pass.name)
    match outcome.result with
    | .error error => return ⟨.error error, outcome.arena, outcome.state⟩
    | .ok report =>
      let rest ← config.runPasses options passes outcome.arena outcome.state report.summary.root
      return { rest with result := rest.result.map (report :: ·) }

end PipelineConfig

/-- Runs a pipeline from a root. -/
def Pipeline.run {σ : Type} (pipeline : Pipeline σ) (options : RunOptions) (a : Arena) (st : σ)
    (root : Node) : Logged (Outcome σ PassError PipelineReport) := do
  let outcome ← pipeline.config.runPasses options pipeline.passes a st root
  return ⟨outcome.result.map PipelineReport.mk, outcome.arena, outcome.state⟩

end KernelIR
