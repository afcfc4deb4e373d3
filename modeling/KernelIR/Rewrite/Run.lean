import KernelIR.Rewrite.Rule

/-!
# Runs

A run applies a rule until nothing matches any more. In each round one traversal looks for the first
match; the generator makes a replacement, which takes the place of the match, and the next round
starts again from the root. If the root is itself a statement that was replaced, the run follows it.

A run may be given a bound on its replacements, which is tested when a match has been found and
before the generator is called: a run with the bound `n` ends within `n + 1` traversals. Without a
bound only the rule can make the run end, so every run is also granted a budget of traversals.
-/

namespace KernelIR

/-- How a run ended well. -/
structure Summary where
  replacements : Nat
  /-- The traversals made, the last of which found nothing. -/
  traversals : Nat
  /-- The root of the last traversal. -/
  root : Node
deriving DecidableEq, Repr

/-- How a run failed. -/
inductive RewriteError where
  /-- The generator had no replacement for `stmt`. -/
  | generator (stmt : StmtId) (reason : String)
  /-- The bound was reached, and `stmt` still matches. -/
  | nonConvergent (limit : Nat) (stmt : StmtId)
  | refused (stmt replacement : StmtId) (reason : Refusal)
deriving DecidableEq, Repr

namespace RewriteError

/-- The matched statement that the run was at. -/
def stmt : RewriteError → StmtId
  | .generator s _ => s
  | .nonConvergent _ s => s
  | .refused s _ _ => s

def message : RewriteError → String
  | .generator stmt reason => s!"generator failed while replacing {stmt}: {reason}"
  | .nonConvergent limit stmt =>
    s!"no fixed point after {limit} replacement(s): {stmt} still matches"
  | .refused stmt replacement reason =>
    s!"invalid replacement {replacement} for {stmt}: " ++ reason.text

/-- The error that caused this one, if there is one. -/
def cause? : RewriteError → Option String
  | .generator _ reason => some reason
  | _ => none

end RewriteError

/-- How a run is carried out. -/
structure RunOptions where
  /-- The replacements after which the run gives up, if it may. -/
  maxRestarts : Option Nat
  /-- The traversals granted. -/
  budget : Nat
deriving Repr

/-- A result with the arena and the state of the rule that it left. -/
structure Outcome (σ ε α : Type) where
  result : Except ε α
  arena : Arena
  state : σ
deriving Repr

-- Not derived, since the core library does not decide equality of `Except`.
instance {σ ε α : Type} [DecidableEq σ] [DecidableEq ε] [DecidableEq α] :
    DecidableEq (Outcome σ ε α)
  | ⟨.ok x, a, st⟩, ⟨.ok x', a', st'⟩ =>
    decidable_of_iff (x = x' ∧ a = a' ∧ st = st') (by simp)
  | ⟨.error e, a, st⟩, ⟨.error e', a', st'⟩ =>
    decidable_of_iff (e = e' ∧ a = a' ∧ st = st') (by simp)
  | ⟨.ok _, _, _⟩, ⟨.error _, _, _⟩ => .isFalse (by simp)
  | ⟨.error _, _, _⟩, ⟨.ok _, _, _⟩ => .isFalse (by simp)

/-- What one round came to. -/
inductive Round (σ : Type) where
  /-- Nothing matched. -/
  | settled (state : σ)
  | failed (error : RewriteError) (arena : Arena) (state : σ)
  | replaced (stmt replacement : StmtId) (arena : Arena) (state : σ)
deriving DecidableEq, Repr

namespace Rule

variable {σ : Type}

/-- Reports a match. The report names the kind of the statement, so a statement that was never
created ends the run here: its test may have passed without reading it. -/
def reportMatch (a : Arena) (s : StmtId) : Logged Unit := do
  Logged.emit (.matched s (← a.kind s).name)

/-- Asks for a replacement of `s` and puts it in place. -/
def substitute (rule : Rule σ) (a : Arena) (st : σ) (s : StmtId) : Logged (Round σ) := do
  let ((generated, a), st) ← (rule.generate a).run st
  match generated with
  | .error reason => return .failed (.generator s reason) a st
  | .ok replacement =>
    match ← a.refusal? s replacement with
    | some reason => return .failed (.refused s replacement reason) a st
    | none =>
      let (_, a) ← (Edit.replace s replacement).apply a
      Logged.emit (.replaced s replacement)
      return .replaced s replacement a st

/-- One traversal, and one replacement if it found a match and the bound allows it. -/
def round (rule : Rule σ) (options : RunOptions) (replacements : Nat) (a : Arena) (st : σ)
    (root : Node) : Logged (Round σ) := do
  let (found, st) ← ((rule.findMatch a root).run st : Except Fault _)
  match found with
  | none => return .settled st
  | some s =>
    match options.maxRestarts with
    | some limit =>
      if replacements ≥ limit then
        Logged.emit (.notConverging s limit)
        return .failed (.nonConvergent limit s) a st
      else
        reportMatch a s
        rule.substitute a st s
    | none =>
      reportMatch a s
      rule.substitute a st s

/-- Rounds until one does not replace anything; the counters say what was done before. -/
def rounds (rule : Rule σ) (options : RunOptions) :
    Nat → Nat → Nat → Arena → σ → Node → Logged (Outcome σ RewriteError Summary)
  | 0, _, _, _, _, _ => (throw .budgetSpent : Except Fault _)
  | budget + 1, replacements, traversals, a, st, root => do
    match ← rule.round options replacements a st root with
    | .settled st =>
      Logged.emit (.fixedPoint replacements (traversals + 1))
      return ⟨.ok ⟨replacements, traversals + 1, root⟩, a, st⟩
    | .failed error a st => return ⟨.error error, a, st⟩
    | .replaced s replacement a st =>
      rule.rounds options budget (replacements + 1) (traversals + 1) a st
        (root.follow s replacement)

/-- A run of a rule from a root. -/
def run (rule : Rule σ) (options : RunOptions) (a : Arena) (st : σ) (root : Node) :
    Logged (Outcome σ RewriteError Summary) :=
  (rule.rounds options options.budget 0 0 a st root).within (.rewriting root)

end Rule

end KernelIR
