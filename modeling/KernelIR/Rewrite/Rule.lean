import KernelIR.Arena.Edit
import KernelIR.Tree.Walk

/-!
# Rules

A rule says which statements to replace and makes the replacements. Both its halves may have a
state, which the runs of the rule hand on: the test is asked of each statement that a traversal
reaches, the generator once for every match.

A replacement is refused if it cannot take the place of the matched statement. The first reason that
applies is the one given.
-/

namespace KernelIR

/-- A test of statements, with a generator of replacements. -/
structure Rule (σ : Type) where
  test : Arena → StmtId → StateT σ (Except Fault) Bool
  /-- A detached statement, or the text of an error. -/
  generate : Arena → StateT σ Logged (Except String StmtId × Arena)

/-- One traversal: the first statement below the root, in pre-order, that passes the test. -/
def Rule.findMatch {σ : Type} (rule : Rule σ) (a : Arena) (root : Node) :
    StateT σ (Except Fault) (Option StmtId) :=
  a.walk (fun s => do return if ← rule.test a s then .stop s else .advance) root

/-! ## Refusals -/

/-- Why a statement cannot take the place of the matched one. -/
inductive Refusal where
  | isMatched
  | isErased
  | isAttached
  | readsMatched
  | readsDiscarded
  | ownsEnclosing
deriving DecidableEq, Repr

def Refusal.text : Refusal → String
  | .isMatched => "generator returned the matched statement"
  | .isErased => "replacement has been erased"
  | .isAttached => "replacement already belongs to a block"
  | .readsMatched => "replacement reads the statement it replaces"
  | .readsDiscarded => "replacement reads a statement in a discarded body"
  | .ownsEnclosing => "replacement owns a block enclosing the matched statement"

namespace Arena

/-- Whether a statement reads something that is erased with the container `s`. -/
def readsDiscardedWith (a : Arena) (s reader : StmtId) : Except Fault Bool := do
  if (← a.kind s).isContainer then
    let doomed ← a.owned s
    return (← a.kind reader).operands.any (doomed.contains ·)
  else
    return false

/-- Whether a statement holds a block that encloses `s`. -/
def ownsBlockAround (a : Arena) (s holder : StmtId) : Except Fault Bool := do
  (← a.kind holder).children.anyM (a.encloses · s)

/-- Why `replacement` cannot take the place of `s`, if so. -/
def refusal? (a : Arena) (s replacement : StmtId) : Except Fault (Option Refusal) := do
  if replacement = s then
    return some .isMatched
  if a.isErased replacement then
    return some .isErased
  if (← a.parent replacement).isSome then
    return some .isAttached
  if (← a.kind replacement).operands.contains s then
    return some .readsMatched
  if ← a.readsDiscardedWith s replacement then
    return some .readsDiscarded
  if ← a.ownsBlockAround s replacement then
    return some .ownsEnclosing
  return none

end Arena

end KernelIR
