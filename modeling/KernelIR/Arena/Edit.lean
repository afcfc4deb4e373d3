import KernelIR.Arena.Replacement
import KernelIR.Log

/-!
# Edits

The operations that change an arena, as data, and what each of them answers and reports. The arenas
that arise are those that some sequence of edits makes out of the empty one.
-/

namespace KernelIR

/-- One change of an arena. -/
inductive Edit where
  | createBlock
  | createStmt (kind : Kind) (ty : ScalarType)
  | push (block : BlockId) (stmt : StmtId)
  | insertBefore (block : BlockId) (before stmt : StmtId)
  | remove (block : BlockId) (stmt : StmtId)
  | detachBlock (block : BlockId)
  | erase (stmt : StmtId)
  | redirect (old new : StmtId)
  | replace (old new : StmtId)
deriving DecidableEq, Repr

/-- What an edit answers, besides the changed arena. -/
inductive Edit.Answer where
  | done
  | block (block : BlockId)
  | stmt (stmt : StmtId)
  /-- The former owner of a released block. -/
  | owner (owner : Option StmtId)
deriving DecidableEq, Repr

namespace Edit

/-- Carries an edit out. Only erasing is reported; replacing erases too. -/
def apply (a : Arena) : Edit → Logged (Answer × Arena)
  | .createBlock =>
    let (b, a) := a.createBlock
    pure (.block b, a)
  | .createStmt k ty => do
    let (s, a) ← a.createStmt k ty
    pure (.stmt s, a)
  | .push b s => do
    let a ← a.push b s
    pure (.done, a)
  | .insertBefore b before s => do
    let a ← a.insertBefore b before s
    pure (.done, a)
  | .remove b s => do
    let a ← a.remove b s
    pure (.done, a)
  | .detachBlock b => do
    let (former, a) ← a.detachBlock b
    pure (.owner former, a)
  | .erase s => do
    let erasure ← a.erase s
    Logged.emit (.erased s erasure.discarded)
    pure (.done, erasure.arena)
  | .redirect old new => do
    let a ← a.redirect old new
    pure (.done, a)
  | .replace old new => do
    let erasure ← a.replace old new
    Logged.emit (.erased old erasure.discarded)
    pure (.done, erasure.arena)

/-- Carries out edits in order. -/
def applyAll (a : Arena) : List Edit → Logged Arena
  | [] => pure a
  | e :: es => do
    let (_, a) ← e.apply a
    applyAll a es

end Edit

/-- An arena arises if a sequence of edits makes it out of the empty one. -/
def Arena.Arises (a : Arena) : Prop :=
  ∃ edits : List Edit, (Edit.applyAll Arena.empty edits).result = .ok a

end KernelIR
