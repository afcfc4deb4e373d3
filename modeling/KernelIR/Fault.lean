import KernelIR.Handle

/-!
# Faults

A fault is the misuse of an arena: an operation asked of statements or blocks that are not in the
state it needs. It ends the work, and what the arena holds afterwards is not looked at. Errors that a
caller is expected to handle have types of their own.
-/

namespace KernelIR

/-- The operations that put a detached statement into a block. -/
inductive Placement where
  | push
  | insertBefore
  | replace
deriving DecidableEq, Repr

def Placement.text : Placement → String
  | .push => "push_stmt"
  | .insertBefore => "insert_stmt_before"
  | .replace => "replace_stmt"

/-- One constructor for each cause. -/
inductive Fault where
  /-- A handle at or past the end of the table that it was looked up in. -/
  | outOfRange (length index : Nat)
  /-- A new statement reads an erased one. -/
  | operandErased (operand : StmtId)
  /-- A new statement names a block that has an owner. -/
  | blockOwned (block : BlockId) (owner claimant : StmtId)
  | placedErased (placement : Placement) (stmt : StmtId)
  | placedAttached (placement : Placement) (stmt : StmtId) (block : BlockId)
  /-- The statement to insert before is not in the block. -/
  | anchorMissing
  | erasedAttached (stmt : StmtId) (block : BlockId)
  /-- Something outside reads a statement that is about to be erased. -/
  | erasedUsed (stmt : StmtId) (uses : Nat)
  | replacedByItself (stmt : StmtId)
  /-- A replacement reads a statement that its arrival erases. -/
  | replacementReads (replacement operand old : StmtId)
  /-- An attached statement is missing from the block that it says it is in. -/
  | positionLost
  /-- A recorded use names a slot that its user does not have. -/
  | slotMissing
  /-- A recorded use names a slot that holds something else. -/
  | slotMismatch (held recorded : StmtId)
  /-- A checkpoint found a malformed tree. -/
  | invalidTree (checkpoint report : String)
  /-- A descent entered some block inside itself and has no end. -/
  | selfContaining
  /-- The traversals granted to a run did not suffice. -/
  | budgetSpent
deriving DecidableEq, Repr

/-- The text of a fault. -/
def Fault.message : Fault → String
  | .outOfRange length index =>
    s!"index out of bounds: the len is {length} but the index is {index}"
  | .operandErased operand => s!"create_stmt: operand {operand} has been erased"
  | .blockOwned block owner claimant =>
    s!"create_stmt: {block} already belongs to {owner}; detach it before handing it to {claimant}"
  | .placedErased placement stmt => placement.text ++ s!": {stmt} has been erased"
  | .placedAttached placement stmt block =>
    placement.text ++ s!": {stmt} already belongs to Some({block}); " ++
      "remove it from the old block first"
  | .anchorMissing => "insert_stmt_before: `before` statement not found in block"
  | .erasedAttached stmt block =>
    s!"erase_stmt: {stmt} is still attached to Some({block}); remove it from its block first"
  | .erasedUsed stmt uses =>
    s!"erase_stmt: {stmt} still has {uses} use(s) outside the erased subtree; " ++
      "replace all usages before erasing"
  | .replacedByItself stmt =>
    s!"assertion `left != right` failed: replace_stmt: cannot replace {stmt} with itself\n" ++
      s!"  left: {stmt}\n right: {stmt}"
  | .replacementReads replacement operand old =>
    s!"replace_stmt: replacement {replacement} reads {operand}, which is erased with {old}"
  | .positionLost => "replace_stmt: statement not found in its parent block"
  | .slotMissing => "usage index points at a missing operand slot"
  | .slotMismatch held recorded =>
    s!"assertion `left == right` failed\n  left: {held}\n right: {recorded}"
  | .invalidTree checkpoint report =>
    s!"IR validation failed after `{checkpoint}`:\n{report}"
  | .selfContaining => "the tree contains itself"
  | .budgetSpent => "the run was not finished"

end KernelIR
