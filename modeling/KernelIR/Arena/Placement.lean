import KernelIR.Arena.Basic

/-!
# Creating and placing

New blocks are empty and unowned. A new statement is detached, becomes the owner of the blocks that
its kind names, and is recorded as a user of its operands. Placing puts a detached statement into a
block; taking it out again does not erase it.
-/

namespace KernelIR

namespace Arena

/-! ## Creating -/

def createBlock (a : Arena) : BlockId × Arena :=
  (⟨a.blocks.size⟩, { a with blocks := a.blocks.push ⟨[], none⟩ })

/-- Makes `s` the owner of an unowned block. -/
def claimBlock (s : StmtId) (a : Arena) (b : BlockId) : Except Fault Arena := do
  match ← a.owner b with
  | some o => throw (.blockOwned b o s)
  | none => pure (a.setOwner b (some s))

/-- The readings of a statement of some kind, with what each reads. -/
def readings (s : StmtId) (k : Kind) : List (StmtId × Use) :=
  k.operands.zipIdx.map fun (operand, slot) => (operand, ⟨s, slot⟩)

/-- Records every reading of a statement of some kind. -/
def recordUses (a : Arena) (s : StmtId) (k : Kind) : Arena :=
  (readings s k).foldl (fun a (operand, u) => a.addUse operand u) a

/-- A new detached statement. It may not read an erased statement, nor name a block that has an
owner; an operand that has not been issued is recorded for the statement that later gets its
handle. -/
def createStmt (a : Arena) (k : Kind) (ty : ScalarType) : Except Fault (StmtId × Arena) := do
  if let some operand := k.operands.find? a.isErased then
    throw (.operandErased operand)
  let s : StmtId := ⟨a.stmts.size⟩
  let a := { a with stmts := a.stmts.push ⟨k, ty, none⟩ }
  let a ← k.children.foldlM (claimBlock s) a
  pure (s, a.recordUses s k)

/-! ## Placing -/

/-- Only a live detached statement can be placed. -/
def requirePlaceable (a : Arena) (p : Placement) (s : StmtId) : Except Fault Unit := do
  if a.isErased s then
    throw (.placedErased p s)
  if let some b ← a.parent s then
    throw (.placedAttached p s b)

/-- Puts a statement at the end of a block. -/
def push (a : Arena) (b : BlockId) (s : StmtId) : Except Fault Arena := do
  a.requirePlaceable .push s
  let stmts ← a.listing b
  pure ((a.setListing b (stmts ++ [s])).setParent s (some b))

/-- Puts a statement before the first place where the block lists `before`. -/
def insertBefore (a : Arena) (b : BlockId) (before s : StmtId) : Except Fault Arena := do
  a.requirePlaceable .insertBefore s
  let stmts ← a.listing b
  let some i := stmts.idxOf? before | throw .anchorMissing
  pure ((a.setListing b (stmts.insertIdx i s)).setParent s (some b))

/-- Takes a statement out of a block. It is detached only if this is the block that it names. -/
def remove (a : Arena) (b : BlockId) (s : StmtId) : Except Fault Arena := do
  let stmts ← a.listing b
  let a := a.setListing b (stmts.filter (· ≠ s))
  if (← a.parent s) = some b then
    pure (a.setParent s none)
  else
    pure a

/-- Releases a block from its owner, so that another container can take it over. The kind of the
former owner still names the block. -/
def detachBlock (a : Arena) (b : BlockId) : Except Fault (Option StmtId × Arena) := do
  let former ← a.owner b
  pure (former, a.setOwner b none)

end Arena

end KernelIR
