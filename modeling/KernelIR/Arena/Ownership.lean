import KernelIR.Arena.Basic

/-!
# Ownership

Two views of nesting that follow the links of ownership: downward, the statements that a container
takes with it when it is erased, and upward, the blocks that hold a statement. Both go through one
block more at each step, so an arena with `n` blocks either ends them within `n` steps or nests some
block inside itself.
-/

namespace KernelIR

namespace Arena

/-- `s`, then every statement in the blocks that it still owns, through `depth` levels. A block that
was released to another owner is left out, although the kind of `s` still names it. -/
def ownedWithin (a : Arena) : Nat → StmtId → Except Fault (List StmtId)
  | 0, _ => throw .selfContaining
  | depth + 1, s => do
    let below ← (← a.kind s).children.mapM fun b => do
      let data ← a.block b
      if data.owner = some s then
        return (← data.stmts.mapM (a.ownedWithin depth)).flatten
      else
        return []
    return s :: below.flatten

/-- Everything that is erased together with `s`, in pre-order. -/
def owned (a : Arena) (s : StmtId) : Except Fault (List StmtId) :=
  a.ownedWithin (a.blocks.size + 1) s

/-- Climbs from block to enclosing block, through `height` levels, in search of `b`. -/
def climb (a : Arena) (b : BlockId) : Nat → Option BlockId → Except Fault Bool
  | _, none => pure false
  | 0, some _ => throw .selfContaining
  | height + 1, some current => do
    if current = b then
      return true
    match ← a.owner current with
    | none => return false
    | some o => a.climb b height (← a.parent o)

/-- Whether `b` lists `s` or encloses it through containers. -/
def encloses (a : Arena) (b : BlockId) (s : StmtId) : Except Fault Bool := do
  a.climb b (a.blocks.size + 1) (← a.parent s)

end Arena

end KernelIR
