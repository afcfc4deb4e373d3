import KernelIR.Arena.Basic

/-!
# Descent

From a node one descends through the statements that blocks list and the blocks that their kinds
name, a statement before what it holds. The links back, from statement to block and from block to
owner, play no part. `collect` lists everything on the way; `walk` asks a visitor at each statement
whether to go on, to leave out what is below, or to stop.

A path of the descent that meets no block twice passes at most as many statements below its start as
there are blocks. This bounds the depth: a longer path has entered a block inside itself.
-/

namespace KernelIR

namespace Arena

/-- The levels of statements on a path that meets no block twice. -/
def maxDepth (a : Arena) : Nat :=
  a.blocks.size + 1

/-! ## Collecting -/

/-- `s` and all statements below it, in pre-order, through `depth` levels. -/
def collectWithin (a : Arena) : Nat → StmtId → Except Fault (List StmtId)
  | 0, _ => throw .selfContaining
  | depth + 1, s => do
    let below ← (← a.kind s).children.mapM fun b => do
      return (← (← a.listing b).mapM (a.collectWithin depth)).flatten
    return s :: below.flatten

/-- Every statement that the descent from a node meets, in pre-order. -/
def collect (a : Arena) : Node → Except Fault (List StmtId)
  | .block b => do
    return (← (← a.listing b).mapM (a.collectWithin a.maxDepth)).flatten
  | .stmt s => a.collectWithin a.maxDepth s

end Arena

/-! ## Walking -/

/-- What a visitor answers at a statement. -/
inductive Verdict (β : Type) where
  /-- Go on, below the statement first. -/
  | advance
  /-- Go on, but not below the statement. -/
  | skip
  /-- End the walk with a value. -/
  | stop (value : β)
deriving DecidableEq, Repr

namespace Arena

variable {σ β : Type}

/-- The levels that a walk goes down. A visitor can stop a descent that has no end, however late, so
a walk gives up a thousand million levels after the point where only such a descent goes on. -/
def walkDepth (a : Arena) : Nat :=
  a.maxDepth + 1000000000

/-- Walks `s` and what is below it, through `depth` levels, and then does the rest, unless the
visitor stopped. The visitor has a state, and is asked about `s` before anything on `s` is read.
Nothing is left to do after the rest, so a deep descent needs no deep stack. -/
def walkWithin (a : Arena) (visit : StmtId → StateT σ (Except Fault) (Verdict β)) :
    Nat → StmtId → StateT σ (Except Fault) (Option β) → StateT σ (Except Fault) (Option β)
  | 0, _, _ => throw .selfContaining
  | depth + 1, s, rest => do
    match ← visit s with
    | .stop value => return some value
    | .skip => rest
    | .advance =>
      (← a.kind s).children.foldr
        (fun b rest => do (← a.listing b).foldr (a.walkWithin visit depth) rest) rest

/-- Walks everything that the descent from a node meets, until the visitor stops. -/
def walk (a : Arena) (visit : StmtId → StateT σ (Except Fault) (Verdict β)) :
    Node → StateT σ (Except Fault) (Option β)
  | .block b => do
    (← a.listing b).foldr (a.walkWithin visit a.walkDepth) (pure none)
  | .stmt s => a.walkWithin visit a.walkDepth s (pure none)

end Arena

end KernelIR
