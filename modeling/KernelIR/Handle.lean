/-!
# Handles

Statements and blocks are named by their place in the order of creation, counted separately for the
two. A handle is only a name: nothing says that it has been issued, so every table that it is looked
up in answers for itself what an unknown handle means.
-/

namespace KernelIR

/-- Names a statement. -/
structure StmtId where
  index : Nat
deriving DecidableEq, Repr, Inhabited

/-- Names a block, an ordered list of statements. -/
structure BlockId where
  index : Nat
deriving DecidableEq, Repr, Inhabited

/-- Where a descent starts: at a whole block, or at one statement with everything nested below it. -/
inductive Node where
  | block (block : BlockId)
  | stmt (stmt : StmtId)
deriving DecidableEq, Repr, Inhabited

instance : ToString StmtId := ⟨fun s => "stmt" ++ toString s.index⟩

instance : ToString BlockId := ⟨fun b => "block" ++ toString b.index⟩

/-- A node is written as the handle that it starts at. -/
def Node.text : Node → String
  | .block b => toString b
  | .stmt s => toString s

instance : ToString Node := ⟨Node.text⟩

/-- The root after `old` gave way to `new`: only a descent that started at `old` moves. -/
def Node.follow (root : Node) (old new : StmtId) : Node :=
  if root = .stmt old then .stmt new else root

/-- A handle that may be missing is written `None` or `Some(block0)`. -/
def optionText {α : Type} [ToString α] : Option α → String
  | none => "None"
  | some a => "Some(" ++ toString a ++ ")"

end KernelIR
