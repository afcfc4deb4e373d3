import KernelIR.Handle
import KernelIR.Scalar

/-!
# Statement kinds

A kind says what a statement computes. Everything that walks or rewrites statements asks a kind for
three things only: the statements that it reads (`operands`), the blocks that it holds (`children`),
and a single operand, to look at and to exchange (`slot?`).
-/

namespace KernelIR

/-- The closed set of statement kinds. The last four are containers. -/
inductive Kind where
  | const (value : Constant)
  | unary (op : UnaryOp) (operand : StmtId)
  | binary (op : BinaryOp) (lhs rhs : StmtId)
  /-- A stack slot for a local variable. -/
  | alloca
  | localLoad (ptr : StmtId)
  | localStore (ptr value : StmtId)
  /-- The address of an element of a global structure node. -/
  | globalPtr (snode : String) (indices : List StmtId)
  | globalLoad (ptr : StmtId)
  | globalStore (ptr value : StmtId)
  /-- The current induction value of an enclosing loop. -/
  | loopIndex (loop : StmtId) (index : UInt32)
  /-- Clears the lanes of an enclosing loop where the condition is false. -/
  | whileControl (mask cond : StmtId)
  | print (value : StmtId)
  | ifElse (cond : StmtId) (thenBody : BlockId) (elseBody : Option BlockId)
  | whileLoop (body : BlockId)
  | rangeFor (start stop : StmtId) (body : BlockId)
  | structFor (snode : String) (body : BlockId)
deriving DecidableEq, Repr

namespace Kind

/-- The mnemonic used in listings and messages. -/
def name : Kind → String
  | .const _ => "const"
  | .unary _ _ => "unary"
  | .binary _ _ _ => "binary"
  | .alloca => "alloca"
  | .localLoad _ => "local_load"
  | .localStore _ _ => "local_store"
  | .globalPtr _ _ => "global_ptr"
  | .globalLoad _ => "global_load"
  | .globalStore _ _ => "global_store"
  | .loopIndex _ _ => "loop_index"
  | .whileControl _ _ => "while_control"
  | .print _ => "print"
  | .ifElse _ _ _ => "if"
  | .whileLoop _ => "while"
  | .rangeFor _ _ _ => "range_for"
  | .structFor _ _ => "struct_for"

/-- The statements that a kind reads, by slot. -/
def operands : Kind → List StmtId
  | .const _ | .alloca | .whileLoop _ | .structFor _ _ => []
  | .unary _ x | .localLoad x | .globalLoad x | .loopIndex x _ | .print x | .ifElse x _ _ => [x]
  | .binary _ x y | .localStore x y | .globalStore x y | .whileControl x y | .rangeFor x y _ =>
    [x, y]
  | .globalPtr _ indices => indices

/-- The place of one operand in a kind: what is there, and the kind with something else there. -/
structure Slot where
  held : StmtId
  put : StmtId → Kind

/-- One slot of a kind, if the kind has it. -/
def slot? : Kind → Nat → Option Slot
  | .const _, _ | .alloca, _ | .whileLoop _, _ | .structFor _ _, _ => none
  | .unary op x, 0 => some ⟨x, fun s => .unary op s⟩
  | .localLoad x, 0 => some ⟨x, fun s => .localLoad s⟩
  | .globalLoad x, 0 => some ⟨x, fun s => .globalLoad s⟩
  | .loopIndex x index, 0 => some ⟨x, fun s => .loopIndex s index⟩
  | .print x, 0 => some ⟨x, fun s => .print s⟩
  | .ifElse x thenBody elseBody, 0 => some ⟨x, fun s => .ifElse s thenBody elseBody⟩
  | .binary op x y, 0 => some ⟨x, fun s => .binary op s y⟩
  | .binary op x y, 1 => some ⟨y, fun s => .binary op x s⟩
  | .localStore x y, 0 => some ⟨x, fun s => .localStore s y⟩
  | .localStore x y, 1 => some ⟨y, fun s => .localStore x s⟩
  | .globalStore x y, 0 => some ⟨x, fun s => .globalStore s y⟩
  | .globalStore x y, 1 => some ⟨y, fun s => .globalStore x s⟩
  | .whileControl x y, 0 => some ⟨x, fun s => .whileControl s y⟩
  | .whileControl x y, 1 => some ⟨y, fun s => .whileControl x s⟩
  | .rangeFor x y body, 0 => some ⟨x, fun s => .rangeFor s y body⟩
  | .rangeFor x y body, 1 => some ⟨y, fun s => .rangeFor x s body⟩
  | .globalPtr snode indices, i =>
    indices[i]?.map fun x => ⟨x, fun s => .globalPtr snode (indices.set i s)⟩
  | _, _ => none

/-- The kind with the operand in one slot exchanged, if it has that slot. -/
def setOperand? (k : Kind) (slot : Nat) (s : StmtId) : Option Kind :=
  (k.slot? slot).map fun p => p.put s

/-- The blocks that a kind holds, in the order of traversal: the branch taken when the condition
holds comes first. -/
def children : Kind → List BlockId
  | .ifElse _ thenBody elseBody => thenBody :: elseBody.toList
  | .whileLoop body | .rangeFor _ _ body | .structFor _ body => [body]
  | _ => []

def isContainer : Kind → Bool
  | .ifElse _ _ _ | .whileLoop _ | .rangeFor _ _ _ | .structFor _ _ => true
  | _ => false

end Kind

end KernelIR
