import KernelIR.Column
import KernelIR.Fault
import KernelIR.Kind

/-!
# The arena

An arena holds every statement and every block ever created. Statements are never removed: an erased
one stays behind as a tombstone, so that a handle to it can be told from a live one. Nesting is kept
in both directions, a block lists its statements and each of them names the block, a container names
its blocks and each of them names its owner, and so is reading: beside the operands of its kind,
every statement has the list of the slots that read it.

This module holds the tables and their readers. Looking up a statement or a block that was never
created is a fault; the use lists and the erased flags have an entry for every handle.
-/

namespace KernelIR

/-- One reading of a statement: the operand slot `slot` of `user`. -/
structure Use where
  user : StmtId
  slot : Nat
deriving DecidableEq, Repr

instance : ToString Use := ⟨fun u => toString u.user ++ "#" ++ toString u.slot⟩

/-- What the arena holds on a statement. -/
structure Stmt where
  kind : Kind
  ty : ScalarType
  /-- The block that lists it, if it is attached. -/
  parent : Option BlockId
deriving DecidableEq, Repr

/-- What the arena holds on a block. -/
structure Block where
  stmts : List StmtId
  /-- The container that owns it; a root block or a detached one has none. -/
  owner : Option StmtId
deriving DecidableEq, Repr

/-- All statements and blocks, with the index of uses. -/
structure Arena where
  stmts : Array Stmt
  blocks : Array Block
  /-- For each statement, the slots that read it, in the order in which they came to do so. -/
  uses : Column (List Use)
  erased : Column Bool
deriving DecidableEq, Repr

namespace Arena

/-- The arena with nothing in it. -/
def empty : Arena := ⟨#[], #[], Column.empty, Column.empty⟩

instance : Inhabited Arena := ⟨empty⟩

/-! ## Reading -/

def stmt (a : Arena) (s : StmtId) : Except Fault Stmt :=
  match a.stmts[s.index]? with
  | some data => .ok data
  | none => .error (.outOfRange a.stmts.size s.index)

def block (a : Arena) (b : BlockId) : Except Fault Block :=
  match a.blocks[b.index]? with
  | some data => .ok data
  | none => .error (.outOfRange a.blocks.size b.index)

def kind (a : Arena) (s : StmtId) : Except Fault Kind :=
  return (← a.stmt s).kind

def type (a : Arena) (s : StmtId) : Except Fault ScalarType :=
  return (← a.stmt s).ty

def parent (a : Arena) (s : StmtId) : Except Fault (Option BlockId) :=
  return (← a.stmt s).parent

/-- The statements that a block lists, in order. -/
def listing (a : Arena) (b : BlockId) : Except Fault (List StmtId) :=
  return (← a.block b).stmts

def owner (a : Arena) (b : BlockId) : Except Fault (Option StmtId) :=
  return (← a.block b).owner

/-- Where a block first lists a statement. -/
def position? (a : Arena) (b : BlockId) (s : StmtId) : Except Fault (Option Nat) :=
  return (← a.listing b).idxOf? s

def isErased (a : Arena) (s : StmtId) : Bool :=
  a.erased.get s.index

def usesOf (a : Arena) (s : StmtId) : List Use :=
  a.uses.get s.index

def isUsed (a : Arena) (s : StmtId) : Bool :=
  !(a.usesOf s).isEmpty

/-! ## Writing one entry

Each of these changes one entry of one table and leaves an arena without that entry as it is. -/

def modifyStmt (a : Arena) (s : StmtId) (f : Stmt → Stmt) : Arena :=
  { a with stmts := a.stmts.modify s.index f }

def modifyBlock (a : Arena) (b : BlockId) (f : Block → Block) : Arena :=
  { a with blocks := a.blocks.modify b.index f }

def setKind (a : Arena) (s : StmtId) (k : Kind) : Arena :=
  a.modifyStmt s fun data => { data with kind := k }

def setParent (a : Arena) (s : StmtId) (p : Option BlockId) : Arena :=
  a.modifyStmt s fun data => { data with parent := p }

def setListing (a : Arena) (b : BlockId) (ss : List StmtId) : Arena :=
  a.modifyBlock b fun data => { data with stmts := ss }

def setOwner (a : Arena) (b : BlockId) (o : Option StmtId) : Arena :=
  a.modifyBlock b fun data => { data with owner := o }

def setUses (a : Arena) (s : StmtId) (us : List Use) : Arena :=
  { a with uses := a.uses.set s.index us }

/-- Records one more reading of `s`, after those recorded before. -/
def addUse (a : Arena) (s : StmtId) (u : Use) : Arena :=
  a.setUses s (a.usesOf s ++ [u])

def markErased (a : Arena) (s : StmtId) : Arena :=
  { a with erased := a.erased.set s.index true }

/-! ## Reading after writing -/

theorem usesOf_setUses (a : Arena) (s t : StmtId) (us : List Use) :
    (a.setUses s us).usesOf t = if s = t then us else a.usesOf t := by
  obtain ⟨i⟩ := s
  obtain ⟨j⟩ := t
  simp [usesOf, setUses, Column.get_set]

theorem isErased_markErased (a : Arena) (s t : StmtId) :
    (a.markErased s).isErased t = (decide (s = t) || a.isErased t) := by
  obtain ⟨i⟩ := s
  obtain ⟨j⟩ := t
  by_cases h : i = j <;> simp [isErased, markErased, Column.get_set, h]

end Arena

end KernelIR
