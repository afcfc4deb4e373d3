import KernelIR.Tree.Walk

/-!
# Listings

A listing writes a tree as text, a line for each statement. Statements are numbered in the order in
which they are met, and an operand is written by its number; one that has no number yet, or that was
erased, is written `%?`. A container is followed by its bodies, one level deeper, and a closing line.

    %0 = const 0 : i32
    %1 = range_for %0, %0 {
      %2 = loop_index %1, 0 : i32
    }
-/

namespace KernelIR

/-! ## Numbers -/

/-- The numbers given so far. -/
structure Numbering where
  next : Nat
  numbers : Column (Option Nat)

namespace Numbering

def empty : Numbering := ⟨0, Column.empty⟩

/-- Gives the next number to a statement; it replaces a number given before. -/
def assign (n : Numbering) (s : StmtId) : Numbering :=
  ⟨n.next + 1, n.numbers.set s.index (some n.next)⟩

/-- How an operand is written. -/
def operandText (n : Numbering) (a : Arena) (s : StmtId) : String :=
  match n.numbers.get s.index with
  | some number => if a.isErased s then "%?" else "%" ++ toString number
  | none => "%?"

/-- Operands separated by commas. -/
def operandsText (n : Numbering) (a : Arena) (ss : List StmtId) : String :=
  String.intercalate ", " (ss.map (n.operandText a))

end Numbering

/-! ## Statements -/

/-- What a line says about the kind of its statement, without its blocks. -/
def Kind.text (k : Kind) (a : Arena) (n : Numbering) : String :=
  match k with
  | .const value => "const " ++ value.text
  | .unary op x => op.text ++ " " ++ n.operandText a x
  | .binary op x y => op.text ++ " " ++ n.operandsText a [x, y]
  | .globalPtr snode indices => "global_ptr @" ++ snode ++ "[" ++ n.operandsText a indices ++ "]"
  | .loopIndex loop index => "loop_index " ++ n.operandText a loop ++ ", " ++ toString index.toNat
  | .structFor snode _ => "struct_for @" ++ snode
  | k =>
    match k.operands with
    | [] => k.name
    | operands => k.name ++ " " ++ n.operandsText a operands

/-- The type of a statement is written after a colon, unless it is `void`. -/
def ScalarType.suffix : ScalarType → String
  | .void => ""
  | ty => " : " ++ ty.text

/-- Two spaces for each level of nesting. -/
def indentation (level : Nat) : String :=
  String.ofList (List.replicate (2 * level) ' ')

/-- The line of a statement, up to the brace that opens its blocks. -/
def Arena.headline (a : Arena) (level : Nat) (number : Nat) (data : Stmt) (n : Numbering) :
    String :=
  indentation level ++ "%" ++ toString number ++ " = " ++ data.kind.text a n ++ data.ty.suffix

namespace Arena

/-- The lines of a statement and of what is below it, through `depth` levels. A statement has its
number before its operands are written, so it can refer to itself. -/
def linesWithin (a : Arena) : Nat → Nat → StmtId → StateT Numbering (Except Fault) (List String)
  | 0, _, _ => throw .selfContaining
  | depth + 1, level, s => do
    let data ← a.stmt s
    let number := (← get).next
    modify (·.assign s)
    let head := a.headline level number data (← get)
    match data.kind.children with
    | [] => return [head]
    | blocks =>
      let bodies ← blocks.mapM fun b => do
        return (← (← a.listing b).mapM (a.linesWithin depth (level + 1))).flatten
      return (head ++ " \x7b") ::
        ([indentation level ++ "\x7d else \x7b"].intercalate bodies ++ [indentation level ++ "\x7d"])

/-- The lines of everything below a node. -/
def lines (a : Arena) (root : Node) : Except Fault (List String) :=
  let numbered : StateT Numbering (Except Fault) (List String) :=
    match root with
    | .block b => do
      return (← (← a.listing b).mapM (a.linesWithin a.maxDepth 0)).flatten
    | .stmt s => a.linesWithin a.maxDepth 0 s
  numbered.run' Numbering.empty

/-- The listing of a node: every line ends with a line break. -/
def print (a : Arena) (root : Node) : Except Fault String :=
  return String.join ((← a.lines root).map (· ++ "\n"))

end Arena

end KernelIR
