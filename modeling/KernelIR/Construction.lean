import KernelIR.Arena.Placement

/-!
# Construction

Trees are built in place: each step creates a statement and puts it at the end of a block. A recipe
says what a leaf computes and leaves its type to be inferred where the operands determine it. A
container is opened: its bodies are created first, then the container is put in place, and the empty
bodies are handed out to be filled, so that statements inside can refer to the container.
-/

namespace KernelIR

/-! ## Leaves -/

/-- What a leaf computes. -/
inductive Recipe where
  /-- Any kind, with a stated type. -/
  | ofKind (kind : Kind) (ty : ScalarType)
  | constI32 (value : Int32)
  /-- A constant given by the bits of a single. -/
  | constF32 (bits : UInt32)
  | constBool (value : Bool)
  | unary (op : UnaryOp) (operand : StmtId)
  | binary (op : BinaryOp) (lhs rhs : StmtId)
  | alloca (ty : ScalarType)
  | localLoad (ptr : StmtId)
  | localStore (ptr value : StmtId)
  | globalPtr (snode : String) (indices : List StmtId) (ty : ScalarType)
  | globalLoad (ptr : StmtId)
  | globalStore (ptr value : StmtId)
  | loopIndex (loop : StmtId) (index : UInt32)
  | whileControl (mask cond : StmtId)
  | print (value : StmtId)
deriving DecidableEq, Repr

/-- The kind and type of a leaf. Arithmetic and loads have the type of their first operand, casts the
type that they cast to, and comparisons `i1`. -/
def Recipe.resolve (a : Arena) : Recipe → Except Fault (Kind × ScalarType)
  | .ofKind k ty => pure (k, ty)
  | .constI32 value => pure (.const (.int value.toInt64), .i32)
  | .constF32 bits => pure (.const (.float (widenSingle bits)), .f32)
  | .constBool value => pure (.const (.bool value), .i1)
  | .unary op x =>
    match op with
    | .cast ty => pure (.unary op x, ty)
    | _ => return (.unary op x, ← a.type x)
  | .binary op x y =>
    if op.isComparison then pure (.binary op x y, .i1) else return (.binary op x y, ← a.type x)
  | .alloca ty => pure (.alloca, ty)
  | .localLoad ptr => return (.localLoad ptr, ← a.type ptr)
  | .localStore ptr value => pure (.localStore ptr value, .void)
  | .globalPtr snode indices ty => pure (.globalPtr snode indices, ty)
  | .globalLoad ptr => return (.globalLoad ptr, ← a.type ptr)
  | .globalStore ptr value => pure (.globalStore ptr value, .void)
  | .loopIndex loop index => pure (.loopIndex loop index, .i32)
  | .whileControl mask cond => pure (.whileControl mask cond, .void)
  | .print value => pure (.print value, .void)

/-! ## Containers -/

/-- A container without its bodies. -/
inductive Header where
  | ifThen (cond : StmtId)
  | ifElse (cond : StmtId)
  | whileLoop
  | rangeFor (start stop : StmtId)
  | structFor (snode : String)
deriving DecidableEq, Repr

/-- An opened container, with the bodies to be filled, in order. -/
structure Opened where
  stmt : StmtId
  bodies : List BlockId
deriving DecidableEq, Repr

/-- Creates the bodies of a container and names them in its kind. -/
def Header.prepare (a : Arena) : Header → Kind × List BlockId × Arena
  | .ifThen cond =>
    let (body, a) := a.createBlock
    (.ifElse cond body none, [body], a)
  | .ifElse cond =>
    let (thenBody, a) := a.createBlock
    let (elseBody, a) := a.createBlock
    (.ifElse cond thenBody (some elseBody), [thenBody, elseBody], a)
  | .whileLoop =>
    let (body, a) := a.createBlock
    (.whileLoop body, [body], a)
  | .rangeFor start stop =>
    let (body, a) := a.createBlock
    (.rangeFor start stop body, [body], a)
  | .structFor snode =>
    let (body, a) := a.createBlock
    (.structFor snode body, [body], a)

namespace Arena

/-- Creates a statement at the end of a block. -/
def append (a : Arena) (b : BlockId) (k : Kind) (ty : ScalarType) :
    Except Fault (StmtId × Arena) := do
  let (s, a) ← a.createStmt k ty
  let a ← a.push b s
  return (s, a)

/-- Adds a leaf at the end of a block. -/
def addLeaf (a : Arena) (b : BlockId) (r : Recipe) : Except Fault (StmtId × Arena) := do
  let (k, ty) ← r.resolve a
  a.append b k ty

/-- Adds a container with empty bodies at the end of a block. -/
def openContainer (a : Arena) (b : BlockId) (h : Header) : Except Fault (Opened × Arena) := do
  let (k, bodies, a) := h.prepare a
  let (s, a) ← a.append b k .void
  return (⟨s, bodies⟩, a)

end Arena

end KernelIR
