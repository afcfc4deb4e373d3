import KernelIR.Construction

/-!
# Programs

A program is a sequence of construction steps in which every container comes with the programs that
fill its bodies. It is carried out from the top: the container is put in place, its bodies are
filled in order, and what comes after it goes into the block that holds it. Handles are given out in
the order of the steps, so a program names the statements that it reads by the place of their step.
-/

namespace KernelIR

namespace Recipe

/-- The kind of a leaf; unlike its type it can be told without an arena. -/
def kind : Recipe → Kind
  | .ofKind k _ => k
  | .constI32 value => .const (.int value.toInt64)
  | .constF32 bits => .const (.float (widenSingle bits))
  | .constBool value => .const (.bool value)
  | .unary op x => .unary op x
  | .binary op x y => .binary op x y
  | .alloca _ => .alloca
  | .localLoad ptr => .localLoad ptr
  | .localStore ptr value => .localStore ptr value
  | .globalPtr snode indices _ => .globalPtr snode indices
  | .globalLoad ptr => .globalLoad ptr
  | .globalStore ptr value => .globalStore ptr value
  | .loopIndex loop index => .loopIndex loop index
  | .whileControl mask cond => .whileControl mask cond
  | .print value => .print value

end Recipe

/-! ## Containers with one body -/

/-- A container that has one body, without the body. -/
inductive Enclosure where
  | ifThen (cond : StmtId)
  | whileLoop
  | rangeFor (start stop : StmtId)
  | structFor (snode : String)
deriving DecidableEq, Repr

def Enclosure.header : Enclosure → Header
  | .ifThen cond => .ifThen cond
  | .whileLoop => .whileLoop
  | .rangeFor start stop => .rangeFor start stop
  | .structFor snode => .structFor snode

/-- The statements that a container reads. -/
def Header.operands : Header → List StmtId
  | .ifThen cond | .ifElse cond => [cond]
  | .rangeFor start stop => [start, stop]
  | .whileLoop | .structFor _ => []

def Header.bodyCount : Header → Nat
  | .ifElse _ => 2
  | _ => 1

/-! ## Carrying out a program -/

namespace Arena

/-- Something that is carried out at the end of a block. -/
abbrev Filler := BlockId → Arena → Except Fault Arena

/-- Fills blocks in order, each with its own filler. -/
def fill : List Filler → List BlockId → Arena → Except Fault Arena
  | f :: fs, b :: bs, a => do
    let a ← f b a
    fill fs bs a
  | _, _, a => pure a

/-- Adds a leaf at the end of a block. -/
def putLeaf (r : Recipe) (b : BlockId) (a : Arena) : Except Fault Arena := do
  let (_, a) ← a.addLeaf b r
  return a

/-- Adds a container at the end of a block and fills its bodies. -/
def enclose (h : Header) (fillers : List Filler) (b : BlockId) (a : Arena) :
    Except Fault Arena := do
  let (opened, a) ← a.openContainer b h
  fill fillers opened.bodies a

end Arena

/-- Construction steps, one after another. -/
inductive Program where
  | done
  | leaf (recipe : Recipe) (rest : Program)
  | enclose (container : Enclosure) (body rest : Program)
  | branch (cond : StmtId) (thenBody elseBody rest : Program)
deriving DecidableEq, Repr

namespace Program

/-- Carries out a program at the end of a block. -/
def run : Program → Arena.Filler
  | .done, _, a => pure a
  | .leaf r rest, b, a => do
    let a ← Arena.putLeaf r b a
    rest.run b a
  | .enclose c body rest, b, a => do
    let a ← Arena.enclose c.header [body.run] b a
    rest.run b a
  | .branch cond thenBody elseBody rest, b, a => do
    let a ← Arena.enclose (.ifElse cond) [thenBody.run, elseBody.run] b a
    rest.run b a

/-- Carries out a program in a new root block of an arena with nothing in it. -/
def build (p : Program) : Except Fault Arena :=
  let (root, a) := Arena.empty.createBlock
  p.run root a

/-! ## What a program creates and reads -/

/-- How many statements a program creates. -/
def size : Program → Nat
  | .done => 0
  | .leaf _ rest => 1 + rest.size
  | .enclose _ body rest => 1 + body.size + rest.size
  | .branch _ thenBody elseBody rest => 1 + thenBody.size + elseBody.size + rest.size

/-- Whether a program that starts when there are `n` statements reads only statements that it has a
handle of: those created before. A body comes after its container. -/
def Scoped : Nat → Program → Prop
  | _, .done => True
  | n, .leaf r rest => (∀ t ∈ r.kind.operands, t.index < n) ∧ Scoped (n + 1) rest
  | n, .enclose c body rest =>
    (∀ t ∈ c.header.operands, t.index < n) ∧ Scoped (n + 1) body ∧
      Scoped (n + 1 + body.size) rest
  | n, .branch cond thenBody elseBody rest =>
    cond.index < n ∧ Scoped (n + 1) thenBody ∧ Scoped (n + 1 + thenBody.size) elseBody ∧
      Scoped (n + 1 + thenBody.size + elseBody.size) rest

/-- Whether a program gives leaves only kinds that name no blocks. -/
def LeavesHoldNothing : Program → Prop
  | .done => True
  | .leaf r rest => r.kind.children = [] ∧ LeavesHoldNothing rest
  | .enclose _ body rest => LeavesHoldNothing body ∧ LeavesHoldNothing rest
  | .branch _ thenBody elseBody rest =>
    LeavesHoldNothing thenBody ∧ LeavesHoldNothing elseBody ∧ LeavesHoldNothing rest

instance decidableScoped : (n : Nat) → (p : Program) → Decidable (p.Scoped n)
  | _, .done => isTrue trivial
  | n, .leaf r rest =>
    have := decidableScoped (n + 1) rest
    inferInstanceAs (Decidable ((∀ t ∈ r.kind.operands, t.index < n) ∧ rest.Scoped (n + 1)))
  | n, .enclose c body rest =>
    have := decidableScoped (n + 1) body
    have := decidableScoped (n + 1 + body.size) rest
    inferInstanceAs (Decidable ((∀ t ∈ c.header.operands, t.index < n) ∧ body.Scoped (n + 1) ∧
      rest.Scoped (n + 1 + body.size)))
  | n, .branch cond thenBody elseBody rest =>
    have := decidableScoped (n + 1) thenBody
    have := decidableScoped (n + 1 + thenBody.size) elseBody
    have := decidableScoped (n + 1 + thenBody.size + elseBody.size) rest
    inferInstanceAs (Decidable (cond.index < n ∧ thenBody.Scoped (n + 1) ∧
      elseBody.Scoped (n + 1 + thenBody.size) ∧
        rest.Scoped (n + 1 + thenBody.size + elseBody.size)))

instance decidableLeavesHoldNothing : (p : Program) → Decidable p.LeavesHoldNothing
  | .done => isTrue trivial
  | .leaf r rest =>
    have := decidableLeavesHoldNothing rest
    inferInstanceAs (Decidable (r.kind.children = [] ∧ rest.LeavesHoldNothing))
  | .enclose _ body rest =>
    have := decidableLeavesHoldNothing body
    have := decidableLeavesHoldNothing rest
    inferInstanceAs (Decidable (body.LeavesHoldNothing ∧ rest.LeavesHoldNothing))
  | .branch _ thenBody elseBody rest =>
    have := decidableLeavesHoldNothing thenBody
    have := decidableLeavesHoldNothing elseBody
    have := decidableLeavesHoldNothing rest
    inferInstanceAs (Decidable (thenBody.LeavesHoldNothing ∧ elseBody.LeavesHoldNothing ∧
      rest.LeavesHoldNothing))

end Program

end KernelIR
