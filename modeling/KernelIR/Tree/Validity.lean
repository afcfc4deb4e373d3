import KernelIR.Tree.Walk

/-!
# Validity

A tree is valid if the links of the arena agree with each other wherever the descent from its root
leads. *Ownership*: every statement is met once, is not erased, and names the block that lists it;
every block names the container that holds it. *Usages*: every operand is live and attached (or the
root itself), and the lists of uses and the operands say the same in both directions.

The checks report every defect that they find, in the order of the descent.
-/

namespace KernelIR

/-! ## Defects -/

inductive OwnershipDefect where
  /-- A block lists a statement that names another parent. -/
  | strayParent (stmt : StmtId) (block : BlockId) (parent : Option BlockId)
  | repeated (stmt : StmtId)
  | erased (stmt : StmtId)
  /-- A container holds a block that names another owner. -/
  | strayOwner (block : BlockId) (stmt : StmtId) (owner : Option StmtId)
deriving DecidableEq, Repr

def OwnershipDefect.text : OwnershipDefect → String
  | .strayParent stmt block parent =>
    s!"{stmt} is listed in {block} but its parent is " ++ optionText parent
  | .repeated stmt => s!"{stmt} is reachable more than once"
  | .erased stmt => s!"erased {stmt} is still reachable"
  | .strayOwner block stmt owner =>
    s!"{block} is a child of {stmt} but its owner is " ++ optionText owner

/-- An operand that was erased. -/
structure StaleOperand where
  user : StmtId
  /-- The mnemonic of the user. -/
  userKind : String
  slot : Nat
  target : StmtId
deriving DecidableEq, Repr

def StaleOperand.text (d : StaleOperand) : String :=
  s!"operand #{d.slot} of {d.userKind} ({d.user}) references erased {d.target}"

/-- A live operand that no block holds. -/
structure DetachedOperand where
  user : StmtId
  slot : Nat
  target : StmtId
deriving DecidableEq, Repr

def DetachedOperand.text (d : DetachedOperand) : String :=
  s!"operand #{d.slot} of {d.user} reads {d.target}, which is not attached to any block"

/-- A disagreement between operands and use lists. -/
inductive UseDefect where
  /-- An operand whose reading is not recorded. -/
  | unrecorded (user : StmtId) (slot : Nat) (target : StmtId)
  /-- A recorded reading by an erased statement, or of a slot that holds something else. -/
  | unfounded (target : StmtId) (use : Use) (actual : Option StmtId)
deriving DecidableEq, Repr

def UseDefect.text : UseDefect → String
  | .unrecorded user slot target =>
    s!"operand #{slot} of {user} reads {target} but no usage entry exists"
  | .unfounded target use actual =>
    s!"usage entry for {target} claims operand #{use.slot} of {use.user}, which reads " ++
      optionText actual

/-! ## Reports -/

/-- Everything found wrong with a tree. -/
structure Report where
  ownership : List OwnershipDefect
  stale : List StaleOperand
  detached : List DetachedOperand
  uses : List UseDefect
deriving DecidableEq, Repr

namespace Report

def isOk (r : Report) : Bool :=
  r.ownership.isEmpty && r.stale.isEmpty && r.detached.isEmpty && r.uses.isEmpty

def count (r : Report) : Nat :=
  r.ownership.length + r.stale.length + r.detached.length + r.uses.length

/-- A heading with the number of defects, then a line for each; nothing if there are none. -/
def sectionText (title : String) (texts : List String) : String :=
  match texts with
  | [] => ""
  | texts =>
    toString texts.length ++ " " ++ title ++ " found:\n" ++
      String.join (texts.map fun text => "  - " ++ text ++ "\n")

def text (r : Report) : String :=
  if r.isOk then
    "validation passed"
  else
    sectionText "ownership error(s)" (r.ownership.map OwnershipDefect.text) ++
      sectionText "stale usage(s)" (r.stale.map StaleOperand.text) ++
      sectionText "detached usage(s)" (r.detached.map DetachedOperand.text) ++
      sectionText "use-chain error(s)" (r.uses.map UseDefect.text)

end Report

namespace Arena

/-! ## Ownership -/

/-- The statements met so far. -/
abbrev Seen := Column Bool

/-- Checks each statement that a block lists: it has to name the block, and passes `check`. -/
def listingDefects (a : Arena) (check : StmtId → StateT Seen (Except Fault) (List OwnershipDefect))
    (b : BlockId) : StateT Seen (Except Fault) (List OwnershipDefect) := do
  let inside ← (← a.listing b).mapM fun s => do
    let parent ← a.parent s
    let stray := if parent = some b then [] else [OwnershipDefect.strayParent s b parent]
    return stray ++ (← check s)
  return inside.flatten

/-- Checks a statement and what is below it, through `depth` levels. A statement met before is
reported and not entered again, so one level for every statement suffices, even if some block is
inside itself. -/
def ownershipWithin (a : Arena) :
    Nat → StmtId → StateT Seen (Except Fault) (List OwnershipDefect)
  | 0, _ => throw .selfContaining
  | depth + 1, s => do
    if (← get).get s.index then
      return [.repeated s]
    modify (·.set s.index true)
    let tombstone := if a.isErased s then [OwnershipDefect.erased s] else []
    let below ← (← a.kind s).children.mapM fun b => do
      let owner ← a.owner b
      let stray := if owner = some s then [] else [OwnershipDefect.strayOwner b s owner]
      return stray ++ (← a.listingDefects (a.ownershipWithin depth) b)
    return tombstone ++ below.flatten

/-- Checks the links of ownership in the tree at a root. -/
def ownershipDefects (a : Arena) (root : Node) : Except Fault (List OwnershipDefect) :=
  let check := a.ownershipWithin (a.stmts.size + 1)
  let defects : StateT Seen (Except Fault) (List OwnershipDefect) :=
    match root with
    | .block b => a.listingDefects check b
    | .stmt s => check s
  defects.run' Column.empty

/-! ## Usages -/

/-- Every operand in a list of statements, with its user and slot. -/
def operandsOf (a : Arena) (ss : List StmtId) : Except Fault (List (StmtId × Use)) := do
  return (← ss.mapM fun s => do
    return (← a.kind s).operands.zipIdx.map fun (target, slot) => (target, ⟨s, slot⟩)).flatten

/-- Operands that are erased. -/
def staleOperand? (a : Arena) (target : StmtId) (use : Use) : Except Fault (Option StaleOperand) := do
  if a.isErased target then
    return some ⟨use.user, (← a.kind use.user).name, use.slot, target⟩
  else
    return none

/-- Operands that are live but in no block. Those that read the root are fine: it may be detached
itself. -/
def detachedOperand? (a : Arena) (root : Node) (target : StmtId) (use : Use) :
    Except Fault (Option DetachedOperand) := do
  if a.isErased target then
    return none
  match ← a.parent target with
  | some _ => return none
  | none => return if root = .stmt target then none else some ⟨use.user, use.slot, target⟩

/-- Operands whose reading is not recorded. -/
def unrecorded? (a : Arena) (target : StmtId) (use : Use) : Option UseDefect :=
  if use ∈ a.usesOf target then none else some (.unrecorded use.user use.slot target)

/-- Recorded readings that are not there. -/
def unfounded? (a : Arena) (target : StmtId) (use : Use) : Except Fault (Option UseDefect) := do
  let actual := (← a.kind use.user).operands[use.slot]?
  if a.isErased use.user || actual ≠ some target then
    return some (.unfounded target use actual)
  else
    return none

/-- Checks operands and use lists in the tree at a root. -/
def usageReport (a : Arena) (root : Node) : Except Fault Report := do
  let reachable ← a.collect root
  let readings ← a.operandsOf reachable
  let stale ← readings.filterMapM fun (target, use) => a.staleOperand? target use
  let detached ← readings.filterMapM fun (target, use) => a.detachedOperand? root target use
  let unrecorded := readings.filterMap fun (target, use) => a.unrecorded? target use
  let unfounded ← reachable.mapM fun target => (a.usesOf target).filterMapM (a.unfounded? target)
  return {
    ownership := []
    stale := stale
    detached := detached
    uses := unrecorded ++ unfounded.flatten }

/-! ## Both -/

def ownershipReport (a : Arena) (root : Node) : Except Fault Report :=
  return ⟨← a.ownershipDefects root, [], [], []⟩

/-- Checks the tree at a root in every respect. -/
def validate (a : Arena) (root : Node) : Except Fault Report := do
  let ownership ← a.ownershipDefects root
  let usages ← a.usageReport root
  return { usages with ownership := ownership }

/-- A checkpoint: a defect at this point is a fault. -/
def requireValid (a : Arena) (checkpoint : String) (root : Node) : Except Fault Unit := do
  let report ← a.validate root
  if !report.isOk then
    throw (.invalidTree checkpoint report.text)

end Arena

end KernelIR
