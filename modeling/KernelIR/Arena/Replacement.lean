import KernelIR.Arena.Ownership
import KernelIR.Arena.Placement

/-!
# Redirecting, erasing, replacing

Redirecting turns every reader of one statement to another. Erasing turns a detached statement, with
all that it owns, into tombstones, provided that nothing else reads any of them. Replacing does both:
the readers of the old statement turn to the new one, the new one takes its place, and the old one is
erased with what it still owns.
-/

namespace KernelIR

namespace Arena

/-! ## Redirecting -/

/-- Turns one recorded reading of `old` to `new`. -/
def redirectUse (old new : StmtId) (a : Arena) (u : Use) : Except Fault Arena := do
  let k ← a.kind u.user
  let some p := k.slot? u.slot | throw .slotMissing
  if p.held ≠ old then
    throw (.slotMismatch p.held old)
  pure ((a.setKind u.user (p.put new)).addUse new u)

/-- Turns every recorded reading of `old` to `new`, walking only the use list of `old`. -/
def redirect (a : Arena) (old new : StmtId) : Except Fault Arena :=
  if old = new then
    pure a
  else
    (a.usesOf old).foldlM (redirectUse old new) (a.setUses old [])

/-! ## Erasing -/

/-- Removes one reading from the use list of what it reads. -/
def dropUse (a : Arena) (operand : StmtId) (u : Use) : Arena :=
  a.setUses operand ((a.usesOf operand).filter (· ≠ u))

/-- Removes every reading by `s`. -/
def dropUses (a : Arena) (s : StmtId) : Except Fault Arena := do
  let k ← a.kind s
  pure ((readings s k).foldl (fun a (operand, u) => a.dropUse operand u) a)

/-- Turns an unread statement into a tombstone. -/
def bury (a : Arena) (s : StmtId) : Except Fault Arena :=
  match (a.usesOf s).length with
  | 0 => pure ((a.markErased s).setParent s none)
  | n + 1 => throw (.erasedUsed s (n + 1))

/-- An arena after an erasure, with the number of statements that went besides the one named. -/
structure Erasure where
  arena : Arena
  discarded : Nat

/-- Erases a detached statement and everything that it owns. All their readings are dropped before
any of them is tested for readers, so statements that only read one another can go together. -/
def erase (a : Arena) (s : StmtId) : Except Fault Erasure := do
  if let some b ← a.parent s then
    throw (.erasedAttached s b)
  let doomed ← a.owned s
  let a ← doomed.foldlM dropUses a
  let a ← doomed.foldlM bury a
  pure ⟨a, doomed.length - 1⟩

/-! ## Replacing -/

/-- Puts `new` where `b` first lists `old`. -/
def exchange (a : Arena) (b : BlockId) (old new : StmtId) : Except Fault Arena := do
  let stmts ← a.listing b
  let some i := stmts.idxOf? old | throw .positionLost
  pure (((a.setListing b (stmts.set i new)).setParent new (some b)).setParent old none)

/-- Replaces `old` by the detached statement `new`, which may read nothing that goes with `old`. -/
def replace (a : Arena) (old new : StmtId) : Except Fault Erasure := do
  if old = new then
    throw (.replacedByItself old)
  a.requirePlaceable .replace new
  let doomed ← a.owned old
  if let some operand := (← a.kind new).operands.find? (doomed.contains ·) then
    throw (.replacementReads new operand old)
  let place ← a.parent old
  let a ← a.redirect old new
  let a ← match place with
    | some b => a.exchange b old new
    | none => pure a
  a.erase old

end Arena

end KernelIR
