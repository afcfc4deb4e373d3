import KernelIR.Proofs.Arena.Nesting

/-!
# Steps of a view

What the operations of an arena do, seen from outside. A step is one of eight changes of a view,
each with what has to hold for it to be made. Every operation that does not fault is one step,
except that replacing is three: the readers turn to the new statement, it takes the place of the old
one, and the old one is erased. Invariants of arenas are proved for the steps.
-/

namespace KernelIR

namespace View

variable (v : View)

/-! ## Conditions -/

/-- Nothing outside `doomed` reads anything in it. -/
def Unread (doomed : List StmtId) : Prop :=
  ∀ t ∈ doomed, ∀ u ∈ v.uses t, u.user ∈ doomed

/-- `s` is live and in no block. -/
structure Placeable (s : StmtId) : Prop where
  hasStmt : v.HasStmt s
  live : v.erased s = false
  detached : v.parent? s = none

/-! ## Changes -/

/-- The uses of `t` by a statement `s` of kind `k`. -/
def usesBy (s : StmtId) (k : Kind) (t : StmtId) : List Use :=
  ((Arena.readings s k).filter fun reading => reading.1 = t).map Prod.snd

def createStmt (k : Kind) (ty : ScalarType) : View :=
  { v with
    stmtCount := v.stmtCount + 1
    kind? := Function.update v.kind? ⟨v.stmtCount⟩ (some k)
    type? := Function.update v.type? ⟨v.stmtCount⟩ (some ty)
    owner? := fun b => if b ∈ k.children then some ⟨v.stmtCount⟩ else v.owner? b
    uses := fun t => v.uses t ++ usesBy ⟨v.stmtCount⟩ k t }

def insert (b : BlockId) (i : Nat) (s : StmtId) : View :=
  { v with
    listed := Function.update v.listed b ((v.listed b).insertIdx i s)
    parent? := Function.update v.parent? s (some b) }

def remove (b : BlockId) (s : StmtId) : View :=
  { v with
    listed := Function.update v.listed b ((v.listed b).filter (· ≠ s))
    parent? := if v.parent? s = some b then Function.update v.parent? s none else v.parent? }

def release (b : BlockId) : View :=
  { v with owner? := Function.update v.owner? b none }

/-- `new` for `old`, everything else as it is. -/
def turn (old new x : StmtId) : StmtId :=
  if x = old then new else x

@[simp] theorem turn_self (old new : StmtId) : turn old new old = new :=
  if_pos rfl

theorem turn_of_ne {old x : StmtId} (h : x ≠ old) (new : StmtId) : turn old new x = x :=
  if_neg h

/-- Renaming twice is renaming at once if the name in between does not occur. -/
theorem map_turn_turn {mid : StmtId} {xs : List StmtId} (hmid : mid ∉ xs) (old new : StmtId) :
    (xs.map (turn old mid)).map (turn mid new) = xs.map (turn old new) := by
  rw [List.map_map]
  refine List.map_congr_left fun x hx => ?_
  by_cases hxo : x = old
  · subst hxo
    simp
  · have hxm : x ≠ mid := fun heq => hmid (heq ▸ hx)
    simp [turn_of_ne hxo, turn_of_ne hxm]

/-- Every live reader of `old` reads `new`. Tombstones keep what they held. -/
def redirect (old new : StmtId) : View :=
  { v with
    kind? := fun t =>
      if v.erased t then v.kind? t else (v.kind? t).map (Kind.mapSlots fun _ => turn old new)
    uses := Function.update (Function.update v.uses old []) new (v.uses new ++ v.uses old) }

def exchange (b : BlockId) (old new : StmtId) : View :=
  { v with
    listed := Function.update v.listed b ((v.listed b).set ((v.listed b).idxOf old) new)
    parent? := Function.update (Function.update v.parent? new (some b)) old none }

def erase (doomed : List StmtId) : View :=
  { v with
    parent? := fun t => if t ∈ doomed then none else v.parent? t
    erased := fun t => decide (t ∈ doomed) || v.erased t
    uses := fun t => (v.uses t).filter fun u => u.user ∉ doomed }

/-! ## Steps -/

inductive Step : View → View → Prop
  | createBlock (v : View) : Step v v.createBlock
  | createStmt {v : View} {k : Kind} (ty : ScalarType) :
      (∀ t ∈ k.operands, v.erased t = false) → k.children.Nodup →
        (∀ b ∈ k.children, v.HasBlock b ∧ v.owner? b = none) → Step v (v.createStmt k ty)
  | insert {v : View} {b : BlockId} {i : Nat} {s : StmtId} :
      v.Placeable s → v.HasBlock b → i ≤ (v.listed b).length → Step v (v.insert b i s)
  | remove {v : View} {b : BlockId} {s : StmtId} :
      v.HasBlock b → v.HasStmt s → Step v (v.remove b s)
  | release {v : View} {b : BlockId} : v.HasBlock b → Step v (v.release b)
  | redirect {v : View} {old new : StmtId} : old ≠ new → Step v (v.redirect old new)
  | exchange {v : View} {b : BlockId} {old new : StmtId} :
      v.Placeable new → v.parent? old = some b → old ∈ v.listed b → old ≠ new →
        Step v (v.exchange b old new)
  | erase {v : View} {s : StmtId} {doomed : List StmtId} :
      v.parent? s = none → v.Owns s doomed → v.Unread doomed → Step v (v.erase doomed)

end View

end KernelIR
