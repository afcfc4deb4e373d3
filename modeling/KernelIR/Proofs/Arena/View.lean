import KernelIR.Arena.Edit
import KernelIR.Proofs.Fallible
import KernelIR.Proofs.Slots
import Mathlib.Logic.Function.Basic

/-!
# The view of an arena

The tables of an arena, read as functions of the handles. A handle that was never created has no
kind, no parent, no owner, and lists nothing, so a view can be read everywhere and reading it never
faults. Each reader of an arena is one field of its view where it does not fault, and each writer of
one entry is the update of one field.
-/

namespace KernelIR

/-- An arena as functions of the handles. -/
@[ext] structure View where
  stmtCount : Nat
  blockCount : Nat
  kind? : StmtId → Option Kind
  type? : StmtId → Option ScalarType
  parent? : StmtId → Option BlockId
  listed : BlockId → List StmtId
  owner? : BlockId → Option StmtId
  uses : StmtId → List Use
  erased : StmtId → Bool

def Arena.view (a : Arena) : View where
  stmtCount := a.stmts.size
  blockCount := a.blocks.size
  kind? s := a.stmts[s.index]?.map Stmt.kind
  type? s := a.stmts[s.index]?.map Stmt.ty
  parent? s := a.stmts[s.index]?.bind Stmt.parent
  listed b := (a.blocks[b.index]?.map Block.stmts).getD []
  owner? b := a.blocks[b.index]?.bind Block.owner
  uses := a.usesOf
  erased := a.isErased

namespace View

variable (v : View)

def HasStmt (s : StmtId) : Prop := s.index < v.stmtCount

def HasBlock (b : BlockId) : Prop := b.index < v.blockCount

instance (s : StmtId) : Decidable (v.HasStmt s) := inferInstanceAs (Decidable (_ < _))

instance (b : BlockId) : Decidable (v.HasBlock b) := inferInstanceAs (Decidable (_ < _))

def operands (s : StmtId) : List StmtId :=
  (v.kind? s).elim [] Kind.operands

def children (s : StmtId) : List BlockId :=
  (v.kind? s).elim [] Kind.children

/-- What a slot holds, if its user is live. -/
def reading? (u : Use) : Option StmtId :=
  if v.erased u.user then none else (v.operands u.user)[u.slot]?

/-! ## One field changed -/

def createBlock : View :=
  { v with blockCount := v.blockCount + 1 }

def addStmt (k : Kind) (ty : ScalarType) : View :=
  { v with
    stmtCount := v.stmtCount + 1
    kind? := Function.update v.kind? ⟨v.stmtCount⟩ (some k)
    type? := Function.update v.type? ⟨v.stmtCount⟩ (some ty) }

def setKind (s : StmtId) (k : Kind) : View :=
  { v with kind? := Function.update v.kind? s (some k) }

def setParent (s : StmtId) (p : Option BlockId) : View :=
  { v with parent? := Function.update v.parent? s p }

def setListing (b : BlockId) (ss : List StmtId) : View :=
  { v with listed := Function.update v.listed b ss }

def setOwner (b : BlockId) (o : Option StmtId) : View :=
  { v with owner? := Function.update v.owner? b o }

def setUses (s : StmtId) (us : List Use) : View :=
  { v with uses := Function.update v.uses s us }

def markErased (s : StmtId) : View :=
  { v with erased := Function.update v.erased s true }

/-! ## What a handle stands for -/

variable {v}

theorem operands_of_kind {s : StmtId} {k : Kind} (h : v.kind? s = some k) :
    v.operands s = k.operands := by
  simp [operands, h]

theorem children_of_kind {s : StmtId} {k : Kind} (h : v.kind? s = some k) :
    v.children s = k.children := by
  simp [children, h]

theorem reading?_eq_some {u : Use} {t : StmtId} :
    v.reading? u = some t ↔ v.erased u.user = false ∧ (v.operands u.user)[u.slot]? = some t := by
  cases h : v.erased u.user <;> simp [reading?, h]

end View

namespace Arena

variable {a : Arena}

/-! ## Reading -/

theorem kind_eq_ok {s : StmtId} {k : Kind} : a.kind s = .ok k ↔ a.view.kind? s = some k := by
  simp only [kind, stmt, view]
  cases a.stmts[s.index]? <;> simp

theorem type_eq_ok {s : StmtId} {ty : ScalarType} :
    a.type s = .ok ty ↔ a.view.type? s = some ty := by
  simp only [type, stmt, view]
  cases a.stmts[s.index]? <;> simp

theorem parent_eq_ok {s : StmtId} {p : Option BlockId} :
    a.parent s = .ok p ↔ a.view.HasStmt s ∧ a.view.parent? s = p := by
  simp only [parent, stmt, view, View.HasStmt]
  by_cases h : s.index < a.stmts.size <;> simp [h]

theorem listing_eq_ok {b : BlockId} {ss : List StmtId} :
    a.listing b = .ok ss ↔ a.view.HasBlock b ∧ a.view.listed b = ss := by
  simp only [listing, block, view, View.HasBlock]
  by_cases h : b.index < a.blocks.size <;> simp [h]

theorem owner_eq_ok {b : BlockId} {o : Option StmtId} :
    a.owner b = .ok o ↔ a.view.HasBlock b ∧ a.view.owner? b = o := by
  simp only [owner, block, view, View.HasBlock]
  by_cases h : b.index < a.blocks.size <;> simp [h]

theorem block_eq_ok {b : BlockId} {data : Block} :
    a.block b = .ok data ↔
      a.view.HasBlock b ∧ a.view.listed b = data.stmts ∧ a.view.owner? b = data.owner := by
  rcases data with ⟨stmts, owner⟩
  simp only [block, view, View.HasBlock]
  by_cases h : b.index < a.blocks.size
  · rcases hb : a.blocks[b.index] with ⟨stmts', owner'⟩
    simp [h, hb]
  · simp [h]

theorem isErased_eq (a : Arena) (s : StmtId) : a.isErased s = a.view.erased s := rfl

theorem kind_isSome_iff (a : Arena) (s : StmtId) :
    (a.view.kind? s).isSome = true ↔ a.view.HasStmt s := by
  simp [view, View.HasStmt]

theorem exists_kind_iff {s : StmtId} : (∃ k, a.view.kind? s = some k) ↔ a.view.HasStmt s := by
  rw [← kind_isSome_iff, Option.isSome_iff_exists]

theorem exists_type_of_hasStmt {s : StmtId} (hs : a.view.HasStmt s) :
    ∃ ty, a.view.type? s = some ty := by
  have hsize : s.index < a.stmts.size := hs
  exact ⟨a.stmts[s.index].ty, by simp [view, hsize]⟩

theorem parent_of_not_hasStmt {s : StmtId} (h : ¬ a.view.HasStmt s) :
    a.view.parent? s = none := by
  have hsize : a.stmts.size ≤ s.index := Nat.le_of_not_lt h
  simp [view, hsize]

/-! ## Writing -/

theorem stmtIndex_eq_iff {s t : StmtId} : s.index = t.index ↔ t = s := by
  cases s
  cases t
  simp [eq_comm]

theorem blockIndex_eq_iff {b c : BlockId} : b.index = c.index ↔ c = b := by
  cases b
  cases c
  simp [eq_comm]

theorem view_empty : empty.view =
    { stmtCount := 0, blockCount := 0, kind? := fun _ => none, type? := fun _ => none,
      parent? := fun _ => none, listed := fun _ => [], owner? := fun _ => none,
      uses := fun _ => [], erased := fun _ => false } := by
  ext1
  case uses =>
    funext t
    simp [view, empty, usesOf]
    rfl
  case erased =>
    funext t
    simp [view, empty, isErased]
  all_goals simp [view, empty]

theorem view_createBlock (a : Arena) :
    a.createBlock.2.view = a.view.createBlock := by
  -- A new block lists nothing and has no owner, and that is what is read where there is no block.
  have hlisted : ∀ b : BlockId, a.createBlock.2.view.listed b = a.view.listed b := by
    intro b
    simp only [createBlock, view, Array.getElem?_push]
    split
    case isTrue h => simp [h]
    case isFalse => rfl
  have howner : ∀ b : BlockId, a.createBlock.2.view.owner? b = a.view.owner? b := by
    intro b
    simp only [createBlock, view, Array.getElem?_push]
    split
    case isTrue h => simp [h]
    case isFalse => rfl
  ext1
  case listed => exact funext hlisted
  case owner? => exact funext howner
  case blockCount => exact Array.size_push _
  all_goals rfl

/-- The arena with one more statement, detached and with nothing else recorded. -/
def addStmt (a : Arena) (k : Kind) (ty : ScalarType) : Arena :=
  { a with stmts := a.stmts.push ⟨k, ty, none⟩ }

theorem view_addStmt (a : Arena) (k : Kind) (ty : ScalarType) :
    (a.addStmt k ty).view = a.view.addStmt k ty := by
  have hat : ∀ s : StmtId, s.index = a.stmts.size ↔ s = ⟨a.stmts.size⟩ := by
    intro s
    cases s
    simp
  ext1
  case kind? =>
    funext s
    simp only [addStmt, view, View.addStmt, Array.getElem?_push, hat, Function.update_apply]
    split <;> rfl
  case type? =>
    funext s
    simp only [addStmt, view, View.addStmt, Array.getElem?_push, hat, Function.update_apply]
    split <;> rfl
  case parent? =>
    funext s
    simp only [addStmt, view, View.addStmt, Array.getElem?_push]
    split
    case isTrue h => simp [h]
    case isFalse => rfl
  all_goals simp [view, addStmt, View.addStmt] <;> rfl

theorem view_setKind {s : StmtId} (h : a.view.HasStmt s) (k : Kind) :
    (a.setKind s k).view = a.view.setKind s k := by
  have hs : s.index < a.stmts.size := h
  ext1
  case kind? =>
    funext t
    simp only [setKind, modifyStmt, view, View.setKind, Array.getElem?_modify, stmtIndex_eq_iff,
      Function.update_apply]
    split
    case isTrue ht => simp [ht, hs]
    case isFalse => rfl
  case type? =>
    funext t
    simp only [setKind, modifyStmt, view, View.setKind, Array.getElem?_modify]
    split <;> simp [Function.comp_def]
  case parent? =>
    funext t
    simp only [setKind, modifyStmt, view, View.setKind, Array.getElem?_modify]
    split
    case isTrue => cases a.stmts[t.index]? <;> rfl
    case isFalse => rfl
  all_goals simp [view, setKind, modifyStmt, View.setKind] <;> rfl

theorem view_setParent {s : StmtId} (h : a.view.HasStmt s) (p : Option BlockId) :
    (a.setParent s p).view = a.view.setParent s p := by
  have hs : s.index < a.stmts.size := h
  ext1
  case kind? =>
    funext t
    simp only [setParent, modifyStmt, view, View.setParent, Array.getElem?_modify]
    split <;> simp [Function.comp_def]
  case type? =>
    funext t
    simp only [setParent, modifyStmt, view, View.setParent, Array.getElem?_modify]
    split <;> simp [Function.comp_def]
  case parent? =>
    funext t
    simp only [setParent, modifyStmt, view, View.setParent, Array.getElem?_modify,
      stmtIndex_eq_iff, Function.update_apply]
    split
    case isTrue ht => simp [ht, hs]
    case isFalse => rfl
  all_goals simp [view, setParent, modifyStmt, View.setParent] <;> rfl

theorem view_setListing {b : BlockId} (h : a.view.HasBlock b) (ss : List StmtId) :
    (a.setListing b ss).view = a.view.setListing b ss := by
  have hb : b.index < a.blocks.size := h
  ext1
  case listed =>
    funext c
    simp only [setListing, modifyBlock, view, View.setListing, Array.getElem?_modify,
      blockIndex_eq_iff, Function.update_apply]
    split
    case isTrue hc => simp [hc, hb]
    case isFalse => rfl
  case owner? =>
    funext c
    simp only [setListing, modifyBlock, view, View.setListing, Array.getElem?_modify]
    split
    case isTrue => cases a.blocks[c.index]? <;> rfl
    case isFalse => rfl
  all_goals simp [view, setListing, modifyBlock, View.setListing] <;> rfl

theorem view_setOwner {b : BlockId} (h : a.view.HasBlock b) (o : Option StmtId) :
    (a.setOwner b o).view = a.view.setOwner b o := by
  have hb : b.index < a.blocks.size := h
  ext1
  case listed =>
    funext c
    simp only [setOwner, modifyBlock, view, View.setOwner, Array.getElem?_modify]
    split <;> simp [Function.comp_def]
  case owner? =>
    funext c
    simp only [setOwner, modifyBlock, view, View.setOwner, Array.getElem?_modify,
      blockIndex_eq_iff, Function.update_apply]
    split
    case isTrue hc => simp [hc, hb]
    case isFalse => rfl
  all_goals simp [view, setOwner, modifyBlock, View.setOwner] <;> rfl

theorem view_setUses (a : Arena) (s : StmtId) (us : List Use) :
    (a.setUses s us).view = a.view.setUses s us := by
  have huses : (a.setUses s us).usesOf = Function.update a.usesOf s us := by
    funext t
    rw [usesOf_setUses, Function.update_apply]
    simp only [eq_comm]
  ext1
  case uses => exact huses
  all_goals rfl

theorem view_markErased (a : Arena) (s : StmtId) :
    (a.markErased s).view = a.view.markErased s := by
  have herased : (a.markErased s).isErased = Function.update a.isErased s true := by
    funext t
    rw [isErased_markErased, Function.update_apply]
    by_cases h : s = t
    · simp [h]
    · simp [h, Ne.symm h]
  ext1
  case erased => exact herased
  all_goals rfl

end Arena

end KernelIR
