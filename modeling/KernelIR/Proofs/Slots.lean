import KernelIR.Kind
import Mathlib.Data.List.Basic

/-!
# Operand slots

Redirecting changes many operands of a kind at once and nothing else about it. `mapSlots` is that
change in one step: each operand is exchanged by a function of its slot and of what the slot holds.
Exchanging a single operand is the case where the function looks at one slot only.

A kind is asked for its operands in two ways, all at once as a list and one at a time as a slot. The
slots are the places of the list, and exchanging what one of them holds changes that entry and
nothing else that a kind says.
-/

namespace KernelIR

namespace Kind

/-- The kind with each operand exchanged by `f`. -/
def mapSlots (f : Nat → StmtId → StmtId) : Kind → Kind
  | .const value => .const value
  | .unary op x => .unary op (f 0 x)
  | .binary op x y => .binary op (f 0 x) (f 1 y)
  | .alloca => .alloca
  | .localLoad ptr => .localLoad (f 0 ptr)
  | .localStore ptr value => .localStore (f 0 ptr) (f 1 value)
  | .globalPtr snode indices => .globalPtr snode (indices.mapIdx f)
  | .globalLoad ptr => .globalLoad (f 0 ptr)
  | .globalStore ptr value => .globalStore (f 0 ptr) (f 1 value)
  | .loopIndex loop index => .loopIndex (f 0 loop) index
  | .whileControl mask cond => .whileControl (f 0 mask) (f 1 cond)
  | .print value => .print (f 0 value)
  | .ifElse cond thenBody elseBody => .ifElse (f 0 cond) thenBody elseBody
  | .whileLoop body => .whileLoop body
  | .rangeFor start stop body => .rangeFor (f 0 start) (f 1 stop) body
  | .structFor snode body => .structFor snode body

variable (f g : Nat → StmtId → StmtId) (k : Kind)

@[simp] theorem operands_mapSlots : (k.mapSlots f).operands = k.operands.mapIdx f := by
  cases k <;> rfl

@[simp] theorem children_mapSlots : (k.mapSlots f).children = k.children := by
  cases k <;> rfl

@[simp] theorem name_mapSlots : (k.mapSlots f).name = k.name := by
  cases k <;> rfl

@[simp] theorem isContainer_mapSlots : (k.mapSlots f).isContainer = k.isContainer := by
  cases k <;> rfl

theorem mapSlots_mapSlots :
    (k.mapSlots f).mapSlots g = k.mapSlots fun slot x => g slot (f slot x) := by
  cases k with
  | globalPtr snode indices => simp [mapSlots, List.mapIdx_mapIdx, Function.comp_def]
  | _ => rfl

@[simp] theorem mapSlots_id : (k.mapSlots fun _ x => x) = k := by
  cases k with
  | globalPtr snode indices =>
      have h : indices.mapIdx (fun _ x => x) = indices := by
        apply List.ext_getElem <;> simp
      simp [mapSlots, h]
  | _ => rfl

variable {f g k}

/-- Only what `f` does at the slots of the kind matters. -/
theorem mapSlots_congr (h : ∀ slot x, k.operands[slot]? = some x → f slot x = g slot x) :
    k.mapSlots f = k.mapSlots g := by
  -- All kinds but one have a fixed number of slots.
  cases k with
  | globalPtr snode indices =>
      have hmap : indices.mapIdx f = indices.mapIdx g := by
        apply List.ext_getElem
        · simp
        · intro slot h₁ h₂
          have hslot : slot < indices.length := by simpa using h₁
          simpa using h slot indices[slot] (by simp [operands, hslot])
      simp [mapSlots, hmap]
  | binary op x y | localStore x y | globalStore x y | whileControl x y | rangeFor x y body =>
      have h₀ := h 0 x rfl
      have h₁ := h 1 y rfl
      simp [mapSlots, h₀, h₁]
  | unary op x | localLoad x | globalLoad x | loopIndex x index | print x | ifElse x b c =>
      have h₀ := h 0 x rfl
      simp [mapSlots, h₀]
  | _ => rfl

/-! ## One slot -/

theorem mapIdx_eq_set (xs : List StmtId) (i : Nat) (s : StmtId) :
    (xs.mapIdx fun j x => if j = i then s else x) = xs.set i s := by
  apply List.ext_getElem
  · simp
  · intro j h₁ h₂
    simp [List.getElem_set, eq_comm]

/-- A slot holds what stands at its place among the operands, and putting another statement there
is a change of the slots that looks at that one only. -/
theorem slot?_eq (k : Kind) (i : Nat) :
    k.slot? i = k.operands[i]?.map fun x =>
      ⟨x, fun s => k.mapSlots fun j y => if j = i then s else y⟩ := by
  cases k with
  | globalPtr snode indices => simp only [slot?, operands, mapSlots, mapIdx_eq_set]
  | binary op x y | localStore x y | globalStore x y | whileControl x y | rangeFor x y body =>
      rcases i with _ | _ | i <;> rfl
  | unary op x | localLoad x | globalLoad x | loopIndex x index | print x | ifElse x b c =>
      rcases i with _ | i <;> rfl
  | const value | alloca | whileLoop body | structFor snode body => rfl

/-- Exchanging one operand is a change of the slots that looks at that one only. -/
theorem setOperand?_eq_mapSlots {slot : Nat} {s : StmtId} (h : slot < k.operands.length) :
    k.setOperand? slot s = some (k.mapSlots fun i x => if i = slot then s else x) := by
  rw [setOperand?, slot?_eq, List.getElem?_eq_getElem h]
  rfl

/-- A kind holds blocks exactly if it is a container. -/
theorem isContainer_eq_true_iff : k.isContainer = true ↔ k.children ≠ [] := by
  cases k <;> simp [isContainer, children]

/-! ## What a kind says -/

/-- What a kind says besides its mnemonic, its operands and its blocks. -/
inductive Payload where
  | nothing
  | constant (value : Constant)
  | unary (op : UnaryOp)
  | binary (op : BinaryOp)
  | snode (name : String)
  | index (value : UInt32)

def payload : Kind → Payload
  | .const value => .constant value
  | .unary op _ => .unary op
  | .binary op _ _ => .binary op
  | .globalPtr snode _ | .structFor snode _ => .snode snode
  | .loopIndex _ index => .index index
  | _ => .nothing

@[simp] theorem payload_mapSlots (f : Nat → StmtId → StmtId) (k : Kind) :
    (k.mapSlots f).payload = k.payload := by
  cases k <;> rfl

variable {l l' : Kind} {i : Nat} {s : StmtId}

/-- There is nothing else to a kind. -/
theorem eq_of_parts (hname : k.name = l.name) (hoperands : k.operands = l.operands)
    (hchildren : k.children = l.children) (hpayload : k.payload = l.payload) : k = l := by
  -- The mnemonic tells the constructors apart, and the rest lists the arguments.
  cases k <;> cases l <;> simp_all [name, operands, children, payload]
  case ifElse.ifElse cond b c cond' b' c' =>
    cases c <;> cases c' <;> simp_all

/-- `l` has the operands of `k` with `s` at one place, and says the same in everything else. -/
structure FilledAt (k : Kind) (i : Nat) (s : StmtId) (l : Kind) : Prop where
  operands : l.operands = k.operands.set i s
  name : l.name = k.name
  children : l.children = k.children
  isContainer : l.isContainer = k.isContainer
  payload : l.payload = k.payload

theorem filledAt_mapSlots (k : Kind) (i : Nat) (s : StmtId) :
    k.FilledAt i s (k.mapSlots fun j x => if j = i then s else x) where
  operands := by rw [operands_mapSlots, mapIdx_eq_set]
  name := name_mapSlots ..
  children := children_mapSlots ..
  isContainer := isContainer_mapSlots ..
  payload := payload_mapSlots ..

theorem FilledAt.unique (h : k.FilledAt i s l) (h' : k.FilledAt i s l') : l = l' :=
  eq_of_parts (h.name.trans h'.name.symm) (h.operands.trans h'.operands.symm)
    (h.children.trans h'.children.symm) (h.payload.trans h'.payload.symm)

/-- A kind has a slot for each place of its operands, and the slot holds what stands there. Putting
`s` into it gives the one kind that has `s` at that place and is `k` in everything else. The kinds
that hold blocks are the containers. -/
theorem slots_exact (k : Kind) (i : Nat) :
    ((k.slot? i).isSome ↔ i < k.operands.length) ∧
      (∀ p, k.slot? i = some p →
        k.operands[i]? = some p.held ∧ ∀ s l, p.put s = l ↔ k.FilledAt i s l) ∧
      (k.isContainer = true ↔ k.children ≠ []) := by
  refine ⟨?_, ?_, isContainer_eq_true_iff⟩
  · simp [slot?_eq]
  · intro p hp
    rw [slot?_eq] at hp
    rcases Option.map_eq_some_iff.1 hp with ⟨x, hx, rfl⟩
    refine ⟨hx, fun s l => ⟨?_, fun h => (filledAt_mapSlots k i s).unique h⟩⟩
    rintro rfl
    exact filledAt_mapSlots k i s

/-- An address with three indices, of which the second is exchanged. -/
theorem slots_exact_second_index :
    ∃ p, (globalPtr "x" [⟨3⟩, ⟨3⟩, ⟨5⟩]).slot? 1 = some p ∧ p.held = ⟨3⟩ ∧
      p.put ⟨7⟩ = globalPtr "x" [⟨3⟩, ⟨7⟩, ⟨5⟩] ∧
      (globalPtr "x" [⟨3⟩, ⟨3⟩, ⟨5⟩]).slot? 3 = none := by
  rcases slots_exact (globalPtr "x" [⟨3⟩, ⟨3⟩, ⟨5⟩]) 1 with ⟨hslot, hheld, _⟩
  rcases Option.isSome_iff_exists.1 (hslot.2 (by decide)) with ⟨p, hp⟩
  rcases hheld p hp with ⟨hx, hput⟩
  refine ⟨p, hp, ?_, (hput _ _).2 ⟨rfl, rfl, rfl, rfl, rfl⟩, ?_⟩
  · exact (Option.some.inj hx).symm
  · have hnone := (slots_exact (globalPtr "x" [⟨3⟩, ⟨3⟩, ⟨5⟩]) 3).1
    rw [← Option.not_isSome_iff_eq_none, hnone]
    decide

end Kind

end KernelIR
