/-!
# Columns

A column holds one value for every handle, also for handles that have not been issued: those that
were never written hold the default. It is stored as the array of the entries up to the last one
written.
-/

namespace KernelIR

/-- A table with an entry for every index. -/
structure Column (α : Type) where
  entries : Array α
deriving DecidableEq, Repr

namespace Column

variable {α : Type}

/-- The column whose entries are all the default. -/
def empty : Column α := ⟨#[]⟩

instance : Inhabited (Column α) := ⟨empty⟩

/-- The entry at an index. -/
def get [Inhabited α] (c : Column α) (i : Nat) : α :=
  c.entries.getD i default

/-- The column with the entry at `i` set to `a`. -/
def set [Inhabited α] (c : Column α) (i : Nat) (a : α) : Column α :=
  if i < c.entries.size then
    ⟨c.entries.setIfInBounds i a⟩
  else
    ⟨(c.entries ++ Array.replicate (i - c.entries.size) default).push a⟩

/-- The column with the entry at `i` changed by `f`. -/
def modify [Inhabited α] (c : Column α) (i : Nat) (f : α → α) : Column α :=
  c.set i (f (c.get i))

/-! ## Reading after writing -/

variable [Inhabited α]

@[simp] theorem get_empty (i : Nat) : (empty : Column α).get i = default := by
  simp [get, empty]

theorem get_set (c : Column α) (i j : Nat) (a : α) :
    (c.set i a).get j = if i = j then a else c.get j := by
  unfold set get
  split
  case isTrue h =>
    by_cases hij : i = j
    · subst hij
      simp [h]
    · simp [Array.getD_eq_getD_getElem?, hij]
  case isFalse h =>
    simp only [Array.getD_eq_getD_getElem?, Array.getElem?_push, Array.size_append,
      Array.size_replicate, Array.getElem?_append, Array.getElem?_replicate]
    by_cases hij : i = j
    · subst hij
      have : i = c.entries.size + (i - c.entries.size) := by omega
      simp [← this]
    · by_cases hj : j < c.entries.size
      · have : ¬ j = c.entries.size + (i - c.entries.size) := by omega
        simp [hij, hj, this]
      · have : ¬ j = c.entries.size + (i - c.entries.size) := by omega
        simp only [this, hj, hij, if_false]
        split <;> simp [hj]

@[simp] theorem get_set_self (c : Column α) (i : Nat) (a : α) : (c.set i a).get i = a := by
  simp [get_set]

theorem get_set_of_ne (c : Column α) {i j : Nat} (a : α) (h : i ≠ j) :
    (c.set i a).get j = c.get j := by
  simp [get_set, h]

end Column

end KernelIR
