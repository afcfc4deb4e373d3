import KernelIR.Proofs.Arena.Links

/-!
# Redirecting by a scan

Redirecting walks the use list of the old statement and trusts each entry to name a slot that holds
it. A scan trusts no list: it visits every statement that is live and looks at each of its slots.
Both leave the same statements, whatever reads the old one and however often, since the index of
uses is exact.
-/

namespace KernelIR

open View (turn)

namespace Kind

/-! ## One slot after another -/

/-- The kind with `new` in one slot, if that slot holds `old`. -/
def turnSlot (old new : StmtId) (k : Kind) (slot : Nat) : Kind :=
  if k.operands[slot]? = some old then (k.setOperand? slot new).getD k else k

/-- The kind after a look at each of its slots in turn. -/
def turnSlots (old new : StmtId) (k : Kind) : Kind :=
  (List.range k.operands.length).foldl (turnSlot old new) k

variable {old new : StmtId}

theorem turnSlot_eq_mapSlots (k : Kind) (slot : Nat) :
    k.turnSlot old new slot = k.mapSlots fun i x => if i = slot then turn old new x else x := by
  by_cases hold : k.operands[slot]? = some old
  · have hslot : slot < k.operands.length := (List.getElem?_eq_some_iff.1 hold).1
    rw [turnSlot, if_pos hold, setOperand?_eq_mapSlots hslot, Option.getD_some]
    refine mapSlots_congr fun i x hx => ?_
    by_cases hi : i = slot
    · subst hi
      cases hold.symm.trans hx
      simp
    · simp [hi]
  · -- The slot holds something else, if there is such a slot, and turning leaves that alone.
    have hkept : (k.mapSlots fun i x => if i = slot then turn old new x else x) =
        k.mapSlots fun _ x => x := by
      refine mapSlots_congr fun i x hx => ?_
      by_cases hi : i = slot
      · subst hi
        have hne : x ≠ old := fun heq => hold (heq ▸ hx)
        simp [View.turn_of_ne hne]
      · simp [hi]
    rw [turnSlot, if_neg hold, hkept, mapSlots_id]

/-- Looking at the slots below `n` turns what they hold, and nothing above. -/
theorem foldl_turnSlot (k : Kind) (n : Nat) :
    (List.range n).foldl (turnSlot old new) k =
      k.mapSlots fun i x => if i < n then turn old new x else x := by
  induction n with
  | zero => simp
  | succ n ih =>
      rw [List.range_succ, List.foldl_append, ih, List.foldl_cons, List.foldl_nil,
        turnSlot_eq_mapSlots, mapSlots_mapSlots]
      refine mapSlots_congr fun i x _ => ?_
      rcases Nat.lt_trichotomy i n with hlt | rfl | hgt
      · have hne : i ≠ n := Nat.ne_of_lt hlt
        simp [hlt, hne, Nat.lt_succ_of_lt hlt]
      · simp
      · have hnot : ¬ i < n := Nat.not_lt_of_gt hgt
        have hne : i ≠ n := Nat.ne_of_gt hgt
        have hnot' : ¬ i < n + 1 := by omega
        simp [hnot, hne, hnot']

/-- Slot by slot, every occurrence of `old` is turned to `new`. -/
theorem turnSlots_eq_mapSlots (k : Kind) :
    k.turnSlots old new = k.mapSlots fun _ => turn old new := by
  rw [turnSlots, foldl_turnSlot]
  refine mapSlots_congr fun i x hx => ?_
  rw [if_pos (List.getElem?_eq_some_iff.1 hx).1]

end Kind

namespace Arena

variable {a b : Arena} {old new s : StmtId}

/-! ## Tables and views -/

/-- The table of statements is what a view says of them. -/
theorem stmts_eq_of_view (hcount : a.view.stmtCount = b.view.stmtCount)
    (hkind : a.view.kind? = b.view.kind?) (htype : a.view.type? = b.view.type?)
    (hparent : a.view.parent? = b.view.parent?) : a.stmts = b.stmts := by
  refine Array.ext hcount fun i hi hi' => ?_
  have hk : some a.stmts[i].kind = some b.stmts[i].kind := by
    simpa [view, hi, hi'] using congrFun hkind ⟨i⟩
  have ht : some a.stmts[i].ty = some b.stmts[i].ty := by
    simpa [view, hi, hi'] using congrFun htype ⟨i⟩
  have hp : a.stmts[i].parent = b.stmts[i].parent := by
    simpa [view, hi, hi'] using congrFun hparent ⟨i⟩
  rcases hx : a.stmts[i] with ⟨kind, ty, parent⟩
  rcases hy : b.stmts[i] with ⟨kind', ty', parent'⟩
  rw [hx, hy] at hk ht hp
  cases hk
  cases ht
  cases hp
  rfl

/-- The table of blocks is what a view says of them. -/
theorem blocks_eq_of_view (hcount : a.view.blockCount = b.view.blockCount)
    (hlisted : a.view.listed = b.view.listed) (howner : a.view.owner? = b.view.owner?) :
    a.blocks = b.blocks := by
  refine Array.ext hcount fun i hi hi' => ?_
  have hl : a.blocks[i].stmts = b.blocks[i].stmts := by
    simpa [view, hi, hi'] using congrFun hlisted ⟨i⟩
  have ho : a.blocks[i].owner = b.blocks[i].owner := by
    simpa [view, hi, hi'] using congrFun howner ⟨i⟩
  rcases hx : a.blocks[i] with ⟨stmts, owner⟩
  rcases hy : b.blocks[i] with ⟨stmts', owner'⟩
  rw [hx, hy] at hl ho
  cases hl
  cases ho
  rfl

/-! ## The scan -/

/-- The arena after a visit to every statement: a tombstone stays as it is, and of a live one each
slot that holds `old` gets `new`. The lists of uses are neither read nor written. -/
def redirectByScan (a : Arena) (old new : StmtId) : Arena :=
  { a with
    stmts := a.stmts.mapIdx fun i data =>
      if a.isErased ⟨i⟩ then data else { data with kind := data.kind.turnSlots old new } }

theorem kind_redirectByScan (a : Arena) (old new s : StmtId) :
    (a.redirectByScan old new).view.kind? s = (a.view.redirect old new).kind? s := by
  rcases s with ⟨i⟩
  have herased : a.view.erased ⟨i⟩ = a.isErased ⟨i⟩ := rfl
  by_cases hi : i < a.stmts.size
  · cases hlive : a.isErased ⟨i⟩ <;>
      simp [redirectByScan, view, View.redirect, hi, hlive, Kind.turnSlots_eq_mapSlots]
  · simp [redirectByScan, view, View.redirect, hi]

theorem type_redirectByScan (a : Arena) (old new s : StmtId) :
    (a.redirectByScan old new).view.type? s = a.view.type? s := by
  rcases s with ⟨i⟩
  by_cases hi : i < a.stmts.size
  · cases hlive : a.isErased ⟨i⟩ <;> simp [redirectByScan, view, hi, hlive]
  · simp [redirectByScan, view, hi]

theorem parent_redirectByScan (a : Arena) (old new s : StmtId) :
    (a.redirectByScan old new).view.parent? s = a.view.parent? s := by
  rcases s with ⟨i⟩
  by_cases hi : i < a.stmts.size
  · cases hlive : a.isErased ⟨i⟩ <;> simp [redirectByScan, view, hi, hlive]
  · simp [redirectByScan, view, hi]

/-- Redirecting never faults, and leaves the statements that a scan leaves. The readers of `old` are
recorded for `new`, behind its own and in their order; the other lists, the links, the blocks and the
tombstones are as they were. -/
theorem Arises.redirect_eq_scan (h : a.Arises) (hne : old ≠ new) :
    ∃ a', a.redirect old new = .ok a' ∧ a'.stmts = (a.redirectByScan old new).stmts ∧
      a'.usesOf old = [] ∧ a'.usesOf new = a.usesOf new ++ a.usesOf old ∧
      (∀ t, t ≠ old → t ≠ new → a'.usesOf t = a.usesOf t) ∧
      (∀ t, a'.view.parent? t = a.view.parent? t) ∧ a'.blocks = a.blocks ∧
      ∀ t, a'.isErased t = a.isErased t := by
  rcases exists_redirect h.indexed hne with ⟨a', hredirect, hview⟩
  have hstmts : a'.stmts = (a.redirectByScan old new).stmts := by
    refine stmts_eq_of_view ?_ ?_ ?_ ?_
    · rw [hview]
      exact Array.size_mapIdx.symm
    · rw [hview]
      exact funext fun s => (kind_redirectByScan a old new s).symm
    · rw [hview]
      exact funext fun s => (type_redirectByScan a old new s).symm
    · rw [hview]
      exact funext fun s => (parent_redirectByScan a old new s).symm
  have huses : a'.usesOf = (a.view.redirect old new).uses := congrArg View.uses hview
  refine ⟨a', hredirect, hstmts, ?_, ?_, ?_, ?_, ?_, ?_⟩
  · simp [huses, View.redirect, hne]
  · rw [huses]
    exact Function.update_self ..
  · intro t hto htn
    simp only [huses, View.redirect, Function.update_of_ne htn, Function.update_of_ne hto]
    rfl
  · intro t
    exact congrFun (congrArg View.parent? hview) t
  · refine blocks_eq_of_view ?_ ?_ ?_
    · exact (congrArg View.blockCount hview :)
    · exact (congrArg View.listed hview :)
    · exact (congrArg View.owner? hview :)
  · intro t
    exact congrFun (congrArg View.erased hview) t

/-- A sum that reads itself twice, a tombstone that read it, and an address that reads it twice and
itself once. -/
def selfReading : Arena := ofEdits
  [.createBlock, .createStmt (.binary .add ⟨0⟩ ⟨0⟩) .i32, .push ⟨0⟩ ⟨0⟩,
    .createStmt (.print ⟨0⟩) .void, .erase ⟨1⟩,
    .createStmt (.globalPtr "x" [⟨0⟩, ⟨2⟩, ⟨0⟩]) .i64]

theorem redirect_eq_scan_self_reading :
    selfReading.Arises ∧ ∃ a', selfReading.redirect ⟨0⟩ ⟨2⟩ = .ok a' ∧
      a'.kind ⟨0⟩ = .ok (.binary .add ⟨2⟩ ⟨2⟩) ∧ a'.kind ⟨1⟩ = .ok (.print ⟨0⟩) ∧
      a'.kind ⟨2⟩ = .ok (.globalPtr "x" [⟨2⟩, ⟨2⟩, ⟨2⟩]) ∧ a'.usesOf ⟨0⟩ = [] ∧
      a'.usesOf ⟨2⟩ = [⟨⟨2⟩, 1⟩, ⟨⟨0⟩, 0⟩, ⟨⟨0⟩, 1⟩, ⟨⟨2⟩, 0⟩, ⟨⟨2⟩, 2⟩] := by
  have harises : selfReading.Arises := arises_ofEdits _
  have hne : (⟨0⟩ : StmtId) ≠ ⟨2⟩ := by decide
  rcases harises.redirect_eq_scan hne with ⟨a', hredirect, hstmts, hold, hnew, _⟩
  have hkind : ∀ s, a'.kind s = (selfReading.redirectByScan ⟨0⟩ ⟨2⟩).kind s := by
    intro s
    simp only [kind, stmt, hstmts]
  have huses : selfReading.usesOf ⟨2⟩ ++ selfReading.usesOf ⟨0⟩ =
      [⟨⟨2⟩, 1⟩, ⟨⟨0⟩, 0⟩, ⟨⟨0⟩, 1⟩, ⟨⟨2⟩, 0⟩, ⟨⟨2⟩, 2⟩] := by decide +kernel
  exact ⟨harises, a', hredirect, (hkind _).trans (by decide +kernel),
    (hkind _).trans (by decide +kernel), (hkind _).trans (by decide +kernel), hold,
    hnew.trans huses⟩

end Arena

end KernelIR
