import KernelIR.Proofs.Arena.Replacing
import Mathlib.Data.Fintype.EquivFin
import Mathlib.Logic.Relation

/-!
# Replacing, field by field

Where no statement is among what it owns itself, every statement owns a definite list of others.
Then replacing is determined by the arena before it: whether it faults, and what becomes of every
kind, link, list of uses and tombstone if it does not.
-/

namespace KernelIR

namespace View

variable {v w : View} {old new s t : StmtId} {doomed : List StmtId}

/-! ## Ownership without cycles -/

/-- The statement `t` stands in a block that `p` owns. -/
def Holds (v : View) (p t : StmtId) : Prop :=
  ∃ b, v.owner? b = some p ∧ t ∈ v.listed b

/-- No statement holds itself, not even through others. -/
def OwnershipAcyclic (v : View) : Prop :=
  ∀ s, ¬ Relation.TransGen v.Holds s s

theorem holds_of_mem_ownedBelow (ht : t ∈ v.ownedBelow s) : v.Holds s t := by
  rcases mem_ownedBelow.1 ht with ⟨b, _, howner, hmem⟩
  exact ⟨b, howner, hmem⟩

theorem Holds.hasStmt (h : v.Holds s t) (hlinked : v.Linked) : v.HasStmt t := by
  rcases h with ⟨b, _, hmem⟩
  exact (hlinked.issued_of_listed b t hmem).1

theorem ownershipAcyclic_of_lt (h : ∀ p t, v.Holds p t → p.index < t.index) :
    v.OwnershipAcyclic := by
  have hchain : ∀ p t, Relation.TransGen v.Holds p t → p.index < t.index := by
    intro p t hpt
    induction hpt with
    | single hlast => exact h _ _ hlast
    | tail _ hlast ih => exact ih.trans (h _ _ hlast)
  exact fun s hs => Nat.lt_irrefl _ (hchain s s hs)

/-- Without cycles the statements are well founded by what holds what, as there are finitely many of
them. -/
theorem OwnershipAcyclic.exists_owns (h : v.OwnershipAcyclic) (hlinked : v.Linked)
    (hs : v.HasStmt s) : ∃ doomed, v.Owns s doomed := by
  let Issued := {s : StmtId // v.HasStmt s}
  have hfinite : Finite Issued := by
    refine Finite.of_injective (fun s : Issued => (⟨s.1.index, s.2⟩ : Fin v.stmtCount)) ?_
    rintro ⟨⟨i⟩, _⟩ ⟨⟨j⟩, _⟩ heq
    have hij : i = j := Fin.mk.inj_iff.1 heq
    subst hij
    rfl
  let below : Issued → Issued → Prop := fun t s => Relation.TransGen v.Holds s.1 t.1
  have htrans : IsTrans Issued below := ⟨fun _ _ _ ht hs => hs.trans ht⟩
  have hirrefl : Std.Irrefl below := ⟨fun s => h s.1⟩
  have hwf : WellFounded below := Finite.wellFounded_of_trans_of_irrefl below
  suffices hall : ∀ s : Issued, ∃ doomed, v.Owns s.1 doomed from hall ⟨s, hs⟩
  intro s
  induction s using hwf.induction with
  | _ s ih =>
      have hinner : ∃ inner, Visits v.Resolves v.ownedBelow (v.ownedBelow s.1) inner := by
        refine Visits.exists_of_forall fun t ht => ?_
        have hholds : v.Holds s.1 t := holds_of_mem_ownedBelow ht
        exact ih ⟨t, hholds.hasStmt hlinked⟩ (.single hholds)
      rcases hinner with ⟨inner, hinner⟩
      exact ⟨_, Visits.singleton_iff.2 ⟨⟨s.2, hlinked.hasBlock_of_child s.1⟩, inner, hinner, rfl⟩⟩

/-! ## What a replacement does -/

/-- The view `w` is `v` with `new` in the place of `old`, which has gone together with `doomed`. -/
structure ReplacedIn (v w : View) (old new : StmtId) (doomed : List StmtId) : Prop where
  stmtCount : w.stmtCount = v.stmtCount
  blockCount : w.blockCount = v.blockCount
  type? : w.type? = v.type?
  owner? : w.owner? = v.owner?
  /-- The new statement has the index that the old one had in its block. -/
  listed_place : ∀ b, v.parent? old = some b →
    old ∈ v.listed b ∧ w.listed b = (v.listed b).set ((v.listed b).idxOf old) new
  listed : ∀ b, v.parent? old ≠ some b → w.listed b = v.listed b
  parent?_new : w.parent? new = v.parent? old
  parent?_doomed : ∀ s ∈ doomed, w.parent? s = none
  parent? : ∀ s ∉ doomed, s ≠ new → w.parent? s = v.parent? s
  erased : ∀ s, w.erased s = true ↔ s ∈ doomed ∨ v.erased s = true
  /-- Every slot that held the old statement holds the new one. -/
  kind?_live : ∀ s, v.erased s = false →
    w.kind? s = (v.kind? s).map (Kind.mapSlots fun _ => turn old new)
  kind?_erased : ∀ s, v.erased s = true → w.kind? s = v.kind? s
  uses_old : w.uses old = []
  uses_new : w.uses new = (v.uses new ++ v.uses old).filter fun u => u.user ∉ doomed
  uses : ∀ s, s ≠ old → s ≠ new → w.uses s = (v.uses s).filter fun u => u.user ∉ doomed

theorem replacedIn_replaced (hlinked : v.Linked) (hne : old ≠ new) (hnew : v.Placeable new)
    (howns : v.Owns old doomed) : v.ReplacedIn (v.replaced old new doomed) old new doomed := by
  have hstays : new ∉ doomed := hlinked.not_mem_owned hnew howns hne
  have hgone : old ∈ doomed := howns.self_mem
  refine
    { stmtCount := stmtCount_replaced v old new doomed
      blockCount := blockCount_replaced v old new doomed
      type? := type_replaced v old new doomed
      owner? := owner_replaced v old new doomed
      listed_place := ?_
      listed := ?_
      parent?_new := ?_
      parent?_doomed := fun s hs => if_pos hs
      parent? := ?_
      erased := ?_
      kind?_live := ?_
      kind?_erased := ?_
      uses_old := ?_
      uses_new := ?_
      uses := ?_ }
  · intro b hb
    refine ⟨hlinked.listed_of_parent hb, ?_⟩
    show (v.settle old new).listed b = _
    rw [settle_of_parent hb]
    exact Function.update_self ..
  · intro b hb
    exact listed_settle_of_ne v hb
  · rw [parent_replaced hnew hstays hgone, if_pos rfl]
  · intro s hs hsn
    rw [parent_replaced hnew hs hgone, if_neg hsn]
  · intro s
    simp [erased_replaced]
  · intro s hlive
    exact kind_replaced_of_live hlive
  · intro s herased
    rw [kind_replaced]
    simp [redirect, herased]
  · rw [uses_replaced]
    simp [redirect, hne]
  · rw [uses_replaced]
    simp [redirect]
  · intro s hso hsn
    rw [uses_replaced]
    simp [redirect, hso, hsn]

/-- Nothing that goes with `old` is read from outside exactly if no live statement outside has an
operand among it, other than `old`. -/
theorem unreadBut_iff : v.UnreadBut old doomed ↔
    ¬ ∃ s t, v.erased s = false ∧ s ∉ doomed ∧ t ∈ v.operands s ∧ t ∈ doomed ∧ t ≠ old := by
  constructor
  · rintro hunread ⟨s, t, hlive, hs, hread, ht, hto⟩
    rcases List.mem_iff_getElem?.1 hread with ⟨slot, hslot⟩
    exact hs (hunread t ht hto ⟨s, slot⟩ (reading?_eq_some.2 ⟨hlive, hslot⟩))
  · intro hnone t ht hto u hu
    rcases reading?_eq_some.1 hu with ⟨hlive, hslot⟩
    by_contra hs
    exact hnone ⟨u.user, t, hlive, hs, List.mem_of_getElem? hslot, ht, hto⟩

end View

namespace Arena.Arises

variable {a : Arena} {old new : StmtId} {doomed : List StmtId}

/-- No statement holds itself in an arena where statements are younger than what owns the block they
are in. -/
theorem ownershipAcyclic_of_younger (h : a.Arises)
    (hyounger : ∀ i < a.blocks.size, ∀ t ∈ a.view.listed ⟨i⟩,
      (a.view.owner? ⟨i⟩).all (·.index < t.index) = true) : a.view.OwnershipAcyclic := by
  refine View.ownershipAcyclic_of_lt ?_
  rintro p t ⟨b, howner, hmem⟩
  have hb : b.index < a.blocks.size :=
    h.linked.hasBlock_of_child p b (h.linked.child_of_owner b p howner)
  have hlt := hyounger b.index hb t hmem
  rw [howner] at hlt
  simpa using hlt

/-- Replacing is determined by what the old statement owns. In an arena without cycles of ownership
it faults exactly if the two statements are one, the new one is erased or attached or reads the old
one, or a live statement outside reads something that would go, other than the old statement.
Otherwise the new statement has the place and the readers of the old one, which has become a
tombstone with all that it owned; nothing else has changed. -/
theorem replace_exact (h : a.Arises) (hacyclic : a.view.OwnershipAcyclic)
    (hold : a.view.HasStmt old) (hnew : a.view.HasStmt new) :
    ∃ doomed, a.owned old = .ok doomed ∧
      ((∃ fault, a.replace old new = .error fault) ↔
        old = new ∨ a.isErased new = true ∨ (∃ b, a.parent new = .ok (some b)) ∨
          old ∈ a.view.operands new ∨
          ∃ s t, a.isErased s = false ∧ s ∉ doomed ∧ t ∈ a.view.operands s ∧ t ∈ doomed ∧
            t ≠ old) ∧
      ∀ e, a.replace old new = .ok e → a.view.ReplacedIn e.arena.view old new doomed := by
  rcases hacyclic.exists_owns h.linked hold with ⟨doomed, howns⟩
  refine ⟨doomed, owned_eq_ok.2 howns, ⟨?_, ?_⟩, ?_⟩
  · rintro ⟨fault, hfault⟩
    by_contra hnone
    simp only [not_or] at hnone
    rcases hnone with ⟨hne, hlive, hdetached, hself, hread⟩
    have hplaceable : a.view.Placeable new := by
      refine ⟨hnew, Bool.eq_false_iff.2 hlive, ?_⟩
      cases hp : a.view.parent? new with
      | none => rfl
      | some b => exact absurd ⟨b, parent_eq_ok.2 ⟨hnew, hp⟩⟩ hdetached
    have hstays := h.linked.not_mem_owned hplaceable howns hne
    have hreads : ∀ t ∈ a.view.operands new, t ∉ doomed := by
      intro t ht hmem
      refine hread ⟨new, t, hplaceable.live, hstays, ht, hmem, ?_⟩
      rintro rfl
      exact hself ht
    rcases (replace_of_owns h hne hplaceable howns hreads).1 (View.unreadBut_iff.2 hread) with
      ⟨e, he, _⟩
    rw [hfault] at he
    cases he
  · intro hblocked
    cases hreplace : a.replace old new with
    | error fault => exact ⟨fault, rfl⟩
    | ok e =>
        rcases of_replace h.indexed hreplace with ⟨hne, hplaceable, ⟨doomed', howns', hreads⟩, _⟩
        rcases replaced_of_replace h hreplace with ⟨_, _, doomed'', howns'', hunread, _⟩
        cases howns.unique howns'
        cases howns.unique howns''
        rcases hblocked with heq | herased | ⟨b, hb⟩ | hself | hread
        · exact absurd heq hne
        · rw [isErased_eq, hplaceable.live] at herased
          cases herased
        · rw [parent_eq_ok, hplaceable.detached] at hb
          cases hb.2
        · exact absurd howns.self_mem (hreads old hself)
        · exact absurd hread (View.unreadBut_iff.1 hunread)
  · intro e hreplace
    rcases replaced_of_replace h hreplace with ⟨hne, hplaceable, doomed', howns', _, hview⟩
    cases howns.unique howns'
    rw [hview]
    exact View.replacedIn_replaced h.linked hne hplaceable howns

end Arena.Arises

namespace Arena

/-- A loop that is read in its body, behind it, and by a detached statement, and a detached
constant. -/
def readInLoop : Arena := ofEdits
  [.createBlock, .createBlock, .createStmt (.whileLoop ⟨1⟩) .void, .push ⟨0⟩ ⟨0⟩,
    .createStmt (.print ⟨0⟩) .void, .push ⟨1⟩ ⟨1⟩,
    .createStmt (.print ⟨0⟩) .void, .push ⟨0⟩ ⟨2⟩,
    .createStmt (.const (.int 0)) .i32, .createStmt (.print ⟨0⟩) .void]

theorem replace_exact_read_in_loop :
    readInLoop.Arises ∧ readInLoop.view.OwnershipAcyclic ∧
      readInLoop.view.HasStmt ⟨0⟩ ∧ readInLoop.view.HasStmt ⟨3⟩ ∧ readInLoop.view.HasStmt ⟨4⟩ ∧
      readInLoop.owned ⟨0⟩ = .ok [⟨0⟩, ⟨1⟩] ∧
      (∃ fault, readInLoop.replace ⟨0⟩ ⟨4⟩ = .error fault) ∧
      ∃ e, readInLoop.replace ⟨0⟩ ⟨3⟩ = .ok e ∧
        readInLoop.view.ReplacedIn e.arena.view ⟨0⟩ ⟨3⟩ [⟨0⟩, ⟨1⟩] ∧
        e.arena.usesOf ⟨3⟩ = [⟨⟨2⟩, 0⟩, ⟨⟨4⟩, 0⟩] := by
  have harises : readInLoop.Arises := arises_ofEdits _
  have hloop : readInLoop.view.HasStmt ⟨0⟩ := by decide +kernel
  have hconst : readInLoop.view.HasStmt ⟨3⟩ := by decide +kernel
  have hprint : readInLoop.view.HasStmt ⟨4⟩ := by decide +kernel
  have howned : readInLoop.owned ⟨0⟩ = .ok [⟨0⟩, ⟨1⟩] := by decide +kernel
  have hacyclic : readInLoop.view.OwnershipAcyclic :=
    harises.ownershipAcyclic_of_younger (by decide +kernel)
  have hfaults : ∃ fault, readInLoop.replace ⟨0⟩ ⟨4⟩ = .error fault := by
    rcases harises.replace_exact hacyclic hloop hprint with ⟨_, _, hiff, _⟩
    exact hiff.2 (.inr (.inr (.inr (.inl (by decide +kernel)))))
  rcases harises.replace_exact hacyclic hloop hconst with ⟨doomed, howned', _, hreplaced⟩
  rw [howned] at howned'
  cases howned'
  cases hreplace : readInLoop.replace ⟨0⟩ ⟨3⟩ with
  | error fault =>
      have hok : (readInLoop.replace ⟨0⟩ ⟨3⟩).toBool = true := by decide +kernel
      rw [hreplace] at hok
      cases hok
  | ok e =>
      have heffect := hreplaced e hreplace
      refine ⟨harises, hacyclic, hloop, hconst, hprint, howned, hfaults, e, rfl, heffect, ?_⟩
      have huses := heffect.uses_new
      have hboth : (readInLoop.view.uses ⟨3⟩ ++ readInLoop.view.uses ⟨0⟩).filter
          (fun u => u.user ∉ [⟨0⟩, ⟨1⟩]) = [⟨⟨2⟩, 0⟩, ⟨⟨4⟩, 0⟩] := by decide +kernel
      exact huses.trans hboth

end Arena

end KernelIR
