import KernelIR.Proofs.Arena.Exactness

/-!
# Erasing, field by field

Erasing is determined by what the statement owns. It faults exactly if the statement is in a block
or if a live statement outside reads something that goes. If it does not fault, all that goes is
marked and detached, and no use by it is recorded any more; kinds, block lists and owners stay as
they were. What a block holds that nothing among them owns is not touched, however deep below the
erased statement the block was released.
-/

namespace KernelIR

namespace View

variable {v w : View} {s t : StmtId} {doomed : List StmtId}

/-- The view `w` is `v` after `doomed` has gone. -/
structure ErasedIn (v w : View) (doomed : List StmtId) : Prop where
  stmtCount : w.stmtCount = v.stmtCount
  blockCount : w.blockCount = v.blockCount
  kind? : w.kind? = v.kind?
  type? : w.type? = v.type?
  listed : w.listed = v.listed
  owner? : w.owner? = v.owner?
  erased : ∀ t, w.erased t = true ↔ t ∈ doomed ∨ v.erased t = true
  parent?_doomed : ∀ t ∈ doomed, w.parent? t = none
  parent? : ∀ t ∉ doomed, w.parent? t = v.parent? t
  /-- Of each list the uses by others are left, in their order. -/
  uses : ∀ t, w.uses t = (v.uses t).filter fun u => u.user ∉ doomed
  /-- A block that none of `doomed` owns keeps its statements alive. -/
  live_of_released : ∀ b, (∀ p ∈ doomed, v.owner? b ≠ some p) → ∀ t ∈ v.listed b,
    v.erased t = false → w.erased t = false

/-- What goes stands in a block of something that goes, apart from the statement that is erased,
which is in no block. -/
theorem Owns.not_mem_of_released (howns : v.Owns s doomed) (hlinked : v.Linked)
    (hdetached : v.parent? s = none) {b : BlockId} (hreleased : ∀ p ∈ doomed, v.owner? b ≠ some p)
    (ht : t ∈ v.listed b) (hlive : v.erased t = false) : t ∉ doomed := by
  intro hmem
  rcases howns.mem_cases hmem with rfl | ⟨p, hp, c, _, howner, hlisted⟩
  · rw [(hlinked.parent_iff t hlive b).2 ht] at hdetached
    cases hdetached
  · have hbc : b = c := hlinked.listed_once b c t ht hlisted
    exact hreleased p hp (hbc ▸ howner)

theorem erasedIn_erase (hlinked : v.Linked) (hdetached : v.parent? s = none)
    (howns : v.Owns s doomed) : v.ErasedIn (v.erase doomed) doomed := by
  have herased : ∀ t, (v.erase doomed).erased t = (decide (t ∈ doomed) || v.erased t) :=
    fun _ => rfl
  refine
    { stmtCount := rfl
      blockCount := rfl
      kind? := rfl
      type? := rfl
      listed := rfl
      owner? := rfl
      erased := fun t => by simp [herased]
      parent?_doomed := fun t ht => if_pos ht
      parent? := fun t ht => if_neg ht
      uses := fun _ => rfl
      live_of_released := ?_ }
  intro b hreleased t ht hlive
  have hstays := howns.not_mem_of_released hlinked hdetached hreleased ht hlive
  simp [herased, hstays, hlive]

/-- By an exact index nothing outside reads what goes exactly if no live statement outside has an
operand among it. -/
theorem Indexed.unread_iff (h : v.Indexed) : v.Unread doomed ↔
    ¬ ∃ t x, v.erased t = false ∧ t ∉ doomed ∧ x ∈ v.operands t ∧ x ∈ doomed := by
  constructor
  · rintro hunread ⟨t, x, hlive, ht, hread, hx⟩
    rcases List.mem_iff_getElem?.1 hread with ⟨slot, hslot⟩
    have huse : (⟨t, slot⟩ : Use) ∈ v.uses x :=
      (h.mem_uses x _).2 (reading?_eq_some.2 ⟨hlive, hslot⟩)
    exact ht (hunread x hx _ huse)
  · intro hnone x hx u hu
    rcases reading?_eq_some.1 ((h.mem_uses x u).1 hu) with ⟨hlive, hslot⟩
    by_contra hout
    exact hnone ⟨u.user, x, hlive, hout, List.mem_of_getElem? hslot, hx⟩

end View

namespace Arena

variable {a : Arena} {s : StmtId}

/-- Erasing is determined by what the statement owns. In an arena without cycles of ownership it
faults exactly if the statement is attached or a live statement outside reads something that would
go. Otherwise what goes has joined the tombstones and is detached, the lists of uses have lost the
uses by it, and nothing else has changed. -/
theorem Arises.erase_exact (h : a.Arises) (hacyclic : a.view.OwnershipAcyclic)
    (hs : a.view.HasStmt s) :
    ∃ doomed, a.owned s = .ok doomed ∧
      ((∃ fault, a.erase s = .error fault) ↔
        (∃ b, a.parent s = .ok (some b)) ∨
          ∃ t x, a.isErased t = false ∧ t ∉ doomed ∧ x ∈ a.view.operands t ∧ x ∈ doomed) ∧
      ∀ e, a.erase s = .ok e → a.view.ErasedIn e.arena.view doomed := by
  rcases hacyclic.exists_owns h.linked hs with ⟨doomed, howns⟩
  refine ⟨doomed, owned_eq_ok.2 howns, ⟨?_, ?_⟩, ?_⟩
  · rintro ⟨fault, hfault⟩
    cases hp : a.view.parent? s with
    | some b => exact .inl ⟨b, parent_eq_ok.2 ⟨hs, hp⟩⟩
    | none =>
        -- A detached statement can be erased unless something outside reads what goes.
        refine .inr ?_
        by_contra hnone
        rcases (erase_of_owns h.indexed hp howns).1 (h.indexed.unread_iff.2 hnone) with ⟨e, he, _⟩
        rw [hfault] at he
        cases he
  · intro hblocked
    cases herase : a.erase s with
    | error fault => exact ⟨fault, rfl⟩
    | ok e =>
        rcases of_erase h.indexed herase with ⟨hdetached, doomed', howns', hunread, _⟩
        cases howns.unique howns'
        rcases hblocked with ⟨b, hb⟩ | hread
        · rw [parent_eq_ok, hdetached] at hb
          cases hb.2
        · exact absurd hread (h.indexed.unread_iff.1 hunread)
  · intro e herase
    rcases of_erase h.indexed herase with ⟨hdetached, doomed', howns', _, hview, _⟩
    cases howns.unique howns'
    rw [hview]
    exact View.erasedIn_erase h.linked hdetached howns

/-- A detached loop that is read in its own body and that once held another loop with a body, which
was released; a detached constant that is printed in a block. -/
def releasedBody : Arena := ofEdits
  [.createBlock, .createBlock, .createBlock, .createStmt (.whileLoop ⟨1⟩) .void,
    .createStmt (.whileLoop ⟨2⟩) .void, .push ⟨1⟩ ⟨1⟩,
    .createStmt (.const (.int 1)) .i32, .push ⟨2⟩ ⟨2⟩, .detachBlock ⟨2⟩,
    .createStmt (.loopIndex ⟨0⟩ 0) .i32, .push ⟨1⟩ ⟨3⟩,
    .createStmt (.print ⟨2⟩) .void, .push ⟨1⟩ ⟨4⟩,
    .createStmt (.const (.int 2)) .i32, .createStmt (.print ⟨5⟩) .void, .push ⟨0⟩ ⟨6⟩]

theorem erase_exact_released_body :
    releasedBody.Arises ∧ releasedBody.view.OwnershipAcyclic ∧
      releasedBody.view.HasStmt ⟨0⟩ ∧ releasedBody.view.HasStmt ⟨5⟩ ∧
      releasedBody.owned ⟨0⟩ = .ok [⟨0⟩, ⟨1⟩, ⟨3⟩, ⟨4⟩] ∧
      (∃ fault, releasedBody.erase ⟨5⟩ = .error fault) ∧
      ∃ e, releasedBody.erase ⟨0⟩ = .ok e ∧
        releasedBody.view.ErasedIn e.arena.view [⟨0⟩, ⟨1⟩, ⟨3⟩, ⟨4⟩] ∧
        e.arena.isErased ⟨2⟩ = false ∧ e.arena.usesOf ⟨2⟩ = [] := by
  have harises : releasedBody.Arises := arises_ofEdits _
  have hloop : releasedBody.view.HasStmt ⟨0⟩ := by decide +kernel
  have hconst : releasedBody.view.HasStmt ⟨5⟩ := by decide +kernel
  have howned : releasedBody.owned ⟨0⟩ = .ok [⟨0⟩, ⟨1⟩, ⟨3⟩, ⟨4⟩] := by decide +kernel
  have hacyclic : releasedBody.view.OwnershipAcyclic :=
    harises.ownershipAcyclic_of_younger (by decide +kernel)
  have hfaults : ∃ fault, releasedBody.erase ⟨5⟩ = .error fault := by
    rcases harises.erase_exact hacyclic hconst with ⟨doomed, howned', hiff, _⟩
    have hself : releasedBody.owned ⟨5⟩ = .ok [⟨5⟩] := by decide +kernel
    rw [hself] at howned'
    cases howned'
    exact hiff.2 (.inr ⟨⟨6⟩, ⟨5⟩, by decide +kernel⟩)
  rcases harises.erase_exact hacyclic hloop with ⟨doomed, howned', _, heffect⟩
  rw [howned] at howned'
  cases howned'
  cases herase : releasedBody.erase ⟨0⟩ with
  | error fault =>
      have hok : (releasedBody.erase ⟨0⟩).toBool = true := by decide +kernel
      rw [herase] at hok
      cases hok
  | ok e =>
      have hin := heffect e herase
      refine ⟨harises, hacyclic, hloop, hconst, howned, hfaults, e, rfl, hin, ?_, ?_⟩
      · -- The constant stands in the released body.
        exact hin.live_of_released ⟨2⟩ (by decide +kernel) ⟨2⟩ (by decide +kernel)
          (by decide +kernel)
      · have hnone : (releasedBody.view.uses ⟨2⟩).filter
            (fun u => u.user ∉ [⟨0⟩, ⟨1⟩, ⟨3⟩, ⟨4⟩]) = [] := by decide +kernel
        exact (hin.uses ⟨2⟩).trans hnone

end Arena

end KernelIR
