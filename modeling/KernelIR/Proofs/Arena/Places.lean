import KernelIR.Proofs.Arena.Replacing

/-!
# Places

Every statement is in at most one place. However an arena came about, all its block lists taken
together list no statement twice, a live statement names the block that lists it, and the blocks
that a statement holds are those that it was created with. So what stands somewhere is found there,
and replacing never loses the position of the old statement.
-/

namespace KernelIR

namespace View

variable {v v' : View} {s : StmtId}

/-- All block lists, one after another. -/
def allListed (v : View) : List StmtId :=
  (List.range v.blockCount).flatMap fun i => v.listed ⟨i⟩

theorem Linked.nodup_allListed (h : v.Linked) : v.allListed.Nodup := by
  refine List.nodup_flatMap.2 ⟨fun i _ => h.nodup_listed ⟨i⟩, ?_⟩
  refine List.nodup_range.imp ?_
  intro i j hij s hi hj
  exact hij (congrArg BlockId.index (h.listed_once ⟨i⟩ ⟨j⟩ s hi hj))

/-! ## The blocks of a statement -/

/-- A step takes no statement away, and changes none of the blocks that it holds. -/
theorem Step.children (hstep : Step v v') (hs : v.HasStmt s) :
    v'.HasStmt s ∧ v'.children s = v.children s := by
  cases hstep with
  | createStmt ty _ _ _ =>
      have hne : s ≠ ⟨v.stmtCount⟩ := by
        rintro rfl
        exact Nat.lt_irrefl _ hs
      exact ⟨Nat.lt_succ_of_lt hs, by simp [View.children, View.createStmt, hne]⟩
  | redirect _ => exact ⟨hs, children_redirect v _ _ s⟩
  | _ => exact ⟨hs, rfl⟩

theorem Steps.children (hsteps : Steps v v') (hs : v.HasStmt s) :
    v'.HasStmt s ∧ v'.children s = v.children s := by
  induction hsteps with
  | refl => exact ⟨hs, rfl⟩
  | tail _ hlast ih =>
      rcases hlast.children ih.1 with ⟨hs', hsame⟩
      exact ⟨hs', hsame.trans ih.2⟩

end View

namespace Arena

variable {a : Arena}

/-! ## Positions are found -/

/-- Reading an entry of a statement fails only where there is no statement. -/
theorem fault_of_stmt {α : Type} {f : Stmt → α} {s : StmtId} {fault : Fault}
    (h : (a.stmt s >>= fun data => pure (f data)) = .error fault) :
    ∃ length index, fault = .outOfRange length index := by
  rw [stmt] at h
  split at h <;> cases h
  exact ⟨_, _, rfl⟩

theorem fault_of_block {b : BlockId} {fault : Fault} (h : a.block b = .error fault) :
    ∃ length index, fault = .outOfRange length index := by
  rw [block] at h
  split at h <;> cases h
  exact ⟨_, _, rfl⟩

/-- What a statement owns is listed, unless it contains itself or was never created. -/
theorem fault_of_owned {s : StmtId} {fault : Fault} (h : a.owned s = .error fault) :
    fault = .selfContaining ∨ ∃ length index, fault = .outOfRange length index := by
  rw [owned] at h
  -- On the levels that are left: the descent runs out of them only in a cycle.
  generalize a.blocks.size + 1 = depth at h
  induction depth generalizing s with
  | zero =>
      cases h
      exact .inl rfl
  | succ depth ih =>
      have hunfold : a.ownedWithin (depth + 1) s = a.kind s >>= fun k =>
          gather (fun b => a.block b >>= fun data =>
              if data.owner = some s then gather (a.ownedWithin depth) data.stmts else pure [])
            k.children >>= fun inner => pure (s :: inner) := by
        simp [ownedWithin, gather]
      simp only [hunfold, bind_eq_error] at h
      rcases h with hs | ⟨k, _, hchildren | ⟨inner, _, hdone⟩⟩
      · exact .inr (fault_of_stmt (f := Stmt.kind) hs)
      · rcases exists_of_gather_eq_error hchildren with ⟨b, _, hb⟩
        rcases bind_eq_error.1 hb with hb | ⟨data, _, hdata⟩
        · exact .inr (fault_of_block hb)
        · split at hdata
          · rcases exists_of_gather_eq_error hdata with ⟨t, _, ht⟩
            exact ih ht
          · cases hdata
      · cases hdone

theorem requirePlaceable_ne_positionLost (p : Placement) (s : StmtId) :
    a.requirePlaceable p s ≠ .error .positionLost := by
  intro h
  rw [requirePlaceable] at h
  split at h
  · cases h
  · rcases bind_eq_error.1 h with hparent | ⟨place, _, hplace⟩
    · rcases fault_of_stmt (f := Stmt.parent) hparent with ⟨_, _, hfault⟩
      cases hfault
    · cases place <;> cases hplace

/-- The place of an attached statement is found in the block that it names. -/
theorem Arises.exists_position (h : a.Arises) {s : StmtId} {b : BlockId}
    (hp : a.view.parent? s = some b) : ∃ i, a.position? b s = .ok (some i) := by
  rcases h.linked.place_of_parent hp with ⟨hb, hmem⟩
  refine ⟨(a.view.listed b).idxOf s, ?_⟩
  rw [position?, listing_eq_ok.2 ⟨hb, rfl⟩, ok_bind, idxOf?_of_mem hmem]
  rfl

/-- Whatever else is wrong with a replacement, the old statement is found where it stands. -/
theorem Arises.replace_ne_positionLost (h : a.Arises) (old new : StmtId) :
    a.replace old new ≠ .error .positionLost := by
  intro hlost
  by_cases hne : old = new
  · simp [replace, hne] at hlost
  · have hopen := hlost
    simp only [replace, if_neg hne, bind_eq_error] at hopen
    -- The tests before the exchange have faults of their own.
    rcases hopen with hrequire | ⟨_, hrequire, howned | ⟨doomed, howned, hkind | ⟨k, hk, hrest⟩⟩⟩
    · exact requirePlaceable_ne_positionLost _ _ hrequire
    · rcases fault_of_owned howned with hfault | ⟨_, _, hfault⟩ <;> cases hfault
    · rcases fault_of_stmt (f := Stmt.kind) hkind with ⟨_, _, hfault⟩
      cases hfault
    · cases hfind : k.operands.find? (doomed.contains ·) with
      | some operand =>
          rw [hfind] at hrest
          cases hrest
      | none =>
          -- Past the tests a replacement is either carried out or found to be read from outside.
          have hnew := requirePlaceable_eq_ok.1 hrequire
          have howns := owned_eq_ok.1 howned
          have hreads : ∀ t ∈ a.view.operands new, t ∉ doomed := by
            intro t ht
            rw [View.operands_of_kind (kind_eq_ok.1 hk)] at ht
            simpa using List.find?_eq_none.1 hfind t ht
          rcases replace_of_owns h hne hnew howns hreads with ⟨hok, hfault⟩
          by_cases hunread : a.view.UnreadBut old doomed
          · rcases hok hunread with ⟨e, he, _⟩
            rw [hlost] at he
            cases he
          · rcases hfault hunread with ⟨t, _, n, herror⟩
            rw [hlost] at herror
            cases herror

/-! ## Arenas that arise -/

/-- The ownership of an arena that arises: all block lists together have no repetition; a live
statement names a block exactly if the block lists it, and a tombstone names none; a block is held
by its owner; no sequence of edits changes the blocks that a statement holds. So an attached
statement has a position, and replacing never misses it. -/
theorem Arises.in_one_place (h : a.Arises) :
    a.view.allListed.Nodup ∧
      (∀ s, a.isErased s = false → ∀ b, a.view.parent? s = some b ↔ s ∈ a.view.listed b) ∧
      (∀ s, a.isErased s = true → a.view.parent? s = none) ∧
      (∀ b s, a.view.owner? b = some s → b ∈ a.view.children s) ∧
      (∀ edits a', (Edit.applyAll a edits).result = .ok a' →
        ∀ s, a.view.HasStmt s → a'.view.children s = a.view.children s) ∧
      (∀ s b, a.view.parent? s = some b → ∃ i, a.position? b s = .ok (some i)) ∧
      ∀ old new, a.replace old new ≠ .error .positionLost := by
  have hlinked := h.linked
  refine ⟨hlinked.nodup_allListed, hlinked.parent_iff, hlinked.parent_of_erased,
    hlinked.child_of_owner, ?_, fun s b hp => h.exists_position hp, h.replace_ne_positionLost⟩
  intro edits a' hedits s hs
  have hsteps := Edit.steps_of_applyAll h.indexed hedits
  exact (hsteps.children hs).2

/-- A loop that took over the body of another one, which is erased twice, gives way to a constant,
and its body goes with it. -/
def afterDiscardedBody : Arena := ofEdits
  [.createBlock, .createBlock, .createStmt (.whileLoop ⟨1⟩) .void, .push ⟨0⟩ ⟨0⟩,
    .createStmt (.const (.int 1)) .i32, .push ⟨1⟩ ⟨1⟩, .detachBlock ⟨1⟩,
    .createStmt (.whileLoop ⟨1⟩) .void, .replace ⟨0⟩ ⟨2⟩, .erase ⟨0⟩,
    .createStmt (.const (.int 0)) .i32, .replace ⟨2⟩ ⟨3⟩]

theorem in_one_place_after_discarded_body :
    afterDiscardedBody.Arises ∧ afterDiscardedBody.view.allListed = [⟨3⟩, ⟨1⟩] ∧
      afterDiscardedBody.view.allListed.Nodup ∧
      afterDiscardedBody.view.parent? ⟨3⟩ = some ⟨0⟩ ∧
      afterDiscardedBody.view.parent? ⟨1⟩ = none ∧
      afterDiscardedBody.view.owner? ⟨1⟩ = some ⟨2⟩ ∧ ⟨1⟩ ∈ afterDiscardedBody.view.children ⟨2⟩ ∧
      ∃ i, afterDiscardedBody.position? ⟨0⟩ ⟨3⟩ = .ok (some i) := by
  have harises : afterDiscardedBody.Arises := arises_ofEdits _
  rcases harises.in_one_place with ⟨hnodup, hparent, herased, howner, _, hposition, _⟩
  have hlisted : ⟨3⟩ ∈ afterDiscardedBody.view.listed ⟨0⟩ := by decide +kernel
  have hattached := (hparent ⟨3⟩ (by decide +kernel) ⟨0⟩).2 hlisted
  have howned : afterDiscardedBody.view.owner? ⟨1⟩ = some ⟨2⟩ := by decide +kernel
  exact ⟨harises, by decide +kernel, hnodup, hattached, herased ⟨1⟩ (by decide +kernel), howned,
    howner _ _ howned, hposition _ _ hattached⟩

end Arena

end KernelIR
