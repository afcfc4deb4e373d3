import KernelIR.Proofs.Arena.Exactness

/-!
# Replacements that commute

Two statements of which neither owns the other can be replaced in either order. What the one
replacement discards is not changed by the other, so each field of the arena is updated twice in
ways that do not meet: blocks list the same statements, readers are turned to the same ones, and of
each list of uses the same entries are left, in the same order. Only a tombstone tells the orders
apart, by what it held when it was discarded.
-/

namespace KernelIR

/-- The kind without what its operands are. -/
def Kind.shape (k : Kind) : Kind :=
  k.mapSlots fun _ _ => ⟨0⟩

@[simp] theorem Kind.shape_mapSlots (f : Nat → StmtId → StmtId) (k : Kind) :
    (k.mapSlots f).shape = k.shape :=
  mapSlots_mapSlots f _ k

namespace View

variable {v w : View} {s s' t t' x : StmtId} {here there : List StmtId}

/-- The two views agree up to the operands of tombstones. -/
structure SameLive (v w : View) : Prop where
  stmtCount : v.stmtCount = w.stmtCount
  blockCount : v.blockCount = w.blockCount
  kind?_live : ∀ x, v.erased x = false → v.kind? x = w.kind? x
  kind?_shape : ∀ x, (v.kind? x).map Kind.shape = (w.kind? x).map Kind.shape
  type? : v.type? = w.type?
  parent? : v.parent? = w.parent?
  listed : v.listed = w.listed
  owner? : v.owner? = w.owner?
  uses : v.uses = w.uses
  erased : v.erased = w.erased

/-- The replacements of `s` by `s'` and of `t` by `t'` are about four different statements. -/
structure Apart (s s' t t' : StmtId) : Prop where
  old_old : s ≠ t
  old_new : s ≠ t'
  new_old : s' ≠ t
  new_new : s' ≠ t'

/-! ## One field at a time -/

theorem turn_comm (hapart : Apart s s' t t') (x : StmtId) :
    turn t t' (turn s s' x) = turn s s' (turn t t' x) := by
  by_cases hxs : x = s
  · subst hxs
    rw [turn_self, turn_of_ne hapart.new_old, turn_of_ne hapart.old_old, turn_self]
  · rw [turn_of_ne hxs]
    by_cases hxt : x = t
    · subst hxt
      rw [turn_self, turn_of_ne hapart.old_new.symm]
    · rw [turn_of_ne hxt, turn_of_ne hxs]

/-- The lists of uses after those of `old` have gone over to `new`. -/
def turnLists (old new : StmtId) (f : StmtId → List Use) : StmtId → List Use :=
  Function.update (Function.update f old []) new (f new ++ f old)

/-- The lists of uses without those by `doomed`. -/
def dropLists (doomed : List StmtId) (f : StmtId → List Use) : StmtId → List Use :=
  fun x => (f x).filter fun u => u.user ∉ doomed

theorem turnLists_of_ne {old new : StmtId} (f : StmtId → List Use) (hold : x ≠ old)
    (hnew : x ≠ new) : turnLists old new f x = f x := by
  rw [turnLists, Function.update_of_ne hnew, Function.update_of_ne hold]

theorem turnLists_comm (hapart : Apart s s' t t') (f : StmtId → List Use) :
    turnLists t t' (turnLists s s' f) = turnLists s s' (turnLists t t' f) := by
  rcases hapart with ⟨hst, hst', hs't, hs't'⟩
  -- Each reads two lists that the other does not write.
  have ht : turnLists s s' f t = f t := turnLists_of_ne f hst.symm hs't.symm
  have ht' : turnLists s s' f t' = f t' := turnLists_of_ne f hst'.symm hs't'.symm
  have hs : turnLists t t' f s = f s := turnLists_of_ne f hst hst'
  have hs' : turnLists t t' f s' = f s' := turnLists_of_ne f hs't hs't'
  calc
    turnLists t t' (turnLists s s' f)
        = Function.update (Function.update (Function.update (Function.update f s []) s'
            (f s' ++ f s)) t []) t' (f t' ++ f t) := by rw [turnLists, ht, ht', turnLists]
    _ = Function.update (Function.update (Function.update (Function.update f t []) s []) t'
            (f t' ++ f t)) s' (f s' ++ f s) := by
          rw [Function.update_comm hs't, Function.update_comm hs't', Function.update_comm hst]
    _ = Function.update (Function.update (Function.update (Function.update f t []) t'
            (f t' ++ f t)) s []) s' (f s' ++ f s) := by rw [Function.update_comm hst']
    _ = turnLists s s' (turnLists t t' f) := by rw [turnLists, hs, hs', turnLists]

theorem turnLists_dropLists (old new : StmtId) (doomed : List StmtId) (f : StmtId → List Use) :
    turnLists old new (dropLists doomed f) = dropLists doomed (turnLists old new f) := by
  funext x
  by_cases hxn : x = new
  · subst hxn
    simp [turnLists, dropLists]
  · by_cases hxo : x = old
    · subst hxo
      simp [turnLists, dropLists, hxn]
    · rw [turnLists_of_ne _ hxo hxn, dropLists, dropLists, turnLists_of_ne _ hxo hxn]

theorem dropLists_comm (here there : List StmtId) (f : StmtId → List Use) :
    dropLists there (dropLists here f) = dropLists here (dropLists there f) := by
  funext x
  exact List.filter_comm ..

theorem uses_replaced_eq (v : View) (s s' : StmtId) (here : List StmtId) :
    (v.replaced s s' here).uses = dropLists here (turnLists s s' v.uses) :=
  funext fun x => uses_replaced v s s' here x

theorem parent_replaced_eq (hnew : v.Placeable s') (howns : v.Owns s here) (x : StmtId) :
    (v.replaced s s' here).parent? x =
      if x ∈ here then none else if x = s' then v.parent? s else v.parent? x := by
  by_cases hx : x ∈ here
  · rw [if_pos hx]
    exact if_pos hx
  · rw [if_neg hx, parent_replaced hnew hx howns.self_mem]

theorem shape_replaced (v : View) (s s' : StmtId) (here : List StmtId) (x : StmtId) :
    ((v.replaced s s' here).kind? x).map Kind.shape = (v.kind? x).map Kind.shape := by
  rw [kind_replaced]
  cases hx : v.erased x <;> simp [redirect, hx, Function.comp_def]

/-! ## One replacement and what the other one discards -/

/-- What `t` owns does not change while a statement takes the place of one that is not owned by
`t`. -/
theorem Owns.replaced (howns : v.Owns t there) (hlinked : v.Linked) (hlive : v.erased s = false)
    (hs : s ∉ there) (s' : StmtId) (here : List StmtId) :
    (v.replaced s s' here).Owns t there := by
  refine Visits.congr howns (fun x hx => resolves_replaced.2 (howns.enter_of_mem hx)) ?_
  intro x hx
  have howned : (v.replaced s s' here).ownedChildren x = v.ownedChildren x := by
    simp only [ownedChildren, children_replaced, owner_replaced]
  have hbelow : s ∉ v.ownedBelow x := fun hmem => hs (howns.below_subset hx hmem)
  calc
    (v.replaced s s' here).ownedBelow x
        = (v.ownedChildren x).flatMap fun b => (v.listed b).map (turn s s') := by
          show ((v.replaced s s' here).ownedChildren x).flatMap _ = _
          rw [howned]
          exact List.flatMap_congr fun b _ => hlinked.listed_replaced hlive b
    _ = (v.ownedBelow x).map (turn s s') := List.map_flatMap.symm
    _ = (v.ownedBelow x).map id := by
          refine List.map_congr_left fun y hy => turn_of_ne ?_ s'
          rintro rfl
          exact hbelow hy
    _ = v.ownedBelow x := List.map_id _

/-- Each replacement detaches what it discards and gives the place of one statement to another, and
these are different ones. -/
theorem parent_replaced_comm (hapart : Apart s s' t t') (hhere : v.Owns s here)
    (hthere : v.Owns t there) (hhere₂ : (v.replaced t t' there).Owns s here)
    (hthere₁ : (v.replaced s s' here).Owns t there) (hst : t ∉ here) (hts : s ∉ there)
    (hs' : v.Placeable s') (ht' : v.Placeable t')
    (hs'₂ : (v.replaced t t' there).Placeable s') (ht'₁ : (v.replaced s s' here).Placeable t') :
    ((v.replaced s s' here).replaced t t' there).parent? =
      ((v.replaced t t' there).replaced s s' here).parent? := by
  -- What is placed second is live after the first replacement, so it has not gone with it.
  have ht'here : t' ∉ here := (live_replaced.1 ht'₁.live).1
  have hs'there : s' ∉ there := (live_replaced.1 hs'₂.live).1
  funext x
  rw [parent_replaced_eq ht'₁ hthere₁, parent_replaced_eq hs' hhere, parent_replaced_eq hs' hhere,
    parent_replaced_eq hs'₂ hhere₂, parent_replaced_eq ht' hthere, parent_replaced_eq ht' hthere]
  rw [if_neg hst, if_neg hts, if_neg hapart.new_old.symm, if_neg hapart.old_new]
  by_cases hxs' : x = s'
  · subst hxs'
    simp [hs'there, hapart.new_new]
  · by_cases hxt' : x = t'
    · subst hxt'
      simp [ht'here, hxs']
    · simp only [hxs', hxt', if_false]
      split <;> split <;> rfl

/-- Entries are dropped from the lists after the lists have been moved, or before. -/
theorem uses_replaced_comm (hapart : Apart s s' t t') (v : View) (here there : List StmtId) :
    ((v.replaced s s' here).replaced t t' there).uses =
      ((v.replaced t t' there).replaced s s' here).uses := by
  calc
    ((v.replaced s s' here).replaced t t' there).uses
        = dropLists there (turnLists t t' (dropLists here (turnLists s s' v.uses))) := by
          rw [uses_replaced_eq, uses_replaced_eq]
    _ = dropLists there (dropLists here (turnLists t t' (turnLists s s' v.uses))) := by
          rw [turnLists_dropLists]
    _ = dropLists here (dropLists there (turnLists s s' (turnLists t t' v.uses))) := by
          rw [dropLists_comm, turnLists_comm hapart]
    _ = dropLists here (turnLists s s' (dropLists there (turnLists t t' v.uses))) := by
          rw [turnLists_dropLists]
    _ = ((v.replaced t t' there).replaced s s' here).uses := by
          rw [uses_replaced_eq, uses_replaced_eq]

/-- The views after the two orders agree, provided that neither statement goes with the other one
and that in both orders there is a statement to place. -/
theorem Linked.sameLive_replaced (h : v.Linked) (h₁ : (v.replaced s s' here).Linked)
    (h₂ : (v.replaced t t' there).Linked) (hapart : Apart s s' t t')
    (hs : v.erased s = false) (ht : v.erased t = false)
    (hhere : v.Owns s here) (hthere : v.Owns t there) (hst : t ∉ here) (hts : s ∉ there)
    (hs' : v.Placeable s') (ht' : v.Placeable t')
    (hs'₂ : (v.replaced t t' there).Placeable s') (ht'₁ : (v.replaced s s' here).Placeable t') :
    SameLive ((v.replaced s s' here).replaced t t' there)
      ((v.replaced t t' there).replaced s s' here) := by
  have ht₁ : (v.replaced s s' here).erased t = false := live_replaced.2 ⟨hst, ht⟩
  have hs₂ : (v.replaced t t' there).erased s = false := live_replaced.2 ⟨hts, hs⟩
  have hhere₂ := hhere.replaced h ht hst t' there
  have hthere₁ := hthere.replaced h hs hts s' here
  refine
    { stmtCount := by simp only [stmtCount_replaced]
      blockCount := by simp only [blockCount_replaced]
      kind?_live := ?_
      kind?_shape := fun x => by simp only [shape_replaced]
      type? := by simp only [type_replaced]
      parent? := parent_replaced_comm hapart hhere hthere hhere₂ hthere₁ hst hts hs' ht' hs'₂ ht'₁
      listed := ?_
      owner? := by simp only [owner_replaced]
      uses := uses_replaced_comm hapart v here there
      erased := ?_ }
  · intro x hx
    rcases live_replaced.1 hx with ⟨hxthere, hx₁⟩
    rcases live_replaced.1 hx₁ with ⟨_, hlive⟩
    have hx₂ : (v.replaced t t' there).erased x = false := live_replaced.2 ⟨hxthere, hlive⟩
    rw [kind_replaced_of_live hx₁, kind_replaced_of_live hlive, kind_replaced_of_live hx₂,
      kind_replaced_of_live hlive]
    simp only [Option.map_map, Function.comp_def, Kind.mapSlots_mapSlots, turn_comm hapart]
  · funext c
    rw [h₁.listed_replaced ht₁, h.listed_replaced hs, h₂.listed_replaced hs₂, h.listed_replaced ht]
    simp only [List.map_map, Function.comp_def, turn_comm hapart]
  · funext x
    simp only [erased_replaced, Bool.or_left_comm]

end View

namespace Arena

variable {a : Arena} {s s' t t' : StmtId} {here there : List StmtId}

/-- Two attached statements of which neither owns the other can be replaced in either order. If
neither order faults, both lead to the same blocks, links, tombstones and lists of uses, and to the
same kinds of all live statements; a tombstone may have kept other operands. Cycles of ownership
elsewhere do no harm. -/
theorem Arises.replace_comm (h : a.Arises) {b c : BlockId} (hs : a.parent s = .ok (some b))
    (ht : a.parent t = .ok (some c)) (hhere : a.owned s = .ok here)
    (hthere : a.owned t = .ok there) (hst : t ∉ here) (hts : s ∉ there) {e₁ e₁₂ e₂ e₂₁ : Erasure}
    (h₁ : a.replace s s' = .ok e₁) (h₁₂ : e₁.arena.replace t t' = .ok e₁₂)
    (h₂ : a.replace t t' = .ok e₂) (h₂₁ : e₂.arena.replace s s' = .ok e₂₁) :
    View.SameLive e₁₂.arena.view e₂₁.arena.view := by
  rcases replaced_of_replace h h₁ with ⟨hss', hs', _, howns, _, hview₁⟩
  cases howns.unique (owned_eq_ok.1 hhere)
  rcases replaced_of_replace h h₂ with ⟨htt', ht', _, howns', _, hview₂⟩
  cases howns'.unique (owned_eq_ok.1 hthere)
  have harises₁ := h.replaced h₁
  have harises₂ := h.replaced h₂
  rcases replaced_of_replace harises₁ h₁₂ with ⟨_, ht'₁, there', hthere', _, hview₁₂⟩
  rcases replaced_of_replace harises₂ h₂₁ with ⟨_, hs'₂, here', hhere', _, hview₂₁⟩
  have hlinked₁ := harises₁.linked
  have hlinked₂ := harises₂.linked
  rw [hview₁] at hlinked₁ ht'₁ hthere' hview₁₂
  rw [hview₂] at hlinked₂ hs'₂ hhere' hview₂₁
  have hps : a.view.parent? s = some b := (parent_eq_ok.1 hs).2
  have hpt : a.view.parent? t = some c := (parent_eq_ok.1 ht).2
  have hlives := h.linked.live_of_parent hps
  have hlivet := h.linked.live_of_parent hpt
  -- The second replacement discards what it would have discarded as the first.
  cases hthere'.unique (howns'.replaced h.linked hlives hts s' here)
  cases hhere'.unique (howns.replaced h.linked hlivet hst t' there)
  have hapart : View.Apart s s' t t' := by
    refine ⟨?_, ?_, ?_, ?_⟩
    · rintro rfl
      exact hst howns.self_mem
    · rintro rfl
      rw [ht'.detached] at hps
      cases hps
    · rintro rfl
      rw [hs'.detached] at hpt
      cases hpt
    · -- After the first replacement `s'` is in a block.
      rintro rfl
      have hdetached := ht'₁.detached
      rw [View.parent_replaced_eq hs' howns, if_neg (h.linked.not_mem_owned hs' howns hss'),
        if_pos rfl, hps] at hdetached
      cases hdetached
  rw [hview₁₂, hview₂₁]
  exact h.linked.sameLive_replaced hlinked₁ hlinked₂ hapart hlives hlivet howns howns' hst hts hs'
    ht' hs'₂ ht'₁

/-- Two loops of which each is read in the other one's body, a sum that reads both, and for each of
the two a detached statement that reads the other. -/
def crosswise : Arena := ofEdits
  [.createBlock, .createBlock, .createBlock,
    .createStmt (.whileLoop ⟨1⟩) .void, .push ⟨0⟩ ⟨0⟩,
    .createStmt (.whileLoop ⟨2⟩) .void, .push ⟨0⟩ ⟨1⟩,
    .createStmt (.loopIndex ⟨1⟩ 0) .i32, .push ⟨1⟩ ⟨2⟩,
    .createStmt (.loopIndex ⟨0⟩ 0) .i32, .push ⟨2⟩ ⟨3⟩,
    .createStmt (.binary .add ⟨0⟩ ⟨1⟩) .i32, .push ⟨0⟩ ⟨4⟩,
    .createStmt (.print ⟨1⟩) .void, .createStmt (.print ⟨0⟩) .void]

theorem replace_comm_crosswise :
    crosswise.Arises ∧ crosswise.parent ⟨0⟩ = .ok (some ⟨0⟩) ∧
      crosswise.parent ⟨1⟩ = .ok (some ⟨0⟩) ∧ crosswise.owned ⟨0⟩ = .ok [⟨0⟩, ⟨2⟩] ∧
      crosswise.owned ⟨1⟩ = .ok [⟨1⟩, ⟨3⟩] ∧
      ∃ e₁ e₁₂ e₂ e₂₁, crosswise.replace ⟨0⟩ ⟨5⟩ = .ok e₁ ∧
        e₁.arena.replace ⟨1⟩ ⟨6⟩ = .ok e₁₂ ∧ crosswise.replace ⟨1⟩ ⟨6⟩ = .ok e₂ ∧
        e₂.arena.replace ⟨0⟩ ⟨5⟩ = .ok e₂₁ ∧ View.SameLive e₁₂.arena.view e₂₁.arena.view ∧
        e₁₂.arena.kind ⟨2⟩ = .ok (.loopIndex ⟨1⟩ 0) ∧
        e₂₁.arena.kind ⟨2⟩ = .ok (.loopIndex ⟨6⟩ 0) := by
  have hfirst : (do
      let e₁ ← crosswise.replace ⟨0⟩ ⟨5⟩
      let e₁₂ ← e₁.arena.replace ⟨1⟩ ⟨6⟩
      e₁₂.arena.kind ⟨2⟩) = .ok (.loopIndex ⟨1⟩ 0) := by decide +kernel
  have hsecond : (do
      let e₂ ← crosswise.replace ⟨1⟩ ⟨6⟩
      let e₂₁ ← e₂.arena.replace ⟨0⟩ ⟨5⟩
      e₂₁.arena.kind ⟨2⟩) = .ok (.loopIndex ⟨6⟩ 0) := by decide +kernel
  rcases bind_eq_ok.1 hfirst with ⟨e₁, h₁, hrest⟩
  rcases bind_eq_ok.1 hrest with ⟨e₁₂, h₁₂, hkind₁⟩
  rcases bind_eq_ok.1 hsecond with ⟨e₂, h₂, hrest⟩
  rcases bind_eq_ok.1 hrest with ⟨e₂₁, h₂₁, hkind₂⟩
  have harises : crosswise.Arises := arises_ofEdits _
  have hs : crosswise.parent ⟨0⟩ = .ok (some ⟨0⟩) := by decide +kernel
  have ht : crosswise.parent ⟨1⟩ = .ok (some ⟨0⟩) := by decide +kernel
  have hhere : crosswise.owned ⟨0⟩ = .ok [⟨0⟩, ⟨2⟩] := by decide +kernel
  have hthere : crosswise.owned ⟨1⟩ = .ok [⟨1⟩, ⟨3⟩] := by decide +kernel
  have hsame := harises.replace_comm hs ht hhere hthere (by decide) (by decide) h₁ h₁₂ h₂ h₂₁
  exact ⟨harises, hs, ht, hhere, hthere, e₁, e₁₂, e₂, e₂₁, h₁, h₁₂, h₂, h₂₁, hsame, hkind₁, hkind₂⟩

end Arena

end KernelIR
