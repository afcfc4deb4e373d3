import KernelIR.Proofs.Arena.Replacing
import KernelIR.Proofs.Tree.Cycles

/-!
# Replacing in a tree

A descent meets a statement and all that is below it in a row. Where one statement takes the place
of another, this row gives way to what the descent from the new statement meets, and the descent
goes the same way before and behind it. Nothing is asked of what the new statement holds, except
that it does not lead back to where the old one stood: its blocks may be blocks of the old one.
-/

namespace KernelIR

namespace View

variable {v : View} {root : Node} {old new s u : StmtId}
  {xs ss news front segment back : List StmtId}

/-! ## Segments -/

/-- Where nothing is met twice, what is met around a segment is not in it. -/
theorem not_mem_of_mem_around (honce : (front ++ (segment ++ back)).Nodup)
    (hu : u ∈ front ++ back) :
    u ∉ segment := by
  have hperm : (front ++ (segment ++ back)).Perm (segment ++ (front ++ back)) :=
    List.perm_append_comm_assoc front segment back
  have hboth : (segment ++ (front ++ back)).Nodup := hperm.nodup_iff.1 honce
  intro hmem
  exact (List.nodup_append.1 hboth).2.2 u hmem u hu rfl

theorem mem_of_mem_around (hu : u ∈ front ++ back) : u ∈ front ++ (segment ++ back) := by
  rcases List.mem_append.1 hu with hu | hu
  · exact List.mem_append_left _ hu
  · exact List.mem_append_right _ (List.mem_append_right _ hu)

/-- Every statement that a descent meets has a descent of its own, which meets nothing twice if the
whole does not. -/
theorem MeetsFrom.exists_meetsFrom_stmt (h : v.MeetsFrom root ss) (honce : ss.Nodup) (hu : u ∈ ss) :
    ∃ us, v.MeetsFrom (.stmt u) us ∧ us.Nodup := by
  rcases Visits.exists_segment h.2 hu with ⟨front, us, back, hus, rfl⟩
  have hsub : us.Sublist (front ++ (us ++ back)) :=
    (List.sublist_append_left us back).trans (List.sublist_append_right front _)
  exact ⟨us, meetsFrom_stmt.2 hus, honce.sublist hsub⟩

/-- A descent that does not come to the block of a statement does not meet the statement, unless it
starts there. -/
theorem Linked.not_mem_of_not_enters (h : v.Linked) {b : BlockId} (hp : v.parent? s = some b)
    (hmeets : v.MeetsFrom root ss) (hroot : root ≠ .stmt s) (hapart : ¬ v.Enters root b) :
    s ∉ ss := by
  intro hs
  rcases hmeets.cases_of_mem hs with heq | ⟨c, hc, hlisted⟩
  · exact hroot heq
  · exact hapart (h.listed_once b c s (h.listed_of_parent hp) hlisted ▸ hc)

/-! ## The descent after a replacement -/

/-- A descent that starts at a statement starts afterwards where that one has its new name. -/
theorem follow_stmt (s old new : StmtId) :
    (Node.stmt s).follow old new = .stmt (turn old new s) := by
  by_cases hs : s = old
  · simp [Node.follow, hs]
  · simp [Node.follow, hs, turn_of_ne hs]

theorem Linked.tops_replaced (h : v.Linked) (hlive : v.erased old = false) (root : Node)
    (new : StmtId) (doomed : List StmtId) :
    (v.replaced old new doomed).tops (root.follow old new) = (v.tops root).map (turn old new) := by
  cases root with
  | block b => exact h.listed_replaced hlive b
  | stmt s =>
      rw [follow_stmt]
      rfl

/-- What does not come to the old statement goes on as it did. -/
theorem Linked.meets_replaced (h : v.Linked) (hlive : v.erased old = false) (hmeets : v.Meets xs ss)
    (hnot : old ∉ ss) (new : StmtId) (doomed : List StmtId) :
    (v.replaced old new doomed).Meets (xs.map (turn old new)) ss :=
  Visits.rename hmeets hnot (fun _ hy => turn_of_ne hy new)
    (fun _ hy => resolves_replaced.2 (Visits.enter_of_mem hmeets hy))
    fun y _ => h.below_replaced hlive y

theorem Linked.meetsFrom_replaced_of_not_mem (h : v.Linked) (hlive : v.erased old = false)
    (hmeets : v.MeetsFrom root ss) (hnot : old ∉ ss) (new : StmtId) (doomed : List StmtId) :
    (v.replaced old new doomed).MeetsFrom root ss := by
  have hroot : root.follow old new = root := by
    refine if_neg ?_
    rintro rfl
    exact hnot (Visits.roots_subset hmeets.2 List.mem_cons_self)
  refine ⟨fun b hb => hasBlock_replaced.2 (hmeets.1 b hb), ?_⟩
  rw [← hroot, h.tops_replaced hlive]
  exact h.meets_replaced hlive hmeets.2 hnot new doomed

/-- What the descent meets from the old statement gives way to what it meets from the new one. -/
theorem Linked.meetsFrom_replaced (h : v.Linked) (hlive : v.erased old = false)
    (hmeets : v.MeetsFrom root ss) (honce : ss.Nodup) (hold : old ∈ ss)
    (hnew : v.Meets [new] news) (hapart : old ∉ news) (doomed : List StmtId) :
    ∃ front segment back, ss = front ++ (segment ++ back) ∧ v.Meets [old] segment ∧
      (v.replaced old new doomed).MeetsFrom (root.follow old new) (front ++ (news ++ back)) := by
  have hne : new ≠ old := by
    rintro rfl
    exact hapart (Visits.roots_subset hnew List.mem_cons_self)
  have hnews : (v.replaced old new doomed).Meets [new] news := by
    have hrenamed := h.meets_replaced hlive hnew hapart new doomed
    rwa [List.map_singleton, turn_of_ne hne] at hrenamed
  rcases Visits.exchange hmeets.2 hold honce (fun _ hy => turn_of_ne hy new) (turn_self old new)
    hnews (fun _ hy => resolves_replaced.2 (Visits.enter_of_mem hmeets.2 hy))
    (fun y _ => h.below_replaced hlive y) with ⟨front, segment, back, hss, hsegment, hvisits⟩
  refine ⟨front, segment, back, hss, hsegment, ?_, ?_⟩
  · intro b hb
    refine hasBlock_replaced.2 (hmeets.1 b ?_)
    rw [Node.follow] at hb
    split at hb
    · cases hb
    · exact hb
  · rw [h.tops_replaced hlive]
    exact hvisits

/-- In `w` the descent from `root` meets what it meets in `v`, but if it meets `old` there, the
segment of `old` has given way to `news`. -/
def GivesWay (v w : View) (root : Node) (old : StmtId) (segment news : List StmtId) : Prop :=
  ∃ ss, v.MeetsFrom root ss ∧ ((old ∉ ss ∧ w.MeetsFrom root ss) ∨
    ∃ front back, ss = front ++ (segment ++ back) ∧ w.MeetsFrom root (front ++ (news ++ back)))

theorem Linked.givesWay_replaced (h : v.Linked) (hlive : v.erased old = false)
    (hmeets : v.MeetsFrom root ss) (honce : ss.Nodup) (hroot : root ≠ .stmt old)
    (hsegment : v.Meets [old] segment) (hnew : v.Meets [new] news) (hapart : old ∉ news)
    (doomed : List StmtId) :
    v.GivesWay (v.replaced old new doomed) root old segment news := by
  refine ⟨ss, hmeets, ?_⟩
  by_cases hold : old ∈ ss
  · rcases h.meetsFrom_replaced hlive hmeets honce hold hnew hapart doomed with
      ⟨front, segment', back, hss, hsegment', hafter⟩
    rw [hsegment.unique hsegment']
    have hstays : root.follow old new = root := if_neg hroot
    exact .inr ⟨front, back, hss, hstays ▸ hafter⟩
  · exact .inl ⟨hold, h.meetsFrom_replaced_of_not_mem hlive hmeets hold new doomed⟩

end View

namespace Arena

variable {a : Arena} {root : Node} {b : BlockId} {old new : StmtId} {ss news : List StmtId}
  {e : Erasure}

/-- Let the descent from `root` end without meeting a statement twice, and let it meet the attached
statement `old` below where it starts; let the descent from `new` end without coming to the block of
`old`. If `new` replaces `old`, the list of what is met from `root` has afterwards, in the place of
the segment of `old`, what was met from `new`. A statement outside that segment is where it was and
holds the blocks that it held, and what is met from it undergoes at most the same exchange. -/
theorem Arises.collect_replace (h : a.Arises) (hss : a.collect root = .ok ss) (honce : ss.Nodup)
    (hold : old ∈ ss) (hbelow : root ≠ .stmt old) (hp : a.parent old = .ok (some b))
    (hnews : a.collect (.stmt new) = .ok news) (hapart : ¬ a.view.Enters (.stmt new) b)
    (hreplace : a.replace old new = .ok e) :
    ∃ front segment back, a.collect (.stmt old) = .ok segment ∧ ss = front ++ (segment ++ back) ∧
      e.arena.collect root = .ok (front ++ (news ++ back)) ∧
      e.arena.view.owner? = a.view.owner? ∧
      ∀ u ∈ front ++ back, e.arena.view.parent? u = a.view.parent? u ∧
        e.arena.view.children u = a.view.children u ∧
        a.view.GivesWay e.arena.view (.stmt u) old segment news := by
  have hlinked := h.linked
  have hplace := (parent_eq_ok.1 hp).2
  have hlive := hlinked.live_of_parent hplace
  have hmeets := collect_eq_ok.1 hss
  have hmeetsNew := collect_eq_ok.1 hnews
  rcases replaced_of_replace h hreplace with ⟨hne, hnew, doomed, howns, _, hview⟩
  have hnot : old ∉ news := by
    refine hlinked.not_mem_of_not_enters hplace hmeetsNew ?_ hapart
    intro heq
    cases heq
    exact hne rfl
  rcases hlinked.meetsFrom_replaced hlive hmeets honce hold hmeetsNew.2 hnot doomed with
    ⟨front, segment, back, rfl, hsegment, hafter⟩
  have hstays : root.follow old new = root := if_neg hbelow
  rw [hview]
  refine ⟨front, segment, back, collect_eq_ok.2 (View.meetsFrom_stmt.2 hsegment), rfl,
    collect_eq_ok.2 ?_, View.owner_replaced a.view old new doomed, ?_⟩
  · rwa [hview, ← hstays]
  intro u hu
  have huTree : u ∈ front ++ (segment ++ back) := View.mem_of_mem_around hu
  have huOut := View.not_mem_of_mem_around honce hu
  -- The new statement was in no block, so it is met at most where the descent from it starts.
  have huNew : u ≠ new := by
    rintro rfl
    rcases hmeets.cases_of_mem huTree with heq | ⟨c, _, hlisted⟩
    · subst heq
      exact hnot (hmeets.2.unique hmeetsNew.2 ▸ hold)
    · exact hlinked.not_listed hnew c hlisted
  have huStays : u ∉ doomed := fun hmem => huOut (howns.subset hsegment hmem)
  have huOld : Node.stmt u ≠ .stmt old := by
    intro heq
    cases heq
    exact huOut (Visits.roots_subset hsegment List.mem_cons_self)
  refine ⟨?_, View.children_replaced a.view old new doomed u, ?_⟩
  · rw [View.parent_replaced hnew huStays howns.self_mem, if_neg huNew]
  · rcases hmeets.exists_meetsFrom_stmt honce huTree with ⟨us, hus, honceU⟩
    exact hlinked.givesWay_replaced hlive hus honceU huOld hsegment hmeetsNew.2 hnot doomed

/-- A branch with two bodies in a loop, whose first body was released and is held by a new loop,
too. -/
def branchInLoop : Arena := ofEdits
  [.createBlock, .createBlock, .createBlock, .createBlock,
    .createStmt (.whileLoop ⟨1⟩) .void, .push ⟨0⟩ ⟨0⟩,
    .createStmt (.const (.int 1)) .i32, .push ⟨1⟩ ⟨1⟩,
    .createStmt (.ifElse ⟨1⟩ ⟨2⟩ (some ⟨3⟩)) .i32, .push ⟨1⟩ ⟨2⟩,
    .createStmt (.const (.int 2)) .i32, .push ⟨2⟩ ⟨3⟩,
    .createStmt (.const (.int 3)) .i32, .push ⟨3⟩ ⟨4⟩,
    .createStmt (.print ⟨1⟩) .void, .push ⟨1⟩ ⟨5⟩,
    .detachBlock ⟨2⟩, .createStmt (.whileLoop ⟨2⟩) .void]

/-- The new loop takes the place of the branch, and the first body stays in the list. -/
theorem collect_replace_moved_body :
    branchInLoop.collect (.block ⟨0⟩) = .ok [⟨0⟩, ⟨1⟩, ⟨2⟩, ⟨3⟩, ⟨4⟩, ⟨5⟩] ∧
      branchInLoop.collect (.stmt ⟨6⟩) = .ok [⟨6⟩, ⟨3⟩] ∧
      ∃ e, branchInLoop.replace ⟨2⟩ ⟨6⟩ = .ok e ∧
        e.arena.collect (.block ⟨0⟩) = .ok [⟨0⟩, ⟨1⟩, ⟨6⟩, ⟨3⟩, ⟨5⟩] ∧
        e.arena.view.parent? ⟨5⟩ = some ⟨1⟩ := by
  have hroot : branchInLoop.collect (.block ⟨0⟩) = .ok [⟨0⟩, ⟨1⟩, ⟨2⟩, ⟨3⟩, ⟨4⟩, ⟨5⟩] := by
    decide +kernel
  have hloop : branchInLoop.collect (.stmt ⟨6⟩) = .ok [⟨6⟩, ⟨3⟩] := by decide +kernel
  have hbranch : branchInLoop.collect (.stmt ⟨2⟩) = .ok [⟨2⟩, ⟨3⟩, ⟨4⟩] := by decide +kernel
  -- The descent from the new loop comes to the block of the branch only if it holds that block, or
  -- one of the statements that it meets does.
  have hapart : ¬ branchInLoop.view.Enters (.stmt ⟨6⟩) ⟨1⟩ := by
    intro henters
    rcases (collect_eq_ok.1 hloop).cases_of_enters henters with heq | ⟨s, hs, hheld⟩
    · cases heq
    · revert s
      decide +kernel
  refine ⟨hroot, hloop, ?_⟩
  have hok : (branchInLoop.replace ⟨2⟩ ⟨6⟩).toBool = true := by decide +kernel
  cases hreplace : branchInLoop.replace ⟨2⟩ ⟨6⟩ with
  | error fault =>
      rw [hreplace] at hok
      cases hok
  | ok e =>
      rcases (arises_ofEdits _ : branchInLoop.Arises).collect_replace hroot (by decide) (by decide)
        (by decide) (b := ⟨1⟩) (by decide +kernel) hloop hapart hreplace with
        ⟨front, segment, back, hsegment, hsplit, hafter, _, haround⟩
      cases hbranch.symm.trans hsegment
      have hends : [⟨0⟩, ⟨1⟩] = front ∧ _ ∧ [⟨3⟩, ⟨4⟩, ⟨5⟩] = [⟨3⟩, ⟨4⟩] ++ back :=
        (List.append_cons_inj_of_notMem (by decide) (by decide)).1 hsplit
      rcases hends with ⟨rfl, _, hback⟩
      cases hback
      rcases haround ⟨5⟩ (by decide) with ⟨hparent, _⟩
      refine ⟨e, rfl, hafter, ?_⟩
      rw [hparent]
      decide +kernel

end Arena

end KernelIR
