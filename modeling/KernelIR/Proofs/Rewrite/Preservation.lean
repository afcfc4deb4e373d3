import KernelIR.Proofs.Rewrite.Rounds
import KernelIR.Proofs.Rewrite.Splice
import KernelIR.Proofs.Tree.Scan

/-!
# Runs preserve validity

A rule that drafts its replacements for the statements that it matches keeps a valid tree valid:
after every replacement of a run, and so wherever the run ends, the check of the current tree
passes. It does not matter what the rule tests for, how the replacement shares out the blocks of the
match, or how often the run starts again.
-/

namespace KernelIR

namespace Arena

variable {a a' : Arena} {root : Node} {ss : List StmtId} {s r : StmtId}

/-- Replacing a statement of a valid tree by what was drafted for it makes a valid tree. -/
theorem Drafted.valid_of_replace (h : a.Drafted s a' r) (harises : a.Arises)
    (hvalid : a.view.Valid root ss) (hs : s ∈ ss) {e : Erasure}
    (hreplace : a'.replace s r = .ok e) :
    e.arena.Arises ∧ ∃ ss', e.arena.view.Valid (root.follow s r) ss' := by
  have hissued : a.view.HasStmt s := (Visits.enter_of_mem hvalid.meets.2 hs).1
  have hdraft : a'.Arises := h.drafts.arises harises
  rcases replaced_of_replace hdraft hreplace with ⟨_, hplaceable, doomed, howns, hunread, hview⟩
  have hsplice : View.Splice a.view a'.view root ss s r doomed :=
    { valid := hvalid
      mem := hs
      indexed := harises.indexed
      linked := harises.linked
      linked' := hdraft.linked
      keeps := h.drafts.keeps harises hissued
      fresh := h.fresh
      leaves := h.leaves
      reads := h.reads
      placeable := hplaceable
      owns := howns
      unread := hunread }
  constructor
  · exact hdraft.replaced hreplace
  · rw [hview]
    exact hsplice.valid_replaced

end Arena

namespace Rule

variable {σ : Type} {rule : Rule σ} {options : RunOptions} {x y : Position σ}

/-- Wherever a run from `x` comes to a match and the generator answers with a replacement, it has
drafted it for the match. -/
def DraftsFrom (rule : Rule σ) (options : RunOptions) (x : Position σ) : Prop :=
  ∀ y s st r a' st', rule.Reaches options x y →
    (rule.findMatch y.arena y.root).run y.state = .ok (some s, st) →
      ((rule.generate y.arena).run st).result = .ok ((.ok r, a'), st') → y.arena.Drafted s a' r

/-- One round with a replacement keeps the tree valid, if what was accepted was drafted. -/
theorem Next.passes (hnext : rule.Next options x y)
    (hdrafts : ∀ s st r a' st', (rule.findMatch x.arena x.root).run x.state = .ok (some s, st) →
      ((rule.generate x.arena).run st).result = .ok ((.ok r, a'), st') →
        a'.refusal? s r = .ok none → x.arena.Drafted s a' r)
    (harises : x.arena.Arises) (hpasses : x.arena.Passes x.root) :
    y.arena.Arises ∧ y.arena.Passes y.root := by
  rcases hnext with ⟨s, r, hround, _, hroot⟩
  rcases of_replaced hround with ⟨_, st, a', hfind, hgenerate, haccepted, e, hreplace, hlast⟩
  rcases harises.passes_iff.1 hpasses with ⟨ss, hvalid⟩
  have hdrafted := hdrafts s st r a' y.state hfind hgenerate haccepted
  have hs : s ∈ ss := mem_of_findMatch hvalid.meets hfind
  rcases hdrafted.valid_of_replace harises hvalid hs hreplace with ⟨harises', hvalid'⟩
  rw [hroot, ← hlast]
  exact ⟨harises', harises'.passes_iff.2 hvalid'⟩

/-- A whole run keeps the tree valid, if what is accepted on its way was drafted. -/
theorem Reaches.passes_of_drafted (h : rule.Reaches options x y)
    (hdrafts : ∀ z s st r a' st', rule.Reaches options x z → z.arena.Arises →
      (rule.findMatch z.arena z.root).run z.state = .ok (some s, st) →
        ((rule.generate z.arena).run st).result = .ok ((.ok r, a'), st') →
          a'.refusal? s r = .ok none → z.arena.Drafted s a' r)
    (harises : x.arena.Arises) (hpasses : x.arena.Passes x.root) :
    y.arena.Arises ∧ y.arena.Passes y.root := by
  refine Reaches.invariant (P := fun z => z.arena.Arises ∧ z.arena.Passes z.root) h
    ⟨harises, hpasses⟩ ?_
  intro z w hreach hz hnext
  exact hnext.passes (fun s st r a' st' => hdrafts z s st r a' st' hreach hz.1) hz.1 hz.2

theorem Reaches.passes (h : rule.Reaches options x y) (hdrafts : rule.DraftsFrom options x)
    (harises : x.arena.Arises) (hpasses : x.arena.Passes x.root) :
    y.arena.Arises ∧ y.arena.Passes y.root := by
  refine h.passes_of_drafted ?_ harises hpasses
  intro z s st r a' st' hreach _ hfind hgenerate _
  exact hdrafts z s st r a' st' hreach hfind hgenerate

/-- Every tree that a run leaves behind is valid: after each replacement, when the run has ended
well, and when it has given up at its bound. -/
theorem run_passes {a : Arena} {st : σ} {root : Node} (harises : a.Arises) (hpasses : a.Passes root)
    (hdrafts : rule.DraftsFrom options (start a st root)) :
    (∀ x, rule.Reaches options (start a st root) x → x.arena.Passes x.root) ∧
      ∀ out, (rule.run options a st root).result = .ok out →
        match out.result with
        | .ok summary => out.arena.Passes summary.root
        | .error (.nonConvergent _ _) => ∀ b, root = .block b → out.arena.Passes root
        | .error _ => True := by
  have hall : ∀ x, rule.Reaches options (start a st root) x → x.arena.Passes x.root :=
    fun x hreach => (hreach.passes hdrafts harises hpasses).2
  refine ⟨hall, ?_⟩
  intro out hrun
  rcases run_eq_ok.1 hrun with ⟨last, hreach, _, hends⟩
  cases hends with
  | settled hround => exact hall last hreach
  | @failed error a' st' hround =>
      cases error with
      | nonConvergent limit s =>
          -- Giving up leaves the arena as it was, and a block root does not move.
          rcases of_nonConvergent hround with ⟨_, _, rfl, _⟩
          intro b hb
          rw [hb, ← hreach.root_eq_block hb]
          exact hall last hreach
      | generator s reason => trivial
      | refused s r reason => trivial

/-! ## A run that moves one branch and discards the other -/

/-- Whether a statement is a branch. -/
def isBranch (a : Arena) (s : StmtId) : Except Fault Bool := do
  return (← a.kind s).name == "if"

/-- A branch on a constant, whose first body prints the branch itself. -/
def branching : List Edit :=
  [.createBlock, .createBlock, .createBlock, .createStmt (.const (.int 1)) .i32, .push ⟨0⟩ ⟨0⟩,
    .createStmt (.ifElse ⟨0⟩ ⟨1⟩ (some ⟨2⟩)) .i32, .push ⟨0⟩ ⟨1⟩,
    .createStmt (.print ⟨1⟩) .void, .push ⟨1⟩ ⟨2⟩,
    .createStmt (.const (.int 2)) .i32, .push ⟨2⟩ ⟨3⟩]

/-- A loop over the first body, with its bound before the branch. -/
def loopDraft : List Edit :=
  [.createStmt (.const (.int 5)) .i32, .insertBefore ⟨0⟩ ⟨1⟩ ⟨4⟩, .detachBlock ⟨1⟩,
    .createStmt (.rangeFor ⟨0⟩ ⟨4⟩ ⟨1⟩) .i32]

/-- The same with the loop for the branch. -/
def looping : List Edit :=
  branching ++ loopDraft ++ [.replace ⟨1⟩ ⟨5⟩]

/-- Branches become loops. -/
def loopForBranch : Rule Unit where
  test a s := (isBranch a s : Except Fault Bool)
  generate a := do
    let a ← Edit.applyAll a loopDraft
    return (.ok ⟨5⟩, a)

/-- The draft for the branch, edit by edit. -/
theorem drafts_loop : (Arena.ofEdits branching).Drafts ⟨1⟩
    (Arena.ofEdits (branching ++ loopDraft)) := by
  have hconst : ((Edit.createStmt (.const (.int 5)) .i32).apply (Arena.ofEdits branching)).result =
      .ok (.stmt ⟨4⟩, Arena.ofEdits (branching ++ loopDraft.take 1)) := by decide +kernel
  have hinsert : ((Edit.insertBefore ⟨0⟩ ⟨1⟩ ⟨4⟩).apply
      (Arena.ofEdits (branching ++ loopDraft.take 1))).result =
        .ok (.done, Arena.ofEdits (branching ++ loopDraft.take 2)) := by decide +kernel
  have hdetach : ((Edit.detachBlock ⟨1⟩).apply
      (Arena.ofEdits (branching ++ loopDraft.take 2))).result =
        .ok (.owner (some ⟨1⟩), Arena.ofEdits (branching ++ loopDraft.take 3)) := by decide +kernel
  have hloop : ((Edit.createStmt (.rangeFor ⟨0⟩ ⟨4⟩ ⟨1⟩) .i32).apply
      (Arena.ofEdits (branching ++ loopDraft.take 3))).result =
        .ok (.stmt ⟨5⟩, Arena.ofEdits (branching ++ loopDraft)) := by decide +kernel
  have howner : (Arena.ofEdits (branching ++ loopDraft.take 2)).view.owner? ⟨1⟩ = some ⟨1⟩ := by
    decide +kernel
  refine .edit (.edit (.edit (.edit .start ?_ hconst) ?_ hinsert) ?_ hdetach) ?_ hloop
  · intro b hb
    cases hb
  · exact ⟨by decide +kernel, rfl, by decide +kernel⟩
  · refine ⟨by decide +kernel, ?_⟩
    intro o ho
    rw [howner] at ho
    exact (Option.some.inj ho).symm
  · intro b hb
    cases List.mem_singleton.1 hb
    exact .inr (by decide +kernel)

theorem drafted_loop : (Arena.ofEdits branching).Drafted ⟨1⟩
    (Arena.ofEdits (branching ++ loopDraft)) ⟨5⟩ := by
  have hbefore : (Arena.ofEdits branching).view.stmtCount = 4 := by decide +kernel
  have hafter : (Arena.ofEdits (branching ++ loopDraft)).view.stmtCount = 6 := by decide +kernel
  have hindexed := (Arena.arises_ofEdits (branching ++ loopDraft)).indexed
  -- Two statements are new, and what was never created reads and holds nothing.
  have hnew : ∀ n, ¬ (Arena.ofEdits branching).view.HasStmt n →
      n = ⟨4⟩ ∨ n = ⟨5⟩ ∨ ¬ (Arena.ofEdits (branching ++ loopDraft)).view.HasStmt n := by
    rintro ⟨i⟩ hn
    simp only [View.HasStmt, hbefore, hafter, StmtId.mk.injEq] at hn ⊢
    omega
  refine ⟨drafts_loop, by decide +kernel, ?_, ?_⟩
  · intro n hn hne
    rcases hnew n hn with rfl | rfl | hbeyond
    · decide +kernel
    · exact absurd rfl hne
    · exact hindexed.children_of_not_hasStmt hbeyond
  · intro n hn
    rcases hnew n hn with rfl | rfl | hbeyond
    · decide +kernel
    · decide +kernel
    · rw [hindexed.operands_of_not_hasStmt hbeyond]
      exact fun t ht => nomatch ht

/-- The branch gives way to a loop over its first body, and the second body goes. -/
theorem run_passes_moved_branch :
    (Arena.ofEdits branching).Passes (.block ⟨0⟩) ∧
      (loopForBranch.run ⟨none, 5⟩ (Arena.ofEdits branching) () (.block ⟨0⟩)).result =
        .ok ⟨.ok ⟨1, 2, .block ⟨0⟩⟩, Arena.ofEdits looping, ()⟩ ∧
      (Arena.ofEdits looping).collect (.block ⟨0⟩) = .ok [⟨0⟩, ⟨4⟩, ⟨5⟩, ⟨2⟩] ∧
      (Arena.ofEdits looping).Passes (.block ⟨0⟩) := by
  have hvalidate : (Arena.ofEdits branching).validate (.block ⟨0⟩) = .ok ⟨[], [], [], []⟩ := by
    decide +kernel
  have hpasses : (Arena.ofEdits branching).Passes (.block ⟨0⟩) := ⟨_, hvalidate, rfl⟩
  have hrun : (loopForBranch.run ⟨none, 5⟩ (Arena.ofEdits branching) () (.block ⟨0⟩)).result =
      .ok ⟨.ok ⟨1, 2, .block ⟨0⟩⟩, Arena.ofEdits looping, ()⟩ := by decide +kernel
  have hfirst : loopForBranch.roundAt ⟨none, 5⟩ (start (Arena.ofEdits branching) () (.block ⟨0⟩)) =
      .ok (.replaced ⟨1⟩ ⟨5⟩ (Arena.ofEdits looping) ()) := by decide +kernel
  have hsecond : loopForBranch.roundAt ⟨none, 5⟩ ⟨1, Arena.ofEdits looping, (), .block ⟨0⟩⟩ =
      .ok (.settled ()) := by decide +kernel
  have hmatch : (loopForBranch.findMatch (Arena.ofEdits branching) (.block ⟨0⟩)).run () =
      .ok (some ⟨1⟩, ()) := by decide +kernel
  have hgenerate : ((loopForBranch.generate (Arena.ofEdits branching)).run ()).result =
      .ok ((.ok ⟨5⟩, Arena.ofEdits (branching ++ loopDraft)), ()) := by decide +kernel
  have hnoMatch : (loopForBranch.findMatch (Arena.ofEdits looping) (.block ⟨0⟩)).run () =
      .ok (none, ()) := by decide +kernel
  have hdrafts : loopForBranch.DraftsFrom ⟨none, 5⟩
      (start (Arena.ofEdits branching) () (.block ⟨0⟩)) := by
    intro x s st r a' st' hreach hfind hanswer
    rcases hreach.cases_of_replaced hfirst with rfl | hreach
    · cases hmatch.symm.trans hfind
      cases hgenerate.symm.trans hanswer
      exact drafted_loop
    · cases hreach.eq_of_settled hsecond
      cases hnoMatch.symm.trans hfind
  rcases run_passes (Arena.arises_ofEdits branching) hpasses hdrafts with ⟨_, hends⟩
  exact ⟨hpasses, hrun, by decide +kernel, hends _ hrun⟩

end Rule

end KernelIR
