import KernelIR.Proofs.Rewrite.Acceptance
import KernelIR.Proofs.Rewrite.Additions
import KernelIR.Proofs.Rewrite.Preservation

/-!
# Failing runs

A run that fails does not undo anything, and does nothing by halves either. The tree is then as the
last replacement left it, and what a refused or failing generator made in vain is there as well:
live and detached, with its uses behind those that were recorded before. The check of the tree does
not notice these readers, since it reaches neither them nor their uses.
-/

namespace KernelIR

namespace View

variable {v w : View} {root : Node} {ss : List StmtId}

/-- New statements that nothing holds leave a valid tree as it is. -/
theorem Adds.valid (h : v.Adds w) (hvalid : v.Valid root ss) : w.Valid root ss := by
  refine ⟨h.meetsFrom hvalid.meets, ?_, ?_, ?_⟩
  · intro s hs
    rw [h.erased]
    exact hvalid.live s hs
  · intro s hs b hb
    rw [h.children] at hb
    rw [h.owner?]
    exact hvalid.owns s hs b hb
  · intro s hs t ht
    have hissued : v.HasStmt s := (hvalid.meets.2.enter_of_mem hs).1
    rw [h.operands hissued] at ht
    rcases hvalid.reads s hs t ht with ⟨hread, hlive, hplace⟩
    rw [h.erased, h.parent?]
    exact ⟨h.hasStmt hread, hlive, hplace⟩

/-- What is new is live and in no block. -/
theorem Adds.placeable (h : v.Adds w) (hindexed : v.Indexed) (hlinked : v.Linked) {n : StmtId}
    (hn : w.HasStmt n) (hnew : ¬ v.HasStmt n) : w.Placeable n := by
  refine ⟨hn, ?_, ?_⟩
  · rw [h.erased]
    exact hindexed.live_of_not_hasStmt hnew
  · rw [h.parent?]
    by_contra hne
    rcases Option.ne_none_iff_exists'.1 hne with ⟨b, hb⟩
    exact hnew (hlinked.issued_of_listed b n (hlinked.listed_of_parent hb)).1

end View

namespace Arena

variable {a a' : Arena} {s n : StmtId}

/-- What creating statements that hold no blocks, and read what is live and in a block, can make of
`a`. -/
inductive AddsReaders (a : Arena) : Arena → Prop
  | start : AddsReaders a a
  | create {now next : Arena} {k : Kind} {ty : ScalarType} {r : StmtId} :
      AddsReaders a now → k.children = [] →
        (∀ t ∈ k.operands, now.view.erased t = false ∧ now.view.parent? t ≠ none) →
          now.createStmt k ty = .ok (r, next) → AddsReaders a next

/-- Creating statements without blocks is a draft, whatever the match is. -/
theorem Adds.drafts (h : a.Adds a') (s : StmtId) : a.Drafts s a' := by
  induction h with
  | start => exact .start
  | create _ hk hcreate ih =>
      refine ih.edit ?_ (Edit.apply_createStmt_eq_ok.2 ⟨_, hcreate, rfl⟩)
      intro b hb
      rw [hk] at hb
      cases hb

namespace AddsReaders

theorem adds (h : a.AddsReaders a') : a.Adds a' := by
  induction h with
  | start => exact .start
  | create _ hk _ hcreate ih => exact ih.create hk hcreate

/-- What the new statements read is still live and in a block when all of them are made. -/
theorem reads (h : a.AddsReaders a') (ha : a.Arises) (hn : ¬ a.view.HasStmt n) :
    ∀ t ∈ a'.view.operands n, a'.view.erased t = false ∧ a'.view.parent? t ≠ none := by
  induction h with
  | start =>
      rw [ha.indexed.operands_of_not_hasStmt hn]
      exact fun t ht => nomatch ht
  | @create now next k ty r hbefore hk hreads hcreate ih =>
      have hindexed := (hbefore.adds.arises ha).indexed
      rcases of_createStmt hcreate with ⟨_, _, _, _, hview⟩
      have hlast := hindexed.adds_createStmt hk ty
      rw [hview, hlast.erased, hlast.parent?]
      -- The last one reads what it was made with, and the others have not changed.
      by_cases hlastMade : n = ⟨now.view.stmtCount⟩
      · subst hlastMade
        simpa [View.operands, View.createStmt] using hreads
      · have hsame : (now.view.createStmt k ty).operands n = now.view.operands n := by
          simp [View.operands, View.createStmt, hlastMade]
        rw [hsame]
        exact ih

/-- One of the new statements was drafted, whatever it is to replace. -/
theorem drafted (h : a.AddsReaders a') (ha : a.Arises) (s : StmtId) (hn : ¬ a.view.HasStmt n) :
    a.Drafted s a' n := by
  refine ⟨h.adds.drafts s, hn, ?_, fun m hm t ht => .inr (h.reads ha hm t ht)⟩
  intro m hm _
  rw [(h.adds.view ha).children, ha.indexed.children_of_not_hasStmt hm]

end AddsReaders

end Arena

namespace Rule

variable {σ : Type} {rule : Rule σ} {options : RunOptions} {x y : Position σ}

/-- Wherever a run from `x` comes to a match, the generator makes nothing but statements without
blocks that read what is live and in a block. Then it fails, or answers with something new, or with
something that is in a block. -/
def AddsReadersFrom (rule : Rule σ) (options : RunOptions) (x : Position σ) : Prop :=
  ∀ y s st answer a' st', rule.Reaches options x y →
    (rule.findMatch y.arena y.root).run y.state = .ok (some s, st) →
      ((rule.generate y.arena).run st).result = .ok ((answer, a'), st') →
        y.arena.AddsReaders a' ∧
          ∀ n, answer = .ok n → ¬ y.arena.view.HasStmt n ∨ a'.view.parent? n ≠ none

/-- All replacements of such a run are drafted, since what is in a block is refused. -/
theorem Reaches.passes_of_addsReaders (h : rule.Reaches options x y)
    (hadds : rule.AddsReadersFrom options x) (harises : x.arena.Arises)
    (hpasses : x.arena.Passes x.root) : y.arena.Arises ∧ y.arena.Passes y.root := by
  refine h.passes_of_drafted ?_ harises hpasses
  intro z s st n a' st' hreach hnow hfind hgenerate haccepted
  rcases hadds z s st (.ok n) a' st' hreach hfind hgenerate with ⟨hreaders, hanswer⟩
  -- What was accepted is detached, so it is one of the new statements.
  have hplaceable := (Arena.not_refused haccepted).2.1
  rcases hanswer n rfl with hnew | hattached
  · exact hreaders.drafted hnow s hnew
  · exact absurd hplaceable.detached hattached

/-- A round that fails leaves only readers behind. -/
theorem AddsReadersFrom.of_fails (h : rule.AddsReadersFrom options x)
    (hreach : rule.Reaches options x y) {error : RewriteError} {a : Arena} {st : σ}
    (hfails : rule.Fails options y a st error) : y.arena.AddsReaders a := by
  cases error with
  | nonConvergent limit s =>
      rcases hfails with ⟨_, _, rfl, _⟩
      exact .start
  | generator s reason =>
      rcases hfails with ⟨st', hfind, hgenerate⟩
      exact (h y s st' _ a st hreach hfind hgenerate).1
  | refused s r reason =>
      rcases hfails with ⟨st', hfind, hgenerate, _⟩
      exact (h y s st' _ a st hreach hfind hgenerate).1

/-- A run over a valid tree that fails, with a generator that only adds readers, ends where its last
replacement has led it, but for what the failing call of the generator has added: statements that
are live and detached and hold no blocks, and their uses. The tree is valid. -/
theorem run_failing {a : Arena} (h : a.Arises) {b : BlockId} (hpasses : a.Passes (.block b))
    {st : σ} (hadds : rule.AddsReadersFrom options (start a st (.block b)))
    {out : Outcome σ RewriteError Summary}
    (hrun : (rule.run options a st (.block b)).result = .ok out) {error : RewriteError}
    (herror : out.result = .error error) :
    ∃ swaps last, rule.Makes options (start a st (.block b)) swaps last ∧
      last.replacements = swaps.length ∧
      rule.roundAt options last = .ok (.failed error out.arena out.state) ∧
      rule.Fails options last out.arena out.state error ∧
      last.arena.view.Adds out.arena.view ∧
      (∀ n, out.arena.view.HasStmt n → ¬ last.arena.view.HasStmt n →
        out.arena.view.Placeable n) ∧
      out.arena.Passes (.block b) := by
  rcases run_eq_ok.1 hrun with ⟨last, hreach, _, hends⟩
  rcases hreach.exists_makes with ⟨swaps, hmakes⟩
  rcases hreach.passes_of_addsReaders hadds h hpasses with ⟨hlast, hlastPasses⟩
  cases hends with
  | settled hround => cases herror
  | @failed error' a' st' hround =>
      cases herror
      have hfails := of_failed hround
      have hreaders := hadds.of_fails hreach hfails
      -- What the failing call has made is nowhere in the tree, which therefore stays valid.
      have hview := hreaders.adds.view hlast
      refine ⟨swaps, last, hmakes, ?_, hround, hfails, hview, ?_, ?_⟩
      · rw [hmakes.replacements]
        exact Nat.zero_add _
      · exact fun n hn hnew => hview.placeable hlast.indexed hlast.linked hn hnew
      · rw [hreach.root_eq_block rfl] at hlastPasses
        rcases hlast.exists_valid_of_passes hlastPasses with ⟨ss, hvalid⟩
        exact (hreaders.adds.arises hlast).passes_of_valid (hview.valid hvalid)

/-! ## A run that is refused after a replacement -/

/-- Replaces the statements in its state one after another by the negation of the first statement,
except for the last one, for which it answers with the first statement itself. -/
def negateInTurn : Rule (List StmtId) where
  test _ s := do return (← get).head? == some s
  generate a := do
    let (s, a) ← (a.createStmt (.unary .neg ⟨0⟩) .i32 : Except Fault _)
    modify List.tail
    return (.ok (if (← get).isEmpty then ⟨0⟩ else s), a)

/-- Two constants, the first of which is printed. -/
def printedFirst : List Edit :=
  [.createBlock, .createStmt (.const (.int 1)) .i32, .push ⟨0⟩ ⟨0⟩,
    .createStmt (.const (.int 2)) .i32, .push ⟨0⟩ ⟨1⟩,
    .createStmt (.print ⟨0⟩) .void, .push ⟨0⟩ ⟨2⟩]

/-- The second constant has given way to a negation. -/
def negatedSecond : List Edit :=
  printedFirst ++ [.createStmt (.unary .neg ⟨0⟩) .i32, .replace ⟨1⟩ ⟨3⟩]

/-- After that a negation was made in vain. -/
def negatedInVain : List Edit :=
  negatedSecond ++ [.createStmt (.unary .neg ⟨0⟩) .i32]

theorem run_failing_in_vain :
    ∃ out, (negateInTurn.run ⟨none, 5⟩ (Arena.ofEdits printedFirst) [⟨1⟩, ⟨2⟩]
        (.block ⟨0⟩)).result = .ok out ∧
      out.result = .error (.refused ⟨2⟩ ⟨0⟩ .isAttached) ∧
      out.arena.view.uses ⟨0⟩ = [⟨⟨2⟩, 0⟩, ⟨⟨3⟩, 0⟩, ⟨⟨4⟩, 0⟩] ∧
      out.arena.view.Placeable ⟨4⟩ ∧ out.arena.Passes (.block ⟨0⟩) := by
  let options : RunOptions := ⟨none, 5⟩
  let first : Position (List StmtId) :=
    start (Arena.ofEdits printedFirst) [⟨1⟩, ⟨2⟩] (.block ⟨0⟩)
  let second : Position (List StmtId) := ⟨1, Arena.ofEdits negatedSecond, [⟨2⟩], .block ⟨0⟩⟩
  have hvalidate : first.arena.validate (.block ⟨0⟩) = .ok ⟨[], [], [], []⟩ := by decide +kernel
  have hrun : (negateInTurn.run options first.arena first.state (.block ⟨0⟩)).result =
      .ok ⟨.error (.refused ⟨2⟩ ⟨0⟩ .isAttached), Arena.ofEdits negatedInVain, []⟩ := by
    decide +kernel
  have hround : negateInTurn.roundAt options first =
      .ok (.replaced ⟨1⟩ ⟨3⟩ second.arena second.state) := by decide +kernel
  have hrefused : negateInTurn.roundAt options second =
      .ok (.failed (.refused ⟨2⟩ ⟨0⟩ .isAttached) (Arena.ofEdits negatedInVain) []) := by
    decide +kernel
  have hcreate : first.arena.createStmt (.unary .neg ⟨0⟩) .i32 =
      .ok (⟨3⟩, Arena.ofEdits (negatedSecond.take 8)) := by decide +kernel
  have hcreate' : second.arena.createStmt (.unary .neg ⟨0⟩) .i32 =
      .ok (⟨4⟩, Arena.ofEdits negatedInVain) := by decide +kernel
  have hfind : (negateInTurn.findMatch first.arena first.root).run first.state =
      .ok (some ⟨1⟩, first.state) := by decide +kernel
  have hfind' : (negateInTurn.findMatch second.arena second.root).run second.state =
      .ok (some ⟨2⟩, second.state) := by decide +kernel
  have hgenerate : ((negateInTurn.generate first.arena).run first.state).result =
      .ok ((.ok ⟨3⟩, Arena.ofEdits (negatedSecond.take 8)), [⟨2⟩]) := by decide +kernel
  have hgenerate' : ((negateInTurn.generate second.arena).run second.state).result =
      .ok ((.ok ⟨0⟩, Arena.ofEdits negatedInVain), []) := by decide +kernel
  have hadds : negateInTurn.AddsReadersFrom options first := by
    intro y s st answer a' st' hreach hmatch hanswer
    rcases hreach.cases_of_replaced hround with rfl | hreach
    · cases hfind.symm.trans hmatch
      cases hgenerate.symm.trans hanswer
      refine ⟨.create .start rfl ?_ hcreate, ?_⟩
      · intro t ht
        cases List.mem_singleton.1 ht
        decide +kernel
      · intro n hn
        cases hn
        exact .inl (by decide +kernel)
    · cases hreach.eq_of_ends (.failed hrefused)
      cases hfind'.symm.trans hmatch
      cases hgenerate'.symm.trans hanswer
      refine ⟨.create .start rfl ?_ hcreate', ?_⟩
      · intro t ht
        cases List.mem_singleton.1 ht
        decide +kernel
      · intro n hn
        cases hn
        exact .inr (by decide +kernel)
  rcases run_failing (Arena.arises_ofEdits printedFirst) ⟨_, hvalidate, rfl⟩ hadds hrun rfl with
    ⟨swaps, last, hmakes, _, hlastRound, _, _, hplaceable, hpasses⟩
  have hlast : last = second := by
    rcases hmakes.reaches.cases_of_replaced hround with rfl | hreach
    · cases hround.symm.trans hlastRound
    · exact (hreach.eq_of_ends (.failed hrefused)).symm
  subst hlast
  exact ⟨_, hrun, rfl, by decide +kernel, hplaceable ⟨4⟩ (by decide +kernel) (by decide +kernel),
    hpasses⟩

end Rule

end KernelIR
